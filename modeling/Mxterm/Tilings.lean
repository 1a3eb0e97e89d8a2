import Mathlib.Tactic.Linarith
import Mathlib.Tactic.Ring
import Mathlib.Tactic.Positivity

/-! Rectangles over an ordered field, and lists of rectangles that tile a rectangle. -/
namespace Mxterm.Tilings

structure Rectangle (K : Type) where
  left : K
  top : K
  width : K
  height : K
  deriving DecidableEq

variable {K : Type} [CommRing K] [LinearOrder K]

namespace Rectangle

def area (a : Rectangle K) : K := a.width * a.height

def Proper (a : Rectangle K) : Prop := 0 < a.width ∧ 0 < a.height

def Within (a b : Rectangle K) : Prop :=
  b.left ≤ a.left ∧ a.left + a.width ≤ b.left + b.width ∧
    b.top ≤ a.top ∧ a.top + a.height ≤ b.top + b.height

/-- The insides of two rectangles meet. -/
def Overlaps (a b : Rectangle K) : Prop :=
  (a.left < b.left + b.width ∧ b.left < a.left + a.width) ∧
    a.top < b.top + b.height ∧ b.top < a.top + a.height

theorem Within.refl (a : Rectangle K) : a.Within a := ⟨le_refl _,le_refl _,le_refl _,le_refl _⟩

variable {a b : Rectangle K}

theorem Within.trans {c : Rectangle K} (hab : a.Within b) (hbc : b.Within c) : a.Within c :=
  ⟨hbc.1.trans hab.1,hab.2.1.trans hbc.2.1,hbc.2.2.1.trans hab.2.2.1,hab.2.2.2.trans hbc.2.2.2⟩

theorem Overlaps.symm (h : a.Overlaps b) : b.Overlaps a :=
  ⟨⟨h.1.2,h.1.1⟩,h.2.2,h.2.1⟩

theorem Overlaps.mono {c d : Rectangle K} (h : a.Overlaps b) (hac : a.Within c) (hbd : b.Within d) : c.Overlaps d :=
  ⟨⟨lt_of_le_of_lt hac.1 (lt_of_lt_of_le h.1.1 hbd.2.1),
    lt_of_le_of_lt hbd.1 (lt_of_lt_of_le h.1.2 hac.2.1)⟩,
    lt_of_le_of_lt hac.2.2.1 (lt_of_lt_of_le h.2.1 hbd.2.2.2),
    lt_of_le_of_lt hbd.2.2.1 (lt_of_lt_of_le h.2.2 hac.2.2.2)⟩

/-- The two parts of a rectangle to the left and to the right of a cut. -/
def leftPart (a : Rectangle K) (ratio : K) : Rectangle K := { a with width := a.width * ratio }
def rightPart (a : Rectangle K) (ratio : K) : Rectangle K :=
  { a with left := a.left + a.width * ratio, width := a.width - a.width * ratio }

/-- The two parts of a rectangle above and below a cut. -/
def upperPart (a : Rectangle K) (ratio : K) : Rectangle K := { a with height := a.height * ratio }
def lowerPart (a : Rectangle K) (ratio : K) : Rectangle K :=
  { a with top := a.top + a.height * ratio, height := a.height - a.height * ratio }

end Rectangle

/-- Proper rectangles that fill a rectangle without overlapping. -/
structure Tiles (pieces : List (Rectangle K)) (whole : Rectangle K) : Prop where
  proper : ∀ piece ∈ pieces, piece.Proper
  within : ∀ piece ∈ pieces, piece.Within whole
  apart : pieces.Pairwise fun a b => ¬ a.Overlaps b
  area : (pieces.map Rectangle.area).sum = whole.area

namespace Tiles

variable {pieces more : List (Rectangle K)} {a b whole : Rectangle K}

theorem single (h : whole.Proper) : Tiles [whole] whole where
  proper := by simpa using h
  within := by simpa using Rectangle.Within.refl whole
  apart := List.pairwise_singleton _ _
  area := by simp

/-- Two tilings side by side. -/
theorem append (ha : Tiles pieces a) (hb : Tiles more b) (hwithin : a.Within whole)
    (hwithin' : b.Within whole) (hapart : ¬ a.Overlaps b) (harea : a.area + b.area = whole.area) :
    Tiles (pieces ++ more) whole where
  proper := by
    intro piece hpiece
    rcases List.mem_append.mp hpiece with h | h
    · exact ha.proper piece h
    · exact hb.proper piece h
  within := by
    intro piece hpiece
    rcases List.mem_append.mp hpiece with h | h
    · exact (ha.within piece h).trans hwithin
    · exact (hb.within piece h).trans hwithin'
  apart := by
    apply List.pairwise_append.mpr
    refine ⟨ha.apart,hb.apart,?_⟩
    intro piece hpiece piece' hpiece' hoverlaps
    exact hapart (hoverlaps.mono (ha.within piece hpiece) (hb.within piece' hpiece'))
  area := by rw [List.map_append,List.sum_append,ha.area,hb.area,harea]

theorem of_perm (h : Tiles pieces whole) (hperm : pieces.Perm more) : Tiles more whole where
  proper := fun piece hpiece => h.proper piece (hperm.mem_iff.mpr hpiece)
  within := fun piece hpiece => h.within piece (hperm.mem_iff.mpr hpiece)
  apart := (hperm.pairwise_iff fun hapart hoverlaps => hapart hoverlaps.symm).mp h.apart
  area := by rw [← (hperm.map Rectangle.area).sum_eq,h.area]

end Tiles

section Cuts

variable [IsStrictOrderedRing K] {whole : Rectangle K} {ratio : K}

theorem Rectangle.Proper.leftPart (h : whole.Proper) (hpos : 0 < ratio) :
    (whole.leftPart ratio).Proper := ⟨mul_pos h.1 hpos,h.2⟩

theorem Rectangle.Proper.rightPart (h : whole.Proper) (hlt : ratio < 1) :
    (whole.rightPart ratio).Proper :=
  ⟨by have hmul := mul_lt_mul_of_pos_left hlt h.1; simp only [Rectangle.rightPart]; linarith,h.2⟩

theorem Rectangle.Proper.upperPart (h : whole.Proper) (hpos : 0 < ratio) :
    (whole.upperPart ratio).Proper := ⟨h.1,mul_pos h.2 hpos⟩

theorem Rectangle.Proper.lowerPart (h : whole.Proper) (hlt : ratio < 1) :
    (whole.lowerPart ratio).Proper :=
  ⟨h.1,by have hmul := mul_lt_mul_of_pos_left hlt h.2; simp only [Rectangle.lowerPart]; linarith⟩

/-- Tilings of the two parts beside a cut tile the whole. -/
theorem Tiles.beside {pieces more : List (Rectangle K)} (h : whole.Proper) (hpos : 0 < ratio)
    (hlt : ratio < 1) (hleft : Tiles pieces (whole.leftPart ratio))
    (hright : Tiles more (whole.rightPart ratio)) : Tiles (pieces ++ more) whole := by
  have hcut := mul_lt_mul_of_pos_left hlt h.1
  have hfront := mul_pos h.1 hpos
  refine hleft.append hright ?_ ?_ ?_ ?_
  · exact ⟨le_refl _,by simp only [Rectangle.leftPart]; linarith,le_refl _,le_refl _⟩
  · exact ⟨by simp only [Rectangle.rightPart]; linarith,by simp only [Rectangle.rightPart]; linarith,
      le_refl _,le_refl _⟩
  · intro hoverlaps
    exact lt_irrefl _ hoverlaps.1.2
  · simp only [Rectangle.area,Rectangle.leftPart,Rectangle.rightPart]
    ring

/-- Tilings of the two parts above and below a cut tile the whole. -/
theorem Tiles.stacked {pieces more : List (Rectangle K)} (h : whole.Proper) (hpos : 0 < ratio)
    (hlt : ratio < 1) (hupper : Tiles pieces (whole.upperPart ratio))
    (hlower : Tiles more (whole.lowerPart ratio)) : Tiles (pieces ++ more) whole := by
  have hcut := mul_lt_mul_of_pos_left hlt h.2
  have hfront := mul_pos h.2 hpos
  refine hupper.append hlower ?_ ?_ ?_ ?_
  · exact ⟨le_refl _,le_refl _,le_refl _,by simp only [Rectangle.upperPart]; linarith⟩
  · exact ⟨le_refl _,le_refl _,by simp only [Rectangle.lowerPart]; linarith,
      by simp only [Rectangle.lowerPart]; linarith⟩
  · intro hoverlaps
    exact lt_irrefl _ hoverlaps.2.2
  · simp only [Rectangle.area,Rectangle.upperPart,Rectangle.lowerPart]
    ring

end Cuts

end Mxterm.Tilings
