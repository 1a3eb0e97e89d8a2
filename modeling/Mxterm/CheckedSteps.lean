import Mathlib.Data.List.TakeWhile
import Mxterm.Utf8Chunks

/-! Computations over machine integers and over the bytes of texts, together with the steps that can go wrong on
the way: an addition can leave its width, a cast can lose its value, an index or a slice can be out of range or cut
a character. The values go on as an unchecked build computes them. -/
namespace Mxterm.CheckedSteps

open List

/-- Where a text can be cut: at its ends, and before every byte that begins a character. -/
def IsBoundary (bytes : List UInt8) (i : ℕ) : Prop :=
  i = 0 ∨ i = bytes.length ∨ ∃ b, bytes[i]? = some b ∧ Utf8.begins b = true

inductive Step
  | add (bits a b : ℕ)
  | narrow (bits n : ℕ)
  | index (length i : ℕ)
  | slice (bytes : List UInt8) (start stop : ℕ)
  /-- A slice of a list, from an index to its end. -/
  | rest (length start : ℕ)

def Step.InRange : Step → Prop
  | .add bits a b => a + b < 2 ^ bits
  | .narrow bits n => n < 2 ^ bits
  | .index length i => i < length
  | .slice bytes start stop => start ≤ stop ∧ IsBoundary bytes start ∧ IsBoundary bytes stop
  | .rest length start => start ≤ length

structure Checked (α : Type) where
  value : α
  steps : List Step

namespace Checked
variable {α β : Type}

instance : Monad Checked where
  pure a := ⟨a,[]⟩
  bind x f := ⟨(f x.value).value,x.steps ++ (f x.value).steps⟩

def Safe (x : Checked α) : Prop := ∀ step ∈ x.steps, step.InRange

def add (bits a b : ℕ) : Checked ℕ := ⟨(a + b) % 2 ^ bits,[.add bits a b]⟩

/-- The numbers are added one after another. -/
def sum (bits : ℕ) : ℕ → List ℕ → Checked ℕ
  | acc, [] => pure acc
  | acc, n :: ns => add bits acc n >>= fun acc => sum bits acc ns

def narrow (bits n : ℕ) : Checked ℕ := ⟨n % 2 ^ bits,[.narrow bits n]⟩

def index [Inhabited α] (l : List α) (i : ℕ) : Checked α := ⟨l.getD i default,[.index l.length i]⟩

def rest (l : List α) (start : ℕ) : Checked (List α) := ⟨l.drop start,[.rest l.length start]⟩

def slice (bytes : List UInt8) (start stop : ℕ) : Checked String :=
  ⟨Utf8.decodeLossy ((bytes.drop start).take (stop - start)),[.slice bytes start stop]⟩

/-- A computation for each element. -/
def each (f : α → Checked β) : List α → Checked (List β)
  | [] => pure []
  | a :: as => do
    let b ← f a
    let bs ← each f as
    return b :: bs

/-- A computation for each element, which changes what was made so far. -/
def fold (f : β → α → Checked β) : β → List α → Checked β
  | b, [] => pure b
  | b, a :: as => f b a >>= fun b => fold f b as

@[simp] theorem value_pure (a : α) : (pure a : Checked α).value = a := rfl

@[simp] theorem value_bind (x : Checked α) (f : α → Checked β) : (x >>= f).value = (f x.value).value := rfl

@[simp] theorem safe_pure (a : α) : (pure a : Checked α).Safe := fun _ h => nomatch h

variable {x : Checked α} {f : α → Checked β}

@[simp] theorem safe_bind : (x >>= f).Safe ↔ x.Safe ∧ (f x.value).Safe :=
  forall_mem_append

@[simp] theorem safe_map {f : α → β} : (f <$> x).Safe ↔ x.Safe := by
  change (x >>= fun a => pure (f a)).Safe ↔ _
  simp

@[simp] theorem value_map {f : α → β} : (f <$> x).value = f x.value := rfl

variable {bits : ℕ}

@[simp] theorem safe_add {a b : ℕ} : (add bits a b).Safe ↔ a + b < 2 ^ bits := by
  simp [Safe,add,Step.InRange]

@[simp] theorem safe_narrow {n : ℕ} : (narrow bits n).Safe ↔ n < 2 ^ bits := by
  simp [Safe,narrow,Step.InRange]

variable {l : List α}

@[simp] theorem safe_index [Inhabited α] {i : ℕ} : (index l i).Safe ↔ i < l.length := by
  simp [Safe,index,Step.InRange]

@[simp] theorem safe_rest {start : ℕ} : (rest l start).Safe ↔ start ≤ l.length := by
  simp [Safe,rest,Step.InRange]

@[simp] theorem safe_slice {bytes : List UInt8} {start stop : ℕ} :
    (slice bytes start stop).Safe ↔ start ≤ stop ∧ IsBoundary bytes start ∧ IsBoundary bytes stop := by
  simp [Safe,slice,Step.InRange]

/-- A sum is in range when the numbers together are: the numbers so far are no more. -/
theorem safe_sum {acc : ℕ} {ns : List ℕ} (hacc : acc < 2 ^ bits) :
    (sum bits acc ns).Safe ↔ acc + ns.sum < 2 ^ bits := by
  induction ns generalizing acc with
  | nil => simpa [sum] using hacc
  | cons n ns ih =>
    rw [sum,safe_bind,safe_add,sum_cons]
    constructor
    · intro h
      have hvalue : (add bits acc n).value = acc + n := Nat.mod_eq_of_lt h.1
      have hmore := h.2
      rw [hvalue,ih h.1] at hmore
      omega
    · intro h
      have hfirst : acc + n < 2 ^ bits := by omega
      have hvalue : (add bits acc n).value = acc + n := Nat.mod_eq_of_lt hfirst
      rw [hvalue,ih hfirst]
      exact ⟨hfirst,by omega⟩

theorem safe_each : (each f l).Safe ↔ ∀ a ∈ l, (f a).Safe := by
  induction l with
  | nil => simp [each]
  | cons a l ih => simp [each,ih]

/-- The steps of a fold are those of its rounds, when these do not depend on what was made so far. -/
theorem safe_fold {f : β → α → Checked β} {p : α → Prop} (hf : ∀ b a, (f b a).Safe ↔ p a) (b : β) :
    (fold f b l).Safe ↔ ∀ a ∈ l, p a := by
  induction l generalizing b with
  | nil => simp [fold]
  | cons a l ih => simp [fold,hf,ih]

end Checked

/-! ## Positions in a text -/

/-- Where the bytes that have a property end, from an index on. -/
def scan (p : UInt8 → Bool) (bytes : List UInt8) (i : ℕ) : ℕ := i + ((bytes.drop i).takeWhile p).length

section
variable {bytes : List UInt8} {p : UInt8 → Bool} {i : ℕ} {b : UInt8}

theorem le_scan (p : UInt8 → Bool) (bytes : List UInt8) (i : ℕ) : i ≤ scan p bytes i := Nat.le_add_right _ _

theorem scan_le (h : i ≤ bytes.length) : scan p bytes i ≤ bytes.length := by
  have hlength := ( takeWhile_prefix p (l := bytes.drop i)).length_le
  rw [length_drop] at hlength
  unfold scan
  omega

/-- A scan stops at a byte without the property, or at the end. -/
theorem scan_stops (h : scan p bytes i < bytes.length) : ∃ b, bytes[scan p bytes i]? = some b ∧ p b = false := by
  have hsplit : (bytes.drop i).takeWhile p ++ (bytes.drop i).dropWhile p = bytes.drop i :=
    takeWhile_append_dropWhile
  cases hrest : (bytes.drop i).dropWhile p with
  | nil =>
    rw [hrest,append_nil] at hsplit
    have hlength := congrArg List.length hsplit
    rw [length_drop] at hlength
    unfold scan at h
    omega
  | cons b rest =>
    rw [hrest] at hsplit
    have hget : (bytes.drop i)[((bytes.drop i).takeWhile p).length]? = some b := by
      have happend : ((bytes.drop i).takeWhile p ++ b :: rest)[((bytes.drop i).takeWhile p).length]? = some b := by
        simp
      rwa [hsplit] at happend
    refine ⟨b,by rwa [getElem?_drop] at hget,?_⟩
    have hhead := head?_dropWhile_not p (bytes.drop i)
    rw [hrest] at hhead
    simpa using hhead

/-- The bytes that a scan has gone over have the property. -/
theorem before_scan (h : i < scan p bytes i) : ∃ b, bytes[scan p bytes i - 1]? = some b ∧ p b = true := by
  have hpos : 0 < ((bytes.drop i).takeWhile p).length := by
    unfold scan at h
    omega
  have hlast : ((bytes.drop i).takeWhile p).length - 1 < ((bytes.drop i).takeWhile p).length := by omega
  have hindex : scan p bytes i - 1 = i + (((bytes.drop i).takeWhile p).length - 1) := by
    unfold scan
    omega
  have hget := ( takeWhile_prefix p (l := bytes.drop i)).getElem hlast
  refine ⟨_,?_,mem_takeWhile_imp (getElem_mem hlast)⟩
  rw [hindex,← getElem?_drop,hget]
  exact getElem?_eq_getElem _

theorem begins_of_ascii (h : b.toNat < 128) : Utf8.begins b = true := (Utf8.begins_iff b).mpr (.inl h)

theorem boundary_at (hb : bytes[i]? = some b) (h : b.toNat < 128) : IsBoundary bytes i :=
  .inr (.inr ⟨b,hb,begins_of_ascii h⟩)

/-- Behind an ASCII byte of a text the next character begins. -/
theorem boundary_after {s : String} (hb : (Utf8.encode s)[i]? = some b) (h : b.toNat < 128) :
    IsBoundary (Utf8.encode s) (i + 1) := by
  have hchars : ∀ (cs : List Char) (i : ℕ), (cs.flatMap String.utf8EncodeChar)[i]? = some b →
      i + 1 = (cs.flatMap String.utf8EncodeChar).length ∨
        ∃ d, (cs.flatMap String.utf8EncodeChar)[i + 1]? = some d ∧ Utf8.begins d = true := by
    intro cs
    induction cs with
    | nil => simp
    | cons c cs ih =>
      intro i hi
      rw [flatMap_cons] at hi ⊢
      by_cases hfirst : i < (String.utf8EncodeChar c).length
      · rw [getElem?_append_left hfirst] at hi
        have hascii : c.toNat < 128 := by
          by_contra hhigh
          have hb := Utf8.encodeChar_high (by omega) (mem_of_getElem? hi)
          omega
        rw [Utf8.encodeChar_ascii hascii] at hfirst ⊢
        have hzero : i = 0 := by simpa using hfirst
        cases cs with
        | nil => simp [hzero]
        | cons c' cs =>
          obtain ⟨d,rest,hshape,hd,-⟩ := Utf8.encodeChar_shape c'
          exact .inr ⟨d,by simp [hzero,hshape],hd⟩
      · rw [getElem?_append_right (by omega)] at hi
        have hnext : i + 1 - (String.utf8EncodeChar c).length = i - (String.utf8EncodeChar c).length + 1 := by omega
        rw [getElem?_append_right (by omega),hnext,length_append]
        refine (ih _ hi).imp_left fun hend => ?_
        omega
  exact .inr (hchars s.toList i hb)

/-- Going over ASCII bytes leads from one boundary to another. -/
theorem boundary_skip {s : String} (hp : ∀ b, p b = true → b.toNat < 128) (hi : IsBoundary (Utf8.encode s) i) :
    IsBoundary (Utf8.encode s) (scan p (Utf8.encode s) i) := by
  rcases Nat.eq_or_lt_of_le (le_scan p (Utf8.encode s) i) with heq | hlt
  · rwa [← heq]
  · obtain ⟨b,hb,hpb⟩ := before_scan hlt
    have hafter := boundary_after hb (hp b hpb)
    rwa [Nat.sub_add_cancel (by omega)] at hafter

/-- Going on to the next byte of an ASCII kind leads to a boundary from everywhere. -/
theorem boundary_until (hp : ∀ b, p b = false → b.toNat < 128) (hi : i ≤ bytes.length) :
    IsBoundary bytes (scan p bytes i) := by
  rcases Nat.eq_or_lt_of_le (scan_le (p := p) hi) with heq | hlt
  · exact .inr (.inl heq)
  · obtain ⟨b,hb,hpb⟩ := scan_stops hlt
    exact boundary_at hb (hp b hpb)

end

end Mxterm.CheckedSteps
