import Mathlib.Data.List.Infix

/-! Pathname expansion as POSIX has it: the elements of a pattern, the names of a directory that it matches, and
the pattern itself where it matches none. -/
namespace Mxterm.PathnamePatterns

inductive Element
  | plain (b : UInt8)
  | any
  /-- A bracket expression that begins with `!`. -/
  | noneOf (bs : List UInt8)
  | star
  deriving DecidableEq

abbrev Pattern := List Element

def period : UInt8 := 46

/-- How an element is written. -/
def Element.text : Element → List UInt8
  | .plain b => [b]
  | .any => [63]
  | .noneOf bs => 91 :: 33 :: bs ++ [93]
  | .star => [42]

def text (pattern : Pattern) : List UInt8 := pattern.flatMap Element.text

def fitsFrom : Pattern → List UInt8 → Bool
  | [], name => name.isEmpty
  | .star :: more, name => name.tails.any (fitsFrom more)
  | .plain b :: more, a :: name => a == b && fitsFrom more name
  | .any :: more, _ :: name => fitsFrom more name
  | .noneOf bs :: more, a :: name => ! bs.contains a && fitsFrom more name
  | _ :: _, [] => false

/-- A period that begins a name is matched by a period only. -/
def fits (pattern : Pattern) (name : List UInt8) : Bool :=
  (name.head? != some period || pattern.head? == some (.plain period)) && fitsFrom pattern name

/-- The fields that a pattern becomes in a directory with these names. -/
def expand (names : List (List UInt8)) (pattern : Pattern) : List (List UInt8) :=
  if names.filter (fits pattern) = [] then [text pattern] else names.filter (fits pattern)

/-- A pattern that matches itself and that is not expanded is the name of nothing. -/
theorem filter_expand {names : List (List UInt8)} {pattern : Pattern} {present : List UInt8 → Bool}
    (hself : fits pattern (text pattern) = true)
    (hpresent : present (text pattern) = true → text pattern ∈ names) :
    (expand names pattern).filter present = (names.filter (fits pattern)).filter present := by
  unfold expand
  split
  next hnone =>
    have habsent : present (text pattern) = false := by
      by_contra h
      have hmem := List.mem_filter.mpr ⟨hpresent (by simpa using h),hself⟩
      simp [hnone] at hmem
    simp [hnone,habsent]
  next => rfl

/-! ## Every name but the two of the directories -/

/-- `*` -/
def plainNames : Pattern := [.star]

/-- `.[!.]*` -/
def dotNames : Pattern := [.plain period,.noneOf [period],.star]

/-- `..?*` -/
def dotDotNames : Pattern := [.plain period,.plain period,.any,.star]

theorem fitsFrom_star (name : List UInt8) : fitsFrom [.star] name = true :=
  List.any_eq_true.mpr ⟨[],(List.mem_tails _ _).mpr List.nil_suffix,rfl⟩

theorem fits_plainNames (name : List UInt8) : fits plainNames name = true ↔ name.head? ≠ some period := by
  have hstar := fitsFrom_star name
  simp [fits,plainNames,hstar]

theorem fits_dotNames (name : List UInt8) :
    fits dotNames name = true ↔ ∃ b rest, name = period :: b :: rest ∧ b ≠ period := by
  match name with
  | [] => simp [fits,dotNames,fitsFrom]
  | [a] => simp [fits,dotNames,fitsFrom]
  | a :: b :: rest =>
    have hfrom : fitsFrom dotNames (a :: b :: rest) =
        (a == period && (! [period].contains b && fitsFrom [.star] rest)) := rfl
    rw [fits,hfrom,fitsFrom_star]
    simp only [dotNames,List.head?_cons,beq_self_eq_true,Bool.or_true,Bool.true_and,Bool.and_true,Bool.and_eq_true,
      beq_iff_eq,Bool.not_eq_true',List.contains_eq_mem,List.mem_singleton,decide_eq_false_iff_not,List.cons.injEq]
    grind

theorem fits_dotDotNames (name : List UInt8) :
    fits dotDotNames name = true ↔ ∃ c rest, name = period :: period :: c :: rest := by
  match name with
  | [] => simp [fits,dotDotNames,fitsFrom]
  | [a] => simp [fits,dotDotNames,fitsFrom]
  | [a,b] => simp [fits,dotDotNames,fitsFrom]
  | a :: b :: c :: rest =>
    have hfrom : fitsFrom dotDotNames (a :: b :: c :: rest) =
        (a == period && (b == period && fitsFrom [.star] rest)) := rfl
    rw [fits,hfrom,fitsFrom_star]
    simp [dotDotNames]

theorem filter_append_filter {α : Type*} {p q : α → Bool} (h : ∀ a, p a = true → q a = false) (l : List α) :
    (l.filter p ++ l.filter q).Perm (l.filter fun a => p a || q a) := by
  induction l with
  | nil => simp
  | cons a l ih =>
    cases hp : p a with
    | true => simpa [hp,h a hp] using ih
    | false =>
      cases hq : q a with
      | true => simpa [hp,hq] using List.perm_middle.trans (ih.cons a)
      | false => simpa [hp,hq] using ih

/-- The three patterns match every name once, but for those of the directory itself and its parent. -/
theorem filter_patterns (names : List (List UInt8)) :
    (names.filter (fits plainNames) ++ (names.filter (fits dotNames) ++ names.filter (fits dotDotNames))).Perm
      (names.filter fun name => name != [period] && name != [period,period]) := by
  have hlast := filter_append_filter (p := fits dotNames) (q := fits dotDotNames) (fun name h => by
    rw [← Bool.not_eq_true,fits_dotDotNames]
    rw [fits_dotNames] at h
    grind) names
  have hall := filter_append_filter (p := fits plainNames)
    (q := fun name => fits dotNames name || fits dotDotNames name) (fun name h => by
      rw [← Bool.not_eq_true,Bool.or_eq_true,fits_dotNames,fits_dotDotNames]
      rw [fits_plainNames] at h
      grind) names
  have hsame : (fun name => fits plainNames name || (fits dotNames name || fits dotDotNames name)) =
      fun name => name != [period] && name != [period,period] := by
    funext name
    rw [Bool.eq_iff_iff,Bool.or_eq_true,Bool.or_eq_true,fits_plainNames,fits_dotNames,fits_dotDotNames]
    match name with
    | [] => simp
    | [a] => by_cases h : a = period <;> simp [h]
    | [a,b] => by_cases h : a = period <;> simp [h]
    | a :: b :: _ :: _ => by_cases h : a = period <;> by_cases h' : b = period <;> simp [h,h']
  rw [hsame] at hall
  exact (List.Perm.append_left _ hlast).trans hall

end Mxterm.PathnamePatterns
