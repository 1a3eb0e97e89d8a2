import Mathlib.Algebra.Order.Ring.Nat
import Mathlib.Data.List.DropRight

/-! The values every layer passes around: the error record, the text functions of
the standard library that the code calls, and the identifiers it draws. -/
namespace Mxterm

/-- The record of `app_error.rs`; the frontend branches on `code` alone. -/
structure AppError where
  code : String
  message : String
  rawMessage : String
  recoverable : Bool
  deriving DecidableEq

namespace Text

/-- The characters with the Unicode property `White_Space`. -/
def isWhitespace (c : Char) : Bool :=
  let n := c.toNat
  (9 ≤ n && n ≤ 13) || n == 0x20 || n == 0x85 || n == 0xA0 || n == 0x1680 ||
    (0x2000 ≤ n && n ≤ 0x200A) || n == 0x2028 || n == 0x2029 || n == 0x202F || n == 0x205F ||
    n == 0x3000

/-- The characters of the Unicode category `Cc`. -/
def isControl (c : Char) : Bool :=
  let n := c.toNat
  n < 0x20 || (0x7F ≤ n && n < 0xA0)

def trim (s : String) : String :=
  String.ofList ((s.toList.dropWhile isWhitespace).rdropWhile isWhitespace)

theorem trim_toList (s : String) :
    (trim s).toList = (s.toList.dropWhile isWhitespace).rdropWhile isWhitespace := by
  simp [trim]

/-- A text is blank exactly when no character of it survives trimming. -/
theorem trim_eq_empty_iff (s : String) : trim s = "" ↔ ∀ c ∈ s.toList, isWhitespace c := by
  have hlist : trim s = "" ↔ (s.toList.dropWhile isWhitespace).rdropWhile isWhitespace = [] := by
    rw [← trim_toList]; simp
  rw [hlist,List.rdropWhile_eq_nil_iff]
  constructor
  · intro h c hc
    rw [← List.takeWhile_append_dropWhile (p := isWhitespace) (l := s.toList)] at hc
    rcases List.mem_append.mp hc with hc | hc
    · exact List.mem_takeWhile_imp hc
    · exact h c hc
  · intro h c hc
    exact h c ((List.dropWhile_suffix _).subset hc)

theorem trim_ne_empty_of_mem {s : String} {c : Char} (hc : c ∈ s.toList)
    (h : isWhitespace c = false) : trim s ≠ "" := by
  intro he
  simp [(trim_eq_empty_iff s).mp he c hc] at h

/-- Trimming a trimmed text leaves its first and last characters, hence the text, in place. -/
theorem trim_trim (s : String) : trim (trim s) = trim s := by
  have hhead : ((s.toList.dropWhile isWhitespace).rdropWhile isWhitespace).dropWhile isWhitespace =
      (s.toList.dropWhile isWhitespace).rdropWhile isWhitespace := by
    generalize hu : (s.toList.dropWhile isWhitespace).rdropWhile isWhitespace = u
    cases u with
    | nil => rfl
    | cons c cs =>
      have hunder : c :: cs <+: s.toList.dropWhile isWhitespace := by
        rw [← hu]; exact List.rdropWhile_prefix ..
      obtain ⟨rest,hrest⟩ := hunder
      have hc := List.head?_dropWhile_not isWhitespace s.toList
      rw [← hrest] at hc
      simpa using hc
  rw [trim,trim_toList,hhead,List.rdropWhile_idempotent,← trim_toList,String.ofList_toList]

/-- `trim_optional`: a blank field is an absent one. -/
def trimOptional (value : Option String) : Option String :=
  (value.map trim).filter (· ≠ "")

theorem trimOptional_nonblank {value : Option String} {t : String}
    (h : trimOptional value = some t) : trim t ≠ "" := by
  simp only [trimOptional,Option.filter_eq_some_iff,Option.map_eq_some_iff] at h
  obtain ⟨⟨s,-,rfl⟩,hne⟩ := h
  simpa [trim_trim] using hne

def toAsciiLowercase (s : String) : String :=
  String.ofList (s.toList.map Char.toLower)

def startsWith (s pattern : String) : Bool :=
  pattern.toList.isPrefixOf s.toList

def contains (s pattern : String) : Bool :=
  s.toList.tails.any (pattern.toList.isPrefixOf ·)

/-- `str::split_once`. -/
def splitOnce (separator : Char) (s : String) : Option (String × String) :=
  match s.toList.span (· ≠ separator) with
  | (_, []) => none
  | (before, _ :: after) => some (String.ofList before,String.ofList after)

/-- `str::rsplit_once`. -/
def rsplitOnce (separator : Char) (s : String) : Option (String × String) :=
  match s.toList.reverse.span (· ≠ separator) with
  | (_, []) => none
  | (after, _ :: before) => some (String.ofList before.reverse,String.ofList after.reverse)

/-- `str::lines`: a line ends at a newline, and a carriage return before it belongs to the ending. -/
def lines (s : String) : List String :=
  let pieces := s.toList.splitOn '\n'
  let ended := pieces.dropLast.map fun line =>
    if line.getLast? = some '\r' then line.dropLast else line
  (ended ++ (pieces.getLast?.filter (· ≠ [])).toList).map String.ofList

end Text

/-- A version 4 identifier, written as the eight hexadecimal groups of its hyphenated form. -/
structure Uuid where
  bits : BitVec 128
  deriving DecidableEq

namespace Uuid

def hexDigits (count : ℕ) (value : ℕ) : List Char :=
  (List.range count).reverse.map fun i => (value / 16 ^ i % 16).digitChar

def toString (id : Uuid) : String :=
  let n := id.bits.toNat
  String.ofList (hexDigits 8 (n / 16 ^ 24) ++ '-' :: hexDigits 4 (n / 16 ^ 20) ++ '-' ::
    hexDigits 4 (n / 16 ^ 16) ++ '-' :: hexDigits 4 (n / 16 ^ 12) ++ '-' :: hexDigits 12 n)

theorem toString_nonblank (id : Uuid) : Text.trim id.toString ≠ "" :=
  Text.trim_ne_empty_of_mem (c := '-') (by simp [toString]) (by decide)

end Uuid
end Mxterm
