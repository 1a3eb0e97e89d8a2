import Mathlib.Data.List.Nodup

/-! Base 64: three bytes are four digits of six bits, and each digit is a symbol of an alphabet. -/
namespace Mxterm.Base64

open List

/-- The digits of some bytes; the last group may be shorter. -/
def digits : List UInt8 → List ℕ
  | [] => []
  | [a] => [a.toNat / 4,a.toNat % 4 * 16]
  | [a,b] => [a.toNat / 4,a.toNat % 4 * 16 + b.toNat / 16,b.toNat % 16 * 4]
  | a :: b :: c :: rest =>
    a.toNat / 4 :: (a.toNat % 4 * 16 + b.toNat / 16) :: (b.toNat % 16 * 4 + c.toNat / 64) ::
      c.toNat % 64 :: digits rest

/-- The bytes of some digits. The bits that a shorter group does not use must be zero. -/
def bytes? : List ℕ → Option (List UInt8)
  | [] => some []
  | [_] => none
  | [p,q] => if q % 16 = 0 then some [UInt8.ofNat (p * 4 + q / 16)] else none
  | [p,q,r] =>
    if r % 4 = 0 then some [UInt8.ofNat (p * 4 + q / 16),UInt8.ofNat (q % 16 * 16 + r / 4)] else none
  | p :: q :: r :: s :: rest => (bytes? rest).map fun bytes =>
    UInt8.ofNat (p * 4 + q / 16) :: UInt8.ofNat (q % 16 * 16 + r / 4) ::
      UInt8.ofNat (r % 4 * 64 + s) :: bytes

theorem digits_lt (bytes : List UInt8) : ∀ d ∈ digits bytes, d < 64 := by
  fun_induction digits bytes with
  | case1 => simp
  | case2 a =>
    have ha := a.toNat_lt
    simp only [mem_cons,not_mem_nil,or_false,forall_eq_or_imp,forall_eq]
    omega
  | case3 a b =>
    have ha := a.toNat_lt
    have hb := b.toNat_lt
    simp only [mem_cons,not_mem_nil,or_false,forall_eq_or_imp,forall_eq]
    omega
  | case4 a b c rest ih =>
    have ha := a.toNat_lt
    have hb := b.toNat_lt
    have hc := c.toNat_lt
    simp only [mem_cons,forall_eq_or_imp]
    exact ⟨by omega,by omega,by omega,by omega,ih⟩

theorem ofNat_eq {n : ℕ} {b : UInt8} (h : n = b.toNat) : UInt8.ofNat n = b := by
  rw [h,UInt8.ofNat_toNat]

theorem bytes?_digits (bytes : List UInt8) : bytes? (digits bytes) = some bytes := by
  fun_induction digits bytes with
  | case1 => rfl
  | case2 a =>
    rw [bytes?,if_pos (by omega),ofNat_eq (b := a) (by omega)]
  | case3 a b =>
    rw [bytes?,if_pos (by omega),ofNat_eq (b := a) (by have hb := b.toNat_lt; omega),
      ofNat_eq (b := b) (by have hb := b.toNat_lt; omega)]
  | case4 a b c rest ih =>
    have hb := b.toNat_lt
    have hc := c.toNat_lt
    rw [bytes?,ih,Option.map_some,ofNat_eq (b := a) (by omega),ofNat_eq (b := b) (by omega),
      ofNat_eq (b := c) (by omega)]

/-- Sixty-four different symbols. -/
structure Alphabet where
  symbols : List Char
  length_eq : symbols.length = 64
  nodup : symbols.Nodup

def letters : List Char := "ABCDEFGHIJKLMNOPQRSTUVWXYZabcdefghijklmnopqrstuvwxyz0123456789".toList

/-- The alphabet of `STANDARD`. -/
def standard : Alphabet := ⟨letters ++ ['+','/'],by decide +kernel,by decide +kernel⟩

/-- The alphabet of `URL_SAFE_NO_PAD`. -/
def urlSafe : Alphabet := ⟨letters ++ ['-','_'],by decide +kernel,by decide +kernel⟩

variable (alphabet : Alphabet)

def symbol (digit : ℕ) : Char := alphabet.symbols.getD digit 'A'

def digit? (c : Char) : Option ℕ :=
  if c ∈ alphabet.symbols then some (alphabet.symbols.idxOf c) else none

variable {digit : ℕ}

theorem symbol_eq (h : digit < alphabet.symbols.length) : symbol alphabet digit = alphabet.symbols[digit] := by
  simp [symbol,h]

theorem symbol_mem (h : digit < 64) : symbol alphabet digit ∈ alphabet.symbols := by
  rw [← alphabet.length_eq] at h
  rw [symbol_eq alphabet h]
  exact getElem_mem h

theorem digit?_symbol (h : digit < 64) : digit? alphabet (symbol alphabet digit) = some digit := by
  rw [digit?,if_pos (symbol_mem alphabet h)]
  rw [← alphabet.length_eq] at h
  rw [symbol_eq alphabet h,alphabet.nodup.idxOf_getElem]

def digits? : List Char → Option (List ℕ)
  | [] => some []
  | c :: cs => do
    let d ← digit? alphabet c
    let ds ← digits? cs
    return d :: ds

/-- Without padding. -/
def encode (bytes : List UInt8) : String := String.ofList ((digits bytes).map (symbol alphabet))

def encodePadded (bytes : List UInt8) : String :=
  encode alphabet bytes ++ String.ofList (List.replicate ((3 - bytes.length % 3) % 3) '=')

def decode? (text : String) : Option (List UInt8) := digits? alphabet text.toList >>= bytes?

theorem digits?_map_symbol (ds : List ℕ) (h : ∀ d ∈ ds, d < 64) :
    digits? alphabet (ds.map (symbol alphabet)) = some ds := by
  induction ds with
  | nil => rfl
  | cons d ds ih =>
    obtain ⟨hd,hds⟩ := forall_mem_cons.mp h
    rw [map_cons,digits?,digit?_symbol alphabet hd,ih hds]
    rfl

@[simp] theorem decode?_encode (bytes : List UInt8) : decode? alphabet (encode alphabet bytes) = some bytes := by
  rw [decode?,encode,String.toList_ofList,digits?_map_symbol alphabet _ (digits_lt bytes)]
  exact bytes?_digits bytes

theorem mem_encode {bytes : List UInt8} {c : Char} (h : c ∈ (encode alphabet bytes).toList) :
    c ∈ alphabet.symbols := by
  rw [encode,String.toList_ofList] at h
  obtain ⟨d,hd,rfl⟩ := mem_map.mp h
  exact symbol_mem alphabet (digits_lt bytes d hd)

theorem mem_encodePadded {bytes : List UInt8} {c : Char} (h : c ∈ (encodePadded alphabet bytes).toList) :
    c ∈ alphabet.symbols ∨ c = '=' := by
  rw [encodePadded,String.toList_append,mem_append,String.toList_ofList] at h
  rcases h with h | h
  · exact Or.inl (mem_encode alphabet h)
  · exact Or.inr (eq_of_mem_replicate h)

/-- The padding can be told from the symbols, and left out again. -/
theorem unpadded_encodePadded (hpadding : '=' ∉ alphabet.symbols) (bytes : List UInt8) :
    (encodePadded alphabet bytes).toList.filter (· ≠ '=') = (encode alphabet bytes).toList := by
  have hreplicate (n : ℕ) : (List.replicate n '=').filter (· ≠ '=') = [] := by
    rw [filter_eq_nil_iff]
    intro c hc
    simp [eq_of_mem_replicate hc]
  rw [encodePadded,String.toList_append,String.toList_ofList,filter_append,hreplicate,append_nil,
    filter_eq_self]
  intro c hc
  rw [decide_eq_true_eq]
  rintro rfl
  exact hpadding (mem_encode alphabet hc)

theorem padding_standard : '=' ∉ standard.symbols := by decide +kernel

theorem length_digits (bytes : List UInt8) : (digits bytes).length = (4 * bytes.length + 2) / 3 := by
  fun_induction digits bytes with
  | case1 => rfl
  | case2 a => simp
  | case3 a b => simp
  | case4 a b c rest ih =>
    simp only [List.length_cons,ih]
    omega

/-- With padding: the last group is filled up to four characters. -/
def decodePadded? (alphabet : Alphabet) (text : String) : Option (List UInt8) :=
  let symbols := text.toList.takeWhile (· ≠ '=')
  if text.toList = symbols ++ List.replicate ((4 - symbols.length % 4) % 4) '=' then
    digits? alphabet symbols >>= bytes?
  else none

variable {alphabet}

theorem toList_encodePadded (bytes : List UInt8) : (encodePadded alphabet bytes).toList =
    (encode alphabet bytes).toList ++ List.replicate ((3 - bytes.length % 3) % 3) '=' := by
  rw [encodePadded,String.toList_append,String.toList_ofList]

theorem length_toList_encode (bytes : List UInt8) :
    (encode alphabet bytes).toList.length = (4 * bytes.length + 2) / 3 := by
  rw [encode,String.toList_ofList,List.length_map,length_digits]

theorem length_encodePadded (bytes : List UInt8) :
    (encodePadded alphabet bytes).toList.length = 4 * ((bytes.length + 2) / 3) := by
  rw [toList_encodePadded,List.length_append,List.length_replicate,length_toList_encode]
  omega

/-- Padding stands in the last group only. -/
theorem padding_last (hpadding : '=' ∉ alphabet.symbols) {bytes : List UInt8} {i : ℕ}
    (h : (encodePadded alphabet bytes).toList[i]? = some '=') :
    (encodePadded alphabet bytes).toList.length ≤ i + 2 := by
  rw [length_encodePadded]
  by_contra hlt
  rw [toList_encodePadded,List.getElem?_append_left (by rw [length_toList_encode]; omega)] at h
  exact hpadding (mem_encode alphabet (List.mem_of_getElem? h))

theorem decodePadded?_encodePadded (hpadding : '=' ∉ alphabet.symbols) (bytes : List UInt8) :
    decodePadded? alphabet (encodePadded alphabet bytes) = some bytes := by
  have hsymbols : (encodePadded alphabet bytes).toList.takeWhile (· ≠ '=') = (encode alphabet bytes).toList := by
    rw [toList_encodePadded,List.takeWhile_append_of_pos]
    · simp
    · intro c hc
      rw [decide_eq_true_eq]
      rintro rfl
      exact hpadding (mem_encode alphabet hc)
  have hlength : (4 - (encode alphabet bytes).toList.length % 4) % 4 = (3 - bytes.length % 3) % 3 := by
    rw [length_toList_encode]
    rcases (by omega : bytes.length % 3 = 0 ∨ bytes.length % 3 = 1 ∨ bytes.length % 3 = 2) with h | h | h <;> omega
  rw [decodePadded?,hsymbols,hlength,if_pos (toList_encodePadded bytes)]
  exact decode?_encode alphabet bytes

end Mxterm.Base64
