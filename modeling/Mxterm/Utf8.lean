import Mathlib.Data.List.Basic
import Mathlib.Algebra.Order.Ring.Nat

/-! Texts and their UTF-8 bytes. -/
namespace Mxterm.Utf8

open List

/-- `str::as_bytes`. -/
def encode (s : String) : List UInt8 := s.toList.flatMap String.utf8EncodeChar

/-- `String::from_utf8`. -/
def decode? (bytes : List UInt8) : Option String := String.fromUTF8? bytes.toByteArray

theorem toByteArray_encode (s : String) : (encode s).toByteArray = s.toByteArray :=
  String.utf8Encode_toList

@[simp] theorem decode?_encode (s : String) : decode? (encode s) = some s := by
  rw [decode?,toByteArray_encode,String.fromUTF8?,dif_pos s.isValidUTF8]
  rfl

variable {bytes : List UInt8}

theorem encode_of_decode? {text : String} (h : decode? bytes = some text) : encode text = bytes := by
  rw [decode?,String.fromUTF8?] at h
  split_ifs at h with hvalid
  have hbytes : text.toByteArray = bytes.toByteArray := by
    rw [← Option.some.inj h]
    rfl
  rw [← toByteArray_encode] at hbytes
  exact toByteArray_inj.mp hbytes

variable {s : String}

theorem encode_injective {t : String} (h : encode s = encode t) : s = t := by
  have hsame := congrArg decode? h
  rw [decode?_encode,decode?_encode] at hsame
  exact Option.some.inj hsame

theorem encode_append (s t : String) : encode (s ++ t) = encode s ++ encode t := by
  simp [encode]

@[simp] theorem encode_empty : encode "" = [] := rfl

variable {c : Char}

theorem encodeChar_ascii (h : c.toNat < 128) : String.utf8EncodeChar c = [c.val.toUInt8] := by
  apply String.utf8EncodeChar_eq_singleton
  rw [Char.utf8Size_eq_one_iff]
  exact Nat.le_of_lt_succ h

/-- The bytes of the other characters have their top bit set. -/
theorem encodeChar_high (h : 128 ≤ c.toNat) {b : UInt8} (hb : b ∈ String.utf8EncodeChar c) : 128 ≤ b.toNat := by
  have hbyte : ∀ n, 128 ≤ n → n < 256 → 128 ≤ (UInt8.ofNat n).toNat := by
    intro n hle hlt
    rwa [UInt8.toNat_ofNat_of_lt' hlt]
  have hv : 128 ≤ c.val.toNat := h
  unfold String.utf8EncodeChar at hb
  rw [if_neg (by omega)] at hb
  by_cases htwo : c.val.toNat ≤ 0x7ff
  · rw [if_pos htwo] at hb
    simp only [mem_cons,not_mem_nil,or_false] at hb
    rcases hb with rfl | rfl
    all_goals exact hbyte _ (by omega) (by omega)
  · rw [if_neg htwo] at hb
    by_cases hthree : c.val.toNat ≤ 0xffff
    · rw [if_pos hthree] at hb
      simp only [mem_cons,not_mem_nil,or_false] at hb
      rcases hb with rfl | rfl | rfl
      all_goals exact hbyte _ (by omega) (by omega)
    · rw [if_neg hthree] at hb
      simp only [mem_cons,not_mem_nil,or_false] at hb
      rcases hb with rfl | rfl | rfl | rfl
      all_goals exact hbyte _ (by omega) (by omega)

/-- No byte of a text is as high as 0xF8. -/
theorem lt_of_mem_encode {b : UInt8} (hb : b ∈ encode s) : b.toNat < 0xf8 := by
  obtain ⟨c,-,hc⟩ := mem_flatMap.mp hb
  have hbyte : ∀ n, n < 0xf8 → (UInt8.ofNat n).toNat < 0xf8 := by
    intro n hlt
    rwa [UInt8.toNat_ofNat_of_lt' (by rw [UInt8.size]; omega)]
  unfold String.utf8EncodeChar at hc
  dsimp only at hc
  split_ifs at hc
  all_goals simp only [mem_cons,not_mem_nil,or_false] at hc
  · subst hc
    exact hbyte _ (by omega)
  · rcases hc with rfl | rfl
    all_goals exact hbyte _ (by omega)
  · rcases hc with rfl | rfl | rfl
    all_goals exact hbyte _ (by omega)
  · rcases hc with rfl | rfl | rfl | rfl
    all_goals exact hbyte _ (by omega)

/-- An ASCII byte in the bytes of a text is that character of the text. -/
theorem mem_encode_ascii (hc : c.toNat < 128) : c.val.toUInt8 ∈ encode s ↔ c ∈ s.toList := by
  have hbyte : ∀ d : Char, d.toNat < 128 → d.val.toUInt8.toNat = d.toNat := by
    intro d hd
    exact Nat.mod_eq_of_lt (by change d.toNat < 256; omega)
  rw [encode,mem_flatMap]
  constructor
  · rintro ⟨d,hd,hmem⟩
    by_cases hlow : d.toNat < 128
    · rw [encodeChar_ascii hlow,mem_singleton] at hmem
      have hsame : c.toNat = d.toNat := by rw [← hbyte c hc,hmem,hbyte d hlow]
      rw [Char.toNat_inj.mp hsame]
      exact hd
    · have hhigh := encodeChar_high (Nat.le_of_not_lt hlow) hmem
      rw [hbyte c hc] at hhigh
      omega
  · intro hmem
    exact ⟨c,hmem,by rw [encodeChar_ascii hc]; exact mem_singleton_self _⟩

def isContinuation (b : UInt8) : Bool := 0x80 ≤ b && b ≤ 0xBF

/-- Whether the bytes can begin a character of three or four bytes. -/
def beginsLong (a b : UInt8) : Bool :=
  (a == 0xE0 && 0xA0 ≤ b && b ≤ 0xBF) || (0xE1 ≤ a && a ≤ 0xEC && isContinuation b) ||
    (a == 0xED && 0x80 ≤ b && b ≤ 0x9F) || (0xEE ≤ a && a ≤ 0xEF && isContinuation b) ||
    (a == 0xF0 && 0x90 ≤ b && b ≤ 0xBF) || (0xF1 ≤ a && a ≤ 0xF3 && isContinuation b) ||
    (a == 0xF4 && 0x80 ≤ b && b ≤ 0x8F)

/-- How many bytes at the front, where no character begins, give one replacement character: as many as
could have begun one, and at least one. -/
def malformedLength : List UInt8 → ℕ
  | a :: b :: c :: _ => if beginsLong a b then if 0xF0 ≤ a && isContinuation c then 3 else 2 else 1
  | [a,b] => if beginsLong a b then 2 else 1
  | _ => 1

/-- The loop of `String::from_utf8_lossy`, with enough fuel for every byte. -/
def lossyFrom : ℕ → List UInt8 → List Char
  | 0, _ => []
  | _, [] => []
  | fuel + 1, bytes =>
    match bytes.toByteArray.utf8DecodeChar? 0 with
    | some c => c :: lossyFrom fuel (bytes.drop c.utf8Size)
    | none => '\uFFFD' :: lossyFrom fuel (bytes.drop (malformedLength bytes))

/-- `String::from_utf8_lossy`. -/
def decodeLossy (bytes : List UInt8) : String := String.ofList (lossyFrom bytes.length bytes)

theorem lossyFrom_char (h : bytes.toByteArray.utf8DecodeChar? 0 = some c) (fuel : ℕ) :
    lossyFrom (fuel + 1) bytes = c :: lossyFrom fuel (bytes.drop c.utf8Size) := by
  cases bytes with
  | nil => cases h
  | cons b bytes =>
    rw [lossyFrom,h]
    exact fun hnil => nomatch hnil

theorem lossyFrom_encoded (cs : List Char) (fuel : ℕ)
    (hfuel : (cs.flatMap String.utf8EncodeChar).length ≤ fuel) :
    lossyFrom fuel (cs.flatMap String.utf8EncodeChar) = cs := by
  induction cs generalizing fuel with
  | nil => cases fuel <;> rfl
  | cons c cs ih =>
    have hdecode : ((c :: cs).flatMap String.utf8EncodeChar).toByteArray.utf8DecodeChar? 0 = some c :=
      utf8DecodeChar?_utf8Encode_cons
    have hlength := String.length_utf8EncodeChar c
    have hpos := c.utf8Size_pos
    rw [flatMap_cons,length_append] at hfuel
    cases fuel with
    | zero => omega
    | succ fuel =>
      have hdrop : ((c :: cs).flatMap String.utf8EncodeChar).drop c.utf8Size =
          cs.flatMap String.utf8EncodeChar := by
        rw [flatMap_cons,← hlength,drop_left]
      rw [lossyFrom_char hdecode,hdrop,ih _ (by omega)]

/-- The bytes of a text are decoded without loss. -/
@[simp] theorem decodeLossy_encode (s : String) : decodeLossy (encode s) = s := by
  rw [decodeLossy,encode,lossyFrom_encoded s.toList _ (Nat.le_refl _),String.ofList_toList]

theorem decodeChar_append (c : Char) (rest : List UInt8) :
    (String.utf8EncodeChar c ++ rest).toByteArray.utf8DecodeChar? 0 = some c := by
  rw [toByteArray_append]
  exact ByteArray.utf8DecodeChar?_utf8EncodeChar_append

theorem append_of_decodeChar (h : bytes.toByteArray.utf8DecodeChar? 0 = some c) :
    bytes = String.utf8EncodeChar c ++ bytes.drop c.utf8Size := by
  obtain ⟨rest,heq⟩ := ByteArray.exists_of_utf8DecodeChar?_eq_some h
  have hbytes : bytes = String.utf8EncodeChar c ++ rest.data.toList := by
    apply toByteArray_inj.mp
    rw [heq]
    apply ByteArray.ext
    simp
  rw [hbytes,drop_left' (String.length_utf8EncodeChar c)]

theorem head_lossyFrom (h : bytes.toByteArray.utf8DecodeChar? 0 = none) (fuel : ℕ) :
    ∀ c ∈ (lossyFrom (fuel + 1) bytes).head?, c = '\uFFFD' := by
  cases bytes with
  | nil => exact fun c hc => nomatch hc
  | cons b bytes =>
    intro c hc
    rw [lossyFrom,h] at hc
    · exact (Option.some.inj hc).symm
    · exact fun hnil => nomatch hnil

/-- Characters other than the replacement character are at the front of what is decoded exactly if their bytes are at
the front. -/
theorem prefix_lossyFrom {cs : List Char} (hcs : '\uFFFD' ∉ cs) {fuel : ℕ} (hfuel : bytes.length ≤ fuel) :
    cs <+: lossyFrom fuel bytes ↔ cs.flatMap String.utf8EncodeChar <+: bytes := by
  induction cs generalizing fuel bytes with
  | nil => simp
  | cons c cs ih =>
    rw [flatMap_cons]
    cases fuel with
    | zero =>
      rw [length_eq_zero_iff.mp (Nat.le_zero.mp hfuel)]
      have hlong := String.length_utf8EncodeChar c
      have hpos := c.utf8Size_pos
      constructor
      · intro h
        exact absurd (prefix_nil.mp h) (cons_ne_nil c cs)
      · intro h
        have hnil := congrArg List.length (prefix_nil.mp h)
        rw [length_append,length_nil] at hnil
        omega
    | succ fuel =>
      have hreads : String.utf8EncodeChar c ++ cs.flatMap String.utf8EncodeChar <+: bytes →
          bytes.toByteArray.utf8DecodeChar? 0 = some c := by
        rintro ⟨rest,rfl⟩
        rw [append_assoc]
        exact decodeChar_append c _
      cases hdecode : bytes.toByteArray.utf8DecodeChar? 0 with
      | none =>
        constructor
        · intro h
          obtain ⟨more,hmore⟩ := h
          have hhead := head_lossyFrom hdecode fuel c (by rw [← hmore]; rfl)
          exact absurd mem_cons_self (hhead ▸ hcs)
        · intro h
          rw [hreads h] at hdecode
          cases hdecode
      | some d =>
        rw [lossyFrom_char hdecode,cons_prefix_cons]
        constructor
        · rintro ⟨rfl,h⟩
          rw [append_of_decodeChar hdecode,prefix_append_right_inj]
          refine (ih (fun hmem => hcs (mem_cons_of_mem _ hmem)) ?_).mp h
          rw [length_drop]
          have := c.utf8Size_pos
          omega
        · intro h
          have hsame : d = c := by
            rw [hreads h] at hdecode
            exact (Option.some.inj hdecode).symm
          subst hsame
          rw [append_of_decodeChar hdecode,prefix_append_right_inj] at h
          refine ⟨rfl,(ih (fun hmem => hcs (mem_cons_of_mem _ hmem)) ?_).mpr h⟩
          rw [length_drop]
          have := d.utf8Size_pos
          omega

theorem prefix_decodeLossy {text : String} (htext : '\uFFFD' ∉ text.toList) :
    text.toList <+: (decodeLossy bytes).toList ↔ encode text <+: bytes := by
  rw [decodeLossy,String.toList_ofList]
  exact prefix_lossyFrom htext (Nat.le_refl _)

end Mxterm.Utf8
