import Mxterm.Utf8

/-! Bytes that are decoded with replacement characters in parts: where the parts meet at the edge of a character,
nothing is decoded otherwise than in one piece. -/
namespace Mxterm.Utf8

open List

/-! ## One step of the decoder -/

section
variable {bytes rest : List UInt8} {b : UInt8} {c : Char}

theorem malformedLength_pos (bytes : List UInt8) : 0 < malformedLength bytes := by
  unfold malformedLength
  split
  · split_ifs <;> omega
  · split_ifs <;> omega
  · omega

theorem lossyFrom_malformed (h : bytes.toByteArray.utf8DecodeChar? 0 = none) (hne : bytes ≠ []) (fuel : ℕ) :
    lossyFrom (fuel + 1) bytes = '\uFFFD' :: lossyFrom fuel (bytes.drop (malformedLength bytes)) := by
  rw [lossyFrom,h]
  exact hne

/-- More fuel than there are bytes changes nothing. -/
theorem lossyFrom_fuel {fuel : ℕ} (h : bytes.length ≤ fuel) :
    lossyFrom fuel bytes = lossyFrom bytes.length bytes := by
  induction fuel using Nat.strongRecOn generalizing bytes with
  | _ fuel ih =>
    by_cases hnil : bytes = []
    · subst hnil
      cases fuel <;> rfl
    · have hpos := length_pos_of_ne_nil hnil
      obtain ⟨n,hn⟩ := Nat.exists_eq_add_of_le' hpos
      obtain ⟨m,rfl⟩ := Nat.exists_eq_add_of_le' (Nat.lt_of_lt_of_le hpos h)
      have hstep (k : ℕ) (hk : 0 < k) : lossyFrom m (bytes.drop k) = lossyFrom n (bytes.drop k) := by
        have hlen : (bytes.drop k).length ≤ n := by
          rw [length_drop]
          omega
        by_cases hmn : m = n
        · rw [hmn]
        · rw [ih m (by omega) (by omega),ih n (by omega) hlen]
      rw [hn]
      cases hdecode : bytes.toByteArray.utf8DecodeChar? 0 with
      | some c => rw [lossyFrom_char hdecode,lossyFrom_char hdecode,hstep _ c.utf8Size_pos]
      | none =>
        rw [lossyFrom_malformed hdecode hnil,lossyFrom_malformed hdecode hnil,hstep _ (malformedLength_pos bytes)]

theorem toList_decodeLossy (bytes : List UInt8) : (decodeLossy bytes).toList = lossyFrom bytes.length bytes := by
  rw [decodeLossy,String.toList_ofList]

/-- A character in front is decoded on its own. -/
theorem decodeLossy_char (c : Char) (rest : List UInt8) :
    (decodeLossy (String.utf8EncodeChar c ++ rest)).toList = c :: (decodeLossy rest).toList := by
  have hlength := String.length_utf8EncodeChar c
  have hpos := c.utf8Size_pos
  obtain ⟨n,hn⟩ : ∃ n, (String.utf8EncodeChar c ++ rest).length = n + 1 := by
    refine Nat.exists_eq_add_of_le' ?_
    rw [length_append]
    omega
  rw [toList_decodeLossy,toList_decodeLossy,hn,lossyFrom_char (decodeChar_append c rest),drop_left' hlength,
    lossyFrom_fuel]
  rw [length_append] at hn
  omega

theorem decodeLossy_malformed (h : bytes.toByteArray.utf8DecodeChar? 0 = none) (hne : bytes ≠ []) :
    (decodeLossy bytes).toList = '\uFFFD' :: (decodeLossy (bytes.drop (malformedLength bytes))).toList := by
  have hpos := malformedLength_pos bytes
  obtain ⟨n,hn⟩ := Nat.exists_eq_add_of_le' (length_pos_of_ne_nil hne)
  rw [toList_decodeLossy,toList_decodeLossy,hn,lossyFrom_malformed h hne,lossyFrom_fuel]
  rw [length_drop]
  omega

theorem decodeLossy_ne_empty (hne : bytes ≠ []) : decodeLossy bytes ≠ "" := by
  have hlist : ∃ c cs, (decodeLossy bytes).toList = c :: cs := by
    cases hdecode : bytes.toByteArray.utf8DecodeChar? 0 with
    | some c => exact ⟨_,_,by rw [append_of_decodeChar hdecode,decodeLossy_char]⟩
    | none => exact ⟨_,_,decodeLossy_malformed hdecode hne⟩
  intro hempty
  obtain ⟨c,cs,hcons⟩ := hlist
  rw [hempty] at hcons
  cases hcons

end

/-! ## Parts -/

/-- A text in front is decoded on its own. -/
theorem decodeLossy_encode_append (s : String) (rest : List UInt8) :
    decodeLossy (encode s ++ rest) = s ++ decodeLossy rest := by
  have hlist (cs : List Char) : (decodeLossy (cs.flatMap String.utf8EncodeChar ++ rest)).toList =
      cs ++ (decodeLossy rest).toList := by
    induction cs with
    | nil => rfl
    | cons c cs ih => rw [flatMap_cons,append_assoc,decodeLossy_char,ih,cons_append]
  apply String.toList_injective
  rw [String.toList_append,encode,hlist]

variable {b : UInt8}

/-- A byte below 128 is no part of a longer character. -/
theorem size_le_of_ascii {a rest : List UInt8} {c : Char} (hb : b.toNat < 128)
    (h : (a ++ b :: rest).toByteArray.utf8DecodeChar? 0 = some c) (hne : a ≠ []) : c.utf8Size ≤ a.length := by
  by_contra hlong
  have heq := append_of_decodeChar h
  have hlength := String.length_utf8EncodeChar c
  have hmem : b ∈ String.utf8EncodeChar c := by
    have hget : (a ++ b :: rest)[a.length]? = some b := by simp
    rw [heq,getElem?_append_left (by omega)] at hget
    exact mem_of_getElem? hget
  have hpos := length_pos_of_ne_nil hne
  by_cases hascii : c.toNat < 128
  · rw [encodeChar_ascii hascii] at hlength
    simp only [length_singleton] at hlength
    omega
  · have := encodeChar_high (Nat.le_of_not_lt hascii) hmem
    omega

theorem beginsLong_ascii {a : UInt8} (hb : b.toNat < 128) : beginsLong a b = false := by
  have hlow (n : UInt8) (hn : 128 ≤ n.toNat) : ¬ n ≤ b := by
    rw [UInt8.le_iff_toNat_le]
    omega
  simp [beginsLong,isContinuation,hlow]

theorem malformedLength_ascii {a rest : List UInt8} (hb : b.toNat < 128) (hne : a ≠ []) :
    malformedLength (a ++ b :: rest) = malformedLength a ∧ malformedLength a ≤ a.length := by
  have hcontinues : isContinuation b = false := by
    simp only [isContinuation,Bool.and_eq_false_iff,decide_eq_false_iff_not,UInt8.le_iff_toNat_le]
    have : (0x80 : UInt8).toNat = 128 := rfl
    omega
  match a with
  | [] => exact absurd rfl hne
  | [x] => cases rest <;> simp [malformedLength,beginsLong_ascii hb]
  | [x,y] =>
    simp only [cons_append,nil_append,malformedLength,hcontinues,Bool.and_false,Bool.false_eq_true,if_false,
      length_cons,length_nil,true_and]
    split_ifs <;> omega
  | x :: y :: z :: more =>
    simp only [cons_append,malformedLength,length_cons,true_and]
    split_ifs <;> omega

/-- What stands before a byte below 128 is decoded on its own. -/
theorem decodeLossy_append_ascii (a rest : List UInt8) (hb : b.toNat < 128) :
    decodeLossy (a ++ b :: rest) = decodeLossy a ++ decodeLossy (b :: rest) := by
  apply String.toList_injective
  rw [String.toList_append]
  induction hn : a.length using Nat.strongRecOn generalizing a with
  | _ n ih =>
    by_cases hne : a = []
    · subst hne
      rfl
    · have hdrop (k : ℕ) (hk : 0 < k) (hle : k ≤ a.length) :
          (decodeLossy ((a ++ b :: rest).drop k)).toList =
            (decodeLossy (a.drop k)).toList ++ (decodeLossy (b :: rest)).toList := by
        rw [drop_append_of_le_length hle]
        refine ih _ ?_ _ rfl
        rw [length_drop]
        omega
      cases hdecode : (a ++ b :: rest).toByteArray.utf8DecodeChar? 0 with
      | some c =>
        have hsize := size_le_of_ascii hb hdecode hne
        have hfront : a = String.utf8EncodeChar c ++ a.drop c.utf8Size := by
          have heq := append_of_decodeChar hdecode
          have htake := congrArg (List.take c.utf8Size) heq
          rw [take_append_of_le_length hsize,take_left' (String.length_utf8EncodeChar c)] at htake
          rw [← htake,take_append_drop]
        have hrest := hdrop c.utf8Size c.utf8Size_pos hsize
        rw [append_of_decodeChar hdecode,decodeLossy_char,hrest]
        conv_rhs => rw [hfront,decodeLossy_char]
        rfl
      | none =>
        have hlengths : malformedLength (a ++ b :: rest) = malformedLength a ∧ _ := malformedLength_ascii hb hne
        have hnone : a.toByteArray.utf8DecodeChar? 0 = none := by
          cases ha : a.toByteArray.utf8DecodeChar? 0 with
          | none => rfl
          | some c =>
            rw [append_of_decodeChar ha,append_assoc,decodeChar_append] at hdecode
            cases hdecode
        have hne' : a ++ b :: rest ≠ [] := by simp
        rw [decodeLossy_malformed hdecode hne',decodeLossy_malformed hnone hne,hlengths.1,
          hdrop _ (malformedLength_pos a) hlengths.2]
        rfl

end Mxterm.Utf8
