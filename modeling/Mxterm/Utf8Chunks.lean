import Mxterm.LossyText

/-! UTF-8 that is decoded with replacement characters chunk by chunk: it comes out whole exactly where no chunk begins
inside a character. -/
namespace Mxterm.Utf8

open List

/-! ## Where characters begin -/

/-- Whether a character may begin with the byte. -/
def begins (b : UInt8) : Bool := ! isContinuation b

theorem begins_iff (b : UInt8) : begins b = true ↔ b.toNat < 0x80 ∨ 0xBF < b.toNat := by
  have hlow : (0x80 : UInt8).toNat = 0x80 := rfl
  have hhigh : (0xBF : UInt8).toNat = 0xBF := rfl
  simp only [begins,isContinuation,Bool.not_eq_true',Bool.and_eq_false_iff,decide_eq_false_iff_not,
    UInt8.le_iff_toNat_le,hlow,hhigh]
  omega

/-- A character is one byte that begins it, and others that do not. -/
theorem encodeChar_shape (c : Char) : ∃ b rest, String.utf8EncodeChar c = b :: rest ∧ begins b = true ∧
    ∀ d ∈ rest, begins d = false := by
  have hfirst : ∀ n, n < 0x80 ∨ 0xBF < n → n < 256 → begins (UInt8.ofNat n) = true := by
    intro n h hlt
    rw [begins_iff,UInt8.toNat_ofNat_of_lt' hlt]
    exact h
  have hnext : ∀ n, 0x80 ≤ n → n ≤ 0xBF → begins (UInt8.ofNat n) = false := by
    intro n hle hge
    rw [Bool.eq_false_iff,Ne,begins_iff,UInt8.toNat_ofNat_of_lt' (by rw [UInt8.size]; omega)]
    omega
  by_cases hascii : c.toNat < 128
  · refine ⟨_,_,encodeChar_ascii hascii,?_,by simp⟩
    rw [begins_iff,UInt32.toNat_toUInt8]
    have hval : c.val.toNat = c.toNat := rfl
    omega
  · have hv : ¬ c.val.toNat ≤ 127 := by
      have hval : c.val.toNat = c.toNat := rfl
      omega
    unfold String.utf8EncodeChar
    rw [if_neg (by omega)]
    split_ifs with htwo hthree
    · refine ⟨_,_,rfl,hfirst _ (by omega) (by omega),?_⟩
      simp only [forall_mem_singleton]
      exact hnext _ (by omega) (by omega)
    · refine ⟨_,_,rfl,hfirst _ (by omega) (by omega),?_⟩
      simp only [forall_mem_cons,not_mem_nil,false_implies,implies_true,and_true]
      exact ⟨hnext _ (by omega) (by omega),hnext _ (by omega) (by omega)⟩
    · refine ⟨_,_,rfl,hfirst _ (by omega) (by omega),?_⟩
      simp only [forall_mem_cons,not_mem_nil,false_implies,implies_true,and_true]
      exact ⟨hnext _ (by omega) (by omega),hnext _ (by omega) (by omega),hnext _ (by omega) (by omega)⟩

theorem countP_encodeChar (c : Char) : (String.utf8EncodeChar c).countP begins = 1 := by
  obtain ⟨b,rest,heq,hb,hrest⟩ := encodeChar_shape c
  have hzero : rest.countP begins = 0 := countP_eq_zero.mpr fun d hd => by simp [hrest d hd]
  rw [heq,countP_cons_of_pos hb,hzero]

theorem countP_encode (s : String) : (encode s).countP begins = s.toList.length := by
  rw [encode,countP_flatMap]
  simp [Function.comp_def,countP_encodeChar]

theorem begins_of_beginsLong {a b : UInt8} (h : beginsLong a b = true) : begins b = false := by
  simp only [beginsLong,isContinuation,Bool.or_eq_true,Bool.and_eq_true,beq_iff_eq,decide_eq_true_eq,
    UInt8.le_iff_toNat_le] at h
  rw [Bool.eq_false_iff,Ne,begins_iff]
  simp only [UInt8.reduceToNat] at h
  omega

/-- A malformed piece is one byte, and others that begin no character. -/
theorem countP_malformed (b : UInt8) (bytes : List UInt8) : ∃ rest,
    (b :: bytes).take (malformedLength (b :: bytes)) = b :: rest ∧ rest.countP begins = 0 := by
  have hcontinues (c : UInt8) (h : isContinuation c = true) : begins c = false := by rw [begins,h]; rfl
  match bytes with
  | [] => exact ⟨[],rfl,rfl⟩
  | [c] =>
    simp only [malformedLength]
    split_ifs with hlong
    · exact ⟨[c],rfl,by simp [begins_of_beginsLong hlong]⟩
    · exact ⟨[],rfl,rfl⟩
  | c :: d :: more =>
    simp only [malformedLength]
    split_ifs with hlong hthird
    · have hd := hcontinues d (Bool.and_eq_true_iff.mp hthird).2
      exact ⟨[c,d],rfl,by simp [begins_of_beginsLong hlong,hd]⟩
    · exact ⟨[c],rfl,by simp [begins_of_beginsLong hlong]⟩
    · exact ⟨[],rfl,rfl⟩

/-- No less characters are decoded than there are bytes that begin one, and one more where the first does not. -/
theorem countP_le_length (bytes : List UInt8) : bytes.countP begins ≤ (decodeLossy bytes).toList.length ∧
    ∀ b ∈ bytes.head?, begins b = false → bytes.countP begins < (decodeLossy bytes).toList.length := by
  induction hn : bytes.length using Nat.strongRecOn generalizing bytes with
  | _ n ih =>
    subst hn
    cases hdecode : bytes.toByteArray.utf8DecodeChar? 0 with
    | some c =>
      obtain ⟨b,tail,henc,hb,htail⟩ := encodeChar_shape c
      have heq := append_of_decodeChar hdecode
      have hlength := congrArg List.length heq
      rw [length_append,String.length_utf8EncodeChar] at hlength
      have hpos := c.utf8Size_pos
      have hrest := (ih _ (by omega) (bytes.drop c.utf8Size) rfl).1
      rw [heq,decodeLossy_char,countP_append,countP_encodeChar,length_cons]
      constructor
      · omega
      · rw [henc]
        intro d hd hbegins
        rw [← Option.some.inj hd,hb] at hbegins
        cases hbegins
    | none =>
      cases bytes with
      | nil => exact ⟨Nat.zero_le _,fun b hb => nomatch hb⟩
      | cons b bytes =>
        obtain ⟨rest,htake,hcount⟩ := countP_malformed b bytes
        have hpos := malformedLength_pos (b :: bytes)
        have hrest := (ih _ (by rw [length_drop,length_cons]; omega)
          ((b :: bytes).drop (malformedLength (b :: bytes))) rfl).1
        have hsplit : (b :: bytes).countP begins =
            (b :: rest).countP begins + ((b :: bytes).drop (malformedLength (b :: bytes))).countP begins := by
          rw [← htake,← countP_append,take_append_drop]
        rw [decodeLossy_malformed hdecode (cons_ne_nil _ _),length_cons,hsplit,countP_cons]
        constructor
        · split_ifs <;> omega
        · intro d hd hbegins
          rw [← Option.some.inj hd] at hbegins
          simp only [hbegins,Bool.false_eq_true,if_false]
          omega

/-! ## Chunks -/

/-- What chunks are decoded to, each of them on its own. -/
def decodeChunks (chunks : List (List UInt8)) : String := String.join (chunks.map decodeLossy)

/-- No chunk begins inside a character. -/
def Aligned (chunks : List (List UInt8)) : Prop := ∀ chunk ∈ chunks, ∀ b ∈ chunk.head?, begins b = true

@[simp] theorem decodeChunks_nil : decodeChunks [] = "" := rfl

@[simp] theorem decodeChunks_cons (chunk : List UInt8) (chunks : List (List UInt8)) :
    decodeChunks (chunk :: chunks) = decodeLossy chunk ++ decodeChunks chunks := by
  simp [decodeChunks]

theorem countP_chunks (chunks : List (List UInt8)) :
    chunks.flatten.countP begins ≤ (decodeChunks chunks).toList.length ∧
    (¬ Aligned chunks → chunks.flatten.countP begins < (decodeChunks chunks).toList.length) := by
  induction chunks with
  | nil => simp [Aligned]
  | cons chunk chunks ih =>
    have hchunk := countP_le_length chunk
    rw [flatten_cons,countP_append,decodeChunks_cons,String.toList_append,length_append]
    refine ⟨by omega,fun h => ?_⟩
    by_cases haligned : Aligned chunks
    · have hhead : ∃ b ∈ chunk.head?, begins b = false := by
        by_contra hnone
        apply h
        rw [Aligned,forall_mem_cons]
        refine ⟨fun b hb => ?_,haligned⟩
        by_contra hbegins
        exact hnone ⟨b,hb,Bool.eq_false_iff.mpr hbegins⟩
      obtain ⟨b,hb,hbegins⟩ := hhead
      have := hchunk.2 b hb hbegins
      omega
    · have := ih.2 haligned
      omega

/-- What is behind an edge between characters is a text of its own. -/
theorem encode_split {s : String} {a b : List UInt8} (h : a ++ b = encode s) (hb : ∀ d ∈ b.head?, begins d = true) :
    ∃ t u, a = encode t ∧ b = encode u := by
  have hlist (cs : List Char) (a : List UInt8) (h : a ++ b = cs.flatMap String.utf8EncodeChar) :
      ∃ t u : List Char, a = t.flatMap String.utf8EncodeChar ∧ b = u.flatMap String.utf8EncodeChar := by
    induction cs generalizing a with
    | nil =>
      obtain ⟨rfl,rfl⟩ := append_eq_nil_iff.mp h
      exact ⟨[],[],rfl,rfl⟩
    | cons c cs ih =>
      rw [flatMap_cons] at h
      rcases append_eq_append_iff.mp h with ⟨e,henc,hrest⟩ | ⟨e,ha,hrest⟩
      · obtain ⟨x,tail,hshape,-,htail⟩ := encodeChar_shape c
        cases a with
        | nil => exact ⟨[],c :: cs,rfl,by rw [flatMap_cons,← h,nil_append]⟩
        | cons y a =>
          cases e with
          | nil => exact ⟨[c],cs,by simp [henc],by simpa using hrest⟩
          | cons d e =>
            have hhead := hb d (by rw [hrest]; rfl)
            rw [hshape,cons_append,List.cons.injEq] at henc
            rw [htail d (by rw [henc.2]; simp)] at hhead
            cases hhead
      · obtain ⟨t,u,ht,hu⟩ := ih e hrest.symm
        exact ⟨c :: t,u,by rw [flatMap_cons,← ht,ha],hu⟩
  obtain ⟨t,u,ht,hu⟩ := hlist s.toList a h
  exact ⟨String.ofList t,String.ofList u,by simpa [encode] using ht,by simpa [encode] using hu⟩

/-- The chunks of a text are decoded to it exactly where none begins inside a character. -/
theorem decodeChunks_iff {s : String} {chunks : List (List UInt8)} (h : chunks.flatten = encode s) :
    decodeChunks chunks = s ↔ Aligned chunks := by
  constructor
  · intro hdecoded
    by_contra haligned
    have hmore := (countP_chunks chunks).2 haligned
    rw [h,countP_encode,hdecoded] at hmore
    omega
  · intro haligned
    induction chunks generalizing s with
    | nil =>
      have hempty : encode s = encode "" := h.symm
      rw [encode_injective hempty]
      rfl
    | cons chunk chunks ih =>
      obtain ⟨hchunk,hchunks⟩ := forall_mem_cons.mp haligned
      have hnext : ∀ d ∈ chunks.flatten.head?, begins d = true := by
        intro d hd
        rw [head?_flatten] at hd
        obtain ⟨next,hnext,hhead⟩ := exists_of_findSome?_eq_some hd
        exact hchunks next hnext d hhead
      obtain ⟨t,u,ht,hu⟩ := encode_split (by rw [← h,flatten_cons]) hnext
      have hs : s = t ++ u := by
        apply encode_injective
        rw [← h,flatten_cons,encode_append,ht,hu]
      rw [decodeChunks_cons,ih hu hchunks,ht,decodeLossy_encode,hs]

end Mxterm.Utf8
