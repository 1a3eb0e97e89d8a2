import Mxterm.Occurrences

/-! What the replacing of every occurrence of a pattern does: step by step from the left, to a text that is itself the
image of another one, and to the weight of a text. -/
namespace Mxterm.Occurrences

open List

variable {α : Type} {pattern new text before rest : List α}

/-! ## Where no occurrence begins -/

/-- No occurrence of the pattern begins in the list, whatever comes behind it. -/
def Clear (pattern a : List α) : Prop := ∀ t, t <:+ a → t ≠ [] → ¬ pattern <+: t ∧ ¬ t <+: pattern

@[simp] theorem clear_nil : Clear pattern [] := fun _ ht hne => absurd (suffix_nil.mp ht) hne

variable {a : List α}

theorem Clear.tail {b : α} (h : Clear pattern (b :: a)) : Clear pattern a := fun t ht =>
  h t (ht.trans (suffix_cons b a))

theorem Clear.not_starts {b : α} (h : Clear pattern (b :: a)) (rest : List α) : ¬ pattern <+: b :: a ++ rest := by
  intro hp
  obtain ⟨hno,hno'⟩ := h (b :: a) suffix_rfl (cons_ne_nil _ _)
  rcases prefix_or_prefix_of_prefix hp (prefix_append (b :: a) rest) with hp | hp
  · exact hno hp
  · exact hno' hp

theorem Clear.append {b : List α} (ha : Clear pattern a) (hb : Clear pattern b) : Clear pattern (a ++ b) := by
  induction a with
  | nil => exact hb
  | cons c a ih =>
    intro t ht hne
    rcases suffix_cons_iff.mp (by simpa using ht : t <:+ c :: (a ++ b)) with rfl | ht
    · have hno := ha.not_starts b
      refine ⟨by simpa using hno,fun hp => ?_⟩
      have hstart : c :: a <+: pattern := (prefix_append (c :: a) b).trans hp
      exact (ha (c :: a) suffix_rfl (cons_ne_nil _ _)).2 hstart
    · exact ih ha.tail t ht hne

variable {m : α}

/-- A list without the first letter of the pattern is clear of it. -/
theorem clear_of_not_mem (hpattern : pattern.head? = some m) (h : m ∉ a) : Clear pattern a := by
  obtain ⟨tail,rfl⟩ := head?_eq_some_iff.mp hpattern
  intro t ht hne
  cases t with
  | nil => exact absurd rfl hne
  | cons b t =>
    have hb : b ≠ m := fun he => h (he ▸ ht.subset mem_cons_self)
    exact ⟨fun hp => hb (cons_prefix_cons.mp hp).1.symm,fun hp => hb (cons_prefix_cons.mp hp).1⟩

/-- So is a list without the pattern that ends with a letter the pattern does not have. -/
theorem clear_of_last {z : α} (h : ¬ pattern <:+: a ++ [z]) (hz : z ∉ pattern) : Clear pattern (a ++ [z]) := by
  intro t ht hne
  refine ⟨fun hp => h (hp.isInfix.trans ht.isInfix),fun hp => hz (hp.subset ?_)⟩
  obtain ⟨more,hmore⟩ := ht
  have hlast := congrArg List.getLast? hmore
  rw [getLast?_append_of_ne_nil _ hne,getLast?_concat] at hlast
  exact mem_of_getLast? hlast

theorem Clear.suffix {b : List α} (h : Clear pattern b) (hab : a <:+ b) : Clear pattern a := fun t ht =>
  h t (ht.trans hab)

theorem Clear.not_inside (hpattern : pattern ≠ []) (h : Clear pattern a) : ¬ pattern <:+: a := by
  rintro ⟨before,behind,rfl⟩
  exact (h (pattern ++ behind) ⟨before,by simp⟩ (by simp [hpattern])).1 (prefix_append _ _)

/-- A word that begins with the pattern's first letter and has it nowhere else is clear when it is another word. -/
theorem clear_word {word : List α} (hpattern : pattern.head? = some m) (hword : m ∉ word)
    (hno : ¬ pattern <+: m :: word) (hno' : ¬ m :: word <+: pattern) : Clear pattern (m :: word) := by
  intro t ht hne
  rcases suffix_cons_iff.mp ht with rfl | ht
  · exact ⟨hno,hno'⟩
  · exact clear_of_not_mem hpattern hword t ht hne

variable {f : α → List α}

/-- A word without the mark at the start of an image is at the start of the text: other images begin with the mark. -/
theorem prefix_of_prefix_flatMap (hf : ∀ b, f b = [b] ∨ (f b).head? = some m) {word : List α} (hword : m ∉ word)
    (s : List α) (h : word <+: s.flatMap f) : word <+: s := by
  induction word generalizing s with
  | nil => exact nil_prefix
  | cons c word ih =>
    obtain ⟨hc,hword⟩ := not_or.mp (fun hmem => hword (mem_cons.mpr hmem))
    cases s with
    | nil => simp at h
    | cons b s =>
      rw [flatMap_cons] at h
      rcases hf b with hb | hb
      · rw [hb,singleton_append,cons_prefix_cons] at h
        obtain ⟨rfl,h⟩ := h
        exact cons_prefix_cons.mpr ⟨rfl,ih hword s h⟩
      · obtain ⟨tail,htail⟩ := head?_eq_some_iff.mp hb
        rw [htail,cons_append,cons_prefix_cons] at h
        exact absurd h.1.symm hc

variable [DecidableEq α]

instance (pattern a : List α) : Decidable (Clear pattern a) :=
  decidable_of_iff (∀ t ∈ a.tails, t ≠ [] → ¬ pattern <+: t ∧ ¬ t <+: pattern)
    (forall_congr' fun t => by rw [mem_tails])

theorem findFirst_clear (h : Clear pattern a) (rest : List α) :
    findFirst pattern (a ++ rest) = (findFirst pattern rest).map fun found => (a ++ found.1,found.2) := by
  induction a with
  | nil => simp
  | cons b a ih =>
    have hnot := h.not_starts rest
    rw [cons_append] at hnot ⊢
    rw [findFirst,if_neg hnot,ih h.tail,Option.map_map]
    rfl

/-- A pattern that has its first letter nowhere else is found where it stands when it is not in what is before. -/
theorem findFirst_of_mark {tail : List α} (hpattern : pattern = m :: tail) (htail : m ∉ tail)
    (hbefore : ¬ pattern <:+: before) (rest : List α) :
    findFirst pattern (before ++ pattern ++ rest) = some (before,rest) := by
  have hne : pattern ≠ [] := by simp [hpattern]
  induction before with
  | nil => rw [nil_append,findFirst_self hne]
  | cons a before ih =>
    have hnot : ¬ pattern <+: a :: (before ++ pattern ++ rest) := by
      intro h
      have hparts : pattern <+: (a :: before) ++ (pattern ++ rest) := by simpa using h
      rcases prefix_or_prefix_of_prefix hparts (prefix_append (a :: before) _) with hp | hp
      · exact hbefore hp.isInfix
      · -- the rest of the occurrence would begin with the pattern's first letter
        obtain ⟨more,hmore⟩ := hp
        rw [← hmore,prefix_append_right_inj] at hparts
        cases more with
        | nil => exact hbefore (by rw [← hmore,append_nil])
        | cons b more =>
          rw [hmore,hpattern,cons_append,cons_prefix_cons] at hparts
          rw [hpattern,cons_append,cons_eq_cons] at hmore
          refine htail (hmore.2 ▸ mem_append_right _ ?_)
          rw [hparts.1]
          exact mem_cons_self
    rw [cons_append,cons_append,findFirst,if_neg hnot,
      ih fun h => hbefore (h.trans (suffix_cons a before).isInfix)]
    rfl

/-- Behind any text the pattern is found where it stands or earlier. -/
theorem findFirst_early (pattern before rest : List α) :
    ∃ early behind, findFirst pattern (before ++ pattern ++ rest) = some (early,behind) ∧ early <+: before := by
  induction before with
  | nil =>
    by_cases hpattern : pattern = []
    · cases rest <;> simp [hpattern,findFirst]
    · exact ⟨[],rest,findFirst_self hpattern rest,prefix_rfl⟩
  | cons a before ih =>
    obtain ⟨early,behind,hfound,hearly⟩ := ih
    rw [cons_append,cons_append,findFirst]
    split
    · exact ⟨[],_,rfl, nil_prefix⟩
    · rw [hfound]
      exact ⟨a :: early,behind,rfl,cons_prefix_cons.mpr ⟨rfl,hearly⟩⟩

theorem findFirst_of_not_inside (h : ¬ pattern <:+: text) : findFirst pattern text = none := by
  cases hfound : findFirst pattern text with
  | none => rfl
  | some found => exact absurd ⟨found.1,found.2,(findFirst_append hfound).symm⟩ h

/-! ## The steps of a replacing -/

theorem piecesFrom_of_le (hpattern : pattern ≠ []) {fuel : ℕ} (hfuel : text.length ≤ fuel) :
    piecesFrom pattern fuel text = pieces pattern text := by
  have hpos := length_pos_of_ne_nil hpattern
  rw [pieces]
  induction hn : text.length using Nat.strong_induction_on generalizing text fuel with
  | _ n ih =>
    cases fuel with
    | zero =>
      have hzero : n = 0 := by omega
      rw [hzero]
    | succ fuel =>
      cases n with
      | zero =>
        have hempty := eq_nil_of_length_eq_zero hn
        rw [piecesFrom,piecesFrom,hempty,findFirst_nil hpattern]
      | succ n =>
        rw [piecesFrom,piecesFrom]
        cases hfound : findFirst pattern text with
        | none => rfl
        | some found =>
          have hlength := congrArg List.length (findFirst_append hfound)
          simp only [length_append] at hlength
          have hrest : found.2.length < n + 1 := by omega
          have hleft := ih _ hrest (show found.2.length ≤ fuel by omega) rfl
          have hright := ih _ hrest (show found.2.length ≤ n by omega) rfl
          simp only [hleft,hright]

theorem replaceAll_eq (hpattern : pattern ≠ []) (new text : List α) :
    replaceAll pattern new text = match findFirst pattern text with
      | none => text
      | some (before,rest) => before ++ new ++ replaceAll pattern new rest := by
  cases text with
  | nil => simp [replaceAll,pieces,piecesFrom,findFirst_nil hpattern]
  | cons a text =>
    rw [replaceAll,pieces,length_cons,piecesFrom]
    cases hfound : findFirst pattern (a :: text) with
    | none => simp
    | some found =>
      obtain ⟨before,rest⟩ := found
      have hpos := length_pos_of_ne_nil hpattern
      have hlength := congrArg List.length (findFirst_append hfound)
      simp only [length_append,length_cons] at hlength
      simp only
      rw [piecesFrom_of_le hpattern (by omega),replaceAll]
      cases hpieces : pieces pattern rest with
      | nil => exact absurd hpieces (piecesFrom_ne_nil _)
      | cons piece more => rw [intercalate_cons_cons]

theorem replaceAll_nil (hpattern : pattern ≠ []) : replaceAll pattern new [] = [] := by
  rw [replaceAll_eq hpattern,findFirst_nil hpattern]

theorem replaceAll_clear (hpattern : pattern ≠ []) (h : Clear pattern a) (rest : List α) :
    replaceAll pattern new (a ++ rest) = a ++ replaceAll pattern new rest := by
  rw [replaceAll_eq hpattern,findFirst_clear h,replaceAll_eq hpattern new rest]
  cases findFirst pattern rest with
  | none => rfl
  | some found => simp

theorem replaceAll_self (hpattern : pattern ≠ []) (rest : List α) :
    replaceAll pattern new (pattern ++ rest) = new ++ replaceAll pattern new rest := by
  rw [replaceAll_eq hpattern,findFirst_self hpattern]
  simp

theorem replaceAll_cons (hpattern : pattern ≠ []) {a : α} (h : ¬ pattern <+: a :: text) :
    replaceAll pattern new (a :: text) = a :: replaceAll pattern new text := by
  rw [replaceAll_eq hpattern,findFirst,if_neg h,replaceAll_eq hpattern new text]
  cases findFirst pattern text with
  | none => rfl
  | some found => simp

theorem replaceAll_of_not_inside (hpattern : pattern ≠ []) (h : ¬ pattern <:+: text) :
    replaceAll pattern new text = text := by
  rw [replaceAll_eq hpattern,findFirst_of_not_inside h]

/-! ## The image of a text -/

/-- Every occurrence in the image of a text is the image of a letter. -/
theorem replaceAll_flatMap_words (hpattern : pattern ≠ []) {g : α → List α}
    (h : ∀ b, f b = pattern ∧ g b = new ∨ f b = g b ∧ Clear pattern (f b)) (s : List α) :
    replaceAll pattern new (s.flatMap f) = s.flatMap g := by
  induction s with
  | nil => exact replaceAll_nil hpattern
  | cons b s ih =>
    rw [flatMap_cons,flatMap_cons]
    rcases h b with ⟨hf,hg⟩ | ⟨hfg,hclear⟩
    · rw [hf,hg,replaceAll_self hpattern,ih]
    · rw [replaceAll_clear hpattern hclear,ih,hfg]

/-- What becomes of a letter where a pattern is replaced in an image: the letter stays, it has become the pattern, or
it has become another word with the pattern's mark. -/
def Encodes (pattern new : List α) (m : α) (f g : α → List α) (b : α) : Prop :=
  f b = [b] ∧ g b = [b] ∨
    b ∉ pattern ∧ (f b).head? = some m ∧ (f b = pattern ∧ g b = new ∨ f b = g b ∧ Clear pattern (f b))

/-- To replace the pattern in the image of a text is to replace it in the text, and to take the image without it. -/
theorem replaceAll_flatMap {tail : List α} (hpattern : pattern = m :: tail) (htail : m ∉ tail) {g : α → List α}
    (h : ∀ b, Encodes pattern new m f g b) (hnew : new.flatMap g = new) (s : List α) :
    replaceAll pattern new (s.flatMap f) = (replaceAll pattern new s).flatMap g := by
  have hne : pattern ≠ [] := by simp [hpattern]
  have hstart : ∀ b, f b = [b] ∨ (f b).head? = some m := fun b => (h b).imp And.left fun hb => hb.2.1
  have hself : pattern.flatMap f = pattern := by
    have hword : ∀ b ∈ pattern, f b = [b] := by
      intro b hb
      rcases h b with ⟨hf,-⟩ | ⟨hnot,-⟩
      · exact hf
      · exact absurd hb hnot
    rw [flatMap_congr hword]
    simp
  induction hn : s.length using Nat.strong_induction_on generalizing s with
  | _ n ih =>
    cases s with
    | nil => simp [replaceAll_nil hne]
    | cons a text =>
      by_cases hp : pattern <+: a :: text
      · obtain ⟨rest,hrest⟩ := hp
        have hlength : rest.length < n := by
          rw [← hn,← hrest,length_append]
          have hpos := length_pos_of_ne_nil hne
          omega
        rw [← hrest,flatMap_append,hself,replaceAll_self hne,replaceAll_self hne,flatMap_append,hnew,
          ih _ hlength rest rfl]
      · have hlength : text.length < n := by simp [← hn]
        rw [replaceAll_cons hne hp,flatMap_cons,flatMap_cons,← ih _ hlength text rfl]
        rcases h a with ⟨hf,hg⟩ | ⟨-,-,⟨hf,hg⟩ | ⟨hfg,hclear⟩⟩
        · have hnot : ¬ pattern <+: a :: text.flatMap f := by
            intro hbad
            rw [hpattern,cons_prefix_cons] at hbad hp
            exact hp ⟨hbad.1,prefix_of_prefix_flatMap hstart htail text hbad.2⟩
          rw [hf,hg,singleton_append,singleton_append,replaceAll_cons hne hnot]
        · rw [hf,hg,replaceAll_self hne]
        · rw [replaceAll_clear hne hclear,hfg]

/-! ## The weight of a text -/

variable {weight : List α → ℕ}

/-- A lighter word in the pattern's place makes a text with the pattern lighter. -/
theorem weight_replaceAll (hpattern : pattern ≠ []) (hadd : ∀ a b, weight (a ++ b) = weight a + weight b)
    (hnew : weight new < weight pattern) (text : List α) : weight (replaceAll pattern new text) ≤ weight text ∧
      (pattern <:+: text → weight (replaceAll pattern new text) < weight text) := by
  induction hn : text.length using Nat.strong_induction_on generalizing text with
  | _ n ih =>
    rw [replaceAll_eq hpattern]
    cases hfound : findFirst pattern text with
    | none =>
      refine ⟨Nat.le_refl _,?_⟩
      rintro ⟨before,rest,rfl⟩
      refine absurd ?_ (findFirst_eq_none hfound before.length)
      rw [OccursAt,append_assoc,drop_left]
      exact prefix_append _ _
    | some found =>
      have htext := findFirst_append hfound
      have hlength : found.2.length < n := by
        have hpos := length_pos_of_ne_nil hpattern
        rw [← hn,htext,length_append,length_append]
        omega
      have hrest := (ih _ hlength found.2 rfl).1
      have hweight : weight text = weight found.1 + weight pattern + weight found.2 := by
        conv_lhs => rw [htext]
        rw [hadd,hadd]
      simp only [hadd]
      omega

/-- Several patterns, one replaced after the other. -/
def replaceEach (words : List (List α × List α)) (text : List α) : List α :=
  words.foldl (fun text word => replaceAll word.1 word.2 text) text

theorem weight_replaceEach (weight : List α → ℕ) {words : List (List α × List α)} (hne : ∀ word ∈ words, word.1 ≠ [])
    (hadd : ∀ a b, weight (a ++ b) = weight a + weight b) (hnew : ∀ word ∈ words, weight word.2 < weight word.1)
    (text : List α) : weight (replaceEach words text) ≤ weight text ∧
      (weight (replaceEach words text) = weight text ↔ ∀ word ∈ words, ¬ word.1 <:+: text) := by
  induction words generalizing text with
  | nil => simp [replaceEach]
  | cons word words ih =>
    obtain ⟨hword,hwords⟩ := forall_mem_cons.mp hne
    obtain ⟨hlight,hlights⟩ := forall_mem_cons.mp hnew
    obtain ⟨hle,heq⟩ := ih hwords hlights (replaceAll word.1 word.2 text)
    obtain ⟨hle',hlt⟩ := weight_replaceAll hword hadd hlight text
    change weight (replaceEach words (replaceAll word.1 word.2 text)) ≤ weight text ∧
      (weight (replaceEach words (replaceAll word.1 word.2 text)) = weight text ↔ _)
    refine ⟨hle.trans hle',?_⟩
    rw [forall_mem_cons]
    by_cases hinside : word.1 <:+: text
    · have hless := hlt hinside
      exact iff_of_false (by omega) fun h => h.1 hinside
    · rw [replaceAll_of_not_inside hword hinside] at heq ⊢
      simp [heq,hinside]

theorem replaceEach_of_not_inside {words : List (List α × List α)} (hne : ∀ word ∈ words, word.1 ≠ [])
    (h : ∀ word ∈ words, ¬ word.1 <:+: text) : replaceEach words text = text := by
  induction words with
  | nil => rfl
  | cons word words ih =>
    obtain ⟨hword,hwords⟩ := forall_mem_cons.mp hne
    obtain ⟨hno,hnone⟩ := forall_mem_cons.mp h
    change replaceEach words (replaceAll word.1 word.2 text) = text
    rw [replaceAll_of_not_inside hword hno,ih hwords hnone]

end Mxterm.Occurrences
