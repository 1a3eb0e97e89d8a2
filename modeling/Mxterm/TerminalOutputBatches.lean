import Mxterm.TerminalOutputFlow

/-! How `takeBatch` cuts a batch off the chunks that wait: it takes whole chunks and at most one
front of a chunk, which never ends inside a surrogate pair. -/
namespace Mxterm.TerminalOutput

open List

/-- The batch `takeBatch` cuts off a list of chunks, and the chunks that stay. -/
def takeChunks : ℕ → List Text → Text × List Text
  | _, [] => ([],[])
  | remaining, chunk :: chunks =>
    if remaining = 0 then ([],chunk :: chunks)
    else if chunk.length ≤ remaining then
      let (batch,rest) := takeChunks (remaining - chunk.length) chunks
      (chunk ++ batch,rest)
    else
      let take := takeLength chunk remaining
      (chunk.take take,chunk.drop take :: chunks)

theorem splits_iff (value : Text) (index : ℕ) :
    splitsSurrogatePair value index = true ↔
      (0 < index ∧ index < value.length) ∧
        0xd800 ≤ value[index - 1]?.getD 0 ∧ value[index - 1]?.getD 0 ≤ 0xdbff ∧
        0xdc00 ≤ value[index]?.getD 0 ∧ value[index]?.getD 0 ≤ 0xdfff := by
  by_cases hin : 0 < index ∧ index < value.length
  · have hout : ¬ (index ≤ 0 ∨ value.length ≤ index) := by omega
    simp only [splitsSurrogatePair,hout,hin,if_false,decide_eq_true_eq,true_and,and_true]
  · have hout : index ≤ 0 ∨ value.length ≤ index := by omega
    rw [splitsSurrogatePair,if_pos hout]
    exact ⟨fun h => absurd h Bool.false_ne_true,fun h => absurd h.1 hin⟩

/-- Inside one part of a text only that part decides. -/
theorem splits_middle (front chunk back : Text) {index : ℕ} (hpos : 0 < index)
    (hlt : index < chunk.length) :
    splitsSurrogatePair (front ++ chunk ++ back) (front.length + index) =
      splitsSurrogatePair chunk index := by
  have hat : ∀ i, i < chunk.length →
      (front ++ chunk ++ back)[front.length + i]?.getD 0 = chunk[i]?.getD 0 := by
    intro i hi
    rw [append_assoc,getElem?_append_right (by omega),Nat.add_sub_cancel_left,
      getElem?_append_left hi]
  have hprev : front.length + index - 1 = front.length + (index - 1) := by omega
  apply Bool.eq_iff_iff.mpr
  rw [splits_iff,splits_iff,hat index hlt,hprev,hat (index - 1) (by omega)]
  simp only [length_append,hlt,hpos,and_true,true_and]
  constructor
  · exact fun h => h.2
  · exact fun h => ⟨by omega,h⟩

variable {remaining : ℕ}

/-- A pair that is kept together stays in front of what is left of its chunk. -/
theorem splits_after_take {chunk : Text} (h : takeLength chunk remaining < remaining) :
    remaining = takeLength chunk remaining + 1 ∧
      splitsSurrogatePair (chunk.drop (takeLength chunk remaining)) 1 = true ∧
      1 < (chunk.drop (takeLength chunk remaining)).length := by
  unfold takeLength at h ⊢
  by_cases hs : splitsSurrogatePair chunk remaining
  · simp only [hs,if_true] at h ⊢
    obtain ⟨⟨hpos,hlen⟩,hpair⟩ := (splits_iff chunk remaining).mp hs
    have hnext : remaining - 1 + 1 = remaining := by omega
    have hdrop : 1 < (chunk.drop (remaining - 1)).length := by rw [length_drop]; omega
    refine ⟨hnext.symm,?_,hdrop⟩
    rw [splits_iff,getElem?_drop,getElem?_drop,hnext]
    exact ⟨⟨by omega,hdrop⟩,hpair⟩
  · simp [hs] at h

/-- Once part of a chunk is taken, the batch is done. -/
theorem takeChunks_done (chunk : Text) (remaining : ℕ) (chunks : List Text) :
    takeChunks (remaining - takeLength chunk remaining)
        (chunk.drop (takeLength chunk remaining) :: chunks) =
      ([],chunk.drop (takeLength chunk remaining) :: chunks) := by
  have hle := takeLength_le chunk remaining
  by_cases hall : takeLength chunk remaining = remaining
  · simp [takeChunks,hall]
  · obtain ⟨hone,hsplit,hrest⟩ := splits_after_take (lt_of_le_of_ne hle hall)
    have hleft : remaining - takeLength chunk remaining = 1 := by omega
    have hlong : ¬ (chunk.drop (takeLength chunk remaining)).length ≤ 1 := by omega
    have hnone : takeLength (chunk.drop (takeLength chunk remaining)) 1 = 0 := by
      rw [takeLength,if_pos hsplit]
    rw [hleft]
    simp only [takeChunks,if_neg one_ne_zero,if_neg hlong,hnone,take_zero,drop_zero]

/-- The loop of `takeBatch` cuts off what `takeChunks` cuts off. -/
theorem takeLoop_eq (parts : List Text) (remaining : ℕ) (chunks : List Text) (chunkIndex : ℕ)
    (hindex : chunkIndex ≤ chunks.length) :
    let result := takeLoop parts remaining chunks chunkIndex
    result.1.flatten = parts.flatten ++ (takeChunks remaining (chunks.drop chunkIndex)).1 ∧
      result.2.1.drop result.2.2 = (takeChunks remaining (chunks.drop chunkIndex)).2 ∧
      result.2.2 ≤ result.2.1.length := by
  induction parts, remaining, chunks, chunkIndex using takeLoop.induct with
  | case1 parts remaining chunks chunkIndex hloop chunk hwhole ih =>
    have hdrop : chunks.drop chunkIndex = chunk :: chunks.drop (chunkIndex + 1) := by
      simp [chunk,hloop.2]
    have hrest := ih hloop.2
    rw [takeLoop,if_pos hloop]
    simp only [chunk] at hwhole hrest hdrop
    rw [hdrop]
    simp only [takeChunks,hwhole,if_true,if_neg hloop.1.ne']
    refine ⟨?_,hrest.2⟩
    rw [hrest.1]
    simp
  | case2 parts remaining chunks chunkIndex hloop chunk hwhole take htake =>
    have hdrop : chunks.drop chunkIndex = chunk :: chunks.drop (chunkIndex + 1) := by
      simp [chunk,hloop.2]
    rw [takeLoop,if_pos hloop]
    simp only [chunk,take] at hwhole htake hdrop
    simp only [hwhole,if_false,htake,if_true,hindex,and_true]
    rw [hdrop]
    simp [takeChunks,hwhole,htake,hloop.1.ne']
  | case3 parts remaining chunks chunkIndex hloop chunk hwhole take htake ih =>
    have hdrop : chunks.drop chunkIndex = chunk :: chunks.drop (chunkIndex + 1) := by
      simp [chunk,hloop.2]
    have hset : (chunks.set chunkIndex (chunk.drop take)).drop chunkIndex =
        chunk.drop take :: chunks.drop (chunkIndex + 1) := by
      rw [drop_eq_getElem_cons (by simpa using hloop.2),getElem_set_self,
        drop_set_of_lt (Nat.lt_succ_self _)]
    have hdone := takeChunks_done chunk remaining (chunks.drop (chunkIndex + 1))
    have hrest := ih (by simpa using hindex)
    rw [takeLoop,if_pos hloop]
    simp only [chunk,take] at hwhole htake hrest hdrop hset hdone
    simp only [hwhole,if_false,htake]
    rw [hdrop]
    simp only [takeChunks,hwhole,if_false,if_neg hloop.1.ne']
    rw [hset,hdone] at hrest
    refine ⟨?_,hrest.2⟩
    rw [hrest.1]
    simp
  | case4 parts remaining chunks chunkIndex hloop =>
    rw [takeLoop,if_neg hloop]
    refine ⟨?_,?_,hindex⟩
    all_goals
      rcases hd : chunks.drop chunkIndex with - | ⟨chunk,rest⟩
      · simp [takeChunks]
      · have hlt : chunkIndex < chunks.length := by
          by_contra hge
          simp [drop_eq_nil_of_le (not_lt.mp hge)] at hd
        have hzero : remaining = 0 := by omega
        simp [takeChunks,hzero]

/-- How a batch is cut off: between two chunks, or inside a chunk where it parts no pair. -/
inductive Cut : List Text → Text → List Text → Prop
  | between (chunks : List Text) : Cut chunks [] chunks
  | inside (chunk : Text) (n : ℕ) (chunks : List Text) : 0 < n → n < chunk.length →
      splitsSurrogatePair chunk n = false → Cut (chunk :: chunks) (chunk.take n) (chunk.drop n :: chunks)
  | chunk (chunk : Text) {chunks rest : List Text} {batch : Text} : Cut chunks batch rest →
      Cut (chunk :: chunks) (chunk ++ batch) rest

theorem takeLength_whole {chunk : Text} : splitsSurrogatePair chunk (takeLength chunk remaining) = false := by
  by_cases hs : splitsSurrogatePair chunk remaining
  · obtain ⟨⟨hpos,hlen⟩,hhigh,hhigh',-⟩ := (splits_iff chunk remaining).mp hs
    rw [takeLength,if_pos hs]
    apply Bool.eq_false_iff.mpr
    intro hprev
    obtain ⟨-,-,-,hlow,hlow'⟩ := (splits_iff chunk (remaining - 1)).mp hprev
    have hle := UInt16.le_iff_toNat_le.mp hhigh'
    have hge := UInt16.le_iff_toNat_le.mp hlow
    have hgap : (0xdbff : UInt16).toNat < (0xdc00 : UInt16).toNat := by decide
    omega
  · rw [takeLength,if_neg hs]
    exact Bool.eq_false_iff.mpr hs

theorem takeChunks_cut (remaining : ℕ) (chunks : List Text) :
    Cut chunks (takeChunks remaining chunks).1 (takeChunks remaining chunks).2 := by
  induction chunks generalizing remaining with
  | nil => exact .between []
  | cons chunk chunks ih =>
    by_cases hzero : remaining = 0
    · simpa [takeChunks,hzero] using Cut.between (chunk :: chunks)
    by_cases hwhole : chunk.length ≤ remaining
    · simpa [takeChunks,hzero,hwhole] using Cut.chunk chunk (ih (remaining - chunk.length))
    by_cases hnone : takeLength chunk remaining = 0
    · simpa [takeChunks,hwhole,hnone] using Cut.between (chunk :: chunks)
    have hle := takeLength_le chunk remaining
    simpa [takeChunks,hzero,hwhole] using
      Cut.inside chunk _ chunks (Nat.pos_of_ne_zero hnone) (by omega) takeLength_whole

theorem takeChunks_length (remaining : ℕ) (chunks : List Text) :
    (takeChunks remaining chunks).1.length ≤ remaining := by
  induction chunks generalizing remaining with
  | nil => simp [takeChunks]
  | cons chunk chunks ih =>
    by_cases hzero : remaining = 0
    · simp [takeChunks,hzero]
    by_cases hwhole : chunk.length ≤ remaining
    · have hrest := ih (remaining - chunk.length)
      simp only [takeChunks,hzero,hwhole,if_true,if_false,length_append]
      omega
    · have hle := takeLength_le chunk remaining
      simp only [takeChunks,hzero,hwhole,if_false,length_take]
      omega

/-- With room for two units a batch takes something. -/
theorem takeChunks_ne_nil (htwo : 2 ≤ remaining) {chunks : List Text} (hfull : ∀ chunk ∈ chunks, chunk ≠ [])
    (hne : chunks ≠ []) : (takeChunks remaining chunks).1 ≠ [] := by
  cases chunks with
  | nil => exact absurd rfl hne
  | cons chunk chunks =>
    have hchunk := hfull chunk mem_cons_self
    by_cases hwhole : chunk.length ≤ remaining
    · simp [takeChunks,hwhole,show remaining ≠ 0 by omega,hchunk]
    · have hpos : 0 < takeLength chunk remaining := by unfold takeLength; split <;> omega
      simp [takeChunks,hwhole,show remaining ≠ 0 by omega,hchunk,hpos.ne']

namespace Cut

variable {chunks rest : List Text} {batch : Text}

theorem flatten_eq (h : Cut chunks batch rest) : chunks.flatten = batch ++ rest.flatten := by
  induction h with
  | between => rfl
  | inside chunk n chunks => simp [← append_assoc]
  | chunk chunk _ ih => simp [ih]

theorem full (h : Cut chunks batch rest) (hfull : ∀ chunk ∈ chunks, chunk ≠ []) : ∀ chunk ∈ rest, chunk ≠ [] := by
  induction h with
  | between => exact hfull
  | inside chunk n chunks hpos hlt =>
    intro c hc
    rcases mem_cons.mp hc with rfl | hc
    · simpa using hlt
    · exact hfull c (mem_cons_of_mem _ hc)
  | chunk chunk _ ih => exact ih fun c hc => hfull c (mem_cons_of_mem _ hc)

/-- Every end of a chunk that stays is an end of one of the chunks before the cut. -/
theorem ends (h : Cut chunks batch rest) {first : List Text} (hfirst : first <+: rest) (hne : first ≠ []) :
    ∃ whole, whole <+: chunks ∧ whole ≠ [] ∧ whole.flatten = batch ++ first.flatten := by
  induction h with
  | between => exact ⟨first,hfirst,hne,rfl⟩
  | inside chunk n chunks =>
    obtain ⟨c,first,rfl⟩ := exists_cons_of_ne_nil hne
    obtain ⟨rfl,hrest⟩ := cons_prefix_cons.mp hfirst
    exact ⟨chunk :: first,cons_prefix_cons.mpr ⟨rfl,hrest⟩,cons_ne_nil _ _,
      by simp [← append_assoc]⟩
  | chunk chunk _ ih =>
    obtain ⟨whole,hwhole,-,heq⟩ := ih hfirst
    exact ⟨chunk :: whole,cons_prefix_cons.mpr ⟨rfl,hwhole⟩,cons_ne_nil _ _,by simp [heq]⟩

/-- A batch ends with a chunk, or inside one without parting a pair. -/
theorem batch_end (h : Cut chunks batch rest) (hne : batch ≠ []) :
    (∃ whole, whole <+: chunks ∧ whole ≠ [] ∧ whole.flatten = batch) ∨
    ∃ front chunk n back, chunks.flatten = front ++ chunk ++ back ∧ 0 < n ∧ n < chunk.length ∧
      batch.length = front.length + n ∧ splitsSurrogatePair chunk n = false := by
  induction h with
  | between => exact absurd rfl hne
  | inside chunk n chunks hpos hlt hsplit =>
    refine Or.inr ⟨[],chunk,n,chunks.flatten,by simp,hpos,hlt,?_,hsplit⟩
    simp [hlt.le]
  | @chunk chunk chunks rest batch hcut ih =>
    by_cases hlast : batch = []
    · exact Or.inl ⟨[chunk],cons_prefix_cons.mpr ⟨rfl, nil_prefix⟩,cons_ne_nil _ _,
        by simp [hlast]⟩
    rcases ih hlast with ⟨whole,hwhole,-,heq⟩ | ⟨front,c,n,back,heq,hpos,hlt,hlen,hsplit⟩
    · exact Or.inl ⟨chunk :: whole,cons_prefix_cons.mpr ⟨rfl,hwhole⟩,cons_ne_nil _ _,
        by simp [heq]⟩
    · refine Or.inr ⟨chunk ++ front,c,n,back,by simp [heq],hpos,hlt,?_,hsplit⟩
      simp only [length_append,hlen]
      omega

end Cut

end Mxterm.TerminalOutput
