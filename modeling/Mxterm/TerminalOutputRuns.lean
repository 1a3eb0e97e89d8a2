import Mxterm.TerminalOutputBatches

/-! What holds of the output of a terminal at any time: nothing is lost, repeated, put out of
order or left waiting, and no batch parts a pair that the chunks keep together. -/
namespace Mxterm.TerminalOutput

open List Terminal TerminalOutputQueue

/-- One of the pieces of a text ends between the two units of a surrogate pair. -/
def PartsPair (text : Text) (pieces : List Text) : Prop :=
  ∃ first, first <+: pieces ∧ splitsSurrogatePair text first.flatten.length = true

/-- What every step keeps, whether or not a callback is scheduled for what waits. -/
structure Steady (options : Options) (t : Terminal) : Prop where
  index_le : t.queue.chunkIndex ≤ t.queue.chunks.length
  full : ∀ chunk ∈ t.queue.pending, chunk ≠ []
  chars : t.queue.pendingChars = t.queue.pending.flatten.length
  content : t.written.flatten ++ t.queue.pending.flatten = t.enqueued.flatten
  ends : ∀ first, first <+: t.queue.pending → first ≠ [] →
    ∃ whole, whole <+: t.enqueued ∧ whole.flatten = t.written.flatten ++ first.flatten
  cuts : ∀ first, first <+: t.written →
    (∃ whole, whole <+: t.enqueued ∧ whole.flatten = first.flatten) ∨
    (first.flatten.length < t.enqueued.flatten.length ∧
      splitsSurrogatePair t.enqueued.flatten first.flatten.length = false)
  batches : ∀ write ∈ t.writes, write.batch ≠ [] ∧ write.batch.length ≤ options.maxBatchChars
  recorded : t.written.reverse <+: t.writes.map Write.batch
  callbacks : t.callbacks = t.queue.scheduledCancel.toList
  earlier : ∀ write ∈ t.writes.tail, write.completed = true
  latest : t.queue.writing = (t.writes.head?.map (!Write.completed ·)).getD false

/-- What waits is scheduled, unless a write is in flight. -/
def Awake (t : Terminal) : Prop :=
  t.queue.pendingChars ≠ 0 → t.queue.writing = false → t.queue.disposed = false →
    t.queue.scheduledCancel ≠ none

structure Sound (options : Options) (t : Terminal) : Prop where
  steady : Steady options t
  awake : Awake t

variable {options : Options} {t : Terminal}

theorem sound_start : Sound options .start where
  steady := {
    index_le := le_refl _
    full := by simp [start,pending]
    chars := rfl
    content := rfl
    ends := by
      intro first hfirst hne
      exact absurd (prefix_nil.mp hfirst) hne
    cuts := by
      intro first hfirst
      exact Or.inl ⟨[],prefix_rfl,by rw [prefix_nil.mp hfirst]⟩
    batches := by simp [start]
    recorded := prefix_rfl
    callbacks := rfl
    earlier := by simp [start]
    latest := rfl }
  awake := fun h => absurd rfl h

theorem sound_scheduleNext (h : Steady options t) : Sound options t.scheduleNext := by
  by_cases hidle : t.queue.disposed ∨ t.queue.writing ∨ t.queue.pendingChars = 0 ∨
      t.queue.scheduledCancel.isSome
  · rw [scheduleNext,if_pos hidle]
    refine ⟨h,?_⟩
    intro hchars hwriting hdisposed hnone
    simp [hwriting,hdisposed,hchars,hnone] at hidle
  · rw [scheduleNext,if_neg hidle]
    have hnone : t.queue.scheduledCancel = none := by
      rw [← Option.not_isSome_iff_eq_none]
      exact fun hsome => hidle (Or.inr (Or.inr (Or.inr hsome)))
    refine ⟨{ h with callbacks := ?_ },fun _ _ _ => Option.some_ne_none _⟩
    simp [h.callbacks,hnone]

/-- Units that follow do not change whether an index of a text parts a pair. -/
theorem splits_append {text : Text} {index : ℕ} (hlt : index < text.length) (more : Text) :
    splitsSurrogatePair (text ++ more) index = splitsSurrogatePair text index := by
  by_cases hzero : index = 0
  · subst hzero; rfl
  · simpa using splits_middle [] text more (Nat.pos_of_ne_zero hzero) hlt

theorem steady_push (h : Steady options t) {data : Text} (hdata : data ≠ []) :
    Steady options (t.push data) := by
  have hpending : (t.push data).queue.pending = t.queue.pending ++ [data] :=
    drop_append_of_le_length h.index_le
  have henqueued : (t.push data).enqueued.flatten = t.enqueued.flatten ++ data := by
    simp [push]
  have hwritten : (t.push data).written = t.written := rfl
  refine { h with index_le := ?_, full := ?_, chars := ?_, content := ?_, ends := ?_, cuts := ?_ }
  · have hle := h.index_le
    simp only [push,length_append]
    omega
  · intro chunk hchunk
    rw [hpending] at hchunk
    rcases mem_append.mp hchunk with hchunk | hchunk
    · exact h.full chunk hchunk
    · rwa [mem_singleton.mp hchunk]
  · rw [hpending]
    simp only [push,h.chars]
    simp
  · rw [hpending,henqueued,hwritten,← h.content]
    simp
  · intro first hfirst hne
    rw [hpending] at hfirst
    rcases prefix_concat_iff.mp hfirst with rfl | hfirst
    · refine ⟨(t.push data).enqueued,prefix_rfl,?_⟩
      rw [henqueued,hwritten,← h.content]
      simp
    · obtain ⟨whole,hwhole,heq⟩ := h.ends first hfirst hne
      exact ⟨whole,hwhole.trans (prefix_append _ _),heq⟩
  · intro first hfirst
    rcases h.cuts first hfirst with ⟨whole,hwhole,heq⟩ | ⟨hlt,hsplit⟩
    · exact Or.inl ⟨whole,hwhole.trans (prefix_append _ _),heq⟩
    · rw [henqueued,splits_append hlt,length_append]
      exact Or.inr ⟨by omega,hsplit⟩

theorem sound_enqueue (h : Sound options t) (data : Text) : Sound options (t.enqueue data) := by
  by_cases hskip : t.queue.disposed ∨ data = []
  · rwa [enqueue,if_pos hskip]
  · rw [enqueue,if_neg hskip]
    exact sound_scheduleNext (steady_push h.steady (not_or.mp hskip).2)

theorem sound_clear (h : Steady options t) : Sound options t.clear where
  steady := { h with
    index_le := le_refl _
    full := by simp [clear,pending]
    chars := rfl
    content := rfl
    ends := by
      intro first hfirst hne
      exact absurd (prefix_nil.mp hfirst) hne
    cuts := by
      intro first hfirst
      exact Or.inl ⟨[],prefix_rfl,by rw [prefix_nil.mp hfirst]⟩
    recorded := nil_prefix
    callbacks := by
      have hcallbacks := h.callbacks
      cases hid : t.queue.scheduledCancel <;> simp [clear,hid,hcallbacks] }
  awake := fun h => absurd rfl h

theorem sound_dispose (h : Steady options t) : Sound options t.dispose :=
  sound_clear { h with }

/-- The queue after `takeBatch`: its pending chunks are what `takeChunks` leaves. -/
theorem takeBatch_eq (options : Options) (q : TerminalOutputQueue) (hindex : q.chunkIndex ≤ q.chunks.length) :
    (q.takeBatch options).1 = (takeChunks options.maxBatchChars q.pending).1 ∧
      (q.takeBatch options).2.pending = (takeChunks options.maxBatchChars q.pending).2 ∧
      (q.takeBatch options).2.chunkIndex ≤ (q.takeBatch options).2.chunks.length ∧
      (q.takeBatch options).2.pendingChars =
        q.pendingChars - ((takeChunks options.maxBatchChars q.pending).1.length : ℤ) ∧
      (q.takeBatch options).2.disposed = q.disposed ∧
      (q.takeBatch options).2.scheduledCancel = q.scheduledCancel := by
  have hloop := takeLoop_eq [] options.maxBatchChars q.chunks q.chunkIndex hindex
  simp only [flatten_nil,nil_append] at hloop
  obtain ⟨hbatch,hrest,hle⟩ := hloop
  simp only [takeBatch]
  rw [pending,← hbatch,← hrest]
  split_ifs with hall hmany
  · rw [hall]
    simp [pending]
  · simp [pending]
  · simpa [pending] using hle

theorem all_completed (h : Steady options t) (hidle : t.queue.writing = false) :
    ∀ write ∈ t.writes, write.completed = true := by
  have hlatest := h.latest
  have hearlier := h.earlier
  cases hw : t.writes with
  | nil => simp
  | cons latest earlier =>
    simp only [hw,hidle,head?_cons,Option.map_some,Option.getD_some,tail_cons] at hlatest hearlier
    intro write hwrite
    rcases mem_cons.mp hwrite with rfl | hwrite
    · simpa using hlatest.symm
    · exact hearlier write hwrite

/-- A batch moves from the pending text to the written one. -/
theorem sound_write (h : Steady options t) (hidle : t.queue.writing = false)
    (hchars : t.queue.pendingChars ≠ 0) : Sound options (t.write options) := by
  obtain ⟨hbatch,hpending,hle,hcount,-,hscheduled⟩ := takeBatch_eq options t.queue h.index_le
  have hcut := takeChunks_cut options.maxBatchChars t.queue.pending
  have hsome : t.queue.pending ≠ [] := by
    intro hnone
    exact hchars (by rw [h.chars,hnone]; rfl)
  have hne := takeChunks_ne_nil options.two_le h.full hsome
  have hlength := takeChunks_length options.maxBatchChars t.queue.pending
  rw [← hbatch] at hcut hne hlength hcount
  rw [← hpending] at hcut
  have hmoved := hcut.flatten_eq
  have hwritten : (t.write options).written.flatten = t.written.flatten ++ (t.queue.takeBatch options).1 := by
    simp [write]
  refine ⟨?_,fun _ hwriting => absurd hwriting (by simp [write])⟩
  refine ⟨hle,hcut.full h.full,?_,?_,?_,?_,?_,?_,?_,all_completed h hidle,rfl⟩
  · change (t.queue.takeBatch options).2.pendingChars = ((t.queue.takeBatch options).2.pending.flatten.length : ℤ)
    rw [hcount,h.chars,hmoved,length_append]
    omega
  · change (t.write options).written.flatten ++ (t.queue.takeBatch options).2.pending.flatten = _
    rw [hwritten,append_assoc,← hmoved]
    exact h.content
  · intro first hfirst hfirstne
    obtain ⟨whole,hwhole,hwholene,heq⟩ := hcut.ends hfirst hfirstne
    obtain ⟨all,hall,hallEq⟩ := h.ends whole hwhole hwholene
    refine ⟨all,hall,?_⟩
    rw [hallEq,heq,hwritten,append_assoc]
  · intro first hfirst
    change first <+: t.written ++ [(t.queue.takeBatch options).1] at hfirst
    rcases prefix_concat_iff.mp hfirst with rfl | hfirst
    · rcases hcut.batch_end hne with ⟨whole,hwhole,hwholene,heq⟩ | ⟨front,chunk,n,back,heq,hpos,hlt,hlen,hsplit⟩
      · obtain ⟨all,hall,hallEq⟩ := h.ends whole hwhole hwholene
        exact Or.inl ⟨all,hall,by simp [hallEq,heq]⟩
      · have htext : t.enqueued.flatten = (t.written.flatten ++ front) ++ chunk ++ back := by
          rw [← h.content,heq]; simp
        have hend : (t.written ++ [(t.queue.takeBatch options).1]).flatten.length =
            (t.written.flatten ++ front).length + n := by
          simp only [flatten_append,flatten_singleton,length_append,hlen]
          omega
        refine Or.inr ⟨?_,?_⟩
        · change _ < t.enqueued.flatten.length
          rw [hend,htext]
          simp only [length_append]
          omega
        · change splitsSurrogatePair t.enqueued.flatten _ = false
          rw [hend,htext,splits_middle _ _ _ hpos hlt,hsplit]
    · exact h.cuts first hfirst
  · intro write hwrite
    rcases mem_cons.mp hwrite with rfl | hwrite
    · exact ⟨hne,hlength⟩
    · exact h.batches write hwrite
  · change (t.written ++ [(t.queue.takeBatch options).1]).reverse <+:
      (t.queue.takeBatch options).1 :: t.writes.map Write.batch
    rw [reverse_concat]
    exact cons_prefix_cons.mpr ⟨rfl,h.recorded⟩
  · change t.callbacks = (t.queue.takeBatch options).2.scheduledCancel.toList
    rw [hscheduled]
    exact h.callbacks

theorem sound_fire (h : Steady options t) {callback : ℕ} (hmem : callback ∈ t.callbacks) :
    Sound options (t.fire options callback) := by
  have hrun : Steady options { t with
      callbacks := t.callbacks.erase callback
      queue := { t.queue with scheduledCancel := none } } := by
    refine { h with callbacks := ?_ }
    have hcallbacks := h.callbacks
    cases hid : t.queue.scheduledCancel with
    | none => simp [hcallbacks,hid] at hmem
    | some id =>
      have hone : callback = id := by simpa [hcallbacks,hid] using hmem
      simp [hcallbacks,hid,hone]
  by_cases hskip : t.queue.disposed ∨ t.queue.writing ∨ t.queue.pendingChars = 0
  · rw [fire,flushNext,if_pos hskip]
    refine ⟨hrun,?_⟩
    intro hchars hwriting hdisposed
    simp_all
  · rw [fire,flushNext,if_neg hskip]
    simp only [not_or,Bool.not_eq_true] at hskip
    exact sound_write hrun hskip.2.1 hskip.2.2

theorem sound_onParsed (h : Sound options t) (index : ℕ) : Sound options (t.onParsed index) := by
  have hs := h.steady
  rw [onParsed]
  cases hw : t.writes[index]? with
  | none => exact h
  | some write =>
    by_cases hdone : write.completed = true
    · simpa [hdone] using h
    simp only [hdone]
    apply sound_scheduleNext
    -- only the latest write can still be in flight
    cases hwrites : t.writes with
    | nil => simp [hwrites] at hw
    | cons latest earlier =>
      have hearlier := hs.earlier
      have hbatches := hs.batches
      have hrecorded := hs.recorded
      rw [hwrites] at hw hearlier hbatches hrecorded
      cases index with
      | succ index =>
        have hmem : write ∈ earlier := mem_of_getElem? (by simpa using hw)
        exact absurd (hearlier write hmem) hdone
      | zero =>
        obtain rfl : latest = write := by simpa using hw
        refine { hs with batches := ?_, recorded := hrecorded, earlier := hearlier, latest := rfl }
        intro write hwrite
        rcases mem_cons.mp hwrite with rfl | hwrite
        · exact hbatches latest mem_cons_self
        · exact hbatches write (mem_cons_of_mem _ hwrite)

theorem sound_thrown (h : Steady options t) : Sound options t.thrown := by
  have hfailed : Steady options { t with
      queue := { t.queue with writing := false, disposed := true }
      writes := t.writes.modifyHead fun write => { write with completed := true } } := by
    have hearlier := h.earlier
    have hbatches := h.batches
    have hrecorded := h.recorded
    cases hwrites : t.writes with
    | nil =>
      rw [hwrites] at hearlier hbatches hrecorded
      exact { h with batches := hbatches, recorded := hrecorded, earlier := hearlier, latest := rfl }
    | cons latest earlier =>
      rw [hwrites] at hearlier hbatches hrecorded
      refine { h with batches := ?_, recorded := hrecorded, earlier := hearlier, latest := rfl }
      intro write hwrite
      rcases mem_cons.mp hwrite with rfl | hwrite
      · exact hbatches latest mem_cons_self
      · exact hbatches write (mem_cons_of_mem _ hwrite)
  have hcleared := sound_clear hfailed
  exact ⟨{ hcleared.steady with },hcleared.awake⟩

theorem sound_step {t' : Terminal} (h : Sound options t) (hstep : Step options t t') :
    Sound options t' := by
  cases hstep with
  | enqueue data => exact sound_enqueue h data
  | clear => exact sound_clear h.steady
  | dispose => exact sound_dispose h.steady
  | fire callback hmem => exact sound_fire h.steady hmem
  | onParsed index => exact sound_onParsed h index
  | returned => exact ⟨{ h.steady with },h.awake⟩
  | thrown => exact sound_thrown h.steady

theorem reached_sound (h : Reached options t) : Sound options t := by
  induction h with
  | start => exact sound_start
  | step _ hstep ih => exact sound_step ih hstep

/-- The end of a text parts nothing. -/
theorem not_partsPair_singleton (text : Text) : ¬ PartsPair text [text] := by
  rintro ⟨first,hfirst,hsplit⟩
  obtain ⟨⟨hpos,hlt⟩,-⟩ := (splits_iff _ _).mp hsplit
  rcases prefix_cons_iff.mp hfirst with rfl | ⟨rest,rfl,hrest⟩
  · simp at hpos
  · obtain rfl := prefix_nil.mp hrest
    simp at hlt

end Mxterm.TerminalOutput
