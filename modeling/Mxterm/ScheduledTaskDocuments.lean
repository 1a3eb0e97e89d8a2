import Mxterm.Execution
import Mxterm.ScheduledTaskBlocks

/-! A rendered crontab is read back: the tasks and the lines between them, in their order. -/
namespace Mxterm.ScheduledTasks

open List Text

/-- What a crontab holds, one line or one task after the other. -/
inductive Entry
  | line (text : String)
  | task (record : ScheduledTaskRecord)

def Entry.lines : Entry → List String
  | .line text => [text]
  | .task record => renderBlock record

def CrontabSegment.entries : CrontabSegment → List Entry
  | .raw lines => lines.map .line
  | .task record => [.task record]

def CrontabDocument.entries (document : CrontabDocument) : List Entry :=
  document.segments.flatMap CrontabSegment.entries

/-- A line between the blocks that is read as it was written. -/
structure OutsideLine (text : String) : Prop where
  newline : '\n' ∉ text.toList
  last : text.toList.getLast? ≠ some '\r'
  noBegin : trim text ≠ crontabBegin

def Entry.Good : Entry → Prop
  | .line text => OutsideLine text
  | .task record => record.Valid ∧ record.Readable

theorem segment_render (segment : CrontabSegment) : segment.render = segment.entries.flatMap Entry.lines := by
  cases segment with
  | raw lines =>
    simp only [CrontabSegment.render,CrontabSegment.entries,flatMap_map,Entry.lines]
    simp
  | task record => simp [CrontabSegment.render,CrontabSegment.entries,Entry.lines]

theorem flatMap_render (segments : List CrontabSegment) :
    segments.flatMap CrontabSegment.render = (segments.flatMap CrontabSegment.entries).flatMap Entry.lines := by
  induction segments with
  | nil => rfl
  | cons segment segments ih =>
    rw [flatMap_cons,flatMap_cons,flatMap_append,segment_render,ih]

/-! ## The lines of a block -/

theorem trimmed_crontabBegin : Text.Trimmed crontabBegin := trimmed_literal (by decide)

theorem trimmed_crontabEnd : Text.Trimmed crontabEnd := trimmed_literal (by decide)

variable {record : ScheduledTaskRecord}

theorem trimmed_body (h : record.Valid) : ∀ line ∈ blockBody record, Text.Trimmed line := by
  obtain ⟨hid,hidNe⟩ := trimmed_id h
  obtain ⟨henabled,henabledNe⟩ := trimmed_enabled record.enabled
  obtain ⟨hcron,hcronNe,-⟩ := validateCron_ok h.cron
  have hencoded {value : String} (key : String) (hvalue : trim value ≠ "") :
      Text.Trimmed (metadataLine key (encodeMetadata value)) :=
    trimmed_metadataLine key (trimmed_encodeMetadata value) (encodeMetadata_ne_empty hvalue)
  simp only [blockBody,mem_cons,not_mem_nil,or_false,forall_eq_or_imp,forall_eq]
  exact ⟨trimmed_metadataLine _ hid hidNe,hencoded _ h.name,hencoded _ (hcron ▸ hcronNe),hencoded _ h.command,
    trimmed_metadataLine _ henabled henabledNe,
    trimmed_metadataLine _ ((trimmed_iff _).mpr h.updatedAt) h.updatedAtNonblank,trimmed_taskLine h⟩

theorem mem_metadataLine (key value : String) : '=' ∈ (metadataLine key value).toList := by
  simp [metadataLine]

theorem mem_taskLine (record : ScheduledTaskRecord) : '=' ∈ (taskLine record).toList := by
  obtain ⟨middle,hcommand⟩ := escaped_buildRunCommand record
  have hline : '=' ∈ (cronLine record).toList := by
    rw [cronLine,hcommand]
    simp only [String.toList_append,mem_append]
    exact Or.inr (Or.inl (Or.inl (by decide)))
  unfold taskLine
  split
  · exact hline
  · rw [String.toList_append,mem_append]
    exact Or.inr hline

/-- No line inside a block is its end. -/
theorem body_ne_end : ∀ line ∈ blockBody record, trim line ≠ crontabEnd := by
  have hequals {line : String} (h : '=' ∈ line.toList) : trim line ≠ crontabEnd :=
    trim_ne_of_mem h (by decide) (by decide)
  simp only [blockBody,mem_cons,not_mem_nil,or_false,forall_eq_or_imp,forall_eq]
  exact ⟨hequals (mem_metadataLine _ _),hequals (mem_metadataLine _ _),hequals (mem_metadataLine _ _),
    hequals (mem_metadataLine _ _),hequals (mem_metadataLine _ _),hequals (mem_metadataLine _ _),
    hequals (mem_taskLine record)⟩

variable {key : String}

theorem newline_not_mem_metadataLine {value : String} (hkey : key ∈ metadataKeys) (hvalue : '\n' ∉ value.toList) :
    '\n' ∉ (metadataLine key value).toList := by
  have hkeys : ∀ k ∈ metadataKeys, '\n' ∉ k.toList := by decide
  exact newline_not_mem_append (by decide)
    (newline_not_mem_append (newline_not_mem_append (hkeys key hkey) (newline_not_mem_ofList (by decide))) hvalue)

theorem newline_not_mem_taskLine (h : record.Valid) : '\n' ∉ (taskLine record).toList := by
  have hline : '\n' ∉ (cronLine record).toList :=
    newline_not_mem_append (newline_not_mem_append (validateCron_ok h.cron).2.2 (by decide))
      (newline_not_mem_escapeCrontabPercent (newline_not_mem_buildRunCommand (newline_not_mem_id h)))
  unfold taskLine
  split
  · exact hline
  · exact newline_not_mem_append (by decide) hline

theorem newline_not_mem_body (h : record.Valid) : ∀ line ∈ blockBody record, '\n' ∉ line.toList := by
  have henabled : '\n' ∉ (toString record.enabled).toList := by
    cases record.enabled <;> decide
  simp only [blockBody,mem_cons,not_mem_nil,or_false,forall_eq_or_imp,forall_eq]
  exact ⟨newline_not_mem_metadataLine (by decide) (newline_not_mem_id h),
    newline_not_mem_metadataLine (by decide) (newline_not_mem_encodeMetadata _),
    newline_not_mem_metadataLine (by decide) (newline_not_mem_encodeMetadata _),
    newline_not_mem_metadataLine (by decide) (newline_not_mem_encodeMetadata _),
    newline_not_mem_metadataLine (by decide) henabled,
    newline_not_mem_metadataLine (by decide) h.updatedAtLine,newline_not_mem_taskLine h⟩

variable {entry : Entry}

/-- The lines of an entry are lines of a text. -/
theorem entry_lines (h : entry.Good) : ∀ line ∈ entry.lines, '\n' ∉ line.toList ∧ line.toList.getLast? ≠ some '\r' := by
  have htrimmed {line : String} (hline : Text.Trimmed line) : line.toList.getLast? ≠ some '\r' :=
    fun hlast => absurd (hline.last _ hlast) (by decide)
  cases entry with
  | line text =>
    intro line hline
    obtain rfl := mem_singleton.mp hline
    exact ⟨h.newline,h.last⟩
  | task record =>
    intro line hline
    rw [Entry.lines,renderBlock_eq,mem_cons,mem_append,mem_singleton] at hline
    rcases hline with rfl | hline | rfl
    · exact ⟨by decide,htrimmed trimmed_crontabBegin⟩
    · exact ⟨newline_not_mem_body h.1 line hline,htrimmed (trimmed_body h.1 line hline)⟩
    · exact ⟨by decide,htrimmed trimmed_crontabEnd⟩

/-! ## Reading entries -/

variable (errors : DecodeErrors)

def CrontabReader.entries (r : CrontabReader) : List Entry := r.flushed.flatMap CrontabSegment.entries

theorem read_body (lines : List String) (hlines : ∀ line ∈ lines, Text.Trimmed line ∧ trim line ≠ crontabEnd)
    (index startLine : ℕ) (segments : List CrontabSegment) (raw block : List String) :
    lines.foldlM (CrontabReader.read errors) ⟨index,segments,raw,some (startLine,block)⟩ =
      .ok ⟨index + lines.length,segments,raw,some (startLine,block ++ lines)⟩ := by
  induction lines generalizing index block with
  | nil => simp [pure,Except.pure]
  | cons line lines ih =>
    obtain ⟨⟨htrimmed,hend⟩,hlines⟩ := forall_mem_cons.mp hlines
    have hread : CrontabReader.read errors ⟨index,segments,raw,some (startLine,block)⟩ line =
        .ok ⟨index + 1,segments,raw,some (startLine,block ++ [line])⟩ := by
      simp [CrontabReader.read,trimReturns_of_trimmed htrimmed,hend]
    rw [foldlM_cons,hread]
    simp only [bind,Except.bind]
    rw [ih hlines]
    simp [Nat.add_comm,Nat.add_left_comm]

theorem read_block (h : record.Valid) (hreadable : record.Readable) (r : CrontabReader) (hr : r.block = none) :
    (renderBlock record).foldlM (CrontabReader.read errors) r =
      .ok ⟨r.index + 9,r.flushed ++ [.task record],[],none⟩ := by
  have hbegin : CrontabReader.read errors r crontabBegin =
      .ok ⟨r.index + 1,r.flushed,[],some (r.index + 1,[crontabBegin])⟩ := by
    simp [CrontabReader.read,hr,trimReturns_of_trimmed trimmed_crontabBegin,
      trim_of_trimmed trimmed_crontabBegin]
  have hblock : [crontabBegin] ++ blockBody record ++ [crontabEnd] = renderBlock record := by
    rfl
  have hend (index startLine : ℕ) : CrontabReader.read errors
      ⟨index,r.flushed,[],some (startLine,[crontabBegin] ++ blockBody record)⟩ crontabEnd =
        .ok ⟨index + 1,r.flushed ++ [.task record],[],none⟩ := by
    simp only [CrontabReader.read,trimReturns_of_trimmed trimmed_crontabEnd,
      trim_of_trimmed trimmed_crontabEnd,if_true,hblock,parseTaskBlock_render errors h hreadable]
    rfl
  rw [renderBlock_eq,foldlM_cons,hbegin]
  simp only [bind,Except.bind]
  rw [foldlM_append,read_body errors _ fun line hline => ⟨trimmed_body h line hline,body_ne_end line hline⟩]
  simp only [bind,Except.bind,foldlM_cons,foldlM_nil]
  rw [hend]
  rfl

theorem entries_flushed (r : CrontabReader) :
    r.entries = r.segments.flatMap CrontabSegment.entries ++ r.rawLines.map .line := by
  unfold CrontabReader.entries CrontabReader.flushed
  split
  · rename_i h
    simp [h]
  · simp [CrontabSegment.entries]

/-- Reading the lines of an entry adds the entry. -/
theorem read_entry (h : entry.Good) (r : CrontabReader) (hr : r.block = none) :
    ∃ r', entry.lines.foldlM (CrontabReader.read errors) r = .ok r' ∧ r'.block = none ∧
      r'.entries = r.entries ++ [entry] := by
  cases entry with
  | line text =>
    refine ⟨{ r with index := r.index + 1, rawLines := r.rawLines ++ [text] },?_,hr,?_⟩
    · have hread : CrontabReader.read errors r text =
          .ok { r with index := r.index + 1, rawLines := r.rawLines ++ [text] } := by
        simp [CrontabReader.read,hr,trimReturns_of_last h.last,h.noBegin]
      simp only [Entry.lines,foldlM_cons,foldlM_nil,hread]
      rfl
    · simp [entries_flushed]
  | task record =>
    refine ⟨_,read_block errors h.1 h.2 r hr,rfl,?_⟩
    simp [CrontabReader.entries,CrontabReader.flushed,CrontabSegment.entries]

theorem read_entries (entries : List Entry) (h : ∀ entry ∈ entries, entry.Good) (r : CrontabReader)
    (hr : r.block = none) :
    ∃ r', (entries.flatMap Entry.lines).foldlM (CrontabReader.read errors) r = .ok r' ∧ r'.block = none ∧
      r'.entries = r.entries ++ entries := by
  induction entries generalizing r with
  | nil => exact ⟨r,rfl,hr,by simp⟩
  | cons entry entries ih =>
    obtain ⟨hentry,hentries⟩ := forall_mem_cons.mp h
    obtain ⟨middle,hmiddle,hnone,hadded⟩ := read_entry errors hentry r hr
    obtain ⟨final,hfinal,hfinalNone,hall⟩ := ih hentries middle hnone
    refine ⟨final,?_,hfinalNone,?_⟩
    · rw [flatMap_cons,foldlM_append,hmiddle]
      exact hfinal
    · rw [hall,hadded]
      simp

/-! ## Rendered documents -/

def Entry.isBlank : Entry → Bool
  | .line text => ScheduledTasks.isBlank text
  | .task _ => false

def trimOuterEntries (entries : List Entry) : List Entry :=
  (entries.dropWhile Entry.isBlank).rdropWhile Entry.isBlank

theorem dropWhile_lines (entries : List Entry) :
    (entries.flatMap Entry.lines).dropWhile isBlank = (entries.dropWhile Entry.isBlank).flatMap Entry.lines := by
  induction entries with
  | nil => rfl
  | cons entry entries ih =>
    cases entry with
    | line text =>
      by_cases h : isBlank text
      · rw [dropWhile_cons_of_pos (by exact h),← ih]
        exact dropWhile_cons_of_pos h
      · rw [dropWhile_cons_of_neg (by exact h)]
        exact dropWhile_cons_of_neg h
    | task record =>
      exact dropWhile_cons_of_neg (by decide)

theorem rdropWhile_lines (entries : List Entry) :
    (entries.flatMap Entry.lines).rdropWhile isBlank = (entries.rdropWhile Entry.isBlank).flatMap Entry.lines := by
  induction entries using List.reverseRecOn with
  | nil => rfl
  | append_singleton entries entry ih =>
    rw [flatMap_append]
    cases entry with
    | line text =>
      by_cases h : isBlank text
      · rw [rdropWhile_concat_pos _ _ _ (by exact h),← ih]
        exact rdropWhile_concat_pos _ _ _ h
      · rw [rdropWhile_concat_neg _ _ _ (by exact h),flatMap_append]
        exact rdropWhile_concat_neg _ _ _ h
    | task record =>
      rw [rdropWhile_concat_neg _ _ _ (by exact Bool.false_ne_true),flatMap_append,
        flatMap_singleton,Entry.lines,renderBlock_eq,← cons_append,← append_assoc]
      exact rdropWhile_concat_neg _ _ _ (by decide)

theorem trimOuterBlankLines_lines (entries : List Entry) :
    trimOuterBlankLines (entries.flatMap Entry.lines) = (trimOuterEntries entries).flatMap Entry.lines := by
  rw [trimOuterBlankLines,dropWhile_lines,rdropWhile_lines,trimOuterEntries]

theorem mem_of_mem_trimOuterEntries {entries : List Entry} (h : entry ∈ trimOuterEntries entries) : entry ∈ entries :=
  (dropWhile_suffix _).subset (( rdropWhile_prefix _ _).subset h)

/-- The lines of the rendered text. -/
theorem lines_render (document : CrontabDocument) (h : ∀ entry ∈ document.entries, entry.Good) :
    lines document.render = (trimOuterEntries document.entries).flatMap Entry.lines := by
  have hlines : trimOuterBlankLines (document.segments.flatMap CrontabSegment.render) =
      (trimOuterEntries document.entries).flatMap Entry.lines := by
    rw [flatMap_render,trimOuterBlankLines_lines]
    rfl
  have hgood : ∀ line ∈ (trimOuterEntries document.entries).flatMap Entry.lines,
      '\n' ∉ line.toList ∧ line.toList.getLast? ≠ some '\r' := by
    intro line hline
    obtain ⟨entry,hentry,hline⟩ := mem_flatMap.mp hline
    exact entry_lines (h entry (mem_of_mem_trimOuterEntries hentry)) line hline
  rw [CrontabDocument.render,hlines]
  split
  · rename_i hempty
    rw [hempty]
    rfl
  · rename_i hne
    exact lines_join hne (fun line hline => (hgood line hline).1) fun line hline => (hgood line hline).2

/-- Reading a rendered document gives its entries without the blank lines at both ends. -/
theorem parseCrontab_render (document : CrontabDocument) (h : ∀ entry ∈ document.entries, entry.Good) :
    ∃ read, parseCrontab errors document.render = .ok read ∧
      read.entries = trimOuterEntries document.entries := by
  obtain ⟨r,hr,hnone,hentries⟩ := read_entries errors (trimOuterEntries document.entries)
    (fun entry hentry => h entry (mem_of_mem_trimOuterEntries hentry)) .start rfl
  refine ⟨⟨r.flushed⟩,?_,?_⟩
  · rw [parseCrontab,lines_render document h,hr]
    simp only [Except.bind,CrontabReader.finish,hnone]
  · rw [CrontabReader.entries] at hentries
    rw [CrontabDocument.entries,hentries]
    rfl

/-! ## What is read of any text -/

/-- What the checks of the parser leave. -/
def Entry.Checked : Entry → Prop
  | .line text => OutsideLine text
  | .task record => record.Valid

structure TaskMetadata.Checked (m : TaskMetadata) : Prop where
  id : ∀ id, m.id = some id → normalizeTaskId id = .ok id
  cron : ∀ cron, m.cron = some cron → validateCron cron = .ok cron
  updatedAt : ∀ updatedAt, m.updatedAt = some updatedAt →
    trim updatedAt = updatedAt ∧ updatedAt ≠ "" ∧ '\n' ∉ updatedAt.toList

theorem except_map_ok {α β : Type} {x : Except AppError α} {f : α → β} {b : β} (h : x.map f = .ok b) :
    ∃ a, x = .ok a ∧ f a = b := by
  cases x with
  | error e => cases h
  | ok a => exact ⟨a,rfl,Except.ok.inj h⟩

theorem not_mem_trim {s : String} {c : Char} (h : c ∉ s.toList) : c ∉ (trim s).toList := by
  rw [trim_toList]
  exact fun hmem => h ((dropWhile_suffix _).subset (( rdropWhile_prefix _ _).subset hmem))

variable {m m' : TaskMetadata} {startLine : ℕ}

theorem checked_set (hm : m.Checked) {value : String} (hvalue : '\n' ∉ value.toList)
    (h : m.set errors startLine key value = .ok m') : m'.Checked := by
  unfold TaskMetadata.set at h
  split_ifs at h
  · obtain ⟨id,hid,rfl⟩ := except_map_ok h
    exact { hm with id := fun other hother => Option.some.inj hother ▸ normalizeTaskId_idem hid }
  · obtain ⟨name,-,rfl⟩ := except_map_ok h
    exact { hm with }
  · obtain ⟨decoded,-,h⟩ := (Execution.except_bind_ok _ _ _).mp h
    obtain ⟨cron,hcron,rfl⟩ := except_map_ok h
    exact { hm with cron := fun other hother => Option.some.inj hother ▸ validateCron_idem hcron }
  · obtain ⟨command,-,rfl⟩ := except_map_ok h
    exact { hm with }
  · obtain ⟨enabled,-,rfl⟩ := except_map_ok h
    exact { hm with }
  · obtain ⟨updatedAt,hupdated,rfl⟩ := except_map_ok h
    obtain ⟨rfl,hne⟩ := requireValue_ok.mp hupdated
    refine { hm with updatedAt := fun other hother => ?_ }
    cases hother
    exact ⟨trim_trim value,hne,not_mem_trim hvalue⟩
  · cases h
    exact hm

theorem checked_readMetadata (hm : m.Checked) {line : String} (hline : '\n' ∉ line.toList)
    (h : readMetadata errors startLine m line = .ok m') : m'.Checked := by
  unfold readMetadata at h
  cases hmetadata : stripPrefix "# " (trim line) with
  | none =>
    simp only [hmetadata] at h
    exact Except.ok.inj h ▸ hm
  | some metadata =>
    simp only [hmetadata] at h
    cases hsplit : splitOnce '=' metadata with
    | none =>
      simp only [hsplit] at h
      exact Except.ok.inj h ▸ hm
    | some parts =>
      simp only [hsplit] at h
      refine checked_set errors hm (fun hmem => not_mem_trim hline ?_) h
      rw [stripPrefix_eq_some hmetadata,(splitOnce_eq_some hsplit).1]
      exact mem_append_right _ (mem_append_right _ (mem_cons_of_mem _ hmem))

theorem checked_foldlM (lines : List String) (hlines : ∀ line ∈ lines, '\n' ∉ line.toList) (hm : m.Checked)
    (h : lines.foldlM (readMetadata errors startLine) m = .ok m') : m'.Checked := by
  induction lines generalizing m with
  | nil => exact Except.ok.inj h ▸ hm
  | cons line lines ih =>
    obtain ⟨hline,hlines⟩ := forall_mem_cons.mp hlines
    obtain ⟨middle,hmiddle,h⟩ := (Execution.except_bind_ok _ _ _).mp h
    exact ih hlines (checked_readMetadata errors hm hline hmiddle) h

theorem requireField_ok {α : Type} {value : Option α} {v : α} (h : requireField value startLine key = .ok v) :
    value = some v := by
  cases value with
  | none => cases h
  | some w => exact congrArg some (Except.ok.inj h)

theorem requireDecodedValue_ok {value : Option String} {v : String}
    (h : requireDecodedValue value startLine key = .ok v) : value = some v ∧ trim v ≠ "" := by
  unfold requireDecodedValue at h
  split at h
  · cases h
  · rename_i w hw
    split at h
    · cases h
    · rename_i hne
      cases h
      exact ⟨requireField_ok hw,hne⟩

theorem valid_record (hm : m.Checked) (h : m.record startLine = .ok record) : record.Valid := by
  obtain ⟨id,hid,h⟩ := (Execution.except_bind_ok _ _ _).mp h
  obtain ⟨name,hname,h⟩ := (Execution.except_bind_ok _ _ _).mp h
  obtain ⟨cron,hcron,h⟩ := (Execution.except_bind_ok _ _ _).mp h
  obtain ⟨command,hcommand,h⟩ := (Execution.except_bind_ok _ _ _).mp h
  obtain ⟨enabled,henabled,h⟩ := (Execution.except_bind_ok _ _ _).mp h
  obtain ⟨updatedAt,hupdated,h⟩ := (Execution.except_bind_ok _ _ _).mp h
  obtain ⟨_,hnul,h⟩ := (Execution.except_bind_ok _ _ _).mp h
  cases h
  obtain ⟨htrimmed,hne,hnewline⟩ := hm.updatedAt updatedAt (requireField_ok hupdated)
  exact {
    id := hm.id id (requireField_ok hid)
    name := (requireDecodedValue_ok hname).2
    cron := hm.cron cron (requireDecodedValue_ok hcron).1
    command := (requireDecodedValue_ok hcommand).2
    noNul := hnul
    updatedAt := htrimmed
    updatedAtNonblank := hne
    updatedAtLine := hnewline }

theorem valid_parseTaskBlock {block : List String} (hblock : ∀ line ∈ block, '\n' ∉ line.toList)
    (h : parseTaskBlock errors block startLine = .ok record) : record.Valid := by
  obtain ⟨m,hm,h⟩ := (Execution.except_bind_ok _ _ _).mp h
  have hblank : TaskMetadata.blank.Checked := ⟨nofun,nofun,nofun⟩
  exact valid_record (checked_foldlM errors _
    (fun line hline => hblock line (mem_of_mem_drop (mem_of_mem_take hline))) hblank hm) h

end Mxterm.ScheduledTasks
