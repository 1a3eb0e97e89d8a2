import Mxterm.ScheduledTasks

/-! The block of a task is read back as the task, unless the schedule of an active task looks like one of
the comment lines. -/
namespace Mxterm.ScheduledTasks

open List Text

def metadataKeys : List String := ["id","name","cron","command","enabled","updated_at"]

/-- The schedule begins like a comment line of a block: `# name=…` makes five fields too. -/
def ReadsAsMetadata (cron : String) : Prop :=
  ∃ metadata key value, stripPrefix "# " cron = some metadata ∧
    splitOnce '=' metadata = some (key,value) ∧ trim key ∈ metadataKeys

/-- What the checks leave of a record. -/
structure ScheduledTaskRecord.Valid (record : ScheduledTaskRecord) : Prop where
  id : normalizeTaskId record.id = .ok record.id
  name : trim record.name ≠ ""
  cron : validateCron record.cron = .ok record.cron
  command : trim record.command ≠ ""
  noNul : validateCommand record.command = .ok ()
  updatedAt : trim record.updatedAt = record.updatedAt
  updatedAtNonblank : record.updatedAt ≠ ""
  updatedAtLine : '\n' ∉ record.updatedAt.toList

/-! ## Checked values -/

variable {value : String}

theorem requireValue_ok {code message v : String} :
    requireValue value code message = .ok v ↔ v = trim value ∧ trim value ≠ "" := by
  unfold requireValue
  split
  · rename_i h
    constructor
    · rintro ⟨⟩
    · exact fun hv => absurd h hv.2
  · rename_i h
    rw [Except.ok.injEq,eq_comm]
    exact ⟨fun hv => ⟨hv,h⟩,fun hv => hv.1⟩

theorem normalizeTaskId_ok {id : String} :
    normalizeTaskId value = .ok id ↔ id = trim value ∧ trim value ≠ "" ∧
      (trim value).utf8ByteSize ≤ 96 ∧ ∀ c ∈ (trim value).toList, isTaskIdChar c := by
  unfold normalizeTaskId requireValue
  by_cases hblank : trim value = ""
  · simp [hblank]
  · simp only [hblank,if_false]
    split
    · rename_i h
      simp only [reduceCtorEq,false_iff]
      rintro ⟨-,-,hsize,hall⟩
      rcases h with h | h
      · omega
      · exact h (all_eq_true.mpr hall)
    · rename_i h
      rw [not_or,not_not,all_eq_true] at h
      constructor
      · rintro ⟨⟩
        exact ⟨rfl,hblank,by omega,h.2⟩
      · rintro ⟨rfl,-⟩
        rfl

theorem validateCron_ok {cron : String} (h : validateCron value = .ok cron) :
    cron = trim value ∧ cron ≠ "" ∧ '\n' ∉ cron.toList := by
  unfold validateCron requireValue at h
  by_cases hblank : trim value = ""
  · simp [hblank] at h
  · simp only [hblank,if_false] at h
    split_ifs at h with hcontrol hat hmacro hfields
    · cases h
      exact ⟨rfl,hblank,fun hmem => hcontrol (Or.inl hmem)⟩
    · cases h
      exact ⟨rfl,hblank,fun hmem => hcontrol (Or.inl hmem)⟩

theorem validateCron_idem {cron : String} (h : validateCron value = .ok cron) : validateCron cron = .ok cron := by
  obtain ⟨rfl,-,-⟩ := validateCron_ok h
  unfold validateCron requireValue at h ⊢
  rwa [trim_trim]

theorem normalizeTaskId_idem {id : String} (h : normalizeTaskId value = .ok id) : normalizeTaskId id = .ok id := by
  obtain ⟨rfl,hchecked⟩ := normalizeTaskId_ok.mp h
  rw [normalizeTaskId_ok,trim_trim]
  exact ⟨rfl,hchecked⟩

/-! ## Texts of a block -/

variable {s : String}

theorem trimmed_of_all (h : ∀ c ∈ s.toList, isWhitespace c = false) : Text.Trimmed s where
  head c hc := h c (mem_of_mem_head? hc)
  last c hc := h c (mem_of_getLast? hc)

/-- What a character of an encoded value is not. -/
theorem urlSafe_symbol : ∀ c ∈ Base64.urlSafe.symbols, isWhitespace c = false ∧ c ≠ '\n' := by
  have hall : Base64.urlSafe.symbols.all (fun c => !isWhitespace c && c != '\n') = true := rfl
  simpa using hall

theorem standard_symbol : ∀ c ∈ Base64.standard.symbols, c ≠ '\n' ∧ c ≠ '\'' := by
  have hall : Base64.standard.symbols.all (fun c => c != '\n' && c != '\'') = true := rfl
  simpa using hall

theorem trimmed_encodeMetadata (value : String) : Text.Trimmed (encodeMetadata value) :=
  trimmed_of_all fun c hc => (urlSafe_symbol c (Base64.mem_encode _ hc)).1

theorem newline_not_mem_encodeMetadata (value : String) : '\n' ∉ (encodeMetadata value).toList :=
  fun hmem => (urlSafe_symbol _ (Base64.mem_encode _ hmem)).2 rfl

theorem encode_eq_nil (h : Utf8.encode s = []) : s = "" := Utf8.encode_injective h

theorem encodeMetadata_ne_empty (h : trim value ≠ "") : encodeMetadata value ≠ "" := by
  intro he
  have hdecode := Base64.decode?_encode Base64.urlSafe (Utf8.encode value)
  rw [← encodeMetadata,he] at hdecode
  have hvalue := encode_eq_nil (Option.some.inj hdecode).symm
  subst hvalue
  exact h rfl

variable (errors : DecodeErrors)

@[simp] theorem decodeMetadata_encodeMetadata (value : String) (startLine : ℕ) (key : String) :
    decodeMetadata errors (encodeMetadata value) startLine key = .ok value := by
  simp [decodeMetadata,encodeMetadata]

theorem newline_not_mem_append {a b : String} (ha : '\n' ∉ a.toList) (hb : '\n' ∉ b.toList) :
    '\n' ∉ (a ++ b).toList := by
  rw [String.toList_append,mem_append,not_or]
  exact ⟨ha,hb⟩

theorem newline_not_mem_ofList {cs : List Char} (h : '\n' ∉ cs) : '\n' ∉ (String.ofList cs).toList := by
  rwa [String.toList_ofList]

theorem newline_not_mem_quotePosixShell (h : '\n' ∉ value.toList) : '\n' ∉ (quotePosixShell value).toList := by
  unfold quotePosixShell
  split
  · decide
  · refine newline_not_mem_append (newline_not_mem_append (by decide) (newline_not_mem_ofList ?_)) (by decide)
    rw [mem_flatMap]
    rintro ⟨c,hc,hmem⟩
    split at hmem
    · exact absurd hmem (by decide)
    · exact h (mem_singleton.mp hmem ▸ hc)

theorem newline_not_mem_escapeCrontabPercent (h : '\n' ∉ value.toList) :
    '\n' ∉ (escapeCrontabPercent value).toList := by
  rw [escapeCrontabPercent,String.toList_ofList,mem_flatMap]
  rintro ⟨c,hc,hmem⟩
  split at hmem
  · exact absurd hmem (by decide)
  · exact h (mem_singleton.mp hmem ▸ hc)

theorem newline_not_mem_runScript : '\n' ∉ runScript.toList := by
  refine newline_not_mem_append (newline_not_mem_append (newline_not_mem_append (newline_not_mem_append
    (newline_not_mem_append (newline_not_mem_append (newline_not_mem_append (newline_not_mem_append
    (newline_not_mem_append (newline_not_mem_append ?_ ?_) ?_) ?_) ?_) ?_) ?_) ?_) ?_) ?_) ?_ <;>
    exact newline_not_mem_ofList (by decide)

variable {record : ScheduledTaskRecord}

theorem newline_not_mem_buildRunCommand (h : '\n' ∉ record.id.toList) : '\n' ∉ (buildRunCommand record).toList := by
  have hcommand : '\n' ∉ (Base64.encodePadded Base64.standard (Utf8.encode record.command)).toList := by
    intro hmem
    rcases Base64.mem_encodePadded _ hmem with hmem | hmem
    · exact (standard_symbol _ hmem).1 rfl
    · cases hmem
  exact newline_not_mem_append (newline_not_mem_append (newline_not_mem_append (newline_not_mem_append
    (newline_not_mem_append (by decide) (newline_not_mem_quotePosixShell h)) (by decide))
    (newline_not_mem_quotePosixShell hcommand)) (by decide))
    (newline_not_mem_quotePosixShell newline_not_mem_runScript)

/-! ## The command line -/

theorem escapeCrontabPercent_append (a b : String) :
    escapeCrontabPercent (a ++ b) = escapeCrontabPercent a ++ escapeCrontabPercent b := by
  simp [escapeCrontabPercent,flatMap_append]

theorem quotePosixShell_ends (value : String) : ∃ quoted, quotePosixShell value = quoted ++ "'" := by
  unfold quotePosixShell
  split
  · exact ⟨"'",rfl⟩
  · exact ⟨_,rfl⟩

/-- The command begins with the assignment of a variable and ends with a quote. -/
theorem escaped_buildRunCommand (record : ScheduledTaskRecord) :
    ∃ middle, escapeCrontabPercent (buildRunCommand record) = "MXTERM_TASK_ID=" ++ middle ++ "'" := by
  obtain ⟨quoted,hquoted⟩ := quotePosixShell_ends runScript
  unfold buildRunCommand
  rw [hquoted]
  simp only [escapeCrontabPercent_append]
  refine ⟨escapeCrontabPercent (quotePosixShell record.id) ++ (escapeCrontabPercent " MXTERM_CMD_B64=" ++
    (escapeCrontabPercent (quotePosixShell (Base64.encodePadded Base64.standard (Utf8.encode record.command))) ++
    (escapeCrontabPercent " /bin/sh -lc " ++ escapeCrontabPercent quoted))),?_⟩
  have hbegin : escapeCrontabPercent "MXTERM_TASK_ID=" = "MXTERM_TASK_ID=" := rfl
  have hend : escapeCrontabPercent "'" = "'" := rfl
  rw [hbegin,hend]
  simp only [String.append_assoc]

theorem trimmed_literal (h : trim s = s) : Text.Trimmed s := (trimmed_iff s).mpr h

theorem trimmed_cronLine (hcron : Text.Trimmed record.cron) (hne : record.cron ≠ "") :
    Text.Trimmed (cronLine record) := by
  obtain ⟨middle,hcommand⟩ := escaped_buildRunCommand record
  have hshape : cronLine record = (record.cron ++ (" " ++ ("MXTERM_TASK_ID=" ++ middle))) ++ "'" := by
    rw [cronLine,hcommand]
    simp only [String.append_assoc]
  have hhead : ∀ c ∈ (record.cron ++ (" " ++ ("MXTERM_TASK_ID=" ++ middle))).toList.head?,
      isWhitespace c = false := by
    intro c hc
    cases hl : record.cron.toList with
    | nil => exact absurd (String.toList_eq_nil_iff.mp hl) hne
    | cons x xs =>
      rw [String.toList_append,hl] at hc
      exact hcron.head c (by rw [hl]; exact hc)
  rw [hshape]
  refine Text.Trimmed.append hhead ?_ (trimmed_literal (by decide)) (by decide)
  intro he
  exact hne (String.append_eq_empty_iff.mp he).1

/-! ## Reading one line -/

/-- A comment line with a field. -/
def metadataLine (key value : String) : String := "# " ++ (key ++ String.ofList ['='] ++ value)

theorem trimmed_metadataLine (key : String) (hvalue : Text.Trimmed value) (hne : value ≠ "") :
    Text.Trimmed (metadataLine key value) := by
  have hshape : metadataLine key value = ("# " ++ (key ++ String.ofList ['='])) ++ value := by
    simp only [metadataLine,String.append_assoc]
  rw [hshape]
  refine Text.Trimmed.append ?_ ?_ hvalue hne
  · intro c hc
    rw [String.toList_append] at hc
    cases hc
    decide
  · intro he
    exact absurd (String.append_eq_empty_iff.mp he).1 (by decide)

/-- Metadata keys hold no equals sign and no capital letter, and are trimmed. -/
theorem metadataKeys_shape : ∀ key ∈ metadataKeys, '=' ∉ key.toList ∧ 'M' ∉ key.toList ∧ ':' ∉ key.toList ∧
    trim key = key := by
  decide

variable {key : String}

theorem readMetadata_line (startLine : ℕ) (m : TaskMetadata) (hkey : key ∈ metadataKeys)
    (hvalue : Text.Trimmed value) (hne : value ≠ "") :
    readMetadata errors startLine m (metadataLine key value) = m.set errors startLine key value := by
  obtain ⟨hequals,-,-,htrim⟩ := metadataKeys_shape key hkey
  rw [readMetadata,trim_of_trimmed (trimmed_metadataLine key hvalue hne),metadataLine,
    stripPrefix_append]
  dsimp only
  rw [splitOnce_append hequals]
  dsimp only
  rw [htrim]

theorem set_other (startLine : ℕ) (m : TaskMetadata) (value : String) (h : key ∉ metadataKeys) :
    m.set errors startLine key value = .ok m := by
  simp only [metadataKeys,mem_cons,not_mem_nil,or_false,not_or] at h
  obtain ⟨hid,hname,hcron,hcommand,henabled,hupdated⟩ := h
  rw [TaskMetadata.set,if_neg hid,if_neg hname,if_neg hcron,if_neg hcommand,if_neg henabled,if_neg hupdated]

/-- A line in which no field can be found is passed over. -/
theorem readMetadata_other (startLine : ℕ) (m : TaskMetadata) {line : String} (hline : Text.Trimmed line)
    (h : ∀ metadata key value, stripPrefix "# " line = some metadata →
      splitOnce '=' metadata = some (key,value) → trim key ∉ metadataKeys) :
    readMetadata errors startLine m line = .ok m := by
  rw [readMetadata,trim_of_trimmed hline]
  cases hmetadata : stripPrefix "# " line with
  | none => rfl
  | some metadata =>
    cases hsplit : splitOnce '=' metadata with
    | none => simp only [hsplit]
    | some parts =>
      simp only [hsplit]
      exact set_other errors startLine m parts.2 (h metadata parts.1 parts.2 hmetadata hsplit)

theorem trim_key_not_mem {c : Char} (hc : c ∈ key.toList) (hspace : isWhitespace c = false)
    (hkeys : ∀ k ∈ metadataKeys, c ∉ k.toList) : trim key ∉ metadataKeys :=
  fun hmem => hkeys _ hmem (mem_trim hc hspace)

theorem stripPrefix_of_toList {pattern rest : String} (h : s.toList = pattern.toList ++ rest.toList) :
    stripPrefix pattern s = some rest := by
  rw [← String.toList_append] at h
  rw [String.toList_injective h,stripPrefix_append]

/-- In the line of an active task a field can only be found in the schedule: behind it the first sign of
equality follows the capital letters of a variable. -/
theorem key_of_cronLine (h : ¬ ReadsAsMetadata record.cron) {metadata : String}
    (hmetadata : stripPrefix "# " (cronLine record) = some metadata)
    (hsplit : splitOnce '=' metadata = some (key,value)) : trim key ∉ metadataKeys := by
  obtain ⟨middle,hcommand⟩ := escaped_buildRunCommand record
  obtain ⟨hparts,hequals⟩ := splitOnce_eq_some hsplit
  have hline := stripPrefix_eq_some hmetadata
  have hsides : (['#',' '] ++ key.toList ++ ['=']) ++ value.toList =
      record.cron.toList ++ (' ' :: 'M' :: ("XTERM_TASK_ID=".toList ++ (middle.toList ++ ['\'']))) := by
    have hcron : (cronLine record).toList = record.cron.toList ++
        (" MXTERM_TASK_ID=".toList ++ (middle.toList ++ ['\''])) := by
      rw [cronLine,hcommand]
      simp only [String.toList_append,append_assoc]
      rfl
    rw [hcron,hparts] at hline
    simpa using hline.symm
  -- the schedule holds the field, or it ends before the sign of equality
  have hinside (rest : List Char) (hcron : record.cron.toList = (['#',' '] ++ key.toList ++ ['=']) ++ rest) :
      trim key ∉ metadataKeys := by
    intro hkey
    refine h ⟨key ++ String.ofList ['='] ++ String.ofList rest,key,String.ofList rest,?_,
      splitOnce_append hequals _,hkey⟩
    apply stripPrefix_of_toList
    rw [hcron]
    simp
  rcases append_eq_append_iff.mp hsides with ⟨rest,hcron,-⟩ | ⟨gap,hgap,hrest⟩
  · exact hinside rest hcron
  · cases gap with
    | nil => exact hinside [] (by simpa using hgap.symm)
    | cons c gap =>
      cases gap with
      | nil =>
        have hlast := congrArg List.getLast? hgap
        obtain ⟨hc,-⟩ := List.cons.inj hrest
        rw [getLast?_concat,getLast?_concat,← hc] at hlast
        cases hlast
      | cons d gap =>
        obtain ⟨-,hrest⟩ := List.cons.inj hrest
        obtain ⟨hd,-⟩ := List.cons.inj hrest
        have hmem : 'M' ∈ ['#',' '] ++ key.toList ++ ['='] := by
          rw [hgap,← hd]
          simp
        have hkey : 'M' ∈ key.toList := by simpa using hmem
        exact trim_key_not_mem hkey (by decide) fun k hk => (metadataKeys_shape k hk).2.1

theorem key_of_disabled {line metadata : String}
    (hmetadata : stripPrefix "# " ("# disabled: " ++ line) = some metadata)
    (hsplit : splitOnce '=' metadata = some (key,value)) : trim key ∉ metadataKeys := by
  obtain ⟨hparts,-⟩ := splitOnce_eq_some hsplit
  have hline := stripPrefix_eq_some hmetadata
  have hsides : key.toList ++ '=' :: value.toList = "disabled: ".toList ++ line.toList := by
    rw [hparts,String.toList_append] at hline
    have hbegin : "# disabled: ".toList = "# ".toList ++ "disabled: ".toList := by decide
    rw [hbegin,append_assoc] at hline
    exact (append_cancel_left hline).symm
  have hcolon : ':' ∈ key.toList := by
    rcases append_eq_append_iff.mp hsides with ⟨rest,hkey,hrest⟩ | ⟨rest,hkey,-⟩
    · cases rest with
      | nil =>
        rw [append_nil] at hkey
        rw [← hkey]
        decide
      | cons c rest =>
        obtain ⟨rfl,-⟩ := List.cons.inj hrest
        have hmem : '=' ∈ "disabled: ".toList := by
          rw [hkey]
          simp
        exact absurd hmem (by decide)
    · rw [hkey]
      exact mem_append_left _ (by decide)
  exact trim_key_not_mem hcolon (by decide) fun k hk => (metadataKeys_shape k hk).2.2.1

/-! ## Reading a block -/

/-- The task can be told from its block: it is disabled or its schedule is no comment line. -/
def ScheduledTaskRecord.Readable (record : ScheduledTaskRecord) : Prop :=
  record.enabled → ¬ ReadsAsMetadata record.cron

def taskLine (record : ScheduledTaskRecord) : String :=
  if record.enabled then cronLine record else "# disabled: " ++ cronLine record

/-- The lines between the marks. -/
def blockBody (record : ScheduledTaskRecord) : List String :=
  [metadataLine "id" record.id,metadataLine "name" (encodeMetadata record.name),
    metadataLine "cron" (encodeMetadata record.cron),metadataLine "command" (encodeMetadata record.command),
    metadataLine "enabled" (toString record.enabled),metadataLine "updated_at" record.updatedAt,
    taskLine record]

theorem renderBlock_eq (record : ScheduledTaskRecord) :
    renderBlock record = crontabBegin :: (blockBody record ++ [crontabEnd]) := by
  rfl

variable {record : ScheduledTaskRecord}

theorem trimmed_cron (h : record.Valid) : Text.Trimmed record.cron ∧ record.cron ≠ "" := by
  obtain ⟨hcron,hne,-⟩ := validateCron_ok h.cron
  exact ⟨(trimmed_iff _).mpr hcron.symm,hne⟩

theorem trimmed_id (h : record.Valid) : Text.Trimmed record.id ∧ record.id ≠ "" := by
  obtain ⟨hid,hne,-⟩ := normalizeTaskId_ok.mp h.id
  exact ⟨(trimmed_iff _).mpr hid.symm,hid ▸ hne⟩

theorem newline_not_mem_id (h : record.Valid) : '\n' ∉ record.id.toList := by
  intro hmem
  obtain ⟨hid,-,-,hall⟩ := normalizeTaskId_ok.mp h.id
  have hchar := hall '\n' (hid ▸ hmem)
  cases hchar

theorem trimmed_enabled (enabled : Bool) : Text.Trimmed (toString enabled) ∧ toString enabled ≠ "" := by
  cases enabled
  · exact ⟨trimmed_literal (by decide),by decide⟩
  · exact ⟨trimmed_literal (by decide),by decide⟩

theorem trimmed_taskLine (h : record.Valid) : Text.Trimmed (taskLine record) := by
  obtain ⟨hcron,hne⟩ := trimmed_cron h
  have hline := trimmed_cronLine hcron hne
  unfold taskLine
  split
  · exact hline
  · refine Text.Trimmed.append ?_ (by decide) hline ?_
    · intro c hc
      cases hc
      decide
    · intro he
      rw [cronLine,String.append_assoc] at he
      exact hne (String.append_eq_empty_iff.mp he).1

theorem trim_encodeMetadata (value : String) : trim (encodeMetadata value) = encodeMetadata value :=
  trim_of_trimmed (trimmed_encodeMetadata value)

section Fields

variable (startLine : ℕ) (m : TaskMetadata)

theorem read_id (h : record.Valid) : readMetadata errors startLine m (metadataLine "id" record.id) =
    .ok { m with id := some record.id } := by
  obtain ⟨htrimmed,hne⟩ := trimmed_id h
  rw [readMetadata_line errors startLine m (by decide) htrimmed hne,TaskMetadata.set,trim_of_trimmed htrimmed,h.id]
  rfl

theorem read_name {name : String} (h : trim name ≠ "") :
    readMetadata errors startLine m (metadataLine "name" (encodeMetadata name)) =
      .ok { m with name := some name } := by
  rw [readMetadata_line errors startLine m (by decide) (trimmed_encodeMetadata name)
    (encodeMetadata_ne_empty h),TaskMetadata.set,trim_encodeMetadata,
    decodeMetadata_encodeMetadata]
  rfl

theorem read_cron {cron : String} (h : validateCron cron = .ok cron) :
    readMetadata errors startLine m (metadataLine "cron" (encodeMetadata cron)) =
      .ok { m with cron := some cron } := by
  obtain ⟨hcron,hne,-⟩ := validateCron_ok h
  rw [readMetadata_line errors startLine m (by decide) (trimmed_encodeMetadata cron)
    (encodeMetadata_ne_empty (hcron ▸ hne)),TaskMetadata.set,if_neg (by decide),if_neg
      (by decide),trim_encodeMetadata,decodeMetadata_encodeMetadata]
  simp only [Except.bind,h]
  rfl

theorem read_command {command : String} (h : trim command ≠ "") :
    readMetadata errors startLine m (metadataLine "command" (encodeMetadata command)) =
      .ok { m with command := some command } := by
  rw [readMetadata_line errors startLine m (by decide) (trimmed_encodeMetadata command)
    (encodeMetadata_ne_empty h),TaskMetadata.set,if_neg (by decide),if_neg (by decide),if_neg (by decide),
    trim_encodeMetadata,decodeMetadata_encodeMetadata]
  rfl

theorem read_enabled (enabled : Bool) :
    readMetadata errors startLine m (metadataLine "enabled" (toString enabled)) =
      .ok { m with enabled := some enabled } := by
  obtain ⟨htrimmed,hne⟩ := trimmed_enabled enabled
  have hparse : parseEnabled (toString enabled) startLine = .ok enabled := by
    cases enabled <;> rfl
  rw [readMetadata_line errors startLine m (by decide) htrimmed hne,TaskMetadata.set,trim_of_trimmed htrimmed,hparse]
  rfl

theorem read_updatedAt (h : record.Valid) :
    readMetadata errors startLine m (metadataLine "updated_at" record.updatedAt) =
      .ok { m with updatedAt := some record.updatedAt } := by
  have hrequired : requireValue record.updatedAt "scheduled_task_crontab_invalid" "定时任务管理块格式无效。" =
      .ok record.updatedAt :=
    requireValue_ok.mpr ⟨h.updatedAt.symm,h.updatedAt.symm ▸ h.updatedAtNonblank⟩
  rw [readMetadata_line errors startLine m (by decide) ((trimmed_iff _).mpr h.updatedAt)
    h.updatedAtNonblank,TaskMetadata.set,hrequired]
  rfl

theorem read_taskLine (h : record.Valid) (hreadable : record.Readable) :
    readMetadata errors startLine m (taskLine record) = .ok m := by
  refine readMetadata_other errors startLine m (trimmed_taskLine h) fun metadata key value hm hs => ?_
  cases he : record.enabled with
  | true =>
    rw [taskLine,he] at hm
    exact key_of_cronLine (hreadable he) hm hs
  | false =>
    rw [taskLine,he] at hm
    exact key_of_disabled hm hs

end Fields

/-- Reading the lines of a block one after the other gives its fields. -/
theorem readMetadata_body (h : record.Valid) (hreadable : record.Readable) (startLine : ℕ) :
    (blockBody record).foldlM (readMetadata errors startLine) .blank =
      .ok ⟨some record.id,some record.name,some record.cron,some record.command,some record.enabled,
        some record.updatedAt⟩ := by
  simp only [blockBody,foldlM_cons,foldlM_nil,read_id errors startLine _ h,
    read_name errors startLine _ h.name,read_cron errors startLine _ h.cron,
    read_command errors startLine _ h.command,read_enabled errors startLine,
    read_updatedAt errors startLine _ h,read_taskLine errors startLine _ h hreadable,bind,Except.bind]
  rfl

theorem parseTaskBlock_render (h : record.Valid) (hreadable : record.Readable) (startLine : ℕ) :
    parseTaskBlock errors (renderBlock record) startLine = .ok record := by
  obtain ⟨-,hcronNe,-⟩ := validateCron_ok h.cron
  have hcronBlank : trim record.cron ≠ "" := (validateCron_ok h.cron).1 ▸ hcronNe
  have hbody : ((renderBlock record).drop 1).take ((renderBlock record).length - 2) = blockBody record := by
    rfl
  rw [parseTaskBlock,hbody,readMetadata_body errors h hreadable]
  simp [Except.bind,bind,TaskMetadata.record,requireField,requireDecodedValue,h.name,hcronBlank,h.command,h.noNul,
    pure,Except.pure]

end Mxterm.ScheduledTasks
