import Mathlib
import Mxterm.ScheduledTaskDocuments

/-! Editing the tasks of a crontab: what the commands make of the tasks, and that the lines of others stay. -/
namespace Mxterm.ScheduledTasks

open Utf8

open CrontabSegment hiding entries

open List Text

def Entry.text? : Entry → Option String
  | .line text => some text
  | .task _ => none

def Entry.record? : Entry → Option ScheduledTaskRecord
  | .line _ => none
  | .task record => some record

/-- The lines outside the blocks, as they stand in the text. The flag tells whether a block is open. -/
def outsideLines : Bool → List String → List String
  | _, [] => []
  | false, line :: lines =>
    if trim line = crontabBegin then outsideLines true lines else line :: outsideLines false lines
  | true, line :: lines => outsideLines (decide (trim line ≠ crontabEnd)) lines

variable (errors : DecodeErrors)

structure CrontabReader.Sound (r : CrontabReader) : Prop where
  entries : ∀ entry ∈ r.entries, entry.Checked
  block : ∀ startLine block, r.block = some (startLine,block) →
    r.rawLines = [] ∧ ∀ line ∈ block, '\n' ∉ line.toList

def CrontabReader.texts (r : CrontabReader) : List String := r.entries.filterMap Entry.text?

variable {text : String}

theorem outsideLine_trimReturns (hnewline : '\n' ∉ text.toList) (hbegin : trim text ≠ crontabBegin) :
    OutsideLine (trimReturns text) where
  newline hmem := hnewline (mem_trimReturns hmem)
  last := getLast?_trimReturns text
  noBegin := by rwa [trim_trimReturns]

/-- One line is read: the texts so far, with those that the rest will give, stay the same. -/
theorem sound_read {r r' : CrontabReader} (hr : r.Sound) (hnewline : '\n' ∉ text.toList)
    (h : r.read errors text = .ok r') :
    r'.Sound ∧ ∀ rest, r'.texts ++ (outsideLines r'.block.isSome rest).map trimReturns =
      r.texts ++ (outsideLines r.block.isSome (text :: rest)).map trimReturns := by
  have hline : '\n' ∉ (trimReturns text).toList := fun hmem => hnewline (mem_trimReturns hmem)
  unfold CrontabReader.read at h
  simp only [trim_trimReturns] at h
  cases hb : r.block with
  | none =>
    simp only [hb] at h
    split at h
    · rename_i hbegin
      cases h
      have hsame : CrontabReader.entries
          ⟨r.index + 1,r.flushed,[],some (r.index + 1,[trimReturns text])⟩ = r.entries := by
        simp [CrontabReader.entries,CrontabReader.flushed]
      refine ⟨⟨hsame ▸ hr.entries,?_⟩,fun rest => ?_⟩
      · rintro startLine block hblock
        cases hblock
        exact ⟨rfl,by simpa using hline⟩
      · simp [CrontabReader.texts,hsame,outsideLines,hbegin]
    · rename_i hbegin
      cases h
      have hadded : CrontabReader.entries
          ⟨r.index + 1,r.segments,r.rawLines ++ [trimReturns text],none⟩ =
            r.entries ++ [.line (trimReturns text)] := by
        simp [entries_flushed]
      refine ⟨⟨?_,fun _ _ h => by cases h⟩,fun rest => ?_⟩
      · rw [hadded]
        rintro entry hentry
        rcases mem_append.mp hentry with hentry | hentry
        · exact hr.entries entry hentry
        · obtain rfl := mem_singleton.mp hentry
          exact outsideLine_trimReturns hnewline hbegin
      · simp [CrontabReader.texts,hadded,outsideLines,hbegin,Entry.text?]
  | some open' =>
    obtain ⟨startLine,block⟩ := open'
    obtain ⟨hraw,hblock⟩ := hr.block startLine block hb
    simp only [hb] at h
    have hlines : ∀ line ∈ block ++ [trimReturns text], '\n' ∉ line.toList := by
      rintro line hmem
      rcases mem_append.mp hmem with hmem | hmem
      · exact hblock line hmem
      · exact mem_singleton.mp hmem ▸ hline
    split at h
    · rename_i hend
      obtain ⟨record,hrecord,rfl⟩ := except_map_ok h
      have hadded : CrontabReader.entries ⟨r.index + 1,r.segments ++ [.task record],[],none⟩ =
          r.entries ++ [.task record] := by
        simp [entries_flushed,hraw,CrontabSegment.entries]
      refine ⟨⟨?_,fun _ _ h => by cases h⟩,fun rest => ?_⟩
      · rw [hadded]
        rintro entry hentry
        rcases mem_append.mp hentry with hentry | hentry
        · exact hr.entries entry hentry
        · obtain rfl := mem_singleton.mp hentry
          exact valid_parseTaskBlock errors hlines hrecord
      · simp [CrontabReader.texts,hadded,outsideLines,hend,Entry.text?]
    · rename_i hend
      cases h
      refine ⟨⟨hr.entries,?_⟩,fun rest => ?_⟩
      · rintro startLine' block' hblock'
        cases hblock'
        exact ⟨hraw,hlines⟩
      · simp [CrontabReader.texts,CrontabReader.entries,CrontabReader.flushed,outsideLines,hend]

theorem sound_foldlM (lines : List String) (hlines : ∀ line ∈ lines, '\n' ∉ line.toList) {r r' : CrontabReader}
    (hr : r.Sound) (h : lines.foldlM (CrontabReader.read errors) r = .ok r') :
    r'.Sound ∧ r'.texts = r.texts ++ (outsideLines r.block.isSome lines).map trimReturns := by
  induction lines generalizing r with
  | nil =>
    obtain rfl := Except.ok.inj h
    exact ⟨hr,by cases r.block <;> simp [outsideLines]⟩
  | cons line lines ih =>
    obtain ⟨hline,hlines⟩ := forall_mem_cons.mp hlines
    rw [foldlM_cons] at h
    obtain ⟨middle,hmiddle,h⟩ := (Execution.except_bind_ok _ _ _).mp h
    obtain ⟨hsound,htexts⟩ := sound_read errors hr hline hmiddle
    obtain ⟨hfinal,hall⟩ := ih hlines hsound h
    exact ⟨hfinal,hall.trans (htexts lines)⟩

namespace CrontabDocument

variable (document : CrontabDocument)

def texts : List String := document.entries.filterMap Entry.text?

theorem taskRecords_eq : document.taskRecords = document.entries.filterMap Entry.record? := by
  unfold taskRecords entries
  induction document.segments with
  | nil => rfl
  | cons segment segments ih =>
    rw [flatMap_cons,filterMap_append,← ih]
    cases segment with
    | raw lines =>
      have hlines : (raw lines).entries.filterMap Entry.record? = [] := by
        simp [CrontabSegment.entries,Entry.record?]
      rw [hlines]
      rfl
    | task record => rfl

end CrontabDocument

variable {document : CrontabDocument}

/-- A text that is accepted gives checked entries, and the lines outside its blocks. -/
theorem parseCrontab_sound (h : parseCrontab errors text = .ok document) :
    (∀ entry ∈ document.entries, entry.Checked) ∧
      document.texts = (outsideLines false (lines text)).map trimReturns := by
  obtain ⟨r,hr,hfinish⟩ := (Execution.except_bind_ok _ _ _).mp h
  have hstart : CrontabReader.start.Sound := ⟨nofun,nofun⟩
  obtain ⟨hsound,htexts⟩ := sound_foldlM errors _ (fun line => newline_not_mem_of_mem_lines) hstart hr
  have hdocument : document = ⟨r.flushed⟩ := by
    unfold CrontabReader.finish at hfinish
    split at hfinish
    · exact (Except.ok.inj hfinish).symm
    · cases hfinish
  rw [hdocument]
  exact ⟨hsound.entries,htexts⟩

/-! ## The values that the commands draw -/

variable {c : Char}

theorem digit_char (h : c.isDigit) : isWhitespace c = false ∧ c ≠ '\n' := by
  simp only [Char.isDigit,Bool.and_eq_true,decide_eq_true_eq] at h
  have hlow : 48 ≤ c.toNat := h.1
  have hhigh : c.toNat ≤ 57 := h.2
  constructor
  · simp only [isWhitespace,Bool.or_eq_false_iff,Bool.and_eq_false_iff,decide_eq_false_iff_not,
      beq_eq_false_iff_ne]
    omega
  · rintro rfl
    exact absurd hlow (by decide)

theorem digits_of_seconds (seconds : ℕ) : ∀ c ∈ (toString seconds).toList, c.isDigit := by
  intro c hc
  rw [Nat.toString_eq_ofList_toDigits,String.toList_ofList] at hc
  exact Nat.isDigit_of_mem_toDigits (by decide) (by decide) hc

theorem seconds_ne_empty (seconds : ℕ) : toString seconds ≠ "" := by
  intro h
  rw [Nat.toString_eq_ofList_toDigits] at h
  have hlist := congrArg String.toList h
  rw [String.toList_ofList] at hlist
  exact Nat.toDigits_ne_nil hlist

theorem trim_seconds (seconds : ℕ) : trim (toString seconds) = toString seconds :=
  trim_of_trimmed (trimmed_of_all fun c hc => (digit_char (digits_of_seconds seconds c hc)).1)

theorem newline_not_mem_seconds (seconds : ℕ) : '\n' ∉ (toString seconds).toList :=
  fun hmem => (digit_char (digits_of_seconds seconds _ hmem)).2 rfl

theorem hexDigit_char : ∀ k < 16, isTaskIdChar k.digitChar ∧ k.digitChar.toNat < 128 := by decide

variable {uuid : Uuid}

theorem mem_uuid (h : c ∈ uuid.toString.toList) : isTaskIdChar c ∧ c.toNat < 128 := by
  have hhex (count value : ℕ) (hc : c ∈ Uuid.hexDigits count value) : isTaskIdChar c ∧ c.toNat < 128 := by
    obtain ⟨i,-,rfl⟩ := mem_map.mp hc
    exact hexDigit_char _ (Nat.mod_lt _ (by decide))
  have hdash (hc : c = '-') : isTaskIdChar c ∧ c.toNat < 128 := by
    subst hc
    decide
  simp only [Uuid.toString,String.toList_ofList,append_assoc,mem_append,cons_append,
    mem_cons] at h
  rcases h with h | h | h | h | h | h | h | h | h
  · exact hhex _ _ h
  · exact hdash h
  · exact hhex _ _ h
  · exact hdash h
  · exact hhex _ _ h
  · exact hdash h
  · exact hhex _ _ h
  · exact hdash h
  · exact hhex _ _ h

theorem isTaskIdChar_not_whitespace (h : isTaskIdChar c) : isWhitespace c = false := by
  simp only [isTaskIdChar,Char.isAlphanum,Char.isAlpha,Char.isUpper,Char.isLower,Char.isDigit,
    Bool.or_eq_true,Bool.and_eq_true,decide_eq_true_eq] at h
  rcases h with (h | rfl) | rfl
  · have hrange : (65 ≤ c.toNat ∧ c.toNat ≤ 90) ∨ (97 ≤ c.toNat ∧ c.toNat ≤ 122) ∨
        (48 ≤ c.toNat ∧ c.toNat ≤ 57) := by
      rcases h with (h | h) | h
      · exact Or.inl h
      · exact Or.inr (Or.inl h)
      · exact Or.inr (Or.inr h)
    simp only [isWhitespace,Bool.or_eq_false_iff,Bool.and_eq_false_iff,decide_eq_false_iff_not,
      beq_eq_false_iff_ne]
    omega
  · decide
  · decide

theorem length_encode_ascii (cs : List Char) (h : ∀ c ∈ cs, c.toNat < 128) :
    (cs.flatMap String.utf8EncodeChar).length = cs.length := by
  induction cs with
  | nil => rfl
  | cons c cs ih =>
    obtain ⟨hc,hcs⟩ := forall_mem_cons.mp h
    rw [flatMap_cons,length_append,ih hcs,encodeChar_ascii hc]
    simp [Nat.add_comm]

theorem size_uuid (uuid : Uuid) : uuid.toString.utf8ByteSize = 36 := by
  have hsize : uuid.toString.utf8ByteSize = (encode uuid.toString).length := by
    rw [← String.size_toByteArray,← toByteArray_encode]
    simp
  rw [hsize,encode,length_encode_ascii _ fun c hc => (mem_uuid hc).2]
  simp [Uuid.toString,Uuid.hexDigits]

/-- A new identifier passes the check of identifiers. -/
theorem normalizeTaskId_uuid (uuid : Uuid) : normalizeTaskId uuid.toString = .ok uuid.toString := by
  have htrim : trim uuid.toString = uuid.toString :=
    trim_of_trimmed (trimmed_of_all fun c hc => isTaskIdChar_not_whitespace (mem_uuid hc).1)
  rw [normalizeTaskId_ok,htrim]
  refine ⟨rfl,?_,?_,fun c hc => (mem_uuid hc).1⟩
  · rw [← htrim]
    exact uuid.toString_nonblank
  · rw [size_uuid]
    decide

variable {clock : Except String ℕ}

theorem nowTimestamp_ok {updatedAt : String} (h : nowTimestamp clock = .ok updatedAt) :
    ∃ seconds, clock = .ok seconds ∧ updatedAt = toString seconds := by
  cases clock with
  | error e => cases h
  | ok seconds => exact ⟨seconds,rfl,(Except.ok.inj h).symm⟩

/-- An input without an identifier is a new task. -/
def ScheduledTaskInput.givenId (input : ScheduledTaskInput) : Option String :=
  (input.id.map trim).filter (· ≠ "")

/-- The task that an input describes. -/
def ScheduledTaskInput.record (uuid : Uuid) (seconds : ℕ) (input : ScheduledTaskInput) : ScheduledTaskRecord :=
  ⟨input.givenId.getD uuid.toString,trim input.name,trim input.cron,trim input.command,
    input.enabled,toString seconds⟩

variable {input : ScheduledTaskInput}

theorem inputId_ok {id : String} (h : inputId uuid input = .ok id) :
    id = input.givenId.getD uuid.toString ∧ normalizeTaskId id = .ok id := by
  unfold inputId at h
  split at h
  · rename_i value hvalue
    have hgiven : input.givenId = some value := hvalue
    have htrim : trim value = value := by
      obtain ⟨hmap,-⟩ := Option.filter_eq_some_iff.mp hvalue
      obtain ⟨raw,-,rfl⟩ := Option.map_eq_some_iff.mp hmap
      exact trim_trim raw
    refine ⟨?_,normalizeTaskId_idem h⟩
    rw [hgiven,Option.getD_some,(normalizeTaskId_ok.mp h).1,htrim]
  · rename_i hnone
    have hgiven : input.givenId = none := hnone
    cases h
    exact ⟨by rw [hgiven,Option.getD_none],normalizeTaskId_uuid uuid⟩

/-- An accepted input gives the task it describes. -/
theorem normalizeTaskInput_ok {record : ScheduledTaskRecord} (h : normalizeTaskInput uuid clock input = .ok record) :
    ∃ seconds, clock = .ok seconds ∧ record = input.record uuid seconds ∧ record.Valid := by
  unfold normalizeTaskInput at h
  obtain ⟨id,hid,h⟩ := (Execution.except_bind_ok _ _ _).mp h
  obtain ⟨name,hname,h⟩ := (Execution.except_bind_ok _ _ _).mp h
  obtain ⟨cron,hcron,h⟩ := (Execution.except_bind_ok _ _ _).mp h
  obtain ⟨command,hcommand,h⟩ := (Execution.except_bind_ok _ _ _).mp h
  obtain ⟨_,hnul,h⟩ := (Execution.except_bind_ok _ _ _).mp h
  obtain ⟨updatedAt,hupdated,h⟩ := (Execution.except_bind_ok _ _ _).mp h
  cases h
  obtain ⟨hid,hidValid⟩ := inputId_ok hid
  obtain ⟨hname,hnameNe⟩ := requireValue_ok.mp hname
  obtain ⟨hcommand,hcommandNe⟩ := requireValue_ok.mp hcommand
  obtain ⟨seconds,hclock,hseconds⟩ := nowTimestamp_ok hupdated
  refine ⟨seconds,hclock,?_,?_⟩
  · rw [hid,hname,(validateCron_ok hcron).1,hcommand,hseconds]
    rfl
  · exact {
      id := hidValid
      name := by rw [hname,trim_trim]; exact hnameNe
      cron := validateCron_idem hcron
      command := by rw [hcommand,trim_trim]; exact hcommandNe
      noNul := hnul
      updatedAt := by rw [hseconds]; exact trim_seconds seconds
      updatedAtNonblank := by rw [hseconds]; exact seconds_ne_empty seconds
      updatedAtLine := by rw [hseconds]; exact newline_not_mem_seconds seconds }

/-! ## What the commands are to do -/

abbrev ids (records : List ScheduledTaskRecord) : List String := records.map ScheduledTaskRecord.id

/-- A change of the task with an identifier. -/
def alter (taskId : String) (f : ScheduledTaskRecord → ScheduledTaskRecord) (records : List ScheduledTaskRecord) :
    List ScheduledTaskRecord :=
  records.map fun record => if record.id = taskId then f record else record

/-- What a command is to make of the tasks. A command that is refused changes nothing. -/
def Command.intended : Command → List ScheduledTaskRecord → List ScheduledTaskRecord
  | .save input uuid clock, records =>
    match normalizeTaskInput uuid clock input, clock with
    | .ok _, .ok seconds =>
      let record := input.record uuid seconds
      if input.givenId.isSome ∧ record.id ∈ ids records then alter record.id (fun _ => record) records
      else records ++ [record]
    | _, _ => records
  | .delete taskId, records => records.filter fun record => record.id ≠ trim taskId
  | .setEnabled taskId enabled clock, records =>
    match clock with
    | .ok seconds => alter (trim taskId)
        (fun record => { record with enabled := enabled, updatedAt := toString seconds }) records
    | .error _ => records

theorem intended_save {seconds : ℕ} {record : ScheduledTaskRecord}
    (h : normalizeTaskInput uuid (.ok seconds) input = .ok record) (records : List ScheduledTaskRecord) :
    (Command.save input uuid (.ok seconds)).intended records =
      if input.givenId.isSome ∧ (input.record uuid seconds).id ∈ ids records then
        alter (input.record uuid seconds).id (fun _ => input.record uuid seconds) records
      else records ++ [input.record uuid seconds] := by
  simp only [Command.intended,h]

theorem intended_refused {e : AppError} (h : normalizeTaskInput uuid clock input = .error e)
    (records : List ScheduledTaskRecord) : (Command.save input uuid clock).intended records = records := by
  simp only [Command.intended,h]

/-- A new task gets an identifier that no task has. -/
def Command.Fresh : Command → List ScheduledTaskRecord → Prop
  | .save input uuid _, records => input.givenId = none → uuid.toString ∉ ids records
  | .delete _, _ => True
  | .setEnabled _ _ _, _ => True

/-! ## What they do -/

@[simp] theorem taskRecords_raw (lines : List String) (segments : List CrontabSegment) :
    (⟨.raw lines :: segments⟩ : CrontabDocument).taskRecords = (⟨segments⟩ : CrontabDocument).taskRecords := rfl

@[simp] theorem taskRecords_task (record : ScheduledTaskRecord) (segments : List CrontabSegment) :
    (⟨.task record :: segments⟩ : CrontabDocument).taskRecords =
      record :: (⟨segments⟩ : CrontabDocument).taskRecords := rfl

@[simp] theorem texts_raw (lines : List String) (segments : List CrontabSegment) :
    (⟨.raw lines :: segments⟩ : CrontabDocument).texts = lines ++ (⟨segments⟩ : CrontabDocument).texts := by
  simp [CrontabDocument.texts,CrontabDocument.entries,CrontabSegment.entries,Entry.text?,Function.comp_def]

@[simp] theorem texts_task (record : ScheduledTaskRecord) (segments : List CrontabSegment) :
    (⟨.task record :: segments⟩ : CrontabDocument).texts = (⟨segments⟩ : CrontabDocument).texts := rfl

variable {taskId : String} {f : ScheduledTaskRecord → ScheduledTaskRecord}

theorem modifyTask_none {segments : List CrontabSegment} (h : modifyTask taskId f segments = none) :
    taskId ∉ ids (⟨segments⟩ : CrontabDocument).taskRecords := by
  induction segments with
  | nil => nofun
  | cons segment segments ih =>
    cases segment with
    | raw lines =>
      rw [modifyTask,Option.map_eq_none_iff] at h
      exact ih h
    | task record =>
      rw [modifyTask] at h
      split at h
      · cases h
      · rename_i hne
        rw [Option.map_eq_none_iff] at h
        rw [taskRecords_task,ids,map_cons,mem_cons,not_or]
        exact ⟨fun he => hne he.symm,ih h⟩

/-- The first task with the identifier is changed; the identifiers being different, it is the only one. -/
theorem modifyTask_some {segments changed : List CrontabSegment} (h : modifyTask taskId f segments = some changed)
    (hids : (ids (⟨segments⟩ : CrontabDocument).taskRecords).Nodup) :
    (⟨changed⟩ : CrontabDocument).texts = (⟨segments⟩ : CrontabDocument).texts ∧
      (⟨changed⟩ : CrontabDocument).taskRecords = alter taskId f (⟨segments⟩ : CrontabDocument).taskRecords ∧
      taskId ∈ ids (⟨segments⟩ : CrontabDocument).taskRecords := by
  induction segments generalizing changed with
  | nil => cases h
  | cons segment segments ih =>
    cases segment with
    | raw lines =>
      obtain ⟨rest,hrest,rfl⟩ := Option.map_eq_some_iff.mp h
      obtain ⟨htexts,hrecords,hmem⟩ := ih hrest hids
      exact ⟨by simp [htexts],by simpa using hrecords,hmem⟩
    | task record =>
      rw [modifyTask] at h
      rw [taskRecords_task,ids,map_cons,nodup_cons] at hids
      split at h
      · rename_i hid
        cases h
        have hothers : alter taskId f (⟨segments⟩ : CrontabDocument).taskRecords =
            (⟨segments⟩ : CrontabDocument).taskRecords := by
          rw [alter]
          refine (map_congr_left fun other hother => if_neg ?_).trans (map_id _)
          rintro rfl
          exact hids.1 (hid ▸ mem_map_of_mem hother)
        refine ⟨rfl,?_,by simp [ids,hid]⟩
        rw [taskRecords_task,taskRecords_task,alter,map_cons,if_pos hid]
        exact congrArg _ hothers.symm
      · rename_i hne
        obtain ⟨rest,hrest,rfl⟩ := Option.map_eq_some_iff.mp h
        obtain ⟨htexts,hrecords,hmem⟩ := ih hrest hids.2
        refine ⟨htexts,?_,by simp [ids] at hmem ⊢; exact Or.inr hmem⟩
        rw [taskRecords_task,taskRecords_task,alter,map_cons,if_neg hne,hrecords]
        rfl

/-- The records are valid and told apart by their identifiers. -/
structure CrontabDocument.Sound (document : CrontabDocument) : Prop where
  lines : ∀ text ∈ document.texts, OutsideLine text
  records : ∀ record ∈ document.taskRecords, record.Valid
  ids : (ids document.taskRecords).Nodup

theorem texts_append_task (document : CrontabDocument) (record : ScheduledTaskRecord) :
    (⟨document.segments ++ [.task record]⟩ : CrontabDocument).texts = document.texts ∧
      (⟨document.segments ++ [.task record]⟩ : CrontabDocument).taskRecords =
        document.taskRecords ++ [record] := by
  constructor
  · simp [CrontabDocument.texts,CrontabDocument.entries,CrontabSegment.entries,Entry.text?]
  · simp [CrontabDocument.taskRecords]

theorem upsert_spec (h : document.Sound) (record : ScheduledTaskRecord) :
    (document.upsert record).texts = document.texts ∧
      (document.upsert record).taskRecords =
        if record.id ∈ ids document.taskRecords then alter record.id (fun _ => record) document.taskRecords
        else document.taskRecords ++ [record] := by
  unfold CrontabDocument.upsert
  cases hm : modifyTask record.id (fun _ => record) document.segments with
  | some changed =>
    obtain ⟨htexts,hrecords,hmem⟩ := modifyTask_some hm h.ids
    rw [if_pos hmem]
    exact ⟨htexts,hrecords⟩
  | none =>
    rw [if_neg (modifyTask_none hm)]
    exact texts_append_task document record

theorem filter_isKept (taskId : String) (segments : List CrontabSegment) :
    (⟨segments.filter (isKept taskId)⟩ : CrontabDocument).texts =
      (⟨segments⟩ : CrontabDocument).texts ∧
    (⟨segments.filter (isKept taskId)⟩ : CrontabDocument).taskRecords =
      (⟨segments⟩ : CrontabDocument).taskRecords.filter fun record => record.id ≠ taskId := by
  induction segments with
  | nil => exact ⟨rfl,rfl⟩
  | cons segment segments ih =>
    cases segment with
    | raw lines => simpa [filter_cons,isKept] using ih
    | task record =>
      by_cases h : record.id = taskId
      · simpa [filter_cons,isKept,h] using ih
      · simpa [filter_cons,isKept,h] using ih

theorem remove_some {changed : CrontabDocument} (h : document.remove taskId = some changed) :
    changed.texts = document.texts ∧
      changed.taskRecords = document.taskRecords.filter fun record => record.id ≠ taskId := by
  unfold CrontabDocument.remove at h
  dsimp only at h
  split at h
  · cases h
    exact filter_isKept taskId document.segments
  · cases h

theorem remove_none (h : document.remove taskId = none) :
    (document.taskRecords.filter fun record => record.id ≠ taskId) = document.taskRecords := by
  unfold CrontabDocument.remove at h
  dsimp only at h
  split at h
  · cases h
  · rename_i hlength
    rw [not_not] at hlength
    have hall : document.segments.filter (isKept taskId) = document.segments :=
      filter_eq_self.mpr (length_filter_eq_length_iff.mp hlength)
    have hrecords := (filter_isKept taskId document.segments).2
    rw [hall] at hrecords
    exact hrecords.symm

theorem ids_alter (hf : ∀ record, record.id = taskId → (f record).id = taskId) (records : List ScheduledTaskRecord) :
    ids (alter taskId f records) = ids records := by
  rw [ids,alter,map_map]
  refine map_congr_left fun record _ => ?_
  by_cases h : record.id = taskId
  · simp [h,hf record h]
  · simp [h]

variable {records : List ScheduledTaskRecord}

theorem alter_of_not_mem (h : taskId ∉ ids records) : alter taskId f records = records := by
  rw [alter]
  refine (map_congr_left fun record hrecord => if_neg ?_).trans (map_id _)
  rintro rfl
  exact h (mem_map_of_mem hrecord)

/-- A task whose identifier is refused is not in the crontab. -/
theorem not_mem_of_normalize_error (h : ∀ record ∈ records, record.Valid) {e : AppError}
    (he : normalizeTaskId taskId = .error e) : trim taskId ∉ ids records := by
  intro hmem
  obtain ⟨record,hrecord,hid⟩ := mem_map.mp hmem
  have hvalid := (h record hrecord).id
  rw [hid] at hvalid
  have hok : normalizeTaskId taskId = .ok (trim taskId) := by
    obtain ⟨-,hchecked⟩ := normalizeTaskId_ok.mp hvalid
    rw [trim_trim] at hchecked
    exact normalizeTaskId_ok.mpr ⟨rfl,hchecked⟩
  rw [hok] at he
  cases he

/-- What a command has done when it did not fail, and that it was to do nothing when it did. -/
def Meets (command : Command) (document : CrontabDocument) : Except AppError CrontabDocument → Prop
  | .ok changed => changed.texts = document.texts ∧
      changed.taskRecords = command.intended document.taskRecords ∧ ∀ record ∈ changed.taskRecords, record.Valid
  | .error _ => command.intended document.taskRecords = document.taskRecords

variable {document : CrontabDocument}

theorem save_meets (h : document.Sound) (hfresh : input.givenId = none → uuid.toString ∉ ids document.taskRecords) :
    Meets (.save input uuid clock) document ((Command.save input uuid clock).change document) := by
  cases hinput : normalizeTaskInput uuid clock input with
  | error e =>
    simp only [Command.change,hinput,Except.map]
    exact intended_refused hinput document.taskRecords
  | ok record =>
    obtain ⟨seconds,rfl,rfl,hvalid⟩ := normalizeTaskInput_ok hinput
    obtain ⟨htexts,hrecords⟩ := upsert_spec h (input.record uuid seconds)
    have hput : (document.upsert (input.record uuid seconds)).taskRecords =
        (Command.save input uuid (.ok seconds)).intended document.taskRecords := by
      rw [hrecords,intended_save hinput]
      cases hgiven : input.givenId with
      | none =>
        have hid : (input.record uuid seconds).id = uuid.toString := by
          simp [ScheduledTaskInput.record,hgiven]
        rw [if_neg (hid ▸ hfresh hgiven),if_neg (by simp)]
      | some id => simp
    simp only [Command.change,hinput,Except.map]
    refine ⟨htexts,hput,?_⟩
    rw [hrecords]
    split
    · rintro record hrecord
      obtain ⟨old,hold,rfl⟩ := mem_map.mp hrecord
      split
      · exact hvalid
      · exact h.records old hold
    · rintro record hrecord
      rcases mem_append.mp hrecord with hrecord | hrecord
      · exact h.records record hrecord
      · exact mem_singleton.mp hrecord ▸ hvalid

theorem delete_meets (h : document.Sound) (taskId : String) :
    Meets (.delete taskId) document ((Command.delete taskId).check.bind fun command => command.change document) := by
  cases hid : normalizeTaskId taskId with
  | error e =>
    simp only [Command.check,hid,Except.map,Except.bind]
    have hnot := not_mem_of_normalize_error h.records hid
    refine filter_eq_self.mpr fun record hrecord => decide_eq_true ?_
    intro he
    exact hnot (he ▸ mem_map_of_mem hrecord)
  | ok id =>
    obtain ⟨rfl,-⟩ := normalizeTaskId_ok.mp hid
    simp only [Command.check,hid,Except.map,Except.bind,Command.change]
    cases hr : document.remove (trim taskId) with
    | none => exact remove_none hr
    | some changed =>
      obtain ⟨htexts,hrecords⟩ := remove_some hr
      refine ⟨htexts,hrecords,fun record hrecord => ?_⟩
      rw [hrecords] at hrecord
      exact h.records record (mem_of_mem_filter hrecord)

theorem setEnabled_meets (h : document.Sound) (taskId : String) (enabled : Bool) (clock : Except String ℕ) :
    Meets (.setEnabled taskId enabled clock) document
      ((Command.setEnabled taskId enabled clock).check.bind fun command => command.change document) := by
  cases hid : normalizeTaskId taskId with
  | error e =>
    simp only [Command.check,hid,Except.map,Except.bind]
    have hnot := not_mem_of_normalize_error h.records hid
    cases clock with
    | error e => rfl
    | ok seconds => exact alter_of_not_mem hnot
  | ok id =>
    obtain ⟨rfl,-⟩ := normalizeTaskId_ok.mp hid
    cases clock with
    | error e =>
      simp only [Command.check,hid,Except.map,Except.bind,Command.change,nowTimestamp]
      rfl
    | ok seconds =>
      simp only [Command.check,hid,Except.map,Except.bind,Command.change,nowTimestamp]
      cases hm : modifyTask (trim taskId)
          (fun record => { record with enabled := enabled, updatedAt := toString seconds }) document.segments with
      | none => exact alter_of_not_mem (modifyTask_none hm)
      | some changed =>
        obtain ⟨htexts,hrecords,-⟩ := modifyTask_some hm h.ids
        refine ⟨htexts,hrecords,fun record hrecord => ?_⟩
        rw [hrecords] at hrecord
        obtain ⟨old,hold,rfl⟩ := mem_map.mp hrecord
        have hvalid := h.records old hold
        split
        · exact { hvalid with
            updatedAt := trim_seconds seconds
            updatedAtNonblank := seconds_ne_empty seconds
            updatedAtLine := newline_not_mem_seconds seconds }
        · exact hvalid

variable {command : Command}

/-- Every command does to the tasks what it is to do, and nothing to the lines of others. -/
theorem change_meets (h : document.Sound) (hfresh : command.Fresh document.taskRecords) :
    Meets command document (command.check.bind fun command => command.change document) := by
  cases command with
  | save input uuid clock => exact save_meets h hfresh
  | delete taskId => exact delete_meets h taskId
  | setEnabled taskId enabled clock => exact setEnabled_meets h taskId enabled clock

/-! ## Runs -/

/-- No active task has a schedule that looks like a comment line of a block. -/
def Unambiguous (records : List ScheduledTaskRecord) : Prop := ∀ record ∈ records, record.Readable

/-- The commands can be told from their results: new identifiers are new, and the tasks stay unambiguous. -/
def Admitted : List Command → List ScheduledTaskRecord → Prop
  | [], _ => True
  | command :: commands, records =>
    command.Fresh records ∧ Unambiguous (command.intended records) ∧ Admitted commands (command.intended records)

/-- A command on the crontab of a host; one that fails installs nothing. -/
def applyCommand (crontab : List UInt8) (command : Command) : List UInt8 :=
  match command.run errors crontab with
  | .ok installed => installed
  | .error _ => crontab

theorem nodup_intended (h : (ids records).Nodup) (hfresh : command.Fresh records) :
    (ids (command.intended records)).Nodup := by
  cases command with
  | save input uuid clock =>
    cases hinput : normalizeTaskInput uuid clock input with
    | error e =>
      rw [intended_refused hinput]
      exact h
    | ok record =>
      obtain ⟨seconds,rfl,-⟩ := normalizeTaskInput_ok hinput
      rw [intended_save hinput]
      split
      · rw [ids_alter fun other _ => rfl]
        exact h
      · rename_i hnot
        rw [ids,map_append,nodup_append']
        refine ⟨h,nodup_singleton _,?_⟩
        rw [map_singleton,disjoint_singleton]
        intro hmem
        cases hgiven : input.givenId with
        | none =>
          have hid : (input.record uuid seconds).id = uuid.toString := by
            simp [ScheduledTaskInput.record,hgiven]
          exact hfresh hgiven (hid ▸ hmem)
        | some id => exact hnot ⟨by simp [hgiven],hmem⟩
  | delete taskId => exact h.sublist (filter_sublist.map _)
  | setEnabled taskId enabled clock =>
    cases clock with
    | error e => exact h
    | ok seconds =>
      have hids : ids ((Command.setEnabled taskId enabled (.ok seconds)).intended records) = ids records :=
        ids_alter (f := fun record => { record with enabled := enabled, updatedAt := toString seconds })
          (fun _ hrecord => hrecord) records
      exact hids.symm ▸ h

theorem run_of_load {crontab : List UInt8} (h : loadDocument errors crontab = .ok document) (command : Command) :
    command.run errors crontab = (command.check.bind fun command => command.change document).map
      fun changed => encode changed.render := by
  unfold Command.run
  cases hc : command.check with
  | error e => rfl
  | ok checked =>
    simp only [bind,Except.bind,h]
    cases checked.change document <;> rfl

theorem sound_of_load (h : loadDocument errors (encode text) = .ok document)
    (hids : (ids document.taskRecords).Nodup) :
    document.Sound ∧ document.texts = (outsideLines false (lines text)).map trimReturns := by
  rw [loadDocument,decodeLossy_encode] at h
  obtain ⟨hchecked,htexts⟩ := parseCrontab_sound errors h
  refine ⟨⟨fun line hline => ?_,fun record hrecord => ?_,hids⟩,htexts⟩
  · obtain ⟨entry,hentry,hline⟩ := mem_filterMap.mp hline
    cases entry with
    | line text =>
      cases hline
      exact hchecked _ hentry
    | task record => cases hline
  · rw [document.taskRecords_eq] at hrecord
    obtain ⟨entry,hentry,hrecord⟩ := mem_filterMap.mp hrecord
    cases entry with
    | line text => cases hrecord
    | task record =>
      cases hrecord
      exact hchecked _ hentry

/-- The entries of a document are its lines and its tasks. -/
theorem good_entries (h : ∀ text ∈ document.texts, OutsideLine text)
    (hrecords : ∀ record ∈ document.taskRecords, record.Valid) (hreadable : Unambiguous document.taskRecords) :
    ∀ entry ∈ document.entries, entry.Good := by
  intro entry hentry
  cases entry with
  | line text => exact h text (mem_filterMap.mpr ⟨_,hentry,rfl⟩)
  | task record =>
    have hmem : record ∈ document.taskRecords := by
      rw [document.taskRecords_eq]
      exact mem_filterMap.mpr ⟨_,hentry,rfl⟩
    exact ⟨hrecords record hmem,hreadable record hmem⟩

theorem filterMap_of_blank {entries : List Entry} (h : ∀ entry ∈ entries, entry.isBlank) :
    entries.filterMap Entry.record? = [] ∧ ∀ text ∈ entries.filterMap Entry.text?, isBlank text := by
  constructor
  · refine filterMap_eq_nil_iff.mpr fun entry hentry => ?_
    cases entry with
    | line text => rfl
    | task record => exact absurd (h _ hentry) Bool.false_ne_true
  · intro text htext
    obtain ⟨entry,hentry,htext⟩ := mem_filterMap.mp htext
    cases entry with
    | line other =>
      cases htext
      exact h _ hentry
    | task record => cases htext

theorem trimOuterEntries_parts (entries : List Entry) :
    ∃ before after, entries = before ++ trimOuterEntries entries ++ after ∧
      (∀ entry ∈ before, entry.isBlank) ∧ ∀ entry ∈ after, entry.isBlank := by
  obtain ⟨after,hafter⟩ := rdropWhile_prefix Entry.isBlank (entries.dropWhile Entry.isBlank)
  refine ⟨entries.takeWhile Entry.isBlank,after,?_,fun entry hentry => mem_takeWhile_imp hentry,?_⟩
  · rw [trimOuterEntries,append_assoc,hafter,takeWhile_append_dropWhile]
  · have hall : (entries.dropWhile Entry.isBlank).rdropWhile Entry.isBlank ++
        (entries.dropWhile Entry.isBlank).rtakeWhile Entry.isBlank = entries.dropWhile Entry.isBlank := by
      rw [List.rdropWhile,List.rtakeWhile,← reverse_append,takeWhile_append_dropWhile,
        reverse_reverse]
    have hsame : after = (entries.dropWhile Entry.isBlank).rtakeWhile Entry.isBlank :=
      append_cancel_left (hafter.trans hall.symm)
    intro entry hentry
    rw [hsame] at hentry
    exact mem_rtakeWhile_imp hentry

/-- How the crontab may differ after commands: in blank lines at its ends, and a line that ended with
carriage returns ends without them. -/
def SameOutside (before after : String) : Prop :=
  ∃ above below, (∀ line ∈ above ++ below, isBlank line) ∧
    (outsideLines false (lines before)).map trimReturns =
      above ++ (outsideLines false (lines after)).map trimReturns ++ below

theorem SameOutside.refl (text : String) : SameOutside text text :=
  ⟨[],[],by simp,by simp⟩

theorem SameOutside.trans {a b c : String} (hab : SameOutside a b) (hbc : SameOutside b c) : SameOutside a c := by
  obtain ⟨above,below,hblank,hab⟩ := hab
  obtain ⟨above',below',hblank',hbc⟩ := hbc
  refine ⟨above ++ above',below' ++ below,?_,?_⟩
  · simp only [mem_append] at hblank hblank' ⊢
    rintro line ((hline | hline) | (hline | hline))
    · exact hblank line (Or.inl hline)
    · exact hblank' line (Or.inl hline)
    · exact hblank' line (Or.inr hline)
    · exact hblank line (Or.inr hline)
  · rw [hab,hbc]
    simp

/-- A rendered text holds the tasks and the lines of its document. -/
theorem load_render (hlines : ∀ text ∈ document.texts, OutsideLine text)
    (hrecords : ∀ record ∈ document.taskRecords, record.Valid) (hreadable : Unambiguous document.taskRecords) :
    ∃ read above below, loadDocument errors (encode document.render) = .ok read ∧
      read.taskRecords = document.taskRecords ∧ document.texts = above ++ read.texts ++ below ∧
      (∀ line ∈ above ++ below, isBlank line) ∧
      ∀ line ∈ lines document.render, line.toList.getLast? ≠ some '\r' := by
  have hgood := good_entries hlines hrecords hreadable
  obtain ⟨read,hread,hentries⟩ := parseCrontab_render errors document hgood
  obtain ⟨above,below,hparts,habove,hbelow⟩ := trimOuterEntries_parts document.entries
  rw [← hentries] at hparts
  obtain ⟨haboveRecords,haboveTexts⟩ := filterMap_of_blank habove
  obtain ⟨hbelowRecords,hbelowTexts⟩ := filterMap_of_blank hbelow
  refine ⟨read,above.filterMap Entry.text?,below.filterMap Entry.text?,?_,?_,?_,?_,?_⟩
  · rw [loadDocument,decodeLossy_encode,hread]
  · rw [document.taskRecords_eq,read.taskRecords_eq,hparts]
    simp [haboveRecords,hbelowRecords]
  · rw [CrontabDocument.texts,hparts]
    simp [CrontabDocument.texts]
  · rintro line hline
    rcases mem_append.mp hline with hline | hline
    · exact haboveTexts line hline
    · exact hbelowTexts line hline
  · rw [lines_render document hgood]
    rintro line hline
    obtain ⟨entry,hentry,hline⟩ := mem_flatMap.mp hline
    exact (entry_lines (hgood entry (mem_of_mem_trimOuterEntries hentry)) line hline).2

/-- One command on a crontab that can be read. -/
theorem applyCommand_spec (hload : loadDocument errors (encode text) = .ok document)
    (hids : (ids document.taskRecords).Nodup) (hfresh : command.Fresh document.taskRecords)
    (hreadable : Unambiguous (command.intended document.taskRecords)) :
    ∃ text' document', applyCommand errors (encode text) command = encode text' ∧
      loadDocument errors (encode text') = .ok document' ∧
      document'.taskRecords = command.intended document.taskRecords ∧ SameOutside text text' ∧
      (text' = text ∨ ∀ line ∈ lines text', line.toList.getLast? ≠ some '\r') := by
  obtain ⟨hsound,htexts⟩ := sound_of_load errors hload hids
  have hmeets := change_meets hsound hfresh
  unfold applyCommand
  rw [run_of_load errors hload]
  cases hchanged : command.check.bind fun command => command.change document with
  | error e =>
    rw [hchanged] at hmeets
    exact ⟨text,document,rfl,hload,hmeets.symm,.refl text,Or.inl rfl⟩
  | ok changed =>
    rw [hchanged] at hmeets
    obtain ⟨hsame,hrecords,hvalid⟩ := hmeets
    rw [← hrecords] at hreadable
    obtain ⟨read,above,below,hread,hreadRecords,hreadTexts,hblank,hreturns⟩ :=
      load_render errors (hsame ▸ hsound.lines) hvalid hreadable
    have hreadIds : (ids read.taskRecords).Nodup := by
      rw [hreadRecords,hrecords]
      exact nodup_intended hids hfresh
    obtain ⟨-,hfinal⟩ := sound_of_load errors hread hreadIds
    refine ⟨changed.render,read,rfl,hread,hreadRecords.trans hrecords,⟨above,below,hblank,?_⟩,Or.inr hreturns⟩
    rw [← htexts,← hfinal,← hsame,hreadTexts]

def plainErrors : DecodeErrors := ⟨fun _ => "",fun _ => ""⟩

def backupInput : ScheduledTaskInput := ⟨some "1","backup","@daily","true",true⟩

theorem normalize_backupInput : normalizeTaskInput ⟨0⟩ (.ok 0) backupInput = .ok (backupInput.record ⟨0⟩ 0) := rfl

theorem backupInput_readable : Unambiguous [backupInput.record ⟨0⟩ 0] := by
  intro record hrecord _
  obtain rfl := mem_singleton.mp hrecord
  rintro ⟨metadata,key,value,hstrip,-⟩
  cases hstrip

def shellDocument : CrontabDocument := ⟨[.raw ["","SHELL=/bin/sh"],.task (backupInput.record ⟨0⟩ 0)]⟩

end Mxterm.ScheduledTasks
