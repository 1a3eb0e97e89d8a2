import Mxterm.CrontabJobs
import Mxterm.ScheduledTaskEdits
import Mxterm.ScheduledTaskScript
import Mxterm.ShellWords

/-! The jobs that cron finds in the block of a scheduled task (`scheduled_tasks.rs`), and what their command runs. -/
namespace Mxterm.ScheduledTasks

open List

open ShellScripts (Host Bytes bytes)

/-! ## Running a task now -/

def CrontabDocument.findTask (document : CrontabDocument) (taskId : String) : Option ScheduledTaskRecord :=
  document.segments.findSome? fun
    | .task record => if record.id = taskId then some record else none
    | .raw _ => none

/-- What `run_task_now` has the host carry out, from the document that it has loaded. -/
def commandRunNow (document : CrontabDocument) (taskId : String) : Except AppError String :=
  match normalizeTaskId taskId with
  | .error e => .error e
  | .ok taskId =>
    match document.findTask taskId with
    | some record => .ok (buildRunCommand record)
    | none => .error (taskMissingError "task not found")

/-! ## What is promised -/

/-- A state in which nothing has been run. -/
def start (vars : List Char → Bytes) : ShellScripts.State := ⟨vars,0,0,[],false⟩

/-- A command line that calls the shell with a script which calls the shell once, with the command. -/
def RunsCommand (host : Host) (line command : String) : Prop :=
  ∃ call script tree, ShellWords.read line.toList = some call ∧
    call.argv = ["/bin/sh".toList,"-lc".toList,script] ∧ ShellScripts.parse script = some tree ∧
    ∀ input environment, watch.calls (ShellScripts.carryOut host tree input (start (ShellScripts.assign
      (call.assigned.map (Prod.map (fun name => name) bytes)) environment))).1.runs = [shellCall (Utf8.encode command)]

/-- An enabled task is one job, with its schedule and its command, and a disabled one is none. -/
structure IsLive (host : Host) (record : ScheduledTaskRecord) : Prop where
  jobs : CrontabJobs.jobs (Text.join (renderBlock record)).toList =
    if record.enabled then [⟨CrontabJobs.words record.cron.toList,(buildRunCommand record).toList⟩] else []
  runs : RunsCommand host (buildRunCommand record) record.command
  now : ∀ document : CrontabDocument, document.findTask record.id = some record →
    commandRunNow document record.id = .ok (buildRunCommand record)

/-! ## The command line -/

section
variable {record : ScheduledTaskRecord}

theorem toList_quotePosixShell (value : String) :
    (quotePosixShell value).toList = '\'' :: (ShellWords.escapeQuotes value.toList ++ ['\'']) := by
  unfold quotePosixShell
  by_cases h : value = ""
  · rw [h]
    rfl
  · rw [if_neg h]
    simp only [String.toList_append,String.toList_ofList,append_assoc]
    rfl

/-- The words of the command line: two assignments, and the call of the shell. -/
def commandWords (record : ScheduledTaskRecord) : List (List ShellWords.Mark) :=
  let commandB64 := Base64.encodePadded Base64.standard (Utf8.encode record.command)
  [ShellWords.unquoted "MXTERM_TASK_ID".toList ++ ('=',false) :: ShellWords.quoted record.id.toList,
    ShellWords.unquoted "MXTERM_CMD_B64".toList ++ ('=',false) :: ShellWords.quoted commandB64.toList,
    ShellWords.unquoted "/bin/sh".toList,ShellWords.unquoted "-lc".toList,ShellWords.quoted runScript.toList]

theorem isWord_assignment {name : List Char} (hname : (name ++ ['=']).all ShellWords.isOrdinary = true)
    (value : String) : ShellWords.IsWord (name ++ ['='] ++ (quotePosixShell value).toList)
      (ShellWords.unquoted name ++ ('=',false) :: ShellWords.quoted value.toList) := by
  have hvalue : ShellWords.Spells (quotePosixShell value).toList (ShellWords.quoted value.toList) := by
    rw [toList_quotePosixShell]
    exact ShellWords.spells_single value.toList
  have hword := (ShellWords.isWord_ordinary hname (by simp)).append hvalue
  have hmarks : ShellWords.unquoted (name ++ ['=']) = ShellWords.unquoted name ++ [('=',false)] := map_append
  rw [hmarks,append_assoc (ShellWords.unquoted name)] at hword
  exact hword

theorem split_buildRunCommand (record : ScheduledTaskRecord) :
    ShellWords.split (buildRunCommand record).toList = some (commandWords record) := by
  let commandB64 := Base64.encodePadded Base64.standard (Utf8.encode record.command)
  have hpieces (a b c : List Char) : "MXTERM_TASK_ID=".toList ++ a ++ " MXTERM_CMD_B64=".toList ++ b ++
      " /bin/sh -lc ".toList ++ c = [' '].intercalate ["MXTERM_TASK_ID".toList ++ ['='] ++ a,
        "MXTERM_CMD_B64".toList ++ ['='] ++ b,"/bin/sh".toList,"-lc".toList,c] := by
    simp [intercalate_cons_cons]
  have hline : (buildRunCommand record).toList = "MXTERM_TASK_ID=".toList ++ (quotePosixShell record.id).toList ++
      " MXTERM_CMD_B64=".toList ++ (quotePosixShell commandB64).toList ++ " /bin/sh -lc ".toList ++
      (quotePosixShell runScript).toList := by
    unfold buildRunCommand
    rw [String.toList_append,String.toList_append,String.toList_append,String.toList_append,String.toList_append]
  rw [hpieces] at hline
  have hscript : ShellWords.IsWord (quotePosixShell runScript).toList (ShellWords.quoted runScript.toList) := by
    rw [toList_quotePosixShell]
    exact ShellWords.isWord_single runScript.toList
  rw [hline]
  apply ShellWords.split_words
  refine .cons (isWord_assignment (by decide) _) (.cons (isWord_assignment (by decide) _)
    (.cons (ShellWords.isWord_ordinary (by decide) (by decide))
      (.cons (ShellWords.isWord_ordinary (by decide) (by decide)) (.cons hscript .nil))))

theorem read_buildRunCommand (record : ScheduledTaskRecord) : ShellWords.read (buildRunCommand record).toList =
    some ⟨[("MXTERM_TASK_ID".toList,record.id.toList),
      ("MXTERM_CMD_B64".toList,(Base64.encodePadded Base64.standard (Utf8.encode record.command)).toList)],
      ["/bin/sh".toList,"-lc".toList,runScript.toList]⟩ := by
  have hid : ShellWords.IsName "MXTERM_TASK_ID".toList := ⟨by decide,_,_,rfl,rfl⟩
  have hcommand : ShellWords.IsName "MXTERM_CMD_B64".toList := ⟨by decide,_,_,rfl,rfl⟩
  have hshell : ShellWords.assignment? (ShellWords.unquoted "/bin/sh".toList) = none := by decide
  rw [ShellWords.read,split_buildRunCommand,Option.map_some,commandWords]
  simp only [ShellWords.toCommand,ShellWords.assignment?_name hid,ShellWords.assignment?_name hcommand,hshell,
    map_cons,map_nil,ShellWords.value_quoted,ShellWords.value_unquoted]

/-- The assignments of the command line pass the encoding of the command. -/
theorem encoded_start (id : List Char) (command : Bytes) (environment : List Char → Bytes) :
    Encoded command (start (ShellScripts.assign ([("MXTERM_TASK_ID".toList,id),
      ("MXTERM_CMD_B64".toList,(Base64.encodePadded Base64.standard command).toList)].map
        (Prod.map (fun name => name) bytes)) environment)) := by
  have hencoded : bytes (Base64.encodePadded Base64.standard command).toList =
      Utf8.encode (Base64.encodePadded Base64.standard command) := by rw [bytes,String.ofList_toList]
  have hassign (encoding : List Char) : ShellScripts.assign ([("MXTERM_TASK_ID".toList,id),
      ("MXTERM_CMD_B64".toList,encoding)].map (Prod.map (fun name => name) bytes)) environment =
      Function.update (Function.update environment "MXTERM_TASK_ID".toList (bytes id)) "MXTERM_CMD_B64".toList
        (bytes encoding) := by
    simp only [ShellScripts.assign,map_cons,map_nil,foldl_cons,foldl_nil,Prod.map]
  rw [hassign,hencoded]
  have hvar (vars : List Char → Bytes) (value : Bytes) :
      Function.update vars "MXTERM_CMD_B64".toList value "MXTERM_CMD_B64".toList = value := Function.update_self ..
  exact ⟨hvar (Function.update environment "MXTERM_TASK_ID".toList (bytes id)) _,rfl,rfl⟩

/-- The command that is run is the task's, whatever its text is. -/
theorem runsCommand {host : Host} (hutilities : Utilities host) (hnul : '\x00' ∉ record.command.toList)
    (hlast : ∀ c ∈ record.command.toList.getLast?, c ≠ '\n') :
    RunsCommand host (buildRunCommand record) record.command :=
  ⟨_,_,wrapper,read_buildRunCommand record,rfl,parse_runScript,fun input environment =>
    leads_wrapper hutilities (taken_encode hnul hlast) input _
      (encoded_start record.id.toList (Utf8.encode record.command) environment)⟩

end

/-! ## The lines of a block -/

section
variable {record : ScheduledTaskRecord}

theorem toList_cronLine (record : ScheduledTaskRecord) : (cronLine record).toList =
    record.cron.toList ++ ' ' :: CrontabJobs.escape (buildRunCommand record).toList := by
  have hspace : " ".toList = [' '] := rfl
  have hescape (text : List Char) : text.flatMap (fun c => if c = '%' then ['\\','%'] else [c]) =
      CrontabJobs.escape text := rfl
  rw [cronLine,String.toList_append,String.toList_append,hspace,escapeCrontabPercent,String.toList_ofList,hescape,
    append_assoc,singleton_append]

theorem newline_not_mem_line (h : record.Valid) : ∀ line ∈ renderBlock record, '\n' ∉ line.toList := by
  intro line hline
  rw [renderBlock_eq] at hline
  rcases mem_cons.mp hline with rfl | hline
  · decide
  · rcases mem_append.mp hline with hline | hline
    · exact newline_not_mem_body h line hline
    · rw [mem_singleton.mp hline]
      decide

theorem readLine_comment (text : String) : CrontabJobs.readLine ("# " ++ text).toList = none := by
  rw [String.toList_append]
  exact CrontabJobs.readLine_comment _

/-- Every line of a block is a comment, apart from the line of an enabled task. -/
theorem jobs_renderBlock (h : record.Valid) : CrontabJobs.jobs (Text.join (renderBlock record)).toList =
    if record.enabled then (CrontabJobs.readLine (cronLine record).toList).toList else [] := by
  have hlines : (Text.join (renderBlock record)).toList.splitOn '\n' = (renderBlock record).map String.toList := by
    rw [Text.join,String.toList_ofList,splitOn_intercalate]
    · intro l hl
      obtain ⟨line,hline,rfl⟩ := mem_map.mp hl
      exact newline_not_mem_line h line hline
    · simp [renderBlock]
  have hmarks : CrontabJobs.readLine crontabBegin.toList = none ∧ CrontabJobs.readLine crontabEnd.toList = none :=
    ⟨CrontabJobs.readLine_comment _,CrontabJobs.readLine_comment _⟩
  have hmetadata (key value : String) : CrontabJobs.readLine (metadataLine key value).toList = none :=
    readLine_comment _
  rw [CrontabJobs.jobs,hlines,renderBlock_eq,filterMap_map]
  cases henabled : record.enabled
  · have htask : CrontabJobs.readLine (taskLine record).toList = none := by
      rw [taskLine,henabled,if_neg (by decide),String.toList_append]
      exact CrontabJobs.readLine_comment _
    simp [blockBody,hmarks,hmetadata,htask]
  · have htask : taskLine record = cronLine record := by rw [taskLine,henabled]; rfl
    simp only [blockBody,cons_append,nil_append,filterMap_cons,Function.comp_apply,hmarks.1,hmarks.2,
      hmetadata,htask,filterMap_nil]
    cases CrontabJobs.readLine (cronLine record).toList <;> rfl

theorem skip_of_trimmed {text : String} (h : Text.Trimmed text) : CrontabJobs.skip text.toList = text.toList := by
  cases hchars : text.toList with
  | nil => rfl
  | cons c rest =>
    have hc : Text.isWhitespace c = false := h.head c (by rw [hchars]; rfl)
    have hblank : CrontabJobs.isBlank c = false := by
      by_contra hb
      simp only [CrontabJobs.isBlank,Bool.not_eq_false,Bool.or_eq_true,beq_iff_eq] at hb
      rcases hb with rfl | rfl
      · exact absurd hc (by decide)
      · exact absurd hc (by decide)
    exact dropWhile_cons_of_neg (by rw [hblank]; decide)

theorem escape_begins (record : ScheduledTaskRecord) :
    ∃ rest, CrontabJobs.escape (buildRunCommand record).toList = 'M' :: rest := by
  have hbegins : ∃ rest, (buildRunCommand record).toList = 'M' :: rest := by
    unfold buildRunCommand
    rw [String.toList_append,String.toList_append,String.toList_append,String.toList_append,String.toList_append]
    exact ⟨_,rfl⟩
  obtain ⟨rest,hrest⟩ := hbegins
  rw [hrest]
  exact ⟨_,rfl⟩

/-- The line of an enabled task is its job exactly where cron can read the schedule. -/
theorem jobs_iff (h : record.Valid) (henabled : record.enabled = true) :
    CrontabJobs.jobs (Text.join (renderBlock record)).toList =
      [⟨CrontabJobs.words record.cron.toList,(buildRunCommand record).toList⟩] ↔
      CrontabJobs.Readable record.cron.toList := by
  obtain ⟨htrimmed,hne⟩ := trimmed_cron h
  have hchars : record.cron.toList ≠ [] := fun hnil => hne (String.toList_eq_nil_iff.mp hnil)
  obtain ⟨rest,hrest⟩ := escape_begins record
  rw [jobs_renderBlock h,if_pos henabled,toList_cronLine,
    ← CrontabJobs.readLine_iff hchars (skip_of_trimmed htrimmed) (by rw [hrest]; rfl) (by simp [hrest])]
  constructor
  · intro hjobs
    cases hread : CrontabJobs.readLine
        (record.cron.toList ++ ' ' :: CrontabJobs.escape (buildRunCommand record).toList) with
    | none =>
      rw [hread] at hjobs
      cases hjobs
    | some job =>
      rw [hread] at hjobs
      exact congrArg some (List.cons.inj hjobs).1
  · intro hread
    rw [hread]
    rfl

end

/-! ## Live jobs -/

/-- A task that is saved is a live job exactly where it is disabled or cron can read its schedule. -/
theorem live_iff {host : Host} (hutilities : Utilities host) {uuid : Uuid} {clock : Except String ℕ}
    {input : ScheduledTaskInput} {record : ScheduledTaskRecord} (h : normalizeTaskInput uuid clock input = .ok record) :
    IsLive host record ↔ (record.enabled = true → CrontabJobs.Readable record.cron.toList) := by
  obtain ⟨seconds,-,hrecord,hvalid⟩ := normalizeTaskInput_ok h
  have hcommand : Text.trim record.command = record.command := by
    rw [hrecord]
    exact Text.trim_trim _
  have hnul : '\x00' ∉ record.command.toList := by
    intro hmem
    have hok := hvalid.noNul
    rw [validateCommand,if_pos hmem] at hok
    cases hok
  constructor
  · intro hlive henabled
    have hjobs := hlive.jobs
    rw [if_pos henabled] at hjobs
    exact (jobs_iff hvalid henabled).mp hjobs
  · intro hreadable
    constructor
    · cases henabled : record.enabled
      · rw [jobs_renderBlock hvalid,henabled]
        rfl
      · exact (jobs_iff hvalid henabled).mpr (hreadable henabled)
    · have hlast := ((Text.trimmed_iff _).mpr hcommand).last
      exact runsCommand hutilities hnul fun c hc hnewline => absurd (hlast c hc) (by rw [hnewline]; decide)
    · intro document hfound
      rw [commandRunNow,hvalid.id]
      simp only [hfound]

/-- A host whose `printf` and `base64 -d` do what they are for, and that has no other utilities. -/
def plainHost : Host where
  utility _ argv input :=
    if argv = [bytes "base64".toList,bytes "-d".toList] then
      match (Utf8.decode? input).bind fun text =>
          Base64.decode? Base64.standard (String.ofList (text.toList.filter (· ≠ '='))) with
      | some data => (data,0)
      | none => ([],1)
    else
      match argv with
      | [_,format,text] => if format = bytes "%s".toList then (text,0) else (format,0)
      | _ => ([],0)

theorem plainHost_utilities : Utilities plainHost where
  printfText _ _ _ := by
    have hname : bytes "printf".toList ≠ bytes "base64".toList := ShellScripts.bytes_injective.mt (by decide)
    simp only [plainHost,List.cons.injEq,hname,false_and,if_false,if_true]
  printfNothing _ _ := by
    have hname : bytes "printf".toList ≠ bytes "base64".toList := ShellScripts.bytes_injective.mt (by decide)
    simp only [plainHost,List.cons.injEq,hname,false_and,if_false]
  decodes runs data := by
    simp only [plainHost,if_true,Utf8.decode?_encode,Option.bind_some,Base64.unpadded_encodePadded _
      Base64.padding_standard,
      String.ofList_toList,Base64.decode?_encode]

/-- A task that is enabled and whose line is a comment. -/
def commentedInput : ScheduledTaskInput := ⟨some "1","backup","# * * * *","true",true⟩

theorem backup_live : IsLive plainHost (backupInput.record ⟨0⟩ 0) :=
  (live_iff plainHost_utilities normalize_backupInput).mpr fun _ =>
    ⟨by decide,by decide,by decide⟩

theorem comment_accepted : ∃ uuid clock input record, normalizeTaskInput uuid clock input = .ok record ∧
    ∀ host, ¬ IsLive host record := by
  have hok : normalizeTaskInput ⟨0⟩ (.ok 0) commentedInput = .ok (commentedInput.record ⟨0⟩ 0) := rfl
  refine ⟨⟨0⟩,.ok 0,commentedInput,commentedInput.record ⟨0⟩ 0,hok,fun host hlive => ?_⟩
  obtain ⟨-,-,-,hvalid⟩ := normalizeTaskInput_ok hok
  have hreadable := (jobs_iff hvalid rfl).mp hlive.jobs
  exact absurd hreadable.1 (by decide)

theorem isWord_quotePosixShell (value : String) :
    ShellWords.IsWord (quotePosixShell value).toList (ShellWords.quoted value.toList) := by
  rw [toList_quotePosixShell]
  exact ShellWords.isWord_single value.toList

/-- A quoted text between blanks is one word, which is the text, whatever stands around it, and quoted texts with spaces
between them are the words of their line. -/
theorem quotePosixShell_exact :
    (∀ (value : String) (line rest : List Char) (words : List (List ShellWords.Mark)) (blank blank' : Char),
      ShellWords.split line = some words → ShellWords.isBlank blank = true → ShellWords.isBlank blank' = true →
      ShellWords.split (line ++ blank :: ((quotePosixShell value).toList ++ blank' :: rest)) =
        (ShellWords.split rest).map fun others => words ++ ShellWords.quoted value.toList :: others) ∧
    (∀ value : String, ShellWords.value (ShellWords.quoted value.toList) = value.toList) ∧
    ∀ values : List String, (ShellWords.split (" ".intercalate (values.map quotePosixShell)).toList).map
      (·.map fun word => String.ofList (ShellWords.value word)) = some values := by
  refine ⟨?_,?_,?_⟩
  · intro value line rest words blank blank' hline hblank hblank'
    exact (isWord_quotePosixShell value).split_append hblank hline hblank' rest
  · exact fun value => ShellWords.value_quoted value.toList
  · intro values
    have hwords : List.Forall₂ ShellWords.IsWord ((values.map quotePosixShell).map String.toList)
        (values.map fun value => ShellWords.quoted value.toList) := by
      induction values with
      | nil => exact .nil
      | cons value values ih => exact .cons (isWord_quotePosixShell value) ih
    rw [String.toList_intercalate,show " ".toList = [' '] from rfl,ShellWords.split_words hwords,Option.map_some,
      List.map_map]
    simp [Function.comp_def]

theorem quotePosixShell_exact_between :
    ShellWords.split ("ls ".toList ++ ((quotePosixShell "it's").toList ++ " x".toList)) = some
      [ShellWords.unquoted "ls".toList,ShellWords.quoted "it's".toList,ShellWords.unquoted "x".toList] :=
  quotePosixShell_exact.1 "it's" "ls".toList "x".toList [ShellWords.unquoted "ls".toList] ' ' ' ' (by decide)
    (by decide) (by decide)

end Mxterm.ScheduledTasks
