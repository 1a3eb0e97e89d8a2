import Mxterm.LossyText
import Mxterm.ScheduledTaskJobs
import Mxterm.ShellPrograms

/-! The listing of a remote directory (`remote_files.rs`). A shell command prints the entries that three patterns
find, and the answer is parsed into records that hold the path of each entry. -/
namespace Mxterm.RemoteListing

open PathnamePatterns (plainNames dotNames dotDotNames period)
open ScheduledTasks (quotePosixShell)
open ShellPrograms List Utf8 PathnamePatterns Command
open ShellScripts (Bytes bytes)

inductive RemoteFileKind
  | directory
  | file
  | symlink
  | other
  deriving DecidableEq

def RemoteFileKind.rank : RemoteFileKind → ℕ
  | .directory => 0
  | .symlink => 1
  | .file => 2
  | .other => 3

structure RemoteFileEntry where
  name : String
  path : String
  kind : RemoteFileKind
  deriving DecidableEq

/-! ## The commands -/

/-- `build_remote_list_command`, behind the path. -/
def listCommandTail : String :=
  "; " ++
  "if [ ! -d \"$dir\" ]; then printf '%s\\n' \"not a directory: $dir\" >&2; exit 2; fi; " ++
  "case \"$dir\" in /) prefix= ;; *) prefix=$dir ;; esac; " ++
  "for entry in \"$prefix\"/* \"$prefix\"/.[!.]* \"$prefix\"/..?*; do " ++
    "[ -e \"$entry\" ] || [ -L \"$entry\" ] || continue; " ++
    "name=$\x7bentry##*/\x7d; " ++
    "if [ -L \"$entry\" ]; then kind=l; " ++
    "elif [ -d \"$entry\" ]; then kind=d; " ++
    "elif [ -f \"$entry\" ]; then kind=f; " ++
    "else kind=o; fi; " ++
    "printf '%s\\000%s\\000%s\\000' \"$kind\" \"$entry\" \"$name\"; " ++
  "done"

def buildRemoteListCommand (path : String) : String := "dir=" ++ quotePosixShell path ++ listCommandTail

/-- `build_remote_path_check_command`, behind the path. -/
def pathCheckCommandTail : String :=
  "; " ++
  "exists=0; kind=; " ++
  "if [ -L \"$path\" ]; then exists=1; kind=l; " ++
  "elif [ -d \"$path\" ]; then exists=1; kind=d; " ++
  "elif [ -f \"$path\" ]; then exists=1; kind=f; " ++
  "elif [ -e \"$path\" ]; then exists=1; kind=o; fi; " ++
  "printf '%s\\000%s\\000%s\\000' \"$exists\" \"$path\" \"$kind\""

def buildRemotePathCheckCommand (path : String) : String := "path=" ++ quotePosixShell path ++ pathCheckCommandTail

/-- The round of the loop for one file. -/
def listBody : Command :=
  .seq (.orElse (.orElse (.test ⟨false,.present,"entry".toList⟩) (.test ⟨false,.link,"entry".toList⟩)) .next) <|
  .seq (.assign "name".toList (.baseName "entry".toList)) <|
  .seq (.choose ⟨false,.link,"entry".toList⟩ (.assign "kind".toList (.plain ['l'])) <|
    .elif ⟨false,.directory,"entry".toList⟩ (.assign "kind".toList (.plain ['d'])) <|
    .elif ⟨false,.regular,"entry".toList⟩ (.assign "kind".toList (.plain ['f'])) <|
    .last (.assign "kind".toList (.plain ['o'])))
  (.print ["kind".toList,"entry".toList,"name".toList])

def listRest : Command :=
  .seq (.choose ⟨true,.directory,"dir".toList⟩
    (.seq (.complain "not a directory: ".toList "dir".toList) (.exit 2)) .done) <|
  .seq (.case "dir".toList ['/'] (.assign "prefix".toList (.plain []))
    (.assign "prefix".toList (.param "dir".toList))) <|
  .each "entry".toList "prefix".toList [plainNames,dotNames,dotDotNames] listBody

def listProgram (path : String) : Command := .seq (.assign "dir".toList (.single path.toList)) listRest

def checkFound (letter : Char) : Command :=
  .seq (.assign "exists".toList (.plain ['1'])) (.assign "kind".toList (.plain [letter]))

def checkRest : Command :=
  .seq (.assign "exists".toList (.plain ['0'])) <|
  .seq (.assign "kind".toList (.plain [])) <|
  .seq (.choose ⟨false,.link,"path".toList⟩ (checkFound 'l') <|
    .elif ⟨false,.directory,"path".toList⟩ (checkFound 'd') <|
    .elif ⟨false,.regular,"path".toList⟩ (checkFound 'f') <|
    .elif ⟨false,.present,"path".toList⟩ (checkFound 'o') .done)
  (.print ["exists".toList,"path".toList,"kind".toList])

def checkProgram (path : String) : Command := .seq (.assign "path".toList (.single path.toList)) checkRest

theorem listRest_text : "; ".toList ++ listRest.text = listCommandTail.toList := by
  unfold listCommandTail
  simp only [String.toList_append]
  decide +kernel

theorem checkRest_text : "; ".toList ++ checkRest.text = pathCheckCommandTail.toList := by
  unfold pathCheckCommandTail
  simp only [String.toList_append]
  decide +kernel

/-- The programs are the commands as they are written. -/
theorem listProgram_text (path : String) : (listProgram path).text = (buildRemoteListCommand path).toList := by
  have hprogram : (listProgram path).text = "dir".toList ++ ['='] ++ (Value.single path.toList).text ++
      ("; ".toList ++ listRest.text) := by
    rw [listProgram,text_seq,text_assign,append_assoc _ "; ".toList]
  rw [hprogram,listRest_text,buildRemoteListCommand,String.toList_append,String.toList_append,
    ScheduledTasks.toList_quotePosixShell]
  congr 1

theorem checkProgram_text (path : String) : (checkProgram path).text = (buildRemotePathCheckCommand path).toList := by
  have hprogram : (checkProgram path).text = "path".toList ++ ['='] ++ (Value.single path.toList).text ++
      ("; ".toList ++ checkRest.text) := by
    rw [checkProgram,text_seq,text_assign,append_assoc _ "; ".toList]
  rw [hprogram,checkRest_text,buildRemotePathCheckCommand,String.toList_append,String.toList_append,
    ScheduledTasks.toList_quotePosixShell]
  congr 1

/-! ## Parsing -/

def findKind : Option UInt8 → RemoteFileKind
  | some 100 => .directory
  | some 102 => .file
  | some 108 => .symlink
  | _ => .other

/-- Texts are compared character by character. -/
def compareRemoteEntries (toLowercase : String → String) (left right : RemoteFileEntry) : Ordering :=
  (compare left.kind.rank right.kind.rank).then
    ((compare (toLowercase left.name) (toLowercase right.name)).then (compare left.name right.name))

/-- A record for each three fields. A shorter rest is left out. -/
def toEntries : List Bytes → List RemoteFileEntry
  | kind :: path :: name :: more =>
    ⟨decodeLossy name,decodeLossy path,findKind kind.head?⟩ :: toEntries more
  | _ => []

def parseRemoteListOutput (toLowercase : String → String) (output : Bytes) : List RemoteFileEntry :=
  (toEntries ((output.splitOn 0).filter (· ≠ []))).mergeSort fun left right =>
    compareRemoteEntries toLowercase left right != .gt

structure RemoteFilePathCheckResult where
  «exists» : Bool
  path : String
  kind : Option RemoteFileKind
  deriving DecidableEq

def parseRemotePathCheckOutput (output : Bytes) : Option RemoteFilePathCheckResult :=
  match output.splitOn 0 with
  | present :: path :: more =>
    let present := Text.trim (decodeLossy present) == "1"
    some ⟨present,decodeLossy path,
      if present then (more.head?.bind List.head?).map fun letter => findKind (some letter) else none⟩
  | _ => none

/-! ## Directories -/

structure IsEntryName (name : Bytes) : Prop where
  ne_nil : name ≠ []
  zero : 0 ∉ name
  slash : slash ∉ name
  itself : name ≠ [period]
  parent : name ≠ [period,period]

/-- What stands before the slash in the path of an entry. -/
def folder (path : String) : Bytes := if path = "/" then [] else bytes path.toList

def entryPath (path : String) (name : Bytes) : Bytes := folder path ++ slash :: name

/-- A directory that the user can read and search, with the entries in it. -/
structure Directory (host : Host) where
  path : String
  entries : List (Bytes × Node)
  path_zero : 0 ∉ bytes path.toList
  names_nodup : (entries.map Prod.fst).Nodup
  isEntryName : ∀ entry ∈ entries, IsEntryName entry.1
  isDirectory : (host.node (bytes path.toList)).bind Node.followed = some .directory
  listed : (host.names (folder path ++ [slash])).Perm ([period] :: [period,period] :: entries.map Prod.fst)
  node_entry : ∀ entry ∈ entries, host.node (entryPath path entry.1) = some entry.2
  node_missing : ∀ name, IsEntryName name → name ∉ entries.map Prod.fst → host.node (entryPath path name) = none

def kindOf : Node → RemoteFileKind
  | .link _ => .symlink
  | .plain .directory => .directory
  | .plain .regular => .file
  | .plain .other => .other

def letterOf : Node → UInt8
  | .link _ => 108
  | .plain .directory => 100
  | .plain .regular => 102
  | .plain .other => 111

theorem findKind_letterOf (node : Node) : findKind (some (letterOf node)) = kindOf node := by
  cases node with
  | link target => rfl
  | plain kind => cases kind <;> rfl

theorem letterOf_ne_zero (node : Node) : letterOf node ≠ 0 := by
  cases node with
  | link target => exact (by decide : (108 : UInt8) ≠ 0)
  | plain kind => cases kind <;> simp [letterOf]

section
variable {host : Host} (dir : Directory host)

/-- What is printed for an entry. -/
def entryRecord (entry : Bytes × Node) : Bytes := record [[letterOf entry.2],entryPath dir.path entry.1,entry.1]

/-- A path that a shell, given it in a command, reads as one word, which is the path of the entry. -/
def Addresses (path : String) (entry : Bytes × Node) : Prop :=
  ∃ word, ShellWords.split (quotePosixShell path).toList = some [word] ∧
    bytes (ShellWords.value word) = entryPath dir.path entry.1 ∧
      host.node (bytes (ShellWords.value word)) = some entry.2

/-- What the round of the loop prints for a file. -/
def printedFor (host : Host) (file : Bytes) : Bytes :=
  match host.node file with
  | none => []
  | some node => record [[letterOf node],file,file.rtakeWhile (· ≠ slash)]

theorem guard_run (host : Host) (name : Name) (s : State) :
    run host (.orElse (.orElse (.test ⟨false,.present,name⟩) (.test ⟨false,.link,name⟩)) .next) s =
      ({ s with status := 0 },if (host.node (s.vars name)).isSome then .on else .next) := by
  cases hnode : host.node (s.vars name) with
  | none => simp [Test.holds,Operator.holds,hnode]
  | some node =>
    cases node with
    | plain kind => simp [Test.holds,Operator.holds,hnode,Node.followed]
    | link target => cases target <;> simp [Test.holds,Operator.holds,hnode,Node.followed]

theorem kind_run (name kind : Name) (s : State) {node : Node} (h : host.node (s.vars name) = some node) :
    run host (.choose ⟨false,.link,name⟩ (.assign kind (.plain ['l'])) <|
      .elif ⟨false,.directory,name⟩ (.assign kind (.plain ['d'])) <|
      .elif ⟨false,.regular,name⟩ (.assign kind (.plain ['f'])) <|
      .last (.assign kind (.plain ['o']))) s = (s.assign kind [letterOf node],.on) := by
  cases node with
  | link target => simp [Test.holds,Operator.holds,h,letterOf]; rfl
  | plain p =>
    cases p <;> simp [Test.holds,Operator.holds,h,Node.followed,letterOf] <;> rfl

theorem listBody_run (host : Host) (s : State) (file : Bytes) :
    ∃ s' flow, listBody.run host (s.assign "entry".toList file) = (s',flow) ∧ flow ≠ .left ∧
      s'.output = s.output ++ printedFor host file ∧ s'.status = 0 := by
  have hname : "entry".toList ≠ "name".toList := by decide
  have hkind : "entry".toList ≠ "kind".toList := by decide
  have hother : "name".toList ≠ "kind".toList := by decide
  unfold listBody printedFor
  have hguard := guard_run host "entry".toList (s.assign "entry".toList file)
  rw [State.assign_same] at hguard
  cases hnode : host.node file with
  | none =>
    rw [hnode] at hguard
    exact ⟨_,_,run_seq_stops hguard (by simp),by simp,by simp,rfl⟩
  | some node =>
    rw [hnode] at hguard
    rw [run_seq_on hguard]
    have hfile : (s.assign "entry".toList file).vars "entry".toList = file := s.assign_same _ _
    set t := (s.assign "entry".toList file).assign "name".toList (file.rtakeWhile (· ≠ slash)) with ht
    have hassign : run host (.assign "name".toList (.baseName "entry".toList))
        { s.assign "entry".toList file with status := 0 } = (t,.on) := by
      rfl
    have hentry : t.vars "entry".toList = file := by rw [State.assign_other _ hname,hfile]
    rw [run_seq_on hassign,run_seq_on (kind_run _ _ t (by rw [hentry,hnode]))]
    refine ⟨_,_,rfl,by simp,?_,rfl⟩
    rfl

theorem files_patterns (front : Bytes) (patterns : List PathnamePatterns.Pattern) :
    (files host front patterns).flatMap (printedFor host) =
      ((patterns.flatMap (expand (host.names (front ++ [slash])))).filter fun name =>
        (host.node (front ++ slash :: name)).isSome).flatMap fun name => printedFor host (front ++ slash :: name) := by
  have hnone (l : List Bytes) : (l.map (front ++ slash :: ·)).flatMap (printedFor host) =
      (l.filter fun name => (host.node (front ++ slash :: name)).isSome).flatMap fun name =>
        printedFor host (front ++ slash :: name) := by
    induction l with
    | nil => rfl
    | cons name l ih =>
      rw [map_cons,flatMap_cons,ih]
      cases hnode : host.node (front ++ slash :: name) with
      | none => simp [hnode,printedFor]
      | some node => simp [hnode]
  rw [← hnone,files,map_flatMap]

theorem listProgram_run :
    ∃ s, (listProgram dir.path).run host start = (s,.on) ∧ s.status = 0 ∧
      s.output = (files host (folder dir.path) [plainNames,dotNames,dotDotNames]).flatMap (printedFor host) := by
  set first := start.assign "dir".toList (bytes dir.path.toList) with hfirst
  have hloop := loop_prints (fun s file (_ : State.status s = 0) => listBody_run host s file)
    (files host (folder dir.path) [plainNames,dotNames,dotDotNames])
    (s := { first.assign "prefix".toList (folder dir.path) with status := 0 }) (show State.status _ = 0 from rfl)
  obtain ⟨s,hloop,houtput,hstatus⟩ := hloop
  refine ⟨s,?_,hstatus,houtput⟩
  have hdir : first.vars "dir".toList = bytes dir.path.toList := State.assign_same _ _ _
  have htest : run host (.choose ⟨true,.directory,"dir".toList⟩
      (.seq (.complain "not a directory: ".toList "dir".toList) (.exit 2)) .done)
      first = (first,.on) := by
    have hholds : Test.holds host first
        ⟨true,.directory,"dir".toList⟩ = false := by
      rw [Test.holds,Operator.holds,hdir,dir.isDirectory]
      rfl
    rw [run,hholds]
    rfl
  have hcase : run host (.case "dir".toList ['/'] (.assign "prefix".toList (.plain []))
      (.assign "prefix".toList (.param "dir".toList))) first =
      (first.assign "prefix".toList (folder dir.path),.on) := by
    have hroot : bytes dir.path.toList = bytes ['/'] ↔ dir.path = "/" :=
      ⟨fun h => String.toList_injective (ShellScripts.bytes_injective h),fun h => by rw [h]; rfl⟩
    by_cases h : dir.path = "/"
    · rw [run,if_pos (hdir.trans (hroot.mpr h)),folder,if_pos h]
      rfl
    · rw [run,if_neg fun heq => h (hroot.mp (hdir.symm.trans heq)),folder,if_neg h,run,Value.bytes,
        hdir]
  rw [listProgram,run_seq_on (t := first) rfl,listRest,run_seq_on htest,
    run_seq_on hcase]
  exact hloop

/-- The files that are there, of those the three patterns become, are the entries. -/
theorem present_perm :
    (([plainNames,dotNames,dotDotNames].flatMap
      (expand (host.names (folder dir.path ++ [slash])))).filter fun name =>
        (host.node (entryPath dir.path name)).isSome).Perm (dir.entries.map Prod.fst) := by
  have hpattern {pattern : PathnamePatterns.Pattern}
      (hfits : fits pattern (text pattern))
      (hname : IsEntryName (text pattern)) :
      (expand (host.names (folder dir.path ++ [slash])) pattern).filter (fun name =>
        (host.node (entryPath dir.path name)).isSome) =
      ((host.names (folder dir.path ++ [slash])).filter (fits pattern)).filter fun name =>
        (host.node (entryPath dir.path name)).isSome := by
    refine filter_expand hfits fun hpresent => ?_
    by_contra hno
    have hmem : text pattern ∉ dir.entries.map Prod.fst := fun h =>
      hno (dir.listed.mem_iff.mpr (mem_cons_of_mem _ (mem_cons_of_mem _ h)))
    rw [dir.node_missing _ hname hmem] at hpresent
    cases hpresent
  rw [flatMap_cons,flatMap_cons,flatMap_cons,flatMap_nil,append_nil,filter_append,
    filter_append,hpattern (by decide) ⟨by decide,by decide,by decide,by decide,by decide⟩,
    hpattern (by decide) ⟨by decide,by decide,by decide,by decide,by decide⟩,
    hpattern (by decide) ⟨by decide,by decide,by decide,by decide,by decide⟩,← filter_append,← filter_append]
  refine ((filter_patterns _).filter _).trans ?_
  refine ((dir.listed.filter _).filter _).trans (List.Perm.of_eq ?_)
  have hall : ∀ name ∈ dir.entries.map Prod.fst, (name != [period] && name != [period,period]) = true ∧
      (host.node (entryPath dir.path name)).isSome = true := by
    intro name hname
    obtain ⟨entry,hentry,rfl⟩ := mem_map.mp hname
    have hok := dir.isEntryName entry hentry
    exact ⟨by simp [hok.itself,hok.parent],by rw [dir.node_entry entry hentry]; rfl⟩
  rw [filter_cons_of_neg (by simp),filter_cons_of_neg (by simp),
    filter_eq_self.mpr fun name h => (hall name h).1,filter_eq_self.mpr fun name h => (hall name h).2]

theorem rtakeWhile_entryPath {name : Bytes} (h : IsEntryName name) :
    (entryPath dir.path name).rtakeWhile (· ≠ slash) = name := by
  have hname : name.reverse.takeWhile (fun b => decide (b ≠ slash)) = name.reverse :=
    takeWhile_eq_self_iff.mpr fun b hb => by
      have hne : b ≠ slash := fun heq => h.slash (heq ▸ mem_reverse.mp hb)
      simpa using hne
  rw [List.rtakeWhile,entryPath,reverse_append,reverse_cons,append_assoc,
    takeWhile_append_of_pos (takeWhile_eq_self_iff.mp hname),singleton_append,
    takeWhile_cons_of_neg (by simp),append_nil,reverse_reverse]

/-- What the command prints is a record for each entry, in some order. -/
theorem listProgram_prints : ∃ printed : List (Bytes × Node), printed.Perm dir.entries ∧ ∃ s,
    (listProgram dir.path).run host start = (s,.on) ∧ s.status = 0 ∧ s.output = printed.flatMap (entryRecord dir) := by
  obtain ⟨s,hrun,hstatus,houtput⟩ := listProgram_run dir
  rw [files_patterns] at houtput
  have hperm := present_perm dir
  set found := ([plainNames,dotNames,dotDotNames].flatMap
      (expand (host.names (folder dir.path ++ [slash])))).filter fun name =>
        (host.node (entryPath dir.path name)).isSome with hfound
  let entryOf (name : Bytes) : Bytes × Node := (name,(host.node (entryPath dir.path name)).getD (.plain .other))
  have hentries : (dir.entries.map Prod.fst).map entryOf = dir.entries := by
    rw [map_map]
    conv_rhs => rw [← map_id dir.entries]
    refine map_congr_left fun entry hentry => ?_
    simp [entryOf,dir.node_entry entry hentry]
  refine ⟨found.map entryOf,hentries ▸ hperm.map entryOf,s,hrun,hstatus,?_⟩
  rw [houtput,flatMap_map]
  refine flatMap_congr fun name hname => ?_
  obtain ⟨entry,hentry,rfl⟩ := mem_map.mp (hperm.mem_iff.mp hname)
  have hnode := dir.node_entry entry hentry
  simp only [entryRecord,entryOf,hnode,Option.getD_some]
  change printedFor host (entryPath dir.path entry.1) = _
  rw [printedFor,hnode]
  simp only [rtakeWhile_entryPath dir (dir.isEntryName entry hentry)]

/-! ## What is recovered -/

theorem splitOn_record {values : List Bytes} (h : ∀ value ∈ values, 0 ∉ value) :
    (record values).splitOn 0 = values ++ [[]] := by
  induction values with
  | nil => rfl
  | cons value values ih =>
    obtain ⟨hvalue,hvalues⟩ := forall_mem_cons.mp h
    rw [record,flatMap_cons,append_assoc,singleton_append,
      splitOn_append_cons_self_of_not_mem hvalue]
    exact congrArg (value :: ·) (ih hvalues)

/-- The record that an entry becomes. -/
def toEntry (entry : Bytes × Node) : RemoteFileEntry :=
  ⟨decodeLossy entry.1,decodeLossy (entryPath dir.path entry.1),kindOf entry.2⟩

theorem folder_zero : 0 ∉ folder dir.path := by
  unfold folder
  split
  · simp
  · exact dir.path_zero

theorem toEntries_printed {printed : List (Bytes × Node)} (h : ∀ entry ∈ printed, IsEntryName entry.1) :
    toEntries (((printed.flatMap (entryRecord dir)).splitOn 0).filter (· ≠ [])) = printed.map (toEntry dir) := by
  let values (entry : Bytes × Node) : List Bytes := [[letterOf entry.2],entryPath dir.path entry.1,entry.1]
  have hrecord : printed.flatMap (entryRecord dir) = record (printed.flatMap values) := by
    rw [record,flatMap_assoc]
    rfl
  have hvalues : ∀ value ∈ printed.flatMap values, value ≠ [] ∧ 0 ∉ value := by
    intro value hvalue
    obtain ⟨entry,hentry,hmem⟩ := mem_flatMap.mp hvalue
    have hok := h entry hentry
    rcases mem_cons.mp hmem with rfl | hmem
    · exact ⟨by simp,by simpa using (letterOf_ne_zero entry.2).symm⟩
    rcases mem_cons.mp hmem with rfl | hmem
    · have hslash : (0 : UInt8) ≠ slash := by decide
      exact ⟨by simp [entryPath],by simp [entryPath,folder_zero dir,hok.zero,hslash]⟩
    · rw [mem_singleton.mp hmem]
      exact ⟨hok.ne_nil,hok.zero⟩
  rw [hrecord,splitOn_record fun value h => (hvalues value h).2,filter_append,
    filter_eq_self.mpr fun value h => by simpa using (hvalues value h).1]
  clear h hrecord hvalues
  induction printed with
  | nil => rfl
  | cons entry printed ih =>
    rw [map_cons,← ih]
    simp [values,toEntries,toEntry,findKind_letterOf]

theorem split_quote (path : String) :
    ShellWords.split (quotePosixShell path).toList = some [ShellWords.quoted path.toList] := by
  rw [ScheduledTasks.toList_quotePosixShell]
  simpa using ShellWords.split_words (.cons (ShellWords.isWord_single path.toList) .nil)

/-- A path is the one that is read back when it is quoted. -/
theorem addresses_iff {path : String} {entry : Bytes × Node} (hentry : entry ∈ dir.entries) :
    Addresses dir path entry ↔ encode path = entryPath dir.path entry.1 := by
  have hvalue : bytes (ShellWords.value (ShellWords.quoted path.toList)) = encode path := by
    rw [ShellWords.value_quoted,bytes,String.ofList_toList]
  constructor
  · intro h
    obtain ⟨word,hword,hbytes,-⟩ := h
    rw [split_quote] at hword
    cases hword
    exact hvalue.symm.trans hbytes
  · intro h
    exact ⟨_,split_quote path,hvalue.trans h,by rw [hvalue,h,dir.node_entry entry hentry]⟩

theorem entryPath_eq : ∃ front : String, ∀ name, entryPath dir.path name = encode front ++ name := by
  refine ⟨(if dir.path = "/" then "" else dir.path) ++ "/",fun name => ?_⟩
  rw [encode_append,append_assoc,entryPath,folder]
  by_cases h : dir.path = "/"
  · rw [if_pos h,if_pos h]
    rfl
  · rw [if_neg h,if_neg h,bytes,String.ofList_toList]
    rfl

/-- The recovered path is that of the entry when its name is a text, and no text is when it is not. -/
theorem encode_entryPath_iff (name : Bytes) :
    (∃ path, encode path = entryPath dir.path name) ↔ (decode? name).isSome := by
  obtain ⟨front,hfront⟩ := entryPath_eq dir
  rw [hfront]
  constructor
  · intro h
    obtain ⟨path,hpath⟩ := h
    have hdecode := decodeLossy_encode_append front name
    rw [← hpath,decodeLossy_encode] at hdecode
    rw [hdecode,encode_append] at hpath
    rw [← append_cancel_left hpath,decode?_encode]
    rfl
  · intro h
    obtain ⟨text,htext⟩ := Option.isSome_iff_exists.mp h
    exact ⟨front ++ text,by rw [encode_append,encode_of_decode? htext]⟩

theorem encode_decodeLossy {bytes : Bytes} {text : String} (h : encode text = bytes) :
    encode (decodeLossy bytes) = bytes := by
  rw [← h,decodeLossy_encode]

/-- A listing that is complete and exact: what is printed is a record for each entry, and what is recovered from it
is one record for each entry, with its kind and with a path that addresses it. -/
structure Exact (toLowercase : String → String) : Prop where
  prints : ∃ printed : List (Bytes × Node), printed.Perm dir.entries ∧ ∃ s,
    (listProgram dir.path).run host start = (s,.on) ∧ s.status = 0 ∧ s.output = printed.flatMap (entryRecord dir)
  recovers : ∃ entries : List (Bytes × Node), entries.Perm dir.entries ∧
    List.Forall₂ (fun recovered entry => recovered.kind = kindOf entry.2 ∧ Addresses dir recovered.path entry)
      (parseRemoteListOutput toLowercase ((listProgram dir.path).run host start).1.output) entries

theorem parsed_perm (toLowercase : String → String) :
    (parseRemoteListOutput toLowercase ((listProgram dir.path).run host start).1.output).Perm
      (dir.entries.map (toEntry dir)) := by
  obtain ⟨printed,hperm,s,hrun,-,houtput⟩ := listProgram_prints dir
  rw [hrun,houtput,parseRemoteListOutput,
    toEntries_printed dir fun entry hentry => dir.isEntryName entry (hperm.mem_iff.mp hentry)]
  exact (mergeSort_perm _ _).trans (hperm.map _)

variable {toLowercase : String → String}

theorem exact_of_texts (h : ∀ entry ∈ dir.entries, (decode? entry.1).isSome) : Exact dir toLowercase := by
  refine ⟨listProgram_prints dir,?_⟩
  have hentries : List.Forall₂ (fun recovered entry => recovered.kind = kindOf entry.2 ∧
      Addresses dir recovered.path entry) (dir.entries.map (toEntry dir)) dir.entries := by
    rw [forall₂_map_left_iff,forall₂_same]
    intro entry hentry
    obtain ⟨path,hpath⟩ := (encode_entryPath_iff dir entry.1).mpr (h entry hentry)
    exact ⟨rfl,(addresses_iff dir hentry).mpr (encode_decodeLossy hpath)⟩
  obtain ⟨entries,hall,hperm⟩ := perm_comp_forall₂ (parsed_perm dir toLowercase) hentries
  exact ⟨entries,hperm,hall⟩

theorem texts_of_exact (h : Exact dir toLowercase) {entry : Bytes × Node} (hentry : entry ∈ dir.entries) :
    (decode? entry.1).isSome := by
  obtain ⟨entries,hperm,hall⟩ := h.recovers
  obtain ⟨i,hi,hget⟩ := mem_iff_getElem.mp (hperm.mem_iff.mpr hentry)
  have hi' := hall.length_eq ▸ hi
  have haddress := (hall.get hi' hi).2
  simp only [get_eq_getElem,hget] at haddress
  exact (encode_entryPath_iff dir entry.1).mp ⟨_,(addresses_iff dir hentry).mp haddress⟩

theorem listing_exact_iff (toLowercase : String → String) :
    Exact dir toLowercase ↔ ∀ entry ∈ dir.entries, (decode? entry.1).isSome :=
  ⟨fun h _ hentry => texts_of_exact dir h hentry,exact_of_texts dir⟩

/-! ## A recovered path in the next command -/

/-- The values that the check prints for a path. -/
def checkValues (path : String) : Option Node → List Bytes
  | none => [bytes ['0'],encode path,[]]
  | some node => [bytes ['1'],encode path,[letterOf node]]

theorem checkFound_run (letter : Char) (s : State) :
    (checkFound letter).run host s =
      ((s.assign "exists".toList (bytes ['1'])).assign "kind".toList (bytes [letter]),.on) := rfl

theorem choice_run (host : Host) (name : Name) (s : State) :
    run host (.choose ⟨false,.link,name⟩ (checkFound 'l') <|
      .elif ⟨false,.directory,name⟩ (checkFound 'd') <|
      .elif ⟨false,.regular,name⟩ (checkFound 'f') <|
      .elif ⟨false,.present,name⟩ (checkFound 'o') .done) s =
    match host.node (s.vars name) with
      | none => ({ s with status := 0 },.on)
      | some node => ((s.assign "exists".toList (bytes ['1'])).assign "kind".toList [letterOf node],.on) := by
  cases hnode : host.node (s.vars name) with
  | none => simp [Test.holds,Operator.holds,hnode]
  | some node =>
    cases node with
    | link target =>
      simp only [run,Test.holds,Operator.holds,hnode,checkFound_run]
      rfl
    | plain kind =>
      simp only [run,Branches.run,Test.holds,Operator.holds,hnode,checkFound_run]
      cases kind <;> rfl

theorem checkProgram_run (path : String) :
    ((checkProgram path).run host start).1.output = record (checkValues path (host.node (encode path))) := by
  have hkind : "path".toList ≠ "kind".toList := by decide
  have hexists : "path".toList ≠ "exists".toList := by decide
  have hother : "exists".toList ≠ "kind".toList := by decide
  set first := start.assign "path".toList (encode path) with hfirst
  set s := (first.assign "exists".toList (bytes ['0'])).assign "kind".toList [] with hs
  have hpath : s.vars "path".toList = encode path := by
    rw [State.assign_other _ hkind,State.assign_other _ hexists,State.assign_same]
  have hassign : run host (.assign "path".toList (.single path.toList)) start = (first,.on) := by
    rw [run,Value.bytes,bytes,String.ofList_toList]
  have hchoice := choice_run host "path".toList s
  rw [hpath] at hchoice
  rw [checkProgram,run_seq_on hassign,checkRest,run_seq_on (t := first.assign "exists".toList (bytes ['0'])) rfl,
    run_seq_on (t := s) rfl]
  cases hnode : host.node (encode path) with
  | none =>
    rw [hnode] at hchoice
    rw [run_seq_on hchoice]
    rfl
  | some node =>
    rw [hnode] at hchoice
    rw [run_seq_on hchoice]
    rfl

theorem check_answers {path : String} (h : '\x00' ∉ path.toList) :
    parseRemotePathCheckOutput ((checkProgram path).run host start).1.output =
      some ⟨(host.node (encode path)).isSome,path,(host.node (encode path)).map kindOf⟩ := by
  have hpath : 0 ∉ encode path := fun hmem => h ((mem_encode_ascii (by decide)).mp hmem)
  rw [checkProgram_run,parseRemotePathCheckOutput]
  cases host.node (encode path) with
  | none =>
    have hzero : 0 ∉ bytes ['0'] := by decide
    rw [splitOn_record (by simp [checkValues,hpath,hzero])]
    have hpresent : (Text.trim (decodeLossy (bytes ['0'])) == "1") = false := by decide
    simp [checkValues,decodeLossy_encode,hpresent]
  | some node =>
    have hone : 0 ∉ bytes ['1'] := by decide
    rw [splitOn_record (by simp [checkValues,hpath,hone,(letterOf_ne_zero node).symm])]
    have hpresent : (Text.trim (decodeLossy (bytes ['1'])) == "1") = true := by decide
    simp [checkValues,decodeLossy_encode,hpresent,findKind_letterOf]

/-- Every path that is recovered from what the list command prints is found by the check command for it, with the kind
that the listing has. -/
theorem recovered_checked (h : ∀ entry ∈ dir.entries, (decode? entry.1).isSome) {recovered : RemoteFileEntry}
    (hmem : recovered ∈ parseRemoteListOutput toLowercase ((listProgram dir.path).run host start).1.output) :
    (listProgram dir.path).text = (buildRemoteListCommand dir.path).toList ∧
      (checkProgram recovered.path).text = (buildRemotePathCheckCommand recovered.path).toList ∧
      parseRemotePathCheckOutput ((checkProgram recovered.path).run host start).1.output =
        some ⟨true,recovered.path,some recovered.kind⟩ := by
  refine ⟨listProgram_text dir.path,checkProgram_text recovered.path,?_⟩
  obtain ⟨entry,hentry,rfl⟩ := mem_map.mp ((parsed_perm dir toLowercase).mem_iff.mp hmem)
  obtain ⟨path,hpath⟩ := (encode_entryPath_iff dir entry.1).mpr (h entry hentry)
  have hencode : encode (toEntry dir entry).path = entryPath dir.path entry.1 := encode_decodeLossy hpath
  have hzero : '\x00' ∉ (toEntry dir entry).path.toList := fun hc => by
    have hbyte := (mem_encode_ascii (by decide)).mpr hc
    rw [hencode] at hbyte
    have hslash : (0 : UInt8) ≠ slash := by decide
    rcases mem_append.mp hbyte with hfront | hname
    · exact folder_zero dir hfront
    · exact (mem_cons.mp hname).elim hslash (dir.isEntryName entry hentry).zero
  rw [check_answers hzero,hencode,dir.node_entry entry hentry]
  rfl

end

/-- A directory with one file, named `a`. -/
def plainHost : Host where
  node path := if path = bytes "/d/".toList ++ [97] then some (.plain .regular) else
    if path = bytes "/d".toList then some (.plain .directory) else none
  names path := if path = bytes "/d/".toList then [[period],[period,period],[97]] else []

def plainDirectory : Directory plainHost where
  path := "/d"
  entries := [([97],.plain .regular)]
  path_zero := by decide
  names_nodup := by decide
  isEntryName entry hentry := by
    rw [mem_singleton.mp hentry]
    exact ⟨by decide,by decide,by decide,by decide,by decide⟩
  isDirectory := by decide
  listed := by decide
  node_entry entry hentry := by
    rw [mem_singleton.mp hentry]
    decide
  node_missing name _ hmem := by
    have hfile : bytes "/d/".toList ++ name ≠ bytes "/d/".toList ++ [97] := fun h =>
      hmem (by simp [append_cancel_left h])
    have hdir : bytes "/d/".toList ++ name ≠ bytes "/d".toList := fun h => by
      have hlength : 3 + name.length = 2 := length_append.symm.trans (congrArg List.length h)
      omega
    exact (if_neg hfile).trans (if_neg hdir)

/-- The entry of its file. -/
def plainEntry : RemoteFileEntry := toEntry plainDirectory ([97],.plain .regular)

theorem recovered_checked_plain :
    parseRemotePathCheckOutput ((checkProgram plainEntry.path).run plainHost start).1.output =
      some ⟨true,plainEntry.path,some .file⟩ :=
  have hmem := (parsed_perm plainDirectory id).mem_iff.mpr (mem_map_of_mem (mem_singleton_self _))
  (recovered_checked plainDirectory (by decide) hmem).2.2

/-! ## A name that is no text -/

/-- The name `a` with the byte `0xFF` behind it. -/
def strayName : Bytes := [97,255]

def strayNode (path : Bytes) : Option Node :=
  if path = bytes "/d".toList then some (.plain .directory)
  else if path = bytes "/d/".toList ++ strayName then some (.plain .regular) else none

def strayHost : Host where
  node := strayNode
  names path := if path = bytes "/d/".toList then [[period],[period,period],strayName] else []

def strayDirectory : Directory strayHost where
  path := "/d"
  entries := [(strayName,.plain .regular)]
  path_zero := by decide
  names_nodup := by decide
  isEntryName entry hentry := by
    rw [mem_singleton.mp hentry]
    exact ⟨by decide,by decide,by decide,by decide,by decide⟩
  isDirectory := by decide
  listed := by decide
  node_entry entry hentry := by
    rw [mem_singleton.mp hentry]
    decide
  node_missing name hname hmem := by
    have hne : name ≠ strayName := fun h => hmem (by simp [h])
    have hdir : bytes "/d/".toList ++ name ≠ bytes "/d".toList := fun h => by
      have hlength := congrArg List.length h
      have hthree : (bytes "/d/".toList).length = 3 := by decide
      have htwo : (bytes "/d".toList).length = 2 := by decide
      rw [length_append,hthree,htwo] at hlength
      omega
    have hsame : bytes "/d/".toList ++ name ≠ bytes "/d/".toList ++ strayName := fun h =>
      hne (append_cancel_left h)
    change strayNode (bytes "/d/".toList ++ name) = none
    rw [strayNode,if_neg hdir,if_neg hsame]

theorem stray_name_is_lost : ¬ ∃ toLowercase, Exact strayDirectory toLowercase := fun ⟨_,h⟩ => by
  have htext := texts_of_exact strayDirectory h (mem_singleton_self _)
  exact absurd htext (by decide)

end Mxterm.RemoteListing
