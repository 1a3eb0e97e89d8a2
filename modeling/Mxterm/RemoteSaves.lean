import Mxterm.RemoteCommands
import Mxterm.Transitions

/-! A file of a remote host that is saved by a script with the content on its standard input: the file manager, which
sends the script a second time over a new session when the first attempt fails, and the shells that execute it. -/
namespace Mxterm.RemoteSaves

open RemoteCommands Transitions List

/-! ## The script -/

/-- `${path##*/}` -/
def base (path : String) : String := String.ofList (path.toList.reverse.takeWhile (· ≠ '/')).reverse

/-- `${path%/*}`, or the working directory for a name without a slash. -/
def dir (path : String) : String :=
  if '/' ∈ path.toList then
    let parent := ((path.toList.reverse.dropWhile (· ≠ '/')).drop 1).reverse
    if parent = [] then "/" else String.ofList parent
  else "."

def mark (path : String) (suffix : ℕ) : String :=
  dir path ++ "/." ++ base path ++ ".mxterm." ++ toString suffix ++ "."

/-- The temporary file of the shell with this process id. -/
def temporary (path : String) (suffix pid : ℕ) : String := mark path suffix ++ toString pid

theorem temporary_injective (path : String) (suffix : ℕ) {pid other : ℕ}
    (h : temporary path suffix pid = temporary path suffix other) : pid = other := by
  have hlist := congrArg String.toList h
  rw [temporary,temporary,String.toList_append,String.toList_append] at hlist
  have hdigits := append_cancel_left hlist
  change pid.repr.toList = other.repr.toList at hdigits
  rw [Nat.toList_repr,Nat.toList_repr] at hdigits
  have hvalue := congrArg (fun digits => Nat.ofDigitChars 10 digits 0) hdigits
  simpa only [Nat.ofDigitChars_toDigits (Nat.lt_of_sub_eq_succ rfl) (Nat.le_refl 10)] using hvalue

theorem length_le_dir (path : String) : path.length ≤ (dir path).length + 1 + (base path).length := by
  have hsplit := congrArg List.length
    (takeWhile_append_dropWhile (p := fun c : Char => decide (c ≠ '/')) (l := path.toList.reverse))
  rw [length_append,length_reverse,String.length_toList] at hsplit
  have hbase : (base path).length = (path.toList.reverse.takeWhile (· ≠ '/')).length := by
    rw [base,String.length_ofList,length_reverse]
  unfold dir
  by_cases hslash : '/' ∈ path.toList
  · simp only [if_pos hslash]
    split
    · rename_i hroot
      have hnone := congrArg List.length hroot
      rw [length_reverse,length_drop,length_nil] at hnone
      omega
    · rw [String.length_ofList,length_reverse,length_drop]
      omega
  · have hall : path.toList.reverse.dropWhile (fun c => decide (c ≠ '/')) = [] := by
      rw [dropWhile_eq_nil_iff]
      intro c hc
      rw [decide_eq_true_eq]
      rintro rfl
      exact hslash (mem_reverse.mp hc)
    rw [hall,length_nil] at hsplit
    omega

theorem temporary_ne (path : String) (suffix pid : ℕ) : temporary path suffix pid ≠ path := by
  intro h
  have hlength := congrArg String.length h
  have hpath := length_le_dir path
  simp only [temporary,mark,String.length_append] at hlength
  have hliteral : "/.".length = 2 := rfl
  omega

/-- Where the shell is in its script. What stands between the end of the input and `mv` only sets the mode of the
temporary. -/
inductive Process
  | absent
  | starting (pid : ℕ)
  | copying (pid received : ℕ)
  | moving (pid received : ℕ)
  | moved (pid : ℕ)
  | exited (status : Option ℕ)
  deriving DecidableEq

def Process.pid : Process → Option ℕ
  | .starting pid | .copying pid _ | .moving pid _ | .moved pid => some pid
  | .absent | .exited _ => none

/-! ## Requests and attempts -/

inductive Kind
  | writeFile (expectedMtime expectedSize : ℕ) (overwrite : Bool)
  | uploadFile

/-- A request, with the timestamp that is in its command. -/
structure Request where
  kind : Kind
  path : String
  content : List UInt8
  suffix : ℕ

/-- The error of a script that has not come to its end with status 0. -/
def Request.failure (r : Request) (output : ExecOutput) : AppError :=
  match r.kind with
  | .writeFile _ _ _ => remoteFileCommandError "remote_file_write_failed" "远程文件保存失败。" output
  | .uploadFile => remoteFileCommandError "remote_file_upload_failed" "远程文件上传失败。" output

/-- A request to write looks at the file first. -/
def Request.checked (r : Request) (current : Except AppError RemoteFileMetadata) : Except AppError Unit :=
  match r.kind with
  | .uploadFile => .ok ()
  | .writeFile expectedMtime expectedSize overwrite =>
    match current with
    | .error error => .error error
    | .ok current =>
      if Refused expectedMtime expectedSize overwrite current then
        .error (remoteFileConflict expectedMtime expectedSize current)
      else .ok ()

/-- The attempts at a request; the second one is made over a new session. -/
inductive Try
  | first | second
  deriving DecidableEq

/-- One execution of the script: how much of the content was handed to the channel and how much of it the connection
took, whether the end of the input was sent after it, and whether the connection is lost or the channel given up. -/
structure Attempt where
  requested : Bool
  sent : ℕ
  carried : ℕ
  ended : Bool
  broken : Bool
  process : Process

def Attempt.unborn : Attempt := ⟨false,0,0,false,false,.absent⟩

inductive Client
  | preparing
  | opening (attempt : Try)
  | sending (attempt : Try)
  | waiting (attempt : Try)
  | reconnecting
  | confirming
  | returned (result : Except AppError RemoteFileMetadata)

structure State where
  files : String → Option (List UInt8)
  attempts : Try → Attempt
  client : Client

def State.initial (files : String → Option (List UInt8)) : State := ⟨files,fun _ => .unborn,.preparing⟩

inductive Action
  | prepare (current : Except AppError RemoteFileMetadata) (session : Except AppError Unit)
  | request (k : Try)
  | accepted (k : Try)
  | send (k : Try) (n : ℕ)
  | finishInput (k : Try)
  | fail (k : Try) (error : AppError)
  | reconnect (session : Except AppError Unit)
  | answer (k : Try) (output : ExecOutput)
  | confirm (metadata : Except AppError RemoteFileMetadata)
  | lose (k : Try)
  | start (k : Try) (pid : ℕ)
  | create (k : Try) (ok : Bool)
  | receive (k : Try) (n : ℕ)
  | writeError (k : Try)
  | endOfInput (k : Try)
  | move (k : Try) (ok : Bool)
  | finish (k : Try)
  | trapped (k : Try)
  | killed (k : Try)

namespace State

variable (r : Request)

def setAttempt (s : State) (k : Try) (x : Attempt) : State := { s with attempts := Function.update s.attempts k x }

def setFile (s : State) (path : String) (content : Option (List UInt8)) : State :=
  { s with files := Function.update s.files path content }

/-- `cleanup` -/
def cleanup (s : State) (pid : ℕ) : State := s.setFile (temporary r.path r.suffix pid) none

def setProcess (s : State) (k : Try) (process : Process) : State :=
  s.setAttempt k { s.attempts k with process }

/-! ### The file manager -/

/-- The command fails on the way: its channel is given up, and the first attempt is followed by a second one. -/
def failed (s : State) (k : Try) (error : AppError) : State :=
  { s.setAttempt k { s.attempts k with broken := true } with
    client := if k = .first then .reconnecting else .returned (.error error) }

def clientStep (s : State) : Action → Option State
  | .prepare current session =>
    match s.client with
    | .preparing => some { s with client := match r.checked current,session with
        | .ok _,.ok _ => .opening .first
        | .error error,_ => .returned (.error error)
        | _,.error error => .returned (.error error) }
    | _ => none
  | .request k =>
    match s.client with
    | .opening j => if k = j then some (s.setAttempt k { s.attempts k with requested := true }) else none
    | _ => none
  | .accepted k =>
    match s.client with
    | .opening j => if k = j ∧ (s.attempts k).requested then some { s with client := .sending k } else none
    | _ => none
  | .send k n =>
    match s.client with
    | .sending j =>
      let x := s.attempts k
      if k = j ∧ x.sent + n ≤ r.content.length then
        some (s.setAttempt k { x with
          sent := x.sent + n
          carried := if x.broken then x.carried else x.sent + n })
      else none
    | _ => none
  | .finishInput k =>
    match s.client with
    | .sending j =>
      let x := s.attempts k
      if k = j ∧ x.sent = r.content.length then
        some { s.setAttempt k { x with ended := !x.broken } with client := .waiting k }
      else none
    | _ => none
  | .fail k error =>
    match s.client with
    | .opening j | .sending j => if k = j then some (s.failed k error) else none
    | _ => none
  | .reconnect session =>
    match s.client with
    | .reconnecting => some { s with client := match session with
        | .ok _ => .opening .second
        | .error error => .returned (.error error) }
    | _ => none
  | .answer k output =>
    match s.client with
    | .waiting j =>
      let x := s.attempts k
      -- without a status the channel has come to its end before the script, or the script was killed
      if k = j ∧ (x.process = .exited output.exitStatus ∨ (output.exitStatus = none ∧ x.broken)) then
        some { s with client :=
          if output.exitStatus = some 0 then .confirming else .returned (.error (r.failure output)) }
      else none
    | _ => none
  | .confirm metadata =>
    match s.client with
    | .confirming => some { s with client := .returned metadata }
    | _ => none
  | _ => none

/-! ### The remote host -/

def hostStep (s : State) : Action → Option State
  | .lose k => some (s.setAttempt k { s.attempts k with broken := true })
  | .start k pid =>
    -- no other shell that is alive has the process id
    if (s.attempts k).requested ∧ (s.attempts k).process = .absent ∧ (s.attempts .first).process.pid ≠ some pid ∧
        (s.attempts .second).process.pid ≠ some pid then
      some (s.setProcess k (.starting pid))
    else none
  | .create k ok =>
    match (s.attempts k).process with
    | .starting pid =>
      if ok then some ((s.setFile (temporary r.path r.suffix pid) (some [])).setProcess k (.copying pid 0))
      else some ((s.cleanup r pid).setProcess k (.exited (some 2)))
    | _ => none
  | .receive k n =>
    match (s.attempts k).process with
    | .copying pid received =>
      if received + n ≤ (s.attempts k).carried then
        let tmp := temporary r.path r.suffix pid
        -- what is written to a file that was removed is lost
        some ((s.setFile tmp ((s.files tmp).map (· ++ (r.content.drop received).take n))).setProcess k
          (.copying pid (received + n)))
      else none
    | _ => none
  | .writeError k =>
    match (s.attempts k).process with
    | .copying pid _ => some ((s.cleanup r pid).setProcess k (.exited (some 2)))
    | _ => none
  | .endOfInput k =>
    match (s.attempts k).process with
    | .copying pid received =>
      if ((s.attempts k).ended ∧ received = (s.attempts k).carried) ∨ (s.attempts k).broken then
        some (s.setProcess k (.moving pid received))
      else none
    | _ => none
  | .move k ok =>
    match (s.attempts k).process with
    | .moving pid _ =>
      let tmp := temporary r.path r.suffix pid
      match s.files tmp,ok with
      | some content,true => some (((s.setFile r.path (some content)).setFile tmp none).setProcess k (.moved pid))
      | _,_ => some ((s.cleanup r pid).setProcess k (.exited (some 3)))
    | _ => none
  | .finish k =>
    match (s.attempts k).process with
    | .moved _ => some (s.setProcess k (.exited (some 0)))
    | _ => none
  | .trapped k => (s.attempts k).process.pid.map fun pid => s.cleanup r pid
  | .killed k => (s.attempts k).process.pid.map fun _ => s.setProcess k (.exited none)
  | _ => none

def step (s : State) (a : Action) : Option State := (s.clientStep r a).or (s.hostStep r a)

end State

/-! ## What holds in every run -/

/-- A shell moves its temporary into the place of the file only if it has read the whole content. -/
def Careful (r : Request) (s : State) : Action → Prop
  | .move k _ =>
    match (s.attempts k).process with
    | .moving _ received => r.content.length ≤ received
    | _ => True
  | _ => True

instance (r : Request) (s : State) (a : Action) : Decidable (Careful r s a) := by
  unfold Careful
  split
  · split <;> infer_instance
  · infer_instance

/-- The process that writes a temporary, and how much of the content it has read. -/
def Process.input : Process → Option (ℕ × ℕ)
  | .copying pid received | .moving pid received => some (pid,received)
  | _ => none

/-- The temporary was put into the place of the file. -/
def Process.placed : Process → Bool
  | .moved _ | .exited (some 0) => true
  | _ => false

theorem Process.pid_of_input {process : Process} {pid received : ℕ} (h : process.input = some (pid,received)) :
    process.pid = some pid := by
  cases process <;> simp_all [Process.input,Process.pid]

def Client.succeeded : Client → Bool
  | .confirming | .returned (.ok _) => true
  | _ => false

/-- The file is the old one or the new one, and it is the new one once a script has come to its end; a temporary holds
what its shell has read. -/
structure Sound (r : Request) (old : Option (List UInt8)) (s : State) : Prop where
  target : s.files r.path = old ∨ s.files r.path = some r.content
  apart : ∀ j k pid, (s.attempts j).process.pid = some pid → (s.attempts k).process.pid = some pid → j = k
  temporaries : ∀ k pid received, (s.attempts k).process.input = some (pid,received) →
    s.files (temporary r.path r.suffix pid) = none ∨
      s.files (temporary r.path r.suffix pid) = some (r.content.take received)
  placed : ∀ k, (s.attempts k).process.placed = true → s.files r.path = some r.content
  succeeded : s.client.succeeded = true → s.files r.path = some r.content

theorem sound_initial (r : Request) (files : String → Option (List UInt8)) :
    Sound r (files r.path) (.initial files) := by
  constructor
  case target => exact Or.inl rfl
  all_goals intros; contradiction

section
variable {r : Request} {old : Option (List UInt8)} {s s' : State} {a : Action}

/-! ### The file manager -/

/-- A step of the file manager changes neither the files nor the shells, and a script that it counts as done has come to
its end. -/
structure ClientStep (s s' : State) : Prop where
  files : s'.files = s.files
  process : ∀ k, (s'.attempts k).process = (s.attempts k).process
  succeeded : s'.client.succeeded = true →
    s.client.succeeded = true ∨ ∃ k, (s.attempts k).process = .exited (some 0)

variable {k : Try}

theorem process_setAttempt {x : Attempt} (hx : x.process = (s.attempts k).process) (j : Try) :
    ((s.setAttempt k x).attempts j).process = (s.attempts j).process := by
  change (Function.update s.attempts k x j).process = _
  rw [Function.update_apply]
  split
  · rename_i hj
    rw [hj,hx]
  · rfl

/-- The file manager goes on to a phase in which nothing is counted as done. -/
theorem clientStep_of_attempts (hfiles : s'.files = s.files)
    (hprocess : ∀ k, (s'.attempts k).process = (s.attempts k).process) (hclient : s'.client.succeeded = false) :
    ClientStep s s' :=
  ⟨hfiles,hprocess,fun hsucceeded => absurd hsucceeded (by rw [hclient]; decide)⟩

theorem clientStep_spec (h : s.clientStep r a = some s') : ClientStep s s' := by
  cases a with
  | prepare current session =>
    simp only [State.clientStep] at h
    split at h
    · cases h
      refine clientStep_of_attempts rfl (fun _ => rfl) ?_
      cases r.checked current <;> cases session <;> rfl
    · cases h
  | request k =>
    simp only [State.clientStep] at h
    split at h
    · rename_i hclient
      cases (Option.ite_none_right_eq_some.mp h).2
      refine clientStep_of_attempts rfl (process_setAttempt rfl) ?_
      change s.client.succeeded = false
      rw [hclient]
      rfl
    · cases h
  | accepted k =>
    simp only [State.clientStep] at h
    split at h
    · cases (Option.ite_none_right_eq_some.mp h).2
      exact clientStep_of_attempts rfl (fun _ => rfl) rfl
    · cases h
  | send k n =>
    simp only [State.clientStep] at h
    split at h
    · rename_i hclient
      cases (Option.ite_none_right_eq_some.mp h).2
      refine clientStep_of_attempts rfl (process_setAttempt rfl) ?_
      change s.client.succeeded = false
      rw [hclient]
      rfl
    · cases h
  | finishInput k =>
    simp only [State.clientStep] at h
    split at h
    · cases (Option.ite_none_right_eq_some.mp h).2
      exact clientStep_of_attempts rfl (process_setAttempt rfl) rfl
    · cases h
  | fail k error =>
    simp only [State.clientStep] at h
    split at h
    case h_3 => cases h
    all_goals
      cases (Option.ite_none_right_eq_some.mp h).2
      refine clientStep_of_attempts rfl (process_setAttempt rfl) ?_
      cases k <;> rfl
  | reconnect session =>
    simp only [State.clientStep] at h
    split at h
    · cases h
      refine clientStep_of_attempts rfl (fun _ => rfl) ?_
      cases session <;> rfl
    · cases h
  | answer k output =>
    simp only [State.clientStep] at h
    split at h
    · obtain ⟨⟨-,hexited⟩,heq⟩ := Option.ite_none_right_eq_some.mp h
      cases heq
      constructor
      · rfl
      · exact fun _ => rfl
      · intro hsucceeded
        by_cases hstatus : output.exitStatus = some 0
        · right
          rw [hstatus] at hexited
          exact ⟨k,hexited.resolve_right fun hnone => nomatch hnone.1⟩
        · simp only [if_neg hstatus] at hsucceeded
          cases hsucceeded
    · cases h
  | confirm metadata =>
    simp only [State.clientStep] at h
    split at h
    · rename_i hclient
      cases h
      exact ⟨rfl,fun _ => rfl,fun _ => Or.inl (by rw [hclient]; rfl)⟩
    · cases h
  | _ => cases h

theorem Sound.client (hs : Sound r old s) (h : ClientStep s s') : Sound r old s' := by
  constructor
  · rw [h.files]
    exact hs.target
  · intro j k pid hj hk
    rw [h.process] at hj hk
    exact hs.apart j k pid hj hk
  · intro k pid received hk
    rw [h.process] at hk
    rw [h.files]
    exact hs.temporaries k pid received hk
  · intro k hk
    rw [h.process] at hk
    rw [h.files]
    exact hs.placed k hk
  · intro hsucceeded
    rw [h.files]
    rcases h.succeeded hsucceeded with hbefore | ⟨k,hk⟩
    · exact hs.succeeded hbefore
    · exact hs.placed k (by rw [hk]; rfl)

/-! ### The remote host -/

/-- A step of one shell, which touches no files but its temporary and puts nothing but the whole content into the place
of the file. -/
structure HostStep (r : Request) (s s' : State) (k : Try) : Prop where
  client : s'.client = s.client
  others : ∀ j, j ≠ k → (s'.attempts j).process = (s.attempts j).process
  target : s'.files r.path = s.files r.path ∨ s'.files r.path = some r.content
  files : ∀ path, path ≠ r.path → s'.files path = s.files path ∨
    ∃ pid, (s.attempts k).process.pid = some pid ∧ path = temporary r.path r.suffix pid
  pid : ∀ pid, (s'.attempts k).process.pid = some pid → (s.attempts k).process.pid = some pid ∨
    ∀ j, (s.attempts j).process.pid ≠ some pid
  input : ∀ pid received, (s'.attempts k).process.input = some (pid,received) →
    s'.files (temporary r.path r.suffix pid) = none ∨
      s'.files (temporary r.path r.suffix pid) = some (r.content.take received)
  placed : (s'.attempts k).process.placed = true →
    (s.attempts k).process.placed = true ∨ s'.files r.path = some r.content

theorem Sound.host (hs : Sound r old s) (h : HostStep r s s' k) : Sound r old s' := by
  have hstays : s.files r.path = some r.content → s'.files r.path = some r.content := by
    intro hbefore
    rcases h.target with heq | heq
    · rw [heq,hbefore]
    · exact heq
  have hkept (j : Try) (hj : j ≠ k) : (s'.attempts j).process = (s.attempts j).process := h.others j hj
  constructor
  case target =>
    rcases h.target with heq | heq
    · rw [heq]
      exact hs.target
    · exact Or.inr heq
  case apart =>
    intro i j pid hi hj
    by_cases hik : i = k
    · by_cases hjk : j = k
      · rw [hik,hjk]
      · subst hik
        rw [hkept j hjk] at hj
        rcases h.pid pid hi with hold | hfresh
        · exact hs.apart i j pid hold hj
        · exact absurd hj (hfresh j)
    · rw [hkept i hik] at hi
      by_cases hjk : j = k
      · subst hjk
        rcases h.pid pid hj with hold | hfresh
        · exact hs.apart i j pid hi hold
        · exact absurd hi (hfresh i)
      · rw [hkept j hjk] at hj
        exact hs.apart i j pid hi hj
  case temporaries =>
    intro j pid received hj
    by_cases hjk : j = k
    · subst hjk
      exact h.input pid received hj
    · rw [hkept j hjk] at hj
      rcases h.files _ (temporary_ne r.path r.suffix pid) with heq | ⟨own,hown,heq⟩
      · rw [heq]
        exact hs.temporaries j pid received hj
      · -- the temporary of another shell is not the own one
        have hsame := temporary_injective r.path r.suffix heq
        subst hsame
        exact absurd (hs.apart j k pid (Process.pid_of_input hj) hown) hjk
  case placed =>
    intro j hj
    by_cases hjk : j = k
    · subst hjk
      rcases h.placed hj with hbefore | hnow
      · exact hstays (hs.placed j hbefore)
      · exact hnow
    · rw [hkept j hjk] at hj
      exact hstays (hs.placed j hj)
  case succeeded =>
    intro hsucceeded
    rw [h.client] at hsucceeded
    exact hstays (hs.succeeded hsucceeded)

theorem process_setProcess (s : State) (k : Try) (process : Process) (j : Try) :
    ((s.setProcess k process).attempts j).process = if j = k then process else (s.attempts j).process := by
  change (Function.update s.attempts k { s.attempts k with process } j).process = _
  rw [Function.update_apply]
  split <;> rfl

theorem files_setFile (s : State) (path : String) (content : Option (List UInt8)) (other : String) :
    (s.setFile path content).files other = if other = path then content else s.files other :=
  Function.update_apply ..

variable {pid : ℕ}

/-- A step that writes or removes the temporary of its shell, or no file at all. -/
theorem hostStep_setFile {process : Process} {content : Option (List UInt8)}
    (hpid : (s.attempts k).process.pid = some pid) (hkept : process.pid = some pid ∨ process.pid = none)
    (hinput : ∀ received, process.input = some (pid,received) → content = none ∨ content = some
      (r.content.take received))
    (hplaced : process.placed = true → (s.attempts k).process.placed = true) :
    HostStep r s ((s.setFile (temporary r.path r.suffix pid) content).setProcess k process) k := by
  have hne : r.path ≠ temporary r.path r.suffix pid := (temporary_ne r.path r.suffix pid).symm
  constructor
  case client => rfl
  case others =>
    intro j hj
    rw [process_setProcess,if_neg hj]
    rfl
  case target =>
    left
    change (s.setFile _ _).files r.path = _
    rw [files_setFile,if_neg hne]
  case files =>
    intro path _
    change (s.setFile _ _).files path = _ ∨ _
    rw [files_setFile]
    split
    · exact Or.inr ⟨pid,hpid,‹_›⟩
    · exact Or.inl rfl
  case pid =>
    intro other hother
    rw [process_setProcess,if_pos rfl] at hother
    rcases hkept with hkept | hkept
    · left
      rw [hpid,← hkept,hother]
    · rw [hkept] at hother
      cases hother
  case input =>
    intro other received hother
    rw [process_setProcess,if_pos rfl] at hother
    have hsame := Process.pid_of_input hother
    rcases hkept with hkept | hkept
    · rw [hkept,Option.some.injEq] at hsame
      subst hsame
      change (s.setFile _ _).files _ = _ ∨ (s.setFile _ _).files _ = _
      rw [files_setFile,if_pos rfl]
      exact hinput received hother
    · rw [hkept] at hsame
      cases hsame
  case placed =>
    intro hnow
    rw [process_setProcess,if_pos rfl] at hnow
    exact Or.inl (hplaced hnow)

theorem hostStep_setProcess {process : Process}
    (hpid : ∀ pid, process.pid = some pid → (s.attempts k).process.pid = some pid ∨ ∀ j, (s.attempts j).process.pid ≠
      some pid)
    (hinput : process.input = none ∨ process.input = (s.attempts k).process.input)
    (hplaced : process.placed = true → (s.attempts k).process.placed = true) (hs : Sound r old s) :
    HostStep r s (s.setProcess k process) k := by
  constructor
  case client => rfl
  case others =>
    intro j hj
    rw [process_setProcess,if_neg hj]
  case target => exact Or.inl rfl
  case files => exact fun path _ => Or.inl rfl
  case pid =>
    intro pid h
    rw [process_setProcess,if_pos rfl] at h
    exact hpid pid h
  case input =>
    intro pid received h
    rw [process_setProcess,if_pos rfl] at h
    rcases hinput with hnone | hsame
    · rw [hnone] at h
      cases h
    · rw [hsame] at h
      exact hs.temporaries k pid received h
  case placed =>
    intro h
    rw [process_setProcess,if_pos rfl] at h
    exact Or.inl (hplaced h)

/-- The script gives up, and its temporary is removed. -/
theorem hostStep_exit {status : Option ℕ} (hpid : (s.attempts k).process.pid = some pid)
    (hplaced : (Process.exited status).placed = false) :
    HostStep r s ((s.cleanup r pid).setProcess k (.exited status)) k :=
  hostStep_setFile hpid (Or.inr rfl) (fun _ hinput => nomatch hinput) fun hnow => by rw [hplaced] at hnow; cases hnow

theorem hostStep_move {content : List UInt8} (hpid : (s.attempts k).process.pid = some pid)
    (hwhole : content = r.content) :
    HostStep r s (((s.setFile r.path (some content)).setFile (temporary r.path r.suffix pid) none).setProcess k
      (.moved pid)) k := by
  have hne : r.path ≠ temporary r.path r.suffix pid := (temporary_ne r.path r.suffix pid).symm
  have htarget : ((s.setFile r.path (some content)).setFile (temporary r.path r.suffix pid) none).files r.path =
      some r.content := by
    rw [files_setFile,if_neg hne,files_setFile,if_pos rfl,hwhole]
  constructor
  case client => rfl
  case others =>
    intro j hj
    rw [process_setProcess,if_neg hj]
    rfl
  case target => exact Or.inr htarget
  case files =>
    intro path hpath
    change ((s.setFile _ _).setFile _ _).files path = _ ∨ _
    rw [files_setFile,files_setFile]
    split
    · exact Or.inr ⟨pid,hpid,‹_›⟩
    · exact Or.inl rfl
  case pid =>
    intro other hother
    rw [process_setProcess,if_pos rfl] at hother
    cases hother
    exact Or.inl hpid
  case input =>
    intro other received hother
    rw [process_setProcess,if_pos rfl] at hother
    cases hother
  case placed => exact fun _ => Or.inr htarget

theorem hostStep_spec (hs : Sound r old s) (hcareful : Careful r s a) (h : s.hostStep r a = some s') :
    ClientStep s s' ∨ ∃ k, HostStep r s s' k := by
  cases a with
  | lose k =>
    cases h
    exact Or.inl ⟨rfl,process_setAttempt rfl,Or.inl⟩
  | start k pid =>
    obtain ⟨⟨-,habsent,hfirst,hsecond⟩,heq⟩ := Option.ite_none_right_eq_some.mp h
    cases heq
    refine Or.inr ⟨k,hostStep_setProcess ?_ (Or.inl rfl) (fun hplaced => nomatch hplaced) hs⟩
    intro other hother
    cases hother
    right
    intro j
    cases j
    · exact hfirst
    · exact hsecond
  | create k ok =>
    simp only [State.hostStep] at h
    split at h
    · rename_i pid hprocess
      have hpid : (s.attempts k).process.pid = some pid := by rw [hprocess]; rfl
      split at h
      · cases h
        refine Or.inr ⟨k,hostStep_setFile hpid (Or.inl rfl) ?_ (fun hplaced => nomatch hplaced)⟩
        intro received hreceived
        cases hreceived
        exact Or.inr rfl
      · cases h
        exact Or.inr ⟨k,hostStep_exit hpid rfl⟩
    · cases h
  | receive k n =>
    simp only [State.hostStep] at h
    split at h
    · rename_i pid received hprocess
      have hpid : (s.attempts k).process.pid = some pid := by rw [hprocess]; rfl
      cases (Option.ite_none_right_eq_some.mp h).2
      refine Or.inr ⟨k,hostStep_setFile hpid (Or.inl rfl) ?_ (fun hplaced => nomatch hplaced)⟩
      intro now hnow
      cases hnow
      rcases hs.temporaries k pid received (by rw [hprocess]; rfl) with hnone | hsome
      · left
        rw [hnone]
        rfl
      · right
        rw [hsome,Option.map_some,take_add]
    · cases h
  | writeError k =>
    simp only [State.hostStep] at h
    split at h
    · rename_i pid received hprocess
      have hpid : (s.attempts k).process.pid = some pid := by rw [hprocess]; rfl
      cases h
      exact Or.inr ⟨k,hostStep_exit hpid rfl⟩
    · cases h
  | endOfInput k =>
    simp only [State.hostStep] at h
    split at h
    · rename_i pid received hprocess
      cases (Option.ite_none_right_eq_some.mp h).2
      refine Or.inr ⟨k,hostStep_setProcess ?_ (Or.inr (by rw [hprocess]; rfl)) (fun hplaced => nomatch hplaced) hs⟩
      intro other hother
      left
      rw [hprocess]
      exact hother
    · cases h
  | move k ok =>
    simp only [State.hostStep] at h
    split at h
    · rename_i pid received hprocess
      have hpid : (s.attempts k).process.pid = some pid := by rw [hprocess]; rfl
      simp only [Careful,hprocess] at hcareful
      split at h
      · rename_i content htemporary
        cases h
        have hwhole : content = r.content := by
          rcases hs.temporaries k pid received (by rw [hprocess]; rfl) with hnone | hsome
          · rw [hnone] at htemporary
            cases htemporary
          · rw [hsome,Option.some.injEq] at htemporary
            rw [← htemporary,take_of_length_le hcareful]
        exact Or.inr ⟨k,hostStep_move hpid hwhole⟩
      · cases h
        exact Or.inr ⟨k,hostStep_exit hpid rfl⟩
    · cases h
  | finish k =>
    simp only [State.hostStep] at h
    split at h
    · rename_i pid hprocess
      cases h
      refine Or.inr ⟨k,hostStep_setProcess (fun _ hother => nomatch hother) (Or.inl rfl) ?_ hs⟩
      intro _
      rw [hprocess]
      rfl
    · cases h
  | trapped k =>
    obtain ⟨pid,hpid,rfl⟩ := Option.map_eq_some_iff.mp h
    have hsame : s.cleanup r pid =
        (s.setFile (temporary r.path r.suffix pid) none).setProcess k (s.attempts k).process :=
      congrArg (fun attempts => { s.cleanup r pid with attempts }) (Function.update_eq_self k s.attempts).symm
    rw [hsame]
    exact Or.inr ⟨k,hostStep_setFile hpid (Or.inl hpid) (fun _ _ => Or.inl rfl) id⟩
  | killed k =>
    obtain ⟨pid,hpid,rfl⟩ := Option.map_eq_some_iff.mp h
    exact Or.inr ⟨k,hostStep_setProcess (fun _ hother => nomatch hother) (Or.inl rfl) (fun hplaced => nomatch hplaced)
      hs⟩
  | _ => cases h

theorem Sound.step (hs : Sound r old s) (hcareful : Careful r s a) (h : s.step r a = some s') : Sound r old s' := by
  rcases Option.or_eq_some_iff.mp h with hclient | ⟨-,hhost⟩
  · exact hs.client (clientStep_spec hclient)
  · rcases hostStep_spec hs hcareful hhost with hclient | ⟨k,hstep⟩
    · exact hs.client hclient
    · exact hs.host hstep

/-- What is promised of a save: the file is the old one or the new one, and the new one if the request succeeds. -/
structure Whole (r : Request) (old : Option (List UInt8)) (s : State) : Prop where
  target : s.files r.path = old ∨ s.files r.path = some r.content
  succeeded : ∀ metadata, s.client = .returned (.ok metadata) → s.files r.path = some r.content

end

/-- In every run in which no shell puts a temporary in place before it has read the whole content, the file is the old
one or the new one at any time, and the new one when the request has succeeded. -/
theorem saved_whole {r : Request} {files : String → Option (List UInt8)} {s : State}
    (h : Reached (State.step r) (Careful r) (· = State.initial files) s) : Whole r (files r.path) s := by
  have hstart : ∀ s, s = State.initial files → Sound r (files r.path) s := by
    rintro _ rfl
    exact sound_initial r files
  have hsound := h.invariant hstart fun _ _ _ hs hcareful hstep => hs.step hcareful hstep
  exact ⟨hsound.target,fun metadata hclient => hsound.succeeded (by rw [hclient]; rfl)⟩

/-! A file of one byte that is to become one of two bytes. -/
namespace Truncated

def request : Request := ⟨.writeFile 0 1 false,"/a",[1,2],7⟩

def files (path : String) : Option (List UInt8) := if path = "/a" then some [0] else none

def error : AppError := ⟨"remote_exec_stdin_failed","","",true⟩

def metadata : RemoteFileMetadata := ⟨"a","/a",1,0,none⟩

/-- The request up to the first byte of the content. -/
def begun : List Action :=
  [.prepare (.ok metadata) (.ok ()),.request .first,.accepted .first,.start .first 1,.create .first true,.send .first 1,
    .receive .first 1]

/-- An attempt that is executed to its end. -/
def executed (k : Try) (pid : ℕ) : List Action :=
  [.request k,.accepted k,.start k pid,.create k true,.send k 2,.finishInput k,.receive k 2,.endOfInput k,.move k true,
    .finish k,.answer k ⟨[],[],some 0⟩]

/-- The connection is lost after the first byte, and the second one cannot be made. -/
def cut : List Action :=
  begun ++ [.lose .first,.endOfInput .first,.move .first true,.fail .first error,.reconnect (.error error)]

/-- The shell of the first attempt goes on when the second attempt has been executed. -/
def late : List Action :=
  begun ++ [.lose .first,.fail .first error,.reconnect (.ok ())] ++ executed .second 2 ++
    [.endOfInput .first,.move .first true,.confirm (.ok metadata)]

/-- The file and whether the request has succeeded, if it has come to its end. -/
def seen (s : State) : Option (List UInt8) × Option Bool :=
  (s.files "/a",match s.client with
    | .returned (.ok _) => some true
    | .returned (.error _) => some false
    | _ => none)

theorem cut_seen : (run (State.step request) (.initial files) cut).map seen = some (some [1],some false) := by
  decide +kernel

theorem late_seen : (run (State.step request) (.initial files) late).map seen = some (some [1],some true) := by
  decide +kernel

theorem whole_seen : (runAllowed (State.step request) (Careful request) (.initial files)
    (.prepare (.ok metadata) (.ok ()) :: executed .first 1 ++ [.confirm (.ok metadata)])).map seen =
      some (some [1,2],some true) := by
  decide +kernel

end Truncated

/-- The first attempt is executed to its end. -/
theorem saved_whole_executed : ∃ s, Truncated.seen s = (some [1,2],some true) ∧
    Whole Truncated.request (some [0]) s := by
  obtain ⟨s,hrun,hseen⟩ := Option.map_eq_some_iff.mp Truncated.whole_seen
  exact ⟨s,hseen,saved_whole (.runAllowed (.start rfl) hrun)⟩

/-- The shell of an attempt whose connection was lost takes the part that it has read for the whole. -/
theorem cut_input_saved :
    (¬ ∀ r files s, Reached (State.step r) (fun _ _ => True) (· = State.initial files) s →
      s.files r.path = files r.path ∨ s.files r.path = some r.content) ∧
    ¬ ∀ r files s, Reached (State.step r) (fun _ _ => True) (· = State.initial files) s →
      ∀ metadata, s.client = .returned (.ok metadata) → s.files r.path = some r.content := by
  constructor
  · intro hall
    obtain ⟨s,hrun,hseen⟩ := Option.map_eq_some_iff.mp Truncated.cut_seen
    have hfile : s.files "/a" = some [1] := congrArg Prod.fst hseen
    have htarget := hall Truncated.request Truncated.files s (.run (.start rfl) hrun)
    change s.files "/a" = some [0] ∨ s.files "/a" = some [1,2] at htarget
    rw [hfile] at htarget
    revert htarget
    decide
  · intro hall
    obtain ⟨s,hrun,hseen⟩ := Option.map_eq_some_iff.mp Truncated.late_seen
    have hfile : s.files "/a" = some [1] := congrArg Prod.fst hseen
    have hclient := congrArg Prod.snd hseen
    obtain ⟨metadata,hreturned⟩ : ∃ metadata, s.client = .returned (.ok metadata) := by
      unfold Truncated.seen at hclient
      split at hclient
      · exact ⟨_,by assumption⟩
      · cases hclient
      · cases hclient
    have htarget := hall Truncated.request Truncated.files s (.run (.start rfl) hrun) metadata hreturned
    change s.files "/a" = some [1,2] at htarget
    rw [hfile] at htarget
    revert htarget
    decide

end Mxterm.RemoteSaves
