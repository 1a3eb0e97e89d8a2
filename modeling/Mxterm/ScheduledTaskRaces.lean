import Mxterm.ReadModifyWrite
import Mxterm.ScheduledTaskEdits

/-! Several commands on the crontab of one host at a time. Reading and installing are two commands of the
host, and nothing holds the crontab in between. -/
namespace Mxterm.ScheduledTasks

open ReadModifyWrite

variable (errors : DecodeErrors) {ι : Type} [DecidableEq ι] (commands : ι → Command)

/-- What a command installs after it has read a crontab. -/
def changed (i : ι) (crontab : List UInt8) : Option (List UInt8) := ((commands i).run errors crontab).toOption

/-- The commands one after the other, each of them with success. -/
def runInOrder (crontab : List UInt8) (order : List ι) : Except AppError (List UInt8) :=
  order.foldlM (fun crontab i => (commands i).run errors crontab) crontab

omit [DecidableEq ι] in
theorem sequentially_eq (crontab : List UInt8) (order : List ι) :
    sequentially (changed errors commands) crontab order = (runInOrder errors commands crontab order).toOption := by
  induction order generalizing crontab with
  | nil => rfl
  | cons i order ih =>
    simp only [sequentially,runInOrder,List.foldlM_cons] at ih ⊢
    cases h : (commands i).run errors crontab with
    | error e =>
      simp [changed,h,bind,Except.bind,Except.toOption]
    | ok next =>
      simp only [changed,h,bind,Except.bind,Except.toOption,Option.bind_some]
      exact ih next

omit [DecidableEq ι] in
theorem runInOrder_pair (crontab : List UInt8) (i j : ι) : runInOrder errors commands crontab [i,j] =
    ((commands i).run errors crontab).bind fun next => (commands j).run errors next := by
  simp only [runInOrder,List.foldlM_cons,List.foldlM_nil,bind_pure]
  rfl

def task (id : String) : Command := .save ⟨some id,"backup","@daily","true",true⟩ ⟨0⟩ (.ok 0)

def taskRecord (id : String) : ScheduledTaskRecord := ⟨id,"backup","@daily","true",true,"0"⟩

/-- Two commands that add different tasks. -/
def adds (second : Bool) : Command := if second then task "2" else task "1"

theorem taskRecord_readable {records : List ScheduledTaskRecord}
    (h : ∀ record ∈ records, record = taskRecord "1" ∨ record = taskRecord "2") : Unambiguous records := by
  rintro record hrecord - ⟨metadata,key,value,hstrip,-⟩
  rcases h record hrecord with rfl | rfl <;> cases hstrip

theorem apply_of_run {crontab installed : List UInt8} {command : Command}
    (h : command.run errors crontab = .ok installed) : applyCommand errors crontab command = installed := by
  simp only [applyCommand,h]

/-- Adding a task to a crontab that holds nothing else than the two tasks. -/
theorem apply_task {text : String} {document : CrontabDocument} {id : String} {records : List ScheduledTaskRecord}
    (hload : loadDocument plainErrors (Utf8.encode text) = .ok document)
    (hids : (ids document.taskRecords).Nodup) (hintended : (task id).intended document.taskRecords = records)
    (hrecords : ∀ record ∈ records, record = taskRecord "1" ∨ record = taskRecord "2")
    (hgiven : ScheduledTaskInput.givenId ⟨some id,"backup","@daily","true",true⟩ ≠ none) :
    ∃ text' document', applyCommand plainErrors (Utf8.encode text) (task id) = Utf8.encode text' ∧
      loadDocument plainErrors (Utf8.encode text') = .ok document' ∧ document'.taskRecords = records := by
  have hreadable : Unambiguous ((task id).intended document.taskRecords) := by
    rw [hintended]
    exact taskRecord_readable hrecords
  have hfresh : (task id).Fresh document.taskRecords := fun hnone => absurd hnone hgiven
  obtain ⟨text',document',happly,hread,hsame,-⟩ := applyCommand_spec plainErrors hload hids hfresh hreadable
  exact ⟨text',document',happly,hread,hsame.trans hintended⟩

theorem run_second {first second : Command} {crontab middle final : List UInt8}
    (h : first.run errors crontab = .ok middle)
    (hrun : ((first.run errors crontab).bind fun next => second.run errors next) = .ok final) :
    second.run errors middle = .ok final := by
  rw [h] at hrun
  exact hrun

end Mxterm.ScheduledTasks
