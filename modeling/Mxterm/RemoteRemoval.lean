import Mxterm.SftpTransfers
import Mxterm.LinkedTrees

/-! The removal of a remote directory with all that is in it (`remove_remote_tree_sftp` of `remote_files.rs`). -/
namespace Mxterm.SftpTransfers

open Faults FileTrees

/-- What the removal asks of the remote file system: whether a path leads to a directory, the paths of the entries of
a directory, and the removal of one of them. -/
structure RemoteSystem (τ : Type) where
  isDirectory : τ → String → Except FileError Bool
  entries : τ → String → Except FileError (List String)
  removeFile : τ → String → Except FileError τ
  removeDirectory : τ → String → Except FileError τ

inductive RemoveStep
  | enter (path : String)
  | removeDirectory (path : String)

def deleteFailed (message : String) : TransferError := ⟨"remote_file_delete_failed",message⟩

variable {τ : Type}

/-- One step, with the steps that are put on top of the others, the last one first. -/
def removeStep (system : RemoteSystem τ) : RemoveStep → EStateM TransferError (World τ) (List RemoveStep)
  | .enter current =>
    orFail (deleteFailed "远程条目删除失败。") (look FileError.other (system.isDirectory · current)) >>= fun directory =>
    if directory then
      orFail (deleteFailed "远程目录读取失败。") (look FileError.other (system.entries · current)) >>= fun entries =>
      pure (entries.reverse.map .enter ++ [.removeDirectory current])
    else
      orFail (deleteFailed "远程文件删除失败。") (perform FileError.other (system.removeFile · current) fun _ t => t) >>=
        fun _ => pure []
  | .removeDirectory current =>
    orFail (deleteFailed "远程目录删除失败。")
      (perform FileError.other (system.removeDirectory · current) fun _ t => t) >>= fun _ => pure []

/-- The loop, and whether it has emptied its stack within so many steps. -/
def removePending (system : RemoteSystem τ) : ℕ → List RemoveStep → EStateM TransferError (World τ) Bool
  | _, [] => pure true
  | 0, _ :: _ => pure false
  | fuel + 1, step :: pending =>
    removeStep system step >>= fun pushed => removePending system fuel (pushed ++ pending)

def removeRemoteTree (system : RemoteSystem τ) (fuel : ℕ) (path : String) : EStateM TransferError (World τ) Bool :=
  removePending system fuel [.enter path]

/-! ## What a step does -/

inductive Removes (system : RemoteSystem τ) (t : τ) : RemoveStep → List RemoveStep → τ → Prop
  | list {path : String} {entries : List String} :
      system.isDirectory t path = .ok true → system.entries t path = .ok entries →
      Removes system t (.enter path) (entries.reverse.map .enter ++ [.removeDirectory path]) t
  | file {path : String} {t' : τ} :
      system.isDirectory t path = .ok false → system.removeFile t path = .ok t' →
      Removes system t (.enter path) [] t'
  | directory {path : String} {t' : τ} :
      system.removeDirectory t path = .ok t' → Removes system t (.removeDirectory path) [] t'

variable {system : RemoteSystem τ} {t : τ} {step : RemoveStep} {pending : List RemoveStep} {fuel : ℕ}

/-- A step that fails has done nothing, or what it does when it succeeds. -/
theorem brings_removeStep (system : RemoteSystem τ) (step : RemoveStep) (t : τ) :
    Brings (removeStep system step) (fun pushed t' => Removes system t step pushed t')
      (fun t' => t' = t ∨ ∃ pushed, Removes system t step pushed t') t := by
  cases step with
  | enter path =>
    refine Brings.bind (Brings.lookOrFail (fun directory hdirectory => ?_) (.inl rfl))
    refine Brings.ite (fun htrue => ?_) fun hfalse => ?_
    · subst htrue
      refine Brings.bind (Brings.lookOrFail (fun entries hentries => ?_) (.inl rfl))
      exact Brings.pure (.list hdirectory hentries)
    · rw [Bool.not_eq_true] at hfalse
      subst hfalse
      refine Brings.bind (Brings.performOrFail (fun t' ht' => ?_) (.inl rfl) fun _ => .inl rfl)
      exact ⟨Brings.pure (.file hdirectory ht'),.inr ⟨_,.file hdirectory ht'⟩⟩
  | removeDirectory path =>
    refine Brings.bind (Brings.performOrFail (fun t' ht' => ?_) (.inl rfl) fun _ => .inl rfl)
    exact ⟨Brings.pure (.directory ht'),.inr ⟨_,.directory ht'⟩⟩

/-- Where no operation fails of itself, a step does what it can do. -/
theorem removeStep_of_removes {pushed : List RemoveStep} {t' : τ} (h : Removes system t step pushed t') :
    removeStep system step ⟨t,[]⟩ = .ok pushed ⟨t',[]⟩ := by
  cases h with
  | @list path entries hdirectory hentries =>
    rw [removeStep,Execution.bind_of_ok (lookOrFail_goes (f := (system.isDirectory · path)) hdirectory),if_pos rfl,
      Execution.bind_of_ok (lookOrFail_goes (f := (system.entries · path)) hentries)]
    rfl
  | @file path _ hdirectory hremove =>
    rw [removeStep,Execution.bind_of_ok (lookOrFail_goes (f := (system.isDirectory · path)) hdirectory),
      if_neg Bool.false_ne_true,Execution.bind_of_ok (performOrFail_goes (f := (system.removeFile · path)) hremove)]
    rfl
  | @directory path _ hremove =>
    rw [removeStep,Execution.bind_of_ok (performOrFail_goes (f := (system.removeDirectory · path)) hremove)]
    rfl

theorem removePending_of_removes {pushed : List RemoveStep} {t' : τ} (h : Removes system t step pushed t') (fuel : ℕ)
    (pending : List RemoveStep) : removePending system (fuel + 1) (step :: pending) ⟨t,[]⟩ =
      removePending system fuel (pushed ++ pending) ⟨t',[]⟩ := by
  rw [removePending,Execution.bind_of_ok (removeStep_of_removes h)]

/-- What every step preserves holds whenever the loop stops. -/
theorem brings_removePending {invariant : List RemoveStep → τ → Prop}
    (hstep : ∀ {step pending t pushed t'}, invariant (step :: pending) t → Removes system t step pushed t' →
      invariant (pushed ++ pending) t') (fuel : ℕ) (h : invariant pending t) :
    Brings (removePending system fuel pending)
      (fun emptied t' => if emptied then invariant [] t' else ∃ pending, invariant pending t')
      (fun t' => ∃ pending, invariant pending t') t := by
  induction fuel generalizing pending t with
  | zero =>
    cases pending with
    | nil => exact Brings.pure h
    | cons step pending => exact Brings.pure ⟨_,h⟩
  | succ fuel ih =>
    cases pending with
    | nil => exact Brings.pure h
    | cons step pending =>
      refine Brings.bind ((brings_removeStep system step t).mono (fun pushed t' ht' => ?_) fun t' ht' => ?_)
      · exact ih (hstep h ht')
      · rcases ht' with rfl | ⟨pushed,ht'⟩
        · exact ⟨_,h⟩
        · exact ⟨_,hstep h ht'⟩

/-- The loop comes to an end, whatever the steps that succeed do. -/
inductive Ends (system : RemoteSystem τ) : List RemoveStep → τ → Prop
  | nil {t : τ} : Ends system [] t
  | cons {step : RemoveStep} {pending : List RemoveStep} {t : τ} :
      (∀ pushed t', Removes system t step pushed t' → Ends system (pushed ++ pending) t') →
      Ends system (step :: pending) t

theorem Ends.finishes (h : Ends system pending t) (events : List Event) :
    ∃ fuel, ∀ w, removePending system fuel pending ⟨t,events⟩ ≠ .ok false w := by
  induction h generalizing events with
  | nil => exact ⟨0,fun w hw => by cases hw⟩
  | @cons step pending t _ ih =>
    cases hstep : removeStep system step ⟨t,events⟩ with
    | ok pushed w =>
      obtain ⟨fuel,hfuel⟩ := ih pushed w.store ((brings_removeStep system step t events).ok hstep) w.events
      refine ⟨fuel + 1,fun w' hw' => hfuel w' ?_⟩
      exact (Execution.bind_of_ok hstep _).symm.trans hw'
    | error e w =>
      refine ⟨1,fun w' hw' => ?_⟩
      exact nomatch (Execution.bind_of_error hstep _).symm.trans hw'

end Mxterm.SftpTransfers
