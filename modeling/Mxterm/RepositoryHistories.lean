import Mxterm.SecretOwnership
import Mxterm.TransferOutcomes

/-! Histories of repositories that start empty, change by commands, and exchange snapshots and
connection transfers. -/
namespace Mxterm

open Execution StorageRepository SecretOwnership SyncSnapshot ConnectionTransfer

/-- What happens to a repository. -/
inductive Event
  | command (command : Command)
  | imported (source : StorageRepository) (password : Option String)
  | transferred (data : ConnectionTransferData)

section
variable {β : Type} (P : Platform β)

/-- The repositories that successful events lead to, as long as each event is allowed in the state
it finds. Snapshots come from repositories that were reached in the same way, and are imported
without a password or with the one they were exported with. No call fails. -/
inductive Reached (allowed : StorageRepository → Event → Prop) : StorageRepository → Prop
  | empty (family : X11Display.TargetFamily) : Reached allowed (.empty (fun _ => none) family)
  | command {s t : StorageRepository} (command : Command) : Reached allowed s →
      allowed s (.command command) → command.run s = .ok () t → Reached allowed t
  | exported {s t : StorageRepository} (draws : SnapshotDraws P) (options : SyncExportOptions)
      (bundle : SyncSnapshotBundle β) : Reached allowed s →
      exportBundle P draws options s = .ok bundle t → Reached allowed t
  | imported {source after s t : StorageRepository} (draws : SnapshotDraws P)
      (options : SyncExportOptions) (bundle : SyncSnapshotBundle β) (password : Option String)
      (result : SyncImportResult) : Reached allowed source → Reached allowed s →
      allowed s (.imported source password) →
      exportBundle P draws options source = .ok bundle after →
      (password = none ∨ password = options.syncPassword) →
      importBundle P bundle password s = .ok result t → Reached allowed t
  | transferred {s t : StorageRepository} (transactionId : Uuid)
      (bundle : ConnectionTransferBundle β) (password : String) (strategy : ConflictStrategy)
      (result : ImportResult) : Reached allowed s → allowed s (.transferred bundle.data) →
      applyBundle P transactionId bundle password strategy s = .ok result t → Reached allowed t

end

variable {β : Type} {P : Platform β}

/-- A bundle that was applied passed its checks first. -/
theorem applyBundle_ok {transactionId : Uuid} {bundle : ConnectionTransferBundle β}
    {password : String} {strategy : ConflictStrategy} {s s' : StorageRepository}
    {result : ImportResult}
    (h : applyBundle P transactionId bundle password strategy s = .ok result s') :
    ∃ secrets, decryptBundle P bundle password = .ok secrets ∧
      validateTransferData bundle.data = .ok () ∧
      validateTransferSecrets bundle.data secrets = .ok () ∧
      applyTransferData transactionId bundle.data secrets strategy s = .ok result s' := by
  simp only [applyBundle,bind_ok,lift_ok] at h
  obtain ⟨secrets,_,⟨hdecrypt,rfl⟩,_,_,⟨hdata,rfl⟩,_,_,⟨hsecrets,rfl⟩,h⟩ := h
  exact ⟨secrets,hdecrypt,hdata,hsecrets,h⟩

/-- A property of repositories that the empty one has and every event keeps. -/
theorem Reached.invariant {allowed : StorageRepository → Event → Prop}
    {I : StorageRepository → Prop} (hempty : ∀ family, I (.empty (fun _ => none) family))
    (hticks : ∀ s n, I s → I (s.ticks n))
    (hcommand : ∀ s t command, I s → allowed s (.command command) → command.run s = .ok () t → I t)
    (himported : ∀ source after s t (draws : SnapshotDraws P) options bundle password result,
      I source → I s → allowed s (.imported source password) →
      exportBundle P draws options source = .ok bundle after →
      (password = none ∨ password = options.syncPassword) →
      importBundle P bundle password s = .ok result t → I t)
    (htransferred : ∀ s t transactionId (bundle : ConnectionTransferBundle β) password strategy
      result, I s → allowed s (.transferred bundle.data) →
      applyBundle P transactionId bundle password strategy s = .ok result t → I t)
    {s : StorageRepository} (h : Reached P allowed s) : I s := by
  induction h with
  | empty family => exact hempty family
  | command command _ hallowed hrun ih => exact hcommand _ _ command ih hallowed hrun
  | exported draws options bundle _ hexport ih =>
    obtain ⟨-,n,rfl⟩ := exportBundle_ok hexport
    exact hticks _ n ih
  | imported draws options bundle password result _ _ hallowed hexport hpassword himport ih ih' =>
    exact himported _ _ _ _ draws options bundle password result ih ih' hallowed hexport hpassword
      himport
  | transferred transactionId bundle password strategy result _ hallowed happly ih =>
    exact htransferred _ _ transactionId bundle password strategy result ih hallowed happly

end Mxterm
