import Mxterm.SnapshotOutcomes
import Mxterm.TransferValidation

/-! What a transfer that succeeded has done: the rows of its transaction are stored, and the
secrets of the slots it made active. -/
namespace Mxterm.ConnectionTransfer

open TransferRecovery hiding commit

open Execution StorageRepository SyncRepository

def existingOf (t : Tables) : Existing where
  connectionIds := t.connections.rows.map (·.id)
  credentialIds := t.credentials.rows.map (·.id)
  localGroups := t.connectionGroups.rows.map fun group => (group.id,group.name)

variable {s s' : StorageRepository}

theorem queryExisting_ok {existing : Existing} :
    queryExisting s = .ok existing s' ↔ s.Spared 3 ∧ existing = existingOf s.database.toTables ∧
      s' = s.ticks 3 := by
  have hspared : s.Spared 3 ↔ s.faults s.clock = none ∧ s.faults (s.clock + 1) = none ∧
      s.faults (s.clock + 1 + 1) = none := by
    constructor
    · exact fun h => ⟨h 0 (by omega),h 1 (by omega),h 2 (by omega)⟩
    · rintro ⟨h₀,h₁,h₂⟩ i hi
      obtain rfl | rfl | rfl : i = 0 ∨ i = 1 ∨ i = 2 := by omega
      all_goals assumption
  simp only [queryExisting,bind_ok,query_ok,pure_ok,hspared]
  constructor
  · rintro ⟨_,_,⟨h₀,rfl,rfl⟩,_,_,⟨h₁,rfl,rfl⟩,_,_,⟨h₂,rfl,rfl⟩,rfl,rfl⟩
    exact ⟨⟨h₀,h₁,h₂⟩,rfl,rfl⟩
  · rintro ⟨⟨h₀,h₁,h₂⟩,rfl,rfl⟩
    exact ⟨_,_,⟨h₀,rfl,rfl⟩,_,_,⟨h₁,rfl,rfl⟩,_,_,⟨h₂,rfl,rfl⟩,rfl,rfl⟩

/-- The disk after the journal was opened. -/
def begun (d : TransferRecovery.Disk Entries Database) (transactionId : Uuid) :
    TransferRecovery.Disk Entries Database :=
  { d with
    backup := if d.vault.isSome then d.vault else d.backup
    journal := some ⟨1,transactionId.toString,d.vault.isSome⟩ }

variable {transactionId : Uuid}

theorem onDisk_begin (h : s.disk.journal = none) :
    onDisk (begin transactionId) s =
      .ok transactionId { s with disk := begun s.disk transactionId } := by
  simp only [onDisk,begin_on transactionId h]
  rfl

theorem onDisk_begin_pending {journal : TransferRecovery.RecoveryJournal} (h : s.disk.journal = some journal) :
    onDisk (begin transactionId) s = .error (recoveryFailed
      "pending connection transfer recovery requires vault unlock") s := by
  simp only [onDisk,begin_pending transactionId h]

theorem onDisk_commit (s : StorageRepository) : onDisk TransferRecovery.commit s =
    .ok () { s with disk := { s.disk with journal := none, backup := none } } := by
  simp only [onDisk,TransferRecovery.commit,cleanupRecoveryFiles_on]

variable {backups : SecretBackups}

theorem giveUp_not_ok {α : Type} {raw : String} {a : α} : giveUp backups raw s ≠ .ok a s' := by
  simp only [giveUp,ne_eq,bind_ok,throw_apply,reduceCtorEq,and_false,exists_false,not_false_eq_true]

theorem previousSecret_ok {reference : SecretReference} {previous : Option String}
    (h : previousSecret backups reference s = .ok previous s') :
    s.faults s.clock = none ∧ previous = s.secrets reference.account ∧ s' = s.advance := by
  simp only [previousSecret,bind_ok] at h
  obtain ⟨got,t,hget,h⟩ := h
  rcases (attempt_ok _ _ _ _).mp hget with ⟨value,rfl,hread⟩ | ⟨error,rfl,herror⟩
  · obtain ⟨hfault,hvalue,rfl⟩ := getSecret_ok.mp hread
    obtain ⟨rfl,rfl⟩ := (pure_ok _ _ _ _).mp h
    exact ⟨hfault,hvalue.symm,rfl⟩
  · simp only at h
    split at h
    · rename_i hmissing
      obtain ⟨rfl,rfl⟩ := (pure_ok _ _ _ _).mp h
      unfold getSecret at herror
      split at herror
      · cases herror
        exact absurd hmissing (by simp [secretStoreReadFailed])
      · rename_i hfault
        split at herror
        · rename_i hnone
          cases herror
          exact ⟨hfault,hnone.symm,rfl⟩
        · cases herror
    · exact absurd h giveUp_not_ok

theorem secretReference_ok {secret : SyncSecretEntry} {reference : SecretReference} :
    secretReference secret = .ok reference ↔ ∃ kind,
      syncSecretKindFromLabel secret.kind = .ok kind ∧
        reference = ⟨vaultService,secret.slotId,secret.slotId,kind⟩ := by
  unfold secretReference
  cases syncSecretKindFromLabel secret.kind <;> simp [eq_comm]

/-- One secret of the transfer: the old value is kept for a rollback, the new one stored. -/
theorem storeTransferSecret_ok {backups' : SecretBackups} {secret : SyncSecretEntry}
    (h : storeTransferSecret backups secret s = .ok backups' s') :
    s.faults s.clock = none ∧ s.faults (s.clock + 1) = none ∧
    ∃ kind, syncSecretKindFromLabel secret.kind = .ok kind ∧
      backups' = (⟨vaultService,secret.slotId,secret.slotId,kind⟩,s.secrets secret.slotId) :: backups ∧
      s' = ((s.ticks 2).withSecrets
        (Function.update s.secrets secret.slotId (some secret.value))).persist := by
  simp only [storeTransferSecret,bind_ok,lift_ok,secretReference_ok] at h
  obtain ⟨_,_,⟨⟨kind,hkind,rfl⟩,rfl⟩,_,_,hprevious,set,v,hattempt,h⟩ := h
  obtain ⟨hfault,rfl,rfl⟩ := previousSecret_ok hprevious
  rcases (attempt_ok _ _ _ _).mp hattempt with ⟨_,rfl,hset⟩ | ⟨error,rfl,-⟩
  · obtain ⟨hfault',rfl⟩ := changeSecrets_ok.mp hset
    obtain ⟨rfl,rfl⟩ := (pure_ok _ _ _ _).mp h
    exact ⟨hfault,hfault',kind,hkind,rfl,rfl⟩
  · exact absurd h giveUp_not_ok

theorem storeTransferSecrets_ok {backups' : SecretBackups} {secrets : List SyncSecretEntry}
    (h : foldEach storeTransferSecret backups secrets s = .ok backups' s') :
    OnlySecrets s s' (2 * secrets.length) (storeAll s.secrets secrets) := by
  induction secrets generalizing backups s with
  | nil =>
    obtain ⟨-,rfl⟩ := (pure_ok _ _ _ _).mp h
    exact ⟨rfl,rfl,rfl,rfl,rfl,rfl⟩
  | cons secret secrets ih =>
    obtain ⟨next,t,hfirst,hrest⟩ := (foldEach_cons_ok _ _ _ _ _ _ _).mp h
    obtain ⟨-,-,kind,-,-,rfl⟩ := storeTransferSecret_ok hfirst
    have honly := ih hrest
    refine ⟨honly.tables,honly.transaction,honly.faults,honly.family,?_,honly.secrets⟩
    rw [honly.clock]
    simp [Nat.mul_add,Nat.add_assoc,Nat.add_comm]

theorem finishTransfer_ok {result result' : ImportResult} {secrets : List SyncSecretEntry}
    (h : finishTransfer result secrets s = .ok result' s') :
    s'.database = s.database ∧ s'.secrets = storeAll s.secrets secrets ∧ s'.transaction = none ∧
      s'.disk.journal = none ∧ s'.faults = s.faults ∧ result' = { result with secrets := secrets.length } := by
  simp only [finishTransfer,bind_ok] at h
  obtain ⟨backups,t,hstored,committed,u,hattempt,h⟩ := h
  have honly := storeTransferSecrets_ok hstored
  rcases (attempt_ok _ _ _ _).mp hattempt with ⟨_,rfl,hcommit⟩ | ⟨error,rfl,-⟩
  · simp only [bind_ok,onDisk_commit,pure_ok,EStateM.Result.ok.injEq] at h
    obtain ⟨_,_,⟨-,rfl⟩,rfl,rfl⟩ := h
    obtain ⟨-,d,hd,rfl⟩ := commit_ok.mp hcommit
    have hopen : s.transaction = some d := honly.transaction ▸ hd
    exact ⟨by simp [database,hopen],honly.secrets,rfl,rfl,honly.faults,rfl⟩
  · exact absurd h giveUp_not_ok

/-- Everything a successful import of a transfer has done. -/
theorem applyTransferData_ok {data : ConnectionTransferData} {secrets : ConnectionTransferSecrets}
    {strategy : ConflictStrategy} {result : ImportResult}
    (h : applyTransferData transactionId data secrets strategy s = .ok result s') :
    ∃ t u rows slots, t.database = s.database ∧ t.secrets = s.secrets ∧
      importRows (existingOf s.database.toTables) data strategy transactionId t = .ok (rows,slots) u ∧
      s'.database = u.database ∧ s'.secrets = storeAll u.secrets (activeSecrets slots secrets) ∧
      s.transaction = none ∧ s'.transaction = none ∧ s.disk.journal = none ∧
      s'.disk.journal = none ∧ result = { rows with secrets := (activeSecrets slots secrets).length } := by
  simp only [applyTransferData,bind_ok,queryExisting_ok,beginImmediate_ok] at h
  obtain ⟨_,_,hbackup,_,v,hbegin,_,_,⟨-,rfl,rfl⟩,_,w,⟨-,hidle,hw⟩,_,u,hattempt,h⟩ := h
  obtain rfl : s.backedUp = _ := (EStateM.Result.ok.inj hbackup).2
  cases hjournal : s.backedUp.disk.journal with
  | some journal => rw [onDisk_begin_pending hjournal] at hbegin; cases hbegin
  | none =>
    rw [onDisk_begin hjournal] at hbegin
    obtain ⟨-,hv⟩ := EStateM.Result.ok.inj hbegin
    have hs : s.transaction = none := by simpa [← hv] using hidle
    have hbefore : v.database = s.database := by simp [database,hs,← hv,begun]
    have hopened : w.database = s.database ∧ w.secrets = s.secrets := by
      simp [database,hs,hw,← hv,begun]
    rcases (attempt_ok _ _ _ _).mp hattempt with ⟨⟨rows,slots⟩,rfl,hrows⟩ | ⟨error,rfl,-⟩
    · obtain ⟨hdatabase,hsecrets,hdone,hclean,-,hresult⟩ := finishTransfer_ok h
      exact ⟨w,u,rows,slots,hopened.1,hopened.2,hbefore ▸ hrows,hdatabase,hsecrets,hs,hdone,hjournal,
        hclean,hresult⟩
    · simp only [bind_ok,throw_apply,reduceCtorEq,and_false,exists_false] at h

end Mxterm.ConnectionTransfer
