import Mxterm.CrashLogic
import Mxterm.Schema

/-! The recovery files of a connection import (`connection_transfer_recovery.rs`): a copy of
the vault and a journal that names the transaction the copy belongs to. -/
namespace Mxterm.TransferRecovery

open Execution CrashLogic

structure RecoveryJournal where
  version : ℕ
  transactionId : String
  vaultExisted : Bool
  deriving DecidableEq

/-- What survives a crash: the vault file, its backup, the journal and the database. -/
structure Disk (γ δ : Type) where
  vault : Option γ
  backup : Option γ
  journal : Option RecoveryJournal
  database : δ

variable {γ δ : Type}

abbrev Recovery (γ δ α : Type) := Program AppError (Disk γ δ) α

def recoveryFailed (raw : String) : AppError :=
  ⟨"connection_transfer_recovery_failed","连接仓库恢复失败，为避免数据不一致已停止继续操作。",raw,false⟩

def powerLost : AppError := recoveryFailed "power lost"

/-- A copy, a rename or a removal of one file. -/
def update (change : Disk γ δ → Disk γ δ) : Recovery γ δ Unit := write powerLost change

def copyVault : Disk γ δ → Disk γ δ := fun d => { d with backup := d.vault }

def writeJournal (journal : RecoveryJournal) : Disk γ δ → Disk γ δ :=
  fun d => { d with journal := some journal }

def writeVault (content : γ) : Disk γ δ → Disk γ δ := fun d => { d with vault := some content }

def copyBackup : Disk γ δ → Disk γ δ := fun d => { d with vault := d.backup }

def removeVault : Disk γ δ → Disk γ δ := fun d => { d with vault := none }

def removeJournal : Disk γ δ → Disk γ δ := fun d => { d with journal := none }

def removeBackup : Disk γ δ → Disk γ δ := fun d => { d with backup := none }

def commitDatabase (committed : δ) : Disk γ δ → Disk γ δ := fun d => { d with database := committed }

/-- `begin`: the identifier of the transaction the new journal names. -/
def begin (transactionId : Uuid) : Recovery γ δ Uuid := do
  let disk ← read
  if disk.journal.isSome then
    throw (recoveryFailed "pending connection transfer recovery requires vault unlock")
  else
    runIf disk.vault.isSome (update copyVault)
    let journal : RecoveryJournal := ⟨1,transactionId.toString,disk.vault.isSome⟩
    match ← attempt (update (writeJournal journal)) with
    | .ok () => pure transactionId
    | .error error =>
      let _ ← attempt (update removeBackup)
      throw error

/-- The journal goes first: a backup without a journal is never restored. -/
def cleanupRecoveryFiles : Recovery γ δ Unit := do
  let disk ← read
  runIf disk.journal.isSome (update removeJournal)
  runIf disk.backup.isSome (update removeBackup)

def restoreVaultBackupWithState (vaultExisted : Bool) : Recovery γ δ Unit := do
  let disk ← read
  if vaultExisted then
    if disk.backup.isNone then
      throw (recoveryFailed "connection transfer vault backup is missing")
    else update copyBackup
  else runIf disk.vault.isSome (update removeVault)

def restoreVaultBackup : Recovery γ δ Unit := do
  match (← read).journal with
  | none => throw (recoveryFailed "No such file or directory (os error 2)")
  | some journal => restoreVaultBackupWithState journal.vaultExisted

def commit : Recovery γ δ Unit := cleanupRecoveryFiles

def abort : Recovery γ δ Unit := do
  restoreVaultBackup
  cleanupRecoveryFiles

/-- `recover_pending_connection_transfer`, which every unlock runs before the vault is opened. -/
def recoverPending (readCommittedTransaction : δ → Except String (Option String)) :
    Recovery γ δ Unit := do
  let disk ← read
  match disk.journal with
  | none => pure ()
  | some journal =>
    if journal.version ≠ 1 then
      throw (recoveryFailed "unsupported connection transfer recovery journal")
    else
      match readCommittedTransaction disk.database with
      | .error raw => throw (recoveryFailed raw)
      | .ok committed =>
        runIf (committed ≠ some journal.transactionId)
          (restoreVaultBackupWithState journal.vaultExisted)
        cleanupRecoveryFiles

/-! While the power stays on, each program has one outcome. -/

variable {d : Disk γ δ}

theorem begin_on (transactionId : Uuid) (h : d.journal = none) :
    begin transactionId ⟨d,none⟩ = .ok transactionId ⟨{ d with
      backup := if d.vault.isSome then d.vault else d.backup,
      journal := some ⟨1,transactionId.toString,d.vault.isSome⟩ },none⟩ := by
  obtain ⟨vault,backup,journal,database⟩ := d
  cases h
  cases vault <;> rfl

theorem begin_pending (transactionId : Uuid) {journal : RecoveryJournal} (h : d.journal = some journal) :
    begin transactionId ⟨d,none⟩ =
      .error (recoveryFailed "pending connection transfer recovery requires vault unlock") ⟨d,none⟩ := by
  obtain ⟨vault,backup,_,database⟩ := d
  cases h
  rfl

theorem cleanupRecoveryFiles_on (d : Disk γ δ) : cleanupRecoveryFiles ⟨d,none⟩ =
    .ok () ⟨{ d with journal := none, backup := none },none⟩ := by
  obtain ⟨vault,backup,journal,database⟩ := d
  cases journal <;> cases backup <;> rfl

theorem restoreVaultBackupWithState_on {vaultExisted : Bool} (d : Disk γ δ)
    (h : vaultExisted → d.backup.isSome) : restoreVaultBackupWithState vaultExisted ⟨d,none⟩ =
      .ok () ⟨{ d with vault := if vaultExisted then d.backup else none },none⟩ := by
  obtain ⟨vault,backup,journal,database⟩ := d
  cases vaultExisted with
  | false => cases vault <;> rfl
  | true =>
    cases backup with
    | none => simp at h
    | some content => rfl

theorem abort_on {journal : RecoveryJournal} (hjournal : d.journal = some journal)
    (h : journal.vaultExisted → d.backup.isSome) : abort ⟨d,none⟩ =
      .ok () ⟨{ d with
        vault := if journal.vaultExisted then d.backup else none,
        journal := none,
        backup := none },none⟩ := by
  have hrestore : restoreVaultBackup ⟨d,none⟩ =
      .ok () ⟨{ d with vault := if journal.vaultExisted then d.backup else none },none⟩ := by
    rw [← restoreVaultBackupWithState_on d h]
    simp only [restoreVaultBackup,bind_of_ok (read_apply _),hjournal]
  exact (bind_of_ok hrestore _).trans (cleanupRecoveryFiles_on _)

def connectionTransferCommitKey : String := "connection_transfer_last_commit"

def readCommittedTransaction (d : Database) : Except String (Option String) :=
  match d.appSettings.find? connectionTransferCommitKey with
  | none => .ok none
  | some row =>
    match row.value with
    | .text transactionId => .ok (some transactionId)
    | .json compact => .error ("invalid type: " ++ compact ++ ", expected a string")

/-- The last row an import writes before its `COMMIT`. -/
def commitRow (transactionId : Uuid) : SettingRow :=
  ⟨connectionTransferCommitKey,.text transactionId.toString,"connection-transfer"⟩

theorem readCommittedTransaction_of_exec {imported committed : Database} {transactionId : Uuid}
    (h : imported.exec (.upsertSetting (commitRow transactionId)) = .ok committed) :
    readCommittedTransaction committed = .ok (some transactionId.toString) := by
  have hrow : committed.appSettings.find? connectionTransferCommitKey =
      some (commitRow transactionId) := by
    have htables : committed.appSettings = imported.appSettings.put (commitRow transactionId) := by
      have := Database.exec_ok_iff.mp h
      simp only [Tables.exec,Except.ok.injEq] at this
      rw [← this]
    exact Table.find?_eq_some_iff.mpr ⟨htables ▸ Table.mem_put.mpr (Or.inl rfl),rfl⟩
  simp [readCommittedTransaction,hrow,commitRow]

end Mxterm.TransferRecovery
