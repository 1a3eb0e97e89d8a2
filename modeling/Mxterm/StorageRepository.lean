import Mxterm.ProfileValidation
import Mxterm.Schema
import Mxterm.TransferRecovery

/-! The state behind `StorageRepository`: the open database connection, the unlocked vault and
the files on disk. Every statement and every call of the secret store may fail. -/
namespace Mxterm

open Execution

/-- The secrets of a vault by account. -/
abbrev Entries := String → Option String

/-- How a call fails: before it did anything, or after a secret changed in memory that the
vault file did not take. -/
inductive Fault
  | refused (raw : String) | unsaved (raw : String)

def Fault.raw : Fault → String
  | .refused raw => raw
  | .unsaved raw => raw

/-- The directory `backups/sync/latest`. -/
structure SyncBackup where
  database : Option Database
  vault : Option Entries

/-- `faults` says which of the calls numbered by `clock` fail. -/
structure StorageRepository where
  disk : TransferRecovery.Disk Entries Database
  transaction : Option Database
  secrets : Entries
  syncBackup : SyncBackup
  faults : ℕ → Option Fault
  clock : ℕ
  family : X11Display.TargetFamily

abbrev Repo (α : Type) := EStateM AppError StorageRepository α

namespace StorageRepository

def empty (faults : ℕ → Option Fault) (family : X11Display.TargetFamily) : StorageRepository where
  disk := ⟨none,none,none,.empty⟩
  transaction := none
  secrets := fun _ => none
  syncBackup := ⟨none,none⟩
  faults := faults
  clock := 0
  family := family

/-- The database as the open connection sees it. -/
def database (s : StorageRepository) : Database := s.transaction.getD s.disk.database

def advance (s : StorageRepository) : StorageRepository := { s with clock := s.clock + 1 }

def ticks (s : StorageRepository) (n : ℕ) : StorageRepository := { s with clock := s.clock + n }

/-- None of the next `n` calls fails. -/
def Spared (s : StorageRepository) (n : ℕ) : Prop := ∀ i < n, s.faults (s.clock + i) = none

/-- A statement writes into the open transaction, or commits by itself. -/
def store (s : StorageRepository) (database : Database) : StorageRepository :=
  if s.transaction.isSome then { s with transaction := some database }
  else { s with disk := { s.disk with database } }

def withSecrets (s : StorageRepository) (secrets : Entries) : StorageRepository := { s with secrets }

/-- The vault file takes what the store holds. -/
def persist (s : StorageRepository) : StorageRepository :=
  { s with disk := { s.disk with vault := some s.secrets } }

section
variable (s : StorageRepository)

@[simp] theorem advance_database : s.advance.database = s.database := rfl
@[simp] theorem advance_disk : s.advance.disk = s.disk := rfl
@[simp] theorem advance_transaction : s.advance.transaction = s.transaction := rfl
@[simp] theorem advance_secrets : s.advance.secrets = s.secrets := rfl
@[simp] theorem advance_faults : s.advance.faults = s.faults := rfl
@[simp] theorem advance_clock : s.advance.clock = s.clock + 1 := rfl
@[simp] theorem advance_family : s.advance.family = s.family := rfl

@[simp] theorem ticks_database (n : ℕ) : (s.ticks n).database = s.database := rfl
@[simp] theorem ticks_disk (n : ℕ) : (s.ticks n).disk = s.disk := rfl
@[simp] theorem ticks_transaction (n : ℕ) : (s.ticks n).transaction = s.transaction := rfl
@[simp] theorem ticks_secrets (n : ℕ) : (s.ticks n).secrets = s.secrets := rfl
@[simp] theorem ticks_faults (n : ℕ) : (s.ticks n).faults = s.faults := rfl
@[simp] theorem ticks_clock (n : ℕ) : (s.ticks n).clock = s.clock + n := rfl

theorem advance_eq_ticks : s.advance = s.ticks 1 := rfl
theorem ticks_zero : s.ticks 0 = s := rfl
theorem ticks_ticks (m n : ℕ) : (s.ticks m).ticks n = s.ticks (m + n) := by simp [ticks,Nat.add_assoc]

theorem ticks_store (n : ℕ) (d : Database) : (s.ticks n).store d = (s.store d).ticks n := by
  cases h : s.transaction <;> simp [store,ticks,h]

theorem store_store (d e : Database) : (s.store d).store e = s.store e := by
  cases h : s.transaction <;> simp [store,h]

theorem store_self : s.store s.database = s := by
  obtain ⟨disk,transaction,secrets,syncBackup,faults,clock,family⟩ := s
  cases transaction <;> rfl

@[simp] theorem store_database (d : Database) : (s.store d).database = d := by
  cases h : s.transaction <;> simp [store,database,h]

@[simp] theorem store_secrets (d : Database) : (s.store d).secrets = s.secrets := by
  unfold store; split <;> rfl

@[simp] theorem store_clock (d : Database) : (s.store d).clock = s.clock := by
  unfold store; split <;> rfl

@[simp] theorem store_faults (d : Database) : (s.store d).faults = s.faults := by
  unfold store; split <;> rfl

@[simp] theorem store_family (d : Database) : (s.store d).family = s.family := by
  unfold store; split <;> rfl

@[simp] theorem withSecrets_database (e : Entries) : (s.withSecrets e).database = s.database := rfl
@[simp] theorem withSecrets_secrets (e : Entries) : (s.withSecrets e).secrets = e := rfl
@[simp] theorem withSecrets_clock (e : Entries) : (s.withSecrets e).clock = s.clock := rfl
@[simp] theorem withSecrets_faults (e : Entries) : (s.withSecrets e).faults = s.faults := rfl
@[simp] theorem withSecrets_disk (e : Entries) : (s.withSecrets e).disk = s.disk := rfl
@[simp] theorem withSecrets_transaction (e : Entries) :
    (s.withSecrets e).transaction = s.transaction := rfl

@[simp] theorem persist_database : s.persist.database = s.database := rfl
@[simp] theorem persist_secrets : s.persist.secrets = s.secrets := rfl
@[simp] theorem persist_clock : s.persist.clock = s.clock := rfl
@[simp] theorem persist_faults : s.persist.faults = s.faults := rfl
@[simp] theorem persist_transaction : s.persist.transaction = s.transaction := rfl

end

/-- One statement of the database connection. -/
def execute (error : String → AppError) (statement : Statement) : Repo Unit := fun s =>
  match s.faults s.clock with
  | some fault => .error (error fault.raw) s.advance
  | none => match s.database.exec statement with
    | .error raw => .error (error raw) s.advance
    | .ok database => .ok () (s.advance.store database)

/-- The number of rows a deletion found. -/
def deleted (t : Tables) : Statement → ℕ
  | .deleteConnection id => (t.connections.rows.filter (·.id = id)).length
  | .deleteCredential id => (t.credentials.rows.filter (·.id = id)).length
  | _ => 0

def executeDelete (error : String → AppError) (statement : Statement) : Repo ℕ := fun s =>
  match execute error statement s with
  | .ok () s' => .ok (deleted s.database.toTables statement) s'
  | .error e s' => .error e s'

/-- One query of the database connection. -/
def query {α : Type} (error : String → AppError) (select : Tables → α) : Repo α := fun s =>
  match s.faults s.clock with
  | some fault => .error (error fault.raw) s.advance
  | none => .ok (select s.database.toTables) s.advance

def beginImmediate (error : String → AppError) : Repo Unit := fun s =>
  match s.faults s.clock with
  | some fault => .error (error fault.raw) s.advance
  | none => match s.transaction with
    | some _ => .error (error "cannot start a transaction within a transaction") s.advance
    | none => .ok () { s.advance with transaction := some s.disk.database }

/-- A `COMMIT` that fails leaves its transaction open. -/
def commit (error : String → AppError) : Repo Unit := fun s =>
  match s.faults s.clock with
  | some fault => .error (error fault.raw) s.advance
  | none => match s.transaction with
    | none => .error (error "cannot commit - no transaction is active") s.advance
    | some database => .ok () { s.advance with transaction := none, disk := { s.disk with database } }

/-- `let _ = execute_batch("ROLLBACK;")`: whether there was a transaction or not, none is left. -/
def rollback : Repo Unit := fun s => .ok () { s.advance with transaction := none }

def secretStoreWriteFailed (account raw : String) : AppError :=
  ⟨"secret_store_write_failed","加密保险库写入失败。","account=" ++ account ++ ": " ++ raw,true⟩

def secretStoreReadFailed (account raw : String) : AppError :=
  ⟨"secret_store_read_failed","加密保险库读取失败。","account=" ++ account ++ ": " ++ raw,true⟩

def secretStoreDeleteFailed (account raw : String) : AppError :=
  ⟨"secret_store_delete_failed","加密保险库删除失败。","account=" ++ account ++ ": " ++ raw,true⟩

def persistFailed (raw : String) : AppError :=
  ⟨"secret_store_write_failed","加密保险库写入失败。",raw,true⟩

def secretMissing (account : String) : AppError :=
  ⟨"secret_missing","加密保险库中不存在该凭据。","account=" ++ account,true⟩

/-- Change the plaintext under the store's lock, then write the vault file. -/
def changeSecrets (refused : String → AppError) (change : Entries → Entries) : Repo Unit := fun s =>
  match s.faults s.clock with
  | some (.refused raw) => .error (refused raw) s.advance
  | some (.unsaved raw) => .error (persistFailed raw) (s.advance.withSecrets (change s.secrets))
  | none => .ok () (s.advance.withSecrets (change s.secrets)).persist

def setSecret (reference : SecretReference) (secret : String) : Repo Unit :=
  changeSecrets (secretStoreWriteFailed reference.account)
    fun secrets => Function.update secrets reference.account (some secret)

def deleteSecret (reference : SecretReference) : Repo Unit :=
  changeSecrets (secretStoreDeleteFailed reference.account)
    fun secrets => Function.update secrets reference.account none

def getSecret (reference : SecretReference) : Repo String := fun s =>
  match s.faults s.clock with
  | some fault => .error (secretStoreReadFailed reference.account fault.raw) s.advance
  | none => match s.secrets reference.account with
    | none => .error (secretMissing reference.account) s.advance
    | some secret => .ok secret s.advance

/-- Run a program on the files while the power stays on. -/
def onDisk {α : Type} (program : TransferRecovery.Recovery Entries Database α) : Repo α := fun s =>
  match program ⟨s.disk,none⟩ with
  | .ok a device => .ok a { s with disk := device.disk }
  | .error e device => .error e { s with disk := device.disk }

/-- The database and the vault file, if there is one, are copied as they are on disk. -/
def backedUp (s : StorageRepository) : StorageRepository :=
  { s with syncBackup := ⟨some s.disk.database,s.disk.vault <|> s.syncBackup.vault⟩ }

def createSyncBackup : Repo Unit := fun s => .ok () s.backedUp

@[simp] theorem backedUp_database (s : StorageRepository) : s.backedUp.database = s.database := rfl
@[simp] theorem backedUp_disk (s : StorageRepository) : s.backedUp.disk = s.disk := rfl
@[simp] theorem backedUp_secrets (s : StorageRepository) : s.backedUp.secrets = s.secrets := rfl
@[simp] theorem backedUp_transaction (s : StorageRepository) :
    s.backedUp.transaction = s.transaction := rfl
@[simp] theorem backedUp_faults (s : StorageRepository) : s.backedUp.faults = s.faults := rfl
@[simp] theorem backedUp_clock (s : StorageRepository) : s.backedUp.clock = s.clock := rfl
@[simp] theorem backedUp_family (s : StorageRepository) : s.backedUp.family = s.family := rfl

/-- The copies decide no later call. -/
@[simp] theorem spared_backedUp (s : StorageRepository) (n : ℕ) : s.backedUp.Spared n ↔ s.Spared n :=
  Iff.rfl

theorem spared_zero (s : StorageRepository) : s.Spared 0 := fun _ h => absurd h (Nat.not_lt_zero _)

variable {s : StorageRepository}

/-- The calls of one program and then of another are spared. -/
theorem spared_add {t : StorageRepository} {m n : ℕ} (hfaults : t.faults = s.faults) (hclock : t.clock = s.clock + m) :
    s.Spared (m + n) ↔ s.Spared m ∧ t.Spared n := by
  simp only [Spared,hfaults,hclock]
  constructor
  · exact fun h => ⟨fun i hi => h i (by omega),fun i hi => by
      rw [Nat.add_assoc]; exact h (m + i) (by omega)⟩
  · rintro ⟨hm,hn⟩ i hi
    by_cases him : i < m
    · exact hm i him
    · have := hn (i - m) (by omega)
      rwa [show s.clock + m + (i - m) = s.clock + i by omega] at this

theorem spared_one : s.Spared 1 ↔ s.faults s.clock = none := by
  constructor
  · exact fun h => h 0 Nat.one_pos
  · intro h i hi
    obtain rfl : i = 0 := by omega
    exact h

variable {error : String → AppError} {statement : Statement} {s' : StorageRepository} {u : Unit}

theorem execute_ok : execute error statement s = .ok u s' ↔ s.faults s.clock = none ∧
      ∃ d, s.database.exec statement = .ok d ∧ s' = s.advance.store d := by
  unfold execute
  cases s.faults s.clock with
  | some fault => simp
  | none => cases s.database.exec statement <;> simp [eq_comm]

theorem execute_database (h : execute error statement s = .ok u s') :
    s.database.exec statement = .ok s'.database ∧ s'.secrets = s.secrets := by
  obtain ⟨-,d,hd,rfl⟩ := execute_ok.mp h
  simp [hd]

theorem executeDelete_ok {n : ℕ} (h : executeDelete error statement s = .ok n s') :
    s.database.exec statement = .ok s'.database ∧ s'.secrets = s.secrets := by
  unfold executeDelete at h
  split at h <;> cases h
  exact execute_database ‹_›

variable {α : Type}

theorem query_ok {select : Tables → α} {a : α} : query error select s = .ok a s' ↔
      s.faults s.clock = none ∧ a = select s.database.toTables ∧ s' = s.advance := by
  unfold query
  cases s.faults s.clock <;> simp [eq_comm]

variable {e : AppError}

theorem query_error {select : Tables → α} : query error select s = .error e s' ↔
      (∃ fault, s.faults s.clock = some fault ∧ e = error fault.raw) ∧ s' = s.advance := by
  unfold query
  cases s.faults s.clock <;> simp [eq_comm]

theorem changeSecrets_ok {refused : String → AppError} {change : Entries → Entries} :
    changeSecrets refused change s = .ok u s' ↔
      s.faults s.clock = none ∧ s' = (s.advance.withSecrets (change s.secrets)).persist := by
  unfold changeSecrets
  cases s.faults s.clock with
  | none => simp [eq_comm]
  | some fault => cases fault <;> simp

variable {reference : SecretReference}

theorem setSecret_ok {secret : String} (h : setSecret reference secret s = .ok u s') : s'.database = s.database ∧
      s'.secrets = Function.update s.secrets reference.account (some secret) := by
  obtain ⟨-,rfl⟩ := changeSecrets_ok.mp h
  simp

theorem deleteSecret_ok (h : deleteSecret reference s = .ok u s') : s'.database = s.database ∧
      s'.secrets = Function.update s.secrets reference.account none := by
  obtain ⟨-,rfl⟩ := changeSecrets_ok.mp h
  simp

theorem getSecret_ok {secret : String} :
    getSecret reference s = .ok secret s' ↔ s.faults s.clock = none ∧
      s.secrets reference.account = some secret ∧ s' = s.advance := by
  unfold getSecret
  cases s.faults s.clock with
  | some fault => simp
  | none => cases s.secrets reference.account <;> simp [eq_comm]

/-- While a transaction is open, its statements change neither the files nor the vault. -/
structure InTransaction (disk : TransferRecovery.Disk Entries Database) (secrets : Entries)
    (s : StorageRepository) : Prop where
  opened : s.transaction.isSome
  disk : s.disk = disk
  secrets : s.secrets = secrets

theorem execute_inTransaction (error : String → AppError) (statement : Statement)
    {disk : TransferRecovery.Disk Entries Database} {secrets : Entries} :
    Maintains (InTransaction disk secrets) (execute error statement) := by
  rintro s ⟨hopened,rfl,rfl⟩
  unfold after execute
  cases s.faults s.clock with
  | some fault => exact ⟨hopened,rfl,rfl⟩
  | none =>
    cases s.database.exec statement with
    | error raw => exact ⟨hopened,rfl,rfl⟩
    | ok e => exact ⟨by simp [store,hopened],by simp [store,hopened],by simp⟩

theorem beginImmediate_ok :
    beginImmediate error s = .ok u s' ↔ s.faults s.clock = none ∧ s.transaction = none ∧
      s' = { s.advance with transaction := some s.disk.database } := by
  unfold beginImmediate
  cases s.faults s.clock with
  | some fault => simp
  | none => cases s.transaction <;> simp [eq_comm]

theorem beginImmediate_error (h : beginImmediate error s = .error e s') : s' = s.advance := by
  unfold beginImmediate at h
  split at h
  · cases h; rfl
  · split at h <;> cases h
    rfl

theorem commit_ok :
    commit error s = .ok u s' ↔ s.faults s.clock = none ∧ ∃ d, s.transaction = some d ∧
      s' = { s.advance with transaction := none, disk := { s.disk with database := d } } := by
  unfold commit
  cases s.faults s.clock with
  | some fault => simp
  | none => cases s.transaction <;> simp [eq_comm]

theorem commit_error (h : commit error s = .error e s') : s' = s.advance := by
  unfold commit at h
  split at h
  · cases h; rfl
  · split at h <;> cases h
    rfl

theorem query_keeps {τ : Type} (view : StorageRepository → τ) (error : String → AppError) (select : Tables → α)
    (hview : ∀ s, view s.advance = view s) : Keeps view (query error select) := by
  intro s
  unfold after query
  cases s.faults s.clock <;> exact hview s

end StorageRepository
end Mxterm
