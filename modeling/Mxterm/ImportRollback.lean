import Mxterm.SymbolicPlatform
import Mxterm.TransferOutcomes
import Mxterm.Assignments

/-! What a connection import that fails leaves behind. Every branch undoes its work by hand; the
calls between opening the journal and the transaction leave without closing the journal. -/
namespace Mxterm.ImportRollback

open Execution StorageRepository SyncRepository ConnectionTransfer Assignments TransferRecovery

/-- No call fails from now on. -/
def Quiet (s : StorageRepository) : Prop := ∀ i, s.clock ≤ i → s.faults i = none

/-- At most one call fails from now on. -/
def AtMostOneFails (s : StorageRepository) : Prop :=
  ∀ i j, s.clock ≤ i → s.clock ≤ j → s.faults i ≠ none → s.faults j ≠ none → i = j

/-- The accounts that were overwritten with what they held before. -/
def undoLog (backups : SecretBackups) : List (String × Option String) :=
  backups.map fun backup => (backup.1.account,backup.2)

/-- Only the vault and its file differ. -/
structure OnlyVault (s s' : StorageRepository) (secrets : Entries) : Prop where
  secrets : s'.secrets = secrets
  transaction : s'.transaction = s.transaction
  database : s'.disk.database = s.disk.database
  backup : s'.disk.backup = s.disk.backup
  journal : s'.disk.journal = s.disk.journal

theorem restoreSecretBackup_quiet {backup : SecretReference × Option String} {s : StorageRepository}
    (h : Quiet s) : restoreSecretBackup backup s = .ok () (s.advance.withSecrets
      (Function.update s.secrets backup.1.account backup.2)).persist := by
  obtain ⟨reference,previous⟩ := backup
  have hfault := h s.clock le_rfl
  cases previous <;> simp [restoreSecretBackup,setSecret,deleteSecret,changeSecrets,hfault]

theorem restoreSecretBackups_quiet (backups : SecretBackups) {s : StorageRepository} (h : Quiet s) :
    ∃ s', restoreSecretBackups backups s = .ok () s' ∧
      OnlyVault s s' (assign (undoLog backups) s.secrets) := by
  induction backups generalizing s with
  | nil => exact ⟨s,rfl,rfl,rfl,rfl,rfl,rfl⟩
  | cons backup backups ih =>
    let t := (s.advance.withSecrets (Function.update s.secrets backup.1.account backup.2)).persist
    have ht : Quiet t := fun i hi => h i (Nat.le_of_succ_le hi)
    obtain ⟨s',hs',honly⟩ := ih ht
    refine ⟨s',(forEach_cons_ok _ _ _ _ _).mpr ⟨t,restoreSecretBackup_quiet h,hs'⟩,?_⟩
    exact ⟨honly.secrets,honly.transaction,honly.database,honly.backup,honly.journal⟩

/-- The state an import has to return to when it fails. -/
structure Undone (disk : TransferRecovery.Disk Entries Database) (secrets : Entries)
    (s : StorageRepository) : Prop where
  transaction : s.transaction = none
  secrets : s.secrets = secrets
  disk : s.disk = { disk with journal := none, backup := none }

/-- The journal was opened over `disk`, and only the vault and its file have changed since. -/
structure Journaled (disk : TransferRecovery.Disk Entries Database) (s : StorageRepository) : Prop where
  database : s.disk.database = disk.database
  backup : disk.vault.isSome → s.disk.backup = disk.vault
  journal : ∃ transactionId, s.disk.journal = some ⟨1,transactionId,disk.vault.isSome⟩

/-- `abort` restores the vault file and closes the journal. -/
theorem onDisk_abort {disk : TransferRecovery.Disk Entries Database} {s : StorageRepository}
    (h : Journaled disk s) : onDisk abort s =
      .ok () { s with disk := { disk with journal := none, backup := none } } := by
  obtain ⟨transactionId,hjournal⟩ := h.journal
  have habort := abort_on hjournal fun hexisted => by simpa [h.backup hexisted]
  simp only [onDisk,habort,h.database]
  cases hvault : disk.vault with
  | none => simp
  | some content => simp [hvault,h.backup (by simp [hvault])]

variable {backups : SecretBackups}

/-- Giving up takes back every secret that the import has stored. -/
theorem giveUp_undone {α : Type} {disk : TransferRecovery.Disk Entries Database} {raw : String}
    {s s' : StorageRepository} {error : AppError} (hquiet : Quiet s) (hjournaled : Journaled disk s)
    (h : (giveUp backups raw : Repo α) s = .error error s') : Undone disk (assign (undoLog backups) s.secrets) s' := by
  let t : StorageRepository := { s.advance with transaction := none }
  have ht : Quiet t := fun i hi => hquiet i (Nat.le_of_succ_le hi)
  obtain ⟨u,hrestore,honly⟩ := restoreSecretBackups_quiet backups ht
  have hu : Journaled disk u := ⟨honly.database.trans hjournaled.database,
    fun hvault => honly.backup.trans (hjournaled.backup hvault),
    hjournaled.journal.imp fun _ hjournal => honly.journal.trans hjournal⟩
  have hrun : (giveUp backups raw : Repo α) s = .error (transferImportFailed raw)
      { u with disk := { disk with journal := none, backup := none } } := by
    rw [giveUp,bind_of_ok (show rollback s = .ok () t from rfl),bind_of_ok hrestore,
      bind_of_ok (onDisk_abort hu)]
    rfl
  rw [hrun] at h
  obtain ⟨-,rfl⟩ := EStateM.Result.error.inj h
  exact ⟨honly.transaction,honly.secrets,rfl⟩

/-- An import whose transaction is open and whose log leads back to `secrets`. -/
structure Underway (disk : TransferRecovery.Disk Entries Database) (secrets : Entries)
    (backups : SecretBackups) (s : StorageRepository) : Prop where
  opened : s.transaction.isSome
  journaled : Journaled disk s
  logged : assign (undoLog backups) s.secrets = secrets
  single : AtMostOneFails s

/-- After the call that fails, no other does. -/
theorem AtMostOneFails.quiet {s t : StorageRepository} (h : AtMostOneFails s)
    (hfault : s.faults s.clock ≠ none) (hfaults : t.faults = s.faults) (hclock : s.clock < t.clock) :
    Quiet t := by
  intro i hi
  by_contra hi'
  rw [hfaults] at hi'
  have := h s.clock i le_rfl (by omega) hfault hi'
  omega

theorem AtMostOneFails.later {s t : StorageRepository} (h : AtMostOneFails s)
    (hfaults : t.faults = s.faults) (hclock : s.clock ≤ t.clock) : AtMostOneFails t := by
  intro i j hi hj
  rw [hfaults]
  exact h i j (hclock.trans hi) (hclock.trans hj)

variable {disk : TransferRecovery.Disk Entries Database} {secrets : Entries}

theorem storeTransferSecret_underway {backups' : SecretBackups} {secret : SyncSecretEntry} {s s' : StorageRepository}
    (hs : Underway disk secrets backups s) (h : storeTransferSecret backups secret s = .ok backups' s') :
    Underway disk secrets backups' s' := by
  obtain ⟨-,-,kind,-,rfl,rfl⟩ := storeTransferSecret_ok h
  refine ⟨hs.opened,⟨hs.journaled.database,hs.journaled.backup,hs.journaled.journal⟩,?_,
    hs.single.later rfl (by simp)⟩
  rw [← hs.logged]
  exact assign_logged (undoLog backups) s.secrets secret.slotId (some secret.value)

/-- A secret whose old value cannot be read makes the import give up. -/
theorem previousSecret_undone {reference : SecretReference} {s s' : StorageRepository} {error : AppError}
    (hs : Underway disk secrets backups s) (h : previousSecret backups reference s = .error error s') :
    Undone disk secrets s' := by
  simp only [previousSecret,bind_error,attempt_not_error,false_or] at h
  obtain ⟨got,t,hget,h⟩ := h
  rcases (attempt_ok _ _ _ _).mp hget with ⟨value,rfl,-⟩ | ⟨cause,rfl,hcause⟩
  · exact absurd h (pure_not_error _ _ _ _)
  · simp only at h
    split at h
    · exact absurd h (pure_not_error _ _ _ _)
    · rename_i hmissing
      have hrefused : s.faults s.clock ≠ none ∧ t = s.advance := by
        unfold getSecret at hcause
        split at hcause
        · rename_i hfault
          cases hcause
          exact ⟨by simp [hfault],rfl⟩
        · split at hcause
          · cases hcause
            exact absurd rfl hmissing
          · cases hcause
      obtain ⟨hfault,rfl⟩ := hrefused
      have hquiet : Quiet s.advance := hs.single.quiet hfault rfl (Nat.lt_succ_self _)
      have hundone := giveUp_undone hquiet
        ⟨hs.journaled.database,hs.journaled.backup,hs.journaled.journal⟩ h
      rwa [advance_secrets,hs.logged] at hundone

/-- A secret that was refused is unchanged; one that the file did not take has changed in memory.
The log takes either back. -/
theorem setSecret_logged (backups : SecretBackups) {reference : SecretReference} {value : String}
    {s s' : StorageRepository} {error : AppError}
    (h : setSecret reference value s = .error error s') : s.faults s.clock ≠ none ∧
      assign (undoLog ((reference,s.secrets reference.account) :: backups)) s'.secrets =
        assign (undoLog backups) s.secrets ∧
      s'.disk = s.disk ∧ s'.transaction = s.transaction ∧ s'.faults = s.faults ∧
      s'.clock = s.clock + 1 := by
  unfold setSecret changeSecrets at h
  split at h
  · rename_i raw hfault
    cases h
    exact ⟨by simp [hfault],assign_unchanged _ _ _,rfl,rfl,rfl,rfl⟩
  · rename_i raw hfault
    cases h
    exact ⟨by simp [hfault],assign_logged _ _ _ _,rfl,rfl,rfl,rfl⟩
  · cases h

/-- A secret that cannot be read or written makes the import give up. -/
theorem storeTransferSecret_undone {secret : SyncSecretEntry} {s s' : StorageRepository} {error : AppError}
    (hs : Underway disk secrets backups s) (hkind : KnownKind secret)
    (h : storeTransferSecret backups secret s = .error error s') : Undone disk secrets s' := by
  obtain ⟨kind,hkind⟩ := hkind
  have hreference := secretReference_ok.mpr ⟨kind,hkind,rfl⟩
  rw [storeTransferSecret,bind_of_ok (lift_of_ok hreference s)] at h
  rcases (bind_error _ _ _ _ _).mp h with h | ⟨previous,t,hprevious,h⟩
  · exact previousSecret_undone hs h
  · obtain ⟨-,rfl,rfl⟩ := previousSecret_ok hprevious
    simp only [bind_error,attempt_not_error,false_or] at h
    obtain ⟨set,u,hset,h⟩ := h
    rcases (attempt_ok _ _ _ _).mp hset with ⟨_,rfl,-⟩ | ⟨cause,rfl,hcause⟩
    · exact absurd h (pure_not_error _ _ _ _)
    · obtain ⟨hfault,hlogged,hdisk,-,hfaults,hclock⟩ := setSecret_logged backups hcause
      have hsingle : AtMostOneFails s.advance := hs.single.later rfl (Nat.le_succ _)
      have hquiet : Quiet u := hsingle.quiet hfault hfaults (by omega)
      have hjournaled : Journaled disk u := by
        refine ⟨?_,?_,?_⟩ <;> rw [hdisk]
        · exact hs.journaled.database
        · exact hs.journaled.backup
        · exact hs.journaled.journal
      have hundone := giveUp_undone hquiet hjournaled h
      simp only [advance_secrets] at hlogged
      rwa [hlogged,hs.logged] at hundone

/-- The secrets and the commit either succeed or leave no trace. -/
theorem finishTransfer_undone {result : ImportResult} {entries : List SyncSecretEntry}
    {s s' : StorageRepository} {error : AppError} (hs : Underway disk s.secrets [] s)
    (hkinds : ∀ secret ∈ entries, KnownKind secret)
    (h : finishTransfer result entries s = .error error s') : Undone disk s.secrets s' := by
  rcases (bind_error _ _ _ _ _).mp h with h | ⟨backups,t,hstored,h⟩
  · refine foldEach_error_induction (P := fun backups => Underway disk s.secrets backups)
      (Q := fun _ => Undone disk s.secrets) ?_ ?_ hs h
    · exact fun secret _ backups u backups' v hu hstep => storeTransferSecret_underway hu hstep
    · exact fun secret hmem backups u cause v hu hstep =>
        storeTransferSecret_undone hu (hkinds secret hmem) hstep
  · have ht : Underway disk s.secrets backups t :=
      foldEach_ok_induction (P := fun backups => Underway disk s.secrets backups)
        (fun secret _ backups u backups' v hu hstep => storeTransferSecret_underway hu hstep) hs hstored
    simp only [bind_error,attempt_not_error,false_or] at h
    obtain ⟨committed,u,hcommit,h⟩ := h
    rcases (attempt_ok _ _ _ _).mp hcommit with ⟨_,rfl,-⟩ | ⟨cause,rfl,hcause⟩
    · simp only [bind_error,onDisk_commit,reduceCtorEq,pure_not_error,and_false,exists_false,
        or_self] at h
    · have hfault : t.faults t.clock ≠ none := by
        intro hnone
        obtain ⟨d,hd⟩ := Option.isSome_iff_exists.mp ht.opened
        simp [StorageRepository.commit,hnone,hd] at hcause
      obtain rfl := commit_error hcause
      have hquiet : Quiet t.advance := ht.single.quiet hfault rfl (Nat.lt_succ_self _)
      have hundone := giveUp_undone hquiet
        ⟨ht.journaled.database,ht.journaled.backup,ht.journaled.journal⟩ h
      rwa [advance_secrets,ht.logged] at hundone

section
variable {P : StorageRepository → Prop}
variable (hrun : ∀ statement, Maintains P (execute transferImportFailed statement))
include hrun

theorem importGroup_maintains (groups : LocalGroups) (strategy : ConflictStrategy)
    (pass : GroupPass) (group : SyncConnectionGroup) :
    Maintains P (importGroup groups strategy pass group) := by
  refine Maintains.bind (.lift _) fun _ => ?_
  dsimp only
  split
  · exact .pure _
  · exact .bind (hrun _) fun _ => .pure _

theorem importCredential_maintains (ids : List String) (strategy : ConflictStrategy)
    (pass : RowPass) (credential : SyncCredentialRecord) :
    Maintains P (importCredential ids strategy pass credential) := by
  unfold importCredential
  dsimp only
  split
  · exact .pure _
  · exact .bind (hrun _) fun _ => .pure _

theorem importConnection_maintains (ids : List String) (groups : List (String × String))
    (strategy : ConflictStrategy) (pass : RowPass) (connection : SyncConnectionRecord) :
    Maintains P (importConnection ids groups strategy pass connection) := by
  unfold importConnection
  dsimp only
  split
  · exact .pure _
  · exact .bind (hrun _) fun _ => .pure _

/-- What every statement keeps, the rows of an import keep. -/
theorem importRows_maintains (existing : Existing) (data : ConnectionTransferData)
    (strategy : ConflictStrategy) (transactionId : Uuid) :
    Maintains P (importRows existing data strategy transactionId) := by
  refine Maintains.bind (.foldEach (fun _ _ => importGroup_maintains hrun _ _ _ _) _ _) fun _ => ?_
  refine Maintains.bind (.foldEach (fun _ _ => importCredential_maintains hrun _ _ _ _) _ _)
    fun _ => ?_
  refine Maintains.bind (.foldEach (fun _ _ => importConnection_maintains hrun _ _ _ _ _) _ _)
    fun _ => ?_
  exact .bind (hrun _) fun _ => .pure _

end

theorem execute_atMostOneFails (error : String → AppError) (statement : Statement) :
    Maintains AtMostOneFails (execute error statement) := by
  intro s hs
  have hlater : ∀ t : StorageRepository, t.faults = s.faults → t.clock = s.clock + 1 →
      AtMostOneFails t := fun t hfaults hclock => hs.later hfaults (by omega)
  unfold after execute
  split <;> rename_i hexecute
  · split at hexecute
    · cases hexecute
    · split at hexecute
      · cases hexecute
      · cases hexecute
        exact hlater _ (by simp) (by simp)
  · split at hexecute
    · cases hexecute
      exact hlater _ rfl rfl
    · split at hexecute
      · cases hexecute
        exact hlater _ rfl rfl
      · cases hexecute

/-- What the claim of a failed import is about: the tables, the vault and its file are as before,
and no journal is pending. -/
structure NoTrace (s s' : StorageRepository) : Prop where
  database : s'.database = s.database
  secrets : s'.secrets = s.secrets
  vault : s'.disk.vault = s.disk.vault
  journal : s'.disk.journal = none

theorem Undone.noTrace {s s' : StorageRepository} (hidle : s.transaction = none)
    (h : Undone s.disk s.secrets s') : NoTrace s s' where
  database := by simp [StorageRepository.database,hidle,h.transaction,h.disk]
  secrets := h.secrets
  vault := by rw [h.disk]
  journal := by rw [h.disk]

/-- If the import fails, it leaves no trace. -/
def LeavesNoTrace (transactionId : Uuid) (data : ConnectionTransferData)
    (secrets : ConnectionTransferSecrets) (strategy : ConflictStrategy) (s : StorageRepository) :
    Prop :=
  ∀ error s', applyTransferData transactionId data secrets strategy s = .error error s' →
    NoTrace s s'

/-- Rows that cannot be imported are rolled back with the transaction. -/
theorem rollback_undone {α : Type} {s s' : StorageRepository} {cause error : AppError}
    (hjournaled : Journaled disk s) (h : (do
      rollback
      onDisk abort
      throw cause : Repo α) s = .error error s') : Undone disk s.secrets s' := by
  let t : StorageRepository := { s.advance with transaction := none }
  have ht : Journaled disk t := ⟨hjournaled.database,hjournaled.backup,hjournaled.journal⟩
  rw [bind_of_ok (show rollback s = .ok () t from rfl),bind_of_ok (onDisk_abort ht)] at h
  obtain ⟨-,rfl⟩ := EStateM.Result.error.inj h
  exact ⟨rfl,rfl,rfl⟩

variable {transactionId : Uuid} {data : ConnectionTransferData}
variable {plaintext : ConnectionTransferSecrets} {strategy : ConflictStrategy}
variable {s : StorageRepository}

/-- The repository once the journal, the queries and the transaction were opened. -/
def opened (s : StorageRepository) (transactionId : Uuid) : StorageRepository :=
  { s.backedUp.ticks 4 with
    disk := begun s.disk transactionId
    transaction := some s.disk.database }

/-- With no journal pending and the first four calls spared, the import gets to its rows. -/
theorem applyTransferData_opened (hidle : s.transaction = none) (hjournal : s.disk.journal = none)
    (hspared : s.Spared 4) : applyTransferData transactionId data plaintext strategy s = (do
      match ← attempt (importRows (existingOf s.database.toTables) data strategy transactionId) with
      | .error error =>
        rollback
        onDisk abort
        throw error
      | .ok (result,slots) =>
        finishTransfer result (activeSecrets slots plaintext)) (opened s transactionId) := by
  let t : StorageRepository := { s.backedUp with disk := begun s.disk transactionId }
  have hbegin : onDisk (begin transactionId) s.backedUp = .ok transactionId t :=
    onDisk_begin hjournal
  have hquery : queryExisting t = .ok (existingOf s.database.toTables) (t.ticks 3) := by
    refine queryExisting_ok.mpr ⟨fun i hi => hspared i (by omega),?_,rfl⟩
    simp [t,database,hidle,begun]
  have hopen : beginImmediate transferImportFailed (t.ticks 3) = .ok () (opened s transactionId) :=
    beginImmediate_ok.mpr ⟨hspared 3 (by omega),hidle,rfl⟩
  rw [applyTransferData,bind_of_ok (show createSyncBackup s = .ok () s.backedUp from rfl),
    bind_of_ok hbegin]
  exact (bind_of_ok hquery _).trans (bind_of_ok hopen _)

/-- An import that is refused before its transaction leaves its journal. -/
theorem applyTransferData_journal (transactionId : Uuid) (data : ConnectionTransferData)
    (plaintext : ConnectionTransferSecrets) (strategy : ConflictStrategy) (hjournal : s.disk.journal = none)
      (hspared : ¬ s.Spared 4) :
    ∃ error s', applyTransferData transactionId data plaintext strategy s = .error error s' ∧
      s'.disk.journal ≠ none := by
  let t : StorageRepository := { s.backedUp with disk := begun s.disk transactionId }
  have hbegin : onDisk (begin transactionId) s.backedUp = .ok transactionId t :=
    onDisk_begin hjournal
  have hrun : applyTransferData transactionId data plaintext strategy s = (do
      let existing ← queryExisting
      beginImmediate transferImportFailed
      match ← attempt (importRows existing data strategy transactionId) with
      | .error error =>
        rollback
        onDisk abort
        throw error
      | .ok (result,slots) => finishTransfer result (activeSecrets slots plaintext)) t := by
    exact bind_of_ok hbegin _
  have hkeeps : Keeps (fun s => s.disk) queryExisting := by
    refine Keeps.bind (query_keeps _ _ _ fun _ => rfl) fun _ => ?_
    refine Keeps.bind (query_keeps _ _ _ fun _ => rfl) fun _ => ?_
    exact .bind (query_keeps _ _ _ fun _ => rfl) fun _ => .pure _
  have hpending : t.disk.journal ≠ none := by simp [t,begun]
  cases hquery : queryExisting t with
  | error cause u =>
    refine ⟨cause,u,hrun.trans (bind_of_error hquery _),?_⟩
    rwa [hkeeps.of_error hquery]
  | ok existing u =>
    obtain ⟨hqueried,-,rfl⟩ := queryExisting_ok.mp hquery
    have hfault : (t.ticks 3).faults (t.ticks 3).clock ≠ none := fun hnone => hspared
      ((spared_add (s := s) (t := t.ticks 3) rfl rfl).mpr ⟨hqueried,spared_one.mpr hnone⟩)
    obtain ⟨fault,hfault⟩ := Option.ne_none_iff_exists'.mp hfault
    have hrefused : beginImmediate transferImportFailed (t.ticks 3) =
        .error (transferImportFailed fault.raw) (t.ticks 3).advance := by
      unfold beginImmediate
      rw [hfault]
    exact ⟨_,_,hrun.trans ((bind_of_ok hquery _).trans (bind_of_error hrefused _)),hpending⟩

/-- A failed import leaves no trace exactly when no journal was pending and none of the calls up
to `BEGIN IMMEDIATE` is the one that fails. -/
theorem leavesNoTrace_iff (transactionId : Uuid) (data : ConnectionTransferData)
    (secrets : ConnectionTransferSecrets) (strategy : ConflictStrategy) (s : StorageRepository)
    (hidle : s.transaction = none) (hsecrets : validateTransferSecrets data secrets = .ok ())
    (hsingle : AtMostOneFails s) : LeavesNoTrace transactionId data secrets strategy s ↔
      s.disk.journal = none ∧ s.Spared 4 := by
  constructor
  · intro h
    have hjournal : s.disk.journal = none := by
      by_contra hpending
      obtain ⟨journal,hjournal⟩ := Option.ne_none_iff_exists'.mp hpending
      have hrefused : onDisk (begin transactionId) s.backedUp = _ :=
        onDisk_begin_pending hjournal
      have hrun : applyTransferData transactionId data secrets strategy s = _ :=
        (bind_of_ok (show createSyncBackup s = .ok () s.backedUp from rfl) _).trans
          (bind_of_error hrefused _)
      exact hpending (h _ _ hrun).journal
    refine ⟨hjournal,?_⟩
    by_contra hspared
    obtain ⟨error,s',hrun,hpending⟩ := applyTransferData_journal transactionId data secrets
      strategy hjournal hspared
    exact hpending (h error s' hrun).journal
  · rintro ⟨hjournal,hspared⟩ error s' h
    rw [applyTransferData_opened hidle hjournal hspared] at h
    have hstart : Underway s.disk s.secrets [] (opened s transactionId) := by
      refine ⟨rfl,⟨rfl,fun hvault => ?_,transactionId.toString,rfl⟩,rfl,?_⟩
      · simp [opened,begun,hvault]
      · exact hsingle.later rfl (Nat.le_add_right _ _)
    have hmaintains := importRows_maintains (P := fun t => InTransaction (opened s transactionId).disk
      s.secrets t ∧ AtMostOneFails t) (fun statement t ht =>
        ⟨execute_inTransaction _ _ t ht.1,execute_atMostOneFails _ _ t ht.2⟩)
      (existingOf s.database.toTables) data strategy transactionId
    have hbefore : InTransaction (opened s transactionId).disk s.secrets (opened s transactionId) ∧
        AtMostOneFails (opened s transactionId) := ⟨⟨rfl,rfl,rfl⟩,hstart.single⟩
    have hafter : ∀ {t : StorageRepository}, InTransaction (opened s transactionId).disk s.secrets t →
        Journaled s.disk t := by
      intro t ht
      refine ⟨?_,?_,?_⟩ <;> rw [ht.disk]
      · exact hstart.journaled.database
      · exact hstart.journaled.backup
      · exact hstart.journaled.journal
    refine Undone.noTrace hidle ?_
    simp only [bind_error,attempt_not_error,false_or] at h
    obtain ⟨imported,t,himported,h⟩ := h
    rcases (attempt_ok _ _ _ _).mp himported with ⟨⟨result,slots⟩,rfl,hrows⟩ | ⟨cause,rfl,hrows⟩
    · obtain ⟨ht,htsingle⟩ := hmaintains.of_ok hbefore hrows
      have hunderway : Underway s.disk t.secrets [] t := ⟨ht.opened,hafter ht,rfl,htsingle⟩
      rw [← ht.secrets]
      exact finishTransfer_undone hunderway (fun secret hsecret =>
        validateTransferSecrets_kinds hsecrets secret (List.mem_filter.mp hsecret).1) h
    · obtain ⟨ht,-⟩ := hmaintains.of_error hbefore hrows
      rw [← ht.secrets]
      exact rollback_undone (hafter ht) h

/-- A repository in which the call of this number is the only one that fails. -/
def failingAt (call : ℕ) : StorageRepository :=
  .empty (Function.update (fun _ => none) call (some (.refused "database is locked"))) .unix

theorem failingAt_atMostOneFails (call : ℕ) : AtMostOneFails (failingAt call) := by
  have honly : ∀ i, (failingAt call).faults i ≠ none → i = call := by
    intro i hi
    by_contra hne
    exact hi (by simp [failingAt,StorageRepository.empty,hne])
  exact fun i j _ _ hi hj => (honly i hi).trans (honly j hj).symm

def pendingAfter : EStateM.Result AppError StorageRepository ImportResult → Bool
  | .ok _ _ => false
  | .error _ s => s.disk.journal.isSome

/-- When another process holds the database, `BEGIN IMMEDIATE` fails and the journal stays. -/
theorem busy_database_leaves_journal : AtMostOneFails (failingAt 3) ∧
    validateTransferSecrets {} {} = .ok () ∧ ¬ LeavesNoTrace ⟨0⟩ {} {} .skip (failingAt 3) := by
  refine ⟨failingAt_atMostOneFails 3,rfl,fun h => ?_⟩
  have hpending : pendingAfter (applyTransferData ⟨0⟩ {} {} .skip (failingAt 3)) = true := by
    decide +kernel
  cases hrun : applyTransferData ⟨0⟩ {} {} .skip (failingAt 3) with
  | ok result s' =>
    rw [hrun] at hpending
    cases hpending
  | error error s' =>
    rw [hrun,pendingAfter,(h error s' hrun).journal] at hpending
    cases hpending

theorem leavesNoTrace_iff_failingCommit : LeavesNoTrace ⟨0⟩ {} {} .skip (failingAt 5) := by
  refine (leavesNoTrace_iff ⟨0⟩ {} {} .skip (failingAt 5) rfl rfl (failingAt_atMostOneFails 5)).mpr
    ⟨rfl,fun i hi => ?_⟩
  have hne : i ≠ 5 := by omega
  simp [failingAt,StorageRepository.empty,hne]

end Mxterm.ImportRollback
