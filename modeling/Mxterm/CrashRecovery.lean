import Mxterm.TransferRecovery

/-! Crash consistency of a connection import: whatever writes a crash cuts off, and however
often recovery itself is cut off, a recovery that completes leaves the vault that goes with
the database. -/
namespace Mxterm.CrashRecovery

open Execution CrashLogic TransferRecovery

variable {γ δ : Type}

/-- The writes of one import: open the journal, rewrite the vault, commit, clean up. -/
def transferRun (transactionId : Uuid) (rewrites : List γ) (committed : δ) : Recovery γ δ Unit := do
  let _ ← begin transactionId
  forEach (fun content => update (writeVault content)) rewrites
  update (commitDatabase committed)
  commit

/-- An import with the points at which power fails during it and during each recovery; `last` is
the power of the recovery that completes. -/
structure Session (γ δ : Type) where
  transactionId : Uuid
  rewrites : List γ
  committed : δ
  power : Option ℕ
  restarts : List (Option ℕ)
  last : Option ℕ

def Session.vaultAfter (session : Session γ δ) (before : Option γ) : Option γ :=
  session.rewrites.foldl (fun _ content => some content) before

section
variable (readCommitted : δ → Except String (Option String))

/-- The committed database stores the identifier of this import, which the earlier one does not. -/
structure Session.Identifies (session : Session γ δ) (d : Disk γ δ) : Prop where
  stored : readCommitted session.committed = .ok (some session.transactionId.toString)
  fresh : readCommitted d.database ≠ .ok (some session.transactionId.toString)

/-- The disk on which the recovery that completes is started. -/
def Session.interrupted (session : Session γ δ) (d : Disk γ δ) : Disk γ δ :=
  CrashLogic.restarts (recoverPending readCommitted)
    (stopped (transferRun session.transactionId session.rewrites session.committed) d session.power)
    session.restarts

def Session.Completes (session : Session γ δ) (d e : Disk γ δ) : Prop :=
  ∃ power, recoverPending readCommitted ⟨session.interrupted readCommitted d,session.last⟩ =
    .ok () ⟨e,power⟩

end

/-- Vault and database are both those from before the import, or both those after it. -/
def Session.Agrees (session : Session γ δ) (d e : Disk γ δ) : Prop :=
  (e.database = d.database ∧ e.vault = d.vault) ∨
    (e.database = session.committed ∧ e.vault = session.vaultAfter d.vault)

def Session.journal (session : Session γ δ) (d : Disk γ δ) : RecoveryJournal :=
  ⟨1,session.transactionId.toString,d.vault.isSome⟩

/-- The import has not committed; the backup holds what the vault held before it. -/
def Session.Pending (session : Session γ δ) (d e : Disk γ δ) : Prop :=
  e.journal = some (session.journal d) ∧ e.database = d.database ∧
    (d.vault.isSome → e.backup = d.vault)

def Session.Committed (session : Session γ δ) (d e : Disk γ δ) : Prop :=
  e.journal = some (session.journal d) ∧ e.database = session.committed ∧
    e.vault = session.vaultAfter d.vault

def Session.Settled (session : Session γ δ) (d e : Disk γ δ) : Prop :=
  e.journal = none ∧ session.Agrees d e

/-- Every disk a crash can leave. -/
def Session.Interrupted (session : Session γ δ) (d e : Disk γ δ) : Prop :=
  session.Pending d e ∨ session.Committed d e ∨ session.Settled d e

section
variable {session : Session γ δ} {d : Disk γ δ}

theorem begin_triple (hd : d.journal = none) :
    Triple (fun e => e = d) (begin session.transactionId)
      (fun _ e => session.Pending d e ∧ e.vault = d.vault) (session.Interrupted d) := by
  have hsettled : ∀ e : Disk γ δ, e.vault = d.vault ∧ e.journal = none ∧ e.database = d.database →
      session.Interrupted d e :=
    fun e he => Or.inr (Or.inr ⟨he.2.1,Or.inl ⟨he.2.2,he.1⟩⟩)
  let copied := fun e : Disk γ δ => (e.vault = d.vault ∧ e.journal = none ∧ e.database = d.database) ∧
    (d.vault.isSome → e.backup = d.vault)
  refine Triple.read fun e he => ?_
  obtain rfl : d = e := he.symm
  rw [if_neg (by simp [hd])]
  refine Triple.bind (fun _ => copied) ?_ fun _ => ?_
  · refine Triple.runIf _ (fun hv => ?_) fun hv e he => ?_
    · exact Triple.write _ _ (fun e he => ⟨⟨by simp [he,copyVault],by simp [he,copyVault,hd],
        by simp [he,copyVault]⟩,fun _ => by simp [he,copyVault]⟩) fun e he => hsettled e (by simp [he,hd])
    · exact ⟨by simp [he,hd],fun h => absurd h hv⟩
  · refine Triple.bind _ (Triple.attempt (fun _ e => session.Pending d e ∧ e.vault = d.vault)
      (fun e => e.vault = d.vault ∧ e.journal = none ∧ e.database = d.database)
      (Triple.write _ _ (fun e he => ?_) fun e he => he.1)) fun r => ?_
    · exact ⟨⟨rfl,he.1.2.2,he.2⟩,he.1.1⟩
    · cases r with
      | ok _ => exact Triple.pure _ fun e he => he
      | error error =>
        refine Triple.bind _ (Triple.attempt (fun _ e => e.vault = d.vault ∧ e.journal = none ∧
          e.database = d.database) _ (Triple.write _ _ (fun e he => he) fun e he => he)) fun r => ?_
        cases r with
        | ok | error => exact Triple.throw _ hsettled

/-- Each rewrite replaces the whole file, so the last one decides what it holds. -/
theorem rewrites_triple (rewrites : List γ) (before : Option γ) :
    Triple (fun e => session.Pending d e ∧ e.vault = before)
      (forEach (fun content => update (writeVault content)) rewrites)
      (fun _ e => session.Pending d e ∧ e.vault = rewrites.foldl (fun _ content => some content) before)
      (session.Interrupted d) := by
  induction rewrites generalizing before with
  | nil => exact Triple.pure _ fun e he => he
  | cons content rewrites ih =>
    exact Triple.bind _ (Triple.write _ _ (fun e he => ⟨he.1,rfl⟩) fun e he => Or.inl he.1)
      fun _ => ih (some content)

/-- Removing the journal settles the disk; what remains of the backup is never read again. -/
theorem cleanup_triple :
    Triple (fun e => session.Interrupted d e ∧ session.Agrees d e) cleanupRecoveryFiles
      (fun _ => session.Settled d) (session.Interrupted d) := by
  refine Triple.read fun e he => ?_
  refine Triple.bind (fun _ => session.Settled d) ?_ fun _ => ?_
  · refine Triple.runIf _ (fun _ => ?_) fun hnone f hf => ?_
    · exact Triple.write _ _ (fun f hf => ⟨rfl,hf ▸ he.2⟩) fun f hf => hf ▸ he.1
    · exact hf ▸ ⟨by simpa using hnone,he.2⟩
  · refine Triple.runIf _ (fun _ => ?_) fun _ f hf => hf
    exact Triple.write _ _ (fun f hf => hf) fun f hf => Or.inr (Or.inr hf)

theorem transferRun_triple (hd : d.journal = none) :
    Triple (fun e => e = d) (transferRun session.transactionId session.rewrites session.committed)
      (fun _ => session.Settled d) (session.Interrupted d) := by
  refine Triple.bind _ (begin_triple hd) fun _ => ?_
  refine Triple.bind _ (rewrites_triple session.rewrites d.vault) fun _ => ?_
  refine Triple.bind (fun _ => session.Committed d) ?_ fun _ => ?_
  · exact Triple.write _ _ (fun e he => ⟨he.1.1,rfl,he.2⟩) fun e he => Or.inl he.1
  · exact cleanup_triple.weaken (fun e he => ⟨Or.inr (Or.inl he),Or.inr he.2⟩)
      (fun _ _ h => h) fun _ h => h

/-- Before the commit the vault is put back; a stop in the middle leaves the backup and the journal. -/
theorem restore_triple :
    Triple (session.Pending d) (restoreVaultBackupWithState d.vault.isSome)
      (fun _ e => session.Interrupted d e ∧ session.Agrees d e) (session.Interrupted d) := by
  have hrestored : ∀ e : Disk γ δ, session.Pending d e → e.vault = d.vault →
      session.Interrupted d e ∧ session.Agrees d e :=
    fun e he hv => ⟨Or.inl he,Or.inl ⟨he.2.1,hv⟩⟩
  refine Triple.read fun e he => ?_
  refine Triple.ite _ (fun hsome => ?_) fun hnone => ?_
  · have hbackup := he.2.2 hsome
    refine Triple.ite _ (fun hmissing => ?_) fun _ => ?_
    · rw [hbackup] at hmissing
      exact absurd hsome (by simpa using hmissing)
    · exact Triple.write _ _ (fun f hf => hrestored _ (hf ▸ he) (hf ▸ hbackup))
        fun f hf => Or.inl (hf ▸ he)
  · have hvault : d.vault = none := by simpa using hnone
    refine Triple.runIf _ (fun _ => ?_) fun hempty f hf => ?_
    · exact Triple.write _ _ (fun f hf => hrestored _ (hf ▸ he) hvault.symm)
        fun f hf => Or.inl (hf ▸ he)
    · exact hf ▸ hrestored e he (by rw [hvault]; simpa using hempty)

variable {readCommitted : δ → Except String (Option String)}

theorem recoverPending_triple (hid : session.Identifies readCommitted d) :
    Triple (session.Interrupted d) (recoverPending readCommitted)
      (fun _ => session.Settled d) (session.Interrupted d) := by
  refine Triple.read fun e he => ?_
  rcases he with he | he | he
  · simp only [he.1,Session.journal,ne_eq,not_true_eq_false,if_false]
    split
    · exact Triple.throw _ fun f hf => Or.inl (hf ▸ he)
    · rename_i committed hcommitted
      have hne : committed ≠ some session.transactionId.toString := by
        rintro rfl
        exact hid.fresh (he.2.1 ▸ hcommitted)
      simp only [runIf,hne,not_false_eq_true,if_true]
      exact Triple.bind _ (restore_triple.weaken (fun f hf => hf ▸ he) (fun _ _ h => h) fun _ h => h)
        fun _ => cleanup_triple
  · simp only [he.1,Session.journal,ne_eq,not_true_eq_false,if_false,he.2.1,hid.stored,runIf]
    exact Triple.bind (fun _ => session.Committed d) (Triple.pure _ fun f hf => hf ▸ he) fun _ =>
      cleanup_triple.weaken (fun f hf => ⟨Or.inr (Or.inl hf),Or.inr hf.2⟩) (fun _ _ h => h) fun _ h => h
  · simp only [he.1]
    exact Triple.pure _ fun f hf => hf ▸ he

theorem interrupted_of_crashes (hd : d.journal = none) (hid : session.Identifies readCommitted d) :
    session.Interrupted d (session.interrupted readCommitted d) := by
  have hsettled : ∀ f, session.Settled d f → session.Interrupted d f := fun f hf => Or.inr (Or.inr hf)
  have hrun := (transferRun_triple hd).stopped_of (fun _ => hsettled) rfl session.power
  exact (recoverPending_triple hid).restarts_of (fun _ => hsettled) hrun session.restarts

theorem completes_settled (hd : d.journal = none) (hid : session.Identifies readCommitted d)
    {e : Disk γ δ} (h : session.Completes readCommitted d e) : session.Settled d e := by
  obtain ⟨power,hcompletes⟩ := h
  exact (recoverPending_triple hid).of_ok (interrupted_of_crashes hd hid) hcompletes

end

/-- The import commits the tables it wrote together with its identifier, which is a new one. -/
structure Session.Imports (session : Session γ Database) (d : Disk γ Database) : Prop where
  commits : ∃ imported : Database,
    imported.exec (.upsertSetting (commitRow session.transactionId)) = .ok session.committed
  fresh : readCommittedTransaction d.database ≠ .ok (some session.transactionId.toString)

theorem Session.Imports.identifies {session : Session γ Database} {d : Disk γ Database}
    (h : session.Imports d) : session.Identifies readCommittedTransaction d :=
  ⟨h.commits.elim fun _ himported => readCommittedTransaction_of_exec himported,h.fresh⟩

/-- Imports, each followed by a recovery that completes; between them vault and database change
freely. -/
inductive History (start : Disk γ Database) : Disk γ Database → Prop
  | start : History start start
  | edit {d : Disk γ Database} (vault : Option γ) (database : Database) : History start d →
      History start { d with vault, database }
  | session {d e : Disk γ Database} (session : Session γ Database) : History start d →
      session.Imports d → session.Completes readCommittedTransaction d e → History start e

theorem history_journal {start d : Disk γ Database} (hstart : start.journal = none)
    (h : History start d) : d.journal = none := by
  induction h with
  | start => exact hstart
  | edit vault database _ ih => exact ih
  | session session _ himports hcompletes ih =>
    exact (completes_settled ih himports.identifies hcompletes).1

/-- With the power on and the committed identifier readable, recovery completes. -/
theorem recoverPending_completes {readCommitted : δ → Except String (Option String)}
    {session : Session γ δ} {d e : Disk γ δ} (hid : session.Identifies readCommitted d)
    (hread : ∃ committed, readCommitted d.database = .ok committed)
    (he : session.Interrupted d e) :
    ∃ f, recoverPending readCommitted ⟨e,none⟩ = .ok () ⟨f,none⟩ := by
  have hrun : ∀ raw, readCommitted e.database = .ok raw → e.journal = some (session.journal d) →
      (raw ≠ some session.transactionId.toString → d.vault.isSome → e.backup = d.vault) →
      ∃ f, recoverPending readCommitted ⟨e,none⟩ = .ok () ⟨f,none⟩ := by
    intro raw hraw hjournal hbackup
    simp only [recoverPending,bind_of_ok (read_apply ⟨e,none⟩),hjournal,Session.journal,hraw,ne_eq,
      not_true_eq_false,if_false]
    by_cases hcommitted : raw = some session.transactionId.toString
    · simp only [hcommitted,runIf,not_true_eq_false,if_false]
      exact ⟨_,cleanupRecoveryFiles_on e⟩
    · simp only [hcommitted,runIf,not_false_eq_true,if_true]
      have hrestore := restoreVaultBackupWithState_on e fun hvault =>
        (hbackup hcommitted hvault) ▸ hvault
      exact ⟨_,(bind_of_ok hrestore _).trans (cleanupRecoveryFiles_on _)⟩
  rcases he with he | he | he
  · obtain ⟨committed,hcommitted⟩ := hread
    exact hrun committed (he.2.1 ▸ hcommitted) he.1 fun _ => he.2.2
  · exact hrun _ (he.2.1 ▸ hid.stored) he.1 fun hne => absurd rfl hne
  · exact ⟨e,by simp only [recoverPending,bind_of_ok (read_apply ⟨e,none⟩),he.1]; rfl⟩

/-- A recovery that completes leaves the vault that goes with the database and no journal; and
whatever is left of a backup never shows in an import after it. -/
theorem recovered_vault_agrees (start d e : Disk γ Database) (session : Session γ Database)
    (hstart : start.journal = none) (hhistory : History start d) (himports : session.Imports d)
    (hcompletes : session.Completes readCommittedTransaction d e) :
    session.Agrees d e ∧ e.journal = none ∧
      ∀ (d' f : Disk γ Database) (later : Session γ Database), History e d' → later.Imports d' →
        later.Completes readCommittedTransaction d' f → later.Agrees d' f ∧ f.journal = none := by
  have h := completes_settled (history_journal hstart hhistory) himports.identifies hcompletes
  refine ⟨h.2,h.1,fun d' f later hd' hlater hf => ?_⟩
  have hf := completes_settled (history_journal h.1 hd') hlater.identifies hf
  exact ⟨hf.2,hf.1⟩

theorem recovered_vault_agrees_twice_interrupted :
    ∃ (committed : Database) (e : Disk String Database),
      Session.Agrees ⟨⟨0⟩,["new"],committed,some 2,[some 0],none⟩ ⟨some "old",none,none,.empty⟩ e ∧
        e.journal = none := by
  obtain ⟨committed,hcommitted⟩ := Database.empty.exec_upsertSetting (commitRow ⟨0⟩)
  let start : Disk String Database := ⟨some "old",none,none,.empty⟩
  let session : Session String Database := ⟨⟨0⟩,["new"],committed,some 2,[some 0],none⟩
  have himports : session.Imports start := ⟨⟨_,hcommitted⟩,nofun⟩
  obtain ⟨e,he⟩ := recoverPending_completes himports.identifies ⟨none,rfl⟩
    (interrupted_of_crashes rfl himports.identifies)
  have hagrees := recovered_vault_agrees start start e session rfl .start himports ⟨none,he⟩
  exact ⟨committed,e,hagrees.1,hagrees.2.1⟩

end Mxterm.CrashRecovery
