import Mxterm.SecretTransport
import Mxterm.SymbolicPlatform

/-! What a failed snapshot import leaves behind. The tables are replaced in one transaction, but
the secrets are stored before it, one call each, and nothing takes them out again. -/
namespace Mxterm.ImportFailure

open Execution StorageRepository SyncRepository SyncSnapshot

section
variable {β : Type} (P : Platform β)

/-- The import after the bundle has been read: the secrets, then the tables. -/
def finishImport (bundle : SyncSnapshotBundle β) (data : SyncDataDocument)
    (secrets : Option SyncSecretsPlaintext) : Repo SyncImportResult := do
  importSecretsIfRead secrets
  let stats ← replaceSyncData P.toSurroundings data secrets.isSome
  pure (importResult bundle secrets stats)

/-- Reading a bundle changes neither the tables nor the vault. -/
theorem importBundle_apply (bundle : SyncSnapshotBundle β) (password : Option String)
    (s : StorageRepository) : importBundle P bundle password s =
      match readData P bundle with
      | .error error => .error error s
      | .ok data =>
        match validateSyncDataDocument data, readSecrets P bundle password with
        | .error error, _ => .error error s.backedUp
        | .ok (), .error error => .error error s.backedUp
        | .ok (), .ok secrets => finishImport P bundle data secrets s.backedUp := by
  have hbackup : createSyncBackup s = .ok () s.backedUp := rfl
  cases hdata : readData P bundle with
  | error error => exact bind_of_error ((lift_error _ _ _ _).mpr ⟨hdata,rfl⟩) _
  | ok data =>
    rw [importBundle,bind_of_ok (lift_of_ok hdata s),bind_of_ok hbackup]
    cases hvalid : validateSyncDataDocument data with
    | error error => simp only [hvalid]; exact bind_of_error rfl _
    | ok u =>
      rw [bind_of_ok (lift_of_ok rfl s.backedUp)]
      cases hsecrets : readSecrets P bundle password with
      | error error => simp only [hvalid]; exact bind_of_error rfl _
      | ok secrets => simp only [hvalid]; exact bind_of_ok rfl _

end

def listed (secrets : Option SyncSecretsPlaintext) : List SyncSecretEntry :=
  (secrets.map (·.secrets)).getD []

theorem importSecretsIfRead_eq (secrets : Option SyncSecretsPlaintext) :
    importSecretsIfRead secrets = forEach importSecret (listed secrets) := by
  cases secrets <;> rfl

/-- The secrets that the vault takes before the import stops storing them. -/
def taken (faults : ℕ → Option Fault) : ℕ → List SyncSecretEntry → List SyncSecretEntry
  | _, [] => []
  | clock, secret :: secrets =>
    match syncSecretKindFromLabel secret.kind, faults clock with
    | .error _, _ => []
    | .ok _, some (.refused _) => []
    | .ok _, some (.unsaved _) => [secret]
    | .ok _, none => secret :: taken faults (clock + 1) secrets

/-- Whatever stops the loop, the vault holds what was stored until then. -/
theorem importSecrets_after (secrets : List SyncSecretEntry) (s : StorageRepository) :
    (after (forEach importSecret secrets) s).secrets =
      storeAll s.secrets (taken s.faults s.clock secrets) := by
  induction secrets generalizing s with
  | nil => rfl
  | cons secret secrets ih =>
    simp only [forEach,taken]
    cases hkind : syncSecretKindFromLabel secret.kind with
    | error error =>
      have hstop : importSecret secret s = .error error s :=
        bind_of_error ((lift_error _ _ _ _).mpr ⟨hkind,rfl⟩) _
      rw [after_of_error (bind_of_error hstop _)]
      rfl
    | ok kind =>
      have hset : importSecret secret s =
          setSecret ⟨vaultService,secret.slotId,secret.slotId,kind⟩ secret.value s :=
        bind_of_ok (lift_of_ok hkind s) _
      cases hfault : s.faults s.clock with
      | none =>
        have hstored : importSecret secret s = .ok () (s.advance.withSecrets
            (Function.update s.secrets secret.slotId (some secret.value))).persist :=
          hset.trans (changeSecrets_ok.mpr ⟨hfault,rfl⟩)
        have hrest : after (do importSecret secret; forEach importSecret secrets) s =
            after (forEach importSecret secrets) (s.advance.withSecrets
              (Function.update s.secrets secret.slotId (some secret.value))).persist := by
          unfold after
          rw [bind_of_ok hstored]
        rw [hrest,ih]
        rfl
      | some fault =>
        cases fault with
        | refused raw =>
          have hstop : importSecret secret s =
              .error (secretStoreWriteFailed secret.slotId raw) s.advance :=
            hset.trans (by simp [setSecret,changeSecrets,hfault])
          rw [after_of_error (bind_of_error hstop _)]
          rfl
        | unsaved raw =>
          have hstop : importSecret secret s = .error (persistFailed raw) (s.advance.withSecrets
              (Function.update s.secrets secret.slotId (some secret.value))) :=
            hset.trans (by simp [setSecret,changeSecrets,hfault])
          rw [after_of_error (bind_of_error hstop _)]
          rfl

theorem importSecrets_keeps_tables (secrets : List SyncSecretEntry) :
    Keeps (fun s => (s.disk.database,s.transaction)) (forEach importSecret secrets) := by
  refine Keeps.forEach (fun secret => Keeps.bind (Keeps.lift _) fun kind s => ?_) _
  unfold after setSecret changeSecrets
  cases s.faults s.clock with
  | none => rfl
  | some fault => cases fault <;> rfl

section
variable {β : Type} (P : Platform β)

/-- If the import fails, every table and every entry of the vault are as they were. -/
def ChangesNothingOnFailure (bundle : SyncSnapshotBundle β) (password : Option String)
    (s : StorageRepository) : Prop :=
  ∀ error s', importBundle P bundle password s = .error error s' →
    s'.database = s.database ∧ s'.secrets = s.secrets

/-- Nothing stops the import of a bundle that was read: every label is known, the document fits
the tables and no call fails. -/
structure GoesThrough (s : StorageRepository) (data : SyncDataDocument)
    (secrets : Option SyncSecretsPlaintext) : Prop where
  kinds : ∀ secret ∈ listed secrets, KnownKind secret
  fits : Fits P.toSurroundings data
  spared : s.Spared ((listed secrets).length + replaceCalls P.toSurroundings data secrets.isSome)

variable {P}
variable {bundle : SyncSnapshotBundle β} {data : SyncDataDocument}
variable {secrets : Option SyncSecretsPlaintext} {s : StorageRepository}

theorem finishImport_ok_iff (bundle : SyncSnapshotBundle β) (hvalid : Validated data) (hidle : s.transaction = none) :
    (∃ result s', finishImport P bundle data secrets s = .ok result s') ↔
      GoesThrough P s data secrets := by
  simp only [finishImport,importSecretsIfRead_eq,bind_ok,pure_ok,replaceSyncData_ok,
    replaceSyncDataInner_ok]
  constructor
  · rintro ⟨_,_,_,t,hstored,stats,_,⟨hspared,-,-,d,hd,-⟩,-,-⟩
    obtain ⟨hfirst,hkinds,honly⟩ := importSecrets_ok hstored
    exact ⟨hkinds,(exists_holds_iff hvalid).mp ⟨d,hd⟩,
      (spared_add honly.faults honly.clock).mpr ⟨hfirst,hspared⟩⟩
  · rintro ⟨hkinds,hfits,hspared⟩
    have hfirst : s.Spared (listed secrets).length := fun i hi => hspared i (by omega)
    obtain ⟨t,ht⟩ := importSecrets_of_spared hfirst hkinds
    obtain ⟨-,-,honly⟩ := importSecrets_ok ht
    have hholds : ∃ d : Database, Holds P.toSurroundings data secrets.isSome d.toTables :=
      (exists_holds_iff hvalid).mpr hfits
    obtain ⟨d,hd⟩ := hholds
    exact ⟨_,_,_,t,ht,_,_,⟨((spared_add honly.faults honly.clock).mp hspared).2,
      honly.transaction.trans hidle,rfl,d,hd,rfl⟩,rfl,rfl⟩

/-- A failure after the bundle was read leaves the tables, and the secrets stored until then. -/
theorem finishImport_error (hidle : s.transaction = none) {error : AppError}
    {s' : StorageRepository} (h : finishImport P bundle data secrets s = .error error s') :
    s'.database = s.database ∧
      s'.secrets = storeAll s.secrets (taken s.faults s.clock (listed secrets)) := by
  have hafter := importSecrets_after (listed secrets) s
  have hkeeps := importSecrets_keeps_tables (listed secrets)
  simp only [finishImport,importSecretsIfRead_eq,bind_error,pure_not_error,and_false,exists_false,
    or_false] at h
  rcases h with h | ⟨_,t,ht,h⟩
  · rw [after_of_error h] at hafter
    have htables := hkeeps.of_error h
    simp only [Prod.mk.injEq] at htables
    exact ⟨by simp [database,htables],hafter⟩
  · rw [after_of_ok ht] at hafter
    have htables := hkeeps.of_ok ht
    simp only [Prod.mk.injEq] at htables
    obtain ⟨hdatabase,hsecrets,-⟩ := replaceSyncData_error (htables.2.trans hidle) h
    exact ⟨hdatabase.trans (by simp [database,htables]),hsecrets.trans hafter⟩

/-- A failed import changes nothing exactly when the secrets it had stored until then were the
vault's own, or when it does not fail. -/
theorem changesNothingOnFailure_iff (P : Platform β) (bundle : SyncSnapshotBundle β)
    (password : Option String) (s : StorageRepository) (hidle : s.transaction = none) :
    ChangesNothingOnFailure P bundle password s ↔
      ∀ data secrets, readData P bundle = .ok data → validateSyncDataDocument data = .ok () →
        readSecrets P bundle password = .ok secrets →
          storeAll s.secrets (taken s.faults s.clock (listed secrets)) = s.secrets ∨
            GoesThrough P s data secrets := by
  constructor
  · intro hnothing data secrets hdata hvalid hsecrets
    have hrun : importBundle P bundle password s = finishImport P bundle data secrets s.backedUp := by
      simp only [importBundle_apply,hdata,hvalid,hsecrets]
    cases hfinish : finishImport P bundle data secrets s.backedUp with
    | ok result s' =>
      right
      obtain ⟨hkinds,hfits,hspared⟩ := (finishImport_ok_iff bundle
        (validateSyncDataDocument_ok.mp hvalid) (s := s.backedUp) hidle).mp ⟨result,s',hfinish⟩
      exact ⟨hkinds,hfits,hspared⟩
    | error error s' =>
      left
      have hkept := (hnothing error s' (hrun.trans hfinish)).2
      rw [(finishImport_error (s := s.backedUp) hidle hfinish).2] at hkept
      exact hkept
  · intro hcondition error s' herror
    rw [importBundle_apply] at herror
    cases hdata : readData P bundle with
    | error _ =>
      simp only [hdata,EStateM.Result.error.injEq] at herror
      exact herror.2 ▸ ⟨rfl,rfl⟩
    | ok data =>
      cases hvalid : validateSyncDataDocument data with
      | error _ =>
        simp only [hdata,hvalid,EStateM.Result.error.injEq] at herror
        exact herror.2 ▸ ⟨rfl,rfl⟩
      | ok _ =>
        cases hsecrets : readSecrets P bundle password with
        | error _ =>
          simp only [hdata,hvalid,hsecrets,EStateM.Result.error.injEq] at herror
          exact herror.2 ▸ ⟨rfl,rfl⟩
        | ok secrets =>
          simp only [hdata,hvalid,hsecrets] at herror
          obtain ⟨htables,hstored⟩ := finishImport_error (s := s.backedUp) hidle herror
          refine ⟨htables,hstored.trans ?_⟩
          rcases hcondition data secrets hdata hvalid hsecrets with hsame | ⟨hkinds,hfits,hspared⟩
          · exact hsame
          · obtain ⟨result,t,hok⟩ := (finishImport_ok_iff bundle
              (validateSyncDataDocument_ok.mp hvalid) (s := s.backedUp) hidle).mpr
              ⟨hkinds,hfits,hspared⟩
            rw [hok] at herror
            cases herror

end

/-- A document in which two groups bear one name, with one secret. -/
def twinGroups : SyncDataDocument where
  version := 1
  connections := []
  credentials := []
  knownHosts := []
  tunnels := []
  connectionGroups := [⟨"g1","prod",0,"1","1"⟩,⟨"g2","prod",1,"1","1"⟩]
  settings := .empty

def twinBundle : SyncSnapshotBundle SymbolicPlatform.Bytes :=
  let data := SymbolicPlatform.platform.dataJson.encode twinGroups
  let secrets := .envelope ⟨syncFormat,1,{},SecureBundle.passwordCipher,
    .random SecureBundle.saltBytes,.random SecureBundle.nonceBytes,
    .encrypted (.secrets ⟨1,[⟨"connection:web:inline_password","inline_password","secret","1"⟩]⟩)⟩
  let manifest := buildManifest SymbolicPlatform.platform "s1" "laptop" "Laptop" "1" data (some secrets)
  ⟨manifest,.manifest manifest,data,some secrets⟩

/-- What a failed import left under an account. -/
def leftOnFailure (account : String) : EStateM.Result AppError StorageRepository SyncImportResult →
    Option String
  | .ok _ _ => none
  | .error _ s => s.secrets account

/-- The import of this bundle is refused by the tables, with its secret already in the vault. -/
theorem twinBundle_changes_vault : ¬ ChangesNothingOnFailure SymbolicPlatform.platform twinBundle
    (some "password") (.empty (fun _ => none) .unix) := by
  intro h
  have hleft : leftOnFailure "connection:web:inline_password"
      (importBundle SymbolicPlatform.platform twinBundle (some "password")
        (.empty (fun _ => none) .unix)) = some "secret" := by decide +kernel
  cases hrun : importBundle SymbolicPlatform.platform twinBundle (some "password")
      (.empty (fun _ => none) .unix) with
  | ok result s' => simp [hrun,leftOnFailure] at hleft
  | error error s' =>
    rw [hrun,leftOnFailure,(h error s' hrun).2] at hleft
    cases hleft

theorem changesNothingOnFailure_iff_twinBundle :
    ChangesNothingOnFailure SymbolicPlatform.platform twinBundle none
      (.empty (fun _ => none) .unix) := by
  refine (changesNothingOnFailure_iff _ _ _ _ rfl).mpr fun data secrets _ _ hsecrets => Or.inl ?_
  obtain rfl : none = secrets := Except.ok.inj hsecrets
  rfl

end Mxterm.ImportFailure
