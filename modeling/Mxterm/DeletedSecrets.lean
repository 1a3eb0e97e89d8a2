import Mxterm.SecretOwnership

/-! What deleting a connection or a saved account leaves in the vault. Only the account that the
row names is removed, so nothing is left as long as no edit has turned the row away from an
account that still held a secret. -/
namespace Mxterm.DeletedSecrets

open Execution StorageRepository RepositoryCommands ProfileValidation SecretReference SecretOwnership

/-- An edit of a row that names an account keeps the kind of its secret and does not clear it. -/
def KeepsSecret (s : StorageRepository) : Command → Prop
  | .connectionUpsert draws input _ => ∀ validated row,
      validateProfileInput s.family input = .ok validated →
      s.database.connections.find? (validated.id.getD draws.record.toString) = some row →
      row.inlineSecretRef.isSome → validated.inlineAuthKind = row.inlineAuthKind ∧
        (validated.inlineAuthKind = some .privateKey → validated.inlinePrivateKeyPassphrase = none →
          validated.inlinePrivateKeyPassphraseTouched = false ∧
            Text.trimOptional input.sourceConnectionId = none)
  | .credentialUpsert draws input _ => ∀ validated row, validateCredentialInput input = .ok validated →
      s.database.credentials.find? (validated.id.getD draws.record.toString) = some row →
      row.secretRef.isSome → validated.kind = row.kind ∧
        (validated.kind = .privateKey → validated.privateKeyPassphrase = none →
          validated.privateKeyPassphraseTouched = false)
  | .connectionDelete _ => True
  | .credentialDelete _ => True

/-- One command that succeeds. -/
def Steps (allowed : StorageRepository → Command → Prop) (s t : StorageRepository) : Prop :=
  ∃ command, allowed s command ∧ command.run s = .ok () t

abbrev Runs (allowed : StorageRepository → Command → Prop) :
    StorageRepository → StorageRepository → Prop :=
  Relation.ReflTransGen (Steps allowed)

/-- The columns of a form that keeps the secret are those of the stored row. -/
theorem inlineOutcome_keeps {t : Tables} (ht : OwnAccounts t) {id : String}
    {validated : ValidatedConnectionProfileInput} {duplicate : Bool} {before after : Entries}
    {columns : SecretColumns} {row : ConnectionRow} {account : String}
    (hfind : t.connections.find? id = some row) (href : row.inlineSecretRef = some account)
    (hkind : validated.inlineAuthKind = row.inlineAuthKind)
    (htouched : validated.inlineAuthKind = some .privateKey →
      validated.inlinePrivateKeyPassphrase = none →
        validated.inlinePrivateKeyPassphraseTouched = false ∧ duplicate = false)
    (h : InlineOutcome id validated (t.connections.find? id) duplicate before after columns) :
    columns.1 = some account := by
  obtain ⟨hmem,rfl⟩ := Table.find?_eq_some_iff.mp hfind
  obtain ⟨hmode,kind,hauth,rfl⟩ := ht.connections row hmem account (Or.inl href)
  cases h with
  | stored other secret hother =>
    cases hother.symm.trans (hkind.trans hauth)
    rfl
  | kept old reference other hold hold' _ _ _ =>
    cases hfind.symm.trans hold
    simp [columnsOf,← inlineReference_account hold',href]
  | absent hcleared =>
    exfalso
    rcases hcleared with hnone | ⟨hkey,hpassphrase,hcleared⟩
    · simp [hkind,hauth] at hnone
    · obtain ⟨hfalse,hduplicate⟩ := htouched hkey hpassphrase
      rcases hcleared with h | h | h
      · simp [h] at hfalse
      · simp [h] at hduplicate
      · rcases h row hfind with h | h | h
        · simp [inlineReference,href] at h
        · exact h hmode
        · exact h (hkind ▸ hkey)

theorem credentialOutcome_keeps {t : Tables} (ht : OwnAccounts t) {id : String}
    {validated : ValidatedCredentialProfileInput} {before after : Entries} {columns : SecretColumns}
    {row : CredentialRow} {account : String} (hfind : t.credentials.find? id = some row)
    (href : row.secretRef = some account) (hkind : validated.kind = row.kind)
    (htouched : validated.kind = .privateKey → validated.privateKeyPassphrase = none →
      validated.privateKeyPassphraseTouched = false)
    (h : CredentialOutcome id validated (t.credentials.find? id) before after columns) :
    columns.1 = some account := by
  obtain ⟨hmem,rfl⟩ := Table.find?_eq_some_iff.mp hfind
  obtain rfl : account = _ := ht.credentials row hmem account (Or.inl href)
  cases h with
  | stored secret => rw [hkind]; rfl
  | kept old reference hold hold' _ =>
    cases hfind.symm.trans hold
    simp [columnsOf,← credentialReference_account hold',href]
  | absent hkey hpassphrase hcleared =>
    exfalso
    rcases hcleared with h | h
    · simp [htouched hkey hpassphrase] at h
    · rcases h row hfind with h | h
      · simp [credentialReference,href] at h
      · exact h (hkind ▸ hkey)

variable {s : StorageRepository}

/-- An edit that keeps the secret conserves the account in the ledger. -/
theorem run_conserves {command : Command} {s' : StorageRepository} (hs : OwnAccounts s.database.toTables)
    (hkeeps : KeepsSecret s command) (h : command.run s = .ok () s') :
    Ledger.Conserves command.owner (ledger s) (ledger s') := by
  intro account haccount
  cases command with
  | connectionUpsert draws input now =>
    simp only [Command.run,bind_ok,pure_ok] at h
    obtain ⟨profile,_,hrun,-,rfl⟩ := h
    obtain ⟨validated,existing,groupId,columns,grouped,hvalid,-,hgrouped,houtcome,hexec⟩ :=
      connectionUpsert_ok hrun
    obtain ⟨row,hrow,href⟩ := Option.map_eq_some_iff.mp haccount
    rw [← (validateProfileInput_accepted hvalid).id] at hrow
    obtain ⟨hkind,htouched⟩ := hkeeps validated row hvalid hrow (by simp [href])
    have hcolumns := inlineOutcome_keeps hs hrow href hkind
      (fun hkey hnone => by simpa using htouched hkey hnone) houtcome
    have hreferences := references_upsertConnection (Database.exec_ok_iff.mp hexec)
    simp [ledger,hreferences,connectionRow,Command.owner,(validateProfileInput_accepted hvalid).id,
      hcolumns]
  | credentialUpsert draws input now =>
    simp only [Command.run,bind_ok,pure_ok] at h
    obtain ⟨profile,_,hrun,-,rfl⟩ := h
    obtain ⟨validated,createdAt,columns,hvalid,houtcome,hexec⟩ := credentialUpsert_ok hrun
    obtain ⟨row,hrow,href⟩ := Option.map_eq_some_iff.mp haccount
    rw [← validateCredentialInput_id hvalid] at hrow
    obtain ⟨hkind,htouched⟩ := hkeeps validated row hvalid hrow (by simp [href])
    have hcolumns := credentialOutcome_keeps hs hrow href hkind htouched houtcome
    have hreferences := references_upsertCredential (Database.exec_ok_iff.mp hexec)
    simp [ledger,hreferences,credentialRow,Command.owner,validateCredentialInput_id hvalid,hcolumns]
  | connectionDelete id =>
    obtain ⟨row,-,htables,-⟩ := connectionDelete_ok h
    simp [ledger,htables,references_deleteConnections,Command.owner]
  | credentialDelete id =>
    obtain ⟨row,-,-,htables,-⟩ := credentialDelete_ok h
    simp [ledger,htables,references_deleteCredentials,Command.owner]

variable {t : StorageRepository}

theorem runs_ownAccounts {allowed : StorageRepository → Command → Prop} (hs : OwnAccounts s.database.toTables)
    (h : Runs allowed s t) : OwnAccounts t.database.toTables := by
  induction h with
  | refl => exact hs
  | tail _ hstep ih =>
    obtain ⟨command,-,hrun⟩ := hstep
    exact ih.run hrun

/-- While every edit keeps the secret it finds, no secret outlives the row that names it. -/
theorem runs_tidy (hs : OwnAccounts s.database.toTables) (htidy : Ledger.Tidy accounts (ledger s))
    (h : Runs KeepsSecret s t) : Ledger.Tidy accounts (ledger t) := by
  induction h with
  | refl => exact htidy
  | tail hruns hstep ih =>
    obtain ⟨command,hkeeps,hrun⟩ := hstep
    have howned := runs_ownAccounts hs hruns
    exact (run_step hrun).tidy (howned.owned _) (run_conserves howned hkeeps hrun) ih

theorem tidy_empty (faults : ℕ → Option Fault) (family : X11Display.TargetFamily) :
    Ledger.Tidy accounts (ledger (StorageRepository.empty faults family)) :=
  fun _ _ hvalue => absurd hvalue (by simp [ledger,StorageRepository.empty])

/-- The command that deletes the record of an owner. -/
def deletion : Owner → Command
  | .connection id => .connectionDelete id
  | .credential id => .credentialDelete id

/-- In a run whose edits keep the secrets they find, a record that was deleted and is not stored
again has no secret in the vault; and in any run, no command touches the secret of another owner. -/
theorem deleted_secrets_removed (faults : ℕ → Option Fault) (family : X11Display.TargetFamily) :
    (∀ owner s t u, Runs KeepsSecret (.empty faults family) s → (deletion owner).run s = .ok () t →
      Runs KeepsSecret t u → ¬ (ledger u).Stored owner →
        ∀ kind, u.secrets (accounts owner kind) = none) ∧
    ∀ (s t : StorageRepository) (command : Command),
      Runs (fun _ _ => True) (.empty faults family) s → command.run s = .ok () t →
      ∀ other ≠ command.owner, ∀ kind,
        t.secrets (accounts other kind) = s.secrets (accounts other kind) := by
  constructor
  · intro owner s t u hs hdelete hu hgone kind
    have hallowed : KeepsSecret s (deletion owner) := by cases owner <;> exact trivial
    have hrun : Runs KeepsSecret (.empty faults family) u :=
      (hs.tail ⟨deletion owner,hallowed,hdelete⟩).trans hu
    have htidy := runs_tidy (ownAccounts_empty faults family) (tidy_empty faults family) hrun
    exact htidy.values_of_not_stored hgone kind
  · intro s t command hs hrun other hne kind
    have hown := runs_ownAccounts (ownAccounts_empty faults family) hs
    exact (run_step hrun).values_of_ne (hown.owned _) hne kind

theorem runs_of_forEach {commands : List Command} (h : forEach Command.run commands s = .ok () t) :
    Runs (fun _ _ => True) s t := by
  induction commands generalizing s with
  | nil => exact ((pure_ok _ _ _ _).mp h).2 ▸ .refl
  | cons command commands ih =>
    obtain ⟨u,hrun,hrest⟩ := (forEach_cons_ok _ _ _ _ _).mp h
    exact (ih hrest).head ⟨command,trivial,hrun⟩

/-- The repository after the record of an owner was deleted. -/
def deleted (s : StorageRepository) (owner : Owner) : Option StorageRepository :=
  match (deletion owner).run s with
  | .ok () t => if (ledger t).reference owner = none then some t else none
  | .error _ _ => none

theorem of_deleted {owner : Owner} (h : deleted s owner = some t) :
    (deletion owner).run s = .ok () t ∧ ¬ (ledger t).Stored owner := by
  unfold deleted at h
  split at h
  · rename_i hrun
    split at h
    · rename_i hgone
      cases h
      exact ⟨hrun,by simp [Ledger.Stored,hgone]⟩
    · cases h
  · cases h

def storedWithPassword : Command := .connectionUpsert ⟨⟨0⟩,⟨1⟩⟩
  { id := some "web", host := "web", port := 22, username := "root",
    inlinePassword := some "secret" } "1"

def editedToKey : Command := .connectionUpsert ⟨⟨2⟩,⟨3⟩⟩
  { id := some "web", host := "web", port := 22, username := "root",
    inlineAuthKind := some .privateKey, inlinePrivateKeyPath := some "id_ed25519" } "2"

/-- The repository after the commands, when all of them succeed. -/
def reached (commands : List Command) : Option StorageRepository :=
  match forEach Command.run commands (.empty (fun _ => none) .unix) with
  | .ok () s => some s
  | .error _ _ => none

theorem of_reached {commands : List Command} (h : reached commands = some s) :
    forEach Command.run commands (.empty (fun _ => none) .unix) = .ok () s := by
  unfold reached at h
  split at h
  · rename_i hrun
    cases h
    exact hrun
  · cases h

/-- A password that an edit replaced by a key is in the vault after the connection was deleted. -/
theorem replaced_password_survives_deletion : ∃ s t : StorageRepository,
    Runs (fun _ _ => True) (.empty (fun _ => none) .unix) s ∧
      (deletion (.connection "web")).run s = .ok () t ∧
        ¬ (ledger t).Stored (.connection "web") ∧
          t.secrets (accounts (.connection "web") .inlinePassword) = some "secret" := by
  have hrun : ((reached [storedWithPassword,editedToKey]).bind fun s => (deleted s (.connection "web")).bind
      fun t => t.secrets (accounts (.connection "web") .inlinePassword)) = some "secret" := by decide +kernel
  obtain ⟨s,hs,hleft⟩ := Option.bind_eq_some_iff.mp hrun
  obtain ⟨t,ht,hsecret⟩ := Option.bind_eq_some_iff.mp hleft
  exact ⟨s,t,runs_of_forEach (of_reached hs),(of_deleted ht).1,(of_deleted ht).2,hsecret⟩

theorem deleted_secrets_removed_password : ∃ s t : StorageRepository,
    storedWithPassword.run (.empty (fun _ => none) .unix) = .ok () s ∧
      (deletion (.connection "web")).run s = .ok () t ∧
        ∀ kind, t.secrets (accounts (.connection "web") kind) = none := by
  have hrun : ((reached [storedWithPassword]).bind fun s => deleted s (.connection "web")).isSome := by decide +kernel
  obtain ⟨t,hboth⟩ := Option.isSome_iff_exists.mp hrun
  obtain ⟨s,hreached,ht⟩ := Option.bind_eq_some_iff.mp hboth
  obtain ⟨_,hs,hnil⟩ := (forEach_cons_ok _ _ _ _ _).mp (of_reached hreached)
  rw [((pure_ok _ _ _ _).mp hnil).2] at hs
  have hkeeps : KeepsSecret (.empty (fun _ => none) .unix) storedWithPassword :=
    fun _ _ _ hfind => nomatch hfind
  exact ⟨s,t,hs,(of_deleted ht).1,(deleted_secrets_removed (fun _ => none) .unix).1 _ s t t
    (.single ⟨_,hkeeps,hs⟩) (of_deleted ht).1 .refl (of_deleted ht).2⟩

end Mxterm.DeletedSecrets
