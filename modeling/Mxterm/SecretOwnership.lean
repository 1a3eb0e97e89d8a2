import Mxterm.CommandOutcomes
import Mxterm.Ledger

/-! Whose secret an account holds. The repository is read as a ledger: the rows of connections
and saved accounts are the records, the vault holds the values. -/
namespace Mxterm.SecretOwnership

open Execution StorageRepository RepositoryCommands ProfileValidation SecretReference

inductive Owner
  | connection (id : String) | credential (id : String)
  deriving DecidableEq

/-- The account of each owner and kind, whatever colons the identifiers hold. -/
def accounts : Ledger.Accounts Owner SecretKind String where
  account
    | .connection id => connectionAccount id
    | .credential id => credentialAccount id
  injective := by
    rintro (i | i) (j | j) k l h
    · simpa using h
    · simp at h
    · simp at h
    · simpa using h

def references (t : Tables) : Owner → Option (Option String)
  | .connection id => (t.connections.find? id).map (·.inlineSecretRef)
  | .credential id => (t.credentials.find? id).map (·.secretRef)

def ledger (s : StorageRepository) : Ledger Owner String String :=
  ⟨references s.database.toTables,s.secrets⟩

variable {t : Tables}

/-- What the statements of the commands do to the records. -/
theorem references_upsertConnection {u : Tables} {row : ConnectionRow} (h : t.exec (.upsertConnection row) = .ok u) :
    references u =
      Function.update (references t) (.connection row.id) (some row.inlineSecretRef) := by
  obtain ⟨-,rfl⟩ := Tables.exec_upsertConnection_ok.mp h
  funext owner
  cases owner with
  | connection id =>
    by_cases hid : id = row.id <;>
      simp [references,Table.find?_put,hid,Tables.excluded]
  | credential id => simp [references]

theorem references_upsertCredential {u : Tables} {row : CredentialRow} (h : t.exec (.upsertCredential row) = .ok u) :
    references u =
      Function.update (references t) (.credential row.id) (some row.secretRef) := by
  cases h
  funext owner
  cases owner with
  | connection id => simp [references]
  | credential id =>
    by_cases hid : id = row.id <;>
      simp [references,Table.find?_put,hid,Tables.excludedCredential]

theorem references_deleteConnections (t : Tables) (id : String) :
    references (t.deleteConnections (· = id)) =
      Function.update (references t) (.connection id) none := by
  funext owner
  cases owner with
  | connection other =>
    have hfind := Table.find?_keepRows t.connections (fun other => decide (other = id)) other
    by_cases hid : other = id <;> simp_all [references,Tables.deleteConnections]
  | credential other => simp [references,Tables.deleteConnections]

theorem references_deleteCredentials (t : Tables) (id : String) :
    references (t.deleteCredentials (· = id)) =
      Function.update (references t) (.credential id) none := by
  funext owner
  cases owner with
  | connection other =>
    simp [references,Tables.deleteCredentials,Table.find?_mapRows,Tables.forgetCredential,
      Function.comp_def]
  | credential other =>
    have hfind := Table.find?_keepRows t.credentials (fun other => decide (other = id)) other
    by_cases hid : other = id <;> simp_all [references,Tables.deleteCredentials]

theorem references_grouped {fresh : Uuid} {group : Option String} {before after : Database}
    (h : GroupsAfter fresh group before after) :
    references after.toTables = references before.toTables := by
  funext owner
  cases owner <;> simp [references,h.connections,h.credentials]

theorem inlineReference_account {row : ConnectionRow} {reference : SecretReference}
    (h : inlineReference row = some reference) : row.inlineSecretRef = some reference.account := by
  obtain ⟨account,haccount,rfl⟩ := Option.map_eq_some_iff.mp h
  exact haccount

theorem credentialReference_account {row : CredentialRow} {reference : SecretReference}
    (h : credentialReference row = some reference) : row.secretRef = some reference.account := by
  obtain ⟨account,haccount,rfl⟩ := Option.map_eq_some_iff.mp h
  exact haccount

/-- Writing back the account a record already names changes nothing. -/
theorem keep_step {owner : Owner} {account : String} (secrets : Entries)
    (h : references t owner = some (some account)) :
    Ledger.Step accounts owner ⟨references t,secrets⟩
      ⟨Function.update (references t) owner (some (some account)),secrets⟩ := by
  rw [← h,Function.update_eq_self]
  exact .keep _ account h

variable {id : String}

theorem inlineOutcome_step {validated : ValidatedConnectionProfileInput} {duplicate : Bool} {before after : Entries}
    {columns : SecretColumns}
    (h : InlineOutcome id validated (t.connections.find? id) duplicate before after columns) :
    Ledger.Step accounts (.connection id) ⟨references t,before⟩
      ⟨Function.update (references t) (.connection id) (some columns.1),after⟩ := by
  cases h with
  | stored kind secret _ => exact .store _ (SecretKind.ofInline kind) secret
  | kept row reference kind hold href _ _ _ =>
    exact keep_step _ (by simp [references,hold,inlineReference_account href])
  | absent _ => exact .drop _

theorem credentialOutcome_step {validated : ValidatedCredentialProfileInput} {before after : Entries}
    {columns : SecretColumns} (h : CredentialOutcome id validated (t.credentials.find? id) before after columns) :
    Ledger.Step accounts (.credential id) ⟨references t,before⟩
      ⟨Function.update (references t) (.credential id) (some columns.1),after⟩ := by
  cases h with
  | stored secret => exact .store _ (SecretKind.ofSaved validated.kind) secret
  | kept row reference hold href _ =>
    exact keep_step _ (by simp [references,hold,credentialReference_account href])
  | absent _ _ _ => exact .drop _

/-- The commands that store and delete connections and saved accounts. -/
inductive Command
  | connectionUpsert (draws : Draws) (input : ConnectionProfileInput) (now : String)
  | credentialUpsert (draws : Draws) (input : CredentialProfileInput) (now : String)
  | connectionDelete (id : String)
  | credentialDelete (id : String)

namespace Command

def run : Command → Repo Unit
  | .connectionUpsert draws input now => do
    let _ ← RepositoryCommands.connectionUpsert draws input now
  | .credentialUpsert draws input now => do
    let _ ← RepositoryCommands.credentialUpsert draws input now
  | .connectionDelete id => RepositoryCommands.connectionDelete id
  | .credentialDelete id => RepositoryCommands.credentialDelete id

/-- Whose record the command is about. -/
def owner : Command → Owner
  | .connectionUpsert draws input _ =>
    .connection ((Text.trimOptional input.id).getD draws.record.toString)
  | .credentialUpsert draws input _ =>
    .credential ((Text.trimOptional input.id).getD draws.record.toString)
  | .connectionDelete id => .connection id
  | .credentialDelete id => .credential id

end Command

variable {s s' : StorageRepository}

theorem connectionUpsert_step {draws : Draws} {input : ConnectionProfileInput} {now : String}
    {profile : ConnectionProfile} (h : connectionUpsert draws input now s = .ok profile s') :
    Ledger.Step accounts (Command.connectionUpsert draws input now).owner (ledger s) (ledger s') := by
  obtain ⟨validated,existing,groupId,columns,grouped,hvalid,-,hgrouped,houtcome,hexec⟩ :=
    connectionUpsert_ok h
  have hstep := inlineOutcome_step houtcome
  have hreferences := references_upsertConnection (Database.exec_ok_iff.mp hexec)
  simp only [connectionRow,references_grouped hgrouped] at hreferences
  rw [← hreferences,(validateProfileInput_accepted hvalid).id] at hstep
  exact hstep

theorem credentialUpsert_step {draws : Draws} {input : CredentialProfileInput} {now : String}
    {profile : CredentialProfile} (h : credentialUpsert draws input now s = .ok profile s') :
    Ledger.Step accounts (Command.credentialUpsert draws input now).owner (ledger s) (ledger s') := by
  obtain ⟨validated,createdAt,columns,hvalid,houtcome,hexec⟩ := credentialUpsert_ok h
  have hstep := credentialOutcome_step houtcome
  have hreferences := references_upsertCredential (Database.exec_ok_iff.mp hexec)
  simp only [credentialRow] at hreferences
  rw [← hreferences,validateCredentialInput_id hvalid] at hstep
  exact hstep

theorem connectionDelete_step {u : Unit} (h : connectionDelete id s = .ok u s') :
    Ledger.Step accounts (.connection id) (ledger s) (ledger s') := by
  obtain ⟨row,hrow,htables,hsecrets⟩ := connectionDelete_ok h
  have hledger : ledger s' = ⟨Function.update (references s.database.toTables) (.connection id) none,
      Ledger.removed s.secrets row.inlineSecretRef⟩ := by
    rw [ledger,htables,references_deleteConnections,hsecrets]
    cases row.inlineSecretRef <;> rfl
  rw [hledger]
  exact .delete _ row.inlineSecretRef (by simp [ledger,references,hrow])

theorem credentialDelete_step {u : Unit} (h : credentialDelete id s = .ok u s') :
    Ledger.Step accounts (.credential id) (ledger s) (ledger s') := by
  obtain ⟨row,hrow,-,htables,hsecrets⟩ := credentialDelete_ok h
  have hledger : ledger s' = ⟨Function.update (references s.database.toTables) (.credential id) none,
      Ledger.removed s.secrets row.secretRef⟩ := by
    rw [ledger,htables,references_deleteCredentials,hsecrets]
    cases row.secretRef <;> rfl
  rw [hledger]
  exact .delete _ row.secretRef (by simp [ledger,references,hrow])

/-- Every command that succeeds is one step of the ledger, on the record it is about. -/
theorem run_step {command : Command} (h : command.run s = .ok () s') :
    Ledger.Step accounts command.owner (ledger s) (ledger s') := by
  cases command with
  | connectionUpsert draws input now =>
    simp only [Command.run,bind_ok,pure_ok] at h
    obtain ⟨profile,_,hrun,-,rfl⟩ := h
    exact connectionUpsert_step hrun
  | credentialUpsert draws input now =>
    simp only [Command.run,bind_ok,pure_ok] at h
    obtain ⟨profile,_,hrun,-,rfl⟩ := h
    exact credentialUpsert_step hrun
  | connectionDelete id => exact connectionDelete_step h
  | credentialDelete id => exact credentialDelete_step h

/-- The account a connection owns while it keeps its secret inline. -/
def OwnConnectionAccount (row : ConnectionRow) (account : String) : Prop :=
  row.credentialMode = .inline ∧
    ∃ kind, row.inlineAuthKind = some kind ∧ account = connectionAccount row.id (.ofInline kind)

def OwnCredentialAccount (row : CredentialRow) (account : String) : Prop :=
  account = credentialAccount row.id (.ofSaved row.kind)

/-- The secret columns of a row hold the row's own account. -/
structure OwnAccounts (t : Tables) : Prop where
  connections : ∀ row ∈ t.connections, ∀ account,
    row.inlineSecretRef = some account ∨ row.inlineSecretSlotId = some account →
      OwnConnectionAccount row account
  credentials : ∀ row ∈ t.credentials, ∀ account,
    row.secretRef = some account ∨ row.secretSlotId = some account → OwnCredentialAccount row account

namespace OwnAccounts
variable {t u : Tables}

theorem owned (ht : OwnAccounts t) (secrets : Entries) :
    Ledger.Owned accounts ⟨references t,secrets⟩ := by
  intro owner account href
  cases owner with
  | connection id =>
    obtain ⟨row,hrow,haccount⟩ := Option.map_eq_some_iff.mp href
    obtain ⟨hmem,rfl⟩ := Table.find?_eq_some_iff.mp hrow
    obtain ⟨-,kind,-,rfl⟩ := ht.connections row hmem account (Or.inl haccount)
    exact ⟨.ofInline kind,rfl⟩
  | credential id =>
    obtain ⟨row,hrow,haccount⟩ := Option.map_eq_some_iff.mp href
    obtain ⟨hmem,rfl⟩ := Table.find?_eq_some_iff.mp hrow
    exact ⟨.ofSaved row.kind,ht.credentials row hmem account (Or.inl haccount)⟩

theorem upsertConnection (ht : OwnAccounts t) {row : ConnectionRow}
    (hrow : ∀ account, row.inlineSecretRef = some account ∨ row.inlineSecretSlotId = some account →
      OwnConnectionAccount row account) (h : t.exec (.upsertConnection row) = .ok u) :
    OwnAccounts u := by
  obtain ⟨-,rfl⟩ := Tables.exec_upsertConnection_ok.mp h
  refine ⟨fun other hother => ?_,ht.credentials⟩
  rcases Table.mem_put.mp hother with rfl | ⟨hother,-⟩
  · exact hrow
  · exact ht.connections other hother

theorem upsertCredential (ht : OwnAccounts t) {row : CredentialRow}
    (hrow : ∀ account, row.secretRef = some account ∨ row.secretSlotId = some account →
      OwnCredentialAccount row account) (h : t.exec (.upsertCredential row) = .ok u) :
    OwnAccounts u := by
  cases h
  refine ⟨ht.connections,fun other hother => ?_⟩
  rcases Table.mem_put.mp hother with rfl | ⟨hother,-⟩
  · exact hrow
  · exact ht.credentials other hother

theorem deleteConnections (ht : OwnAccounts t) (gone : String → Bool) :
    OwnAccounts (t.deleteConnections gone) :=
  ⟨fun row hrow => ht.connections row (Table.mem_keepRows.mp hrow).1,ht.credentials⟩

theorem deleteCredentials (ht : OwnAccounts t) (gone : String → Bool) :
    OwnAccounts (t.deleteCredentials gone) := by
  refine ⟨fun row hrow => ?_,fun row hrow => ht.credentials row (Table.mem_keepRows.mp hrow).1⟩
  obtain ⟨old,hold,rfl⟩ := (Table.mem_mapRows _ _ (Tables.forgetCredential_id gone) _).mp hrow
  exact ht.connections old hold

theorem grouped {fresh : Uuid} {group : Option String} {before after : Database}
    (ht : OwnAccounts before.toTables) (h : GroupsAfter fresh group before after) :
    OwnAccounts after.toTables :=
  ⟨h.connections ▸ ht.connections,h.credentials ▸ ht.credentials⟩

/-- The columns a form leaves hold the account of the new row. -/
theorem inlineOutcome (ht : OwnAccounts t) {id : String}
    {validated : ValidatedConnectionProfileInput} {duplicate : Bool} {before after : Entries}
    {columns : SecretColumns} (hmode : validated.inlineAuthKind.isSome → validated.credentialMode = .inline)
    (h : InlineOutcome id validated (t.connections.find? id) duplicate before after columns)
    {account : String} (haccount : columns.1 = some account ∨ columns.2 = some account) :
    validated.credentialMode = .inline ∧ ∃ kind, validated.inlineAuthKind = some kind ∧
      account = connectionAccount id (.ofInline kind) := by
  cases h with
  | stored kind secret hkind =>
    refine ⟨hmode (by simp [hkind]),kind,hkind,?_⟩
    rcases haccount with h | h <;> simpa [columnsOf,eq_comm] using h
  | kept row reference kind hold href _ hrow hkind =>
    obtain ⟨hmem,rfl⟩ := Table.find?_eq_some_iff.mp hold
    obtain ⟨stored,hstored,rfl⟩ := Option.map_eq_some_iff.mp href
    have hown : OwnConnectionAccount row account := by
      refine ht.connections row hmem account ?_
      cases hslot : row.inlineSecretSlotId <;> simp_all [columnsOf]
    obtain ⟨-,_,hkind',rfl⟩ := hown
    cases hrow.symm.trans hkind'
    exact ⟨hmode (by simp [hkind]),kind,hkind,rfl⟩
  | absent _ => simp at haccount

theorem credentialOutcome (ht : OwnAccounts t) {id : String}
    {validated : ValidatedCredentialProfileInput} {before after : Entries} {columns : SecretColumns}
    (h : CredentialOutcome id validated (t.credentials.find? id) before after columns)
    {account : String} (haccount : columns.1 = some account ∨ columns.2 = some account) :
    account = credentialAccount id (.ofSaved validated.kind) := by
  cases h with
  | stored secret => rcases haccount with h | h <;> simpa [columnsOf,eq_comm] using h
  | kept row reference hold href hkind =>
    obtain ⟨hmem,rfl⟩ := Table.find?_eq_some_iff.mp hold
    obtain ⟨stored,hstored,rfl⟩ := Option.map_eq_some_iff.mp href
    have hown : OwnCredentialAccount row account := by
      refine ht.credentials row hmem account ?_
      cases hslot : row.secretSlotId <;> simp_all [columnsOf]
    exact hkind ▸ hown
  | absent _ _ _ => simp at haccount

variable {s s' : StorageRepository}

theorem connectionUpsert {draws : Draws} {input : ConnectionProfileInput} {now : String}
    {profile : ConnectionProfile} (hs : OwnAccounts s.database.toTables)
    (h : connectionUpsert draws input now s = .ok profile s') : OwnAccounts s'.database.toTables := by
  obtain ⟨validated,existing,groupId,columns,grouped,hvalid,-,hgrouped,houtcome,hexec⟩ :=
    connectionUpsert_ok h
  have hmode := (validateProfileInput_accepted hvalid).inlineAuthKind.mp
  refine (hs.grouped hgrouped).upsertConnection (fun account haccount => ?_)
    (Database.exec_ok_iff.mp hexec)
  exact hs.inlineOutcome hmode houtcome haccount

theorem credentialUpsert {draws : Draws} {input : CredentialProfileInput} {now : String}
    {profile : CredentialProfile} (hs : OwnAccounts s.database.toTables)
    (h : credentialUpsert draws input now s = .ok profile s') : OwnAccounts s'.database.toTables := by
  obtain ⟨validated,createdAt,columns,hvalid,houtcome,hexec⟩ := credentialUpsert_ok h
  refine hs.upsertCredential (fun account haccount => ?_) (Database.exec_ok_iff.mp hexec)
  exact hs.credentialOutcome houtcome haccount

theorem run {command : Command} (hs : OwnAccounts s.database.toTables) (h : command.run s = .ok () s') :
    OwnAccounts s'.database.toTables := by
  cases command with
  | connectionUpsert draws input now =>
    simp only [Command.run,bind_ok,pure_ok] at h
    obtain ⟨profile,_,hrun,-,rfl⟩ := h
    exact hs.connectionUpsert hrun
  | credentialUpsert draws input now =>
    simp only [Command.run,bind_ok,pure_ok] at h
    obtain ⟨profile,_,hrun,-,rfl⟩ := h
    exact hs.credentialUpsert hrun
  | connectionDelete id =>
    obtain ⟨_,-,htables,-⟩ := connectionDelete_ok h
    exact htables ▸ hs.deleteConnections _
  | credentialDelete id =>
    obtain ⟨_,-,-,htables,-⟩ := credentialDelete_ok h
    exact htables ▸ hs.deleteCredentials _

end OwnAccounts

theorem ownAccounts_empty (faults : ℕ → Option Fault) (family : X11Display.TargetFamily) :
    OwnAccounts (StorageRepository.empty faults family).database.toTables :=
  ⟨fun row hrow => absurd hrow (Table.not_mem_empty row),
    fun row hrow => absurd hrow (Table.not_mem_empty row)⟩

end Mxterm.SecretOwnership
