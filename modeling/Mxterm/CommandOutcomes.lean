import Mxterm.RepositoryCommands

/-! What a command that succeeded has changed: the row it wrote, the secret it stored or kept,
and nothing else. -/
namespace Mxterm.RepositoryCommands

open Execution StorageRepository ProfileValidation SecretReference

/-- How a form leaves the secret of the connection `id`, whose stored row is `old`. -/
inductive InlineOutcome (id : String) (validated : ValidatedConnectionProfileInput)
    (old : Option ConnectionRow) (duplicate : Bool) (before : Entries) :
    Entries → SecretColumns → Prop
  | stored (kind : ConnectionAuthKind) (secret : String) :
      validated.inlineAuthKind = some kind →
      InlineOutcome id validated old duplicate before
        (Function.update before (connectionAccount id (.ofInline kind)) (some secret))
        (columnsOf (.connection id (.ofInline kind)))
  | kept (row : ConnectionRow) (reference : SecretReference) (kind : ConnectionAuthKind) :
      old = some row → inlineReference row = some reference → row.credentialMode = .inline →
      row.inlineAuthKind = some kind → validated.inlineAuthKind = some kind →
      InlineOutcome id validated old duplicate before before (columnsOf reference)
  | absent : validated.inlineAuthKind = none ∨ (validated.inlineAuthKind = some .privateKey ∧
        validated.inlinePrivateKeyPassphrase = none ∧
        (validated.inlinePrivateKeyPassphraseTouched = true ∨ duplicate = true ∨
          ∀ row ∈ old, inlineReference row = none ∨ row.credentialMode ≠ .inline ∨
            row.inlineAuthKind ≠ some .privateKey)) →
      InlineOutcome id validated old duplicate before before (none,none)

/-- How a form leaves the secret of the saved account `id`, whose stored row is `old`. -/
inductive CredentialOutcome (id : String) (validated : ValidatedCredentialProfileInput)
    (old : Option CredentialRow) (before : Entries) : Entries → SecretColumns → Prop
  | stored (secret : String) :
      CredentialOutcome id validated old before
        (Function.update before (credentialAccount id (.ofSaved validated.kind)) (some secret))
        (columnsOf (.credential id (.ofSaved validated.kind)))
  | kept (row : CredentialRow) (reference : SecretReference) :
      old = some row → credentialReference row = some reference → row.kind = validated.kind →
      CredentialOutcome id validated old before before (columnsOf reference)
  | absent : validated.kind = .privateKey → validated.privateKeyPassphrase = none →
      (validated.privateKeyPassphraseTouched = true ∨
        ∀ row ∈ old, credentialReference row = none ∨ row.kind ≠ .privateKey) →
      CredentialOutcome id validated old before before (none,none)

variable {s s' : StorageRepository} {columns : SecretColumns}

theorem storeSecret_ok {reference : SecretReference} {secret : String}
    (h : storeSecret reference secret s = .ok columns s') :
    s'.database = s.database ∧ columns = columnsOf reference ∧
      s'.secrets = Function.update s.secrets reference.account (some secret) := by
  simp only [storeSecret,bind_ok,pure_ok] at h
  obtain ⟨_,t,hset,rfl,rfl⟩ := h
  exact ⟨(setSecret_ok hset).1,rfl,(setSecret_ok hset).2⟩

variable {kind : ConnectionAuthKind}

theorem missingSecretForPreserve_ok {error : AppError} (h : missingSecretForPreserve error kind = .ok columns) :
    kind = .privateKey ∧ columns = (none,none) := by
  cases kind <;> simp [missingSecretForPreserve] at h
  exact ⟨rfl,h.symm⟩

variable {id : String}

theorem copyInlineSecret_ok {source : ConnectionProfile × Option SecretReference}
    (h : copyInlineSecret id source kind s = .ok columns s') : s'.database = s.database ∧
      ((kind = .privateKey ∧ columns = (none,none) ∧ s'.secrets = s.secrets) ∨
        columns = columnsOf (.connection id (.ofInline kind)) ∧ ∃ secret, s'.secrets =
          Function.update s.secrets (connectionAccount id (.ofInline kind)) (some secret)) := by
  obtain ⟨profile,reference⟩ := source
  unfold copyInlineSecret at h
  split at h
  · rw [lift_ok] at h
    obtain ⟨hmissing,rfl⟩ := h
    obtain ⟨hkind,hcolumns⟩ := missingSecretForPreserve_ok hmissing
    exact ⟨rfl,Or.inl ⟨hkind,hcolumns,rfl⟩⟩
  cases reference with
  | none =>
    cases kind with
    | password => cases h
    | privateKey =>
      obtain ⟨rfl,rfl⟩ := h
      exact ⟨rfl,Or.inl ⟨rfl,rfl,rfl⟩⟩
  | some reference =>
    simp only [bind_ok,getSecret_ok] at h
    obtain ⟨secret,_,⟨-,-,rfl⟩,hstore⟩ := h
    obtain ⟨hdatabase,hcolumns,hsecrets⟩ := storeSecret_ok hstore
    exact ⟨by simpa using hdatabase,Or.inr ⟨hcolumns,secret,by simpa using hsecrets⟩⟩

/-- The stored version of a connection as `prepare_inline_secret` receives it. -/
def storedVersion (t : Tables) (old : Option ConnectionRow) :
    Option (ConnectionProfile × Option SecretReference) :=
  old.map fun row => (rowToConnectionProfile t row,inlineReference row)

theorem preserveInlineSecret_ok {t : Tables} {old : Option ConnectionRow}
    (h : preserveInlineSecret (storedVersion t old) kind = .ok columns) :
    (∃ row reference, old = some row ∧ inlineReference row = some reference ∧
        row.credentialMode = .inline ∧ row.inlineAuthKind = some kind ∧
        columns = columnsOf reference) ∨
      (kind = .privateKey ∧ columns = (none,none) ∧ ∀ row ∈ old, inlineReference row = none ∨
        row.credentialMode ≠ .inline ∨ row.inlineAuthKind ≠ some .privateKey) := by
  cases old with
  | none =>
    obtain ⟨hkind,hcolumns⟩ := missingSecretForPreserve_ok h
    exact Or.inr ⟨hkind,hcolumns,by simp⟩
  | some row =>
    simp only [storedVersion,Option.map_some,preserveInlineSecret] at h
    split at h
    · rename_i hmode
      obtain ⟨rfl,hcolumns⟩ := missingSecretForPreserve_ok h
      refine Or.inr ⟨rfl,hcolumns,fun r hr => Or.inr ?_⟩
      cases hr
      simpa [rowToConnectionProfile] using hmode
    · rename_i hmode
      simp only [rowToConnectionProfile,not_or,not_not,ne_eq] at hmode
      split at h
      · rename_i reference href
        exact Or.inl ⟨row,reference,rfl,href,hmode.1,hmode.2,by simpa using h.symm⟩
      · rename_i href
        refine Or.inr ⟨rfl,by simpa using h.symm,fun r hr => Or.inl ?_⟩
        cases hr
        exact href
      · cases h

theorem prepareInlineSecret_ok {validated : ValidatedConnectionProfileInput} {t : Tables}
    {old : Option ConnectionRow} {source : Option (ConnectionProfile × Option SecretReference)}
    (h : prepareInlineSecret id validated (storedVersion t old) source s = .ok columns s') :
    s'.database = s.database ∧
      InlineOutcome id validated old source.isSome s.secrets s'.secrets columns := by
  have hkeep : ∀ kind, validated.inlineAuthKind = some kind →
      (kind = .privateKey → validated.inlinePrivateKeyPassphrase = none) →
      keepInlineSecret id kind (storedVersion t old) source s = .ok columns s' →
      s'.database = s.database ∧
        InlineOutcome id validated old source.isSome s.secrets s'.secrets columns := by
    intro kind hkind hpassphrase hkeep
    unfold keepInlineSecret at hkeep
    split at hkeep
    · obtain ⟨hdatabase,⟨rfl,rfl,hsecrets⟩ | ⟨rfl,secret,hsecrets⟩⟩ := copyInlineSecret_ok hkeep
      · refine ⟨hdatabase,hsecrets ▸ .absent (Or.inr ⟨hkind,hpassphrase rfl,Or.inr (Or.inl rfl)⟩)⟩
      · exact ⟨hdatabase,hsecrets ▸ .stored kind secret hkind⟩
    · rw [lift_ok] at hkeep
      obtain ⟨hkeep,rfl⟩ := hkeep
      rcases preserveInlineSecret_ok hkeep with
        ⟨row,reference,hold,href,hmode,hauth,rfl⟩ | ⟨rfl,rfl,hnone⟩
      · exact ⟨rfl,.kept row reference kind hold href hmode hauth hkind⟩
      · exact ⟨rfl,.absent (Or.inr ⟨hkind,hpassphrase rfl,Or.inr (Or.inr hnone)⟩)⟩
  unfold prepareInlineSecret at h
  cases hkind : validated.inlineAuthKind with
  | none =>
    simp only [hkind,pure_ok] at h
    obtain ⟨rfl,rfl⟩ := h
    exact ⟨rfl,.absent (Or.inl hkind)⟩
  | some kind =>
    cases kind with
    | password =>
      cases hpassword : validated.inlinePassword with
      | some password =>
        simp only [hkind,hpassword] at h
        obtain ⟨hdatabase,rfl,hsecrets⟩ := storeSecret_ok h
        exact ⟨hdatabase,hsecrets ▸ .stored .password _ hkind⟩
      | none =>
        simp only [hkind,hpassword] at h
        split at h
        · exact hkeep .password hkind (by simp) h
        · cases h
    | privateKey =>
      cases hpassphrase : validated.inlinePrivateKeyPassphrase with
      | some passphrase =>
        simp only [hkind,hpassphrase] at h
        obtain ⟨hdatabase,rfl,hsecrets⟩ := storeSecret_ok h
        exact ⟨hdatabase,hsecrets ▸ .stored .privateKey _ hkind⟩
      | none =>
        simp only [hkind,hpassphrase] at h
        split at h
        · exact hkeep .privateKey hkind (fun _ => hpassphrase) h
        · rename_i htouched
          obtain ⟨rfl,rfl⟩ := h
          exact ⟨rfl,.absent (Or.inr ⟨hkind,hpassphrase,Or.inl (by simpa using htouched)⟩)⟩

theorem connectionGet_ok {found : Option ConnectionProfile} (h : connectionGet id s = .ok found s') :
    s' = s.advance := (query_ok.mp h).2.2

theorem storedConnection_ok {stored : ConnectionProfile × Option SecretReference}
    (h : storedConnection id s = .ok stored s') :
    s' = s.advance ∧ ∃ row, s.database.connections.find? id = some row ∧
      stored = (rowToConnectionProfile s.database.toTables row,inlineReference row) := by
  simp only [storedConnection,storedConnectionOptional,bind_ok,query_ok,lift_ok] at h
  obtain ⟨_,_,⟨-,rfl,rfl⟩,hrow,rfl⟩ := h
  cases hfind : s.database.connections.find? id with
  | none => simp [hfind,okOr] at hrow
  | some row => exact ⟨rfl,row,rfl,by simpa [hfind,okOr] using hrow.symm⟩

theorem storedCredential_ok {stored : CredentialProfile × Option SecretReference}
    (h : storedCredential id s = .ok stored s') :
    s' = s.advance ∧ ∃ row, s.database.credentials.find? id = some row ∧
      stored = (rowToCredentialProfile row,credentialReference row) := by
  simp only [storedCredential,storedCredentialOptional,bind_ok,query_ok,lift_ok] at h
  obtain ⟨_,_,⟨-,rfl,rfl⟩,hrow,rfl⟩ := h
  cases hfind : s.database.credentials.find? id with
  | none => simp [hfind,okOr] at hrow
  | some row => exact ⟨rfl,row,rfl,by simpa [hfind,okOr] using hrow.symm⟩

/-- The groups a form leaves: those stored before, and a fresh one under the form's name. -/
structure GroupsAfter (fresh : Uuid) (group : Option String) (before after : Database) : Prop where
  connections : after.connections = before.connections
  credentials : after.credentials = before.credentials
  groups : ∀ g ∈ after.connectionGroups, g ∈ before.connectionGroups ∨
    (g.id = fresh.toString ∧ group = some g.name)

variable {now : String}

theorem ensureGroupOptional_ok {fresh : Uuid} {group groupId : Option String}
    (h : ensureGroupOptional fresh now group s = .ok groupId s') :
    s'.secrets = s.secrets ∧ GroupsAfter fresh group s.database s'.database := by
  cases group with
  | none =>
    obtain ⟨-,rfl⟩ := h
    exact ⟨rfl,rfl,rfl,fun g hg => Or.inl hg⟩
  | some name =>
    have hrun : ∃ id, ensureGroup fresh name now s = .ok id s' := by
      simp only [ensureGroupOptional,Functor.map,EStateM.map] at h
      cases hrun : ensureGroup fresh name now s with
      | ok id t => rw [hrun] at h; cases h; exact ⟨id,rfl⟩
      | error e t => rw [hrun] at h; cases h
    obtain ⟨id,hrun⟩ := hrun
    simp only [ensureGroup,bind_ok,query_ok] at hrun
    obtain ⟨found,_,⟨-,-,rfl⟩,hrun⟩ := hrun
    cases found with
    | some id =>
      obtain ⟨-,rfl⟩ := hrun
      exact ⟨rfl,rfl,rfl,fun g hg => Or.inl hg⟩
    | none =>
      simp only [bind_ok,pure_ok] at hrun
      obtain ⟨_,t,hinsert,-,rfl⟩ := hrun
      obtain ⟨hexec,hsecrets⟩ := execute_database hinsert
      obtain ⟨-,groups,hgroups,ht⟩ := Tables.exec_insertGroup_ok.mp (Database.exec_ok_iff.mp hexec)
      refine ⟨hsecrets,by rw [ht]; rfl,by rw [ht]; rfl,fun g hg => ?_⟩
      rw [ht] at hg
      rcases (Table.mem_insert hgroups).mp hg with hg | rfl
      · exact Or.inl hg
      · exact Or.inr ⟨rfl,rfl⟩

theorem duplicateSource_ok {sourceId : Option String} {source : Option (ConnectionProfile × Option SecretReference)}
    (h : duplicateSource sourceId s = .ok source s') : s'.database = s.database ∧
      s'.secrets = s.secrets ∧ source.isSome = sourceId.isSome := by
  cases sourceId with
  | none =>
    obtain ⟨rfl,rfl⟩ := h
    exact ⟨rfl,rfl,rfl⟩
  | some id =>
    simp only [duplicateSource,Functor.map,EStateM.map] at h
    cases hrun : storedConnection id s with
    | ok stored t =>
      rw [hrun] at h
      cases h
      obtain ⟨rfl,-⟩ := storedConnection_ok hrun
      exact ⟨rfl,rfl,rfl⟩
    | error e t => rw [hrun] at h; cases h

/-- Everything `connection_upsert` does when it succeeds. -/
theorem connectionUpsert_ok {draws : Draws} {input : ConnectionProfileInput} {profile : ConnectionProfile}
    (h : connectionUpsert draws input now s = .ok profile s') :
    ∃ validated existing groupId columns grouped,
      validateProfileInput s.family input = .ok validated ∧
      (validated.id.isSome → (Text.trimOptional input.sourceConnectionId).isSome = false) ∧
      GroupsAfter draws.group validated.group s.database grouped ∧
      InlineOutcome (validated.id.getD draws.record.toString) validated
        (s.database.connections.find? (validated.id.getD draws.record.toString))
        (Text.trimOptional input.sourceConnectionId).isSome s.secrets s'.secrets columns ∧
      grouped.exec (.upsertConnection (connectionRow (validated.id.getD draws.record.toString) now
        input validated existing groupId columns)) = .ok s'.database := by
  simp only [connectionUpsert,bind_ok,lift_ok,get_apply,EStateM.Result.ok.injEq] at h
  obtain ⟨_,_,⟨rfl,rfl⟩,validated,_,⟨hvalid,rfl⟩,_,_,⟨hsource,rfl⟩,h⟩ := h
  simp only [existingConnectionMeta,storedConnectionOptional,query_ok] at h
  obtain ⟨existing,_,⟨-,-,rfl⟩,groupId,t,hgroup,_,_,⟨-,rfl,rfl⟩,h⟩ := h
  obtain ⟨source,v,hduplicate,columns,w,hprepare,_,x,hexecute,_,y,hget,-,rfl⟩ := h
  obtain ⟨hgroupSecrets,hgrouped⟩ := ensureGroupOptional_ok hgroup
  obtain ⟨hdatabase,hsecrets,hsome⟩ := duplicateSource_ok hduplicate
  obtain ⟨hprepared,houtcome⟩ := prepareInlineSecret_ok hprepare
  obtain ⟨hexec,hexecSecrets⟩ := execute_database hexecute
  obtain rfl := connectionGet_ok hget
  refine ⟨validated,existing,groupId,columns,t.database,hvalid,fun hid => ?_,hgrouped,?_,?_⟩
  · simpa [hid] using hsource
  · rw [advance_secrets,hexecSecrets,← hsome]
    rw [hsecrets,advance_secrets,hgroupSecrets] at houtcome
    simpa [hgrouped.connections] using houtcome
  · rw [advance_database,← hexec,hprepared,hdatabase,advance_database]

theorem connectionDelete_ok {u : Unit} (h : connectionDelete id s = .ok u s') :
    ∃ row, s.database.connections.find? id = some row ∧
      s'.database.toTables = s.database.deleteConnections (· = id) ∧
      s'.secrets = match row.inlineSecretRef with
        | some account => Function.update s.secrets account none
        | none => s.secrets := by
  simp only [connectionDelete,bind_ok,lift_ok] at h
  obtain ⟨stored,_,hstored,changed,t,hdelete,_,_,⟨-,rfl⟩,hreferenced⟩ := h
  obtain ⟨rfl,row,hrow,rfl⟩ := storedConnection_ok hstored
  obtain ⟨hexec,hsecrets⟩ := executeDelete_ok hdelete
  have ht : t.database.toTables = s.database.deleteConnections (· = id) := by
    simpa [Tables.exec,eq_comm] using Database.exec_ok_iff.mp hexec
  refine ⟨row,hrow,?_⟩
  cases href : row.inlineSecretRef with
  | none =>
    simp only [inlineReference,href,Option.map_none,deleteReferenced,pure_ok] at hreferenced
    obtain ⟨-,rfl⟩ := hreferenced
    exact ⟨ht,hsecrets⟩
  | some account =>
    simp only [inlineReference,href,Option.map_some,deleteReferenced] at hreferenced
    obtain ⟨hdatabase,hsecrets'⟩ := deleteSecret_ok hreferenced
    exact ⟨hdatabase ▸ ht,by rw [hsecrets',hsecrets]; rfl⟩

theorem credentialGet_ok {found : Option CredentialProfile} (h : credentialGet id s = .ok found s') :
    s' = s.advance := (query_ok.mp h).2.2

theorem preserveCredentialSecret_ok {old : Option CredentialRow}
    (h : preserveCredentialSecret (old.map fun row => (rowToCredentialProfile row,credentialReference row)) kind = .ok
      columns) :
    (∃ row reference, old = some row ∧ credentialReference row = some reference ∧
        row.kind = kind ∧ columns = columnsOf reference) ∨
      (kind = .privateKey ∧ columns = (none,none) ∧
        ∀ row ∈ old, credentialReference row = none ∨ row.kind ≠ .privateKey) := by
  cases old with
  | none =>
    obtain ⟨hkind,hcolumns⟩ := missingSecretForPreserve_ok h
    exact Or.inr ⟨hkind,hcolumns,by simp⟩
  | some row =>
    by_cases hkind : row.kind = kind
    · simp only [Option.map_some,preserveCredentialSecret,rowToCredentialProfile,hkind,ne_eq,
        not_true_eq_false,if_false] at h
      cases href : credentialReference row with
      | some reference =>
        simp only [href,Except.ok.injEq] at h
        exact Or.inl ⟨row,reference,rfl,href,hkind,h.symm⟩
      | none =>
        cases kind with
        | password => simp [href] at h
        | privateKey =>
          simp only [href,Except.ok.injEq] at h
          exact Or.inr ⟨rfl,h.symm,by simp [href]⟩
    · simp only [Option.map_some,preserveCredentialSecret,rowToCredentialProfile,ne_eq,hkind,
        not_false_eq_true,if_true] at h
      obtain ⟨rfl,hcolumns⟩ := missingSecretForPreserve_ok h
      exact Or.inr ⟨rfl,hcolumns,by simp [hkind]⟩

theorem prepareCredentialSecret_ok {validated : ValidatedCredentialProfileInput} {old : Option CredentialRow}
    (h : prepareCredentialSecret id validated (old.map fun row => (rowToCredentialProfile row,credentialReference row))
      s = .ok columns s') :
    s'.database = s.database ∧
      CredentialOutcome id validated old s.secrets s'.secrets columns := by
  unfold prepareCredentialSecret at h
  cases hkind : validated.kind with
  | password =>
    cases hpassword : validated.password with
    | some password =>
      simp only [hkind,hpassword] at h
      obtain ⟨hdatabase,rfl,hsecrets⟩ := storeSecret_ok h
      have hstored : CredentialOutcome id validated old s.secrets _ _ := .stored password
      rw [hkind] at hstored
      exact ⟨hdatabase,hsecrets ▸ hstored⟩
    | none =>
      simp only [hkind,hpassword] at h
      split at h
      · rw [lift_ok] at h
        obtain ⟨h,rfl⟩ := h
        rcases preserveCredentialSecret_ok h with ⟨row,reference,hold,href,hrow,rfl⟩ | ⟨hne,-⟩
        · exact ⟨rfl,.kept row reference hold href (hrow.trans hkind.symm)⟩
        · cases hne
      · cases h
  | privateKey =>
    cases hpassphrase : validated.privateKeyPassphrase with
    | some passphrase =>
      simp only [hkind,hpassphrase] at h
      obtain ⟨hdatabase,rfl,hsecrets⟩ := storeSecret_ok h
      have hstored : CredentialOutcome id validated old s.secrets _ _ := .stored passphrase
      rw [hkind] at hstored
      exact ⟨hdatabase,hsecrets ▸ hstored⟩
    | none =>
      simp only [hkind,hpassphrase] at h
      split at h
      · rw [lift_ok] at h
        obtain ⟨h,rfl⟩ := h
        rcases preserveCredentialSecret_ok h with ⟨row,reference,hold,href,hrow,rfl⟩ | ⟨-,rfl,hnone⟩
        · exact ⟨rfl,.kept row reference hold href (hrow.trans hkind.symm)⟩
        · exact ⟨rfl,.absent hkind hpassphrase (Or.inr hnone)⟩
      · rename_i htouched
        obtain ⟨rfl,rfl⟩ := h
        exact ⟨rfl,.absent hkind hpassphrase (Or.inl (by simpa using htouched))⟩

/-- Everything `credential_upsert` does when it succeeds. -/
theorem credentialUpsert_ok {draws : Draws} {input : CredentialProfileInput} {profile : CredentialProfile}
    (h : credentialUpsert draws input now s = .ok profile s') :
    ∃ validated createdAt columns, validateCredentialInput input = .ok validated ∧
      CredentialOutcome (validated.id.getD draws.record.toString) validated
        (s.database.credentials.find? (validated.id.getD draws.record.toString))
        s.secrets s'.secrets columns ∧
      s.database.exec (.upsertCredential (credentialRow (validated.id.getD draws.record.toString)
        now validated createdAt columns)) = .ok s'.database := by
  simp only [credentialUpsert,bind_ok,lift_ok] at h
  obtain ⟨validated,_,⟨hvalid,rfl⟩,h⟩ := h
  simp only [storedCredentialOptional,query_ok] at h
  obtain ⟨createdAt,_,⟨-,-,rfl⟩,_,_,⟨-,rfl,rfl⟩,columns,t,hprepare,_,u,hexecute,_,v,hget,-,rfl⟩ := h
  obtain ⟨hdatabase,houtcome⟩ := prepareCredentialSecret_ok hprepare
  obtain ⟨hexec,hsecrets⟩ := execute_database hexecute
  obtain rfl := credentialGet_ok hget
  refine ⟨validated,createdAt,columns,hvalid,?_,?_⟩
  · rw [advance_secrets,hsecrets]
    exact houtcome
  · rw [advance_database,← hexec,hdatabase]
    rfl

/-- Everything `credential_delete` does when it succeeds; no connection used the account. -/
theorem credentialDelete_ok {u : Unit} (h : credentialDelete id s = .ok u s') :
    ∃ row, s.database.credentials.find? id = some row ∧
      (∀ connection ∈ s.database.connections, connection.credentialId ≠ some id) ∧
      s'.database.toTables = s.database.deleteCredentials (· = id) ∧
      s'.secrets = match row.secretRef with
        | some account => Function.update s.secrets account none
        | none => s.secrets := by
  simp only [credentialDelete,bind_ok,query_ok,lift_ok] at h
  obtain ⟨references,_,⟨-,rfl,rfl⟩,_,_,⟨hunused,rfl⟩,stored,_,hstored,changed,t,hdelete,_,_,
    ⟨-,rfl⟩,hreferenced⟩ := h
  obtain ⟨rfl,row,hrow,rfl⟩ := storedCredential_ok hstored
  obtain ⟨hexec,hsecrets⟩ := executeDelete_ok hdelete
  have ht : t.database.toTables = s.database.deleteCredentials (· = id) := by
    simpa [Tables.exec,eq_comm] using Database.exec_ok_iff.mp hexec
  refine ⟨row,hrow,fun connection hconnection hid => ?_,?_⟩
  · split at hunused
    · rename_i hnone
      have := List.map_eq_nil_iff.mp hnone
      simpa [hid] using List.filter_eq_nil_iff.mp this connection hconnection
    · cases hunused
  cases href : row.secretRef with
  | none =>
    simp only [credentialReference,href,Option.map_none,deleteReferenced,pure_ok] at hreferenced
    obtain ⟨-,rfl⟩ := hreferenced
    exact ⟨ht,hsecrets⟩
  | some account =>
    simp only [credentialReference,href,Option.map_some,deleteReferenced] at hreferenced
    obtain ⟨hdatabase,hsecrets'⟩ := deleteSecret_ok hreferenced
    exact ⟨hdatabase ▸ ht,by rw [hsecrets',hsecrets]; rfl⟩

end Mxterm.RepositoryCommands
