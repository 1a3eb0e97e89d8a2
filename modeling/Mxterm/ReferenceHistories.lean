import Mxterm.RepositoryHistories
import Mxterm.SymbolicPlatform

/-! Whether every secret reference of the tables resolves in the vault, over whole histories of
commands, snapshots and connection transfers. -/
namespace Mxterm.ReferenceHistories

open Execution StorageRepository RepositoryCommands SecretReference SecretOwnership List
open SyncRepository SyncSnapshot ConnectionTransfer

/-- Every row's secret columns hold its own account, and every reference resolves. -/
structure Sound (s : StorageRepository) : Prop where
  own : OwnAccounts s.database.toTables
  resolves : Ledger.Resolves (ledger s)

theorem sound_empty (faults : ℕ → Option Fault) (family : X11Display.TargetFamily) :
    Sound (.empty faults family) :=
  ⟨ownAccounts_empty faults family,fun owner _ href => by
    cases owner <;> simp [ledger,references,database,StorageRepository.empty,Database.empty,
      Tables.empty,Table.find?] at href⟩

theorem Sound.run {s s' : StorageRepository} {command : Command} (hs : Sound s)
    (h : command.run s = .ok () s') : Sound s' :=
  ⟨hs.own.run h,(run_step h).resolves (hs.own.owned _) hs.resolves⟩

/-- A slot of the rows is in use, or the other vault holds its account already. -/
structure Carried (t : Tables) (secrets : Entries) : Prop where
  connections : ∀ row ∈ t.connections, ∀ slot, row.inlineSecretSlotId = some slot →
    row.inlineSecretRef.isSome ∨ (secrets slot).isSome
  credentials : ∀ row ∈ t.credentials, ∀ slot, row.secretSlotId = some slot →
    row.secretRef.isSome ∨ (secrets slot).isSome

/-- The rows of a snapshot hold the accounts that the rows of its source held. -/
theorem ownAccounts_of_holds {e : Surroundings} {restoreSecretRefs : Bool} {t u : Tables}
    (ht : OwnAccounts t) (h : Holds e (exportedData t) restoreSecretRefs u) : OwnAccounts u := by
  have hslot : ∀ (slot : Option String) account,
      (if restoreSecretRefs then slot else none) = some account ∨ slot = some account →
        slot = some account := by
    rintro slot account (href | hslot)
    · cases restoreSecretRefs
      · cases href
      · exact href
    · exact hslot
  constructor
  · intro row hrow account haccount
    obtain ⟨old,hold,rfl⟩ := h.mem_connections.mp hrow
    exact ht.connections old hold account (Or.inr (hslot _ _ haccount))
  · intro row hrow account haccount
    obtain ⟨old,hold,rfl⟩ := h.mem_credentials.mp hrow
    exact ht.credentials old hold account (Or.inr (hslot _ _ haccount))

section
variable {β : Type} {P : Platform β}

/-- Importing what a sound repository exported, without the password or with it, when every slot
of the source is carried. -/
theorem Sound.imported (hP : P.RoundTrips) {source source' s s' : StorageRepository}
    {draws : SnapshotDraws P} {options : SyncExportOptions} {bundle : SyncSnapshotBundle β}
    {password : Option String} {result : SyncImportResult} (hsource : Sound source)
    (hexport : exportBundle P draws options source = .ok bundle source')
    (hpassword : password = none ∨ password = options.syncPassword)
    (hcarried : (usablePassword password).isSome → Carried source.database.toTables s.secrets)
    (himport : importBundle P bundle password s = .ok result s') : Sound s' := by
  obtain ⟨hexported,-⟩ := exportBundle_ok hexport
  obtain ⟨data,read,hdata,-,hsecrets,hholds,hstored,-⟩ := importBundle_ok himport
  cases (readData_exported hP.data hexported).symm.trans hdata
  refine ⟨ownAccounts_of_holds hsource.own hholds,?_⟩
  cases husable : usablePassword password with
  | none =>
    obtain rfl : none = read := by simpa [readSecrets,husable] using hsecrets
    rintro (id | id) account href
    · obtain ⟨row,hrow,haccount⟩ := Option.map_eq_some_iff.mp href
      obtain ⟨old,-,rfl⟩ := hholds.mem_connections.mp (Table.find?_eq_some_iff.mp hrow).1
      cases haccount
    · obtain ⟨row,hrow,haccount⟩ := Option.map_eq_some_iff.mp href
      obtain ⟨old,-,rfl⟩ := hholds.mem_credentials.mp (Table.find?_eq_some_iff.mp hrow).1
      cases haccount
  | some usable =>
    obtain rfl : password = options.syncPassword := hpassword.resolve_left fun hnone => by
      simp [hnone,usablePassword] at husable
    obtain ⟨secrets,hentries,hread⟩ := readSecrets_exported hP hexported husable
    cases hread.symm.trans hsecrets
    have hcarried := hcarried (by simp [husable])
    have hrestored : ∀ row ∈ secretRows source.database.toTables,
        (s'.secrets row.slotId).isSome := by
      intro row hrow
      obtain ⟨secret,hsecret,hslot⟩ := exists_secret_of_row hentries hrow
      rw [hstored,← hslot]
      exact storeAll_isSome_of_mem hsecret
    have hkept : ∀ account, (s.secrets account).isSome → (s'.secrets account).isSome :=
      fun account h => hstored ▸ storeAll_isSome h _
    rintro (id | id) account href
    · obtain ⟨row,hrow,haccount⟩ := Option.map_eq_some_iff.mp href
      obtain ⟨old,hold,rfl⟩ := hholds.mem_connections.mp (Table.find?_eq_some_iff.mp hrow).1
      rcases hcarried.connections old hold account haccount with hused | hheld
      · obtain ⟨reference,href⟩ := Option.isSome_iff_exists.mp hused
        refine hrestored ⟨reference,account,old.inlineAuthKind,old.updatedAt,true⟩ ?_
        refine mem_append_left _ (mem_filterMap.mpr ⟨old,hold,?_⟩)
        have hslot : old.inlineSecretSlotId = some account := haccount
        simp [connectionSecretRow,href,hslot]
      · exact hkept account hheld
    · obtain ⟨row,hrow,haccount⟩ := Option.map_eq_some_iff.mp href
      obtain ⟨old,hold,rfl⟩ := hholds.mem_credentials.mp (Table.find?_eq_some_iff.mp hrow).1
      rcases hcarried.credentials old hold account haccount with hused | hheld
      · obtain ⟨reference,href⟩ := Option.isSome_iff_exists.mp hused
        refine hrestored ⟨reference,account,some old.kind,old.updatedAt,false⟩ ?_
        refine mem_append_right _ (mem_filterMap.mpr ⟨old,hold,?_⟩)
        have hslot : old.secretSlotId = some account := haccount
        simp [credentialSecretRow,href,hslot]
      · exact hkept account hheld

end

/-- The slots of a transfer document are the records' own accounts. -/
structure OwnSlots (data : ConnectionTransferData) : Prop where
  connections : ∀ record ∈ data.connections, ∀ slot, record.inlineSecretSlotId = some slot →
    OwnConnectionAccount (connectionRowOf true record) slot
  credentials : ∀ record ∈ data.credentials, ∀ slot, record.secretSlotId = some slot →
    OwnCredentialAccount (credentialRowOf true record) slot

/-- How far an import has come: what its rows refer to is in the vault or will be stored. -/
structure Progress (data : ConnectionTransferData) (secrets : Entries) (active : List String)
    (s : StorageRepository) : Prop where
  own : OwnAccounts s.database.toTables
  unchanged : s.secrets = secrets
  held : ∀ owner account, references s.database.toTables owner = some (some account) →
    (secrets account).isSome ∨ account ∈ active
  slots : ∀ slot ∈ active, slot ∈ slots data

variable {data : ConnectionTransferData} {secrets : Entries} {s s' : StorageRepository}

variable {active : List String}

/-- A statement that leaves the connections and the saved accounts alone. -/
theorem Progress.beside (h : Progress data secrets active s) {error : String → AppError} {statement : Statement}
    {u : Unit}
    (hstatement : ∀ {t u : Tables}, t.exec statement = .ok u → u.connections = t.connections ∧ u.credentials =
      t.credentials)
    (hrun : execute error statement s = .ok u s') : Progress data secrets active s' := by
  obtain ⟨hexec,hsecrets⟩ := execute_database hrun
  obtain ⟨hconnections,hcredentials⟩ := hstatement (Database.exec_ok_iff.mp hexec)
  have hreferences : references s'.database.toTables = references s.database.toTables := by
    funext owner
    cases owner <;> simp [references,hconnections,hcredentials]
  exact ⟨⟨hconnections ▸ h.own.connections,hcredentials ▸ h.own.credentials⟩,
    hsecrets.trans h.unchanged,hreferences ▸ h.held,h.slots⟩

variable {strategy : ConflictStrategy}

theorem Progress.importGroup {groups : LocalGroups} {pass pass' : GroupPass} {group : SyncConnectionGroup}
    (h : Progress data secrets active s) (hrun : importGroup groups strategy pass group s = .ok pass' s') :
    Progress data secrets active s' := by
  simp only [ConnectionTransfer.importGroup,bind_ok,lift_ok] at hrun
  obtain ⟨_,_,⟨-,rfl⟩,hrun⟩ := hrun
  split at hrun
  · exact ((pure_ok _ _ _ _).mp hrun).2 ▸ h
  · simp only [bind_ok,pure_ok] at hrun
    obtain ⟨_,t,hexecute,-,rfl⟩ := hrun
    refine h.beside (fun {t u} hexec => ?_) hexecute
    split at hexec
    · simp only [Tables.exec,Tables.uniqueFailed] at hexec
      split at hexec <;> cases hexec
      exact ⟨rfl,rfl⟩
    · obtain ⟨-,_,-,rfl⟩ := Tables.exec_insertGroup_ok.mp hexec
      exact ⟨rfl,rfl⟩

theorem Progress.importCredential (hown : OwnSlots data) {ids : List String} {pass pass' : RowPass}
    {credential : SyncCredentialRecord} (hmem : credential ∈ data.credentials)
    (h : Progress data secrets pass.activeSecretSlots s)
    (hrun : importCredential ids strategy pass credential s = .ok pass' s') :
    Progress data secrets pass'.activeSecretSlots s' := by
  unfold ConnectionTransfer.importCredential at hrun
  split at hrun
  · obtain ⟨rfl,rfl⟩ := (pure_ok _ _ _ _).mp hrun
    exact h
  · simp only [bind_ok,pure_ok] at hrun
    obtain ⟨_,t,hexecute,rfl,rfl⟩ := hrun
    obtain ⟨hexec,hsecrets⟩ := execute_database hexecute
    have hexec := Database.exec_ok_iff.mp hexec
    refine ⟨h.own.upsertCredential (fun account haccount => ?_) hexec,hsecrets.trans h.unchanged,
      fun owner account href => ?_,fun slot hslot => ?_⟩
    · exact hown.credentials credential hmem account (haccount.elim id id)
    · rw [references_upsertCredential hexec] at href
      by_cases howner : owner = .credential credential.id
      · simp_all [credentialRowOf]
      · rw [Function.update_of_ne (by exact howner)] at href
        exact (h.held owner account href).imp_right (mem_append_right _)
    · rcases mem_append.mp hslot with hslot | hslot
      · exact mem_append_left _ (mem_filterMap.mpr ⟨credential,hmem,by simpa using hslot⟩)
      · exact h.slots slot hslot

theorem Progress.importConnection (hown : OwnSlots data) {ids : List String} {groups : List (String × String)}
    {pass pass' : RowPass} {connection : SyncConnectionRecord} (hmem : connection ∈ data.connections)
    (h : Progress data secrets pass.activeSecretSlots s)
    (hrun : importConnection ids groups strategy pass connection s = .ok pass' s') :
    Progress data secrets pass'.activeSecretSlots s' := by
  unfold ConnectionTransfer.importConnection at hrun
  split at hrun
  · obtain ⟨rfl,rfl⟩ := (pure_ok _ _ _ _).mp hrun
    exact h
  · simp only [bind_ok,pure_ok] at hrun
    obtain ⟨_,t,hexecute,rfl,rfl⟩ := hrun
    obtain ⟨hexec,hsecrets⟩ := execute_database hexecute
    have hexec := Database.exec_ok_iff.mp hexec
    refine ⟨h.own.upsertConnection (fun account haccount => ?_) hexec,hsecrets.trans h.unchanged,
      fun owner account href => ?_,fun slot hslot => ?_⟩
    · exact hown.connections connection hmem account (haccount.elim id id)
    · rw [references_upsertConnection hexec] at href
      by_cases howner : owner = .connection connection.id
      · simp_all [connectionRowOf]
      · rw [Function.update_of_ne (by exact howner)] at href
        exact (h.held owner account href).imp_right (mem_append_right _)
    · rcases mem_append.mp hslot with hslot | hslot
      · exact mem_append_right _ (mem_filterMap.mpr ⟨connection,hmem,by simpa using hslot⟩)
      · exact h.slots slot hslot

/-- After the rows of the document, every reference is in the vault or in an active slot. -/
theorem Progress.importRows (hown : OwnSlots data) {existing : Existing} {transactionId : Uuid}
    {result : ImportResult} (h : Progress data secrets [] s)
    (hrun : importRows existing data strategy transactionId s = .ok (result,active) s') :
    Progress data secrets active s' := by
  simp only [ConnectionTransfer.importRows,bind_ok,pure_ok,Prod.mk.injEq] at hrun
  obtain ⟨groups,t,hgroups,credentials,u,hcredentials,connections,v,hconnections,_,w,hsetting,
    ⟨-,rfl⟩,rfl⟩ := hrun
  have ht : Progress data secrets [] t := foldEach_ok_induction (P := fun _ => Progress data secrets [])
    (fun _ _ _ _ _ _ hs hstep => hs.importGroup hstep) h hgroups
  have hu : Progress data secrets credentials.activeSecretSlots u :=
    foldEach_ok_induction (P := fun pass => Progress data secrets pass.activeSecretSlots)
      (fun _ hmem _ _ _ _ hs hstep => hs.importCredential hown hmem hstep) ht hcredentials
  have hv : Progress data secrets connections.activeSecretSlots v :=
    foldEach_ok_induction (P := fun pass => Progress data secrets pass.activeSecretSlots)
      (fun _ hmem _ _ _ _ hs hstep => hs.importConnection hown hmem hstep) hu hconnections
  refine hv.beside (fun {t u} hexec => ?_) hsetting
  cases hexec
  exact ⟨rfl,rfl⟩

/-- A transfer whose slots are its records' own, and whose secrets were checked. -/
theorem Sound.applyTransferData (hown : OwnSlots data) (hs : Sound s) {plaintext : ConnectionTransferSecrets}
    (hsecrets : validateTransferSecrets data plaintext = .ok ()) {transactionId : Uuid} {result : ImportResult}
    (h : applyTransferData transactionId data plaintext strategy s = .ok result s') : Sound s' := by
  obtain ⟨t,u,rows,active,htables,hvault,hrows,hdatabase,hstored,-⟩ := applyTransferData_ok h
  have hbefore : Progress data s.secrets [] t := by
    refine ⟨htables ▸ hs.own,hvault,fun owner account href => Or.inl ?_,by simp⟩
    exact hs.resolves owner account (by rw [htables] at href; exact href)
  have hprogress := hbefore.importRows hown hrows
  refine ⟨hdatabase ▸ hprogress.own,fun owner account href => ?_⟩
  simp only [ledger,hdatabase] at href
  change (s'.secrets account).isSome
  rw [hstored,hprogress.unchanged]
  rcases hprogress.held owner account href with hheld | hactive
  · exact storeAll_isSome hheld _
  · obtain ⟨secret,hsecret,rfl⟩ :=
      validateTransferSecrets_slots hsecrets account (hprogress.slots account hactive)
    exact storeAll_isSome_of_mem (mem_filter.mpr ⟨hsecret,by simpa using hactive⟩)

/-- Every reference in the tables has a value under its account. -/
structure ReferencesResolve (s : StorageRepository) : Prop where
  connections : ∀ row ∈ s.database.connections, ∀ account, row.inlineSecretRef = some account →
    (s.secrets account).isSome
  credentials : ∀ row ∈ s.database.credentials, ∀ account, row.secretRef = some account →
    (s.secrets account).isSome

theorem Sound.referencesResolve (h : Sound s) : ReferencesResolve s where
  connections row hrow account haccount := h.resolves (.connection row.id) account
    (by simp [ledger,references,Table.find?_eq_some_iff.mpr ⟨hrow,rfl⟩,haccount])
  credentials row hrow account haccount := h.resolves (.credential row.id) account
    (by simp [ledger,references,Table.find?_eq_some_iff.mpr ⟨hrow,rfl⟩,haccount])

/-- The events after which no reference dangles: a snapshot is read with its password only when
every slot of its source is carried, and transfers keep to the accounts of their records. -/
def SecretsArrive (s : StorageRepository) : Event → Prop
  | .command _ => True
  | .imported source password =>
    (usablePassword password).isSome → Carried source.database.toTables s.secrets
  | .transferred data => OwnSlots data

section
variable {β : Type} {P : Platform β}

theorem reached_sound (hP : P.RoundTrips) (h : Reached P SecretsArrive s) : Sound s := by
  refine h.invariant (sound_empty _) (fun s n hs => ⟨hs.own,hs.resolves⟩) ?_ ?_ ?_
  · exact fun s t command hs _ hrun => hs.run hrun
  · intro source after s t draws options bundle password result hsource _ hcarried hexport hpassword
      himport
    exact hsource.imported hP hexport hpassword hcarried himport
  · intro s t transactionId bundle password strategy result hs hown happly
    obtain ⟨plaintext,-,-,hsecrets,happly⟩ := applyBundle_ok happly
    exact hs.applyTransferData hown hsecrets happly

/-- In every history in which the secrets arrive with the rows that refer to them, every stored
reference resolves. -/
theorem references_resolve (P : Platform β) (hP : P.RoundTrips) (s : StorageRepository)
    (h : Reached P SecretsArrive s) : ReferencesResolve s :=
  (reached_sound hP h).referencesResolve

/-- No two rows have one slot, so the row whose slot is exported is the one that refers to it. -/
theorem used_of_mem_secretRows {t : Tables} (ht : OwnAccounts t) {exported : SecretRow}
    (h : exported ∈ secretRows t) :
    (∀ row ∈ t.connections, row.inlineSecretSlotId = some exported.slotId →
      row.inlineSecretRef.isSome) ∧
    ∀ row ∈ t.credentials, row.secretSlotId = some exported.slotId → row.secretRef.isSome := by
  rcases mem_secretRows h with ⟨other,hother,href,hslot⟩ | ⟨other,hother,href,hslot⟩
  · obtain ⟨-,kind,-,hown⟩ := ht.connections other hother _ (Or.inr hslot)
    constructor
    · intro row hrow hslot'
      obtain ⟨-,kind',-,hown'⟩ := ht.connections row hrow _ (Or.inr hslot')
      have hid := (connectionAccount_inj.mp (hown'.symm.trans hown)).1
      simp [Table.eq_of_key_eq _ hrow hother hid,href]
    · intro row hrow hslot'
      have hown' := ht.credentials row hrow _ (Or.inr hslot')
      exact absurd (hown.symm.trans hown') (by simp)
  · have hown := ht.credentials other hother _ (Or.inr hslot)
    constructor
    · intro row hrow hslot'
      obtain ⟨-,kind',-,hown'⟩ := ht.connections row hrow _ (Or.inr hslot')
      exact absurd (hown'.symm.trans hown) (by simp)
    · intro row hrow hslot'
      have hown' := ht.credentials row hrow _ (Or.inr hslot')
      have hid := (credentialAccount_inj.mp (hown'.symm.trans hown)).1
      simp [Table.eq_of_key_eq _ hrow hother hid,href]

end

/-! A snapshot that is passed on by a device without the password. -/

def value {α : Type} : EStateM.Result AppError StorageRepository α → Option (α × StorageRepository)
  | .ok a s => some (a,s)
  | .error _ _ => none

theorem of_value {α : Type} {r : EStateM.Result AppError StorageRepository α} {a : α}
    {t : StorageRepository} (h : value r = some (a,t)) : r = .ok a t := by
  cases r with
  | ok b u => cases h; rfl
  | error e u => cases h

section
variable {β : Type} (P : Platform β) (draws : SnapshotDraws P) (options : SyncExportOptions)

/-- What a third device holds when the first one ran the command and the second one passed its
snapshot on without having the password. -/
def relayed (start : StorageRepository) (command : Command) : Option StorageRepository := do
  let first ← value (command.run start)
  let bundle ← value (exportBundle P draws options first.2)
  let second ← value (importBundle P bundle.1 none start)
  let relay ← value (exportBundle P draws options second.2)
  let third ← value (importBundle P relay.1 options.syncPassword start)
  some third.2

variable {P} {draws} {options}

theorem relayed_reached {family : X11Display.TargetFamily} {command : Command}
    (h : relayed P draws options (.empty (fun _ => none) family) command = some s) :
    Reached P (fun _ _ => True) s := by
  simp only [relayed,Option.bind_eq_bind,Option.bind_eq_some_iff,Option.some.injEq] at h
  obtain ⟨first,hfirst,bundle,hbundle,second,hsecond,relay,hrelay,third,hthird,rfl⟩ := h
  have hstart : Reached P (fun _ _ => True) (.empty (fun _ => none) family) := .empty family
  have hreached : Reached P (fun _ _ => True) second.2 :=
    .imported _ _ bundle.1 none _ (.command command hstart trivial (of_value hfirst)) hstart trivial
      (of_value hbundle) (Or.inl rfl) (of_value hsecond)
  exact .imported _ _ relay.1 _ _ hreached hstart trivial (of_value hrelay) (Or.inr rfl)
    (of_value hthird)

end

def Dangling (s : StorageRepository) : Prop :=
  ∃ row ∈ s.database.connections.rows, ∃ account ∈ row.inlineSecretRef, s.secrets account = none

instance (s : StorageRepository) : Decidable (Dangling s) := by unfold Dangling; infer_instance

def storedWithPassword : Command := .connectionUpsert ⟨⟨0⟩,⟨1⟩⟩
  { id := some "web", host := "web", port := 22, username := "root",
    inlinePassword := some "secret" } "1"

def withPassword : SyncExportOptions := ⟨"laptop","Laptop","1",some "password"⟩

/-- A device that imports without the password keeps the slots, and passes them on without their
secrets; with the password they become references to nothing. -/
theorem relayed_reference_dangles : ∃ s, Reached SymbolicPlatform.platform (fun _ _ => True) s ∧
    ¬ ReferencesResolve s := by
  have hdangling : (relayed SymbolicPlatform.platform ⟨⟨0⟩,SymbolicPlatform.randomBytes⟩ withPassword
      (.empty (fun _ => none) .unix) storedWithPassword).any (fun s => decide (Dangling s)) := by
    decide +kernel
  obtain ⟨s,hs,hdangling⟩ := (Option.any_eq_true _ _).mp hdangling
  obtain ⟨row,hrow,account,haccount,hnone⟩ := of_decide_eq_true hdangling
  refine ⟨s,relayed_reached hs,fun hresolve => ?_⟩
  have := hresolve.connections row hrow account haccount
  rw [hnone] at this
  cases this

theorem references_resolve_password : ∃ s,
    storedWithPassword.run (.empty (fun _ => none) .unix) = .ok () s ∧ ReferencesResolve s := by
  have hrun : ∃ s, storedWithPassword.run (.empty (fun _ => none) .unix) = .ok () s := ⟨_,rfl⟩
  obtain ⟨s,hs⟩ := hrun
  exact ⟨s,hs,references_resolve SymbolicPlatform.platform SymbolicPlatform.platform_roundTrips s
    (.command storedWithPassword (.empty .unix) trivial hs)⟩

end Mxterm.ReferenceHistories
