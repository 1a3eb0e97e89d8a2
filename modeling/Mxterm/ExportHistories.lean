import Mxterm.TransferExport

/-! Whether every repository can be exported, over whole histories of commands and snapshots. -/
namespace Mxterm.ExportHistories

open Execution StorageRepository RepositoryCommands ProfileValidation SecretOwnership StorageRepository SymbolicPlatform
open SyncRepository SyncSnapshot SecureBundle ConnectionTransfer ReferenceHistories TransferExport

/-! The commands do not touch the schedule of failures. -/

theorem execute_keeps_faults (error : String → AppError) (statement : Statement) :
    Keeps faults (execute error statement) := by
  intro s
  unfold after execute
  cases s.faults s.clock with
  | some fault => rfl
  | none => cases s.database.exec statement <;> simp

theorem executeDelete_keeps_faults (error : String → AppError) (statement : Statement) :
    Keeps faults (executeDelete error statement) := by
  intro s
  have h := execute_keeps_faults error statement s
  unfold after executeDelete
  unfold after at h
  split at h <;> rename_i hrun <;> simpa only [hrun] using h

theorem changeSecrets_keeps_faults (refused : String → AppError) (change : Entries → Entries) :
    Keeps faults (changeSecrets refused change) := by
  intro s
  unfold after changeSecrets
  cases s.faults s.clock with
  | none => rfl
  | some fault => cases fault <;> rfl

theorem getSecret_keeps_faults (reference : SecretReference) :
    Keeps faults (getSecret reference) := by
  intro s
  unfold after getSecret
  cases s.faults s.clock with
  | some fault => rfl
  | none => cases s.secrets reference.account <;> rfl

theorem query_keeps_faults {α : Type} (error : String → AppError) (select : Tables → α) :
    Keeps faults (query error select) := query_keeps _ _ _ fun _ => rfl

theorem storeSecret_keeps_faults (reference : SecretReference) (secret : String) :
    Keeps faults (storeSecret reference secret) :=
  (changeSecrets_keeps_faults _ _).bind fun _ => .pure _

theorem keepInlineSecret_keeps_faults (id : String) (kind : ConnectionAuthKind)
    (existing source : Option (ConnectionProfile × Option SecretReference)) :
    Keeps faults (keepInlineSecret id kind existing source) := by
  unfold keepInlineSecret
  split
  · unfold copyInlineSecret
    split
    · exact .lift _
    · split
      · exact .pure _
      · exact .throw _
      · exact (getSecret_keeps_faults _).bind fun _ => storeSecret_keeps_faults _ _
  · exact .lift _

theorem prepareInlineSecret_keeps_faults (id : String)
    (validated : ValidatedConnectionProfileInput)
    (existing source : Option (ConnectionProfile × Option SecretReference)) :
    Keeps faults (prepareInlineSecret id validated existing source) := by
  unfold prepareInlineSecret
  split
  · split
    · exact storeSecret_keeps_faults _ _
    · split
      · exact keepInlineSecret_keeps_faults _ _ _ _
      · exact .throw _
  · split
    · exact storeSecret_keeps_faults _ _
    · split
      · exact keepInlineSecret_keeps_faults _ _ _ _
      · exact .pure _
  · exact .pure _

theorem ensureGroupOptional_keeps_faults (draws : Uuid) (now : String) (group : Option String) :
    Keeps faults (ensureGroupOptional draws now group) := by
  cases group with
  | none => exact .pure _
  | some name =>
    refine Keeps.map _ (.bind (query_keeps_faults _ _) fun found => ?_)
    cases found with
    | some id => exact .pure _
    | none => exact .bind (execute_keeps_faults _ _) fun _ => .pure _

theorem duplicateSource_keeps_faults (sourceId : Option String) :
    Keeps faults (duplicateSource sourceId) := by
  cases sourceId with
  | none => exact .pure _
  | some id => exact Keeps.map _ (.bind (query_keeps_faults _ _) fun _ => .lift _)

theorem prepareCredentialSecret_keeps_faults (id : String)
    (validated : ValidatedCredentialProfileInput)
    (existing : Option (CredentialProfile × Option SecretReference)) :
    Keeps faults (prepareCredentialSecret id validated existing) := by
  unfold prepareCredentialSecret
  split
  · split
    · exact storeSecret_keeps_faults _ _
    · split
      · exact .lift _
      · exact .throw _
  · split
    · exact storeSecret_keeps_faults _ _
    · split
      · exact .lift _
      · exact .pure _

theorem deleteSecret_keeps_faults (reference : SecretReference) :
    Keeps faults (deleteSecret reference) := changeSecrets_keeps_faults _ _

theorem deleteReferenced_keeps_faults (reference : Option SecretReference) :
    Keeps faults (deleteReferenced reference) := by
  cases reference with
  | none => exact .pure _
  | some reference => exact deleteSecret_keeps_faults reference

theorem run_keeps_faults (command : Command) : Keeps faults command.run := by
  cases command with
  | connectionUpsert draws input now =>
    refine Keeps.bind ?_ fun _ => .pure _
    refine Keeps.bind .get fun _ => .bind (.lift _) fun validated => .bind (.lift _) fun _ => ?_
    refine Keeps.bind (query_keeps_faults _ _) fun existing => ?_
    refine Keeps.bind (ensureGroupOptional_keeps_faults _ _ _) fun groupId => ?_
    refine Keeps.bind (query_keeps_faults _ _) fun stored => ?_
    refine Keeps.bind (duplicateSource_keeps_faults _) fun source => ?_
    refine Keeps.bind (prepareInlineSecret_keeps_faults _ _ _ _) fun columns => ?_
    exact .bind (execute_keeps_faults _ _) fun _ => .bind (query_keeps_faults _ _) fun _ => .lift _
  | credentialUpsert draws input now =>
    refine Keeps.bind (.bind (.lift _) fun validated => ?_) fun _ => .pure _
    refine Keeps.bind (query_keeps_faults _ _) fun createdAt => ?_
    refine Keeps.bind (query_keeps_faults _ _) fun existing => ?_
    refine Keeps.bind (prepareCredentialSecret_keeps_faults _ _ _) fun columns => ?_
    exact .bind (execute_keeps_faults _ _) fun _ => .bind (query_keeps_faults _ _) fun _ => .lift _
  | connectionDelete id =>
    refine Keeps.bind (.bind (query_keeps_faults _ _) fun _ => .lift _) fun stored => ?_
    refine Keeps.bind (executeDelete_keeps_faults _ _) fun _ => .bind (.lift _) fun _ => ?_
    exact deleteReferenced_keeps_faults _
  | credentialDelete id =>
    refine Keeps.bind (query_keeps_faults _ _) fun _ => .bind (.lift _) fun _ => ?_
    refine Keeps.bind (.bind (query_keeps_faults _ _) fun _ => .lift _) fun stored => ?_
    refine Keeps.bind (executeDelete_keeps_faults _ _) fun _ => .bind (.lift _) fun _ => ?_
    exact deleteReferenced_keeps_faults _

/-- What an export needs of the tables. -/
structure Portable (t : Tables) : Prop where
  nonblank : Nonblank t
  used : SlotsUsed t
  jumps : JumpsStored t

namespace Portable
variable {t u : Tables}

theorem empty : Portable .empty where
  nonblank := ⟨by simp [Tables.empty],by simp [Tables.empty],by simp [Tables.empty]⟩
  used := ⟨by simp [Tables.empty],by simp [Tables.empty]⟩
  jumps := by simp [JumpsStored,Tables.empty]

theorem upsertConnection (ht : Portable t) {row : ConnectionRow} (hid : ¬ Blank row.id)
    (hused : row.inlineSecretSlotId.isSome → row.inlineSecretRef.isSome)
    (hjump : ∀ jump ∈ row.jump.jumpConnectionId, jump = row.id ∨ t.connections.HasKey jump)
    (h : t.exec (.upsertConnection row) = .ok u) : Portable u := by
  obtain ⟨-,rfl⟩ := Tables.exec_upsertConnection_ok.mp h
  refine ⟨⟨ht.nonblank.groups,ht.nonblank.credentials,fun other hother => ?_⟩,
    ⟨fun other hother => ?_,ht.used.credentials⟩,fun other hother jump hmem => ?_⟩
  · rcases Table.mem_put.mp hother with rfl | ⟨hother,-⟩
    · exact hid
    · exact ht.nonblank.connections other hother
  · rcases Table.mem_put.mp hother with rfl | ⟨hother,-⟩
    · exact hused
    · exact ht.used.connections other hother
  · rcases Table.mem_put.mp hother with rfl | ⟨hother,-⟩
    · exact Table.hasKey_put.mpr (hjump jump hmem)
    · exact Table.hasKey_put.mpr (Or.inr (ht.jumps other hother jump hmem))

theorem upsertCredential (ht : Portable t) {row : CredentialRow} (hid : ¬ Blank row.id)
    (hused : row.secretSlotId.isSome → row.secretRef.isSome)
    (h : t.exec (.upsertCredential row) = .ok u) : Portable u := by
  cases h
  refine ⟨⟨ht.nonblank.groups,fun other hother => ?_,ht.nonblank.connections⟩,
    ⟨ht.used.connections,fun other hother => ?_⟩,ht.jumps⟩
  · rcases Table.mem_put.mp hother with rfl | ⟨hother,-⟩
    · exact hid
    · exact ht.nonblank.credentials other hother
  · rcases Table.mem_put.mp hother with rfl | ⟨hother,-⟩
    · exact hused
    · exact ht.used.credentials other hother

/-- No connection that stays jumps through one that goes. -/
theorem deleteConnections (ht : Portable t) {gone : String → Bool}
    (hjumps : ∀ row ∈ t.connections, gone row.id = false →
      ∀ jump ∈ row.jump.jumpConnectionId, gone jump = false) :
    Portable (t.deleteConnections gone) := by
  refine ⟨⟨ht.nonblank.groups,ht.nonblank.credentials,fun row hrow =>
    ht.nonblank.connections row (Table.mem_keepRows.mp hrow).1⟩,⟨fun row hrow =>
    ht.used.connections row (Table.mem_keepRows.mp hrow).1,ht.used.credentials⟩,?_⟩
  intro row hrow jump hjump
  obtain ⟨hmem,hkeep⟩ := Table.mem_keepRows.mp hrow
  obtain ⟨other,hother,rfl⟩ := Table.hasKey_iff.mp (ht.jumps row hmem jump hjump)
  have hstays := hjumps row hmem (by simpa using hkeep) _ hjump
  exact Table.hasKey_keepRows.mpr ⟨other,hother,by simp [hstays],rfl⟩

theorem deleteCredentials (ht : Portable t) (gone : String → Bool) :
    Portable (t.deleteCredentials gone) := by
  have hkeys := Table.hasKey_mapRows t.connections (Tables.forgetCredential gone)
    (Tables.forgetCredential_id gone)
  refine ⟨⟨ht.nonblank.groups,fun row hrow =>
    ht.nonblank.credentials row (Table.mem_keepRows.mp hrow).1,fun row hrow => ?_⟩,
    ⟨fun row hrow => ?_,fun row hrow => ht.used.credentials row (Table.mem_keepRows.mp hrow).1⟩,
    fun row hrow jump hjump => ?_⟩
  all_goals
    obtain ⟨old,hold,rfl⟩ := (Table.mem_mapRows _ _ (Tables.forgetCredential_id gone) _).mp hrow
  · exact ht.nonblank.connections old hold
  · exact ht.used.connections old hold
  · exact (hkeys jump).mpr (ht.jumps old hold jump hjump)

theorem grouped {fresh : Uuid} {group : Option String} {before after : Database}
    (ht : Portable before.toTables) (hgroup : ∀ name ∈ group, ¬ Blank name)
    (h : GroupsAfter fresh group before after) : Portable after.toTables := by
  refine ⟨⟨fun g hg => ?_,h.credentials ▸ ht.nonblank.credentials,
    h.connections ▸ ht.nonblank.connections⟩,⟨h.connections ▸ ht.used.connections,
    h.credentials ▸ ht.used.credentials⟩,?_⟩
  · rcases h.groups g hg with hg | ⟨hid,hname⟩
    · exact ht.nonblank.groups g hg
    · exact ⟨hid ▸ Uuid.toString_nonblank fresh,hgroup g.name hname⟩
  · rw [JumpsStored,h.connections]
    exact ht.jumps

/-- The rows of a snapshot, when they have no slots or when their references are restored. -/
theorem imported {e : Surroundings} {restoreSecretRefs : Bool} (ht : Portable t)
    (hslots : restoreSecretRefs = false → (∀ row ∈ t.connections, row.inlineSecretSlotId = none) ∧
      ∀ row ∈ t.credentials, row.secretSlotId = none)
    (h : Holds e (exportedData t) restoreSecretRefs u) : Portable u := by
  have hgroups : ∀ group, group ∈ u.connectionGroups ↔ group ∈ t.connectionGroups := fun group => by
    rw [Table.mem_iff,h.connectionGroups]
    exact (List.perm_insertionSort _ _).mem_iff
  refine ⟨⟨fun group hgroup => ht.nonblank.groups group ((hgroups group).mp hgroup),?_,?_⟩,⟨?_,?_⟩,?_⟩
  · intro row hrow
    obtain ⟨old,hold,rfl⟩ := h.mem_credentials.mp hrow
    exact ht.nonblank.credentials old hold
  · intro row hrow
    obtain ⟨old,hold,rfl⟩ := h.mem_connections.mp hrow
    exact ht.nonblank.connections old hold
  · intro row hrow
    obtain ⟨old,hold,rfl⟩ := h.mem_connections.mp hrow
    cases restoreSecretRefs with
    | true => exact id
    | false => simp [connectionRowOf,connectionRecord,(hslots rfl).1 old hold]
  · intro row hrow
    obtain ⟨old,hold,rfl⟩ := h.mem_credentials.mp hrow
    cases restoreSecretRefs with
    | true => exact id
    | false => simp [credentialRowOf,credentialRecord,(hslots rfl).2 old hold]
  · intro row hrow jump hjump
    obtain ⟨old,hold,rfl⟩ := h.mem_connections.mp hrow
    obtain ⟨other,hother,hid⟩ := Table.hasKey_iff.mp (ht.jumps old hold jump hjump)
    exact Table.hasKey_iff.mpr ⟨_,h.mem_connections.mpr ⟨other,hother,rfl⟩,hid⟩

end Portable

/-- The slots of a snapshot arrive with their secrets, or its source has none. -/
def SlotsArrive (source : Tables) (secrets : Entries) : Option String → Prop
  | some _ => Carried source secrets
  | none => (∀ row ∈ source.connections, row.inlineSecretSlotId = none) ∧
      ∀ row ∈ source.credentials, row.secretSlotId = none

/-- The events after which a repository can still be exported: a connection is stored with a jump
connection that is stored or itself, it is deleted when no other connection jumps through it, and
the slots of a snapshot arrive with their secrets. -/
def ExportsKept (s : StorageRepository) : Event → Prop
  | .command (.connectionUpsert draws input _) => ∀ validated,
      validateProfileInput s.family input = .ok validated →
      ∀ jump ∈ validated.jump.jumpConnectionId,
        jump = validated.id.getD draws.record.toString ∨ s.database.connections.HasKey jump
  | .command (.credentialUpsert _ _ _) => True
  | .command (.connectionDelete id) => ∀ row ∈ s.database.connections, row.id ≠ id →
      row.jump.jumpConnectionId ≠ some id
  | .command (.credentialDelete _) => True
  | .imported source password =>
      SlotsArrive source.database.toTables s.secrets (usablePassword password)
  | .transferred _ => False

theorem drawn_nonblank (id : Option String) (fresh : Uuid) :
    ¬ Blank ((Text.trimOptional id).getD fresh.toString) := by
  cases h : Text.trimOptional id with
  | none => exact Uuid.toString_nonblank fresh
  | some id => exact Text.trimOptional_nonblank h

theorem inlineOutcome_used {id : String} {validated : ValidatedConnectionProfileInput}
    {old : Option ConnectionRow} {duplicate : Bool} {before after : Entries}
    {columns : SecretColumns} (h : InlineOutcome id validated old duplicate before after columns) :
    columns.2.isSome → columns.1.isSome := by
  cases h <;> simp [columnsOf]

theorem credentialOutcome_used {id : String} {validated : ValidatedCredentialProfileInput}
    {old : Option CredentialRow} {before after : Entries} {columns : SecretColumns}
    (h : CredentialOutcome id validated old before after columns) :
    columns.2.isSome → columns.1.isSome := by
  cases h <;> simp [columnsOf]

theorem Portable.run {s t : StorageRepository} {command : Command}
    (hs : Portable s.database.toTables) (hkept : ExportsKept s (.command command))
    (h : command.run s = .ok () t) : Portable t.database.toTables := by
  cases command with
  | connectionUpsert draws input now =>
    simp only [Command.run,bind_ok,pure_ok] at h
    obtain ⟨profile,_,hrun,-,rfl⟩ := h
    obtain ⟨validated,existing,groupId,columns,grouped,hvalid,-,hgrouped,houtcome,hexec⟩ :=
      connectionUpsert_ok hrun
    have haccepted := validateProfileInput_accepted hvalid
    have hgroup : ∀ name ∈ validated.group, ¬ Blank name := fun name hname =>
      Text.trimOptional_nonblank (haccepted.group ▸ hname)
    refine (hs.grouped hgroup hgrouped).upsertConnection ?_ (inlineOutcome_used houtcome) ?_
      (Database.exec_ok_iff.mp hexec)
    · simpa only [connectionRow,haccepted.id] using drawn_nonblank input.id draws.record
    · rw [hgrouped.connections]
      exact hkept validated hvalid
  | credentialUpsert draws input now =>
    simp only [Command.run,bind_ok,pure_ok] at h
    obtain ⟨profile,_,hrun,-,rfl⟩ := h
    obtain ⟨validated,createdAt,columns,hvalid,houtcome,hexec⟩ := credentialUpsert_ok hrun
    refine hs.upsertCredential ?_ (credentialOutcome_used houtcome) (Database.exec_ok_iff.mp hexec)
    simpa only [credentialRow,validateCredentialInput_id hvalid] using
      drawn_nonblank input.id draws.record
  | connectionDelete id =>
    obtain ⟨_,-,htables,-⟩ := connectionDelete_ok h
    rw [htables]
    refine hs.deleteConnections fun row hrow hstays jump hjump => ?_
    have hne : row.id ≠ id := by simpa using hstays
    have hother := hkept row hrow hne
    rw [Option.mem_def.mp hjump] at hother
    simpa using hother
  | credentialDelete id =>
    obtain ⟨_,-,-,htables,-⟩ := credentialDelete_ok h
    exact htables ▸ hs.deleteCredentials _

/-- What an export needs of a repository in which no call fails. -/
structure Exportable (s : StorageRepository) : Prop where
  sound : Sound s
  spared : ∀ i, s.faults i = none
  portable : Portable s.database.toTables

section
variable {β : Type} {P : Platform β} {s : StorageRepository}

theorem Exportable.imported (hP : P.RoundTrips) {source source' t : StorageRepository}
    {draws : SnapshotDraws P} {options : SyncExportOptions} {bundle : SyncSnapshotBundle β}
    {password : Option String} {result : SyncImportResult} (hsource : Exportable source)
    (hs : Exportable s) (hexport : exportBundle P draws options source = .ok bundle source')
    (hpassword : password = none ∨ password = options.syncPassword)
    (harrive : SlotsArrive source.database.toTables s.secrets (usablePassword password))
    (himport : importBundle P bundle password s = .ok result t) : Exportable t := by
  have hsound : Sound t := by
    refine hsource.sound.imported hP hexport hpassword (fun husable => ?_) himport
    obtain ⟨usable,husable⟩ := Option.isSome_iff_exists.mp husable
    rw [husable] at harrive
    exact harrive
  obtain ⟨hexported,-⟩ := exportBundle_ok hexport
  obtain ⟨data,read,hdata,-,hsecrets,hholds,-,-,-,hfaults⟩ := importBundle_ok himport
  cases (readData_exported hP.data hexported).symm.trans hdata
  refine ⟨hsound,hfaults ▸ hs.spared,hsource.portable.imported (fun hnone => ?_) hholds⟩
  cases husable : usablePassword password with
  | none =>
    rw [husable] at harrive
    exact harrive
  | some usable =>
    obtain rfl : password = options.syncPassword := hpassword.resolve_left fun h => by
      simp [h,usablePassword] at husable
    obtain ⟨secrets,-,hread⟩ := readSecrets_exported hP hexported husable
    cases hread.symm.trans hsecrets
    cases hnone

theorem reached_exportable (hP : P.RoundTrips) (h : Reached P ExportsKept s) : Exportable s := by
  refine h.invariant (fun family => ⟨sound_empty _ family,fun _ => rfl,.empty⟩) ?_ ?_ ?_ ?_
  · exact fun s n hs => ⟨⟨hs.sound.own,hs.sound.resolves⟩,hs.spared,hs.portable⟩
  · exact fun s t command hs hkept hrun => ⟨hs.sound.run hrun,
      (run_keeps_faults command).of_ok hrun ▸ hs.spared,hs.portable.run hkept hrun⟩
  · intro source after s t draws options bundle password result hsource hs hkept hexport hpassword
      himport
    exact hsource.imported hP hs hexport hpassword hkept himport
  · exact fun _ _ _ _ _ _ _ _ hkept _ => absurd hkept id

/-- In every history whose events keep the exports possible, the repository can be exported. -/
theorem reached_exports (P : Platform β) (hP : P.RoundTrips) (random : RandomBytes P.toCrypto)
    (password createdAt : String) (hpassword : validatePassword password = .ok ())
    (s : StorageRepository) (h : Reached P ExportsKept s)
    (hlimits : WithinLimits s.database.connectionGroups.rows.length
      s.database.credentials.rows.length s.database.connections.rows.length) :
    Exports P random password createdAt s := by
  have hs := reached_exportable hP h
  exact (exports_iff hP random hpassword createdAt hs.spared hs.sound hs.portable.nonblank
    hlimits).mpr ⟨hs.portable.used,hs.portable.jumps⟩

end

/-! A connection whose jump connection was deleted. -/

def runAll (commands : List Command) (s : StorageRepository) : Option StorageRepository :=
  (value (forEach Command.run commands s)).map (·.2)

theorem runAll_reached {β : Type} {P : Platform β} {commands : List Command} {s t : StorageRepository}
    (hs : Reached P (fun _ _ => True) s) (h : runAll commands s = some t) :
    Reached P (fun _ _ => True) t := by
  obtain ⟨⟨_,_⟩,hrun,rfl⟩ := Option.map_eq_some_iff.mp h
  exact forEach_ok_induction (P := Reached P fun _ _ => True)
    (fun command _ _ _ hs hstep => .command command hs trivial hstep) hs (of_value hrun)

def throughGate : List Command := [
  .connectionUpsert ⟨⟨0⟩,⟨1⟩⟩
    { id := some "gate", host := "gate", port := 22, username := "root",
      credentialMode := .prompt } "1",
  .connectionUpsert ⟨⟨2⟩,⟨3⟩⟩
    { id := some "web", host := "web", port := 22, username := "root",
      credentialMode := .prompt,
      jump := { kind := .sshJump, jumpConnectionId := some "gate" } } "2",
  .connectionDelete "gate"]

/-- Deleting a connection that another one jumps through leaves a repository that no export
accepts. -/
theorem throughGate_not_exported : ∃ s, Reached platform (fun _ _ => True) s ∧
    WithinLimits s.database.connectionGroups.rows.length s.database.credentials.rows.length
      s.database.connections.rows.length ∧ validatePassword "password" = .ok () ∧
    ¬ Exports platform randomBytes "password" "3" s := by
  have hrun : (runAll throughGate (.empty (fun _ => none) .unix)).any (fun s =>
      decide (s.database.connectionGroups.rows.length = 0 ∧ s.database.credentials.rows.length = 0 ∧
        s.database.connections.rows.length = 1 ∧
          (value (exportRepositoryBundle platform randomBytes
            "password" "3" s)).isNone)) := by decide +kernel
  obtain ⟨s,hs,hrun⟩ := (Option.any_eq_true _ _).mp hrun
  obtain ⟨hgroups,hcredentials,hconnections,hnone⟩ := of_decide_eq_true hrun
  refine ⟨s,runAll_reached (.empty .unix) hs,⟨?_,?_,?_⟩,by decide,?_⟩
  · rw [hgroups]; exact Nat.zero_le _
  · rw [hcredentials]; exact Nat.zero_le _
  · rw [hconnections]; decide
  · rintro ⟨bundle,s',hexport⟩
    rw [hexport] at hnone
    cases hnone

def storedAccount : Command := .credentialUpsert ⟨⟨0⟩,⟨1⟩⟩
  { id := some "root", name := "root", username := some "root", kind := .password,
    password := some "secret" } "1"

theorem reached_exports_account : ∃ s,
    storedAccount.run (.empty (fun _ => none) .unix) = .ok () s ∧
      Exports platform randomBytes "password" "2" s := by
  have hrun : ∃ s, storedAccount.run (.empty (fun _ => none) .unix) = .ok () s ∧
      s.database.connectionGroups.rows.length = 0 ∧ s.database.credentials.rows.length = 1 ∧
        s.database.connections.rows.length = 0 := ⟨_,rfl,rfl,rfl,rfl⟩
  obtain ⟨s,hs,hgroups,hcredentials,hconnections⟩ := hrun
  refine ⟨s,hs,reached_exports _ platform_roundTrips _ _ _ (by decide) s
    (.command storedAccount (.empty .unix) trivial hs) ⟨?_,?_,?_⟩⟩
  · rw [hgroups]; exact Nat.zero_le _
  · rw [hcredentials]; decide
  · rw [hconnections]; exact Nat.zero_le _

end Mxterm.ExportHistories
