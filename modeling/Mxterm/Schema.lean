import Mxterm.SyncRecords
import Mxterm.Table

/-! The tables of `storage_sqlite.rs` that connections, accounts and synchronisation use,
and the statements the code runs on them. Columns hold the values their texts encode. -/
namespace Mxterm

structure CredentialRow where
  id : String
  name : String
  username : String
  kind : ConnectionAuthKind
  secretRef : Option String
  secretSlotId : Option String
  privateKeyPath : Option String
  notes : Option String
  createdAt : String
  updatedAt : String
  deriving DecidableEq

structure ConnectionRow where
  id : String
  name : String
  protocol : ConnectionProtocol
  groupId : Option String
  host : String
  port : UInt16
  username : String
  credentialMode : ConnectionCredentialMode
  credentialId : Option String
  inlineAuthKind : Option ConnectionAuthKind
  inlineSecretRef : Option String
  inlineSecretSlotId : Option String
  inlinePrivateKeyPath : Option String
  promptAuthKind : Option ConnectionAuthKind
  proxy : ConnectionProxyConfig
  jump : ConnectionJumpConfig
  advanced : ConnectionAdvancedConfig
  rdp : Option RdpConnectionConfig
  vnc : Option VncConnectionConfig
  telnet : Option TelnetConnectionConfig
  serial : Option SerialConnectionConfig
  notes : Option String
  isFavorite : Bool
  lastConnectedAt : Option String
  remoteOsId : Option String
  remoteOsName : Option String
  remoteOsVersion : Option String
  createdAt : String
  updatedAt : String
  deriving DecidableEq

structure KnownHostRow where
  host : String
  port : UInt16
  keyAlgorithm : String
  fingerprintSha256 : String
  publicKey : String
  firstTrustedAt : String
  lastSeenAt : String
  deriving DecidableEq

def KnownHostRow.key (row : KnownHostRow) : String × UInt16 × String :=
  (row.host,row.port,row.keyAlgorithm)

structure SettingRow where
  key : String
  value : SettingValue
  updatedAt : String
  deriving DecidableEq

@[ext] structure Tables where
  connectionGroups : Table SyncConnectionGroup.id
  credentials : Table CredentialRow.id
  connections : Table ConnectionRow.id
  knownHosts : Table KnownHostRow.key
  tunnels : Table TunnelRule.id
  appSettings : Table SettingRow.key

inductive TableName
  | tunnels | connections | credentials | connectionGroups | knownHosts | appSettings
  deriving DecidableEq

inductive Statement
  | insertGroup (row : SyncConnectionGroup)
  | updateGroup (id name : String) (sortOrder : Int) (updatedAt : String)
  | insertCredential (row : CredentialRow)
  | upsertCredential (row : CredentialRow)
  | deleteCredential (id : String)
  | insertConnection (row : ConnectionRow)
  | upsertConnection (row : ConnectionRow)
  | deleteConnection (id : String)
  | insertKnownHost (row : KnownHostRow)
  | upsertKnownHost (row : KnownHostRow)
  | insertTunnel (row : TunnelRule)
  | insertSetting (row : SettingRow)
  | upsertSetting (row : SettingRow)
  | clear (table : TableName)

namespace Tables

def empty : Tables := ⟨.empty _,.empty _,.empty _,.empty _,.empty _,.empty _⟩

def groupNames (t : Tables) : List String := t.connectionGroups.rows.map (·.name)

/-- The foreign keys of a connection row. -/
def Refers (t : Tables) (row : ConnectionRow) : Prop :=
  (∀ g ∈ row.groupId, t.connectionGroups.HasKey g) ∧ ∀ c ∈ row.credentialId, t.credentials.HasKey c

instance (t : Tables) (row : ConnectionRow) : Decidable (t.Refers row) := by
  unfold Refers; infer_instance

/-- The constraints between rows that the primary keys do not cover. -/
structure Consistent (t : Tables) : Prop where
  groupNamesNodup : t.groupNames.Nodup
  connectionRefers : ∀ row ∈ t.connections, t.Refers row
  tunnelRefers : ∀ row ∈ t.tunnels, t.connections.HasKey row.connectionId

theorem empty_consistent : empty.Consistent where
  groupNamesNodup := by simp [groupNames,empty]
  connectionRefers := by simp [empty]
  tunnelRefers := by simp [empty]

def uniqueFailed (column : String) : Except String Tables :=
  .error ("UNIQUE constraint failed: " ++ column)

def foreignKeyFailed : Except String Tables := .error "FOREIGN KEY constraint failed"

/-- `ON CONFLICT(id) DO UPDATE` sets every column but the creation time. -/
def excluded (row : ConnectionRow) (old : Option ConnectionRow) : ConnectionRow :=
  { row with createdAt := (old.map (·.createdAt)).getD row.createdAt }

def excludedCredential (row : CredentialRow) (old : Option CredentialRow) : CredentialRow :=
  { row with createdAt := (old.map (·.createdAt)).getD row.createdAt }

/-- `ON CONFLICT(host, port, key_algorithm) DO UPDATE` keeps the time of the first trust. -/
def excludedKnownHost (row : KnownHostRow) (old : Option KnownHostRow) : KnownHostRow :=
  { row with firstTrustedAt := (old.map (·.firstTrustedAt)).getD row.firstTrustedAt }

@[simp] theorem excluded_id (row : ConnectionRow) (old : Option ConnectionRow) :
    (excluded row old).id = row.id := rfl

@[simp] theorem excludedCredential_id (row : CredentialRow) (old : Option CredentialRow) :
    (excludedCredential row old).id = row.id := rfl

@[simp] theorem excludedKnownHost_key (row : KnownHostRow) (old : Option KnownHostRow) :
    (excludedKnownHost row old).key = row.key := rfl

/-- `ON DELETE SET NULL` on the column `credential_id`. -/
def forgetCredential (gone : String → Bool) (row : ConnectionRow) : ConnectionRow :=
  { row with credentialId := row.credentialId.filter fun id => !gone id }

/-- `ON DELETE SET NULL` on the column `group_id`. -/
def forgetGroup (gone : String → Bool) (row : ConnectionRow) : ConnectionRow :=
  { row with groupId := row.groupId.filter fun id => !gone id }

theorem forgetCredential_id (gone : String → Bool) (row : ConnectionRow) :
    (forgetCredential gone row).id = row.id := rfl

theorem forgetGroup_id (gone : String → Bool) (row : ConnectionRow) :
    (forgetGroup gone row).id = row.id := rfl

def deleteConnections (t : Tables) (gone : String → Bool) : Tables :=
  { t with
    connections := t.connections.keepRows fun row => !gone row.id
    tunnels := t.tunnels.keepRows fun row => !gone row.connectionId }

def deleteCredentials (t : Tables) (gone : String → Bool) : Tables :=
  { t with
    credentials := t.credentials.keepRows fun row => !gone row.id
    connections := t.connections.mapRows (forgetCredential gone) (forgetCredential_id gone) }

def renamedGroup (id name : String) (sortOrder : Int) (updatedAt : String)
    (row : SyncConnectionGroup) : SyncConnectionGroup :=
  if row.id = id then { row with name, sortOrder, updatedAt } else row

theorem renamedGroup_id (id name : String) (sortOrder : Int) (updatedAt : String)
    (row : SyncConnectionGroup) : (renamedGroup id name sortOrder updatedAt row).id = row.id := by
  unfold renamedGroup; split <;> rfl

/-- One statement, which takes effect whole or not at all. -/
def exec (t : Tables) : Statement → Except String Tables
  | .insertGroup row =>
    if row.name ∈ t.groupNames then uniqueFailed "connection_groups.name"
    else match t.connectionGroups.insert row with
      | some connectionGroups => .ok { t with connectionGroups }
      | none => uniqueFailed "connection_groups.id"
  | .updateGroup id name sortOrder updatedAt =>
    if ∃ row ∈ t.connectionGroups.rows, row.id ≠ id ∧ row.name = name ∧ t.connectionGroups.HasKey id then
      uniqueFailed "connection_groups.name"
    else .ok { t with
      connectionGroups := t.connectionGroups.mapRows (renamedGroup id name sortOrder updatedAt)
        (renamedGroup_id id name sortOrder updatedAt) }
  | .insertCredential row =>
    match t.credentials.insert row with
    | some credentials => .ok { t with credentials }
    | none => uniqueFailed "credentials.id"
  | .upsertCredential row => .ok { t with
      credentials := t.credentials.put (excludedCredential row (t.credentials.find? row.id)) }
  | .deleteCredential id => .ok (t.deleteCredentials fun other => other = id)
  | .insertConnection row =>
    match t.connections.insert row with
    | some connections => if t.Refers row then .ok { t with connections } else foreignKeyFailed
    | none => uniqueFailed "connections.id"
  | .upsertConnection row =>
    if t.Refers row then .ok { t with
      connections := t.connections.put (excluded row (t.connections.find? row.id)) }
    else foreignKeyFailed
  | .deleteConnection id => .ok (t.deleteConnections fun other => other = id)
  | .insertKnownHost row =>
    match t.knownHosts.insert row with
    | some knownHosts => .ok { t with knownHosts }
    | none => uniqueFailed "known_hosts.host, known_hosts.port, known_hosts.key_algorithm"
  | .upsertKnownHost row => .ok { t with
      knownHosts := t.knownHosts.put (excludedKnownHost row (t.knownHosts.find? row.key)) }
  | .insertTunnel row =>
    match t.tunnels.insert row with
    | some tunnels =>
      if t.connections.HasKey row.connectionId then .ok { t with tunnels } else foreignKeyFailed
    | none => uniqueFailed "tunnels.id"
  | .insertSetting row =>
    match t.appSettings.insert row with
    | some appSettings => .ok { t with appSettings }
    | none => uniqueFailed "app_settings.key"
  | .upsertSetting row => .ok { t with appSettings := t.appSettings.put row }
  | .clear .tunnels => .ok { t with tunnels := .empty _ }
  | .clear .connections => .ok (t.deleteConnections fun _ => true)
  | .clear .credentials => .ok (t.deleteCredentials fun _ => true)
  | .clear .connectionGroups => .ok { t with
      connectionGroups := .empty _
      connections := t.connections.mapRows (forgetGroup fun _ => true) (forgetGroup_id _) }
  | .clear .knownHosts => .ok { t with knownHosts := .empty _ }
  | .clear .appSettings => .ok { t with appSettings := .empty _ }

variable {t u : Tables}

theorem exec_insertGroup_ok {row : SyncConnectionGroup} :
    t.exec (.insertGroup row) = .ok u ↔ row.name ∉ t.groupNames ∧
      ∃ groups, t.connectionGroups.insert row = some groups ∧
        u = { t with connectionGroups := groups } := by
  delta exec
  simp only [uniqueFailed]
  split
  · simp_all
  · cases t.connectionGroups.insert row <;> simp_all [eq_comm]

theorem exec_insertCredential_ok {row : CredentialRow} :
    t.exec (.insertCredential row) = .ok u ↔ ∃ credentials,
      t.credentials.insert row = some credentials ∧ u = { t with credentials } := by
  delta exec
  simp only [uniqueFailed]
  cases t.credentials.insert row <;> simp [eq_comm]

variable {row : ConnectionRow}

theorem exec_insertConnection_ok :
    t.exec (.insertConnection row) = .ok u ↔ t.Refers row ∧ ∃ connections,
      t.connections.insert row = some connections ∧ u = { t with connections } := by
  delta exec
  simp only [uniqueFailed,foreignKeyFailed]
  cases t.connections.insert row with
  | none => simp
  | some connections => by_cases h : t.Refers row <;> simp [h,eq_comm]

theorem exec_upsertConnection_ok :
    t.exec (.upsertConnection row) = .ok u ↔ t.Refers row ∧ u = { t with
      connections := t.connections.put (excluded row (t.connections.find? row.id)) } := by
  delta exec
  simp only [foreignKeyFailed]
  by_cases h : t.Refers row <;> simp [h,eq_comm]

theorem exec_insertKnownHost_ok {row : KnownHostRow} :
    t.exec (.insertKnownHost row) = .ok u ↔ ∃ knownHosts,
      t.knownHosts.insert row = some knownHosts ∧ u = { t with knownHosts } := by
  delta exec
  simp only [uniqueFailed]
  cases t.knownHosts.insert row <;> simp [eq_comm]

theorem exec_insertTunnel_ok {row : TunnelRule} :
    t.exec (.insertTunnel row) = .ok u ↔ t.connections.HasKey row.connectionId ∧ ∃ tunnels,
      t.tunnels.insert row = some tunnels ∧ u = { t with tunnels } := by
  delta exec
  simp only [uniqueFailed,foreignKeyFailed]
  cases t.tunnels.insert row with
  | none => simp
  | some tunnels => by_cases h : t.connections.HasKey row.connectionId <;> simp [h,eq_comm]

theorem exec_insertSetting_ok {row : SettingRow} :
    t.exec (.insertSetting row) = .ok u ↔ ∃ appSettings,
      t.appSettings.insert row = some appSettings ∧ u = { t with appSettings } := by
  delta exec
  simp only [uniqueFailed]
  cases t.appSettings.insert row <;> simp [eq_comm]

theorem Refers.mono (h : t.Refers row) (hg : ∀ g, t.connectionGroups.HasKey g → u.connectionGroups.HasKey g)
    (hc : ∀ c, t.credentials.HasKey c → u.credentials.HasKey c) : u.Refers row :=
  ⟨fun g hrow => hg g (h.1 g hrow),fun c hrow => hc c (h.2 c hrow)⟩

theorem refers_forgetCredential {gone : String → Bool} (h : t.Refers row) :
    (t.deleteCredentials gone).Refers (forgetCredential gone row) := by
  refine ⟨h.1,fun c hc => ?_⟩
  simp only [forgetCredential,Option.mem_def,Option.filter_eq_some_iff] at hc
  obtain ⟨r,hr,hid⟩ := Table.hasKey_iff.mp (h.2 c hc.1)
  exact Table.hasKey_keepRows.mpr ⟨r,hr,by simpa [hid] using hc.2,hid⟩

theorem deleteConnections_consistent (ht : t.Consistent) (gone : String → Bool) :
    (t.deleteConnections gone).Consistent where
  groupNamesNodup := ht.groupNamesNodup
  connectionRefers row hrow := ht.connectionRefers row (Table.mem_keepRows.mp hrow).1
  tunnelRefers row hrow := by
    obtain ⟨hmem,hkeep⟩ := Table.mem_keepRows.mp hrow
    obtain ⟨r,hr,hid⟩ := Table.hasKey_iff.mp (ht.tunnelRefers row hmem)
    exact Table.hasKey_keepRows.mpr ⟨r,hr,by simpa [hid] using hkeep,hid⟩

theorem deleteCredentials_consistent (ht : t.Consistent) (gone : String → Bool) :
    (t.deleteCredentials gone).Consistent where
  groupNamesNodup := ht.groupNamesNodup
  connectionRefers row hrow := by
    obtain ⟨old,hold,rfl⟩ := (Table.mem_mapRows _ _ (forgetCredential_id gone) _).mp hrow
    exact refers_forgetCredential (ht.connectionRefers old hold)
  tunnelRefers row hrow :=
    (Table.hasKey_mapRows _ _ (forgetCredential_id gone) _).mpr (ht.tunnelRefers row hrow)

/-- A renamed group keeps the names apart when no other group has the new name. -/
theorem renamedGroup_names_nodup {rows : List SyncConnectionGroup} {id name updatedAt : String}
    {sortOrder : Int} (hids : (rows.map (·.id)).Nodup) (hnames : (rows.map (·.name)).Nodup)
    (hother : id ∈ rows.map (·.id) → ∀ row ∈ rows, row.id ≠ id → row.name ≠ name) :
    ((rows.map (renamedGroup id name sortOrder updatedAt)).map (·.name)).Nodup := by
  rw [List.map_map]
  refine List.Nodup.map_on (fun a ha b hb he => ?_) (List.Nodup.of_map _ hids)
  simp only [Function.comp_apply,renamedGroup] at he
  split at he <;> split at he <;> rename_i hia hib
  · exact List.inj_on_of_nodup_map hids ha hb (hia.trans hib.symm)
  · exact absurd he.symm (hother (hia ▸ List.mem_map_of_mem ha) b hb hib)
  · exact absurd he (hother (hib ▸ List.mem_map_of_mem hb) a ha hia)
  · exact List.inj_on_of_nodup_map hnames ha hb he

/-- Every statement keeps the constraints of the schema. -/
theorem exec_consistent (ht : t.Consistent) {statement : Statement} (h : t.exec statement = .ok u) : u.Consistent := by
  cases statement with
  | insertGroup row =>
    obtain ⟨hname,groups,hinsert,rfl⟩ := exec_insertGroup_ok.mp h
    have hrows := (Table.insert_eq_some_iff.mp hinsert).2
    refine ⟨?_,fun r hr => (ht.connectionRefers r hr).mono ?_ fun _ => id,ht.tunnelRefers⟩
    · simp only [groupNames,hrows,List.map_append,List.map_cons,List.map_nil]
      exact List.nodup_append.mpr ⟨ht.groupNamesNodup,List.nodup_singleton _,fun a ha b hb he =>
        hname (List.mem_singleton.mp hb ▸ he ▸ ha)⟩
    · exact fun g hg => (Table.hasKey_insert hinsert).mpr (Or.inl hg)
  | updateGroup id name sortOrder updatedAt =>
    delta exec at h
    simp only [uniqueFailed] at h
    split at h <;> cases h
    rename_i hother
    refine ⟨renamedGroup_names_nodup t.connectionGroups.keysNodup ht.groupNamesNodup ?_,
      fun r hr => (ht.connectionRefers r hr).mono ?_ fun _ hc => hc,ht.tunnelRefers⟩
    · exact fun hid r hr hne he => hother ⟨r,hr,hne,he,hid⟩
    · exact fun g hg => (Table.hasKey_mapRows _ _ (renamedGroup_id id name sortOrder updatedAt) g).mpr hg
  | insertCredential row =>
    obtain ⟨credentials,hinsert,rfl⟩ := exec_insertCredential_ok.mp h
    refine ⟨ht.groupNamesNodup,fun r hr => (ht.connectionRefers r hr).mono (fun _ => id) ?_,
      ht.tunnelRefers⟩
    exact fun c hc => (Table.hasKey_insert hinsert).mpr (Or.inl hc)
  | upsertCredential row =>
    cases h
    refine ⟨ht.groupNamesNodup,fun r hr => (ht.connectionRefers r hr).mono (fun _ => id) ?_,
      ht.tunnelRefers⟩
    exact fun c hc => Table.hasKey_put.mpr (Or.inr hc)
  | deleteCredential id => cases h; exact deleteCredentials_consistent ht _
  | insertConnection row =>
    obtain ⟨hrefers,connections,hinsert,rfl⟩ := exec_insertConnection_ok.mp h
    refine ⟨ht.groupNamesNodup,fun r hr => ?_,fun r hr => ?_⟩
    · rcases (Table.mem_insert hinsert).mp hr with hr | rfl
      · exact ht.connectionRefers r hr
      · exact hrefers
    · exact (Table.hasKey_insert hinsert).mpr (Or.inl (ht.tunnelRefers r hr))
  | upsertConnection row =>
    obtain ⟨hrefers,rfl⟩ := exec_upsertConnection_ok.mp h
    refine ⟨ht.groupNamesNodup,fun r hr => ?_,fun r hr => ?_⟩
    · rcases Table.mem_put.mp hr with rfl | ⟨hr,-⟩
      · exact hrefers
      · exact ht.connectionRefers r hr
    · exact Table.hasKey_put.mpr (Or.inr (ht.tunnelRefers r hr))
  | deleteConnection id => cases h; exact deleteConnections_consistent ht _
  | insertKnownHost row =>
    obtain ⟨knownHosts,-,rfl⟩ := exec_insertKnownHost_ok.mp h
    exact ⟨ht.groupNamesNodup,ht.connectionRefers,ht.tunnelRefers⟩
  | upsertKnownHost row => cases h; exact ⟨ht.groupNamesNodup,ht.connectionRefers,ht.tunnelRefers⟩
  | insertTunnel row =>
    obtain ⟨hkey,tunnels,hinsert,rfl⟩ := exec_insertTunnel_ok.mp h
    refine ⟨ht.groupNamesNodup,ht.connectionRefers,fun r hr => ?_⟩
    rcases (Table.mem_insert hinsert).mp hr with hr | rfl
    · exact ht.tunnelRefers r hr
    · exact hkey
  | insertSetting row =>
    obtain ⟨appSettings,-,rfl⟩ := exec_insertSetting_ok.mp h
    exact ⟨ht.groupNamesNodup,ht.connectionRefers,ht.tunnelRefers⟩
  | upsertSetting row => cases h; exact ⟨ht.groupNamesNodup,ht.connectionRefers,ht.tunnelRefers⟩
  | clear table =>
    cases table with
    | tunnels => cases h; exact ⟨ht.groupNamesNodup,ht.connectionRefers,by simp⟩
    | connections => cases h; exact deleteConnections_consistent ht _
    | credentials => cases h; exact deleteCredentials_consistent ht _
    | connectionGroups =>
      cases h
      refine ⟨by simp [groupNames],fun r hr => ?_,fun r hr => ?_⟩
      · obtain ⟨old,hold,rfl⟩ := (Table.mem_mapRows _ _ (forgetGroup_id _) _).mp hr
        exact ⟨by simp [forgetGroup],(ht.connectionRefers old hold).2⟩
      · exact (Table.hasKey_mapRows _ _ (forgetGroup_id _) _).mpr (ht.tunnelRefers r hr)
    | knownHosts | appSettings => cases h; exact ⟨ht.groupNamesNodup,ht.connectionRefers,ht.tunnelRefers⟩

end Tables

/-- A database: tables that satisfy the schema. -/
structure Database extends Tables where
  consistent : toTables.Consistent

namespace Database

variable {d : Database}

@[ext] theorem ext {e : Database} (h : d.toTables = e.toTables) : d = e := by
  cases d; cases e; cases h; rfl

def empty : Database := ⟨.empty,Tables.empty_consistent⟩

def exec (d : Database) (statement : Statement) : Except String Database :=
  match h : d.toTables.exec statement with
  | .ok t => .ok ⟨t,Tables.exec_consistent d.consistent h⟩
  | .error raw => .error raw

theorem exec_ok_iff {e : Database} {statement : Statement} :
    d.exec statement = .ok e ↔ d.toTables.exec statement = .ok e.toTables := by
  unfold exec
  split <;> simp_all [Database.ext_iff]

/-- Storing a setting never fails. -/
theorem exec_upsertSetting (d : Database) (row : SettingRow) :
    ∃ e, d.exec (.upsertSetting row) = .ok e :=
  have h : d.toTables.exec (.upsertSetting row) = .ok _ := rfl
  ⟨⟨_,Tables.exec_consistent d.consistent h⟩,exec_ok_iff.mpr h⟩

end Database
end Mxterm
