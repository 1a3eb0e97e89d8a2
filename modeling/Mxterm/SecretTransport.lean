import Mxterm.SyncSnapshot

/-! Secrets on their way out of one vault and into another. -/
namespace Mxterm.SyncRepository

open Execution StorageRepository RepositoryCommands List

/-- The vault after the secrets were stored one after the other. -/
def storeAll (entries : Entries) (secrets : List SyncSecretEntry) : Entries :=
  secrets.foldl (fun entries secret => Function.update entries secret.slotId (some secret.value)) entries

@[simp] theorem storeAll_nil (entries : Entries) : storeAll entries [] = entries := rfl

variable {entries : Entries}

theorem storeAll_isSome {account : String} (h : (entries account).isSome) (secrets : List SyncSecretEntry) :
    (storeAll entries secrets account).isSome := by
  induction secrets generalizing entries with
  | nil => exact h
  | cons other secrets ih =>
    refine ih ?_
    by_cases he : account = other.slotId
    · simp [he]
    · simpa only [Function.update_of_ne he] using h

variable {secrets : List SyncSecretEntry} {secret : SyncSecretEntry}

theorem storeAll_isSome_of_mem (h : secret ∈ secrets) : (storeAll entries secrets secret.slotId).isSome := by
  induction secrets generalizing entries with
  | nil => simp at h
  | cons other secrets ih =>
    rcases mem_cons.mp h with rfl | h
    · exact storeAll_isSome (by simp) secrets
    · exact ih h

/-- The kind of the secret is one of the four labels. -/
def KnownKind (secret : SyncSecretEntry) : Prop :=
  ∃ kind, syncSecretKindFromLabel secret.kind = .ok kind

/-- Only the vault differs, after this many calls. -/
structure OnlySecrets (s s' : StorageRepository) (calls : ℕ) (secrets : Entries) : Prop where
  tables : s'.disk.database = s.disk.database
  transaction : s'.transaction = s.transaction
  faults : s'.faults = s.faults
  family : s'.family = s.family
  clock : s'.clock = s.clock + calls
  secrets : s'.secrets = secrets

variable {s s' : StorageRepository}

theorem importSecret_ok :
    importSecret secret s = .ok () s' ↔ s.faults s.clock = none ∧ KnownKind secret ∧
      s' = (s.advance.withSecrets
        (Function.update s.secrets secret.slotId (some secret.value))).persist := by
  simp only [importSecret,bind_ok,lift_ok,setSecret,changeSecrets_ok,KnownKind]
  constructor
  · rintro ⟨kind,_,⟨hkind,rfl⟩,hfault,rfl⟩; exact ⟨hfault,⟨kind,hkind⟩,rfl⟩
  · rintro ⟨hfault,⟨kind,hkind⟩,rfl⟩; exact ⟨kind,s,⟨hkind,rfl⟩,hfault,rfl⟩

theorem importSecrets_ok (h : forEach importSecret secrets s = .ok () s') : s.Spared secrets.length ∧
      (∀ secret ∈ secrets, KnownKind secret) ∧
        OnlySecrets s s' secrets.length (storeAll s.secrets secrets) := by
  induction secrets generalizing s with
  | nil =>
    obtain ⟨-,rfl⟩ := (pure_ok _ _ _ _).mp h
    exact ⟨s.spared_zero,by simp,⟨rfl,rfl,rfl,rfl,rfl,rfl⟩⟩
  | cons secret secrets ih =>
    obtain ⟨t,hfirst,hrest⟩ := (forEach_cons_ok _ _ _ _ _).mp h
    obtain ⟨hfault,hkind,rfl⟩ := importSecret_ok.mp hfirst
    obtain ⟨hspared,hkinds,honly⟩ := ih hrest
    refine ⟨?_,forall_mem_cons.mpr ⟨hkind,hkinds⟩,
      ⟨honly.tables,honly.transaction,honly.faults,honly.family,?_,honly.secrets⟩⟩
    · rw [length_cons,Nat.add_comm]
      exact (spared_add (s := s) (t := (s.advance.withSecrets _).persist) rfl rfl).mpr
        ⟨spared_one.mpr hfault,hspared⟩
    · rw [honly.clock]
      simp [Nat.add_comm,Nat.add_left_comm]

theorem importSecrets_of_spared (hspared : s.Spared secrets.length) (hkinds : ∀ secret ∈ secrets, KnownKind secret) :
    ∃ s', forEach importSecret secrets s = .ok () s' := by
  induction secrets generalizing s with
  | nil => exact ⟨s,rfl⟩
  | cons secret secrets ih =>
    rw [length_cons,Nat.add_comm] at hspared
    let t := (s.advance.withSecrets
      (Function.update s.secrets secret.slotId (some secret.value))).persist
    obtain ⟨hfault,hrest⟩ := (spared_add (s := s) (t := t) rfl rfl).mp hspared
    obtain ⟨s',hs'⟩ := ih hrest fun other hother => hkinds other (mem_cons_of_mem _ hother)
    exact ⟨s',(forEach_cons_ok _ _ _ _ _).mpr ⟨t,importSecret_ok.mpr
      ⟨spared_one.mp hfault,hkinds secret mem_cons_self,rfl⟩,hs'⟩⟩

/-- The exported form of a row's secret, if it has a kind and its account holds a value. -/
def secretEntry (entries : Entries) (row : SecretRow) : Option SyncSecretEntry :=
  match syncSecretKindFromDb row.kind row.inline, entries row.account with
  | .ok kind, some value => some ⟨row.slotId,syncSecretKindLabel kind,value,row.updatedAt⟩
  | _, _ => none

variable {row : SecretRow}

theorem exportSecret_ok :
    exportSecret row s = .ok secret s' ↔ s.faults s.clock = none ∧
      secretEntry s.secrets row = some secret ∧ s' = s.advance := by
  simp only [exportSecret,secretEntry,bind_ok,lift_ok,getSecret_ok,pure_ok]
  constructor
  · rintro ⟨kind,_,⟨hkind,rfl⟩,value,_,⟨hfault,hvalue,rfl⟩,rfl,rfl⟩
    exact ⟨hfault,by simp [hkind,hvalue],rfl⟩
  · rintro ⟨hfault,hentry,rfl⟩
    split at hentry
    · rename_i kind value hkind hvalue
      exact ⟨kind,s,⟨hkind,rfl⟩,value,_,⟨hfault,hvalue,rfl⟩,Option.some.inj hentry,rfl⟩
    · cases hentry

theorem exportSecrets_ok {rows : List SecretRow} : mapEach exportSecret rows s = .ok secrets s' ↔
      s.Spared rows.length ∧ rows.map (secretEntry s.secrets) = secrets.map some ∧
        s' = s.ticks rows.length := by
  induction rows generalizing s secrets with
  | nil =>
    simp only [mapEach,pure_ok,map_nil,length_nil,ticks_zero]
    constructor
    · rintro ⟨rfl,rfl⟩; exact ⟨s.spared_zero,rfl,rfl⟩
    · rintro ⟨-,hmap,rfl⟩; exact ⟨(map_eq_nil_iff.mp hmap.symm).symm,rfl⟩
  | cons row rows ih =>
    simp only [mapEach_cons_ok,exportSecret_ok,length_cons,Nat.add_comm _ 1,map_cons]
    constructor
    · rintro ⟨secret,rest,_,⟨hfault,hsecret,rfl⟩,hrest,rfl⟩
      obtain ⟨hspared,hmap,rfl⟩ := ih.mp hrest
      exact ⟨(spared_add (s := s) (t := s.advance) rfl rfl).mpr ⟨spared_one.mpr hfault,hspared⟩,
        by rw [hsecret,map_cons,← hmap]; rfl,ticks_ticks _ _ _⟩
    · rintro ⟨hspared,hmap,rfl⟩
      obtain ⟨hfault,hspared⟩ := (spared_add (s := s) (t := s.advance) rfl rfl).mp hspared
      cases secrets with
      | nil => cases hmap
      | cons secret rest =>
        obtain ⟨hsecret,hmap⟩ := List.cons.inj hmap
        exact ⟨secret,rest,_,⟨spared_one.mp hfault,hsecret,rfl⟩,
          ih.mpr ⟨hspared,hmap,(ticks_ticks _ _ _).symm⟩,rfl⟩

/-- The rows that refer to a secret and have a slot for it. -/
def secretRows (t : Tables) : List SecretRow :=
  t.connections.rows.filterMap connectionSecretRow ++ t.credentials.rows.filterMap credentialSecretRow

theorem exportSyncSecrets_ok :
    exportSyncSecrets s = .ok secrets s' ↔
      s.Spared (2 + (secretRows s.database.toTables).length) ∧
        (secretRows s.database.toTables).map (secretEntry s.secrets) = secrets.map some ∧
          s' = s.ticks (2 + (secretRows s.database.toTables).length) := by
  simp only [exportSyncSecrets,bind_ok,query_ok,exportSecrets_ok]
  set n := (secretRows s.database.toTables).length
  have hspared : s.Spared (2 + n) ↔ s.faults s.clock = none ∧
      s.advance.faults s.advance.clock = none ∧ s.advance.advance.Spared n := by
    rw [Nat.add_assoc 1 1 n,spared_add (s := s) (t := s.advance) rfl rfl,
      spared_add (s := s.advance) (t := s.advance.advance) rfl rfl,spared_one,spared_one]
  rw [hspared]
  constructor
  · rintro ⟨_,_,⟨hfault,rfl,rfl⟩,_,_,⟨hfault',rfl,rfl⟩,hrest,hmap,rfl⟩
    exact ⟨⟨hfault,hfault',hrest⟩,hmap,by simp only [advance_eq_ticks,ticks_ticks]; rfl⟩
  · rintro ⟨⟨hfault,hfault',hrest⟩,hmap,rfl⟩
    exact ⟨_,_,⟨hfault,rfl,rfl⟩,_,_,⟨hfault',rfl,rfl⟩,hrest,hmap,
      by simp only [advance_eq_ticks,ticks_ticks]; rfl⟩

theorem exportSyncData_ok {data : SyncDataDocument} :
    exportSyncData s = .ok data s' ↔ s.Spared 6 ∧ data = exportedData s.database.toTables ∧
      s' = s.ticks 6 := by
  have hspared : s.Spared 6 ↔ s.faults s.clock = none ∧ s.faults (s.clock + 1) = none ∧
      s.faults (s.clock + 1 + 1) = none ∧ s.faults (s.clock + 1 + 1 + 1) = none ∧
      s.faults (s.clock + 1 + 1 + 1 + 1) = none ∧ s.faults (s.clock + 1 + 1 + 1 + 1 + 1) = none := by
    constructor
    · exact fun h => ⟨h 0 (by omega),h 1 (by omega),h 2 (by omega),h 3 (by omega),h 4 (by omega),
        h 5 (by omega)⟩
    · rintro ⟨h₀,h₁,h₂,h₃,h₄,h₅⟩ i hi
      obtain rfl | rfl | rfl | rfl | rfl | rfl : i = 0 ∨ i = 1 ∨ i = 2 ∨ i = 3 ∨ i = 4 ∨ i = 5 := by
        omega
      all_goals assumption
  simp only [exportSyncData,bind_ok,query_ok,pure_ok,hspared]
  constructor
  · rintro ⟨_,_,⟨h₀,rfl,rfl⟩,_,_,⟨h₁,rfl,rfl⟩,_,_,⟨h₂,rfl,rfl⟩,_,_,⟨h₃,rfl,rfl⟩,_,_,⟨h₄,rfl,rfl⟩,
      _,_,⟨h₅,rfl,rfl⟩,rfl,rfl⟩
    exact ⟨⟨h₀,h₁,h₂,h₃,h₄,h₅⟩,rfl,rfl⟩
  · rintro ⟨⟨h₀,h₁,h₂,h₃,h₄,h₅⟩,rfl,rfl⟩
    exact ⟨_,_,⟨h₀,rfl,rfl⟩,_,_,⟨h₁,rfl,rfl⟩,_,_,⟨h₂,rfl,rfl⟩,_,_,⟨h₃,rfl,rfl⟩,_,_,⟨h₄,rfl,rfl⟩,
      _,_,⟨h₅,rfl,rfl⟩,rfl,rfl⟩

/-! The rows that a snapshot of other tables leaves. -/

variable {t : Tables}

theorem Holds.mem_connections {e : Surroundings} {restoreSecretRefs : Bool} {u : Tables}
    (h : Holds e (exportedData t) restoreSecretRefs u) {row : ConnectionRow} :
    row ∈ u.connections ↔
      ∃ old ∈ t.connections, connectionRowOf restoreSecretRefs (connectionRecord old) = row := by
  rw [Table.mem_iff,h.connections]
  simp [exportedData,exportedConnections,Table.mem_iff]

theorem Holds.mem_credentials {e : Surroundings} {restoreSecretRefs : Bool} {u : Tables}
    (h : Holds e (exportedData t) restoreSecretRefs u) {row : CredentialRow} :
    row ∈ u.credentials ↔
      ∃ old ∈ t.credentials, credentialRowOf restoreSecretRefs (credentialRecord old) = row := by
  rw [Table.mem_iff,h.credentials]
  simp [exportedData,exportedCredentials,Table.mem_iff]

/-- A secret of the export for every row that refers to one. -/
theorem exists_secret_of_row (h : (secretRows t).map (secretEntry entries) = secrets.map some)
    (hrow : row ∈ secretRows t) : ∃ secret ∈ secrets, secret.slotId = row.slotId := by
  have hentry : secretEntry entries row ∈ secrets.map some := h ▸ mem_map_of_mem hrow
  obtain ⟨secret,hsecret,hsome⟩ := mem_map.mp hentry
  refine ⟨secret,hsecret,?_⟩
  unfold secretEntry at hsome
  split at hsome
  · rw [Option.some.inj hsome]
  · cases hsome

theorem exists_row_of_secret (h : (secretRows t).map (secretEntry entries) = secrets.map some)
    (hsecret : secret ∈ secrets) : ∃ row ∈ secretRows t, row.slotId = secret.slotId := by
  have hentry : some secret ∈ (secretRows t).map (secretEntry entries) :=
    h ▸ mem_map_of_mem hsecret
  obtain ⟨row,hrow,hsome⟩ := mem_map.mp hentry
  refine ⟨row,hrow,?_⟩
  unfold secretEntry at hsome
  split at hsome
  · rw [← Option.some.inj hsome]
  · cases hsome

theorem mem_secretRows (h : row ∈ secretRows t) :
    (∃ connection ∈ t.connections, connection.inlineSecretRef = some row.account ∧
        connection.inlineSecretSlotId = some row.slotId) ∨
      ∃ credential ∈ t.credentials, credential.secretRef = some row.account ∧
        credential.secretSlotId = some row.slotId := by
  rcases mem_append.mp h with h | h
  · obtain ⟨connection,hmem,hrow⟩ := mem_filterMap.mp h
    refine Or.inl ⟨connection,hmem,?_⟩
    simp only [connectionSecretRow,Option.bind_eq_bind,Option.bind_eq_some_iff] at hrow
    obtain ⟨account,haccount,slot,hslot,hrow⟩ := hrow
    cases hrow
    exact ⟨haccount,hslot⟩
  · obtain ⟨credential,hmem,hrow⟩ := mem_filterMap.mp h
    refine Or.inr ⟨credential,hmem,?_⟩
    simp only [credentialSecretRow,Option.bind_eq_bind,Option.bind_eq_some_iff] at hrow
    obtain ⟨account,haccount,slot,hslot,hrow⟩ := hrow
    cases hrow
    exact ⟨haccount,hslot⟩

end Mxterm.SyncRepository
