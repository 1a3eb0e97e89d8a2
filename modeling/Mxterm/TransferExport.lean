import Mxterm.ReferenceHistories

/-! When a repository can be exported as a connection transfer: its jump connections are stored,
and no row keeps a slot without its secret. -/
namespace Mxterm.TransferExport

open Execution StorageRepository RepositoryCommands SecretReference SecretOwnership List
open SyncRepository SyncSnapshot SecureBundle ConnectionTransfer ReferenceHistories

/-- A row with a slot refers to its secret. -/
structure SlotsUsed (t : Tables) : Prop where
  connections : ∀ row ∈ t.connections, row.inlineSecretSlotId.isSome → row.inlineSecretRef.isSome
  credentials : ∀ row ∈ t.credentials, row.secretSlotId.isSome → row.secretRef.isSome

def JumpsStored (t : Tables) : Prop :=
  ∀ row ∈ t.connections, ∀ jump ∈ row.jump.jumpConnectionId, t.connections.HasKey jump

/-- Identifiers and group names have more than white space. -/
structure Nonblank (t : Tables) : Prop where
  groups : ∀ group ∈ t.connectionGroups, ¬ Blank group.id ∧ ¬ Blank group.name
  credentials : ∀ row ∈ t.credentials, ¬ Blank row.id
  connections : ∀ row ∈ t.connections, ¬ Blank row.id

variable {t : Tables}

/-- Every check of the data but one about jump connections follows from the schema. -/
theorem validTransfer_exported (hconsistent : t.Consistent) (hnonblank : Nonblank t)
    (hlimits : WithinLimits t.connectionGroups.rows.length t.credentials.rows.length
      t.connections.rows.length) :
    ValidTransfer (transferData (exportedData t)) ↔ JumpsStored t := by
  have hgroups : (exportedGroups t).Perm t.connectionGroups.rows := perm_insertionSort _ _
  have hcredentials : (exportedCredentials t).Perm (t.credentials.rows.map credentialRecord) :=
    perm_insertionSort _ _
  have hconnections : (exportedConnections t).Perm (t.connections.rows.map connectionRecord) :=
    perm_insertionSort _ _
  have hgroupIds : ∀ g, g ∈ (exportedGroups t).map (·.id) ↔ t.connectionGroups.HasKey g :=
    fun g => (hgroups.map _).mem_iff
  have hcredentialIds : ∀ c, c ∈ (exportedCredentials t).map (·.id) ↔ t.credentials.HasKey c := by
    intro c
    rw [(hcredentials.map _).mem_iff,map_map]
    rfl
  have hconnectionIds : ∀ c, c ∈ (exportedConnections t).map (·.id) ↔ t.connections.HasKey c := by
    intro c
    rw [(hconnections.map _).mem_iff,map_map]
    rfl
  have hrecords : ∀ {p : SyncConnectionRecord → Prop},
      (∀ record ∈ exportedConnections t, p record) ↔ ∀ row ∈ t.connections, p (connectionRecord row) := by
    simp only [hconnections.mem_iff,forall_mem_map]
    rfl
  constructor
  · intro h row hrow jump hjump
    exact (hconnectionIds jump).mp (hrecords.mp h.jumps row hrow jump hjump)
  · intro hjumps
    refine ⟨?_,?_,?_,?_,?_,?_,?_,?_,?_,?_,?_⟩
    · simpa [transferData,exportedData,hgroups.length_eq,hcredentials.length_eq,
        hconnections.length_eq] using hlimits
    · exact fun group hgroup => hnonblank.groups group (hgroups.mem_iff.mp hgroup)
    · exact (hgroups.map _).nodup_iff.mpr t.connectionGroups.keysNodup
    · exact (hgroups.map _).nodup_iff.mpr hconsistent.groupNamesNodup
    · intro credential hcredential
      obtain ⟨row,hrow,rfl⟩ := mem_map.mp (hcredentials.mem_iff.mp hcredential)
      exact hnonblank.credentials row hrow
    · refine (hcredentials.map _).nodup_iff.mpr ?_
      rw [map_map]
      exact t.credentials.keysNodup
    · exact hrecords.mpr hnonblank.connections
    · refine (hconnections.map _).nodup_iff.mpr ?_
      rw [map_map]
      exact t.connections.keysNodup
    · exact hrecords.mpr fun row hrow g hg =>
        (hgroupIds g).mpr ((hconsistent.connectionRefers row hrow).1 g hg)
    · exact hrecords.mpr fun row hrow c hc =>
        (hcredentialIds c).mpr ((hconsistent.connectionRefers row hrow).2 c hc)
    · exact hrecords.mpr fun row hrow jump hjump =>
        (hconnectionIds jump).mpr (hjumps row hrow jump hjump)

/-- Rows of different keys have different slots when each slot is the row's own account. -/
theorem slots_nodup (ht : OwnAccounts t) :
    (t.connections.rows.filterMap (·.inlineSecretSlotId) ++
      t.credentials.rows.filterMap (·.secretSlotId)).Nodup := by
  refine nodup_append.mpr ⟨?_,?_,?_⟩
  · refine pairwise_filterMap.mpr ?_
    refine (pairwise_map.mp t.connections.keysNodup).imp_of_mem fun {a b} ha hb hne => ?_
    rintro slot hslot other hother rfl
    obtain ⟨-,k,-,h⟩ := ht.connections a ha slot (Or.inr hslot)
    obtain ⟨-,l,-,h'⟩ := ht.connections b hb slot (Or.inr hother)
    exact hne (connectionAccount_inj.mp (h.symm.trans h')).1
  · refine pairwise_filterMap.mpr ?_
    refine (pairwise_map.mp t.credentials.keysNodup).imp_of_mem fun {a b} ha hb hne => ?_
    rintro slot hslot other hother rfl
    have h := ht.credentials a ha slot (Or.inr hslot)
    have h' := ht.credentials b hb slot (Or.inr hother)
    exact hne (credentialAccount_inj.mp (h.symm.trans h')).1
  · rintro slot hslot other hother rfl
    obtain ⟨a,ha,hslot⟩ := mem_filterMap.mp hslot
    obtain ⟨b,hb,hother⟩ := mem_filterMap.mp hother
    obtain ⟨-,k,-,h⟩ := ht.connections a ha slot (Or.inr hslot)
    have h' := ht.credentials b hb slot (Or.inr hother)
    exact absurd (h.symm.trans h') (by simp)

theorem slots_exported (t : Tables) : (slots (transferData (exportedData t))).Perm
    (t.connections.rows.filterMap (·.inlineSecretSlotId) ++
      t.credentials.rows.filterMap (·.secretSlotId)) := by
  have hcredentials := (perm_insertionSort (createdFirst (·.createdAt) (·.name))
    (t.credentials.rows.map credentialRecord)).filterMap (·.secretSlotId)
  have hconnections := (perm_insertionSort (createdFirst (·.createdAt) (·.name))
    (t.connections.rows.map connectionRecord)).filterMap (·.inlineSecretSlotId)
  rw [filterMap_map] at hcredentials hconnections
  exact (hcredentials.append hconnections).trans perm_append_comm

theorem slotKinds_exported (t : Tables) : (slotKinds (transferData (exportedData t))).Perm
    (t.connections.rows.filterMap (connectionKind ∘ connectionRecord) ++
      t.credentials.rows.filterMap (credentialKind ∘ credentialRecord)) := by
  have hcredentials := (perm_insertionSort (createdFirst (·.createdAt) (·.name))
    (t.credentials.rows.map credentialRecord)).filterMap credentialKind
  have hconnections := (perm_insertionSort (createdFirst (·.createdAt) (·.name))
    (t.connections.rows.map connectionRecord)).filterMap connectionKind
  rw [filterMap_map] at hcredentials hconnections
  exact (hcredentials.append hconnections).trans perm_append_comm

/-- The kind under which the secret of a row is exported. -/
def rowKind (row : SecretRow) : Option (String × String) :=
  match syncSecretKindFromDb row.kind row.inline with
  | .ok kind => some (row.slotId,syncSecretKindLabel kind)
  | .error _ => none

theorem secretEntry_kind {entries : Entries} {row : SecretRow} {secret : SyncSecretEntry}
    (h : secretEntry entries row = some secret) : rowKind row = some (secret.slotId,secret.kind) := by
  unfold secretEntry at h
  split at h
  · rename_i kind value hkind hvalue
    simp [rowKind,hkind,← Option.some.inj h]
  · cases h

theorem secretEntries_kinds {entries : Entries} {rows : List SecretRow}
    {secrets : List SyncSecretEntry} (h : rows.map (secretEntry entries) = secrets.map some) :
    rows.map rowKind = (secrets.map fun secret => (secret.slotId,secret.kind)).map some := by
  induction rows generalizing secrets with
  | nil =>
    obtain rfl := map_eq_nil_iff.mp h.symm
    rfl
  | cons row rows ih =>
    cases secrets with
    | nil => cases h
    | cons secret secrets =>
      obtain ⟨hfirst,hrest⟩ := List.cons.inj h
      simp [secretEntry_kind hfirst,ih hrest]

theorem secretRows_kinds (ht : OwnAccounts t) (hused : SlotsUsed t) :
    (secretRows t).map rowKind = (t.connections.rows.filterMap (connectionKind ∘ connectionRecord) ++
      t.credentials.rows.filterMap (credentialKind ∘ credentialRecord)).map some := by
  rw [secretRows,map_append,map_append,map_filterMap,map_filterMap,
    map_filterMap,map_filterMap]
  congr 1
  · refine filterMap_congr fun row hrow => ?_
    cases hslot : row.inlineSecretSlotId with
    | none => cases href : row.inlineSecretRef <;>
        simp [connectionSecretRow,connectionKind,connectionRecord,hslot,href]
    | some slot =>
      obtain ⟨account,href⟩ := Option.isSome_iff_exists.mp
        (hused.connections row hrow (by simp [hslot]))
      obtain ⟨-,kind,hkind,-⟩ := ht.connections row hrow slot (Or.inr hslot)
      simp [connectionSecretRow,connectionKind,connectionRecord,rowKind,syncSecretKindFromDb,hslot,
        href,hkind]
  · refine filterMap_congr fun row hrow => ?_
    cases hslot : row.secretSlotId with
    | none => cases href : row.secretRef <;>
        simp [credentialSecretRow,credentialKind,credentialRecord,hslot,href]
    | some slot =>
      obtain ⟨account,href⟩ := Option.isSome_iff_exists.mp
        (hused.credentials row hrow (by simp [hslot]))
      simp [credentialSecretRow,credentialKind,credentialRecord,rowKind,syncSecretKindFromDb,hslot,
        href]

theorem exists_map_some {α γ : Type} {f : α → Option γ} {as : List α}
    (h : ∀ a ∈ as, (f a).isSome) : ∃ bs : List γ, as.map f = bs.map some := by
  induction as with
  | nil => exact ⟨[],rfl⟩
  | cons a as ih =>
    obtain ⟨hfirst,hrest⟩ := forall_mem_cons.mp h
    obtain ⟨b,hb⟩ := Option.isSome_iff_exists.mp hfirst
    obtain ⟨bs,hbs⟩ := ih hrest
    exact ⟨b :: bs,by simp [hb,hbs]⟩

/-- Where references resolve, every row that has a slot and a reference can be exported. -/
theorem secretEntry_isSome {s : StorageRepository} (hs : Sound s) {row : SecretRow}
    (hrow : row ∈ secretRows s.database.toTables) : (secretEntry s.secrets row).isSome := by
  have hresolve := hs.referencesResolve
  rcases mem_append.mp hrow with hrow | hrow
  · obtain ⟨connection,hmem,hsome⟩ := mem_filterMap.mp hrow
    simp only [connectionSecretRow,Option.bind_eq_bind,Option.bind_eq_some_iff] at hsome
    obtain ⟨account,haccount,slot,hslot,hsome⟩ := hsome
    obtain ⟨-,kind,hkind,-⟩ := hs.own.connections connection hmem account (Or.inl haccount)
    obtain ⟨value,hvalue⟩ :=
      Option.isSome_iff_exists.mp (hresolve.connections connection hmem account haccount)
    cases hsome
    simp [secretEntry,syncSecretKindFromDb,hkind,hvalue]
  · obtain ⟨credential,hmem,hsome⟩ := mem_filterMap.mp hrow
    simp only [credentialSecretRow,Option.bind_eq_bind,Option.bind_eq_some_iff] at hsome
    obtain ⟨account,haccount,slot,hslot,hsome⟩ := hsome
    obtain ⟨value,hvalue⟩ :=
      Option.isSome_iff_exists.mp (hresolve.credentials credential hmem account haccount)
    cases hsome
    simp [secretEntry,syncSecretKindFromDb,hvalue]

variable {β : Type} {P : Platform β} {s : StorageRepository}

theorem buildBundle_ok (hP : P.RoundTrips) (random : RandomBytes P.toCrypto)
    (data : ConnectionTransferData) (secrets : ConnectionTransferSecrets) {password : String}
    (hpassword : validatePassword password = .ok ()) (createdAt : String) :
    ∃ bundle, buildBundle P random data secrets password createdAt = .ok bundle := by
  let versioned : ConnectionTransferData := { data with version := transferVersion }
  let dataSha256 := sha256Hex P.toCrypto (P.transferDataJson.encode versioned)
  obtain ⟨envelope,hencrypted,-⟩ := decryptJson_encryptJson hP.crypto hP.transferSecrets random
    (transferAad P dataSha256) password secrets
  refine ⟨⟨transferFormat,transferVersion,createdAt,versioned,dataSha256,envelope⟩,?_⟩
  simp only [buildBundle,except_bind_ok,mapError_ok]
  exact ⟨(),hpassword,envelope,hencrypted,rfl⟩

/-- What `export_repository_bundle` returns when no call fails. -/
def Exports (P : Platform β) (random : RandomBytes P.toCrypto) (password createdAt : String)
    (s : StorageRepository) : Prop :=
  ∃ bundle s', exportRepositoryBundle P random password createdAt s = .ok bundle s'

theorem exports_iff (hP : P.RoundTrips) (random : RandomBytes P.toCrypto) {password : String}
    (hpassword : validatePassword password = .ok ()) (createdAt : String)
    (hspared : ∀ i, s.faults i = none) (hs : Sound s) (hnonblank : Nonblank s.database.toTables)
    (hlimits : WithinLimits s.database.connectionGroups.rows.length
      s.database.credentials.rows.length s.database.connections.rows.length) :
    Exports P random password createdAt s ↔
      SlotsUsed s.database.toTables ∧ JumpsStored s.database.toTables := by
  have hdata := validTransfer_exported s.database.consistent hnonblank hlimits
  have hnodup := (slots_exported s.database.toTables).nodup_iff.mpr (slots_nodup hs.own)
  constructor
  · rintro ⟨bundle,s',h⟩
    simp only [exportRepositoryBundle,bind_ok,lift_ok,exportSyncData_ok,exportSyncSecrets_ok] at h
    obtain ⟨_,_,⟨-,rfl,rfl⟩,secrets,_,⟨-,hsecrets,rfl⟩,_,_,⟨hvalid,rfl⟩,_,_,⟨hvalid',rfl⟩,-⟩ := h
    refine ⟨?_,hdata.mp (validateTransferData_ok.mp hvalid)⟩
    have hslot : ∀ slot ∈ slots (transferData (exportedData s.database.toTables)),
        ∃ row ∈ secretRows s.database.toTables, row.slotId = slot := by
      intro slot hslot
      obtain ⟨secret,hsecret,rfl⟩ := validateTransferSecrets_slots hvalid' slot hslot
      exact exists_row_of_secret hsecrets hsecret
    constructor
    · intro row hrow hused
      obtain ⟨slot,hsome⟩ := Option.isSome_iff_exists.mp hused
      obtain ⟨exported,hexported,rfl⟩ := hslot slot ((slots_exported _).mem_iff.mpr
        (mem_append_left _ (mem_filterMap.mpr ⟨row,hrow,hsome⟩)))
      exact (used_of_mem_secretRows hs.own hexported).1 row hrow hsome
    · intro row hrow hused
      obtain ⟨slot,hsome⟩ := Option.isSome_iff_exists.mp hused
      obtain ⟨exported,hexported,rfl⟩ := hslot slot ((slots_exported _).mem_iff.mpr
        (mem_append_right _ (mem_filterMap.mpr ⟨row,hrow,hsome⟩)))
      exact (used_of_mem_secretRows hs.own hexported).2 row hrow hsome
  · rintro ⟨hused,hjumps⟩
    obtain ⟨secrets,hsecrets⟩ := exists_map_some fun row hrow => secretEntry_isSome hs hrow
    have hkinds : KindsKnown (transferData (exportedData s.database.toTables)) := by
      intro record hrecord hslot
      obtain ⟨row,hrow,rfl⟩ := mem_map.mp ((perm_insertionSort _ _).mem_iff.mp hrecord)
      obtain ⟨slot,hslot⟩ := Option.isSome_iff_exists.mp hslot
      obtain ⟨-,kind,hkind,-⟩ := hs.own.connections row hrow slot (Or.inr hslot)
      exact Option.isSome_iff_exists.mpr ⟨kind,hkind⟩
    have hpairs : secrets.map (fun secret => (secret.slotId,secret.kind)) =
        s.database.connections.rows.filterMap (connectionKind ∘ connectionRecord) ++
          s.database.credentials.rows.filterMap (credentialKind ∘ credentialRecord) := by
      refine map_injective_iff.mpr (Option.some_injective _) ?_
      rw [← secretRows_kinds hs.own hused,secretEntries_kinds hsecrets]
    have hlimit : secrets.length ≤ maxSecrets := by
      have hrows : (secretRows s.database.toTables).length ≤
          s.database.connections.rows.length + s.database.credentials.rows.length := by
        rw [secretRows,length_append]
        exact Nat.add_le_add (length_filterMap_le _ _) (length_filterMap_le _ _)
      have hlength := congrArg List.length hsecrets
      simp only [length_map] at hlength
      have hconnections := hlimits.connections
      have hcredentials := hlimits.credentials
      simp only [maxConnections,maxCredentials] at hconnections hcredentials
      simp only [maxSecrets]
      omega
    obtain ⟨bundle,hbundle⟩ := buildBundle_ok hP random
      (transferData (exportedData s.database.toTables)) ⟨transferVersion,secrets⟩ hpassword createdAt
    refine ⟨bundle,(s.ticks 6).ticks (2 + (secretRows s.database.toTables).length),?_⟩
    simp only [exportRepositoryBundle,bind_ok,lift_ok,exportSyncData_ok,exportSyncSecrets_ok]
    refine ⟨_,_,⟨fun i _ => hspared _,rfl,rfl⟩,secrets,_,⟨fun i _ => hspared _,hsecrets,rfl⟩,
      (),_,⟨validateTransferData_ok.mpr (hdata.mpr hjumps),rfl⟩,(),_,⟨?_,rfl⟩,hbundle,rfl⟩
    exact validateTransferSecrets_of_perm hkinds hnodup
      ((List.Perm.of_eq hpairs).trans (slotKinds_exported _).symm) hlimit

end Mxterm.TransferExport
