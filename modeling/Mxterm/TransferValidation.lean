import Mxterm.ConnectionTransfer
import Mxterm.SecretTransport

/-! What the checks of a transfer document guarantee: identifiers that differ, references that stay
inside the document, and a secret for every slot. -/
namespace Mxterm.ConnectionTransfer

open Execution SyncRepository List

/-- The keys of a map, each of which occurs once. -/
def keys (map : List (String × String)) : List String := map.map Prod.fst

variable {map : List (String × String)}

theorem keys_insertEntry_nodup (h : (keys map).Nodup) (key value : String) :
    (keys (insertEntry key value map)).Nodup := by
  refine nodup_cons.mpr ⟨?_,h.sublist (filter_sublist.map _)⟩
  simp [mem_map]

variable {key value : String}

theorem mem_keys_insertEntry {other : String} :
    other ∈ keys (insertEntry key value map) ↔ other = key ∨ other ∈ keys map := by
  simp only [keys,insertEntry,map_cons,mem_cons,mem_map,mem_filter,
    decide_eq_true_eq]
  constructor
  · rintro (rfl | ⟨entry,⟨hentry,-⟩,rfl⟩)
    · exact Or.inl rfl
    · exact Or.inr ⟨entry,hentry,rfl⟩
  · rintro (rfl | ⟨entry,hentry,rfl⟩)
    · exact Or.inl rfl
    · by_cases he : entry.1 = key
      · exact Or.inl he
      · exact Or.inr ⟨entry,⟨hentry,he⟩,rfl⟩

theorem mem_keys_of_lookup (h : lookup map key = some value) : key ∈ keys map := by
  obtain ⟨entry,hentry,-⟩ := Option.map_eq_some_iff.mp h
  have hkey : entry.1 = key := by simpa using find?_some hentry
  exact hkey ▸ mem_map_of_mem (mem_of_find?_eq_some hentry)

/-- The slots of a document. -/
def slots (data : ConnectionTransferData) : List String :=
  data.credentials.filterMap (·.secretSlotId) ++ data.connections.filterMap (·.inlineSecretSlotId)

theorem foldl_expectCredential (credentials : List SyncCredentialRecord)
    (expected : List (String × String)) (h : (keys expected).Nodup) :
    (keys (credentials.foldl expectCredential expected)).Nodup ∧
      ∀ slot, slot ∈ keys (credentials.foldl expectCredential expected) ↔
        slot ∈ credentials.filterMap (·.secretSlotId) ∨ slot ∈ keys expected := by
  induction credentials generalizing expected with
  | nil => exact ⟨h,by simp⟩
  | cons credential credentials ih =>
    cases hslot : credential.secretSlotId with
    | none =>
      simpa only [foldl_cons,expectCredential,hslot,filterMap_cons] using ih expected h
    | some slotId =>
      have hih := ih _ (keys_insertEntry_nodup h slotId
        (syncSecretKindLabel (.ofSaved credential.kind)))
      simp only [foldl_cons,expectCredential,hslot,filterMap_cons,mem_cons]
      refine ⟨hih.1,fun slot => (hih.2 slot).trans ?_⟩
      rw [mem_keys_insertEntry]
      tauto

variable {connections : List SyncConnectionRecord} {expected : List (String × String)}

theorem expectConnections_ok {all : List (String × String)} (h : (keys expected).Nodup)
    (hall : expectConnections expected connections = .ok all) :
    (keys all).Nodup ∧ ∀ slot, slot ∈ keys all ↔
      slot ∈ connections.filterMap (·.inlineSecretSlotId) ∨ slot ∈ keys expected := by
  induction connections generalizing expected with
  | nil =>
    cases hall
    exact ⟨h,by simp⟩
  | cons connection connections ih =>
    simp only [expectConnections,except_bind_ok] at hall
    obtain ⟨next,hnext,hall⟩ := hall
    unfold expectConnection at hnext
    split at hnext
    · rename_i hslot
      cases hnext
      simpa only [filterMap_cons,hslot] using ih h hall
    · rename_i slotId kind hslot _
      cases hnext
      have hih := ih (keys_insertEntry_nodup h _ _) hall
      refine ⟨hih.1,fun slot => (hih.2 slot).trans ?_⟩
      rw [mem_keys_insertEntry]
      simp only [filterMap_cons,hslot,mem_cons]
      tauto
    · cases hnext

variable {data : ConnectionTransferData}

theorem expectedSecrets_ok (h : expectedSecrets data = .ok expected) :
    (keys expected).Nodup ∧ ∀ slot, slot ∈ keys expected ↔ slot ∈ slots data := by
  obtain ⟨hnodup,hmem⟩ := foldl_expectCredential data.credentials [] nodup_nil
  obtain ⟨hnodup',hmem'⟩ := expectConnections_ok hnodup h
  refine ⟨hnodup',fun slot => (hmem' slot).trans ?_⟩
  rw [hmem slot,slots,mem_append]
  simp only [keys,map_nil,not_mem_nil,or_false]
  exact or_comm

theorem checkSecrets_ok {seen seen' : List String} {secrets : List SyncSecretEntry} :
    checkSecrets expected seen secrets = .ok seen' ↔
      Fresh seen (secrets.map (·.slotId)) ∧
        (∀ secret ∈ secrets, lookup expected secret.slotId = some secret.kind) ∧
          seen' = (secrets.map (·.slotId)).reverse ++ seen := by
  induction secrets generalizing seen with
  | nil => simp [checkSecrets,fresh_nil,eq_comm]
  | cons secret secrets ih =>
    simp only [checkSecrets,map_cons,fresh_cons,forall_mem_cons]
    split
    · rename_i hbad
      simp only [reduceCtorEq,false_iff]
      rintro ⟨⟨hseen,-⟩,⟨hkind,-⟩,-⟩
      exact absurd hbad (by simp [hseen,hkind])
    · rename_i hgood
      simp only [not_or,not_not] at hgood
      simp [ih,hgood]

/-- Every kind that a map expects is one of the four labels. -/
def Labelled (map : List (String × String)) : Prop :=
  ∀ entry ∈ map, ∃ kind, entry.2 = syncSecretKindLabel kind

theorem Labelled.insertEntry (h : Labelled map) (key : String) (kind : SecretKind) :
    Labelled (insertEntry key (syncSecretKindLabel kind) map) := by
  intro entry hentry
  rcases mem_cons.mp hentry with rfl | hentry
  · exact ⟨kind,rfl⟩
  · exact h entry (mem_filter.mp hentry).1

theorem foldl_expectCredential_labelled (credentials : List SyncCredentialRecord) (h : Labelled expected) :
    Labelled (credentials.foldl expectCredential expected) := by
  induction credentials generalizing expected with
  | nil => exact h
  | cons credential credentials ih =>
    refine ih ?_
    unfold expectCredential
    split
    · exact h.insertEntry _ _
    · exact h

theorem expectConnections_labelled {all : List (String × String)} (h : Labelled expected)
    (hall : expectConnections expected connections = .ok all) : Labelled all := by
  induction connections generalizing expected with
  | nil => exact Except.ok.inj hall ▸ h
  | cons connection connections ih =>
    simp only [expectConnections,except_bind_ok] at hall
    obtain ⟨next,hnext,hall⟩ := hall
    refine ih ?_ hall
    unfold expectConnection at hnext
    split at hnext
    · exact Except.ok.inj hnext ▸ h
    · exact Except.ok.inj hnext ▸ h.insertEntry _ _
    · cases hnext

variable {secrets : ConnectionTransferSecrets}

/-- The secrets of an accepted transfer have known kinds. -/
theorem validateTransferSecrets_kinds (h : validateTransferSecrets data secrets = .ok ()) :
    ∀ secret ∈ secrets.secrets, KnownKind secret := by
  simp only [validateTransferSecrets,except_bind_ok] at h
  obtain ⟨_,-,expected,hexpected,seen,hseen,-⟩ := h
  intro secret hsecret
  have hlabelled : Labelled expected := expectConnections_labelled
    (foldl_expectCredential_labelled _ (fun _ hentry => absurd hentry not_mem_nil)) hexpected
  obtain ⟨entry,hentry,hkind⟩ :=
    Option.map_eq_some_iff.mp ((checkSecrets_ok.mp hseen).2.1 secret hsecret)
  obtain ⟨kind,hlabel⟩ := hlabelled entry (mem_of_find?_eq_some hentry)
  exact ⟨kind,by rw [← hkind,hlabel,syncSecretKindFromLabel_label]⟩

/-- The secrets of an accepted transfer fill exactly the slots of its document. -/
theorem validateTransferSecrets_slots (h : validateTransferSecrets data secrets = .ok ()) :
    ∀ slot ∈ slots data, ∃ secret ∈ secrets.secrets, secret.slotId = slot := by
  simp only [validateTransferSecrets,except_bind_ok] at h
  obtain ⟨_,-,expected,hexpected,seen,hseen,hlength⟩ := h
  obtain ⟨hkeys,hmem⟩ := expectedSecrets_ok hexpected
  obtain ⟨hnodup,hkinds,rfl⟩ := checkSecrets_ok.mp hseen
  rw [fresh_empty] at hnodup
  have hlen : (keys expected).length ≤ (secrets.secrets.map (·.slotId)).length := by
    unfold everySlotSeen at hlength
    split at hlength
    · cases hlength
    · rename_i heq
      simp only [append_nil,length_reverse,ne_eq,not_not] at heq
      simp [keys,heq]
  have hsubset : secrets.secrets.map (·.slotId) ⊆ keys expected := by
    intro slot hslot
    obtain ⟨secret,hsecret,rfl⟩ := mem_map.mp hslot
    exact mem_keys_of_lookup (hkinds secret hsecret)
  have hperm := (subperm_of_subset hnodup hsubset).perm_of_length_le hlen
  intro slot hslot
  have := hperm.mem_iff.mpr ((hmem slot).mpr hslot)
  simpa using this

variable {ids ids' : List String}

theorem validateTransferGroups_ok {groups : List SyncConnectionGroup} {names : List String} :
    validateTransferGroups ids names groups = .ok ids' ↔
      (∀ group ∈ groups, ¬ Blank group.id ∧ ¬ Blank group.name) ∧
        Fresh ids (groups.map (·.id)) ∧ Fresh names (groups.map (·.name)) ∧
          ids' = (groups.map (·.id)).reverse ++ ids := by
  induction groups generalizing ids names with
  | nil => simp [validateTransferGroups,fresh_nil,eq_comm]
  | cons group groups ih =>
    simp only [validateTransferGroups,map_cons,fresh_cons,forall_mem_cons]
    split
    · rename_i hbad
      simp only [reduceCtorEq,false_iff]
      rintro ⟨⟨⟨hid,hname⟩,-⟩,⟨hids,-⟩,⟨hnames,-⟩,-⟩
      exact absurd hbad (by simp [hid,hname,hids,hnames])
    · rename_i hgood
      simp only [not_or] at hgood
      simp [ih,hgood]

theorem validateTransferCredentials_ok {credentials : List SyncCredentialRecord} :
    validateTransferCredentials ids credentials = .ok ids' ↔
      (∀ credential ∈ credentials, ¬ Blank credential.id) ∧ Fresh ids (credentials.map (·.id)) ∧
        ids' = (credentials.map (·.id)).reverse ++ ids := by
  induction credentials generalizing ids with
  | nil => simp [validateTransferCredentials,fresh_nil,eq_comm]
  | cons credential credentials ih =>
    simp only [validateTransferCredentials,map_cons,fresh_cons,forall_mem_cons]
    split
    · rename_i hbad
      simp only [reduceCtorEq,false_iff]
      rintro ⟨⟨hid,-⟩,⟨hids,-⟩,-⟩
      exact absurd hbad (by simp [hid,hids])
    · rename_i hgood
      simp only [not_or] at hgood
      simp [ih,hgood]

theorem validateTransferConnections_ok {groupIds credentialIds : List String} :
    validateTransferConnections groupIds credentialIds ids connections = .ok ids' ↔
      (∀ connection ∈ connections, ¬ Blank connection.id) ∧ Fresh ids (connections.map (·.id)) ∧
        (∀ connection ∈ connections, ∀ g ∈ connection.groupId, g ∈ groupIds) ∧
          (∀ connection ∈ connections, ∀ c ∈ connection.credentialId, c ∈ credentialIds) ∧
            ids' = (connections.map (·.id)).reverse ++ ids := by
  induction connections generalizing ids with
  | nil => simp [validateTransferConnections,fresh_nil,eq_comm]
  | cons connection connections ih =>
    simp only [validateTransferConnections,map_cons,fresh_cons,forall_mem_cons]
    split
    · rename_i hbad
      simp only [reduceCtorEq,false_iff]
      rintro ⟨⟨hid,-⟩,⟨hids,-⟩,-⟩
      exact absurd hbad (by simp [hid,hids])
    rename_i hgood
    simp only [not_or] at hgood
    split
    · rename_i hbad
      simp only [reduceCtorEq,false_iff]
      rintro ⟨-,-,⟨hgroup,-⟩,-⟩
      obtain ⟨g,hg,hmissing⟩ := hbad
      exact hmissing (hgroup g hg)
    rename_i hgroup
    split
    · rename_i hbad
      simp only [reduceCtorEq,false_iff]
      rintro ⟨-,-,-,⟨hcredential,-⟩,-⟩
      obtain ⟨c,hc,hmissing⟩ := hbad
      exact hmissing (hcredential c hc)
    rename_i hcredential
    simp only [not_exists,not_and,not_not] at hgroup hcredential
    simp only [ih,reverse_cons,append_assoc,cons_append,nil_append]
    constructor
    · rintro ⟨hblank,hids,hgroups,hcredentials,rfl⟩
      exact ⟨⟨hgood.1,hblank⟩,⟨hgood.2,hids⟩,⟨hgroup,hgroups⟩,⟨hcredential,hcredentials⟩,rfl⟩
    · rintro ⟨⟨-,hblank⟩,⟨-,hids⟩,⟨-,hgroups⟩,⟨-,hcredentials⟩,rfl⟩
      exact ⟨hblank,hids,hgroups,hcredentials,rfl⟩

theorem validateTransferJumps_ok :
    validateTransferJumps ids connections = .ok () ↔
      ∀ connection ∈ connections, ∀ jump ∈ connection.jump.jumpConnectionId, jump ∈ ids := by
  induction connections with
  | nil => simp [validateTransferJumps]
  | cons connection connections ih =>
    simp only [validateTransferJumps]
    split
    · rename_i hbad
      simp only [reduceCtorEq,forall_mem_cons,false_iff]
      rintro ⟨hjump,-⟩
      obtain ⟨jump,hmem,hmissing⟩ := hbad
      exact hmissing (hjump jump hmem)
    · rename_i hjump
      simp only [not_exists,not_and,not_not] at hjump
      simp only [ih,forall_mem_cons]
      exact ⟨fun h => ⟨hjump,h⟩,fun h => h.2⟩

/-- The number of records of each kind. -/
structure WithinLimits (groups credentials connections : ℕ) : Prop where
  groups : groups ≤ maxGroups
  credentials : credentials ≤ maxCredentials
  connections : connections ≤ maxConnections

/-- What the check of a transfer document guarantees. -/
structure ValidTransfer (data : ConnectionTransferData) : Prop where
  limits : WithinLimits data.connectionGroups.length data.credentials.length data.connections.length
  groupsNonblank : ∀ group ∈ data.connectionGroups, ¬ Blank group.id ∧ ¬ Blank group.name
  groupIds : (data.connectionGroups.map (·.id)).Nodup
  groupNames : (data.connectionGroups.map (·.name)).Nodup
  credentialsNonblank : ∀ credential ∈ data.credentials, ¬ Blank credential.id
  credentialIds : (data.credentials.map (·.id)).Nodup
  connectionsNonblank : ∀ connection ∈ data.connections, ¬ Blank connection.id
  connectionIds : (data.connections.map (·.id)).Nodup
  groups : ∀ connection ∈ data.connections, ∀ g ∈ connection.groupId,
    g ∈ data.connectionGroups.map (·.id)
  credentials : ∀ connection ∈ data.connections, ∀ c ∈ connection.credentialId,
    c ∈ data.credentials.map (·.id)
  jumps : ∀ connection ∈ data.connections, ∀ jump ∈ connection.jump.jumpConnectionId,
    jump ∈ data.connections.map (·.id)

theorem validateTransferData_ok : validateTransferData data = .ok () ↔ ValidTransfer data := by
  have hlimits : withinLimits data = .ok () ↔ WithinLimits data.connectionGroups.length
      data.credentials.length data.connections.length := by
    unfold withinLimits
    split
    · simp only [reduceCtorEq,false_iff]
      rintro ⟨h₁,h₂,h₃⟩
      omega
    · rename_i hwithin
      simp only [not_or,not_lt] at hwithin
      simp only [true_iff]
      exact ⟨hwithin.1,hwithin.2.1,hwithin.2.2⟩
  simp only [validateTransferData,except_bind_ok,hlimits,validateTransferGroups_ok,
    validateTransferCredentials_ok,validateTransferConnections_ok,validateTransferJumps_ok,
    fresh_empty,append_nil]
  constructor
  · rintro ⟨_,hlimits,_,⟨hblank,hids,hnames,rfl⟩,_,⟨hblank',hids',rfl⟩,_,
      ⟨hblank'',hids'',hgroups,hcredentials,rfl⟩,hjumps⟩
    simp only [mem_reverse] at hgroups hcredentials hjumps
    exact ⟨hlimits,hblank,hids,hnames,hblank',hids',hblank'',hids'',hgroups,hcredentials,hjumps⟩
  · intro h
    refine ⟨(),h.limits,_,⟨h.groupsNonblank,h.groupIds,h.groupNames,rfl⟩,
      _,⟨h.credentialsNonblank,h.credentialIds,rfl⟩,
      _,⟨h.connectionsNonblank,h.connectionIds,?_,?_,rfl⟩,?_⟩
    · simpa only [mem_reverse] using h.groups
    · simpa only [mem_reverse] using h.credentials
    · simpa only [mem_reverse] using h.jumps

/-- The slot of a record with the kind of its secret. -/
def credentialKind (credential : SyncCredentialRecord) : Option (String × String) :=
  credential.secretSlotId.map fun slotId => (slotId,syncSecretKindLabel (.ofSaved credential.kind))

def connectionKind (connection : SyncConnectionRecord) : Option (String × String) :=
  connection.inlineSecretSlotId.bind fun slotId =>
    connection.inlineAuthKind.map fun kind => (slotId,syncSecretKindLabel (.ofInline kind))

def slotKinds (data : ConnectionTransferData) : List (String × String) :=
  data.credentials.filterMap credentialKind ++ data.connections.filterMap connectionKind

/-- An inline secret has a kind. -/
def KindsKnown (data : ConnectionTransferData) : Prop :=
  ∀ connection ∈ data.connections, connection.inlineSecretSlotId.isSome →
    connection.inlineAuthKind.isSome

theorem lookup_of_mem (h : (keys map).Nodup) (hmem : (key,value) ∈ map) : lookup map key = some value := by
  induction map with
  | nil => cases hmem
  | cons entry map ih =>
    obtain ⟨hnot,hnodup⟩ := nodup_cons.mp h
    rcases mem_cons.mp hmem with rfl | hmem
    · simp [lookup]
    · have hne : entry.1 ≠ key := fun he => hnot (he ▸ mem_map_of_mem hmem)
      have := ih hnodup hmem
      simpa [lookup,hne] using this

theorem insertEntry_of_not_mem (h : key ∉ keys map) (value : String) :
    insertEntry key value map = (key,value) :: map := by
  have hfilter : map.filter (fun entry => entry.1 ≠ key) = map :=
    filter_eq_self.mpr fun entry hentry => by
      simpa using fun he : entry.1 = key => h (he ▸ mem_map_of_mem hentry)
  rw [insertEntry,hfilter]

/-- Slots that differ are all kept. -/
theorem foldl_expectCredential_fresh (credentials : List SyncCredentialRecord)
    (expected : List (String × String))
    (h : Fresh (keys expected) (credentials.filterMap (·.secretSlotId))) :
    credentials.foldl expectCredential expected =
      (credentials.filterMap credentialKind).reverse ++ expected := by
  induction credentials generalizing expected with
  | nil => rfl
  | cons credential credentials ih =>
    cases hslot : credential.secretSlotId with
    | none =>
      simp only [filterMap_cons,hslot] at h
      simpa [expectCredential,credentialKind,hslot] using ih expected h
    | some slotId =>
      simp only [filterMap_cons,hslot,fresh_cons] at h
      have hih := ih ((slotId,syncSecretKindLabel (.ofSaved credential.kind)) :: expected) h.2
      simpa [expectCredential,credentialKind,hslot,insertEntry_of_not_mem h.1] using hih

theorem expectConnections_fresh (connections : List SyncConnectionRecord)
    (expected : List (String × String))
    (hkinds : ∀ connection ∈ connections, connection.inlineSecretSlotId.isSome →
      connection.inlineAuthKind.isSome)
    (h : Fresh (keys expected) (connections.filterMap (·.inlineSecretSlotId))) :
    expectConnections expected connections =
      .ok ((connections.filterMap connectionKind).reverse ++ expected) := by
  induction connections generalizing expected with
  | nil => rfl
  | cons connection connections ih =>
    obtain ⟨hkind,hkinds⟩ := forall_mem_cons.mp hkinds
    cases hslot : connection.inlineSecretSlotId with
    | none =>
      simp only [filterMap_cons,hslot] at h
      have hih := ih expected hkinds h
      simpa [expectConnections,expectConnection,connectionKind,hslot,bind,Except.bind] using hih
    | some slotId =>
      obtain ⟨kind,hkind⟩ := Option.isSome_iff_exists.mp (hkind (by simp [hslot]))
      simp only [filterMap_cons,hslot,fresh_cons] at h
      have hih := ih ((slotId,syncSecretKindLabel (.ofInline kind)) :: expected) hkinds h.2
      simpa [expectConnections,expectConnection,connectionKind,hslot,hkind,bind,Except.bind,
        insertEntry_of_not_mem h.1] using hih

theorem keys_filterMap_credentialKind (credentials : List SyncCredentialRecord) :
    keys (credentials.filterMap credentialKind) = credentials.filterMap (·.secretSlotId) := by
  rw [keys,map_filterMap]
  congr 1
  funext credential
  cases h : credential.secretSlotId <;> simp [credentialKind,h]

/-- The secrets that fill the slots of a document pass its check. -/
theorem validateTransferSecrets_of_perm (hkinds : KindsKnown data) (hslots : (slots data).Nodup)
    (hperm : (secrets.secrets.map fun secret => (secret.slotId,secret.kind)).Perm (slotKinds data))
    (hlimit : secrets.secrets.length ≤ maxSecrets) : validateTransferSecrets data secrets = .ok () := by
  obtain ⟨hcredentials,hconnections,hdisjoint⟩ := nodup_append.mp hslots
  have hfold : data.credentials.foldl expectCredential [] =
      (data.credentials.filterMap credentialKind).reverse := by
    simpa using foldl_expectCredential_fresh data.credentials [] (by simpa [keys] using hcredentials)
  have hexpected : expectedSecrets data = .ok ((data.connections.filterMap connectionKind).reverse ++
      (data.credentials.filterMap credentialKind).reverse) := by
    rw [expectedSecrets,hfold]
    refine expectConnections_fresh _ _ hkinds ⟨hconnections,fun slot hslot hmem => ?_⟩
    rw [keys,map_reverse,mem_reverse] at hmem
    exact hdisjoint slot (keys_filterMap_credentialKind _ ▸ hmem) slot hslot rfl
  have hsame : ((data.connections.filterMap connectionKind).reverse ++
      (data.credentials.filterMap credentialKind).reverse).Perm (slotKinds data) := by
    rw [← reverse_append]
    exact reverse_perm _
  obtain ⟨hnodup,-⟩ := expectedSecrets_ok hexpected
  have hpairs := hperm.trans hsame.symm
  have hseen : (secrets.secrets.map (·.slotId)).Nodup := by
    have hkeys := (hpairs.map Prod.fst).nodup_iff.mpr hnodup
    simpa [Function.comp_def] using hkeys
  simp only [validateTransferSecrets,except_bind_ok]
  refine ⟨(),if_neg (not_lt.mpr hlimit),_,hexpected,_,checkSecrets_ok.mpr
    ⟨fresh_empty.mpr hseen,fun secret hsecret => ?_,rfl⟩,?_⟩
  · refine lookup_of_mem hnodup (hpairs.mem_iff.mp ?_)
    exact mem_map_of_mem (f := fun secret => (secret.slotId,secret.kind)) hsecret
  · have hlength := hpairs.length_eq
    simp only [length_map] at hlength
    simp [everySlotSeen,hlength]

end Mxterm.ConnectionTransfer
