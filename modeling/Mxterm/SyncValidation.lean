import Mxterm.SyncReplacement

/-! `validate_sync_data_document`, and the documents that the tables can hold. The check covers
identifiers and most references, but neither the names of the groups, nor the keys of the known
hosts, nor the account of a connection that is not in the mode `saved`. -/
namespace Mxterm.SyncRepository

open Execution List

/-- A loop over records whose identifiers must differ; returns the set it filled. -/
def validateEach {α : Type} (id : α → String) (duplicate : String → AppError)
    (check : α → Except AppError Unit) : List String → List α → Except AppError (List String)
  | seen, [] => .ok seen
  | seen, a :: as =>
    if id a ∈ seen then .error (duplicate (id a))
    else match check a with
      | .ok () => validateEach id duplicate check (id a :: seen) as
      | .error error => .error error

/-- Identifiers that differ from each other and from those seen before. -/
def Fresh (seen ids : List String) : Prop := ids.Nodup ∧ ∀ id ∈ ids, id ∉ seen

theorem fresh_nil (seen : List String) : Fresh seen [] := ⟨nodup_nil,by simp⟩

theorem fresh_cons {seen ids : List String} {id : String} :
    Fresh seen (id :: ids) ↔ id ∉ seen ∧ Fresh (id :: seen) ids := by
  simp only [Fresh,nodup_cons,forall_mem_cons]
  simp only [mem_cons,not_or]
  constructor
  · rintro ⟨⟨hnot,hnodup⟩,hseen,hrest⟩
    exact ⟨hseen,hnodup,fun other hother => ⟨fun he => hnot (he ▸ hother),hrest other hother⟩⟩
  · rintro ⟨hseen,hnodup,hrest⟩
    exact ⟨⟨fun hmem => (hrest id hmem).1 rfl,hnodup⟩,hseen,fun other hother => (hrest other hother).2⟩

@[simp] theorem fresh_empty {ids : List String} : Fresh [] ids ↔ ids.Nodup := by simp [Fresh]

theorem validateEach_ok {α : Type} {id : α → String} {duplicate : String → AppError}
    {check : α → Except AppError Unit} {seen seen' : List String} {as : List α} :
    validateEach id duplicate check seen as = .ok seen' ↔ Fresh seen (as.map id) ∧
      (∀ a ∈ as, check a = .ok ()) ∧ seen' = (as.map id).reverse ++ seen := by
  induction as generalizing seen with
  | nil => simp [validateEach,fresh_nil,eq_comm]
  | cons a as ih =>
    simp only [validateEach,map_cons,fresh_cons]
    split
    · rename_i hseen
      simp [hseen]
    · rename_i hseen
      cases hcheck : check a with
      | error error => simp [hcheck]
      | ok _ => simp [ih,hseen,hcheck]

def validateGroupReference (groupIds : List String) (connection : SyncConnectionRecord) :
    Except AppError Unit :=
  match connection.groupId with
  | none => .ok ()
  | some groupId =>
    if groupId ∈ groupIds then .ok ()
    else .error (importFailed s!"connection {connection.id} references missing group {groupId}")

def validateSavedCredential (credentialIds : List String) (connection : SyncConnectionRecord) :
    Except AppError Unit :=
  if connection.credentialMode = .saved then
    match connection.credentialId with
    | none => .error (importFailed s!"connection {connection.id} missing credential id")
    | some credentialId =>
      if credentialId ∈ credentialIds then .ok ()
      else .error (importFailed
        s!"connection {connection.id} references missing credential {credentialId}")
  else .ok ()

/-- The checks of one connection record. -/
def validateSyncConnection (groupIds credentialIds : List String)
    (connection : SyncConnectionRecord) : Except AppError Unit := do
  validateGroupReference groupIds connection
  validateSavedCredential credentialIds connection

def validateSyncTunnel (connectionIds : List String) (tunnel : TunnelRule) :
    Except AppError Unit :=
  if tunnel.connectionId ∈ connectionIds then .ok ()
  else .error (importFailed s!"tunnel {tunnel.id} references missing connection {tunnel.connectionId}")

def validateSyncDataDocument (data : SyncDataDocument) : Except AppError Unit := do
  let groupIds ← validateEach SyncConnectionGroup.id
    (fun id => importFailed ("duplicate group id " ++ id)) (fun _ => .ok ()) [] data.connectionGroups
  let credentialIds ← validateEach SyncCredentialRecord.id
    (fun id => importFailed ("duplicate credential id " ++ id)) (fun _ => .ok ()) [] data.credentials
  let connectionIds ← validateEach SyncConnectionRecord.id
    (fun id => importFailed ("duplicate connection id " ++ id))
    (validateSyncConnection groupIds credentialIds) [] data.connections
  let _ ← validateEach TunnelRule.id (fun id => importFailed ("duplicate tunnel id " ++ id))
    (validateSyncTunnel connectionIds) [] data.tunnels
  .ok ()

theorem validateSyncConnection_ok {groupIds credentialIds : List String}
    {connection : SyncConnectionRecord} :
    validateSyncConnection groupIds credentialIds connection = .ok () ↔
      (∀ g ∈ connection.groupId, g ∈ groupIds) ∧
        (connection.credentialMode = .saved → ∃ c ∈ connection.credentialId, c ∈ credentialIds) := by
  have hgroup : validateGroupReference groupIds connection = .ok () ↔
      ∀ g ∈ connection.groupId, g ∈ groupIds := by
    unfold validateGroupReference
    cases connection.groupId with
    | none => simp
    | some g => by_cases hg : g ∈ groupIds <;> simp [hg]
  have hsaved : validateSavedCredential credentialIds connection = .ok () ↔
      (connection.credentialMode = .saved → ∃ c ∈ connection.credentialId, c ∈ credentialIds) := by
    unfold validateSavedCredential
    by_cases hmode : connection.credentialMode = .saved
    · cases connection.credentialId with
      | none => simp [hmode]
      | some c => by_cases hc : c ∈ credentialIds <;> simp [hmode,hc]
    · simp [hmode]
  simp only [validateSyncConnection,except_bind_ok,hgroup,hsaved]
  exact ⟨fun ⟨_,hg,hs⟩ => ⟨hg,hs⟩,fun ⟨hg,hs⟩ => ⟨(),hg,hs⟩⟩

/-- What the check of a document guarantees. -/
structure Validated (data : SyncDataDocument) : Prop where
  groupIds : (data.connectionGroups.map (·.id)).Nodup
  credentialIds : (data.credentials.map (·.id)).Nodup
  connectionIds : (data.connections.map (·.id)).Nodup
  tunnelIds : (data.tunnels.map (·.id)).Nodup
  groups : ∀ connection ∈ data.connections, ∀ g ∈ connection.groupId,
    g ∈ data.connectionGroups.map (·.id)
  saved : ∀ connection ∈ data.connections, connection.credentialMode = .saved →
    ∃ c ∈ connection.credentialId, c ∈ data.credentials.map (·.id)
  tunnels : ∀ tunnel ∈ data.tunnels, tunnel.connectionId ∈ data.connections.map (·.id)

theorem validateSyncDataDocument_ok {data : SyncDataDocument} :
    validateSyncDataDocument data = .ok () ↔ Validated data := by
  have htunnel : ∀ (ids : List String) (tunnel : TunnelRule),
      validateSyncTunnel ids tunnel = .ok () ↔ tunnel.connectionId ∈ ids := by
    intro ids tunnel
    unfold validateSyncTunnel
    split <;> simp_all
  simp only [validateSyncDataDocument,except_bind_ok,validateEach_ok,validateSyncConnection_ok,
    htunnel,fresh_empty,append_nil]
  constructor
  · rintro ⟨_,⟨hgroups,-,rfl⟩,_,⟨hcredentials,-,rfl⟩,_,⟨hconnections,hchecks,rfl⟩,
      _,⟨htunnels,hrefs,rfl⟩,-⟩
    exact ⟨hgroups,hcredentials,hconnections,htunnels,
      fun c hc g hg => mem_reverse.mp ((hchecks c hc).1 g hg),
      fun c hc hmode => by simpa only [mem_reverse] using (hchecks c hc).2 hmode,
      fun tunnel ht => mem_reverse.mp (hrefs tunnel ht)⟩
  · intro h
    refine ⟨_,⟨h.groupIds,by simp,rfl⟩,_,⟨h.credentialIds,by simp,rfl⟩,
      _,⟨h.connectionIds,fun c hc => ⟨fun g hg => ?_,fun hmode => ?_⟩,rfl⟩,
      _,⟨h.tunnelIds,fun tunnel ht => ?_,rfl⟩,trivial⟩
    · exact mem_reverse.mpr (h.groups c hc g hg)
    · simpa only [mem_reverse] using h.saved c hc hmode
    · exact mem_reverse.mpr (h.tunnels tunnel ht)

/-- What the check leaves to the constraints of the tables. -/
structure Fits (e : Surroundings) (data : SyncDataDocument) : Prop where
  groupNames : (data.connectionGroups.map (·.name)).Nodup
  knownHosts : (data.knownHosts.map fun entry => (knownHostRowOf e entry).key).Nodup
  credentials : ∀ connection ∈ data.connections, ∀ c ∈ connection.credentialId,
    c ∈ data.credentials.map (·.id)

/-- A checked document can be stored exactly when it meets the remaining constraints. -/
theorem exists_holds_iff {e : Surroundings} {data : SyncDataDocument} {restoreSecretRefs : Bool}
    (h : Validated data) : (∃ d : Database, Holds e data restoreSecretRefs d.toTables) ↔
      Fits e data := by
  have hcredentials : (data.credentials.map (credentialRowOf restoreSecretRefs)).map (·.id) =
      data.credentials.map (·.id) := by simp [credentialRowOf,Function.comp_def]
  have hconnections : (data.connections.map (connectionRowOf restoreSecretRefs)).map (·.id) =
      data.connections.map (·.id) := by simp [connectionRowOf,Function.comp_def]
  constructor
  · rintro ⟨d,hd⟩
    refine ⟨?_,?_,fun connection hconnection c hc => ?_⟩
    · simpa [Tables.groupNames,hd.connectionGroups] using d.consistent.groupNamesNodup
    · have hkeys := d.knownHosts.keysNodup
      rw [hd.knownHosts,map_map] at hkeys
      exact hkeys
    · have hrow : connectionRowOf restoreSecretRefs connection ∈ d.connections := by
        rw [Table.mem_iff,hd.connections]
        exact mem_map_of_mem hconnection
      have := (d.consistent.connectionRefers _ hrow).2 c hc
      rwa [Table.HasKey,hd.credentials,hcredentials] at this
  · intro hfits
    have hsettings : (data.settings.entries.map (settingRowOf e)).map (·.key) =
        data.settings.entries.map Prod.fst := by simp [settingRowOf,Function.comp_def]
    let t : Tables := {
      connectionGroups := ⟨data.connectionGroups,h.groupIds⟩
      credentials := ⟨data.credentials.map (credentialRowOf restoreSecretRefs),
        hcredentials ▸ h.credentialIds⟩
      connections := ⟨data.connections.map (connectionRowOf restoreSecretRefs),
        hconnections ▸ h.connectionIds⟩
      knownHosts := ⟨data.knownHosts.map (knownHostRowOf e),by
        simpa [Function.comp_def] using hfits.knownHosts⟩
      tunnels := ⟨data.tunnels,h.tunnelIds⟩
      appSettings := ⟨data.settings.entries.map (settingRowOf e),
        hsettings ▸ data.settings.keysNodup⟩ }
    have ht : t.Consistent := by
      refine ⟨hfits.groupNames,fun row hrow => ?_,fun tunnel htunnel => ?_⟩
      · obtain ⟨record,hrecord,rfl⟩ := mem_map.mp hrow
        refine ⟨fun g hg => h.groups record hrecord g hg,fun c hc => ?_⟩
        rw [Table.HasKey,hcredentials]
        exact hfits.credentials record hrecord c hc
      · rw [Table.HasKey,hconnections]
        exact h.tunnels tunnel htunnel
    exact ⟨⟨t,ht⟩,⟨rfl,rfl,rfl,rfl,rfl,rfl⟩⟩

end Mxterm.SyncRepository
