import Mxterm.CallSequences
import Mxterm.SecretOwnership

/-! The commands that store and delete connections and saved accounts, call by call: which statements and which calls of
the secret store each makes, and when it is left half done. -/
namespace Mxterm.CommandPlans

open Execution StorageRepository RepositoryCommands ProfileValidation SecretReference SecretOwnership List CallSequences

/-! ## Calls -/

/-- The tables and the entries of the secret store. -/
abbrev Data := Database × Entries

/-- A query or a secret that is read, a statement, a change of a secret, and an error that no call returns. -/
inductive PlannedCall
  | read
  | write (statement : Statement)
  | store (account : String) (secret : Option String)
  | refuse

namespace PlannedCall

def effect (d : Data) : PlannedCall → Option Data
  | .read => some d
  | .write statement => (d.1.exec statement).toOption.map fun database => (database,d.2)
  | .store account secret => some (d.1,Function.update d.2 account secret)
  | .refuse => none

/-- A secret that the vault file does not take has changed in memory. -/
def left (d : Data) : PlannedCall → Fault → Data
  | .store account secret,.unsaved _ => (d.1,Function.update d.2 account secret)
  | _,_ => d

def call (c : PlannedCall) : CallSequences.Call Data Fault := ⟨fun d => c.effect d,fun fault d => c.left d fault⟩

end PlannedCall

def data (s : StorageRepository) : Data := (s.database,s.secrets)

/-- The calls of a plan from a state on: whether all succeed, and what they leave. -/
def runPlan (plan : List PlannedCall) (s : StorageRepository) : Bool × Data :=
  run s.faults s.clock (plan.map PlannedCall.call) (data s)

/-! ## What the commands call -/

def groupPlan (fresh : Uuid) (now : String) (t : Tables) : Option String → List PlannedCall
  | none => []
  | some name =>
    if name ∈ t.groupNames then [.read] else [.read,.write (.insertGroup ⟨fresh.toString,name,0,now,now⟩)]

def groupIdOf (fresh : Uuid) (t : Tables) (name : String) : String :=
  ((t.connectionGroups.rows.find? (·.name = name)).map (·.id)).getD fresh.toString

def sourcePlan : Option (Option ConnectionRow) → List PlannedCall
  | none => []
  | some none => [.read,.refuse]
  | some (some _) => [.read]

/-- The calls for a secret, and the columns that name it. -/
abbrev SecretPlan := List PlannedCall × SecretColumns

def storePlan (reference : SecretReference) (secret : String) : SecretPlan :=
  ([.store reference.account (some secret)],columnsOf reference)

def keepPlan : Except AppError SecretColumns → SecretPlan
  | .ok columns => ([],columns)
  | .error _ => ([.refuse],(none,none))

def copyPlan (secrets : Entries) (id : String) (source : ConnectionRow) (authKind : ConnectionAuthKind) : SecretPlan :=
  if source.credentialMode ≠ .inline ∨ source.inlineAuthKind ≠ some authKind then
    keepPlan (missingInlineSecretForPreserve authKind)
  else
    match inlineReference source,authKind with
    | none,.privateKey => ([],(none,none))
    | none,.password => ([.refuse],(none,none))
    | some reference,authKind =>
      match secrets reference.account with
      | none => ([.read,.refuse],(none,none))
      | some secret =>
        let stored := storePlan (.connection id (.ofInline authKind)) secret
        (.read :: stored.1,stored.2)

def keepInlinePlan (t : Tables) (secrets : Entries) (id : String) (authKind : ConnectionAuthKind)
    (existing : Option ConnectionRow) : Option ConnectionRow → SecretPlan
  | some source => copyPlan secrets id source authKind
  | none => keepPlan (preserveInlineSecret (storedVersion t existing) authKind)

def inlinePlan (t : Tables) (secrets : Entries) (id : String) (validated : ValidatedConnectionProfileInput)
    (existing source : Option ConnectionRow) : SecretPlan :=
  match validated.inlineAuthKind with
  | some .password =>
    match validated.inlinePassword with
    | some password => storePlan (.connection id .inlinePassword) password
    | none =>
      if !validated.inlinePasswordTouched then keepInlinePlan t secrets id .password existing source
      else ([.refuse],(none,none))
  | some .privateKey =>
    match validated.inlinePrivateKeyPassphrase with
    | some passphrase => storePlan (.connection id .inlinePrivateKeyPassphrase) passphrase
    | none =>
      if !validated.inlinePrivateKeyPassphraseTouched then keepInlinePlan t secrets id .privateKey existing source
      else ([],(none,none))
  | none => ([],(none,none))

def metaOf (row : ConnectionRow) : ExistingConnectionMeta :=
  ⟨row.createdAt,row.protocol,row.isFavorite,row.host,row.port,row.username,row.lastConnectedAt,row.remoteOsId,
    row.remoteOsName,row.remoteOsVersion⟩

def connectionUpsertPlan (draws : Draws) (input : ConnectionProfileInput) (now : String) (s : StorageRepository) :
    List PlannedCall :=
  match validateProfileInput s.family input with
  | .error _ => [.refuse]
  | .ok validated =>
    let sourceId := Text.trimOptional input.sourceConnectionId
    if validated.id.isSome && sourceId.isSome then [.refuse]
    else
      let t := s.database.toTables
      let id := validated.id.getD draws.record.toString
      let old := t.connections.find? id
      let source := sourceId.map t.connections.find?
      let secret := inlinePlan t s.secrets id validated old source.join
      let row := connectionRow id now input validated (old.map metaOf) (validated.group.map (groupIdOf draws.group t))
        secret.2
      [.read] ++ groupPlan draws.group now t validated.group ++ [.read] ++ sourcePlan source ++ secret.1 ++
        [.write (.upsertConnection row),.read]

def deletePlan (account : Option String) : List PlannedCall :=
  match account with
  | some account => [.store account none]
  | none => []

def connectionDeletePlan (id : String) (s : StorageRepository) : List PlannedCall :=
  match s.database.connections.find? id with
  | none => [.read,.refuse]
  | some row => [.read,.write (.deleteConnection id)] ++ deletePlan row.inlineSecretRef

def credentialSecretPlan (id : String) (validated : ValidatedCredentialProfileInput) (existing : Option CredentialRow) :
    SecretPlan :=
  let stored := existing.map fun row => (rowToCredentialProfile row,credentialReference row)
  match validated.kind with
  | .password =>
    match validated.password with
    | some password => storePlan (.credential id .password) password
    | none =>
      if !validated.passwordTouched then keepPlan (preserveCredentialSecret stored .password)
      else ([.refuse],(none,none))
  | .privateKey =>
    match validated.privateKeyPassphrase with
    | some passphrase => storePlan (.credential id .privateKeyPassphrase) passphrase
    | none =>
      if !validated.privateKeyPassphraseTouched then keepPlan (preserveCredentialSecret stored .privateKey)
      else ([],(none,none))

def credentialUpsertPlan (draws : Draws) (input : CredentialProfileInput) (now : String) (s : StorageRepository) :
    List PlannedCall :=
  match validateCredentialInput input with
  | .error _ => [.refuse]
  | .ok validated =>
    let id := validated.id.getD draws.record.toString
    let old := s.database.credentials.find? id
    let secret := credentialSecretPlan id validated old
    let row := credentialRow id now validated (old.map (·.createdAt)) secret.2
    [.read,.read] ++ secret.1 ++ [.write (.upsertCredential row),.read]

def credentialDeletePlan (id : String) (s : StorageRepository) : List PlannedCall :=
  if ∃ row ∈ s.database.connections.rows, row.credentialId = some id then [.read,.refuse]
  else
    match s.database.credentials.find? id with
    | none => [.read,.read,.refuse]
    | some row => [.read,.read,.write (.deleteCredential id)] ++ deletePlan row.secretRef

def plan (s : StorageRepository) : Command → List PlannedCall
  | .connectionUpsert draws input now => connectionUpsertPlan draws input now s
  | .credentialUpsert draws input now => credentialUpsertPlan draws input now s
  | .connectionDelete id => connectionDeletePlan id s
  | .credentialDelete id => credentialDeletePlan id s

/-! ## The commands follow their plans -/

variable {α β : Type} {x : Repo α} {f : α → Repo β} {p q : List PlannedCall} {Q : α → StorageRepository → Prop}
  {R : β → StorageRepository → Prop} {s : StorageRepository}

/-- The action makes the calls of the plan; where it succeeds, `Q` holds. -/
structure Performs (x : Repo α) (p : List PlannedCall) (Q : α → StorageRepository → Prop) (s : StorageRepository) :
    Prop where
  ok : ∀ {a t}, x s = .ok a t →
    Q a t ∧ t.faults = s.faults ∧ t.clock = s.clock + p.length ∧ runPlan p s = (true,data t)
  error : ∀ {e t}, x s = .error e t → runPlan p s = (false,data t)

theorem runPlan_append_of_ok {t : StorageRepository} (hfaults : t.faults = s.faults)
    (hclock : t.clock = s.clock + p.length) (hrun : runPlan p s = (true,data t)) :
    runPlan (p ++ q) s = runPlan q t := by
  unfold runPlan at hrun ⊢
  rw [map_append,run_append,hrun,length_map,hfaults,hclock]
  rfl

theorem runPlan_append_of_error {d : Data} (hrun : runPlan p s = (false,d)) :
    runPlan (p ++ q) s = (false,d) := by
  unfold runPlan at hrun ⊢
  rw [map_append,run_append,hrun]
  rfl

theorem runPlan_fault {c : PlannedCall} {fault : Fault} (h : s.faults s.clock = some fault) :
    runPlan (c :: q) s = (false,c.left (data s) fault) := by
  simp only [runPlan,map_cons,run,h]
  rfl

theorem runPlan_read (h : s.faults s.clock = none) : runPlan [.read] s = (true,data s) := by
  simp only [runPlan,map_cons,run,h]
  rfl

namespace Performs

theorem bind (hx : Performs x p Q s) (hf : ∀ a t, Q a t → Performs (f a) q R t) :
    Performs (x >>= f) (p ++ q) R s := by
  constructor
  · intro b u h
    obtain ⟨a,t,ha,hb⟩ := (bind_ok _ _ _ _ _).mp h
    obtain ⟨hQ,hfaults,hclock,hrun⟩ := hx.ok ha
    obtain ⟨hR,hfaults',hclock',hrun'⟩ := (hf a t hQ).ok hb
    refine ⟨hR,hfaults'.trans hfaults,?_,(runPlan_append_of_ok hfaults hclock hrun).trans hrun'⟩
    rw [hclock',hclock,length_append,Nat.add_assoc]
  · intro e u h
    rcases (bind_error _ _ _ _ _).mp h with h | ⟨a,t,ha,hb⟩
    · exact runPlan_append_of_error (hx.error h)
    · obtain ⟨hQ,hfaults,hclock,hrun⟩ := hx.ok ha
      exact (runPlan_append_of_ok hfaults hclock hrun).trans ((hf a t hQ).error hb)

/-- What makes no call after the others is not seen in the plan. -/
theorem bind_nil (hx : Performs x p Q s) (hf : ∀ a t, Q a t → Performs (f a) [] R t) : Performs (x >>= f) p R s := by
  have h := bind hx hf
  rwa [append_nil] at h

/-- Nor is a value that is there already. -/
theorem lift_bind {a : α} (h : Performs (f a) q R s) : Performs (lift (.ok a) >>= f) q R s :=
  ⟨h.ok,h.error⟩

theorem get_bind {f : StorageRepository → Repo β} (h : Performs (f s) q R s) : Performs (get >>= f) q R s :=
  ⟨h.ok,h.error⟩

theorem mono {R : α → StorageRepository → Prop} (hx : Performs x p Q s) (h : ∀ a t, Q a t → R a t) :
    Performs x p R s :=
  ⟨fun ha => ⟨h _ _ (hx.ok ha).1,(hx.ok ha).2⟩,hx.error⟩

theorem pure {a : α} (h : Q a s) : Performs (pure a) [] Q s := by
  constructor
  · rintro _ _ ⟨⟩
    exact ⟨h,rfl,rfl,rfl⟩
  · rintro _ _ ⟨⟩

/-- An action that gives up before its next call. -/
theorem refuse {e : AppError} (hx : x s = .error e s) : Performs x (.refuse :: q) Q s := by
  constructor
  · intro a t h
    rw [hx] at h
    cases h
  · intro e' t h
    rw [hx] at h
    cases h
    cases hfault : s.faults s.clock with
    | some fault => exact runPlan_fault hfault
    | none =>
      simp only [runPlan,map_cons,run,hfault]
      rfl

theorem map {f : α → β} (hx : Performs x p Q s) (h : ∀ a t, Q a t → R (f a) t) : Performs (f <$> x) p R s :=
  hx.bind_nil (f := fun a => (Pure.pure (f a) : Repo β)) fun a t ha => .pure (h a t ha)

end Performs

/-! ### Single calls -/

variable {error : String → AppError}

theorem performs_query {select : Tables → α} (h : Q (select s.database.toTables) s.advance) :
    Performs (query error select) [.read] Q s := by
  constructor
  · intro a t hq
    obtain ⟨hfault,rfl,rfl⟩ := query_ok.mp hq
    exact ⟨h,rfl,rfl,runPlan_read hfault⟩
  · intro e t hq
    obtain ⟨⟨fault,hfault,-⟩,rfl⟩ := query_error.mp hq
    exact runPlan_fault hfault

theorem performs_query_bind {select : Tables → α} (h : Performs (f (select s.database.toTables)) q R s.advance) :
    Performs (query error select >>= f) (.read :: q) R s := by
  have hquery : Performs (query error select) [.read]
      (fun a t => a = select s.database.toTables ∧ t = s.advance) s := performs_query ⟨rfl,rfl⟩
  apply hquery.bind
  rintro _ _ ⟨rfl,rfl⟩
  exact h

variable {missing : AppError}

/-- A row that is there is read. -/
theorem performs_found {select : Tables → Option α} {a : α} (ha : select s.database.toTables = some a) :
    Performs (query error select >>= fun found => lift (okOr missing found)) [.read]
      (fun b t => b = a ∧ t = s.advance) s := by
  apply performs_query_bind
  rw [ha]
  exact .pure ⟨rfl,rfl⟩

theorem performs_missing {select : Tables → Option α} (hnone : select s.database.toTables = none) :
    Performs (query error select >>= fun found => lift (okOr missing found)) [.read,.refuse]
      (fun _ _ => False) s := by
  apply performs_query_bind
  rw [hnone]
  exact .refuse rfl

variable {statement : Statement}

theorem performs_execute {Q : Unit → StorageRepository → Prop}
    (h : ∀ d, s.database.exec statement = .ok d → Q () (s.advance.store d)) :
    Performs (execute error statement) [.write statement] Q s := by
  constructor
  · intro a t hx
    obtain ⟨hfault,d,hd,rfl⟩ := execute_ok.mp hx
    refine ⟨h d hd,store_faults ..,store_clock ..,?_⟩
    simp only [runPlan,map_cons,run,hfault,PlannedCall.call,PlannedCall.effect,data,hd]
    simp [Except.toOption,run]
  · intro e t hx
    unfold execute at hx
    cases hfault : s.faults s.clock with
    | some fault =>
      rw [hfault] at hx
      cases hx
      exact runPlan_fault hfault
    | none =>
      rw [hfault] at hx
      cases hexec : s.database.exec statement with
      | ok d =>
        rw [hexec] at hx
        cases hx
      | error raw =>
        rw [hexec] at hx
        cases hx
        simp only [runPlan,map_cons,run,hfault,PlannedCall.call,PlannedCall.effect,data,hexec]
        rfl

theorem performs_changeSecrets {refused : String → AppError} {account : String} {secret : Option String}
    {Q : Unit → StorageRepository → Prop}
    (h : Q () (s.advance.withSecrets (Function.update s.secrets account secret)).persist) :
    Performs (changeSecrets refused fun secrets => Function.update secrets account secret) [.store account secret]
      Q s := by
  constructor
  · intro a t hx
    obtain ⟨hfault,rfl⟩ := changeSecrets_ok.mp hx
    refine ⟨h,rfl,rfl,?_⟩
    simp only [runPlan,map_cons,run,hfault]
    rfl
  · intro e t hx
    unfold changeSecrets at hx
    cases hfault : s.faults s.clock with
    | none =>
      rw [hfault] at hx
      cases hx
    | some fault =>
      rw [hfault] at hx
      rw [runPlan_fault hfault]
      cases fault <;> cases hx <;> rfl

variable {reference : SecretReference}

theorem performs_getSecret {secret : String} (hsecret : s.secrets reference.account = some secret) :
    Performs (getSecret reference) [.read] (fun a t => a = secret ∧ t = s.advance) s := by
  constructor
  · intro a t hx
    obtain ⟨hfault,ha,rfl⟩ := getSecret_ok.mp hx
    exact ⟨⟨Option.some.inj (ha.symm.trans hsecret),rfl⟩,rfl,rfl,runPlan_read hfault⟩
  · intro e t hx
    unfold getSecret at hx
    cases hfault : s.faults s.clock with
    | none =>
      simp only [hfault,hsecret] at hx
      cases hx
    | some fault =>
      rw [hfault] at hx
      cases hx
      exact runPlan_fault hfault

theorem performs_getSecret_missing (hsecret : s.secrets reference.account = none) :
    Performs (getSecret reference) [.read,.refuse] (fun _ _ => False) s := by
  constructor
  · intro a t hx
    obtain ⟨-,ha,-⟩ := getSecret_ok.mp hx
    rw [hsecret] at ha
    cases ha
  · intro e t hx
    unfold getSecret at hx
    cases hfault : s.faults s.clock with
    | none =>
      simp only [hfault,hsecret] at hx
      cases hx
      simp only [runPlan,map_cons,run,hfault]
      cases s.faults (s.clock + 1) <;> rfl
    | some fault =>
      rw [hfault] at hx
      cases hx
      exact runPlan_fault hfault

/-! ### Secrets -/

theorem performs_storeSecret {secret : String} :
    Performs (storeSecret reference secret) (storePlan reference secret).1
      (fun columns t => columns = (storePlan reference secret).2 ∧ t.database = s.database) s := by
  have hset : Performs (setSecret reference secret) [.store reference.account (some secret)]
      (fun _ t => t.database = s.database) s := performs_changeSecrets rfl
  exact hset.bind_nil fun _ _ ht => .pure ⟨rfl,ht⟩

theorem performs_keep (r : Except AppError SecretColumns) :
    Performs (lift r) (keepPlan r).1 (fun columns t => columns = (keepPlan r).2 ∧ t.database = s.database) s := by
  cases r with
  | ok columns => exact .pure ⟨rfl,rfl⟩
  | error e => exact .refuse rfl

variable {t : Tables} {id : String}

theorem performs_copyInlineSecret {source : ConnectionRow} {authKind : ConnectionAuthKind} :
    Performs (copyInlineSecret id (rowToConnectionProfile t source,inlineReference source) authKind)
      (copyPlan s.secrets id source authKind).1
      (fun columns u => columns = (copyPlan s.secrets id source authKind).2 ∧ u.database = s.database) s := by
  unfold copyInlineSecret copyPlan
  by_cases hmode : source.credentialMode ≠ .inline ∨ source.inlineAuthKind ≠ some authKind
  · have hprofile : (rowToConnectionProfile t source).credentialMode ≠ .inline ∨
        (rowToConnectionProfile t source).inlineAuthKind ≠ some authKind := hmode
    simp only [if_pos hmode,if_pos hprofile]
    exact performs_keep _
  · have hprofile : ¬ ((rowToConnectionProfile t source).credentialMode ≠ .inline ∨
        (rowToConnectionProfile t source).inlineAuthKind ≠ some authKind) := hmode
    simp only [if_neg hmode,if_neg hprofile]
    cases hreference : inlineReference source with
    | none =>
      cases authKind with
      | password => exact .refuse rfl
      | privateKey => exact .pure ⟨rfl,rfl⟩
    | some reference =>
      cases hsecret : s.secrets reference.account with
      | none =>
        have hcopy := (performs_getSecret_missing hsecret).bind (f := storeSecret (.connection id (.ofInline authKind)))
          (q := []) (R := fun columns u => columns = ((none,none) : SecretColumns) ∧ u.database = s.database)
          fun _ _ hfalse => hfalse.elim
        simp only [hsecret]
        exact hcopy
      | some secret =>
        simp only [hsecret]
        apply (performs_getSecret hsecret).bind
        rintro _ _ ⟨rfl,rfl⟩
        exact performs_storeSecret (s := s.advance)

/-- What is kept of the stored version does not depend on the name of its group. -/
theorem preserveInlineSecret_storedVersion (t u : Tables) (old : Option ConnectionRow) (authKind : ConnectionAuthKind) :
    preserveInlineSecret (storedVersion t old) authKind = preserveInlineSecret (storedVersion u old) authKind := by
  cases old <;> rfl

theorem performs_keepInlineSecret {t' u : Tables} {authKind : ConnectionAuthKind}
    {existing source : Option ConnectionRow} :
    Performs (keepInlineSecret id authKind (storedVersion t existing) (storedVersion t' source))
      (keepInlinePlan u s.secrets id authKind existing source).1
      (fun columns v => columns = (keepInlinePlan u s.secrets id authKind existing source).2 ∧
        v.database = s.database) s := by
  cases source with
  | none =>
    rw [keepInlinePlan,preserveInlineSecret_storedVersion u t]
    exact performs_keep _
  | some row => exact performs_copyInlineSecret

theorem performs_prepareInlineSecret {t' u : Tables} {validated : ValidatedConnectionProfileInput}
    {existing source : Option ConnectionRow} :
    Performs (prepareInlineSecret id validated (storedVersion t existing) (storedVersion t' source))
      (inlinePlan u s.secrets id validated existing source).1
      (fun columns v => columns = (inlinePlan u s.secrets id validated existing source).2 ∧
        v.database = s.database) s := by
  unfold prepareInlineSecret inlinePlan
  cases hkind : validated.inlineAuthKind with
  | none => exact .pure ⟨rfl,rfl⟩
  | some kind =>
    cases kind with
    | password =>
      cases hpassword : validated.inlinePassword with
      | some password => exact performs_storeSecret
      | none =>
        cases htouched : validated.inlinePasswordTouched with
        | false => exact performs_keepInlineSecret
        | true => exact .refuse rfl
    | privateKey =>
      cases hpassphrase : validated.inlinePrivateKeyPassphrase with
      | some passphrase => exact performs_storeSecret
      | none =>
        cases htouched : validated.inlinePrivateKeyPassphraseTouched with
        | false => exact performs_keepInlineSecret
        | true => exact .pure ⟨rfl,rfl⟩

theorem performs_prepareCredentialSecret {validated : ValidatedCredentialProfileInput}
    {existing : Option CredentialRow} :
    Performs (prepareCredentialSecret id validated
        (existing.map fun row => (rowToCredentialProfile row,credentialReference row)))
      (credentialSecretPlan id validated existing).1
      (fun columns t => columns = (credentialSecretPlan id validated existing).2 ∧ t.database = s.database) s := by
  unfold prepareCredentialSecret credentialSecretPlan
  cases hkind : validated.kind with
  | password =>
    cases hpassword : validated.password with
    | some password => exact performs_storeSecret
    | none =>
      cases htouched : validated.passwordTouched with
      | false => exact performs_keep _
      | true => exact .refuse rfl
  | privateKey =>
    cases hpassphrase : validated.privateKeyPassphrase with
    | some passphrase => exact performs_storeSecret
    | none =>
      cases htouched : validated.privateKeyPassphraseTouched with
      | false => exact performs_keep _
      | true => exact .pure ⟨rfl,rfl⟩

theorem performs_deleteReferenced (reference : Option SecretReference) :
    Performs (deleteReferenced reference) (deletePlan (reference.map (·.account))) (fun _ _ => True) s := by
  cases reference with
  | none => exact .pure trivial
  | some reference => exact performs_changeSecrets trivial

/-! ### Groups and sources -/

theorem find?_name {rows : List SyncConnectionGroup} {name : String} :
    (rows.find? (·.name = name)).isSome = true ↔ name ∈ rows.map (·.name) := by
  simp [find?_isSome]

variable {now : String}

theorem performs_ensureGroup {fresh : Uuid} {name : String} :
    Performs (ensureGroup fresh name now) (groupPlan fresh now s.database.toTables (some name))
      (fun id t => id = groupIdOf fresh s.database.toTables name ∧
        t.database.connections = s.database.connections ∧ t.secrets = s.secrets) s := by
  unfold ensureGroup groupPlan groupIdOf
  cases hfind : s.database.connectionGroups.rows.find? (·.name = name) with
  | some row =>
    have hname : name ∈ s.database.groupNames := find?_name.mp (by rw [hfind]; rfl)
    simp only [if_pos hname]
    apply performs_query_bind
    rw [hfind]
    exact .pure ⟨rfl,rfl,rfl⟩
  | none =>
    have hname : name ∉ s.database.groupNames := fun h => by
      have hsome := find?_name.mpr h
      rw [hfind] at hsome
      cases hsome
    simp only [if_neg hname]
    apply performs_query_bind
    rw [hfind]
    have hexecute : Performs (execute sqliteRepositoryError (.insertGroup ⟨fresh.toString,name,0,now,now⟩))
        [.write (.insertGroup ⟨fresh.toString,name,0,now,now⟩)]
        (fun _ t => t.database.connections = s.database.connections ∧ t.secrets = s.secrets) s.advance := by
      apply performs_execute
      intro d hd
      obtain ⟨-,groups,-,ht⟩ := Tables.exec_insertGroup_ok.mp (Database.exec_ok_iff.mp hd)
      rw [store_database,store_secrets,ht]
      exact ⟨rfl,rfl⟩
    exact hexecute.bind_nil fun _ t ht => .pure ⟨rfl,ht⟩

theorem performs_ensureGroupOptional (fresh : Uuid) (now : String) (group : Option String) :
    Performs (ensureGroupOptional fresh now group) (groupPlan fresh now s.database.toTables group)
      (fun groupId t => groupId = group.map (groupIdOf fresh s.database.toTables) ∧
        t.database.connections = s.database.connections ∧ t.secrets = s.secrets) s := by
  cases group with
  | none => exact .pure ⟨rfl,rfl,rfl⟩
  | some name =>
    apply performs_ensureGroup.map
    rintro id t ⟨rfl,ht⟩
    exact ⟨rfl,ht⟩

theorem performs_storedConnection {row : ConnectionRow} (hrow : s.database.connections.find? id = some row) :
    Performs (storedConnection id) [.read]
      (fun stored t => stored = (rowToConnectionProfile s.database.toTables row,inlineReference row) ∧
        t = s.advance) s :=
  performs_found (by rw [hrow]; rfl)

theorem performs_storedConnection_missing (hrow : s.database.connections.find? id = none) :
    Performs (storedConnection id) [.read,.refuse] (fun _ _ => False) s :=
  performs_missing (by rw [hrow]; rfl)

theorem performs_duplicateSource (sourceId : Option String) :
    Performs (duplicateSource sourceId) (sourcePlan (sourceId.map s.database.connections.find?))
      (fun source t => source = storedVersion s.database.toTables (sourceId.map s.database.connections.find?).join ∧
        t.secrets = s.secrets) s := by
  cases sourceId with
  | none => exact .pure ⟨rfl,rfl⟩
  | some id =>
    rw [Option.map_some]
    cases hrow : s.database.connections.find? id with
    | none => exact (performs_storedConnection_missing hrow).map fun _ _ h => h.elim
    | some row =>
      apply (performs_storedConnection hrow).map
      rintro _ _ ⟨rfl,rfl⟩
      exact ⟨rfl,rfl⟩

/-! ### Commands -/

theorem hasKey_upsertConnection {d e : Database} {row : ConnectionRow}
    (h : d.exec (.upsertConnection row) = .ok e) : e.connections.HasKey row.id := by
  obtain ⟨-,ht⟩ := Tables.exec_upsertConnection_ok.mp (Database.exec_ok_iff.mp h)
  rw [ht]
  exact Table.hasKey_put.mpr (Or.inl rfl)

theorem hasKey_upsertCredential {d e : Database} {row : CredentialRow}
    (h : d.exec (.upsertCredential row) = .ok e) : e.credentials.HasKey row.id := by
  have ht := Database.exec_ok_iff.mp h
  simp only [Tables.exec,Except.ok.injEq] at ht
  rw [← ht]
  exact Table.hasKey_put.mpr (Or.inl rfl)

/-- A row that was just written is found. -/
theorem performs_connectionGet (h : s.database.connections.HasKey id) :
    Performs (connectionGet id >>= fun found => lift (okOr (connectionMissing id) found)) [.read] (fun _ _ => True)
      s := by
  cases hrow : s.database.connections.find? id with
  | none => exact absurd h (Table.find?_eq_none_iff.mp hrow)
  | some row => exact (performs_found (by rw [hrow]; rfl)).mono fun _ _ _ => trivial

theorem performs_credentialGet (h : s.database.credentials.HasKey id) :
    Performs (credentialGet id >>= fun found => lift (okOr (credentialGone id) found)) [.read] (fun _ _ => True)
      s := by
  cases hrow : s.database.credentials.find? id with
  | none => exact absurd h (Table.find?_eq_none_iff.mp hrow)
  | some row => exact (performs_found (by rw [hrow]; rfl)).mono fun _ _ _ => trivial

variable {draws : Draws}

theorem performs_saveConnection {input : ConnectionProfileInput} {validated : ValidatedConnectionProfileInput}
    {sourceId : Option String} {old : Option ConnectionRow} (hold : s.database.connections.find? id = old) :
    let t := s.database.toTables
    let source := sourceId.map s.database.connections.find?
    let secret := inlinePlan t s.secrets id validated old source.join
    let row := connectionRow id now input validated (old.map metaOf) (validated.group.map (groupIdOf draws.group t))
      secret.2
    Performs (do
        let existing ← existingConnectionMeta id
        let groupId ← ensureGroupOptional draws.group now validated.group
        let existingStored ← storedConnectionOptional id
        let source ← duplicateSource sourceId
        let columns ← prepareInlineSecret id validated existingStored source
        execute sqliteRepositoryError
          (.upsertConnection (connectionRow id now input validated existing groupId columns))
        lift (okOr (connectionMissing id) (← connectionGet id)))
      ([.read] ++ (groupPlan draws.group now t validated.group ++ ([.read] ++ (sourcePlan source ++
        (secret.1 ++ ([.write (.upsertConnection row)] ++ [.read])))))) (fun _ _ => True) s := by
  intro t source secret row
  apply performs_query_bind
  rw [hold]
  have hgroup := performs_ensureGroupOptional (s := s.advance) draws.group now validated.group
  apply hgroup.bind
  rintro _ s₂ ⟨rfl,hconnections,hsecrets⟩
  rw [advance_database] at hconnections
  apply performs_query_bind
  rw [hconnections,hold]
  have hduplicate := performs_duplicateSource (s := s₂.advance) sourceId
  rw [advance_database,hconnections] at hduplicate
  apply hduplicate.bind
  rintro _ s₄ ⟨rfl,hsecrets'⟩
  have hprepare : Performs (prepareInlineSecret id validated (storedVersion s₂.database.toTables old)
      (storedVersion s₂.database.toTables source.join)) (inlinePlan t s₄.secrets id validated old source.join).1
      (fun columns v => columns = (inlinePlan t s₄.secrets id validated old source.join).2 ∧
        v.database = s₄.database) s₄ := performs_prepareInlineSecret
  have hs : s₄.secrets = s.secrets := hsecrets'.trans hsecrets
  rw [hs] at hprepare
  apply hprepare.bind
  intro columns s₅ h₅
  rw [h₅.1]
  have hexecute : Performs (execute sqliteRepositoryError (.upsertConnection row)) [.write (.upsertConnection row)]
      (fun _ u => u.database.connections.HasKey id) s₅ := by
    apply performs_execute
    intro d hd
    rw [store_database]
    exact hasKey_upsertConnection hd
  apply hexecute.bind
  exact fun _ _ hkey => performs_connectionGet hkey

theorem performs_connectionUpsert {input : ConnectionProfileInput} :
    Performs (connectionUpsert draws input now) (connectionUpsertPlan draws input now s) (fun _ _ => True) s := by
  unfold connectionUpsert connectionUpsertPlan
  apply Performs.get_bind
  cases hvalid : validateProfileInput s.family input with
  | error e => exact .refuse rfl
  | ok validated =>
    apply Performs.lift_bind
    by_cases hinvalid : (validated.id.isSome && (Text.trimOptional input.sourceConnectionId).isSome) = true
    · simp only [if_pos hinvalid]
      exact .refuse rfl
    · simp only [if_neg hinvalid,append_assoc]
      exact .lift_bind (performs_saveConnection rfl)

theorem performs_executeDelete :
    Performs (executeDelete error statement) [.write statement]
      (fun n _ => n = deleted s.database.toTables statement) s := by
  have hexecute : Performs (execute error statement) [.write statement] (fun _ _ => True) s :=
    performs_execute fun _ _ => trivial
  constructor
  · intro n t h
    unfold executeDelete at h
    split at h <;> cases h
    exact ⟨rfl,(hexecute.ok ‹_›).2⟩
  · intro e t h
    unfold executeDelete at h
    split at h <;> cases h
    exact hexecute.error ‹_›

theorem length_filter_ne_zero {ρ : Type} {rows : List ρ} {keep : ρ → Bool} {row : ρ} (h : row ∈ rows)
    (hkeep : keep row = true) : (rows.filter keep).length ≠ 0 := by
  intro hlength
  have hnil := length_eq_zero_iff.mp hlength
  have hmem : row ∈ rows.filter keep := mem_filter.mpr ⟨h,hkeep⟩
  rw [hnil] at hmem
  cases hmem

/-- The end of both deletions: a row that was there is deleted, and then its secret. -/
theorem performs_delete (statement : Statement) (missing : AppError) (reference : Option SecretReference)
    (hdeleted : deleted s.database.toTables statement ≠ 0) :
    Performs (do
        let changed ← executeDelete sqliteRepositoryError statement
        lift (if changed = 0 then .error missing else .ok ())
        deleteReferenced reference)
      (.write statement :: deletePlan (reference.map (·.account))) (fun _ _ => True) s := by
  apply performs_executeDelete.bind (p := [.write statement])
  rintro _ t rfl
  simp only [if_neg hdeleted]
  exact .lift_bind (performs_deleteReferenced reference)

theorem performs_connectionDelete : Performs (connectionDelete id) (connectionDeletePlan id s) (fun _ _ => True) s := by
  unfold connectionDelete connectionDeletePlan
  cases hrow : s.database.connections.find? id with
  | none => exact (performs_storedConnection_missing hrow).bind_nil fun _ _ h => h.elim
  | some row =>
    have hfound := Table.find?_eq_some_iff.mp hrow
    have hreference : (inlineReference row).map (·.account) = row.inlineSecretRef := by
      simp [inlineReference,Function.comp_def]
    apply (performs_storedConnection hrow).bind (p := [.read])
    rintro _ _ ⟨rfl,rfl⟩
    have hdelete := performs_delete (s := s.advance) (.deleteConnection id) (connectionMissing id) (inlineReference row)
      (length_filter_ne_zero hfound.1 (decide_eq_true hfound.2))
    rwa [hreference] at hdelete

theorem performs_credentialUpsert {input : CredentialProfileInput} :
    Performs (credentialUpsert draws input now) (credentialUpsertPlan draws input now s) (fun _ _ => True) s := by
  unfold credentialUpsert credentialUpsertPlan
  cases hvalid : validateCredentialInput input with
  | error e => exact .refuse rfl
  | ok validated =>
    apply Performs.lift_bind
    simp only [append_assoc]
    apply performs_query_bind
    apply performs_query_bind
    apply performs_prepareCredentialSecret.bind
    intro columns s₃ h₃
    rw [h₃.1]
    have hexecute (row : CredentialRow) : Performs (execute sqliteRepositoryError (.upsertCredential row))
        [.write (.upsertCredential row)] (fun _ u => u.database.credentials.HasKey row.id) s₃ := by
      apply performs_execute
      intro d hd
      rw [store_database]
      exact hasKey_upsertCredential hd
    apply (hexecute _).bind
    exact fun _ _ hkey => performs_credentialGet hkey

theorem performs_credentialDelete : Performs (credentialDelete id) (credentialDeletePlan id s) (fun _ _ => True) s := by
  unfold credentialDelete credentialDeletePlan
  by_cases hused : ∃ row ∈ s.database.connections.rows, row.credentialId = some id
  · rw [if_pos hused]
    apply performs_query_bind
    obtain ⟨row,hrow,hid⟩ := hused
    have hne : (s.database.connections.rows.filter fun row => row.credentialId = some id).map (·.name) ≠ [] := by
      intro hnil
      rw [map_eq_nil_iff] at hnil
      exact length_filter_ne_zero hrow (decide_eq_true hid) (congrArg List.length hnil)
    simp only [if_neg hne]
    exact .refuse rfl
  · rw [if_neg hused]
    have hnil : (s.database.connections.rows.filter fun row => row.credentialId = some id).map (·.name) = [] := by
      rw [map_eq_nil_iff,filter_eq_nil_iff]
      intro row hrow hid
      exact hused ⟨row,hrow,of_decide_eq_true hid⟩
    cases hrow : s.database.credentials.find? id with
    | none =>
      apply performs_query_bind
      simp only [if_pos hnil]
      have hmissing : Performs (storedCredential id) [.read,.refuse] (fun _ _ => False) s.advance :=
        performs_missing (by rw [advance_database,hrow]; rfl)
      exact .lift_bind (hmissing.bind_nil fun _ _ h => h.elim)
    | some row =>
      have hfound := Table.find?_eq_some_iff.mp hrow
      have hreference : (credentialReference row).map (·.account) = row.secretRef := by
        simp [credentialReference,Function.comp_def]
      apply performs_query_bind
      simp only [if_pos hnil]
      have hstored : Performs (storedCredential id) [.read]
          (fun stored t => stored = (rowToCredentialProfile row,credentialReference row) ∧ t = s.advance.advance)
          s.advance := performs_found (by rw [advance_database,hrow]; rfl)
      apply Performs.lift_bind
      apply hstored.bind
      rintro _ _ ⟨rfl,rfl⟩
      have hdelete := performs_delete (s := s.advance.advance) (.deleteCredential id) (credentialGone id)
        (credentialReference row)
        (length_filter_ne_zero hfound.1 (decide_eq_true hfound.2))
      rwa [hreference] at hdelete

/-- Every command makes the calls of its plan. -/
theorem performs_run (command : Command) : Performs command.run (plan s command) (fun _ _ => True) s := by
  cases command with
  | connectionUpsert draws input now =>
    exact performs_connectionUpsert.bind_nil fun _ _ _ => .pure trivial
  | credentialUpsert draws input now =>
    exact performs_credentialUpsert.bind_nil fun _ _ _ => .pure trivial
  | connectionDelete id => exact performs_connectionDelete
  | credentialDelete id => exact performs_credentialDelete

end Mxterm.CommandPlans
