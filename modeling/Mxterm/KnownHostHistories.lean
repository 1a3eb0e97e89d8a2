import Mxterm.KnownHosts

/-! What the two stores know about a host after a history. -/
namespace Mxterm.KnownHosts

open Execution StorageRepository RepositoryCommands SyncRepository

variable {e : Surroundings} {s t : StorageRepository} {info : HostKeyInfo} {host : String} {port : UInt16}

/-! ## One call -/

theorem store_idle (h : s.transaction = none) (d : Database) : (s.store d).transaction = none := by
  simp [store,h]

variable {now : String}

theorem knownHostTrust_ok {entry : KnownHostEntry} (h : knownHostTrust e info now s = .ok entry t)
    (hidle : s.transaction = none) :
    t.transaction = none ∧ ∃ row : KnownHostRow,
      row.key = (normalizeKnownHostHost e info.host,info.port,info.keyAlgorithm) ∧
      row.fingerprintSha256 = info.fingerprintSha256 ∧
      t.database.knownHosts = s.database.knownHosts.put row := by
  simp only [knownHostTrust,bind_ok,query_ok,execute_ok,pure_ok] at h
  obtain ⟨first,u,⟨-,-,rfl⟩,_,v,⟨-,d,hexec,rfl⟩,-,rfl⟩ := h
  have htables := Database.exec_ok_iff.mp hexec
  set row := knownHostRow e info (first.getD now) now
  refine ⟨store_idle (by simpa using hidle) d,
    Tables.excludedKnownHost row (s.database.knownHosts.find? row.key),?_,?_,?_⟩
  · rfl
  · rfl
  · rw [store_database]
    exact (congrArg Tables.knownHosts (Except.ok.inj htables)).symm

theorem execute_error {error : String → AppError} {statement : Statement} {cause : AppError}
    (h : execute error statement s = .error cause t) : t = s.advance := by
  unfold execute at h
  split at h
  · exact (EStateM.Result.error.inj h).2.symm
  · split at h
    · exact (EStateM.Result.error.inj h).2.symm
    · cases h

/-- A call that fails has changed nothing. -/
theorem knownHostTrust_error {cause : AppError} (h : knownHostTrust e info now s = .error cause t) :
    ∃ n, t = s.ticks n := by
  simp only [knownHostTrust,bind_error,query_error,query_ok,pure_not_error,and_false,exists_false,or_false] at h
  rcases h with ⟨-,rfl⟩ | ⟨_,u,⟨-,-,rfl⟩,h⟩
  · exact ⟨1,rfl⟩
  · obtain rfl := execute_error h
    exact ⟨2,ticks_ticks s 1 1⟩

theorem knownHostCheck_ok {answer : KnownHostCheck} (h : knownHostCheck e host port info s = .ok answer t) :
    answer = .ofEntry info ((s.database.knownHosts.find?
      (normalizeKnownHostHost e host,port,info.keyAlgorithm)).map knownHostEntry) := by
  simp only [knownHostCheck,bind_ok,query_ok,pure_ok] at h
  obtain ⟨_,_,⟨-,rfl,-⟩,rfl,-⟩ := h
  rfl

/-! ## The table after a history -/

/-- No transaction is open, and the table holds the fingerprints last trusted. -/
structure Recorded (e : Surroundings) (events : List KnownHostEvent) (s : StorageRepository) : Prop where
  idle : s.transaction = none
  agrees : ∀ host port keyAlgorithm,
    (s.database.knownHosts.find? (host,port,keyAlgorithm)).map (·.fingerprintSha256) =
      lastTrusted (keysOf e events) host port keyAlgorithm

variable {events : List KnownHostEvent}

theorem Recorded.ticks (h : Recorded e events s) (n : ℕ) : Recorded e events (s.ticks n) :=
  ⟨h.idle,h.agrees⟩

theorem lastTrusted_cons (key : HostKey) (keys : List HostKey) (host : String) (port : UInt16)
    (keyAlgorithm : String) :
    lastTrusted (key :: keys) host port keyAlgorithm =
      if key.host = host ∧ key.port = port ∧ key.keyAlgorithm = keyAlgorithm then some key.fingerprint
      else lastTrusted keys host port keyAlgorithm := by
  rw [lastTrusted]
  by_cases h : key.host = host ∧ key.port = port ∧ key.keyAlgorithm = keyAlgorithm
  · simp [h]
  · simp [h,lastTrusted]

theorem Recorded.trusted {entry : KnownHostEntry} (h : Recorded e events s)
    (htrust : knownHostTrust e info now s = .ok entry t) : Recorded e (.trusted info now :: events) t := by
  obtain ⟨hidle,row,hkey,hfingerprint,hput⟩ := knownHostTrust_ok htrust h.idle
  constructor
  · exact hidle
  · intro host port keyAlgorithm
    rw [hput,Table.find?_put,hkey,keysOf,lastTrusted_cons]
    by_cases hsame : (host,port,keyAlgorithm) =
        (normalizeKnownHostHost e info.host,info.port,info.keyAlgorithm)
    · obtain ⟨rfl,hrest⟩ := Prod.mk.inj hsame
      cases hrest
      simp [hostKey,hfingerprint]
    · have hother : ¬((hostKey e info).host = host ∧ (hostKey e info).port = port ∧
          (hostKey e info).keyAlgorithm = keyAlgorithm) := by
        rintro ⟨rfl,rfl,rfl⟩
        exact hsame rfl
      rw [if_neg hsame,if_neg hother]
      exact h.agrees host port keyAlgorithm

theorem find?_importedRows (entries : List KnownHostEntry) (host : String) (port : UInt16) (keyAlgorithm : String) :
    ((entries.map (knownHostRowOf e)).find? fun row => row.key = (host,port,keyAlgorithm)).map
        (·.fingerprintSha256) =
      lastTrusted (entries.map (importedKey e)) host port keyAlgorithm := by
  induction entries with
  | nil => rfl
  | cons entry entries ih =>
    rw [List.map_cons,List.map_cons,lastTrusted_cons,← ih]
    by_cases h : (importedKey e entry).host = host ∧ (importedKey e entry).port = port ∧
        (importedKey e entry).keyAlgorithm = keyAlgorithm
    · obtain ⟨rfl,rfl,rfl⟩ := h
      simp [KnownHostRow.key,knownHostRowOf,importedKey]
    · have hkey : ¬(knownHostRowOf e entry).key = (host,port,keyAlgorithm) := by
        intro hkey
        obtain ⟨hhost,hrest⟩ := Prod.mk.inj hkey
        exact h ⟨hhost,Prod.mk.inj hrest⟩
      simp [h,hkey]

theorem Recorded.imported {data : SyncDataDocument} {restoreSecretRefs : Bool} {stats : SyncRepositoryImportStats}
    (himport : replaceSyncData e data restoreSecretRefs s = .ok stats t) :
    Recorded e (.imported data restoreSecretRefs :: events) t := by
  obtain ⟨-,-,-,d,hholds,rfl⟩ := replaceSyncDataInner_ok.mp (replaceSyncData_ok.mp himport)
  constructor
  · rfl
  · intro host port keyAlgorithm
    have hrows := find?_importedRows (e := e) data.knownHosts host port keyAlgorithm
    rw [← hholds.knownHosts] at hrows
    exact hrows

theorem History.recorded (h : History e events s) : Recorded e events s := by
  induction h with
  | empty faults family => exact ⟨rfl,fun _ _ _ => rfl⟩
  | succeeded event _ hrun ih =>
    cases event with
    | trusted info now =>
      simp only [KnownHostEvent.run,bind_ok,pure_ok] at hrun
      obtain ⟨entry,_,htrust,-,rfl⟩ := hrun
      exact ih.trusted htrust
    | imported data restoreSecretRefs =>
      simp only [KnownHostEvent.run,bind_ok,pure_ok] at hrun
      obtain ⟨stats,_,himport,-,rfl⟩ := hrun
      exact Recorded.imported himport
  | failed event error _ hrun ih =>
    cases event with
    | trusted info now =>
      simp only [KnownHostEvent.run,bind_error,pure_not_error,and_false,exists_false,or_false] at hrun
      obtain ⟨n,rfl⟩ := knownHostTrust_error hrun
      exact ih.ticks n
    | imported data restoreSecretRefs =>
      simp only [KnownHostEvent.run,bind_error,pure_not_error,and_false,exists_false,or_false] at hrun
      obtain ⟨hdatabase,-,hidle⟩ := replaceSyncData_error ih.idle hrun
      exact ⟨hidle,by rw [hdatabase]; exact ih.agrees⟩

/-! ## The older store after the same keys -/

/-- The first entry with a key is replaced where it stands, or the new entry goes to the end. -/
theorem find?_replaced {α κ : Type} [DecidableEq κ] (key : α → κ) (items : List α) (item : α) (own : κ)
    (hown : key item = own) (k : κ) :
    ((match items.findIdx? fun other => key other = own with
      | some index => items.set index item
      | none => items ++ [item]).find? fun other => key other = k) =
      if own = k then some item else items.find? fun other => key other = k := by
  subst hown
  induction items with
  | nil => by_cases h : key item = k <;> simp [h]
  | cons first items ih =>
    rw [List.findIdx?_cons]
    by_cases hfirst : key first = key item
    · by_cases h : key item = k
      · simp [hfirst,h]
      · simp [hfirst,h]
    · rw [if_neg (by simpa using hfirst)]
      by_cases h : key first = k
      · have hne : key item ≠ k := fun hitem => hfirst (h.trans hitem.symm)
        cases items.findIdx? fun other => decide (key other = key item) with
        | none | some => simp [h,hne]
      · rw [List.find?_cons_of_neg (by simpa using h),← ih]
        cases items.findIdx? fun other => decide (key other = key item) with
        | none | some => simp [h]

theorem find_trust (store : KnownHostStore) (fresh : String) (now : String) :
    ((store.trust fresh info now).find host port).map (·.fingerprintSha256) =
      if info.host = Text.trim host ∧ info.port = port then some info.fingerprintSha256
      else (store.find host port).map (·.fingerprintSha256) := by
  have hplace : ∀ (name : String) (number : UInt16),
      (fun entry : KnownHostEntry => decide (entry.host = name ∧ entry.port = number)) =
        fun entry => decide ((entry.host,entry.port) = (name,number)) := by
    simp
  have hreplaced := fun existing => find?_replaced (fun entry : KnownHostEntry => (entry.host,entry.port))
    store.entries (KnownHostStore.trustedEntry fresh info now existing) (info.host,info.port) rfl (Text.trim host,port)
  rw [KnownHostStore.trust,KnownHostStore.find,KnownHostStore.find,hplace,hplace]
  cases hindex : store.entries.findIdx? fun entry => decide ((entry.host,entry.port) = (info.host,info.port)) with
  | none =>
    have hnone := hreplaced none
    simp only [hindex] at hnone
    rw [hnone]
    by_cases h : info.host = Text.trim host ∧ info.port = port
    · rw [if_pos h,if_pos (Prod.ext h.1 h.2)]
      rfl
    · rw [if_neg h,if_neg (by simpa using h)]
  | some index =>
    have hsome := hreplaced store.entries[index]?
    simp only [hindex] at hsome
    rw [hsome]
    by_cases h : info.host = Text.trim host ∧ info.port = port
    · rw [if_pos h,if_pos (Prod.ext h.1 h.2)]
      rfl
    · rw [if_neg h,if_neg (by simpa using h)]

theorem find_olderStore (fresh : ℕ → String) (trusts : List (HostKeyInfo × String)) :
    ((olderStore fresh trusts).find host port).map (·.fingerprintSha256) = lastSpelled trusts host port := by
  induction trusts with
  | nil => rfl
  | cons trust trusts ih =>
    obtain ⟨info,now⟩ := trust
    rw [olderStore,find_trust,ih,lastSpelled,lastSpelled]
    by_cases h : info.host = Text.trim host ∧ info.port = port
    · simp [h]
    · simp [h]

/-! ## The law -/

theorem onRecord_of_lastTrusted {keys : List HostKey} {name : String} {keyAlgorithm : String}
    (h : (lastTrusted keys name port keyAlgorithm).isSome) : OnRecord keys name port := by
  induction keys with
  | nil => cases h
  | cons key keys ih =>
    rw [lastTrusted_cons] at h
    split_ifs at h with hkey
    · exact ⟨key,List.mem_cons_self,hkey.1,hkey.2.1⟩
    · obtain ⟨other,hmem,hother⟩ := ih h
      exact ⟨other,List.mem_cons_of_mem _ hmem,hother⟩

/-- Whatever a store finds, it follows the law when a host with a key on record is found, with the presented
fingerprint exactly when that is the one last trusted. -/
theorem law_iff (info : HostKeyInfo) {keys : List HostKey} {name : String} {found : Option KnownHostEntry}
    {fingerprint : Option String}
    (hfound : found.map (·.fingerprintSha256) = fingerprint)
    (hfresh : fingerprint.isSome → OnRecord keys name port) :
    Law keys name port info (KnownHostCheck.ofEntry info found).status ↔
      (OnRecord keys name port → fingerprint.isSome ∧ (fingerprint = some info.fingerprintSha256 ↔
        lastTrusted keys name port info.keyAlgorithm = some info.fingerprintSha256)) := by
  subst hfound
  cases found with
  | none =>
    constructor
    · intro h hrecord
      by_cases hlast : lastTrusted keys name port info.keyAlgorithm = some info.fingerprintSha256
      · cases h.trusted.mpr hlast
      · cases h.changed hrecord hlast
    · intro h
      have hnew : ¬OnRecord keys name port := fun hrecord => by cases (h hrecord).1
      constructor
      · constructor
        · exact nofun
        · intro hlast
          exact absurd (onRecord_of_lastTrusted (by rw [hlast]; rfl)) hnew
      · intro hrecord
        exact absurd hrecord hnew
  | some entry =>
    have hrecord := hfresh rfl
    by_cases hsame : entry.fingerprintSha256 = info.fingerprintSha256
    · rw [status_same hsame]
      constructor
      · intro h _
        exact ⟨rfl,by simpa [hsame] using h.trusted.mp rfl⟩
      · intro h
        have hlast := (h hrecord).2.mp (congrArg some hsame)
        exact ⟨by simpa using hlast,fun _ hne => absurd hlast hne⟩
    · rw [status_other hsame]
      constructor
      · intro h _
        simpa [hsame] using h.trusted
      · intro h
        have hlast := (h hrecord).2
        simp only [Option.map_some,Option.some.injEq,hsame,false_iff] at hlast
        exact ⟨by simpa using hlast,fun _ _ => rfl⟩

/-- What is on record under one spelling is on record for the host. -/
theorem onRecord_of_lastSpelled {trusts : List (HostKeyInfo × String)}
    (h : (lastSpelled trusts host port).isSome) :
    OnRecord (keysOf e (trusts.map fun trust => .trusted trust.1 trust.2)) (normalizeKnownHostHost e host) port := by
  induction trusts with
  | nil => cases h
  | cons trust trusts ih =>
    obtain ⟨info,now⟩ := trust
    by_cases hsame : info.host = Text.trim host ∧ info.port = port
    · have hname : normalizeKnownHostHost e info.host = normalizeKnownHostHost e host := by
        rw [normalizeKnownHostHost,normalizeKnownHostHost,hsame.1,Text.trim_trim]
      exact ⟨hostKey e info,List.mem_cons_self,hname,hsame.2⟩
    · rw [lastSpelled,List.find?_cons_of_neg (by simpa using hsame)] at h
      obtain ⟨key,hmem,hkey⟩ := ih h
      exact ⟨key,List.mem_cons_of_mem _ hmem,hkey⟩

/-- The stores recognise a host after a history exactly when a host with a key on record has one of the presented
algorithm, and the older store's key under the presented spelling agrees with it. -/
theorem recognised_iff {events : List KnownHostEvent} {answer : KnownHostCheck} (h : History e events s)
    (hcheck : knownHostCheck e host port info s = .ok answer t) :
    Recognised e events host port info answer ↔ SameAlgorithm e events host port info := by
  have hfound : ((s.database.knownHosts.find? (normalizeKnownHostHost e host,port,info.keyAlgorithm)).map
      knownHostEntry).map (·.fingerprintSha256) =
        lastTrusted (keysOf e events) (normalizeKnownHostHost e host) port info.keyAlgorithm := by
    rw [Option.map_map,← h.recorded.agrees]
    rfl
  have hrepository := law_iff info hfound onRecord_of_lastTrusted
  rw [← knownHostCheck_ok hcheck] at hrepository
  have holder : ∀ fresh trusts, events = trusts.map (fun trust => .trusted trust.1 trust.2) →
      (Law (keysOf e events) (normalizeKnownHostHost e host) port info
          ((olderStore fresh trusts).check host port info).status ↔
        (OnRecord (keysOf e events) (normalizeKnownHostHost e host) port → (lastSpelled trusts host port).isSome ∧
          (lastSpelled trusts host port = some info.fingerprintSha256 ↔
            lastTrusted (keysOf e events) (normalizeKnownHostHost e host) port info.keyAlgorithm =
              some info.fingerprintSha256))) := by
    intro fresh trusts htrusts
    apply law_iff info (find_olderStore fresh trusts)
    rw [htrusts]
    exact onRecord_of_lastSpelled
  constructor
  · intro hrecognised
    constructor
    · intro hrecord
      exact (hrepository.mp hrecognised.repository hrecord).1
    · intro trusts htrusts
      exact (holder (fun _ => "") trusts htrusts).mp (hrecognised.older _ trusts htrusts)
  · intro hsame
    constructor
    · exact hrepository.mpr fun hrecord => ⟨hsame.recorded hrecord,Iff.rfl⟩
    · intro fresh trusts htrusts
      exact (holder fresh trusts htrusts).mpr (hsame.spelled trusts htrusts)

/-! ## A server whose key is replaced by one of another algorithm -/

/-- Lower case on ASCII letters. -/
def asciiSurroundings : Surroundings where
  toLowercase := fun text => String.ofList (text.toList.map Char.toLower)
  currentTimestamp := fun _ => "2026-06-05T09:30:00+08:00"

def rsaKey : HostKeyInfo := ⟨"example.com",22,"ssh-rsa","SHA256:first","ssh-rsa AAAA"⟩

def ed25519Key : HostKeyInfo := ⟨"example.com",22,"ssh-ed25519","SHA256:second","ssh-ed25519 BBBB"⟩

def rsaTrusted : List KnownHostEvent := [.trusted rsaKey "2026-06-05T09:30:00+08:00"]

def rsaRepository : StorageRepository :=
  match KnownHostEvent.run asciiSurroundings (.trusted rsaKey "2026-06-05T09:30:00+08:00")
      (.empty (fun _ => none) .unix) with
  | .ok _ s => s
  | .error _ s => s

theorem rsa_history : History asciiSurroundings rsaTrusted rsaRepository :=
  .succeeded _ (.empty (fun _ => none) .unix) rfl

theorem rsaTrusted_eq {trusts : List (HostKeyInfo × String)}
    (h : rsaTrusted = trusts.map fun trust => .trusted trust.1 trust.2) :
    trusts = [(rsaKey,"2026-06-05T09:30:00+08:00")] := by
  cases trusts with
  | nil => cases h
  | cons trust trusts =>
    obtain ⟨hfirst,hrest⟩ := List.cons.inj h
    obtain ⟨hinfo,hnow⟩ := KnownHostEvent.trusted.inj hfirst
    have hpair : trust = (rsaKey,"2026-06-05T09:30:00+08:00") := Prod.ext hinfo.symm hnow.symm
    rw [hpair,List.map_eq_nil_iff.mp hrest.symm]

/-- The trusted key itself is recognised by both stores. -/
theorem trusted_key_recognised : ∃ answer,
    Recognised asciiSurroundings rsaTrusted "example.com" 22 rsaKey answer := by
  have hcheck : ∃ answer t, knownHostCheck asciiSurroundings "example.com" 22 rsaKey rsaRepository = .ok answer t :=
    ⟨_,_,rfl⟩
  obtain ⟨answer,t,hcheck⟩ := hcheck
  refine ⟨answer,(recognised_iff rsa_history hcheck).mpr ?_⟩
  constructor
  · intro _
    decide
  · intro trusts htrusts _
    rw [rsaTrusted_eq htrusts]
    decide

/-- The key of the other algorithm is offered as that of a new host. -/
theorem replaced_key_unknown : ∃ s t answer, History asciiSurroundings rsaTrusted s ∧
    knownHostCheck asciiSurroundings "example.com" 22 ed25519Key s = .ok answer t ∧
    ¬Recognised asciiSurroundings rsaTrusted "example.com" 22 ed25519Key answer := by
  refine ⟨rsaRepository,_,.unknown ed25519Key,rsa_history,rfl,?_⟩
  intro h
  have hrecord : OnRecord (keysOf asciiSurroundings rsaTrusted) (normalizeKnownHostHost asciiSurroundings
      "example.com") 22 := by decide
  have hlast : lastTrusted (keysOf asciiSurroundings rsaTrusted) (normalizeKnownHostHost asciiSurroundings
      "example.com") 22 "ssh-ed25519" ≠ some "SHA256:second" := by decide
  cases h.repository.changed hrecord hlast

end Mxterm.KnownHosts
