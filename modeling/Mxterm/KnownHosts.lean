import Mxterm.SyncReplacement

/-! Host keys the user has trusted: the repository's table, and the older store that kept a list in a file. -/
namespace Mxterm

open Execution StorageRepository RepositoryCommands SyncRepository

structure HostKeyInfo where
  host : String
  port : UInt16
  keyAlgorithm : String
  fingerprintSha256 : String
  publicKey : String
  deriving DecidableEq

inductive KnownHostCheck
  | trusted (entry : KnownHostEntry)
  | unknown (hostKey : HostKeyInfo)
  | changed (current : KnownHostEntry) (hostKey : HostKeyInfo)

/-- The comparison both stores make with the entry they find. -/
def KnownHostCheck.ofEntry (info : HostKeyInfo) : Option KnownHostEntry → KnownHostCheck
  | none => .unknown info
  | some entry => if entry.fingerprintSha256 = info.fingerprintSha256 then .trusted entry else .changed entry info

/-- The tag under which the answer is passed on. -/
inductive Verdict
  | trusted | unknown | changed
  deriving DecidableEq

def KnownHostCheck.status : KnownHostCheck → Verdict
  | .trusted _ => .trusted
  | .unknown _ => .unknown
  | .changed _ _ => .changed

theorem status_same {info : HostKeyInfo} {entry : KnownHostEntry}
    (h : entry.fingerprintSha256 = info.fingerprintSha256) :
    (KnownHostCheck.ofEntry info (some entry)).status = .trusted := by
  rw [KnownHostCheck.ofEntry,if_pos h]
  rfl

theorem status_other {info : HostKeyInfo} {entry : KnownHostEntry}
    (h : entry.fingerprintSha256 ≠ info.fingerprintSha256) :
    (KnownHostCheck.ofEntry info (some entry)).status = .changed := by
  rw [KnownHostCheck.ofEntry,if_neg h]
  rfl

/-! ## The table of the repository -/

namespace KnownHosts

def knownHostRow (e : Surroundings) (info : HostKeyInfo) (firstTrustedAt now : String) : KnownHostRow where
  host := normalizeKnownHostHost e info.host
  port := info.port
  keyAlgorithm := info.keyAlgorithm
  fingerprintSha256 := info.fingerprintSha256
  publicKey := info.publicKey
  firstTrustedAt := firstTrustedAt
  lastSeenAt := now

def knownHostTrust (e : Surroundings) (info : HostKeyInfo) (now : String) : Repo KnownHostEntry := do
  let host := normalizeKnownHostHost e info.host
  let existing ← query sqliteRepositoryError fun t =>
    (t.knownHosts.find? (host,info.port,info.keyAlgorithm)).map (·.firstTrustedAt)
  let row := knownHostRow e info (existing.getD now) now
  execute sqliteRepositoryError (.upsertKnownHost row)
  pure (knownHostEntry row)

def knownHostCheck (e : Surroundings) (host : String) (port : UInt16) (info : HostKeyInfo) :
    Repo KnownHostCheck := do
  let host := normalizeKnownHostHost e host
  let current ← query sqliteRepositoryError fun t => t.knownHosts.find? (host,port,info.keyAlgorithm)
  pure (.ofEntry info (current.map knownHostEntry))

end KnownHosts

/-! ## The older store -/

/-- The entries of the document; its file takes every change. -/
structure KnownHostStore where
  entries : List KnownHostEntry

namespace KnownHostStore

def empty : KnownHostStore := ⟨[]⟩

def find (store : KnownHostStore) (host : String) (port : UInt16) : Option KnownHostEntry :=
  store.entries.find? fun entry => entry.host = Text.trim host ∧ entry.port = port

def check (store : KnownHostStore) (host : String) (port : UInt16) (info : HostKeyInfo) : KnownHostCheck :=
  .ofEntry info (store.find host port)

/-- The entry keeps its identifier and the time of its first trust. -/
def trustedEntry (fresh : String) (info : HostKeyInfo) (now : String) (existing : Option KnownHostEntry) :
    KnownHostEntry where
  id := (existing.map (·.id)).getD fresh
  host := info.host
  port := info.port
  keyAlgorithm := info.keyAlgorithm
  fingerprintSha256 := info.fingerprintSha256
  publicKey := info.publicKey
  trustedAt := (existing.map (·.trustedAt)).getD now
  updatedAt := now

/-- The first entry of this host and port is replaced, or the new one is added behind the others. -/
def trust (store : KnownHostStore) (fresh : String) (info : HostKeyInfo) (now : String) : KnownHostStore :=
  match store.entries.findIdx? fun entry => entry.host = info.host ∧ entry.port = info.port with
  | some index => ⟨store.entries.set index (trustedEntry fresh info now store.entries[index]?)⟩
  | none => ⟨store.entries ++ [trustedEntry fresh info now none]⟩

end KnownHostStore

/-! ## Histories -/

namespace KnownHosts

inductive KnownHostEvent
  | trusted (info : HostKeyInfo) (now : String)
  | imported (data : SyncDataDocument) (restoreSecretRefs : Bool)

def KnownHostEvent.run (e : Surroundings) : KnownHostEvent → Repo Unit
  | .trusted info now => knownHostTrust e info now >>= fun _ => pure ()
  | .imported data restoreSecretRefs => replaceSyncData e data restoreSecretRefs >>= fun _ => pure ()

/-- The events that have succeeded, the newest first, and the repository they lead to. Any call may fail. -/
inductive History (e : Surroundings) : List KnownHostEvent → StorageRepository → Prop
  | empty (faults : ℕ → Option Fault) (family : X11Display.TargetFamily) : History e [] (.empty faults family)
  | succeeded {events : List KnownHostEvent} {s t : StorageRepository} (event : KnownHostEvent) :
      History e events s → event.run e s = .ok () t → History e (event :: events) t
  | failed {events : List KnownHostEvent} {s t : StorageRepository} (event : KnownHostEvent) (error : AppError) :
      History e events s → event.run e s = .error error t → History e events t

/-- A key on record: the normalised host, the port, the algorithm and the fingerprint. -/
structure HostKey where
  host : String
  port : UInt16
  keyAlgorithm : String
  fingerprint : String
  deriving DecidableEq

def hostKey (e : Surroundings) (info : HostKeyInfo) : HostKey :=
  ⟨normalizeKnownHostHost e info.host,info.port,info.keyAlgorithm,info.fingerprintSha256⟩

def importedKey (e : Surroundings) (entry : KnownHostEntry) : HostKey :=
  ⟨normalizeKnownHostHost e entry.host,entry.port,entry.keyAlgorithm,entry.fingerprintSha256⟩

/-- The keys that were trusted and not removed, the newest first: an import takes the place of all before it. -/
def keysOf (e : Surroundings) : List KnownHostEvent → List HostKey
  | [] => []
  | .trusted info _ :: events => hostKey e info :: keysOf e events
  | .imported data _ :: _ => data.knownHosts.map (importedKey e)

/-- The fingerprint last trusted for a host, a port and an algorithm. -/
def lastTrusted (keys : List HostKey) (host : String) (port : UInt16) (keyAlgorithm : String) : Option String :=
  (keys.find? fun key => key.host = host ∧ key.port = port ∧ key.keyAlgorithm = keyAlgorithm).map (·.fingerprint)

/-- Some key is on record for the host and the port. -/
def OnRecord (keys : List HostKey) (host : String) (port : UInt16) : Prop :=
  ∃ key ∈ keys, key.host = host ∧ key.port = port

instance (keys : List HostKey) (host : String) (port : UInt16) : Decidable (OnRecord keys host port) :=
  inferInstanceAs (Decidable (∃ key ∈ keys, key.host = host ∧ key.port = port))

/-- A key is trusted exactly when it is the last one trusted, and a host with a key on record does not look new. -/
structure Law (keys : List HostKey) (host : String) (port : UInt16) (info : HostKeyInfo) (verdict : Verdict) :
    Prop where
  trusted : verdict = .trusted ↔ lastTrusted keys host port info.keyAlgorithm = some info.fingerprintSha256
  changed : OnRecord keys host port → lastTrusted keys host port info.keyAlgorithm ≠ some info.fingerprintSha256 →
    verdict = .changed

/-- The older store after the keys were trusted in it, the newest first. -/
def olderStore (fresh : ℕ → String) : List (HostKeyInfo × String) → KnownHostStore
  | [] => .empty
  | (info,now) :: trusts => (olderStore fresh trusts).trust (fresh trusts.length) info now

/-- Both stores follow the law; the older one has seen no imports. -/
structure Recognised (e : Surroundings) (events : List KnownHostEvent) (host : String) (port : UInt16)
    (info : HostKeyInfo) (answer : KnownHostCheck) : Prop where
  repository : Law (keysOf e events) (normalizeKnownHostHost e host) port info answer.status
  older : ∀ fresh trusts, events = trusts.map (fun trust => .trusted trust.1 trust.2) →
    Law (keysOf e events) (normalizeKnownHostHost e host) port info
      ((olderStore fresh trusts).check host port info).status

/-- The fingerprint last trusted under one spelling of the host, of whatever algorithm. -/
def lastSpelled (trusts : List (HostKeyInfo × String)) (host : String) (port : UInt16) : Option String :=
  (trusts.find? fun trust => trust.1.host = Text.trim host ∧ trust.1.port = port).map (·.1.fingerprintSha256)

/-- A host with a key on record has one of the presented algorithm; and where all keys were trusted one by one, the
last one under the presented spelling agrees with it on the presented fingerprint. -/
structure SameAlgorithm (e : Surroundings) (events : List KnownHostEvent) (host : String) (port : UInt16)
    (info : HostKeyInfo) : Prop where
  recorded : OnRecord (keysOf e events) (normalizeKnownHostHost e host) port →
    (lastTrusted (keysOf e events) (normalizeKnownHostHost e host) port info.keyAlgorithm).isSome
  spelled : ∀ trusts, events = trusts.map (fun trust => .trusted trust.1 trust.2) →
    OnRecord (keysOf e events) (normalizeKnownHostHost e host) port →
    (lastSpelled trusts host port).isSome ∧
      (lastSpelled trusts host port = some info.fingerprintSha256 ↔
        lastTrusted (keysOf e events) (normalizeKnownHostHost e host) port info.keyAlgorithm =
          some info.fingerprintSha256)

end KnownHosts
end Mxterm
