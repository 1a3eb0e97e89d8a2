import Mxterm.VaultStore
import Mxterm.WriteThrough

/-! What is left of calls to the vault that fail to write it. -/
namespace Mxterm.Vault

open Execution WriteThrough

variable {β : Type} {L : Libraries β}

inductive Call (L : Libraries β)
  | set (reference : SecretReference) (secret : String) (draw : Draw L)
  | delete (reference : SecretReference) (draw : Draw L)

namespace Call

def perform : Call L → EStateM AppError (Held L) Unit
  | .set reference secret draw => setSecret reference secret draw
  | .delete reference draw => deleteSecret reference draw

def change : Call L → Secrets → Secrets
  | .set reference secret _, secrets => secrets.insert reference.account secret
  | .delete reference _, secrets => secrets.erase reference.account

def draw : Call L → Draw L
  | .set _ _ draw => draw
  | .delete _ draw => draw

def succeeds (c : Call L) (s : Held L) : Bool :=
  match c.perform s with
  | .ok _ _ => true
  | .error _ _ => false

/-- It asks for the secret that is there, or to delete one that is not there. -/
def Repeats (store : VaultSecretStore L) : Call L → Prop
  | .set reference secret _ => getSecret store reference = .ok secret
  | .delete reference _ => getSecret store reference = .error (StorageRepository.secretMissing reference.account)

end Call

def runCalls (s : Held L) (calls : List (Call L)) : Held L := calls.foldl (fun s c => after c.perform s) s

/-- The calls of a run that succeed. -/
def successful (s : Held L) : List (Call L) → List (Call L)
  | [] => []
  | c :: calls =>
    if c.succeeds s then c :: successful (after c.perform s) calls else successful (after c.perform s) calls

/-- A store that some calls have changed. -/
def executed (store : VaultSecretStore L) (calls : List (Call L)) : VaultSecretStore L :=
  calls.foldl (fun store c => store.withSecrets (c.change store.secrets)) store

section
variable {masterPassword : String} {store : VaultSecretStore L} {s : Held L} {stored : Secrets}

theorem getSecret_ok {reference : SecretReference} {secret : String} :
    getSecret store reference = .ok secret ↔ store.secrets.lookup reference.account = some secret := by
  unfold getSecret
  cases store.secrets.lookup reference.account <;> simp

theorem getSecret_missing {reference : SecretReference} :
    getSecret store reference = .error (StorageRepository.secretMissing reference.account) ↔
      store.secrets.lookup reference.account = none := by
  unfold getSecret
  cases store.secrets.lookup reference.account <;> simp

/-- Two stores that answer alike hold the same secrets. -/
theorem getSecret_ext {store' : VaultSecretStore L} :
    (∀ reference, getSecret store reference = getSecret store' reference) ↔ store.secrets = store'.secrets := by
  constructor
  · intro h
    apply Finmap.ext_lookup
    intro account
    let reference : SecretReference := ⟨vaultService,account,account,.password⟩
    cases hlookup : store.secrets.lookup account with
    | some secret => exact (getSecret_ok.mp ((h reference).symm.trans (getSecret_ok.mpr hlookup))).symm
    | none => exact (getSecret_missing.mp ((h reference).symm.trans (getSecret_missing.mpr hlookup))).symm
  · intro h reference
    unfold getSecret
    rw [h]

theorem insert_eq_self {secrets : Secrets} {account secret : String} :
    secrets.insert account secret = secrets ↔ secrets.lookup account = some secret := by
  constructor
  · intro h
    rw [← h,Finmap.lookup_insert]
  · intro h
    apply Finmap.ext_lookup
    intro other
    by_cases heq : other = account
    · rw [heq,Finmap.lookup_insert,h]
    · rw [Finmap.lookup_insert_of_ne _ heq]

theorem erase_eq_self {secrets : Secrets} {account : String} :
    secrets.erase account = secrets ↔ secrets.lookup account = none := by
  constructor
  · intro h
    rw [← h,Finmap.lookup_erase]
  · intro h
    apply Finmap.ext_lookup
    intro other
    by_cases heq : other = account
    · rw [heq,Finmap.lookup_erase,h]
    · rw [Finmap.lookup_erase_ne heq]

theorem repeats_iff (c : Call L) : c.Repeats store ↔ c.change store.secrets = store.secrets := by
  cases c with
  | set reference secret draw => exact getSecret_ok.trans insert_eq_self.symm
  | delete reference draw => exact getSecret_missing.trans erase_eq_self.symm

/-! ### The memory and the file -/

theorem perform_eq (c : Call L) (s : Held L) :
    c.perform s = persist c.draw { s with store := s.store.withSecrets (c.change s.store.secrets) } := by
  cases c <;> rfl

theorem perform_cases (c : Call L) (s : Held L) : ∃ files,
    (after c.perform s = ⟨s.store.withSecrets (c.change s.store.secrets),files⟩) ∧
    (c.succeeds s = true → ∃ before,
      persistLocked (s.store.withSecrets (c.change s.store.secrets)) c.draw before = .ok () files) ∧
    (c.succeeds s = false → files.file = s.files.file) := by
  unfold Call.succeeds after
  rw [perform_eq,persist]
  cases hpersist : persistLocked (s.store.withSecrets (c.change s.store.secrets)) c.draw s.files with
  | ok _ files => exact ⟨files,rfl,fun _ => ⟨s.files,hpersist⟩,nofun⟩
  | error e files => exact ⟨files,rfl,nofun,fun _ => persistLocked_error hpersist⟩

/-- The store has its first key and salt, and what it holds and what its file holds are the two copies. -/
structure Mirrors (masterPassword : String) (store : VaultSecretStore L) (s : Held L) (copies : Copies Secrets) :
    Prop where
  store : s.store = store.withSecrets copies.memory
  synced : Synced L masterPassword s.store s.files copies.stored

def Call.write (c : Call L) (s : Held L) : Write Secrets := ⟨c.change,c.succeeds s⟩

theorem Mirrors.perform (hL : L.RoundTrips) {copies : Copies Secrets}
    (h : Mirrors masterPassword store s copies) (c : Call L) :
    Mirrors masterPassword store (after c.perform s) (copies.write (c.write s)) := by
  obtain ⟨files,hafter,hsuccess,hfailure⟩ := perform_cases c s
  have hmemory : s.store.secrets = copies.memory := by
    rw [h.store]
    rfl
  have hopens : Opens L masterPassword (s.store.withSecrets (c.change s.store.secrets)) :=
    ⟨h.synced.opens.derives,h.synced.opens.kdf⟩
  rw [hafter]
  constructor
  · rw [h.store]
    rfl
  · cases hsucceeds : c.succeeds s with
    | true =>
      obtain ⟨before,hpersist⟩ := hsuccess hsucceeds
      have hsynced := synced_of_persist hL hopens hpersist
      rw [Copies.write,Call.write,if_pos hsucceeds,← hmemory]
      exact hsynced
    | false =>
      rw [Call.write,hsucceeds]
      refine ⟨hopens,?_⟩
      rw [hfailure hsucceeds]
      exact h.synced.reads

/-- The writes of a run of calls. -/
def trace (s : Held L) : List (Call L) → List (Write Secrets)
  | [] => []
  | c :: calls => c.write s :: trace (after c.perform s) calls

theorem Mirrors.runCalls (hL : L.RoundTrips) {copies : Copies Secrets}
    (h : Mirrors masterPassword store s copies) (calls : List (Call L)) :
    Mirrors masterPassword store (runCalls s calls) (copies.run (trace s calls)) := by
  induction calls generalizing s copies with
  | nil => exact h
  | cons c calls ih => exact ih (h.perform hL c)

theorem trace_take (s : Held L) (calls : List (Call L)) (n : ℕ) : trace s (calls.take n) = (trace s calls).take n := by
  induction calls generalizing s n with
  | nil => simp [trace]
  | cons c calls ih =>
    cases n with
    | zero => rfl
    | succ n => rw [List.take_succ_cons,trace,trace,List.take_succ_cons,ih]

theorem getElem?_trace (s : Held L) (calls : List (Call L)) (n : ℕ) :
    (trace s calls)[n]? = calls[n]?.map fun c => c.write (runCalls s (calls.take n)) := by
  induction calls generalizing s n with
  | nil => simp [trace]
  | cons c calls ih =>
    cases n with
    | zero => rfl
    | succ n => exact ih (after c.perform s) n

theorem executed_successful (s : Held L) (calls : List (Call L)) (store : VaultSecretStore L) :
    executed store (successful s calls) = store.withSecrets (replay store.secrets (trace s calls)) := by
  induction calls generalizing s store with
  | nil => rfl
  | cons c calls ih =>
    rw [successful,trace,Call.write]
    cases hsucceeds : c.succeeds s with
    | true =>
      exact ih _ _
    | false =>
      exact ih _ _

/-- After some calls every secret is as it is for a store that made the successful ones only, and the file is read as
that too. -/
structure Invisible (masterPassword : String) (s : Held L) (calls : List (Call L)) : Prop where
  kept : ∀ reference, getSecret (runCalls s calls).store reference =
    getSecret (executed s.store (successful s calls)) reference
  reopened : ∀ opening : OpenDraw L, opening.createDirectory = none → ∃ store files,
    openVault L opening masterPassword (runCalls s calls).files = .ok store files ∧
      ∀ reference, getSecret store reference = getSecret (executed s.store (successful s calls)) reference

theorem invisible_iff (hL : L.RoundTrips) (h : Mirrors masterPassword s.store s (Copies.of s.store.secrets))
    (calls : List (Call L)) : Invisible masterPassword s calls ↔ Faithful s.store.secrets (trace s calls) := by
  have hrun := h.runCalls hL calls
  have hmemory : (runCalls s calls).store.secrets =
      ((Copies.of s.store.secrets).run (trace s calls)).memory := by
    rw [hrun.store]
    rfl
  have hopen : ∀ opening : OpenDraw L, opening.createDirectory = none →
      openVault L opening masterPassword (runCalls s calls).files =
        .ok ((runCalls s calls).store.withSecrets ((Copies.of s.store.secrets).run (trace s calls)).stored)
          (runCalls s calls).files :=
    fun opening hcreate => openVault_of_synced hrun.synced hcreate
  constructor
  · intro hinvisible
    constructor
    · rw [← hmemory,getSecret_ext.mp hinvisible.kept,executed_successful]
      rfl
    · obtain ⟨store,files,hstore,hsame⟩ := hinvisible.reopened ⟨none,.error "",⟨.error "",{}⟩⟩ rfl
      rw [hopen _ rfl] at hstore
      cases hstore
      have hsecrets := getSecret_ext.mp hsame
      rwa [executed_successful] at hsecrets
  · intro hfaithful
    constructor
    · rw [getSecret_ext,hmemory,hfaithful.memory,executed_successful]
      rfl
    · intro opening hcreate
      refine ⟨_,_,hopen opening hcreate,?_⟩
      rw [getSecret_ext,hfaithful.stored,executed_successful]
      rfl

end

/-- Calls that fail leave no trace, neither in the memory nor on the disk, when each of them asks for what is there. -/
theorem failed_calls_invisible (hL : L.RoundTrips) {opening : OpenDraw L} {masterPassword : String}
    {files files' : Files β} {store : VaultSecretStore L}
    (hopen : openVault L opening masterPassword files = .ok store files') (calls : List (Call L)) :
    (∀ n, Invisible masterPassword ⟨store,files'⟩ (calls.take n)) ↔
      ∀ n (c : Call L), calls[n]? = some c → c.succeeds (runCalls ⟨store,files'⟩ (calls.take n)) = false →
        c.Repeats (runCalls ⟨store,files'⟩ (calls.take n)).store := by
  have hstart : Mirrors masterPassword store ⟨store,files'⟩ (Copies.of store.secrets) :=
    ⟨rfl,synced_of_openVault hL hopen⟩
  have hfaithful : (∀ n, Invisible masterPassword ⟨store,files'⟩ (calls.take n)) ↔
      Vacuous store.secrets (trace ⟨store,files'⟩ calls) := by
    rw [← faithful_iff]
    apply forall_congr'
    intro n
    rw [invisible_iff hL hstart,trace_take]
  have hmemory : ∀ n, ((Copies.of store.secrets).run ((trace ⟨store,files'⟩ calls).take n)).memory =
      (runCalls ⟨store,files'⟩ (calls.take n)).store.secrets := by
    intro n
    rw [(hstart.runCalls hL (calls.take n)).store,trace_take]
    rfl
  rw [hfaithful]
  apply forall_congr'
  intro n
  rw [getElem?_trace,hmemory]
  constructor
  · intro h c hc hfails
    exact (repeats_iff c).mpr (h (c.write _) (by rw [hc]; rfl) hfails)
  · intro h w hw hfails
    obtain ⟨c,hc,rfl⟩ := Option.map_eq_some_iff.mp hw
    exact (repeats_iff c).mp (h c hc hfails)

/-- Where there is no file yet. -/
def newOpening : OpenDraw symbolic where
  salt := .ok ⟨.random 16,rfl⟩
  draw := ⟨.ok ⟨.random 12,rfl⟩,{}⟩

/-- The new vault of the password "m". -/
def newVault : VaultSecretStore symbolic × Files Bytes :=
  (⟨.key "m",{},⟨.random 16,rfl⟩,⟨1,∅⟩⟩,
    ⟨some (.envelope ⟨1,{},"aes-256-gcm",.random 16,.random 12,.encrypted "m" (.plaintext ⟨1,∅⟩)⟩),none⟩)

/-- A write that finds no room for its temporary file. -/
def refused : Call symbolic := .set ⟨"mxterm","a","a",.password⟩ "s" ⟨.ok
    ⟨.random 12,rfl⟩,{ temporary := some "no space" }⟩

theorem newVault_opens : openVault symbolic newOpening "m" ⟨none,none⟩ = .ok newVault.1 newVault.2 := rfl

theorem failed_calls_invisible_new :
    (∀ n, Invisible "m" ⟨newVault.1,newVault.2⟩ ([refused].take n)) ↔
      ∀ n (c : Call symbolic), [refused][n]? = some c →
        c.succeeds (runCalls ⟨newVault.1,newVault.2⟩ ([refused].take n)) = false →
        c.Repeats (runCalls ⟨newVault.1,newVault.2⟩ ([refused].take n)).store :=
  failed_calls_invisible symbolic_roundTrips newVault_opens [refused]

/-- A secret that could not be written is read. -/
theorem refused_secret_read :
    ¬ ∀ (opening : OpenDraw symbolic) (masterPassword : String) (files files' : Files Bytes)
      (store : VaultSecretStore symbolic), openVault symbolic opening masterPassword files = .ok store files' →
      ∀ calls, Invisible masterPassword ⟨store,files'⟩ calls := by
  intro h
  have hkept := (h newOpening "m" ⟨none,none⟩ newVault.2 newVault.1 newVault_opens [refused]).kept
    ⟨"mxterm","a","a",.password⟩
  cases hkept

end Mxterm.Vault
