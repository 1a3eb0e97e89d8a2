import Mathlib.Data.List.Nodup
import Mxterm.ConnectionTypes
import Mxterm.Transitions

/-! The registry of the transfers that run, by which a transfer is cancelled (`remote_files.rs`). -/
namespace Mxterm.RemoteFiles

open List

/-- A registration: the identifier under which a transfer can be cancelled, and its token. -/
structure TransferRegistration where
  transferId : Option String
  token : ℕ

/-- The map of the tokens that can be cancelled, and the flag of every token. -/
structure TransferRegistry where
  transfers : String → Option ℕ
  cancelled : ℕ → Bool

namespace TransferRegistry

def empty : TransferRegistry := ⟨fun _ => none,fun _ => false⟩

def registrationId (transferId : Option String) : Option String :=
  (transferId.map Text.trim).filter fun id => id ≠ ""

/-- `register_transfer`, for which a token is made. -/
def registerTransfer (registry : TransferRegistry) (registration : TransferRegistration) : TransferRegistry :=
  match registration.transferId with
  | none => registry
  | some id => { registry with transfers := Function.update registry.transfers id (some registration.token) }

def finish (registry : TransferRegistry) (registration : TransferRegistration) : TransferRegistry :=
  match registration.transferId with
  | none => registry
  | some id => { registry with transfers := Function.update registry.transfers id none }

def cancelTransfer (registry : TransferRegistry) (transferId : String) : TransferRegistry × Bool :=
  if Text.trim transferId = "" then (registry,false)
  else
    match registry.transfers (Text.trim transferId) with
    | some token => ({ registry with cancelled := Function.update registry.cancelled token true },true)
    | none => (registry,false)

end TransferRegistry

/-! ## Overlapping transfers -/

/-- The transfers that are registered and not finished, the newest first. -/
structure RunningTransfers where
  registry : TransferRegistry
  running : List TransferRegistration
  /-- The number of tokens that were made. -/
  tokens : ℕ

inductive TransferAction
  | register (transferId : Option String)
  | finish (registration : TransferRegistration)
  | cancel (transferId : String)

namespace RunningTransfers

def empty : RunningTransfers := ⟨.empty,[],0⟩

def register (s : RunningTransfers) (transferId : Option String) : RunningTransfers :=
  let registration := ⟨TransferRegistry.registrationId transferId,s.tokens⟩
  { registry := s.registry.registerTransfer registration
    running := registration :: s.running
    tokens := s.tokens + 1 }

def finish (s : RunningTransfers) (registration : TransferRegistration) : RunningTransfers :=
  { s with
    registry := s.registry.finish registration
    running := s.running.filter fun other => other.token ≠ registration.token }

def step (s : RunningTransfers) : TransferAction → Option RunningTransfers
  | .register transferId => some (s.register transferId)
  | .finish registration =>
    if s.running.any fun other => other.token = registration.token ∧ other.transferId = registration.transferId then
      some (s.finish registration)
    else none
  | .cancel transferId => some { s with registry := (s.registry.cancelTransfer transferId).1 }

/-- The newest transfer under an identifier. -/
def newest (s : RunningTransfers) (id : String) : Option TransferRegistration :=
  s.running.find? fun registration => registration.transferId = some id

/-- No transfer ends while another one runs under its identifier. -/
def Apart (s : RunningTransfers) : TransferAction → Prop
  | .finish registration => ∀ other ∈ s.running, other.token ≠ registration.token →
      registration.transferId ≠ none → other.transferId ≠ registration.transferId
  | _ => True

/-- A running transfer can be cancelled, and the newest one of an identifier is the one that is. -/
structure Cancellable (s : RunningTransfers) : Prop where
  running : ∀ registration ∈ s.running, ∀ transferId, registration.transferId = some (Text.trim transferId) →
    (s.registry.cancelTransfer transferId).2 = true
  newest : ∀ transferId registration, s.newest (Text.trim transferId) = some registration →
    (s.registry.cancelTransfer transferId).1.cancelled registration.token = true
  finished : ∀ id, (∀ registration ∈ s.running, registration.transferId ≠ some id) → s.registry.transfers id = none

/-- The registry has the token of the newest transfer of each identifier. -/
structure Registered (s : RunningTransfers) : Prop where
  newest : ∀ id, s.registry.transfers id = (s.newest id).map (·.token)
  fresh : ∀ registration ∈ s.running, registration.token < s.tokens
  tokens : (s.running.map (·.token)).Nodup
  nonempty : ∀ registration ∈ s.running, registration.transferId ≠ some ""

variable {s s' : RunningTransfers} {registration : TransferRegistration} {id : String}

theorem registrationId_ne_empty (transferId : Option String) :
    TransferRegistry.registrationId transferId ≠ some "" := by
  intro h
  rw [TransferRegistry.registrationId] at h
  simp at h

theorem registered_empty : Registered empty where
  newest _ := rfl
  fresh _ h := nomatch h
  tokens := nodup_nil
  nonempty _ h := nomatch h

theorem Registered.register (h : Registered s) (transferId : Option String) :
    Registered (s.register transferId) where
  newest id := by
    cases hid : TransferRegistry.registrationId transferId with
    | none => simpa [RunningTransfers.register,TransferRegistry.registerTransfer,RunningTransfers.newest,hid]
        using h.newest id
    | some other =>
      by_cases heq : other = id
      · simp [RunningTransfers.register,TransferRegistry.registerTransfer,RunningTransfers.newest,hid,heq]
      · have hne : id ≠ other := fun hid => heq hid.symm
        simpa [RunningTransfers.register,TransferRegistry.registerTransfer,RunningTransfers.newest,hid,heq,hne]
          using h.newest id
  fresh registration hmem := by
    rcases mem_cons.mp hmem with rfl | hmem
    · exact Nat.lt_succ_self _
    · exact (h.fresh registration hmem).trans (Nat.lt_succ_self _)
  tokens := by
    refine nodup_cons.mpr ⟨fun hmem => ?_,h.tokens⟩
    obtain ⟨registration,hmem,htoken⟩ := mem_map.mp hmem
    exact absurd (h.fresh registration hmem) (by simp [htoken])
  nonempty registration hmem := by
    rcases mem_cons.mp hmem with rfl | hmem
    · exact registrationId_ne_empty transferId
    · exact h.nonempty registration hmem

theorem find?_filter_of_imp {α : Type} {p q : α → Bool} {items : List α}
    (h : ∀ item ∈ items, p item = true → q item = true) : (items.filter q).find? p = items.find? p := by
  induction items with
  | nil => rfl
  | cons item items ih =>
    have hrest := ih fun other hother => h other (mem_cons_of_mem _ hother)
    by_cases hq : q item = true
    · rw [filter_cons_of_pos hq,find?_cons,find?_cons,hrest]
    · have hp : p item ≠ true := fun hp => hq (h item mem_cons_self hp)
      rw [filter_cons_of_neg hq,hrest,find?_cons_of_neg hp]

/-- Among transfers that were registered apart the identifier of the one that ends is free again. -/
theorem Registered.finish (h : Registered s)
    (hrunning : ∃ other ∈ s.running, other.token = registration.token ∧ other.transferId = registration.transferId)
    (hapart : s.Apart (.finish registration)) : Registered (s.finish registration) where
  newest id := by
    obtain ⟨own,hown,htoken,hid⟩ := hrunning
    have hsame : ∀ other ∈ s.running, other.token = registration.token → other = own := fun other hother heq =>
      inj_on_of_nodup_map h.tokens hother hown (heq.trans htoken.symm)
    have hfind : registration.transferId ≠ some id → (s.finish registration).newest id = s.newest id := by
      intro hne
      refine find?_filter_of_imp fun other hother hmatch => ?_
      refine decide_eq_true fun heq => hne ?_
      rw [← hid,← hsame other hother heq]
      exact of_decide_eq_true hmatch
    cases htransfer : registration.transferId with
    | none =>
      rw [hfind (by simp [htransfer])]
      simpa [RunningTransfers.finish,TransferRegistry.finish,htransfer] using h.newest id
    | some transferId =>
      by_cases heq : transferId = id
      · have hnone : (s.finish registration).newest id = none := by
          rw [RunningTransfers.newest,find?_eq_none]
          intro other hother hmatch
          obtain ⟨hother,hne⟩ := mem_filter.mp hother
          refine hapart other hother (by simpa using hne) (by simp [htransfer]) ?_
          rw [htransfer,heq]
          simpa using hmatch
        rw [hnone]
        simp [RunningTransfers.finish,TransferRegistry.finish,htransfer,heq]
      · rw [hfind (by simpa [htransfer] using heq)]
        have hne : id ≠ transferId := fun hid => heq hid.symm
        simpa [RunningTransfers.finish,TransferRegistry.finish,htransfer,hne] using h.newest id
  fresh other hother := h.fresh other (mem_of_mem_filter hother)
  tokens := h.tokens.sublist (filter_sublist.map _)
  nonempty other hother := h.nonempty other (mem_of_mem_filter hother)

theorem cancelTransfer_transfers (registry : TransferRegistry) (transferId : String) :
    (registry.cancelTransfer transferId).1.transfers = registry.transfers := by
  rw [TransferRegistry.cancelTransfer]
  split_ifs
  · rfl
  · cases registry.transfers (Text.trim transferId) <;> rfl

theorem Registered.step {a : TransferAction} (h : Registered s) (ha : s.Apart a) (hstep : s.step a = some s') :
    Registered s' := by
  cases a with
  | register transferId =>
    cases hstep
    exact h.register transferId
  | finish registration =>
    rw [RunningTransfers.step] at hstep
    split_ifs at hstep with hrunning
    cases hstep
    exact h.finish (by simpa using hrunning) ha
  | cancel transferId =>
    obtain rfl := Option.some.inj hstep
    refine ⟨fun id => ?_,h.fresh,h.tokens,h.nonempty⟩
    rw [cancelTransfer_transfers]
    exact h.newest id

theorem cancelTransfer_newest (h : Registered s) {transferId : String}
    (hnewest : s.newest (Text.trim transferId) = some registration) :
    s.registry.cancelTransfer transferId =
      ({ s.registry with cancelled := Function.update s.registry.cancelled registration.token true },true) := by
  have hid : registration.transferId = some (Text.trim transferId) := by
    simpa using find?_some hnewest
  have hne : Text.trim transferId ≠ "" := fun heq =>
    h.nonempty registration (mem_of_find?_eq_some hnewest) (heq ▸ hid)
  rw [TransferRegistry.cancelTransfer,if_neg hne,h.newest,hnewest]
  rfl

theorem Registered.cancellable (h : Registered s) : s.Cancellable where
  running registration hmem transferId hid := by
    cases hnewest : s.newest (Text.trim transferId) with
    | none =>
      rw [RunningTransfers.newest,find?_eq_none] at hnewest
      exact absurd (decide_eq_true hid) (hnewest registration hmem)
    | some newest => rw [cancelTransfer_newest h hnewest]
  newest transferId registration hnewest := by
    rw [cancelTransfer_newest h hnewest]
    exact Function.update_self ..
  finished id hnone := by
    rw [h.newest,RunningTransfers.newest,find?_eq_none.mpr]
    · rfl
    · intro registration hmem hid
      exact hnone registration hmem (of_decide_eq_true hid)

/-- Where no transfer ends while another one runs under its identifier, a cancellation always arrives. -/
theorem cancel_arrives (h : Transitions.Reached step Apart (· = empty) s) : s.Cancellable := by
  have hregistered : Registered s := by
    refine h.invariant ?_ fun _ _ _ hs ha hstep => hs.step ha hstep
    rintro _ rfl
    exact registered_empty
  exact hregistered.cancellable

/-- Two transfers of one identifier, one after the other. -/
theorem second_transfer_cancellable : ∃ s : RunningTransfers, s.running ≠ [] ∧ s.Cancellable := by
  refine ⟨((RunningTransfers.empty.register (some "a")).finish ⟨some "a",0⟩).register (some "a"),by simp [register],?_⟩
  refine cancel_arrives (.step (a := .register (some "a")) (.step (a := .finish ⟨some "a",0⟩)
    (.step (a := .register (some "a")) (.start rfl) trivial rfl) ?_ rfl) trivial rfl)
  intro other hother hne
  rw [mem_singleton.mp hother] at hne
  exact absurd rfl hne

/-- The transfer that is tried again before the first attempt has ended. -/
theorem retry_not_cancellable : ∃ s, Transitions.Reached step (fun _ _ => True) (· = empty) s ∧
    s.running = [⟨some "a",1⟩] ∧ (s.registry.cancelTransfer "a").2 = false := by
  have hrun : Transitions.run step empty [.register (some "a"),.register (some "a"),.finish ⟨some "a",0⟩] =
      some (((empty.register (some "a")).register (some "a")).finish ⟨some "a",0⟩) := rfl
  exact ⟨_,Transitions.Reached.run (.start rfl) hrun,rfl,rfl⟩

end RunningTransfers
end Mxterm.RemoteFiles
