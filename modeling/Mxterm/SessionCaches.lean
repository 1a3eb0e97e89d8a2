import Mathlib.Algebra.Order.BigOperators.Group.List
import Mathlib.Data.List.Count
import Mathlib.Data.List.Perm.Subperm
import Mxterm.Interleavings
import Mxterm.Table

/-! A cache of sessions, one for a key, that several calls use. The calls look sessions up, open new ones, take them out
again and close them, and run requests on them under a lock of the session. -/
namespace Mxterm.SessionCaches

open List

open Interleavings (Program Machine Pool Turn Provided)

/-- The sessions are numbered as they are opened. -/
structure Handle (κ σ : Type) where
  connectionId : κ
  signature : σ
  session : ℕ
  deriving DecidableEq

abbrev Sessions (κ σ : Type) := Table (Handle.connectionId : Handle κ σ → κ)

/-- What becomes of a session that is to be stored: another one with its signature is kept, another one is replaced, or
there was none. -/
inductive Stored (κ σ : Type)
  | kept (existing : Handle κ σ)
  | replaced (existing : Handle κ σ)
  | inserted

inductive Action (κ σ ρ : Type)
  | lookup (connectionId : κ)
  | entries
  | connect (connectionId : κ) (signature : σ)
  | store (handle : Handle κ σ)
  | removeSame (connectionId : κ) (handle : Handle κ σ)
  | evict (choose : List κ → List κ)
  | close (handle : Handle κ σ)
  | start (handle : Handle κ σ) (request : ρ)
  | finish (handle : Handle κ σ)
  | now
  | lastUsed (handle : Handle κ σ)
  | touch (handle : Handle κ σ) (time : ℕ)
  | enter (handle : Handle κ σ)
  | leave (handle : Handle κ σ)
  | isBusy (handle : Handle κ σ)

variable {κ σ ρ ω ε : Type}

def Answer (ω ε : Type) : Action κ σ ρ → Type
  | .lookup _ => Option (Handle κ σ)
  | .entries => List (Handle κ σ)
  | .connect _ _ => Except ε (Handle κ σ)
  | .store _ => Stored κ σ
  | .removeSame _ _ => Option (Handle κ σ)
  | .evict _ => List (Handle κ σ)
  | .close _ => Unit
  | .start _ _ => Unit
  | .finish _ => Except ε ω
  | .now => ℕ
  | .lastUsed _ => ℕ
  | .touch _ _ => Unit
  | .enter _ => Unit
  | .leave _ => Unit
  | .isBusy _ => Bool

/-- What is left open: failures, outputs, the clock, and the order in which a map gives its entries. -/
inductive Choice (κ σ ω ε : Type)
  | plain
  | fails (error : ε)
  | output (output : ω)
  | clock (time : ℕ)
  | order (handles : List (Handle κ σ))

inductive Happening (κ σ ρ : Type)
  | opened (handle : Handle κ σ)
  | started (request : ρ) (handle : Handle κ σ)
  | closed (handle : Handle κ σ)

def Happening.opened? : Happening κ σ ρ → Option (Handle κ σ)
  | .opened handle => some handle
  | _ => none

def Happening.closed? : Happening κ σ ρ → Option (Handle κ σ)
  | .closed handle => some handle
  | _ => none

/-- The log has the oldest happening first. -/
structure World (κ σ ρ : Type) where
  sessions : Sessions κ σ
  next : ℕ
  log : List (Happening κ σ ρ)
  locked : List ℕ
  lastUsed : ℕ → ℕ
  inFlight : ℕ → ℕ

namespace World

def empty : World κ σ ρ where
  sessions := Table.empty _
  next := 0
  log := []
  locked := []
  lastUsed _ := 0
  inFlight _ := 0

def note (w : World κ σ ρ) (happening : Happening κ σ ρ) : World κ σ ρ := { w with log := w.log ++ [happening] }

/-- The sessions that were opened, and those that were closed, as often as they were. -/
def opened (w : World κ σ ρ) : List (Handle κ σ) := w.log.filterMap Happening.opened?

def closed (w : World κ σ ρ) : List (Handle κ σ) := w.log.filterMap Happening.closed?

@[simp] theorem note_sessions (w : World κ σ ρ) (happening : Happening κ σ ρ) :
    (w.note happening).sessions = w.sessions := rfl

@[simp] theorem note_log (w : World κ σ ρ) (happening : Happening κ σ ρ) :
    (w.note happening).log = w.log ++ [happening] := rfl

/-- No request is started on a session that has been closed. -/
def RunsOnOpen (w : World κ σ ρ) : Prop :=
  ∀ before request handle after, w.log = before ++ .started request handle :: after → .closed handle ∉ before

end World

variable [DecidableEq κ] [DecidableEq σ]

def World.keys (w : World κ σ ρ) : List κ := w.sessions.rows.map Handle.connectionId

def storeHandle (handle : Handle κ σ) (w : World κ σ ρ) : Stored κ σ × World κ σ ρ :=
  match w.sessions.find? handle.connectionId with
  | some existing =>
    if existing.signature = handle.signature then (.kept existing,w)
    else (.replaced existing,{ w with sessions := w.sessions.put handle })
  | none => (.inserted,{ w with sessions := w.sessions.put handle })

def removeHandle (connectionId : κ) (handle : Handle κ σ) (w : World κ σ ρ) : Option (Handle κ σ) × World κ σ ρ :=
  match w.sessions.find? connectionId with
  | some current =>
    if current.session = handle.session then
      (some current,{ w with sessions := w.sessions.keepRows (·.connectionId ≠ connectionId) })
    else (none,w)
  | none => (none,w)

def evictHandles (choose : List κ → List κ) (w : World κ σ ρ) : List (Handle κ σ) × World κ σ ρ :=
  (w.sessions.rows.filter (·.connectionId ∈ choose w.keys),
    { w with sessions := w.sessions.keepRows (·.connectionId ∉ choose w.keys) })

/-- A lock that is held makes a start and a close wait. -/
def perform : (action : Action κ σ ρ) → Choice κ σ ω ε → World κ σ ρ →
    Option (Answer ω ε action × World κ σ ρ)
  | .lookup connectionId,_,w => some (w.sessions.find? connectionId,w)
  | .entries,.order handles,w => if handles.Perm w.sessions.rows then some (handles,w) else none
  | .entries,_,_ => none
  | .connect _ _,.fails error,w => some (.error error,w)
  | .connect connectionId signature,.plain,w =>
    let handle : Handle κ σ := ⟨connectionId,signature,w.next⟩
    some (.ok handle,{ w.note (.opened handle) with next := w.next + 1 })
  | .connect _ _,_,_ => none
  | .store handle,_,w => some (storeHandle handle w)
  | .removeSame connectionId handle,_,w => some (removeHandle connectionId handle w)
  | .evict choose,.order handles,w =>
    let (evicted,w') := evictHandles choose w
    if handles.Perm evicted then some (handles,w') else none
  | .evict _,_,_ => none
  | .close handle,_,w => if handle.session ∈ w.locked then none else some ((),w.note (.closed handle))
  | .start handle request,_,w =>
    if handle.session ∈ w.locked then none
    else some ((),{ w.note (.started request handle) with locked := handle.session :: w.locked })
  | .finish handle,.fails error,w => some (.error error,{ w with locked := w.locked.erase handle.session })
  | .finish handle,.output output,w => some (.ok output,{ w with locked := w.locked.erase handle.session })
  | .finish _,_,_ => none
  | .now,.clock time,w => some (time,w)
  | .now,_,_ => none
  | .lastUsed handle,_,w => some (w.lastUsed handle.session,w)
  | .touch handle time,_,w => some ((),{ w with lastUsed := Function.update w.lastUsed handle.session time })
  | .enter handle,_,w =>
    some ((),{ w with inFlight := Function.update w.inFlight handle.session (w.inFlight handle.session + 1) })
  | .leave handle,_,w =>
    some ((),{ w with inFlight := Function.update w.inFlight handle.session (w.inFlight handle.session - 1) })
  | .isBusy handle,_,w => some (decide (0 < w.inFlight handle.session),w)

/-! ## The map -/

section
variable {w w' : World κ σ ρ} {handle other : Handle κ σ} {connectionId : κ}

/-- Where a session is stored once another one was. -/
theorem storeHandle_cases (handle : Handle κ σ) (w : World κ σ ρ) :
    (∃ existing, w.sessions.find? handle.connectionId = some existing ∧ existing.signature = handle.signature ∧
      storeHandle handle w = (.kept existing,w)) ∨
    (∃ existing, w.sessions.find? handle.connectionId = some existing ∧
      storeHandle handle w = (.replaced existing,{ w with sessions := w.sessions.put handle })) ∨
    (w.sessions.find? handle.connectionId = none ∧
      storeHandle handle w = (.inserted,{ w with sessions := w.sessions.put handle })) := by
  cases h : w.sessions.find? handle.connectionId with
  | none => exact .inr (.inr ⟨rfl,by simp only [storeHandle,h]⟩)
  | some existing =>
    by_cases heq : existing.signature = handle.signature
    · exact .inl ⟨existing,rfl,heq,by simp only [storeHandle,h,if_pos heq]⟩
    · exact .inr (.inl ⟨existing,rfl,by simp only [storeHandle,h,if_neg heq]⟩)

omit [DecidableEq σ] in
theorem removeHandle_cases (connectionId : κ) (handle : Handle κ σ) (w : World κ σ ρ) :
    (∃ current ∈ w.sessions, current.connectionId = connectionId ∧
      removeHandle connectionId handle w =
        (some current,{ w with sessions := w.sessions.keepRows (·.connectionId ≠ connectionId) })) ∨
    removeHandle connectionId handle w = (none,w) := by
  cases h : w.sessions.find? connectionId with
  | none => exact .inr (by simp only [removeHandle,h])
  | some current =>
    obtain ⟨hmem,hkey⟩ := Table.find?_eq_some_iff.mp h
    by_cases heq : current.session = handle.session
    · exact .inl ⟨current,hmem,hkey,by simp only [removeHandle,h,if_pos heq]⟩
    · exact .inr (by simp only [removeHandle,h,if_neg heq])

end

/-- How often a handle is stored. -/
def stored (sessions : Sessions κ σ) (handle : Handle κ σ) : ℕ := if handle ∈ sessions.rows then 1 else 0

variable {sessions : Sessions κ σ}

theorem stored_of_mem {handle : Handle κ σ} (h : handle ∈ sessions) :
    stored sessions handle = 1 := if_pos h

theorem stored_of_not_mem {handle : Handle κ σ} (h : handle ∉ sessions) :
    stored sessions handle = 0 := if_neg h

theorem stored_keepRows (sessions : Sessions κ σ) (keep : Handle κ σ → Bool) (handle : Handle κ σ) :
    stored (sessions.keepRows keep) handle = if keep handle then stored sessions handle else 0 := by
  by_cases hkeep : keep handle
  · rw [if_pos hkeep]
    by_cases hmem : handle ∈ sessions
    · rw [stored_of_mem hmem,stored_of_mem (Table.mem_keepRows.mpr ⟨hmem,hkeep⟩)]
    · rw [stored_of_not_mem hmem,stored_of_not_mem fun h => hmem (Table.mem_keepRows.mp h).1]
  · rw [if_neg hkeep,stored_of_not_mem fun h => hkeep (Table.mem_keepRows.mp h).2]

/-- A session that is stored goes out, and with it no other one. -/
theorem stored_remove {current : Handle κ σ} (hmem : current ∈ sessions) (handle : Handle κ σ) :
    stored (sessions.keepRows (·.connectionId ≠ current.connectionId)) handle +
      [current].count handle = stored sessions handle := by
  rw [stored_keepRows,count_singleton]
  by_cases heq : current = handle
  · subst heq
    simp [stored_of_mem hmem]
  · have hbeq : (current == handle) = false := beq_eq_false_iff_ne.mpr heq
    rw [hbeq]
    by_cases hkey : handle.connectionId = current.connectionId
    · have hnot : handle ∉ sessions := fun h => heq (sessions.eq_of_key_eq hmem h hkey.symm)
      simp [hkey,stored_of_not_mem hnot]
    · simp [hkey]

theorem stored_put_new {new : Handle κ σ} (hnew : sessions.find? new.connectionId = none) (handle : Handle κ σ) :
    stored (sessions.put new) handle = stored sessions handle + [new].count handle := by
  have hkey : ¬ sessions.HasKey new.connectionId := Table.find?_eq_none_iff.mp hnew
  rw [count_singleton]
  by_cases heq : new = handle
  · subst heq
    have hnot : new ∉ sessions := fun h => hkey (Table.hasKey_of_mem h)
    rw [stored_of_mem (Table.mem_put.mpr (.inl rfl)),stored_of_not_mem hnot]
    simp
  · have hbeq : (new == handle) = false := beq_eq_false_iff_ne.mpr heq
    rw [hbeq]
    by_cases hmem : handle ∈ sessions
    · have hne : handle.connectionId ≠ new.connectionId := fun h => hkey (h ▸ Table.hasKey_of_mem hmem)
      rw [stored_of_mem hmem,stored_of_mem (Table.mem_put.mpr (.inr ⟨hmem,hne⟩))]
      rfl
    · have hnot : handle ∉ sessions.put new := by
        intro h
        rcases Table.mem_put.mp h with rfl | h
        · exact heq rfl
        · exact hmem h.1
      rw [stored_of_not_mem hmem,stored_of_not_mem hnot]
      rfl

theorem stored_put_over {new old : Handle κ σ} (hold : old ∈ sessions) (hkey : old.connectionId = new.connectionId)
    (hnew : new ∉ sessions) (handle : Handle κ σ) :
    stored (sessions.put new) handle + [old].count handle = stored sessions handle + [new].count handle := by
  rw [count_singleton,count_singleton]
  by_cases heq : new = handle
  · subst heq
    have hbeq : (old == new) = false := beq_eq_false_iff_ne.mpr fun h => hnew (h ▸ hold)
    rw [stored_of_mem (Table.mem_put.mpr (.inl rfl)),stored_of_not_mem hnew,hbeq]
    simp
  · have hbeq : (new == handle) = false := beq_eq_false_iff_ne.mpr heq
    rw [hbeq]
    by_cases hother : old = handle
    · subst hother
      have hnot : old ∉ sessions.put new := by
        intro h
        rcases Table.mem_put.mp h with rfl | h
        · exact heq rfl
        · exact h.2 hkey
      rw [stored_of_mem hold,stored_of_not_mem hnot]
      simp
    · have hbeq' : (old == handle) = false := beq_eq_false_iff_ne.mpr hother
      rw [hbeq']
      by_cases hmem : handle ∈ sessions
      · have hne : handle.connectionId ≠ new.connectionId := by
          intro h
          exact hother (sessions.eq_of_key_eq hold hmem (hkey.trans h.symm))
        rw [stored_of_mem hmem,stored_of_mem (Table.mem_put.mpr (.inr ⟨hmem,hne⟩))]
      · have hnot : handle ∉ sessions.put new := by
          intro h
          rcases Table.mem_put.mp h with rfl | h
          · exact heq rfl
          · exact hmem h.1
        rw [stored_of_not_mem hmem,stored_of_not_mem hnot]

/-! ## What the calls hold

A call has the sessions that it has to store or to close, and knows those that it has met. -/

structure Hands (κ σ : Type) where
  owned : List (Handle κ σ) := []
  known : List (Handle κ σ) := []

/-- `Fits` tells on which sessions a request may run. -/
def Needs (Fits : ρ → Handle κ σ → Prop) : Action κ σ ρ → Hands κ σ → Prop
  | .store handle,hands => handle ∈ hands.owned
  | .close handle,hands => handle ∈ hands.owned
  | .start handle request,hands => handle ∈ hands.known ∧ Fits request handle
  | _,_ => True

namespace Hands

def meet (hands : Hands κ σ) (handle : Handle κ σ) : Hands κ σ := { hands with known := handle :: hands.known }

def take (hands : Hands κ σ) (handles : List (Handle κ σ)) : Hands κ σ := { hands with owned := handles ++ hands.owned }

def drop (hands : Hands κ σ) (handle : Handle κ σ) : Hands κ σ := { hands with owned := hands.owned.erase handle }

def store (hands : Hands κ σ) (handle : Handle κ σ) : Stored κ σ → Hands κ σ
  | .kept existing => hands.meet existing
  | .replaced existing => (hands.drop handle).take [existing]
  | .inserted => hands.drop handle

end Hands

def handsAfter : (action : Action κ σ ρ) → Answer ω ε action → Hands κ σ → Hands κ σ
  | .lookup _,some handle,hands => hands.meet handle
  | .connect _ _,.ok handle,hands => (hands.take [handle]).meet handle
  | .store handle,stored,hands => hands.store handle stored
  | .removeSame _ _,some handle,hands => hands.take [handle]
  | .evict _,handles,hands => hands.take handles
  | .close handle,_,hands => hands.drop handle
  | _,_,hands => hands

/-- What an answer says about the sessions that it gives. -/
def Possible : (action : Action κ σ ρ) → Answer ω ε action → Prop
  | .lookup connectionId,some handle => handle.connectionId = connectionId
  | .connect connectionId signature,.ok handle => handle.connectionId = connectionId ∧ handle.signature = signature
  | .store new,.kept existing => existing.connectionId = new.connectionId ∧ existing.signature = new.signature ∧
    existing ≠ new
  | .store new,.replaced existing => existing ≠ new
  | _,_ => True

def usage (Fits : ρ → Handle κ σ → Prop) :
    Program.Usage (Action κ σ ρ) (Answer ω ε) (Hands κ σ) where
  needs := Needs Fits
  possible := Possible
  after := handsAfter

/-! ## Every session is somewhere

A session that was opened is stored, or some call has it, or it has been closed, and that only once. -/

structure Sound (Fits : ρ → Handle κ σ → Prop) (w : World κ σ ρ) (ls : List (Hands κ σ)) : Prop where
  tally : ∀ handle, w.opened.count handle =
    stored w.sessions handle + (ls.map fun hands => hands.owned.count handle).sum + w.closed.count handle
  once : w.opened.Nodup
  below : ∀ handle ∈ w.opened, handle.session < w.next
  known : ∀ hands ∈ ls, ∀ handle ∈ hands.known, handle ∈ w.opened
  fits : ∀ request handle, .started request handle ∈ w.log → handle ∈ w.opened ∧ Fits request handle

section
variable {Fits : ρ → Handle κ σ → Prop} {w w' : World κ σ ρ} {ls : List (Hands κ σ)} {hands hands' : Hands κ σ}
  {handle : Handle κ σ} {i : ℕ}

theorem sound_empty : Sound Fits (World.empty : World κ σ ρ) [] where
  tally _ := by simp [World.opened,World.closed,World.empty,stored]
  once := nodup_nil
  below _ h := by cases h
  known _ h := by cases h
  fits _ _ h := by cases h

namespace Sound

theorem start (h : Sound Fits w ls) : Sound Fits w (ls ++ [⟨[],[]⟩]) where
  tally handle := by simpa using h.tally handle
  once := h.once
  below := h.below
  known hands hhands := by
    rcases mem_append.mp hhands with hhands | hhands
    · exact h.known hands hhands
    · obtain rfl := mem_singleton.mp hhands
      intro handle hknown
      cases hknown
  fits := h.fits

/-- What is stored has been opened and has not been closed. -/
theorem of_stored (h : Sound Fits w ls) (hmem : handle ∈ w.sessions) : handle ∈ w.opened ∧ handle ∉ w.closed := by
  have htally := h.tally handle
  have honce := nodup_iff_count_le_one.mp h.once handle
  rw [stored,if_pos (Table.mem_iff.mp hmem)] at htally
  constructor
  · exact count_pos_iff.mp (by omega)
  · exact count_eq_zero.mp (by omega)

/-- What a call has is not stored. -/
theorem of_owned (h : Sound Fits w ls) (hhands : ls[i]? = some hands) (howned : handle ∈ hands.owned) :
    handle ∈ w.opened ∧ handle ∉ w.sessions := by
  have htally := h.tally handle
  have honce := nodup_iff_count_le_one.mp h.once handle
  have hpos : 0 < hands.owned.count handle := count_pos_iff.mpr howned
  have hle : hands.owned.count handle ≤ (ls.map fun hands => hands.owned.count handle).sum :=
    le_sum_of_mem (mem_map_of_mem (mem_of_getElem? hhands))
  constructor
  · exact count_pos_iff.mp (by omega)
  · intro hmem
    rw [stored,if_pos (Table.mem_iff.mp hmem)] at htally
    omega

/-- What a call has is not closed. -/
theorem owned_open (h : Sound Fits w ls) (hhands : ls[i]? = some hands) (howned : handle ∈ hands.owned) :
    handle ∉ w.closed := by
  have htally := h.tally handle
  have honce := nodup_iff_count_le_one.mp h.once handle
  have hpos : 0 < hands.owned.count handle := count_pos_iff.mpr howned
  have hle : hands.owned.count handle ≤ (ls.map fun hands => hands.owned.count handle).sum :=
    le_sum_of_mem (mem_map_of_mem (mem_of_getElem? hhands))
  exact count_eq_zero.mp (by omega)

/-- A turn of a call changes what it has and what is shared. -/
theorem set (h : Sound Fits w ls) (hhands : ls[i]? = some hands)
    (htally : ∀ handle, w'.opened.count handle + (stored w.sessions handle + hands.owned.count handle + w.closed.count
      handle) =
      w.opened.count handle + (stored w'.sessions handle + hands'.owned.count handle + w'.closed.count handle))
    (honce : w'.opened.Nodup) (hbelow : ∀ handle ∈ w'.opened, handle.session < w'.next)
    (hopened : ∀ handle ∈ w.opened, handle ∈ w'.opened) (hknown : ∀ handle ∈ hands'.known, handle ∈ w'.opened)
    (hfits : ∀ request handle, .started request handle ∈ w'.log → handle ∈ w'.opened ∧ Fits request handle) :
    Sound Fits w' (ls.set i hands') where
  tally handle := by
    have hold := h.tally handle
    have hnew := htally handle
    have hsum := Interleavings.sum_set (fun hands : Hands κ σ => hands.owned.count handle) hhands hands'
    omega
  once := honce
  below := hbelow
  known other hother handle hmem := by
    rcases mem_or_eq_of_mem_set hother with hother | rfl
    · exact hopened handle (h.known other hother handle hmem)
    · exact hknown handle hmem
  fits := hfits

/-- A turn that changes neither the map nor the log. -/
theorem meet (h : Sound Fits w ls) (hhands : ls[i]? = some hands) (hsessions : w'.sessions = w.sessions)
    (hlog : w'.log = w.log) (hnext : w'.next = w.next) (howned : hands'.owned = hands.owned)
    (hknown : ∀ handle ∈ hands'.known, handle ∈ hands.known ∨ handle ∈ w.opened) :
    Sound Fits w' (ls.set i hands') := by
  have hopened : w'.opened = w.opened := by rw [World.opened,World.opened,hlog]
  have hclosed : w'.closed = w.closed := by rw [World.closed,World.closed,hlog]
  apply h.set hhands
  · intro handle
    rw [hopened,hclosed,howned,hsessions]
  · rw [hopened]
    exact h.once
  · rw [hopened,hnext]
    exact h.below
  · rw [hopened]
    exact fun _ hmem => hmem
  · rw [hopened]
    intro handle hmem
    rcases hknown handle hmem with hmem | hmem
    · exact h.known hands (mem_of_getElem? hhands) handle hmem
    · exact hmem
  · rw [hlog,hopened]
    exact h.fits

theorem recognise (h : Sound Fits w ls) (hhands : ls[i]? = some hands) (hopened : handle ∈ w.opened) :
    Sound Fits w (ls.set i (hands.meet handle)) := by
  refine h.meet hhands rfl rfl rfl rfl fun other hother => ?_
  rcases mem_cons.mp hother with rfl | hother
  · exact .inr hopened
  · exact .inl hother

theorem open_ (h : Sound Fits w ls) (hhands : ls[i]? = some hands) (hsession : handle.session = w.next) :
    Sound Fits { w.note (.opened handle) with next := w.next + 1 }
      (ls.set i ⟨handle :: hands.owned,handle :: hands.known⟩) := by
  have hopened : World.opened { w.note (.opened handle) with next := w.next + 1 } = w.opened ++ [handle] := by
    simp [World.opened,Happening.opened?]
  have hclosed : World.closed { w.note (.opened handle) with next := w.next + 1 } = w.closed := by
    simp [World.closed,Happening.closed?]
  have hnew : handle ∉ w.opened := by
    intro hmem
    have hlt := h.below handle hmem
    omega
  apply h.set hhands
  · intro other
    have hstored : stored (w.note (.opened handle)).sessions other = stored w.sessions other := rfl
    rw [hopened,hclosed,count_append,count_singleton,count_cons]
    simp only [hstored]
    omega
  · rw [hopened]
    exact List.Nodup.append h.once (nodup_singleton _) (disjoint_singleton.mpr hnew)
  · rw [hopened]
    intro other hother
    rcases mem_append.mp hother with hother | hother
    · exact Nat.lt_succ_of_lt (h.below other hother)
    · obtain rfl := mem_singleton.mp hother
      exact hsession ▸ Nat.lt_succ_self _
  · rw [hopened]
    exact fun _ hmem => mem_append_left _ hmem
  · rw [hopened]
    intro other hother
    rcases mem_cons.mp hother with rfl | hother
    · exact mem_append_right _ (mem_singleton_self _)
    · exact mem_append_left _ (h.known hands (mem_of_getElem? hhands) other hother)
  · rw [hopened]
    intro request other hstarted
    have hold : .started request other ∈ w.log := by simpa using hstarted
    exact ⟨mem_append_left _ (h.fits request other hold).1,(h.fits request other hold).2⟩

theorem close (h : Sound Fits w ls) (hhands : ls[i]? = some hands) (howned : handle ∈ hands.owned) :
    Sound Fits (w.note (.closed handle)) (ls.set i { hands with owned := hands.owned.erase handle }) := by
  have hopened : (w.note (.closed handle)).opened = w.opened := by simp [World.opened,Happening.opened?]
  have hclosed : (w.note (.closed handle)).closed = w.closed ++ [handle] := by simp [World.closed,Happening.closed?]
  have hpos : 0 < hands.owned.count handle := count_pos_iff.mpr howned
  apply h.set hhands
  · intro other
    have hstored : stored (w.note (.closed handle)).sessions other = stored w.sessions other := rfl
    rw [hopened,hclosed,hstored,count_append,count_singleton,count_erase]
    by_cases heq : handle = other
    · subst heq
      simp only [beq_self_eq_true,if_true]
      omega
    · simp [heq]
  · rw [hopened]
    exact h.once
  · rw [hopened]
    exact h.below
  · rw [hopened]
    exact fun _ hmem => hmem
  · rw [hopened]
    exact h.known hands (mem_of_getElem? hhands)
  · rw [hopened]
    intro request other hstarted
    exact h.fits request other (by simpa using hstarted)

theorem request (h : Sound Fits w ls) (hhands : ls[i]? = some hands) {request : ρ} (hknown : handle ∈ hands.known)
    (hfits : Fits request handle) (locked : List ℕ) :
    Sound Fits { w.note (.started request handle) with locked } (ls.set i hands) := by
  have hopened : World.opened { w.note (.started request handle) with locked } = w.opened := by
    simp [World.opened,Happening.opened?]
  have hclosed : World.closed { w.note (.started request handle) with locked } = w.closed := by
    simp [World.closed,Happening.closed?]
  have hmem : handle ∈ w.opened := h.known hands (mem_of_getElem? hhands) handle hknown
  apply h.set hhands
  · intro other
    rw [hopened,hclosed]
    rfl
  · rw [hopened]
    exact h.once
  · rw [hopened]
    exact h.below
  · rw [hopened]
    exact fun _ hmem => hmem
  · rw [hopened]
    exact h.known hands (mem_of_getElem? hhands)
  · rw [hopened]
    intro request' other hstarted
    rcases mem_append.mp hstarted with hstarted | hstarted
    · exact h.fits request' other hstarted
    · obtain ⟨rfl,rfl⟩ : request' = request ∧ other = handle := by simpa using hstarted
      exact ⟨hmem,hfits⟩

/-- The map changes, and the call has what was in it and has given away what is in it now. -/
theorem exchange (h : Sound Fits w ls) (hhands : ls[i]? = some hands) {sessions : Sessions κ σ}
    {owned : List (Handle κ σ)}
    (htally : ∀ handle, stored w.sessions handle + hands.owned.count handle =
      stored sessions handle + owned.count handle) :
    Sound Fits { w with sessions } (ls.set i { hands with owned }) := by
  apply h.set hhands
  · intro handle
    have hnew := htally handle
    simp only [World.opened,World.closed] at hnew ⊢
    omega
  · exact h.once
  · exact h.below
  · exact fun _ hmem => hmem
  · exact h.known hands (mem_of_getElem? hhands)
  · exact h.fits

theorem store (h : Sound Fits w ls) (hhands : ls[i]? = some hands) (howned : handle ∈ hands.owned) :
    Sound Fits (storeHandle handle w).2 (ls.set i (hands.store handle (storeHandle handle w).1)) := by
  obtain ⟨-,hnew⟩ := h.of_owned hhands howned
  have hdrop : ∀ other, (hands.owned.erase handle).count other + [handle].count other = hands.owned.count other := by
    intro other
    rw [← count_append]
    exact (perm_append_comm.trans (perm_cons_erase howned).symm).count_eq other
  rcases storeHandle_cases handle w with ⟨existing,hexisting,-,heq⟩ | ⟨existing,hexisting,heq⟩ | ⟨hnone,heq⟩
  · rw [heq]
    exact h.recognise hhands (h.of_stored (Table.find?_eq_some_iff.mp hexisting).1).1
  · rw [heq]
    obtain ⟨hmem,hkey⟩ := Table.find?_eq_some_iff.mp hexisting
    apply h.exchange hhands
    intro other
    have hput := stored_put_over hmem hkey hnew other
    have howns := hdrop other
    rw [count_append]
    simp only [Hands.drop]
    omega
  · rw [heq]
    apply h.exchange hhands
    intro other
    have hput := stored_put_new hnone other
    have howns := hdrop other
    omega

theorem remove (h : Sound Fits w ls) (hhands : ls[i]? = some hands) {connectionId : κ} :
    Sound Fits (removeHandle connectionId handle w).2
      (ls.set i (hands.take (removeHandle connectionId handle w).1.toList)) := by
  rcases removeHandle_cases connectionId handle w with ⟨current,hmem,rfl,heq⟩ | heq
  · rw [heq]
    apply h.exchange hhands
    intro other
    have hremove := stored_remove hmem other
    rw [Option.toList_some,count_append]
    omega
  · rw [heq]
    exact h.meet hhands rfl rfl rfl rfl fun _ hmem => .inl hmem

theorem evict (h : Sound Fits w ls) (hhands : ls[i]? = some hands) {choose : List κ → List κ}
    {handles : List (Handle κ σ)} (hperm : handles.Perm (evictHandles choose w).1) :
    Sound Fits (evictHandles choose w).2 (ls.set i (hands.take handles)) := by
  apply h.exchange hhands
  intro other
  rw [count_append,hperm.count_eq,stored_keepRows]
  have hcount : w.sessions.rows.count other = stored w.sessions other := by
    by_cases hmem : other ∈ w.sessions
    · rw [stored_of_mem hmem]
      exact count_eq_one_of_mem w.sessions.rowsNodup hmem
    · rw [stored_of_not_mem hmem]
      exact count_eq_zero.mpr hmem
  by_cases hchosen : other.connectionId ∈ choose w.keys
  · rw [evictHandles,count_filter (by simpa using hchosen),hcount]
    simp [hchosen]
  · have hnot : other ∉ (evictHandles choose w).1 := by
      intro hmem
      simp [evictHandles] at hmem
      exact hchosen hmem.2
    rw [count_eq_zero.mpr hnot]
    simp [hchosen]

theorem possible (h : Sound Fits w ls) (hhands : ls[i]? = some hands) {action : Action κ σ ρ}
    {choice : Choice κ σ ω ε} {answer : Answer ω ε action} (hneeds : Needs Fits action hands)
    (hperform : SessionCaches.perform action choice w = some (answer,w')) : Possible action answer := by
  cases action with
  | lookup connectionId =>
    cases hperform
    cases hfound : w.sessions.find? connectionId with
    | none => trivial
    | some handle => exact (Table.find?_eq_some_iff.mp hfound).2
  | connect connectionId signature =>
    cases choice with
    | fails error =>
      cases hperform
      trivial
    | plain =>
      cases hperform
      exact ⟨rfl,rfl⟩
    | _ => cases hperform
  | store new =>
    have hpair : storeHandle new w = (answer,w') := Option.some.inj hperform
    rcases storeHandle_cases new w with ⟨existing,hexisting,hsignature,heq⟩ | ⟨existing,hexisting,heq⟩ | ⟨-,heq⟩
    · rw [heq] at hpair
      cases hpair
      obtain ⟨hmem,hkey⟩ := Table.find?_eq_some_iff.mp hexisting
      refine ⟨hkey,hsignature,?_⟩
      rintro rfl
      exact (h.of_owned hhands hneeds).2 hmem
    · rw [heq] at hpair
      cases hpair
      have hmem := (Table.find?_eq_some_iff.mp hexisting).1
      rintro rfl
      exact (h.of_owned hhands hneeds).2 hmem
    · rw [heq] at hpair
      cases hpair
      trivial
  | _ => trivial

/-- Every action keeps the sessions together. -/
theorem perform (h : Sound Fits w ls) (hhands : ls[i]? = some hands) {action : Action κ σ ρ}
    {choice : Choice κ σ ω ε} {answer : Answer ω ε action} (hneeds : Needs Fits action hands)
    (hperform : perform action choice w = some (answer,w')) :
    Sound Fits w' (ls.set i (handsAfter action answer hands)) := by
  have hsame : ∀ w' : World κ σ ρ, w'.sessions = w.sessions → w'.log = w.log → w'.next = w.next →
      Sound Fits w' (ls.set i hands) := fun w' hsessions hlog hnext =>
    h.meet hhands hsessions hlog hnext rfl fun _ hmem => .inl hmem
  cases action with
  | lookup connectionId =>
    cases hperform
    cases hfound : w.sessions.find? connectionId with
    | none => exact hsame w rfl rfl rfl
    | some handle => exact h.recognise hhands (h.of_stored (Table.find?_eq_some_iff.mp hfound).1).1
  | entries =>
    cases choice with
    | order handles =>
      simp only [SessionCaches.perform] at hperform
      split_ifs at hperform
      cases hperform
      exact hsame w rfl rfl rfl
    | _ => cases hperform
  | connect connectionId signature =>
    cases choice with
    | fails error =>
      cases hperform
      exact hsame w rfl rfl rfl
    | plain =>
      cases hperform
      exact h.open_ hhands rfl
    | _ => cases hperform
  | store handle =>
    obtain ⟨rfl,rfl⟩ := Prod.mk.inj (Option.some.inj hperform)
    exact h.store hhands hneeds
  | removeSame connectionId handle =>
    have hpair : removeHandle connectionId handle w = (answer,w') := Option.some.inj hperform
    have hremove : Sound Fits (removeHandle connectionId handle w).2
      (ls.set i (hands.take (removeHandle connectionId handle w).1.toList)) := h.remove hhands
    rw [hpair] at hremove
    cases answer with
    | none => exact hremove
    | some current => exact hremove
  | evict choose =>
    cases choice with
    | order handles =>
      simp only [SessionCaches.perform] at hperform
      split_ifs at hperform with hperm
      cases hperform
      exact h.evict hhands hperm
    | _ => cases hperform
  | close handle =>
    simp only [SessionCaches.perform] at hperform
    split_ifs at hperform
    cases hperform
    exact h.close hhands hneeds
  | start handle request =>
    simp only [SessionCaches.perform] at hperform
    split_ifs at hperform
    cases hperform
    exact h.request hhands hneeds.1 hneeds.2 _
  | finish handle =>
    cases choice with
    | fails error =>
      cases hperform
      exact hsame _ rfl rfl rfl
    | output output =>
      cases hperform
      exact hsame _ rfl rfl rfl
    | _ => cases hperform
  | now =>
    cases choice with
    | clock time =>
      cases hperform
      exact hsame _ rfl rfl rfl
    | _ => cases hperform
  | lastUsed handle =>
    cases hperform
    exact hsame _ rfl rfl rfl
  | touch handle time =>
    cases hperform
    exact hsame _ rfl rfl rfl
  | enter handle =>
    cases hperform
    exact hsame _ rfl rfl rfl
  | leave handle =>
    cases hperform
    exact hsame _ rfl rfl rfl
  | isBusy handle =>
    cases hperform
    exact hsame _ rfl rfl rfl

end Sound
end

/-! ## Runs -/

variable {Call : Type}

def machine (program : Call → Program (Action κ σ ρ) (Answer ω ε) Unit) :
    Machine (World κ σ ρ) Call (Action κ σ ρ) (Answer ω ε) (Choice κ σ ω ε) where
  program
  perform := perform

abbrev Calls (κ σ ρ ω ε Call : Type) := Pool (World κ σ ρ) Call (Action κ σ ρ) (Answer ω ε)

def Calls.none : Calls κ σ ρ ω ε Call := ⟨World.empty,[]⟩

/-- A call that closes or stores everything it takes, and runs its requests where they may run. -/
def Tidy (Fits : ρ → Handle κ σ → Prop) {α : Type} (p : Program (Action κ σ ρ) (Answer ω ε) α)
    (Q : α → Hands κ σ → Prop) (hands : Hands κ σ) : Prop := p.Meets (usage Fits) Q hands

/-- A step that takes and gives nothing. -/
theorem Tidy.keeping {Fits : ρ → Handle κ σ → Prop} {α β : Type} {p : Program (Action κ σ ρ) (Answer ω ε) α}
    {f : α → Program (Action κ σ ρ) (Answer ω ε) β} {Q : β → Hands κ σ → Prop} {hands : Hands κ σ}
    (h : Tidy Fits p (fun _ hands' => hands' = hands) hands) (hf : ∀ result, Tidy Fits (f result) Q hands) :
    Tidy Fits (p >>= f) Q hands := by
  apply Program.Meets.andThen h
  rintro result _ rfl
  exact hf result

section
variable {Fits : ρ → Handle κ σ → Prop} {program : Call → Program (Action κ σ ρ) (Answer ω ε) Unit}
  {allowed : Calls κ σ ρ ω ε Call → Turn Call (Choice κ σ ω ε) → Prop} {calls calls' : Calls κ σ ρ ω ε Call}

def Accounted (Fits : ρ → Handle κ σ → Prop) (calls : Calls κ σ ρ ω ε Call) : Prop :=
  ∃ ls, Sound Fits calls.shared ls ∧ Provided (usage Fits) (fun hands => hands.owned = []) calls.tasks ls

theorem Accounted.step (hprograms : ∀ call, Tidy Fits (program call) (fun _ hands => hands.owned = []) ⟨[],[]⟩)
    (h : Accounted Fits calls) {turn : Turn Call (Choice κ σ ω ε)}
    (hstep : (machine program).step calls turn = some calls') : Accounted Fits calls' := by
  apply Interleavings.provided_step hprograms (fun _ _ hsound => hsound.start) _ h hstep
  intro i choice action answer w w' ls hands hsound hhands hneeds hperform
  exact ⟨hsound.possible hhands hneeds hperform,hsound.perform hhands hneeds hperform⟩

theorem Accounted.of_reached (hprograms : ∀ call, Tidy Fits (program call) (fun _ hands => hands.owned = []) ⟨[],[]⟩)
    (h : Transitions.Reached (machine program).step allowed (· = Calls.none) calls) : Accounted Fits calls := by
  have hstart : ∀ calls : Calls κ σ ρ ω ε Call, calls = Calls.none → Accounted Fits calls := by
    rintro _ rfl
    exact ⟨[],sound_empty,.nil⟩
  exact h.invariant hstart fun _ _ _ hold _ hstep => hold.step hprograms hstep

/-- What is closed has been opened, is not stored, and is closed once. -/
theorem Accounted.closed (h : Accounted Fits calls) : calls.shared.closed.Nodup ∧
    ∀ handle ∈ calls.shared.closed, handle ∈ calls.shared.opened ∧ handle ∉ calls.shared.sessions := by
  obtain ⟨ls,hsound,-⟩ := h
  have hle : ∀ handle, calls.shared.closed.count handle ≤ calls.shared.opened.count handle := by
    intro handle
    have htally := hsound.tally handle
    omega
  constructor
  · rw [nodup_iff_count_le_one]
    intro handle
    exact (hle handle).trans (nodup_iff_count_le_one.mp hsound.once handle)
  · intro handle hclosed
    have hpos : 0 < calls.shared.closed.count handle := count_pos_iff.mpr hclosed
    refine ⟨count_pos_iff.mp (hpos.trans_le (hle handle)),fun hmem => ?_⟩
    exact (hsound.of_stored hmem).2 hclosed

/-- The call is going to store or to close this session, whatever it is answered. -/
def Disposes (handle : Handle κ σ) : Program (Action κ σ ρ) (Answer ω ε) Unit → Prop
  | .done _ => False
  | .act action next =>
    action = .store handle ∨ action = .close handle ∨ ∀ answer, Possible action answer → Disposes handle (next answer)

variable {handle : Handle κ σ}

theorem disposes_of_owned {p : Program (Action κ σ ρ) (Answer ω ε) Unit} {hands : Hands κ σ}
    (h : Tidy Fits p (fun _ hands => hands.owned = []) hands) (howned : handle ∈ hands.owned) : Disposes handle p := by
  induction p generalizing hands with
  | done _ =>
    rw [show hands.owned = [] from h] at howned
    cases howned
  | act action next ih =>
    by_cases hstore : action = .store handle
    · exact .inl hstore
    by_cases hclose : action = .close handle
    · exact .inr (.inl hclose)
    refine .inr (.inr fun answer hanswer => ih answer (h.2 answer hanswer) ?_)
    -- a session that is neither stored nor closed stays with the call
    have hdrop : ∀ other, other ≠ handle → handle ∈ (hands.drop other).owned := fun other hne =>
      (mem_erase_of_ne (Ne.symm hne)).mpr howned
    have htake : ∀ handles, handle ∈ (hands.take handles).owned := fun handles =>
      mem_append_right handles howned
    cases action with
    | lookup connectionId =>
      cases answer with
      | none => exact howned
      | some found => exact howned
    | connect connectionId signature =>
      cases answer with
      | error error => exact howned
      | ok new => exact htake [new]
    | store new =>
      have hne : new ≠ handle := fun heq => hstore (by rw [heq])
      cases answer with
      | kept existing => exact howned
      | replaced existing => exact mem_append_right [existing] (hdrop new hne)
      | inserted => exact hdrop new hne
    | removeSame connectionId other =>
      cases answer with
      | none => exact howned
      | some current => exact htake [current]
    | evict choose => exact htake answer
    | close other => exact hdrop other fun heq => hclose (by rw [heq])
    | _ => exact howned

/-- A session that was opened is stored or closed, or a call is going to do that. -/
theorem Accounted.somewhere (h : Accounted Fits calls) (hopened : handle ∈ calls.shared.opened) :
    handle ∈ calls.shared.sessions ∨ handle ∈ calls.shared.closed ∨
      ∃ task ∈ calls.tasks, Disposes handle task.program := by
  obtain ⟨ls,hsound,hprovided⟩ := h
  have htally := hsound.tally handle
  have hpos : 0 < calls.shared.opened.count handle := count_pos_iff.mpr hopened
  by_cases hmem : handle ∈ calls.shared.sessions
  · exact .inl hmem
  by_cases hclosed : handle ∈ calls.shared.closed
  · exact .inr (.inl hclosed)
  rw [stored_of_not_mem hmem,count_eq_zero.mpr hclosed] at htally
  have hsum : (ls.map fun hands => hands.owned.count handle).sum ≠ 0 := by omega
  obtain ⟨n,hn,hne⟩ : ∃ n ∈ ls.map fun hands => hands.owned.count handle, n ≠ 0 := by
    by_contra hall
    exact hsum (sum_eq_zero fun n hn => by_contra fun hne => hall ⟨n,hn,hne⟩)
  obtain ⟨hands,hhands,rfl⟩ := mem_map.mp hn
  obtain ⟨i,hi⟩ := mem_iff_getElem?.mp hhands
  obtain ⟨task,htask,hmeets⟩ := Interleavings.forall₂_getElem? hprovided.flip hi
  have howned : handle ∈ hands.owned := count_pos_iff.mp (Nat.pos_of_ne_zero hne)
  exact .inr (.inr ⟨task,mem_of_getElem? htask,disposes_of_owned hmeets howned⟩)

theorem Accounted.opened (h : Accounted Fits calls) : calls.shared.opened.Nodup := by
  obtain ⟨ls,hsound,-⟩ := h
  exact hsound.once

theorem Accounted.fits (h : Accounted Fits calls) {request : ρ}
    (hstarted : .started request handle ∈ calls.shared.log) : handle ∈ calls.shared.opened ∧ Fits request handle := by
  obtain ⟨ls,hsound,-⟩ := h
  exact hsound.fits request handle hstarted

/-- Every session is stored under its connection or closed once, unless a call is about to do that, and requests run on
sessions that fit them. -/
structure Kept (Fits : ρ → Handle κ σ → Prop) (calls : Calls κ σ ρ ω ε Call) : Prop where
  fits : ∀ request handle, .started request handle ∈ calls.shared.log →
    handle ∈ calls.shared.opened ∧ Fits request handle
  somewhere : ∀ handle ∈ calls.shared.opened, handle ∈ calls.shared.sessions ∨ handle ∈ calls.shared.closed ∨
    ∃ task ∈ calls.tasks, Disposes handle task.program
  closed : ∀ handle ∈ calls.shared.closed, handle ∈ calls.shared.opened ∧ handle ∉ calls.shared.sessions
  once : calls.shared.closed.Nodup

theorem Accounted.kept (h : Accounted Fits calls) : Kept Fits calls where
  fits _ _ hstarted := h.fits hstarted
  somewhere _ hopened := h.somewhere hopened
  closed := h.closed.2
  once := h.closed.1

/-- When no call is in progress, what is open is stored. -/
theorem Accounted.quiet (h : Accounted Fits calls) (hquiet : calls.Quiet) (hopened : handle ∈ calls.shared.opened)
    (hopen : handle ∉ calls.shared.closed) : handle ∈ calls.shared.sessions := by
  rcases h.somewhere hopened with hmem | hclosed | ⟨task,htask,hdisposes⟩
  · exact hmem
  · exact (hopen hclosed).elim
  · have hfinished := hquiet task htask
    cases hprogram : task.program with
    | done _ =>
      rw [hprogram] at hdisposes
      exact hdisposes.elim
    | act action next =>
      rw [hprogram] at hfinished
      exact hfinished.elim

end

/-! ## Room -/

/-- How many sessions are open. -/
def World.openSessions (w : World κ σ ρ) : List (Handle κ σ) := w.opened.filter (· ∉ w.closed)

/-- A session comes to the others only where there is room for it. -/
def StoredInRoom (capacity : ℕ) (calls : Calls κ σ ρ ω ε Call) (turn : Turn Call (Choice κ σ ω ε)) : Prop :=
  ∀ i choice, turn = .advance i choice → ∀ call new next, calls.tasks[i]? = some ⟨call,.act (.store new) next⟩ →
    calls.shared.sessions.find? new.connectionId = none → calls.shared.sessions.rows.length < capacity

section
variable {capacity : ℕ} {w w' : World κ σ ρ}

omit [DecidableEq σ] in
theorem length_put_le (sessions : Sessions κ σ) (new : Handle κ σ) :
    (sessions.put new).rows.length ≤ sessions.rows.length + 1 := by
  unfold Table.put
  split
  · simp [Table.mapRows]
  · simp

omit [DecidableEq σ] in
theorem length_put_over {sessions : Sessions κ σ} {new existing : Handle κ σ}
    (h : sessions.find? new.connectionId = some existing) :
    (sessions.put new).rows.length = sessions.rows.length := by
  obtain ⟨hmem,hkey⟩ := Table.find?_eq_some_iff.mp h
  have hhas : sessions.HasKey new.connectionId := hkey ▸ Table.hasKey_of_mem hmem
  unfold Table.put
  rw [dif_pos hhas]
  simp [Table.mapRows]

theorem perform_length {action : Action κ σ ρ} {choice : Choice κ σ ω ε} {answer : Answer ω ε action}
    (h : perform action choice w = some (answer,w')) (hle : w.sessions.rows.length ≤ capacity)
    (hroom : ∀ new, action = .store new → w.sessions.find? new.connectionId = none →
      w.sessions.rows.length < capacity) : w'.sessions.rows.length ≤ capacity := by
  cases action with
  | entries =>
    cases choice with
    | order handles =>
      simp only [perform] at h
      split_ifs at h
      cases h
      exact hle
    | _ => cases h
  | connect connectionId signature =>
    cases choice with
    | fails error =>
      cases h
      exact hle
    | plain =>
      cases h
      exact hle
    | _ => cases h
  | store new =>
    have hpair : storeHandle new w = (answer,w') := Option.some.inj h
    rcases storeHandle_cases new w with ⟨existing,hexisting,-,heq⟩ | ⟨existing,hexisting,heq⟩ | ⟨hnone,heq⟩
    · rw [heq] at hpair
      cases hpair
      exact hle
    · rw [heq] at hpair
      cases hpair
      exact (length_put_over hexisting).le.trans hle
    · rw [heq] at hpair
      cases hpair
      exact (length_put_le _ _).trans (hroom new rfl hnone)
  | removeSame connectionId handle =>
    have hpair : removeHandle connectionId handle w = (answer,w') := Option.some.inj h
    rcases removeHandle_cases connectionId handle w with ⟨current,-,-,heq⟩ | heq
    · rw [heq] at hpair
      cases hpair
      exact (length_filter_le _ _).trans hle
    · rw [heq] at hpair
      cases hpair
      exact hle
  | evict choose =>
    cases choice with
    | order handles =>
      simp only [perform] at h
      split_ifs at h
      cases h
      exact (length_filter_le _ _).trans hle
    | _ => cases h
  | close handle =>
    simp only [perform] at h
    split_ifs at h
    cases h
    exact hle
  | start handle request =>
    simp only [perform] at h
    split_ifs at h
    cases h
    exact hle
  | finish handle =>
    cases choice with
    | fails error =>
      cases h
      exact hle
    | output output =>
      cases h
      exact hle
    | _ => cases h
  | now =>
    cases choice with
    | clock time =>
      cases h
      exact hle
    | _ => cases h
  | _ =>
    cases h
    exact hle

variable {Fits : ρ → Handle κ σ → Prop} {program : Call → Program (Action κ σ ρ) (Answer ω ε) Unit}
  {calls : Calls κ σ ρ ω ε Call}

theorem Accounted.openSessions (h : Accounted Fits calls) (hquiet : calls.Quiet)
    (hle : calls.shared.sessions.rows.length ≤ capacity) : calls.shared.openSessions.length ≤ capacity ∧
      ∀ handle ∈ calls.shared.openSessions, handle ∈ calls.shared.sessions := by
  have hstored : ∀ handle ∈ calls.shared.openSessions, handle ∈ calls.shared.sessions := by
    intro handle hmem
    obtain ⟨hopened,hopen⟩ := mem_filter.mp hmem
    exact h.quiet hquiet hopened (of_decide_eq_true hopen)
  refine ⟨le_trans ?_ hle,hstored⟩
  exact ((h.opened.filter _).subperm hstored).length_le

/-- Where sessions are stored in room only, the map never has more than fit. -/
theorem length_of_reached (h : Transitions.Reached (machine program).step (StoredInRoom capacity) (· = Calls.none)
    calls) : calls.shared.sessions.rows.length ≤ capacity := by
  have hstart : ∀ calls : Calls κ σ ρ ω ε Call, calls = Calls.none →
      calls.shared.sessions.rows.length ≤ capacity := by
    rintro _ rfl
    exact Nat.zero_le _
  apply h.invariant hstart
  intro calls turn calls' hle hallowed hstep
  cases turn with
  | start call =>
    cases hstep
    exact hle
  | advance i choice =>
    obtain ⟨call,action,next,answer,htask,hperform,-⟩ := (machine program).step_advance hstep
    apply perform_length hperform hle
    rintro new rfl
    exact hallowed i choice rfl call new next htask

end

end Mxterm.SessionCaches
