import Mxterm.SessionCaches

/-! Who has a session of a cache in hand, and that no request is started on a closed session as long as sessions are
closed that nobody else has in hand. -/
namespace Mxterm.SessionCaches

open List

open Interleavings (Program Machine Pool Turn)

variable {κ σ ρ ω ε Call α β : Type}

/-! ## In hand -/

/-- After these the call goes on with the session that it is given, or with none. -/
def Renews : Action κ σ ρ → Prop
  | .lookup _ => True
  | .entries => True
  | .connect _ _ => True
  | .store _ => True
  | _ => False

def StartsOn (handle : Handle κ σ) : Action κ σ ρ → Prop
  | .start target _ => target = handle
  | _ => False

/-- The sessions on which a call may start a request after this answer. -/
def Vouches : (action : Action κ σ ρ) → Answer ω ε action → Handle κ σ → Prop
  | .lookup _,found,handle => found = some handle
  | .entries,_,_ => False
  | .connect _ _,_,_ => False
  | .store _,.kept existing,handle => handle = existing
  | .store new,_,handle => handle = new
  | .close closed,_,handle => handle ≠ closed
  | _,_,_ => True

/-- The call may start a request on this session without getting it anew. -/
def InHand (handle : Handle κ σ) (p : Program (Action κ σ ρ) (Answer ω ε) Unit) : Prop :=
  p.Aims Renews (StartsOn handle) fun _ => False

/-- What a call may start requests on is what it was given; what comes behind it may use `K`. -/
def Frank (p : Program (Action κ σ ρ) (Answer ω ε) α) (K : α → Handle κ σ → Prop) : Prop :=
  p.Vouched Renews StartsOn Possible Vouches K

/-! ## Programs of the caches -/

def lookupHandle (connectionId : κ) : Program (Action κ σ ρ) (Answer ω ε) (Option (Handle κ σ)) :=
  .perform (Action.lookup connectionId)

def connect (connectionId : κ) (signature : σ) : Program (Action κ σ ρ) (Answer ω ε) (Except ε (Handle κ σ)) :=
  .perform (Action.connect connectionId signature)

def closeHandle (handle : Handle κ σ) : Program (Action κ σ ρ) (Answer ω ε) Unit := .perform (Action.close handle)

/-- A handle that is still the one in the map is taken out and closed. -/
def invalidateHandle (connectionId : κ) (handle : Handle κ σ) : Program (Action κ σ ρ) (Answer ω ε) Unit :=
  .act (.removeSame connectionId handle) fun
    | some stale => closeHandle stale
    | none => pure ()

/-- A new session is stored, or closed when there is one with its signature. -/
def keepOrStore (new : Handle κ σ) : Program (Action κ σ ρ) (Answer ω ε) (Handle κ σ) :=
  .act (.store new) fun
    | .kept existing => do
      closeHandle new
      return existing
    | .replaced existing => do
      closeHandle existing
      return new
    | .inserted => return new

def closeAll : List (Handle κ σ) → Program (Action κ σ ρ) (Answer ω ε) Unit
  | [] => return ()
  | handle :: handles => do
    closeHandle handle
    closeAll handles

/-- What is chosen from the keys is taken out, and closed. -/
def evictAndClose (choose : List κ → List κ) : Program (Action κ σ ρ) (Answer ω ε) Unit :=
  .act (.evict choose) closeAll

def now : Program (Action κ σ ρ) (Answer ω ε) ℕ := .perform Action.now

def lastUsed (handle : Handle κ σ) : Program (Action κ σ ρ) (Answer ω ε) ℕ := .perform (Action.lastUsed handle)

def entries : Program (Action κ σ ρ) (Answer ω ε) (List (Handle κ σ)) := .perform Action.entries

def touch (handle : Handle κ σ) (time : ℕ) : Program (Action κ σ ρ) (Answer ω ε) Unit :=
  .perform (Action.touch handle time)

def markUsed (handle : Handle κ σ) : Program (Action κ σ ρ) (Answer ω ε) Unit := do touch handle (← now)

def enter (handle : Handle κ σ) : Program (Action κ σ ρ) (Answer ω ε) Unit := .perform (Action.enter handle)

def leave (handle : Handle κ σ) : Program (Action κ σ ρ) (Answer ω ε) Unit := .perform (Action.leave handle)

def isBusy (handle : Handle κ σ) : Program (Action κ σ ρ) (Answer ω ε) Bool := .perform (Action.isBusy handle)

/-- A request runs under the lock of its session. -/
def runOn (handle : Handle κ σ) (request : ρ) : Program (Action κ σ ρ) (Answer ω ε) (Except ε ω) :=
  .act (.start handle request) fun _ => .perform (Action.finish handle)

section
variable {connectionId : κ} {handle other new : Handle κ σ}

/-- What a call is made of. -/
abbrev Work (κ σ ρ ω ε α : Type) := Program (Action κ σ ρ) (Answer ω ε) α

/-- The call may start a request on this session without getting it anew, or end so that `K` holds. -/
abbrev Reuses (handle : Handle κ σ) (p : Work κ σ ρ ω ε α) (K : α → Prop) : Prop := p.Aims Renews (StartsOn handle) K

theorem reuses_bind {p : Work κ σ ρ ω ε α} {f : α → Work κ σ ρ ω ε β} {K : β → Prop} :
    Reuses handle (p >>= f) K ↔ Reuses handle p fun result => Reuses handle (f result) K := Program.aims_bind

theorem aims_perform {action : Action κ σ ρ} {K : Answer ω ε action → Prop} (hstarts : ¬ StartsOn handle action)
    (h : Reuses handle (.perform action) K) : ∃ answer, K answer := (h.resolve_left hstarts).2

theorem not_aims_perform {action : Action κ σ ρ} {K : Answer ω ε action → Prop} (hstarts : ¬ StartsOn handle action)
    (hrenews : Renews action) : ¬ Reuses handle (.perform action) K := fun h => (h.resolve_left hstarts).1 hrenews

theorem not_aims_lookupHandle {K : Option (Handle κ σ) → Prop} :
    ¬ Reuses handle (lookupHandle connectionId : Work κ σ ρ ω ε (Option (Handle κ σ))) K :=
  not_aims_perform id trivial

theorem not_aims_connect {K : Except ε (Handle κ σ) → Prop} :
    ¬ Reuses handle (connect connectionId signature : Work κ σ ρ ω ε (Except ε (Handle κ σ))) K :=
  not_aims_perform id trivial

theorem not_aims_keepOrStore {K : Handle κ σ → Prop} : ¬ Reuses handle (keepOrStore new : Work κ σ ρ ω ε (Handle κ σ)) K
    := by
  rintro (h | ⟨h,-⟩)
  · exact h
  · exact h trivial

theorem aims_invalidateHandle {K : Unit → Prop} (h : Reuses handle (invalidateHandle connectionId other : Work κ σ ρ ω ε
    Unit) K) : K () := by
  obtain h | ⟨-,removed,h⟩ := h
  · exact h.elim
  · cases removed with
    | none => exact h
    | some stale =>
      obtain h | ⟨-,_,h⟩ := h
      · exact h.elim
      · exact h

theorem aims_runOn {request : ρ} {K : Except ε ω → Prop} (h : Reuses handle
    (runOn other request : Work κ σ ρ ω ε (Except ε ω)) K) :
    handle = other ∨ ∃ result, K result := by
  obtain h | ⟨-,_,h⟩ := h
  · exact .inl (Eq.symm h)
  · obtain h | ⟨-,result,h⟩ := h
    · exact h.elim
    · exact .inr ⟨result,h⟩

theorem aims_closeAll {handles : List (Handle κ σ)} {K : Unit → Prop} (h : Reuses handle
    (closeAll handles : Work κ σ ρ ω ε Unit) K) : K () := by
  induction handles with
  | nil => exact h
  | cons first handles ih =>
    obtain h | ⟨-,_,h⟩ := h
    · exact h.elim
    · exact ih h

theorem aims_evictAndClose {choose : List κ → List κ} {K : Unit → Prop}
    (h : Reuses handle (evictAndClose choose : Work κ σ ρ ω ε Unit) K) : K () := by
  obtain h | ⟨-,handles,h⟩ := h
  · exact h.elim
  · exact aims_closeAll h

theorem aims_now {K : ℕ → Prop} (h : Reuses handle (now : Work κ σ ρ ω ε ℕ) K) :
    ∃ time, K time :=
  aims_perform id h

theorem aims_lastUsed {K : ℕ → Prop} (h : Reuses handle (lastUsed other : Work κ σ ρ ω ε ℕ) K) : ∃ time, K time :=
  aims_perform id h

theorem not_aims_entries {K : List (Handle κ σ) → Prop} : ¬ Reuses handle (entries : Work κ σ ρ ω ε (List (Handle κ σ)))
    K :=
  not_aims_perform id trivial

theorem aims_touch {time : ℕ} {K : Unit → Prop} (h : Reuses handle (touch other time : Work κ σ ρ ω ε Unit) K) : K () :=
  (aims_perform id h).choose_spec

theorem aims_enter {K : Unit → Prop} (h : Reuses handle (enter other : Work κ σ ρ ω ε Unit) K) : K () :=
  (aims_perform id h).choose_spec

theorem aims_leave {K : Unit → Prop} (h : Reuses handle (leave other : Work κ σ ρ ω ε Unit) K) : K () :=
  (aims_perform id h).choose_spec

theorem aims_isBusy {K : Bool → Prop} (h : Reuses handle (isBusy other : Work κ σ ρ ω ε Bool) K) : ∃ busy, K busy :=
  aims_perform id h

theorem aims_markUsed {K : Unit → Prop} (h : Reuses handle (markUsed other : Work κ σ ρ ω ε Unit) K) : K () := by
  obtain ⟨_,h⟩ := aims_now (reuses_bind.mp h)
  exact aims_touch h

theorem frank_closeAll {handles : List (Handle κ σ)} : Frank (closeAll handles : Work κ σ ρ ω ε Unit) (fun _ _ => False)
    := by
  induction handles with
  | nil => trivial
  | cons first handles ih => exact fun _ _ => ⟨ih,fun _ h => (aims_closeAll h).elim⟩

theorem frank_evictAndClose {choose : List κ → List κ} : Frank (evictAndClose choose : Work κ σ ρ ω ε Unit)
    (fun _ _ => False) :=
  fun _ _ => ⟨frank_closeAll,fun _ _ => trivial⟩

theorem frank_now {K : ℕ → Handle κ σ → Prop} : Frank (now : Work κ σ ρ ω ε ℕ) K :=
  fun _ _ => ⟨trivial,fun _ _ => trivial⟩

theorem frank_lastUsed {K : ℕ → Handle κ σ → Prop} : Frank (lastUsed handle : Work κ σ ρ ω ε ℕ) K :=
  fun _ _ => ⟨trivial,fun _ _ => trivial⟩

theorem frank_entries : Frank (entries : Work κ σ ρ ω ε (List (Handle κ σ)))
    (fun _ _ => False) := fun _ _ => ⟨trivial,fun _ h => h⟩

theorem frank_touch {time : ℕ} {K : Unit → Handle κ σ → Prop} : Frank (touch handle time : Work κ σ ρ ω ε Unit) K :=
  fun _ _ => ⟨trivial,fun _ _ => trivial⟩

theorem frank_enter {K : Unit → Handle κ σ → Prop} : Frank (enter handle : Work κ σ ρ ω ε Unit) K :=
  fun _ _ => ⟨trivial,fun _ _ => trivial⟩

theorem frank_leave {K : Unit → Handle κ σ → Prop} : Frank (leave handle : Work κ σ ρ ω ε Unit) K :=
  fun _ _ => ⟨trivial,fun _ _ => trivial⟩

theorem frank_isBusy {K : Bool → Handle κ σ → Prop} : Frank (isBusy handle : Work κ σ ρ ω ε Bool) K :=
  fun _ _ => ⟨trivial,fun _ _ => trivial⟩

theorem frank_markUsed {K : Unit → Handle κ σ → Prop} : Frank (markUsed handle : Work κ σ ρ ω ε Unit) K :=
  fun _ _ => ⟨fun _ _ => ⟨trivial,fun _ _ => trivial⟩,fun _ _ => trivial⟩

theorem frank_runOn {request : ρ} : Frank (runOn other request : Work κ σ ρ ω ε (Except ε ω)) K :=
  fun _ _ => ⟨fun _ _ => ⟨trivial,fun _ _ => trivial⟩,fun _ _ => trivial⟩

theorem frank_lookupHandle : Frank (lookupHandle connectionId : Work κ σ ρ ω ε (Option (Handle κ σ)))
    (fun found handle => found = some handle) :=
  fun _ _ => ⟨trivial,fun _ h => h⟩

theorem frank_connect : Frank (connect connectionId signature : Work κ σ ρ ω ε (Except ε (Handle κ σ)))
    (fun _ _ => False) :=
  fun _ _ => ⟨trivial,fun _ h => h⟩

theorem frank_invalidateHandle : Frank (invalidateHandle connectionId handle : Work κ σ ρ ω ε Unit) (fun _ _ => False)
    := by
  intro removed _
  cases removed with
  | none => exact ⟨trivial,fun _ _ => trivial⟩
  | some stale => exact ⟨fun _ _ => ⟨trivial,fun _ h => h.elim⟩,fun _ _ => trivial⟩

theorem frank_keepOrStore : Frank (keepOrStore new : Work κ σ ρ ω ε (Handle κ σ))
    (fun result handle => handle = result) := by
  intro stored hstored
  cases stored with
  | kept existing =>
    refine ⟨fun _ _ => ⟨trivial,?_⟩,?_⟩
    · rintro _ rfl
      exact hstored.2.2
    · rintro _ (h | ⟨-,-,rfl⟩)
      · exact h.elim
      · rfl
  | replaced existing =>
    refine ⟨fun _ _ => ⟨trivial,?_⟩,?_⟩
    · rintro _ rfl
      exact Ne.symm hstored
    · rintro _ (h | ⟨-,-,rfl⟩)
      · exact h.elim
      · rfl
  | inserted => exact ⟨trivial,fun _ h => h⟩

end

variable [DecidableEq κ] [DecidableEq σ]

/-- A session is closed only while no other call has it in hand. -/
def ClosedUnused (calls : Calls κ σ ρ ω ε Call) (turn : Turn Call (Choice κ σ ω ε)) : Prop :=
  ∀ i choice, turn = .advance i choice →
    ∀ call handle next, calls.tasks[i]? = some ⟨call,.act (.close handle) next⟩ →
      ∀ j task, j ≠ i → calls.tasks[j]? = some task → ¬ InHand handle task.program

section
variable {Fits : ρ → Handle κ σ → Prop} {hands : Hands κ σ} {connectionId : κ} {signature : σ}
  {handle new : Handle κ σ} {K : Except ε ω → Handle κ σ → Prop}

theorem tidy_lookupHandle : Tidy Fits (lookupHandle connectionId : Work κ σ ρ ω ε (Option (Handle κ σ)))
      (fun found hands' => match found with
        | some handle => hands' = hands.meet handle ∧ handle.connectionId = connectionId
        | none => hands' = hands) hands := by
  refine ⟨trivial,fun found hfound => ?_⟩
  cases found with
  | none => rfl
  | some handle => exact ⟨rfl,hfound⟩

theorem tidy_closeHandle (howned : handle ∈ hands.owned) :
    Tidy Fits (closeHandle handle : Work κ σ ρ ω ε Unit)
      (fun _ hands' => hands' = hands.drop handle) hands := ⟨howned,fun _ _ => rfl⟩

theorem tidy_invalidateHandle : Tidy Fits (invalidateHandle connectionId handle : Work κ σ ρ ω ε Unit)
    (fun _ hands' => hands' = hands) hands := by
  refine ⟨trivial,fun removed _ => ?_⟩
  cases removed with
  | none => rfl
  | some stale =>
    apply (tidy_closeHandle mem_cons_self).mono
    simp [Hands.drop,Hands.take,handsAfter,usage]

theorem tidy_closeAll {handles rest : List (Handle κ σ)} (howned : hands.owned = handles ++ rest) :
    Tidy Fits (closeAll handles : Work κ σ ρ ω ε Unit)
      (fun _ hands' => hands'.owned = rest ∧ hands'.known = hands.known) hands := by
  induction handles generalizing hands with
  | nil => exact ⟨howned,rfl⟩
  | cons handle handles ih =>
    have hrest : (hands.drop handle).owned = handles ++ rest := by simp [Hands.drop,howned]
    apply Program.Meets.andThen (tidy_closeHandle (howned ▸ mem_cons_self))
    rintro _ _ rfl
    exact ih hrest

theorem tidy_evictAndClose {choose : List κ → List κ} : Tidy Fits (evictAndClose choose : Work κ σ ρ ω ε Unit)
    (fun _ hands' => hands' = hands) hands := by
  refine ⟨trivial,fun handles _ => ?_⟩
  apply Program.Meets.mono (tidy_closeAll rfl)
  rintro _ ⟨owned,known⟩ ⟨rfl,rfl⟩
  rfl

theorem tidy_now : Tidy Fits (now : Work κ σ ρ ω ε ℕ) (fun _ hands' => hands' = hands) hands :=
  ⟨trivial,fun _ _ => rfl⟩

theorem tidy_lastUsed : Tidy Fits (lastUsed handle : Work κ σ ρ ω ε ℕ)
    (fun _ hands' => hands' = hands) hands := ⟨trivial,fun _ _ => rfl⟩

theorem tidy_entries : Tidy Fits (entries : Work κ σ ρ ω ε (List (Handle κ σ)))
    (fun _ hands' => hands' = hands) hands := ⟨trivial,fun _ _ => rfl⟩

theorem tidy_touch {time : ℕ} : Tidy Fits (touch handle time : Work κ σ ρ ω ε Unit)
    (fun _ hands' => hands' = hands) hands := ⟨trivial,fun _ _ => rfl⟩

theorem tidy_enter : Tidy Fits (enter handle : Work κ σ ρ ω ε Unit)
    (fun _ hands' => hands' = hands) hands := ⟨trivial,fun _ _ => rfl⟩

theorem tidy_leave : Tidy Fits (leave handle : Work κ σ ρ ω ε Unit)
    (fun _ hands' => hands' = hands) hands := ⟨trivial,fun _ _ => rfl⟩

theorem tidy_isBusy : Tidy Fits (isBusy handle : Work κ σ ρ ω ε Bool)
    (fun _ hands' => hands' = hands) hands := ⟨trivial,fun _ _ => rfl⟩

theorem tidy_markUsed : Tidy Fits (markUsed handle : Work κ σ ρ ω ε Unit)
    (fun _ hands' => hands' = hands) hands := ⟨trivial,fun _ _ => ⟨trivial,fun _ _ => rfl⟩⟩

/-- The session that is used from here on. -/
def Usable (connectionId : κ) (signature : σ) (handle : Handle κ σ) (hands : Hands κ σ) : Prop :=
  hands.owned = [] ∧ handle ∈ hands.known ∧ handle.connectionId = connectionId ∧ handle.signature = signature

theorem tidy_keepOrStore (howned : hands.owned = [new]) (hknown : new ∈ hands.known) :
    Tidy Fits (keepOrStore new : Work κ σ ρ ω ε (Handle κ σ))
      (Usable new.connectionId new.signature) hands := by
  have hmem : new ∈ hands.owned := howned ▸ mem_singleton_self new
  refine ⟨hmem,fun stored hstored => ?_⟩
  cases stored with
  | kept existing =>
    refine ⟨hmem,fun _ _ => ⟨?_,mem_cons_self,hstored.1,hstored.2.1⟩⟩
    simp [usage,handsAfter,Hands.store,Hands.meet,Hands.drop,howned]
  | replaced existing =>
    refine ⟨mem_cons_self,fun _ _ => ⟨?_,hknown,rfl,rfl⟩⟩
    simp [usage,handsAfter,Hands.store,Hands.take,Hands.drop,howned]
  | inserted =>
    refine ⟨?_,hknown,rfl,rfl⟩
    simp [usage,handsAfter,Hands.store,Hands.drop,howned]

theorem tidy_connect (howned : hands.owned = []) :
    Tidy Fits (connect connectionId signature : Work κ σ ρ ω ε (Except ε (Handle κ σ)))
      (fun result hands' => match result with
        | .ok new => hands'.owned = [new] ∧ new ∈ hands'.known ∧ new.connectionId = connectionId ∧
          new.signature = signature
        | .error _ => hands'.owned = []) hands := by
  refine ⟨trivial,fun result hresult => ?_⟩
  cases result with
  | error error => exact howned
  | ok new =>
    refine ⟨?_,mem_cons_self,hresult⟩
    simp [usage,handsAfter,Hands.take,Hands.meet,howned]

theorem tidy_runOn {request : ρ} (hknown : handle ∈ hands.known) (hfits : Fits request handle) :
    Tidy Fits (runOn handle request : Work κ σ ρ ω ε (Except ε ω))
      (fun _ hands' => hands' = hands) hands :=
  ⟨⟨hknown,hfits⟩,fun _ _ => ⟨trivial,fun _ _ => rfl⟩⟩

end

/-- An answer that some state of the cache gives. -/
def Given (action : Action κ σ ρ) (answer : Answer ω ε action) : Prop :=
  ∃ choice w w', perform action choice w = some (answer,w')

theorem given_lookup {connectionId : κ} {handle : Handle κ σ}
    (h : Given (ρ := ρ) (ω := ω) (ε := ε) (.lookup connectionId) (some handle)) : handle.connectionId = connectionId :=
      by
  obtain ⟨_,w,_,hperform⟩ := h
  obtain ⟨hfound,-⟩ := Prod.mk.inj (Option.some.inj hperform)
  exact (Table.find?_eq_some_iff.mp hfound).2

theorem returns_lookupHandle {connectionId : κ} : (lookupHandle connectionId :
    Program (Action κ σ ρ) (Answer ω ε) (Option (Handle κ σ))).Returns Given fun found =>
      ∀ handle, found = some handle → handle.connectionId = connectionId := by
  rintro found hfound handle rfl
  exact given_lookup hfound

theorem given_connect {connectionId : κ} {signature : σ} {handle : Handle κ σ}
    (h : Given (ρ := ρ) (ω := ω) (ε := ε) (.connect connectionId signature) (.ok handle)) :
    handle.connectionId = connectionId ∧ handle.signature = signature := by
  obtain ⟨choice,w,_,hperform⟩ := h
  cases choice with
  | plain =>
    obtain ⟨hanswer,-⟩ := Prod.mk.inj (Option.some.inj hperform)
    cases hanswer
    exact ⟨rfl,rfl⟩
  | _ => cases hperform

theorem given_kept {new existing : Handle κ σ}
    (h : Given (ρ := ρ) (ω := ω) (ε := ε) (.store new) (.kept existing)) :
    existing.connectionId = new.connectionId ∧ existing.signature = new.signature := by
  obtain ⟨_,w,w',hperform⟩ := h
  have hpair : storeHandle new w = (.kept existing,w') := Option.some.inj hperform
  rcases storeHandle_cases new w with ⟨other,hother,hsignature,heq⟩ | ⟨other,-,heq⟩ | ⟨-,heq⟩
  · rw [heq] at hpair
    obtain ⟨hkept,-⟩ := Prod.mk.inj hpair
    obtain rfl : other = existing := Stored.kept.inj hkept
    exact ⟨(Table.find?_eq_some_iff.mp hother).2,hsignature⟩
  · rw [heq] at hpair
    cases (Prod.mk.inj hpair).1
  · rw [heq] at hpair
    cases (Prod.mk.inj hpair).1

/-- What is given out has the key and the signature of what was to be stored. -/
theorem returns_keepOrStore {new : Handle κ σ} : (keepOrStore new :
    Program (Action κ σ ρ) (Answer ω ε) (Handle κ σ)).Returns Given fun handle =>
      handle.connectionId = new.connectionId ∧ handle.signature = new.signature := by
  intro stored hstored
  cases stored with
  | kept existing => exact fun _ _ => given_kept hstored
  | replaced existing => exact fun _ _ => ⟨rfl,rfl⟩
  | inserted => exact ⟨rfl,rfl⟩

/-! ## The log -/

section
variable {w : World κ σ ρ} {handle : Handle κ σ}

omit [DecidableEq κ] [DecidableEq σ] in
theorem mem_closed : handle ∈ w.closed ↔ .closed handle ∈ w.log := by
  rw [World.closed,mem_filterMap]
  constructor
  · rintro ⟨happening,hmem,heq⟩
    cases happening with
    | closed other =>
      obtain rfl := Option.some.inj heq
      exact hmem
    | _ => cases heq
  · exact fun h => ⟨_,h,rfl⟩

omit [DecidableEq κ] [DecidableEq σ] in
theorem runsOnOpen_note {happening : Happening κ σ ρ} (h : w.RunsOnOpen)
    (hnew : ∀ request handle, happening = .started request handle → handle ∉ w.closed) :
    (w.note happening).RunsOnOpen := by
  intro before request handle after heq hclosed
  rw [World.note_log] at heq
  rcases eq_nil_or_concat after with rfl | ⟨after,last,rfl⟩
  · obtain ⟨rfl,hlast⟩ := append_inj' heq rfl
    exact hnew request handle (singleton_inj.mp hlast) (mem_closed.mpr hclosed)
  · rw [concat_eq_append,← cons_append,← append_assoc] at heq
    exact h before request handle after (append_inj' heq rfl).1 hclosed

end

/-! ## What an action does to the log -/

section
variable {Fits : ρ → Handle κ σ → Prop} {w w' : World κ σ ρ} {ls : List (Hands κ σ)} {hands : Hands κ σ} {i : ℕ}
  {action : Action κ σ ρ} {choice : Choice κ σ ω ε} {answer : Answer ω ε action}

/-- Only an opening, a start and a close are noted. -/
theorem perform_log (h : perform action choice w = some (answer,w')) :
    w'.log = w.log ∨ (∃ handle, w'.log = w.log ++ [.opened handle]) ∨
      (∃ handle request, action = .start handle request ∧ w'.log = w.log ++ [.started request handle]) ∨
      ∃ handle, action = .close handle ∧ w'.log = w.log ++ [.closed handle] := by
  cases action with
  | entries =>
    cases choice with
    | order handles =>
      simp only [perform] at h
      split_ifs at h
      cases h
      exact .inl rfl
    | _ => cases h
  | connect connectionId signature =>
    cases choice with
    | fails error =>
      cases h
      exact .inl rfl
    | plain =>
      cases h
      exact .inr (.inl ⟨_,rfl⟩)
    | _ => cases h
  | store handle =>
    have hpair : storeHandle handle w = (answer,w') := Option.some.inj h
    rcases storeHandle_cases handle w with ⟨_,_,_,heq⟩ | ⟨_,_,heq⟩ | ⟨_,heq⟩ <;> rw [heq] at hpair <;> cases hpair <;>
      exact .inl rfl
  | removeSame connectionId handle =>
    have hpair : removeHandle connectionId handle w = (answer,w') := Option.some.inj h
    rcases removeHandle_cases connectionId handle w with ⟨_,_,_,heq⟩ | heq <;> rw [heq] at hpair <;> cases hpair <;>
      exact .inl rfl
  | evict choose =>
    cases choice with
    | order handles =>
      simp only [perform] at h
      split_ifs at h
      cases h
      exact .inl rfl
    | _ => cases h
  | close handle =>
    simp only [perform] at h
    split_ifs at h
    cases h
    exact .inr (.inr (.inr ⟨handle,rfl,rfl⟩))
  | start handle request =>
    simp only [perform] at h
    split_ifs at h
    cases h
    exact .inr (.inr (.inl ⟨handle,request,rfl,rfl⟩))
  | finish handle =>
    cases choice with
    | fails error =>
      cases h
      exact .inl rfl
    | output output =>
      cases h
      exact .inl rfl
    | _ => cases h
  | now =>
    cases choice with
    | clock time =>
      cases h
      exact .inl rfl
    | _ => cases h
  | _ =>
    cases h
    exact .inl rfl

/-- What a call is given is not closed. -/
theorem vouched_open (h : Sound Fits w ls) (hhands : ls[i]? = some hands) (hneeds : Needs Fits action hands)
    (hrenews : Renews action) (hperform : perform action choice w = some (answer,w')) {handle : Handle κ σ}
    (hvouches : Vouches action answer handle) : handle ∉ w.closed := by
  cases action with
  | lookup connectionId =>
    obtain ⟨hanswer,-⟩ := Prod.mk.inj (Option.some.inj hperform)
    have hfound : w.sessions.find? connectionId = some handle := hanswer.trans hvouches
    exact (h.of_stored (Table.find?_eq_some_iff.mp hfound).1).2
  | entries | connect => exact hvouches.elim
  | store new =>
    have hpair : storeHandle new w = (answer,w') := Option.some.inj hperform
    have hnew : new ∉ w.closed := h.owned_open hhands hneeds
    rcases storeHandle_cases new w with ⟨existing,hexisting,-,heq⟩ | ⟨existing,-,heq⟩ | ⟨-,heq⟩
    · rw [heq] at hpair
      cases hpair
      obtain rfl : handle = existing := hvouches
      exact (h.of_stored (Table.find?_eq_some_iff.mp hexisting).1).2
    · rw [heq] at hpair
      cases hpair
      obtain rfl : handle = new := hvouches
      exact hnew
    · rw [heq] at hpair
      cases hpair
      obtain rfl : handle = new := hvouches
      exact hnew
  | _ => exact hrenews.elim

end

/-! ## Runs -/

section
variable {Fits : ρ → Handle κ σ → Prop} {program : Call → Program (Action κ σ ρ) (Answer ω ε) Unit}
  {calls calls' : Calls κ σ ρ ω ε Call}

structure Unspoilt (calls : Calls κ σ ρ ω ε Call) : Prop where
  frank : ∀ task ∈ calls.tasks, Frank task.program fun _ _ => False
  inHand : ∀ task ∈ calls.tasks, ∀ handle, InHand handle task.program → handle ∉ calls.shared.closed
  runsOnOpen : calls.shared.RunsOnOpen

omit [DecidableEq κ] [DecidableEq σ] in
theorem Unspoilt.start (h : Unspoilt calls) (hfrank : ∀ call, Frank (program call) fun _ _ => False)
    (hempty : ∀ call handle, ¬ InHand handle (program call)) (call : Call) :
    Unspoilt { calls with tasks := calls.tasks ++ [⟨call,program call⟩] } where
  frank task htask := by
    rcases mem_append.mp htask with htask | htask
    · exact h.frank task htask
    · obtain rfl := mem_singleton.mp htask
      exact hfrank call
  inHand task htask handle hhand := by
    rcases mem_append.mp htask with htask | htask
    · exact h.inHand task htask handle hhand
    · obtain rfl := mem_singleton.mp htask
      exact (hempty call handle hhand).elim
  runsOnOpen := h.runsOnOpen

theorem Unspoilt.advance (h : Unspoilt calls) (haccounted : Accounted Fits calls) {i : ℕ} {choice : Choice κ σ ω ε}
    (hallowed : ClosedUnused calls (.advance i choice))
    (hstep : (machine program).step calls (.advance i choice) = some calls') : Unspoilt calls' := by
  obtain ⟨call,action,next,answer,htask,hperform,htasks⟩ := (machine program).step_advance hstep
  obtain ⟨ls,hsound,hprovided⟩ := haccounted
  obtain ⟨hands,hhands,hneeds,-⟩ := Interleavings.forall₂_getElem? hprovided htask
  have hold : (⟨call,.act action next⟩ : Interleavings.Task Call _ _) ∈ calls.tasks := mem_of_getElem? htask
  have hnext := h.frank _ hold answer (hsound.possible hhands hneeds hperform)
  have hclosed : ∀ handle, handle ∈ calls'.shared.closed → handle ∈ calls.shared.closed ∨ action = .close handle := by
    intro handle hmem
    rw [mem_closed] at hmem ⊢
    rcases perform_log hperform with hlog | ⟨other,hlog⟩ | ⟨other,request,-,hlog⟩ | ⟨other,haction,hlog⟩ <;>
      rw [hlog] at hmem
    · exact .inl hmem
    · exact .inl (by simpa using hmem)
    · exact .inl (by simpa using hmem)
    · rcases mem_append.mp hmem with hmem | hmem
      · exact .inl hmem
      · obtain rfl : handle = other := by simpa using hmem
        exact .inr haction
  constructor
  · intro task hmem
    rw [htasks] at hmem
    rcases mem_or_eq_of_mem_set hmem with hmem | rfl
    · exact h.frank task hmem
    · exact hnext.1
  · intro task hmem handle hhand hbad
    rw [htasks] at hmem
    obtain ⟨j,hj⟩ := mem_iff_getElem?.mp hmem
    rcases Interleavings.getElem?_set_cases hj with ⟨rfl,rfl⟩ | ⟨hne,hother⟩
    · -- the call whose turn it is: it was given the session, or it had it
      have hvouches := hnext.2 handle hhand
      by_cases hrenews : Renews action
      · rcases hclosed handle hbad with hbad | rfl
        · exact vouched_open hsound hhands hneeds hrenews hperform hvouches hbad
        · exact hrenews
      · rcases hclosed handle hbad with hbad | rfl
        · exact h.inHand _ hold handle (.inr ⟨hrenews,answer,hhand⟩) hbad
        · exact hvouches rfl
    · rcases hclosed handle hbad with hbad | rfl
      · exact h.inHand task (mem_of_getElem? hother) handle hhand hbad
      · exact hallowed i choice rfl call handle next htask j task hne hother hhand
  · have hlog := perform_log hperform
    have hstart : ∀ request handle, action = .start handle request → handle ∉ calls.shared.closed := by
      rintro request handle rfl
      exact h.inHand _ hold handle (.inl rfl)
    have hnote : ∀ happening, calls'.shared.log = calls.shared.log ++ [happening] →
        (∀ request handle, happening = .started request handle → action = .start handle request) →
        calls'.shared.RunsOnOpen := by
      intro happening heq haction before request handle after hsplit
      rw [heq] at hsplit
      exact runsOnOpen_note h.runsOnOpen (fun request handle hstarted => hstart request handle
        (haction request handle hstarted)) before request handle after hsplit
    rcases hlog with hlog | ⟨other,hlog⟩ | ⟨other,request,haction,hlog⟩ | ⟨other,haction,hlog⟩
    · intro before request handle after hsplit
      rw [hlog] at hsplit
      exact h.runsOnOpen before request handle after hsplit
    · exact hnote _ hlog fun _ _ heq => nomatch heq
    · refine hnote _ hlog fun _ _ heq => ?_
      cases heq
      exact haction
    · exact hnote _ hlog fun _ _ heq => nomatch heq

/-- As long as nobody closes a session that another call has in hand, requests run on open sessions only. -/
theorem runsOnOpen_of_reached
    (htidy : ∀ call, Tidy Fits (program call) (fun _ hands => hands.owned = []) ⟨[],[]⟩)
    (hfrank : ∀ call, Frank (program call) fun _ _ => False) (hempty : ∀ call handle, ¬ InHand handle (program call))
    {allowed : Calls κ σ ρ ω ε Call → Turn Call (Choice κ σ ω ε) → Prop}
    (hallowed : ∀ calls turn, allowed calls turn → ClosedUnused calls turn)
    (h : Transitions.Reached (machine program).step allowed (· = Calls.none) calls) : calls.shared.RunsOnOpen := by
  have hstart : ∀ calls : Calls κ σ ρ ω ε Call, calls = Calls.none → Accounted Fits calls ∧ Unspoilt calls := by
    rintro _ rfl
    refine ⟨⟨[],sound_empty,.nil⟩,?_,?_,?_⟩
    · intro task hmem
      cases hmem
    · intro task hmem
      cases hmem
    · intro before request handle after heq
      cases before <;> cases heq
  have hkeeps := h.invariant hstart fun calls turn calls' hinv hturn hstep => by
    refine ⟨hinv.1.step htidy hstep,?_⟩
    cases turn with
    | start call =>
      cases hstep
      exact hinv.2.start hfrank hempty call
    | advance i choice => exact hinv.2.advance hinv.1 (hallowed calls _ hturn) hstep
  exact hkeeps.2.runsOnOpen

end

end Mxterm.SessionCaches
