import Mxterm.Transitions

/-! The native window that hosts remote desktop sessions as tabs (`rdp.rs`): its commands, its mouse and its message
loop. -/
namespace Mxterm.NativeRdpHost

open List hiding getElem?_eq_some_iff

/-! ## Where the mouse is -/

structure Rect where
  left : ℤ
  top : ℤ
  right : ℤ
  bottom : ℤ

/-- A mouse message, with what the window says of itself at that moment. -/
structure Pointer where
  dpi : ℕ
  clientWidth : ℤ
  x : ℤ
  y : ℤ

def windowDpi (p : Pointer) : ℕ := if p.dpi = 0 then 96 else p.dpi

def scaleDipValue (value : ℤ) (p : Pointer) : ℤ := (value * min (max (windowDpi p) 1) 2147483647 + 48) / 96

def chromeHeight (p : Pointer) : ℤ := scaleDipValue 36 p

def tabHeight (p : Pointer) : ℤ := scaleDipValue 26 p

def pointInRect (p : Pointer) (r : Rect) : Bool := r.left ≤ p.x && p.x < r.right && r.top ≤ p.y && p.y < r.bottom

inductive RdpHostChromeButton
  | minimize | maximize | close
  deriving DecidableEq

def nativeHostButtonRects (p : Pointer) : Rect × Rect × Rect :=
  let width := max (scaleDipValue 46 p) 36
  let height := max (chromeHeight p) 1
  let closeRight := max p.clientWidth 0
  let maxRight := max (closeRight - width) 0
  let minRight := max (maxRight - width) 0
  let minLeft := max (minRight - width) 0
  (⟨minLeft,0,minRight,height⟩,⟨minRight,0,maxRight,height⟩,⟨maxRight,0,closeRight,height⟩)

def nativeHostButtonForPoint (p : Pointer) : Option RdpHostChromeButton :=
  let (minimize,maximize,close) := nativeHostButtonRects p
  if pointInRect p minimize then some .minimize
  else if pointInRect p maximize then some .maximize
  else if pointInRect p close then some .close
  else none

/-- The tabs from the left, as far as there is room for them. -/
def layTabs (width gap top height bound : ℤ) : ℕ → ℕ → ℤ → List (ℕ × Rect)
  | 0, _, _ => []
  | count + 1, index, left =>
    let right := min (left + width) bound
    if right ≤ left then []
    else (index,⟨left,top,right,top + height⟩) :: layTabs width gap top height bound count (index + 1) (right + gap)

def nativeHostTabRects (p : Pointer) (count : ℕ) : List (ℕ × Rect) :=
  let top := max ((chromeHeight p - tabHeight p) / 2) 0
  let height := max (tabHeight p) 1
  let leftPadding := max (scaleDipValue 14 p) 10
  let rightPadding := max (scaleDipValue 150 p) 132 + max (scaleDipValue 8 p) 6
  let gap := max (scaleDipValue 4 p) 3
  let available := max (p.clientWidth - leftPadding - rightPadding) 0
  if available ≤ 0 ∨ count = 0 then []
  else
    let width := max (max (available - gap * (count - 1)) 1 / count) 1
    let width := min (max width (max (scaleDipValue 112 p) 72)) (max (scaleDipValue 160 p) 112)
    layTabs width gap top height (p.clientWidth - rightPadding) count 0 leftPadding

def nativeHostTabForPoint (p : Pointer) (count : ℕ) : Option ℕ :=
  (nativeHostTabRects p count).findSome? fun (index,r) => if pointInRect p r then some index else none

def nativeHostTabCloseRect (p : Pointer) (r : Rect) : Rect :=
  let size := max (scaleDipValue 20 p) 16
  let right := r.right - max (scaleDipValue 6 p) 5
  let top := r.top + max ((r.bottom - r.top - size) / 2) 0
  ⟨right - size,top,right,top + size⟩

def nativeHostTabCloseForPoint (p : Pointer) (count : ℕ) : Option ℕ :=
  (nativeHostTabRects p count).findSome? fun (index,r) =>
    if pointInRect p (nativeHostTabCloseRect p r) then some index else none

variable {count index : ℕ}

theorem lt_of_mem_layTabs {width gap top height bound left : ℤ} {first : ℕ} {r : Rect}
    (h : (index,r) ∈ layTabs width gap top height bound count first left) : index < first + count := by
  induction count generalizing first left with
  | zero => cases h
  | succ count ih =>
    simp only [layTabs] at h
    split at h
    · cases h
    · rcases mem_cons.mp h with heq | hmem
      · cases heq
        omega
      · have := ih hmem
        omega

variable {p : Pointer}

theorem lt_of_mem_tabRects {r : Rect} (h : (index,r) ∈ nativeHostTabRects p count) : index < count := by
  simp only [nativeHostTabRects] at h
  split at h
  · cases h
  · have := lt_of_mem_layTabs h
    omega

/-- Only a session that there is has a button under the mouse. -/
theorem tabClose_lt (h : nativeHostTabCloseForPoint p count = some index) : index < count := by
  obtain ⟨⟨i,r⟩,hmem,heq⟩ := exists_of_findSome?_eq_some h
  simp only [Option.ite_none_right_eq_some, Option.some.injEq] at heq
  rw [← heq.2]
  exact lt_of_mem_tabRects hmem

/-! ## The host -/

inductive NativeRdpHostCommand
  | addSession (sessionId : String)
  | closeSession (sessionId : String)
  | activateSession (sessionId : String)
  | resize
  deriving DecidableEq

/-- The window and its message loop. While the commands are processed, `draining` has what `keep_running` is. A posted
`WM_CLOSE` comes from the user or from the host, when it has become empty. What the code does not keep: `pressedOn` is
the session whose button the mouse was pressed on, and `displaced` says that a session at or before that tab has been
removed since. -/
structure Host where
  sessions : List String
  activeIndex : ℕ
  chromePressedButton : Option RdpHostChromeButton
  chromePressedTabClose : Option ℕ
  commands : List NativeRdpHostCommand
  draining : Option Bool
  closePosted : Bool
  closeAsked : Bool
  quitPosted : Bool
  window : Bool
  running : Bool
  pressedOn : Option String
  displaced : Bool

namespace Host

/-- The host as it is when its first session has been answered. -/
def launched (sessionId : String) : Host where
  sessions := [sessionId]
  activeIndex := 0
  chromePressedButton := none
  chromePressedTabClose := none
  commands := []
  draining := none
  closePosted := false
  closeAsked := false
  quitPosted := false
  window := true
  running := true
  pressedOn := none
  displaced := false

def addActivexHostSession (h : Host) (sessionId : String) : Host :=
  { h with sessions := h.sessions ++ [sessionId], activeIndex := (h.sessions ++ [sessionId]).length - 1 }

/-- A session is taken out of the tabs. -/
def removeAt (h : Host) (index : ℕ) : Host :=
  let sessions := h.sessions.eraseIdx index
  { h with
    sessions
    activeIndex :=
      if sessions = [] then h.activeIndex
      else if index < h.activeIndex then h.activeIndex - 1
      else min h.activeIndex (sessions.length - 1)
    displaced := h.displaced || h.chromePressedTabClose.any fun pressed => decide (index ≤ pressed) }

def closeActivexHostSession (h : Host) (sessionId : String) (emitClosed : Bool) : Host :=
  match h.sessions.idxOf? sessionId with
  | none => h
  | some index =>
    let closed := h.removeAt index
    { closed with closePosted := h.closePosted || (emitClosed && decide (closed.sessions = [])) }

def activateActivexTab (h : Host) (index : ℕ) : Host :=
  if index < h.sessions.length then { h with activeIndex := index } else h

/-- One round of `process_native_host_commands`. Whether a session can be added is up to its control. -/
def processCommand (h : Host) (succeeds : Bool) : NativeRdpHostCommand → Host
  | .addSession sessionId => if succeeds then h.addActivexHostSession sessionId else h
  | .closeSession sessionId =>
    let closed := h.closeActivexHostSession sessionId false
    { closed with
      closePosted := closed.closePosted || decide (closed.sessions = [])
      draining := some (!decide (closed.sessions = [])) }
  | .activateSession sessionId =>
    match h.sessions.idxOf? sessionId with
    | some index => h.activateActivexTab index
    | none => h
  | .resize => h

def handleLeftButtonDown (h : Host) (p : Pointer) : Host :=
  match nativeHostButtonForPoint p with
  | some button => { h with chromePressedButton := some button }
  | none =>
    match nativeHostTabCloseForPoint p h.sessions.length with
    | some index =>
      { h with chromePressedTabClose := some index, pressedOn := h.sessions[index]?, displaced := false }
    | none =>
      match nativeHostTabForPoint p h.sessions.length with
      | some index => h.activateActivexTab index
      | none => h

def clearPressState (h : Host) : Host :=
  { h with chromePressedButton := none, chromePressedTabClose := none, pressedOn := none, displaced := false }

def handleLeftButtonUp (h : Host) (p : Pointer) : Host :=
  match h.chromePressedButton with
  | some button =>
    if nativeHostButtonForPoint p = some button ∧ button = .close then { h.clearPressState with closeAsked := true }
    else h.clearPressState
  | none =>
    match h.chromePressedTabClose with
    | some index =>
      if nativeHostTabCloseForPoint p h.sessions.length = some index then
        match h.sessions[index]? with
        | some sessionId => h.clearPressState.closeActivexHostSession sessionId true
        | none => h.clearPressState
      else h.clearPressState
    | none => h.clearPressState

/-! ## Steps -/

inductive Event
  | send (command : NativeRdpHostCommand)
  | begin
  | command (succeeds : Bool)
  | finish
  | press (p : Pointer)
  | release (p : Pointer)
  | captureChanged
  | askClose
  | close
  | quit

/-- A message can reach the window. -/
def ready (h : Host) : Bool := h.running && h.window && h.draining.isNone

/-- The senders are other threads. Everything else is done by the thread of the window, one message after the other, and
the commands of a drain one by one. -/
def step (h : Host) : Event → Option Host
  | .send command => some { h with commands := h.commands ++ [command] }
  | .begin => if h.ready then some { h with draining := some true } else none
  | .command succeeds =>
    match h.draining, h.commands with
    | some _, command :: commands => some ({ h with commands }.processCommand succeeds command)
    | _, _ => none
  | .finish =>
    match h.draining, h.commands with
    | some keepRunning, [] => some { h with draining := none, quitPosted := h.quitPosted || !keepRunning }
    | _, _ => none
  | .press p => if h.ready then some (h.handleLeftButtonDown p) else none
  | .release p => if h.ready then some (h.handleLeftButtonUp p) else none
  | .captureChanged => if h.ready then some h.clearPressState else none
  | .askClose => if h.ready then some { h with closeAsked := true } else none
  | .close =>
    -- the window is destroyed, and so is the way to its state
    if h.ready && (h.closePosted || h.closeAsked) then some { h with window := false, quitPosted := true } else none
  | .quit =>
    -- the loop ends, and with it everything that it has hosted
    if h.running && h.draining.isNone && h.quitPosted then
      some { h.clearPressState with sessions := [], window := false, running := false }
    else none

/-! ## What is to hold -/

def Hosts (h : Host) (s : String) : Prop := h.running = true ∧ h.window = true ∧ s ∈ h.sessions

/-- The session is closed by a command for it, by a click on its own button, or with the window by the user. -/
def Dismisses (h : Host) (s : String) : Event → Prop
  | .command _ => h.commands.head? = some (.closeSession s)
  | .release p => h.pressedOn = some s ∧
      ∃ index, nativeHostTabCloseForPoint p h.sessions.length = some index ∧ h.sessions[index]? = some s
  | .close => h.closeAsked = true
  | _ => False

/-- A session is activated, by a command or by the mouse. -/
def Activates (h : Host) : Event → Prop
  | .command _ => ∃ s, h.commands.head? = some (.activateSession s) ∧ s ∈ h.sessions
  | .press p => ∃ index, nativeHostTabForPoint p h.sessions.length = some index
  | _ => False

structure Keeps (h : Host) (e : Event) (h' : Host) : Prop where
  kept : ∀ s, h.Hosts s → h'.Hosts s ∨ h.Dismisses s e
  added : ∀ s, e = .command true → h.commands.head? = some (.addSession s) → h'.Hosts s
  inRange : h'.sessions ≠ [] → h'.activeIndex < h'.sessions.length
  sameActive : ∀ s, h.sessions[h.activeIndex]? = some s → h'.sessions[h'.activeIndex]? = some s ∨
    h'.sessions.count s < h.sessions.count s ∨ h.sessions.length < h'.sessions.length ∨ h.Activates e
  released : ∀ p, e = .release p →
    h'.sessions = h.sessions ∨ ∃ s, h.pressedOn = some s ∧ h'.sessions = h.sessions.erase s

/-- No session is added when the host has already told itself to close or to quit; and the mouse is not released on the
tab that it was pressed on, when a session at or before that tab has been removed since. -/
structure InOrder (h : Host) (e : Event) : Prop where
  adds : ∀ s, e = .command true → h.commands.head? = some (.addSession s) → h.closePosted = false ∧ h.quitPosted = false
  releases : ∀ p index, e = .release p → h.chromePressedButton = none → h.chromePressedTabClose = some index →
    nativeHostTabCloseForPoint p h.sessions.length = some index → h.displaced = false

/-! ## A session is taken out -/

variable {h h' : Host} {index : ℕ} {s sessionId : String} {emitClosed succeeds : Bool} {e : Event} {p : Pointer}

theorem removeAt_inRange (hne : (h.removeAt index).sessions ≠ []) (hindex : index < h.sessions.length)
    (hactive : h.activeIndex < h.sessions.length) :
    (h.removeAt index).activeIndex < (h.removeAt index).sessions.length := by
  have hlength : (h.removeAt index).sessions.length = h.sessions.length - 1 := length_eraseIdx_of_lt hindex
  have hpos := length_pos_iff.mpr hne
  have heq : (h.removeAt index).activeIndex = if (h.removeAt index).sessions = [] then h.activeIndex
      else if index < h.activeIndex then h.activeIndex - 1
      else min h.activeIndex ((h.removeAt index).sessions.length - 1) := rfl
  rw [heq, if_neg hne]
  split_ifs <;> omega

/-- The active tab shows what it has shown, when another one is taken out. -/
theorem removeAt_active (hindex : index < h.sessions.length) (hne : h.activeIndex ≠ index)
    (hactive : h.activeIndex < h.sessions.length) :
    (h.removeAt index).sessions[(h.removeAt index).activeIndex]? = h.sessions[h.activeIndex]? := by
  have hlength : (h.removeAt index).sessions.length = h.sessions.length - 1 := length_eraseIdx_of_lt hindex
  have hsome : (h.removeAt index).sessions ≠ [] := by
    apply length_pos_iff.mp
    omega
  have heq : (h.removeAt index).activeIndex = if (h.removeAt index).sessions = [] then h.activeIndex
      else if index < h.activeIndex then h.activeIndex - 1
      else min h.activeIndex ((h.removeAt index).sessions.length - 1) := rfl
  have hget : ∀ j, (h.removeAt index).sessions[j]? = if j < index then h.sessions[j]? else h.sessions[j + 1]? :=
    fun j => getElem?_eraseIdx
  rw [heq, if_neg hsome, hget]
  by_cases hlt : index < h.activeIndex
  · rw [if_pos hlt, if_neg (by omega), Nat.sub_add_cancel (by omega)]
  · rw [if_neg hlt, if_pos (by omega), Nat.min_eq_left (by omega)]

theorem close_sessions : (h.closeActivexHostSession sessionId emitClosed).sessions = h.sessions.erase sessionId := by
  rw [erase_eq_eraseIdx]
  unfold closeActivexHostSession
  cases h.sessions.idxOf? sessionId <;> rfl

/-- A close changes the tabs, and may post that the window is to be closed. -/
theorem close_cases (h : Host) (sessionId : String) (emitClosed : Bool) :
    h.closeActivexHostSession sessionId emitClosed = h ∧ sessionId ∉ h.sessions ∨
    ∃ index posted, h.closeActivexHostSession sessionId emitClosed = { h.removeAt index with closePosted := posted } ∧
      index < h.sessions.length ∧ h.sessions[index]? = some sessionId ∧
      (posted = true → h.closePosted = true ∨ (h.removeAt index).sessions = []) := by
  unfold closeActivexHostSession
  split
  · exact .inl ⟨rfl,idxOf?_eq_none_iff.mp ‹_›⟩
  · rename_i index heq
    obtain ⟨hlt,hget,-⟩ := idxOf?_eq_some_iff.mp heq
    refine .inr ⟨index,_,rfl,hlt,?_,?_⟩
    · rw [getElem?_eq_getElem hlt, hget]
    · intro hposted
      rcases Bool.or_eq_true_iff.mp hposted with hposted | hposted
      · exact .inl hposted
      · exact .inr (of_decide_eq_true (Bool.and_eq_true_iff.mp hposted).2)

theorem close_window : (h.closeActivexHostSession sessionId emitClosed).running = h.running ∧
    (h.closeActivexHostSession sessionId emitClosed).window = h.window := by
  unfold closeActivexHostSession
  cases h.sessions.idxOf? sessionId <;> exact ⟨rfl,rfl⟩

theorem close_inRange (hactive : h.sessions ≠ [] → h.activeIndex < h.sessions.length)
    (hne : (h.closeActivexHostSession sessionId emitClosed).sessions ≠ []) :
    (h.closeActivexHostSession sessionId emitClosed).activeIndex <
      (h.closeActivexHostSession sessionId emitClosed).sessions.length := by
  rcases close_cases h sessionId emitClosed with ⟨heq,_⟩ | ⟨index,posted,heq,hindex,_⟩
  · rw [heq] at hne ⊢
    exact hactive hne
  · rw [heq] at hne ⊢
    exact removeAt_inRange hne hindex (hactive (ne_nil_of_length_pos (by omega)))

theorem close_active (hget : h.sessions[h.activeIndex]? = some s) :
    (h.closeActivexHostSession sessionId emitClosed).sessions[(h.closeActivexHostSession sessionId
      emitClosed).activeIndex]? = some s ∨
    (h.closeActivexHostSession sessionId emitClosed).sessions.count s < h.sessions.count s := by
  rcases close_cases h sessionId emitClosed with ⟨heq,_⟩ | ⟨index,posted,heq,hindex,hid,_⟩
  · rw [heq]
    exact .inl hget
  · by_cases hactive : h.activeIndex = index
    · rw [hactive] at hget
      cases hget.symm.trans hid
      rw [close_sessions]
      have hpos := count_pos_iff.mpr (mem_of_getElem? hid)
      rw [count_erase_self]
      omega
    · left
      rw [heq]
      obtain ⟨hlt,_⟩ := List.getElem?_eq_some_iff.mp hget
      exact (removeAt_active hindex hactive hlt).trans hget

/-! ## The invariant -/

structure Inv (h : Host) : Prop where
  inRange : h.sessions ≠ [] → h.activeIndex < h.sessions.length
  pending : h.closePosted = true → h.sessions = []
  stopping : h.draining = some false → h.closePosted = true
  quitting : h.quitPosted = true → h.window = true → h.closePosted = true
  pressed : ∀ index, h.chromePressedTabClose = some index → h.displaced = false →
    ∃ s, h.pressedOn = some s ∧ h.sessions[index]? = some s
  drains : h.draining ≠ none → h.running = true ∧ h.window = true

theorem inv_launched (sessionId : String) : Inv (launched sessionId) where
  inRange _ := Nat.zero_lt_one
  drains _ := ⟨rfl,rfl⟩
  pending h := by cases h
  stopping h := by cases h
  quitting h := by cases h
  pressed _ h := by cases h

/-- Taking a session out keeps what the mouse was pressed on, or says that it does not. -/
theorem Inv.removed_pressed (hinv : Inv h) {i : ℕ} (htab : h.chromePressedTabClose = some i)
    (hdisplaced : (h.removeAt index).displaced = false) :
    ∃ s, h.pressedOn = some s ∧ (h.removeAt index).sessions[i]? = some s := by
  have heq : (h.removeAt index).displaced = (h.displaced || decide (index ≤ i)) := by
    simp [removeAt, htab]
  rw [heq, Bool.or_eq_false_iff, decide_eq_false_iff_not] at hdisplaced
  have hget : (h.removeAt index).sessions[i]? = if i < index then h.sessions[i]? else h.sessions[i + 1]? :=
    getElem?_eraseIdx
  rw [hget, if_pos (Nat.not_le.mp hdisplaced.2)]
  exact hinv.pressed i htab hdisplaced.1

theorem Inv.closed (hinv : Inv h) (sessionId : String) (emitClosed : Bool) :
    Inv (h.closeActivexHostSession sessionId emitClosed) := by
  unfold closeActivexHostSession
  split
  · exact hinv
  · rename_i index heq
    obtain ⟨hlt,-,-⟩ := idxOf?_eq_some_iff.mp heq
    have hclosed : h.closePosted = true → (h.closePosted || (emitClosed && decide ((h.removeAt index).sessions = []))) =
        true := by
      intro hclose
      rw [hclose, Bool.true_or]
    exact {
      inRange hne := removeAt_inRange hne hlt (hinv.inRange (ne_nil_of_length_pos (by omega)))
      pending hclose := by
        rcases Bool.or_eq_true_iff.mp hclose with hclose | hempty
        · exact absurd hlt (by simp [hinv.pending hclose])
        · exact of_decide_eq_true (Bool.and_eq_true_iff.mp hempty).2
      stopping hdraining := hclosed (hinv.stopping hdraining)
      quitting hquit hwindow := hclosed (hinv.quitting hquit hwindow)
      pressed _ htab hdisplaced := hinv.removed_pressed htab hdisplaced
      drains := hinv.drains }

theorem Inv.activated (hinv : Inv h) (index : ℕ) : Inv (h.activateActivexTab index) := by
  unfold activateActivexTab
  split
  · exact ⟨fun _ => ‹_›,hinv.pending,hinv.stopping,hinv.quitting,hinv.pressed,hinv.drains⟩
  · exact hinv

theorem Inv.cleared (hinv : Inv h) : Inv h.clearPressState :=
  ⟨hinv.inRange,hinv.pending,hinv.stopping,hinv.quitting,nofun,hinv.drains⟩

theorem Inv.down (hinv : Inv h) (p : Pointer) : Inv (h.handleLeftButtonDown p) := by
  unfold handleLeftButtonDown
  split
  · exact ⟨hinv.inRange,hinv.pending,hinv.stopping,hinv.quitting,hinv.pressed,hinv.drains⟩
  · split
    · rename_i index hindex
      refine ⟨hinv.inRange,hinv.pending,hinv.stopping,hinv.quitting,fun i hi _ => ?_,hinv.drains⟩
      cases hi
      have hget := getElem?_eq_getElem (tabClose_lt hindex)
      exact ⟨_,hget,hget⟩
    · split
      · exact hinv.activated _
      · exact hinv

theorem Inv.up (hinv : Inv h) (p : Pointer) : Inv (h.handleLeftButtonUp p) := by
  have hcleared := hinv.cleared
  unfold handleLeftButtonUp
  split
  · split
    · exact ⟨hinv.inRange,hinv.pending,hinv.stopping,hinv.quitting,nofun,hinv.drains⟩
    · exact hcleared
  · split
    · split
      · split
        · exact hcleared.closed _ _
        · exact hcleared
      · exact hcleared
    · exact hcleared

theorem Inv.added (hinv : Inv h) (hclose : h.closePosted = false) (sessionId : String) :
    Inv (h.addActivexHostSession sessionId) where
  inRange _ := by simp [addActivexHostSession]
  pending hposted := absurd (hclose.symm.trans hposted) nofun
  stopping := hinv.stopping
  quitting := hinv.quitting
  drains := hinv.drains
  pressed i hi hdisplaced := by
    obtain ⟨s,hon,hget⟩ := hinv.pressed i hi hdisplaced
    obtain ⟨hlt,_⟩ := List.getElem?_eq_some_iff.mp hget
    exact ⟨s,hon,(getElem?_append_left hlt).trans hget⟩

theorem Inv.processed (hinv : Inv h) {command : NativeRdpHostCommand} (hready : h.running = true ∧ h.window = true)
    (hadds : ∀ s, succeeds = true → command = .addSession s → h.closePosted = false) :
    Inv (h.processCommand succeeds command) := by
  cases command with
  | addSession sessionId =>
    cases succeeds with
    | false => exact hinv
    | true => exact hinv.added (hadds sessionId rfl rfl) sessionId
  | closeSession sessionId =>
    have hclosed := hinv.closed sessionId false
    refine ⟨hclosed.inRange,fun hposted => ?_,fun hstop => ?_,fun hquit hwindow => ?_,hclosed.pressed,?_⟩
    · rcases Bool.or_eq_true_iff.mp hposted with hposted | hposted
      · exact hclosed.pending hposted
      · exact of_decide_eq_true hposted
    · have hempty := Option.some.inj hstop
      rw [Bool.not_eq_false'] at hempty
      exact Bool.or_eq_true_iff.mpr (.inr hempty)
    · exact Bool.or_eq_true_iff.mpr (.inl (hclosed.quitting hquit hwindow))
    · exact fun _ => ⟨close_window.1.trans hready.1,close_window.2.trans hready.2⟩
  | activateSession sessionId =>
    simp only [processCommand]
    split
    · exact hinv.activated _
    · exact hinv
  | resize => exact hinv

/-! ## Steps -/

theorem step_command (hstep : h.step (.command succeeds) = some h') : ∃ keepRunning command commands,
    h.draining = some keepRunning ∧ h.commands = command :: commands ∧
      h' = { h with commands }.processCommand succeeds command := by
  simp only [step] at hstep
  split at hstep
  · exact ⟨_,_,_,‹_›,‹_›,(Option.some.inj hstep).symm⟩
  · cases hstep

theorem step_finish (hstep : h.step .finish = some h') : ∃ keepRunning, h.draining = some keepRunning ∧
    h' = { h with draining := none, quitPosted := h.quitPosted || !keepRunning } := by
  simp only [step] at hstep
  split at hstep
  · exact ⟨_,‹_›,(Option.some.inj hstep).symm⟩
  · cases hstep

theorem Inv.step (hinv : Inv h) (horder : InOrder h e) (hstep : h.step e = some h') : Inv h' := by
  cases e with
  | send command =>
    cases hstep
    exact ⟨hinv.inRange,hinv.pending,hinv.stopping,hinv.quitting,hinv.pressed,hinv.drains⟩
  | begin =>
    obtain ⟨hready,hstep⟩ := Option.ite_none_right_eq_some.mp hstep
    cases hstep
    have hrunning := (Bool.and_eq_true_iff.mp hready).1
    exact ⟨hinv.inRange,hinv.pending,nofun,hinv.quitting,hinv.pressed,fun _ => Bool.and_eq_true_iff.mp hrunning⟩
  | command succeeds =>
    obtain ⟨keepRunning,command,commands,hdraining,hcommands,rfl⟩ := step_command hstep
    have hpopped : Inv { h with commands } :=
      ⟨hinv.inRange,hinv.pending,hinv.stopping,hinv.quitting,hinv.pressed,hinv.drains⟩
    refine hpopped.processed (hinv.drains (by rw [hdraining]; exact nofun)) ?_
    rintro s rfl rfl
    exact (horder.adds s rfl (by rw [hcommands]; rfl)).1
  | finish =>
    obtain ⟨keepRunning,hdraining,rfl⟩ := step_finish hstep
    refine ⟨hinv.inRange,hinv.pending,nofun,fun hquit hwindow => ?_,hinv.pressed,fun hne => (hne rfl).elim⟩
    rcases Bool.or_eq_true_iff.mp hquit with hquit | hquit
    · exact hinv.quitting hquit hwindow
    · rw [Bool.not_eq_true'] at hquit
      exact hinv.stopping (by rw [hdraining, hquit])
  | press p =>
    obtain ⟨_,hstep⟩ := Option.ite_none_right_eq_some.mp hstep
    cases hstep
    exact hinv.down p
  | release p =>
    obtain ⟨_,hstep⟩ := Option.ite_none_right_eq_some.mp hstep
    cases hstep
    exact hinv.up p
  | captureChanged =>
    obtain ⟨_,hstep⟩ := Option.ite_none_right_eq_some.mp hstep
    cases hstep
    exact hinv.cleared
  | askClose =>
    obtain ⟨_,hstep⟩ := Option.ite_none_right_eq_some.mp hstep
    cases hstep
    exact ⟨hinv.inRange,hinv.pending,hinv.stopping,hinv.quitting,hinv.pressed,hinv.drains⟩
  | close =>
    obtain ⟨hready,hstep⟩ := Option.ite_none_right_eq_some.mp hstep
    cases hstep
    obtain ⟨hready,_⟩ := Bool.and_eq_true_iff.mp hready
    have hdraining := Option.isNone_iff_eq_none.mp (Bool.and_eq_true_iff.mp hready).2
    exact ⟨hinv.inRange,hinv.pending,hinv.stopping,nofun,hinv.pressed,fun hne => (hne hdraining).elim⟩
  | quit =>
    obtain ⟨hready,hstep⟩ := Option.ite_none_right_eq_some.mp hstep
    cases hstep
    obtain ⟨hready,_⟩ := Bool.and_eq_true_iff.mp hready
    have hdraining := Option.isNone_iff_eq_none.mp (Bool.and_eq_true_iff.mp hready).2
    exact ⟨fun hne => (hne rfl).elim,fun _ => rfl,hinv.stopping,nofun,nofun,fun hne => (hne hdraining).elim⟩

/-! ## The main result -/

/-- A step that leaves the tabs alone. -/
theorem keeps_of_same (hinv : Inv h) (hsessions : h'.sessions = h.sessions) (hactive : h'.activeIndex = h.activeIndex)
    (hhosts : ∀ s, h.Hosts s → h'.Hosts s ∨ h.Dismisses s e)
    (hadded : ∀ s, e = .command true → h.commands.head? ≠ some (.addSession s)) : Keeps h e h' where
  kept := hhosts
  added s he hhead := (hadded s he hhead).elim
  inRange hne := by
    rw [hsessions] at hne
    rw [hactive, hsessions]
    exact hinv.inRange hne
  sameActive s hget := by
    left
    rwa [hactive, hsessions]
  released _ _ := .inl hsessions

theorem close_hosts (hne : s ≠ sessionId) (hhosts : h.Hosts s) :
    (h.closeActivexHostSession sessionId emitClosed).Hosts s := by
  refine ⟨close_window.1.trans hhosts.1,close_window.2.trans hhosts.2.1,?_⟩
  rw [close_sessions]
  exact (mem_erase_of_ne hne).mpr hhosts.2.2

theorem activate_hosts (hhosts : h.Hosts s) (index : ℕ) : (h.activateActivexTab index).Hosts s := by
  unfold activateActivexTab
  split <;> exact hhosts

theorem keeps_command (hinv : Inv h) (hstep : h.step (.command succeeds) = some h') :
    Keeps h (.command succeeds) h' := by
  obtain ⟨keepRunning,command,commands,hdraining,hcommands,rfl⟩ := step_command hstep
  have hready := hinv.drains (by rw [hdraining]; exact nofun)
  have hhead : h.commands.head? = some command := by rw [hcommands]; rfl
  have hpopped : Inv { h with commands } :=
    ⟨hinv.inRange,hinv.pending,hinv.stopping,hinv.quitting,hinv.pressed,hinv.drains⟩
  have hother : ∀ {s : String}, (∀ t, command ≠ .addSession t) → h.commands.head? ≠ some (.addSession s) := by
    intro s hne heq
    exact hne s (Option.some.inj (hhead.symm.trans heq))
  cases command with
  | addSession sessionId =>
    cases succeeds with
    | false => exact keeps_of_same hinv rfl rfl (fun _ hhosts => .inl hhosts) nofun
    | true =>
      refine ⟨fun s hhosts => ?_,fun s _ heq => ?_,fun _ => ?_,fun s _ => ?_,nofun⟩
      · exact .inl ⟨hhosts.1,hhosts.2.1,mem_append_left _ hhosts.2.2⟩
      · obtain rfl := NativeRdpHostCommand.addSession.inj (Option.some.inj (hhead.symm.trans heq))
        exact ⟨hready.1,hready.2,mem_append_right _ (mem_singleton_self _)⟩
      · simp [processCommand, addActivexHostSession]
      · right; right; left
        simp [processCommand, addActivexHostSession]
  | closeSession sessionId =>
    refine ⟨fun s hhosts => ?_,fun s _ heq => (hother nofun heq).elim,?_,fun s hget => ?_,nofun⟩
    · by_cases hs : s = sessionId
      · right
        rw [hs]
        exact hhead
      · have hclosed : ({ h with commands }.closeActivexHostSession sessionId false).Hosts s := close_hosts hs hhosts
        exact .inl hclosed
    · exact close_inRange (h := { h with commands }) hinv.inRange
    · have hpoppedget : { h with commands }.sessions[{ h with commands }.activeIndex]? = some s := hget
      exact (close_active hpoppedget).imp_right .inl
  | activateSession sessionId =>
    cases hindex : h.sessions.idxOf? sessionId with
    | some index =>
      have heq : { h with commands }.processCommand succeeds (.activateSession sessionId) =
          { h with commands }.activateActivexTab index := by
        simp only [processCommand, hindex]
      rw [heq]
      refine ⟨fun s hhosts => .inl ?_,fun s _ heq => (hother nofun heq).elim,(hpopped.activated index).inRange,
        fun s _ => ?_,nofun⟩
      · exact activate_hosts (h := { h with commands }) hhosts index
      · right; right; right
        obtain ⟨hlt,hget,-⟩ := idxOf?_eq_some_iff.mp hindex
        exact ⟨sessionId,hhead,hget ▸ getElem_mem hlt⟩
    | none =>
      have heq : { h with commands }.processCommand succeeds (.activateSession sessionId) = { h with commands } := by
        simp only [processCommand, hindex]
      rw [heq]
      exact keeps_of_same hinv rfl rfl (fun _ hhosts => .inl hhosts) fun _ _ => hother nofun
  | resize => exact keeps_of_same hinv rfl rfl (fun _ hhosts => .inl hhosts) fun _ _ => hother nofun

theorem keeps_press (hinv : Inv h) (p : Pointer) : Keeps h (.press p) (h.handleLeftButtonDown p) := by
  have hdown := hinv.down p
  unfold handleLeftButtonDown at hdown ⊢
  split
  · exact keeps_of_same hinv rfl rfl (fun _ hhosts => .inl hhosts) nofun
  · split
    · exact keeps_of_same hinv rfl rfl (fun _ hhosts => .inl hhosts) nofun
    · split
      · rename_i index hindex
        refine ⟨fun s hhosts => .inl (activate_hosts hhosts index),nofun,(hinv.activated index).inRange,fun s _ => ?_,
          nofun⟩
        exact .inr (.inr (.inr ⟨index,hindex⟩))
      · exact keeps_of_same hinv rfl rfl (fun _ hhosts => .inl hhosts) nofun

/-- The session that is closed is the one on which the mouse was pressed. -/
theorem keeps_release (hinv : Inv h) (horder : InOrder h (.release p)) :
    Keeps h (.release p) (h.handleLeftButtonUp p) := by
  have hsame : Keeps h (.release p) h.clearPressState :=
    keeps_of_same hinv rfl rfl (fun _ hhosts => .inl hhosts) nofun
  unfold handleLeftButtonUp
  split
  · split
    · exact keeps_of_same hinv rfl rfl (fun _ hhosts => .inl hhosts) nofun
    · exact hsame
  rename_i hbutton
  split
  · rename_i index htab
    split
    · rename_i hhovered
      split
      · rename_i sessionId hget
        obtain ⟨t,hon,ht⟩ := hinv.pressed index htab (horder.releases p index rfl hbutton htab hhovered)
        obtain rfl : t = sessionId := Option.some.inj (ht.symm.trans hget)
        refine ⟨fun s hhosts => ?_,nofun,close_inRange hinv.inRange,fun s hget => ?_,fun _ _ => .inr ⟨t,hon,?_⟩⟩
        · by_cases hs : s = t
          · rw [hs]
            exact .inr ⟨hon,index,hhovered,hget⟩
          · exact .inl (close_hosts (h := h.clearPressState) hs hhosts)
        · exact (close_active (h := h.clearPressState) hget).imp_right .inl
        · exact close_sessions (h := h.clearPressState)
      · exact hsame
    · exact hsame
  · exact hsame

theorem Inv.keeps (hinv : Inv h) (horder : InOrder h e) (hstep : h.step e = some h') : Keeps h e h' := by
  cases e with
  | send command =>
    cases hstep
    exact keeps_of_same hinv rfl rfl (fun _ hhosts => .inl hhosts) nofun
  | begin =>
    obtain ⟨_,hstep⟩ := Option.ite_none_right_eq_some.mp hstep
    cases hstep
    exact keeps_of_same hinv rfl rfl (fun _ hhosts => .inl hhosts) nofun
  | command succeeds => exact keeps_command hinv hstep
  | finish =>
    obtain ⟨keepRunning,_,rfl⟩ := step_finish hstep
    exact keeps_of_same hinv rfl rfl (fun _ hhosts => .inl hhosts) nofun
  | press p =>
    obtain ⟨_,hstep⟩ := Option.ite_none_right_eq_some.mp hstep
    cases hstep
    exact keeps_press hinv p
  | release p =>
    obtain ⟨_,hstep⟩ := Option.ite_none_right_eq_some.mp hstep
    cases hstep
    exact keeps_release hinv horder
  | captureChanged =>
    obtain ⟨_,hstep⟩ := Option.ite_none_right_eq_some.mp hstep
    cases hstep
    exact keeps_of_same hinv rfl rfl (fun _ hhosts => .inl hhosts) nofun
  | askClose =>
    obtain ⟨_,hstep⟩ := Option.ite_none_right_eq_some.mp hstep
    cases hstep
    exact keeps_of_same hinv rfl rfl (fun _ hhosts => .inl hhosts) nofun
  | close =>
    obtain ⟨hready,hstep⟩ := Option.ite_none_right_eq_some.mp hstep
    cases hstep
    refine keeps_of_same hinv rfl rfl (fun s hhosts => .inr ?_) nofun
    rcases Bool.or_eq_true_iff.mp (Bool.and_eq_true_iff.mp hready).2 with hposted | hasked
    · exact absurd hhosts.2.2 (by simp [hinv.pending hposted])
    · exact hasked
  | quit =>
    obtain ⟨hready,hstep⟩ := Option.ite_none_right_eq_some.mp hstep
    cases hstep
    have hquit := (Bool.and_eq_true_iff.mp hready).2
    refine ⟨fun s hhosts => ?_,nofun,fun hne => (hne rfl).elim,fun s hget => ?_,nofun⟩
    · exact absurd hhosts.2.2 (by simp [hinv.pending (hinv.quitting hquit hhosts.2.1)])
    · right; left
      exact count_pos_iff.mpr (mem_of_getElem? hget)

/-- In every run in order, the host keeps what it has launched. -/
theorem sessions_stay_hosted (first : String) (h : Host)
    (hreached : Transitions.Reached step InOrder (· = launched first) h) (e : Event) (h' : Host) (horder : InOrder h e)
    (hstep : h.step e = some h') : Keeps h e h' := by
  have hstart : ∀ h, h = launched first → Inv h := by
    rintro _ rfl
    exact inv_launched first
  exact (hreached.invariant hstart fun _ _ _ hinv horder hstep => hinv.step horder hstep).keeps horder hstep

/-- A second session is launched. -/
theorem sessions_stay_hosted_second : ∃ h h' : Host, h.sessions = ["a"] ∧ h'.sessions = ["a","b"] ∧
    Keeps h (.command true) h' := by
  have hstart : Transitions.Reached step InOrder (· = launched "a") (launched "a") := .start rfl
  have hsent := hstart.step (a := .send (.addSession "b")) ⟨nofun,nofun⟩ rfl
  have hbegun := hsent.step (a := .begin) ⟨nofun,nofun⟩ rfl
  exact ⟨_,_,rfl,rfl,sessions_stay_hosted "a" _ hbegun _ _ ⟨fun _ _ _ => ⟨rfl,rfl⟩,nofun⟩ rfl⟩

/-! ## Out of order -/

/-- The last session is closed, and another one is added before the commands are through. -/
def relaunch : List Event :=
  [.send (.closeSession "a"),.send (.addSession "b"),.begin,.command true,.command true,.finish]

theorem added_session_lost : ¬ ∀ (first : String) (h : Host),
    Transitions.Reached step (fun _ _ => True) (· = launched first) h →
      ∀ e h', h.step e = some h' → Keeps h e h' := by
  intro hall
  have hstart : Transitions.Reached step (fun _ _ => True) (· = launched "a") (launched "a") := .start rfl
  have hrun : ∃ h, Transitions.run step (launched "a") relaunch = some h ∧ h.Hosts "b" ∧ h.closeAsked = false ∧
      h.ready = true ∧ h.closePosted = true := ⟨_,rfl,⟨rfl,rfl,mem_singleton_self _⟩,rfl,rfl,rfl⟩
  obtain ⟨h,hrun,hhosts,hasked,hready,hposted⟩ := hrun
  have hclose : h.step .close = some { h with window := false, quitPosted := true } := by
    simp [step, hready, hposted]
  rcases (hall "a" h (hstart.run hrun) _ _ hclose).kept "b" hhosts with hhosts | hdismissed
  · exact absurd hhosts.2.1 nofun
  · exact absurd (hasked.symm.trans hdismissed) nofun

end Host
end Mxterm.NativeRdpHost
