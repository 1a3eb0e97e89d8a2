import Mxterm.Transitions

/-! The local bridges of VNC sessions (`vnc.rs`). Every session has a loop that accepts clients, and every client has a
task of its own; all of them go on one step at a time. -/
namespace Mxterm.VncBridge

open Function

/-! ## A client -/

inductive Message
  | binary (data : List UInt8)
  | close
  | other

inductive Phase
  | unborn | handshaking | connecting | relaying | ended
  deriving DecidableEq

def Phase.alive : Phase → Bool
  | .handshaking => true
  | .connecting => true
  | .relaying => true
  | _ => false

/-- A client of a bridge: the path that its handshake has presented, what is still to be written in either direction,
and what has been relayed. -/
structure Client where
  bridge : ℕ
  phase : Phase
  presented : Option String
  toWrite : List UInt8
  toSend : List UInt8
  toTarget : List UInt8
  toBrowser : List UInt8

inductive ClientAction
  /-- The path of the request, if it is one for a WebSocket. -/
  | handshake (path : Option String)
  | connect (succeeds : Bool)
  /-- The next message of the browser, unless there is none. -/
  | message (message : Option Message)
  /-- The target takes some of the bytes, before it fails if it does. -/
  | write (taken : ℕ) (succeeds : Bool)
  | read (data : Option (List UInt8))
  | send (succeeds : Bool)

def readBufferBytes : ℕ := 64 * 1024

/-- What `relay_single_client` does next. The two directions of the relay take turns, and the first one that ends ends
both. -/
def Client.step (expectedPath : String) (c : Client) : ClientAction → Option Client
  | .handshake path =>
    if c.phase = .handshaking then
      some { c with presented := path, phase := if path = some expectedPath then .connecting else .ended }
    else none
  | .connect succeeds =>
    if c.phase = .connecting then some { c with phase := if succeeds then .relaying else .ended } else none
  | .message message =>
    if c.phase = .relaying ∧ c.toWrite = [] then
      match message with
      | some (.binary data) => some { c with toWrite := data }
      | some .other => some c
      | some .close => some { c with phase := .ended }
      | none => some { c with phase := .ended }
    else none
  | .write taken succeeds =>
    if c.phase = .relaying ∧ c.toWrite ≠ [] then
      some { c with
        toTarget := c.toTarget ++ c.toWrite.take taken
        toWrite := c.toWrite.drop taken
        phase := if succeeds then .relaying else .ended }
    else none
  | .read data =>
    if c.phase = .relaying ∧ c.toSend = [] then
      match data with
      | some [] => some { c with phase := .ended }
      | some data => if data.length ≤ readBufferBytes then some { c with toSend := data } else none
      | none => some { c with phase := .ended }
    else none
  | .send succeeds =>
    if c.phase = .relaying ∧ c.toSend ≠ [] then
      if succeeds then some { c with toBrowser := c.toBrowser ++ c.toSend, toSend := [] }
      else some { c with phase := .ended }
    else none

/-- The handshake of a client that connects or relays has presented the path. -/
def Client.Authorised (expectedPath : String) (c : Client) : Prop :=
  c.phase = .connecting ∨ c.phase = .relaying → c.presented = some expectedPath

variable {expectedPath : String} {c c' : Client} {action : ClientAction}

theorem Client.step_alive (hstep : c.step expectedPath action = some c') : c.phase.alive = true := by
  cases action with
  | handshake path =>
    obtain ⟨hphase,_⟩ := Option.ite_none_right_eq_some.mp hstep
    rw [hphase]
    rfl
  | connect succeeds =>
    obtain ⟨hphase,_⟩ := Option.ite_none_right_eq_some.mp hstep
    rw [hphase]
    rfl
  | message message =>
    obtain ⟨⟨hphase,_⟩,_⟩ := Option.ite_none_right_eq_some.mp hstep
    rw [hphase]
    rfl
  | write taken succeeds =>
    obtain ⟨⟨hphase,_⟩,_⟩ := Option.ite_none_right_eq_some.mp hstep
    rw [hphase]
    rfl
  | read data =>
    obtain ⟨⟨hphase,_⟩,_⟩ := Option.ite_none_right_eq_some.mp hstep
    rw [hphase]
    rfl
  | send succeeds =>
    obtain ⟨⟨hphase,_⟩,_⟩ := Option.ite_none_right_eq_some.mp hstep
    rw [hphase]
    rfl

/-- A step keeps the bridge of the client, and the path that it has presented once it is over its handshake. -/
theorem Client.step_keeps (hstep : c.step expectedPath action = some c') :
    c'.bridge = c.bridge ∧ c'.phase ≠ .unborn ∧ (c.Authorised expectedPath → c'.Authorised expectedPath) ∧
      (c'.toTarget ≠ c.toTarget → c.phase = .relaying) := by
  cases action with
  | handshake path =>
    obtain ⟨hphase,hstep⟩ := Option.ite_none_right_eq_some.mp hstep
    cases hstep
    refine ⟨rfl,?_,fun _ hlater => ?_,fun hne => (hne rfl).elim⟩
    · split_ifs <;> exact nofun
    · by_contra hpath
      simp [hpath] at hlater
  | connect succeeds =>
    obtain ⟨hphase,hstep⟩ := Option.ite_none_right_eq_some.mp hstep
    cases hstep
    refine ⟨rfl,?_,fun hauth _ => hauth (.inl hphase),fun hne => (hne rfl).elim⟩
    cases succeeds <;> exact nofun
  | message message =>
    obtain ⟨⟨hphase,_⟩,hstep⟩ := Option.ite_none_right_eq_some.mp hstep
    split at hstep
    all_goals
      cases hstep
      refine ⟨rfl,by simp [hphase],fun hauth _ => hauth (.inr hphase),fun hne => (hne rfl).elim⟩
  | write taken succeeds =>
    obtain ⟨⟨hphase,_⟩,hstep⟩ := Option.ite_none_right_eq_some.mp hstep
    cases hstep
    refine ⟨rfl,?_,fun hauth _ => hauth (.inr hphase),fun _ => hphase⟩
    cases succeeds <;> exact nofun
  | read data =>
    obtain ⟨⟨hphase,_⟩,hstep⟩ := Option.ite_none_right_eq_some.mp hstep
    split at hstep
    · cases hstep
      exact ⟨rfl,nofun,fun hauth _ => hauth (.inr hphase),fun hne => (hne rfl).elim⟩
    · obtain ⟨_,hstep⟩ := Option.ite_none_right_eq_some.mp hstep
      cases hstep
      exact ⟨rfl,by simp [hphase],fun hauth _ => hauth (.inr hphase),fun hne => (hne rfl).elim⟩
    · cases hstep
      exact ⟨rfl,nofun,fun hauth _ => hauth (.inr hphase),fun hne => (hne rfl).elim⟩
  | send succeeds =>
    obtain ⟨⟨hphase,_⟩,hstep⟩ := Option.ite_none_right_eq_some.mp hstep
    split at hstep
    · cases hstep
      exact ⟨rfl,by simp [hphase],fun hauth _ => hauth (.inr hphase),fun hne => (hne rfl).elim⟩
    · cases hstep
      exact ⟨rfl,nofun,fun hauth _ => hauth (.inr hphase),fun hne => (hne rfl).elim⟩

/-! ## The manager -/

/-- The loop that accepts clients. It is aborted when it waits; while it is polled, it goes on until it waits again. -/
inductive Loop
  | unborn | parked | polled | dropped
  deriving DecidableEq

/-- A bridge. The code does not keep that the session has been closed. -/
structure Bridge where
  path : String
  loop : Loop
  aborted : Bool
  closed : Bool

structure Manager where
  sessions : String → Option ℕ
  launched : ℕ
  bridges : ℕ → Bridge
  accepted : ℕ
  clients : ℕ → Client

namespace Manager

def initial : Manager where
  sessions _ := none
  launched := 0
  bridges _ := ⟨"",.unborn,false,false⟩
  accepted := 0
  clients _ := ⟨0,.unborn,none,[],[],[],[]⟩

def setBridge (m : Manager) (b : ℕ) (bridge : Bridge) : Manager :=
  { m with bridges := Function.update m.bridges b bridge }

def setClient (m : Manager) (k : ℕ) (client : Client) : Manager :=
  { m with clients := Function.update m.clients k client }

def launchEmbeddedBridge (m : Manager) (sessionId token : String) : Manager :=
  { m with
    sessions := Function.update m.sessions sessionId (some m.launched)
    launched := m.launched + 1
    bridges := Function.update m.bridges m.launched ⟨"/vnc/" ++ sessionId ++ "/" ++ token,.parked,false,false⟩ }

/-- Whether the session has been closed, and what the manager is then. -/
def closeSession (m : Manager) (sessionId : String) : Bool × Manager :=
  match m.sessions sessionId with
  | some b =>
    (true,{ m with sessions := Function.update m.sessions sessionId none }.setBridge b
      { m.bridges b with aborted := true, closed := true })
  | none => (false,m)

inductive Action
  | launch (sessionId token : String)
  | closeSession (sessionId : String)
  | poll (b : ℕ)
  | accept (b : ℕ) (succeeds : Bool)
  | park (b : ℕ)
  | client (k : ℕ) (action : ClientAction)

def step (m : Manager) : Action → Option Manager
  | .launch sessionId token => some (m.launchEmbeddedBridge sessionId token)
  | .closeSession sessionId => some (m.closeSession sessionId).2
  | .poll b =>
    if (m.bridges b).loop = .parked then
      some (m.setBridge b { m.bridges b with loop := if (m.bridges b).aborted then .dropped else .polled })
    else none
  | .accept b succeeds =>
    if (m.bridges b).loop = .polled then
      if succeeds then
        some ({ m with accepted := m.accepted + 1 }.setClient m.accepted ⟨b,.handshaking,none,[],[],[],[]⟩)
      else some (m.setBridge b { m.bridges b with loop := .dropped })
    else none
  | .park b =>
    if (m.bridges b).loop = .polled then
      some (m.setBridge b { m.bridges b with loop := if (m.bridges b).aborted then .dropped else .parked })
    else none
  | .client k action =>
    ((m.clients k).step (m.bridges (m.clients k).bridge).path action).map (m.setClient k)

/-! ## What is to hold -/

/-- What a step may not do: give the target a byte of a client that has not presented the path, accept a client of a
session that has been closed, or relay a byte for one. -/
structure Keeps (m m' : Manager) : Prop where
  authorised : ∀ k, (m'.clients k).toTarget ≠ (m.clients k).toTarget →
    (m.clients k).presented = some (m.bridges (m.clients k).bridge).path
  accepts : ∀ k, (m'.clients k).phase ≠ .unborn → (m.bridges (m'.clients k).bridge).closed = true →
    (m.clients k).phase ≠ .unborn
  relays : ∀ k, (m.bridges (m.clients k).bridge).closed = true →
    (m'.clients k).toTarget = (m.clients k).toTarget ∧ (m'.clients k).toBrowser = (m.clients k).toBrowser

/-- A session is closed when its loop waits and all its clients have ended. -/
def InOrder (m : Manager) (action : Action) : Prop :=
  ∀ sessionId b, action = .closeSession sessionId → m.sessions sessionId = some b →
    (m.bridges b).loop ≠ .polled ∧ ∀ k, (m.clients k).bridge = b → (m.clients k).phase.alive = false

/-! ## The invariant -/

structure Inv (m : Manager) : Prop where
  ahead : ∀ b, m.launched ≤ b → (m.bridges b).loop = .unborn ∧ (m.bridges b).closed = false
  unaccepted : ∀ k, m.accepted ≤ k → m.clients k = ⟨0,.unborn,none,[],[],[],[]⟩
  born : ∀ k, (m.clients k).phase.alive = true → (m.bridges (m.clients k).bridge).loop ≠ .unborn
  authorised : ∀ k, (m.clients k).Authorised (m.bridges (m.clients k).bridge).path
  closed : ∀ b, (m.bridges b).closed = true → (m.bridges b).aborted = true ∧ (m.bridges b).loop ≠ .polled
  ended : ∀ k, (m.bridges (m.clients k).bridge).closed = true → (m.clients k).phase.alive = false
  stored : ∀ sessionId b, m.sessions sessionId = some b → b < m.launched

theorem inv_initial : Inv initial where
  ahead _ _ := ⟨rfl,rfl⟩
  unaccepted _ _ := rfl
  born _ h := by cases h
  authorised _ h := by simp [initial] at h
  closed _ h := by cases h
  ended _ h := by cases h
  stored _ _ h := by cases h

variable {m m' : Manager} {b k : ℕ}

@[simp] theorem setBridge_self (m : Manager) (b : ℕ) (bridge : Bridge) : (m.setBridge b bridge).bridges b = bridge :=
  update_self _ _ _

@[simp] theorem setBridge_clients (m : Manager) (b : ℕ) (bridge : Bridge) :
    (m.setBridge b bridge).clients = m.clients := rfl

variable {j : ℕ}

theorem setBridge_of_ne (h : j ≠ b) (m : Manager) (bridge : Bridge) : (m.setBridge b bridge).bridges j = m.bridges j :=
  update_of_ne h _ _

@[simp] theorem setClient_self (m : Manager) (k : ℕ) (client : Client) : (m.setClient k client).clients k = client :=
  update_self _ _ _

theorem setClient_of_ne (h : j ≠ k) (m : Manager) (client : Client) : (m.setClient k client).clients j = m.clients j :=
  update_of_ne h _ _

theorem Inv.lt_of_loop (hinv : Inv m) (hloop : (m.bridges b).loop ≠ .unborn) : b < m.launched := by
  by_contra hle
  exact hloop (hinv.ahead b (Nat.not_lt.mp hle)).1

/-- The loop of a bridge goes on, or its session is closed. -/
theorem Inv.setBridge (hinv : Inv m) (hb : b < m.launched) {bridge : Bridge} (hpath : bridge.path = (m.bridges b).path)
    (hloop : (m.bridges b).loop ≠ .unborn → bridge.loop ≠ .unborn)
    (hclosed : bridge.closed = true → bridge.aborted = true ∧ bridge.loop ≠ .polled)
    (hended : bridge.closed = true → ∀ k, (m.clients k).bridge = b → (m.clients k).phase.alive = false) :
    Inv (m.setBridge b bridge) := { hinv with
  ahead j hj := by
    rw [setBridge_of_ne (by have : m.launched ≤ j := hj; omega)]
    exact hinv.ahead j hj
  born k halive := by
    rw [setBridge_clients] at halive ⊢
    have hborn := hinv.born k halive
    by_cases hk : (m.clients k).bridge = b
    · rw [hk, setBridge_self]
      exact hloop (hk ▸ hborn)
    · rw [setBridge_of_ne hk]
      exact hborn
  authorised k := by
    rw [setBridge_clients]
    have hauth := hinv.authorised k
    by_cases hk : (m.clients k).bridge = b
    · rw [hk, setBridge_self, hpath]
      exact hk ▸ hauth
    · rw [setBridge_of_ne hk]
      exact hauth
  closed j hj := by
    by_cases hjb : j = b
    · rw [hjb, setBridge_self] at hj ⊢
      exact hclosed hj
    · rw [setBridge_of_ne hjb] at hj ⊢
      exact hinv.closed j hj
  ended k hk := by
    rw [setBridge_clients] at hk ⊢
    by_cases hkb : (m.clients k).bridge = b
    · rw [hkb, setBridge_self] at hk
      exact hended hk k hkb
    · rw [setBridge_of_ne hkb] at hk
      exact hinv.ended k hk }

theorem launch_self (m : Manager) (sessionId token : String) :
    (m.launchEmbeddedBridge sessionId token).bridges m.launched =
      ⟨"/vnc/" ++ sessionId ++ "/" ++ token,.parked,false,false⟩ :=
  update_self _ _ _

theorem launch_of_ne (h : j ≠ m.launched) (sessionId token : String) :
    (m.launchEmbeddedBridge sessionId token).bridges j = m.bridges j :=
  update_of_ne h _ _

theorem launch_clients (m : Manager) (sessionId token : String) :
    (m.launchEmbeddedBridge sessionId token).clients = m.clients := rfl

theorem Inv.launch (hinv : Inv m) (sessionId token : String) : Inv (m.launchEmbeddedBridge sessionId token) where
  ahead j hj := by
    have hlt : m.launched + 1 ≤ j := hj
    rw [launch_of_ne (by omega)]
    exact hinv.ahead j (by omega)
  unaccepted := hinv.unaccepted
  born k halive := by
    rw [launch_clients] at halive ⊢
    have hborn := hinv.born k halive
    have hlt := hinv.lt_of_loop hborn
    rw [launch_of_ne (by omega)]
    exact hborn
  authorised k := by
    rw [launch_clients]
    intro hlater
    have halive : (m.clients k).phase.alive = true := by
      rcases hlater with hphase | hphase
      · rw [hphase]
        rfl
      · rw [hphase]
        rfl
    have hlt := hinv.lt_of_loop (hinv.born k halive)
    rw [launch_of_ne (by omega)]
    exact hinv.authorised k hlater
  closed j hj := by
    by_cases hne : j = m.launched
    · rw [hne, launch_self] at hj
      cases hj
    · rw [launch_of_ne hne] at hj ⊢
      exact hinv.closed j hj
  ended k hk := by
    rw [launch_clients] at hk ⊢
    by_cases hne : (m.clients k).bridge = m.launched
    · rw [hne, launch_self] at hk
      cases hk
    · rw [launch_of_ne hne] at hk
      exact hinv.ended k hk
  stored id j hj := by
    have hlt : j < m.launched + 1 := by
      by_cases hid : id = sessionId
      · rw [hid] at hj
        have hnew : (m.launchEmbeddedBridge sessionId token).sessions sessionId = some m.launched :=
          update_self _ _ _
        cases hnew.symm.trans hj
        omega
      · have := hinv.stored id j ((update_of_ne hid _ _).symm.trans hj)
        omega
    exact hlt

theorem Inv.close (hinv : Inv m) {sessionId : String} (horder : InOrder m (.closeSession sessionId)) :
    Inv (m.closeSession sessionId).2 := by
  unfold closeSession
  split
  · rename_i b hb
    obtain ⟨hloop,hended⟩ := horder sessionId b rfl hb
    have hforgotten : Inv { m with sessions := Function.update m.sessions sessionId none } := by
      refine ⟨hinv.ahead,hinv.unaccepted,hinv.born,hinv.authorised,hinv.closed,hinv.ended,fun id j hj => ?_⟩
      by_cases hid : id = sessionId
      · rw [hid] at hj
        simp at hj
      · exact hinv.stored id j ((update_of_ne hid _ _).symm.trans hj)
    exact hforgotten.setBridge (hinv.stored sessionId b hb) rfl id (fun _ => ⟨rfl,hloop⟩) fun _ => hended
  · exact hinv

/-- A client takes a step, or is accepted. -/
theorem Inv.setClient (hinv : Inv m) {client : Client} (hk : k < m.accepted)
    (hborn : (m.bridges client.bridge).loop ≠ .unborn) (hauth : client.Authorised (m.bridges client.bridge).path)
    (hended : (m.bridges client.bridge).closed = true → client.phase.alive = false) : Inv (m.setClient k client) where
  ahead := hinv.ahead
  unaccepted j hj := by
    rw [setClient_of_ne (by have : m.accepted ≤ j := hj; omega)]
    exact hinv.unaccepted j hj
  born j halive := by
    by_cases hjk : j = k
    · rw [hjk, setClient_self]
      exact hborn
    · rw [setClient_of_ne hjk] at halive ⊢
      exact hinv.born j halive
  authorised j := by
    by_cases hjk : j = k
    · rw [hjk, setClient_self]
      exact hauth
    · rw [setClient_of_ne hjk]
      exact hinv.authorised j
  closed := hinv.closed
  ended j hj := by
    by_cases hjk : j = k
    · rw [hjk, setClient_self] at hj ⊢
      exact hended hj
    · rw [setClient_of_ne hjk] at hj ⊢
      exact hinv.ended j hj
  stored := hinv.stored

theorem Inv.step {action : Action} (hinv : Inv m) (horder : InOrder m action) (hstep : m.step action = some m') :
    Inv m' := by
  cases action with
  | launch sessionId token =>
    cases hstep
    exact hinv.launch sessionId token
  | closeSession sessionId =>
    cases hstep
    exact hinv.close horder
  | poll b =>
    obtain ⟨hloop,hstep⟩ := Option.ite_none_right_eq_some.mp hstep
    cases hstep
    have hb := hinv.lt_of_loop (b := b) (by rw [hloop]; exact nofun)
    refine hinv.setBridge hb rfl (fun _ => ?_) (fun hclosed => ?_) ?_
    · split_ifs <;> exact nofun
    · have haborted := (hinv.closed b hclosed).1
      exact ⟨haborted,by simp [haborted]⟩
    · rintro hclosed k rfl
      exact hinv.ended k hclosed
  | accept b succeeds =>
    obtain ⟨hloop,hstep⟩ := Option.ite_none_right_eq_some.mp hstep
    have hopen : ¬ (m.bridges b).closed = true := fun hclosed => (hinv.closed b hclosed).2 hloop
    cases succeeds with
    | true =>
      cases hstep
      have hmore : Inv { m with accepted := m.accepted + 1 } := by
        refine ⟨hinv.ahead,fun j hj => ?_,hinv.born,hinv.authorised,hinv.closed,hinv.ended,hinv.stored⟩
        exact hinv.unaccepted j (Nat.le_of_succ_le hj)
      refine hmore.setClient (Nat.lt_succ_self _) ?_ ?_ fun hclosed => (hopen hclosed).elim
      · rw [hloop]
        exact nofun
      · rintro (hphase | hphase) <;> cases hphase
    | false =>
      cases hstep
      refine hinv.setBridge (hinv.lt_of_loop (by rw [hloop]; exact nofun)) rfl (fun _ => nofun) ?_ ?_
      · exact fun hclosed => (hopen hclosed).elim
      · exact fun hclosed => (hopen hclosed).elim
  | park b =>
    obtain ⟨hloop,hstep⟩ := Option.ite_none_right_eq_some.mp hstep
    cases hstep
    have hopen : ¬ (m.bridges b).closed = true := fun hclosed => (hinv.closed b hclosed).2 hloop
    refine hinv.setBridge (hinv.lt_of_loop (by rw [hloop]; exact nofun)) rfl (fun _ => ?_) ?_ ?_
    · split_ifs <;> exact nofun
    · exact fun hclosed => (hopen hclosed).elim
    · exact fun hclosed => (hopen hclosed).elim
  | client k action =>
    obtain ⟨c,hc,rfl⟩ := Option.map_eq_some_iff.mp hstep
    have halive := Client.step_alive hc
    obtain ⟨hbridge,-,hauth,-⟩ := Client.step_keeps hc
    have hk : k < m.accepted := by
      by_contra hle
      rw [hinv.unaccepted k (Nat.not_lt.mp hle)] at halive
      cases halive
    refine hinv.setClient hk ?_ ?_ ?_
    · rw [hbridge]
      exact hinv.born k halive
    · rw [hbridge]
      exact hauth (hinv.authorised k)
    · rw [hbridge]
      intro hclosed
      exact absurd (halive.symm.trans (hinv.ended k hclosed)) nofun

/-! ## The main result -/

theorem keeps_of_clients (hclients : m'.clients = m.clients) : Keeps m m' where
  authorised k hne := (hne (by rw [hclients])).elim
  accepts k hphase _ := by rwa [hclients] at hphase
  relays k _ := by
    rw [hclients]
    exact ⟨rfl,rfl⟩

theorem Inv.keeps {action : Action} (hinv : Inv m) (hstep : m.step action = some m') : Keeps m m' := by
  cases action with
  | launch sessionId token =>
    cases hstep
    exact keeps_of_clients rfl
  | closeSession sessionId =>
    cases hstep
    refine keeps_of_clients ?_
    unfold closeSession
    split <;> rfl
  | poll b =>
    obtain ⟨_,hstep⟩ := Option.ite_none_right_eq_some.mp hstep
    cases hstep
    exact keeps_of_clients rfl
  | accept b succeeds =>
    obtain ⟨hloop,hstep⟩ := Option.ite_none_right_eq_some.mp hstep
    cases succeeds with
    | true =>
      cases hstep
      have hnew := hinv.unaccepted m.accepted (Nat.le_refl _)
      refine ⟨fun k hne => ?_,fun k hphase hclosed => ?_,fun k _ => ?_⟩
      · by_cases hk : k = m.accepted
        · rw [hk, setClient_self, hnew] at hne
          exact (hne rfl).elim
        · rw [setClient_of_ne hk] at hne
          exact (hne rfl).elim
      · by_cases hk : k = m.accepted
        · rw [hk, setClient_self] at hclosed
          exact ((hinv.closed b hclosed).2 hloop).elim
        · rwa [setClient_of_ne hk] at hphase
      · by_cases hk : k = m.accepted
        · rw [hk, setClient_self, hnew]
          exact ⟨rfl,rfl⟩
        · rw [setClient_of_ne hk]
          exact ⟨rfl,rfl⟩
    | false =>
      cases hstep
      exact keeps_of_clients rfl
  | park b =>
    obtain ⟨_,hstep⟩ := Option.ite_none_right_eq_some.mp hstep
    cases hstep
    exact keeps_of_clients rfl
  | client k action =>
    obtain ⟨c,hc,rfl⟩ := Option.map_eq_some_iff.mp hstep
    have halive := Client.step_alive hc
    obtain ⟨-,-,-,hrelaying⟩ := Client.step_keeps hc
    refine ⟨fun j hne => ?_,fun j hphase _ => ?_,fun j hclosed => ?_⟩
    · by_cases hj : j = k
      · subst hj
        rw [setClient_self] at hne
        exact hinv.authorised j (.inr (hrelaying hne))
      · rw [setClient_of_ne hj] at hne
        exact (hne rfl).elim
    · by_cases hj : j = k
      · subst hj
        intro hunborn
        rw [hunborn] at halive
        cases halive
      · rwa [setClient_of_ne hj] at hphase
    · have hne : j ≠ k := by
        rintro rfl
        exact absurd (halive.symm.trans (hinv.ended j hclosed)) nofun
      rw [setClient_of_ne hne]
      exact ⟨rfl,rfl⟩

/-- A client relays when its session is closed. -/
def lateRelay : List Action :=
  [.launch "vnc-1" "token",.poll 0,.accept 0 true,.park 0,.client 0 (.handshake (some "/vnc/vnc-1/token")),
    .client 0 (.connect true),.closeSession "vnc-1",.client 0 (.message (some (.binary [1])))]

end Manager
end Mxterm.VncBridge
