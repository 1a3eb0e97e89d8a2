import Mxterm.Table
import Mxterm.Utf8
import Mxterm.Values
import Mathlib.Algebra.Order.BigOperators.Group.List
import Mathlib.Data.List.Dedup
import Mathlib.Data.Nat.Cast.Order.Ring

/-! The output that the terminal manager keeps of its sessions (`terminal/manager.rs`): registered when a
session opens, trimmed to its last bytes, and read by an agent. -/
namespace Mxterm.TerminalManager

open List

/-- The kinds of managed sessions. -/
inductive Transport
  | ssh | localShell | telnet | serial
  deriving DecidableEq

/-- Only `connect` and `connect_local` call `register_output`. -/
def Transport.registers : Transport → Bool
  | .ssh | .localShell => true
  | .telnet | .serial => false

def terminalRingLimit : ℕ := 128 * 1024

structure OutputBuffer where
  bytes : List UInt8
  /-- A 64-bit counter. -/
  total : ℕ
  connectionId : Option String
  updatedAtMs : ℕ

structure TerminalRecentOutput where
  sessionId : String
  data : String
  totalBytes : ℕ
  truncated : Bool
  cursor : ℕ
  retainedFrom : ℕ
  updatedAtMs : ℕ

structure TerminalRecentOutputRequest where
  sessionId : String
  maxChars : Option ℕ
  connectionId : Option String

structure Manager where
  sessions : Table (Prod.fst : String × Transport → String)
  output : Table (Prod.fst : String × OutputBuffer → String)

namespace Manager

def default : Manager := ⟨Table.empty _,Table.empty _⟩

variable (m : Manager)

def buffer? (id : String) : Option OutputBuffer := (m.output.find? id).map Prod.snd

def recentOutput (request : TerminalRecentOutputRequest) : Except AppError TerminalRecentOutput :=
  let maxChars := max 200 (min (request.maxChars.getD 20000) 20000)
  match m.buffer? request.sessionId with
  | none => .error ⟨"terminal_session_missing","终端会话不存在或已关闭。","no live buffer",true⟩
  | some buffer =>
    if buffer.connectionId ≠ request.connectionId then
      .error ⟨"terminal_scope_mismatch","终端与 Agent 工作区不属于同一连接。","connection binding mismatch",true⟩
    else
      let chars := (Utf8.decodeLossy buffer.bytes).toList
      .ok
        { sessionId := request.sessionId
          data := String.ofList (chars.drop (chars.length - maxChars))
          totalBytes := buffer.bytes.length
          truncated := decide (maxChars < chars.length ∨ buffer.bytes.length < buffer.total)
          cursor := buffer.total
          retainedFrom := buffer.total - buffer.bytes.length
          updatedAtMs := buffer.updatedAtMs }

end Manager

/-- The last bytes up to a limit. -/
def lastBytes (limit : ℕ) (bytes : List UInt8) : List UInt8 := bytes.drop (bytes.length - limit)

theorem length_lastBytes (limit : ℕ) (bytes : List UInt8) :
    (lastBytes limit bytes).length = min bytes.length limit := by
  simp only [lastBytes,length_drop]
  omega

/-- What was dropped before is dropped again. -/
theorem lastBytes_append (limit : ℕ) (bytes data : List UInt8) :
    lastBytes limit (lastBytes limit bytes ++ data) = lastBytes limit (bytes ++ data) := by
  have h : lastBytes limit bytes ++ data = (bytes ++ data).drop (bytes.length - limit) := by
    rw [drop_append_of_le_length (by omega),lastBytes]
  rw [h]
  simp only [lastBytes,drop_drop,length_drop,length_append]
  congr 1
  omega

def OutputBuffer.record (data : List UInt8) (now : ℕ) (buffer : OutputBuffer) : OutputBuffer :=
  { buffer with
    total := (buffer.total + data.length) % 2 ^ 64
    updatedAtMs := now
    bytes := lastBytes terminalRingLimit (buffer.bytes ++ data) }

namespace Manager

variable (m : Manager)

def recordOutput (id : String) (data : List UInt8) (now : ℕ) : Manager :=
  let recorded (row : String × OutputBuffer) := if row.1 = id then (row.1,row.2.record data now) else row
  { m with output := m.output.mapRows recorded fun row => by by_cases h : row.1 = id <;> simp [recorded,h] }

def registerOutput (id : String) (connectionId : Option String) (now : ℕ) : Manager :=
  { m with output := m.output.put (id,⟨[],0,connectionId,now⟩) }

theorem mem_recordOutput {id : String} {data : List UInt8} {now : ℕ} {row : String × OutputBuffer} :
    row ∈ (m.recordOutput id data now).output ↔
      ∃ old ∈ m.output, (if old.1 = id then (old.1,old.2.record data now) else old) = row := by
  simp [recordOutput]

@[simp] theorem hasKey_recordOutput (id other : String) (data : List UInt8) (now : ℕ) :
    (m.recordOutput id data now).output.HasKey other ↔ m.output.HasKey other := by
  simp [recordOutput]

/-- `sessions.insert`. -/
def store (id : String) (transport : Transport) : Manager :=
  { m with sessions := m.sessions.put (id,transport) }

/-- `sessions.remove`. -/
def remove (id : String) : Manager :=
  { m with sessions := m.sessions.keepRows fun row => !decide (row.1 = id) }

/-- `close`: it refuses a session that is not there, and closes the removed one. -/
def close (id : String) : Except AppError Manager :=
  if Text.trim id = "" then
    .error ⟨"terminal_session_missing","终端会话不存在。","session_id is empty",false⟩
  else if m.sessions.HasKey id then .ok (m.remove id)
  else .error ⟨"terminal_session_missing","终端会话不存在。",s!"session_id={id}",false⟩

end Manager

/-- The manager with what has happened to it: the sessions that were opened, those of them that are not
stored yet, those whose reader runs, and all that was emitted for each. -/
structure Terminals where
  manager : Manager
  opened : List (String × Transport)
  opening : List (String × Transport)
  reading : List String
  connection : String → Option String
  emitted : String → List UInt8

/-- What can happen to the manager. Between registering a session and storing it `connect` waits for the
lock of the sessions. -/
inductive Event
  | opens (id : String) (transport : Transport) (connectionId : Option String) (now : ℕ)
  | stored (id : String) (transport : Transport)
  | output (id : String) (data : List UInt8) (now : ℕ)
  | ended (id : String)
  | closes (id : String)

namespace Terminals

def start : Terminals := ⟨.default,[],[],[],fun _ => none,fun _ => []⟩

/-- The numbers of sessions are new, a session is stored once, and output comes from its reader. -/
def Allowed (t : Terminals) : Event → Prop
  | .opens id _ _ _ => id ∉ t.opened.map Prod.fst
  | .stored id transport => (id,transport) ∈ t.opening
  | .output id _ _ => id ∈ t.reading
  | .ended id => id ∈ t.reading
  | .closes _ => True

/-- The connection with which a session registers; a local shell has none. -/
def ownConnection (transport : Transport) (connectionId : Option String) : Option String :=
  if transport = .ssh then connectionId else none

def step (t : Terminals) : Event → Terminals
  | .opens id transport connectionId now =>
    { t with
      manager := if transport.registers then
          t.manager.registerOutput id (ownConnection transport connectionId) now
        else t.manager
      opened := (id,transport) :: t.opened
      opening := (id,transport) :: t.opening
      connection := Function.update t.connection id (ownConnection transport connectionId) }
  | .stored id transport =>
    { t with
      manager := t.manager.store id transport
      opening := t.opening.erase (id,transport)
      reading := id :: t.reading }
  | .output id data now =>
    { t with
      manager := t.manager.recordOutput id data now
      emitted := Function.update t.emitted id (t.emitted id ++ data) }
  | .ended id =>
    { t with
      manager := t.manager.remove id
      reading := t.reading.filter (· ≠ id) }
  | .closes id =>
    match t.manager.close id with
    | .ok manager => { t with manager := manager }
    | .error _ => t

inductive Reachable : Terminals → Prop
  | start : Reachable start
  | step {t : Terminals} {e : Event} : Reachable t → t.Allowed e → Reachable (t.step e)

/-- A session is live from its opening until it is taken out of the sessions. -/
def Live (t : Terminals) (id : String) : Prop :=
  id ∈ t.opening.map Prod.fst ∨ t.manager.sessions.HasKey id

/-- The number of live sessions. -/
def liveCount (t : Terminals) : ℕ :=
  (t.opening.map Prod.fst ++ t.manager.sessions.rows.map Prod.fst).dedup.length

/-- The session, where it was opened, is one whose output is recorded. -/
def Recorded (t : Terminals) (id : String) : Prop :=
  ∀ transport, (id,transport) ∈ t.opened → transport.registers

def memory (t : Terminals) : ℕ := (t.manager.output.rows.map fun row => row.2.bytes.length).sum

/-- The recorded output matches the live sessions. -/
structure Matches (t : Terminals) : Prop where
  live : ∀ id maxChars, t.Recorded id →
    ((∃ out, t.manager.recentOutput ⟨id,maxChars,t.connection id⟩ = .ok out) ↔ t.Live id)
  kept : ∀ id maxChars out, t.Live id → t.manager.recentOutput ⟨id,maxChars,t.connection id⟩ = .ok out →
    (∃ buffer, t.manager.buffer? id = some buffer ∧
      buffer.bytes = lastBytes terminalRingLimit (t.emitted id) ∧
      out.cursor - out.retainedFrom = buffer.bytes.length)
  bounded : t.memory ≤ t.liveCount * terminalRingLimit

/-- No recorded session has gone, and the counter of no live one has just begun anew. -/
structure AllThere (t : Terminals) : Prop where
  live : ∀ id transport, (id,transport) ∈ t.opened → transport.registers → t.Live id
  counted : ∀ id transport, (id,transport) ∈ t.opened → transport.registers →
    min (t.emitted id).length terminalRingLimit ≤ (t.emitted id).length % 2 ^ 64

/-- What holds after every run. -/
structure Kept (t : Terminals) : Prop where
  opened : (t.opened.map Prod.fst).Nodup
  opening : ∀ p ∈ t.opening, p ∈ t.opened
  stored : ∀ id, t.manager.sessions.HasKey id → id ∈ t.opened.map Prod.fst
  reading : ∀ id ∈ t.reading, id ∈ t.opened.map Prod.fst
  silent : ∀ id, id ∉ t.opened.map Prod.fst → t.emitted id = []
  registered : ∀ id, t.manager.output.HasKey id ↔
    ∃ transport, (id,transport) ∈ t.opened ∧ transport.registers
  bytes : ∀ row ∈ t.manager.output, row.2.bytes = lastBytes terminalRingLimit (t.emitted row.1)
  total : ∀ row ∈ t.manager.output, row.2.total = (t.emitted row.1).length % 2 ^ 64
  connection : ∀ row ∈ t.manager.output, row.2.connectionId = t.connection row.1

theorem kept_start : start.Kept where
  opened := by simp [start]
  opening := by simp [start]
  stored id h := absurd h (Table.not_hasKey_empty id)
  reading := by simp [start]
  silent _ _ := rfl
  registered id := by simp [start,Manager.default]
  bytes row h := absurd h (Table.not_mem_empty row)
  total row h := absurd h (Table.not_mem_empty row)
  connection row h := absurd h (Table.not_mem_empty row)

variable {t : Terminals}

variable {id : String} {transport : Transport} {now : ℕ}

theorem kept_opens_silent (h : t.Kept) {connectionId : Option String} (hnew : id ∉ t.opened.map Prod.fst)
    (hr : transport.registers = false) : (t.step (.opens id transport connectionId now)).Kept := by
  have hother (row : String × OutputBuffer) (hrow : row ∈ t.manager.output) : row.1 ≠ id := by
    rintro rfl
    obtain ⟨tr,htr,-⟩ := (h.registered row.1).mp (Table.hasKey_of_mem hrow)
    exact hnew (mem_map_of_mem htr)
  simp only [step,hr,Bool.false_eq_true,if_false]
  exact {
    opened := nodup_cons.mpr ⟨hnew,h.opened⟩
    opening := forall_mem_cons.mpr
      ⟨mem_cons_self,fun p hp => mem_cons_of_mem _ (h.opening p hp)⟩
    stored := fun other hother => mem_cons_of_mem _ (h.stored other hother)
    reading := fun other hother => mem_cons_of_mem _ (h.reading other hother)
    silent := fun other hother => h.silent other fun hmem => hother (mem_cons_of_mem _ hmem)
    registered := by
      intro other
      rw [h.registered other]
      refine exists_congr fun tr => and_congr_left fun hreg => ?_
      rw [mem_cons,or_iff_right]
      rintro heq
      rw [(Prod.mk.inj heq).2,hr] at hreg
      cases hreg
    bytes := h.bytes
    total := h.total
    connection := fun row hrow => by simpa [hother row hrow] using h.connection row hrow }

theorem kept_opens_registered (h : t.Kept) {connectionId : Option String} (hnew : id ∉ t.opened.map Prod.fst)
    (hr : transport.registers) : (t.step (.opens id transport connectionId now)).Kept := by
  simp only [step,hr,if_true]
  exact {
    opened := nodup_cons.mpr ⟨hnew,h.opened⟩
    opening := forall_mem_cons.mpr
      ⟨mem_cons_self,fun p hp => mem_cons_of_mem _ (h.opening p hp)⟩
    stored := fun other hother => mem_cons_of_mem _ (h.stored other hother)
    reading := fun other hother => mem_cons_of_mem _ (h.reading other hother)
    silent := fun other hother => h.silent other fun hmem => hother (mem_cons_of_mem _ hmem)
    registered := by
      intro other
      simp only [Manager.registerOutput,Table.hasKey_put,h.registered,mem_cons]
      constructor
      · rintro (rfl | ⟨tr,htr,hreg⟩)
        · exact ⟨transport,Or.inl rfl,hr⟩
        · exact ⟨tr,Or.inr htr,hreg⟩
      · rintro ⟨tr,heq | htr,hreg⟩
        · exact Or.inl (congrArg Prod.fst heq)
        · exact Or.inr ⟨tr,htr,hreg⟩
    bytes := by
      intro row hrow
      rcases Table.mem_put.mp hrow with rfl | ⟨hrow,-⟩
      · simp [h.silent id hnew,lastBytes]
      · exact h.bytes row hrow
    total := by
      intro row hrow
      rcases Table.mem_put.mp hrow with rfl | ⟨hrow,-⟩
      · simp [h.silent id hnew]
      · exact h.total row hrow
    connection := by
      intro row hrow
      rcases Table.mem_put.mp hrow with rfl | ⟨hrow,hne⟩
      · simp
      · simpa [Function.update_of_ne hne] using h.connection row hrow }

theorem kept_stored (h : t.Kept) (hopening : (id,transport) ∈ t.opening) : (t.step (.stored id transport)).Kept where
  opened := h.opened
  opening p hp := h.opening p (mem_of_mem_erase hp)
  stored := by
    intro other hother
    rcases Table.hasKey_put.mp hother with rfl | hkey
    · exact mem_map_of_mem (h.opening _ hopening)
    · exact h.stored other hkey
  reading := by
    intro other hother
    rcases mem_cons.mp hother with rfl | hother
    · exact mem_map_of_mem (h.opening _ hopening)
    · exact h.reading other hother
  silent := h.silent
  registered := h.registered
  bytes := h.bytes
  total := h.total
  connection := h.connection

theorem kept_output (h : t.Kept) {data : List UInt8} (hreading : id ∈ t.reading) :
    (t.step (.output id data now)).Kept := { h with
  silent := by
    intro other hother
    have hne : other ≠ id := by
      rintro rfl
      exact hother (h.reading other hreading)
    simpa [step,hne] using h.silent other hother
  registered other := by simpa [step] using h.registered other
  bytes := by
    intro row hrow
    obtain ⟨old,hold,rfl⟩ := (Manager.mem_recordOutput _).mp hrow
    by_cases he : old.1 = id
    · subst he
      simp only [if_true,step,OutputBuffer.record,Function.update_self]
      rw [h.bytes old hold,lastBytes_append]
    · simpa [step,he] using h.bytes old hold
  total := by
    intro row hrow
    obtain ⟨old,hold,rfl⟩ := (Manager.mem_recordOutput _).mp hrow
    by_cases he : old.1 = id
    · subst he
      simp only [if_true,step,OutputBuffer.record,Function.update_self]
      rw [h.total old hold,length_append,Nat.mod_add_mod]
    · simpa [step,he] using h.total old hold
  connection := by
    intro row hrow
    obtain ⟨old,hold,rfl⟩ := (Manager.mem_recordOutput _).mp hrow
    by_cases he : old.1 = id <;> simpa [step,OutputBuffer.record,he] using h.connection old hold }

/-- A session leaves the sessions only. -/
theorem kept_remove (h : t.Kept) (id : String) : ({ t with manager := t.manager.remove id } : Terminals).Kept where
  opened := h.opened
  opening := h.opening
  stored := by
    intro other hother
    obtain ⟨row,hrow,-,rfl⟩ := Table.hasKey_keepRows.mp hother
    exact h.stored row.1 (Table.hasKey_of_mem hrow)
  reading := h.reading
  silent := h.silent
  registered := h.registered
  bytes := h.bytes
  total := h.total
  connection := h.connection

theorem kept_step (h : t.Kept) {e : Event} (he : t.Allowed e) : (t.step e).Kept := by
  cases e with
  | opens id transport connectionId now =>
    cases hr : transport.registers with
    | false => exact kept_opens_silent h he hr
    | true => exact kept_opens_registered h he hr
  | stored id transport => exact kept_stored h he
  | output id data now => exact kept_output h he
  | ended id =>
    have hremoved := kept_remove h id
    exact { hremoved with reading := fun other hother => h.reading other (mem_of_mem_filter hother) }
  | closes id =>
    simp only [step,Manager.close]
    split
    · rename_i heq
      split_ifs at heq
      cases heq
      exact kept_remove h id
    · exact h

theorem kept (h : Reachable t) : t.Kept := by
  induction h with
  | start => exact kept_start
  | step _ he ih => exact kept_step ih he

/-- Only the sessions that register their output have a buffer. -/
theorem buffer?_isSome (h : t.Kept) (id : String) :
    (t.manager.buffer? id).isSome ↔ ∃ transport, (id,transport) ∈ t.opened ∧ transport.registers := by
  rw [← h.registered id,Manager.buffer?,Option.isSome_map,← Option.ne_none_iff_isSome,Ne,
    Table.find?_eq_none_iff,not_not]

theorem mem_of_buffer? {m : Manager} {buffer : OutputBuffer} (h : m.buffer? id = some buffer) :
    (id,buffer) ∈ m.output := by
  obtain ⟨row,hrow,rfl⟩ := Option.map_eq_some_iff.mp h
  obtain ⟨hmem,rfl⟩ := Table.find?_eq_some_iff.mp hrow
  exact hmem

/-- With the connection of the session the recorded output can be read whenever there is any. -/
theorem recentOutput_of_buffer (h : t.Kept) {buffer : OutputBuffer} (hbuffer : t.manager.buffer? id = some buffer)
    (maxChars : Option ℕ) :
    ∃ out, t.manager.recentOutput ⟨id,maxChars,t.connection id⟩ = .ok out ∧
      out.cursor = buffer.total ∧ out.retainedFrom = buffer.total - buffer.bytes.length := by
  have hconnection := h.connection _ (mem_of_buffer? hbuffer)
  simp only [Manager.recentOutput,hbuffer]
  rw [if_neg (not_not.mpr hconnection)]
  exact ⟨_,rfl,rfl,rfl⟩

theorem buffer_of_recentOutput {m : Manager} {request : TerminalRecentOutputRequest}
    {out : TerminalRecentOutput} (h : m.recentOutput request = .ok out) :
    ∃ buffer, m.buffer? request.sessionId = some buffer := by
  cases hb : m.buffer? request.sessionId with
  | none => simp [Manager.recentOutput,hb] at h
  | some buffer => exact ⟨buffer,rfl⟩

/-- Reading succeeds exactly for the recorded sessions that were ever opened. -/
theorem recentOutput_iff (h : t.Kept) (id : String) (maxChars : Option ℕ) :
    (∃ out, t.manager.recentOutput ⟨id,maxChars,t.connection id⟩ = .ok out) ↔
      ∃ transport, (id,transport) ∈ t.opened ∧ transport.registers := by
  rw [← buffer?_isSome h]
  constructor
  · rintro ⟨out,hout⟩
    obtain ⟨buffer,hbuffer⟩ := buffer_of_recentOutput hout
    exact Option.isSome_iff_exists.mpr ⟨buffer,hbuffer⟩
  · intro hsome
    obtain ⟨buffer,hbuffer⟩ := Option.isSome_iff_exists.mp hsome
    obtain ⟨out,hout,-⟩ := recentOutput_of_buffer h hbuffer maxChars
    exact ⟨out,hout⟩

theorem opened_of_live (h : t.Kept) (hlive : t.Live id) : id ∈ t.opened.map Prod.fst := by
  rcases hlive with hopening | hstored
  · obtain ⟨p,hp,rfl⟩ := mem_map.mp hopening
    exact mem_map_of_mem (h.opening p hp)
  · exact h.stored id hstored

/-- A session was opened with one transport. -/
theorem recorded_of_opened (h : t.Kept) (hopened : (id,transport) ∈ t.opened) (hr : transport.registers) :
    t.Recorded id := by
  intro other hother
  have hsame := inj_on_of_nodup_map h.opened hother hopened rfl
  rw [(Prod.mk.inj hsame).2]
  exact hr

theorem memory_le (h : t.Kept) (hall : t.AllThere) : t.memory ≤ t.liveCount * terminalRingLimit := by
  have hbuffers : (t.manager.output.rows.map Prod.fst).length ≤ t.liveCount := by
    apply List.Subperm.length_le
    apply subperm_of_subset t.manager.output.keysNodup
    intro id hid
    obtain ⟨transport,hopened,hr⟩ := (h.registered id).mp hid
    rw [mem_dedup,mem_append]
    exact hall.live id transport hopened hr
  have hsize : ∀ n ∈ t.manager.output.rows.map (fun row => row.2.bytes.length), n ≤ terminalRingLimit := by
    intro n hn
    obtain ⟨row,hrow,rfl⟩ := mem_map.mp hn
    rw [h.bytes row hrow,length_lastBytes]
    exact min_le_right _ _
  calc t.memory ≤ t.manager.output.rows.length * terminalRingLimit := by
        simpa [memory] using sum_le_card_nsmul _ _ hsize
    _ ≤ t.liveCount * terminalRingLimit := Nat.mul_le_mul_right _ (by simpa using hbuffers)

end Terminals

end Mxterm.TerminalManager
