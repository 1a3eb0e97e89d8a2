import Mxterm.ConstantTime
import Mxterm.Socks5Handshake
import Mxterm.WeakestPreconditions

/-! The gate in front of the local X server: what a remote program has to send before it is connected
(`X11Forwarder::forward` in `terminal/x11.rs`). -/
namespace Mxterm.X11Gate

open ByteStreams Execution
open Socks5 (byteAt slice)

def authProtocol : List UInt8 := Utf8.encode "MIT-MAGIC-COOKIE-1"

/-- `[u8; 16]`. -/
abbrev Cookie : Type := {bytes : List UInt8 // bytes.length = 16}

/-! ## The bytes -/

def setupInvalid : AppError := ⟨"x11_setup_invalid","已拒绝无效的 X11 认证请求。","invalid X11 setup header",true⟩

def authRejected : AppError :=
  ⟨"x11_auth_rejected","已拒绝 Cookie 不匹配的 X11 连接。",
    "X11 authentication protocol or session cookie mismatch",true⟩

/-- `u16::from_le_bytes` or `u16::from_be_bytes`. -/
def u16 (little : Bool) (a b : UInt8) : ℕ :=
  if little then a.toNat + 256 * b.toNat else 256 * a.toNat + b.toNat

def littleOrder : UInt8 := 'l'.toUInt8
def bigOrder : UInt8 := 'B'.toUInt8

/-- The number at two places of some bytes. -/
def readU16 (little : Bool) (bytes : List UInt8) (i : ℕ) : Except Socks5.Fault ℕ := do
  let a ← byteAt bytes i
  let b ← byteAt bytes (i + 1)
  return u16 little a b

/-- The lengths of the protocol's name and of its data. -/
def setupHeader (header : List UInt8) : Except Socks5.Fault (ℕ × ℕ) := do
  let order ← byteAt header 0
  let little := decide (order = littleOrder)
  if order ≠ littleOrder ∧ order ≠ bigOrder then .error (.failed setupInvalid)
  else if (← readU16 little header 2) ≠ 11 then .error (.failed setupInvalid)
  else if (← readU16 little header 4) ≠ 0 then .error (.failed setupInvalid)
  else
    let name ← readU16 little header 6
    let data ← readU16 little header 8
    if name ≠ authProtocol.length ∨ data ≠ 16 then .error (.failed setupInvalid) else .ok (name,data)

/-- What is sent on for the header and the rest of a setup request. -/
def setupFor (fake real : Cookie) (header payload : List UInt8) (nameLen : ℕ) : Except Socks5.Fault (List UInt8) := do
  let cookieStart := (nameLen + 3) / 4 * 4
  let found ← slice payload cookieStart payload.length
  let difference : UInt8 := (found.zip fake.1).foldl (fun diff pair => diff ||| (pair.1 ^^^ pair.2)) 0
  let name ← slice payload 0 nameLen
  if name ≠ authProtocol ∨ difference ≠ 0 then .error (.failed authRejected)
  else if found.length ≠ real.1.length then .error .outOfRange
  else .ok (header ++ (payload.take cookieStart ++ real.1))

def isControl (c : Char) : Bool := c.toNat < 0x20 || (0x7f ≤ c.toNat && c.toNat < 0xa0)

def validateServerReply (reply : List UInt8) : Except Socks5.Fault Unit := do
  let status ← byteAt reply 0
  if status = 1 then .ok ()
  else
    let announced ← byteAt reply 1
    if reply.length < 8 then .error .outOfRange
    else
      let reasonLen := min announced.toNat (reply.length - 8)
      let bytes ← slice reply 8 (8 + reasonLen)
      let reason := ((Utf8.decodeLossy bytes).toList.filter (!isControl ·)).take 200
      .error (.failed ⟨"x11_local_auth_rejected","本地 X Server 拒绝认证，请检查 XAUTHORITY 和访问控制。",
        "X11 setup status=" ++ toString status ++ ": " ++ String.ofList reason,true⟩)

/-! ## The streams -/

/-- Why an operation stops. -/
inductive Stop
  | failed (raw : String)
  | timedOut
  | cancelled

inductive Connecting
  | connects
  | failed (raw : String)
  | expired
  | stopped (stop : Stop)

/-- How far the two directions of the relay get before it fails, or is cancelled. -/
structure Broken where
  toServer : ℕ
  toRemote : ℕ
  raw : Option String

/-- The two streams, whether the local one is open, and how the operations go: an operation that stops may have
sent some bytes. -/
structure Bridge where
  remote : Stream
  server : Stream
  connected : Bool
  stops : List (Option (ℕ × Stop))
  connecting : Connecting
  relaying : Option Broken

inductive Ending
  | failed (error : AppError)
  | cancelled
  | outOfRange

def streamError (raw : String) : AppError := ⟨"x11_stream_failed","X11 数据转发中断。",raw,true⟩

def setupTimeout : AppError := ⟨"x11_setup_timeout","X11 认证握手超时。","X11 setup timed out",true⟩

def Stop.ending : Stop → Ending
  | .failed raw => .failed (streamError raw)
  | .timedOut => .failed setupTimeout
  | .cancelled => .cancelled

def Ending.ofFault : Socks5.Fault → Ending
  | .failed error => .failed error
  | .outOfRange => .outOfRange

def orFault {α : Type} : Except Socks5.Fault α → Except Ending α
  | .ok a => .ok a
  | .error fault => .error (.ofFault fault)

abbrev Forward (α : Type) := EStateM Ending Bridge α

def readRemote (n : ℕ) : Forward (List UInt8) := fun s =>
  match s.stops.headD none with
  | some (_,stop) => .error stop.ending { s with stops := s.stops.tail }
  | none => match readExact n s.remote.incoming with
    | some (bytes,reads) =>
      .ok bytes { s with stops := s.stops.tail, remote := { s.remote with incoming := reads } }
    | none => .error (.failed (streamError "early eof")) { s with remote := { s.remote with incoming := [] } }

def readServer (n : ℕ) : Forward (List UInt8) := fun s =>
  match s.stops.headD none with
  | some (_,stop) => .error stop.ending { s with stops := s.stops.tail }
  | none => match readExact n s.server.incoming with
    | some (bytes,reads) =>
      .ok bytes { s with stops := s.stops.tail, server := { s.server with incoming := reads } }
    | none => .error (.failed (streamError "early eof")) { s with server := { s.server with incoming := [] } }

def Bridge.toServer (s : Bridge) (bytes : List UInt8) : Bridge :=
  { s with server := { s.server with sent := s.server.sent ++ bytes } }

def Bridge.toRemote (s : Bridge) (bytes : List UInt8) : Bridge :=
  { s with remote := { s.remote with sent := s.remote.sent ++ bytes } }

def writeServer (bytes : List UInt8) : Forward Unit := fun s =>
  match s.stops.headD none with
  | some (amount,stop) => .error stop.ending ({ s with stops := s.stops.tail }.toServer (bytes.take amount))
  | none => .ok () ({ s with stops := s.stops.tail }.toServer bytes)

def writeRemote (bytes : List UInt8) : Forward Unit := fun s =>
  match s.stops.headD none with
  | some (amount,stop) => .error stop.ending ({ s with stops := s.stops.tail }.toRemote (bytes.take amount))
  | none => .ok () ({ s with stops := s.stops.tail }.toRemote bytes)

/-- `DisplayTarget::connect`. -/
def connect : Forward Unit := fun s =>
  match s.connecting with
  | .connects => .ok () { s with connected := true }
  | .failed raw => .error (.failed ⟨"x11_local_connect_failed",
      "无法连接本地 X Server，请先启动 X Server 并检查 Display。",raw,true⟩) s
  | .expired => .error (.failed ⟨"x11_local_connect_timeout",
      "连接本地 X Server 超时，请检查 Display 和 X Server。","local socket connect timed out",true⟩) s
  | .stopped stop => .error stop.ending s

def readSetup (fake real : Cookie) : Forward (List UInt8) := do
  let header ← readRemote 12
  let (nameLen,cookieLen) ← lift (orFault (setupHeader header))
  let payload ← readRemote ((nameLen + 3) / 4 * 4 + cookieLen)
  lift (orFault (setupFor fake real header payload nameLen))

def readServerReply (little : Bool) : Forward (List UInt8) := do
  let header ← readServer 8
  let length ← lift (orFault (readU16 little header 6))
  let body ← readServer (length * 4)
  return header ++ body

def Bridge.left (s : Bridge) (remote server : List UInt8) : Bridge :=
  { s with remote := { s.remote with incoming := [remote] }, server := { s.server with incoming := [server] } }

/-- `copy_bidirectional`: all that still comes goes to the other side, or some of it before it breaks off. -/
def relay : Forward Unit := fun s =>
  let remote := s.remote.incoming.flatten
  let server := s.server.incoming.flatten
  match s.relaying with
  | none => .ok () (((s.left [] []).toServer remote).toRemote server)
  | some broken =>
    let s' := ((s.left (remote.drop broken.toServer) (server.drop broken.toRemote)).toServer
      (remote.take broken.toServer)).toRemote (server.take broken.toRemote)
    match broken.raw with
    | some raw => .error (.failed (streamError raw)) s'
    | none => .error .cancelled s'

/-- What is asked of the session before anything is read. -/
structure Session where
  slots : Bool
  cancelled : Bool
  active : Bool
  expired : Bool

def checkSession (session : Session) : Except Ending Unit :=
  if !session.slots then
    .error (.failed ⟨"x11_channel_limit","X11 并发连接数已达到上限。","too many X11 channels",true⟩)
  else if session.cancelled || !session.active then
    .error (.failed ⟨"x11_not_active","X11 转发未启用或会话已关闭。","unsolicited X11 channel",true⟩)
  else if session.expired then
    .error (.failed ⟨"x11_auth_expired",
      "非信任 X11 转发已超过 20 分钟，请重新连接 SSH 后启动新的图形程序。","untrusted forwarding deadline expired",true⟩)
  else .ok ()

def forward (session : Session) (fake real : Cookie) : Forward Unit := do
  lift (checkSession session)
  let setup ← readSetup fake real
  connect
  writeServer setup
  let order ← lift (orFault (byteAt setup 0))
  let reply ← readServerReply (decide (order = littleOrder))
  writeRemote reply
  lift (orFault (validateServerReply reply))
  relay

/-! ## Requests -/

/-- A setup request of protocol 11.0 with the cookie protocol; some of its bytes mean nothing. -/
structure SetupRequest where
  little : Bool
  unused : UInt8
  unused' : UInt8
  unused'' : UInt8
  padding : UInt8
  padding' : UInt8

namespace SetupRequest

def order (request : SetupRequest) : UInt8 := if request.little then littleOrder else bigOrder

/-- A number below 256 in two bytes. -/
def number (request : SetupRequest) (n : UInt8) : List UInt8 := if request.little then [n,0] else [0,n]

def header (request : SetupRequest) : List UInt8 :=
  [request.order,request.unused] ++ request.number 11 ++ request.number 0 ++ request.number 18 ++
    request.number 16 ++ [request.unused',request.unused'']

/-- The request with a cookie. -/
def bytes (request : SetupRequest) (cookie : Cookie) : List UInt8 :=
  request.header ++ (authProtocol ++ [request.padding,request.padding'] ++ cookie.1)

end SetupRequest

/-! ## What the bytes say -/

section
variable {little : Bool} {a b n : UInt8} {bytes header payload setup : List UInt8} {fake real : Cookie} {name data : ℕ}

theorem u16_eq_iff : u16 little a b = n.toNat ↔ [a,b] = if little then [n,0] else [0,n] := by
  have hn := n.toNat_lt
  have hzero : (0 : UInt8).toNat = 0 := rfl
  cases little <;>
    simp only [u16,if_true,Bool.false_eq_true,if_false,List.cons.injEq,and_true,← UInt8.toNat_inj,hzero] <;> omega

theorem readU16_inRange {i : ℕ} (h : i + 1 < bytes.length) : ∃ m, readU16 little bytes i = .ok m := by
  unfold readU16 byteAt
  rw [List.getElem?_eq_getElem h,List.getElem?_eq_getElem (Nat.lt_of_succ_lt h)]
  exact ⟨_,rfl⟩

theorem twelve_bytes : ∀ {bytes : List UInt8}, bytes.length = 12 → ∃ b₀ b₁ b₂ b₃ b₄ b₅ b₆ b₇ b₈ b₉ b₁₀ b₁₁,
    bytes = [b₀,b₁,b₂,b₃,b₄,b₅,b₆,b₇,b₈,b₉,b₁₀,b₁₁]
  | [_,_,_,_,_,_,_,_,_,_,_,_],_ => ⟨_,_,_,_,_,_,_,_,_,_,_,_,rfl⟩

/-- The checks of twelve bytes. -/
theorem setupHeader_eq (b₀ b₁ b₂ b₃ b₄ b₅ b₆ b₇ b₈ b₉ b₁₀ b₁₁ : UInt8) :
    setupHeader [b₀,b₁,b₂,b₃,b₄,b₅,b₆,b₇,b₈,b₉,b₁₀,b₁₁] =
      let little := decide (b₀ = littleOrder)
      if b₀ ≠ littleOrder ∧ b₀ ≠ bigOrder then .error (.failed setupInvalid)
      else if u16 little b₂ b₃ ≠ 11 then .error (.failed setupInvalid)
      else if u16 little b₄ b₅ ≠ 0 then .error (.failed setupInvalid)
      else if u16 little b₆ b₇ ≠ authProtocol.length ∨ u16 little b₈ b₉ ≠ 16 then .error (.failed setupInvalid)
      else .ok (u16 little b₆ b₇,u16 little b₈ b₉) := rfl

theorem authProtocol_length : authProtocol.length = 18 := by decide +kernel

theorem setupHeader_ok (hlength : header.length = 12) (h : setupHeader header = .ok (name,data)) :
    name = 18 ∧ data = 16 ∧ ∃ request : SetupRequest, header = request.header := by
  obtain ⟨b₀,b₁,b₂,b₃,b₄,b₅,b₆,b₇,b₈,b₉,b₁₀,b₁₁,rfl⟩ := twelve_bytes hlength
  rw [setupHeader_eq] at h
  dsimp only at h
  split_ifs at h with horder hmajor hminor hlengths
  cases Except.ok.inj h
  rw [not_or,not_not,not_not] at hlengths
  obtain ⟨hname,hdata⟩ := hlengths
  refine ⟨hname,hdata,⟨decide (b₀ = littleOrder),b₁,b₁₀,b₁₁,0,0⟩,?_⟩
  have horder' : (if decide (b₀ = littleOrder) then littleOrder else bigOrder) = b₀ := by
    by_cases hlittle : b₀ = littleOrder
    · simp [hlittle]
    · simp only [hlittle,decide_false,Bool.false_eq_true,if_false]
      by_contra hbig
      exact horder ⟨hlittle,fun heq => hbig heq.symm⟩
  have hmajor' := (u16_eq_iff (n := 11)).mp (not_not.mp hmajor)
  have hminor' := (u16_eq_iff (n := 0)).mp (not_not.mp hminor)
  have hname' := (u16_eq_iff (n := 18)).mp hname
  have hdata' := (u16_eq_iff (n := 16)).mp hdata
  rw [SetupRequest.header,SetupRequest.order,horder']
  simp only [SetupRequest.number]
  rw [← hmajor',← hminor',← hname',← hdata']
  rfl

theorem setupHeader_inRange (hlength : header.length = 12) : setupHeader header ≠ .error .outOfRange := by
  obtain ⟨b₀,b₁,b₂,b₃,b₄,b₅,b₆,b₇,b₈,b₉,b₁₀,b₁₁,rfl⟩ := twelve_bytes hlength
  rw [setupHeader_eq]
  dsimp only
  split_ifs <;> exact nofun

/-- The checks of the rest of a request. -/
theorem setupFor_eq (hlength : payload.length = 36) :
    setupFor fake real header payload 18 =
      if payload.take 18 ≠ authProtocol ∨ payload.drop 20 ≠ fake.1 then .error (.failed authRejected)
      else .ok (header ++ (payload.take 20 ++ real.1)) := by
  have hcookie : slice payload 20 payload.length = .ok (payload.drop 20) := by
    rw [slice,if_pos ⟨by omega,Nat.le_refl _⟩,List.take_length]
  have hname : slice payload 0 18 = .ok (payload.take 18) := by
    rw [slice,if_pos ⟨by omega,by omega⟩,List.drop_zero]
  have hfound : (payload.drop 20).length = 16 := by rw [List.length_drop,hlength]
  have hdifference : ((payload.drop 20).zip fake.1).foldl (fun diff pair => diff ||| (pair.1 ^^^ pair.2)) 0 ≠ 0 ↔
      payload.drop 20 ≠ fake.1 :=
    not_congr (ConstantTime.difference_eq_zero (hfound.trans fake.2.symm))
  unfold setupFor
  simp only [show (18 + 3) / 4 * 4 = 20 from rfl,hcookie,hname,bind,Except.bind,hdifference]
  rw [if_neg (show ¬ (payload.drop 20).length ≠ real.1.length by rw [hfound,real.2]; exact fun h => h rfl)]

theorem setupFor_ok (hlength : payload.length = 36) (h : setupFor fake real header payload 18 = .ok setup) :
    ∃ padding padding', payload = authProtocol ++ [padding,padding'] ++ fake.1 ∧
      setup = header ++ (authProtocol ++ [padding,padding'] ++ real.1) := by
  rw [setupFor_eq hlength] at h
  split_ifs at h with hsame
  rw [not_or,not_not,not_not] at hsame
  obtain ⟨hname,hcookie⟩ := hsame
  obtain ⟨padding,padding',hpadding⟩ : ∃ padding padding', (payload.take 20).drop 18 = [padding,padding'] := by
    apply Socks5.length_two
    rw [List.length_drop,List.length_take,hlength]
    rfl
  have htake : payload.take 20 = authProtocol ++ [padding,padding'] := by
    rw [← List.take_append_drop 18 (payload.take 20),hpadding,List.take_take]
    exact congrArg (· ++ _) hname
  refine ⟨padding,padding',?_,?_⟩
  · rw [← htake,← hcookie,List.take_append_drop]
  · rw [← htake]
    exact (Except.ok.inj h).symm

theorem setupFor_inRange (hlength : payload.length = 36) :
    setupFor fake real header payload 18 ≠ .error .outOfRange := by
  rw [setupFor_eq hlength]
  split_ifs <;> exact nofun

theorem validateServerReply_inRange {reply : List UInt8} (h : 8 ≤ reply.length) :
    validateServerReply reply ≠ .error .outOfRange := by
  obtain ⟨status,hstatus⟩ := Socks5.byteAt_lt (show 0 < reply.length by omega)
  obtain ⟨announced,hannounced⟩ := Socks5.byteAt_lt (show 1 < reply.length by omega)
  obtain ⟨bytes,hbytes⟩ := Socks5.slice_of_le (show 8 ≤ 8 + min announced.toNat (reply.length - 8) by omega)
    (show 8 + min announced.toNat (reply.length - 8) ≤ reply.length by omega)
  unfold validateServerReply
  simp only [hstatus,hannounced,hbytes,bind,Except.bind]
  split_ifs
  · exact nofun
  · omega
  · exact nofun

end

end Mxterm.X11Gate
