import Mxterm.ByteStreams
import Mxterm.TelnetProtocol
import Mxterm.Utf8
import Mxterm.Values

/-! The two ends of SOCKS5: the client that connects a terminal through a proxy (`terminal/session.rs`), and
the server of a dynamic tunnel (`tunnels.rs`). -/
namespace Mxterm.Socks5

open ByteStreams Execution
open Telnet (toBeBytes)

/-! ## The client -/

def earlyEof : String := "early eof"

def debugBytes (bytes : List UInt8) : String :=
  "[" ++ ", ".intercalate (bytes.map fun byte => toString byte.toNat) ++ "]"

def authenticateSocks5Proxy (username password : String) : EStateM AppError Stream Unit := do
  if (Utf8.encode username).length > 255 ∨ (Utf8.encode password).length > 255 then
    throw ⟨"proxy_auth_invalid","SOCKS5 代理用户名或密码过长。","credential length > 255",true⟩
  else
    send ([0x01,UInt8.ofNat (Utf8.encode username).length] ++ Utf8.encode username ++
      [UInt8.ofNat (Utf8.encode password).length] ++ Utf8.encode password)
    let response ← receive 2 ⟨"proxy_auth_failed","SOCKS5 代理认证响应读取失败。",earlyEof,true⟩
    if response = [0x01,0x00] then pure ()
    else throw ⟨"proxy_auth_rejected","SOCKS5 代理认证未通过。",debugBytes response,true⟩

/-- The method that the proxy has selected. -/
def acceptMethod (username password : Option String) (response : List UInt8) : EStateM AppError Stream Unit :=
  if response = [0x05,0x00] then pure ()
  else if response = [0x05,0x02] then authenticateSocks5Proxy (username.getD "") (password.getD "")
  else if response = [0x05,0xff] then
    throw ⟨"proxy_auth_rejected","SOCKS5 代理不接受当前认证方式。","no acceptable auth method",true⟩
  else throw ⟨"proxy_connect_rejected","SOCKS5 代理握手失败。",debugBytes response,true⟩

def responseError : AppError := ⟨"proxy_connect_failed","SOCKS5 响应读取失败。",earlyEof,true⟩

/-- The length of the address and the port behind the head of a response. -/
def responseRemaining (head : List UInt8) : EStateM AppError Stream ℕ :=
  match head with
  | [_,_,_,0x01] => pure (4 + 2)
  | [_,_,_,0x03] => do
    let len ← receive 1 responseError
    pure ((len.headD 0).toNat + 2)
  | [_,_,_,0x04] => pure (16 + 2)
  | _ => throw ⟨"proxy_connect_rejected","SOCKS5 代理响应地址类型无效。",debugBytes head,true⟩

def readSocks5ConnectResponse : EStateM AppError Stream Unit := do
  let head ← receive 4 ⟨"proxy_connect_failed","SOCKS5 CONNECT 响应读取失败。",earlyEof,true⟩
  if head.take 2 = [0x05,0x00] then do
    let remaining ← responseRemaining head
    let _ ← receive remaining responseError
    pure ()
  else throw ⟨"proxy_connect_rejected","SOCKS5 代理拒绝连接目标主机。",debugBytes head,true⟩

def clientMethods (username : Option String) : List UInt8 :=
  if username.getD "" = "" then [0x05,0x01,0x00] else [0x05,0x02,0x00,0x02]

def connectRequest (host : String) (port : UInt16) : List UInt8 :=
  [0x05,0x01,0x00,0x03,UInt8.ofNat (Utf8.encode host).length] ++ Utf8.encode host ++ toBeBytes port

/-- `open_socks5_stream`, on a stream to the proxy. -/
def openSocks5Stream (username password : Option String) (host : String) (port : UInt16) :
    EStateM AppError Stream Unit := do
  send (clientMethods username)
  let response ← receive 2 ⟨"proxy_connect_failed","SOCKS5 握手响应读取失败。",earlyEof,true⟩
  acceptMethod username password response
  if (Utf8.encode host).length > 255 then
    throw ⟨"proxy_target_invalid","SOCKS5 目标主机过长。",host,true⟩
  else do
    send (connectRequest host port)
    readSocks5ConnectResponse

/-! ## The server -/

structure Socks5ConnectTarget where
  host : String
  port : UInt16

/-- How a function ends that indexes into bytes: with an error, or out of range. -/
inductive Fault
  | failed (error : AppError)
  | outOfRange

def socksHandshakeError (message rawMessage : String) : Fault :=
  .failed ⟨"tunnel_socks_handshake_failed",message,rawMessage,true⟩

def socksTargetError (message rawMessage : String) : Fault :=
  .failed ⟨"tunnel_socks_target_missing",message,rawMessage,true⟩

def byteAt (bytes : List UInt8) (i : ℕ) : Except Fault UInt8 :=
  match bytes[i]? with
  | some byte => .ok byte
  | none => .error .outOfRange

def slice (bytes : List UInt8) (start stop : ℕ) : Except Fault (List UInt8) :=
  if start ≤ stop ∧ stop ≤ bytes.length then .ok ((bytes.take stop).drop start) else .error .outOfRange

def selectSocks5NoAuthMethod (methods : List UInt8) : Except Fault Unit :=
  if 0x00 ∈ methods then .ok ()
  else .error (socksHandshakeError "SOCKS5 客户端不支持无认证方式。" "no supported no-auth method")

def socks5Port (high low : UInt8) : Except Fault UInt16 :=
  let port := UInt16.ofNat (256 * high.toNat + low.toNat)
  if port = 0 then .error (socksTargetError "SOCKS5 目标端口无效。" "port is zero") else .ok port

/-- `Ipv4Addr::to_string`. -/
def ipv4String (octets : List UInt8) : String := ".".intercalate (octets.map fun byte => toString byte.toNat)

def hexString (n : ℕ) : String := String.ofList (Nat.toDigits 16 n)

def segments : List UInt8 → List ℕ
  | high :: low :: rest => (256 * high.toNat + low.toNat) :: segments rest
  | _ => []

/-- The first of the longest runs of zeros, by its start and its length. -/
def longestZeros (segments : List ℕ) : ℕ × ℕ :=
  (List.range segments.length).foldl (fun best start =>
    let length := ((segments.drop start).takeWhile (· = 0)).length
    if best.2 < length then (start,length) else best) (0,0)

def joinHex (segments : List ℕ) : String := ":".intercalate (segments.map hexString)

/-- `Ipv6Addr::to_string`. -/
def ipv6String (octets : List UInt8) : String :=
  let all := segments octets
  if all.take 6 = [0,0,0,0,0,0xffff] then "::ffff:" ++ ipv4String (octets.drop 12)
  else
    let (start,length) := longestZeros all
    if 1 < length then joinHex (all.take start) ++ "::" ++ joinHex (all.drop (start + length)) else joinHex all

def parseSocks5Ipv4Target (request : List UInt8) : Except Fault Socks5ConnectTarget := do
  if request.length < 10 then .error (socksTargetError "SOCKS5 IPv4 目标不完整。" "ipv4 request too short")
  else
    let octets ← slice request 4 8
    let high ← byteAt request 8
    let low ← byteAt request 9
    let port ← socks5Port high low
    .ok ⟨ipv4String octets,port⟩

def parseSocks5DomainTarget (request : List UInt8) : Except Fault Socks5ConnectTarget := do
  let length ← byteAt request 4
  let portStart := 5 + length.toNat
  if length.toNat = 0 ∨ request.length < portStart + 2 then
    .error (socksTargetError "SOCKS5 域名目标不完整。" "domain request too short")
  else
    let bytes ← slice request 5 portStart
    match Utf8.decode? bytes with
    | none => .error (socksTargetError "SOCKS5 域名目标无效。" "invalid utf-8")
    | some domain =>
      let high ← byteAt request portStart
      let low ← byteAt request (portStart + 1)
      let port ← socks5Port high low
      .ok ⟨domain,port⟩

def parseSocks5Ipv6Target (request : List UInt8) : Except Fault Socks5ConnectTarget := do
  if request.length < 22 then .error (socksTargetError "SOCKS5 IPv6 目标不完整。" "ipv6 request too short")
  else
    let octets ← slice request 4 20
    let high ← byteAt request 20
    let low ← byteAt request 21
    let port ← socks5Port high low
    .ok ⟨ipv6String octets,port⟩

def parseSocks5Address (request : List UInt8) (kind : UInt8) : Except Fault Socks5ConnectTarget :=
  if kind = 0x01 then parseSocks5Ipv4Target request
  else if kind = 0x03 then parseSocks5DomainTarget request
  else if kind = 0x04 then parseSocks5Ipv6Target request
  else .error (socksHandshakeError "SOCKS5 地址类型不受支持。" ("atyp=" ++ toString kind.toNat))

def parseSocks5ConnectTarget (request : List UInt8) : Except Fault Socks5ConnectTarget := do
  if request.length < 7 then .error (socksTargetError "SOCKS5 请求目标不完整。" "request too short")
  else
    let version ← byteAt request 0
    let command ← byteAt request 1
    let reserved ← byteAt request 2
    let kind ← byteAt request 3
    if version ≠ 0x05 then
      .error (socksHandshakeError "SOCKS5 版本不受支持。" ("version=" ++ toString version.toNat))
    else if command ≠ 0x01 then
      .error (socksHandshakeError "SOCKS5 暂只支持 CONNECT 请求。" ("command=" ++ toString command.toNat))
    else if reserved ≠ 0x00 then
      .error (socksHandshakeError "SOCKS5 请求格式无效。" ("reserved=" ++ toString reserved.toNat))
    else parseSocks5Address request kind

/-- The methods that the client offers, of which one is selected. -/
def readMethods (count : ℕ) : EStateM Fault Stream Unit := do
  let methods ← receive count (socksHandshakeError "SOCKS5 认证方式读取失败。" earlyEof)
  match selectSocks5NoAuthMethod methods with
  | .error error => do
    send [0x05,0xff]
    throw error
  | .ok () => send [0x05,0x00]

def readGreeting : EStateM Fault Stream Unit := do
  let greeting ← receive 2 (socksHandshakeError "SOCKS5 握手读取失败。" earlyEof)
  let version ← lift (byteAt greeting 0)
  let methodCount ← lift (byteAt greeting 1)
  if version ≠ 0x05 then
    throw (socksHandshakeError "SOCKS5 版本不受支持。" ("version=" ++ toString version.toNat))
  else if methodCount = 0 then do
    send [0x05,0xff]
    throw (socksHandshakeError "SOCKS5 客户端未提供认证方式。" "method count is zero")
  else readMethods methodCount.toNat

def targetError : Fault := socksTargetError "SOCKS5 目标读取失败。" earlyEof

/-- The request as far as it tells its length, and the length of the rest. -/
def readExtraLength (request : List UInt8) : EStateM Fault Stream (List UInt8 × ℕ) := do
  let kind ← lift (byteAt request 3)
  if kind = 0x01 then pure (request,6)
  else if kind = 0x03 then do
    let length ← receive 1 (socksTargetError "SOCKS5 域名长度读取失败。" earlyEof)
    let len ← lift (byteAt length 0)
    pure (request ++ [len],len.toNat + 2)
  else if kind = 0x04 then pure (request,18)
  else throw (socksHandshakeError "SOCKS5 地址类型不受支持。" ("atyp=" ++ toString kind.toNat))

def readRequest : EStateM Fault Stream Socks5ConnectTarget := do
  let request ← receive 4 (socksHandshakeError "SOCKS5 请求读取失败。" earlyEof)
  let (request,extraLength) ← readExtraLength request
  let extra ← receive extraLength targetError
  lift (parseSocks5ConnectTarget (request ++ extra))

def readSocks5ConnectTarget : EStateM Fault Stream Socks5ConnectTarget := do
  readGreeting
  readRequest

def socks5Reply (reply : UInt8) : List UInt8 := [0x05,reply,0x00,0x01,0,0,0,0,0,0]

end Mxterm.Socks5
