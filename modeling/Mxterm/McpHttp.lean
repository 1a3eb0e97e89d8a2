import Mxterm.ConstantTime
import Mxterm.Json
import Mxterm.Occurrences
import Mxterm.SecureBundle
import Mxterm.TextLines
import Mxterm.Utf8

/-! The HTTP requests of the MCP server: how they are read from a connection, and which of them reach the tools
(`bin/mxterm_mcp.rs`). -/
namespace Mxterm.McpHttp

open Occurrences

def maxHttpHeaderBytes : ℕ := 64 * 1024
def maxHttpBodyBytes : ℕ := 2 * 1024 * 1024

/-- What a read fills of the chunk; at the end of the stream there is none. -/
abbrev Read : Type := {bytes : List UInt8 // bytes ≠ [] ∧ bytes.length ≤ 1024}

def stream (reads : List Read) : List UInt8 := (reads.map Subtype.val).flatten

structure HttpRequest where
  method : String
  path : String
  query : String
  headers : String → Option String
  body : List UInt8

inductive ReadError
  | invalidData (message : String)
  | outOfRange
  deriving DecidableEq

/-! ## The header -/

def endMark : List UInt8 := [0x0d,0x0a,0x0d,0x0a]

def findHeaderEnd (buffer : List UInt8) : Option ℕ := (findFirst endMark buffer).map fun found => found.1.length

/-- The buffer with the place where its header ends, and the reads to come; none for a stream without a byte. -/
def readHeader : List Read → List UInt8 → Except ReadError (Option (ℕ × List UInt8 × List Read))
  | [],buffer => if buffer = [] then .ok none else .error (.invalidData "incomplete http request")
  | chunk :: reads,buffer =>
    let buffer := buffer ++ chunk.1
    if maxHttpHeaderBytes < buffer.length then .error (.invalidData "http header too large")
    else match findHeaderEnd buffer with
      | some index => .ok (some (index,buffer,reads))
      | none => readHeader reads buffer

def sliceTo (bytes : List UInt8) (stop : ℕ) : Except ReadError (List UInt8) :=
  if stop ≤ bytes.length then .ok (bytes.take stop) else .error .outOfRange

def sliceFrom (bytes : List UInt8) (start : ℕ) : Except ReadError (List UInt8) :=
  if start ≤ bytes.length then .ok (bytes.drop start) else .error .outOfRange

def splitTarget (target : String) : String × String := (Text.splitOnce '?' target).getD (target,"")

/-- A header replaces one of the same name. -/
def insertHeader (lower : String → String) (headers : String → Option String) (line : String) :
    String → Option String :=
  match Text.splitOnce ':' line with
  | some (name,value) => Function.update headers (lower (Text.trim name)) (some (Text.trim value))
  | none => headers

/-- The request that a header begins, without its body. -/
def parseHeader (lower : String → String) (bytes : List UInt8) : Except ReadError HttpRequest :=
  match Utf8.decode? bytes with
  | none => .error (.invalidData "invalid http header")
  | some text =>
    match (pieces ['\r','\n'] text.toList).map String.ofList with
    | [] => .error (.invalidData "missing request line")
    | requestLine :: lines =>
      match Text.splitWhitespace requestLine with
      | [] => .error (.invalidData "missing method")
      | [_] => .error (.invalidData "missing target")
      | method :: target :: _ =>
        let (path,query) := splitTarget target
        .ok ⟨method,path,query,lines.foldl (insertHeader lower) fun _ => none,[]⟩

/-- A number of decimal digits, behind a plus or not. -/
def decimal? (text : String) : Option ℕ :=
  let digits := if text.toList.head? = some '+' then text.toList.tail else text.toList
  if digits ≠ [] ∧ digits.all Char.isDigit then some (Nat.ofDigitChars 10 digits 0) else none

/-- `parse::<usize>`. -/
def parseUsize (text : String) : Option ℕ := (decimal? text).filter (· < 2 ^ 64)

def contentLength (headers : String → Option String) : ℕ := ((headers "content-length").bind parseUsize).getD 0

/-! ## The body -/

def readBody (contentLength : ℕ) : List Read → List UInt8 → Except ReadError (List UInt8)
  | [],body => if body.length < contentLength then .error (.invalidData "incomplete http body") else .ok body
  | chunk :: reads,body =>
    if body.length < contentLength then
      let body := body ++ chunk.1
      if maxHttpBodyBytes < body.length then .error (.invalidData "http body too large")
      else readBody contentLength reads body
    else .ok body

def readHttpRequest (lower : String → String) (reads : List Read) : Except ReadError (Option HttpRequest) := do
  match ← readHeader reads [] with
  | none => return none
  | some (headerEnd,buffer,reads) =>
    let request ← parseHeader lower (← sliceTo buffer headerEnd)
    let length := contentLength request.headers
    if maxHttpBodyBytes < length then .error (.invalidData "http body too large")
    else
      let body ← readBody length reads (← sliceFrom buffer (headerEnd + 4))
      return some { request with body := body.take length }

/-! ## Who is let in -/

section
variable (sha256 : List UInt8 → List UInt8)

def hashRemoteToken (token : String) : String :=
  String.ofList ((sha256 (Utf8.encode token)).flatMap SecureBundle.hexDigits)

def constantTimeEq (left right : List UInt8) : Bool :=
  if left.length ≠ right.length then false else decide (ConstantTime.difference left right = 0)

def verifyRemoteToken (token expectedHash : String) : Bool :=
  constantTimeEq (Utf8.encode (hashRemoteToken sha256 (Text.trim token))) (Utf8.encode (Text.trim expectedHash))

def requestToken (request : HttpRequest) : Option String :=
  let bearer := (request.headers "authorization").bind fun header =>
    (Text.stripPrefix "Bearer " (Text.trim header) <|> Text.stripPrefix "bearer " (Text.trim header)).map Text.trim
  bearer <|> ((request.headers "x-mxterm-mcp-token").map Text.trim).filter (· ≠ "")

def requestAuthorized (request : HttpRequest) (tokenHash : String) : Bool :=
  (requestToken request).any fun token => verifyRemoteToken sha256 token tokenHash

def originAuthority (origin : String) : String :=
  let withoutScheme := match findFirst "://".toList origin.toList with
    | some (_,rest) => rest
    | none => origin.toList
  String.ofList (withoutScheme.takeWhile (· ≠ '/'))

def authorityHost (authority : String) : Option String :=
  let value := ((Text.trim authority).toList.dropWhile (· = '[')).rdropWhile (· = ']')
  let host := String.ofList (value.takeWhile (· ≠ ':'))
  if host = "" then none else some host

def isLoopbackHost (host : String) : Bool := host = "localhost" || host = "127.0.0.1" || host = "::1"

def originAllowed (request : HttpRequest) : Bool :=
  match request.headers "origin" with
  | none => true
  | some origin => match authorityHost (originAuthority origin) with
    | none => false
    | some originHost =>
      if isLoopbackHost originHost then true
      else match request.headers "host" with
        | none => false
        | some host => (authorityHost host).any fun host =>
          Text.toAsciiLowercase host = Text.toAsciiLowercase originHost

/-- What a request is answered with, but for the texts of the responses. -/
inductive Handling
  | response (status : ℕ)
  | events
  | message (value : Json)

def queryParam (query key : String) : Option String :=
  (query.toList.splitOn '&').findSome? fun part =>
    (Text.splitOnce '=' (String.ofList part)).bind fun pair => if pair.1 = key then some pair.2 else none

def handleStreamableHttpPost (parse : List UInt8 → Option Json) (request : HttpRequest) : Handling :=
  match parse request.body with
  | some message => .message message
  | none => .response 400

def handleLegacyMessage (parse : List UInt8 → Option Json) (sessions : String → Bool) (request : HttpRequest) :
    Handling :=
  match queryParam request.query "session_id" with
  | none => .response 400
  | some sessionId =>
    if sessions sessionId then
      match parse request.body with
      | some message => .message message
      | none => .response 400
    else .response 404

/-- `handle_http_connection`, for a request that was read. -/
def handleRequest (parse : List UInt8 → Option Json) (sessions : String → Bool) (tokenHash : String)
    (request : HttpRequest) : Handling :=
  if request.method = "OPTIONS" then .response 204
  else if originAllowed request = false then .response 403
  else if request.method = "GET" ∧ request.path = "/health" then .response 200
  else if requestAuthorized sha256 request tokenHash = false then .response 401
  else if request.method = "POST" ∧ request.path = "/mcp" then handleStreamableHttpPost parse request
  else if request.method = "GET" ∧ (request.path = "/mcp" ∨ request.path = "/sse") then .events
  else if request.method = "POST" ∧ request.path = "/messages" then handleLegacyMessage parse sessions request
  else .response 404

/-- `handle_http_connection`; a connection that asks nothing, or not in full, is closed. -/
def handleHttpConnection (lower : String → String) (parse : List UInt8 → Option Json) (sessions : String → Bool)
    (tokenHash : String) (reads : List Read) : Except ReadError (Option Handling) := do
  match ← readHttpRequest lower reads with
  | none => return none
  | some request => return some (handleRequest sha256 parse sessions tokenHash request)

end

end Mxterm.McpHttp
