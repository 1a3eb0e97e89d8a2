import Mathlib.Data.UInt

/-! The Telnet filter of `terminal/telnet.rs`, which takes the option negotiation out of the
bytes that a host sends and answers it, and the grammar of the streams it is made for. -/
namespace Mxterm.Telnet

def SE : UInt8 := 240
def SB : UInt8 := 250
def WILL : UInt8 := 251
def WONT : UInt8 := 252
def DO : UInt8 := 253
def DONT : UInt8 := 254
def IAC : UInt8 := 255
def ECHO : UInt8 := 1
def SUPPRESS_GO_AHEAD : UInt8 := 3
def NAWS : UInt8 := 31

inductive ParserState
  | data | iac | command (command : UInt8) | subnegotiation | subnegotiationIac
  deriving DecidableEq

structure TelnetProtocolParser where
  cols : UInt16
  rows : UInt16
  state : ParserState
  deriving DecidableEq

def TelnetProtocolParser.new (cols rows : UInt16) : TelnetProtocolParser := ⟨cols,rows,.data⟩

def toBeBytes (value : UInt16) : List UInt8 := [(value >>> 8).toUInt8,value.toUInt8]

def pushEscapedU16 (value : UInt16) : List UInt8 :=
  (toBeBytes value).flatMap fun byte => if byte = IAC then [byte,IAC] else [byte]

def buildNawsPayload (cols rows : UInt16) : List UInt8 :=
  [IAC,SB,NAWS] ++ pushEscapedU16 cols ++ pushEscapedU16 rows ++ [IAC,SE]

/-- What `handle_command` adds to the replies. -/
def handleCommand (cols rows : UInt16) (command option : UInt8) : List UInt8 :=
  if command = WILL then
    if option = ECHO ∨ option = SUPPRESS_GO_AHEAD then [IAC,DO,option] else [IAC,DONT,option]
  else if command = DO then
    if option = NAWS then [IAC,WILL,NAWS] ++ buildNawsPayload cols rows
    else if option = SUPPRESS_GO_AHEAD then [IAC,WILL,option]
    else [IAC,WONT,option]
  else []

/-- The parser with the two buffers a call of `feed` appends to. -/
structure Feed where
  parser : TelnetProtocolParser
  output : List UInt8
  replies : List UInt8
  deriving DecidableEq

namespace Feed

def goto (s : Feed) (state : ParserState) : Feed := { s with parser := { s.parser with state } }
def push (s : Feed) (byte : UInt8) : Feed := { s with output := s.output ++ [byte] }
def reply (s : Feed) (bytes : List UInt8) : Feed := { s with replies := s.replies ++ bytes }

/-- One turn of the loop in `feed`. -/
def byte (s : Feed) (b : UInt8) : Feed :=
  match s.parser.state with
  | .data => if b = IAC then s.goto .iac else s.push b
  | .iac =>
    if b = IAC then (s.push IAC).goto .data
    else if b = WILL ∨ b = WONT ∨ b = DO ∨ b = DONT then s.goto (.command b)
    else if b = SB then s.goto .subnegotiation
    else s.goto .data
  | .command command =>
    (s.reply (handleCommand s.parser.cols s.parser.rows command b)).goto .data
  | .subnegotiation => if b = IAC then s.goto .subnegotiationIac else s
  | .subnegotiationIac => if b = SE then s.goto .data else s.goto .subnegotiation

def bytes (s : Feed) (input : List UInt8) : Feed := input.foldl byte s

@[simp] theorem bytes_nil (s : Feed) : s.bytes [] = s := rfl

@[simp] theorem bytes_cons (s : Feed) (b : UInt8) (input : List UInt8) :
    s.bytes (b :: input) = (s.byte b).bytes input := rfl

@[simp] theorem bytes_append (s : Feed) (first second : List UInt8) :
    s.bytes (first ++ second) = (s.bytes first).bytes second := List.foldl_append

/-- What is in the buffers before a byte stays in front of what the byte adds. -/
theorem byte_buffers (p : TelnetProtocolParser) (out rep : List UInt8) (b : UInt8) :
    (⟨p,out,rep⟩ : Feed).byte b =
      ⟨((⟨p,[],[]⟩ : Feed).byte b).parser,out ++ ((⟨p,[],[]⟩ : Feed).byte b).output,
        rep ++ ((⟨p,[],[]⟩ : Feed).byte b).replies⟩ := by
  rcases p with ⟨cols,rows,state⟩
  cases state <;> simp only [byte,goto,push,reply]
  case command => simp
  all_goals split_ifs <;> simp

theorem bytes_buffers (p : TelnetProtocolParser) (out rep input : List UInt8) :
    (⟨p,out,rep⟩ : Feed).bytes input =
      ⟨((⟨p,[],[]⟩ : Feed).bytes input).parser,out ++ ((⟨p,[],[]⟩ : Feed).bytes input).output,
        rep ++ ((⟨p,[],[]⟩ : Feed).bytes input).replies⟩ := by
  induction input generalizing p out rep with
  | nil => simp
  | cons b input ih =>
    have hrest := ih ((⟨p,[],[]⟩ : Feed).byte b).parser ((⟨p,[],[]⟩ : Feed).byte b).output
      ((⟨p,[],[]⟩ : Feed).byte b).replies
    rw [bytes_cons,bytes_cons,byte_buffers,ih,hrest]
    simp only [List.append_assoc]

end Feed

/-- `TelnetProtocolParser::feed` with empty buffers. -/
def feed (parser : TelnetProtocolParser) (input : List UInt8) : Feed :=
  (⟨parser,[],[]⟩ : Feed).bytes input

/-- Successive calls of `feed`, each with buffers of its own, and what the calls return, joined. -/
def feedChunks (parser : TelnetProtocolParser) : List (List UInt8) → Feed
  | [] => ⟨parser,[],[]⟩
  | chunk :: chunks =>
    let first := feed parser chunk
    let rest := feedChunks first.parser chunks
    ⟨rest.parser,first.output ++ rest.output,first.replies ++ rest.replies⟩

/-- Where a stream is cut makes no difference. -/
theorem feedChunks_eq (parser : TelnetProtocolParser) (chunks : List (List UInt8)) :
    feedChunks parser chunks = feed parser chunks.flatten := by
  induction chunks generalizing parser with
  | nil => rfl
  | cons chunk chunks ih =>
    have hcut : feed parser (chunk ++ chunks.flatten) = (feed parser chunk).bytes chunks.flatten :=
      Feed.bytes_append _ _ _
    rw [List.flatten_cons,hcut,Feed.bytes_buffers]
    simp only [feedChunks,ih,feed]

inductive Verb
  | will | wont | «do» | dont
  deriving DecidableEq

def Verb.code : Verb → UInt8
  | .will => WILL
  | .wont => WONT
  | .do => DO
  | .dont => DONT

theorem Verb.code_injective {v w : Verb} (h : v.code = w.code) : v = w := by
  cases v <;> cases w <;> first | rfl | exact absurd h (by decide)

theorem Verb.code_ne_iac (v : Verb) : v.code ≠ IAC := by cases v <;> decide

theorem Verb.code_ne_sb (v : Verb) : v.code ≠ SB := by cases v <;> decide

theorem Verb.code_mem (v : Verb) :
    v.code = WILL ∨ v.code = WONT ∨ v.code = DO ∨ v.code = DONT := by
  cases v <;> simp [Verb.code]

/-- The commands of two bytes: an IAC and a byte that starts nothing longer. -/
def Single : Type :=
  {b : UInt8 // b ≠ IAC ∧ b ≠ SB ∧ b ≠ WILL ∧ b ≠ WONT ∧ b ≠ DO ∧ b ≠ DONT}

theorem Single.ne_code (c : Single) (v : Verb) : c.val ≠ v.code := by
  obtain ⟨b,_,_,hwill,hwont,hdo,hdont⟩ := c
  cases v <;> assumption

/-- A part of the body of a subnegotiation: a plain byte, or a byte behind an IAC, which is a
second IAC where the body holds the byte 0xFF. -/
inductive Part
  | plain (b : UInt8) (h : b ≠ IAC)
  | escaped (b : UInt8) (h : b ≠ SE)

def Part.bytes : Part → List UInt8
  | .plain b _ => [b]
  | .escaped b _ => [IAC,b]

/-- A byte of a body, as it is sent. -/
def Part.ofByte (b : UInt8) : Part :=
  if h : b = IAC then .escaped IAC (by decide) else .plain b h

inductive Item
  | byte (b : UInt8)
  | single (c : Single)
  | command (verb : Verb) (option : UInt8)
  | subnegotiation (body : List Part)

namespace Item

def bytes : Item → List UInt8
  | .byte b => if b = IAC then [IAC,IAC] else [b]
  | .single c => [IAC,c.val]
  | .command verb option => [IAC,verb.code,option]
  | .subnegotiation body => [IAC,SB] ++ body.flatMap Part.bytes ++ [IAC,SE]

def data : Item → List UInt8
  | .byte b => [b]
  | _ => []

end Item

def encode (items : List Item) : List UInt8 := items.flatMap Item.bytes

def dataBytes (items : List Item) : List UInt8 := items.flatMap Item.data

@[simp] theorem encode_nil : encode [] = [] := rfl

@[simp] theorem encode_cons (item : Item) (items : List Item) :
    encode (item :: items) = item.bytes ++ encode items := List.flatMap_cons

@[simp] theorem encode_append (items more : List Item) :
    encode (items ++ more) = encode items ++ encode more := List.flatMap_append

@[simp] theorem dataBytes_nil : dataBytes [] = [] := rfl

@[simp] theorem dataBytes_cons (item : Item) (items : List Item) :
    dataBytes (item :: items) = item.data ++ dataBytes items := List.flatMap_cons

end Mxterm.Telnet
