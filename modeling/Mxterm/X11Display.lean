import Mxterm.ConnectionTypes

/-! The X11 display text and forwarding settings, as `terminal/x11.rs` checks them before
they are stored. -/
namespace Mxterm.X11Display

/-- The `cfg!` family the backend is built for. -/
inductive TargetFamily
  | unix | windows
  deriving DecidableEq

inductive DisplayTarget
  | tcp (host : String) (port : ℕ)
  | unixSocket (path : String)
  deriving DecidableEq

structure Display where
  target : DisplayTarget
  screen : ℕ
  deriving DecidableEq

def error (code message detail : String) : AppError := ⟨code,message,detail,true⟩

def invalid : AppError :=
  error "x11_display_invalid" "X11 Display 格式无效，请使用 :0、127.0.0.1:0 或 Unix socket 路径。"
    "invalid display syntax"

def digitValue (radix : ℕ) (c : Char) : Option ℕ :=
  let n := c.toNat
  let value := if c.isDigit then n - 48 else if 97 ≤ n ∧ n ≤ 102 then n - 87
    else if 65 ≤ n ∧ n ≤ 70 then n - 55 else radix
  if value < radix then some value else none

def number (radix : ℕ) (digits : List Char) : ℕ :=
  digits.foldl (fun value c => value * radix + (digitValue radix c).getD 0) 0

/-- `read_number`: a run of digits, of which the caller bounds the length and the value. -/
def readNumber (radix maxDigits bound : ℕ) (allowZeroPrefix : Bool) (cs : List Char) :
    Option (List Char) :=
  let digits := cs.takeWhile fun c => (digitValue radix c).isSome
  if digits = [] ∨ maxDigits < digits.length then none
  else if !allowZeroPrefix && digits.head? == some '0' && digits.length != 1 then none
  else if number radix digits < bound then some (cs.drop digits.length) else none

def readSeparator (separator : Char) (index : ℕ) (inner : List Char → Option (List Char))
    (cs : List Char) : Option (List Char) :=
  if index = 0 then inner cs
  else match cs with
    | c :: rest => if c = separator then inner rest else none
    | [] => none

def readIpv4Addr (cs : List Char) : Option (List Char) :=
  (List.range 4).foldl (fun rest i =>
    rest.bind (readSeparator '.' i (readNumber 10 3 256 false))) (some cs)

/-- The groups read, whether the last was a dotted address, and what is left. -/
def readGroups : ℕ → ℕ → List Char → ℕ × Bool × List Char
  | 0, index, cs => (index,false,cs)
  | left + 1, index, cs =>
    match if 0 < left then readSeparator ':' index readIpv4Addr cs else none with
    | some rest => (index + 2,true,rest)
    | none =>
      match readSeparator ':' index (readNumber 16 4 65536 true) cs with
      | some rest => readGroups left (index + 1) rest
      | none => (index,false,cs)

/-- `Ipv6Addr::from_str(..).is_ok()`. -/
def isIpv6Addr (s : String) : Bool :=
  match readGroups 8 0 s.toList with
  | (8, _, rest) => rest.isEmpty
  | (_, true, _) => false
  | (headSize, false, ':' :: ':' :: rest) => (readGroups (7 - headSize) 0 rest).2.2.isEmpty
  | _ => false

def port (number : ℕ) : Except AppError ℕ :=
  if 6000 + number < 65536 then .ok (6000 + number) else .error invalid

def stripPrefix (s before : String) : Option String :=
  if Text.startsWith s before then some (String.ofList (s.toList.drop before.length)) else none

/-- The host of a display that is neither a socket path nor local. -/
def remoteHost (host : String) : Except AppError String := do
  let host := (stripPrefix host "tcp/").getD host
  let host ← match stripPrefix host "[" with
    | some inner =>
      if inner.toList.getLast? = some ']' then
        let ip := String.ofList inner.toList.dropLast
        if isIpv6Addr ip then .ok ip else .error invalid
      else .error invalid
    | none =>
      if host.toList.any (· ∈ [':','/','[',']']) then .error invalid else .ok host
  if host.isEmpty || host.toList.any fun c => !(c.isAlphanum || c ∈ ['.','-','_',':','%']) then
    .error invalid
  else .ok host

def parseTarget (family : TargetFamily) (host : String) (number : ℕ) :
    Except AppError DisplayTarget := do
  if Text.startsWith host "/" then .ok (.unixSocket s!"{host}:{number}")
  else if host = "" ∨ host = "unix" ∨ "/unix".toList <:+ host.toList ∨ host = "unix/" then
    match family with
    | .unix => .ok (.unixSocket s!"/tmp/.X11-unix/X{number}")
    | .windows => .ok (.tcp "127.0.0.1" (← port number))
  else
    let host ← remoteHost host
    .ok (.tcp host (← port number))

def Display.parse (family : TargetFamily) (value : String) : Except AppError Display := do
  if value = "" ∨ 1024 < value.utf8ByteSize ∨ value.toList.any (fun c => Text.isWhitespace c ||
      Text.isControl c || c.toNat == 0x27 || c.toNat == 0x22 || c.toNat == 0x5C) then
    .error invalid
  else
    let some (host,suffix) := Text.rsplitOnce ':' value | .error invalid
    let (numberText,screenText) := (Text.splitOnce '.' suffix).getD (suffix,"0")
    if numberText = "" ∨ screenText = "" ∨ !numberText.toList.all Char.isDigit ∨
        !screenText.toList.all Char.isDigit then .error invalid
    else if 65536 ≤ number 10 numberText.toList ∨ 4294967296 ≤ number 10 screenText.toList then
      .error invalid
    else
      let target ← parseTarget family host (number 10 numberText.toList)
      match family, target with
      | .windows, .unixSocket _ =>
        .error (error "x11_display_unsupported"
          "Windows 请使用本机 X Server 的 TCP Display，例如 127.0.0.1:0。"
          "Unix display is not supported on Windows")
      | _, _ => .ok ⟨target,number 10 screenText.toList⟩

def validateConfig (family : TargetFamily) (config : X11ForwardingConfig) :
    Except AppError X11ForwardingConfig := do
  let display := Text.trimOptional config.display
  let xauthPath := Text.trimOptional config.xauthPath
  let validated : X11ForwardingConfig :=
    { enabled := config.enabled, trusted := config.trusted, display, xauthPath }
  if config.enabled then
    match display with
    | some display => discard (Display.parse family display)
    | none => .ok ()
    if xauthPath.any fun path => path.toList.any Text.isControl then
      .error (error "x11_xauth_path_invalid" "xauth 路径包含无效字符。"
        "control character in executable path")
    else .ok validated
  else .ok validated

/-- Addresses in brackets go through the address parser; a display number past the port range fails. -/
example : Display.parse .unix "[::1]:0.2" = .ok ⟨.tcp "::1" 6000,2⟩ ∧
    Display.parse .windows "unix:0" = .ok ⟨.tcp "127.0.0.1" 6000,0⟩ ∧
    Display.parse .unix "host:60000" = .error invalid := by
  decide +kernel

end Mxterm.X11Display
