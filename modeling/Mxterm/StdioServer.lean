import Mxterm.Json
import Mxterm.TextLines
import Mxterm.Utf8

/-! The MCP server on standard input and output: one JSON-RPC message a line, one response a line. -/
namespace Mxterm.StdioServer

open Text

variable {σ : Type}

/-- What the server calls: the JSON parser, the printer, and the tools over the data directory. -/
structure Tools (σ : Type) where
  parse : String → Except String Json
  print : Json → String
  toolSchemas : σ → Json
  callTool : String → Json → σ → Except Json Json × σ

/-! ## Lines -/

/-- What `read_line` reads, one after another: each line with its newline, the last one perhaps without. -/
def rawLines : List UInt8 → List (List UInt8)
  | [] => []
  | byte :: bytes =>
    if byte = 0x0A then [byte] :: rawLines bytes
    else match rawLines bytes with
      | [] => [[byte]]
      | line :: lines => (byte :: line) :: lines

/-! ## Messages -/

def ok (id result : Json) : Json :=
  .object [("jsonrpc",.text "2.0"),("id",id),("result",result)]

def error (id : Json) (code : ℚ) (message : String) (data : Option Json) : Json :=
  .object [("jsonrpc",.text "2.0"),("id",id),
    ("error",.object [("code",.number code),("message",.text message),("data",data.getD .null)])]

def parseError (error : String) : Json :=
  .object [("jsonrpc",.text "2.0"),("id",.null),
    ("error",.object [("code",.number (-32700)),("message",.text ("parse error: " ++ error))])]

def serverDescription : Json :=
  .object [("protocolVersion",.text "2024-11-05"),
    ("serverInfo",.object [("name",.text "mxterm-mcp"),("version",.text "0.1.0")]),
    ("capabilities",.object [("tools",.object [])])]

def textContent (text : String) : Json :=
  .array [.object [("type",.text "text"),("text",.text text)]]

/-- The answer to a tool call; a failed call is answered as well. -/
def callResult (tools : Tools σ) : Except Json Json → Json
  | .ok value => .object [("content",textContent (tools.print value))]
  | .error e => .object [("isError",.bool true),("content",textContent (tools.print e))]

def handleMessage (tools : Tools σ) (message : Json) (s : σ) : Json × σ :=
  let id := (message.get? "id").getD .null
  match message.getText? "method" with
  | none => (error id (-32600) "invalid request" none,s)
  | some method =>
    if method = "initialize" then (ok id serverDescription,s)
    else if method = "notifications/initialized" then (.null,s)
    else if method = "tools/list" then (ok id (.object [("tools",tools.toolSchemas s)]),s)
    else if method = "tools/call" then
      let params := (message.get? "params").getD (.object [])
      let name := (params.getText? "name").getD ""
      let arguments := (params.get? "arguments").getD (.object [])
      let called := tools.callTool name arguments s
      (ok id (callResult tools called.1),called.2)
    else (error id (-32601) "method not found" (some (.object [("method",.text method)])),s)

/-- One turn of the loop, on a line that `read_line` has read: what is written. -/
def serveLine (tools : Tools σ) (line : String) (s : σ) : List Json × σ :=
  let trimmed := trim line
  if trimmed = "" then ([],s)
  else match tools.parse trimmed with
    | .error e => ([parseError e],s)
    | .ok message =>
      let response := handleMessage tools message s
      (if response.1.isNull then [] else [response.1],response.2)

/-- How the loop has ended, and what it has written while it handled each line. -/
structure Served where
  written : List (List Json)
  result : Except String Unit

/-- A line that is no UTF-8 is an error of `read_line`, and the loop passes it on. -/
def serveLines (tools : Tools σ) : List (List UInt8) → σ → Served
  | [], _ => ⟨[],.ok ()⟩
  | line :: lines, s =>
    match Utf8.decode? line with
    | none => ⟨[],.error "stream did not contain valid UTF-8"⟩
    | some text =>
      let turn := serveLine tools text s
      let rest := serveLines tools lines turn.2
      { rest with written := turn.1 :: rest.written }

def serveStream (tools : Tools σ) (bytes : List UInt8) (s : σ) : Served := serveLines tools (rawLines bytes) s

/-! ## What belongs to a line -/

/-- The JSON value of a line. -/
def content (tools : Tools σ) (line : List UInt8) : Option Json :=
  (Utf8.decode? line).bind fun text => (tools.parse (trim text)).toOption

/-- A line of white space carries no message. -/
def Blank (line : List UInt8) : Prop := (Utf8.decode? line).map trim = some ""

structure IsResponse (response id : Json) : Prop where
  carries : response.get? "id" = some id
  outcome : (response.get? "result").isSome ∨ (response.get? "error").isSome

/-- Requests have one response, garbled lines one error without an id, and notifications nothing. -/
structure Answered (tools : Tools σ) (line : List UInt8) (written : List Json) : Prop where
  blank : Blank line → written = []
  garbled : ¬Blank line → content tools line = none →
    ∃ response, written = [response] ∧ IsResponse response .null ∧ (response.get? "error").isSome
  request : ∀ message method id, ¬Blank line → content tools line = some message →
    message.getText? "method" = some method → message.get? "id" = some id →
    ∃ response, written = [response] ∧ IsResponse response id
  notification : ∀ message method, ¬Blank line → content tools line = some message →
    message.getText? "method" = some method → message.get? "id" = none → written = []
  others : ∀ message, ¬Blank line → content tools line = some message → message.getText? "method" = none →
    ∀ response ∈ written, (response.get? "error").isSome

/-- The whole stream is read, and each line has what belongs to it. -/
structure Serves (tools : Tools σ) (bytes : List UInt8) (s : σ) : Prop where
  reads : (serveStream tools bytes s).result = .ok ()
  answers : List.Forall₂ (Answered tools) (rawLines bytes) (serveStream tools bytes s).written

/-- A message that is silently accepted is the notification of the client that is ready, and no other message is a
notification. -/
def Regular (tools : Tools σ) (line : List UInt8) : Prop :=
  ∃ text, Utf8.decode? line = some text ∧
    ∀ message method, trim text ≠ "" → tools.parse (trim text) = .ok message →
      message.getText? "method" = some method →
      (message.get? "id" = none ↔ method = "notifications/initialized")

/-! ## One line -/

theorem isResponse_ok (id result : Json) : IsResponse (ok id result) id :=
  ⟨rfl,.inl rfl⟩

theorem isResponse_error (id : Json) (code : ℚ) (message : String) (data : Option Json) :
    IsResponse (error id code message data) id :=
  ⟨rfl,.inr rfl⟩

variable {tools : Tools σ} {message : Json} {method : String} {s : σ}

theorem handleMessage_invalid (h : message.getText? "method" = none) :
    handleMessage tools message s =
      (error ((message.get? "id").getD .null) (-32600) "invalid request" none,s) := by
  simp only [handleMessage,h]

theorem handleMessage_initialized (h : message.getText? "method" = some "notifications/initialized") :
    handleMessage tools message s = (.null,s) := by
  simp only [handleMessage,h]
  rw [if_neg (show "notifications/initialized" ≠ "initialize" by decide),if_pos trivial]

/-- Every other method is answered, whether the message carries an id or not. -/
theorem handleMessage_answers (tools : Tools σ) (s : σ) (h : message.getText? "method" = some method)
    (hne : method ≠ "notifications/initialized") :
    (handleMessage tools message s).1.isNull = false ∧
      IsResponse (handleMessage tools message s).1 ((message.get? "id").getD .null) := by
  simp only [handleMessage,h,if_neg hne]
  split_ifs
  · exact ⟨rfl,isResponse_ok _ _⟩
  · exact ⟨rfl,isResponse_ok _ _⟩
  · exact ⟨rfl,isResponse_ok _ _⟩
  · exact ⟨rfl,isResponse_error _ _ _ _⟩

variable {line : List UInt8} {text : String}

theorem serveLine_blank (h : trim text = "") : serveLine tools text s = ([],s) := by
  simp only [serveLine,if_pos h]

theorem serveLine_garbled {e : String} (h : trim text ≠ "") (hparse : tools.parse (trim text) = .error e) :
    serveLine tools text s = ([parseError e],s) := by
  simp only [serveLine,if_neg h,hparse]

theorem serveLine_initialized (h : trim text ≠ "") (hparse : tools.parse (trim text) = .ok message)
    (hmethod : message.getText? "method" = some "notifications/initialized") :
    serveLine tools text s = ([],s) := by
  simp only [serveLine,if_neg h,hparse,handleMessage_initialized hmethod]
  rfl

theorem serveLine_answers (h : trim text ≠ "") (hparse : tools.parse (trim text) = .ok message)
    (hmethod : message.getText? "method" = some method) (hne : method ≠ "notifications/initialized") :
    ∃ response, (serveLine tools text s).1 = [response] ∧
      IsResponse response ((message.get? "id").getD .null) := by
  have hanswer := handleMessage_answers tools s hmethod hne
  refine ⟨(handleMessage tools message s).1,?_,hanswer.2⟩
  simp only [serveLine,if_neg h,hparse,hanswer.1,Bool.false_eq_true,if_false]

theorem blank_iff (h : Utf8.decode? line = some text) : Blank line ↔ trim text = "" := by
  rw [Blank,h,Option.map_some,Option.some_inj]

theorem content_eq_some (h : Utf8.decode? line = some text) :
    content tools line = some message ↔ tools.parse (trim text) = .ok message := by
  rw [content,h,Option.bind_some]
  cases tools.parse (trim text) with
  | error | ok => simp [Except.toOption]

theorem content_eq_none (h : Utf8.decode? line = some text) :
    content tools line = none ↔ ∃ e, tools.parse (trim text) = .error e := by
  rw [content,h,Option.bind_some]
  cases tools.parse (trim text) with
  | error | ok => simp [Except.toOption]

theorem regular_of_answered (hline : Utf8.decode? line = some text)
    (h : Answered tools line (serveLine tools text s).1) : Regular tools line := by
  refine ⟨text,hline,?_⟩
  intro message method hnonblank hparse hmethod
  have hblank : ¬Blank line := by rwa [blank_iff hline]
  have hcontent := (content_eq_some hline).mpr hparse
  constructor
  · intro hid
    by_contra hne
    obtain ⟨response,hwritten,-⟩ := serveLine_answers (s := s) hnonblank hparse hmethod hne
    rw [h.notification message method hblank hcontent hmethod hid] at hwritten
    cases hwritten
  · intro hinit
    rw [hinit] at hmethod
    cases hid : message.get? "id" with
    | none => rfl
    | some id =>
      obtain ⟨response,hwritten,-⟩ := h.request message _ id hblank hcontent hmethod hid
      rw [serveLine_initialized hnonblank hparse hmethod] at hwritten
      cases hwritten

theorem answered_of_regular (hline : Utf8.decode? line = some text) (h : Regular tools line) :
    Answered tools line (serveLine tools text s).1 := by
  obtain ⟨text',htext,hregular⟩ := h
  rw [hline] at htext
  cases htext
  constructor
  case blank =>
    intro hblank
    rw [serveLine_blank ((blank_iff hline).mp hblank)]
  case garbled =>
    intro hblank hcontent
    obtain ⟨e,hparse⟩ := (content_eq_none hline).mp hcontent
    rw [serveLine_garbled (mt (blank_iff hline).mpr hblank) hparse]
    exact ⟨_,rfl,⟨rfl,.inr rfl⟩,rfl⟩
  case request =>
    intro message method id hblank hcontent hmethod hid
    have hnonblank := mt (blank_iff hline).mpr hblank
    have hparse := (content_eq_some hline).mp hcontent
    have hne : method ≠ "notifications/initialized" := by
      rw [Ne,← hregular message method hnonblank hparse hmethod,hid]
      exact nofun
    have hanswer := serveLine_answers (s := s) hnonblank hparse hmethod hne
    rwa [hid] at hanswer
  case notification =>
    intro message method hblank hcontent hmethod hid
    have hnonblank := mt (blank_iff hline).mpr hblank
    have hparse := (content_eq_some hline).mp hcontent
    obtain rfl := (hregular message method hnonblank hparse hmethod).mp hid
    rw [serveLine_initialized hnonblank hparse hmethod]
  case others =>
    intro message hblank hcontent hmethod response hmem
    have hnonblank := mt (blank_iff hline).mpr hblank
    have hparse := (content_eq_some hline).mp hcontent
    simp only [serveLine,if_neg hnonblank,hparse,handleMessage_invalid hmethod] at hmem
    obtain rfl := List.mem_singleton.mp hmem
    rfl

/-! ## The whole stream -/

theorem serveLines_iff (tools : Tools σ) (lines : List (List UInt8)) (s : σ) :
    (serveLines tools lines s).result = .ok () ∧
        List.Forall₂ (Answered tools) lines (serveLines tools lines s).written ↔
      ∀ line ∈ lines, Regular tools line := by
  induction lines generalizing s with
  | nil => simp [serveLines]
  | cons line lines ih =>
    rw [List.forall_mem_cons]
    cases hline : Utf8.decode? line with
    | none =>
      have hgarbled : ¬Regular tools line := by
        rintro ⟨text,htext,-⟩
        rw [hline] at htext
        cases htext
      simp [serveLines,hline,hgarbled]
    | some text =>
      have hturn := ih (serveLine tools text s).2
      simp only [serveLines,hline,List.forall₂_cons]
      rw [← hturn]
      constructor
      · rintro ⟨hok,hanswered,hrest⟩
        exact ⟨regular_of_answered hline hanswered,hok,hrest⟩
      · rintro ⟨hregular,hok,hrest⟩
        exact ⟨hok,answered_of_regular hline hregular,hrest⟩

/-- Every request is answered and nothing else is, exactly when every line is UTF-8, the messages without an id are
the notification of the client that is ready, and no request has its name. -/
theorem serves_iff (tools : Tools σ) (bytes : List UInt8) (s : σ) :
    Serves tools bytes s ↔ ∀ line ∈ rawLines bytes, Regular tools line := by
  rw [← serveLines_iff tools (rawLines bytes) s]
  constructor
  · intro h
    exact ⟨h.reads,h.answers⟩
  · intro h
    exact ⟨h.1,h.2⟩

/-! ## A notification of another name, and a line that is no UTF-8 -/

def cancelled : String := "\x7b\"jsonrpc\":\"2.0\",\"method\":\"notifications/cancelled\"\x7d"

/-- The parser on the two texts of the example, and no tools. -/
def exampleTools : Tools Unit where
  parse := fun text =>
    if text = cancelled then
      .ok (.object [("jsonrpc",.text "2.0"),("method",.text "notifications/cancelled")])
    else .error "expected value"
  print := fun _ => ""
  toolSchemas := fun _ => .array []
  callTool := fun _ _ s => (.error (.text "mcp_tool_unknown"),s)

theorem cancelled_answered :
    ¬Serves exampleTools (Utf8.encode cancelled ++ [0x0A]) () ∧ ¬Serves exampleTools [0xFF,0x0A] () := by
  constructor
  · intro h
    have hlines : rawLines (Utf8.encode cancelled ++ [0x0A]) = [Utf8.encode (cancelled ++ "\n")] := by decide
    have hregular := (serveLines_iff exampleTools _ ()).mp ⟨h.reads,h.answers⟩
    rw [hlines,List.forall_mem_singleton] at hregular
    obtain ⟨text,htext,hmethods⟩ := hregular
    rw [Utf8.decode?_encode] at htext
    cases htext
    have hparse : exampleTools.parse cancelled =
        .ok (.object [("jsonrpc",.text "2.0"),("method",.text "notifications/cancelled")]) := by
      simp only [exampleTools,if_true]
    have hname := (hmethods _ "notifications/cancelled" (by decide) hparse rfl).mp rfl
    exact absurd hname (by decide)
  · intro h
    have hreads := h.reads
    cases hreads

end Mxterm.StdioServer
