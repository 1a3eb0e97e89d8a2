import Mxterm.McpHttpReads

/-! Which requests the MCP server reads and lets through to its tools. -/
namespace Mxterm.McpHttp

open Occurrences List

section
variable {lower : String → String} {sha256 : List UInt8 → List UInt8} {parse : List UInt8 → Option Json}
  {sessions : String → Bool} {tokenHash : String} {reads : List Read} {request : HttpRequest}

/-! ## Who is let in -/

theorem verifyRemoteToken_iff (token : String) : verifyRemoteToken sha256 token tokenHash = true ↔
    hashRemoteToken sha256 (Text.trim token) = Text.trim tokenHash := by
  unfold verifyRemoteToken constantTimeEq
  split_ifs with hlength
  · simp only [false_iff]
    intro heq
    rw [heq] at hlength
    exact hlength rfl
  · rw [decide_eq_true_iff,ConstantTime.difference_eq_zero (not_not.mp hlength)]
    exact ⟨Utf8.encode_injective,fun heq => by rw [heq]⟩

/-- It shows a token with the hash that is configured, and comes from an origin that is allowed. -/
structure LetIn (sha256 : List UInt8 → List UInt8) (tokenHash : String) (request : HttpRequest) : Prop where
  token : ∃ token, requestToken request = some token ∧
    hashRemoteToken sha256 (Text.trim token) = Text.trim tokenHash
  origin : originAllowed request = true

theorem requestAuthorized_iff : requestAuthorized sha256 request tokenHash = true ↔
    ∃ token, requestToken request = some token ∧
      hashRemoteToken sha256 (Text.trim token) = Text.trim tokenHash := by
  rw [requestAuthorized]
  cases requestToken request with
  | none => simp
  | some token => simp [verifyRemoteToken_iff]

theorem letIn_of_message {message : Json}
    (h : handleRequest sha256 parse sessions tokenHash request = .message message) : LetIn sha256 tokenHash request :=
      by
  unfold handleRequest at h
  by_cases hoptions : request.method = "OPTIONS"
  · simp [hoptions] at h
  by_cases horigin : originAllowed request = false
  · simp [hoptions,horigin] at h
  by_cases hhealth : request.method = "GET" ∧ request.path = "/health"
  · simp [horigin,hhealth] at h
  by_cases htoken : requestAuthorized sha256 request tokenHash = false
  · simp [hoptions,horigin,hhealth,htoken] at h
  exact ⟨requestAuthorized_iff.mp (Bool.not_eq_false _ ▸ htoken),Bool.not_eq_false _ ▸ horigin⟩

theorem message_read {message : Json}
    (h : handleHttpConnection sha256 lower parse sessions tokenHash reads = .ok (some (.message message))) :
    ∃ request, readHttpRequest lower reads = .ok (some request) ∧ LetIn sha256 tokenHash request := by
  rw [handleHttpConnection] at h
  cases hread : readHttpRequest lower reads with
  | error e =>
    rw [hread] at h
    cases h
  | ok read =>
    rw [hread] at h
    cases read with
    | none => cases h
    | some request =>
      have hmessage : handleRequest sha256 parse sessions tokenHash request = .message message :=
        Option.some.inj (Except.ok.inj h)
      exact ⟨request,rfl,letIn_of_message hmessage⟩

end

/-! ## Two ways to cut one request -/

def bytewise (bytes : List UInt8) : List Read := bytes.map fun b => ⟨[b],by simp,by simp⟩

@[simp] theorem stream_bytewise (bytes : List UInt8) : stream (bytewise bytes) = bytes := by
  induction bytes with
  | nil => rfl
  | cons b bytes ih => exact congrArg (List.cons b) ih

theorem stream_append (reads reads' : List Read) : stream (reads ++ reads') = stream reads ++ stream reads' := by
  simp [stream]

theorem reach_append {target n : ℕ} {reads : List Read} (reads' : List Read)
    (h : n + (stream reads).length < target) :
    reach target (reads ++ reads') n = reach target reads' (n + (stream reads).length) := by
  induction reads generalizing n with
  | nil => rfl
  | cons chunk reads ih =>
    rw [stream_cons,length_append] at h ⊢
    rw [cons_append,reach,if_neg (by omega),ih (by omega),Nat.add_assoc]

theorem reach_bytewise {target n : ℕ} {bytes : List UInt8} (hn : n ≤ target) (h : target ≤ n + bytes.length) :
    reach target (bytewise bytes) n = target := by
  induction bytes generalizing n with
  | nil => exact Nat.le_antisymm hn h
  | cons b bytes ih =>
    change (if target ≤ n then n else reach target (bytewise bytes) (n + 1)) = target
    rw [length_cons] at h
    split_ifs with hdone
    · omega
    · exact ih (by omega) (by omega)

/-- A request line of two words, and no header behind it. -/
theorem parseHeader_line (lower : String → String) {method target : String} (hmethod : method ≠ "")
    (htarget : target ≠ "")
    (hm : ∀ c ∈ method.toList, Text.isWhitespace c = false) (ht : ∀ c ∈ target.toList, Text.isWhitespace c = false) :
    parseHeader lower (Utf8.encode (method ++ " " ++ target)) =
      .ok ⟨method,(splitTarget target).1,(splitTarget target).2,fun _ => none,[]⟩ := by
  have hwords : Text.splitWhitespace (method ++ " " ++ target) = [method,target] := by
    rw [Text.splitWhitespace,String.toList_append,String.toList_append,append_assoc]
    change ((List.splitOnP Text.isWhitespace (method.toList ++ ' ' :: target.toList)).filter _).map _ = _
    rw [splitOnP_append_cons_of_forall_mem hm ' ' rfl,splitOnP_eq_singleton ht]
    simp [hmethod,htarget]
  have hnone : findFirst ['\r','\n'] (method ++ " " ++ target).toList = none := by
    apply findFirst_of_not_mem (a := '\r') (mem_cons_self)
    simp only [String.toList_append,mem_append,not_or]
    refine ⟨⟨?_,by decide⟩,?_⟩
    · exact fun hmem => absurd (hm _ hmem) (by decide)
    · exact fun hmem => absurd (ht _ hmem) (by decide)
  have hlines : pieces ['\r','\n'] (method ++ " " ++ target).toList = [(method ++ " " ++ target).toList] := by
    rw [pieces]
    cases (method ++ " " ++ target).toList.length with
    | zero => rfl
    | succ fuel => rw [piecesFrom,hnone]
  rw [parseHeader,Utf8.decode?_encode]
  dsimp only
  rw [hlines,map_singleton,String.ofList_toList]
  dsimp only
  rw [hwords]
  rfl

def target (n : ℕ) : String := String.ofList ('/' :: List.replicate n 'B')

/-- A header that fills what is allowed to the last byte. -/
def fullHeader : List UInt8 := Utf8.encode ("GET" ++ " " ++ target 65527)

def whole : List Read := bytewise (fullHeader ++ endMark ++ [120])

def crossing : List Read := bytewise (fullHeader ++ endMark.take 3) ++ [⟨[10,120],by simp,by simp⟩]

theorem encode_replicate {c : Char} (hc : c.toNat < 128) (n : ℕ) :
    Utf8.encode (String.ofList (List.replicate n c)) = List.replicate n c.val.toUInt8 := by
  induction n with
  | zero => rfl
  | succ n ih =>
    simp only [Utf8.encode,String.toList_ofList] at ih ⊢
    rw [replicate_succ,flatMap_cons,ih,Utf8.encodeChar_ascii hc]
    rfl

theorem encode_target (n : ℕ) : Utf8.encode (target n) = 47 :: List.replicate n 66 := by
  have hrest := encode_replicate (show 'B'.toNat < 128 by decide) n
  simp only [Utf8.encode,String.toList_ofList] at hrest
  rw [target,Utf8.encode,String.toList_ofList,flatMap_cons,hrest]
  rfl

theorem fullHeader_eq : fullHeader = [71,69,84,32,47] ++ List.replicate 65527 66 := by
  rw [fullHeader,Utf8.encode_append,encode_target]
  rfl

theorem length_fullHeader : fullHeader.length = 65532 := by
  rw [fullHeader_eq,length_append,length_replicate]
  rfl

theorem findHeaderEnd_full (rest : List UInt8) : findHeaderEnd (fullHeader ++ endMark ++ rest) = some 65532 := by
  have hfound : findFirst endMark (fullHeader ++ endMark ++ rest) = some (fullHeader,rest) := by
    apply findFirst_of_head (a := 0x0d) rfl
    rw [fullHeader_eq,mem_append,mem_replicate]
    decide
  rw [findHeaderEnd,hfound,Option.map_some,length_fullHeader]

theorem parseHeader_full (lower : String → String) : ∃ request, parseHeader lower fullHeader = .ok request ∧
    request.headers = fun _ => none := by
  have hwords : ∀ c ∈ (target 65527).toList, Text.isWhitespace c = false := by
    intro c hc
    rw [target,String.toList_ofList,mem_cons,mem_replicate] at hc
    rcases hc with rfl | ⟨-,rfl⟩ <;> rfl
  have hne : target 65527 ≠ "" := by
    intro h
    have hbytes := congrArg Utf8.encode h
    rw [encode_target] at hbytes
    cases hbytes
  have hget : ∀ c ∈ "GET".toList, Text.isWhitespace c = false := by
    simp [Text.isWhitespace]
  exact ⟨_,parseHeader_line lower (by decide) hne hget hwords,rfl⟩

/-- Its last byte comes with one of the body, or before it. -/
theorem readsExpected_depends : ∃ reads reads', stream reads = stream reads' ∧
    ReadsExpected Text.toAsciiLowercase reads ∧ ¬ ReadsExpected Text.toAsciiLowercase reads' := by
  obtain ⟨request,hparse,hheaders⟩ := parseHeader_full Text.toAsciiLowercase
  have hlength := length_fullHeader
  have hmark : endMark.length = 4 := rfl
  have hwhole : stream whole = fullHeader ++ endMark ++ [120] := stream_bytewise _
  have hcrossing : stream crossing = fullHeader ++ endMark ++ [120] := by
    rw [crossing,stream_append,stream_bytewise,append_assoc,append_assoc]
    rfl
  have hend := findHeaderEnd_full [120]
  have hfront : ∀ rest, (fullHeader ++ rest).take 65532 = fullHeader := fun rest => take_left' hlength
  have hdeclared : declaredLength request.headers = some 0 := by rw [declaredLength,hheaders]
  have hnumber : ¬ Undeclared request.headers := by
    rintro ⟨value,hvalue,-⟩
    rw [hheaders] at hvalue
    cases hvalue
  have hmisread : ∀ reads, stream reads = fullHeader ++ endMark ++ [120] →
      (Misread Text.toAsciiLowercase reads ↔ Overshoots reads 65532 0) := by
    intro reads hreads
    rw [← hreads] at hend
    rw [misread_iff hend (by rw [hreads,append_assoc,hfront,hparse]) hdeclared hnumber,hreads]
    simp [hlength,hmark,maxHttpHeaderBytes]
  refine ⟨whole,crossing,by rw [hwhole,hcrossing],?_,?_⟩
  · rw [readsExpected_iff,hmisread whole hwhole,Overshoots,whole,
      reach_bytewise (Nat.zero_le _) (by simp only [length_append,hlength,hmark]; omega)]
    simp [maxHttpHeaderBytes]
  · have hfull : (stream (bytewise (fullHeader ++ endMark.take 3))).length = 65535 := by
      rw [stream_bytewise,length_append,hlength]
      rfl
    have hreach : reach 65536 crossing 0 = 65537 := by
      rw [crossing,reach_append _ (by omega),hfull]
      rfl
    rw [readsExpected_iff,hmisread crossing hcrossing,Overshoots,hreach]
    simp [maxHttpHeaderBytes]

/-- The request that the bytes hold is read, and is let through with a token and from an origin that may be, exactly
when the reads stay within the limits and the length of the body is a number. -/
theorem connection_outcome (lower : String → String) (reads : List Read) :
    (ReadsExpected lower reads ∧ ∀ sha256 parse sessions tokenHash message,
      handleHttpConnection sha256 lower parse sessions tokenHash reads = .ok (some (.message message)) →
      ∃ request, readHttpRequest lower reads = .ok (some request) ∧ LetIn sha256 tokenHash request) ↔
    ¬ Misread lower reads := by
  rw [readsExpected_iff]
  exact and_iff_left fun sha256 parse sessions tokenHash message h => message_read h

end Mxterm.McpHttp
