import Mxterm.McpHttp

/-! What is read of a connection to the MCP server: the request that its bytes hold, unless the reads reach beyond a
limit or the length of the body is no number. -/
namespace Mxterm.McpHttp

open Occurrences List

/-! ## What the bytes hold -/

/-- The length that a header gives for the body; without such a header there is no body. -/
def declaredLength (headers : String → Option String) : Option ℕ :=
  match headers "content-length" with
  | none => some 0
  | some value => decimal? value

/-- The request at the beginning of some bytes. -/
def expected (lower : String → String) (bytes : List UInt8) : Option HttpRequest :=
  (findHeaderEnd bytes).bind fun headerEnd =>
    if maxHttpHeaderBytes < headerEnd + 4 then none
    else match parseHeader lower (bytes.take headerEnd) with
      | .error _ => none
      | .ok request => (declaredLength request.headers).bind fun length =>
        if maxHttpBodyBytes < length ∨ bytes.length < headerEnd + 4 + length then none
        else some { request with body := (bytes.drop (headerEnd + 4)).take length }

/-! ## How far the reads get -/

/-- How many bytes have come after the first read that brings them to the target, from so many before. -/
def reach (target : ℕ) : List Read → ℕ → ℕ
  | [],n => n
  | chunk :: reads,n => if target ≤ n then n else reach target reads (n + chunk.1.length)

@[simp] theorem stream_nil : stream [] = [] := rfl

@[simp] theorem stream_cons (chunk : Read) (reads : List Read) : stream (chunk :: reads) = chunk.1 ++ stream reads :=
  rfl

theorem le_reach (target : ℕ) (reads : List Read) (n : ℕ) : n ≤ reach target reads n := by
  induction reads generalizing n with
  | nil => exact Nat.le_refl _
  | cons chunk reads ih =>
    rw [reach]
    split_ifs
    · exact Nat.le_refl _
    · exact Nat.le_trans (Nat.le_add_right _ _) (ih _)

theorem reach_le (target : ℕ) (reads : List Read) (n : ℕ) : reach target reads n ≤ n + (stream reads).length := by
  induction reads generalizing n with
  | nil => exact Nat.le_refl _
  | cons chunk reads ih =>
    rw [reach,stream_cons,length_append]
    have hmore := ih (n + chunk.1.length)
    split_ifs <;> omega

variable {target n : ℕ}

theorem target_le_reach {reads : List Read} (h : target ≤ n + (stream reads).length) :
    target ≤ reach target reads n := by
  induction reads generalizing n with
  | nil => simpa [reach] using h
  | cons chunk reads ih =>
    rw [reach]
    split_ifs with hdone
    · exact hdone
    · apply ih
      rw [stream_cons,length_append] at h
      omega

theorem reach_of_le (reads : List Read) (h : target ≤ n) : reach target reads n = n := by
  cases reads with
  | nil => rfl
  | cons chunk reads => exact if_pos h

theorem reach_add (target m : ℕ) (reads : List Read) (n : ℕ) :
    reach (target + m) reads (n + m) = reach target reads n + m := by
  induction reads generalizing n with
  | nil => rfl
  | cons chunk reads ih =>
    rw [reach,reach]
    by_cases h : target ≤ n
    · rw [if_pos h,if_pos (by omega)]
    · rw [if_neg h,if_neg (by omega),← ih]
      congr 1
      omega

/-- The reads behind the one that brings the target. -/
def behind (target : ℕ) : List Read → ℕ → List Read
  | [],_ => []
  | chunk :: reads,n => if target ≤ n then chunk :: reads else behind target reads (n + chunk.1.length)

theorem behind_of_le (reads : List Read) (h : target ≤ n) : behind target reads n = reads := by
  cases reads with
  | nil => rfl
  | cons chunk reads => exact if_pos h

theorem reach_behind {target' : ℕ} (h : target ≤ target') (reads : List Read) (n : ℕ) :
    reach target' (behind target reads n) (reach target reads n) = reach target' reads n := by
  induction reads generalizing n with
  | nil => rfl
  | cons chunk reads ih =>
    rw [behind,reach]
    by_cases hdone : target ≤ n
    · rw [if_pos hdone,if_pos hdone]
    · rw [if_neg hdone,if_neg hdone,ih,reach,if_neg (by omega)]

theorem stream_behind (target : ℕ) (reads : List Read) (buffer : List UInt8) :
    (buffer ++ stream reads).take (reach target reads buffer.length) ++ stream (behind target reads buffer.length) =
      buffer ++ stream reads := by
  induction reads generalizing buffer with
  | nil => simp [reach,behind]
  | cons chunk reads ih =>
    rw [reach,behind]
    by_cases hdone : target ≤ buffer.length
    · rw [if_pos hdone,if_pos hdone,take_left]
    · have hmore := ih (buffer ++ chunk.1)
      rw [length_append,append_assoc] at hmore
      rw [if_neg hdone,if_neg hdone,stream_cons,hmore]

/-! ## Reading -/

section
variable {buffer body : List UInt8} {reads : List Read} {h n : ℕ}

variable {bytes : List UInt8}

theorem findHeaderEnd_eq_some (hend : findHeaderEnd bytes = some h) :
    ∃ before rest, findFirst endMark bytes = some (before,rest) ∧ before.length = h ∧ h + 4 ≤ bytes.length := by
  obtain ⟨⟨before,rest⟩,hfound,hlength⟩ := Option.map_eq_some_iff.mp hend
  have hbytes := congrArg List.length (findFirst_append hfound)
  simp only [length_append] at hbytes
  have hmark : endMark.length = 4 := rfl
  exact ⟨before,rest,hfound,hlength,by dsimp only at hlength; omega⟩

/-- The end of the header is found with its last byte, and at the same place however much has come. -/
theorem findHeaderEnd_front (more : List UInt8) (hend : findHeaderEnd (bytes ++ more) = some h) :
    findHeaderEnd bytes = if h + 4 ≤ bytes.length then some h else none := by
  obtain ⟨before,rest,hfound,hlength,-⟩ := findHeaderEnd_eq_some hend
  have hmark : endMark.length = 4 := rfl
  split_ifs with hcomplete
  · cases hfront : findFirst endMark bytes with
    | none =>
      exfalso
      have hoccurs := occursAt_of_findFirst hfound
      apply findFirst_eq_none hfront before.length
      rw [OccursAt,drop_append_of_le_length (by omega)] at hoccurs
      exact prefix_of_prefix_length_le hoccurs (prefix_append _ _) (by rw [length_drop]; omega)
    | some found =>
      have hlater := findFirst_append_right more hfront
      rw [hfound] at hlater
      cases hlater
      rw [findHeaderEnd,hfront]
      exact congrArg some hlength
  · have htake := findFirst_take hfound (n := bytes.length) (by omega)
    rw [take_left] at htake
    rw [findHeaderEnd,htake]
    rfl

theorem readHeader_some (hbuffer : buffer.length < h + 4)
    (hend : findHeaderEnd (buffer ++ stream reads) = some h) :
    readHeader reads buffer =
      if maxHttpHeaderBytes < reach (h + 4) reads buffer.length then .error (.invalidData "http header too large")
      else .ok (some (h,(buffer ++ stream reads).take (reach (h + 4) reads buffer.length),
        behind (h + 4) reads buffer.length)) := by
  induction reads generalizing buffer with
  | nil =>
    obtain ⟨-,-,-,-,hlength⟩ := findHeaderEnd_eq_some hend
    simp only [stream_nil,append_nil] at hlength
    omega
  | cons chunk reads ih =>
    rw [stream_cons,← append_assoc] at hend
    have hlength : (buffer ++ chunk.1).length = buffer.length + chunk.1.length := length_append
    have hreach : reach (h + 4) (chunk :: reads) buffer.length = reach (h + 4) reads (buffer ++ chunk.1).length := by
      rw [reach,if_neg (by omega),hlength]
    have hbehind : behind (h + 4) (chunk :: reads) buffer.length =
        behind (h + 4) reads (buffer ++ chunk.1).length := by
      rw [behind,if_neg (by omega),hlength]
    rw [readHeader,hreach,hbehind,stream_cons,← append_assoc,findHeaderEnd_front _ hend]
    by_cases hcomplete : h + 4 ≤ (buffer ++ chunk.1).length
    · rw [if_pos hcomplete,reach_of_le reads hcomplete,behind_of_le reads hcomplete,take_left]
    · rw [if_neg hcomplete,ih (by omega) hend]
      have hgrows := le_reach (h + 4) reads (buffer ++ chunk.1).length
      by_cases hlarge : maxHttpHeaderBytes < (buffer ++ chunk.1).length
      · rw [if_pos hlarge,if_pos (by omega)]
      · rw [if_neg hlarge]

theorem readHeader_none (hend : findHeaderEnd (buffer ++ stream reads) = none) :
    readHeader reads buffer = .ok none ∧ buffer = [] ∧ reads = [] ∨
      (buffer ≠ [] ∨ reads ≠ []) ∧ ∃ message, readHeader reads buffer = .error (.invalidData message) := by
  induction reads generalizing buffer with
  | nil =>
    by_cases hnil : buffer = []
    · exact .inl ⟨if_pos hnil,hnil,rfl⟩
    · exact .inr ⟨.inl hnil,_,if_neg hnil⟩
  | cons chunk reads ih =>
    right
    refine ⟨.inr (cons_ne_nil _ _),?_⟩
    rw [stream_cons,← append_assoc] at hend
    rw [readHeader]
    by_cases hlarge : maxHttpHeaderBytes < (buffer ++ chunk.1).length
    · exact ⟨_,if_pos hlarge⟩
    · have hfront : findHeaderEnd (buffer ++ chunk.1) = none := by
        cases hfound : findHeaderEnd (buffer ++ chunk.1) with
        | none => rfl
        | some index =>
          obtain ⟨before,rest,hfirst,-,-⟩ := findHeaderEnd_eq_some hfound
          rw [findHeaderEnd,findFirst_append_right _ hfirst] at hend
          cases hend
      rw [if_neg hlarge,hfront]
      rcases ih hend with ⟨-,hnil,-⟩ | ⟨-,hrefused⟩
      · exact absurd (append_eq_nil_iff.mp hnil).2 chunk.2.1
      · exact hrefused

theorem readBody_short (hn : n ≤ maxHttpBodyBytes) (hshort : (body ++ stream reads).length < n) :
    readBody n reads body = .error (.invalidData "incomplete http body") := by
  induction reads generalizing body with
  | nil =>
    rw [stream_nil,append_nil] at hshort
    exact if_pos hshort
  | cons chunk reads ih =>
    rw [stream_cons,← append_assoc] at hshort
    have hlength : (body ++ chunk.1).length ≤ (body ++ chunk.1 ++ stream reads).length := by
      simp only [length_append]
      omega
    rw [readBody,if_pos (by rw [length_append] at hlength; omega)]
    rw [if_neg (by omega)]
    exact ih hshort

theorem readBody_enough (henough : n ≤ (body ++ stream reads).length) :
    readBody n reads body =
      if body.length < n ∧ maxHttpBodyBytes < reach n reads body.length then
        .error (.invalidData "http body too large")
      else .ok ((body ++ stream reads).take (reach n reads body.length)) := by
  induction reads generalizing body with
  | nil =>
    rw [stream_nil,append_nil] at henough ⊢
    rw [readBody,if_neg (by omega),if_neg (by omega)]
    simp [reach]
  | cons chunk reads ih =>
    rw [stream_cons,← append_assoc] at henough ⊢
    have hlength : (body ++ chunk.1).length = body.length + chunk.1.length := length_append
    by_cases hmore : body.length < n
    · have hreach : reach n (chunk :: reads) body.length = reach n reads (body ++ chunk.1).length := by
        rw [reach,if_neg (by omega),hlength]
      have hgrows := le_reach n reads (body ++ chunk.1).length
      have hread : readBody n (chunk :: reads) body =
          if maxHttpBodyBytes < (body ++ chunk.1).length then .error (.invalidData "http body too large")
          else readBody n reads (body ++ chunk.1) := if_pos hmore
      rw [hread,hreach]
      by_cases hlarge : maxHttpBodyBytes < (body ++ chunk.1).length
      · rw [if_pos hlarge,if_pos ⟨hmore,by omega⟩]
      · rw [if_neg hlarge,ih henough]
        by_cases hdone : (body ++ chunk.1).length < n
        · simp only [hdone,hmore,true_and]
        · rw [if_neg (fun h => hdone h.1),reach_of_le reads (by omega),if_neg (fun h => hlarge h.2)]
    · rw [readBody,if_neg hmore,if_neg (fun h => hmore h.1),reach_of_le _ (by omega),append_assoc,take_left]

/-! ## The request that is read -/

variable {lower : String → String}

/-- A header with a length of the body that is no number of 64 bits. -/
def Undeclared (headers : String → Option String) : Prop :=
  ∃ value, headers "content-length" = some value ∧ parseUsize value = none

theorem contentLength_of_declared {headers : String → Option String} (hdeclared : ¬ Undeclared headers) :
    declaredLength headers = some (contentLength headers) := by
  unfold declaredLength contentLength
  cases hvalue : headers "content-length" with
  | none => rfl
  | some value =>
    cases hnumber : parseUsize value with
    | none => exact absurd ⟨value,hvalue,hnumber⟩ hdeclared
    | some number =>
      obtain ⟨hdecimal,-⟩ := Option.filter_eq_some_iff.mp hnumber
      simpa [hnumber] using hdecimal

theorem contentLength_of_undeclared {headers : String → Option String} (hundeclared : Undeclared headers) :
    contentLength headers = 0 ∧ ∀ length, declaredLength headers = some length → maxHttpBodyBytes < length := by
  obtain ⟨value,hvalue,hnumber⟩ := hundeclared
  constructor
  · simp [contentLength,hvalue,hnumber]
  · intro length hlength
    rw [declaredLength,hvalue] at hlength
    dsimp only at hlength
    rw [parseUsize,hlength,Option.filter_some] at hnumber
    split_ifs at hnumber with hsmall
    rw [maxHttpBodyBytes]
    simp only [decide_eq_true_eq] at hsmall
    omega

/-- The read with the end of the header reaches beyond the limit of a header, or the one with the end of the body
beyond the limit of a body. -/
def Overshoots (reads : List Read) (headerEnd length : ℕ) : Prop :=
  maxHttpHeaderBytes < reach (headerEnd + 4) reads 0 ∨
    reach (headerEnd + 4) reads 0 < headerEnd + 4 + length ∧
      headerEnd + 4 + maxHttpBodyBytes < reach (headerEnd + 4 + length) reads 0

instance (reads : List Read) (headerEnd length : ℕ) : Decidable (Overshoots reads headerEnd length) :=
  inferInstanceAs (Decidable (_ ∨ _ ∧ _))

/-- A request that is there is lost to a limit, or one is made up whose length is no number. -/
def Misread (lower : String → String) (reads : List Read) : Prop :=
  ∃ headerEnd request, findHeaderEnd (stream reads) = some headerEnd ∧ headerEnd + 4 ≤ maxHttpHeaderBytes ∧
    parseHeader lower ((stream reads).take headerEnd) = .ok request ∧
    ((∃ length, declaredLength request.headers = some length ∧ length ≤ maxHttpBodyBytes ∧
        headerEnd + 4 + length ≤ (stream reads).length ∧ Overshoots reads headerEnd length) ∨
      Undeclared request.headers ∧ reach (headerEnd + 4) reads 0 ≤ maxHttpHeaderBytes)

/-- The request of the bytes is read; a connection without a byte asks nothing, and all else is refused. -/
structure ReadsExpected (lower : String → String) (reads : List Read) : Prop where
  request : ∀ request, readHttpRequest lower reads = .ok (some request) ↔ expected lower (stream reads) = some request
  nothing : readHttpRequest lower reads = .ok none ↔ reads = []
  inRange : readHttpRequest lower reads ≠ .error .outOfRange

theorem readHttpRequest_none (hend : findHeaderEnd (stream reads) = none) : ReadsExpected lower reads := by
  have hexpected : expected lower (stream reads) = none := by
    rw [expected,hend]
    rfl
  rcases readHeader_none (show findHeaderEnd ([] ++ stream reads) = none from hend) with ⟨hread,-,rfl⟩ |
    ⟨hne,message,hread⟩
  · have hnone : readHttpRequest lower [] = .ok none := rfl
    exact ⟨fun request => by rw [hexpected]; exact ⟨nofun,nofun⟩,iff_of_true hnone rfl,by rw [hnone]; exact nofun⟩
  · have hrefused : readHttpRequest lower reads = .error (.invalidData message) := by
      rw [readHttpRequest,hread]
      rfl
    have hreads : reads ≠ [] := hne.resolve_left fun h => h rfl
    exact ⟨fun request => by rw [hrefused,hexpected]; exact ⟨nofun,nofun⟩,
      iff_of_false (by rw [hrefused]; exact nofun) hreads,by rw [hrefused]; exact nofun⟩

theorem parseHeader_error {e : ReadError} (hparse : parseHeader lower bytes = .error e) :
    ∃ message, e = .invalidData message := by
  unfold parseHeader at hparse
  split at hparse
  · exact ⟨_,(Except.error.inj hparse).symm⟩
  · split at hparse
    · exact ⟨_,(Except.error.inj hparse).symm⟩
    · split at hparse
      · exact ⟨_,(Except.error.inj hparse).symm⟩
      · exact ⟨_,(Except.error.inj hparse).symm⟩
      · cases hparse

/-- The buffer at the end of the header, and what comes behind it. -/
structure HeaderRead (reads : List Read) (h : ℕ) (buffer : List UInt8) (later : List Read) : Prop where
  length : buffer.length = reach (h + 4) reads 0
  complete : h + 4 ≤ buffer.length
  front : buffer.take h = (stream reads).take h
  body : buffer.drop (h + 4) ++ stream later = (stream reads).drop (h + 4)
  reach : ∀ n, reach n later (buffer.drop (h + 4)).length + (h + 4) = reach (h + 4 + n) reads 0

theorem headerRead_of_findHeaderEnd (hend : findHeaderEnd (stream reads) = some h) :
    HeaderRead reads h ((stream reads).take (reach (h + 4) reads 0)) (behind (h + 4) reads 0) := by
  obtain ⟨-,-,-,-,hlength⟩ := findHeaderEnd_eq_some hend
  have hcomplete : h + 4 ≤ reach (h + 4) reads 0 := target_le_reach (by omega)
  have hbound := reach_le (h + 4) reads 0
  have htaken : ((stream reads).take (reach (h + 4) reads 0)).length = reach (h + 4) reads 0 :=
    length_take_of_le (by omega)
  have hstream : (stream reads).take (reach (h + 4) reads 0) ++ stream (behind (h + 4) reads 0) = stream reads :=
    stream_behind (h + 4) reads []
  constructor
  · exact htaken
  · omega
  · rw [take_take,Nat.min_eq_left (by omega)]
  · rw [← drop_append_of_le_length (by omega),hstream]
  · intro n
    rw [length_drop,htaken,← reach_add,Nat.sub_add_cancel hcomplete,Nat.add_comm n (h + 4),
      reach_behind (Nat.le_add_right _ _)]

theorem readHttpRequest_some (lower : String → String) (hend : findHeaderEnd (stream reads) = some h) :
    (maxHttpHeaderBytes < reach (h + 4) reads 0 ∧
      readHttpRequest lower reads = .error (.invalidData "http header too large")) ∨
    (reach (h + 4) reads 0 ≤ maxHttpHeaderBytes ∧ ∃ buffer later, HeaderRead reads h buffer later ∧
      readHttpRequest lower reads = (parseHeader lower ((stream reads).take h)).bind fun request =>
        if maxHttpBodyBytes < contentLength request.headers then .error (.invalidData "http body too large")
        else (readBody (contentLength request.headers) later (buffer.drop (h + 4))).bind fun body =>
          .ok (some { request with body := body.take (contentLength request.headers) })) := by
  have hread := readHeader_some (show ([] : List UInt8).length < h + 4 from Nat.succ_pos _)
    (show findHeaderEnd ([] ++ stream reads) = some h from hend)
  have hheader := headerRead_of_findHeaderEnd hend
  rw [nil_append,length_nil] at hread
  by_cases hlarge : maxHttpHeaderBytes < reach (h + 4) reads 0
  · rw [if_pos hlarge] at hread
    exact .inl ⟨hlarge,by rw [readHttpRequest,hread]; rfl⟩
  · rw [if_neg hlarge] at hread
    refine .inr ⟨by omega,_,_,hheader,?_⟩
    have hcomplete := hheader.complete
    have hto : sliceTo ((stream reads).take (reach (h + 4) reads 0)) h = .ok ((stream reads).take h) := by
      rw [sliceTo,if_pos (by omega),hheader.front]
    have hfrom : sliceFrom ((stream reads).take (reach (h + 4) reads 0)) (h + 4) =
        .ok (((stream reads).take (reach (h + 4) reads 0)).drop (h + 4)) := if_pos hcomplete
    rw [readHttpRequest,hread]
    simp only [bind,Except.bind,hto,hfrom]
    cases parseHeader lower ((stream reads).take h) with
    | error e => rfl
    | ok request =>
      dsimp only
      split_ifs
      · rfl
      · rfl

theorem readsExpected_of_error {message : String} (hread : readHttpRequest lower reads = .error (.invalidData message))
    (hreads : reads ≠ []) : ReadsExpected lower reads ↔ expected lower (stream reads) = none := by
  constructor
  · intro hexpected
    cases hrequest : expected lower (stream reads) with
    | none => rfl
    | some request =>
      have hread' := (hexpected.request request).mpr hrequest
      rw [hread] at hread'
      cases hread'
  · intro hnone
    exact ⟨fun request => by rw [hread,hnone]; exact ⟨nofun,nofun⟩,iff_of_false (by rw [hread]; exact nofun) hreads,
      by rw [hread]; exact nofun⟩

variable {request : HttpRequest}

theorem readsExpected_of_ok (hread : readHttpRequest lower reads = .ok (some request)) (hreads : reads ≠ []) :
    ReadsExpected lower reads ↔ expected lower (stream reads) = some request := by
  constructor
  · exact fun hexpected => (hexpected.request request).mp hread
  · intro hsome
    refine ⟨fun request' => ?_,iff_of_false (by rw [hread]; exact nofun) hreads,by rw [hread]; exact nofun⟩
    rw [hread,hsome,Except.ok.injEq]

variable {length : ℕ}

theorem expected_eq_some (hend : findHeaderEnd (stream reads) = some h)
    (hparse : parseHeader lower ((stream reads).take h) = .ok request)
    (hdeclared : declaredLength request.headers = some length) (hsmall : h + 4 ≤ maxHttpHeaderBytes)
    (hbody : length ≤ maxHttpBodyBytes) (henough : h + 4 + length ≤ (stream reads).length) :
    expected lower (stream reads) = some { request with body := ((stream reads).drop (h + 4)).take length } := by
  rw [expected,hend,Option.bind_some,if_neg (by omega),hparse]
  dsimp only
  rw [hdeclared,Option.bind_some,if_neg (by omega)]

/-- What a request that is expected has to be. -/
theorem expected_ne_none (hend : findHeaderEnd (stream reads) = some h) (hne : expected lower (stream reads) ≠ none) :
    ∃ request length, h + 4 ≤ maxHttpHeaderBytes ∧ parseHeader lower ((stream reads).take h) = .ok request ∧
      declaredLength request.headers = some length ∧ length ≤ maxHttpBodyBytes ∧
      h + 4 + length ≤ (stream reads).length := by
  rw [expected,hend,Option.bind_some] at hne
  split_ifs at hne with hlarge
  · exact absurd rfl hne
  · cases hparse : parseHeader lower ((stream reads).take h) with
    | error e =>
      rw [hparse] at hne
      exact absurd rfl hne
    | ok request =>
      rw [hparse] at hne
      dsimp only at hne
      cases hdeclared : declaredLength request.headers with
      | none =>
        rw [hdeclared] at hne
        exact absurd rfl hne
      | some length =>
        rw [hdeclared,Option.bind_some] at hne
        split_ifs at hne with hrefused
        · exact absurd rfl hne
        · exact ⟨request,length,by omega,rfl,hdeclared,by omega,by omega⟩

/-- The body that is read behind a header with a length that may be. -/
theorem readBody_declared {buffer : List UInt8} {later : List Read} (hheader : HeaderRead reads h buffer later)
    (hsmall : reach (h + 4) reads 0 ≤ maxHttpHeaderBytes) (henough : h + 4 + length ≤ (stream reads).length) :
    readBody length later (buffer.drop (h + 4)) =
      if Overshoots reads h length then .error (.invalidData "http body too large")
      else .ok (((stream reads).drop (h + 4)).take (reach length later (buffer.drop (h + 4)).length)) := by
  have hlength : (buffer.drop (h + 4)).length = reach (h + 4) reads 0 - (h + 4) := by
    rw [length_drop,hheader.length]
  have hcomplete := hheader.complete
  rw [hheader.length] at hcomplete
  have hreach := hheader.reach length
  have htotal : length ≤ (buffer.drop (h + 4) ++ stream later).length := by
    rw [hheader.body,length_drop]
    omega
  have hovershoots : Overshoots reads h length ↔ (buffer.drop (h + 4)).length < length ∧
      maxHttpBodyBytes < reach length later (buffer.drop (h + 4)).length := by
    rw [Overshoots]
    omega
  rw [readBody_enough htotal,hheader.body]
  by_cases hover : Overshoots reads h length
  · rw [if_pos hover,if_pos (hovershoots.mp hover)]
  · rw [if_neg hover,if_neg fun hmore => hover (hovershoots.mpr hmore)]

theorem reads_ne_nil (hend : findHeaderEnd (stream reads) = some h) : reads ≠ [] := by
  rintro rfl
  obtain ⟨-,-,-,-,hlength⟩ := findHeaderEnd_eq_some hend
  rw [stream_nil,length_nil] at hlength
  omega

/-- With a length that is no number a request without a body is made up. -/
theorem not_readsExpected_of_undeclared (hend : findHeaderEnd (stream reads) = some h)
    (hsmall : reach (h + 4) reads 0 ≤ maxHttpHeaderBytes)
    (hparse : parseHeader lower ((stream reads).take h) = .ok request) (hundeclared : Undeclared request.headers) :
    ¬ ReadsExpected lower reads := by
  obtain ⟨hzero,hlarge⟩ := contentLength_of_undeclared hundeclared
  rcases readHttpRequest_some lower hend with ⟨hover,-⟩ | ⟨-,buffer,later,-,hread⟩
  · omega
  · have hbody : readBody 0 later (buffer.drop (h + 4)) = .ok (buffer.drop (h + 4)) := by
      cases later with
      | nil | cons => exact if_neg (Nat.not_lt_zero _)
    rw [hparse] at hread
    simp only [Except.bind,hzero,Nat.not_lt_zero,if_false,hbody] at hread
    rw [readsExpected_of_ok hread (reads_ne_nil hend)]
    intro hexpected
    obtain ⟨request',length,-,hparse',hdeclared,hfits,-⟩ := expected_ne_none hend (by rw [hexpected]; exact nofun)
    rw [hparse] at hparse'
    cases hparse'
    have := hlarge length hdeclared
    omega

/-- A header that gives the length of the body is misread when the reads overshoot. -/
theorem misread_iff (hend : findHeaderEnd (stream reads) = some h)
    (hparse : parseHeader lower ((stream reads).take h) = .ok request)
    (hdeclared : declaredLength request.headers = some length) (hnumber : ¬ Undeclared request.headers) :
    Misread lower reads ↔ h + 4 ≤ maxHttpHeaderBytes ∧ length ≤ maxHttpBodyBytes ∧
      h + 4 + length ≤ (stream reads).length ∧ Overshoots reads h length := by
  constructor
  · rintro ⟨h',request',hend',hsmall,hparse',hmisread⟩
    rw [hend] at hend'
    cases hend'
    rw [hparse] at hparse'
    cases hparse'
    rcases hmisread with ⟨length',hdeclared',hbody,henough,hover⟩ | ⟨hundeclared,-⟩
    · rw [hdeclared] at hdeclared'
      cases hdeclared'
      exact ⟨hsmall,hbody,henough,hover⟩
    · exact absurd hundeclared hnumber
  · rintro ⟨hsmall,hbody,henough,hover⟩
    exact ⟨h,request,hend,hsmall,hparse,.inl ⟨length,hdeclared,hbody,henough,hover⟩⟩

theorem expected_iff (hend : findHeaderEnd (stream reads) = some h)
    (hparse : parseHeader lower ((stream reads).take h) = .ok request)
    (hdeclared : declaredLength request.headers = some length) : expected lower (stream reads) ≠ none ↔
      h + 4 ≤ maxHttpHeaderBytes ∧ length ≤ maxHttpBodyBytes ∧ h + 4 + length ≤ (stream reads).length := by
  constructor
  · intro hne
    obtain ⟨request',length',hsmall,hparse',hdeclared',hbody,henough⟩ := expected_ne_none hend hne
    rw [hparse] at hparse'
    cases hparse'
    rw [hdeclared] at hdeclared'
    cases hdeclared'
    exact ⟨hsmall,hbody,henough⟩
  · rintro ⟨hsmall,hbody,henough⟩
    rw [expected_eq_some hend hparse hdeclared hsmall hbody henough]
    exact nofun

/-- Reads that go beyond the limit of a header lose a request that is there. -/
theorem readsExpected_iff_of_large (hend : findHeaderEnd (stream reads) = some h)
    (hlarge : maxHttpHeaderBytes < reach (h + 4) reads 0)
    (hread : readHttpRequest lower reads = .error (.invalidData "http header too large")) :
    ReadsExpected lower reads ↔ ¬ Misread lower reads := by
  rw [readsExpected_of_error hread (reads_ne_nil hend)]
  constructor
  · rintro hnone ⟨h',request,hend',hsmall,hparse,hmisread⟩
    rw [hend] at hend'
    cases hend'
    rcases hmisread with ⟨length,hdeclared,hbody,henough,-⟩ | ⟨-,hreach⟩
    · exact (expected_iff hend hparse hdeclared).mpr ⟨hsmall,hbody,henough⟩ hnone
    · omega
  · intro hnot
    by_contra hne
    obtain ⟨request,length,hsmall,hparse,hdeclared,hbody,henough⟩ := expected_ne_none hend hne
    exact hnot ⟨h,request,hend,hsmall,hparse,.inl ⟨length,hdeclared,hbody,henough,.inl hlarge⟩⟩

theorem readsExpected_iff_of_declared {buffer : List UInt8} {later : List Read}
    (hend : findHeaderEnd (stream reads) = some h) (hsmall : reach (h + 4) reads 0 ≤ maxHttpHeaderBytes)
    (hheader : HeaderRead reads h buffer later) (hparse : parseHeader lower ((stream reads).take h) = .ok request)
    (hnumber : ¬ Undeclared request.headers)
    (hread : readHttpRequest lower reads = if maxHttpBodyBytes < contentLength request.headers then
        .error (.invalidData "http body too large")
      else (readBody (contentLength request.headers) later (buffer.drop (h + 4))).bind fun body =>
        .ok (some { request with body := body.take (contentLength request.headers) })) :
    ReadsExpected lower reads ↔ ¬ Misread lower reads := by
  have hdeclared := contentLength_of_declared hnumber
  have hreads := reads_ne_nil hend
  have hcomplete := hheader.complete
  rw [hheader.length] at hcomplete
  generalize contentLength request.headers = length at *
  have hexpected := expected_iff hend hparse hdeclared
  have hfits : h + 4 ≤ maxHttpHeaderBytes := by omega
  have hrefused : ∀ {message}, readHttpRequest lower reads = .error (.invalidData message) →
      ¬ (length ≤ maxHttpBodyBytes ∧ h + 4 + length ≤ (stream reads).length) →
      (ReadsExpected lower reads ↔ ¬ Misread lower reads) := by
    intro message herror hnot
    rw [readsExpected_of_error herror hreads,misread_iff hend hparse hdeclared hnumber]
    exact iff_of_true (not_not.mp fun hne => hnot (hexpected.mp hne).2) fun hm => hnot ⟨hm.2.1,hm.2.2.1⟩
  by_cases hlarge : maxHttpBodyBytes < length
  · rw [if_pos hlarge] at hread
    exact hrefused hread (by omega)
  · rw [if_neg hlarge] at hread
    by_cases henough : h + 4 + length ≤ (stream reads).length
    · rw [readBody_declared hheader hsmall henough] at hread
      by_cases hover : Overshoots reads h length
      · rw [if_pos hover] at hread
        rw [readsExpected_of_error hread hreads,misread_iff hend hparse hdeclared hnumber]
        have hfound := hexpected.mpr ⟨hfits,by omega,henough⟩
        exact iff_of_false hfound (not_not.mpr ⟨hfits,by omega,henough,hover⟩)
      · rw [if_neg hover] at hread
        have hbrings : length ≤ reach length later (buffer.drop (h + 4)).length := by
          apply target_le_reach
          rw [← length_append,hheader.body,length_drop]
          omega
        have hok : readHttpRequest lower reads =
            .ok (some { request with body := ((stream reads).drop (h + 4)).take length }) := by
          rw [hread]
          simp only [Except.bind,take_take,Nat.min_eq_left hbrings]
        rw [readsExpected_of_ok hok hreads,misread_iff hend hparse hdeclared hnumber]
        exact iff_of_true (expected_eq_some hend hparse hdeclared hfits (by omega) henough) fun hm => hover hm.2.2.2
    · have hshort : (buffer.drop (h + 4) ++ stream later).length < length := by
        rw [hheader.body,length_drop]
        obtain ⟨-,-,-,-,hbytes⟩ := findHeaderEnd_eq_some hend
        omega
      rw [readBody_short (by omega) hshort] at hread
      exact hrefused hread (by omega)

theorem readsExpected_iff (lower : String → String) (reads : List Read) :
    ReadsExpected lower reads ↔ ¬ Misread lower reads := by
  cases hend : findHeaderEnd (stream reads) with
  | none =>
    refine iff_of_true (readHttpRequest_none hend) ?_
    rintro ⟨headerEnd,request,hsome,-⟩
    rw [hend] at hsome
    cases hsome
  | some h =>
    rcases readHttpRequest_some lower hend with ⟨hlarge,hread⟩ | ⟨hsmall,buffer,later,hheader,hread⟩
    · exact readsExpected_iff_of_large hend hlarge hread
    · cases hparse : parseHeader lower ((stream reads).take h) with
      | error e =>
        obtain ⟨message,rfl⟩ := parseHeader_error hparse
        rw [hparse] at hread
        rw [readsExpected_of_error hread (reads_ne_nil hend)]
        constructor
        · rintro - ⟨h',request,hend',-,hparse',-⟩
          rw [hend] at hend'
          cases hend'
          rw [hparse] at hparse'
          cases hparse'
        · intro _
          by_contra hne
          obtain ⟨request,-,-,hparse',-⟩ := expected_ne_none hend hne
          rw [hparse] at hparse'
          cases hparse'
      | ok request =>
        rw [hparse] at hread
        by_cases hnumber : Undeclared request.headers
        · have hcomplete := hheader.complete
          rw [hheader.length] at hcomplete
          exact iff_of_false (not_readsExpected_of_undeclared hend hsmall hparse hnumber)
            (not_not.mpr ⟨h,request,hend,by omega,hparse,.inr ⟨hnumber,hsmall⟩⟩)
        · exact readsExpected_iff_of_declared hend hsmall hheader hparse hnumber hread

end

end Mxterm.McpHttp
