import Mxterm.TextLines
import Mxterm.Utf8
import Mxterm.WeakestPreconditions

/-! The reader of server-sent events (`read_sse_events` in `ai_assistant.rs`): it cuts the events out of
a buffer that the chunks of a response fill, and hands the data of each to its consumer. -/
namespace Mxterm.ServerSentEvents

open List hiding after getElem?_eq_some_iff

open Execution

/-- The first position at which the needle stands. -/
def position (needle : List UInt8) : List UInt8 → Option ℕ
  | [] => none
  | b :: bs => if needle.isPrefixOf (b :: bs) then some 0 else (position needle bs).map (· + 1)

def findBytes (buffer needle : List UInt8) : Option ℕ :=
  if needle = [] ∨ buffer.length < needle.length then none else position needle buffer

def lf : List UInt8 := [10,10]

def crlf : List UInt8 := [13,10,13,10]

/-- `next_sse_event`: the bytes before the first delimiter, and where the next event begins. -/
def nextSseEvent (buffer : List UInt8) : Option (List UInt8 × ℕ) :=
  match findBytes buffer lf, findBytes buffer crlf with
  | some left, some right =>
    if left ≤ right then some (buffer.take left,left + 2) else some (buffer.take right,right + 4)
  | some left, none => some (buffer.take left,left + 2)
  | none, some right => some (buffer.take right,right + 4)
  | none, none => none

def trimStart (s : String) : String := String.ofList (s.toList.dropWhile Text.isWhitespace)

def stripPrefix (pattern s : String) : Option String :=
  if Text.startsWith s pattern then some (String.ofList (s.toList.drop pattern.length)) else none

variable {σ : Type}

/-- The consumer of the events: whether it has seen the last one. -/
abbrev Consumer (σ : Type) := String → EStateM AppError σ Bool

def eventData (event : String) : String :=
  "\n".intercalate ((Text.lines event).filterMap fun line => (stripPrefix "data:" line).map trimStart)

def processSseEvent (event : String) (onData : Consumer σ) : EStateM AppError σ Bool :=
  let data := eventData event
  if Text.trim data = "" then pure false else onData (Text.trim data)

def sseUtf8Error (detail : String) : AppError :=
  ⟨"ai_stream_parse_failed","AI 流式响应编码解析失败。",detail,true⟩

/-- What the response gives next: a chunk, with the stop flag as it stands then, or a failure. -/
inductive Arrival
  | chunk (bytes : List UInt8) (stopped : Bool)
  | failed (error : AppError)

section Positions

variable {needle buffer more : List UInt8} {i : ℕ}

/-- The needle stands at `i` and at no place before it. -/
def FirstAt (needle buffer : List UInt8) (i : ℕ) : Prop :=
  needle <+: buffer.drop i ∧ ∀ j < i, ¬ needle <+: buffer.drop j

theorem position_eq_some (hneedle : needle ≠ []) :
    position needle buffer = some i ↔ FirstAt needle buffer i := by
  unfold FirstAt
  induction buffer generalizing i with
  | nil =>
    simp only [position,reduceCtorEq,drop_nil,prefix_nil,false_iff]
    exact fun h => hneedle h.1
  | cons b bs ih =>
    unfold position
    by_cases hhere : needle <+: b :: bs
    · rw [if_pos ( isPrefixOf_iff_prefix.mpr hhere)]
      constructor
      · rintro ⟨⟩
        exact ⟨hhere,fun j hj => absurd hj (Nat.not_lt_zero j)⟩
      · rintro ⟨-,hfirst⟩
        cases i with
        | zero => rfl
        | succ i => exact absurd hhere (hfirst 0 (Nat.succ_pos i))
    · rw [if_neg fun h => hhere ( isPrefixOf_iff_prefix.mp h)]
      cases i with
      | zero =>
        constructor
        · intro h
          obtain ⟨j,-,hj⟩ := Option.map_eq_some_iff.mp h
          omega
        · intro h
          exact absurd h.1 hhere
      | succ i =>
        simp only [Option.map_eq_some_iff,Nat.add_right_cancel_iff,exists_eq_right,drop_succ_cons,
          ih]
        apply and_congr_right
        intro _
        constructor
        · intro hfirst j hj
          cases j with
          | zero => exact hhere
          | succ j => exact hfirst j (Nat.lt_of_succ_lt_succ hj)
        · intro hfirst j hj
          exact hfirst (j + 1) (Nat.succ_lt_succ hj)

theorem findBytes_eq_some (hneedle : needle ≠ []) :
    findBytes buffer needle = some i ↔ FirstAt needle buffer i := by
  unfold findBytes
  by_cases hshort : buffer.length < needle.length
  · rw [if_pos (.inr hshort)]
    simp only [reduceCtorEq,false_iff]
    intro h
    have hle := h.1.length_le
    rw [length_drop] at hle
    omega
  · rw [if_neg (not_or.mpr ⟨hneedle,hshort⟩)]
    exact position_eq_some hneedle

theorem findBytes_eq_none (hneedle : needle ≠ []) :
    findBytes buffer needle = none ↔ ∀ i, ¬ needle <+: buffer.drop i := by
  constructor
  · intro hnone i hi
    induction i using Nat.strong_induction_on with
    | h i ih =>
      have hfound := (findBytes_eq_some hneedle).mpr ⟨hi,fun j hj hprev => ih j hj hprev⟩
      rw [hnone] at hfound
      cases hfound
  · intro hall
    cases hfind : findBytes buffer needle with
    | none => rfl
    | some i => exact absurd ((findBytes_eq_some hneedle).mp hfind).1 (hall i)

end Positions

section Delimiters

variable {buffer more event : List UInt8} {i n : ℕ}

theorem cons_prefix_drop {b : UInt8} {needle : List UInt8} :
    b :: needle <+: buffer.drop i ↔ buffer[i]? = some b ∧ needle <+: buffer.drop (i + 1) := by
  rw [← head?_drop,← tail_drop]
  cases buffer.drop i with
  | nil => simp
  | cons c cs => simp [cons_prefix_cons,eq_comm]

theorem lf_at : lf <+: buffer.drop i ↔ buffer[i]? = some 10 ∧ buffer[i + 1]? = some 10 := by
  simp [lf,cons_prefix_drop]

theorem crlf_at : crlf <+: buffer.drop i ↔ buffer[i]? = some 13 ∧ buffer[i + 1]? = some 10 ∧
    buffer[i + 2]? = some 13 ∧ buffer[i + 3]? = some 10 := by
  simp [crlf,cons_prefix_drop]

/-- The first delimiter begins at `i` and ends at `n`. -/
structure Delimited (buffer : List UInt8) (i n : ℕ) : Prop where
  here : n = i + 2 ∧ lf <+: buffer.drop i ∨ n = i + 4 ∧ crlf <+: buffer.drop i
  first : ∀ j < i, ¬ lf <+: buffer.drop j ∧ ¬ crlf <+: buffer.drop j

theorem not_both (hlf : lf <+: buffer.drop i) : ¬ crlf <+: buffer.drop i := by
  intro hcrlf
  have hfirst := (lf_at.mp hlf).1
  rw [(crlf_at.mp hcrlf).1] at hfirst
  cases hfirst

theorem Delimited.le_length (h : Delimited buffer i n) : i + 2 ≤ n ∧ n ≤ buffer.length := by
  rcases h.here with ⟨rfl,hlf⟩ | ⟨rfl,hcrlf⟩
  · have hlast := (List.getElem?_eq_some_iff.mp (lf_at.mp hlf).2).1
    omega
  · have hlast := (List.getElem?_eq_some_iff.mp (crlf_at.mp hcrlf).2.2.2).1
    omega

theorem nextSseEvent_eq_none : nextSseEvent buffer = none ↔
    ∀ j, ¬ lf <+: buffer.drop j ∧ ¬ crlf <+: buffer.drop j := by
  rw [forall_and,← findBytes_eq_none (show lf ≠ [] by decide),
    ← findBytes_eq_none (show crlf ≠ [] by decide)]
  unfold nextSseEvent
  cases findBytes buffer lf <;> cases findBytes buffer crlf <;> simp
  split <;> simp

theorem Delimited.unique {i' n' : ℕ} (h : Delimited buffer i n) (h' : Delimited buffer i' n') :
    i = i' ∧ n = n' := by
  have hle : ∀ {i n i' n' : ℕ}, Delimited buffer i n → Delimited buffer i' n' → ¬ i < i' := by
    intro i n i' n' h h' hlt
    obtain ⟨hlf,hcrlf⟩ := h'.first i hlt
    rcases h.here with ⟨-,hhere⟩ | ⟨-,hhere⟩
    · exact hlf hhere
    · exact hcrlf hhere
  have hlt := hle h h'
  have hgt := hle h' h
  obtain rfl : i = i' := by omega
  refine ⟨rfl,?_⟩
  rcases h.here with ⟨rfl,hhere⟩ | ⟨rfl,hhere⟩
  · rcases h'.here with ⟨rfl,-⟩ | ⟨-,hother⟩
    · rfl
    · exact absurd hother (not_both hhere)
  · rcases h'.here with ⟨-,hother⟩ | ⟨rfl,-⟩
    · exact absurd hhere (not_both hother)
    · rfl

theorem nextSseEvent_delimited (h : nextSseEvent buffer = some (event,n)) :
    ∃ i, event = buffer.take i ∧ Delimited buffer i n := by
  have hlf : ∀ {j}, findBytes buffer lf = some j → FirstAt lf buffer j := fun hj =>
    (findBytes_eq_some (by decide)).mp hj
  have hcrlf : ∀ {j}, findBytes buffer crlf = some j → FirstAt crlf buffer j := fun hj =>
    (findBytes_eq_some (by decide)).mp hj
  unfold nextSseEvent at h
  cases hleft : findBytes buffer lf with
  | none =>
    have hnoLf := (findBytes_eq_none (by decide)).mp hleft
    cases hright : findBytes buffer crlf with
    | none =>
      rw [hleft,hright] at h
      cases h
    | some right =>
      rw [hleft,hright] at h
      cases h
      exact ⟨right,rfl,.inr ⟨rfl,(hcrlf hright).1⟩,fun j hj => ⟨hnoLf j,(hcrlf hright).2 j hj⟩⟩
  | some left =>
    cases hright : findBytes buffer crlf with
    | none =>
      have hnoCrlf := (findBytes_eq_none (by decide)).mp hright
      rw [hleft,hright] at h
      cases h
      exact ⟨left,rfl,.inl ⟨rfl,(hlf hleft).1⟩,fun j hj => ⟨(hlf hleft).2 j hj,hnoCrlf j⟩⟩
    | some right =>
      rw [hleft,hright] at h
      dsimp only at h
      by_cases hle : left ≤ right
      · rw [if_pos hle] at h
        cases h
        exact ⟨left,rfl,.inl ⟨rfl,(hlf hleft).1⟩,fun j hj =>
          ⟨(hlf hleft).2 j hj,(hcrlf hright).2 j (Nat.lt_of_lt_of_le hj hle)⟩⟩
      · rw [if_neg hle] at h
        cases h
        exact ⟨right,rfl,.inr ⟨rfl,(hcrlf hright).1⟩,fun j hj =>
          ⟨(hlf hleft).2 j (Nat.lt_trans hj (Nat.lt_of_not_le hle)),(hcrlf hright).2 j hj⟩⟩

theorem Delimited.nextSseEvent (h : Delimited buffer i n) :
    nextSseEvent buffer = some (buffer.take i,n) := by
  cases hnext : ServerSentEvents.nextSseEvent buffer with
  | none =>
    obtain ⟨hlf,hcrlf⟩ := nextSseEvent_eq_none.mp hnext i
    rcases h.here with ⟨-,hhere⟩ | ⟨-,hhere⟩
    · exact absurd hhere hlf
    · exact absurd hhere hcrlf
  | some found =>
    obtain ⟨i',htake,hdelimited⟩ := nextSseEvent_delimited hnext
    obtain ⟨rfl,hn⟩ := h.unique hdelimited
    rw [hn,← htake]

/-- What follows later changes nothing about a delimiter that is complete. -/
theorem Delimited.append (h : Delimited buffer i n) (more : List UInt8) :
    Delimited (buffer ++ more) i n := by
  have hbelow : ∀ {k}, k < buffer.length → (buffer ++ more)[k]? = buffer[k]? := fun hk =>
    getElem?_append_left hk
  obtain ⟨hin,hn⟩ := h.le_length
  constructor
  · refine h.here.imp (And.imp_right fun hhere => ?_) (And.imp_right fun hhere => ?_)
    · rw [drop_append_of_le_length (by omega)]
      exact hhere.trans (prefix_append _ _)
    · rw [drop_append_of_le_length (by omega)]
      exact hhere.trans (prefix_append _ _)
  · intro j hj
    obtain ⟨hlf,hcrlf⟩ := h.first j hj
    constructor
    · intro hearly
      rw [lf_at,hbelow (by omega),hbelow (by omega)] at hearly
      exact hlf (lf_at.mpr hearly)
    · intro hearly
      -- a delimiter that begins one byte before the other one would differ from it in its third byte
      by_cases hfull : j + 3 < buffer.length
      · rw [crlf_at,hbelow (by omega),hbelow (by omega),hbelow (by omega),hbelow hfull] at hearly
        exact hcrlf (crlf_at.mpr hearly)
      · obtain ⟨rfl,hhere⟩ := h.here.resolve_right fun hother => by omega
        have hthird := (crlf_at.mp hearly).2.2.1
        obtain rfl : i = j + 1 := by omega
        rw [hbelow (by omega),(lf_at.mp hhere).2] at hthird
        cases hthird

theorem nextSseEvent_append (h : ServerSentEvents.nextSseEvent buffer = some (event,n)) (more : List UInt8) :
    ServerSentEvents.nextSseEvent (buffer ++ more) = some (event,n) := by
  obtain ⟨i,rfl,hdelimited⟩ := nextSseEvent_delimited h
  obtain ⟨hin,hn⟩ := hdelimited.le_length
  rw [(hdelimited.append more).nextSseEvent,take_append_of_le_length (by omega)]

theorem nextSseEvent_lt (h : ServerSentEvents.nextSseEvent buffer = some (event,n)) :
    0 < n ∧ n ≤ buffer.length := by
  obtain ⟨i,-,hdelimited⟩ := nextSseEvent_delimited h
  obtain ⟨hin,hn⟩ := hdelimited.le_length
  omega

end Delimiters

section Reading

-- `utf8Detail` is what `FromUtf8Error` shows for bytes that are no text
variable (utf8Detail : List UInt8 → String) (onData : Consumer σ)

def fromUtf8 (bytes : List UInt8) : Except AppError String :=
  match Utf8.decode? bytes with
  | some text => .ok text
  | none => .error (sseUtf8Error (utf8Detail bytes))

/-- The inner loop of `read_sse_events`: the rest of the buffer, or nothing once the consumer is done. -/
def handEvents (buffer : List UInt8) : EStateM AppError σ (Option (List UInt8)) :=
  match _hnext : nextSseEvent buffer with
  | none => pure (some buffer)
  | some (event,drainTo) => do
    let event ← lift (fromUtf8 utf8Detail event)
    let done ← processSseEvent event onData
    if done then pure none else handEvents (buffer.drop drainTo)
termination_by buffer.length
decreasing_by
  have hlt := nextSseEvent_lt _hnext
  rw [length_drop]
  omega

def isAsciiWhitespace (b : UInt8) : Bool := b == 9 || b == 10 || b == 12 || b == 13 || b == 32

/-- What is left at the end of the response counts as an event. -/
def handRest (buffer : List UInt8) : EStateM AppError σ Unit :=
  if buffer.all isAsciiWhitespace then pure ()
  else do
    let event ← lift (fromUtf8 utf8Detail buffer)
    let _ ← processSseEvent event onData
    pure ()

/-- `read_sse_events`, with the buffer as it stands before the arrivals. -/
def readSseEvents : List UInt8 → List Arrival → EStateM AppError σ Unit
  | buffer, [] => handRest utf8Detail onData buffer
  | _, .failed error :: _ => throw error
  | buffer, .chunk bytes stopped :: rest =>
    if stopped then pure ()
    else do
      match ← handEvents utf8Detail onData (buffer ++ bytes) with
      | none => pure ()
      | some buffer => readSseEvents buffer rest

end Reading

section Chunks

variable {utf8Detail : List UInt8 → String} {onData : Consumer σ} {buffer more event : List UInt8} {n : ℕ}

theorem handEvents_none (h : nextSseEvent buffer = none) :
    handEvents utf8Detail onData buffer = pure (some buffer) := by
  rw [handEvents]
  split
  · rfl
  · rename_i hsome
    rw [h] at hsome
    cases hsome

theorem handEvents_some (h : nextSseEvent buffer = some (event,n)) :
    handEvents utf8Detail onData buffer = (do
      let event ← lift (fromUtf8 utf8Detail event)
      let done ← processSseEvent event onData
      if done then pure none else handEvents utf8Detail onData (buffer.drop n)) := by
  rw [handEvents]
  split
  · rename_i hnone
    rw [h] at hnone
    cases hnone
  · rename_i hsome
    cases h.symm.trans hsome
    rfl

/-- The rest that is kept holds no complete event. -/
theorem handEvents_rest (s : σ) : Leads (handEvents utf8Detail onData buffer)
    (fun rest _ => ∀ r ∈ rest, nextSseEvent r = none) (fun _ => True) s := by
  induction hlength : buffer.length using Nat.strong_induction_on generalizing buffer s with
  | h length ih =>
    cases hnext : nextSseEvent buffer with
    | none =>
      rw [handEvents_none hnext]
      exact .pure fun r hr => Option.some.inj hr ▸ hnext
    | some found =>
      have hlt := nextSseEvent_lt hnext
      rw [handEvents_some hnext]
      refine .lift_bind (fun text _ => .bind ⟨fun done t _ => ?_,fun _ _ _ => trivial⟩) fun _ _ => trivial
      refine .ite (fun _ => .pure fun r hr => nomatch hr) fun _ => ?_
      exact ih _ (by rw [length_drop]; omega) t rfl

/-- More bytes are handed on after the events that are already complete. -/
theorem handEvents_append : handEvents utf8Detail onData (buffer ++ more) =
    handEvents utf8Detail onData buffer >>= fun
      | none => pure none
      | some rest => handEvents utf8Detail onData (rest ++ more) := by
  induction hlength : buffer.length using Nat.strong_induction_on generalizing buffer with
  | h length ih =>
    cases hnext : nextSseEvent buffer with
    | none => rw [handEvents_none hnext,pure_bind]
    | some found =>
      have hlt := nextSseEvent_lt hnext
      rw [handEvents_some hnext,handEvents_some (nextSseEvent_append hnext more),bind_assoc]
      refine bind_congr fun text => ?_
      rw [bind_assoc]
      refine bind_congr fun done => ?_
      cases done with
      | true => simp only [if_true,pure_bind]
      | false =>
        rw [drop_append_of_le_length hlt.2]
        exact ih _ (by rw [length_drop]; omega) rfl

theorem bind_congr_ok {α β ε : Type} {x : EStateM ε σ α} {f g : α → EStateM ε σ β} {s : σ}
    (h : ∀ a t, x s = .ok a t → f a t = g a t) : (x >>= f) s = (x >>= g) s := by
  cases hx : x s with
  | ok a t => rw [bind_of_ok hx,bind_of_ok hx,h a t hx]
  | error e t => rw [bind_of_error hx,bind_of_error hx]

/-- Reading any chunks is handing the events of the whole stream, then what is left. -/
theorem readSseEvents_chunks (utf8Detail : List UInt8 → String) (onData : Consumer σ)
    (hbuffer : nextSseEvent buffer = none) (chunks : List (List UInt8)) :
    readSseEvents utf8Detail onData buffer (chunks.map (.chunk · false)) =
      handEvents utf8Detail onData (buffer ++ chunks.flatten) >>= fun
        | none => pure ()
        | some rest => handRest utf8Detail onData rest := by
  induction chunks generalizing buffer with
  | nil => rw [flatten_nil,append_nil,handEvents_none hbuffer]; rfl
  | cons chunk chunks ih =>
    rw [flatten_cons,← append_assoc,handEvents_append,bind_assoc]
    funext s
    refine bind_congr_ok fun rest t hrest => ?_
    cases rest with
    | none => rfl
    | some rest =>
      have hnone := (handEvents_rest s).ok hrest rest rfl
      exact congrFun (ih hnone) t

/-- The chunks of a stream are read as the stream in one chunk is, whatever the consumer does. -/
theorem read_chunks (utf8Detail : List UInt8 → String) (onData : Consumer σ) (chunks : List (List UInt8)) :
    readSseEvents utf8Detail onData [] (chunks.map (.chunk · false)) =
      readSseEvents utf8Detail onData [] [.chunk chunks.flatten false] := by
  have hempty : nextSseEvent [] = none := rfl
  have hone := readSseEvents_chunks utf8Detail onData hempty [chunks.flatten]
  rw [map_singleton,flatten_singleton] at hone
  rw [readSseEvents_chunks utf8Detail onData hempty,hone]

end Chunks

section Encoding

/-- An event that carries one line of data, with its blank line. -/
def encodeEvent (crlfEnds : Bool) (data : String) : List UInt8 :=
  Utf8.encode ("data: " ++ data) ++ if crlfEnds then crlf else lf

/-- The consumer is handed one text after the other until it has seen the last one. -/
def handAll (onData : Consumer σ) : List String → EStateM AppError σ Unit
  | [] => pure ()
  | data :: rest => do
    let done ← onData data
    if done then pure () else handAll onData rest

/-- What the reader makes of texts: it trims them and leaves blank ones out. -/
def readable (data : List String) : List String := (data.map Text.trim).filter (· ≠ "")

variable {utf8Detail : List UInt8 → String} {onData : Consumer σ} {text more : List UInt8} {n : ℕ}

/-- The delimiter after a text without newlines is the first one. -/
theorem delimited_encoded (h : (10 : UInt8) ∉ text) (crlfEnds : Bool) :
    Delimited (text ++ ((if crlfEnds then crlf else lf) ++ more)) text.length
      (text.length + if crlfEnds then 4 else 2) := by
  have hbelow : ∀ j, j < text.length → (text ++ ((if crlfEnds then crlf else lf) ++ more))[j]? ≠ some 10 := by
    intro j hj hten
    rw [getElem?_append_left hj] at hten
    exact h (mem_of_getElem? hten)
  have hat : ∀ k, (text ++ ((if crlfEnds then crlf else lf) ++ more))[text.length + k]? =
      ((if crlfEnds then crlf else lf) ++ more)[k]? := fun k => by
    rw [getElem?_append_right (Nat.le_add_right _ _),Nat.add_sub_cancel_left]
  constructor
  · cases crlfEnds with
    | true => exact .inr ⟨rfl,crlf_at.mpr ⟨hat 0,hat 1,hat 2,hat 3⟩⟩
    | false => exact .inl ⟨rfl,lf_at.mpr ⟨hat 0,hat 1⟩⟩
  · intro j hj
    refine ⟨fun hearly => hbelow j hj (lf_at.mp hearly).1,fun hearly => ?_⟩
    have hnext := (crlf_at.mp hearly).2.1
    by_cases hlast : j + 1 < text.length
    · exact hbelow (j + 1) hlast hnext
    · have hthird := (crlf_at.mp hearly).2.2.1
      obtain hlength : text.length = j + 1 := by omega
      have hzero := hat 0
      have hone := hat 1
      rw [hlength] at hzero hone
      rw [hzero] at hnext
      rw [hone] at hthird
      cases crlfEnds with
      | true => cases hnext
      | false => cases hthird

theorem trim_trimStart (s : String) : Text.trim (trimStart (" " ++ s)) = Text.trim s := by
  have hspace : Text.isWhitespace ' ' = true := by decide
  have hdrop : (" " ++ s).toList.dropWhile Text.isWhitespace = s.toList.dropWhile Text.isWhitespace := by
    rw [String.toList_append]
    exact dropWhile_cons_of_pos hspace
  rw [Text.trim,trimStart,hdrop,String.toList_ofList,dropWhile_idempotent,Text.trim]

variable {data : String}

theorem eventData_encoded (h : '\n' ∉ data.toList) : Text.trim (eventData ("data: " ++ data)) = Text.trim data := by
  have hline : '\n' ∉ ("data: " ++ data).toList := by
    simpa [String.toList_append] using h
  have hlines := Text.lines_of_no_newline (by simp) hline
  have hstrip : stripPrefix "data:" ("data: " ++ data) = some (" " ++ data) := by
    have hdrop : ("data: " ++ data).toList.drop "data:".length = (" " ++ data).toList := by
      rw [String.toList_append,String.toList_append]
      rfl
    rw [stripPrefix,if_pos (by simp [Text.startsWith,String.toList_append]),hdrop,String.ofList_toList]
  rw [eventData,hlines,filterMap_cons,hstrip]
  exact trim_trimStart data

theorem processSseEvent_encoded (h : '\n' ∉ data.toList) :
    processSseEvent ("data: " ++ data) onData =
      if Text.trim data = "" then pure false else onData (Text.trim data) := by
  rw [processSseEvent,eventData_encoded h]

theorem handEvents_encoded (h : '\n' ∉ data.toList) (crlfEnds : Bool) :
    handEvents utf8Detail onData (encodeEvent crlfEnds data ++ more) = (do
      let done ← processSseEvent ("data: " ++ data) onData
      if done then pure none else handEvents utf8Detail onData more) := by
  have hten : (10 : UInt8) ∉ Utf8.encode ("data: " ++ data) := by
    rw [show (10 : UInt8) = '\n'.val.toUInt8 from rfl,Utf8.mem_encode_ascii (by decide)]
    simpa [String.toList_append] using h
  have hdelimited : Delimited (Utf8.encode ("data: " ++ data) ++ ((if crlfEnds then crlf else lf) ++ more))
      _ _ := delimited_encoded hten crlfEnds
  have hnext := hdelimited.nextSseEvent
  rw [take_left] at hnext
  have hdrop : (Utf8.encode ("data: " ++ data) ++ ((if crlfEnds then crlf else lf) ++ more)).drop
      ((Utf8.encode ("data: " ++ data)).length + if crlfEnds then 4 else 2) = more := by
    rw [drop_length_add_append]
    cases crlfEnds <;> rfl
  have htext : fromUtf8 utf8Detail (Utf8.encode ("data: " ++ data)) = .ok ("data: " ++ data) := by
    rw [fromUtf8,Utf8.decode?_encode]
  have hlift : (lift (.ok ("data: " ++ data)) : EStateM AppError σ String) = pure ("data: " ++ data) := rfl
  rw [encodeEvent,append_assoc,handEvents_some hnext,hdrop,htext,hlift,pure_bind]

/-- What is read of encoded texts. -/
theorem read_encoded (utf8Detail : List UInt8 → String) (onData : Consumer σ)
    (data : List (String × Bool)) (hdata : ∀ e ∈ data, '\n' ∉ e.1.toList) :
    (handEvents utf8Detail onData (data.flatMap fun e => encodeEvent e.2 e.1) >>= fun
      | none => pure ()
      | some rest => handRest utf8Detail onData rest) = handAll onData (readable (data.map Prod.fst)) := by
  induction data with
  | nil =>
    have hnone : nextSseEvent [] = none := rfl
    rw [flatMap_nil,handEvents_none hnone]
    rfl
  | cons e data ih =>
    have hrest := ih fun f hf => hdata f (mem_cons_of_mem _ hf)
    rw [flatMap_cons,handEvents_encoded (hdata e mem_cons_self),
      processSseEvent_encoded (hdata e mem_cons_self),bind_assoc]
    by_cases hblank : Text.trim e.1 = ""
    · rw [if_pos hblank,pure_bind,if_neg (by simp),hrest]
      simp [readable,hblank]
    · have hreadable : readable ((e :: data).map Prod.fst) =
          Text.trim e.1 :: readable (data.map Prod.fst) := by simp [readable,hblank]
      rw [if_neg hblank,hreadable]
      refine bind_congr fun done => ?_
      cases done with
      | true => rw [if_pos rfl,if_pos rfl,pure_bind]
      | false => rw [if_neg (by simp),if_neg (by simp),hrest]

/-- A stream is read as if it came in one chunk, and the texts that were encoded in it are handed on trimmed
and without the blank ones, up to the one at which the consumer stops. -/
theorem events_read_back (utf8Detail : List UInt8 → String) (onData : Consumer σ) :
    (∀ chunks : List (List UInt8), readSseEvents utf8Detail onData [] (chunks.map (.chunk · false)) =
      readSseEvents utf8Detail onData [] [.chunk chunks.flatten false]) ∧
    ∀ data : List (String × Bool), (∀ e ∈ data, '\n' ∉ e.1.toList) →
      readSseEvents utf8Detail onData [] [.chunk (data.flatMap fun e => encodeEvent e.2 e.1) false] =
        handAll onData (readable (data.map Prod.fst)) := by
  refine ⟨read_chunks utf8Detail onData,fun data hdata => ?_⟩
  have hempty : nextSseEvent [] = none := rfl
  have hone := readSseEvents_chunks utf8Detail onData hempty
    [data.flatMap fun e => encodeEvent e.2 e.1]
  rw [map_singleton,flatten_singleton,nil_append] at hone
  rw [hone,read_encoded utf8Detail onData data hdata]

/-- A consumer that keeps what it is handed and never stops. -/
def collect : Consumer (List String) := fun data => do
  modify (· ++ [data])
  pure false

theorem events_read_back_collected :
    readSseEvents (fun _ => "") collect [] [.chunk (encodeEvent true "a" ++ encodeEvent false "b") false] =
      handAll collect ["a","b"] :=
  (events_read_back (fun _ => "") collect).2 [("a",true),("b",false)] (by decide)

/-- A text with a space in front is handed on without it, and an empty one is not handed on. -/
theorem spaces_not_read_back :
    after (readSseEvents (fun _ => "") collect []
      [.chunk (encodeEvent false " a" ++ encodeEvent false "") false]) [] = ["a"] := by
  have hempty : nextSseEvent [] = none := rfl
  have hone := readSseEvents_chunks (fun _ => "") collect hempty
    [encodeEvent false " a" ++ encodeEvent false ""]
  have hread := read_encoded (fun _ => "") collect [(" a",false),("",false)]
    (by decide)
  exact congrArg (fun x => after x []) hread

end Encoding

section Maintained

variable {σ : Type} {utf8Detail : List UInt8 → String} {onData : Consumer σ} {P : σ → Prop}

theorem maintains_processSseEvent (h : ∀ data, Maintains P (onData data)) (event : String) :
    Maintains P (processSseEvent event onData) := by
  dsimp only [processSseEvent]
  split_ifs
  exacts [.pure _,h _]

theorem maintains_handEvents (h : ∀ data, Maintains P (onData data)) (buffer : List UInt8) :
    Maintains P (handEvents utf8Detail onData buffer) := by
  induction buffer using handEvents.induct with
  | case1 buffer hnext =>
    rw [handEvents_none hnext]
    exact .pure _
  | case2 buffer event drainTo hnext ih =>
    rw [handEvents_some hnext]
    refine .bind (.lift _) fun text => .bind (maintains_processSseEvent h text) fun done => ?_
    split_ifs
    exacts [.pure _,ih]

/-- What the consumer maintains is maintained by the reader, whatever arrives. -/
theorem maintains_readSseEvents (h : ∀ data, Maintains P (onData data)) (buffer : List UInt8)
    (arrivals : List Arrival) : Maintains P (readSseEvents utf8Detail onData buffer arrivals) := by
  induction arrivals generalizing buffer with
  | nil =>
    unfold readSseEvents handRest
    split_ifs
    exacts [.pure _,.bind (.lift _) fun text => .bind (maintains_processSseEvent h text) fun _ => .pure _]
  | cons arrival arrivals ih =>
    cases arrival with
    | failed error => exact .throw error
    | chunk bytes stopped =>
      unfold readSseEvents
      split_ifs
      · exact .pure _
      · refine .bind (maintains_handEvents h _) fun rest => ?_
        cases rest with
        | none => exact .pure _
        | some buffer => exact ih buffer

end Maintained

end Mxterm.ServerSentEvents
