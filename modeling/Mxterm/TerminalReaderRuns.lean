import Mxterm.TerminalReader

/-! What the read loop shows, however the channel cuts the output into messages. -/
namespace Mxterm.TerminalReader

open Reader hiding receive step

open ConnectionValidation List

/-! ## Batches -/

namespace TerminalOutputBatcher

theorem push_flatten (b : TerminalOutputBatcher) (data : Bytes) (now : ℕ) :
    (b.push data now).1.flatten ++ (b.push data now).2.pending = b.pending ++ data := by
  fun_induction push b data now with
  | case1 b => simp
  | case2 b data hdata startedAt take hroom ih => rw [ih,append_assoc,take_append_drop]
  | case3 b data hdata startedAt take hroom ih =>
    rw [flatten_cons,append_assoc,ih,new,nil_append,append_assoc,take_append_drop]

theorem flush_pending (b : TerminalOutputBatcher) : b.flush.2.pending = [] := by
  rw [flush]
  split_ifs with h
  · exact h
  · rfl

theorem flush_flatten (b : TerminalOutputBatcher) : b.flush.1.toList.flatten = b.pending := by
  rw [flush]
  split_ifs with h
  · exact h.symm
  · exact append_nil _

end TerminalOutputBatcher

/-! ## One message -/

namespace Reader

variable {encoding : Encoding} {name : String} {r : Reader encoding}

/-- What is emitted and what waits for its batch. -/
def output (r : Reader encoding) : Bytes := r.emitted.flatten ++ r.batcher.pending

theorem output_push (r : Reader encoding) (data : Bytes) (now : ℕ) : (r.push data now).output = r.output ++ data := by
  simp only [output,push,emit,flatten_append,append_assoc,TerminalOutputBatcher.push_flatten]

theorem output_flush (r : Reader encoding) : r.flush.output = r.output := by
  simp only [output,flush,emit,flatten_append,TerminalOutputBatcher.flush_flatten,
    TerminalOutputBatcher.flush_pending,append_nil]

theorem emitted_flush (r : Reader encoding) : r.flush.emitted.flatten = r.output := by
  simp only [output,flush,emit,flatten_append,TerminalOutputBatcher.flush_flatten]

end Reader

variable {encoding : Encoding} {name : String} {r : Reader encoding} {bytes data : Bytes} {last : Bool}

theorem decodeTerminalOutput_ok (name : String) {s : encoding.State} (h : (encoding.decode s data last).hadErrors =
    false) :
    decodeTerminalOutput encoding name s data last =
      (.ok (Utf8.encode (encoding.decode s data last).text),(encoding.decode s data last).state) := by
  obtain ⟨capacity,hlength,hdecode⟩ := encoding.buffer s data last
  simp [decodeTerminalOutput,hlength,hdecode,h]

theorem decodeTerminalOutput_error {s : encoding.State} (h : (encoding.decode s data last).hadErrors = true) :
    decodeTerminalOutput encoding name s data last =
      (.error (terminalEncodingDecodeError name data),(encoding.decode s data last).state) := by
  obtain ⟨capacity,hlength,hdecode⟩ := encoding.buffer s data last
  simp [decodeTerminalOutput,hlength,hdecode,h]

/-- After these bytes the loop goes on, and shows them decoded. -/
structure Sound (bytes : Bytes) (r : Reader encoding) : Prop where
  decoder : r.decoder = (encoding.decode encoding.new bytes false).state
  output : r.output = Utf8.encode (encoding.decode encoding.new bytes false).text
  reading : r.reading = true
  stored : r.stored = true

theorem sound_start : Sound [] (.start encoding) := by
  constructor
  · rw [encoding.decode_nil]
    rfl
  · rw [encoding.decode_nil]
    rfl
  · rfl
  · rfl

theorem hadErrors_append (encoding : Encoding) (front back : Bytes) (last : Bool) :
    (encoding.decode encoding.new (front ++ back) last).hadErrors =
      ((encoding.decode encoding.new front false).hadErrors ||
        (encoding.decode (encoding.decode encoding.new front false).state back last).hadErrors) := by
  rw [encoding.decode_append]

theorem state_append (encoding : Encoding) (front back : Bytes) (last : Bool) :
    (encoding.decode encoding.new (front ++ back) last).state =
      (encoding.decode (encoding.decode encoding.new front false).state back last).state := by
  rw [encoding.decode_append]

theorem text_append (encoding : Encoding) (front back : Bytes) (last : Bool) :
    Utf8.encode (encoding.decode encoding.new (front ++ back) last).text =
      Utf8.encode (encoding.decode encoding.new front false).text ++
        Utf8.encode (encoding.decode (encoding.decode encoding.new front false).state back last).text := by
  rw [encoding.decode_append]
  exact Utf8.encode_append _ _

theorem Sound.receive (h : Sound bytes r) (now : ℕ)
    (hclean : (encoding.decode encoding.new (bytes ++ data) false).hadErrors = false) :
    Sound (bytes ++ data) (r.receive name data now) := by
  rw [hadErrors_append,Bool.or_eq_false_iff,← h.decoder] at hclean
  have hdecoded := decodeTerminalOutput_ok name hclean.2
  constructor
  · rw [Reader.receive,hdecoded,state_append,← h.decoder]
    rfl
  · rw [Reader.receive,hdecoded,text_append,← h.decoder,← h.output]
    exact output_push _ _ _
  · rw [Reader.receive,hdecoded]
    exact h.reading
  · rw [Reader.receive,hdecoded]
    exact h.stored

theorem receive_malformed (h : Sound bytes r) (now : ℕ)
    (hmalformed : (encoding.decode (encoding.decode encoding.new bytes false).state data false).hadErrors = true) :
    (r.receive name data now).reading = false := by
  rw [← h.decoder] at hmalformed
  rw [Reader.receive,decodeTerminalOutput_error hmalformed]
  rfl

/-- Messages that print nothing change nothing that is shown. -/
theorem Sound.quiet {t : Reader encoding} (h : Sound bytes r) (hdecoder : t.decoder = r.decoder)
    (houtput : t.output = r.output) (hreading : t.reading = r.reading) (hstored : t.stored = r.stored) :
    Sound (bytes ++ []) t := by
  rw [append_nil]
  exact ⟨hdecoder.trans h.decoder,houtput.trans h.output,hreading.trans h.reading,hstored.trans h.stored⟩

theorem Sound.step (h : Sound bytes r) {event : Event}
    (hclean : (encoding.decode encoding.new (bytes ++ event.printed) false).hadErrors = false) :
    Sound (bytes ++ event.printed) (r.step name event) := by
  rw [Reader.step,if_pos h.reading]
  cases event with
  | data data now => exact h.receive now hclean
  | extendedData data now => exact h.receive now hclean
  | exitStatus | eof | other => exact h.quiet rfl rfl rfl rfl
  | deadline =>
    rw [handle]
    split_ifs
    · exact h.quiet rfl r.output_flush rfl rfl
    · exact h.quiet rfl rfl rfl rfl

theorem not_malformed_nil (s : encoding.State) : ¬(encoding.decode s [] false).hadErrors = true := by
  rw [encoding.decode_nil]
  exact nofun

/-- Malformed output ends the loop with the message it comes in. -/
theorem step_malformed (h : Sound bytes r) {event : Event}
    (hmalformed : (encoding.decode (encoding.decode encoding.new bytes false).state event.printed false).hadErrors =
      true) : (r.step name event).reading = false := by
  rw [Reader.step,if_pos h.reading]
  cases event with
  | data data now => exact receive_malformed h now hmalformed
  | extendedData data now => exact receive_malformed h now hmalformed
  | exitStatus | eof | other | deadline => exact absurd hmalformed (not_malformed_nil _)

/-! ## Runs -/

theorem run_append (r : Reader encoding) (events : List Event) (event : Event) :
    r.run name (events ++ [event]) = (r.run name events).step name event := foldl_concat ..

theorem printed_append (front back : List Event) : printed (front ++ back) = printed front ++ printed back :=
  flatMap_append

variable {events : List Event}

theorem sound_run (h : (encoding.decode encoding.new (printed events) false).hadErrors = false) :
    Sound (printed events) ((start encoding).run name events) := by
  induction events using List.reverseRecOn with
  | nil => exact sound_start
  | append_singleton events event ih =>
    have hprinted : printed (events ++ [event]) = printed events ++ event.printed := by
      rw [printed_append]
      exact congrArg _ (append_nil _)
    rw [hprinted] at h ⊢
    rw [run_append]
    have hbefore := h
    rw [hadErrors_append,Bool.or_eq_false_iff] at hbefore
    exact (ih hbefore.1).step h

/-- Where the output is malformed the loop has ended. -/
theorem ended_of_malformed (name : String)
    (h : (encoding.decode encoding.new (printed events) false).hadErrors = true) :
    ∃ p, p <+: events ∧ ((start encoding).run name p).reading = false := by
  induction events using List.reverseRecOn with
  | nil =>
    rw [printed,flatMap_nil,encoding.decode_nil] at h
    cases h
  | append_singleton events event ih =>
    have hprinted : printed (events ++ [event]) = printed events ++ event.printed := by
      rw [printed_append]
      exact congrArg _ (append_nil _)
    by_cases hbefore : (encoding.decode encoding.new (printed events) false).hadErrors = true
    · obtain ⟨p,hp,hended⟩ := ih hbefore
      exact ⟨p,hp.trans (prefix_append _ _),hended⟩
    · rw [hprinted,hadErrors_append,eq_false_of_ne_true hbefore] at h
      refine ⟨events ++ [event],prefix_refl _,?_⟩
      rw [run_append]
      exact step_malformed (sound_run (eq_false_of_ne_true hbefore)) h

/-- The end of the output, decoded where the open channel has left the decoder. -/
theorem decode_whole (encoding : Encoding) (bytes : Bytes) :
    (encoding.decode encoding.new bytes true).hadErrors =
        ((encoding.decode encoding.new bytes false).hadErrors ||
          (encoding.decode (encoding.decode encoding.new bytes false).state [] true).hadErrors) ∧
      Utf8.encode (encoding.decode encoding.new bytes true).text =
        Utf8.encode (encoding.decode encoding.new bytes false).text ++
          Utf8.encode (encoding.decode (encoding.decode encoding.new bytes false).state [] true).text := by
  have herrors := hadErrors_append encoding bytes [] true
  have htext := text_append encoding bytes [] true
  rw [append_nil] at herrors htext
  exact ⟨herrors,htext⟩

/-- A channel that closes on well-formed output has had all of it emitted. -/
theorem close_shows (now : ℕ) (h : (encoding.decode encoding.new (printed events) true).hadErrors = false) :
    (((start encoding).run name events).close name now).emitted.flatten =
      Utf8.encode (encoding.decode encoding.new (printed events) true).text := by
  obtain ⟨herrors,htext⟩ := decode_whole encoding (printed events)
  rw [herrors,Bool.or_eq_false_iff] at h
  have hsound : Sound (printed events) ((start encoding).run name events) := sound_run h.1
  have htail := h.2
  rw [← hsound.decoder] at htail
  rw [close,if_pos hsound.reading,decodeTerminalOutput_ok name htail,htext,← hsound.output,← hsound.decoder]
  exact (emitted_flush _).trans (output_push _ _ _)

/-- The error that is shown in the place of what is malformed at the end is another text. -/
theorem close_malformed (now : ℕ) (hclean : (encoding.decode encoding.new (printed events) false).hadErrors = false)
    (h : (encoding.decode encoding.new (printed events) true).hadErrors = true) :
    (((start encoding).run name events).close name now).emitted.flatten ≠
      Utf8.encode (encoding.decode encoding.new (printed events) true).text := by
  obtain ⟨herrors,htext⟩ := decode_whole encoding (printed events)
  rw [herrors,hclean] at h
  have hsound : Sound (printed events) ((start encoding).run name events) := sound_run hclean
  have hreplaced := encoding.replaced _ _ _ h
  rw [← hsound.decoder] at h
  have hclosed : (((start encoding).run name events).close name now).emitted.flatten =
      ((start encoding).run name events).output ++
        errorOutput (terminalEncodingDecodeError name []) := by
    rw [close,if_pos hsound.reading,decodeTerminalOutput_error h]
    simp only [fail,remove,emit,flatten_append,flatten_singleton]
    rw [emitted_flush]
    rfl
  rw [hclosed,htext,hsound.output]
  intro hsame
  have htails := Utf8.encode_injective (append_cancel_left hsame)
  rw [← htails] at hreplaced
  have hmessage : '\uFFFD' ∉ ("\r\n" ++ "终端输出解码失败。" ++ "\r\n").toList := by decide
  exact hmessage hreplaced

/-! ## Every run -/

/-- What the remote side has printed so far, or altogether, is well formed. -/
def WellFormed (encoding : Encoding) (events : List Event) (closed : Option ℕ) : Prop :=
  (encoding.decode encoding.new (printed events) closed.isSome).hadErrors = false

variable {closed : Option ℕ}

theorem clean_of_wellFormed (h : WellFormed encoding events closed) :
    (encoding.decode encoding.new (printed events) false).hadErrors = false := by
  cases closed with
  | none => exact h
  | some now =>
    rw [WellFormed,Option.isSome_some,(decode_whole _ _).1,Bool.or_eq_false_iff] at h
    exact h.1

theorem clean_of_isPrefix {p : List Event} (hp : p <+: events)
    (h : (encoding.decode encoding.new (printed events) false).hadErrors = false) :
    (encoding.decode encoding.new (printed p) false).hadErrors = false := by
  obtain ⟨rest,rfl⟩ := hp
  rw [printed_append,hadErrors_append,Bool.or_eq_false_iff] at h
  exact h.1

theorem shows_of_wellFormed (h : WellFormed encoding events closed) : Shows encoding name events closed := by
  have hclean := clean_of_wellFormed h
  have hsound : Sound (printed events) ((start encoding).run name events) := sound_run hclean
  constructor
  case reads => exact fun p hp => (sound_run (clean_of_isPrefix hp hclean)).reading
  case keeps => exact fun p hp => (sound_run (clean_of_isPrefix hp hclean)).stored
  case shown => exact fun _ => hsound.output
  case shownWhole =>
    rintro now rfl
    exact close_shows now h

theorem wellFormed_of_shows (h : Shows encoding name events closed) : WellFormed encoding events closed := by
  have hclean : (encoding.decode encoding.new (printed events) false).hadErrors = false := by
    by_contra hmalformed
    obtain ⟨p,hp,hended⟩ := ended_of_malformed name (eq_true_of_ne_false hmalformed)
    rw [h.reads p hp] at hended
    cases hended
  cases closed with
  | none => exact hclean
  | some now =>
    by_contra hmalformed
    exact close_malformed now hclean (eq_true_of_ne_false hmalformed) (h.shownWhole now rfl)

/-- The labels that connections accept are known to `encoding_rs`. -/
def KnowsLabels (forLabel : String → Option Encoding) : Prop :=
  ∀ label ∈ supportedTerminalEncodings, (forLabel label).isSome

theorem normalize_supported {value label : String} (h : normalizeTerminalEncoding value = .ok label) :
    label ∈ supportedTerminalEncodings ∧ normalizeTerminalEncoding label = .ok label := by
  have hmem : label ∈ supportedTerminalEncodings := by
    simp only [normalizeTerminalEncoding] at h
    generalize (if _ = "" then "utf-8" else _) = normalized at h
    split_ifs at h with hsupported
    rw [← Except.ok.inj h]
    exact hsupported
  refine ⟨hmem,?_⟩
  have hall : ∀ label ∈ supportedTerminalEncodings,
      String.ofList ((Text.toAsciiLowercase (Text.trim label)).toList.map fun c => if c = '_' then '-' else c) =
        label ∧ label ≠ "" := by decide +kernel
  obtain ⟨hsame,hne⟩ := hall label hmem
  simp only [normalizeTerminalEncoding,hsame,if_neg hne,if_pos hmem]

theorem newTerminalOutputDecoder_ok {forLabel : String → Option Encoding} {terminalEncoding label : String}
    (haccepted : normalizeTerminalEncoding terminalEncoding = .ok label) (hencoding : forLabel label = some encoding) :
    newTerminalOutputDecoder forLabel terminalEncoding = .ok (encoding,label) := by
  have hlabel : terminalEncodingForLabel forLabel label = .ok encoding := by
    have hagain := (normalize_supported haccepted).2
    unfold terminalEncodingForLabel
    generalize normalizeTerminalEncoding label = normalized at hagain
    subst hagain
    simp only [hencoding]
  unfold newTerminalOutputDecoder
  generalize normalizeTerminalEncoding terminalEncoding = normalized at haccepted
  subst haccepted
  simp only [hlabel]

/-- A decoder that works as that of UTF-8 on ASCII and on bytes that occur in no text. -/
def asciiEncoding : Encoding where
  State := Unit
  new := ()
  maxUtf8BufferLength _ n := some (3 * n)
  decodeToString _ _ data _ := (.inputEmpty,data.length,⟨data.any (0x80 ≤ ·),
    String.ofList (data.map fun b => if 0x80 ≤ b then '\uFFFD' else Char.ofNat b.toNat),()⟩)
  decode _ data _ := ⟨data.any (0x80 ≤ ·),
    String.ofList (data.map fun b => if 0x80 ≤ b then '\uFFFD' else Char.ofNat b.toNat),()⟩
  buffer _ _ _ := ⟨_,rfl,rfl⟩
  decode_nil _ := rfl
  decode_append _ front back _ := by simp
  replaced _ data _ h := by
    obtain ⟨b,hb,hhigh⟩ := any_eq_true.mp h
    rw [String.toList_ofList]
    exact mem_map.mpr ⟨b,hb,if_pos (by simpa using hhigh)⟩

theorem ascii_accepted : normalizeTerminalEncoding "UTF_8" = .ok "utf-8" := by
  have hname : String.ofList ((Text.toAsciiLowercase (Text.trim "UTF_8")).toList.map fun c =>
      if c = '_' then '-' else c) = "utf-8" := by decide
  have hne : "utf-8" ≠ "" := by decide
  have hmem : "utf-8" ∈ supportedTerminalEncodings := mem_cons_self
  simp only [normalizeTerminalEncoding,hname,if_neg hne,if_pos hmem]

end Mxterm.TerminalReader
