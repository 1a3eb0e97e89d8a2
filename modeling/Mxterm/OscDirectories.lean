import Mathlib.Data.UInt
import Mathlib.Data.List.DropRight
import Mxterm.Occurrences
import Mxterm.Utf8

/-! The directories that a shell announces in the output of a terminal (`osc7.ts`), and how they are read from output
that comes in chunks (`TerminalPanel.tsx`). Text is the list of its UTF-16 code units. -/
namespace Mxterm
namespace OscDirectories

open Occurrences

abbrev Text := List UInt16

def osc7Prefix : Text := [0x1b,0x5d,0x37,0x3b]
def bell : Text := [0x07]
def stTerminator : Text := [0x1b,0x5c]
def maxOscBufferLength : ℕ := 2048

/-! ## The path of a payload -/

/-- What `String.prototype.trim` takes off. -/
def isSpace (unit : UInt16) : Bool :=
  unit ∈ [0x09,0x0a,0x0b,0x0c,0x0d,0x20,0xa0,0x1680,0x2028,0x2029,0x202f,0x205f,0x3000,0xfeff] ||
    (0x2000 ≤ unit && unit ≤ 0x200a)

def trim (text : Text) : Text := (text.dropWhile isSpace).rdropWhile isSpace

def hexDigit? (unit : UInt16) : Option ℕ :=
  let n := unit.toNat
  if 48 ≤ n ∧ n ≤ 57 then some (n - 48)
  else if 65 ≤ n ∧ n ≤ 70 then some (n - 55)
  else if 97 ≤ n ∧ n ≤ 102 then some (n - 87)
  else none

def utf16 (c : Char) : Text :=
  if c.toNat < 0x10000 then [UInt16.ofNat c.toNat]
  else
    let n := c.toNat - 0x10000
    [UInt16.ofNat (0xd800 + n / 0x400),UInt16.ofNat (0xdc00 + n % 0x400)]

def decodeBytes : List UInt8 → Option Text
  | [] => some []
  | bytes => (Utf8.decode? bytes).map fun s => s.toList.flatMap utf16

/-- `decodeURIComponent`, behind some bytes that were written with `%`. It throws where this is `none`. -/
def decodeFrom : List UInt8 → Text → Option Text
  | bytes, [] => decodeBytes bytes
  | bytes, unit :: rest =>
    if unit = 0x25 then
      match rest with
      | high :: low :: rest => do decodeFrom (bytes ++ [UInt8.ofNat ((← hexDigit? high) * 16 + (← hexDigit? low))]) rest
      | _ => none
    else do return (← decodeBytes bytes) ++ unit :: (← decodeFrom [] rest)

def decodeURIComponent (text : Text) : Option Text := decodeFrom [] text

/-- `file://`. -/
def fileScheme : Text := [0x66,0x69,0x6c,0x65,0x3a,0x2f,0x2f]

def osc7PayloadToPath (payload : Text) : Option Text :=
  let value := trim payload
  if value = [] then none
  else
    let path := if fileScheme <+: value then (value.drop fileScheme.length).dropWhile (· ≠ 0x2f) else value
    some ((decodeURIComponent path).getD path)

/-! ## The search -/

def indexOf (pattern text : Text) : Option ℕ := (findFirst pattern text).map (·.1.length)

def chooseOscEnd (bellEnd stEnd : Option ℕ) : Option ℕ :=
  match bellEnd,stEnd with
  | none,stop => stop
  | stop,none => stop
  | some bellStop,some stStop => some (min bellStop stStop)

/-- The paths that are pushed for a payload: an empty one is not. -/
def pathsOf (payload : Text) : List Text := ((osc7PayloadToPath payload).filter (· ≠ [])).toList

theorem indexOf_eq {pattern text : Text} {start : ℕ} (h : indexOf pattern text = some start) :
    ∃ rest, findFirst pattern text = some (text.take start,rest) ∧ text = text.take start ++ pattern ++ rest ∧
      start + pattern.length ≤ text.length := by
  obtain ⟨⟨before,rest⟩,hfound,rfl⟩ := Option.map_eq_some_iff.mp h
  have happend := findFirst_append hfound
  have htake : text.take before.length = before := by
    rw [happend,List.append_assoc,List.take_left]
  refine ⟨rest,by rw [htake,hfound],by rw [htake]; exact happend,?_⟩
  rw [happend,List.length_append,List.length_append]
  exact Nat.le_add_right ..

/-- The loop of `extractOsc7Directories` from the cursor on. -/
def extractFrom (input : Text) : List Text × Text :=
  match _h : indexOf osc7Prefix input with
  | none => ([],[])
  | some start =>
    let after := input.drop (start + osc7Prefix.length)
    let bellEnd := indexOf bell after
    let stEnd := indexOf stTerminator after
    match chooseOscEnd bellEnd stEnd with
    | none => ([],input.drop start)
    | some stop =>
      let rest := extractFrom (after.drop (stop + if some stop = stEnd then stTerminator.length else 1))
      (pathsOf (after.take stop) ++ rest.1,rest.2)
termination_by input.length
decreasing_by
  obtain ⟨_,-,-,hle⟩ := indexOf_eq _h
  have hpos : 0 < osc7Prefix.length := by decide
  simp only [List.length_drop]
  omega

structure Osc7ParseResult where
  paths : List Text
  buffer : Text

def extractOsc7Directories (input : Text) : Osc7ParseResult :=
  let (paths,buffer) := extractFrom input
  ⟨paths,if maxOscBufferLength < buffer.length then buffer.drop (buffer.length - maxOscBufferLength) else buffer⟩

/-- The buffer that is kept, and the directories that were reported. -/
structure Panel where
  buffer : Text
  reported : List Text

def Panel.writeDecodedOutput (panel : Panel) (decoded : Text) : Panel :=
  let currentDirectory := extractOsc7Directories (panel.buffer ++ decoded)
  ⟨currentDirectory.buffer,panel.reported ++ currentDirectory.paths⟩

def receive (chunks : List Text) : Panel := chunks.foldl Panel.writeDecodedOutput ⟨[],[]⟩

/-! ## Sequences -/

/-- What ends first behind an introducer, with what is behind it. -/
def closing (after : Text) : Option (Text × Text) :=
  match findFirst bell after,findFirst stTerminator after with
  | none,found => found
  | some (payload,rest),none => some (payload,rest)
  | some (payload,rest),some (payload',rest') =>
    if payload.length ≤ payload'.length then some (payload,rest) else some (payload',rest')

theorem indexOf_none {pattern text : Text} (h : findFirst pattern text = none) : indexOf pattern text = none := by
  rw [indexOf,h]
  rfl

theorem indexOf_some {pattern text before rest : Text} (h : findFirst pattern text = some (before,rest)) :
    indexOf pattern text = some before.length := by
  rw [indexOf,h]
  rfl

theorem drop_found {pattern text before rest : Text} (h : findFirst pattern text = some (before,rest)) :
    text.take before.length = before ∧ text.drop before.length = pattern ++ rest ∧
      text.drop (before.length + pattern.length) = rest := by
  rw [findFirst_append h,List.append_assoc,List.take_left,List.drop_left]
  refine ⟨rfl,rfl,?_⟩
  rw [← List.append_assoc,List.drop_append,List.drop_of_length_le (by simp)]
  simp

/-- The two ends do not begin at the same place. -/
theorem ends_ne {after before rest before' rest' : Text} (h : findFirst bell after = some (before,rest))
    (h' : findFirst stTerminator after = some (before',rest')) : before.length ≠ before'.length := by
  intro heq
  have hbell := (drop_found h).2.1
  rw [heq,(drop_found h').2.1] at hbell
  cases hbell

theorem extractFrom_none {input : Text} (h : findFirst osc7Prefix input = none) : extractFrom input = ([],[]) := by
  rw [extractFrom]
  split
  · rfl
  · rename_i start hstart
    rw [indexOf_none h] at hstart
    cases hstart

theorem extractFrom_found {input before after : Text} (h : findFirst osc7Prefix input = some (before,after)) :
    extractFrom input = match closing after with
      | none => ([],osc7Prefix ++ after)
      | some (payload,rest) => (pathsOf payload ++ (extractFrom rest).1,(extractFrom rest).2) := by
  obtain ⟨-,hopen,hafter⟩ := drop_found h
  rw [extractFrom]
  split
  · rename_i hstart
    rw [indexOf_some h] at hstart
    cases hstart
  rename_i start hstart
  rw [indexOf_some h] at hstart
  obtain rfl := Option.some.inj hstart
  simp only [hafter,hopen]
  cases hbell : findFirst bell after with
  | none =>
    cases hst : findFirst stTerminator after with
    | none => simp [closing,hbell,hst,indexOf_none,chooseOscEnd]
    | some found =>
      obtain ⟨htake,-,hdrop⟩ := drop_found hst
      simp [closing,hbell,hst,indexOf_none hbell,indexOf_some hst,chooseOscEnd,htake,hdrop]
  | some found =>
    obtain ⟨htake,-,hdrop⟩ := drop_found hbell
    rw [show bell.length = 1 from rfl] at hdrop
    cases hst : findFirst stTerminator after with
    | none => simp [closing,hbell,hst,indexOf_none hst,indexOf_some hbell,chooseOscEnd,htake,hdrop]
    | some found' =>
      obtain ⟨htake',-,hdrop'⟩ := drop_found hst
      have hne := ends_ne hbell hst
      rcases Nat.lt_or_gt_of_ne hne with hlt | hgt
      · simp [closing,hbell,hst,indexOf_some hst,indexOf_some hbell,chooseOscEnd,htake,hdrop,hlt.le,hne]
      · simp [closing,hbell,hst,indexOf_some hst,indexOf_some hbell,chooseOscEnd,htake',hdrop',hgt.le,Nat.not_le.mpr
        hgt]

theorem closing_split {after payload rest : Text} (h : closing after = some (payload,rest)) :
    ∃ terminator, (terminator = bell ∨ terminator = stTerminator) ∧ after = payload ++ terminator ++ rest := by
  unfold closing at h
  split at h
  · exact ⟨stTerminator,.inr rfl,findFirst_append h⟩
  · rename_i hbell _
    obtain ⟨rfl,rfl⟩ := Prod.mk.inj (Option.some.inj h)
    exact ⟨bell,.inl rfl,findFirst_append hbell⟩
  · rename_i hbell hst
    split_ifs at h
    · obtain ⟨rfl,rfl⟩ := Prod.mk.inj (Option.some.inj h)
      exact ⟨bell,.inl rfl,findFirst_append hbell⟩
    · obtain ⟨rfl,rfl⟩ := Prod.mk.inj (Option.some.inj h)
      exact ⟨stTerminator,.inr rfl,findFirst_append hst⟩

theorem findFirst_here (after : Text) : findFirst osc7Prefix (osc7Prefix ++ after) = some ([],after) := by
  have h : findFirst osc7Prefix ([] ++ osc7Prefix ++ after) = some ([],after) :=
    findFirst_of_head (a := 0x1b) rfl List.not_mem_nil
  exact h

/-- An occurrence that is found only when the text goes on ends behind the text. -/
theorem findFirst_late {pattern text more before rest : Text} (h : findFirst pattern text = none)
    (hmore : findFirst pattern (text ++ more) = some (before,rest)) : text.length < before.length + pattern.length := by
  by_contra hle
  have hoccurs := occursAt_of_findFirst hmore
  rw [OccursAt,List.drop_append_of_le_length (by omega)] at hoccurs
  refine findFirst_eq_none h before.length (List.prefix_of_prefix_length_le hoccurs (List.prefix_append _ more) ?_)
  rw [List.length_drop]
  omega

theorem closing_append {after payload rest : Text} (h : closing after = some (payload,rest)) (more : Text) :
    closing (after ++ more) = some (payload,rest ++ more) := by
  unfold closing at h
  cases hbell : findFirst bell after with
  | none =>
    rw [hbell] at h
    have hst := findFirst_append_right more h
    have hlength := congrArg List.length (findFirst_append h)
    simp only [List.length_append] at hlength
    cases hlater : findFirst bell (after ++ more) with
    | none => simp [closing,hlater,hst]
    | some found =>
      have hlate := findFirst_late hbell hlater
      have hnot : ¬ found.1.length ≤ payload.length := by
        have h1 : bell.length = 1 := rfl
        have h2 : stTerminator.length = 2 := rfl
        omega
      simp [closing,hlater,hst,hnot]
  | some found =>
    have hbell' := findFirst_append_right more hbell
    cases hst : findFirst stTerminator after with
    | none =>
      rw [hbell,hst] at h
      obtain ⟨rfl,rfl⟩ := Prod.mk.inj (Option.some.inj h)
      cases hlater : findFirst stTerminator (after ++ more) with
      | none => simp [closing,hlater,hbell']
      | some found' =>
        have hlate := findFirst_late hst hlater
        have hlength := congrArg List.length (findFirst_append hbell)
        simp only [List.length_append] at hlength
        have hle : found.1.length ≤ found'.1.length := by
          have h1 : bell.length = 1 := rfl
          have h2 : stTerminator.length = 2 := rfl
          omega
        simp [closing,hlater,hbell',hle]
    | some found' =>
      have hst' := findFirst_append_right more hst
      rw [hbell,hst] at h
      simp only at h
      split_ifs at h with hle
      · obtain ⟨rfl,rfl⟩ := Prod.mk.inj (Option.some.inj h)
        simp [closing,hbell',hst',hle]
      · obtain ⟨rfl,rfl⟩ := Prod.mk.inj (Option.some.inj h)
        simp [closing,hbell',hst',hle]

/-! ## Chunks -/

/-- No introducer begins in the first part of a text and ends in the second. -/
def Uncut (first last : Text) : Prop :=
  ∀ before after, first ++ last = before ++ osc7Prefix ++ after →
    first.length ≤ before.length ∨ before.length + osc7Prefix.length ≤ first.length

/-- Where the search finds nothing in a text, it goes on behind it. -/
theorem findFirst_uncut {first last : Text} (h : Uncut first last) (hnone : findFirst osc7Prefix first = none) :
    findFirst osc7Prefix (first ++ last) = (findFirst osc7Prefix last).map fun found => (first ++ found.1,found.2) := by
  have hnot (i : ℕ) (hi : i < first.length) : ¬ OccursAt osc7Prefix (first ++ last) i := by
    intro hoccurs
    obtain ⟨after,hafter⟩ := hoccurs
    have hsplit : first ++ last = (first ++ last).take i ++ osc7Prefix ++ after := by
      rw [List.append_assoc,hafter,List.take_append_drop]
    have hlength : ((first ++ last).take i).length = i := by
      rw [List.length_take,List.length_append]
      omega
    rcases h _ _ hsplit with hle | hle
    · omega
    · rw [hlength] at hle
      refine findFirst_eq_none hnone i ?_
      rw [OccursAt]
      have hprefix : osc7Prefix <+: (first ++ last).drop i := ⟨after,hafter⟩
      rw [List.drop_append_of_le_length (by omega)] at hprefix
      refine List.prefix_of_prefix_length_le hprefix (List.prefix_append _ last) ?_
      rw [List.length_drop]
      omega
  clear h hnone
  induction first with
  | nil => simp
  | cons a first ih =>
    have hhere : ¬ osc7Prefix <+: a :: (first ++ last) := hnot 0 (Nat.succ_pos _)
    rw [List.cons_append,findFirst,if_neg hhere,ih fun i hi => hnot (i + 1) (Nat.succ_lt_succ hi),Option.map_map]
    rfl

theorem Uncut.rest {before rest last : Text} (h : Uncut (before ++ rest) last) : Uncut rest last := by
  intro earlier later hsplit
  have hwhole : before ++ rest ++ last = before ++ earlier ++ osc7Prefix ++ later := by
    rw [List.append_assoc,hsplit]
    simp
  have hcut := h (before ++ earlier) later hwhole
  simp only [List.length_append] at hcut
  omega

theorem Uncut.take {first last more : Text} (h : Uncut first (last ++ more)) : Uncut first last := by
  intro before after hsplit
  apply h before (after ++ more)
  rw [← List.append_assoc,hsplit,List.append_assoc]

/-- What is kept of the first part stands for it. -/
theorem extractFrom_append {first last : Text} (h : Uncut first last) : extractFrom (first ++ last) =
    ((extractFrom first).1 ++ (extractFrom ((extractFrom first).2 ++ last)).1,
      (extractFrom ((extractFrom first).2 ++ last)).2) := by
  induction hn : first.length using Nat.strong_induction_on generalizing first with
  | _ n ih =>
    subst hn
    cases hfound : findFirst osc7Prefix first with
    | none =>
      rw [extractFrom_none hfound]
      simp only [List.nil_append]
      have huncut := findFirst_uncut h hfound
      cases hlast : findFirst osc7Prefix last with
      | none =>
        rw [hlast] at huncut
        rw [extractFrom_none huncut,extractFrom_none hlast]
      | some found =>
        rw [hlast] at huncut
        rw [extractFrom_found huncut,extractFrom_found hlast]
    | some found =>
      obtain ⟨before,after⟩ := found
      rw [extractFrom_found hfound,extractFrom_found (findFirst_append_right last hfound)]
      cases hclosing : closing after with
      | none =>
        have hopen := findFirst_here (after ++ last)
        rw [← List.append_assoc] at hopen
        rw [List.nil_append,extractFrom_found hopen]
      | some closed =>
        obtain ⟨payload,rest⟩ := closed
        obtain ⟨terminator,-,rfl⟩ := closing_split hclosing
        have hfirst := findFirst_append hfound
        have hrest : first = (before ++ osc7Prefix ++ (payload ++ terminator)) ++ rest := by
          rw [hfirst]
          simp
        have hshorter : rest.length < first.length := by
          have h4 : osc7Prefix.length = 4 := rfl
          rw [hrest,List.length_append,List.length_append,List.length_append]
          omega
        rw [hrest] at h
        rw [closing_append hclosing]
        simp only [ih rest.length hshorter h.rest rfl,List.append_assoc]

/-- What is kept is a sequence that has been begun and not ended. -/
theorem buffer_open (input : Text) : (extractFrom input).2 = [] ∨ ∃ before after,
    input = before ++ osc7Prefix ++ after ∧ closing after = none ∧ (extractFrom input).2 = osc7Prefix ++ after := by
  induction hn : input.length using Nat.strong_induction_on generalizing input with
  | _ n ih =>
    subst hn
    cases hfound : findFirst osc7Prefix input with
    | none => exact .inl (by rw [extractFrom_none hfound])
    | some found =>
      obtain ⟨before,after⟩ := found
      have hinput := findFirst_append hfound
      rw [extractFrom_found hfound]
      cases hclosing : closing after with
      | none => exact .inr ⟨before,after,hinput,hclosing,rfl⟩
      | some closed =>
        obtain ⟨payload,rest⟩ := closed
        obtain ⟨terminator,-,rfl⟩ := closing_split hclosing
        have hshorter : rest.length < input.length := by
          have h4 : osc7Prefix.length = 4 := rfl
          simp only [hinput,List.length_append]
          omega
        rcases ih rest.length hshorter rest rfl with hnone | ⟨before',after',hrest,hopen,hbuffer⟩
        · exact .inl hnone
        · refine .inr ⟨before ++ osc7Prefix ++ (payload ++ terminator) ++ before',after',?_,hopen,hbuffer⟩
          rw [hinput,hrest]
          simp

/-- Every sequence of a text is ended, with no more than 2048 units. -/
def Complete (text : Text) : Prop :=
  ∀ before after, text = before ++ osc7Prefix ++ after → ∃ payload terminator rest,
    (terminator = bell ∨ terminator = stTerminator) ∧ after = payload ++ terminator ++ rest ∧
      (osc7Prefix ++ payload ++ terminator).length ≤ maxOscBufferLength

theorem closing_ne_none {after payload terminator rest : Text} (hend : terminator = bell ∨ terminator = stTerminator)
    (h : after = payload ++ terminator ++ rest) : closing after ≠ none := by
  have hoccurs : OccursAt terminator after payload.length := by
    rw [OccursAt,h,List.append_assoc,List.drop_left]
    exact List.prefix_append terminator rest
  intro hnone
  unfold closing at hnone
  split at hnone
  · rename_i hbell
    rcases hend with rfl | rfl
    · exact findFirst_eq_none hbell _ hoccurs
    · exact findFirst_eq_none hnone _ hoccurs
  · cases hnone
  · split_ifs at hnone

/-- Of a part of such a text no more is kept than there is room for. -/
theorem buffer_fits {first last : Text} (h : Complete (first ++ last)) :
    (extractFrom first).2.length ≤ maxOscBufferLength := by
  rcases buffer_open first with hnone | ⟨before,after,hfirst,hopen,hbuffer⟩
  · rw [hnone]
    exact Nat.zero_le _
  rw [hbuffer]
  by_contra hlong
  obtain ⟨payload,terminator,rest,hend,hafter,hlimit⟩ := h before (after ++ last) (by rw [hfirst]; simp)
  simp only [List.length_append] at hlong hlimit
  have hprefix : payload ++ terminator <+: after := by
    refine List.prefix_of_prefix_length_le ⟨rest,hafter.symm⟩ (List.prefix_append after last) ?_
    rw [List.length_append]
    omega
  obtain ⟨rest',hrest'⟩ := hprefix
  exact closing_ne_none hend hrest'.symm hopen

/-- No chunk ends inside an introducer. -/
def Whole (chunks : List Text) : Prop := ∀ first last, chunks = first ++ last → Uncut first.flatten last.flatten

theorem receive_whole {chunks : List Text} (hcomplete : Complete chunks.flatten) (hwhole : Whole chunks)
    (first last : List Text) (h : chunks = first ++ last) :
    receive first = ⟨(extractFrom first.flatten).2,(extractFrom first.flatten).1⟩ := by
  induction first using List.reverseRecOn generalizing last with
  | nil =>
    rw [List.flatten_nil,extractFrom_none (findFirst_nil (by decide))]
    rfl
  | append_singleton first chunk ih =>
    rw [List.append_assoc,List.singleton_append] at h
    have hreceive : receive (first ++ [chunk]) = (receive first).writeDecodedOutput chunk := by
      rw [receive,List.foldl_append]
      rfl
    have huncut : Uncut first.flatten chunk := by
      have hcut := hwhole _ _ h
      rw [List.flatten_cons] at hcut
      exact hcut.take
    have hflatten : (first ++ [chunk]).flatten = first.flatten ++ chunk := by simp
    have happend := extractFrom_append huncut
    have hfits : (extractFrom (first.flatten ++ chunk)).2.length ≤ maxOscBufferLength := by
      rw [h,List.flatten_append,List.flatten_cons,← List.append_assoc] at hcomplete
      exact buffer_fits hcomplete
    rw [happend] at hfits
    rw [hreceive,ih _ h,hflatten,happend,Panel.writeDecodedOutput,extractOsc7Directories]
    simp only [if_neg (Nat.not_lt.mpr hfits)]

/-- An introducer stands in the text, and behind it the payload up to what ends first. -/
def Announces (text payload : Text) : Prop :=
  ∃ before after rest, text = before ++ osc7Prefix ++ after ∧ closing after = some (payload,rest)

theorem Announces.extend {text payload : Text} (h : Announces text payload) (before more : Text) :
    Announces (before ++ text ++ more) payload := by
  obtain ⟨before',after,rest,rfl,hclosing⟩ := h
  exact ⟨before ++ before',after ++ more,rest ++ more,by simp,closing_append hclosing more⟩

def Silent (text : Text) : Prop := ∀ payload, Announces text payload → pathsOf payload = []

theorem Silent.part {b text c : Text} (h : Silent (b ++ text ++ c)) : Silent text :=
  fun payload hpayload => h payload (hpayload.extend b c)

theorem Silent.paths {text : Text} (h : Silent text) : (extractFrom text).1 = [] := by
  induction hn : text.length using Nat.strong_induction_on generalizing text with
  | _ n ih =>
    subst hn
    cases hfound : findFirst osc7Prefix text with
    | none => rw [extractFrom_none hfound]
    | some found =>
      obtain ⟨before,after⟩ := found
      have htext := findFirst_append hfound
      rw [extractFrom_found hfound]
      cases hclosing : closing after with
      | none => rfl
      | some closed =>
        obtain ⟨payload,rest⟩ := closed
        obtain ⟨terminator,-,hafter⟩ := closing_split hclosing
        have hrest : text = (before ++ osc7Prefix ++ (payload ++ terminator)) ++ rest ++ [] := by
          rw [htext,hafter]
          simp
        have hshorter : rest.length < text.length := by
          have h4 : osc7Prefix.length = 4 := rfl
          simp only [htext,hafter,List.length_append]
          omega
        have hlater := ih rest.length hshorter (hrest ▸ h).part rfl
        exact List.append_eq_nil_iff.mpr ⟨h payload ⟨before,after,rest,htext,hclosing⟩,hlater⟩

theorem buffer_suffix (input : Text) : (extractFrom input).2 <:+ input := by
  rcases buffer_open input with hnone | ⟨before,after,hinput,-,hbuffer⟩
  · rw [hnone]
    exact List.nil_suffix
  · rw [hbuffer,hinput,List.append_assoc]
    exact List.suffix_append ..

/-- Of a text that announces nothing nothing is reported, and what is kept is its end. -/
theorem Silent.receive {chunks : List Text} (h : Silent chunks.flatten) :
    (receive chunks).reported = [] ∧ (receive chunks).buffer <:+ chunks.flatten := by
  induction chunks using List.reverseRecOn with
  | nil => exact ⟨rfl,List.nil_suffix⟩
  | append_singleton chunks chunk ih =>
    have hreceive : OscDirectories.receive (chunks ++ [chunk]) =
        (OscDirectories.receive chunks).writeDecodedOutput chunk := by
      rw [OscDirectories.receive,List.foldl_append]
      rfl
    have hflatten : (chunks ++ [chunk]).flatten = chunks.flatten ++ chunk := by simp
    rw [hflatten] at h ⊢
    obtain ⟨hreported,hkept⟩ := ih (Silent.part (b := []) h)
    obtain ⟨before,hbefore⟩ := hkept
    have hinput : Silent ((OscDirectories.receive chunks).buffer ++ chunk) := by
      apply Silent.part (b := before) (c := [])
      rwa [List.append_nil,← List.append_assoc,hbefore]
    have hsuffix : (OscDirectories.receive chunks).buffer ++ chunk <:+ chunks.flatten ++ chunk :=
      ⟨before,by rw [← List.append_assoc,hbefore]⟩
    rw [hreceive]
    simp only [Panel.writeDecodedOutput,extractOsc7Directories,hreported,hinput.paths]
    refine ⟨rfl,?_⟩
    split_ifs
    · exact ((List.drop_suffix ..).trans (buffer_suffix _)).trans hsuffix
    · exact (buffer_suffix _).trans hsuffix

/-- When every unit comes by itself, no introducer is ever found. -/
theorem receive_units (text : Text) : receive (text.map ([·])) = ⟨[],[]⟩ := by
  have hunit (unit : UInt16) : extractFrom [unit] = ([],[]) := by
    apply extractFrom_none
    simp [findFirst,osc7Prefix]
  induction text using List.reverseRecOn with
  | nil => rfl
  | append_singleton text unit ih =>
    have hreceive : receive ((text ++ [unit]).map ([·])) = (receive (text.map ([·]))).writeDecodedOutput [unit] := by
      rw [receive,List.map_append,List.foldl_append]
      rfl
    rw [hreceive,ih,Panel.writeDecodedOutput,extractOsc7Directories,List.nil_append,hunit]
    rfl

theorem length_buffer (chunks : List Text) : (receive chunks).buffer.length ≤ maxOscBufferLength := by
  induction chunks using List.reverseRecOn with
  | nil => exact Nat.zero_le _
  | append_singleton chunks chunk ih =>
    have hreceive : receive (chunks ++ [chunk]) = (receive chunks).writeDecodedOutput chunk := by
      rw [receive,List.foldl_append]
      rfl
    rw [hreceive]
    simp only [Panel.writeDecodedOutput,extractOsc7Directories]
    split_ifs with hlong
    · rw [List.length_drop]
      omega
    · exact Nat.le_of_not_lt hlong

/-- No more than 2048 units are kept. The directories of a text are found whatever the chunks are as long as no chunk
ends inside an introducer; if chunks may end there too, they are found only in texts that announce none. -/
theorem directories_found_iff (text : Text) : (∀ chunks, (receive chunks).buffer.length ≤ maxOscBufferLength) ∧
    (Complete text →
      (∀ chunks, chunks.flatten = text → Whole chunks →
        (receive chunks).reported = (extractOsc7Directories text).paths) ∧
      ((∀ chunks, chunks.flatten = text → (receive chunks).reported = (extractOsc7Directories text).paths) ↔
        ∀ payload, Announces text payload → pathsOf payload = [])) := by
  refine ⟨length_buffer,fun hcomplete => ⟨?_,?_⟩⟩
  · rintro chunks rfl hwhole
    rw [receive_whole hcomplete hwhole chunks [] (List.append_nil chunks).symm]
    rfl
  constructor
  · rintro h payload ⟨before,after,rest,rfl,hclosing⟩
    have hflatten (units : Text) : (units.map ([·])).flatten = units := by simp [← List.flatMap_def]
    have hunits := h ((before ++ osc7Prefix ++ after).map ([·])) (hflatten _)
    have hbehind := h (before.map ([·]) ++ [osc7Prefix ++ after]) (by simp [hflatten])
    rw [← hunits,receive_units,receive,List.foldl_append,← receive,receive_units] at hbehind
    simp only [List.foldl_cons,List.foldl_nil,Panel.writeDecodedOutput,List.nil_append,extractOsc7Directories,
      extractFrom_found (findFirst_here after),hclosing] at hbehind
    exact (List.append_eq_nil_iff.mp hbehind).1
  · rintro hsilent chunks rfl
    have hreceive : (receive chunks).reported = [] := (Silent.receive hsilent).1
    have hpaths : (extractFrom chunks.flatten).1 = [] := Silent.paths hsilent
    rw [hreceive]
    exact hpaths.symm

/-- A chunk that ends in the introducer of `ESC ]7;/a BEL`: the directory is not reported. -/
theorem cut_introducer_lost : ∃ (text : Text) (chunks : List Text), Complete text ∧ chunks.flatten = text ∧
    (receive chunks).reported ≠ (extractOsc7Directories text).paths := by
  refine ⟨[0x1b,0x5d,0x37,0x3b,0x2f,0x61,0x07],[[0x1b,0x5d],[0x37,0x3b,0x2f,0x61,0x07]],?_,rfl,?_⟩
  · intro before after h
    cases before with
    | nil =>
      rw [List.nil_append] at h
      obtain rfl : [0x2f,0x61,0x07] = after := (List.append_right_inj osc7Prefix).mp h
      exact ⟨[0x2f,0x61],bell,[],.inl rfl,rfl,by decide⟩
    | cons unit before =>
      have hmem : 0x1b ∈ ([0x5d,0x37,0x3b,0x2f,0x61,0x07] : Text) := by
        rw [(List.cons.inj h).2]
        simp [osc7Prefix]
      exact absurd hmem (by decide)
  · have hfirst : extractFrom [0x1b,0x5d] = ([],[]) := extractFrom_none (by decide)
    have hsecond : extractFrom [0x37,0x3b,0x2f,0x61,0x07] = ([],[]) := extractFrom_none (by decide)
    have hfound : findFirst osc7Prefix [0x1b,0x5d,0x37,0x3b,0x2f,0x61,0x07] = some ([],[0x2f,0x61,0x07]) := by decide
    have hwhole := extractFrom_found hfound
    have hpath : pathsOf [0x2f,0x61] = [[0x2f,0x61]] := by decide
    rw [show closing [0x2f,0x61,0x07] = some ([0x2f,0x61],[]) by decide] at hwhole
    simp [receive,Panel.writeDecodedOutput,extractOsc7Directories,hfirst,hsecond,hwhole,hpath]

end OscDirectories
end Mxterm
