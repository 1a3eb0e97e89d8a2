import Mathlib.Data.List.DropRight
import Mxterm.Utf8

/-! A part of the POSIX shell: how a script is read, and how it is carried out on a host whose utilities are arbitrary.
Files that redirections name can be opened, and what stands in them is left out. -/
namespace Mxterm.ShellScripts

/-! ## Scripts -/

mutual

/-- The parts of a word: text, parameters and the output of scripts, each one quoted or not. -/
inductive Word
  | done
  | text (quoted : Bool) (chars : List Char) (more : Word)
  | param (quoted : Bool) (name : List Char) (more : Word)
  | output (quoted : Bool) (script : Script) (more : Word)
  deriving DecidableEq

/-- What a simple command consists of, and what is redirected behind a group. -/
inductive Elements
  | done
  | word (word : Word) (more : Elements)
  | assign (name : List Char) (value : Word) (more : Elements)
  | redirect (operator : List Char) (target : Word) (more : Elements)
  deriving DecidableEq

inductive Script
  | done
  | simple (elements : Elements)
  | group (script : Script) (redirections : Elements)
  | cond (test script : Script)
  | not (script : Script)
  | pipe (left right : Script)
  | or (left right : Script)
  | seq (first next : Script)
  deriving DecidableEq

end

def Word.append : Word → Word → Word
  | .done, b => b
  | .text quoted chars more, b => .text quoted chars (more.append b)
  | .param quoted name more, b => .param quoted name (more.append b)
  | .output quoted script more, b => .output quoted script (more.append b)

/-! ## Reading -/

def isBlank (c : Char) : Bool := c == ' ' || c == '\t'

def isOperator (c : Char) : Bool := c ∈ ['\n','|','&',';','<','>','(',')']

def isNameChar (c : Char) : Bool := c.isAlphanum || c == '_'

def skip (chars : List Char) : List Char := chars.dropWhile isBlank

/-- What follows a reserved word, if the text begins with it. -/
def reserved (name : String) (chars : List Char) : Option (List Char) :=
  if name.toList.isPrefixOf chars then
    match chars.drop name.toList.length with
    | [] => some []
    | c :: rest => if isBlank c || isOperator c then some (c :: rest) else none
  else none

def isClosing (chars : List Char) : Bool :=
  match chars with
  | [] => true
  | c :: _ => c == ')' || ["\x7d","then","fi"].any fun name => (reserved name chars).isSome

/-- The operator of a redirection, if the text begins with one. -/
def redirection (chars : List Char) : Option (List Char × List Char) :=
  let number := chars.takeWhile (·.isDigit)
  match chars.drop number.length with
  | '>' :: '>' :: rest => some (number ++ ['>','>'],rest)
  | '>' :: '&' :: rest => some (number ++ ['>','&'],rest)
  | '>' :: rest => some (number ++ ['>'],rest)
  | _ => none

def assigned (chars : List Char) : Option (List Char × List Char) :=
  let name := chars.takeWhile isNameChar
  match name, chars.drop name.length with
  | c :: _, '=' :: rest => if c.isDigit then none else some (name,rest)
  | _, _ => none

mutual

/-- A word, or what is left of it, between double quotes or not. -/
def readWord : ℕ → Bool → List Char → Option (Word × List Char)
  | 0, _, _ => none
  | _ + 1, quoted, [] => if quoted then none else some (.done,[])
  | fuel + 1, quoted, '$' :: '(' :: rest =>
    match readScript fuel rest with
    | some (script,')' :: rest) => (readWord fuel quoted rest).map fun (word,rest) => (.output quoted script word,rest)
    | _ => none
  | fuel + 1, quoted, '$' :: '?' :: rest =>
    (readWord fuel quoted rest).map fun (word,rest) => (.param quoted ['?'] word,rest)
  | fuel + 1, quoted, '$' :: rest =>
    let name := rest.takeWhile isNameChar
    if name = [] then none
    else (readWord fuel quoted (rest.drop name.length)).map fun (word,rest) => (.param quoted name word,rest)
  | fuel + 1, true, chars =>
    let run := chars.takeWhile fun c => c ≠ '"' ∧ c ≠ '$' ∧ c ≠ '\\' ∧ c ≠ '`'
    match chars.drop run.length with
    | '"' :: rest => some (.text true run .done,'"' :: rest)
    | '$' :: rest => (readWord fuel true ('$' :: rest)).map fun (word,rest) => (.text true run word,rest)
    | _ => none
  | fuel + 1, false, '\'' :: rest =>
    let run := rest.takeWhile (· ≠ '\'')
    match rest.drop run.length with
    | _ :: rest => (readWord fuel false rest).map fun (word,rest) => (.text true run word,rest)
    | [] => none
  | fuel + 1, false, '"' :: rest =>
    match readWord fuel true rest with
    | some (inner,'"' :: rest) => (readWord fuel false rest).map fun (word,rest) => (inner.append word,rest)
    | _ => none
  | fuel + 1, false, c :: rest =>
    if isBlank c || isOperator c then some (.done,c :: rest)
    else if c = '\\' ∨ c = '`' then none
    else
      let run := rest.takeWhile fun c => ¬ (isBlank c || isOperator c) ∧ c ∉ ['$','\'','"','\\','`']
      (readWord fuel false (rest.drop run.length)).map fun (word,rest) => (.text false (c :: run) word,rest)

/-- What a simple command consists of; assignments stand in front of its first word. -/
def readElements : ℕ → Bool → List Char → Option (Elements × List Char)
  | 0, _, _ => none
  | fuel + 1, front, chars =>
    let chars := skip chars
    match redirection chars with
    | some (operator,rest) => do
      let (target,rest) ← readWord fuel false (skip rest)
      let (more,rest) ← readElements fuel front rest
      some (.redirect operator target more,rest)
    | none =>
      match chars with
      | [] => some (.done,[])
      | c :: _ =>
        if isOperator c then some (.done,chars)
        else
          match if front then assigned chars else none with
          | some (name,rest) => do
            let (value,rest) ← readWord fuel false rest
            let (more,rest) ← readElements fuel true rest
            some (.assign name value more,rest)
          | none => do
            let (word,rest) ← readWord fuel false chars
            let (more,rest) ← readElements fuel false rest
            some (.word word more,rest)

def readCommand : ℕ → List Char → Option (Script × List Char)
  | 0, _ => none
  | fuel + 1, chars =>
    match reserved "\x7b" chars, reserved "if" chars with
    | some rest, _ => do
      let (script,rest) ← readScript fuel rest
      let rest ← reserved "\x7d" rest
      let (redirections,rest) ← readElements fuel false rest
      some (.group script redirections,rest)
    | none, some rest => do
      let (test,rest) ← readScript fuel rest
      let rest ← reserved "then" rest
      let (script,rest) ← readScript fuel rest
      let rest ← reserved "fi" rest
      some (.cond test script,skip rest)
    | none, none => do
      let (elements,rest) ← readElements fuel true chars
      some (.simple elements,rest)

def readPipeline : ℕ → List Char → Option (Script × List Char)
  | 0, _ => none
  | fuel + 1, chars =>
    match reserved "!" (skip chars) with
    | some rest => (readPipeline fuel rest).map fun (script,rest) => (.not script,rest)
    | none => do
      let (left,rest) ← readCommand fuel (skip chars)
      match rest with
      | '|' :: '|' :: _ => some (left,rest)
      | '|' :: rest => do
        let (right,rest) ← readPipeline fuel rest
        some (.pipe left right,rest)
      | _ => some (left,rest)

def readOr : ℕ → List Char → Option (Script × List Char)
  | 0, _ => none
  | fuel + 1, chars => do
    let (left,rest) ← readPipeline fuel chars
    match rest with
    | '|' :: '|' :: rest => do
      let (right,rest) ← readOr fuel rest
      some (.or left right,rest)
    | _ => some (left,rest)

/-- A list of commands, up to what closes it. -/
def readScript : ℕ → List Char → Option (Script × List Char)
  | 0, _ => none
  | fuel + 1, chars =>
    if isClosing (skip chars) then some (.done,skip chars)
    else do
      let (first,rest) ← readOr fuel chars
      match rest with
      | ';' :: rest => do
        let (next,rest) ← readScript fuel rest
        some (.seq first next,rest)
      | _ => some (first,rest)

end

/-- A whole text that is a script. -/
def parse (chars : List Char) : Option Script :=
  match readScript (8 * chars.length + 8) chars with
  | some (script,[]) => some script
  | _ => none

/-! ## Carrying out -/

abbrev Bytes := List UInt8

/-- The bytes of a text. -/
def bytes (chars : List Char) : Bytes := Utf8.encode (String.ofList chars)

theorem bytes_injective {a b : List Char} (h : bytes a = bytes b) : a = b := by
  have htext := Utf8.encode_injective h
  rw [← String.toList_ofList (l := a),htext,String.toList_ofList]

theorem bytes_ne_nil {chars : List Char} (h : chars ≠ []) : bytes chars ≠ [] := fun hnil => h (bytes_injective hnil)

/-- A utility that is run, with what is on its standard input. -/
structure Run where
  argv : List Bytes
  input : Bytes
  deriving DecidableEq

/-- What a utility prints after earlier runs, and its exit status. -/
structure Host where
  utility : List Run → List Bytes → Bytes → Bytes × ℕ

structure State where
  vars : List Char → Bytes
  status : ℕ
  /-- The status of the last script whose output was taken. -/
  substituted : ℕ
  runs : List Run
  exited : Bool

def State.value (s : State) (name : List Char) : Bytes :=
  if name = ['?'] then bytes (toString s.status).toList else s.vars name

/-- What a script's output becomes in a word: without the newlines at its end, and without zero bytes. -/
def taken (output : Bytes) : Bytes := (output.filter (· ≠ 0)).rdropWhile (· = 10)

def isFieldBlank (b : UInt8) : Bool := b == 32 || b == 9 || b == 10

def Word.isQuoted : Word → Bool
  | .done => false
  | .text quoted _ more => quoted || more.isQuoted
  | .param quoted _ more => quoted || more.isQuoted
  | .output quoted _ more => quoted || more.isQuoted

/-- The fields of a word. Only what comes from an expansion that is not quoted is split. -/
def fields (word : Word) (marks : List (UInt8 × Bool)) : List Bytes :=
  let pieces := (marks.splitOnP fun mark => mark.2 && isFieldBlank mark.1).map (·.map Prod.fst)
  if word.isQuoted then pieces else pieces.filter (· ≠ [])

/-- What has been made of the elements of a command. -/
structure Parts where
  argv : List Bytes
  assigned : List (List Char × Bytes)
  hidden : Bool

def assign (assigned : List (List Char × Bytes)) (vars : List Char → Bytes) : List Char → Bytes :=
  assigned.foldl (fun vars (name,value) => Function.update vars name value) vars

def number (digits : Bytes) : ℕ := digits.foldl (fun n b => 10 * n + (b.toNat - 48)) 0

mutual

@[simp] def expand (host : Host) : Word → State → State × List (UInt8 × Bool)
  | .done, s => (s,[])
  | .text _ chars more, s => Prod.map id ((bytes chars).map (·,false) ++ ·) (expand host more s)
  | .param quoted name more, s => Prod.map id ((s.value name).map (·,! quoted) ++ ·) (expand host more s)
  | .output quoted script more, s =>
    let answer := carryOut host script [] s
    Prod.map id ((taken answer.2).map (·,! quoted) ++ ·)
      (expand host more { s with runs := answer.1.runs, substituted := answer.1.status })

@[simp] def elements (host : Host) : Elements → State → State × Parts
  | .done, s => (s,⟨[],[],false⟩)
  | .word word more, s =>
    let expanded := expand host word s
    Prod.map id (fun parts => { parts with argv := fields word expanded.2 ++ parts.argv })
      (elements host more expanded.1)
  | .assign name value more, s =>
    let expanded := expand host value s
    Prod.map id (fun parts => { parts with assigned := (name,expanded.2.map Prod.fst) :: parts.assigned })
      (elements host more expanded.1)
  | .redirect operator target more, s =>
    let expanded := expand host target s
    Prod.map id (fun parts => { parts with hidden := operator.head? ∈ [some '>',some '1'] || parts.hidden })
      (elements host more expanded.1)

@[simp] def carryOut (host : Host) : Script → Bytes → State → State × Bytes
  | .done, _, s => (s,[])
  | .simple es, input, s =>
    let answer := elements host es { s with substituted := 0 }
    match answer.2.argv with
    | [] =>
      ({ answer.1 with vars := assign answer.2.assigned answer.1.vars, status := answer.1.substituted },[])
    | name :: args =>
      if name = bytes "exit".toList then
        ({ answer.1 with exited := true, status := (args.head?.map number).getD s.status },[])
      else
        let printed := host.utility answer.1.runs (name :: args) input
        ({ answer.1 with runs := answer.1.runs ++ [⟨name :: args,input⟩], status := printed.2 },
          if answer.2.hidden then [] else printed.1)
  | .group script redirections, input, s =>
    let answer := elements host redirections s
    Prod.map id (fun output => if answer.2.hidden then [] else output) (carryOut host script input answer.1)
  | .cond test script, input, s =>
    let tested := carryOut host test input s
    if tested.1.exited then tested
    else if tested.1.status = 0 then Prod.map id (tested.2 ++ ·) (carryOut host script input tested.1)
    else ({ tested.1 with status := 0 },tested.2)
  | .not script, input, s =>
    Prod.map (fun s => { s with status := if s.status = 0 then 1 else 0 }) id (carryOut host script input s)
  | .pipe left right, input, s =>
    let first := carryOut host left input s
    let last := carryOut host right first.2 { s with runs := first.1.runs }
    ({ s with runs := last.1.runs, status := last.1.status },last.2)
  | .or left right, input, s =>
    let first := carryOut host left input s
    if first.1.exited ∨ first.1.status = 0 then first
    else Prod.map id (first.2 ++ ·) (carryOut host right input first.1)
  | .seq first next, input, s =>
    let answer := carryOut host first input s
    if answer.1.exited then answer else Prod.map id (answer.2 ++ ·) (carryOut host next input answer.1)

end

/-! ## Words and fields -/

section
variable {host : Host} {word : Word} {marks : List (UInt8 × Bool)} {chars name : List Char} {s s' : State}
  {es more : Elements} {parts : Parts} {argv args : List Bytes} {input head value : Bytes}

/-- Nothing is split where nothing comes from an expansion without quotes. -/
theorem fields_whole (h : ∀ mark ∈ marks, mark.2 = false) (hword : word.isQuoted = true ∨ marks ≠ []) :
    fields word marks = [marks.map Prod.fst] := by
  have hsplit : marks.splitOnP (fun mark => mark.2 && isFieldBlank mark.1) = [marks] := by
    apply List.splitOnP_eq_singleton
    intro mark hmark
    simp [h mark hmark]
  rw [fields,hsplit]
  rcases hword with hquoted | hne
  · simp [hquoted]
  · cases hquoted : word.isQuoted <;> simp [hne]

@[simp] theorem fst_marks (flag : Bool) (value : Bytes) : (value.map (·,flag)).map Prod.fst = value := by
  rw [List.map_map]
  exact List.map_id value

/-- A word that is one field and changes nothing. -/
structure Word.Is (host : Host) (word : Word) (s : State) (value : Bytes) : Prop where
  state : (expand host word s).1 = s
  whole : ∀ mark ∈ (expand host word s).2, mark.2 = false
  spells : (expand host word s).2.map Prod.fst = value
  shown : word.isQuoted = true ∨ value ≠ []

theorem Word.Is.fields (h : word.Is host s value) : fields word (expand host word s).2 = [value] := by
  rw [fields_whole h.whole,h.spells]
  refine h.shown.imp id fun hne hnil => hne ?_
  rw [← h.spells,hnil,List.map_nil]

theorem is_text (quoted : Bool) (h : quoted = true ∨ chars ≠ []) :
    (Word.text quoted chars .done).Is host s (bytes chars) := by
  constructor
  · rfl
  · simp [expand]
  · simp [expand,Function.comp_def]
  · exact h.imp (fun hquoted => by simp [Word.isQuoted,hquoted]) bytes_ne_nil

theorem is_param (hname : name ≠ ['?']) (h : s.vars name = value) :
    (Word.param true name (.text true [] .done)).Is host s value := by
  have hempty : bytes [] = [] := rfl
  have hvalue : s.value name = value := by rw [State.value,if_neg hname,h]
  constructor
  · rfl
  · simp [expand,hempty]
  · simp [expand,hempty,Function.comp_def,hvalue]
  · exact .inl rfl

theorem elements_word (h : word.Is host s value) : elements host (.word word more) s =
    Prod.map id (fun parts => { parts with argv := value :: parts.argv }) (elements host more s) := by
  rw [elements,h.state,h.fields]
  rfl

theorem elements_words {words : List Word} {values : List Bytes}
    (h : List.Forall₂ (fun word value => word.Is host s value) words values) :
    elements host (words.foldr Elements.word .done) s = (s,⟨values,[],false⟩) := by
  induction h with
  | nil => rfl
  | cons hword _ ih => rw [List.foldr_cons,elements_word hword,ih]; rfl

theorem carryOut_utility (h : elements host es { s with substituted := 0 } = (s',parts))
    (hargv : parts.argv = head :: args) (hexit : head ≠ bytes "exit".toList) :
    carryOut host (.simple es) input s =
      ({ s' with
          runs := s'.runs ++ [⟨head :: args,input⟩]
          status := (host.utility s'.runs (head :: args) input).2 },
        if parts.hidden then [] else (host.utility s'.runs (head :: args) input).1) := by
  rw [carryOut,h]
  simp only [hargv,if_neg hexit]

theorem carryOut_assign {assigned : List (List Char × Bytes)}
    (h : elements host es { s with substituted := 0 } = (s',⟨[],assigned,false⟩)) :
    carryOut host (.simple es) input s =
      ({ s' with vars := assign assigned s'.vars, status := s'.substituted },[]) := by
  rw [carryOut,h]

theorem carryOut_pipe {left right : Script} {last : State} {printed output : Bytes}
    (hleft : carryOut host left input s = (s',printed))
    (hright : carryOut host right printed { s with runs := s'.runs } = (last,output)) :
    carryOut host (.pipe left right) input s = ({ s with runs := last.runs, status := last.status },output) := by
  rw [carryOut,hleft]
  simp only [hright]

end

/-! ## Scripts that disturb nothing -/

/-- Names, and a utility, that are to be left alone. -/
structure Watch where
  names : List (List Char)
  utility : List Char

/-- The calls of the utility that is watched. -/
def Watch.calls (watch : Watch) (runs : List Run) : List (List Bytes) :=
  (runs.map Run.argv).filter fun argv => argv.head? = some (bytes watch.utility)

/-- The first word of a command. -/
def Elements.first : Elements → Option Word
  | .done => none
  | .word w _ => some w
  | .assign _ _ more => more.first
  | .redirect _ _ more => more.first

/-- The command assigns only, or its name is there to see: it is neither `exit` nor the utility that is watched. -/
def Elements.isOther (watch : Watch) (es : Elements) : Bool :=
  match es.first with
  | none => true
  | some (.text _ chars .done) =>
    chars ≠ [] && chars ≠ watch.utility && chars ≠ "exit".toList
  | some _ => false

mutual

def Word.isQuiet (watch : Watch) : Word → Bool
  | .done => true
  | .text _ _ more => more.isQuiet watch
  | .param _ _ more => more.isQuiet watch
  | .output _ script more => script.isQuiet watch && more.isQuiet watch

def Elements.isQuiet (watch : Watch) : Elements → Bool
  | .done => true
  | .word w more => w.isQuiet watch && more.isQuiet watch
  | .assign name value more => name ∉ watch.names && value.isQuiet watch && more.isQuiet watch
  | .redirect _ target more => target.isQuiet watch && more.isQuiet watch

def Script.isQuiet (watch : Watch) : Script → Bool
  | .done => true
  | .simple es => es.isQuiet watch && es.isOther watch
  | .group script redirections => script.isQuiet watch && redirections.isQuiet watch
  | .cond test script => test.isQuiet watch && script.isQuiet watch
  | .not script => script.isQuiet watch
  | .pipe left right => left.isQuiet watch && right.isQuiet watch
  | .or left right => left.isQuiet watch && right.isQuiet watch
  | .seq first next => first.isQuiet watch && next.isQuiet watch

end

/-- Nothing that is watched differs. -/
structure Undisturbed (watch : Watch) (s s' : State) : Prop where
  vars : ∀ name ∈ watch.names, s'.vars name = s.vars name
  calls : watch.calls s'.runs = watch.calls s.runs
  exited : s'.exited = s.exited

section
variable {host : Host} {watch : Watch} {s s' t : State} {es : Elements} {chars : List Char}

theorem Undisturbed.refl (s : State) : Undisturbed watch s s := ⟨fun _ _ => rfl,rfl,rfl⟩

theorem Undisturbed.trans (h : Undisturbed watch s s') (h' : Undisturbed watch s' t) : Undisturbed watch s t where
  vars name hname := (h'.vars name hname).trans (h.vars name hname)
  calls := h'.calls.trans h.calls
  exited := h'.exited.trans h.exited

theorem assign_other {assigned : List (List Char × Bytes)} {name : List Char}
    (h : ∀ a ∈ assigned, a.1 ≠ name) (vars : List Char → Bytes) : assign assigned vars name = vars name := by
  induction assigned generalizing vars with
  | nil => rfl
  | cons a assigned ih =>
    have hrest := ih (fun b hb => h b (List.mem_cons_of_mem a hb)) (Function.update vars a.1 a.2)
    have hne : name ≠ a.1 := (h a List.mem_cons_self).symm
    exact hrest.trans (Function.update_of_ne hne _ _)

/-- A command without words is no call, and one whose first word is a text has it as its name. -/
theorem argv_of_first (host : Host) : (es : Elements) → ∀ s, (es.first = none → (elements host es s).2.argv = []) ∧
    ∀ quoted chars, es.first = some (.text quoted chars .done) → chars ≠ [] →
      ∃ args, (elements host es s).2.argv = bytes chars :: args
  | .done, _ => ⟨fun _ => rfl,fun _ _ h => by cases h⟩
  | .word word more, s => by
    constructor
    · intro h
      cases h
    · intro quoted chars h hne
      cases h
      rw [elements_word (is_text quoted (.inr hne))]
      exact ⟨_,rfl⟩
  | .assign name value more, s => by
    exact argv_of_first host more _
  | .redirect operator target more, s => by
    exact argv_of_first host more _

theorem calls_other (runs : List Run) {run : Run} (h : run.argv.head? ≠ some (bytes watch.utility)) :
    watch.calls (runs ++ [run]) = watch.calls runs := by
  simp [Watch.calls,h]

theorem calls_watched (runs : List Run) {run : Run} (h : run.argv.head? = some (bytes watch.utility)) :
    watch.calls (runs ++ [run]) = watch.calls runs ++ [run.argv] := by
  simp [Watch.calls,h]

mutual

theorem quiet_word : (word : Word) → word.isQuiet watch = true → ∀ s, Undisturbed watch s (expand host word s).1
  | .done, _, s => .refl s
  | .text _ _ more, h, s => quiet_word more h s
  | .param _ _ more, h, s => quiet_word more h s
  | .output _ script more, h, s => by
    have ⟨hscript,hmore⟩ := (Bool.and_eq_true _ _).mp h
    have hinner := quiet_script script hscript [] s
    rw [expand]
    refine Undisturbed.trans ?_ (quiet_word more hmore _)
    exact ⟨fun _ _ => rfl,hinner.calls,rfl⟩

theorem quiet_elements : (es : Elements) → es.isQuiet watch = true → ∀ s,
    Undisturbed watch s (elements host es s).1 ∧ ∀ a ∈ (elements host es s).2.assigned, a.1 ∉ watch.names
  | .done, _, s => ⟨.refl s,fun _ h => by cases h⟩
  | .word word more, h, s => by
    have ⟨hword,hmore⟩ := (Bool.and_eq_true _ _).mp h
    have hrest := quiet_elements more hmore (expand host word s).1
    rw [elements]
    exact ⟨(quiet_word word hword s).trans hrest.1,hrest.2⟩
  | .assign name value more, h, s => by
    have ⟨hfirst,hmore⟩ := (Bool.and_eq_true _ _).mp h
    have ⟨hname,hvalue⟩ := (Bool.and_eq_true _ _).mp hfirst
    have hrest := quiet_elements more hmore (expand host value s).1
    rw [elements]
    refine ⟨(quiet_word value hvalue s).trans hrest.1,fun a ha => ?_⟩
    rcases List.mem_cons.mp ha with rfl | ha
    · exact of_decide_eq_true hname
    · exact hrest.2 a ha
  | .redirect _ target more, h, s => by
    have ⟨htarget,hmore⟩ := (Bool.and_eq_true _ _).mp h
    have hrest := quiet_elements more hmore (expand host target s).1
    rw [elements]
    exact ⟨(quiet_word target htarget s).trans hrest.1,hrest.2⟩

theorem quiet_script : (script : Script) → script.isQuiet watch = true → ∀ input s,
    Undisturbed watch s (carryOut host script input s).1
  | .done, _, _, s => .refl s
  | .simple es, h, input, s => by
    have ⟨hes,hother⟩ := (Bool.and_eq_true _ _).mp h
    have hafter := quiet_elements es hes { s with substituted := 0 }
    have hargv := argv_of_first host es { s with substituted := 0 }
    rw [Elements.isOther] at hother
    split at hother
    · rename_i hfirst
      rw [carryOut,hargv.1 hfirst]
      refine ⟨fun name hname => ?_,hafter.1.calls,hafter.1.exited⟩
      exact (assign_other (fun a ha hsame => hafter.2 a ha (hsame ▸ hname)) _).trans (hafter.1.vars name hname)
    · rename_i quoted chars hfirst
      simp only [Bool.and_eq_true,decide_eq_true_eq] at hother
      have ⟨⟨hne,hwatched⟩,hexit⟩ := hother
      have ⟨args,heq⟩ := hargv.2 quoted chars hfirst hne
      rw [carryOut_utility rfl heq fun hsame => hexit (bytes_injective hsame)]
      refine ⟨hafter.1.vars,Eq.trans ?_ hafter.1.calls,hafter.1.exited⟩
      exact calls_other _ fun hhead => hwatched (bytes_injective (Option.some.inj hhead))
    · cases hother
  | .group script redirections, h, input, s => by
    have ⟨hscript,hredirections⟩ := (Bool.and_eq_true _ _).mp h
    rw [carryOut]
    exact (quiet_elements redirections hredirections s).1.trans (quiet_script script hscript input _)
  | .cond test script, h, input, s => by
    have ⟨htest,hscript⟩ := (Bool.and_eq_true _ _).mp h
    have htested := quiet_script test htest input s
    rw [carryOut]
    split_ifs
    · exact htested
    · exact htested.trans (quiet_script script hscript input _)
    · exact ⟨htested.vars,htested.calls,htested.exited⟩
  | .not script, h, input, s => by
    have hafter := quiet_script script h input s
    rw [carryOut]
    exact ⟨hafter.vars,hafter.calls,hafter.exited⟩
  | .pipe left right, h, input, s => by
    have ⟨hleft,hright⟩ := (Bool.and_eq_true _ _).mp h
    have hfirst := quiet_script left hleft input s
    rw [carryOut]
    exact ⟨fun _ _ => rfl,(quiet_script right hright _ _).calls.trans hfirst.calls,rfl⟩
  | .or left right, h, input, s => by
    have ⟨hleft,hright⟩ := (Bool.and_eq_true _ _).mp h
    have hfirst := quiet_script left hleft input s
    rw [carryOut]
    split_ifs
    · exact hfirst
    · exact hfirst.trans (quiet_script right hright input _)
  | .seq first next, h, input, s => by
    have ⟨hfirst,hnext⟩ := (Bool.and_eq_true _ _).mp h
    have hafter := quiet_script first hfirst input s
    rw [carryOut]
    split_ifs
    · exact hafter
    · exact hafter.trans (quiet_script next hnext input _)

end

end

/-! ## Before and after -/

/-- What holds before a script holds after it of the state that it leaves. -/
def Leads (host : Host) (P : State → Prop) (script : Script) (Q : State → Prop) : Prop :=
  ∀ input s, P s → Q (carryOut host script input s).1

section
variable {host : Host} {P Q R : State → Prop} {a b : Script} {redirections : Elements}

theorem leads_quiet {watch : Watch} (ha : a.isQuiet watch = true)
    (h : ∀ s s', Undisturbed watch s s' → P s → Q s') : Leads host P a Q :=
  fun input s hs => h s _ (quiet_script a ha input s) hs

theorem leads_seq (ha : Leads host P a R) (hgoes : ∀ s, R s → s.exited = false) (hb : Leads host R b Q) :
    Leads host P (.seq a b) Q := by
  intro input s hs
  have hafter := ha input s hs
  rw [carryOut,hgoes _ hafter]
  exact hb input _ hafter

theorem leads_group (hredirect : ∀ s, P s → P (elements host redirections s).1) (ha : Leads host P a Q) :
    Leads host P (.group a redirections) Q := fun input s hs => ha input _ (hredirect s hs)

end

end Mxterm.ShellScripts
