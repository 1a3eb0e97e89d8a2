import Mxterm.PathnamePatterns
import Mxterm.ShellScripts
import Mxterm.ShellWords

/-! Shell programs with tests, choices and a loop over the files that patterns name: how a program is written, and
what it prints on a host. Every parameter stands between double quotes or is an assigned value, so that none of
them is split. -/
namespace Mxterm.ShellPrograms

open PathnamePatterns (Pattern expand)
open ShellScripts (Bytes bytes)

abbrev Name := List Char

/-! ## Hosts -/

inductive Plain
  | directory
  | regular
  | other
  deriving DecidableEq

/-- What a path names, and where a link leads in the end. -/
inductive Node
  | plain (kind : Plain)
  | link (target : Option Plain)
  deriving DecidableEq

def Node.followed : Node → Option Plain
  | .plain kind => some kind
  | .link target => target

structure Host where
  node : Bytes → Option Node
  /-- The names in a directory, those of itself and its parent included, in the order of the host's locale. -/
  names : Bytes → List Bytes

/-! ## Programs -/

inductive Operator
  | present
  | link
  | directory
  | regular
  deriving DecidableEq

def Operator.letter : Operator → Char
  | .present => 'e'
  | .link => 'L'
  | .directory => 'd'
  | .regular => 'f'

def Operator.holds : Operator → Option Node → Bool
  | .present, node => (node.bind Node.followed).isSome
  | .link, node => match node with
    | some (.link _) => true
    | _ => false
  | .directory, node => node.bind Node.followed == some .directory
  | .regular, node => node.bind Node.followed == some .regular

structure Test where
  negated : Bool
  operator : Operator
  name : Name

/-- An assigned value. -/
inductive Value
  | plain (chars : List Char)
  | single (chars : List Char)
  | param (name : Name)
  /-- What stands after the last slash. -/
  | baseName (name : Name)

mutual

inductive Command
  | assign (name : Name) (value : Value)
  | test (t : Test)
  | orElse (a b : Command)
  /-- `continue` -/
  | next
  | exit (status : ℕ)
  /-- Each parameter, with a zero byte behind it. -/
  | print (names : List Name)
  /-- A message with a parameter at its end, on the standard error. -/
  | complain (message : List Char) (name : Name)
  | seq (a b : Command)
  | choose (t : Test) (yes : Command) (more : Branches)
  | case (name : Name) (word : List Char) (yes no : Command)
  /-- A loop over the files that patterns name in a folder. -/
  | each (name folder : Name) (patterns : List Pattern) (body : Command)

inductive Branches
  | done
  | last (no : Command)
  | elif (t : Test) (yes : Command) (more : Branches)

end

/-! ## How a program is written -/

def quotedParam (name : Name) : List Char := "\"$".toList ++ name ++ ['"']

def Value.text : Value → List Char
  | .plain chars => chars
  | .single chars => '\'' :: (ShellWords.escapeQuotes chars ++ ['\''])
  | .param name => '$' :: name
  | .baseName name => ['$','\x7b'] ++ name ++ ['#','#','*','/','\x7d']

def Test.text (t : Test) : List Char :=
  "[ ".toList ++ (if t.negated then "! ".toList else []) ++ ['-',t.operator.letter,' '] ++ quotedParam t.name ++
    " ]".toList

/-- A pattern in a folder. -/
def patternText (folder : Name) (pattern : Pattern) : List Char :=
  quotedParam folder ++ ['/'] ++ (PathnamePatterns.text pattern).map fun b => Char.ofNat b.toNat

mutual

def Command.text : Command → List Char
  | .assign name value => name ++ ['='] ++ value.text
  | .test t => t.text
  | .orElse a b => a.text ++ " || ".toList ++ b.text
  | .next => "continue".toList
  | .exit status => "exit ".toList ++ (toString status).toList
  | .print names => "printf '".toList ++ (names.flatMap fun _ => "%s\\000".toList) ++ ['\''] ++
      names.flatMap fun name => ' ' :: quotedParam name
  | .complain message name => "printf '%s\\n' \"".toList ++ message ++ ['$'] ++ name ++ "\" >&2".toList
  | .seq a b => a.text ++ "; ".toList ++ b.text
  | .choose t yes more => "if ".toList ++ t.text ++ "; then ".toList ++ yes.text ++ more.text ++ "; fi".toList
  | .case name word yes no => "case ".toList ++ quotedParam name ++ " in ".toList ++ word ++ ") ".toList ++ yes.text ++
      " ;; *) ".toList ++ no.text ++ " ;; esac".toList
  | .each name folder patterns body => "for ".toList ++ name ++ " in".toList ++
      (patterns.flatMap fun pattern => ' ' :: patternText folder pattern) ++ "; do ".toList ++ body.text ++
      "; done".toList

def Branches.text : Branches → List Char
  | .done => []
  | .last no => "; else ".toList ++ no.text
  | .elif t yes more => "; elif ".toList ++ t.text ++ "; then ".toList ++ yes.text ++ more.text

end

theorem Command.text_assign (name : Name) (value : Value) :
    (Command.assign name value).text = name ++ ['='] ++ value.text := rfl

theorem Command.text_seq (a b : Command) : (Command.seq a b).text = a.text ++ "; ".toList ++ b.text := rfl

/-! ## What a program does -/

structure State where
  vars : Name → Bytes
  output : Bytes
  errors : Bytes
  status : ℕ

/-- Where the shell goes on. -/
inductive Flow
  | on
  /-- With the next file of the loop. -/
  | next
  | left
  deriving DecidableEq

def slash : UInt8 := 47

def Value.bytes (vars : Name → Bytes) : Value → Bytes
  | .plain chars => ShellScripts.bytes chars
  | .single chars => ShellScripts.bytes chars
  | .param name => vars name
  | .baseName name => (vars name).rtakeWhile (· ≠ slash)

def State.assign (s : State) (name : Name) (value : Bytes) : State :=
  { s with vars := Function.update s.vars name value, status := 0 }

@[simp] theorem State.assign_same (s : State) (name : Name) (value : Bytes) : (s.assign name value).vars name = value :=
  Function.update_self _ _ _

theorem State.assign_other (s : State) {name other : Name} (h : other ≠ name) (value : Bytes) :
    (s.assign name value).vars other = s.vars other := Function.update_of_ne h _ _

@[simp] theorem State.assign_output (s : State) (name : Name) (value : Bytes) :
    (s.assign name value).output = s.output := rfl

@[simp] theorem State.assign_status (s : State) (name : Name) (value : Bytes) : (s.assign name value).status = 0 := rfl

def State.print (s : State) (printed : Bytes) : State := { s with output := s.output ++ printed, status := 0 }

def Test.holds (host : Host) (s : State) (t : Test) : Bool :=
  t.negated != t.operator.holds (host.node (s.vars t.name))

def record (values : List Bytes) : Bytes := values.flatMap (· ++ [0])

/-- The files that patterns name in a folder. -/
def files (host : Host) (folder : Bytes) (patterns : List Pattern) : List Bytes :=
  patterns.flatMap fun pattern => (expand (host.names (folder ++ [slash])) pattern).map (folder ++ slash :: ·)

def loop (name : Name) (body : State → State × Flow) : List Bytes → State → State × Flow
  | [], s => (s,.on)
  | file :: more, s =>
    match body (s.assign name file) with
    | (s',.left) => (s',.left)
    | (s',_) => loop name body more s'

mutual

@[simp] def Command.run (host : Host) : Command → State → State × Flow
  | .assign name value, s => (s.assign name (value.bytes s.vars),.on)
  | .test t, s => ({ s with status := if t.holds host s then 0 else 1 },.on)
  | .orElse a b, s =>
    let first := a.run host s
    if first.2 = .on ∧ first.1.status ≠ 0 then b.run host first.1 else first
  | .next, s => ({ s with status := 0 },.next)
  | .exit status, s => ({ s with status := status },.left)
  | .print names, s => (s.print (record (names.map s.vars)),.on)
  | .complain message name, s =>
    ({ s with errors := s.errors ++ bytes message ++ s.vars name ++ [10], status := 0 },.on)
  | .seq a b, s =>
    let first := a.run host s
    if first.2 = .on then b.run host first.1 else first
  | .choose t yes more, s => if t.holds host s then yes.run host s else more.run host s
  | .case name word yes no, s => if s.vars name = bytes word then yes.run host s else no.run host s
  | .each name folder patterns body, s =>
    loop name (body.run host) (files host (s.vars folder) patterns) { s with status := 0 }

@[simp] def Branches.run (host : Host) : Branches → State → State × Flow
  | .done, s => ({ s with status := 0 },.on)
  | .last no, s => no.run host s
  | .elif t yes more, s => if t.holds host s then yes.run host s else more.run host s

end

/-- A program in a new shell. -/
def start : State := ⟨fun _ => [],[],[],0⟩

section
variable {host : Host} {a b : Command} {s t : State} {flow : Flow}

theorem run_seq_on (h : a.run host s = (t,.on)) : (Command.seq a b).run host s = b.run host t := by
  simp [h]

theorem run_seq_stops (h : a.run host s = (t,flow)) (hflow : flow ≠ .on) :
    (Command.seq a b).run host s = (t,flow) := by
  simp [h,hflow]

end

/-! ## Loops -/

section
variable {name : Name} {body : State → State × Flow} {inv : State → Prop} {printed : Bytes → Bytes}

/-- What each round prints is printed once for each file, in their order. -/
theorem loop_prints (hbody : ∀ s file, inv s → ∃ s' flow, body (s.assign name file) = (s',flow) ∧ flow ≠ .left ∧
      s'.output = s.output ++ printed file ∧ inv s') (files : List Bytes) {s : State} (hs : inv s) :
    ∃ s', loop name body files s = (s',.on) ∧ s'.output = s.output ++ files.flatMap printed ∧ inv s' := by
  induction files generalizing s with
  | nil => exact ⟨s,rfl,by simp,hs⟩
  | cons file more ih =>
    obtain ⟨t,flow,hround,hflow,houtput,ht⟩ := hbody s file hs
    obtain ⟨s',hmore,houtput',hs'⟩ := ih ht
    refine ⟨s',?_,by rw [houtput',houtput,List.flatMap_cons,List.append_assoc],hs'⟩
    rw [loop,hround]
    cases flow with
    | left => contradiction
    | on | next => exact hmore

end

end Mxterm.ShellPrograms
