import Mathlib.Data.List.Basic

/-! The arguments of a program: options, some of them with a value in the argument that follows, and operands. -/
namespace Mxterm.CommandOptions

/-- What a program's options are like. -/
structure Grammar where
  /-- The option is followed by its value. -/
  takesValue : String → Bool
  /-- There may be options behind an operand. -/
  interspersed : Bool

structure Arguments where
  options : List (String × Option String)
  operands : List String
  deriving DecidableEq

namespace Arguments

def withOptions (options : List (String × Option String)) (arguments : Arguments) : Arguments :=
  { arguments with options := options ++ arguments.options }

def withOperand (operand : String) (arguments : Arguments) : Arguments :=
  { arguments with operands := operand :: arguments.operands }

/-- The values that an option has been given. -/
def values (arguments : Arguments) (option : String) : List String :=
  arguments.options.filterMap fun given => if given.1 = option then given.2 else none

@[simp] theorem withOptions_nil (arguments : Arguments) : arguments.withOptions [] = arguments := rfl

theorem withOptions_withOptions (a b : List (String × Option String)) (arguments : Arguments) :
    (arguments.withOptions b).withOptions a = arguments.withOptions (a ++ b) := by
  simp [withOptions]

end Arguments

def isOption (argument : String) : Bool := argument.toList.head? == some '-'

def parse (g : Grammar) : List String → Option Arguments
  | [] => some ⟨[],[]⟩
  | [argument] =>
    if isOption argument then
      if g.takesValue argument then none else some ⟨[(argument,none)],[]⟩
    else some ⟨[],[argument]⟩
  | argument :: next :: rest =>
    if isOption argument then
      if g.takesValue argument then (parse g rest).map (.withOptions [(argument,some next)])
      else (parse g (next :: rest)).map (.withOptions [(argument,none)])
    else if g.interspersed then (parse g (next :: rest)).map (.withOperand argument)
    else some ⟨[],argument :: next :: rest⟩

/-- Options as they are written. -/
def write (options : List (String × Option String)) : List String :=
  options.flatMap fun option => option.1 :: option.2.toList

variable {g : Grammar} {options : List (String × Option String)} {argument : String} {rest : List String}
  {arguments : Arguments}

/-- What the program reads as an option with this value, or without one. -/
def Written (g : Grammar) (option : String × Option String) : Prop :=
  isOption option.1 = true ∧ g.takesValue option.1 = option.2.isSome

theorem parse_nil : parse g [] = some ⟨[],[]⟩ := rfl

theorem parse_single (argument : String) : parse g [argument] =
    if isOption argument then
      if g.takesValue argument then none else some ⟨[(argument,none)],[]⟩
    else some ⟨[],[argument]⟩ := rfl

theorem parse_cons_cons (argument next : String) (rest : List String) : parse g (argument :: next :: rest) =
    if isOption argument then
      if g.takesValue argument then (parse g rest).map (.withOptions [(argument,some next)])
      else (parse g (next :: rest)).map (.withOptions [(argument,none)])
    else if g.interspersed then (parse g (next :: rest)).map (.withOperand argument)
    else some ⟨[],argument :: next :: rest⟩ := rfl

theorem parse_flag (h : isOption argument = true) (hflag : g.takesValue argument = false) (rest : List String) :
    parse g (argument :: rest) = (parse g rest).map (.withOptions [(argument,none)]) := by
  cases rest with
  | nil => simp [parse_nil,parse_single,h,hflag,Arguments.withOptions]
  | cons next rest => simp [parse_cons_cons,h,hflag]

theorem parse_written {option : String × Option String} (h : Written g option) (rest : List String) :
    parse g (option.1 :: (option.2.toList ++ rest)) = (parse g rest).map (.withOptions [option]) := by
  obtain ⟨name,value⟩ := option
  cases value with
  | none => exact parse_flag h.1 h.2 rest
  | some value =>
    have hvalue : g.takesValue name = true := h.2
    have hname : isOption name = true := h.1
    simp [parse_cons_cons,hname,hvalue]

/-- Options that are written are read again, in front of what follows them. -/
theorem parse_write (h : ∀ option ∈ options, Written g option) (rest : List String) :
    parse g (write options ++ rest) = (parse g rest).map (.withOptions options) := by
  induction options with
  | nil => cases h : parse g rest <;> simp [write,h]
  | cons option options ih =>
    obtain ⟨hoption,hoptions⟩ := List.forall_mem_cons.mp h
    have hwrite : write (option :: options) ++ rest = option.1 :: (option.2.toList ++ (write options ++ rest)) := by
      simp [write]
    rw [hwrite,parse_written hoption,ih hoptions,Option.map_map]
    simp only [Function.comp_def,Arguments.withOptions_withOptions,List.singleton_append]

theorem parse_operands (hfirst : g.interspersed = false) (h : isOption argument = false) (rest : List String) :
    parse g (argument :: rest) = some ⟨[],argument :: rest⟩ := by
  cases rest <;> simp [parse_single,parse_cons_cons,h,hfirst]

/-- An operand is never what an option looks like, unless it stands behind the first. -/
theorem not_isOption_of_parse {args : List String} (h : parse g args = some arguments) :
    ∀ operand ∈ arguments.operands.head?, isOption operand = false := by
  fun_induction parse g args generalizing arguments with
  | case1 => simp [← Option.some.inj h]
  | case2 argument hoption hvalue => cases h
  | case3 argument hoption hvalue => simp [← Option.some.inj h]
  | case4 argument hoption => simpa [← Option.some.inj h] using hoption
  | case5 argument next rest hoption hvalue ih =>
    obtain ⟨left,hleft,rfl⟩ := Option.map_eq_some_iff.mp h
    exact (ih hleft :)
  | case6 argument next rest hoption hvalue ih =>
    obtain ⟨left,hleft,rfl⟩ := Option.map_eq_some_iff.mp h
    exact (ih hleft :)
  | case7 argument next rest hoption hinterspersed ih =>
    obtain ⟨left,hleft,rfl⟩ := Option.map_eq_some_iff.mp h
    simpa [Arguments.withOperand] using hoption
  | case8 argument next rest hoption hinterspersed => simpa [← Option.some.inj h] using hoption

theorem mem_of_mem_operands {args : List String} (h : parse g args = some arguments) :
    ∀ operand ∈ arguments.operands, operand ∈ args := by
  fun_induction parse g args generalizing arguments with
  | case1 => simp [← Option.some.inj h]
  | case2 argument hoption hvalue => cases h
  | case3 | case4 => simp [← Option.some.inj h]
  | case5 argument next rest hoption hvalue ih =>
    obtain ⟨left,hleft,rfl⟩ := Option.map_eq_some_iff.mp h
    intro operand hoperand
    exact List.mem_cons_of_mem _ (List.mem_cons_of_mem _ (ih hleft operand hoperand))
  | case6 argument next rest hoption hvalue ih =>
    obtain ⟨left,hleft,rfl⟩ := Option.map_eq_some_iff.mp h
    intro operand hoperand
    exact List.mem_cons_of_mem _ (ih hleft operand hoperand)
  | case7 argument next rest hoption hinterspersed ih =>
    obtain ⟨left,hleft,rfl⟩ := Option.map_eq_some_iff.mp h
    intro operand hoperand
    cases List.mem_cons.mp hoperand with
    | inl hfirst => exact hfirst ▸ List.mem_cons_self
    | inr hrest => exact List.mem_cons_of_mem _ (ih hleft operand hrest)
  | case8 argument next rest hoption hinterspersed => simp [← Option.some.inj h]

/-- Where an option stands in front, there is one. -/
theorem options_of_isOption (h : isOption argument = true) (hparse : parse g (argument :: rest) = some arguments) :
    arguments.options ≠ [] := by
  cases rest with
  | nil =>
    simp only [parse_single,h,if_true] at hparse
    split at hparse
    · cases hparse
    · simp [← Option.some.inj hparse]
  | cons next rest =>
    simp only [parse_cons_cons,h,if_true] at hparse
    split at hparse <;>
    · obtain ⟨left,-,rfl⟩ := Option.map_eq_some_iff.mp hparse
      simp [Arguments.withOptions]

/-- One operand is read as it is where it is no option. -/
theorem parse_one_iff (a b : String) : parse g [a] = some ⟨[],[b]⟩ ↔ a = b ∧ isOption a = false := by
  cases ha : isOption a <;> simp [parse_single,ha]

theorem parse_two_iff (a b c d : String) : parse g [a,b] = some ⟨[],[c,d]⟩ ↔
    (a = c ∧ b = d) ∧ isOption a = false ∧ (g.interspersed = true → isOption b = false) := by
  have hoperand (arguments : Arguments) :
      arguments.withOperand a = ⟨[],[c,d]⟩ ↔ a = c ∧ arguments = ⟨[],[d]⟩ := by
    cases arguments
    simp [Arguments.withOperand]
    tauto
  cases ha : isOption a with
  | true => exact iff_of_false (fun h => options_of_isOption ha h rfl) (by simp)
  | false =>
    cases hinterspersed : g.interspersed with
    | false => simp [parse_cons_cons,ha,hinterspersed]
    | true =>
      rw [parse_cons_cons,ha,if_neg Bool.false_ne_true,hinterspersed,if_pos rfl]
      simp only [Option.map_eq_some_iff,hoperand]
      constructor
      · rintro ⟨arguments,hparse,hac,rfl⟩
        obtain ⟨hbd,hb⟩ := (parse_one_iff b d).mp hparse
        exact ⟨⟨hac,hbd⟩,trivial,fun _ => hb⟩
      · rintro ⟨⟨hac,hbd⟩,-,hb⟩
        exact ⟨_,(parse_one_iff b d).mpr ⟨hbd,hb trivial⟩,hac,rfl⟩

end Mxterm.CommandOptions
