import Mxterm.TelnetStreams

/-! Two Telnet parsers that answer each other, and whether the negotiation of the options comes to rest. -/
namespace Mxterm.Telnet

open List

structure Command where
  verb : Verb
  option : UInt8
  deriving DecidableEq

namespace Command

def item (c : Command) : Item := .command c.verb c.option

/-- The command that `handle_command` answers with. -/
def answer : Command → Option Command
  | ⟨.will,option⟩ =>
    if option = ECHO ∨ option = SUPPRESS_GO_AHEAD then some ⟨.do,option⟩ else some ⟨.dont,option⟩
  | ⟨.do,option⟩ =>
    if option = NAWS ∨ option = SUPPRESS_GO_AHEAD then some ⟨.will,option⟩ else some ⟨.wont,option⟩
  | _ => none

/-- It is about the go-aheads, and wants an answer. -/
def Repeats (c : Command) : Prop := (c.verb = .will ∨ c.verb = .do) ∧ c.option = SUPPRESS_GO_AHEAD

/-- How many commands follow on one that does not repeat. -/
def followers : Command → ℕ
  | ⟨.will,option⟩ => if option = ECHO then 2 else 1
  | ⟨.do,option⟩ => if option = NAWS then 2 else 1
  | _ => 0

theorem answer_eq_none (c : Command) : c.answer = none ↔ c.verb = .wont ∨ c.verb = .dont := by
  obtain ⟨verb,option⟩ := c
  cases verb <;> simp [answer] <;> split_ifs <;> simp

variable {c : Command}

theorem answer_of_repeats (h : c.Repeats) : ∃ c', c.answer = some c' ∧ c'.Repeats := by
  obtain ⟨verb,option⟩ := c
  obtain ⟨hverb,rfl⟩ := h
  cases verb <;> simp [answer,Repeats] at hverb ⊢

theorem not_repeats_of_answer {c' : Command} (h : ¬ c.Repeats) (hanswer : c.answer = some c') : ¬ c'.Repeats := by
  obtain ⟨verb,option⟩ := c
  cases verb with
  | will =>
    rw [answer] at hanswer
    split_ifs at hanswer <;> obtain rfl := Option.some.inj hanswer <;> simp_all [Repeats]
  | «do» =>
    rw [answer] at hanswer
    split_ifs at hanswer <;> obtain rfl := Option.some.inj hanswer <;> simp_all [Repeats]
  | wont | dont => cases hanswer

/-- An answer is followed by one command less. -/
theorem followers_answer (h : ¬ c.Repeats) : c.followers = (c.answer.toList.map fun c' => c'.followers + 1).sum := by
  obtain ⟨verb,option⟩ := c
  cases verb <;> simp only [answer,followers,Repeats] at h ⊢
  · have hne : option ≠ SUPPRESS_GO_AHEAD := by simpa using h
    by_cases hecho : option = ECHO
    · subst hecho
      decide
    · simp [hecho,hne]
  · rfl
  · have hne : option ≠ SUPPRESS_GO_AHEAD := by simpa using h
    by_cases hnaws : option = NAWS
    · subst hnaws
      decide
    · simp [hnaws,hne]
  · rfl

end Command

/-! ## What is sent -/

def Item.command? : Item → Option Command
  | .command verb option => some ⟨verb,option⟩
  | _ => none

/-- The reply to a command holds its answer, and no other command. -/
theorem handleCommand_answer (cols rows : UInt16) (c : Command) :
    ∃ items, encode items = handleCommand cols rows c.verb.code c.option ∧
      items.filterMap Item.command? = c.answer.toList := by
  obtain ⟨verb,option⟩ := c
  cases verb with
  | will =>
    by_cases h : option = ECHO ∨ option = SUPPRESS_GO_AHEAD
    · exact ⟨[.command .do option],by simp [handleCommand,h,Item.bytes,Verb.code],
        by simp [Command.answer,h,Item.command?]⟩
    · exact ⟨[.command .dont option],by simp [handleCommand,h,Item.bytes,Verb.code],
        by simp [Command.answer,h,Item.command?]⟩
  | wont => exact ⟨[],by simp [handleCommand,Verb.code,WONT,WILL,DO],rfl⟩
  | «do» =>
    have hdo : DO ≠ WILL := by decide
    by_cases hnaws : option = NAWS
    · subst hnaws
      refine ⟨[.command .will NAWS,nawsItem cols rows],?_,rfl⟩
      rw [encode_cons,encode_cons,← buildNawsPayload_eq]
      simp [handleCommand,Verb.code,hdo,Item.bytes]
    · by_cases hahead : option = SUPPRESS_GO_AHEAD
      · subst hahead
        exact ⟨[.command .will SUPPRESS_GO_AHEAD],by simp [handleCommand,Verb.code,hdo,hnaws,Item.bytes],rfl⟩
      · exact ⟨[.command .wont option],by simp [handleCommand,Verb.code,hdo,hnaws,hahead,Item.bytes],
          by simp [Command.answer,hnaws,hahead,Item.command?]⟩
  | dont => exact ⟨[],by simp [handleCommand,Verb.code,DONT,WILL,DO],rfl⟩

theorem handleCommand_eq_nil (cols rows : UInt16) (c : Command) :
    c.answer = none ↔ handleCommand cols rows c.verb.code c.option = [] := by
  obtain ⟨items,hbytes,hanswer⟩ := handleCommand_answer cols rows c
  constructor
  · intro hnone
    cases c with
    | mk verb option =>
      rcases (Command.answer_eq_none _).mp hnone with h | h
      all_goals
        subst h
        rfl
  · intro hnil
    rw [hnil] at hbytes
    obtain rfl : items = [] := encode_injective hbytes
    exact Option.toList_eq_nil_iff.mp hanswer.symm

/-! ## Two parties -/

/-- The commands on the way to the one party and to the other. -/
structure Exchange where
  toFirst : List Command
  toSecond : List Command

namespace Exchange

def inFlight (e : Exchange) : List Command := e.toFirst ++ e.toSecond

/-- Any command on the way is delivered, and answered. -/
inductive Deliver : Exchange → ℕ → Exchange → Prop
  | first (before after toSecond : List Command) (c : Command) :
    Deliver ⟨before ++ c :: after,toSecond⟩ c.answer.toList.length ⟨before ++ after,toSecond ++ c.answer.toList⟩
  | second (toFirst before after : List Command) (c : Command) :
    Deliver ⟨toFirst,before ++ c :: after⟩ c.answer.toList.length ⟨toFirst ++ c.answer.toList,before ++ after⟩

/-- Deliveries one after the other, with the number of commands that they send. -/
inductive Run (e : Exchange) : ℕ → Exchange → Prop
  | start : Run e 0 e
  | deliver {n k : ℕ} {e' e'' : Exchange} : Run e n e' → Deliver e' k e'' → Run e (n + k) e''

def followers (e : Exchange) : ℕ := (e.inFlight.map Command.followers).sum

variable {e e' : Exchange} {n k : ℕ}

/-- A delivery takes a command out and puts its answer in. -/
theorem Deliver.cases_on (h : Deliver e k e') : ∃ c others, e.inFlight.Perm (c :: others) ∧
    e'.inFlight.Perm (c.answer.toList ++ others) ∧ k = c.answer.toList.length := by
  cases h with
  | first before after toSecond c =>
    refine ⟨c,before ++ after ++ toSecond,?_,?_,rfl⟩
    · simp only [inFlight,append_assoc,cons_append]
      exact perm_middle
    · simp only [inFlight]
      rw [← append_assoc]
      exact perm_append_comm
  | second toFirst before after c =>
    refine ⟨c,toFirst ++ (before ++ after),?_,?_,rfl⟩
    · simp only [inFlight,← append_assoc]
      exact perm_middle
    · rw [← append_assoc (c.answer.toList)]
      exact perm_append_comm.append_right _

theorem Deliver.repeats (h : Deliver e k e') : (∃ c ∈ e'.inFlight, c.Repeats) ↔ ∃ c ∈ e.inFlight, c.Repeats := by
  obtain ⟨c,others,hbefore,hafter,-⟩ := h.cases_on
  simp only [hbefore.mem_iff,hafter.mem_iff,mem_append,mem_cons,Option.mem_toList]
  constructor
  · rintro ⟨c',hanswer | hother,hrepeats⟩
    · by_cases hc : c.Repeats
      · exact ⟨c,.inl rfl,hc⟩
      · exact absurd hrepeats (Command.not_repeats_of_answer hc hanswer)
    · exact ⟨c',.inr hother,hrepeats⟩
  · rintro ⟨c',rfl | hother,hrepeats⟩
    · obtain ⟨answer,hanswer,hagain⟩ := Command.answer_of_repeats hrepeats
      exact ⟨answer,.inl hanswer,hagain⟩
    · exact ⟨c',.inr hother,hrepeats⟩

theorem Deliver.followers (h : Deliver e k e') (hnone : ∀ c ∈ e.inFlight, ¬ c.Repeats) :
    k + e'.followers = e.followers := by
  obtain ⟨c,others,hbefore,hafter,rfl⟩ := h.cases_on
  have hc := Command.followers_answer (hnone c (hbefore.mem_iff.mpr mem_cons_self))
  rw [Exchange.followers,Exchange.followers,(hbefore.map _).sum_nat,(hafter.map _).sum_nat,map_cons,
    hc]
  cases c.answer with
  | none => simp
  | some answer =>
    simp
    omega

theorem Run.repeats (h : Run e n e') : (∃ c ∈ e'.inFlight, c.Repeats) ↔ ∃ c ∈ e.inFlight, c.Repeats := by
  induction h with
  | start => rfl
  | deliver _ hdeliver ih => exact hdeliver.repeats.trans ih

theorem Run.followers (h : Run e n e') (hnone : ∀ c ∈ e.inFlight, ¬ c.Repeats) : n + e'.followers = e.followers := by
  induction h with
  | start => exact Nat.zero_add _
  | deliver hrun hdeliver ih =>
    have hkept := hdeliver.followers fun c hc hrepeats =>
      (hrun.repeats.mp ⟨c,hc,hrepeats⟩).elim fun c' hc' => hnone c' hc'.1 hc'.2
    omega

/-- A command that repeats is on the way after as many answers as one likes. -/
theorem run_on (hrepeats : ∃ c ∈ e.inFlight, c.Repeats) (n : ℕ) : ∃ e', Run e n e' := by
  induction n with
  | zero => exact ⟨e,.start⟩
  | succ n ih =>
    obtain ⟨e',hrun⟩ := ih
    obtain ⟨c,hc,hagain⟩ := hrun.repeats.mpr hrepeats
    obtain ⟨answer,hanswer,-⟩ := Command.answer_of_repeats hagain
    have hone : c.answer.toList.length = 1 := by rw [hanswer]; rfl
    obtain ⟨toFirst,toSecond⟩ := e'
    rcases mem_append.mp hc with hfirst | hsecond
    · obtain ⟨before,after,rfl⟩ := append_of_mem hfirst
      exact ⟨_,hone ▸ hrun.deliver (.first before after toSecond c)⟩
    · obtain ⟨before,after,rfl⟩ := append_of_mem hsecond
      exact ⟨_,hone ▸ hrun.deliver (.second toFirst before after c)⟩

/-- Only finitely many commands are sent, exactly when none that repeats is on the way. -/
theorem finite_iff (e : Exchange) :
    (∃ bound, ∀ n e', Run e n e' → n ≤ bound) ↔ ∀ c ∈ e.inFlight, ¬ c.Repeats := by
  constructor
  · rintro ⟨bound,hbound⟩ c hc hrepeats
    obtain ⟨e',hrun⟩ := run_on ⟨c,hc,hrepeats⟩ (bound + 1)
    have := hbound _ _ hrun
    omega
  · intro hnone
    refine ⟨e.followers,fun n e' hrun => ?_⟩
    have := hrun.followers hnone
    omega

end Exchange

/-- The negotiation comes to rest unless WILL or DO is said of the go-aheads, which the two answer for ever; and each
WILL and DO is answered whatever came before, no WONT and DONT is. -/
theorem negotiation_outcome :
    (∀ e : Exchange, ((∃ bound, ∀ n e', e.Run n e' → n ≤ bound) ↔ ∀ c ∈ e.inFlight, ¬ c.Repeats) ∧
      ((∃ c ∈ e.inFlight, c.Repeats) → ∀ n e', e.Run n e' → ∃ c ∈ e'.inFlight, c.Repeats)) ∧
    ∀ cols rows items c,
      (feed (.new cols rows) (encode (items ++ [Command.item c]))).replies =
        (feed (.new cols rows) (encode items)).replies ++ handleCommand cols rows c.verb.code c.option ∧
      (handleCommand cols rows c.verb.code c.option = [] ↔ c.verb = .wont ∨ c.verb = .dont) := by
  refine ⟨fun e => ⟨e.finite_iff,fun hrepeats n e' hrun => hrun.repeats.mpr hrepeats⟩,fun cols rows items c => ⟨?_,?_⟩⟩
  · rw [feed_encode,feed_encode]
    simp [replyBytes,Command.item,Item.replies]
  · rw [← handleCommand_eq_nil cols rows,Command.answer_eq_none]

/-- One WILL for the go-aheads, and a WILL for the echo that is said twice. -/
theorem negotiation_repeats :
    (¬ ∃ bound, ∀ n e', (⟨[⟨.will,SUPPRESS_GO_AHEAD⟩],[]⟩ : Exchange).Run n e' → n ≤ bound) ∧
    (feed (.new 80 24) [IAC,WILL,ECHO,IAC,WILL,ECHO]).replies = [IAC,DO,ECHO,IAC,DO,ECHO] := by
  refine ⟨fun hbound => ?_,by decide⟩
  exact (Exchange.finite_iff _).mp hbound _ (mem_cons_self) ⟨.inl rfl,rfl⟩

end Mxterm.Telnet
