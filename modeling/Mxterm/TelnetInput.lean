import Mxterm.TelnetStreams
import Mxterm.Utf8

/-! What is typed in a Telnet terminal, as it is sent (`terminal/telnet.rs`), and what a peer reads of it. -/
namespace Mxterm.Telnet

open List

def CR : UInt8 := 0x0d
def LF : UInt8 := 0x0a
def NUL : UInt8 := 0x00

inductive TelnetEnterMode
  | cr | lf | crLf
  deriving DecidableEq

inductive TelnetBackspaceMode
  | del | ctrlH
  deriving DecidableEq

structure TelnetSessionConfig where
  enterMode : TelnetEnterMode
  backspaceMode : TelnetBackspaceMode

/-- What `write_enter` adds. -/
def writeEnter : TelnetEnterMode → List UInt8
  | .cr => [CR]
  | .lf => [LF]
  | .crLf => [CR,LF]

def transformBytes (config : TelnetSessionConfig) : List UInt8 → List UInt8
  | [] => []
  | b :: rest =>
    if b = CR then
      match rest with
      | [] => writeEnter config.enterMode
      | c :: more =>
        if c = LF then writeEnter config.enterMode ++ transformBytes config more
        else writeEnter config.enterMode ++ transformBytes config (c :: more)
    else if b = LF then writeEnter config.enterMode ++ transformBytes config rest
    else if b = 0x7f ∧ config.backspaceMode = .ctrlH then 0x08 :: transformBytes config rest
    else b :: transformBytes config rest

def transformTelnetInput (config : TelnetSessionConfig) (data : String) : List UInt8 :=
  transformBytes config (Utf8.encode data)

/-- What successive writes send. -/
def sent (config : TelnetSessionConfig) (writes : List String) : List UInt8 :=
  writes.flatMap (transformTelnetInput config)

/-- A peer takes a doubled IAC for a data byte, and a NUL behind a CR away. -/
def unescape : List UInt8 → List UInt8
  | [] => []
  | b :: rest =>
    if b = IAC then
      match rest with
      | [] => [b]
      | c :: more => if c = IAC then IAC :: unescape more else b :: unescape (c :: more)
    else if b = CR then
      match rest with
      | [] => [b]
      | c :: more => if c = NUL then CR :: unescape more else b :: unescape (c :: more)
    else b :: unescape rest

/-! ## Cuts -/

section
variable {config : TelnetSessionConfig} {bytes more : List UInt8}

theorem writeEnter_ne_nil (mode : TelnetEnterMode) : writeEnter mode ≠ [] := by
  cases mode <;> exact cons_ne_nil _ _

theorem transformBytes_cr_lf :
    transformBytes config (CR :: LF :: more) = writeEnter config.enterMode ++ transformBytes config more := by
  simp [transformBytes]

theorem transformBytes_cr (h : more.head? ≠ some LF) :
    transformBytes config (CR :: more) = writeEnter config.enterMode ++ transformBytes config more := by
  cases more with
  | nil => simp [transformBytes]
  | cons c more =>
    have hc : c ≠ LF := by simpa using h
    conv_lhs => rw [transformBytes]
    simp [hc]

/-- What a byte other than a CR is sent as. -/
def transformByte (config : TelnetSessionConfig) (b : UInt8) : List UInt8 :=
  if b = LF then writeEnter config.enterMode
  else if b = 0x7f ∧ config.backspaceMode = .ctrlH then [0x08] else [b]

theorem transformBytes_other {b : UInt8} (h : b ≠ CR) :
    transformBytes config (b :: more) = transformByte config b ++ transformBytes config more := by
  conv_lhs => unfold transformBytes
  simp only [if_neg h,transformByte]
  split_ifs <;> rfl

/-- A CR at the end of what comes first, and an LF at the beginning of what follows. -/
def CutsEnter (bytes more : List UInt8) : Prop := bytes.getLast? = some CR ∧ more.head? = some LF

instance (bytes more : List UInt8) : Decidable (CutsEnter bytes more) := inferInstanceAs (Decidable (_ ∧ _))

theorem cutsEnter_cons {b : UInt8} (h : b ≠ CR ∨ bytes ≠ []) :
    CutsEnter (b :: bytes) more ↔ CutsEnter bytes more := by
  cases bytes with
  | nil => simp_all [CutsEnter]
  | cons c bytes => simp [CutsEnter]

/-- One LF is left out where a pair was cut. -/
theorem transformBytes_append : transformBytes config (bytes ++ more) =
    transformBytes config bytes ++ transformBytes config (if CutsEnter bytes more then more.tail else more) := by
  induction bytes using transformBytes.induct config with
  | case1 => simp [transformBytes,CutsEnter]
  | case2 =>
    have hcuts : CutsEnter [CR] more ↔ more.head? = some LF := by simp [CutsEnter]
    by_cases h : more.head? = some LF
    · obtain ⟨rest,rfl⟩ := head?_eq_some_iff.mp h
      exact transformBytes_cr_lf
    · rw [if_neg (fun hc => h (hcuts.mp hc))]
      exact transformBytes_cr h
  | case3 rest ih =>
    have hcuts : CutsEnter (CR :: LF :: rest) more ↔ CutsEnter rest more := by
      rw [cutsEnter_cons (.inr (cons_ne_nil _ _)),cutsEnter_cons (.inl (by decide))]
    simp only [hcuts,cons_append,transformBytes_cr_lf,ih,append_assoc]
  | case4 c rest hc ih =>
    have hcuts : CutsEnter (CR :: c :: rest) more ↔ CutsEnter (c :: rest) more :=
      cutsEnter_cons (.inr (cons_ne_nil _ _))
    have hhead : ∀ l : List UInt8, (c :: l).head? ≠ some LF := by
      simpa using hc
    rw [cons_append,cons_append,transformBytes_cr (hhead _),transformBytes_cr (hhead _),
      ← cons_append,ih]
    simp only [hcuts,append_assoc]
  | case5 rest hne ih =>
    have hcuts : CutsEnter (LF :: rest) more ↔ CutsEnter rest more := cutsEnter_cons (.inl hne)
    simp only [hcuts,cons_append,transformBytes_other hne,ih,append_assoc]
  | case6 c rest hne _ _ ih =>
    have hcuts : CutsEnter (c :: rest) more ↔ CutsEnter rest more := cutsEnter_cons (.inl hne)
    simp only [hcuts,cons_append,transformBytes_other hne,ih,append_assoc]
  | case7 c rest hne _ _ ih =>
    have hcuts : CutsEnter (c :: rest) more ↔ CutsEnter rest more := cutsEnter_cons (.inl hne)
    simp only [hcuts,cons_append,transformBytes_other hne,ih,append_assoc]

theorem transformBytes_lf (h : more.head? = some LF) :
    transformBytes config more = writeEnter config.enterMode ++ transformBytes config more.tail := by
  obtain ⟨rest,rfl⟩ := head?_eq_some_iff.mp h
  rw [transformBytes_other (by decide)]
  rfl

/-- Some write ends with a CR, and what is written behind it begins with an LF. -/
def CutsPair : List String → Prop
  | [] => False
  | data :: writes => CutsEnter (Utf8.encode data) (writes.flatMap Utf8.encode) ∨ CutsPair writes

/-- What is sent of the whole, and how much more is sent of the parts. -/
theorem sent_of_writes (config : TelnetSessionConfig) (writes : List String) :
    (transformBytes config (writes.flatMap Utf8.encode)).length ≤ (sent config writes).length ∧
      (sent config writes = transformBytes config (writes.flatMap Utf8.encode) ↔ ¬ CutsPair writes) := by
  induction writes with
  | nil => simp [sent,transformBytes,CutsPair]
  | cons data writes ih =>
    obtain ⟨hle,hiff⟩ := ih
    have hsent : sent config (data :: writes) = transformTelnetInput config data ++ sent config writes := rfl
    rw [hsent,flatMap_cons,transformBytes_append,transformTelnetInput,CutsPair]
    by_cases hcuts : CutsEnter (Utf8.encode data) (writes.flatMap Utf8.encode)
    · have hmore : (transformBytes config (writes.flatMap Utf8.encode)).length =
          (writeEnter config.enterMode ++ transformBytes config (writes.flatMap Utf8.encode).tail).length :=
        congrArg List.length (transformBytes_lf hcuts.2)
      have hpos := length_pos_of_ne_nil (writeEnter_ne_nil config.enterMode)
      rw [length_append] at hmore
      rw [if_pos hcuts,length_append,length_append,append_cancel_left_eq]
      refine ⟨by omega,iff_of_false ?_ (not_not.mpr (.inl hcuts))⟩
      intro heq
      have hlength := congrArg List.length heq
      omega
    · rw [if_neg hcuts,length_append,length_append,append_cancel_left_eq]
      exact ⟨by omega,by rw [hiff]; simp [hcuts]⟩

end

/-! ## Escaping -/

section
variable {config : TelnetSessionConfig} {bytes more : List UInt8}

theorem unescape_cr_nul : unescape (CR :: NUL :: more) = CR :: unescape more := by
  rfl

variable {b : UInt8}

theorem unescape_cons (hiac : b ≠ IAC) (h : b ≠ CR ∨ more.head? ≠ some NUL) :
    unescape (b :: more) = b :: unescape more := by
  cases more with
  | nil => simp [unescape,hiac]
  | cons c more =>
    conv_lhs => unfold unescape
    by_cases hcr : b = CR
    · have hc : c ≠ NUL := by simpa [hcr] using h
      rw [if_neg hiac,if_pos hcr]
      exact if_neg hc
    · rw [if_neg hiac,if_neg hcr]

/-- A NUL directly behind a CR. -/
def HidesNul (bytes : List UInt8) : Prop := [CR,NUL] <:+: bytes

/-- A NUL directly behind an Enter. -/
def EnterNul (bytes : List UInt8) : Prop := [CR,NUL] <:+: bytes ∨ [LF,NUL] <:+: bytes

theorem pair_infix_cons {a c : UInt8} : [a,b] <:+: c :: bytes ↔ c = a ∧ bytes.head? = some b ∨ [a,b] <:+: bytes := by
  rw [infix_cons_iff]
  cases bytes with
  | nil => simp
  | cons d bytes => simp [eq_comm]

theorem hidesNul_cons : HidesNul (b :: bytes) ↔ b = CR ∧ bytes.head? = some NUL ∨ HidesNul bytes :=
  pair_infix_cons

theorem enterNul_cons : EnterNul (b :: bytes) ↔ (b = CR ∨ b = LF) ∧ bytes.head? = some NUL ∨ EnterNul bytes := by
  rw [EnterNul,EnterNul,pair_infix_cons,pair_infix_cons]
  tauto

theorem unescape_of_not_hidesNul (hiac : IAC ∉ bytes) (h : ¬ HidesNul bytes) : unescape bytes = bytes := by
  induction bytes with
  | nil => rfl
  | cons b bytes ih =>
    simp only [mem_cons,not_or] at hiac
    rw [hidesNul_cons,not_or] at h
    rw [unescape_cons (Ne.symm hiac.1) (not_and_or.mp h.1),ih hiac.2 h.2]

/-- Unescaping makes nothing longer. -/
theorem length_unescape_le : (unescape bytes).length ≤ bytes.length := by
  induction bytes using unescape.induct with
  | case1 | case2 => exact Nat.le_refl _
  | case3 more ih =>
    have hstep : unescape (IAC :: IAC :: more) = IAC :: unescape more := by simp [unescape]
    rw [hstep,length_cons,length_cons,length_cons]
    omega
  | case4 c more hc ih =>
    have hstep : unescape (IAC :: c :: more) = IAC :: unescape (c :: more) := by
      conv_lhs => unfold unescape
      simp [hc]
    rw [hstep,length_cons,length_cons]
    omega
  | case5 => exact Nat.le_refl _
  | case6 more _ ih =>
    rw [unescape_cr_nul,length_cons,length_cons,length_cons]
    omega
  | case7 c more hc hne ih =>
    rw [unescape_cons hne (.inr (by simpa using hc)),length_cons,length_cons]
    omega
  | case8 c more hiac hcr ih =>
    rw [unescape_cons hiac (.inl hcr),length_cons,length_cons]
    omega

theorem unescape_of_hidesNul (hiac : IAC ∉ bytes) (h : HidesNul bytes) : (unescape bytes).length < bytes.length := by
  induction bytes with
  | nil => simp [HidesNul] at h
  | cons b bytes ih =>
    simp only [mem_cons,not_or] at hiac
    by_cases hhere : b = CR ∧ bytes.head? = some NUL
    · obtain ⟨rfl,hhead⟩ := hhere
      obtain ⟨rest,rfl⟩ := head?_eq_some_iff.mp hhead
      rw [unescape_cr_nul,length_cons,length_cons,length_cons]
      have : (unescape rest).length ≤ rest.length := length_unescape_le
      omega
    · rw [unescape_cons (Ne.symm hiac.1) (not_and_or.mp hhere)]
      exact Nat.succ_lt_succ (ih hiac.2 ((hidesNul_cons.mp h).resolve_left hhere))

/-- Nothing is taken away of bytes without an IAC exactly when no NUL stands behind a CR. -/
theorem unescape_eq_self (hiac : IAC ∉ bytes) : unescape bytes = bytes ↔ ¬ HidesNul bytes := by
  constructor
  · intro heq h
    exact absurd (congrArg List.length heq) (unescape_of_hidesNul hiac h).ne
  · exact unescape_of_not_hidesNul hiac

/-! ## What is hidden of a text -/

theorem iac_not_mem_encode (s : String) : IAC ∉ Utf8.encode s :=
  fun h => absurd (Utf8.lt_of_mem_encode h) (by decide)

/-- What is no Enter is sent as one byte, which is a NUL when it is one. -/
theorem transformByte_other (hiac : IAC ≠ b) (hcr : b ≠ CR) (hlf : b ≠ LF) :
    ∃ c, transformByte config b = [c] ∧ IAC ≠ c ∧ c ≠ CR ∧ (c = NUL ↔ b = NUL) := by
  rw [transformByte,if_neg hlf]
  split_ifs with hdel
  · rw [hdel.1]
    exact ⟨_,rfl,by decide,by decide,by decide⟩
  · exact ⟨b,rfl,hiac,hcr,Iff.rfl⟩

theorem head_enter : (writeEnter config.enterMode ++ bytes).head? ≠ some NUL := by
  cases config.enterMode <;> simp [writeEnter] <;> decide

theorem hidesNul_enter :
    HidesNul (writeEnter config.enterMode ++ bytes) ↔
      config.enterMode = .cr ∧ bytes.head? = some NUL ∨ HidesNul bytes := by
  have hlf : LF ≠ CR := by decide
  have hnul : LF ≠ NUL := by decide
  cases config.enterMode <;> simp [writeEnter,hidesNul_cons,hlf,hnul]

/-- The bytes that are sent hold no IAC, and a NUL in front or behind a CR where one is typed so. -/
structure SentPlainly (config : TelnetSessionConfig) (bytes : List UInt8) : Prop where
  iac : IAC ∉ transformBytes config bytes
  head : (transformBytes config bytes).head? = some NUL ↔ bytes.head? = some NUL
  hides : HidesNul (transformBytes config bytes) ↔ config.enterMode = .cr ∧ EnterNul bytes

theorem SentPlainly.enter {rest : List UInt8} (h : SentPlainly config rest)
    (hsent : transformBytes config bytes = writeEnter config.enterMode ++ transformBytes config rest)
    (hhead : bytes.head? ≠ some NUL) (hnul : EnterNul bytes ↔ rest.head? = some NUL ∨ EnterNul rest) :
    SentPlainly config bytes := by
  have henter : IAC ∉ writeEnter config.enterMode := by cases config.enterMode <;> decide
  refine ⟨?_,?_,?_⟩
  · rw [hsent,mem_append]
    exact not_or.mpr ⟨henter,h.iac⟩
  · rw [hsent]
    exact iff_of_false head_enter hhead
  · rw [hsent,hidesNul_enter,h.head,h.hides]
    tauto

theorem SentPlainly.other {rest : List UInt8} (h : SentPlainly config rest) (hiac : IAC ≠ b) (hcr : b ≠ CR)
    (hlf : b ≠ LF) : SentPlainly config (b :: rest) := by
  obtain ⟨c,hone,hc,hnot,hnul⟩ := @transformByte_other config b hiac hcr hlf
  have hsent : transformBytes config (b :: rest) = c :: transformBytes config rest := by
    rw [transformBytes_other hcr,hone]
    rfl
  refine ⟨?_,?_,?_⟩
  · rw [hsent,mem_cons]
    exact not_or.mpr ⟨hc,h.iac⟩
  · rw [hsent]
    simpa using hnul
  · rw [hsent,hidesNul_cons,h.hides,enterNul_cons]
    simp [hnot,hcr,hlf]

theorem sentPlainly (hiac : IAC ∉ bytes) : SentPlainly config bytes := by
  have hcr : CR ≠ NUL := by decide
  have hlf : LF ≠ NUL := by decide
  induction bytes using transformBytes.induct config with
  | case1 => constructor <;> simp [transformBytes,HidesNul,EnterNul]
  | case2 =>
    have hnil : SentPlainly config [] := by constructor <;> simp [transformBytes,HidesNul,EnterNul]
    exact hnil.enter (by simp [transformBytes]) (by simp [hcr]) (by simp [enterNul_cons])
  | case3 more ih =>
    simp only [mem_cons,not_or] at hiac
    exact (ih hiac.2.2).enter transformBytes_cr_lf (by simp [hcr]) (by simp [enterNul_cons,hlf])
  | case4 c more hc ih =>
    simp only [mem_cons,not_or] at hiac
    exact (ih (by simp [hiac])).enter (transformBytes_cr (by simpa using hc)) (by simp [hcr])
      (by rw [enterNul_cons]; simp)
  | case5 more _ ih =>
    simp only [mem_cons,not_or] at hiac
    exact (ih hiac.2).enter (transformBytes_lf rfl) (by simp [hlf]) (by simp [enterNul_cons])
  | case6 c more hnot hnotlf _ ih =>
    simp only [mem_cons,not_or] at hiac
    exact (ih hiac.2).other hiac.1 hnot hnotlf
  | case7 c more hnot hnotlf _ ih =>
    simp only [mem_cons,not_or] at hiac
    exact (ih hiac.2).other hiac.1 hnot hnotlf

/-- However a text is cut into writes, the bytes of one write are sent and the peer reads them as they are, exactly
when no write ends between the CR and the LF of a pair and, with CR for Enter, no NUL is typed behind an Enter. -/
theorem input_survives (config : TelnetSessionConfig) (writes : List String) :
    (sent config writes = transformTelnetInput config (String.join writes) ∧
      unescape (sent config writes) = transformTelnetInput config (String.join writes)) ↔
    ¬ CutsPair writes ∧ ¬ (config.enterMode = .cr ∧ EnterNul (Utf8.encode (String.join writes))) := by
  have hjoin : Utf8.encode (String.join writes) = writes.flatMap Utf8.encode := by
    induction writes with
    | nil => rfl
    | cons data writes ih => rw [String.join_cons,Utf8.encode_append,ih,flatMap_cons]
  have hplain : SentPlainly config (Utf8.encode (String.join writes)) := sentPlainly (iac_not_mem_encode _)
  have hwhole := (sent_of_writes config writes).2
  rw [← hjoin] at hwhole
  rw [transformTelnetInput,← hwhole,← hplain.hides,← unescape_eq_self hplain.iac]
  constructor
  · rintro ⟨hsame,hread⟩
    exact ⟨hsame,hsame ▸ hread⟩
  · rintro ⟨hsame,hread⟩
    exact ⟨hsame,hsame.symm ▸ hread⟩

/-- An Enter that is cut is sent twice; a NUL behind an Enter is lost. -/
theorem input_lost :
    sent ⟨.crLf,.del⟩ ["ls\r","\n"] = Utf8.encode "ls\r\n\r\n" ∧
      sent ⟨.crLf,.del⟩ ["ls\r","\n"] ≠ transformTelnetInput ⟨.crLf,.del⟩ (String.join ["ls\r","\n"]) ∧
    unescape (sent ⟨.cr,.del⟩ ["\r\x00"]) = [CR] ∧
      unescape (sent ⟨.cr,.del⟩ ["\r\x00"]) ≠ transformTelnetInput ⟨.cr,.del⟩ (String.join ["\r\x00"]) := by
  decide

end

/-! ## A session

Its task meets what the host sends and the commands of the terminal in any order. -/

inductive SessionEvent
  | read (bytes : List UInt8)
  | write (data : String)
  | resize (cols rows : UInt16)

/-- The parser, what was written to the socket and what was sent on to the terminal. -/
structure Session where
  parser : TelnetProtocolParser
  wire : List UInt8
  shown : List UInt8

namespace Session

def start : Session := ⟨.new 80 24,[],[]⟩

def step (config : TelnetSessionConfig) (s : Session) : SessionEvent → Session
  | .read bytes =>
    let fed := feed s.parser bytes
    ⟨fed.parser,s.wire ++ fed.replies,s.shown ++ fed.output⟩
  | .write data => { s with wire := s.wire ++ transformTelnetInput config data }
  | .resize cols rows =>
    { s with parser := { s.parser with cols, rows }, wire := s.wire ++ buildNawsPayload cols rows }

def run (config : TelnetSessionConfig) (events : List SessionEvent) : Session := events.foldl (step config) start

end Session

def received (events : List SessionEvent) : List UInt8 :=
  events.flatMap fun
    | .read bytes => bytes
    | _ => []

def typed (config : TelnetSessionConfig) (events : List SessionEvent) : List UInt8 :=
  events.flatMap fun
    | .write data => transformTelnetInput config data
    | _ => []

/-- What a peer takes for the data `data`. -/
def Carries (wire data : List UInt8) : Prop := ∃ items, wire = encode items ∧ dataBytes items = data

theorem Carries.append {wire wire' data data' : List UInt8} (h : Carries wire data) (h' : Carries wire' data') :
    Carries (wire ++ wire') (data ++ data') := by
  obtain ⟨items,rfl,rfl⟩ := h
  obtain ⟨items',rfl,rfl⟩ := h'
  exact ⟨items ++ items',(encode_append _ _).symm,flatMap_append⟩

theorem carries_reply (verb : Verb) (option : UInt8) : Carries [IAC,verb.code,option] [] :=
  ⟨[.command verb option],rfl,rfl⟩

theorem carries_naws (cols rows : UInt16) : Carries (buildNawsPayload cols rows) [] :=
  ⟨[nawsItem cols rows],by rw [buildNawsPayload_eq,encode_cons,encode_nil,append_nil],rfl⟩

theorem carries_plain {bytes : List UInt8} (h : IAC ∉ bytes) : Carries bytes bytes := by
  refine ⟨bytes.map .byte,?_,by simp [dataBytes,flatMap_map,Item.data]⟩
  induction bytes with
  | nil => rfl
  | cons b bytes ih =>
    rw [mem_cons,not_or] at h
    rw [map_cons,encode_cons,← ih h.2,Item.bytes,if_neg (Ne.symm h.1),singleton_append]

theorem carries_handleCommand (cols rows : UInt16) (command option : UInt8) :
    Carries (handleCommand cols rows command option) [] := by
  unfold handleCommand
  split_ifs
  · exact carries_reply .do option
  · exact carries_reply .dont option
  · exact (carries_reply .will NAWS).append (carries_naws cols rows)
  · exact carries_reply .will option
  · exact carries_reply .wont option
  · exact ⟨[],rfl,rfl⟩

/-- The size of the terminal is only seen in the replies, and these carry no data. -/
theorem feed_sizes {p q : TelnetProtocolParser} (h : p.state = q.state) (bytes : List UInt8) :
    (feed p bytes).parser.state = (feed q bytes).parser.state ∧ (feed p bytes).output = (feed q bytes).output ∧
      Carries (feed p bytes).replies [] := by
  have hnone : Carries [] [] := ⟨[],rfl,rfl⟩
  induction bytes generalizing p q with
  | nil => exact ⟨h,rfl,hnone⟩
  | cons b bytes ih =>
    have hbyte : ((⟨p,[],[]⟩ : Feed).byte b).parser.state = ((⟨q,[],[]⟩ : Feed).byte b).parser.state ∧
        ((⟨p,[],[]⟩ : Feed).byte b).output = ((⟨q,[],[]⟩ : Feed).byte b).output ∧
        Carries ((⟨p,[],[]⟩ : Feed).byte b).replies [] := by
      rcases p with ⟨cols,rows,state⟩
      rcases q with ⟨cols',rows',_⟩
      obtain rfl : state = _ := h
      unfold Feed.byte
      cases state with
      | command command => exact ⟨rfl,rfl,carries_handleCommand cols rows command b⟩
      | _ => dsimp only; split_ifs <;> exact ⟨rfl,rfl,hnone⟩
    obtain ⟨hstate,houtput,hreplies⟩ := hbyte
    obtain ⟨hstate',houtput',hreplies'⟩ := ih hstate
    have hcons : ∀ r, feed r (b :: bytes) = feedChunks r [[b],bytes] := fun r => by
      rw [feedChunks_eq]
      exact congrArg (feed r) (append_nil _).symm
    rw [hcons,hcons]
    refine ⟨hstate',?_,?_⟩
    · exact congrArg₂ (· ++ ·) houtput (congrArg (· ++ []) houtput')
    · exact hreplies.append (hreplies'.append hnone)

end Mxterm.Telnet
