import Mxterm.Base64
import Mxterm.ByteStreams
import Mxterm.Utf8
import Mxterm.Values

/-! A terminal that is connected through an HTTP proxy (`terminal/session.rs`): the request for a tunnel, and the
header of the answer, which is read byte by byte since the bytes behind it are those of the SSH server. -/
namespace Mxterm.HttpConnect

open ByteStreams Execution List

/-! ## The handshake -/

/-- `base64_simple`. -/
def base64Simple (value : String) : String := Base64.encodePadded Base64.standard (Utf8.encode value)

def proxyAuthorization : Option String → Option String → String
  | some username,some password =>
    if username = "" then ""
    else "Proxy-Authorization: Basic " ++ base64Simple (username ++ ":" ++ password) ++ "\r\n"
  | _,_ => ""

def connectRequest (username password : Option String) (host : String) (port : UInt16) : String :=
  let target := host ++ ":" ++ toString port.toNat
  "CONNECT " ++ target ++ " HTTP/1.1\r\nHost: " ++ target ++ "\r\n" ++ proxyAuthorization username password ++ "\r\n"

/-- `\r\n\r\n`. -/
def headerEnd : List UInt8 := [13,10,13,10]

def responseLimit : ℕ := 8192

/-- The loop of `read_http_proxy_response`, with room for some more bytes. -/
def readResponse : ℕ → List UInt8 → EStateM AppError Stream (List UInt8)
  | 0, buffer => pure buffer
  | room + 1, buffer => do
    match ← receiveOne with
    | none => pure buffer
    | some byte =>
      if headerEnd <:+ buffer ++ [byte] then pure (buffer ++ [byte])
      else readResponse room (buffer ++ [byte])

def readHttpProxyResponse : EStateM AppError Stream String := do
  let buffer ← readResponse responseLimit []
  pure (Utf8.decodeLossy buffer)

def looksSuccessful (response : String) : Bool :=
  Text.startsWith response "HTTP/1.1 2" || Text.startsWith response "HTTP/1.0 2"

/-- `open_http_connect_stream`, on a stream to the proxy. -/
def openHttpConnectStream (username password : Option String) (host : String) (port : UInt16) :
    EStateM AppError Stream Unit := do
  send (Utf8.encode (connectRequest username password host port))
  let response ← readHttpProxyResponse
  if looksSuccessful response then pure ()
  else throw ⟨"proxy_connect_rejected","HTTP CONNECT 代理拒绝连接。",
    Text.trim ((Text.lines response).head?.getD ""),true⟩

/-! ## What is read -/

/-- What the loop takes from the input, and what it leaves. -/
def takeResponse : ℕ → List UInt8 → List UInt8 → List UInt8 × List UInt8
  | 0, buffer, input => (buffer,input)
  | _ + 1, buffer, [] => (buffer,[])
  | room + 1, buffer, byte :: input =>
    if headerEnd <:+ buffer ++ [byte] then (buffer ++ [byte],input) else takeResponse room (buffer ++ [byte]) input

theorem readResponse_answers (room : ℕ) (buffer input : List UInt8) :
    Answers (readResponse room buffer) input (takeResponse room buffer input).2 []
      (takeResponse room buffer input).1 := by
  induction room generalizing buffer input with
  | zero => exact Answers.pure buffer
  | succ room ih =>
    cases input with
    | nil => exact Answers.receiveOne_nil.bind (Answers.pure buffer)
    | cons byte input =>
      refine (Answers.receiveOne byte).bind ?_
      dsimp only [takeResponse]
      split_ifs
      · exact Answers.pure _
      · exact ih _ _

/-- A header that ends where its end is read for the first time. -/
structure IsHeader (block : List UInt8) : Prop where
  ended : headerEnd <:+ block
  first : ∀ front, front <+: block → headerEnd <:+ front → front = block

theorem IsHeader.unique {block other input : List UInt8} (hblock : IsHeader block) (hother : IsHeader other)
    (h : block <+: input) (h' : other <+: input) : block = other := by
  rcases prefix_or_prefix_of_prefix h h' with hfront | hfront
  · exact hother.first block hfront hblock.ended
  · exact (hblock.first other hfront hother.ended).symm

/-- No front of the buffer ends a header. -/
def Unended (buffer : List UInt8) : Prop := ∀ front, front <+: buffer → ¬ headerEnd <:+ front

theorem Unended.concat {buffer : List UInt8} (h : Unended buffer) {byte : UInt8}
    (hend : ¬ headerEnd <:+ buffer ++ [byte]) : Unended (buffer ++ [byte]) := by
  intro front hfront
  rcases prefix_concat_iff.mp hfront with rfl | hfront
  · exact hend
  · exact h front hfront

/-- The loop ends behind a header that fits, and else at the end of the input or at the limit. -/
theorem takeResponse_cases (room : ℕ) {buffer : List UInt8} (hbuffer : Unended buffer) (input : List UInt8) :
    (∃ block rest, IsHeader (buffer ++ block) ∧ block.length ≤ room ∧ input = block ++ rest ∧
      takeResponse room buffer input = (buffer ++ block,rest)) ∨
    (Unended (buffer ++ input.take room) ∧
      takeResponse room buffer input = (buffer ++ input.take room,input.drop room)) := by
  induction room generalizing buffer input with
  | zero =>
    right
    rw [take_zero,append_nil]
    exact ⟨hbuffer,rfl⟩
  | succ room ih =>
    cases input with
    | nil =>
      right
      rw [take_nil,append_nil]
      exact ⟨hbuffer,rfl⟩
    | cons byte input =>
      rw [takeResponse]
      by_cases hend : headerEnd <:+ buffer ++ [byte]
      · left
        rw [if_pos hend]
        refine ⟨[byte],input,⟨hend,?_⟩,by simp,rfl,rfl⟩
        intro front hfront hended
        rcases prefix_concat_iff.mp hfront with heq | hfront
        · exact heq
        · exact absurd hended (hbuffer front hfront)
      · rw [if_neg hend]
        rcases ih (hbuffer.concat hend) input with ⟨block,rest,hheader,hroom,rfl,htake⟩ | ⟨hunended,htake⟩
        · left
          rw [append_assoc] at hheader htake
          exact ⟨byte :: block,rest,hheader,by simpa using hroom,rfl,htake⟩
        · right
          rw [append_assoc] at hunended htake
          exact ⟨hunended,htake⟩

theorem unended_nil : Unended [] := by
  intro front hfront
  rw [prefix_nil.mp hfront]
  decide

/-! ## What looks successful -/

/-- The first bytes of the status lines that are accepted. -/
def statusStarts : List (List UInt8) := [Utf8.encode "HTTP/1.1 2",Utf8.encode "HTTP/1.0 2"]

def LooksSuccessful (input : List UInt8) : Prop := ∃ start ∈ statusStarts, start <+: input

theorem looksSuccessful_iff (buffer : List UInt8) :
    looksSuccessful (Utf8.decodeLossy buffer) = true ↔ LooksSuccessful buffer := by
  have hstart (text : String) (htext : '\uFFFD' ∉ text.toList) :
      Text.startsWith (Utf8.decodeLossy buffer) text = true ↔ Utf8.encode text <+: buffer := by
    rw [Text.startsWith, isPrefixOf_iff_prefix]
    exact Utf8.prefix_decodeLossy htext
  rw [looksSuccessful,Bool.or_eq_true,hstart _ (by decide +kernel),hstart _ (by decide +kernel)]
  simp [LooksSuccessful,statusStarts]

theorem start_facts : ∀ start ∈ statusStarts, start.length = 10 ∧ (13 : UInt8) ∉ start := by decide +kernel

/-- What has been read looks as the whole input does. -/
theorem looksSuccessful_takeResponse (input : List UInt8) :
    LooksSuccessful (takeResponse responseLimit [] input).1 ↔ LooksSuccessful input := by
  have hstart : ∀ start ∈ statusStarts, start <+: (takeResponse responseLimit [] input).1 ↔ start <+: input := by
    intro start hmem
    rcases takeResponse_cases responseLimit unended_nil input with ⟨block,rest,hheader,-,rfl,htake⟩ | ⟨-,htake⟩
    · rw [htake]
      constructor
      · exact fun h => h.trans (prefix_append block rest)
      · intro h
        apply ( prefix_or_prefix_of_prefix h (prefix_append block rest)).resolve_right
        intro hblock
        have hcr : (13 : UInt8) ∈ headerEnd := by decide
        exact (start_facts start hmem).2 (hblock.subset (hheader.ended.subset hcr))
    · rw [htake,nil_append,prefix_take_iff,(start_facts start hmem).1]
      exact and_iff_left (by decide)
  exact exists_congr fun start => and_congr_right fun hmem => hstart start hmem

/-! ## The outcome -/

section
variable (username password : Option String) (host : String) (port : UInt16) {input : List UInt8}

theorem readHttpProxyResponse_answers (input : List UInt8) :
    Answers readHttpProxyResponse input (takeResponse responseLimit [] input).2 []
      (Utf8.decodeLossy (takeResponse responseLimit [] input).1) := by
  exact (readResponse_answers responseLimit [] input).bind (Answers.pure _)

theorem openHttpConnectStream_answers (h : LooksSuccessful input) :
    Answers (openHttpConnectStream username password host port) input (takeResponse responseLimit [] input).2
      (Utf8.encode (connectRequest username password host port) ++ ([] ++ [])) () := by
  refine (Answers.send _).bind ((readHttpProxyResponse_answers input).bind ?_)
  rw [if_pos ((looksSuccessful_iff _).mpr ((looksSuccessful_takeResponse input).mpr h))]
  exact Answers.pure ()

theorem openHttpConnectStream_rejects (h : ¬ LooksSuccessful input) :
    ∃ error, Rejects (openHttpConnectStream username password host port) input error := by
  have hlooks : looksSuccessful (Utf8.decodeLossy (takeResponse responseLimit [] input).1) ≠ true := by
    rwa [Ne,looksSuccessful_iff,looksSuccessful_takeResponse]
  have hrejects (error : AppError) : Rejects (if looksSuccessful (Utf8.decodeLossy
    (takeResponse responseLimit [] input).1)
      then pure () else throw error) (takeResponse responseLimit [] input).2 error := by
    rw [if_neg hlooks]
    exact Rejects.throw
  exact ⟨_,Rejects.bind (Answers.send _) (Rejects.bind (readHttpProxyResponse_answers input) (hrejects _))⟩

end

def IsDigit (byte : UInt8) : Prop := 48 ≤ byte ∧ byte ≤ 57

/-- The status line is that of HTTP/1.0 or HTTP/1.1 and has a status from 200 to 299. -/
def IsSuccess (block : List UInt8) : Prop :=
  ∃ start ∈ statusStarts, ∃ tens ones next more, block = start ++ tens :: ones :: next :: more ∧
    IsDigit tens ∧ IsDigit ones ∧ (next = 32 ∨ next = 13)

/-- The input begins with the whole header of an answer that opens the tunnel, and `rest` is behind it. -/
def Opens (input rest : List UInt8) : Prop :=
  ∃ block, IsHeader block ∧ block.length ≤ responseLimit ∧ IsSuccess block ∧ input = block ++ rest

theorem takeResponse_of_opens {input rest : List UInt8} (h : Opens input rest) :
    (takeResponse responseLimit [] input).2 = rest := by
  obtain ⟨block,hheader,hlength,-,rfl⟩ := h
  rcases takeResponse_cases responseLimit unended_nil (block ++ rest) with
    ⟨other,rest',hother,-,heq,htake⟩ | ⟨hunended,-⟩
  · have hsame : block = other :=
      hheader.unique hother (prefix_append block rest) ⟨rest',heq.symm⟩
    subst hsame
    rw [htake]
    exact (append_cancel_left heq).symm
  · refine absurd hheader.ended (hunended block ?_)
    rw [nil_append,prefix_take_iff]
    exact ⟨prefix_append block rest,hlength⟩

/-- What is promised of an outcome: a stream is returned only behind the header of an answer that opens the tunnel. -/
def Conforms (input : List UInt8) : EStateM.Result AppError Stream Unit → Prop
  | .ok () s => Opens input s.incoming.flatten
  | .error _ _ => True

/-- However the answer of the proxy is cut, the handshake returns behind the header of an answer that opens the tunnel,
and fails without such a header, exactly if what looks like the answer of success begins with such a header. -/
theorem consumes_header (username password : Option String) (host : String) (port : UInt16) (input : List UInt8) :
    (∀ s : Stream, s.incoming.flatten = input → Conforms input (openHttpConnectStream username password host port s)) ↔
      (LooksSuccessful input → ∃ rest, Opens input rest) := by
  constructor
  · intro h hlooks
    have hs : (Stream.mk [input] []).incoming.flatten = input := append_nil input
    obtain ⟨s',hopen,-,-⟩ := openHttpConnectStream_answers username password host port hlooks _ hs
    have hconforms := h _ hs
    rw [hopen] at hconforms
    exact ⟨_,hconforms⟩
  · intro h s hs
    by_cases hlooks : LooksSuccessful input
    · obtain ⟨rest,hopens⟩ := h hlooks
      obtain ⟨s',hopen,hrest,-⟩ := openHttpConnectStream_answers username password host port hlooks s hs
      rw [hopen]
      rw [takeResponse_of_opens hopens] at hrest
      rw [Conforms,hrest]
      exact hopens
    · obtain ⟨error,hrejects⟩ := openHttpConnectStream_rejects username password host port hlooks
      obtain ⟨s',herror⟩ := hrejects s hs
      rw [herror]
      trivial

/-- The header of a proxy that closes the connection in the middle of it. -/
def cutHeader : List UInt8 := Utf8.encode "HTTP/1.1 200 OK\r\n"

theorem cut_header_accepted : ¬ ∀ s : Stream, s.incoming.flatten = cutHeader →
    Conforms cutHeader (openHttpConnectStream none none "h" 22 s) := by
  intro h
  have hlooks : LooksSuccessful cutHeader := ⟨_,mem_cons_self,Utf8.encode "00 OK\r\n",by decide +kernel⟩
  have hs : (Stream.mk [cutHeader] []).incoming.flatten = cutHeader := append_nil cutHeader
  obtain ⟨s',hopen,-,-⟩ := openHttpConnectStream_answers none none "h" 22 hlooks _ hs
  have hconforms := h _ hs
  rw [hopen] at hconforms
  obtain ⟨block,hheader,-,-,heq⟩ := hconforms
  have hinside : headerEnd <:+: cutHeader := hheader.ended.isInfix.trans ⟨[],s'.incoming.flatten,heq.symm⟩
  exact absurd hinside (by decide +kernel)

/-! ## The encoder of the credentials -/

open Base64 (standard)

def table : List Char := "ABCDEFGHIJKLMNOPQRSTUVWXYZabcdefghijklmnopqrstuvwxyz0123456789+/".toList

/-- The loop of `base64_simple` from an index on. An index that is not in the table is a panic, which is `none`. -/
def base64Loop (bytes : List UInt8) (index : ℕ) : Option (List Char) :=
  if h : index < bytes.length then do
    let b0 := bytes[index]
    let b1 := (bytes[index + 1]?).getD 0
    let b2 := (bytes[index + 2]?).getD 0
    let c0 ← table[(b0 >>> 2).toNat]?
    let c1 ← table[(((b0 &&& 3) <<< 4) ||| (b1 >>> 4)).toNat]?
    let c2 ← if index + 1 < bytes.length then table[(((b1 &&& 15) <<< 2) ||| (b2 >>> 6)).toNat]? else some '='
    let c3 ← if index + 2 < bytes.length then table[(b2 &&& 63).toNat]? else some '='
    let rest ← base64Loop bytes (index + 3)
    return c0 :: c1 :: c2 :: c3 :: rest
  else some []
termination_by bytes.length - index

theorem table_eq : table = standard.symbols := by decide +kernel

theorem table_digit {digit : ℕ} (h : digit < 64) : table[digit]? = some (Base64.symbol standard digit) := by
  rw [table_eq,Base64.symbol_eq standard (by rw [standard.length_eq]; exact h)]
  exact List.getElem?_eq_getElem _

/-! The sums of bits are sums of numbers. -/

theorem toNat_first (b : UInt8) : (b >>> 2).toNat = b.toNat / 4 := by
  simp [Nat.shiftRight_eq_div_pow]

theorem toNat_fourth (b : UInt8) : (b &&& 63).toNat = b.toNat % 64 := by
  simpa using Nat.and_two_pow_sub_one_eq_mod b.toNat 6

theorem or_digits (i : ℕ) {low : ℕ} (h : low < 2 ^ i) (high : ℕ) : high * 2 ^ i ||| low = high * 2 ^ i + low := by
  rw [Nat.mul_comm]
  exact (Nat.two_pow_add_eq_or_of_lt h high).symm

theorem toNat_second (a b : UInt8) : (((a &&& 3) <<< 4) ||| (b >>> 4)).toNat = a.toNat % 4 * 16 + b.toNat / 16 := by
  have hmask : a.toNat &&& 3 = a.toNat % 4 := Nat.and_two_pow_sub_one_eq_mod a.toNat 2
  have hlt : a.toNat % 4 * 16 % 256 = a.toNat % 4 * 16 := by omega
  simpa [Nat.shiftRight_eq_div_pow,Nat.shiftLeft_eq,hmask,hlt] using
    or_digits 4 (by have hb := b.toNat_lt; omega) (a.toNat % 4)

theorem toNat_third (a b : UInt8) : (((a &&& 15) <<< 2) ||| (b >>> 6)).toNat = a.toNat % 16 * 4 + b.toNat / 64 := by
  have hmask : a.toNat &&& 15 = a.toNat % 16 := Nat.and_two_pow_sub_one_eq_mod a.toNat 4
  have hlt : a.toNat % 16 * 4 % 256 = a.toNat % 16 * 4 := by omega
  simpa [Nat.shiftRight_eq_div_pow,Nat.shiftLeft_eq,hmask,hlt] using
    or_digits 2 (by have hb := b.toNat_lt; omega) (a.toNat % 16)

theorem table_first (b : UInt8) : table[(b >>> 2).toNat]? = some (Base64.symbol standard (b.toNat / 4)) := by
  have hb := b.toNat_lt
  rw [toNat_first,table_digit (by omega)]

theorem table_second (a b : UInt8) : table[(((a &&& 3) <<< 4) ||| (b >>> 4)).toNat]? =
    some (Base64.symbol standard (a.toNat % 4 * 16 + b.toNat / 16)) := by
  have hb := b.toNat_lt
  rw [toNat_second,table_digit (by omega)]

theorem table_third (a b : UInt8) : table[(((a &&& 15) <<< 2) ||| (b >>> 6)).toNat]? =
    some (Base64.symbol standard (a.toNat % 16 * 4 + b.toNat / 64)) := by
  have hb := b.toNat_lt
  rw [toNat_third,table_digit (by omega)]

theorem table_fourth (b : UInt8) : table[(b &&& 63).toNat]? = some (Base64.symbol standard (b.toNat % 64)) := by
  rw [toNat_fourth,table_digit (by omega)]

/-- What is left of the bytes is encoded. -/
theorem base64Loop_append (before rest : List UInt8) : base64Loop (before ++ rest) before.length =
    some (Base64.encodePadded standard rest).toList := by
  have hat (before rest : List UInt8) (i : ℕ) : (before ++ rest)[before.length + i]? = rest[i]? := by
    rw [List.getElem?_append_right (Nat.le_add_right ..),Nat.add_sub_cancel_left]
  fun_induction Base64.digits rest generalizing before with
  | case1 =>
    rw [base64Loop]
    simp [Base64.toList_encodePadded,Base64.encode,Base64.digits]
  | case2 a =>
    rw [base64Loop]
    simp only [table_first,table_second,table_third,table_fourth,hat]
    simp [base64Loop,Base64.toList_encodePadded,Base64.encode,Base64.digits]
  | case3 a b =>
    rw [base64Loop]
    simp only [table_first,table_second,table_third,table_fourth,hat]
    simp [base64Loop,Base64.toList_encodePadded,Base64.encode,Base64.digits]
  | case4 a b c rest ih =>
    have hrest := ih (before ++ [a,b,c])
    rw [List.append_assoc,List.length_append] at hrest
    rw [base64Loop]
    simp only [table_first,table_second,table_third,table_fourth,hat]
    simp [Base64.toList_encodePadded,Base64.encode,Base64.digits] at hrest ⊢
    simp [hrest,Nat.add_assoc]

/-- `base64_simple` finds every index in its table, and what it makes is base 64 with padding: RFC 4648 reads the bytes
of the value back, three bytes are four characters, and padding stands in the last four only. -/
theorem base64Simple_decodes (value : String) : ∃ text : String, base64Loop (Utf8.encode value) 0 = some text.toList ∧
    Base64.decodePadded? standard text = some (Utf8.encode value) ∧
    text.length = 4 * (((Utf8.encode value).length + 2) / 3) ∧
    ∀ i : ℕ, text.toList[i]? = some '=' → text.length ≤ i + 4 := by
  refine ⟨base64Simple value,?_,Base64.decodePadded?_encodePadded Base64.padding_standard _,
    Base64.length_encodePadded _,?_⟩
  · exact base64Loop_append [] (Utf8.encode value)
  · intro i hi
    exact (Base64.padding_last Base64.padding_standard hi).trans (by omega)

end Mxterm.HttpConnect
