import Mxterm.Socks5
import Mxterm.TelnetStreams

/-! The two ends of SOCKS5 agree about every target, and the server accepts nothing but requests. -/
namespace Mxterm.Socks5

open ByteStreams Execution List Utf8
open Telnet (toBeBytes)

/-! ## Bytes of a request -/

theorem byteAt_append (front back : List UInt8) (byte : UInt8) :
    byteAt (front ++ byte :: back) front.length = .ok byte := by
  simp [byteAt]

variable {i : ℕ}

theorem byteAt_lt {bytes : List UInt8} (h : i < bytes.length) : ∃ byte, byteAt bytes i = .ok byte := by
  simp [byteAt,getElem?_eq_getElem h]

theorem slice_append (front mid back : List UInt8) :
    slice (front ++ mid ++ back) front.length (front.length + mid.length) = .ok mid := by
  have hlength : (front ++ mid).length = front.length + mid.length := length_append
  rw [slice,if_pos ⟨Nat.le_add_right _ _,by simp⟩,← hlength,take_left,drop_left]

theorem slice_of_le {bytes : List UInt8} {start stop : ℕ} (h : start ≤ stop) (hstop : stop ≤ bytes.length) :
    ∃ part, slice bytes start stop = .ok part := ⟨_,if_pos ⟨h,hstop⟩⟩

variable {port : UInt16}

theorem socks5Port_ok {high low : UInt8} : socks5Port high low = .ok port ↔ port ≠ 0 ∧ [high,low] = toBeBytes port := by
  have hvalue : ∀ port : UInt16, [high,low] = toBeBytes port ↔
      UInt16.ofNat (256 * high.toNat + low.toNat) = port := by
    intro port
    obtain ⟨high',low',hbytes,hnat⟩ := Telnet.toBeBytes_value port
    have hhigh := high.toNat_lt
    have hlow := low.toNat_lt
    have hlow' := low'.toNat_lt
    rw [hbytes]
    constructor
    · intro heq
      obtain ⟨hsame,heq⟩ := List.cons.inj heq
      obtain ⟨hsame',-⟩ := List.cons.inj heq
      rw [hsame,hsame',← hnat,UInt16.ofNat_toNat]
    · intro heq
      have hnat' := congrArg UInt16.toNat heq
      rw [UInt16.toNat_ofNat'] at hnat'
      have hsame : high = high' := UInt8.toNat_inj.mp (by omega)
      have hsame' : low = low' := UInt8.toNat_inj.mp (by omega)
      rw [hsame,hsame']
  rw [socks5Port,hvalue]
  split_ifs with hzero
  · simp only [false_iff,not_and]
    exact fun hne heq => hne (heq ▸ hzero)
  · constructor
    · intro h
      exact ⟨Except.ok.inj h ▸ hzero,Except.ok.inj h⟩
    · exact fun h => congrArg Except.ok h.2

theorem socks5Port_inRange (high low : UInt8) : socks5Port high low ≠ .error .outOfRange := by
  rw [socks5Port]
  split_ifs
  · exact nofun
  · exact nofun

/-! ## The parser -/

section Parser

variable {head octets bytes : List UInt8} {high low : UInt8} {n : ℕ}

/-- Where an address of a fixed length stands in a request, and its port. -/
theorem fixed_address (high low : UInt8) (hhead : head.length = 4) (hoctets : octets.length = n) :
    slice (head ++ octets ++ [high,low]) 4 (4 + n) = .ok octets ∧
      byteAt (head ++ octets ++ [high,low]) (4 + n) = .ok high ∧
        byteAt (head ++ octets ++ [high,low]) (4 + n + 1) = .ok low := by
  have hslice := slice_append head octets [high,low]
  have hhigh := byteAt_append (head ++ octets) [low] high
  have hlow := byteAt_append (head ++ octets ++ [high]) [] low
  rw [hhead,hoctets] at hslice
  rw [length_append,hhead,hoctets] at hhigh
  rw [length_append,length_append,hhead,hoctets,append_assoc (head ++ octets)] at hlow
  exact ⟨hslice,hhigh,hlow⟩

theorem parseSocks5Ipv4Target_eq (hhead : head.length = 4) (hoctets : octets.length = 4) :
    parseSocks5Ipv4Target (head ++ octets ++ [high,low]) =
      (socks5Port high low).map fun port => ⟨ipv4String octets,port⟩ := by
  obtain ⟨hslice,hhigh,hlow⟩ := fixed_address high low hhead hoctets
  rw [parseSocks5Ipv4Target,if_neg (by simp [hhead,hoctets])]
  simp only [hslice,hhigh,hlow,bind,Except.bind]
  cases socks5Port high low <;> rfl

theorem parseSocks5Ipv6Target_eq (hhead : head.length = 4) (hoctets : octets.length = 16) :
    parseSocks5Ipv6Target (head ++ octets ++ [high,low]) =
      (socks5Port high low).map fun port => ⟨ipv6String octets,port⟩ := by
  obtain ⟨hslice,hhigh,hlow⟩ := fixed_address high low hhead hoctets
  rw [parseSocks5Ipv6Target,if_neg (by simp [hhead,hoctets])]
  simp only [hslice,hhigh,hlow,bind,Except.bind]
  cases socks5Port high low <;> rfl

theorem parseSocks5DomainTarget_eq (hhead : head.length = 4) {length : UInt8} (hbytes : bytes.length = length.toNat) :
    parseSocks5DomainTarget (head ++ [length] ++ bytes ++ [high,low]) =
      if length.toNat = 0 then .error (socksTargetError "SOCKS5 域名目标不完整。" "domain request too short")
      else
        match decode? bytes with
        | none => .error (socksTargetError "SOCKS5 域名目标无效。" "invalid utf-8")
        | some domain => (socks5Port high low).map fun port => ⟨domain,port⟩ := by
  have hfront : (head ++ [length]).length = 5 := by simp [hhead]
  have hlength := byteAt_append head (bytes ++ [high,low]) length
  have hslice := slice_append (head ++ [length]) bytes [high,low]
  have hhigh := byteAt_append (head ++ [length] ++ bytes) [low] high
  have hlow := byteAt_append (head ++ [length] ++ bytes ++ [high]) [] low
  rw [hhead,← singleton_append,← append_assoc,← append_assoc] at hlength
  rw [hfront,hbytes] at hslice
  rw [length_append,hfront,hbytes] at hhigh
  rw [length_append,length_append,hfront,hbytes,append_assoc (head ++ [length] ++ bytes)] at hlow
  have hlow' : byteAt (head ++ [length] ++ bytes ++ [high,low]) (5 + length.toNat + 1) = .ok low := hlow
  rw [parseSocks5DomainTarget]
  simp only [hlength,bind,Except.bind]
  by_cases hzero : length.toNat = 0
  · rw [if_pos (Or.inl hzero),if_pos hzero]
  · have hshort : ¬ (head ++ [length] ++ bytes ++ [high,low]).length < 5 + length.toNat + 2 := by
      rw [length_append,length_append,hfront,hbytes]
      simp
    rw [if_neg (by simp only [hzero,hshort,or_self,not_false_eq_true]),if_neg hzero]
    simp only [hslice,hhigh,hlow']
    cases decode? bytes with
    | none => rfl
    | some domain => cases socks5Port high low <;> rfl

theorem parseSocks5ConnectTarget_eq {version command reserved kind : UInt8} {tail : List UInt8}
    (htail : 3 ≤ tail.length) : parseSocks5ConnectTarget ([version,command,reserved,kind] ++ tail) =
      if version ≠ 0x05 then
        .error (socksHandshakeError "SOCKS5 版本不受支持。" ("version=" ++ toString version.toNat))
      else if command ≠ 0x01 then
        .error (socksHandshakeError "SOCKS5 暂只支持 CONNECT 请求。" ("command=" ++ toString command.toNat))
      else if reserved ≠ 0x00 then
        .error (socksHandshakeError "SOCKS5 请求格式无效。" ("reserved=" ++ toString reserved.toNat))
      else parseSocks5Address ([version,command,reserved,kind] ++ tail) kind := by
  rw [parseSocks5ConnectTarget,if_neg (by simpa using htail)]
  rfl

end Parser

/-! ## The server -/

/-- An address in a request. -/
inductive Socks5Address
  | ipv4 (octets : List UInt8) (length : octets.length = 4)
  | domain (name : String) (nonempty : name ≠ "") (length : (encode name).length ≤ 255)
  | ipv6 (octets : List UInt8) (length : octets.length = 16)

namespace Socks5Address

def kind : Socks5Address → UInt8
  | .ipv4 .. => 0x01
  | .domain .. => 0x03
  | .ipv6 .. => 0x04

def bytes : Socks5Address → List UInt8
  | .ipv4 octets _ => octets
  | .domain name _ _ => UInt8.ofNat (encode name).length :: encode name
  | .ipv6 octets _ => octets

def host : Socks5Address → String
  | .ipv4 octets _ => ipv4String octets
  | .domain name _ _ => name
  | .ipv6 octets _ => ipv6String octets

end Socks5Address

/-- A request to connect, behind the offer of a method without authentication. -/
structure Socks5Request where
  methods : List UInt8
  noAuth : 0x00 ∈ methods
  count : methods.length ≤ 255
  address : Socks5Address
  port : UInt16
  port_ne : port ≠ 0

namespace Socks5Request

def bytes (request : Socks5Request) : List UInt8 :=
  [0x05,UInt8.ofNat request.methods.length] ++ (request.methods ++
    ([0x05,0x01,0x00,request.address.kind] ++ (request.address.bytes ++ toBeBytes request.port)))

def target (request : Socks5Request) : Socks5ConnectTarget := ⟨request.address.host,request.port⟩

end Socks5Request

variable {n : ℕ}

theorem ofNat_toNat_of_le (h : n ≤ 255) : (UInt8.ofNat n).toNat = n := by
  rw [UInt8.toNat_ofNat']
  omega

theorem encode_ne_nil {name : String} (h : name ≠ "") : (encode name).length ≠ 0 := fun hzero =>
  h (encode_injective ((length_eq_zero_iff.mp hzero).trans encode_empty.symm))

variable {rest : List UInt8}

theorem readMethods_answers {methods : List UInt8} (h : 0x00 ∈ methods) :
    Answers (readMethods methods.length) (methods ++ rest) rest [0x05,0x00] () := by
  refine Answers.bind (Answers.receive rfl _) ?_
  rw [selectSocks5NoAuthMethod,if_pos h]
  exact Answers.send _

theorem readGreeting_answers {methods : List UInt8} (h : 0x00 ∈ methods) (hcount : methods.length ≤ 255) :
    Answers readGreeting ([0x05,UInt8.ofNat methods.length] ++ (methods ++ rest)) rest [0x05,0x00] () := by
  have hlength := ofNat_toNat_of_le hcount
  have hne : UInt8.ofNat methods.length ≠ 0 := by
    intro hzero
    rw [hzero] at hlength
    exact ne_nil_of_mem h (length_eq_zero_iff.mp hlength.symm)
  refine Answers.bind (Answers.receive rfl _) ?_
  refine Answers.bind (Answers.lift rfl) ?_
  refine Answers.bind (Answers.lift rfl) ?_
  rw [if_neg hne,hlength]
  exact readMethods_answers h

theorem parse_address (address : Socks5Address) (hport : port ≠ 0) :
    parseSocks5ConnectTarget ([0x05,0x01,0x00,address.kind] ++ (address.bytes ++ toBeBytes port)) =
      .ok ⟨address.host,port⟩ := by
  obtain ⟨high,low,hbytes,-⟩ := Telnet.toBeBytes_value port
  have hsocks : socks5Port high low = .ok port := socks5Port_ok.mpr ⟨hport,hbytes.symm⟩
  rw [hbytes]
  cases address with
  | ipv4 octets hlength =>
    rw [parseSocks5ConnectTarget_eq (by simp [Socks5Address.bytes,hlength])]
    change parseSocks5Ipv4Target ([0x05,0x01,0x00,0x01] ++ (octets ++ [high,low])) = _
    rw [← append_assoc,parseSocks5Ipv4Target_eq rfl hlength,hsocks]
    rfl
  | ipv6 octets hlength =>
    rw [parseSocks5ConnectTarget_eq (by simp [Socks5Address.bytes,hlength])]
    change parseSocks5Ipv6Target ([0x05,0x01,0x00,0x04] ++ (octets ++ [high,low])) = _
    rw [← append_assoc,parseSocks5Ipv6Target_eq rfl hlength,hsocks]
    rfl
  | domain name hname hlength =>
    have hnat := ofNat_toNat_of_le hlength
    rw [parseSocks5ConnectTarget_eq (by simp [Socks5Address.bytes])]
    change parseSocks5DomainTarget ([0x05,0x01,0x00,0x03] ++ [UInt8.ofNat (encode name).length] ++
      encode name ++ [high,low]) = _
    rw [parseSocks5DomainTarget_eq rfl hnat.symm,if_neg (by rw [hnat]; exact encode_ne_nil hname),
      decode?_encode,hsocks]
    rfl

theorem readExtraLength_domain (version command reserved length : UInt8) :
    Answers (readExtraLength [version,command,reserved,0x03]) ([length] ++ rest) rest []
      ([version,command,reserved,0x03,length],length.toNat + 2) :=
  Answers.bind (Answers.lift rfl) (Answers.bind (Answers.receive rfl _)
    (Answers.bind (Answers.lift rfl) (Answers.lift (r := .ok _) rfl)))

theorem readRequest_answers (address : Socks5Address) (hport : port ≠ 0) :
    Answers readRequest ([0x05,0x01,0x00,address.kind] ++ (address.bytes ++ (toBeBytes port ++ rest))) rest []
      ⟨address.host,port⟩ := by
  have hparse := parse_address address hport
  have hport2 : (toBeBytes port).length = 2 := rfl
  refine Answers.bind (Answers.receive rfl _) ?_
  cases address with
  | ipv4 octets hlength =>
    rw [show Socks5Address.bytes _ = octets from rfl,← append_assoc]
    exact Answers.bind (Answers.receive (by simp [hlength,hport2]) _) (Answers.lift hparse)
  | ipv6 octets hlength =>
    rw [show Socks5Address.bytes _ = octets from rfl,← append_assoc]
    exact Answers.bind (Answers.receive (by simp [hlength,hport2]) _) (Answers.lift hparse)
  | domain name hname hlength =>
    have hnat := ofNat_toNat_of_le hlength
    refine Answers.bind (@readExtraLength_domain (encode name ++ (toBeBytes port ++ rest)) _ _ _
      (UInt8.ofNat (encode name).length)) ?_
    rw [← append_assoc]
    exact Answers.bind (Answers.receive (by simp [hnat,hport2]) _) (Answers.lift hparse)

theorem readSocks5ConnectTarget_answers (request : Socks5Request) :
    Answers readSocks5ConnectTarget (request.bytes ++ rest) rest [0x05,0x00] request.target := by
  have hgreeting := @readGreeting_answers ([0x05,0x01,0x00,request.address.kind] ++
    (request.address.bytes ++ (toBeBytes request.port ++ rest))) _ request.noAuth request.count
  have hbytes : request.bytes ++ rest = [0x05,UInt8.ofNat request.methods.length] ++ (request.methods ++
      ([0x05,0x01,0x00,request.address.kind] ++ (request.address.bytes ++ (toBeBytes request.port ++ rest)))) := by
    simp only [Socks5Request.bytes,append_assoc]
  rw [hbytes]
  exact Answers.bind hgreeting (readRequest_answers request.address request.port_ne)

/-! ### What the server accepts -/

variable {s s' : Stream} {target : Socks5ConnectTarget}

theorem length_two {bytes : List UInt8} (h : bytes.length = 2) : ∃ a b, bytes = [a,b] := by
  match bytes,h with
  | [a,b],_ => exact ⟨a,b,rfl⟩

theorem length_four {bytes : List UInt8} (h : bytes.length = 4) : ∃ a b c d, bytes = [a,b,c,d] := by
  match bytes,h with
  | [a,b,c,d],_ => exact ⟨a,b,c,d,rfl⟩

theorem last_two {bytes : List UInt8} (h : bytes.length = n + 2) :
    ∃ front a b, bytes = front ++ [a,b] ∧ front.length = n := by
  have htwo : (bytes.drop n).length = 2 := by rw [length_drop]; omega
  obtain ⟨a,b,hab⟩ := length_two htwo
  exact ⟨bytes.take n,a,b,by rw [← hab,take_append_drop],length_take_of_le (by omega)⟩

theorem readMethods_ok {count : ℕ} (h : readMethods count s = .ok () s') :
    ∃ methods, s.incoming.flatten = methods ++ s'.incoming.flatten ∧ methods.length = count ∧ 0x00 ∈ methods := by
  obtain ⟨methods,t,hreceive,h⟩ := (bind_ok _ _ _ _ _).mp h
  obtain ⟨hflatten,hlength⟩ := receive_ok hreceive
  by_cases hmem : 0x00 ∈ methods
  · rw [selectSocks5NoAuthMethod,if_pos hmem] at h
    obtain ⟨-,rfl⟩ := EStateM.Result.ok.inj h
    exact ⟨methods,hflatten,hlength,hmem⟩
  · rw [selectSocks5NoAuthMethod,if_neg hmem] at h
    cases h

theorem readGreeting_ok (h : readGreeting s = .ok () s') :
    ∃ methods, s.incoming.flatten =
        [0x05,UInt8.ofNat methods.length] ++ (methods ++ s'.incoming.flatten) ∧
      0x00 ∈ methods ∧ methods.length ≤ 255 := by
  obtain ⟨greeting,t,hreceive,h⟩ := (bind_ok _ _ _ _ _).mp h
  obtain ⟨hflatten,hlength⟩ := receive_ok hreceive
  obtain ⟨version,count,rfl⟩ := length_two hlength
  change (if version ≠ 0x05 then _ else if count = 0 then _ else readMethods count.toNat) t = _ at h
  split_ifs at h with hversion hcount
  · cases h
  · cases h
  · obtain ⟨methods,hmethods,hlength,hmem⟩ := readMethods_ok h
    have hle : methods.length ≤ 255 := by
      have hlt := count.toNat_lt
      omega
    refine ⟨methods,?_,hmem,hle⟩
    rw [hflatten,hmethods,hlength,UInt8.ofNat_toNat,not_not.mp hversion]

theorem socks5Port_map_ok {high low : UInt8} {host : String}
    (h : ((socks5Port high low).map fun port => (⟨host,port⟩ : Socks5ConnectTarget)) = .ok target) :
    ∃ port, port ≠ 0 ∧ [high,low] = toBeBytes port ∧ target = ⟨host,port⟩ := by
  cases hport : socks5Port high low with
  | error error =>
    rw [hport] at h
    cases h
  | ok port =>
    rw [hport] at h
    obtain ⟨hne,hbytes⟩ := socks5Port_ok.mp hport
    exact ⟨port,hne,hbytes,(Except.ok.inj h).symm⟩

variable {request : List UInt8}

theorem readExtraLength_ok {version command reserved kind : UInt8}
    (h : readExtraLength [version,command,reserved,kind] s = .ok (request,n) s') :
    (kind = 0x01 ∧ request = [version,command,reserved,kind] ∧ n = 6 ∧ s' = s) ∨
    (kind = 0x04 ∧ request = [version,command,reserved,kind] ∧ n = 18 ∧ s' = s) ∨
    kind = 0x03 ∧ ∃ length, request = [version,command,reserved,kind,length] ∧ n = length.toNat + 2 ∧
      s.incoming.flatten = length :: s'.incoming.flatten := by
  obtain ⟨other,t,hlift,h⟩ := (bind_ok _ _ _ _ _).mp h
  obtain ⟨hkind,rfl⟩ := (lift_ok _ _ _ _).mp hlift
  cases hkind
  split_ifs at h with hipv4 hdomain hipv6
  · obtain ⟨hresult,rfl⟩ := EStateM.Result.ok.inj h
    cases hresult
    exact Or.inl ⟨hipv4,rfl,rfl,rfl⟩
  · obtain ⟨bytes,t,hreceive,h⟩ := (bind_ok _ _ _ _ _).mp h
    obtain ⟨hflatten,hlength⟩ := receive_ok hreceive
    obtain ⟨length,rfl⟩ := length_eq_one_iff.mp hlength
    obtain ⟨hresult,rfl⟩ := EStateM.Result.ok.inj h
    cases hresult
    exact Or.inr (Or.inr ⟨hdomain,length,rfl,rfl,hflatten⟩)
  · obtain ⟨hresult,rfl⟩ := EStateM.Result.ok.inj h
    cases hresult
    exact Or.inr (Or.inl ⟨hipv6,rfl,rfl,rfl⟩)
  · cases h

theorem parseSocks5ConnectTarget_ok {version command reserved kind : UInt8} {tail : List UInt8}
    (htail : 3 ≤ tail.length) (h : parseSocks5ConnectTarget ([version,command,reserved,kind] ++ tail) = .ok target) :
    version = 0x05 ∧ command = 0x01 ∧ reserved = 0x00 ∧
      parseSocks5Address ([version,command,reserved,kind] ++ tail) kind = .ok target := by
  rw [parseSocks5ConnectTarget_eq htail] at h
  split_ifs at h with hversion hcommand hreserved
  exact ⟨not_not.mp hversion,not_not.mp hcommand,not_not.mp hreserved,h⟩

theorem readRequest_ok (h : readRequest s = .ok target s') : ∃ (address : Socks5Address) (port : UInt16),
    port ≠ 0 ∧ target = ⟨address.host,port⟩ ∧ s.incoming.flatten = [0x05,0x01,0x00,address.kind] ++
      (address.bytes ++ (toBeBytes port ++ s'.incoming.flatten)) := by
  obtain ⟨head,t,hreceive,h⟩ := (bind_ok _ _ _ _ _).mp h
  obtain ⟨hflatten,hlength⟩ := receive_ok hreceive
  obtain ⟨version,command,reserved,kind,rfl⟩ := length_four hlength
  obtain ⟨⟨request,n⟩,u,hextra,h⟩ := (bind_ok _ _ _ _ _).mp h
  obtain ⟨extra,v,hreceive',h⟩ := (bind_ok _ _ _ _ _).mp h
  obtain ⟨hflatten',hn⟩ := receive_ok hreceive'
  obtain ⟨hparse,rfl⟩ := (lift_ok _ _ _ _).mp h
  rcases readExtraLength_ok hextra with ⟨rfl,rfl,rfl,rfl⟩ | ⟨rfl,rfl,rfl,rfl⟩ | ⟨rfl,length,rfl,rfl,hlen⟩
  · obtain ⟨octets,high,low,rfl,hoctets⟩ := last_two (n := 4) hn
    obtain ⟨rfl,rfl,rfl,haddress⟩ := parseSocks5ConnectTarget_ok (by simp [hoctets]) hparse
    change parseSocks5Ipv4Target _ = _ at haddress
    rw [← append_assoc,parseSocks5Ipv4Target_eq rfl hoctets] at haddress
    obtain ⟨port,hport,hbytes,htarget⟩ := socks5Port_map_ok haddress
    refine ⟨.ipv4 octets hoctets,port,hport,htarget,?_⟩
    rw [hflatten,hflatten',hbytes,append_assoc]
    rfl
  · obtain ⟨octets,high,low,rfl,hoctets⟩ := last_two (n := 16) hn
    obtain ⟨rfl,rfl,rfl,haddress⟩ := parseSocks5ConnectTarget_ok (by simp [hoctets]) hparse
    change parseSocks5Ipv6Target _ = _ at haddress
    rw [← append_assoc,parseSocks5Ipv6Target_eq rfl hoctets] at haddress
    obtain ⟨port,hport,hbytes,htarget⟩ := socks5Port_map_ok haddress
    refine ⟨.ipv6 octets hoctets,port,hport,htarget,?_⟩
    rw [hflatten,hflatten',hbytes,append_assoc]
    rfl
  · obtain ⟨bytes,high,low,rfl,hbytes⟩ := last_two hn
    have htail : 3 ≤ (length :: (bytes ++ [high,low])).length := by simp
    obtain ⟨rfl,rfl,rfl,haddress⟩ := parseSocks5ConnectTarget_ok htail hparse
    change parseSocks5DomainTarget ([0x05,0x01,0x00,0x03] ++ [length] ++ (bytes ++ [high,low])) = _ at haddress
    rw [← append_assoc,parseSocks5DomainTarget_eq rfl hbytes] at haddress
    split_ifs at haddress with hzero
    cases hdecode : decode? bytes with
    | none =>
      rw [hdecode] at haddress
      cases haddress
    | some domain =>
      rw [hdecode] at haddress
      obtain ⟨port,hport,hportBytes,htarget⟩ := socks5Port_map_ok haddress
      have hencode := encode_of_decode? hdecode
      have hlength' : (encode domain).length = length.toNat := by rw [hencode,hbytes]
      have hlt := length.toNat_lt
      have hne : domain ≠ "" := by
        rintro rfl
        exact hzero hlength'.symm
      have hname : UInt8.ofNat (encode domain).length :: encode domain = length :: bytes := by
        rw [hlength',hencode,UInt8.ofNat_toNat]
      have hle : (encode domain).length ≤ 255 := by omega
      have haddress' : (Socks5Address.domain domain hne hle).bytes = length :: bytes := hname
      refine ⟨.domain domain hne hle,port,hport,htarget,?_⟩
      rw [hflatten,hlen,hflatten',hportBytes,append_assoc,haddress']
      rfl

theorem readSocks5ConnectTarget_ok (h : readSocks5ConnectTarget s = .ok target s') :
    ∃ request : Socks5Request, s.incoming.flatten = request.bytes ++ s'.incoming.flatten ∧
      target = request.target := by
  obtain ⟨_,t,hgreeting,hrequest⟩ := (bind_ok _ _ _ _ _).mp h
  obtain ⟨methods,hflatten,hmem,hcount⟩ := readGreeting_ok hgreeting
  obtain ⟨address,port,hport,htarget,hflatten'⟩ := readRequest_ok hrequest
  refine ⟨⟨methods,hmem,hcount,address,port,hport⟩,?_,htarget⟩
  rw [hflatten,hflatten']
  simp only [Socks5Request.bytes,append_assoc]

/-! ### No index out of range -/

theorem byteAt_inRange {bytes : List UInt8} (h : i < bytes.length) : byteAt bytes i ≠ .error .outOfRange := by
  obtain ⟨byte,hbyte⟩ := byteAt_lt h
  rw [hbyte]
  exact nofun

theorem bind_inRange {α β : Type} {x : Except Fault α} {f : α → Except Fault β} (hx : x ≠ .error .outOfRange)
    (hf : ∀ a, x = .ok a → f a ≠ .error .outOfRange) : (x >>= f) ≠ .error .outOfRange := by
  cases x with
  | error error => exact fun h => hx (congrArg Except.error (Except.error.inj h))
  | ok a => exact hf a rfl

theorem targetAt_inRange (h : i + 1 < request.length) (host : String) :
    (do
      let high ← byteAt request i
      let low ← byteAt request (i + 1)
      let port ← socks5Port high low
      .ok ⟨host,port⟩ : Except Fault Socks5ConnectTarget) ≠ .error .outOfRange := by
  refine bind_inRange (byteAt_inRange (by omega)) fun high _ => ?_
  refine bind_inRange (byteAt_inRange h) fun low _ => ?_
  exact bind_inRange (socks5Port_inRange high low) fun port _ => nofun

theorem slice_inRange {bytes : List UInt8} {start stop : ℕ} (h : start ≤ stop) (hstop : stop ≤ bytes.length) :
    slice bytes start stop ≠ .error .outOfRange := by
  obtain ⟨part,hpart⟩ := slice_of_le h hstop
  rw [hpart]
  exact nofun

theorem parseSocks5Address_inRange (h : 7 ≤ request.length) (kind : UInt8) :
    parseSocks5Address request kind ≠ .error .outOfRange := by
  rw [parseSocks5Address]
  split_ifs
  · rw [parseSocks5Ipv4Target]
    split_ifs with hshort
    · exact nofun
    · refine bind_inRange (slice_inRange (by omega) (by omega)) fun octets _ => ?_
      exact targetAt_inRange (by omega) _
  · refine bind_inRange (byteAt_inRange (by omega)) fun length _ => ?_
    dsimp only
    split_ifs with hshort
    · exact nofun
    · refine bind_inRange (slice_inRange (by omega) (by omega)) fun bytes _ => ?_
      cases decode? bytes with
      | none => exact nofun
      | some domain => exact targetAt_inRange (by omega) _
  · rw [parseSocks5Ipv6Target]
    split_ifs with hshort
    · exact nofun
    · refine bind_inRange (slice_inRange (by omega) (by omega)) fun octets _ => ?_
      exact targetAt_inRange (by omega) _
  · exact nofun

theorem parseSocks5ConnectTarget_inRange (request : List UInt8) :
    parseSocks5ConnectTarget request ≠ .error .outOfRange := by
  rw [parseSocks5ConnectTarget]
  split_ifs with hshort
  · exact nofun
  · refine bind_inRange (byteAt_inRange (by omega)) fun version _ => ?_
    refine bind_inRange (byteAt_inRange (by omega)) fun command _ => ?_
    refine bind_inRange (byteAt_inRange (by omega)) fun reserved _ => ?_
    refine bind_inRange (byteAt_inRange (by omega)) fun kind _ => ?_
    split_ifs
    · exact nofun
    · exact nofun
    · exact nofun
    · exact parseSocks5Address_inRange (by omega) kind

theorem readGreeting_inRange : readGreeting s ≠ .error .outOfRange s' := by
  intro h
  rcases (bind_error _ _ _ _ _).mp h with h | ⟨greeting,t,hreceive,h⟩
  · cases receive_error h
  · obtain ⟨version,count,rfl⟩ := length_two (receive_ok hreceive).2
    change (if version ≠ 0x05 then throw _ else if count = 0 then _ else readMethods count.toNat :
      EStateM Fault Stream Unit) t = _ at h
    split_ifs at h with hversion hcount
    · cases h
    · cases h
    · rcases (bind_error _ _ _ _ _).mp h with h | ⟨methods,u,-,h⟩
      · cases receive_error h
      · rw [selectSocks5NoAuthMethod] at h
        split_ifs at h
        · cases h
        · cases h

theorem readExtraLength_inRange (hlength : request.length = 4) : readExtraLength request s ≠ .error .outOfRange s' := by
  obtain ⟨version,command,reserved,kind,rfl⟩ := length_four hlength
  intro h
  rcases (bind_error _ _ _ _ _).mp h with h | ⟨other,t,-,h⟩
  · cases (lift_error _ _ _ _).mp h with
    | intro herror _ => cases herror
  · split_ifs at h
    · cases h
    · rcases (bind_error _ _ _ _ _).mp h with h | ⟨bytes,u,hreceive,h⟩
      · cases receive_error h
      · obtain ⟨length,rfl⟩ := length_eq_one_iff.mp (receive_ok hreceive).2
        cases h
    · cases h
    · cases h

theorem readSocks5ConnectTarget_inRange : readSocks5ConnectTarget s ≠ .error .outOfRange s' := by
  intro h
  rcases (bind_error _ _ _ _ _).mp h with h | ⟨_,t,-,h⟩
  · exact readGreeting_inRange h
  · rcases (bind_error _ _ _ _ _).mp h with h | ⟨head,u,hreceive,h⟩
    · cases receive_error h
    · rcases (bind_error _ _ _ _ _).mp h with h | ⟨⟨request,n⟩,v,-,h⟩
      · exact readExtraLength_inRange (receive_ok hreceive).2 h
      · rcases (bind_error _ _ _ _ _).mp h with h | ⟨extra,w,-,h⟩
        · cases receive_error h
        · exact parseSocks5ConnectTarget_inRange _ ((lift_error _ _ _ _).mp h).1

/-! ## The client -/

section Client

variable {username password : Option String} {host : String} {port : UInt16} {payload : List UInt8}

theorem readSocks5ConnectResponse_answers :
    Answers readSocks5ConnectResponse (socks5Reply 0x00 ++ payload) payload [] () := by
  refine Answers.bind (Answers.receive (show [0x05,0x00,0x00,0x01].length = 4 from rfl) _) ?_
  exact Answers.bind (Answers.receive (show [0,0,0,0,0,0].length = 6 from rfl) _) (Answers.lift (r := .ok ()) rfl)

theorem readSocks5ConnectResponse_rejects {reply : UInt8} (h : reply ≠ 0) :
    Rejects readSocks5ConnectResponse (socks5Reply reply ++ payload)
      ⟨"proxy_connect_rejected","SOCKS5 代理拒绝连接目标主机。",debugBytes [0x05,reply,0x00,0x01],true⟩ := by
  refine Rejects.bind (Answers.receive (show [0x05,reply,0x00,0x01].length = 4 from rfl) _) ?_
  rw [if_neg (by simpa using h)]
  exact Rejects.throw

/-- The client, behind the selection of a method. -/
def sendRequest (host : String) (port : UInt16) : EStateM AppError Stream Unit :=
  if (encode host).length > 255 then throw ⟨"proxy_target_invalid","SOCKS5 目标主机过长。",host,true⟩
  else do
    send (connectRequest host port)
    readSocks5ConnectResponse

variable {input : List UInt8}

theorem acceptMethod_noAuth : Answers (acceptMethod username password [0x05,0x00]) input input [] () := by
  exact Answers.lift (r := .ok ()) rfl

theorem openSocks5Stream_answers (hlength : (encode host).length ≤ 255) :
    Answers (openSocks5Stream username password host port) ([0x05,0x00] ++ (socks5Reply 0x00 ++ payload)) payload
      (clientMethods username ++ connectRequest host port) () := by
  have hrequest : Answers (sendRequest host port) (socks5Reply 0x00 ++ payload) payload
      (connectRequest host port ++ []) () := by
    rw [sendRequest,if_neg (by omega)]
    exact Answers.bind (Answers.send _) readSocks5ConnectResponse_answers
  rw [← append_nil (connectRequest host port)]
  change Answers _ _ _ (clientMethods username ++ ([] ++ ([] ++ (connectRequest host port ++ [])))) ()
  exact Answers.bind (Answers.send _) (Answers.bind (Answers.receive rfl _)
    (Answers.bind acceptMethod_noAuth hrequest))

theorem openSocks5Stream_rejects {error : AppError} (h : Rejects (sendRequest host port) input error) :
    Rejects (openSocks5Stream username password host port) ([0x05,0x00] ++ input) error := by
  exact Rejects.bind (Answers.send _) (Rejects.bind (Answers.receive rfl _) (Rejects.bind acceptMethod_noAuth h))

theorem sendRequest_refused (hlength : (encode host).length ≤ 255) {reply : UInt8} (h : reply ≠ 0) :
    Rejects (sendRequest host port) (socks5Reply reply ++ payload)
      ⟨"proxy_connect_rejected","SOCKS5 代理拒绝连接目标主机。",debugBytes [0x05,reply,0x00,0x01],true⟩ := by
  rw [sendRequest,if_neg (by omega)]
  exact Rejects.bind (Answers.send _) (readSocks5ConnectResponse_rejects h)

theorem sendRequest_tooLong (hlength : 255 < (encode host).length) :
    Rejects (sendRequest host port) input ⟨"proxy_target_invalid","SOCKS5 目标主机过长。",host,true⟩ := by
  rw [sendRequest,if_pos hlength]
  exact Rejects.throw

/-- What the client sends without a user name is a request. -/
theorem clientRequest (husername : username.getD "" = "") (hhost : host ≠ "")
    (hlength : (encode host).length ≤ 255) (hport : port ≠ 0) : ∃ request : Socks5Request,
      request.bytes = clientMethods username ++ connectRequest host port ∧ request.target = ⟨host,port⟩ := by
  refine ⟨⟨[0x00],mem_singleton_self _,by decide,.domain host hhost hlength,port,hport⟩,?_,rfl⟩
  rw [clientMethods,if_pos husername]
  rfl

end Client

/-! ## Both ends -/

/-- The two ends of the handshake agree. -/
structure EndsAgree : Prop where
  /-- What the client sends is what the server reads, to the last byte. -/
  target : ∀ (username password : Option String) (host : String) (port : UInt16) (payload reply : List UInt8),
    username.getD "" = "" → (encode host).length ≤ 255 → host ≠ "" → port ≠ 0 → ∃ sent,
      Answers (openSocks5Stream username password host port)
        ([0x05,0x00] ++ (socks5Reply 0x00 ++ reply)) reply sent () ∧
      Answers readSocks5ConnectTarget (sent ++ payload) payload [0x05,0x00] ⟨host,port⟩
  /-- The client accepts a reply exactly when its code is zero. -/
  refused : ∀ (username password : Option String) (host : String) (port : UInt16) (code : UInt8) (rest : List UInt8),
    (encode host).length ≤ 255 → code ≠ 0 →
      ∃ error, Rejects (openSocks5Stream username password host port) ([0x05,0x00] ++ (socks5Reply code ++ rest)) error
  tooLong : ∀ (username password : Option String) (host : String) (port : UInt16) (input : List UInt8),
    255 < (encode host).length →
      ∃ error, Rejects (openSocks5Stream username password host port) ([0x05,0x00] ++ input) error
  /-- The server accepts requests, and nothing else. -/
  requests : ∀ (s : Stream) (target : Socks5ConnectTarget), (∃ s', readSocks5ConnectTarget s = .ok target s') ↔
    ∃ (request : Socks5Request) (rest : List UInt8),
      s.incoming.flatten = request.bytes ++ rest ∧ target = request.target
  inRange : ∀ s s' : Stream, readSocks5ConnectTarget s ≠ .error .outOfRange s'

/-- The client and the server of SOCKS5 agree about the target and about the bytes of the handshake, however the
streams are cut into reads. -/
theorem socks5_ends_agree : EndsAgree where
  target username password host port payload reply husername hlength hhost hport := by
    refine ⟨_,openSocks5Stream_answers hlength,?_⟩
    obtain ⟨request,hbytes,htarget⟩ := clientRequest husername hhost hlength hport
    rw [← hbytes,← htarget]
    exact readSocks5ConnectTarget_answers request
  refused username password host port code rest hlength hcode :=
    ⟨_,openSocks5Stream_rejects (sendRequest_refused hlength hcode)⟩
  tooLong username password host port input hlength := ⟨_,openSocks5Stream_rejects (sendRequest_tooLong hlength)⟩
  requests s target := by
    constructor
    · rintro ⟨s',h⟩
      obtain ⟨request,hflatten,htarget⟩ := readSocks5ConnectTarget_ok h
      exact ⟨request,s'.incoming.flatten,hflatten,htarget⟩
    · rintro ⟨request,rest,hflatten,rfl⟩
      obtain ⟨s',hread,-⟩ := readSocks5ConnectTarget_answers request s hflatten
      exact ⟨s',hread⟩
  inRange _ _ := readSocks5ConnectTarget_inRange

/-- A request with an IPv4 address, which the client never sends. -/
def ipv4Input : List UInt8 := [0x05,0x01,0x00,0x05,0x01,0x00,0x01,127,0,0,1,0x15,0x38]

theorem other_input_accepted : (∀ (username : Option String) (host : String) (port : UInt16) (rest : List UInt8),
      clientMethods username ++ connectRequest host port ++ rest ≠ ipv4Input) ∧
    ∃ s', readSocks5ConnectTarget ⟨[ipv4Input],[]⟩ = .ok ⟨"127.0.0.1",5432⟩ s' := by
  refine ⟨fun username host port rest h => ?_,_,rfl⟩
  rw [clientMethods] at h
  split_ifs at h
  · have hkind := congrArg (fun bytes => bytes[6]?) h
    cases hkind
  · have hcount := congrArg (fun bytes => bytes[1]?) h
    cases hcount

end Mxterm.Socks5
