import Mxterm.Values

/-! Internet addresses of both versions: how they are read and written as text, and which of them do not lead out of
the own network. -/
namespace Mxterm

structure Ipv4Addr where
  a : UInt8
  b : UInt8
  c : UInt8
  d : UInt8
  deriving DecidableEq

structure Ipv6Addr where
  segments : List UInt16
  length_segments : segments.length = 8
  deriving DecidableEq

inductive IpAddr
  | v4 (value : Ipv4Addr)
  | v6 (value : Ipv6Addr)
  deriving DecidableEq

namespace Ipv4Addr

def isPrivate (ip : Ipv4Addr) : Bool :=
  ip.a = 10 ∨ (ip.a = 172 ∧ 16 ≤ ip.b ∧ ip.b ≤ 31) ∨ (ip.a = 192 ∧ ip.b = 168)

def isLoopback (ip : Ipv4Addr) : Bool := ip.a = 127

def isLinkLocal (ip : Ipv4Addr) : Bool := ip.a = 169 ∧ ip.b = 254

def isUnspecified (ip : Ipv4Addr) : Bool := ip = ⟨0,0,0,0⟩

def decimal (octet : UInt8) : List Char := Nat.toDigits 10 octet.toNat

/-- `Display`: the octets in decimal, with dots between. -/
def chars (ip : Ipv4Addr) : List Char :=
  decimal ip.a ++ '.' :: (decimal ip.b ++ '.' :: (decimal ip.c ++ '.' :: decimal ip.d))

end Ipv4Addr

namespace Ipv6Addr

def first (ip : Ipv6Addr) : UInt16 := ip.segments.headD 0

def isLoopback (ip : Ipv6Addr) : Bool := ip.segments = [0,0,0,0,0,0,0,1]

def isUnspecified (ip : Ipv6Addr) : Bool := ip.segments = [0,0,0,0,0,0,0,0]

def isMulticast (ip : Ipv6Addr) : Bool := ip.first &&& 0xff00 = 0xff00

def isUniqueLocal (ip : Ipv6Addr) : Bool := ip.first &&& 0xfe00 = 0xfc00

def isUnicastLinkLocal (ip : Ipv6Addr) : Bool := ip.first &&& 0xffc0 = 0xfe80

/-- The address of version 4 that `::ffff:a.b.c.d` stands for. -/
def toIpv4Mapped (ip : Ipv6Addr) : Option Ipv4Addr :=
  match ip.segments with
  | [0,0,0,0,0,0xffff,high,low] => some ⟨(high >>> 8).toUInt8,high.toUInt8,(low >>> 8).toUInt8,low.toUInt8⟩
  | _ => none

def ofSegments? (segments : List ℕ) : Option Ipv6Addr :=
  if h : (segments.map UInt16.ofNat).length = 8 then some ⟨segments.map UInt16.ofNat,h⟩ else none

/-- The first longest run of zeros: where it begins and how long it is. -/
def longestZeros (segments : List UInt16) : ℕ × ℕ :=
  (segments.foldl (fun (i,current,longest) segment =>
    if segment = 0 then
      let current : ℕ × ℕ := if current.2 = 0 then (i,1) else (current.1,current.2 + 1)
      (i + 1,current,if longest.2 < current.2 then current else longest)
    else (i + 1,(0,0),longest)) ((0,(0,0),(0,0)) : ℕ × (ℕ × ℕ) × (ℕ × ℕ))).2.2

def hexadecimal (segments : List UInt16) : List Char :=
  [':'].intercalate (segments.map fun segment => Nat.toDigits 16 segment.toNat)

/-- The segments in hexadecimal, the longest run of zeros left out. -/
def compressed (segments : List UInt16) : List Char :=
  let (start,length) := longestZeros segments
  if 1 < length then
    hexadecimal (segments.take start) ++ ':' :: ':' :: hexadecimal (segments.drop (start + length))
  else hexadecimal segments

/-- `Display`. -/
def chars (ip : Ipv6Addr) : List Char :=
  match ip.toIpv4Mapped with
  | some mapped => "::ffff:".toList ++ mapped.chars
  | none => compressed ip.segments

end Ipv6Addr

namespace IpAddr

def toString : IpAddr → String
  | .v4 value => String.ofList value.chars
  | .v6 value => String.ofList value.chars

/-! ## Addresses in texts -/

def toDigit (radix : ℕ) (c : Char) : Option ℕ :=
  let value :=
    if '0' ≤ c ∧ c ≤ '9' then some (c.toNat - 48)
    else if 'a' ≤ c ∧ c ≤ 'f' then some (c.toNat - 87)
    else if 'A' ≤ c ∧ c ≤ 'F' then some (c.toNat - 55)
    else none
  value.filter (· < radix)

/-- A number of at most so many digits, and the characters behind it. -/
def readNumber (radix maxDigits : ℕ) (allowZeros : Bool) (bound : ℕ) (cs : List Char) : Option (ℕ × List Char) :=
  let digits := cs.takeWhile fun c => (toDigit radix c).isSome
  let value := digits.foldl (fun value c => value * radix + (toDigit radix c).getD 0) 0
  if digits = [] ∨ maxDigits < digits.length ∨ (¬ allowZeros ∧ digits.head? = some '0' ∧ 1 < digits.length) ∨
      bound ≤ value then none
  else some (value,cs.dropWhile fun c => (toDigit radix c).isSome)

def readGivenChar (expected : Char) : List Char → Option (List Char)
  | [] => none
  | c :: cs => if c = expected then some cs else none

def readOctet (cs : List Char) : Option (UInt8 × List Char) :=
  (readNumber 10 3 false 256 cs).map fun (value,cs) => (UInt8.ofNat value,cs)

def readIpv4Addr (cs : List Char) : Option (Ipv4Addr × List Char) := do
  let (a,cs) ← readOctet cs
  let cs ← readGivenChar '.' cs
  let (b,cs) ← readOctet cs
  let cs ← readGivenChar '.' cs
  let (c,cs) ← readOctet cs
  let cs ← readGivenChar '.' cs
  let (d,cs) ← readOctet cs
  return (⟨a,b,c,d⟩,cs)

/-- Groups with colons between, the last two perhaps as an address of version 4: the groups, whether they end in such
an address, and the characters behind them. -/
def readGroups : ℕ → Bool → List Char → List ℕ × Bool × List Char
  | 0, _, cs => ([],false,cs)
  | limit + 1, begun, cs =>
    let start := if begun then readGivenChar ':' cs else some cs
    match if 0 < limit then start.bind readIpv4Addr else none with
    | some (ip,rest) => ([ip.a.toNat * 256 + ip.b.toNat,ip.c.toNat * 256 + ip.d.toNat],true,rest)
    | none =>
      match start.bind (readNumber 16 4 true 65536) with
      | some (group,rest) =>
        let (groups,endsV4,rest) := readGroups limit true rest
        (group :: groups,endsV4,rest)
      | none => ([],false,cs)

def readIpv6Addr (cs : List Char) : Option (Ipv6Addr × List Char) :=
  let (head,endsV4,rest) := readGroups 8 false cs
  if head.length = 8 then (Ipv6Addr.ofSegments? head).map (·,rest)
  else if endsV4 then none
  else
    match readGivenChar ':' rest >>= readGivenChar ':' with
    | none => none
    | some rest =>
      let (tail,_,rest) := readGroups (8 - (head.length + 1)) false rest
      (Ipv6Addr.ofSegments? (head ++ List.replicate (8 - head.length - tail.length) 0 ++ tail)).map (·,rest)

def readIpAddr (cs : List Char) : Option (IpAddr × List Char) :=
  match readIpv4Addr cs with
  | some (ip,rest) => some (.v4 ip,rest)
  | none => (readIpv6Addr cs).map fun (ip,rest) => (.v6 ip,rest)

/-- `FromStr`: the whole text is an address. -/
def parse? (text : String) : Option IpAddr :=
  match readIpAddr text.toList with
  | some (ip,[]) => some ip
  | _ => none

theorem decimal_digits (octet : UInt8) :
    (∀ c ∈ Ipv4Addr.decimal octet, (toDigit 10 c).isSome = true) ∧
      readOctet (Ipv4Addr.decimal octet) = some (octet,[]) := by
  have hall : (List.range 256).all (fun n => (Nat.toDigits 10 n).all (fun c => (toDigit 10 c).isSome) &&
      readOctet (Nat.toDigits 10 n) == some (UInt8.ofNat n,[])) = true := by decide +kernel
  have hoctet := List.all_eq_true.mp hall octet.toNat (List.mem_range.mpr octet.toNat_lt)
  simpa [Ipv4Addr.decimal] using hoctet

/-- A number ends where its digits end. -/
theorem readNumber_append {radix maxDigits bound value : ℕ} {allowZeros : Bool} {digits : List Char}
    (hdigits : ∀ c ∈ digits, (toDigit radix c).isSome = true)
    (hread : readNumber radix maxDigits allowZeros bound digits = some (value,[])) {rest : List Char}
    (hrest : ∀ c ∈ rest.head?, (toDigit radix c).isSome = false) :
    readNumber radix maxDigits allowZeros bound (digits ++ rest) = some (value,rest) := by
  have hrestTake : rest.takeWhile (fun c => (toDigit radix c).isSome) = [] := by
    cases rest with
    | nil => rfl
    | cons c rest => rw [List.takeWhile_cons_of_neg (by simp [hrest c rfl])]
  have hrestDrop : rest.dropWhile (fun c => (toDigit radix c).isSome) = rest := by
    cases rest with
    | nil => rfl
    | cons c rest => rw [List.dropWhile_cons_of_neg (by simp [hrest c rfl])]
  have htake : (digits ++ rest).takeWhile (fun c => (toDigit radix c).isSome) = digits := by
    rw [List.takeWhile_append_of_pos hdigits,hrestTake,List.append_nil]
  have hdrop : (digits ++ rest).dropWhile (fun c => (toDigit radix c).isSome) = rest := by
    rw [List.dropWhile_append_of_pos hdigits,hrestDrop]
  have hown : digits.takeWhile (fun c => (toDigit radix c).isSome) = digits := List.takeWhile_eq_self_iff.mpr hdigits
  simp only [readNumber,hown] at hread
  simp only [readNumber,htake,hdrop]
  split_ifs at hread ⊢
  rw [(Prod.mk.inj (Option.some.inj hread)).1]

theorem readOctet_decimal (octet : UInt8) {rest : List Char}
    (hrest : ∀ c ∈ rest.head?, (toDigit 10 c).isSome = false) :
    readOctet (Ipv4Addr.decimal octet ++ rest) = some (octet,rest) := by
  have h := decimal_digits octet
  have hread := h.2
  rw [readOctet,Option.map_eq_some_iff] at hread
  obtain ⟨⟨value,left⟩,hread,heq⟩ := hread
  cases heq
  rw [readOctet,readNumber_append h.1 hread hrest]
  rfl

/-- An address that was written is read back. -/
theorem readIpv4Addr_chars (ip : Ipv4Addr) : readIpv4Addr ip.chars = some (ip,[]) := by
  have hdot (rest : List Char) : ∀ c ∈ ('.' :: rest).head?, (toDigit 10 c).isSome = false := by
    intro c hc
    cases hc
    decide
  have hnil : ∀ c ∈ ([] : List Char).head?, (toDigit 10 c).isSome = false := by
    intro c hc
    cases hc
  have hend := readOctet_decimal ip.d hnil
  rw [List.append_nil] at hend
  simp [readIpv4Addr,Ipv4Addr.chars,readOctet_decimal _ (hdot _),readGivenChar,hend]

theorem parse?_v4 (ip : Ipv4Addr) : parse? (toString (.v4 ip)) = some (.v4 ip) := by
  rw [parse?,toString,String.toList_ofList,readIpAddr,readIpv4Addr_chars]

/-- Lower case changes nothing about an address of version 4. -/
theorem toAsciiLowercase_v4 (ip : Ipv4Addr) : Text.toAsciiLowercase (toString (.v4 ip)) = toString (.v4 ip) := by
  have hdecimal (octet : UInt8) : (Ipv4Addr.decimal octet).map Char.toLower = Ipv4Addr.decimal octet := by
    have hall : ∀ n < 256, (Nat.toDigits 10 n).map Char.toLower = Nat.toDigits 10 n := by decide +kernel
    exact hall octet.toNat octet.toNat_lt
  rw [Text.toAsciiLowercase,toString,String.toList_ofList]
  simp only [Ipv4Addr.chars,List.map_append,List.map_cons,hdecimal]
  rfl

/-! ## Addresses of the own network -/

/-- Loopback, private, link-local and unspecified addresses. -/
def InternalV4 (ip : Ipv4Addr) : Prop :=
  ip.isPrivate ∨ ip.isLoopback ∨ ip.isLinkLocal ∨ ip.isUnspecified

/-- The addresses that do not lead out, in both versions and in the form of the one within the other. -/
def Internal : IpAddr → Prop
  | .v4 ip => InternalV4 ip
  | .v6 ip => ip.isLoopback ∨ ip.isUnspecified ∨ ip.isUniqueLocal ∨ ip.isUnicastLinkLocal ∨
      ∃ mapped, ip.toIpv4Mapped = some mapped ∧ InternalV4 mapped

instance (ip : Ipv4Addr) : Decidable (InternalV4 ip) := inferInstanceAs (Decidable (_ ∨ _))

instance : DecidablePred Internal
  | .v4 ip => inferInstanceAs (Decidable (InternalV4 ip))
  | .v6 ip =>
    have : Decidable (∃ mapped, ip.toIpv4Mapped = some mapped ∧ InternalV4 mapped) :=
      match h : ip.toIpv4Mapped with
      | none => isFalse (by simp)
      | some mapped => decidable_of_iff (InternalV4 mapped) (by simp)
    inferInstanceAs (Decidable (_ ∨ _ ∨ _ ∨ _ ∨ _))

end IpAddr
end Mxterm
