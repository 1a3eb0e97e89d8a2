import Mxterm.TelnetProtocol

/-! What the Telnet filter makes of a stream of data bytes, commands and subnegotiations: it
passes the data on, and a cut at any place changes neither the data nor the replies. -/
namespace Mxterm.Telnet

open List

/-- What an item makes the parser send back. -/
def Item.replies (cols rows : UInt16) : Item → List UInt8
  | .command verb option => handleCommand cols rows verb.code option
  | _ => []

def replyBytes (cols rows : UInt16) (items : List Item) : List UInt8 :=
  items.flatMap (Item.replies cols rows)

namespace Feed

/-- The states between the opening and the end of a subnegotiation. -/
def Inside (s : Feed) : Prop :=
  s.parser.state = .subnegotiation ∨ s.parser.state = .subnegotiationIac

theorem part_bytes (s : Feed) (part : Part) (hs : s.parser.state = .subnegotiation) :
    s.bytes part.bytes = s := by
  rcases s with ⟨⟨cols,rows,state⟩,out,rep⟩
  obtain rfl : state = .subnegotiation := hs
  cases part with
  | plain b h => simp [Part.bytes,byte,h]
  | escaped b h => simp [Part.bytes,byte,goto,h]

theorem body_bytes (s : Feed) (body : List Part) (hs : s.parser.state = .subnegotiation) :
    s.bytes (body.flatMap Part.bytes) = s := by
  induction body with
  | nil => rfl
  | cons part body ih => rw [flatMap_cons,bytes_append,part_bytes s part hs,ih]

/-- From between two items an item leads back between two items. -/
theorem item_bytes (cols rows : UInt16) (out rep : List UInt8) (item : Item) :
    (⟨⟨cols,rows,.data⟩,out,rep⟩ : Feed).bytes item.bytes =
      ⟨⟨cols,rows,.data⟩,out ++ item.data,rep ++ item.replies cols rows⟩ := by
  cases item with
  | byte b =>
    by_cases h : b = IAC
    · subst h
      simp [Item.bytes,Item.data,Item.replies,byte,goto,push]
    · simp [Item.bytes,Item.data,Item.replies,byte,push,h]
  | single c =>
    obtain ⟨b,hiac,hsb,hwill,hwont,hdo,hdont⟩ := c
    simp [Item.bytes,Item.data,Item.replies,byte,goto,hiac,hsb,hwill,hwont,hdo,hdont]
  | command verb option =>
    simp [Item.bytes,Item.data,Item.replies,byte,goto,reply,verb.code_ne_iac,verb.code_mem]
  | subnegotiation body =>
    have hopen : (⟨⟨cols,rows,.data⟩,out,rep⟩ : Feed).bytes [IAC,SB] =
        ⟨⟨cols,rows,.subnegotiation⟩,out,rep⟩ := rfl
    simp only [Item.bytes,bytes_append,hopen]
    rw [body_bytes _ body rfl]
    simp [Item.data,Item.replies,byte,goto]

theorem encoded_bytes (cols rows : UInt16) (out rep : List UInt8) (items : List Item) :
    (⟨⟨cols,rows,.data⟩,out,rep⟩ : Feed).bytes (encode items) =
      ⟨⟨cols,rows,.data⟩,out ++ dataBytes items,rep ++ replyBytes cols rows items⟩ := by
  induction items generalizing out rep with
  | nil => simp [replyBytes]
  | cons item items ih =>
    rw [encode_cons,bytes_append,item_bytes,ih]
    simp [replyBytes,append_assoc]

theorem inside_byte (s : Feed) (b : UInt8) (hs : s.parser.state = .subnegotiation) :
    (s.byte b).Inside := by
  by_cases h : b = IAC <;> simp [byte,hs,h,goto,Inside]

variable {cut : List UInt8}

/-- A part of the body never leaves the subnegotiation, and neither does a part that is cut. -/
theorem inside_part (s : Feed) (part : Part) (hs : s.parser.state = .subnegotiation) (hcut : cut <+: part.bytes) :
    (s.bytes cut).Inside := by
  rcases cut with - | ⟨b,cut⟩
  · exact Or.inl hs
  rcases cut with - | ⟨c,cut⟩
  · exact inside_byte s b hs
  have hall : b :: c :: cut = part.bytes := by
    apply hcut.eq_of_length_le
    cases part <;> simp [Part.bytes]
  rw [hall,part_bytes s part hs]
  exact Or.inl hs

theorem inside_body (s : Feed) (body : List Part) (hs : s.parser.state = .subnegotiation)
    (hcut : cut <+: body.flatMap Part.bytes) : (s.bytes cut).Inside := by
  induction body generalizing cut with
  | nil =>
    obtain rfl : cut = [] := prefix_nil.mp hcut
    exact Or.inl hs
  | cons part body ih =>
    rcases prefix_or_prefix_of_prefix hcut (prefix_append _ _) with h | ⟨rest,rfl⟩
    · exact inside_part s part hs h
    · have hrest := (prefix_append_right_inj _).mp hcut
      rw [bytes_append,part_bytes s part hs]
      exact ih hrest

/-- From the second to the last byte but one of a subnegotiation the parser is inside it. -/
theorem inside_subnegotiation (cols rows : UInt16) (out rep : List UInt8) (body : List Part)
    (hcut : cut <+: (Item.subnegotiation body).bytes) (hlen : 2 ≤ cut.length)
    (hpart : cut ≠ (Item.subnegotiation body).bytes) : ((⟨⟨cols,rows,.data⟩,out,rep⟩ : Feed).bytes cut).Inside := by
  have hopen : [IAC,SB] <+: cut :=
    prefix_of_prefix_length_le ⟨body.flatMap Part.bytes ++ [IAC,SE],rfl⟩ hcut hlen
  obtain ⟨cut,rfl⟩ := hopen
  rw [bytes_append]
  have hrest : cut <+: (body.flatMap Part.bytes ++ [IAC]) ++ [SE] := by
    simpa [Item.bytes] using hcut
  rcases prefix_concat_iff.mp hrest with rfl | hrest
  · exact absurd (by simp [Item.bytes]) hpart
  rcases prefix_concat_iff.mp hrest with rfl | hrest
  · rw [bytes_append,body_bytes _ body rfl]
    exact inside_byte ⟨⟨cols,rows,.subnegotiation⟩,out,rep⟩ IAC rfl
  · exact inside_body _ body rfl hrest

end Feed

/-- The filter passes on the data bytes of a stream and answers its commands one by one. -/
theorem feed_encode (cols rows : UInt16) (items : List Item) :
    feed (.new cols rows) (encode items) =
      ⟨.new cols rows,dataBytes items,replyBytes cols rows items⟩ := by
  exact Feed.encoded_bytes cols rows [] [] items

variable {rest rest' : List UInt8}

/-- A body and what stands behind its end are found again in what is sent. -/
theorem body_unique {body body' : List Part}
    (h : body.flatMap Part.bytes ++ IAC :: SE :: rest = body'.flatMap Part.bytes ++ IAC :: SE :: rest') :
    body = body' ∧ rest = rest' := by
  induction body generalizing body' with
  | nil =>
    cases body' with
    | nil => simpa using h
    | cons part body' =>
      cases part with
      | plain b hb => simp [Part.bytes] at h; exact absurd h.1.symm hb
      | escaped b hb => simp [Part.bytes] at h; exact absurd h.1.symm hb
  | cons part body ih =>
    cases body' with
    | nil =>
      cases part with
      | plain b hb => simp [Part.bytes] at h; exact absurd h.1 hb
      | escaped b hb => simp [Part.bytes] at h; exact absurd h.1 hb
    | cons part' body' =>
      cases part with
      | plain b hb =>
        cases part' with
        | plain c hc =>
          simp [Part.bytes] at h
          obtain ⟨rfl,hrest⟩ := h
          have hih := ih (by simpa using hrest)
          exact ⟨by rw [hih.1],hih.2⟩
        | escaped c hc => simp [Part.bytes] at h; exact absurd h.1 hb
      | escaped b hb =>
        cases part' with
        | plain c hc => simp [Part.bytes] at h; exact absurd h.1.symm hc
        | escaped c hc =>
          simp [Part.bytes] at h
          obtain ⟨rfl,hrest⟩ := h
          have hih := ih (by simpa using hrest)
          exact ⟨by rw [hih.1],hih.2⟩

/-- The two bytes an item starts with, where it does not consist of one plain byte. -/
def Item.lead : Item → Option UInt8
  | .byte b => if b = IAC then some IAC else none
  | .single c => some c.val
  | .command verb _ => some verb.code
  | .subnegotiation _ => some SB

def Item.tail : Item → List UInt8
  | .byte b => if b = IAC then [] else [b]
  | .single _ => []
  | .command _ option => [option]
  | .subnegotiation body => body.flatMap Part.bytes ++ [IAC,SE]

theorem Item.bytes_eq (item : Item) :
    item.bytes = (item.lead.elim [] fun b => [IAC,b]) ++ item.tail := by
  cases item with
  | byte b => by_cases h : b = IAC <;> simp [Item.bytes,Item.lead,Item.tail,h]
  | single | command => rfl
  | subnegotiation body => simp [Item.bytes,Item.lead,Item.tail]

variable {item : Item}

theorem Item.plain_of_lead (h : item.lead = none) : ∃ b, b ≠ IAC ∧ item = .byte b := by
  cases item with
  | byte b => exact ⟨b,by intro hb; simp [Item.lead,hb] at h,rfl⟩
  | single | command | subnegotiation => cases h

theorem lead_unique {item' : Item} (h : item.bytes ++ rest = item'.bytes ++ rest') :
    item.lead = item'.lead ∧ item.tail ++ rest = item'.tail ++ rest' := by
  rw [item.bytes_eq,item'.bytes_eq] at h
  cases hl : item.lead with
  | none =>
    cases hl' : item'.lead with
    | none => simpa [hl,hl'] using h
    | some c =>
      obtain ⟨b,hb,rfl⟩ := Item.plain_of_lead hl
      simp [hl,hl',Item.tail,hb] at h
  | some b =>
    cases hl' : item'.lead with
    | none =>
      obtain ⟨c,hc,rfl⟩ := Item.plain_of_lead hl'
      simp [hl,hl',Item.tail,hc] at h
      exact absurd h.1.symm hc
    | some c => simpa [hl,hl'] using h

/-- The second byte of an item tells its form. -/
theorem Item.lead_forms {b : UInt8} (h : item.lead = some b) :
    (b = IAC ∧ item = .byte IAC) ∨ (b = SB ∧ ∃ body, item = .subnegotiation body) ∨
    (∃ verb option, b = verb.code ∧ item = .command verb option) ∨
    ∃ c : Single, b = c.val ∧ item = .single c := by
  cases item with
  | byte c =>
    by_cases hc : c = IAC
    · subst hc
      simp only [Item.lead,if_true,Option.some.injEq] at h
      exact Or.inl ⟨h.symm,rfl⟩
    · simp [Item.lead,hc] at h
  | subnegotiation body =>
    simp only [Item.lead,Option.some.injEq] at h
    exact Or.inr (Or.inl ⟨h.symm,body,rfl⟩)
  | command verb option =>
    simp only [Item.lead,Option.some.injEq] at h
    exact Or.inr (Or.inr (Or.inl ⟨verb,option,h.symm,rfl⟩))
  | single c =>
    simp only [Item.lead,Option.some.injEq] at h
    exact Or.inr (Or.inr (Or.inr ⟨c,h.symm,rfl⟩))

/-- An item and what follows it are found again in what is sent. -/
theorem item_unique {item' : Item} (h : item.bytes ++ rest = item'.bytes ++ rest') : item = item' ∧ rest = rest' := by
  obtain ⟨hlead,htail⟩ := lead_unique h
  cases hl : item.lead with
  | none =>
    obtain ⟨b,hb,rfl⟩ := Item.plain_of_lead hl
    obtain ⟨c,hc,rfl⟩ := Item.plain_of_lead (hlead ▸ hl)
    simpa [Item.tail,hb,hc] using htail
  | some b =>
    have hl' : item'.lead = some b := hlead ▸ hl
    rcases Item.lead_forms hl with ⟨rfl,rfl⟩ | ⟨rfl,body,rfl⟩ | ⟨verb,option,rfl,rfl⟩ | ⟨c,rfl,rfl⟩
    · rcases Item.lead_forms hl' with ⟨-,rfl⟩ | ⟨h,-⟩ | ⟨verb,-,h,-⟩ | ⟨c,h,-⟩
      · simpa [Item.tail] using htail
      · exact absurd h (by decide)
      · exact absurd h.symm verb.code_ne_iac
      · exact absurd h.symm c.property.1
    · rcases Item.lead_forms hl' with ⟨h,-⟩ | ⟨-,body',rfl⟩ | ⟨verb,-,h,-⟩ | ⟨c,h,-⟩
      · exact absurd h (by decide)
      · have hbody := body_unique (by simpa [Item.tail] using htail)
        exact ⟨congrArg Item.subnegotiation hbody.1,hbody.2⟩
      · exact absurd h.symm verb.code_ne_sb
      · exact absurd h.symm c.property.2.1
    · rcases Item.lead_forms hl' with ⟨h,-⟩ | ⟨h,-⟩ | ⟨verb',option',hcode,rfl⟩ | ⟨c,h,-⟩
      · exact absurd h verb.code_ne_iac
      · exact absurd h verb.code_ne_sb
      · obtain rfl := Verb.code_injective hcode
        simpa [Item.tail] using htail
      · exact absurd h.symm (c.ne_code verb)
    · rcases Item.lead_forms hl' with ⟨h,-⟩ | ⟨h,-⟩ | ⟨verb,-,h,-⟩ | ⟨c',hval,rfl⟩
      · exact absurd h c.property.1
      · exact absurd h c.property.2.1
      · exact absurd h (c.ne_code verb)
      · exact ⟨congrArg Item.single (Subtype.ext hval),htail⟩

theorem bytes_ne_nil (item : Item) : item.bytes ≠ [] := by
  cases item with
  | byte b => by_cases h : b = IAC <;> simp [Item.bytes,h]
  | single | command | subnegotiation => simp [Item.bytes]

/-- No two lists of items are sent as the same bytes. -/
theorem encode_injective {items items' : List Item} (h : encode items = encode items') :
    items = items' := by
  induction items generalizing items' with
  | nil =>
    cases items' with
    | nil => rfl
    | cons item items' => simp [bytes_ne_nil] at h
  | cons item items ih =>
    cases items' with
    | nil => simp [bytes_ne_nil] at h
    | cons item' items' =>
      obtain ⟨hitem,hrest⟩ := item_unique (by simpa using h)
      rw [hitem,ih hrest]

/-- A window size as the option NAWS sends it: the columns and the rows, each high byte first. -/
def nawsBody (cols rows : UInt16) : List UInt8 := NAWS :: (toBeBytes cols ++ toBeBytes rows)

def nawsItem (cols rows : UInt16) : Item := .subnegotiation ((nawsBody cols rows).map Part.ofByte)

theorem ofByte_bytes (b : UInt8) :
    (Part.ofByte b).bytes = if b = IAC then [b,IAC] else [b] := by
  by_cases h : b = IAC
  · subst h; rfl
  · simp [Part.ofByte,Part.bytes,h]

theorem pushEscapedU16_eq (value : UInt16) :
    pushEscapedU16 value = ((toBeBytes value).map Part.ofByte).flatMap Part.bytes := by
  simp only [pushEscapedU16,flatMap_map]
  congr 1
  funext b
  exact (ofByte_bytes b).symm

theorem buildNawsPayload_eq (cols rows : UInt16) :
    buildNawsPayload cols rows = (nawsItem cols rows).bytes := by
  have hnaws : (Part.ofByte NAWS).bytes = [NAWS] := by decide
  simp [buildNawsPayload,nawsItem,nawsBody,Item.bytes,pushEscapedU16_eq,hnaws]

/-- The two bytes of a number, the high one first. -/
theorem toBeBytes_value (value : UInt16) :
    ∃ high low, toBeBytes value = [high,low] ∧ value.toNat = 256 * high.toNat + low.toNat := by
  refine ⟨_,_,rfl,?_⟩
  have hlt := value.toNat_lt
  have hshift : (value >>> 8).toNat = value.toNat / 256 := by
    rw [UInt16.toNat_shiftRight]; exact Nat.shiftRight_eq_div_pow _ _
  rw [UInt16.toNat_toUInt8,UInt16.toNat_toUInt8]
  omega

/-- A stream may be cut anywhere: the filter passes on its data bytes, and its replies are those
to the uncut stream. The size a payload of NAWS reports is read from it in one way, and the filter
takes the payload out of a stream as one subnegotiation. -/
theorem decoding_undoes_encoding :
    (∀ (cols rows : UInt16) (items : List Item) (chunks : List (List UInt8)),
      chunks.flatten = encode items →
        (feedChunks (.new cols rows) chunks).output = dataBytes items ∧
        (feedChunks (.new cols rows) chunks).replies =
          (feed (.new cols rows) (encode items)).replies) ∧
    ∀ (cols rows width height : UInt16) (before after : List Item),
      let sent := encode before ++ buildNawsPayload width height ++ encode after
      (∀ items, encode items = sent ↔ items = before ++ nawsItem width height :: after) ∧
      (∃ w₁ w₀ h₁ h₀, nawsBody width height = [NAWS,w₁,w₀,h₁,h₀] ∧
        width.toNat = 256 * w₁.toNat + w₀.toNat ∧ height.toNat = 256 * h₁.toNat + h₀.toNat) ∧
      (feed (.new cols rows) (encode before ++ buildNawsPayload width height) =
        feed (.new cols rows) (encode before)) ∧
      ∀ cut, cut <+: buildNawsPayload width height → 2 ≤ cut.length →
        cut ≠ buildNawsPayload width height →
          (feed (.new cols rows) (encode before ++ cut)).Inside := by
  constructor
  · intro cols rows items chunks hcut
    rw [feedChunks_eq,hcut,feed_encode]
    exact ⟨rfl,rfl⟩
  intro cols rows width height before after
  have hpayload := buildNawsPayload_eq width height
  have hbefore : ∀ more, feed (.new cols rows) (encode before ++ more) =
      (⟨.new cols rows,dataBytes before,replyBytes cols rows before⟩ : Feed).bytes more := by
    intro more
    rw [← feed_encode]
    exact Feed.bytes_append _ _ _
  refine ⟨?_,?_,?_,?_⟩
  · intro items
    have hsent : encode before ++ buildNawsPayload width height ++ encode after =
        encode (before ++ nawsItem width height :: after) := by
      rw [encode_append,encode_cons,hpayload,append_assoc]
    rw [hsent]
    exact ⟨encode_injective,fun h => h ▸ rfl⟩
  · obtain ⟨w₁,w₀,hw,hwidth⟩ := toBeBytes_value width
    obtain ⟨h₁,h₀,hh,hheight⟩ := toBeBytes_value height
    exact ⟨w₁,w₀,h₁,h₀,by rw [nawsBody,hw,hh]; rfl,hwidth,hheight⟩
  · have hitem := Feed.item_bytes cols rows (dataBytes before) (replyBytes cols rows before)
      (nawsItem width height)
    rw [hbefore,feed_encode,hpayload]
    simp only [nawsItem,Item.data,Item.replies,append_nil] at hitem
    exact hitem
  · intro cut hunder hlen hpart
    rw [hbefore]
    rw [hpayload] at hunder hpart
    exact Feed.inside_subnegotiation _ _ _ _ _ hunder hlen hpart

/-- A stream with data, a doubled 0xFF, a command and a payload of NAWS, cut inside the doubled
byte and inside the payload, and the state inside that payload. -/
theorem decoding_undoes_encoding_cut :
    (feedChunks (.new 80 24) [[72,IAC],[IAC,IAC,WILL,ECHO,IAC],[SB,NAWS,0,IAC],[IAC,0,24,IAC,SE]]).output =
      [72,IAC] ∧
    (feed (.new 80 24) (encode [.byte 72] ++ [IAC,SB])).Inside := by
  have hstream := decoding_undoes_encoding.1 80 24
    [.byte 72,.byte IAC,.command .will ECHO,nawsItem 255 24]
    [[72,IAC],[IAC,IAC,WILL,ECHO,IAC],[SB,NAWS,0,IAC],[IAC,0,24,IAC,SE]] (by decide)
  have hpayload := (decoding_undoes_encoding.2 80 24 255 24 [.byte 72] []).2.2.2 [IAC,SB]
    (by decide) (by decide) (by decide)
  exact ⟨hstream.1,hpayload⟩

end Mxterm.Telnet
