import Mxterm.X11Gate

/-! What the gate lets through, whatever the two sides send and wherever the forwarding stops. -/
namespace Mxterm.X11Gate

open ByteStreams Execution List
open Socks5 (byteAt slice)

/-! ## The operations -/

section
variable {s s' : Bridge} {n : ℕ} {bytes : List UInt8} {e : Ending}

/-- An operation ends with an error, or the session is cancelled. -/
def Honest (s : Bridge) (e : Ending) : Prop :=
  (∃ error, e = .failed error) ∨ e = .cancelled ∧ ∃ amount, some (amount,.cancelled) ∈ s.stops

theorem honest_of_stop {amount : ℕ} {stop : Stop} (h : s.stops.headD none = some (amount,stop)) :
    Honest s stop.ending := by
  cases stop with
  | failed | timedOut => exact .inl ⟨_,rfl⟩
  | cancelled =>
    refine .inr ⟨rfl,amount,?_⟩
    cases hstops : s.stops with
    | nil =>
      rw [hstops] at h
      cases h
    | cons stop stops =>
      rw [hstops] at h
      exact mem_cons.mpr (.inl h.symm)

/-- What a read from the remote side leaves. -/
structure ReadFrom (s s' : Bridge) : Prop where
  stops : s'.stops <:+ s.stops
  same : s' = { s with stops := s'.stops, remote := ⟨s'.remote.incoming,s.remote.sent⟩ }

theorem readRemote_ends (s : Bridge) (n : ℕ) :
    Ends (readRemote n) (fun bytes s' => ReadFrom s s' ∧ bytes.length = n ∧
        s.remote.incoming.flatten = bytes ++ s'.remote.incoming.flatten)
      (fun e s' => ReadFrom s s' ∧ Honest s e) s := by
  unfold Ends readRemote
  cases hstop : s.stops.headD none with
  | some pair => exact ⟨⟨tail_suffix _,rfl⟩,honest_of_stop hstop⟩
  | none =>
    cases hread : readExact n s.remote.incoming with
    | some result =>
      obtain ⟨hflatten,hlength⟩ := readExact_some hread
      exact ⟨⟨tail_suffix _,rfl⟩,hlength,hflatten⟩
    | none => exact ⟨⟨suffix_rfl,rfl⟩,.inl ⟨_,rfl⟩⟩

theorem readServer_ends (s : Bridge) (n : ℕ) :
    Ends (readServer n) (fun bytes s' => s' = { s with stops := s'.stops, server := ⟨s'.server.incoming,s.server.sent⟩ }
      ∧
        bytes.length = n ∧ s.server.incoming.flatten = bytes ++ s'.server.incoming.flatten)
      (fun e s' => s' = { s with stops := s'.stops, server := ⟨s'.server.incoming,s.server.sent⟩ } ∧
        Honest s e) s := by
  unfold Ends readServer
  cases hstop : s.stops.headD none with
  | some pair => exact ⟨rfl,honest_of_stop hstop⟩
  | none =>
    cases hread : readExact n s.server.incoming with
    | some result =>
      obtain ⟨hflatten,hlength⟩ := readExact_some hread
      exact ⟨rfl,hlength,hflatten⟩
    | none => exact ⟨rfl,.inl ⟨_,rfl⟩⟩

theorem ReadFrom.trans {t : Bridge} (h : ReadFrom s t) (h' : ReadFrom t s') : ReadFrom s s' where
  stops := h'.stops.trans h.stops
  same := by rw [h'.same,h.same]

theorem Honest.mono {t : Bridge} (h : Honest t e) (hstops : t.stops <:+ s.stops) : Honest s e := by
  rcases h with hfailed | ⟨hcancelled,amount,hmem⟩
  · exact .inl hfailed
  · exact .inr ⟨hcancelled,amount,hstops.subset hmem⟩

theorem Honest.inRange (h : Honest s e) : e ≠ .outOfRange := by
  rintro rfl
  rcases h with ⟨_,h⟩ | ⟨h,-⟩ <;> cases h

theorem orFault_ok {α : Type} {r : Except Socks5.Fault α} {a : α} (h : orFault r = .ok a) : r = .ok a := by
  cases r with
  | ok b => exact congrArg Except.ok (Except.ok.inj h)
  | error fault => cases h

/-- A function that stays in range fails with an error. -/
theorem orFault_error {α : Type} {r : Except Socks5.Fault α} (hrange : r ≠ .error .outOfRange)
    (h : orFault r = .error e) :
    ∃ error, e = .failed error := by
  cases r with
  | ok a => cases h
  | error fault =>
    cases fault with
    | failed error => exact ⟨error,(Except.error.inj h).symm⟩
    | outOfRange => exact absurd rfl hrange

/-- Only a request with the fake cookie is let through, with the real one in its place. -/
theorem readSetup_ends (fake real : Cookie) (s : Bridge) :
    Ends (readSetup fake real)
      (fun setup s' => ReadFrom s s' ∧ ∃ request : SetupRequest,
        s.remote.incoming.flatten = request.bytes fake ++ s'.remote.incoming.flatten ∧ setup = request.bytes real)
      (fun e s' => ReadFrom s s' ∧ Honest s e) s := by
  refine ((readRemote_ends s 12).mono ?_ fun e s' h => h).bind
  rintro header s₁ ⟨hread₁,hlength,hheader⟩
  apply Ends.bind
  apply Ends.lift
  · rintro ⟨name,data⟩ hok
    obtain ⟨rfl,rfl,request,rfl⟩ := setupHeader_ok hlength (orFault_ok hok)
    refine ((readRemote_ends s₁ 36).mono ?_ fun e s' h => ⟨hread₁.trans h.1,h.2.mono hread₁.stops⟩).bind
    rintro payload s₂ ⟨hread₂,hlength',hpayload⟩
    apply Ends.lift
    · intro setup hok'
      obtain ⟨padding,padding',rfl,rfl⟩ := setupFor_ok hlength' (orFault_ok hok')
      refine ⟨hread₁.trans hread₂,{ request with padding := padding, padding' := padding' },?_,rfl⟩
      rw [hheader,hpayload,← append_assoc]
      rfl
    · intro e herror
      exact ⟨hread₁.trans hread₂,.inl (orFault_error (setupFor_inRange hlength') herror)⟩
  · intro e herror
    exact ⟨hread₁,.inl (orFault_error (setupHeader_inRange hlength) herror)⟩

theorem readServerReply_ends (little : Bool) (s : Bridge) :
    Ends (readServerReply little)
      (fun reply s' => s' = { s with stops := s'.stops, server := ⟨s'.server.incoming,s.server.sent⟩ } ∧
        8 ≤ reply.length ∧ s.server.incoming.flatten = reply ++ s'.server.incoming.flatten)
      (fun e s' => s' = { s with stops := s'.stops, server := ⟨s'.server.incoming,s.server.sent⟩ } ∧
        e ≠ .outOfRange) s := by
  refine ((readServer_ends s 8).mono ?_ fun e s' h => ⟨h.1,h.2.inRange⟩).bind
  rintro header s₁ ⟨hsame,hlength,hheader⟩
  obtain ⟨length,hread⟩ : ∃ length, readU16 little header 6 = .ok length := readU16_inRange (by omega)
  apply Ends.bind
  apply Ends.lift
  · intro length' _
    refine ((readServer_ends s₁ (length' * 4)).mono ?_ fun e s' h => ⟨?_,h.2.inRange⟩).bind
    · rintro body s₂ ⟨hsame',-,hbody⟩
      refine ⟨?_,by rw [length_append]; omega,by rw [hheader,hbody,append_assoc]⟩
      rw [hsame',hsame]
    · rw [h.1,hsame]
  · intro e herror
    rw [hread] at herror
    cases herror

end

/-! ## The gate -/

section
variable {fake real : Cookie} {remote server : List UInt8} {s s' : Bridge} {request : SetupRequest} {session : Session}

/-- The local server is connected and gets bytes only behind a request with the fake cookie, and gets what the remote
side sends with the real cookie; the remote side gets nothing but bytes of the local server. -/
structure Gated (fake real : Cookie) (remote server : List UInt8) (s : Bridge) : Prop where
  authenticated : s.connected = true ∨ s.server.sent ≠ [] → ∃ (request : SetupRequest) (rest : List UInt8),
    remote = request.bytes fake ++ rest ∧ s.remote.incoming.flatten <:+ rest ∧
      s.server.sent <+: request.bytes real ++ rest
  onlyServer : s.remote.sent <+: server

theorem gated_of_request (hremote : remote = request.bytes fake ++ s.remote.incoming.flatten)
    (hsent : s.server.sent <+: request.bytes real) (hserver : s.remote.sent <+: server) :
    Gated fake real remote server s where
  authenticated _ := ⟨request,_,hremote,suffix_rfl,hsent.trans (prefix_append _ _)⟩
  onlyServer := hserver

/-- Everything has gone to the other side. -/
def Relayed (fake real : Cookie) (remote server : List UInt8) (s : Bridge) : Prop :=
  ∃ (request : SetupRequest) (rest : List UInt8), remote = request.bytes fake ++ rest ∧
    s.server.sent = request.bytes real ++ rest ∧ s.remote.sent = server

theorem relay_ends (hremote : remote = request.bytes fake ++ s.remote.incoming.flatten)
    (hsent : s.server.sent = request.bytes real) (hserver : server = s.remote.sent ++ s.server.incoming.flatten) :
    Ends relay (fun _ s' => Gated fake real remote server s' ∧ Relayed fake real remote server s')
      (fun e s' => Gated fake real remote server s' ∧ e ≠ .outOfRange) s := by
  unfold Ends relay
  cases s.relaying with
  | none =>
    refine ⟨⟨fun _ => ⟨request,_,hremote,nil_suffix,?_⟩,?_⟩,request,_,hremote,?_,hserver.symm⟩
    · exact ⟨[],(append_nil _).trans (congrArg (· ++ _) hsent)⟩
    · exact ⟨[],(append_nil _).trans hserver.symm⟩
    · exact congrArg (· ++ _) hsent
  | some broken =>
    have hgated : Gated fake real remote server (((s.left (s.remote.incoming.flatten.drop broken.toServer)
        (s.server.incoming.flatten.drop broken.toRemote)).toServer
          (s.remote.incoming.flatten.take broken.toServer)).toRemote
            (s.server.incoming.flatten.take broken.toRemote)) := by
      refine ⟨fun _ => ⟨request,_,hremote,?_,?_⟩,?_⟩
      · simpa [Bridge.left,Bridge.toServer,Bridge.toRemote] using drop_suffix _ _
      · simp only [Bridge.left,Bridge.toServer,Bridge.toRemote,hsent]
        exact (prefix_append_right_inj _).mpr ( take_prefix _ _)
      · simp only [Bridge.left,Bridge.toServer,Bridge.toRemote,hserver]
        exact (prefix_append_right_inj _).mpr ( take_prefix _ _)
    cases hraw : broken.raw with
    | some raw =>
      simp only [hraw]
      exact ⟨hgated,nofun⟩
    | none =>
      simp only [hraw]
      exact ⟨hgated,nofun⟩

theorem connect_ends (s : Bridge) :
    Ends connect (fun _ s' => s' = { s with connected := true }) (fun e s' => s' = s ∧ e ≠ .outOfRange) s := by
  unfold Ends connect
  cases s.connecting with
  | connects => rfl
  | failed | expired => exact ⟨rfl,nofun⟩
  | stopped stop => exact ⟨rfl,by cases stop <;> exact nofun⟩

theorem writeServer_ends (bytes : List UInt8) (s : Bridge) :
    Ends (writeServer bytes) (fun _ s' => s' = { s with stops := s.stops.tail }.toServer bytes)
      (fun e s' => (∃ amount, s' = { s with stops := s.stops.tail }.toServer (bytes.take amount)) ∧ e ≠ .outOfRange)
      s := by
  unfold Ends writeServer
  cases hstop : s.stops.headD none with
  | none => rfl
  | some pair => exact ⟨⟨pair.1,rfl⟩,(honest_of_stop hstop).inRange⟩

theorem writeRemote_ends (bytes : List UInt8) (s : Bridge) :
    Ends (writeRemote bytes) (fun _ s' => s' = { s with stops := s.stops.tail }.toRemote bytes)
      (fun e s' => (∃ amount, s' = { s with stops := s.stops.tail }.toRemote (bytes.take amount)) ∧ e ≠ .outOfRange)
      s := by
  unfold Ends writeRemote
  cases hstop : s.stops.headD none with
  | none => rfl
  | some pair => exact ⟨⟨pair.1,rfl⟩,(honest_of_stop hstop).inRange⟩

/-- What comes behind an admitted request. -/
theorem served_ends (hremote : remote = request.bytes fake ++ s.remote.incoming.flatten) (hsent : s.server.sent = [])
    (hserver : server = s.server.incoming.flatten) (hnone : s.remote.sent = []) :
    Ends (do
        connect
        writeServer (request.bytes real)
        let order ← lift (orFault (byteAt (request.bytes real) 0))
        let reply ← readServerReply (decide (order = littleOrder))
        writeRemote reply
        lift (orFault (validateServerReply reply))
        relay)
      (fun _ s' => Gated fake real remote server s' ∧ Relayed fake real remote server s')
      (fun e s' => Gated fake real remote server s' ∧ e ≠ .outOfRange) s := by
  have hstart : Gated fake real remote server s :=
    gated_of_request hremote (by rw [hsent]; exact nil_prefix) (by rw [hnone]; exact nil_prefix)
  refine ((connect_ends s).mono ?_ fun e s' h => ⟨by rw [h.1]; exact hstart,h.2⟩).bind
  rintro - s₁ rfl
  refine ((writeServer_ends _ _).mono ?_ ?_).bind
  rotate_left
  · rintro e s' ⟨⟨amount,rfl⟩,he⟩
    refine ⟨gated_of_request hremote ?_ ?_,he⟩
    · simp only [Bridge.toServer,hsent]
      exact take_prefix _ _
    · simp only [Bridge.toServer,hnone]
      exact nil_prefix
  rintro - s₂ rfl
  apply Ends.bind
  apply Ends.lift
  rotate_left
  · intro e herror
    cases herror
  intro order _
  refine ((readServerReply_ends _ _).mono ?_ ?_).bind
  rotate_left
  · rintro e s' ⟨hsame,he⟩
    have hremote' : remote = request.bytes fake ++ s'.remote.incoming.flatten := by
      rw [hsame]
      exact hremote
    refine ⟨gated_of_request hremote' ?_ ?_,he⟩
    · rw [hsame]
      simp only [Bridge.toServer,hsent]
      exact prefix_rfl
    · rw [hsame]
      simp only [Bridge.toServer,hnone]
      exact nil_prefix
  rintro reply s₃ ⟨hsame,hlength,hreply⟩
  have hremote₃ : remote = request.bytes fake ++ s₃.remote.incoming.flatten := by
    rw [hsame]
    exact hremote
  have hsent₃ : s₃.server.sent = request.bytes real := by
    rw [hsame]
    simp only [Bridge.toServer,hsent,nil_append]
  have hnone₃ : s₃.remote.sent = [] := by
    rw [hsame]
    exact hnone
  have hserver₃ : server = reply ++ s₃.server.incoming.flatten := hserver.trans hreply
  refine ((writeRemote_ends _ _).mono ?_ ?_).bind
  rotate_left
  · rintro e s' ⟨⟨amount,rfl⟩,he⟩
    refine ⟨gated_of_request hremote₃ (by rw [← hsent₃]; exact prefix_rfl) ?_,he⟩
    simp only [Bridge.toRemote,hnone₃,nil_append,hserver₃]
    exact ( take_prefix _ _).trans (prefix_append _ _)
  rintro - s₄ rfl
  have hsent₄ : ({ s₃ with stops := s₃.stops.tail }.toRemote reply).remote.sent = reply := by
    simp only [Bridge.toRemote,hnone₃,nil_append]
  apply Ends.bind
  apply Ends.lift
  · intro _ _
    exact relay_ends hremote₃ hsent₃ (by rw [hsent₄]; exact hserver₃)
  · intro e herror
    obtain ⟨error,rfl⟩ := orFault_error (validateServerReply_inRange hlength) herror
    refine ⟨gated_of_request hremote₃ (by rw [← hsent₃]; exact prefix_rfl) ?_,nofun⟩
    rw [hsent₄,hserver₃]
    exact prefix_append _ _

/-- The outcome of a forwarded channel, from streams of any bytes. -/
theorem forward_ends (hconnected : s.connected = false) (hsent : s.server.sent = []) (hnone : s.remote.sent = []) :
    Ends (forward session fake real)
      (fun _ s' => Gated fake real s.remote.incoming.flatten s.server.incoming.flatten s' ∧
        Relayed fake real s.remote.incoming.flatten s.server.incoming.flatten s')
      (fun e s' => Gated fake real s.remote.incoming.flatten s.server.incoming.flatten s' ∧ e ≠ .outOfRange ∧
        ((¬ ∃ (request : SetupRequest) (rest : List UInt8), s.remote.incoming.flatten = request.bytes fake ++ rest) →
          s'.connected = false ∧ s'.server.sent = [] ∧ Honest s e)) s := by
  have hunopened : ∀ {s'}, ReadFrom s s' → Gated fake real s.remote.incoming.flatten s.server.incoming.flatten s' := by
    intro s' hread
    rw [hread.same]
    constructor
    · rintro (hopen | hbytes)
      · rw [hconnected] at hopen
        cases hopen
      · exact absurd hsent hbytes
    · simp only [hnone]
      exact nil_prefix
  apply Ends.bind
  apply Ends.lift
  rotate_left
  · intro e herror
    have hself : ReadFrom s s := ⟨suffix_rfl,rfl⟩
    have hfailed : ∃ error, e = .failed error := by
      unfold checkSession at herror
      split_ifs at herror <;> exact ⟨_,(Except.error.inj herror).symm⟩
    have hhonest : Honest s e := .inl hfailed
    exact ⟨hunopened hself,hhonest.inRange,fun _ => ⟨hconnected,hsent,hhonest⟩⟩
  intro _ _
  refine ((readSetup_ends fake real s).mono ?_ ?_).bind
  rotate_left
  · rintro e s' ⟨hread,hhonest⟩
    refine ⟨hunopened hread,hhonest.inRange,fun _ => ⟨?_,?_,hhonest⟩⟩
    · rw [hread.same]
      exact hconnected
    · rw [hread.same]
      exact hsent
  rintro setup s₁ ⟨hread,request,hrequest,rfl⟩
  have hsame := hread.same
  refine (served_ends hrequest ?_ ?_ ?_).mono (fun _ _ h => h) fun e s' h => ⟨h.1,h.2,fun hnot => ?_⟩
  · rw [hsame]
    exact hsent
  · rw [hsame]
  · rw [hsame]
    exact hnone
  · exact absurd ⟨request,_,hrequest⟩ hnot

/-- A channel from the remote side, and what the local server would answer. -/
def opened (reads replies : List (List UInt8)) (stops : List (Option (ℕ × Stop))) (connecting : Connecting)
    (relaying : Option Broken) : Bridge :=
  ⟨⟨reads,[]⟩,⟨replies,[]⟩,false,stops,connecting,relaying⟩

/-- A reply that accepts, with as many words behind its head as the head says. -/
structure Accepts (little : Bool) (reply : List UInt8) : Prop where
  status : reply.head? = some 1
  length : ∃ words, readU16 little (reply.take 8) 6 = .ok words ∧ reply.length = 8 + words * 4

end

end Mxterm.X11Gate
