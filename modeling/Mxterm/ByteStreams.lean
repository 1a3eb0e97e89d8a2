import Mxterm.Execution

/-! Conversations over a stream of bytes. What arrives is cut into reads in any way, and what a conversation
does depends on the bytes alone. -/
namespace Mxterm.ByteStreams

open Execution List

variable {ε α β : Type} {σ : Type}

/-- One end of a stream: the reads that are still to come, and what has been sent. -/
structure Stream where
  incoming : List (List UInt8)
  sent : List UInt8

/-- Exactly `n` bytes, from as many reads as it takes. -/
def readExact : ℕ → List (List UInt8) → Option (List UInt8 × List (List UInt8))
  | 0, reads => some ([],reads)
  | _ + 1, [] => none
  | n + 1, chunk :: reads =>
    if n + 1 < chunk.length then some (chunk.take (n + 1),chunk.drop (n + 1) :: reads)
    else (readExact (n + 1 - chunk.length) reads).map fun result => (chunk ++ result.1,result.2)

variable {n : ℕ} {bytes : List UInt8}

theorem readExact_some {reads rest : List (List UInt8)} (h : readExact n reads = some (bytes,rest)) :
    reads.flatten = bytes ++ rest.flatten ∧ bytes.length = n := by
  induction reads generalizing n bytes with
  | nil =>
    cases n with
    | zero =>
      cases h
      exact ⟨rfl,rfl⟩
    | succ n => cases h
  | cons chunk reads ih =>
    cases n with
    | zero =>
      cases h
      exact ⟨rfl,rfl⟩
    | succ n =>
      rw [readExact] at h
      split_ifs at h with hlt
      · cases h
        refine ⟨?_,length_take_of_le (Nat.le_of_lt hlt)⟩
        rw [flatten_cons,flatten_cons,← append_assoc,take_append_drop]
      · obtain ⟨⟨more,rest'⟩,hmore,heq⟩ := Option.map_eq_some_iff.mp h
        cases heq
        obtain ⟨hflatten,hlength⟩ := ih hmore
        refine ⟨by rw [flatten_cons,hflatten,append_assoc],?_⟩
        rw [length_append,hlength]
        omega

theorem readExact_append {reads : List (List UInt8)} {rest : List UInt8} (h : reads.flatten = bytes ++ rest) :
    ∃ reads', readExact bytes.length reads = some (bytes,reads') ∧ reads'.flatten = rest := by
  induction reads generalizing bytes with
  | nil =>
    obtain ⟨rfl,rfl⟩ := append_eq_nil_iff.mp h.symm
    exact ⟨[],rfl,rfl⟩
  | cons chunk reads ih =>
    cases bytes with
    | nil => exact ⟨chunk :: reads,rfl,h⟩
    | cons byte bytes =>
      rw [flatten_cons] at h
      rw [length_cons,readExact]
      by_cases hlt : bytes.length + 1 < chunk.length
      · rw [if_pos hlt]
        have htake := congrArg (List.take (bytes.length + 1)) h
        have hdrop := congrArg (List.drop (bytes.length + 1)) h
        rw [take_append_of_le_length (Nat.le_of_lt hlt),take_left' (by simp)] at htake
        rw [drop_append_of_le_length (Nat.le_of_lt hlt),drop_left' (by simp)] at hdrop
        exact ⟨chunk.drop (bytes.length + 1) :: reads,by rw [htake],hdrop⟩
      · rw [if_neg hlt]
        obtain ⟨more,hmore⟩ : ∃ more, byte :: bytes = chunk ++ more := by
          obtain ⟨more,hmore,-⟩ | ⟨more,hmore,-⟩ := append_eq_append_iff.mp h
          · exact ⟨more,hmore⟩
          · refine ⟨[],?_⟩
            have hlength := congrArg List.length hmore
            simp only [length_append,length_cons] at hlength
            have hnil : more = [] := length_eq_zero_iff.mp (by omega)
            rw [hmore,hnil,append_nil,append_nil]
        rw [hmore,append_assoc] at h
        obtain ⟨reads',hread,hrest⟩ := ih (append_cancel_left h)
        refine ⟨reads',?_,hrest⟩
        have hlength := congrArg List.length hmore
        simp only [length_append,length_cons] at hlength
        rw [show bytes.length + 1 - chunk.length = more.length by omega,hread,hmore]
        rfl

/-! ## Conversations -/

def receive (n : ℕ) (error : ε) : EStateM ε Stream (List UInt8) := fun s =>
  match readExact n s.incoming with
  | some (bytes,reads) => .ok bytes { s with incoming := reads }
  | none => .error error { s with incoming := [] }

/-- The next byte, or none at the end of the stream. -/
def receiveOne : EStateM ε Stream (Option UInt8) := fun s =>
  match readExact 1 s.incoming with
  | some (bytes,reads) => .ok bytes.head? { s with incoming := reads }
  | none => .ok none { s with incoming := [] }

def send (bytes : List UInt8) : EStateM ε Stream Unit := fun s => .ok () { s with sent := s.sent ++ bytes }

/-- However the input is cut, the conversation returns `a`, leaves the rest, and has sent `sent`. -/
def Answers (x : EStateM ε Stream α) (input rest sent : List UInt8) (a : α) : Prop :=
  ∀ s : Stream, s.incoming.flatten = input →
    ∃ s', x s = .ok a s' ∧ s'.incoming.flatten = rest ∧ s'.sent = s.sent ++ sent

/-- However the input is cut, the conversation fails. -/
def Rejects (x : EStateM ε Stream α) (input : List UInt8) (e : ε) : Prop :=
  ∀ s : Stream, s.incoming.flatten = input → ∃ s', x s = .error e s'

variable {x : EStateM ε Stream α} {f : α → EStateM ε Stream β} {input mid rest out out' : List UInt8} {a : α}
  {b : β} {e : ε}

theorem Answers.receive (h : bytes.length = n) (error : ε) :
    Answers (receive n error) (bytes ++ rest) rest [] bytes := by
  intro s hs
  obtain ⟨reads',hread,hrest⟩ := readExact_append hs
  rw [h] at hread
  refine ⟨{ s with incoming := reads' },?_,hrest,(append_nil _).symm⟩
  simp only [ByteStreams.receive,hread]

theorem Answers.pure (a : α) : Answers (pure a : EStateM ε Stream α) input input [] a :=
  fun s hs => ⟨s,rfl,hs,(append_nil _).symm⟩

theorem Answers.receiveOne (byte : UInt8) :
    Answers (receiveOne : EStateM ε Stream (Option UInt8)) (byte :: rest) rest [] (some byte) := by
  intro s hs
  have hone : s.incoming.flatten = [byte] ++ rest := hs
  obtain ⟨reads',hread,hrest⟩ := readExact_append hone
  refine ⟨{ s with incoming := reads' },?_,hrest,(append_nil _).symm⟩
  rw [length_singleton] at hread
  simp only [ByteStreams.receiveOne,hread,head?_cons]

theorem Answers.receiveOne_nil : Answers (ByteStreams.receiveOne : EStateM ε Stream (Option UInt8)) [] [] [] none := by
  intro s hs
  refine ⟨{ s with incoming := [] },?_,rfl,(append_nil _).symm⟩
  cases hread : readExact 1 s.incoming with
  | none => simp only [ByteStreams.receiveOne,hread]
  | some result =>
    obtain ⟨hflatten,hlength⟩ := readExact_some hread
    rw [hs] at hflatten
    rw [(append_eq_nil_iff.mp hflatten.symm).1] at hlength
    cases hlength

theorem Answers.send (bytes : List UInt8) : Answers (send bytes : EStateM ε Stream Unit) input input bytes () :=
  fun _ hs => ⟨_,rfl,hs,rfl⟩

theorem Answers.lift {r : Except ε α} (h : r = .ok a) : Answers (lift r) input input [] a := by
  intro s hs
  rw [h]
  exact ⟨s,rfl,hs,(append_nil _).symm⟩

theorem Answers.bind (hx : Answers x input mid out a) (hf : Answers (f a) mid rest out' b) :
    Answers (x >>= f) input rest (out ++ out') b := by
  intro s hs
  obtain ⟨t,hxt,hmid,hsent⟩ := hx s hs
  obtain ⟨s',hft,hrest,hsent'⟩ := hf t hmid
  refine ⟨s',?_,hrest,by rw [hsent',hsent,append_assoc]⟩
  rw [bind_of_ok hxt,hft]

theorem Rejects.bind (hx : Answers x input mid out a) (hf : Rejects (f a) mid e) : Rejects (x >>= f) input e := by
  intro s hs
  obtain ⟨t,hxt,hmid,-⟩ := hx s hs
  obtain ⟨s',hft⟩ := hf t hmid
  exact ⟨s',by rw [bind_of_ok hxt,hft]⟩

theorem Rejects.throw : Rejects (throw e : EStateM ε Stream α) input e := fun s _ => ⟨s,rfl⟩

/-- What a conversation that has returned has read. -/
theorem receive_ok {error : ε} {s s' : Stream} (h : receive n error s = .ok bytes s') :
    s.incoming.flatten = bytes ++ s'.incoming.flatten ∧ bytes.length = n := by
  rw [ByteStreams.receive] at h
  cases hread : readExact n s.incoming with
  | none =>
    rw [hread] at h
    cases h
  | some result =>
    rw [hread] at h
    obtain ⟨rfl,rfl⟩ := EStateM.Result.ok.inj h
    exact readExact_some hread

theorem receive_error {error e : ε} {s s' : Stream} (h : receive n error s = .error e s') : e = error := by
  rw [ByteStreams.receive] at h
  cases hread : readExact n s.incoming with
  | none =>
    rw [hread] at h
    exact (EStateM.Result.error.inj h).1.symm
  | some result =>
    rw [hread] at h
    cases h

end Mxterm.ByteStreams
