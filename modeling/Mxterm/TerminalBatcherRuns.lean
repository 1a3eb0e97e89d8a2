import Mxterm.TerminalReaderRuns

/-! The batcher of terminal output over any calls (`terminal/session.rs`): the loop of `push_at` as it stands, and what
holds of its batches, of its pending bytes and of its deadline. -/
namespace Mxterm.TerminalReader

open List

/-! ## The loop -/

/-- The fields of a batcher, with nothing known of them. -/
structure RawBatcher where
  pending : Bytes
  startedAt : Option ℕ
  deriving DecidableEq

namespace RawBatcher

def new : RawBatcher := ⟨[],none⟩

def deadline (b : RawBatcher) : Option ℕ := b.startedAt.map (· + 8)

def flush (b : RawBatcher) : Option Bytes × RawBatcher :=
  if b.pending = [] then (none,b) else (some b.pending,new)

/-- The loop of `push_at`, for so many rounds; `none` where they are not enough, or where the room for another byte is
negative. -/
def pushLoop : ℕ → RawBatcher → Bytes → ℕ → List Bytes → Option (List Bytes × RawBatcher)
  | 0, _, _, _, _ => none
  | rounds + 1, b, data, now, batches =>
    if data = [] then some (batches,b)
    else if batchMaxBytes < b.pending.length then none
    else
      let startedAt := if b.pending = [] then some now else b.startedAt
      let available := batchMaxBytes - b.pending.length
      let take := min available data.length
      let b : RawBatcher := ⟨b.pending ++ data.take take,startedAt⟩
      if b.pending.length = batchMaxBytes then
        pushLoop rounds b.flush.2 (data.drop take) now (batches ++ b.flush.1.toList)
      else pushLoop rounds b (data.drop take) now batches

/-- A round takes at least one byte, so that there are enough rounds here. -/
def pushAt (b : RawBatcher) (data : Bytes) (now : ℕ) : Option (List Bytes × RawBatcher) :=
  pushLoop (data.length + 1) b data now []

end RawBatcher

inductive Call
  | pushAt (data : Bytes) (now : ℕ)
  | flush

/-- A call, with the batches that it returns. -/
def RawBatcher.call (b : RawBatcher) : Call → Option (List Bytes × RawBatcher)
  | .pushAt data now => b.pushAt data now
  | .flush => some (b.flush.1.toList,b.flush.2)

/-- Calls one after the other, with all their batches. -/
def RawBatcher.run (b : RawBatcher) : List Call → Option (List Bytes × RawBatcher)
  | [] => some ([],b)
  | call :: calls => do
    let (batches,b) ← b.call call
    let (more,b) ← b.run calls
    return (batches ++ more,b)

/-- The bytes that are pushed, each with the time of its push. -/
def pushed (calls : List Call) : List (UInt8 × ℕ) :=
  calls.flatMap fun
    | .pushAt data now => data.map (·,now)
    | .flush => []

/-! ## Rounds -/

namespace TerminalOutputBatcher

def raw (b : TerminalOutputBatcher) : RawBatcher := ⟨b.pending,b.startedAt⟩

theorem flush_raw (b : TerminalOutputBatcher) : b.raw.flush = (b.flush.1,b.flush.2.raw) := by
  by_cases h : b.pending = []
  · simp [RawBatcher.flush,flush,raw,h]
  · simp [RawBatcher.flush,flush,raw,h,RawBatcher.new,new]

/-- With a round for each byte the loop ends, and it ends with what `push` has. -/
theorem pushLoop_raw (b : TerminalOutputBatcher) (data : Bytes) (now : ℕ) {rounds : ℕ} (h : data.length < rounds)
    (batches : List Bytes) :
    b.raw.pushLoop rounds data now batches = some (batches ++ (b.push data now).1,(b.push data now).2.raw) := by
  fun_induction push b data now generalizing rounds batches with
  | case1 b =>
    obtain ⟨rounds,rfl⟩ := Nat.exists_eq_add_of_lt h
    simp [RawBatcher.pushLoop]
  | case2 b data hdata startedAt take hroom =>
    rename_i ih
    obtain ⟨rounds,rfl⟩ := Nat.exists_eq_add_of_le' (Nat.lt_of_le_of_lt (Nat.zero_le _) h)
    have hpos := length_pos_iff.mpr hdata
    have hb := b.room
    have hpending : ¬ batchMaxBytes < b.raw.pending.length := Nat.not_lt.mpr b.room.le
    have hdrop : (data.drop take).length < rounds := by
      rw [length_drop]
      omega
    rw [RawBatcher.pushLoop,if_neg hdata,if_neg hpending]
    exact (if_neg hroom.ne).trans (ih hdrop batches)
  | case3 b data hdata take hroom rest =>
    rename_i ih
    obtain ⟨rounds,rfl⟩ := Nat.exists_eq_add_of_le' (Nat.lt_of_le_of_lt (Nat.zero_le _) h)
    have hpos := length_pos_iff.mpr hdata
    have hb := b.room
    have hpending : ¬ batchMaxBytes < b.raw.pending.length := Nat.not_lt.mpr b.room.le
    have hdrop : (data.drop take).length < rounds := by
      rw [length_drop]
      omega
    have hfull : (b.pending ++ data.take take).length = batchMaxBytes := by
      rw [length_append,length_take] at hroom ⊢
      omega
    have hne : b.pending ++ data.take take ≠ [] := by
      intro hnil
      rw [hnil] at hfull
      cases hfull
    rw [RawBatcher.pushLoop,if_neg hdata,if_neg hpending]
    refine (if_pos hfull).trans ?_
    have hflush (startedAt : Option ℕ) : RawBatcher.flush ⟨b.pending ++ data.take take,startedAt⟩ =
        (some (b.pending ++ data.take take),RawBatcher.new) := if_neg hne
    have hloop := ih hdrop (batches ++ [b.pending ++ data.take take])
    rw [append_assoc] at hloop
    exact (congrArg (fun flushed : Option Bytes × RawBatcher => RawBatcher.pushLoop rounds flushed.2 (data.drop take)
      now (batches ++ flushed.1.toList)) (hflush _)).trans hloop

end TerminalOutputBatcher

/-! ## Calls -/

/-- What a batcher has given away of the bytes pushed, and what it still has. -/
structure Batched (bytes : List (UInt8 × ℕ)) (batches : List Bytes) (b : TerminalOutputBatcher) : Prop where
  all : batches.flatten ++ b.pending = bytes.map Prod.fst
  sizes : ∀ batch ∈ batches, 1 ≤ batch.length ∧ batch.length ≤ batchMaxBytes
  oldest : b.startedAt = ((bytes.drop batches.flatten.length).head?).map Prod.snd

theorem map_fst_stamped (data : Bytes) (now : ℕ) : (data.map (·,now)).map Prod.fst = data := by
  simp [Function.comp_def]

theorem batched_new : Batched [] [] .new where
  all := rfl
  sizes := fun _ h => nomatch h
  oldest := rfl

namespace Batched
variable {bytes : List (UInt8 × ℕ)} {batches : List Bytes} {b : TerminalOutputBatcher}

theorem map_waiting (h : Batched bytes batches b) :
    (bytes.drop batches.flatten.length).map Prod.fst = b.pending := by
  rw [map_drop,← h.all,drop_left]

theorem length_eq (h : Batched bytes batches b) : bytes.length = batches.flatten.length + b.pending.length := by
  have hlength := congrArg List.length h.all
  rw [length_append,length_map] at hlength
  exact hlength.symm

/-- More bytes: the first of them is the oldest where none waits. -/
theorem oldest_append (h : Batched bytes batches b) (data : Bytes) (now : ℕ) (hdata : data ≠ []) :
    (if b.pending = [] then some now else b.startedAt) =
      (((bytes ++ data.map (·,now)).drop batches.flatten.length).head?).map Prod.snd := by
  have hlength := h.length_eq
  rw [drop_append_of_le_length (by omega)]
  by_cases hpending : b.pending = []
  · have hnil : bytes.drop batches.flatten.length = [] := map_eq_nil_iff.mp (h.map_waiting.trans hpending)
    obtain ⟨c,rest,rfl⟩ := exists_cons_of_ne_nil hdata
    rw [if_pos hpending,hnil]
    rfl
  · have hne : bytes.drop batches.flatten.length ≠ [] := by
      intro hnil
      rw [← h.map_waiting,hnil] at hpending
      exact hpending rfl
    rw [if_neg hpending,head?_append_of_ne_nil _ hne,h.oldest]

theorem push (h : Batched bytes batches b) (data : Bytes) (now : ℕ) :
    Batched (bytes ++ data.map (·,now)) (batches ++ (b.push data now).1) (b.push data now).2 := by
  fun_induction TerminalOutputBatcher.push b data now generalizing bytes batches with
  | case1 b => simpa using h
  | case2 b data hdata startedAt take =>
    rename_i hroom ih
    have hsplit : data.map (·,now) = (data.take take).map (·,now) ++ (data.drop take).map (·,now) := by
      rw [← map_append,take_append_drop]
    rw [hsplit,← append_assoc]
    apply ih
    have htake : data.take take ≠ [] := by
      have hb := b.room
      have hpos := length_pos_iff.mpr hdata
      have hsome : take ≠ 0 := by
        omega
      simp [hsome,hdata]
    constructor
    · rw [map_append,← h.all,map_fst_stamped,append_assoc]
    · exact h.sizes
    · exact h.oldest_append _ _ htake
  | case3 b data hdata take hroom =>
    rename_i ih
    have hsplit : data.map (·,now) = (data.take take).map (·,now) ++ (data.drop take).map (·,now) := by
      rw [← map_append,take_append_drop]
    have hall : (batches ++ [b.pending ++ data.take take]).flatten =
        (bytes ++ (data.take take).map (·,now)).map Prod.fst := by
      rw [map_append,← h.all,map_fst_stamped]
      simp
    rw [hsplit,← append_assoc,append_cons]
    apply ih
    constructor
    · rw [hall]
      exact append_nil _
    · intro batch hbatch
      rcases mem_append.mp hbatch with hbatch | hbatch
      · exact h.sizes batch hbatch
      · rw [mem_singleton.mp hbatch]
        have hb := b.room
        rw [length_append,length_take] at hroom ⊢
        omega
    · rw [hall,length_map,drop_length]
      rfl

theorem flush (h : Batched bytes batches b) : Batched bytes (batches ++ b.flush.1.toList) b.flush.2 := by
  by_cases hpending : b.pending = []
  · have hflush : b.flush = (none,b) := if_pos hpending
    rw [hflush,Option.toList_none,append_nil]
    exact h
  · have hflush : b.flush = (some b.pending,.new) := if_neg hpending
    have hall : (batches ++ [b.pending]).flatten = bytes.map Prod.fst := by
      rw [← h.all]
      simp
    rw [hflush]
    constructor
    · exact (append_nil _).trans hall
    · intro batch hbatch
      rcases mem_append.mp hbatch with hbatch | hbatch
      · exact h.sizes batch hbatch
      · rw [mem_singleton.mp hbatch]
        exact ⟨length_pos_iff.mpr hpending,b.room.le⟩
    · rw [Option.toList_some,hall,length_map,drop_length]
      rfl

end Batched

/-- A call on a batcher that keeps its room ends, and it is the call of the fields alone. -/
theorem call_raw {bytes : List (UInt8 × ℕ)} {batches : List Bytes} {b : TerminalOutputBatcher}
    (h : Batched bytes batches b) (call : Call) : ∃ more next, b.raw.call call = some (more,next.raw) ∧
      Batched (bytes ++ pushed [call]) (batches ++ more) next := by
  cases call with
  | pushAt data now =>
    have hpushed : pushed [.pushAt data now] = data.map (·,now) := append_nil _
    have hloop := TerminalOutputBatcher.pushLoop_raw b data now (Nat.lt_succ_self data.length) []
    rw [hpushed]
    exact ⟨_,_,hloop,h.push data now⟩
  | flush =>
    have hpushed : pushed [.flush] = [] := rfl
    rw [hpushed,append_nil,RawBatcher.call,TerminalOutputBatcher.flush_raw]
    exact ⟨_,_,rfl,h.flush⟩

theorem run_raw {bytes : List (UInt8 × ℕ)} {batches : List Bytes} {b : TerminalOutputBatcher}
    (h : Batched bytes batches b) (calls : List Call) : ∃ more next, b.raw.run calls = some (more,next.raw) ∧
      Batched (bytes ++ pushed calls) (batches ++ more) next := by
  induction calls generalizing bytes batches b with
  | nil => exact ⟨[],b,rfl,by simpa [pushed] using h⟩
  | cons call calls ih =>
    obtain ⟨first,next,hcall,hnext⟩ := call_raw h call
    obtain ⟨more,last,hrun,hlast⟩ := ih hnext
    refine ⟨first ++ more,last,?_,?_⟩
    · simp [RawBatcher.run,hcall,hrun]
    · have hpushed : pushed (call :: calls) = pushed [call] ++ pushed calls := by simp [pushed]
      rw [hpushed,← append_assoc,← append_assoc]
      exact hlast

/-- Whatever is pushed and flushed, every call ends, the bytes stay in order, the batches and what is pending have their
bounds, and the deadline is that of the oldest byte pending. -/
theorem batcher_run (calls : List Call) : ∃ batches b, RawBatcher.new.run calls = some (batches,b) ∧
    batches.flatten ++ b.pending = (pushed calls).map Prod.fst ∧
    (∀ batch ∈ batches, 1 ≤ batch.length ∧ batch.length ≤ batchMaxBytes) ∧ b.pending.length < batchMaxBytes ∧
    (b.deadline.isSome ↔ b.pending ≠ []) ∧
    b.deadline = ((pushed calls)[batches.flatten.length]?).map fun byte => byte.2 + 8 := by
  obtain ⟨batches,b,hrun,hbatched⟩ := run_raw batched_new calls
  rw [nil_append,nil_append] at hbatched
  have hdeadline : b.raw.deadline = ((pushed calls)[batches.flatten.length]?).map fun byte => byte.2 + 8 := by
    have holdest : b.startedAt = _ := hbatched.oldest
    rw [RawBatcher.deadline,TerminalOutputBatcher.raw,holdest,head?_drop,Option.map_map]
    rfl
  refine ⟨batches,b.raw,hrun,hbatched.all,hbatched.sizes,b.room,?_,hdeadline⟩
  have hlength := hbatched.length_eq
  have hraw : b.raw.pending = b.pending := rfl
  rw [hdeadline,Option.isSome_map,hraw,← length_pos_iff,Option.isSome_iff_ne_none,Ne,getElem?_eq_none_iff]
  omega

end Mxterm.TerminalReader
