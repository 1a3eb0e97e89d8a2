import Mathlib.Algebra.Order.Field.Basic
import Mathlib.Data.List.Dedup
import Mxterm.MonitorOutput

/-! Which additions, casts, indices and slices can go wrong when the monitor reads the output of a host. -/
namespace Mxterm.MonitorOutput

open Utf8 Text

open List hiding getElem?_eq_some_iff

open CheckedSteps
open CheckedSteps.Checked

/-! ## Slices -/

theorem ascii_of_isAsciiWhitespace {b : UInt8} (h : isAsciiWhitespace b = true) : b.toNat < 128 := by
  simp only [isAsciiWhitespace,Bool.or_eq_true,beq_iff_eq] at h
  rcases h with (((rfl | rfl) | rfl) | rfl) | rfl <;> decide

theorem ascii_of_eq {c : UInt8} (hc : c.toNat < 128) (b : UInt8) (h : decide (b ≠ c) = false) : b.toNat < 128 := by
  have heq : b = c := by simpa using h
  rwa [heq]

/-- Both slices of a round are in range, and the round ends where the next can begin. -/
theorem pairAt_inRange {s : String} {i : ℕ} (hi : IsBoundary (encode s) i) (hle : i ≤ (encode s).length)
    (hkey : (pairAt (encode s) i).keyEnd < (encode s).length) :
    (slice (encode s) (pairAt (encode s) i).keyStart (pairAt (encode s) i).keyEnd).Safe ∧
    (slice (encode s) (pairAt (encode s) i).valueStart (pairAt (encode s) i).valueEnd).Safe ∧
    IsBoundary (encode s) (pairAt (encode s) i).next ∧
    (pairAt (encode s) i).next ≤ (encode s).length := by
  have hstart : IsBoundary (encode s) (scan isAsciiWhitespace (encode s) i) :=
    boundary_skip (fun b => ascii_of_isAsciiWhitespace) hi
  have hstartle : scan isAsciiWhitespace (encode s) i ≤ (encode s).length := scan_le hle
  have hendle := le_scan (· ≠ 61) (encode s) (scan isAsciiWhitespace (encode s) i)
  have hequals : (pairAt (encode s) i).keyEnd = scan (· ≠ 61) (encode s)
      (scan isAsciiWhitespace (encode s) i) := by
    simp only [pairAt]
    split <;> rfl
  rw [hequals] at hkey
  have hend : IsBoundary (encode s) (scan (· ≠ 61) (encode s) (scan isAsciiWhitespace (encode s) i)) :=
    boundary_until (ascii_of_eq (by decide)) hstartle
  have hafter : IsBoundary (encode s)
      (scan (· ≠ 61) (encode s) (scan isAsciiWhitespace (encode s) i) + 1) := by
    obtain ⟨b,hb,heq⟩ := scan_stops hkey
    exact boundary_after hb (ascii_of_eq (by decide) b heq)
  unfold pairAt
  simp only [safe_slice]
  generalize scan (· ≠ 61) (encode s) (scan isAsciiWhitespace (encode s) i) = keyEnd at *
  by_cases hquote : isQuote (encode s)[keyEnd + 1]? = true
  · rw [if_pos hquote]
    have hget : (encode s)[keyEnd + 1]? = some 34 := by simpa [isQuote] using hquote
    have hlt : keyEnd + 1 < (encode s).length := (List.getElem?_eq_some_iff.mp hget).1
    have hvalue : IsBoundary (encode s) (keyEnd + 2) := boundary_after hget (by decide)
    have hvalueEnd : IsBoundary (encode s) (scan (· ≠ 34) (encode s) (keyEnd + 2)) :=
      boundary_until (ascii_of_eq (by decide)) (by omega)
    have hvalueLe := le_scan (· ≠ 34) (encode s) (keyEnd + 2)
    refine ⟨⟨hendle,hstart,hend⟩,⟨hvalueLe,hvalue,hvalueEnd⟩,?_⟩
    split
    · next hstop =>
      obtain ⟨b,hb,heq⟩ := scan_stops hstop
      exact ⟨boundary_after hb (ascii_of_eq (by decide) b heq),hstop⟩
    · exact ⟨hvalueEnd,scan_le (by omega)⟩
  · rw [if_neg hquote]
    have hvalueEnd : IsBoundary (encode s) (scan (! isAsciiWhitespace ·) (encode s) (keyEnd + 1)) :=
      boundary_until (fun b h => ascii_of_isAsciiWhitespace (by simpa using h)) (by omega)
    exact ⟨⟨hendle,hstart,hend⟩,⟨le_scan _ _ _,hafter,hvalueEnd⟩,hvalueEnd,scan_le (by omega)⟩

theorem lsblkPairs_safe {s : String} (i : ℕ) (pairs : Map String String) (hi : IsBoundary (encode s) i)
    (hle : i ≤ (encode s).length) : (lsblkPairs (encode s) i pairs).Safe := by
  rw [lsblkPairs]
  by_cases hlt : i < (encode s).length
  · rw [if_pos hlt]
    by_cases hend : (encode s).length ≤ (pairAt (encode s) i).keyEnd
    · rw [if_pos hend]
      exact safe_pure _
    · rw [if_neg hend,safe_bind,safe_bind]
      obtain ⟨hkey,hvalue,hnext,hnextle⟩ := pairAt_inRange hi hle (by omega)
      exact ⟨hkey,hvalue,lsblkPairs_safe _ _ hnext hnextle⟩
  · rw [if_neg hlt]
    exact safe_pure _
termination_by (encode s).length - i
decreasing_by
  have hnext := pairAt_next (encode s) i
  omega

/-- No slice of a line of `lsblk` is out of range or cuts a character. -/
theorem parseLsblkPairs_safe (line : String) : (parseLsblkPairs line).Safe :=
  lsblkPairs_safe 0 [] (.inl rfl) (Nat.zero_le _)

theorem diskDevice_safe (line : String) : (diskDevice line).Safe := by
  rw [diskDevice,safe_bind]
  refine ⟨parseLsblkPairs_safe line,?_⟩
  split
  · exact safe_pure _
  · dsimp only
    split <;> exact safe_pure _

/-! ## Indices -/

variable {α : Type}

/-- A parser of lines that looks at the words of a line only when there are enough. -/
theorem safe_words {line : String} {n : ℕ} {short long : Checked α} (hshort : short.Safe)
    (hlong : n ≤ (splitWhitespace line).length → long.Safe) :
    (if (splitWhitespace line).length < n then short else long).Safe := by
  split
  · exact hshort
  · exact hlong (by omega)

theorem diskMount_safe (line : String) : (diskMount line).Safe := by
  refine safe_words (safe_pure _) fun h => ?_
  simp only [safe_bind,safe_index]
  refine ⟨by omega,by omega,?_⟩
  split
  · exact safe_pure _
  · simp only [safe_bind,safe_index,safe_pure,and_true]
    omega

theorem diskCounterLine_safe (counters : Map String DiskIoCounter) (line : String) :
    (diskCounterLine counters line).Safe := by
  refine safe_words (safe_pure _) fun h => ?_
  simp only [safe_bind,safe_index]
  refine ⟨by omega,?_⟩
  split
  · exact safe_pure _
  · simp only [safe_bind,safe_index,safe_pure,and_true]
    omega

theorem frequencyLine_safe (isF64 : String → Bool) (frequencies : CpuFrequencies) (line : String) :
    (frequencyLine isF64 frequencies line).Safe := by
  refine safe_words (safe_pure _) fun h => ?_
  split
  · simp only [safe_bind,safe_index]
    refine ⟨by omega,?_⟩
    split <;> exact safe_pure _
  · exact safe_pure _

theorem networkSysLine_safe (items : Map String (Option RemoteNetworkInterfaceState)) (line : String) :
    (networkSysLine items line).Safe := by
  have hparts : 0 < (tabParts line).length := by
    rw [tabParts,length_map,length_pos_iff]
    exact splitOn_ne_nil _ _
  simp only [networkSysLine,safe_bind,safe_index]
  refine ⟨hparts,?_⟩
  split
  · exact safe_pure _
  · simp only [safe_bind,safe_index,safe_pure,and_true]
    exact hparts

theorem networkAddressLine_safe (addresses : Map String NetworkAddressInfo) (line : String) :
    (networkAddressLine addresses line).Safe := by
  refine safe_words (safe_pure _) fun h => ?_
  simp only [safe_bind,safe_index]
  refine ⟨by omega,by omega,?_⟩
  split
  · split
    · exact safe_pure _
    · simp only [safe_bind,safe_index,safe_pure,and_true]
      omega
  · split
    · exact safe_pure _
    · simp only [safe_bind,safe_index,safe_pure,and_true]
      omega
  · exact safe_pure _

theorem networkCounterLine_safe (counters : Map String NetworkCounter) (line : String) :
    (networkCounterLine counters line).Safe := by
  unfold networkCounterLine
  split
  · exact safe_pure _
  · refine safe_words (safe_pure _) fun h => ?_
    simp only [safe_bind,safe_index,safe_pure,and_true]
    omega

theorem parseProcess_safe (line : String) : (parseProcess line).Safe := by
  refine safe_words (safe_pure _) fun h => ?_
  simp only [safe_bind,safe_index]
  refine ⟨by omega,?_⟩
  split
  · exact safe_pure _
  · split
    · simp only [safe_bind,safe_map,safe_rest,safe_index,safe_pure,and_true]
      omega
    · simp only [safe_bind,safe_index,safe_pure,and_true,true_and]
      omega

theorem parseProcesses_safe (limit : ℕ) (lines : List String) : (parseProcesses limit lines).Safe := by
  induction lines generalizing limit with
  | nil => cases limit <;> exact safe_pure _
  | cons line lines ih =>
    cases limit with
    | zero => exact safe_pure _
    | succ limit =>
      rw [parseProcesses,safe_bind]
      refine ⟨parseProcess_safe line,?_⟩
      split
      · simpa using ih limit
      · exact ih (limit + 1)

theorem parseProcessList_safe (text : Option String) (options : RemoteMonitorCollectionOptions) :
    (parseProcessList text options).Safe := by
  unfold parseProcessList
  split
  · cases text with
    | none => exact safe_pure _
    | some text => exact parseProcesses_safe _ _
  · exact safe_pure _

theorem safe_fold_of_safe {β : Type} {f : β → α → Checked β} (hf : ∀ b a, (f b a).Safe) (b : β) (l : List α) :
    (fold f b l).Safe :=
  (safe_fold (p := fun _ => True) (fun b a => iff_true_intro (hf b a)) b).mpr fun _ _ => trivial

theorem ofSection_safe {sections : Map String String} {name : String} {missing : α} {parse : String → Checked α} :
    (ofSection sections name missing parse).Safe ↔ ∀ text, sections.get? name = some text → (parse text).Safe := by
  unfold ofSection
  cases sections.get? name with
  | none | some => simp

/-! ## Sums -/

/-- A line of counters whose numbers can be added up. -/
def CpuLineInRange (line : String) : Prop :=
  match splitWhitespace line with
  | [] => True
  | label :: words =>
    startsWith label "cpu" = true → 4 ≤ (numbers words).length → (numbers words).sum < 2 ^ 64

theorem getD_add_le_sum {l : List ℕ} (h : 4 ≤ l.length) : l.getD 3 0 + l.getD 4 0 ≤ l.sum := by
  match l, h with
  | a :: b :: c :: d :: more, _ =>
    have hmore : more.getD 0 0 ≤ more.sum := by cases more <;> simp
    simp only [getD_cons_succ,getD_cons_zero,sum_cons]
    omega

theorem cpuLine_safe (counters : CpuCounters) (line : String) : (cpuLine counters line).Safe ↔ CpuLineInRange line := by
  unfold cpuLine CpuLineInRange
  cases splitWhitespace line with
  | nil => simp
  | cons label words =>
    dsimp only
    by_cases hcpu : startsWith label "cpu" = false
    · simp [hcpu]
    · rw [if_neg hcpu]
      by_cases hshort : (numbers words).length < 4
      · rw [if_pos hshort]
        simp only [safe_pure,true_iff]
        omega
      · have hadd := getD_add_le_sum (Nat.le_of_not_lt hshort)
        rw [if_neg hshort,safe_bind,safe_bind,safe_add,safe_sum (by decide),Nat.zero_add]
        constructor
        · intro h _ _
          exact h.2.1
        · intro h
          have hsum := h (by simpa using hcpu) (by omega)
          refine ⟨by omega,hsum,?_⟩
          split
          · exact safe_pure _
          · split <;> exact safe_pure _

/-! ## The number of cores -/

/-- The core that a line of counters is about. -/
def coreId? (line : String) : Option ℕ :=
  match splitWhitespace line with
  | [] => none
  | label :: words =>
    if startsWith label "cpu" = true ∧ 4 ≤ (numbers words).length ∧ label ≠ "cpu" then
      parseUnsigned 16 (String.ofList (dropCpu label.toList))
    else none

theorem keys_insert {ν : Type} (m : Map ℕ ν) (key : ℕ) (value : ν) :
    (m.insert key value).keys = key :: m.keys.filter (· ≠ key) := by
  simp [Map.insert,Map.keys,filter_map,Function.comp_def]

theorem keys_cpuLine (counters : CpuCounters) (line : String) :
    (cpuLine counters line).value.cores.keys = match coreId? line with
      | some id => id :: counters.cores.keys.filter (· ≠ id)
      | none => counters.cores.keys := by
  unfold cpuLine coreId?
  cases splitWhitespace line with
  | nil => rfl
  | cons label words =>
    dsimp only
    by_cases hcpu : startsWith label "cpu" = true
    · by_cases hshort : (numbers words).length < 4
      · rw [if_neg (by simp [hcpu]),if_pos hshort,if_neg (by omega)]
        rfl
      · rw [if_neg (by simp [hcpu]),if_neg hshort,value_bind,value_bind]
        by_cases htotal : label = "cpu"
        · rw [if_pos htotal,if_neg (by simp [htotal])]
          rfl
        · rw [if_neg htotal,if_pos ⟨hcpu,by omega,htotal⟩]
          cases parseUnsigned 16 (String.ofList (dropCpu label.toList)) with
          | none => rfl
          | some id => exact keys_insert _ _ _
    · rw [if_pos (by simpa using hcpu),if_neg (by simp [hcpu])]
      rfl

/-- The cores that are counted are those that some line is about. -/
theorem keys_fold (lines : List String) {counters : CpuCounters} (h : counters.cores.keys.Nodup) :
    (fold cpuLine counters lines).value.cores.keys.Nodup ∧
      ∀ id, id ∈ (fold cpuLine counters lines).value.cores.keys ↔
        id ∈ counters.cores.keys ∨ id ∈ lines.filterMap coreId? := by
  induction lines generalizing counters with
  | nil => simpa [fold] using h
  | cons line lines ih =>
    have hkeys := keys_cpuLine counters line
    have hline : (cpuLine counters line).value.cores.keys.Nodup ∧
        ∀ id, id ∈ (cpuLine counters line).value.cores.keys ↔ id ∈ counters.cores.keys ∨ coreId? line = some id := by
      cases hid : coreId? line with
      | none => simpa [hid,hkeys] using h
      | some own =>
        rw [hkeys,hid]
        refine ⟨nodup_cons.mpr ⟨by simp,h.filter _⟩,fun id => ?_⟩
        by_cases heq : id = own
        · simp [heq]
        · simp [heq,Ne.symm heq]
    obtain ⟨hnodup,hmem⟩ := ih hline.1
    rw [fold,value_bind]
    refine ⟨hnodup,fun id => ?_⟩
    rw [hmem,hline.2,filterMap_cons]
    cases coreId? line with
    | none => simp
    | some own => simp [or_assoc,eq_comm]

theorem length_cores (text : String) :
    (parseCpuCounters text).value.cores.length = ((lines text).filterMap coreId?).dedup.length := by
  have hempty : (CpuCounters.mk ⟨0,0⟩ []).cores.keys.Nodup := nodup_nil
  obtain ⟨hnodup,hmem⟩ := keys_fold (lines text) hempty
  have hperm := (perm_ext_iff_of_nodup hnodup (nodup_dedup ((lines text).filterMap coreId?))).mpr
    fun id => by rw [hmem]; simp [Map.keys]
  rw [← hperm.length_eq,Map.keys,length_map]
  rfl

/-- The lines of `cpuinfo` that begin a processor. -/
def isProcessorLine (line : String) : Bool := (splitOnce ':' line).any fun field => trim field.1 = "processor"

def processors (text : String) : ℕ := (lines text).countP isProcessorLine

theorem get?_insert {ν : Type} (m : Map String ν) (key other : String) (value : ν) :
    (m.insert key value).get? other = if key = other then some value else m.get? other := by
  by_cases h : key = other
  · simp [Map.get?,Map.insert,h]
  · rw [if_neg h,Map.get?,Map.insert,find?_cons_of_neg (by simpa using h),find?_filter]
    have hsame : (fun entry : String × ν => decide (decide (entry.1 ≠ key) = true ∧ decide (entry.1 = other) = true)) =
        fun entry => decide (entry.1 = other) := by
      funext entry
      by_cases hentry : entry.1 = other <;> simp [hentry,Ne.symm h]
    rw [hsame,Map.get?]

theorem processors_eq (text : String) :
    (((parseRepeatedColonFields text).get? "processor").map List.length).getD 0 = processors text := by
  obtain ⟨f,hf,hnone,hsome⟩ : ∃ f : Map String (List String) → String → Map String (List String),
      parseRepeatedColonFields text = (lines text).foldl f [] ∧
      (∀ m line, splitOnce ':' line = none → f m line = m) ∧ ∀ m line field, splitOnce ':' line = some field →
        f m line = m.insert (trim field.1) (((m.get? (trim field.1)).getD []) ++ [trim field.2]) :=
    ⟨_,rfl,fun m line h => by simp [h],fun m line field h => by simp [h]⟩
  have hfold (lines : List String) : ∀ m : Map String (List String),
      (((lines.foldl f m).get? "processor").map List.length).getD 0 =
        ((m.get? "processor").map List.length).getD 0 + lines.countP isProcessorLine := by
    induction lines with
    | nil => simp
    | cons line lines ih =>
      intro m
      rw [foldl_cons,ih]
      cases hsplit : splitOnce ':' line with
      | none => simp [isProcessorLine,hsplit,hnone m line hsplit]
      | some field =>
        rw [hsome m line field hsplit,get?_insert]
        by_cases hkey : trim field.1 = "processor"
        · cases hget : m.get? "processor" with
          | none => simp [isProcessorLine,hsplit,hkey,hget,Nat.add_comm]
          | some items => simp [isProcessorLine,hsplit,hkey,hget]; omega
        · simp [isProcessorLine,hsplit,hkey]
  rw [hf]
  exact (hfold (lines text) []).trans (Nat.zero_add _)

/-! ## Shares -/

/-- The busy share of any two counters, whatever their order. -/
theorem cpuUsage_mem {previous current : CpuCounter} {share : ℚ} (h : cpuUsage previous current = some share) :
    0 ≤ share ∧ share ≤ 1 := by
  unfold cpuUsage at h
  split at h
  · cases h
  · dsimp only at h
    split at h
    · cases h
    · next hpos =>
      have htotal : (0 : ℚ) < ((current.total - previous.total : ℕ) : ℚ) := Nat.cast_pos.mpr (Nat.pos_of_ne_zero hpos)
      have hshare : ((current.total - previous.total - min (current.idle - previous.idle)
          (current.total - previous.total) : ℕ) : ℚ) ≤ ((current.total - previous.total : ℕ) : ℚ) :=
        Nat.cast_le.mpr (Nat.sub_le _ _)
      cases h
      exact ⟨div_nonneg (Nat.cast_nonneg _) htotal.le,(div_le_one htotal).mpr hshare⟩

/-- The busy shares of all processors together and of each core. -/
def RemoteCpuSummary.shares (summary : RemoteCpuSummary) : List ℚ :=
  summary.usage.toList ++ summary.cores.filterMap Prod.snd

theorem shares_mem (isF64 : String → Bool) (sections : Map String String) (current previous : Option CpuCounters)
    {share : ℚ} (h : share ∈ (parseCpuSummary isF64 sections current previous).value.shares) :
    0 ≤ share ∧ share ≤ 1 := by
  simp only [parseCpuSummary,value_bind,value_pure,RemoteCpuSummary.shares,mem_append,Option.mem_toList,
    mem_filterMap,mem_map,Option.bind_eq_bind,Option.bind_eq_some_iff] at h
  rcases h with h | h
  · obtain ⟨counters,-,before,-,husage⟩ := h
    exact cpuUsage_mem husage
  · obtain ⟨core,⟨id,-,rfl⟩,hcore⟩ := h
    simp only [Option.bind_eq_some_iff] at hcore
    obtain ⟨counters,-,now,-,earlier,-,before,-,husage⟩ := hcore
    exact cpuUsage_mem husage

/-! ## The whole output -/

/-- The number of cores where `lscpu` does not tell it. -/
def countedCores (sections : Map String String) : ℕ :=
  match sections.get? "cpu_stat" with
  | some text => ((lines text).filterMap coreId?).dedup.length
  | none => processors ((sections.get? "cpuinfo").getD "")

/-- Numbers of an output that the additions and casts can take. -/
structure InRange (sections : Map String String) : Prop where
  cpu : ∀ text, sections.get? "cpu_stat" = some text → ∀ line ∈ lines text, CpuLineInRange line
  cores : parseU16 ((parseColonFields ((sections.get? "lscpu").getD "")).get? "CPU(s)") = none →
    countedCores sections < 2 ^ 16
  memory : (meminfoValues sections).get? "MemAvailable" = none →
    ((meminfoValues sections).get? "MemFree").getD 0 + (buffCache (meminfoValues sections)).getD 0 < 2 ^ 64

theorem availableMemory_safe (values : Map String ℕ) :
    (availableMemory values).Safe ↔ (values.get? "MemAvailable" = none →
      (values.get? "MemFree").getD 0 + (buffCache values).getD 0 < 2 ^ 64) := by
  unfold availableMemory
  cases values.get? "MemAvailable" with
  | some | none => simp

theorem logicalCores_safe (sections : Map String String) (lscpu : Map String String) :
    (logicalCores lscpu (parseRepeatedColonFields ((sections.get? "cpuinfo").getD ""))
      (ofSection sections "cpu_stat" none fun text => some <$> parseCpuCounters text).value).Safe ↔
      (parseU16 (lscpu.get? "CPU(s)") = none → countedCores sections < 2 ^ 16) := by
  unfold logicalCores countedCores ofSection
  cases parseU16 (lscpu.get? "CPU(s)") with
  | some n => simp
  | none =>
    cases sections.get? "cpu_stat" with
    | some text => simp [length_cores]
    | none =>
      have hcount := processors_eq ((sections.get? "cpuinfo").getD "")
      cases hitems : (parseRepeatedColonFields ((sections.get? "cpuinfo").getD "")).get? "processor" with
      | none =>
        rw [hitems] at hcount
        simp [← hcount]
      | some items =>
        rw [hitems] at hcount
        simp [← hcount]

theorem parseCpuSummary_safe (isF64 : String → Bool) (sections : Map String String) (previous : Option CpuCounters) :
    (parseCpuSummary isF64 sections
      (ofSection sections "cpu_stat" none fun text => some <$> parseCpuCounters text).value previous).Safe ↔
      (parseU16 ((parseColonFields ((sections.get? "lscpu").getD "")).get? "CPU(s)") = none →
        countedCores sections < 2 ^ 16) := by
  have hfrequencies (text : Option String) (cpuinfo : String) : (parseCpuFrequencies isF64 text cpuinfo).Safe := by
    rw [parseCpuFrequencies,safe_bind]
    refine ⟨safe_fold_of_safe (frequencyLine_safe isF64) _ _,?_⟩
    split <;> exact safe_pure _
  simp only [parseCpuSummary,safe_bind,safe_pure,and_true,hfrequencies,true_and]
  exact logicalCores_safe sections _

theorem safe_iff (isF64 : String → Bool) (output : List UInt8) (options : RemoteMonitorCollectionOptions)
    (previous : Option MonitorCounters) (collectedAtMs : ℕ) :
    (parseMonitorSnapshotOutput isF64 output options previous collectedAtMs).Safe ↔
      InRange (parseMonitorSections output) := by
  have hdisks (text : String) : (parseDiskCounters text).Safe := safe_fold_of_safe diskCounterLine_safe _ _
  have hnetworks (text : String) : (parseNetworkCounters text).Safe := safe_fold_of_safe networkCounterLine_safe _ _
  have hmounts (text : String) : (parseDiskMounts text).Safe := by
    rw [parseDiskMounts,safe_map,safe_each]
    exact fun line _ => diskMount_safe line
  have hdevices (text : String) : (parseDiskDevices text).Safe := by
    rw [parseDiskDevices,safe_map,safe_each]
    exact fun line _ => diskDevice_safe line
  have hinterfaces (text : String) : (parseNetworkSys text).Safe := safe_fold_of_safe networkSysLine_safe _ _
  have haddresses (text : String) : (parseNetworkAddresses text).Safe := safe_fold_of_safe networkAddressLine_safe _ _
  have hcpu (text : String) : (parseCpuCounters text).Safe ↔ ∀ line ∈ lines text, CpuLineInRange line :=
    safe_fold cpuLine_safe _
  simp only [parseMonitorSnapshotOutput,safe_bind,safe_pure,ofSection_safe,safe_map,hcpu,hdisks,hnetworks,hmounts,
    hdevices,hinterfaces,haddresses,parseCpuSummary_safe,parseMemorySummary,availableMemory_safe,
    parseProcessList_safe,implies_true,true_and,and_true]
  constructor
  · intro h
    exact ⟨h.1,h.2.1,h.2.2⟩
  · intro h
    exact ⟨h.cpu,h.cores,h.memory⟩

theorem monitor_arithmetic_iff (isF64 : String → Bool) (output : List UInt8)
    (options : RemoteMonitorCollectionOptions) (previous : Option MonitorCounters) (collectedAtMs : ℕ) :
    ((parseMonitorSnapshotOutput isF64 output options previous collectedAtMs).Safe ∧
      ∀ share ∈ (parseMonitorSnapshotOutput isF64 output options previous collectedAtMs).value.1.cpu.shares,
        0 ≤ share ∧ share ≤ 1) ↔ InRange (parseMonitorSections output) := by
  rw [safe_iff]
  refine and_iff_left fun share h => ?_
  simp only [parseMonitorSnapshotOutput,value_bind,value_pure] at h
  exact shares_mem isF64 _ _ _ h

/-! ## A sum out of range -/

/-- Counters that one more tick would bring to the end of their range. -/
def fullLine : String := "cpu 18446744073709551615 0 0 1"

def fullOutput : List UInt8 := encode ("MXBEGIN\tcpu_stat\n" ++ fullLine ++ "\nMXEND\tcpu_stat\n")

theorem full_sections : parseMonitorSections fullOutput = [("cpu_stat",fullLine)] := by
  rw [parseMonitorSections,fullOutput,decodeLossy_encode]
  decide +kernel

theorem full_sum_overflows :
    ¬ (parseMonitorSnapshotOutput (fun _ => false) fullOutput ⟨false,none⟩ none 0).Safe := by
  rw [safe_iff,full_sections]
  intro h
  have hline : fullLine ∈ lines fullLine := by decide +kernel
  have hwords : splitWhitespace fullLine = ["cpu","18446744073709551615","0","0","1"] := by decide +kernel
  have hget : Map.get? [("cpu_stat",fullLine)] "cpu_stat" = some fullLine := by simp [Map.get?]
  have hrange := h.cpu fullLine hget fullLine hline
  rw [CpuLineInRange] at hrange
  exact absurd (hrange (by decide) (by decide)) (by decide)

end Mxterm.MonitorOutput
