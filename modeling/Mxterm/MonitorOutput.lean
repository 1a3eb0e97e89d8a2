import Mathlib.Algebra.Order.Field.Rat
import Mxterm.CheckedSteps
import Mxterm.Replacements
import Mxterm.TextLines

/-! What the monitor makes of the output of its command (`remote_monitor.rs`): the sections of the output, and the
numbers, names and shares in them. Numbers that are kept in floating point are left out, but for whether they parse. -/
namespace Mxterm.MonitorOutput

open CheckedSteps Text
open CheckedSteps.Checked (add sum narrow index rest slice each fold)

/-! ## Maps -/

section
variable {κ ν : Type} [DecidableEq κ]

/-- A map with one entry for each key. -/
abbrev Map (κ ν : Type) := List (κ × ν)

def Map.get? (m : Map κ ν) (key : κ) : Option ν := (m.find? (·.1 = key)).map Prod.snd

def Map.insert (m : Map κ ν) (key : κ) (value : ν) : Map κ ν := (key,value) :: m.filter (·.1 ≠ key)

def Map.keys (m : Map κ ν) : List κ := m.map Prod.fst

end

/-! ## Texts -/

/-- `str::parse` for an unsigned integer of so many bits. -/
def parseUnsigned (bits : ℕ) (text : String) : Option ℕ :=
  let digits := if text.toList.head? = some '+' then text.toList.tail else text.toList
  let value := Nat.ofDigitChars 10 digits 0
  if digits ≠ [] ∧ digits.all Char.isDigit ∧ value < 2 ^ bits then some value else none

def parseU16 (value : Option String) : Option ℕ := value.bind fun value => parseUnsigned 16 (trim value)

/-- `parse_f64`, of which only the success is kept; `isF64` says which texts are numbers. -/
def parseF64 (isF64 : String → Bool) (value : Option String) : Bool :=
  match value.map trim with
  | none => false
  | some value => value ≠ "" && toAsciiLowercase value ≠ "[not supported]" && isF64 value

/-- `trim_start_matches("cpu")` -/
def dropCpu : List Char → List Char
  | 'c' :: 'p' :: 'u' :: rest => dropCpu rest
  | chars => chars

def saturate (n : ℕ) : ℕ := min n (2 ^ 64 - 1)

/-! ## Sections -/

structure SectionState where
  currentName : Option String
  currentBody : List String
  sections : Map String String

def sectionLine (s : SectionState) (line : String) : SectionState :=
  match stripPrefix "MXBEGIN\t" line with
  | some name => { s with currentName := some (trim name), currentBody := [] }
  | none =>
    match stripPrefix "MXEND\t" line with
    | some name =>
      if s.currentName = some (trim name) then
        ⟨none,[],s.sections.insert (trim name) (join s.currentBody)⟩
      else { s with currentBody := [] }
    | none => if s.currentName.isSome then { s with currentBody := s.currentBody ++ [line] } else s

def parseMonitorSections (output : List UInt8) : Map String String :=
  ((lines (Utf8.decodeLossy output)).foldl sectionLine ⟨none,[],[]⟩).sections

def parseColonFields (text : String) : Map String String :=
  (lines text).foldl (fun m line => match splitOnce ':' line with
    | none => m
    | some (key,value) => m.insert (trim key) (trim value)) []

def parseRepeatedColonFields (text : String) : Map String (List String) :=
  (lines text).foldl (fun m line => match splitOnce ':' line with
    | none => m
    | some (key,value) =>
      m.insert (trim key) (((m.get? (trim key)).getD []) ++ [trim value])) []

def firstValue (m : Map String (List String)) (key : String) : Option String :=
  ((m.get? key).bind List.head?).filter (· ≠ "")

/-! ## CPU -/

structure CpuCounter where
  idle : ℕ
  total : ℕ
  deriving DecidableEq

structure CpuCounters where
  total : CpuCounter
  cores : Map ℕ CpuCounter

def numbers (words : List String) : List ℕ := words.filterMap (parseUnsigned 64)

def cpuLine (counters : CpuCounters) (line : String) : Checked CpuCounters :=
  match splitWhitespace line with
  | [] => pure counters
  | label :: words =>
    if startsWith label "cpu" = false then pure counters
    else if (numbers words).length < 4 then pure counters
    else do
      let idle ← add 64 ((numbers words).getD 3 0) ((numbers words).getD 4 0)
      let total ← sum 64 0 (numbers words)
      if label = "cpu" then return { counters with total := ⟨idle,total⟩ }
      else match parseUnsigned 16 (String.ofList (dropCpu label.toList)) with
        | some id => return { counters with cores := counters.cores.insert id ⟨idle,total⟩ }
        | none => return counters

def parseCpuCounters (text : String) : Checked CpuCounters := fold cpuLine ⟨⟨0,0⟩,[]⟩ (lines text)

/-- The share that `cpu_usage_percent` shows as a percentage. -/
def cpuUsage (previous current : CpuCounter) : Option ℚ :=
  if current.total < previous.total then none
  else
    let totalDelta := current.total - previous.total
    if totalDelta = 0 then none
    else
      let idleDelta := min (current.idle - previous.idle) totalDelta
      some (((totalDelta - idleDelta : ℕ) : ℚ) / (totalDelta : ℚ))

/-- The numbers of the processors for which there is a frequency. -/
structure CpuFrequencies where
  current : List ℕ := []
  base : List ℕ := []
  min : List ℕ := []
  max : List ℕ := []

def frequencyLine (isF64 : String → Bool) (frequencies : CpuFrequencies) (line : String) : Checked CpuFrequencies :=
  let parts := splitWhitespace line
  if parts.length < 3 then pure frequencies
  else match parseU16 parts[1]?, parseF64 isF64 parts[2]? with
    | some id, true => do
      match ← index parts 0 with
      | "cur" => return { frequencies with current := id :: frequencies.current }
      | "base" => return { frequencies with base := id :: frequencies.base }
      | "min" => return { frequencies with min := id :: frequencies.min }
      | "max" => return { frequencies with max := id :: frequencies.max }
      | _ => return frequencies
    | _, _ => pure frequencies

/-- The processors of `cpuinfo` that have a line `cpu MHz`. -/
def cpuinfoFrequencies (isF64 : String → Bool) (cpuinfo : String) : List ℕ :=
  ((lines cpuinfo).foldl (fun (s : Option ℕ × List ℕ) line => match splitOnce ':' line with
    | none => s
    | some (key,value) =>
      if trim key = "processor" then (parseUnsigned 16 (trim value),s.2)
      else if trim key = "cpu MHz" then
        match s.1 with
        | some id => if parseF64 isF64 (some (trim value)) then (s.1,id :: s.2) else s
        | none => s
      else s) (none,[])).2

def parseCpuFrequencies (isF64 : String → Bool) (text : Option String) (cpuinfo : String) : Checked CpuFrequencies := do
  let frequencies ← fold (frequencyLine isF64) {} ((text.map lines).getD [])
  if frequencies.current = [] then return { frequencies with current := cpuinfoFrequencies isF64 cpuinfo }
  else return frequencies

def isVirtualizedLscpu (fields : Map String String) : Bool :=
  ((fields.get? "Hypervisor vendor").any fun value => trim value ≠ "") ||
    (fields.get? "Virtualization type").any fun value =>
      trim value ≠ "" && toAsciiLowercase (trim value) ≠ "none"

structure RemoteCpuSummary where
  sockets : Option ℕ
  isVirtualized : Bool
  physicalCores : Option ℕ
  logicalCores : Option ℕ
  usage : Option ℚ
  /-- The number of each core, with its share. -/
  cores : List (ℕ × Option ℚ)

/-- The number that `lscpu` tells, or that of the counters, or that of the processors in `cpuinfo`. -/
def logicalCores (lscpu : Map String String) (cpuinfo : Map String (List String)) (current : Option CpuCounters) :
    Checked (Option ℕ) :=
  match parseU16 (lscpu.get? "CPU(s)"), current, cpuinfo.get? "processor" with
  | some n, _, _ => pure (some n)
  | none, some counters, _ => some <$> narrow 16 counters.cores.length
  | none, none, some items => some <$> narrow 16 items.length
  | none, none, none => pure none

def parseCpuSummary (isF64 : String → Bool) (sections : Map String String) (current previous : Option CpuCounters) :
    Checked RemoteCpuSummary := do
  let cpuinfo := (sections.get? "cpuinfo").getD ""
  let lscpuFields := parseColonFields ((sections.get? "lscpu").getD "")
  let cpuinfoFields := parseRepeatedColonFields cpuinfo
  let frequencies ← parseCpuFrequencies isF64 (sections.get? "cpu_freq") cpuinfo
  let logical ← logicalCores lscpuFields cpuinfoFields current
  let sockets := parseU16 (lscpuFields.get? "Socket(s)")
  let coresPerSocket := parseU16 (lscpuFields.get? "Core(s) per socket")
  let isVirtualized := isVirtualizedLscpu lscpuFields
  let physical := if isVirtualized then none
    else match sockets, coresPerSocket with
      | some sockets, some cores => some (min (sockets * cores) (2 ^ 16 - 1))
      | _, _ => parseU16 (firstValue cpuinfoFields "cpu cores")
  let known := ((current.map fun counters => counters.cores.keys).getD []) ++ frequencies.current
  let ids := if known = [] then List.range (logical.getD 0) else known.dedup.mergeSort (· ≤ ·)
  let usageOf (id : ℕ) : Option ℚ := do
    let counters ← current
    let now ← counters.cores.get? id
    let counters ← previous
    let before ← counters.cores.get? id
    cpuUsage before now
  return {
    sockets
    isVirtualized
    physicalCores := physical
    logicalCores := logical
    usage := do
      let counters ← current
      let before ← previous
      cpuUsage before.total counters.total
    cores := ids.map fun id => (id,usageOf id) }

/-! ## Memory -/

def parseMeminfoValues (text : String) : Map String ℕ :=
  (lines text).foldl (fun m line => match splitOnce ':' line with
    | none => m
    | some (key,value) =>
      match (splitWhitespace value).head?.bind (parseUnsigned 64) with
      | some kib => m.insert (trim key) (saturate (kib * 1024))
      | none => m) []

structure RemoteMemorySummary where
  totalBytes : ℕ
  usedBytes : ℕ
  availableBytes : ℕ
  freeBytes : Option ℕ
  cachedBytes : Option ℕ
  buffersBytes : Option ℕ
  swapTotalBytes : Option ℕ
  swapUsedBytes : Option ℕ

def buffCache (values : Map String ℕ) : Option ℕ :=
  (values.get? "Cached").map fun cached =>
    saturate (saturate (cached + (values.get? "Buffers").getD 0) + (values.get? "SReclaimable").getD 0) -
      (values.get? "Shmem").getD 0

def availableMemory (values : Map String ℕ) : Checked ℕ :=
  match values.get? "MemAvailable" with
  | some available => pure available
  | none => add 64 ((values.get? "MemFree").getD 0) ((buffCache values).getD 0)

def meminfoValues (sections : Map String String) : Map String ℕ :=
  ((sections.get? "meminfo").map parseMeminfoValues).getD []

def parseMemorySummary (sections : Map String String) : Checked RemoteMemorySummary := do
  let values := meminfoValues sections
  let available ← availableMemory values
  let total := (values.get? "MemTotal").getD 0
  let swapTotal := values.get? "SwapTotal"
  return {
    totalBytes := total
    usedBytes := total - available
    availableBytes := available
    freeBytes := values.get? "MemFree"
    cachedBytes := buffCache values
    buffersBytes := values.get? "Buffers"
    swapTotalBytes := swapTotal
    swapUsedBytes := do return (← swapTotal) - (← values.get? "SwapFree") }

/-! ## Disks -/

def isAsciiWhitespace (b : UInt8) : Bool := b == 32 || b == 9 || b == 10 || b == 12 || b == 13

/-- The indices of one round in `parse_lsblk_pairs`. -/
structure PairAt where
  keyStart : ℕ
  keyEnd : ℕ
  valueStart : ℕ
  valueEnd : ℕ
  next : ℕ

def isQuote (b : Option UInt8) : Bool := b == some 34

def pairAt (bytes : List UInt8) (i : ℕ) : PairAt :=
  let keyStart := scan isAsciiWhitespace bytes i
  let keyEnd := scan (· ≠ 61) bytes keyStart
  if isQuote bytes[keyEnd + 1]? then
    let valueEnd := scan (· ≠ 34) bytes (keyEnd + 2)
    ⟨keyStart,keyEnd,keyEnd + 2,valueEnd,if valueEnd < bytes.length then valueEnd + 1 else valueEnd⟩
  else
    let valueEnd := scan (! isAsciiWhitespace ·) bytes (keyEnd + 1)
    ⟨keyStart,keyEnd,keyEnd + 1,valueEnd,valueEnd⟩

theorem pairAt_next (bytes : List UInt8) (i : ℕ) : i < (pairAt bytes i).next := by
  have hkeyStart := le_scan isAsciiWhitespace bytes i
  have hkeyEnd := le_scan (· ≠ 61) bytes (scan isAsciiWhitespace bytes i)
  simp only [pairAt]
  generalize scan (· ≠ 61) bytes (scan isAsciiWhitespace bytes i) = keyEnd at *
  have hquoted := le_scan (· ≠ 34) bytes (keyEnd + 2)
  have hplain := le_scan (! isAsciiWhitespace ·) bytes (keyEnd + 1)
  split
  · dsimp only
    split <;> omega
  · dsimp only
    omega

/-- The rounds of the loop, from an index on. -/
def lsblkPairs (bytes : List UInt8) (i : ℕ) (pairs : Map String String) : Checked (Map String String) :=
  if i < bytes.length then
    let found := pairAt bytes i
    if bytes.length ≤ found.keyEnd then pure pairs
    else slice bytes found.keyStart found.keyEnd >>= fun key =>
      slice bytes found.valueStart found.valueEnd >>= fun value =>
      lsblkPairs bytes found.next (if key = "" then pairs else pairs.insert key value)
  else pure pairs
termination_by bytes.length - i
decreasing_by
  have hnext := pairAt_next bytes i
  omega

def parseLsblkPairs (line : String) : Checked (Map String String) := lsblkPairs (Utf8.encode line) 0 []

inductive RemoteDiskDeviceKind
  | disk
  | part
  | raid
  | lvm
  | rom
  | loop
  | other
  deriving DecidableEq

def diskKindFromStr (value : Option String) : RemoteDiskDeviceKind :=
  match value.getD "" with
  | "disk" => .disk
  | "part" => .part
  | "raid" => .raid
  | "lvm" => .lvm
  | "rom" => .rom
  | "loop" => .loop
  | _ => .other

def isMonitorStorageDevice (kind : RemoteDiskDeviceKind) (name : String) : Bool :=
  (kind = .disk || kind = .raid) && ! ["zram","ram","fd"].any (startsWith name)

structure RemoteDiskDevice where
  name : String
  kind : RemoteDiskDeviceKind
  sizeBytes : Option ℕ
  model : Option String
  transport : Option String
  mountPoints : Option (List String)

def mountPointsOf (value : String) : List String :=
  ((lines (String.ofList (Occurrences.replaceAll "\\x0a".toList ['\n'] value.toList))).map trim).filter
    (· ≠ "")

def diskDevice (line : String) : Checked (Option RemoteDiskDevice) := do
  let fields ← parseLsblkPairs line
  match fields.get? "NAME" with
  | none => return none
  | some name =>
    let kind := diskKindFromStr (fields.get? "TYPE")
    if isMonitorStorageDevice kind name then
      return some {
        name
        kind
        sizeBytes := (fields.get? "SIZE").bind (parseUnsigned 64)
        model := trimOptional (fields.get? "MODEL")
        transport := trimOptional (fields.get? "TRAN")
        mountPoints := (fields.get? "MOUNTPOINTS").map mountPointsOf }
    else return none

def parseDiskDevices (text : String) : Checked (List RemoteDiskDevice) :=
  (·.filterMap id) <$> each diskDevice (lines text)

def isPseudoMount (filesystem mountPoint : String) : Bool :=
  filesystem ∈ ["tmpfs","devtmpfs","overlay","squashfs","proc","sysfs","devfs","cgroup","cgroup2"] ||
    ["/proc","/sys","/run"].any (startsWith mountPoint)

structure RemoteDiskMountUsage where
  filesystem : String
  mountPoint : String
  totalBytes : ℕ
  usedBytes : ℕ
  availableBytes : ℕ

def diskMount (line : String) : Checked (Option RemoteDiskMountUsage) :=
  let parts := splitWhitespace line
  if parts.length < 6 then pure none
  else do
    let filesystem ← index parts 0
    let mountPoint ← index parts 5
    if isPseudoMount filesystem mountPoint then return none
    let total ← index parts 1
    let used ← index parts 2
    let available ← index parts 3
    let _ ← index parts 4
    return some ⟨filesystem,mountPoint,(parseUnsigned 64 total).getD 0,(parseUnsigned 64 used).getD 0,
      (parseUnsigned 64 available).getD 0⟩

def parseDiskMounts (text : String) : Checked (List RemoteDiskMountUsage) :=
  (·.filterMap id) <$> each diskMount ((lines text).drop 1)

structure DiskIoCounter where
  readSectors : ℕ
  writeSectors : ℕ
  ioTimeMs : ℕ

def diskCounterLine (counters : Map String DiskIoCounter) (line : String) : Checked (Map String DiskIoCounter) :=
  let parts := splitWhitespace line
  if parts.length < 13 then pure counters
  else do
    let name ← index parts 2
    if startsWith name "loop" || startsWith name "ram" then return counters
    let read ← index parts 5
    let write ← index parts 9
    let time ← index parts 12
    return counters.insert name ⟨(parseUnsigned 64 read).getD 0,(parseUnsigned 64 write).getD 0,
      (parseUnsigned 64 time).getD 0⟩

def parseDiskCounters (text : String) : Checked (Map String DiskIoCounter) := fold diskCounterLine [] (lines text)

/-! ## Networks -/

inductive RemoteNetworkInterfaceState
  | up
  | down
  | unknown
  deriving DecidableEq

def tabParts (line : String) : List String := (line.toList.splitOn '\t').map String.ofList

def networkSysLine (items : Map String (Option RemoteNetworkInterfaceState)) (line : String) :
    Checked (Map String (Option RemoteNetworkInterfaceState)) := do
  let name ← index (tabParts line) 0
  if trim name = "" then return items
  let name ← index (tabParts line) 0
  return items.insert (trim name) (((tabParts line)[1]?.map trim).map fun
    | "up" => .up
    | "down" => .down
    | _ => .unknown)

def parseNetworkSys (text : String) : Checked (Map String (Option RemoteNetworkInterfaceState)) :=
  fold networkSysLine [] (lines text)

structure NetworkAddressInfo where
  ipv4 : Option String := none
  ipv6 : Option String := none

def beforeSlash (part : String) : String := String.ofList (part.toList.takeWhile (· ≠ '/'))

def networkAddressLine (addresses : Map String NetworkAddressInfo) (line : String) :
    Checked (Map String NetworkAddressInfo) :=
  let parts := splitWhitespace line
  if parts.length < 4 then pure addresses
  else do
    let iface ← index parts 1
    let iface := String.ofList (iface.toList.rdropWhile (· = ':'))
    let entry := (addresses.get? iface).getD {}
    match ← index parts 2 with
    | "inet" =>
      if entry.ipv4.isSome then return addresses.insert iface entry
      let address ← index parts 3
      return addresses.insert iface { entry with ipv4 := some (beforeSlash address) }
    | "inet6" =>
      if entry.ipv6.isSome then return addresses.insert iface entry
      let address ← index parts 3
      return addresses.insert iface { entry with ipv6 := some (beforeSlash address) }
    | _ => return addresses.insert iface entry

def parseNetworkAddresses (text : String) : Checked (Map String NetworkAddressInfo) :=
  fold networkAddressLine [] (lines text)

/-- `token_after` -/
def tokenAfter (token : String) : List String → Option String
  | a :: b :: parts => if a = token then some b else tokenAfter token (b :: parts)
  | _ => none

def parseDefaultRoute (text : String) : Option (String × Option String) :=
  (lines text).findSome? fun line =>
    (tokenAfter "dev" (splitWhitespace line)).map fun dev => (dev,tokenAfter "src" (splitWhitespace line))

structure NetworkCounter where
  rxBytes : ℕ
  txBytes : ℕ

def networkCounterLine (counters : Map String NetworkCounter) (line : String) : Checked (Map String NetworkCounter) :=
  match splitOnce ':' line with
  | none => pure counters
  | some (iface,values) =>
    let values := splitWhitespace values
    if values.length < 16 then pure counters
    else do
      let received ← index values 0
      let sent ← index values 8
      return counters.insert (trim iface) ⟨(parseUnsigned 64 received).getD 0,(parseUnsigned 64 sent).getD 0⟩

def parseNetworkCounters (text : String) : Checked (Map String NetworkCounter) :=
  fold networkCounterLine [] (lines text)

/-! ## Processes -/

structure RemoteMonitorCollectionOptions where
  includeProcesses : Bool
  processLimit : Option ℕ

structure RemoteProcessSummary where
  pid : ℕ
  ppid : Option ℕ
  user : Option String
  command : String
  args : Option String
  rssBytes : Option ℕ
  state : Option String

/-- A text of more than 512 bytes becomes its first 512 characters. -/
def truncateProcessArgs (args : String) : String :=
  if (Utf8.encode args).length ≤ 512 then args else String.ofList (args.toList.take 512)

def parseProcess (line : String) : Checked (Option RemoteProcessSummary) :=
  let parts := splitWhitespace line
  if parts.length < 8 then pure none
  else do
    let first ← index parts 0
    match parseUnsigned 32 first with
    | none => return none
    | some pid =>
      let args ← if 8 < parts.length then
          (fun words => some (truncateProcessArgs (" ".intercalate words))) <$> rest parts 8
        else pure none
      let ppid ← index parts 1
      let user ← index parts 2
      let command ← index parts 3
      let rss ← index parts 6
      let state ← index parts 7
      return some ⟨pid,parseUnsigned 32 ppid,some user,command,args,
        (parseUnsigned 64 rss).map fun kib => saturate (kib * 1024),some state⟩

/-- The lines are read until enough of them are processes. -/
def parseProcesses : ℕ → List String → Checked (List RemoteProcessSummary)
  | 0, _ => pure []
  | _ + 1, [] => pure []
  | limit + 1, line :: lines => do
    match ← parseProcess line with
    | some process => (process :: ·) <$> parseProcesses limit lines
    | none => parseProcesses (limit + 1) lines

def defaultProcessLimit : ℕ := 80

def maxProcessLimit : ℕ := 300

def parseProcessList (text : Option String) (options : RemoteMonitorCollectionOptions) :
    Checked (List RemoteProcessSummary) :=
  let limit := max 1 (min (options.processLimit.getD defaultProcessLimit) maxProcessLimit)
  if options.includeProcesses then ((text.map fun text => parseProcesses limit (lines text))).getD (pure [])
  else pure []

/-! ## The snapshot -/

structure MonitorCounters where
  collectedAtMs : ℕ
  cpu : Option CpuCounters
  disks : Map String DiskIoCounter
  networks : Map String NetworkCounter

structure RemoteMonitorSnapshot where
  collectedAtMs : ℕ
  cpu : RemoteCpuSummary
  memory : RemoteMemorySummary
  mounts : List RemoteDiskMountUsage
  devices : List RemoteDiskDevice
  interfaces : Map String (Option RemoteNetworkInterfaceState)
  addresses : Map String NetworkAddressInfo
  route : Option (String × Option String)
  processes : List RemoteProcessSummary

/-- A parser for a section that may be missing. -/
def ofSection {α : Type} (sections : Map String String) (name : String) (missing : α) (parse : String → Checked α) :
    Checked α :=
  ((sections.get? name).map parse).getD (pure missing)

def parseMonitorSnapshotOutput (isF64 : String → Bool) (output : List UInt8) (options : RemoteMonitorCollectionOptions)
    (previous : Option MonitorCounters) (collectedAtMs : ℕ) : Checked (RemoteMonitorSnapshot × MonitorCounters) := do
  let sections := parseMonitorSections output
  let cpuCounters ← ofSection sections "cpu_stat" none fun text => some <$> parseCpuCounters text
  let disks ← ofSection sections "diskstats" [] parseDiskCounters
  let networks ← ofSection sections "net_dev" [] parseNetworkCounters
  let cpu ← parseCpuSummary isF64 sections cpuCounters (previous.bind MonitorCounters.cpu)
  let memory ← parseMemorySummary sections
  let mounts ← ofSection sections "df" [] parseDiskMounts
  let devices ← ofSection sections "lsblk" [] parseDiskDevices
  let interfaces ← ofSection sections "net_sys" [] parseNetworkSys
  let addresses ← ofSection sections "net_addr" [] parseNetworkAddresses
  let route := (sections.get? "net_route").bind parseDefaultRoute
  let processes ← parseProcessList (sections.get? "processes") options
  return (⟨collectedAtMs,cpu,memory,mounts,devices,interfaces,addresses,route,processes⟩,
    ⟨collectedAtMs,cpuCounters,disks,networks⟩)

end Mxterm.MonitorOutput
