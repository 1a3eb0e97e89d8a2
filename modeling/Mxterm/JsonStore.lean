import Mxterm.SecureBundle
import Mxterm.Utf8
import Mxterm.Values

/-! The JSON documents on the disk (`storage.rs`): what is read from a store whose writes may fail or be cut off at any
step, and whose file may be damaged. -/
namespace Mxterm.JsonStore

abbrev Bytes := List UInt8

structure JsonStoreErrorLabels where
  createDirCode : String
  createDirMessage : String
  parseCode : String
  parseMessage : String
  readCode : String
  readMessage : String
  serializeCode : String
  serializeMessage : String
  writeCode : String
  writeMessage : String

/-- The JSON of a type of documents, `to_string_pretty` and `from_str`. -/
structure Json (δ : Type) where
  toStringPretty : δ → Except String String
  fromStr : String → Except String δ

/-- The file of the store, and its backup. -/
structure Files where
  primary : Option Bytes
  backup : Option Bytes
  deriving DecidableEq

variable {δ : Type} (json : Json δ) (labels : JsonStoreErrorLabels)

/-! ## Reading -/

def readJsonDocument (content : Bytes) : Except AppError δ :=
  match Utf8.decode? content with
  | none => .error ⟨labels.readCode,labels.readMessage,"stream did not contain valid UTF-8",true⟩
  | some text =>
    match json.fromStr text with
    | .error error => .error ⟨labels.parseCode,labels.parseMessage,error,true⟩
    | .ok document => .ok document

def loadJsonDocument (default : δ) (files : Files) : Except AppError δ :=
  match files.primary with
  | none => .ok default
  | some content =>
    match readJsonDocument json labels content with
    | .ok document => .ok document
    | .error primaryError =>
      match files.backup with
      | none => .error primaryError
      | some content => (readJsonDocument json labels content).mapError fun _ => primaryError

/-! ## Writing -/

/-- How a step goes: it fails with an error, or the program ends there. -/
inductive Fault
  | fails (error : String)
  | crashes

/-- What goes wrong in a write. A copy that is cut off has written its first bytes. -/
structure Faults where
  createDir : Option Fault
  create : Option Fault
  write : Option Fault
  sync : Option Fault
  copy : Option (Fault × ℕ)
  rename : Option Fault
  /-- The program ends when the file has been renamed. -/
  last : Bool

/-- What comes back from a step that goes wrong; nothing where the program ends. -/
def returned (code message : String) : Fault → Option (Except AppError Unit)
  | .fails error => some (.error ⟨code,message,error,true⟩)
  | .crashes => none

/-- The copy of the file to the backup, in place. -/
def copyToBackup (content : Bytes) : Option (Fault × ℕ) → Bytes
  | none => content
  | some (_,written) => content.take written

/-- What `write_json_document` returns, and what it leaves. -/
def writeJsonDocument (document : δ) (faults : Faults) (files : Files) : Option (Except AppError Unit) × Files :=
  match json.toStringPretty document with
  | .error error => (some (.error ⟨labels.serializeCode,labels.serializeMessage,error,true⟩),files)
  | .ok text =>
    match faults.createDir with
    | some fault => (returned labels.createDirCode labels.createDirMessage fault,files)
    | none =>
      match faults.create.or (faults.write.or faults.sync) with
      | some fault => (returned labels.writeCode labels.writeMessage fault,files)
      | none =>
        let backup := match files.primary with
          | some content => some (copyToBackup content faults.copy)
          | none => files.backup
        match files.primary.bind fun _ => faults.copy with
        | some (fault,_) => (returned labels.writeCode labels.writeMessage fault,{ files with backup })
        | none =>
          match faults.rename with
          | some fault => (returned labels.writeCode labels.writeMessage fault,{ files with backup })
          | none => (if faults.last then none else some (.ok ()),⟨some (Utf8.encode text),backup⟩)

/-! ## Histories -/

/-- Bytes that are no document. -/
def Unreadable (content : Bytes) : Prop := ∀ document, readJsonDocument json labels content ≠ .ok document

/-- What happens to a store: a write, or damage to its file. -/
inductive Event
  | write (document : δ) (faults : Faults)
  | damage (content : Bytes) (unreadable : Unreadable json labels content)

/-- The store, and what has been written: every document that was renamed into place, the one that is in place, and
whether a write has returned. -/
structure History (δ : Type) where
  files : Files
  written : List δ
  current : Option δ
  completed : Bool

def History.start : History δ := ⟨⟨none,none⟩,[],none,false⟩

/-- Whether a write gets as far as the copy of the file. -/
def reachesCopy (document : δ) (faults : Faults) : Bool :=
  (json.toStringPretty document).isOk && faults.createDir.isNone &&
    (faults.create.or (faults.write.or faults.sync)).isNone

/-- Whether it puts its document in place. -/
def renames (document : δ) (faults : Faults) (files : Files) : Bool :=
  reachesCopy json document faults && (files.primary.isNone || faults.copy.isNone) && faults.rename.isNone

def History.step (h : History δ) : Event json labels → History δ
  | .write document faults =>
    let (result,files) := writeJsonDocument json labels document faults h.files
    if renames json document faults h.files then
      ⟨files,h.written ++ [document],some document,h.completed || result.isSome⟩
    else { h with files }
  | .damage content _ =>
    { h with files := { h.files with primary := h.files.primary.map fun _ => content }, current := none }

def run (events : List (Event json labels)) : History δ := events.foldl (History.step json labels) .start

/-- The store survives: the document in place is read, and once a write has returned, a document that was written is
read also when the file is damaged. -/
structure Survives (default : δ) (h : History δ) : Prop where
  loads : ∀ document, h.current = some document → loadJsonDocument json labels default h.files = .ok document
  recovers : h.completed = true → ∀ content, Unreadable json labels content → ∃ document ∈ h.written,
    loadJsonDocument json labels default { h.files with primary := some content } = .ok document

/-- A write that copies the file to its backup. -/
def Copies (h : History δ) : Event json labels → Prop
  | .write document faults => reachesCopy json document faults = true ∧ h.files.primary.isSome = true
  | .damage _ _ => False

/-- A document that was written. -/
def Reads (documents : List δ) (content : Bytes) : Prop :=
  ∃ document ∈ documents, readJsonDocument json labels content = .ok document

/-- What it copies is a document that was written, all of it. -/
def Whole (h : History δ) : Event json labels → Prop
  | .write _ faults => ∃ content, h.files.primary = some content ∧
      Reads json labels h.written (copyToBackup content faults.copy)
  | .damage _ _ => False

/-- The last write that made a copy copied a document that was written. -/
def Kept (events : List (Event json labels)) : Prop :=
  ∃ n event, events[n]? = some event ∧ Copies json labels (run json labels (events.take n)) event ∧
    Whole json labels (run json labels (events.take n)) event ∧
    ∀ m later, n < m → events[m]? = some later → ¬ Copies json labels (run json labels (events.take m)) later

/-! ## What a step leaves -/

/-- What is written is read again. -/
def Json.RoundTrips : Prop :=
  ∀ document text, json.toStringPretty document = .ok text → json.fromStr text = .ok document

section
variable {json labels} {document : δ} {faults : Faults} {files : Files} {h : History δ} {text : String}

theorem read_written (labels : JsonStoreErrorLabels) (hjson : json.RoundTrips)
    (htext : json.toStringPretty document = .ok text) :
    readJsonDocument json labels (Utf8.encode text) = .ok document := by
  rw [readJsonDocument,Utf8.decode?_encode]
  simp only [hjson document text htext]

theorem write_early (labels : JsonStoreErrorLabels) (hreaches : reachesCopy json document faults = false)
    (files : Files) :
    (writeJsonDocument json labels document faults files).2 = files := by
  unfold writeJsonDocument
  cases htext : json.toStringPretty document with
  | error error => rfl
  | ok text =>
    cases hdir : faults.createDir with
    | some fault => rfl
    | none =>
      cases hearly : faults.create.or (faults.write.or faults.sync) with
      | some fault => rfl
      | none => simp [reachesCopy,htext,hdir,hearly,Except.isOk,Except.toBool] at hreaches

theorem write_late (labels : JsonStoreErrorLabels) (htext : json.toStringPretty document = .ok text)
    (hreaches : reachesCopy json document faults = true) (files : Files) :
    (writeJsonDocument json labels document faults files).2 =
      ⟨if renames json document faults files then some (Utf8.encode text) else files.primary,
        (files.primary.map fun content => copyToBackup content faults.copy).or files.backup⟩ := by
  have hfaults := hreaches
  simp only [reachesCopy,Bool.and_eq_true,Option.isNone_iff_eq_none] at hfaults
  unfold writeJsonDocument
  simp only [htext,hfaults.1.2,hfaults.2,renames,hreaches,Bool.true_and]
  cases hprimary : files.primary <;> cases hcopy : faults.copy <;> cases hrename : faults.rename <;> simp

/-- What the files of a store hold. -/
structure Sound (json : Json δ) (labels : JsonStoreErrorLabels) (h : History δ) : Prop where
  current : ∀ document, h.current = some document → document ∈ h.written ∧ ∃ text,
    json.toStringPretty document = .ok text ∧ h.files.primary = some (Utf8.encode text)
  primary : ∀ content, h.files.primary = some content →
    Reads json labels h.written content ∨ Unreadable json labels content
  backup : h.files.primary = none → h.files.backup = none
  completed : h.completed = true → h.files.primary.isSome = true

theorem sound_start : Sound json labels .start where
  current := fun _ h => nomatch h
  primary := fun _ h => nomatch h
  backup := fun _ => rfl
  completed := fun h => nomatch h

/-- The backup is a document that was written. -/
def Backed (json : Json δ) (labels : JsonStoreErrorLabels) (h : History δ) : Prop :=
  ∃ content, h.files.backup = some content ∧ Reads json labels h.written content

theorem step_early (hreaches : reachesCopy json document faults = false) (h : History δ) :
    h.step json labels (.write document faults) = h := by
  have hfiles := write_early labels hreaches h.files
  simp only [History.step,renames,hreaches,Bool.false_and,Bool.false_eq_true,if_false,hfiles]

theorem step_kept (htext : json.toStringPretty document = .ok text) (hreaches : reachesCopy json document faults = true)
    (h : History δ) (hrenames : renames json document faults h.files = false) :
    h.step json labels (.write document faults) = { h with files := ⟨h.files.primary,
      (h.files.primary.map fun content => copyToBackup content faults.copy).or h.files.backup⟩ } := by
  have hfiles := write_late labels htext hreaches h.files
  simp only [History.step,hrenames,Bool.false_eq_true,if_false,hfiles]

theorem step_renamed (labels : JsonStoreErrorLabels) (htext : json.toStringPretty document = .ok text)
    (hreaches : reachesCopy json document faults = true) (h : History δ)
    (hrenames : renames json document faults h.files = true) : ∃ completed,
    h.step json labels (.write document faults) = ⟨⟨some (Utf8.encode text),
      (h.files.primary.map fun content => copyToBackup content faults.copy).or h.files.backup⟩,
      h.written ++ [document],some document,completed⟩ := by
  have hfiles := write_late labels htext hreaches h.files
  simp only [History.step,hrenames,if_true,hfiles]
  exact ⟨_,rfl⟩

theorem text_of_reaches (hreaches : reachesCopy json document faults = true) :
    ∃ text, json.toStringPretty document = .ok text := by
  cases htext : json.toStringPretty document with
  | error error => simp [reachesCopy,htext,Except.isOk,Except.toBool] at hreaches
  | ok text => exact ⟨text,rfl⟩

theorem sound_step (hjson : json.RoundTrips) (hsound : Sound json labels h) (event : Event json labels) :
    Sound json labels (h.step json labels event) := by
  cases event with
  | damage content hunreadable =>
    constructor
    · intro document hcurrent
      cases hcurrent
    · intro damaged hprimary
      obtain ⟨_,-,hdamaged⟩ := Option.map_eq_some_iff.mp hprimary
      exact .inr (hdamaged ▸ hunreadable)
    · intro hprimary
      exact hsound.backup (Option.map_eq_none_iff.mp hprimary)
    · intro hcompleted
      simpa [History.step] using hsound.completed hcompleted
  | write document faults =>
    cases hreaches : reachesCopy json document faults with
    | false =>
      rw [step_early hreaches]
      exact hsound
    | true =>
      obtain ⟨text,htext⟩ := text_of_reaches hreaches
      cases hrenames : renames json document faults h.files with
      | false =>
        rw [step_kept htext hreaches h hrenames]
        constructor
        · exact hsound.current
        · exact hsound.primary
        · intro hprimary
          have hnone : h.files.primary = none := hprimary
          simp [hnone,hsound.backup hnone]
        · exact hsound.completed
      | true =>
        obtain ⟨completed,hstep⟩ := step_renamed labels htext hreaches h hrenames
        rw [hstep]
        constructor
        · intro current hcurrent
          rw [← Option.some.inj hcurrent]
          exact ⟨List.mem_append_right _ (List.mem_singleton_self _),text,htext,rfl⟩
        · intro content hcontent
          rw [← Option.some.inj hcontent]
          exact .inl ⟨document,List.mem_append_right _ (List.mem_singleton_self _),read_written labels hjson htext⟩
        · intro hprimary
          cases hprimary
        · exact fun _ => rfl

/-- A step leaves a good backup where it copies a document that was written, or makes no copy. -/
theorem backed_step (hsound : Sound json labels h) (event : Event json labels) :
    Backed json labels (h.step json labels event) ↔
      (Copies json labels h event ∧ Whole json labels h event) ∨
        (¬ Copies json labels h event ∧ Backed json labels h) := by
  cases event with
  | damage content hunreadable => simp [Backed,History.step,Copies]
  | write document faults =>
    cases hreaches : reachesCopy json document faults with
    | false =>
      rw [step_early hreaches]
      simp [Copies,hreaches]
    | true =>
      obtain ⟨text,htext⟩ := text_of_reaches hreaches
      cases hprimary : h.files.primary with
      | none =>
        have hbackup := hsound.backup hprimary
        cases hrenames : renames json document faults h.files with
        | false =>
          rw [step_kept htext hreaches h hrenames]
          simp [Copies,Backed,hprimary,hbackup]
        | true =>
          obtain ⟨completed,hstep⟩ := step_renamed labels htext hreaches h hrenames
          rw [hstep]
          simp [Copies,Backed,hprimary,hbackup]
      | some content =>
        cases hrenames : renames json document faults h.files with
        | false =>
          rw [step_kept htext hreaches h hrenames]
          simp [Copies,Whole,Backed,hprimary,hreaches]
        | true =>
          obtain ⟨completed,hstep⟩ := step_renamed labels htext hreaches h hrenames
          have hcopy : faults.copy = none := by
            simp only [renames,hprimary,Option.isNone_some,Bool.false_or,Bool.and_eq_true,
              Option.isNone_iff_eq_none] at hrenames
            exact hrenames.1.2
          rw [hstep]
          simp only [Copies,Whole,Backed,hprimary,hreaches,hcopy,copyToBackup,Option.map_some,Option.some_or,
            Option.some.injEq,exists_eq_left',Option.isSome_some,and_true,true_and,not_true_eq_false,false_and,or_false]
          constructor
          · rintro ⟨read,-,hread⟩
            exact (hsound.primary content hprimary).resolve_right fun h => h read hread
          · rintro ⟨read,hmem,hread⟩
            exact ⟨read,List.mem_append_left _ hmem,hread⟩

/-! ## Whole histories -/

theorem run_concat (events : List (Event json labels)) (event : Event json labels) :
    run json labels (events ++ [event]) = (run json labels events).step json labels event := by
  simp [run]

theorem sound_run (hjson : json.RoundTrips) (events : List (Event json labels)) :
    Sound json labels (run json labels events) := by
  induction events using List.reverseRecOn with
  | nil => exact sound_start
  | append_singleton events event ih =>
    rw [run_concat]
    exact sound_step hjson ih event

theorem kept_concat (events : List (Event json labels)) (event : Event json labels) :
    Kept json labels (events ++ [event]) ↔
      (Copies json labels (run json labels events) event ∧ Whole json labels (run json labels events) event) ∨
        (¬ Copies json labels (run json labels events) event ∧ Kept json labels events) := by
  have hfront (n : ℕ) (hn : n < events.length) : (events ++ [event])[n]? = events[n]? ∧
      (events ++ [event]).take n = events.take n :=
    ⟨List.getElem?_append_left hn,List.take_append_of_le_length hn.le⟩
  have hlast : (events ++ [event])[events.length]? = some event ∧
      (events ++ [event]).take events.length = events := by simp
  have hbehind (n : ℕ) (hn : events.length < n) : (events ++ [event])[n]? = none := by
    simp only [List.getElem?_eq_none_iff,List.length_append,List.length_singleton]
    omega
  constructor
  · rintro ⟨n,copied,hcopied,hcopies,hwhole,hlater⟩
    rcases Nat.lt_trichotomy n events.length with hn | rfl | hn
    · rw [(hfront n hn).1] at hcopied
      rw [(hfront n hn).2] at hcopies hwhole
      refine .inr ⟨?_,n,copied,hcopied,hcopies,hwhole,fun m later hm hget => ?_⟩
      · have hnone := hlater events.length event hn hlast.1
        rwa [hlast.2] at hnone
      · have hlt := (List.getElem?_eq_some_iff.mp hget).1
        have hnone := hlater m later hm (by rw [(hfront m hlt).1,hget])
        rwa [(hfront m hlt).2] at hnone
    · rw [hlast.1,Option.some_inj] at hcopied
      rw [hlast.2,← hcopied] at hcopies hwhole
      exact .inl ⟨hcopies,hwhole⟩
    · rw [hbehind n hn] at hcopied
      cases hcopied
  · rintro (⟨hcopies,hwhole⟩ | ⟨hnone,n,copied,hcopied,hcopies,hwhole,hlater⟩)
    · refine ⟨events.length,event,hlast.1,by rwa [hlast.2],by rwa [hlast.2],fun m later hm hget => ?_⟩
      rw [hbehind m hm] at hget
      cases hget
    · have hn := (List.getElem?_eq_some_iff.mp hcopied).1
      refine ⟨n,copied,by rw [(hfront n hn).1,hcopied],by rwa [(hfront n hn).2],by rwa [(hfront n hn).2],
        fun m later hm hget => ?_⟩
      rcases Nat.lt_trichotomy m events.length with hlt | rfl | hgt
      · rw [(hfront m hlt).1] at hget
        rw [(hfront m hlt).2]
        exact hlater m later hm hget
      · rw [hlast.1,Option.some_inj] at hget
        rwa [hlast.2,← hget]
      · rw [hbehind m hgt] at hget
        cases hget

theorem backed_run (hjson : json.RoundTrips) (events : List (Event json labels)) :
    Backed json labels (run json labels events) ↔ Kept json labels events := by
  induction events using List.reverseRecOn with
  | nil =>
    refine iff_of_false ?_ ?_
    · rintro ⟨content,hcontent,-⟩
      cases hcontent
    · rintro ⟨n,event,hevent,-⟩
      cases hevent
  | append_singleton events event ih =>
    rw [run_concat,backed_step (sound_run hjson events) event,kept_concat,ih]

/-- Where nothing has damaged the file, a copy of it is whole unless it is cut off, if no document begins with
another one. -/
theorem whole_iff (hjson : json.RoundTrips)
    (hcut : ∀ document text n, json.toStringPretty document = .ok text → n < (Utf8.encode text).length →
      Unreadable json labels ((Utf8.encode text).take n))
    (events : List (Event json labels)) {current : δ} (hcurrent : (run json labels events).current = some current)
    (document : δ) (faults : Faults) :
    Whole json labels (run json labels events) (.write document faults) ↔ ∀ fault written,
      faults.copy = some (fault,written) → ∀ content ∈ (run json labels events).files.primary,
        content.length ≤ written := by
  obtain ⟨hwritten,text,htext,hprimary⟩ := (sound_run hjson events).current current hcurrent
  have hread := read_written labels hjson htext
  rw [Whole,hprimary]
  simp only [Option.some.injEq,exists_eq_left',Option.mem_some_iff,forall_eq']
  cases hcopy : faults.copy with
  | none =>
    refine iff_of_true ⟨current,hwritten,hread⟩ fun fault written h => ?_
    cases h
  | some copy =>
    obtain ⟨fault,written⟩ := copy
    constructor
    · rintro ⟨read,-,htaken⟩ _ _ heq
      cases heq
      by_contra hshort
      exact hcut current text written htext (Nat.lt_of_not_le hshort) read htaken
    · intro hlong
      refine ⟨current,hwritten,?_⟩
      rw [copyToBackup,List.take_of_length_le (hlong fault written rfl)]
      exact hread

/-- The bytes of no text. -/
theorem unreadable_ff : Unreadable json labels [0xFF] := by
  intro document
  intro h
  cases h

theorem load_damaged (default : δ) {content : Bytes} (hunreadable : Unreadable json labels content) :
    (∃ document ∈ h.written, loadJsonDocument json labels default { h.files with primary := some content } =
      .ok document) ↔ Backed json labels h := by
  have hread : ∃ error, readJsonDocument json labels content = .error error := by
    cases hread : readJsonDocument json labels content with
    | error error => exact ⟨error,rfl⟩
    | ok document => exact absurd hread (hunreadable document)
  obtain ⟨error,hread⟩ := hread
  have hmap (result : Except AppError δ) (document : δ) :
      (result.mapError fun _ => error) = .ok document ↔ result = .ok document := by
    cases result <;> simp [Except.mapError]
  cases hbackup : h.files.backup with
  | none => simp [loadJsonDocument,hread,Backed,hbackup]
  | some backup => simp [loadJsonDocument,hread,Backed,Reads,hbackup,hmap]

end

/-! A document without fields. The store has no backup after its first write. -/

def unitJson : Json Unit where
  toStringPretty _ := .ok "\x7b\x7d"
  fromStr text := if text = "\x7b\x7d" then .ok () else .error "expected an object"

def storeLabels : JsonStoreErrorLabels where
  createDirCode := "store_create_dir_failed"
  createDirMessage := "create"
  parseCode := "store_parse_failed"
  parseMessage := "parse"
  readCode := "store_read_failed"
  readMessage := "read"
  serializeCode := "store_serialize_failed"
  serializeMessage := "serialize"
  writeCode := "store_write_failed"
  writeMessage := "write"

def noFaults : Faults := ⟨none,none,none,none,none,none,false⟩

theorem unitJson_roundTrips : unitJson.RoundTrips := by
  intro document text htext
  cases htext
  rfl

end Mxterm.JsonStore
