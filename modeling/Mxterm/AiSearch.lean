import Mathlib.Data.Finmap
import Mathlib.Data.Finset.Sort
import Mathlib.Data.String.Basic
import Mathlib.Algebra.Order.Ring.Nat

/-! The answers of the agent's searches: the entries and counts that were found, and the page that is handed out. -/
namespace Mxterm.AiSearch

inductive OutputMode
  | content | filesWithMatches | count
  deriving DecidableEq

structure SearchOptions where
  target : Option String := none
  path : Option String := none
  pattern : String := "*"
  query : Option String := none
  regex : Bool := true
  caseSensitive : Bool := true
  multiline : Bool := false
  context : ℕ := 0
  beforeContext : Option ℕ := none
  afterContext : Option ℕ := none
  offset : ℕ := 0
  limit : ℕ := 200
  headLimit : Option ℕ := none
  outputMode : OutputMode := .content
  includeIgnored : Bool := false

structure SearchEntry where
  path : String
  line : Option ℕ := none
  column : Option ℕ := none
  content : Option String := none
  isMatch : Option Bool := none
  count : Option ℕ := none
  deriving DecidableEq

def SearchEntry.file (path : String) (count : Option ℕ) : SearchEntry where
  path
  count

abbrev Counts := Finmap fun _ : String => ℕ

structure SearchData where
  entries : List SearchEntry := []
  counts : Counts := ∅
  skippedBinaryFiles : ℕ := 0

structure SearchPage where
  engine : String
  outputMode : OutputMode
  entries : List SearchEntry
  total : ℕ
  totalMatches : ℕ
  totalFiles : ℕ
  offset : ℕ
  limit : ℕ
  hasMore : Bool
  nextOffset : Option ℕ
  truncated : Bool
  skippedBinaryFiles : ℕ
  warnings : List String

/-- The order of `(path, line)`. -/
def SearchEntry.before (a b : SearchEntry) : Bool :=
  a.path < b.path || (a.path = b.path && match a.line,b.line with
    | none,_ => true
    | some _,none => false
    | some i,some j => i ≤ j)

/-- The paths in their order, with their counts. -/
def Counts.inOrder (counts : Counts) : List (String × ℕ) :=
  (counts.keys.sort).map fun path => (path,(counts.lookup path).getD 0)

def SearchData.page (data : SearchData) (tool : String) (options : SearchOptions) (engine : String)
    (warnings : List String) : SearchPage :=
  let outputMode := if tool = "glob" then .filesWithMatches else options.outputMode
  let entries := match outputMode with
    | .content => data.entries.mergeSort SearchEntry.before
    | .filesWithMatches => (Counts.inOrder data.counts).map fun entry : String × ℕ => SearchEntry.file entry.1 none
    | .count => (Counts.inOrder data.counts).map fun entry : String × ℕ => SearchEntry.file entry.1 (some entry.2)
  let total := entries.length
  let stop := if options.limit = 0 then total else min (options.offset + options.limit) total
  let hasMore := decide (stop < total)
  { engine
    outputMode
    entries := (entries.drop options.offset).take (stop - options.offset)
    total
    totalMatches := ((Counts.inOrder data.counts).map Prod.snd).sum
    totalFiles := (Counts.inOrder data.counts).length
    offset := options.offset
    limit := options.limit
    hasMore
    nextOffset := if hasMore then some stop else none
    truncated := hasMore
    skippedBinaryFiles := data.skippedBinaryFiles
    warnings }

end Mxterm.AiSearch
