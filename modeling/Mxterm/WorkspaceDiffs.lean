import Mxterm.Occurrences
import Mxterm.SequenceDiffs
import Mxterm.TextLines
import Mxterm.WorkspaceDisk

/-! The patches of the workspace tools and the diffs that show them (`ai_workspace.rs`). -/
namespace Mxterm.Workspace

open SequenceDiffs List

/-! ## Diffs -/

def diffLines (value : String) : List String :=
  if value = "" then []
  else
    let lines := (value.toList.splitOn '\n').map String.ofList
    if value.toList.getLast? = some '\n' then lines.dropLast else lines

/-- `&lines[start..stop]`, or none out of range. -/
def slice (lines : List String) (start stop : ℕ) : Option (List String) :=
  if start ≤ stop ∧ stop ≤ lines.length then some ((lines.take stop).drop start) else none

/-- How many lines around a change are shown. -/
def context : ℕ := 3

/-- The hunk of `simple_diff`. -/
def diffHunk (before after : String) : Option (Hunk String) := do
  let oldLines := diffLines before
  let newLines := diffLines after
  let front := commonFront oldLines newLines
  let ends := trimBack oldLines newLines front oldLines.length newLines.length
  let start := front - context
  let oldContextEnd := min (ends.1 + context) oldLines.length
  let newContextEnd := min (ends.2 + context) newLines.length
  let above ← slice oldLines start (min front oldContextEnd)
  let removed ← slice oldLines front ends.1
  let added ← slice newLines front ends.2
  let below ← slice oldLines (min ends.1 oldLines.length) (min oldContextEnd oldLines.length)
  return {
    oldStart := start + 1
    oldLength := oldContextEnd - start
    newStart := start + 1
    newLength := newContextEnd - start
    lines := above.map (Mark.kept,·) ++ removed.map (Mark.removed,·) ++ added.map (Mark.added,·) ++
      below.map (Mark.kept,·) }

def sign : Mark → String
  | .kept => " "
  | .removed => "-"
  | .added => "+"

def render (path : String) (hunk : Hunk String) : String :=
  "--- " ++ path ++ "\n+++ " ++ path ++ "\n@@ -" ++ toString hunk.oldStart ++ "," ++ toString hunk.oldLength ++ " +" ++
    toString hunk.newStart ++ "," ++ toString hunk.newLength ++ " @@\n" ++
    "".intercalate (hunk.lines.map fun line => sign line.1 ++ line.2 ++ "\n")

def simpleDiff (path before after : String) : Option String := (diffHunk before after).map (render path)

/-- A subtraction of lengths, or none below zero. -/
def subtract (n m : ℕ) : Option ℕ := if m ≤ n then some (n - m) else none

def changedLineCounts (before after : String) : Option (ℕ × ℕ) := do
  let oldLines := diffLines before
  let newLines := diffLines after
  let front := ((oldLines.zip newLines).takeWhile fun p => decide (p.1 = p.2)).length
  let oldRest ← slice oldLines front oldLines.length
  let newRest ← slice newLines front newLines.length
  let back := ((oldRest.reverse.zip newRest.reverse).takeWhile fun p => decide (p.1 = p.2)).length
  let added ← subtract newLines.length front
  let added ← subtract added back
  let removed ← subtract oldLines.length front
  let removed ← subtract removed back
  return (added,removed)

theorem subtract_front (front middle back : ℕ) : subtract (front + middle + back) front = some (middle + back) := by
  rw [subtract,if_pos (by omega)]
  congr 1
  omega

theorem subtract_back (middle back : ℕ) : subtract (middle + back) back = some middle := by
  rw [subtract,if_pos (by omega),Nat.add_sub_cancel]

/-! ### The hunk -/

section
variable {before after : String} {front removed added back : List String}

theorem slice_append (xs ys zs : List String) : slice (xs ++ ys ++ zs) xs.length (xs.length + ys.length) = some ys := by
  rw [slice,if_pos (by simp)]
  rw [append_assoc,take_length_add_append,drop_left,take_left]

/-- The hunk that is shown for the parts of the two texts. -/
def partsHunk (front removed added back : List String) : Hunk String where
  oldStart := front.length - context + 1
  oldLength := (front.drop (front.length - context)).length + removed.length + (back.take context).length
  newStart := front.length - context + 1
  newLength := (front.drop (front.length - context)).length + added.length + (back.take context).length
  lines := (front.drop (front.length - context)).map (Mark.kept,·) ++ removed.map (Mark.removed,·) ++
    added.map (Mark.added,·) ++ (back.take context).map (Mark.kept,·)

theorem diffHunk_eq (h : Parts (diffLines before) (diffLines after) front removed added back) :
    diffHunk before after = some (partsHunk front removed added back) := by
  have hold := congrArg List.length h.old_eq
  have hnew := congrArg List.length h.new_eq
  simp only [length_append] at hold hnew
  have habove : slice (diffLines before) (front.length - context) front.length =
      some (front.drop (front.length - context)) := by
    have hslice := slice_append (front.take (front.length - context)) (front.drop (front.length - context))
      (removed ++ back)
    rw [take_append_drop,← append_assoc,← h.old_eq,length_take_of_le (Nat.sub_le _ _),length_drop]
      at hslice
    rwa [show front.length - context + (front.length - (front.length - context)) = front.length by omega] at hslice
  have hbelow : slice (diffLines before) (front.length + removed.length)
      (front.length + removed.length + min context back.length) = some (back.take context) := by
    have hslice := slice_append (front ++ removed) (back.take context) (back.drop context)
    rwa [append_assoc (front ++ removed),take_append_drop,← h.old_eq,length_append,length_take]
      at hslice
  have hremoved : slice (diffLines before) front.length (front.length + removed.length) = some removed := by
    rw [h.old_eq]
    exact slice_append front removed back
  have hadded : slice (diffLines after) front.length (front.length + added.length) = some added := by
    rw [h.new_eq]
    exact slice_append front added back
  have holdEnd : min (front.length + removed.length + context) (diffLines before).length =
      front.length + removed.length + min context back.length := by omega
  have hnewEnd : min (front.length + added.length + context) (diffLines after).length =
      front.length + added.length + min context back.length := by omega
  unfold diffHunk
  dsimp only
  rw [h.front_eq,h.trimBack]
  rw [holdEnd,hnewEnd,Nat.min_eq_left (by omega),habove,hremoved,hadded,Nat.min_eq_left (by omega),
    Nat.min_eq_left (by omega),hbelow]
  have habove : (front.drop (front.length - context)).length = front.length - (front.length - context) :=
    length_drop
  have hbelow : (back.take context).length = min context back.length := length_take
  have holdLength : front.length + removed.length + min context back.length - (front.length - context) =
      (partsHunk front removed added back).oldLength := by
    simp only [partsHunk,habove,hbelow]
    omega
  have hnewLength : front.length + added.length + min context back.length - (front.length - context) =
      (partsHunk front removed added back).newLength := by
    simp only [partsHunk,habove,hbelow]
    omega
  rw [holdLength,hnewLength]
  rfl

theorem partsHunk_transforms (h : Parts (diffLines before) (diffLines after) front removed added back) :
    (partsHunk front removed added back).Transforms (diffLines before) (diffLines after) where
  applies := by
    refine ⟨front.take (front.length - context),back.drop context,?_,?_,?_,?_⟩
    · rw [length_take_of_le (Nat.sub_le _ _),partsHunk]
    · rw [length_take_of_le (Nat.sub_le _ _),partsHunk]
    · rw [h.old_eq,Hunk.oldSide_eq rfl]
      simp only [← append_assoc,take_append_drop]
      rw [append_assoc (front ++ removed),take_append_drop]
    · rw [h.new_eq,Hunk.newSide_eq rfl]
      simp only [← append_assoc,take_append_drop]
      rw [append_assoc (front ++ added),take_append_drop]
  oldLength := by
    rw [Hunk.count_kept rfl,Hunk.count_removed rfl]
    simp only [partsHunk]
    omega
  newLength := by
    rw [Hunk.count_kept rfl,Hunk.count_added rfl]
    simp only [partsHunk]
    omega

theorem changedLineCounts_eq (h : Parts (diffLines before) (diffLines after) front removed added back) :
    changedLineCounts before after = some (added.length,removed.length) := by
  have hold := congrArg List.length h.old_eq
  have hnew := congrArg List.length h.new_eq
  simp only [length_append] at hold hnew
  have holdRest : slice (diffLines before) front.length (diffLines before).length =
      some ((diffLines before).drop front.length) := by
    rw [slice,if_pos ⟨by omega,Nat.le_refl _⟩,take_length]
  have hnewRest : slice (diffLines after) front.length (diffLines after).length =
      some ((diffLines after).drop front.length) := by
    rw [slice,if_pos ⟨by omega,Nat.le_refl _⟩,take_length]
  unfold changedLineCounts
  dsimp only
  rw [length_takeWhile_zip,h.front_eq,holdRest,hnewRest]
  simp only [Option.bind_eq_bind,Option.bind_some]
  rw [length_takeWhile_zip,h.back_eq,hold,hnew,subtract_front,subtract_front]
  simp only [Option.bind_some,subtract_back]
  rfl

end

/-! ### The lines -/

theorem not_newline_of_mem_diffLines {value line : String} (h : line ∈ diffLines value) : '\n' ∉ line.toList := by
  have hpieces : ∀ piece ∈ (value.toList.splitOn '\n').map String.ofList, '\n' ∉ piece.toList := by
    intro piece hpiece
    obtain ⟨cs,hcs,rfl⟩ := mem_map.mp hpiece
    rw [String.toList_ofList]
    exact Text.not_mem_splitOn '\n' _ cs hcs
  rw [diffLines] at h
  split_ifs at h
  · cases h
  · exact hpieces line (dropLast_subset _ h)
  · exact hpieces line h

/-- A line of a hunk is one of the two texts. -/
theorem mem_of_transforms {hunk : Hunk String} {old new : List String} (h : hunk.Transforms old new)
    {line : Mark × String} (hline : line ∈ hunk.lines) : line.2 ∈ old ∨ line.2 ∈ new := by
  obtain ⟨front,back,-,-,hold,hnew⟩ := h.applies
  by_cases hadded : line.1 = .added
  · have hside : line.2 ∈ hunk.newSide :=
      mem_map_of_mem (mem_filter.mpr ⟨hline,by simp [hadded]⟩)
    exact .inr (by simp [hnew,hside])
  · have hside : line.2 ∈ hunk.oldSide := mem_map_of_mem (mem_filter.mpr ⟨hline,by simp [hadded]⟩)
    exact .inl (by simp [hold,hside])

/-- Every two texts have a diff: one hunk that fits the old lines at its place and makes the new ones of them, and
whose lines of each kind are as many as they are counted to be. -/
theorem simpleDiff_transforms (before after : String) : ∃ hunk,
    (∀ path, simpleDiff path before after = some (render path hunk)) ∧
    (∀ line ∈ hunk.lines, '\n' ∉ line.2.toList) ∧
    hunk.Transforms (diffLines before) (diffLines after) ∧
    changedLineCounts before after = some (hunk.count .added,hunk.count .removed) := by
  obtain ⟨front,removed,added,back,h⟩ := exists_parts (diffLines before) (diffLines after)
  refine ⟨partsHunk front removed added back,?_,?_,partsHunk_transforms h,?_⟩
  · intro path
    rw [simpleDiff,diffHunk_eq h]
    rfl
  · intro line hline
    apply Or.elim (mem_of_transforms (partsHunk_transforms h) hline)
    · exact not_newline_of_mem_diffLines
    · exact not_newline_of_mem_diffLines
  · rw [changedLineCounts_eq h,Hunk.count_added rfl,Hunk.count_removed rfl]

/-- A shorter text without its last line, far from the beginning. -/
example : simpleDiff "a" "1\n2\n3\n4\n5\n" "1\n2\n3\n4\n" = some "--- a\n+++ a\n@@ -2,4 +2,3 @@\n 2\n 3\n 4\n-5\n" := by
  decide +kernel

end Mxterm.Workspace
