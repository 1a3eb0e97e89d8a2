import Mxterm.WorkspaceDiffs

/-! The patch that replaces a text of a file (`build_patch_with_options` in `ai_workspace.rs`): where it is applied
and what its diff shows. -/
namespace Mxterm.Workspace

open List hiding count

open Occurrences SequenceDiffs

def workspaceError (code message : String) : AppError := ⟨code,message,message,true⟩

/-- The new text of the file and the diff to it. -/
def buildPatchWithOptions (path current old new : String) (replaceAll : Bool) :
    Except AppError (String × Option String) :=
  if old = "" then
    if current = "" then .ok (new,simpleDiff path current new)
    else .error (workspaceError "ai_workspace_patch_invalid" "已有文件的补丁必须提供旧内容。")
  else
    let count := count old.toList current.toList
    if count = 0 then .error ⟨"ai_workspace_patch_not_found","补丁旧内容在文件中不存在。","matches=0",true⟩
    else if 1 < count ∧ replaceAll = false then
      .error ⟨"ai_workspace_patch_not_unique","补丁旧内容必须唯一匹配；如需全部替换请设置 replace_all。",
        "matches=" ++ toString count,true⟩
    else
      let updated := String.ofList (if replaceAll then Occurrences.replaceAll old.toList new.toList current.toList
        else replaceFirst old.toList new.toList current.toList)
      if maxFileBytes < textBytes updated ∨ updated = current then
        .error (workspaceError "ai_workspace_patch_invalid" "修改为空或文件超过 2 MiB。")
      else .ok (updated,simpleDiff path current updated)

/-! ## Texts of the same lines -/

/-- The text with its last line ended. -/
def ended (text : List Char) : List Char :=
  if text = [] ∨ text.getLast? = some '\n' then text else text ++ ['\n']

/-- The text gets the newline that its last line lacks. -/
def EndsLine (text text' : List Char) : Prop := text ≠ [] ∧ text.getLast? ≠ some '\n' ∧ text' = text ++ ['\n']

theorem splitOn_newline (text : List Char) : (text ++ ['\n']).splitOn '\n' = text.splitOn '\n' ++ [[]] := by
  have htext : ['\n'].intercalate (text.splitOn '\n') = text := intercalate_splitOn '\n'
  have hjoined := Text.intercalate_newline (text.splitOn '\n') (splitOn_ne_nil _ _)
  rw [htext] at hjoined
  rw [hjoined]
  apply splitOn_intercalate
  · intro piece hpiece
    rcases mem_append.mp hpiece with hpiece | hnil
    · exact Text.not_mem_splitOn '\n' text piece hpiece
    · simp_all
  · simp

theorem ended_cases (text : List Char) : ended text = [] ∨ ∃ text', ended text = text' ++ ['\n'] := by
  by_cases hnil : text = []
  · simp [ended,hnil]
  · by_cases hlast : text.getLast? = some '\n'
    · rw [ended,if_pos (.inr hlast)]
      exact .inr (getLast?_eq_some_iff.mp hlast)
    · rw [ended,if_neg (not_or.mpr ⟨hnil,hlast⟩)]
      exact .inr ⟨text,rfl⟩

theorem ended_splitOn (text : List Char) : ∃ pieces, (ended text).splitOn '\n' = pieces ++ [[]] := by
  rcases ended_cases text with hnil | ⟨text',htext'⟩
  · exact ⟨[],by rw [hnil]; rfl⟩
  · exact ⟨_,by rw [htext',splitOn_newline]⟩

theorem diffLines_eq (value : String) :
    diffLines value = ((ended value.toList).splitOn '\n').dropLast.map String.ofList := by
  by_cases hnil : value = ""
  · simp [diffLines,ended,hnil,splitOn_nil]
  · by_cases hlast : value.toList.getLast? = some '\n'
    · have hend : ended value.toList = value.toList := if_pos (.inr hlast)
      rw [diffLines,if_neg hnil,hend]
      simp only [if_pos hlast,map_dropLast]
    · have hend : ended value.toList = value.toList ++ ['\n'] :=
        if_neg (not_or.mpr ⟨by simpa using hnil,hlast⟩)
      rw [diffLines,if_neg hnil,hend,splitOn_newline,dropLast_concat]
      simp only [if_neg hlast]

/-- Two texts have the same lines when they differ in the end of the last line at most. -/
theorem diffLines_eq_iff {x y : String} : diffLines x = diffLines y ↔ ended x.toList = ended y.toList := by
  constructor
  · intro h
    rw [diffLines_eq,diffLines_eq] at h
    have hpieces := map_injective_iff.mpr (fun _ _ => String.ofList_injective) h
    obtain ⟨xs,hxs⟩ := ended_splitOn x.toList
    obtain ⟨ys,hys⟩ := ended_splitOn y.toList
    rw [hxs,hys,dropLast_concat,dropLast_concat] at hpieces
    calc ended x.toList = ['\n'].intercalate ((ended x.toList).splitOn '\n') := (intercalate_splitOn '\n').symm
      _ = ['\n'].intercalate ((ended y.toList).splitOn '\n') := by rw [hxs,hys,hpieces]
      _ = ended y.toList := intercalate_splitOn '\n'
  · intro h
    rw [diffLines_eq,diffLines_eq,h]

theorem ended_eq_iff {x y : List Char} : ended x = ended y ↔ x = y ∨ EndsLine x y ∨ EndsLine y x := by
  by_cases hx : x = [] ∨ x.getLast? = some '\n'
  · by_cases hy : y = [] ∨ y.getLast? = some '\n'
    · rw [ended,if_pos hx,ended,if_pos hy]
      constructor
      · exact .inl
      · rintro (h | ⟨hne,hlast,-⟩ | ⟨hne,hlast,-⟩)
        · exact h
        · exact absurd hx (not_or.mpr ⟨hne,hlast⟩)
        · exact absurd hy (not_or.mpr ⟨hne,hlast⟩)
    · rw [ended,if_pos hx,ended,if_neg hy]
      obtain ⟨hne,hlast⟩ := not_or.mp hy
      constructor
      · exact fun h => .inr (.inr ⟨hne,hlast,h⟩)
      · rintro (rfl | ⟨hne,hlast,-⟩ | ⟨-,-,h⟩)
        · exact absurd hx hy
        · exact absurd hx (not_or.mpr ⟨hne,hlast⟩)
        · exact h
  · obtain ⟨hne,hlast⟩ := not_or.mp hx
    by_cases hy : y = [] ∨ y.getLast? = some '\n'
    · rw [ended,if_neg hx,ended,if_pos hy]
      constructor
      · exact fun h => .inr (.inl ⟨hne,hlast,h.symm⟩)
      · rintro (rfl | ⟨-,-,h⟩ | ⟨hne,hlast,-⟩)
        · exact absurd hy hx
        · exact h.symm
        · exact absurd hy (not_or.mpr ⟨hne,hlast⟩)
    · rw [ended,if_neg hx,ended,if_neg hy,append_left_inj]
      constructor
      · exact .inl
      · rintro (h | ⟨-,-,h⟩ | ⟨-,-,h⟩)
        · exact h
        · exact absurd (.inr (by rw [h,getLast?_concat])) hy
        · exact absurd (.inr (by rw [h,getLast?_concat])) hx

/-- Only at the end of a text does a replacement end its last line. -/
theorem endsLine_replaced {before old new rest : List Char} :
    EndsLine (before ++ old ++ rest) (before ++ new ++ rest) ↔
      rest = [] ∧ EndsLine (before ++ old) (before ++ new) := by
  constructor
  · intro h
    have hrest : rest = [] := by
      obtain ⟨-,hlast,hends⟩ := h
      rcases eq_nil_or_concat rest with hnil | ⟨rest',c,rfl⟩
      · exact hnil
      · have hnewline := congrArg List.getLast? hends
        simp only [concat_eq_append,← append_assoc,getLast?_concat] at hnewline hlast
        exact absurd hnewline hlast
    subst hrest
    simpa using h
  · rintro ⟨rfl,h⟩
    simpa using h

/-! ## Where a patch is applied -/

section
variable {path current old new result : String} {diff : Option String}

theorem textBytes_replaced (before old new rest : List Char) :
    textBytes (String.ofList (before ++ new ++ rest)) + textBytes (String.ofList old) =
      textBytes (String.ofList (before ++ old ++ rest)) + textBytes (String.ofList new) := by
  simp only [textBytes,String.toList_ofList,map_append,sum_append]
  omega

/-- The file has one place that is counted, the text there changes, and the file stays small enough. -/
def Accepted (current old new : String) : Prop :=
  old ≠ "" ∧ count old.toList current.toList = 1 ∧ new ≠ old ∧
    textBytes current + textBytes new ≤ maxFileBytes + textBytes old

/-- The end of the file is replaced by a text that only ends the last line, or does not end it any more. -/
def MovesFinalNewline (current old new : String) : Prop :=
  old.toList <:+ current.toList ∧
    (EndsLine old.toList new.toList ∨
      new.toList ++ ['\n'] = old.toList ∧ current.toList.dropLast ≠ [] ∧
        current.toList.dropLast.getLast? ≠ some '\n')

variable {before rest : List Char}

theorem replaced_eq_iff {old new : List Char} : before ++ new ++ rest = before ++ old ++ rest ↔ new = old := by
  rw [append_left_inj,append_right_inj]

/-- What an accepted patch does at its one occurrence. -/
theorem buildPatch_once (hold : old ≠ "") (hfound : findFirst old.toList current.toList = some (before,rest))
    (hrest : findFirst old.toList rest = none) :
    buildPatchWithOptions path current old new false = .ok (result,diff) ↔ Accepted current old new ∧
      result = String.ofList (before ++ new.toList ++ rest) ∧ diff = simpleDiff path current result := by
  have hcount : count old.toList current.toList = 1 :=
    (count_eq_one (by simpa using hold)).mpr ⟨before,rest,hfound,hrest⟩
  have hcurrent : current = String.ofList (before ++ old.toList ++ rest) := by
    rw [← findFirst_append hfound,String.ofList_toList]
  have hbytes := textBytes_replaced before old.toList new.toList rest
  rw [← hcurrent,String.ofList_toList,String.ofList_toList] at hbytes
  have hsame : String.ofList (before ++ new.toList ++ rest) = current ↔ new = old := by
    rw [hcurrent,String.ofList_inj,replaced_eq_iff,String.toList_inj]
  rw [buildPatchWithOptions,if_neg hold]
  rw [if_neg (by omega),if_neg (by omega),if_neg Bool.false_ne_true,replaceFirst_of_findFirst _ hfound]
  simp only [hsame]
  by_cases haccepted : Accepted current old new
  · have ⟨_,_,hne,hsmall⟩ := haccepted
    rw [if_neg (not_or.mpr ⟨by omega,hne⟩),Except.ok.injEq,Prod.mk.injEq]
    constructor
    · rintro ⟨rfl,rfl⟩
      exact ⟨haccepted,rfl,rfl⟩
    · rintro ⟨-,rfl,rfl⟩
      exact ⟨rfl,rfl⟩
  · have hrefused : maxFileBytes < textBytes (String.ofList (before ++ new.toList ++ rest)) ∨ new = old := by
      by_contra hnot
      obtain ⟨hsmall,hne⟩ := not_or.mp hnot
      exact haccepted ⟨hold,hcount,hne,by omega⟩
    rw [if_pos hrefused]
    exact ⟨nofun,fun h => absurd h.1 haccepted⟩

theorem buildPatch_none (hold : old ≠ "") (hcount : count old.toList current.toList ≠ 1) :
    buildPatchWithOptions path current old new false ≠ .ok (result,diff) := by
  rw [buildPatchWithOptions,if_neg hold]
  by_cases hnone : count old.toList current.toList = 0
  · rw [if_pos hnone]
    exact nofun
  · rw [if_neg hnone,if_pos ⟨by omega,rfl⟩]
    exact nofun

/-- The lines of a file stay when the patch is at its end and only ends the last line or does not end it any more. -/
theorem diffLines_replaced (hne : new ≠ old) (hold : old ≠ "")
    (hfound : findFirst old.toList current.toList = some (before,rest)) (hrest : findFirst old.toList rest = none)
    (honly : ¬ Overlapped old.toList current.toList) :
    diffLines current = diffLines (String.ofList (before ++ new.toList ++ rest)) ↔
      MovesFinalNewline current old new := by
  have hcurrent := findFirst_append hfound
  have hpattern : old.toList ≠ [] := by simpa using hold
  have hend : old.toList <:+ current.toList ↔ rest = [] := by
    constructor
    · rintro ⟨text,htext⟩
      have hoccurs : OccursAt old.toList current.toList text.length := by
        rw [OccursAt,← htext,drop_left]
      have hlength := congrArg List.length (htext.trans hcurrent)
      simp only [length_append,((only_iff hfound hrest).mpr honly _).mp hoccurs] at hlength
      exact length_eq_zero_iff.mp (by omega)
    · rintro rfl
      exact ⟨before,by rw [hcurrent,append_nil]⟩
  have hchanged : ¬ before ++ old.toList ++ rest = before ++ new.toList ++ rest :=
    fun h => hne (String.toList_inj.mp (replaced_eq_iff.mp h.symm))
  rw [diffLines_eq_iff,String.toList_ofList,ended_eq_iff,MovesFinalNewline,hend,hcurrent,or_iff_right hchanged,
    endsLine_replaced,endsLine_replaced,← and_or_left]
  apply and_congr_right
  rintro rfl
  apply or_congr
  · simp only [EndsLine,append_assoc,append_right_inj]
    simp [hpattern]
  · simp only [EndsLine,append_assoc,append_right_inj,append_nil]
    constructor
    · rintro ⟨hne,hlast,hends⟩
      rw [hends,← append_assoc,dropLast_concat]
      exact ⟨rfl,hne,hlast⟩
    · rintro ⟨hends,h⟩
      rw [← hends,← append_assoc,dropLast_concat] at h
      exact ⟨h.1,h.2,hends.symm⟩

/-- What a successful patch has to be. -/
structure Clear (path current old new result : String) (diff : Option String) : Prop where
  once : ∃ i, (∀ j, OccursAt old.toList current.toList j ↔ j = i) ∧
    result.toList = current.toList.take i ++ new.toList ++ current.toList.drop (i + old.toList.length)
  shown : ∃ hunk, diff = some (render path hunk) ∧ diffHunk current result = some hunk ∧
    ∃ line ∈ hunk.lines, line.1 ≠ .kept

/-- Nothing but the pieces between what is replaced is in both. -/
def Replaces (current old new result : String) : Prop :=
  ∃ pieces : List (List Char), pieces.length = count old.toList current.toList + 1 ∧
    current.toList = old.toList.intercalate pieces ∧ result.toList = new.toList.intercalate pieces

/-- The diff has a line that is not in both texts when the lines differ. -/
theorem shown_iff {before after : String} :
    (∃ hunk, simpleDiff path before after = some (render path hunk) ∧ diffHunk before after = some hunk ∧
      ∃ line ∈ hunk.lines, line.1 ≠ .kept) ↔ diffLines before ≠ diffLines after := by
  obtain ⟨front,removed,added,back,h⟩ := exists_parts (diffLines before) (diffLines after)
  rw [ne_eq,← h.same_iff,simpleDiff,diffHunk_eq h,← Hunk.exists_changed (h := partsHunk front removed added back) rfl]
  constructor
  · rintro ⟨hunk,-,hhunk,hline⟩
    rwa [Option.some.inj hhunk]
  · exact fun hline => ⟨_,rfl,rfl,hline⟩

theorem clear_iff (hold : old ≠ "") (hfound : findFirst old.toList current.toList = some (before,rest))
    (hrest : findFirst old.toList rest = none) (hne : new ≠ old) :
    Clear path current old new (String.ofList (before ++ new.toList ++ rest))
        (simpleDiff path current (String.ofList (before ++ new.toList ++ rest))) ↔
      ¬ (Overlapped old.toList current.toList ∨ MovesFinalNewline current old new) := by
  have hcurrent := findFirst_append hfound
  rw [not_or]
  constructor
  · intro h
    obtain ⟨i,honly,-⟩ := h.once
    have hi := (honly before.length).mp (occursAt_of_findFirst hfound)
    rw [← hi] at honly
    have hapart := (only_iff hfound hrest).mp honly
    exact ⟨hapart,fun hmoves => shown_iff.mp h.shown
      ((diffLines_replaced hne hold hfound hrest hapart).mpr hmoves)⟩
  · rintro ⟨hapart,hmoves⟩
    constructor
    · refine ⟨before.length,(only_iff hfound hrest).mpr hapart,?_⟩
      rw [String.toList_ofList,hcurrent,← length_append,drop_left,append_assoc before old.toList,
        take_left]
    · exact shown_iff.mpr fun hsame => hmoves ((diffLines_replaced hne hold hfound hrest hapart).mp hsame)

theorem replaces_of_buildPatch (hold : old ≠ "")
    (h : buildPatchWithOptions path current old new true = .ok (result,diff)) : Replaces current old new result := by
  rw [buildPatchWithOptions,if_neg hold] at h
  dsimp only at h
  rw [if_pos rfl] at h
  split_ifs at h with hnone hmany hrefused
  cases Except.ok.inj h
  refine ⟨pieces old.toList current.toList,?_,pieces_intercalate.symm,String.toList_ofList⟩
  rw [count] at hnone ⊢
  omega

/-- A patch is applied where it is unambiguous and its diff shows it, unless occurrences overlap or only the end of the
last line changes; one that replaces every occurrence leaves the rest. -/
theorem buildPatch_clear (path current old new : String) (replaceAll : Bool) :
    (∀ result diff, old ≠ "" → buildPatchWithOptions path current old new replaceAll = .ok (result,diff) →
      if replaceAll then Replaces current old new result else Clear path current old new result diff) ↔
    ¬ (replaceAll = false ∧ Accepted current old new ∧
      (Overlapped old.toList current.toList ∨ MovesFinalNewline current old new)) := by
  cases replaceAll with
  | true =>
    exact iff_of_true (fun result diff hold h => replaces_of_buildPatch hold h) nofun
  | false =>
    simp only [Bool.false_eq_true,if_false,true_and]
    constructor
    · rintro h ⟨haccepted,hmisleads⟩
      obtain ⟨before,rest,hfound,hrest⟩ := (count_eq_one (by simpa using haccepted.1)).mp haccepted.2.1
      have hclear := h _ _ haccepted.1 ((buildPatch_once haccepted.1 hfound hrest).mpr ⟨haccepted,rfl,rfl⟩)
      exact (clear_iff haccepted.1 hfound hrest haccepted.2.2.1).mp hclear hmisleads
    · intro hnot result diff hold h
      by_cases hcount : count old.toList current.toList = 1
      · obtain ⟨before,rest,hfound,hrest⟩ := (count_eq_one (by simpa using hold)).mp hcount
        obtain ⟨haccepted,rfl,rfl⟩ := (buildPatch_once hold hfound hrest).mp h
        exact (clear_iff hold hfound hrest haccepted.2.2.1).mpr fun hmisleads => hnot ⟨haccepted,hmisleads⟩
      · exact absurd h (buildPatch_none hold hcount)

end

/-- One of two occurrences that overlap is replaced, and a diff shows no change. -/
theorem misleading_patches :
    (¬ ∀ path current old new result diff, old ≠ "" →
      buildPatchWithOptions path current old new false = .ok (result,diff) → Clear path current old new result diff) ∧
    buildPatchWithOptions "f" "aaa" "aa" "b" false =
      .ok ("ba",some "--- f\n+++ f\n@@ -1,1 +1,1 @@\n-aaa\n+ba\n") ∧
    buildPatchWithOptions "f" "a\n" "a\n" "a" false = .ok ("a",some "--- f\n+++ f\n@@ -1,1 +1,1 @@\n a\n") := by
  have hoverlap : buildPatchWithOptions "f" "aaa" "aa" "b" false =
      .ok ("ba",some "--- f\n+++ f\n@@ -1,1 +1,1 @@\n-aaa\n+ba\n") := by decide +kernel
  refine ⟨fun h => ?_,hoverlap,by decide +kernel⟩
  obtain ⟨i,honly,-⟩ := (h _ _ _ _ _ _ (by decide) hoverlap).once
  have hzero : 0 = i := (honly 0).mp ⟨['a'],rfl⟩
  have hone : 1 = i := (honly 1).mp ⟨[],rfl⟩
  omega

end Mxterm.Workspace
