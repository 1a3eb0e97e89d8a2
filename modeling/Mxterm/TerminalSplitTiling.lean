import Mxterm.TerminalSplitLayout

/-! What holds of every layout of split panes: the panes tile the unit square, and no pane, no
branch and no terminal occurs twice. -/
namespace Mxterm.TerminalSplit

open Tilings List TerminalSplitNode

namespace TerminalSplitNode

def leaves : TerminalSplitNode → List (Option TerminalPaneBinding × String)
  | .leaf binding id => [(binding,id)]
  | .split _ first _ _ second => first.leaves ++ second.leaves

def branches : TerminalSplitNode → List String
  | .leaf _ _ => []
  | .split _ first id _ second => id :: (first.branches ++ second.branches)

def ids (node : TerminalSplitNode) : List String := node.leaves.map Prod.snd ++ node.branches

def bindings (node : TerminalSplitNode) : List TerminalPaneBinding := node.leaves.filterMap Prod.fst

/-- Every leaf is replaced by a tree of its own. -/
def graft (f : Option TerminalPaneBinding → String → TerminalSplitNode) :
    TerminalSplitNode → TerminalSplitNode
  | .leaf binding id => f binding id
  | .split direction first id ratio second =>
    .split direction (first.graft f) id ratio (second.graft f)

end TerminalSplitNode

section Geometry

theorem ratio_pos (ratio : ℚ) : 0 < clampTerminalSplitRatio ratio := by
  simp only [clampTerminalSplitRatio,terminalSplitMaxRatio,terminalSplitMinRatio,lt_min_iff,lt_max_iff]
  norm_num

theorem ratio_lt (ratio : ℚ) : clampTerminalSplitRatio ratio < 1 := by
  simp only [clampTerminalSplitRatio,terminalSplitMaxRatio,terminalSplitMinRatio,min_lt_iff]
  norm_num

/-- The parts of a rectangle that belong to the two children of a branch. -/
def firstPart (direction : Direction) (bounds : TerminalSplitBounds) (ratio : ℚ) :
    TerminalSplitBounds :=
  match direction with
  | .row => bounds.leftPart ratio
  | .column => bounds.upperPart ratio

def secondPart (direction : Direction) (bounds : TerminalSplitBounds) (ratio : ℚ) :
    TerminalSplitBounds :=
  match direction with
  | .row => bounds.rightPart ratio
  | .column => bounds.lowerPart ratio

def placed : TerminalSplitNode → TerminalSplitBounds → List TerminalSplitPane
  | .leaf binding id, bounds => [⟨binding,bounds,id⟩]
  | .split direction first _ ratio second, bounds =>
    placed first (firstPart direction bounds (clampTerminalSplitRatio ratio)) ++
      placed second (secondPart direction bounds (clampTerminalSplitRatio ratio))

def resizers : TerminalSplitNode → TerminalSplitBounds → List TerminalSplitResizer
  | .leaf _ _, _ => []
  | .split direction first id ratio second, bounds =>
    ⟨bounds,direction,id,clampTerminalSplitRatio ratio⟩ ::
      (resizers first (firstPart direction bounds (clampTerminalSplitRatio ratio)) ++
        resizers second (secondPart direction bounds (clampTerminalSplitRatio ratio)))

theorem collectTerminalSplitGeometry_eq (node : TerminalSplitNode) (bounds : TerminalSplitBounds)
    (collected : List TerminalSplitPane × List TerminalSplitResizer) :
    collectTerminalSplitGeometry node bounds collected =
      (collected.1 ++ placed node bounds,collected.2 ++ resizers node bounds) := by
  induction node generalizing bounds collected with
  | leaf binding id => simp [collectTerminalSplitGeometry,placed,resizers]
  | split direction first id ratio second ihf ihs =>
    cases direction <;>
      simp [collectTerminalSplitGeometry,placed,resizers,ihf,ihs,firstPart,secondPart,
        Rectangle.leftPart,Rectangle.rightPart,Rectangle.upperPart,Rectangle.lowerPart]

theorem placed_leaves (node : TerminalSplitNode) (bounds : TerminalSplitBounds) :
    (placed node bounds).map (fun pane => (pane.binding,pane.id)) = node.leaves := by
  induction node generalizing bounds with
  | leaf binding id => rfl
  | split direction first id ratio second ihf ihs =>
    simp [placed,leaves,ihf,ihs]

theorem resizers_branches (node : TerminalSplitNode) (bounds : TerminalSplitBounds) :
    (resizers node bounds).map TerminalSplitResizer.id = node.branches := by
  induction node generalizing bounds with
  | leaf binding id => rfl
  | split direction first id ratio second ihf ihs =>
    simp [resizers,branches,ihf,ihs]

variable {bounds : TerminalSplitBounds}

theorem first_proper (h : bounds.Proper) (direction : Direction) (ratio : ℚ) :
    (firstPart direction bounds (clampTerminalSplitRatio ratio)).Proper := by
  cases direction with
  | row => exact h.leftPart (ratio_pos ratio)
  | column => exact h.upperPart (ratio_pos ratio)

theorem second_proper (h : bounds.Proper) (direction : Direction) (ratio : ℚ) :
    (secondPart direction bounds (clampTerminalSplitRatio ratio)).Proper := by
  cases direction with
  | row => exact h.rightPart (ratio_lt ratio)
  | column => exact h.lowerPart (ratio_lt ratio)

/-- The panes of any tree fill the rectangle the tree is given. -/
theorem placed_tiles (node : TerminalSplitNode) (h : bounds.Proper) :
    Tiles ((placed node bounds).map TerminalSplitPane.bounds) bounds := by
  induction node generalizing bounds with
  | leaf binding id => exact Tiles.single h
  | split direction first id ratio second ihf ihs =>
    have hfirst := ihf (first_proper h direction ratio)
    have hsecond := ihs (second_proper h direction ratio)
    rw [placed,map_append]
    cases direction with
    | row => exact hfirst.beside h (ratio_pos ratio) (ratio_lt ratio) hsecond
    | column => exact hfirst.stacked h (ratio_pos ratio) (ratio_lt ratio) hsecond

theorem collected_perm (layout : TerminalSplitNode) :
    (collectTerminalSplitPanes layout).Perm (placed layout emptyTerminalSplitBounds) := by
  rw [collectTerminalSplitPanes,collectTerminalSplitGeometry_eq]
  exact mergeSort_perm _ _

theorem panes_leaves (layout : TerminalSplitNode) :
    ((collectTerminalSplitPanes layout).map fun pane => (pane.binding,pane.id)).Perm layout.leaves := by
  have hperm := (collected_perm layout).map fun pane => (pane.binding,pane.id)
  rwa [placed_leaves] at hperm

theorem collected_resizers (layout : TerminalSplitNode) :
    (collectTerminalSplitResizers layout).map TerminalSplitResizer.id = layout.branches := by
  rw [collectTerminalSplitResizers,collectTerminalSplitGeometry_eq]
  exact resizers_branches layout _

theorem collected_tiles (layout : TerminalSplitNode) :
    Tiles ((collectTerminalSplitPanes layout).map TerminalSplitPane.bounds)
      emptyTerminalSplitBounds := by
  have hproper : emptyTerminalSplitBounds.Proper := ⟨one_pos,one_pos⟩
  exact (placed_tiles layout hproper).of_perm ((collected_perm layout).symm.map _)

end Geometry

section Keys

theorem key_injective {b c : TerminalPaneBinding}
    (h : terminalPaneBindingKey b = terminalPaneBindingKey c) : b = c := by
  obtain ⟨kind,tabId⟩ := b
  obtain ⟨kind',tabId'⟩ := c
  have hlist := congrArg String.toList h
  cases kind <;> cases kind' <;> simp [terminalPaneBindingKey,BindingKind.text] at hlist ⊢
  all_goals exact String.toList_injective hlist

theorem bindingsEqual_iff {bound : Option TerminalPaneBinding} {binding : TerminalPaneBinding} :
    terminalPaneBindingsEqual bound (some binding) = true ↔ bound = some binding := by
  cases bound with
  | none => simp [terminalPaneBindingsEqual]
  | some b =>
    simp only [terminalPaneBindingsEqual,beq_iff_eq,Option.some.injEq]
    exact ⟨key_injective,fun h => h ▸ rfl⟩

end Keys

section Grafts

open TerminalSplitNode

variable {f : Option TerminalPaneBinding → String → TerminalSplitNode} {node : TerminalSplitNode}

theorem graft_leaves : (node.graft f).leaves =
    node.leaves.flatMap fun leaf => (f leaf.1 leaf.2).leaves := by
  induction node with
  | leaf binding id => simp [graft,leaves]
  | split direction first id ratio second ihf ihs => simp [graft,leaves,ihf,ihs]

theorem graft_branches : (node.graft f).branches.Perm
    (node.branches ++ node.leaves.flatMap fun leaf => (f leaf.1 leaf.2).branches) := by
  induction node with
  | leaf binding id => simp [graft,leaves,branches]
  | split direction first id ratio second ihf ihs =>
    simp only [graft,leaves,branches,flatMap_append,cons_append]
    apply List.Perm.cons
    refine (ihf.append ihs).trans ?_
    rw [append_assoc,append_assoc]
    apply List.Perm.append_left
    rw [← append_assoc,← append_assoc]
    exact perm_append_comm.append_right _

theorem graft_ids : (node.graft f).ids.Perm
    (node.branches ++ node.leaves.flatMap fun leaf => (f leaf.1 leaf.2).ids) := by
  rw [ids,graft_leaves,map_flatMap]
  refine (graft_branches.append_left _).trans ?_
  rw [← append_assoc]
  refine (perm_append_comm.append_right _).trans ?_
  rw [append_assoc]
  exact (flatMap_append_perm _ _ _).append_left _

theorem graft_bindings : (node.graft f).bindings =
    node.leaves.flatMap fun leaf => (f leaf.1 leaf.2).bindings := by
  rw [bindings,graft_leaves,filterMap_flatMap]
  rfl

end Grafts

section Distinct

open TerminalSplitNode

/-- No pane, no branch and no terminal occurs twice. -/
structure Distinct (node : TerminalSplitNode) : Prop where
  ids : node.ids.Nodup
  bindings : node.bindings.Nodup

/-- The ids and the terminals of a layout apart from those of one pane. -/
def idsBeside (layout : TerminalSplitNode) (paneId : String) : List String :=
  ((layout.leaves.filter (·.2 ≠ paneId)).map Prod.snd) ++ layout.branches

def bindingsBeside (layout : TerminalSplitNode) (paneId : String) : List TerminalPaneBinding :=
  (layout.leaves.filter (·.2 ≠ paneId)).filterMap Prod.fst

variable {layout : TerminalSplitNode}

/-- Two leaves that share neither their id nor their terminal. -/
def Apart (a b : Option TerminalPaneBinding × String) : Prop :=
  a.2 ≠ b.2 ∧ ∀ x, a.1 = some x → b.1 ≠ some x

instance : Std.Symm Apart := ⟨fun _ _ h => ⟨h.1.symm,fun x hb ha => h.2 x ha hb⟩⟩

theorem Distinct.leaves_apart (h : Distinct layout) : layout.leaves.Pairwise Apart := by
  have hids := pairwise_map.mp (List.Nodup.of_append_left h.ids)
  have hbindings := pairwise_filterMap.mp h.bindings
  apply (hids.and hbindings).imp
  rintro a b ⟨hid,hbinding⟩
  exact ⟨hid,fun x ha hb => hbinding x ha x hb rfl⟩

/-- Lists put one behind the other, some of them exchanged, have nothing twice. -/
theorem nodup_flatMap_ite {α β : Type} {xs : List α} {p : α → Prop} [DecidablePred p]
    {g h : α → List β} (hpair : xs.Pairwise fun a b => ¬ (p a ∧ p b) ∧ List.Disjoint (h a) (h b))
    (hh : ∀ a ∈ xs, (h a).Nodup) (hg : ∀ a ∈ xs, p a → (g a).Nodup)
    (hgh : ∀ a ∈ xs, ∀ b ∈ xs, p a → ¬ p b → List.Disjoint (g a) (h b)) :
    (xs.flatMap fun a => if p a then g a else h a).Nodup := by
  refine nodup_flatMap.mpr ⟨?_,?_⟩
  · intro a ha
    by_cases hp : p a
    · simpa [hp] using hg a ha hp
    · simpa [hp] using hh a ha
  · apply hpair.imp_of_mem
    intro a b ha hb hab
    by_cases hpa : p a
    · have hpb : ¬ p b := fun hpb => hab.1 ⟨hpa,hpb⟩
      simpa [Function.onFun,hpa,hpb] using hgh a ha b hb hpa hpb
    · by_cases hpb : p b
      · simpa [Function.onFun,hpa,hpb] using (hgh b hb a ha hpb hpa).symm
      · simpa [Function.onFun,hpa,hpb] using hab.2

theorem leaf_ids (binding : Option TerminalPaneBinding) (id : String) :
    (leaf binding id).ids = [id] := rfl

theorem leaf_bindings (binding : Option TerminalPaneBinding) (id : String) :
    (leaf binding id).bindings = binding.toList := by
  cases binding <;> rfl

variable {leaf : Option TerminalPaneBinding × String} {paneId : String}

theorem mem_idsBeside (hleaf : leaf ∈ layout.leaves) (hne : leaf.2 ≠ paneId) : leaf.2 ∈ idsBeside layout paneId :=
  mem_append_left _ (mem_map_of_mem (mem_filter.mpr ⟨hleaf,by simpa using hne⟩))

theorem mem_bindingsBeside (hleaf : leaf ∈ layout.leaves) (hne : leaf.2 ≠ paneId) {x : TerminalPaneBinding}
    (hx : leaf.1 = some x) : x ∈ bindingsBeside layout paneId :=
  mem_filterMap.mpr ⟨leaf,mem_filter.mpr ⟨hleaf,by simpa using hne⟩,hx⟩

/-- Replacing the leaf of one pane by a tree that brings nothing the rest of the layout has. -/
theorem distinct_replaceLeaf (h : Distinct layout) (paneId : String)
    (tree : Option TerminalPaneBinding → TerminalSplitNode)
    (htree : ∀ binding, (binding,paneId) ∈ layout.leaves → Distinct (tree binding) ∧
      (∀ id ∈ (tree binding).ids, id ∉ idsBeside layout paneId) ∧
      ∀ x ∈ (tree binding).bindings, x ∉ bindingsBeside layout paneId) :
    Distinct (layout.graft fun binding id =>
      if id = paneId then tree binding else .leaf binding id) := by
  have hat : ∀ leaf ∈ layout.leaves, leaf.2 = paneId → (leaf.1,paneId) ∈ layout.leaves := by
    rintro ⟨binding,id⟩ hleaf rfl
    exact hleaf
  have hall := nodup_append.mp h.ids
  have hone : ∀ a b : Option TerminalPaneBinding × String, a.2 ≠ b.2 →
      ¬ (a.2 = paneId ∧ b.2 = paneId) := fun a b hne hboth => hne (hboth.1.trans hboth.2.symm)
  constructor
  · apply graft_ids.nodup_iff.mpr
    simp only [apply_ite ids,leaf_ids]
    refine nodup_append.mpr ⟨hall.2.1,nodup_flatMap_ite ?_ ?_ ?_ ?_,?_⟩
    · apply h.leaves_apart.imp
      intro a b hab
      exact ⟨hone a b hab.1,by simpa using hab.1.symm⟩
    · exact fun leaf _ => nodup_singleton _
    · exact fun leaf hleaf hid => (htree leaf.1 (hat leaf hleaf hid)).1.ids
    · intro a ha b hb haid hbid id hid hidb
      obtain rfl := mem_singleton.mp hidb
      exact (htree a.1 (hat a ha haid)).2.1 _ hid (mem_idsBeside hb hbid)
    · intro id hid id' hid' heq
      subst heq
      obtain ⟨leaf,hleaf,hmem⟩ := mem_flatMap.mp hid'
      split_ifs at hmem with hpane
      · exact (htree leaf.1 (hat leaf hleaf hpane)).2.1 id hmem (mem_append_right _ hid)
      · obtain rfl := mem_singleton.mp hmem
        exact hall.2.2 _ (mem_map_of_mem hleaf) _ hid rfl
  · rw [graft_bindings]
    simp only [apply_ite bindings,leaf_bindings]
    apply nodup_flatMap_ite
    · apply h.leaves_apart.imp
      intro a b hab
      refine ⟨hone a b hab.1,?_⟩
      intro x hxa hxb
      exact hab.2 x (Option.mem_toList.mp hxa) (Option.mem_toList.mp hxb)
    · intro leaf _
      cases leaf.1 <;> simp
    · exact fun leaf hleaf hid => (htree leaf.1 (hat leaf hleaf hid)).1.bindings
    · intro a ha b hb haid hbid x hx hxb
      exact (htree a.1 (hat a ha haid)).2.2 x hx (mem_bindingsBeside hb hbid (Option.mem_toList.mp hxb))

theorem idsBeside_subset : idsBeside layout paneId ⊆ layout.ids := by
  intro id hid
  rcases mem_append.mp hid with hid | hid
  · obtain ⟨leaf,hleaf,rfl⟩ := mem_map.mp hid
    exact mem_append_left _ (mem_map_of_mem (mem_filter.mp hleaf).1)
  · exact mem_append_right _ hid

theorem bindingsBeside_subset : bindingsBeside layout paneId ⊆ layout.bindings := by
  intro x hx
  obtain ⟨leaf,hleaf,hbinding⟩ := mem_filterMap.mp hx
  exact mem_filterMap.mpr ⟨leaf,(mem_filter.mp hleaf).1,hbinding⟩

/-- A pane shares neither its id nor its terminal with the rest of its layout. -/
theorem Distinct.leaf_apart (h : Distinct layout) {binding : Option TerminalPaneBinding}
    (hleaf : (binding,paneId) ∈ layout.leaves) :
    paneId ∉ idsBeside layout paneId ∧
      ∀ x, binding = some x → x ∉ bindingsBeside layout paneId := by
  have hall := nodup_append.mp h.ids
  refine ⟨?_,?_⟩
  · intro hmem
    rcases mem_append.mp hmem with hmem | hmem
    · obtain ⟨leaf,hkept,hid⟩ := mem_map.mp hmem
      simpa [hid] using (mem_filter.mp hkept).2
    · exact hall.2.2 _ (mem_map_of_mem hleaf) _ hmem rfl
  · intro x hx hmem
    obtain ⟨leaf,hkept,hbinding⟩ := mem_filterMap.mp hmem
    obtain ⟨hother,hne⟩ := mem_filter.mp hkept
    have hdifferent : (binding,paneId) ≠ leaf := by
      rintro rfl
      simp at hne
    exact (h.leaves_apart.forall hleaf hother hdifferent).2 x hx hbinding

theorem splitTerminalPane_eq (layout : TerminalSplitNode) (paneId : String) (direction : Direction)
    (splitId newPaneId : String) (newBinding : Option TerminalPaneBinding) :
    splitTerminalPane layout paneId direction splitId newPaneId newBinding =
      layout.graft fun binding id => if id = paneId then
        .split direction (.leaf binding paneId) splitId (1/2) (.leaf newBinding newPaneId)
        else .leaf binding id := by
  induction layout with
  | leaf binding id =>
    by_cases hid : id = paneId <;> simp [splitTerminalPane,graft,hid]
  | split dir first id ratio second ihf ihs => simp [splitTerminalPane,graft,ihf,ihs]

theorem replaceTerminalSplitPane_eq (layout : TerminalSplitNode) (paneId : String)
    (replacement : TerminalSplitNode) : replaceTerminalSplitPane layout paneId replacement =
      layout.graft fun binding id => if id = paneId then replacement else .leaf binding id := by
  induction layout with
  | leaf binding id => rfl
  | split dir first id ratio second ihf ihs => simp [replaceTerminalSplitPane,graft,ihf,ihs]

theorem distinct_split (h : Distinct layout) {splitId newPaneId : String}
    {newBinding : Option TerminalPaneBinding} (hsplit : splitId ∉ layout.ids)
    (hpane : newPaneId ∉ layout.ids) (hne : splitId ≠ newPaneId)
    (hnew : ∀ x, newBinding = some x → x ∉ layout.bindings) (paneId : String)
    (direction : Direction) :
    Distinct (splitTerminalPane layout paneId direction splitId newPaneId newBinding) := by
  rw [splitTerminalPane_eq]
  apply distinct_replaceLeaf h
  intro binding hleaf
  have hpaneId : paneId ∈ layout.ids := mem_append_left _ (mem_map_of_mem hleaf)
  have hbound : ∀ x, binding = some x → x ∈ layout.bindings := fun x hx =>
    mem_filterMap.mpr ⟨(binding,paneId),hleaf,hx⟩
  obtain ⟨hidApart,hbindingApart⟩ := h.leaf_apart hleaf
  have hids : (split direction (.leaf binding paneId) splitId (1/2)
      (.leaf newBinding newPaneId)).ids = [paneId,newPaneId,splitId] := rfl
  have hbindings : (split direction (.leaf binding paneId) splitId (1/2)
      (.leaf newBinding newPaneId)).bindings = binding.toList ++ newBinding.toList := by
    cases binding <;> rfl
  refine ⟨⟨?_,?_⟩,?_,?_⟩
  · rw [hids]
    have hpn : paneId ≠ newPaneId := fun he => hpane (he ▸ hpaneId)
    have hps : paneId ≠ splitId := fun he => hsplit (he ▸ hpaneId)
    simp [hpn,hps,hne.symm]
  · rw [hbindings]
    cases hb : binding with
    | none => cases newBinding <;> simp
    | some x =>
      cases hn : newBinding with
      | none => simp
      | some y =>
        have hxy : x ≠ y := fun he => hnew y hn (he ▸ hbound x hb)
        simpa using hxy
  · rw [hids]
    intro id hid
    simp only [mem_cons,not_mem_nil,or_false] at hid
    rcases hid with rfl | rfl | rfl
    · exact hidApart
    · exact fun hmem => hpane (idsBeside_subset hmem)
    · exact fun hmem => hsplit (idsBeside_subset hmem)
  · rw [hbindings]
    intro x hx
    rcases mem_append.mp hx with hx | hx
    · exact hbindingApart x (Option.mem_toList.mp hx)
    · exact fun hmem => hnew x (Option.mem_toList.mp hx) (bindingsBeside_subset hmem)

theorem ratio_leaves (layout : TerminalSplitNode) (splitId : String) (ratio : ℚ) :
    (updateTerminalSplitRatio layout splitId ratio).leaves = layout.leaves ∧
      (updateTerminalSplitRatio layout splitId ratio).branches = layout.branches := by
  induction layout with
  | leaf binding id => exact ⟨rfl,rfl⟩
  | split direction first id old second ihf ihs =>
    by_cases hid : id = splitId
    · simp [updateTerminalSplitRatio,hid,leaves,branches]
    · simp [updateTerminalSplitRatio,hid,leaves,branches,ihf,ihs]

/-- What moving a terminal to a pane makes of a leaf. -/
def moved (paneId : String) (binding : TerminalPaneBinding)
    (leaf : Option TerminalPaneBinding × String) : Option TerminalPaneBinding × String :=
  if leaf.2 = paneId then (some binding,leaf.2)
  else if leaf.1 = some binding then (none,leaf.2) else leaf

theorem move_leaves (layout : TerminalSplitNode) (paneId : String) (binding : TerminalPaneBinding) :
    (moveTerminalSplitBinding layout paneId binding).leaves =
        layout.leaves.map (moved paneId binding) ∧
      (moveTerminalSplitBinding layout paneId binding).branches = layout.branches := by
  induction layout with
  | leaf bound id =>
    by_cases hid : id = paneId
    · simp [moveTerminalSplitBinding,moved,leaves,branches,hid]
    · by_cases hbound : bound = some binding
      · simp [moveTerminalSplitBinding,moved,leaves,branches,hid,hbound,bindingsEqual_iff]
      · simp [moveTerminalSplitBinding,moved,leaves,branches,hid,hbound,bindingsEqual_iff]
  | split direction first id ratio second ihf ihs =>
    simp [moveTerminalSplitBinding,leaves,branches,ihf,ihs]

theorem moved_id (paneId : String) (binding : TerminalPaneBinding)
    (leaf : Option TerminalPaneBinding × String) : (moved paneId binding leaf).2 = leaf.2 := by
  unfold moved
  split_ifs <;> rfl

/-- After a move only the pane it is moved to shows the terminal. -/
theorem moved_binding {binding x : TerminalPaneBinding} (h : (moved paneId binding leaf).1 = some x) :
    (leaf.2 = paneId ∧ x = binding) ∨ (leaf.2 ≠ paneId ∧ leaf.1 = some x ∧ x ≠ binding) := by
  unfold moved at h
  split_ifs at h with hid hbound
  · exact Or.inl ⟨hid,by simpa using h.symm⟩
  · refine Or.inr ⟨hid,h,?_⟩
    rintro rfl
    exact hbound h

theorem distinct_move (h : Distinct layout) (paneId : String) (binding : TerminalPaneBinding) :
    Distinct (moveTerminalSplitBinding layout paneId binding) := by
  obtain ⟨hleaves,hbranches⟩ := move_leaves layout paneId binding
  constructor
  · have hsame : (moveTerminalSplitBinding layout paneId binding).ids = layout.ids := by
      rw [ids,hleaves,map_map]
      congr 1
      apply map_congr_left
      exact fun leaf _ => moved_id paneId binding leaf
    rw [hsame]
    exact h.ids
  · rw [bindings,hleaves]
    apply pairwise_filterMap.mpr
    apply pairwise_map.mpr
    apply h.leaves_apart.imp
    rintro a b ⟨hid,hbinding⟩ x hx y hy rfl
    rcases moved_binding hx with ⟨ha,rfl⟩ | ⟨-,ha,hne⟩
    · rcases moved_binding hy with ⟨hb,-⟩ | ⟨-,-,hne⟩
      · exact hid (ha.trans hb.symm)
      · exact hne rfl
    · rcases moved_binding hy with ⟨-,rfl⟩ | ⟨-,hb,-⟩
      · exact hne rfl
      · exact hbinding x ha hb

variable {layout' : TerminalSplitNode}

theorem close_sublist {layout : TerminalSplitNode} (h : closeTerminalSplitPane layout paneId = some layout') :
    layout'.leaves.Sublist layout.leaves ∧ layout'.branches.Sublist layout.branches := by
  induction layout generalizing layout' with
  | leaf binding id =>
    by_cases hid : id = paneId
    · simp [closeTerminalSplitPane,hid] at h
    · obtain rfl : leaf binding id = layout' := by
        simpa [closeTerminalSplitPane,hid] using h
      exact ⟨List.Sublist.refl _,List.Sublist.refl _⟩
  | split direction first id ratio second ihf ihs =>
    rw [closeTerminalSplitPane] at h
    cases hf : closeTerminalSplitPane first paneId with
    | none =>
      have hs := ihs (by simpa [hf] using h)
      exact ⟨hs.1.trans (sublist_append_right _ _),
        (hs.2.trans (sublist_append_right _ _)).trans (sublist_cons_self _ _)⟩
    | some first' =>
      have hfirst := ihf hf
      cases hs : closeTerminalSplitPane second paneId with
      | none =>
        obtain rfl : first' = layout' := by simpa [hf,hs] using h
        exact ⟨hfirst.1.trans (sublist_append_left _ _),
          (hfirst.2.trans (sublist_append_left _ _)).trans (sublist_cons_self _ _)⟩
      | some second' =>
        have hsecond := ihs hs
        obtain rfl : split direction first' id ratio second' = layout' := by
          simpa [hf,hs] using h
        exact ⟨hfirst.1.append hsecond.1,(hfirst.2.append hsecond.2).cons_cons _⟩

theorem distinct_close (h : Distinct layout) (hclose : closeTerminalSplitPane layout paneId = some layout') :
    Distinct layout' := by
  obtain ⟨hleaves,hbranches⟩ := close_sublist hclose
  exact ⟨h.ids.sublist ((hleaves.map _).append hbranches),h.bindings.sublist (hleaves.filterMap _)⟩

theorem distinct_closeAll (paneIds : List String) {layout : Option TerminalSplitNode}
    (h : ∀ node, layout = some node → Distinct node)
    (hclose : paneIds.foldl (fun layout paneId => layout.bind fun layout => closeTerminalSplitPane layout paneId) layout
      = some layout') :
    Distinct layout' := by
  induction paneIds generalizing layout with
  | nil => exact h layout' hclose
  | cons paneId paneIds ih =>
    apply ih _ hclose
    intro node hnode
    obtain ⟨before,hbefore,hone⟩ := Option.bind_eq_some_iff.mp hnode
    exact distinct_close (h before hbefore) hone

/-- The ids and terminals an operation brings are not in the layout yet, as the callers see to:
they number the panes and branches and look a terminal up before they show it. -/
def Fresh (layout : TerminalSplitNode) : Operation → Prop
  | .split _ _ splitId newPaneId newBinding =>
    splitId ∉ layout.ids ∧ newPaneId ∉ layout.ids ∧ splitId ≠ newPaneId ∧
      ∀ x, newBinding = some x → x ∉ layout.bindings
  | .replace paneId replacement =>
    Distinct replacement ∧ (∀ id ∈ replacement.ids, id ∉ idsBeside layout paneId) ∧
      ∀ x ∈ replacement.bindings, x ∉ bindingsBeside layout paneId
  | _ => True

theorem distinct_run (h : Distinct layout) {operation : Operation} (hfresh : Fresh layout operation)
    (hrun : operation.run layout = some layout') : Distinct layout' := by
  cases operation with
  | split paneId direction splitId newPaneId newBinding =>
    cases hrun
    exact distinct_split h hfresh.1 hfresh.2.1 hfresh.2.2.1 hfresh.2.2.2 paneId direction
  | replace paneId replacement =>
    cases hrun
    rw [replaceTerminalSplitPane_eq]
    exact distinct_replaceLeaf h paneId (fun _ => replacement) fun _ _ => hfresh
  | ratio splitId requested =>
    cases hrun
    obtain ⟨hleaves,hbranches⟩ := ratio_leaves layout splitId requested
    exact ⟨by rw [ids,hleaves,hbranches]; exact h.ids,
      by rw [bindings,hleaves]; exact h.bindings⟩
  | move paneId binding =>
    cases hrun
    exact distinct_move h paneId binding
  | close paneId => exact distinct_close h hrun
  | removeBindings bindings =>
    exact distinct_closeAll _ (fun node hnode => Option.some.inj hnode ▸ h) hrun

theorem reached_distinct (h : Reached Fresh layout) : Distinct layout := by
  induction h with
  | create paneId binding => exact ⟨nodup_singleton _,nodup_singleton _⟩
  | step operation _ hfresh hrun ih => exact distinct_run ih hfresh hrun

end Distinct

/-- The geometry of a layout covers the unit square with one pane for each leaf, and there is one
resizer for each branch. -/
structure Tiled (layout : TerminalSplitNode) : Prop where
  leaves : ((collectTerminalSplitPanes layout).map fun pane => (pane.binding,pane.id)).Perm
    layout.leaves
  branches : (collectTerminalSplitResizers layout).map TerminalSplitResizer.id = layout.branches
  tiles : Tiles ((collectTerminalSplitPanes layout).map TerminalSplitPane.bounds) ⟨0,0,1,1⟩
  area : ((collectTerminalSplitPanes layout).map fun pane => pane.bounds.width * pane.bounds.height).sum = 1

theorem tiled (layout : TerminalSplitNode) : Tiled layout where
  leaves := panes_leaves layout
  branches := collected_resizers layout
  tiles := collected_tiles layout
  area := by
    have harea := (collected_tiles layout).area
    rw [map_map] at harea
    exact harea.trans (one_mul 1)

/-- Every layout is tiled, and one that is reached with new ids and terminals has nothing twice. -/
theorem layouts_tile (layout : TerminalSplitNode) :
    (∀ allowed, Reached allowed layout → Tiled layout) ∧
      (Reached Fresh layout → Tiled layout ∧ Distinct layout) :=
  ⟨fun _ _ => tiled layout,fun h => ⟨tiled layout,reached_distinct h⟩⟩

/-- Two panes side by side, of which the second one takes the terminal of the first. -/
theorem layouts_tile_two_panes :
    let layout := split .row (.leaf none "pane-1") "split-3" (1/2)
      (.leaf (some ⟨.ssh,"tab"⟩) "pane-2")
    Tiled layout ∧ Distinct layout := by
  intro layout
  have hone : Reached Fresh (createTerminalSplitLayout "pane-1" ⟨.ssh,"tab"⟩) := .create _ _
  have htwo := Reached.step (.split "pane-1" .row "split-3" "pane-2" none) hone
    ⟨by decide,by decide,by decide,by simp⟩ rfl
  have hmoved := Reached.step (.move "pane-2" ⟨.ssh,"tab"⟩) htwo trivial rfl
  exact (layouts_tile layout).2 hmoved

/-- Nothing in `splitTerminalPane` itself keeps the id of a new pane from being in use. -/
theorem split_repeats_id :
    ¬ ∀ layout, Reached (fun _ _ => True) layout → Tiled layout ∧ Distinct layout := by
  intro hall
  have hreached : Reached (fun _ _ => True) (splitTerminalPane
      (createTerminalSplitLayout "pane" ⟨.ssh,"tab"⟩) "pane" .row "split" "pane" none) :=
    .step (.split "pane" .row "split" "pane" none) (.create "pane" ⟨.ssh,"tab"⟩) trivial rfl
  exact absurd (hall _ hreached).2.ids (by decide)

/-! ## Closing -/

/-- The panes of what a closing leaves. -/
def leavesLeft (layout : Option TerminalSplitNode) : List (Option TerminalPaneBinding × String) :=
  layout.elim [] leaves

theorem close_leaves (layout : TerminalSplitNode) (paneId : String) :
    leavesLeft (closeTerminalSplitPane layout paneId) = layout.leaves.filter (·.2 ≠ paneId) := by
  induction layout with
  | leaf binding id => by_cases h : id = paneId <;> simp [closeTerminalSplitPane,leavesLeft,leaves,h]
  | split direction first id ratio second ihf ihs =>
    rw [leaves,filter_append,← ihf,← ihs,closeTerminalSplitPane]
    cases closeTerminalSplitPane first paneId <;> cases closeTerminalSplitPane second paneId <;>
      simp [leavesLeft,leaves]

theorem closeAll_leaves (paneIds : List String) (layout : Option TerminalSplitNode) :
    leavesLeft (paneIds.foldl (fun layout paneId => layout.bind fun layout => closeTerminalSplitPane layout paneId)
      layout) = (leavesLeft layout).filter (·.2 ∉ paneIds) := by
  induction paneIds generalizing layout with
  | nil => simp
  | cons paneId paneIds ih =>
    have hone : leavesLeft (layout.bind fun layout => closeTerminalSplitPane layout paneId) =
        (leavesLeft layout).filter (·.2 ≠ paneId) := by
      cases layout with
      | none => rfl
      | some layout => exact close_leaves layout paneId
    rw [foldl_cons,ih,hone,filter_filter]
    exact filter_congr fun leaf _ => by simp [Bool.and_comm]

theorem close_split {layout : TerminalSplitNode} {newPaneId : String} (h : newPaneId ∉ layout.ids) (paneId : String)
    (direction : Direction) (splitId : String) (newBinding : Option TerminalPaneBinding) :
    closeTerminalSplitPane (splitTerminalPane layout paneId direction splitId newPaneId newBinding) newPaneId =
      some layout := by
  replace h : ∀ leaf ∈ layout.leaves, leaf.2 ≠ newPaneId := fun leaf hleaf heq =>
    h (mem_append_left _ (mem_map.mpr ⟨leaf,hleaf,heq⟩))
  induction layout with
  | leaf binding id =>
    have hid : id ≠ newPaneId := h _ mem_cons_self
    rw [splitTerminalPane]
    split_ifs <;> simp [closeTerminalSplitPane,hid]
  | split dir first id ratio second ihf ihs =>
    rw [splitTerminalPane,closeTerminalSplitPane,ihf fun leaf hleaf => h leaf (mem_append_left _ hleaf),
      ihs fun leaf hleaf => h leaf (mem_append_right _ hleaf)]

end Mxterm.TerminalSplit
