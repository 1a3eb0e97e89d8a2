import Mxterm.Tilings
import Mathlib.Data.List.Sort

/-! The tree of split panes of `terminalSplitLayout.ts`, with the operations that change it and
the geometry of its panes and resizers, in rational numbers. -/
namespace Mxterm.TerminalSplit

open Tilings

inductive BindingKind
  | ssh | «local»
  deriving DecidableEq

def BindingKind.text : BindingKind → String
  | .ssh => "ssh"
  | .local => "local"

structure TerminalPaneBinding where
  kind : BindingKind
  tabId : String
  deriving DecidableEq

inductive Direction
  | row | column
  deriving DecidableEq

inductive TerminalSplitNode
  | leaf (binding : Option TerminalPaneBinding) (id : String)
  | split (direction : Direction) (first : TerminalSplitNode) (id : String) (ratio : ℚ)
      (second : TerminalSplitNode)
  deriving DecidableEq

abbrev TerminalSplitBounds := Rectangle ℚ

structure TerminalSplitPane where
  binding : Option TerminalPaneBinding
  bounds : TerminalSplitBounds
  id : String

structure TerminalSplitResizer where
  bounds : TerminalSplitBounds
  direction : Direction
  id : String
  ratio : ℚ

def terminalSplitMinRatio : ℚ := 2/10
def terminalSplitMaxRatio : ℚ := 8/10

def terminalPaneBindingKey (binding : TerminalPaneBinding) : String :=
  binding.kind.text ++ ":" ++ binding.tabId

def terminalPaneBindingsEqual (first second : Option TerminalPaneBinding) : Bool :=
  match first, second with
  | some first, some second => terminalPaneBindingKey first == terminalPaneBindingKey second
  | _, _ => false

def clampTerminalSplitRatio (ratio : ℚ) : ℚ :=
  min terminalSplitMaxRatio (max terminalSplitMinRatio ratio)

def createTerminalSplitLayout (paneId : String) (binding : TerminalPaneBinding) : TerminalSplitNode :=
  .leaf (some binding) paneId

def splitTerminalPane (layout : TerminalSplitNode) (paneId : String) (direction : Direction)
    (splitId newPaneId : String) (newBinding : Option TerminalPaneBinding) : TerminalSplitNode :=
  match layout with
  | .leaf binding id =>
    if id = paneId then
      .split direction (.leaf binding id) splitId (1/2) (.leaf newBinding newPaneId)
    else .leaf binding id
  | .split dir first id ratio second =>
    .split dir (splitTerminalPane first paneId direction splitId newPaneId newBinding) id ratio
      (splitTerminalPane second paneId direction splitId newPaneId newBinding)

def replaceTerminalSplitPane (layout : TerminalSplitNode) (paneId : String)
    (replacement : TerminalSplitNode) : TerminalSplitNode :=
  match layout with
  | .leaf binding id => if id = paneId then replacement else .leaf binding id
  | .split direction first id ratio second =>
    .split direction (replaceTerminalSplitPane first paneId replacement) id ratio
      (replaceTerminalSplitPane second paneId replacement)

def updateTerminalSplitRatio (layout : TerminalSplitNode) (splitId : String) (ratio : ℚ) :
    TerminalSplitNode :=
  match layout with
  | .leaf binding id => .leaf binding id
  | .split direction first id old second =>
    if id = splitId then .split direction first id (clampTerminalSplitRatio ratio) second
    else
      .split direction (updateTerminalSplitRatio first splitId ratio) id old
        (updateTerminalSplitRatio second splitId ratio)

def moveTerminalSplitBinding (layout : TerminalSplitNode) (paneId : String)
    (binding : TerminalPaneBinding) : TerminalSplitNode :=
  match layout with
  | .leaf bound id =>
    if id = paneId then .leaf (some binding) id
    else if terminalPaneBindingsEqual bound (some binding) then .leaf none id
    else .leaf bound id
  | .split direction first id ratio second =>
    .split direction (moveTerminalSplitBinding first paneId binding) id ratio
      (moveTerminalSplitBinding second paneId binding)

def closeTerminalSplitPane (layout : TerminalSplitNode) (paneId : String) :
    Option TerminalSplitNode :=
  match layout with
  | .leaf binding id => if id = paneId then none else some (.leaf binding id)
  | .split direction first id ratio second =>
    match closeTerminalSplitPane first paneId, closeTerminalSplitPane second paneId with
    | none, second => second
    | some first, none => some first
    | some first, some second => some (.split direction first id ratio second)

def emptyTerminalSplitBounds : TerminalSplitBounds := ⟨0,0,1,1⟩

/-- The panes and the resizers of a tree, put behind those that were collected before. -/
def collectTerminalSplitGeometry (node : TerminalSplitNode) (bounds : TerminalSplitBounds)
    (collected : List TerminalSplitPane × List TerminalSplitResizer) :
    List TerminalSplitPane × List TerminalSplitResizer :=
  match node with
  | .leaf binding id => (collected.1 ++ [⟨binding,bounds,id⟩],collected.2)
  | .split direction first id ratio second =>
    let ratio := clampTerminalSplitRatio ratio
    let collected := (collected.1,collected.2 ++ [⟨bounds,direction,id,ratio⟩])
    match direction with
    | .row =>
      let firstWidth := bounds.width * ratio
      let firstBounds := { bounds with width := firstWidth }
      let secondBounds :=
        { bounds with left := bounds.left + firstWidth, width := bounds.width - firstWidth }
      collectTerminalSplitGeometry second secondBounds
        (collectTerminalSplitGeometry first firstBounds collected)
    | .column =>
      let firstHeight := bounds.height * ratio
      let firstBounds := { bounds with height := firstHeight }
      let secondBounds :=
        { bounds with height := bounds.height - firstHeight, top := bounds.top + firstHeight }
      collectTerminalSplitGeometry second secondBounds
        (collectTerminalSplitGeometry first firstBounds collected)

def compareTerminalSplitPanePosition (first second : TerminalSplitPane) : ℚ :=
  let verticalDelta := first.bounds.top - second.bounds.top
  if 1/10000 < |verticalDelta| then verticalDelta else first.bounds.left - second.bounds.left

/-- The panes from the top to the bottom. The comparison is not transitive, so that no more of
the order is used below than that it is one. -/
def collectTerminalSplitPanes (layout : TerminalSplitNode) : List TerminalSplitPane :=
  (collectTerminalSplitGeometry layout emptyTerminalSplitBounds ([],[])).1.mergeSort
    fun first second => compareTerminalSplitPanePosition first second ≤ 0

def collectTerminalSplitResizers (layout : TerminalSplitNode) : List TerminalSplitResizer :=
  (collectTerminalSplitGeometry layout emptyTerminalSplitBounds ([],[])).2

def removeTerminalSplitBindings (layout : TerminalSplitNode) (bindings : List String) :
    Option TerminalSplitNode :=
  let paneIds := ((collectTerminalSplitPanes layout).filter fun pane =>
    pane.binding.any fun binding => bindings.contains (terminalPaneBindingKey binding)).map
      TerminalSplitPane.id
  paneIds.foldl (fun layout paneId => layout.bind fun layout => closeTerminalSplitPane layout paneId)
    (some layout)

/-- The operations that change a layout. -/
inductive Operation
  | split (paneId : String) (direction : Direction) (splitId newPaneId : String)
      (newBinding : Option TerminalPaneBinding)
  | replace (paneId : String) (replacement : TerminalSplitNode)
  | ratio (splitId : String) (requested : ℚ)
  | move (paneId : String) (binding : TerminalPaneBinding)
  | close (paneId : String)
  | removeBindings (bindings : List String)

/-- The layout after an operation, which may have closed the last pane. -/
def Operation.run (layout : TerminalSplitNode) : Operation → Option TerminalSplitNode
  | .split paneId direction splitId newPaneId newBinding =>
    some (splitTerminalPane layout paneId direction splitId newPaneId newBinding)
  | .replace paneId replacement => some (replaceTerminalSplitPane layout paneId replacement)
  | .ratio splitId requested => some (updateTerminalSplitRatio layout splitId requested)
  | .move paneId binding => some (moveTerminalSplitBinding layout paneId binding)
  | .close paneId => closeTerminalSplitPane layout paneId
  | .removeBindings bindings => removeTerminalSplitBindings layout bindings

/-- The layouts that operations lead to from a single pane. -/
inductive Reached (allowed : TerminalSplitNode → Operation → Prop) : TerminalSplitNode → Prop
  | create (paneId : String) (binding : TerminalPaneBinding) :
      Reached allowed (createTerminalSplitLayout paneId binding)
  | step {layout layout' : TerminalSplitNode} (operation : Operation) : Reached allowed layout →
      allowed layout operation → operation.run layout = some layout' → Reached allowed layout'

end Mxterm.TerminalSplit
