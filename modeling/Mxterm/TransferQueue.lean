import Mathlib.Data.List.Nodup
import Mxterm.Transitions

/-! The transfers of files as the user sees them, and the controller that runs some of them at a time
(`remoteFileTransferStore.ts`, `useRemoteFileTransferController.ts`). -/
namespace Mxterm.TransferQueue

/-! ## The store -/

inductive TransferStatus
  | queued | running | success | skipped | canceled | error
  deriving DecidableEq

def TransferStatus.finished : TransferStatus → Bool
  | .success | .skipped | .canceled => true
  | _ => false

structure RemoteFileTransferItem where
  id : String
  status : TransferStatus

def maxFinishedTransferHistory : ℕ := 100
def maxErrorTransferHistory : ℕ := 100

/-- The loop of `trimTransferHistory`, behind so many finished items and so many failed ones. -/
def trimFrom : ℕ → ℕ → List RemoteFileTransferItem → List RemoteFileTransferItem
  | _, _, [] => []
  | finishedCount, errorCount, item :: items =>
    if item.status = .error then
      if errorCount < maxErrorTransferHistory then item :: trimFrom finishedCount (errorCount + 1) items
      else trimFrom finishedCount errorCount items
    else if item.status.finished = false then item :: trimFrom finishedCount errorCount items
    else if finishedCount < maxFinishedTransferHistory then item :: trimFrom (finishedCount + 1) errorCount items
    else trimFrom finishedCount errorCount items

def trimTransferHistory (items : List RemoteFileTransferItem) : List RemoteFileTransferItem := trimFrom 0 0 items

def getRemoteFileTransfer (items : List RemoteFileTransferItem) (id : String) : Option RemoteFileTransferItem :=
  items.find? fun item => item.id = id

def addRemoteFileTransfer (items : List RemoteFileTransferItem) (id : String) : List RemoteFileTransferItem :=
  trimTransferHistory (⟨id,.queued⟩ :: items)

def withStatus (id : String) (status : TransferStatus) (item : RemoteFileTransferItem) : RemoteFileTransferItem :=
  if item.id = id then { item with status := status } else item

def updateRemoteFileTransfer (items : List RemoteFileTransferItem) (id : String) (status : TransferStatus) :
    List RemoteFileTransferItem :=
  trimTransferHistory (items.map (withStatus id status))

def prepareTransferRetry (items : List RemoteFileTransferItem) (id : String) : List RemoteFileTransferItem :=
  updateRemoteFileTransfer items id .queued

def markTransferCanceled (items : List RemoteFileTransferItem) (id : String) : List RemoteFileTransferItem :=
  updateRemoteFileTransfer items id .canceled

def clearFinishedTransfers (items : List RemoteFileTransferItem) : List RemoteFileTransferItem :=
  items.filter fun item => !item.status.finished

def removeRemoteFileTransfer (items : List RemoteFileTransferItem) (id : String) : List RemoteFileTransferItem :=
  items.filter fun item => item.id ≠ id

theorem trimFrom_sublist (finishedCount errorCount : ℕ) (items : List RemoteFileTransferItem) :
    (trimFrom finishedCount errorCount items).Sublist items := by
  induction items generalizing finishedCount errorCount with
  | nil => exact List.Sublist.refl _
  | cons item items ih =>
    rw [trimFrom]
    split_ifs
    · exact (ih _ _).cons_cons item
    · exact (ih _ _).cons item
    · exact (ih _ _).cons_cons item
    · exact (ih _ _).cons_cons item
    · exact (ih _ _).cons item

theorem trimTransferHistory_sublist (items : List RemoteFileTransferItem) :
    (trimTransferHistory items).Sublist items := trimFrom_sublist 0 0 items

/-! ## The controller -/

/-- A task that was started, and how many tasks ran and how many were allowed to run then. -/
structure TaskStart where
  task : ℕ
  running : ℕ
  limit : ℕ

/-- The controller with the store. Tasks are numbered in the order in which they are passed to it; `latest` is
the last one that was passed for an identifier. -/
structure Controller where
  items : List RemoteFileTransferItem
  transferQueue : List String
  runningTransferIds : List String
  transferTasks : String → Option ℕ
  concurrency : ℕ
  passed : ℕ
  latest : String → Option ℕ
  starts : List TaskStart

namespace Controller

def initial (concurrency : ℕ) : Controller where
  items := []
  transferQueue := []
  runningTransferIds := []
  transferTasks _ := none
  concurrency := concurrency
  passed := 0
  latest _ := none
  starts := []

def start (c : Controller) (transferId : String) (task : ℕ) : Controller :=
  { c with
    runningTransferIds := transferId :: c.runningTransferIds
    items := updateRemoteFileTransfer c.items transferId .running
    starts := c.starts ++ [⟨task,c.runningTransferIds.length,c.concurrency⟩] }

def forget (c : Controller) (transferId : String) : Controller :=
  { c with transferTasks := Function.update c.transferTasks transferId none }

def startable (c : Controller) (transferId : String) : Bool :=
  (getRemoteFileTransfer c.items transferId).all fun item => item.status = .queued

/-- What the drain does with the head of the queue. -/
def launch (c : Controller) (transferId : String) : Controller :=
  if transferId = "" then c
  else
    match c.transferTasks transferId with
    | none => c.forget transferId
    | some task => if c.startable transferId then c.start transferId task else c.forget transferId

/-- The loop of the drain, with what is left of the queue. -/
def drainFrom (c : Controller) : List String → Controller
  | [] => { c with transferQueue := [] }
  | transferId :: rest =>
    if c.runningTransferIds.length < c.concurrency then (c.launch transferId).drainFrom rest
    else { c with transferQueue := transferId :: rest }

def drainTransferQueue (c : Controller) : Controller := c.drainFrom c.transferQueue

def dropQueuedTransfer (c : Controller) (transferId : String) : Controller :=
  { c.forget transferId with transferQueue := c.transferQueue.filter (· ≠ transferId) }

/-- The new task stands in the map, and its identifier in the queue unless it runs. -/
def accept (c : Controller) (transferId : String) : Controller :=
  { c with
    transferTasks := Function.update c.transferTasks transferId (some c.passed)
    latest := Function.update c.latest transferId (some c.passed)
    passed := c.passed + 1
    transferQueue := if transferId ∈ c.transferQueue ∨ transferId ∈ c.runningTransferIds then c.transferQueue
      else c.transferQueue ++ [transferId] }

def enqueueRemoteFileTransfer (c : Controller) (transferId : String) : Controller :=
  (c.accept transferId).drainTransferQueue

def cancelQueuedTransfer (c : Controller) (transferId : String) : Controller :=
  { c.dropQueuedTransfer transferId with items := markTransferCanceled c.items transferId }

def requestCancelTransfer (c : Controller) (transferId : String) : Controller :=
  match getRemoteFileTransfer c.items transferId with
  | none => c.cancelQueuedTransfer transferId
  | some item =>
    if item.status = .queued then c.cancelQueuedTransfer transferId
    else if item.status = .running then { c with items := markTransferCanceled c.items transferId }
    else c

def removeTransfer (c : Controller) (transferId : String) : Controller :=
  { c.dropQueuedTransfer transferId with items := removeRemoteFileTransfer c.items transferId }

/-- The end of a task, whatever its result. -/
def settle (c : Controller) (transferId : String) : Controller :=
  ({ c.forget transferId with
    runningTransferIds := c.runningTransferIds.filter (· ≠ transferId) }).drainTransferQueue

end Controller

inductive ControllerAction
  | add (transferId : String)
  | retry (transferId : String)
  | enqueue (transferId : String)
  | cancel (transferId : String)
  | remove (transferId : String)
  | clearFinished
  | setConcurrency (concurrency : ℕ)
  /-- A task that runs reports how its transfer stands. -/
  | report (transferId : String) (status : TransferStatus)
  | settle (transferId : String)

namespace Controller

def step (c : Controller) : ControllerAction → Option Controller
  -- The identifier of a new transfer is drawn anew.
  | .add transferId =>
    if transferId ≠ "" ∧ ∀ item ∈ c.items, item.id ≠ transferId then
      some ({ c with items := addRemoteFileTransfer c.items transferId }.enqueueRemoteFileTransfer transferId)
    else none
  | .retry transferId =>
    some ({ c with items := prepareTransferRetry c.items transferId }.enqueueRemoteFileTransfer transferId)
  | .enqueue transferId => some (c.enqueueRemoteFileTransfer transferId)
  | .cancel transferId => some (c.requestCancelTransfer transferId)
  | .remove transferId => some (c.removeTransfer transferId)
  | .clearFinished => some { c with items := clearFinishedTransfers c.items }
  | .setConcurrency concurrency => some { c with concurrency := concurrency }.drainTransferQueue
  | .report transferId status =>
    if transferId ∈ c.runningTransferIds ∧ status ≠ .queued then
      some { c with items := updateRemoteFileTransfer c.items transferId status }
    else none
  | .settle transferId => if transferId ∈ c.runningTransferIds then some (c.settle transferId) else none

/-- No transfer is passed to the controller while an earlier task of its runs. -/
def Apart (c : Controller) : ControllerAction → Prop
  | .add transferId | .retry transferId | .enqueue transferId => transferId ∉ c.runningTransferIds
  | _ => True

/-- Every transfer that the user sees as queued waits for its latest task to be run, and the queue is empty as
long as there is room. -/
structure Orderly (c : Controller) : Prop where
  queued : ∀ item ∈ c.items, item.status = .queued →
    item.id ∈ c.transferQueue ∧ ∃ task, c.transferTasks item.id = some task ∧ c.latest item.id = some task
  room : c.runningTransferIds.length < c.concurrency → c.transferQueue = []
  once : (c.starts.map (·.task)).Nodup
  limited : ∀ start ∈ c.starts, start.running < start.limit

end Controller

end Mxterm.TransferQueue
