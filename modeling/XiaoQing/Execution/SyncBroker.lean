import XiaoQing.Framework.Dict
import XiaoQing.Framework.Run
import Mathlib.Data.Finset.Basic

namespace XiaoQing.Execution

open Framework

/-- A lane is the gate of a plugin generation, or the fallback lane of ungated callers. -/
abbrev Lane := Option Nat

/-- How a callback or an executor submission raises: an `Exception`, another `BaseException`,
or `asyncio.CancelledError`. -/
inductive Failure
  | exception
  | fatal
  | cancelledError
  deriving DecidableEq

/-- `isinstance(error, BaseException) and not isinstance(error, Exception)`. -/
def Failure.isFatal : Failure → Bool
  | .exception => false
  | .fatal => true
  | .cancelledError => true

/-- `outcome_kind` together with `outcome`. -/
inductive Outcome
  | result
  | error (f : Failure)
  | cancelled
  deriving DecidableEq

inductive JobState
  | queued
  | running
  | terminal
  | cancelled
  deriving DecidableEq

/-- `actual_future`: not submitted, waiting for a thread, executing, or done. -/
inductive WorkerFuture
  | absent
  | pending
  | executing
  | done (o : Outcome)
  deriving DecidableEq

/-- The `completion` future on the owner loop. -/
inductive Completion
  | pending
  | done (o : Outcome)
  deriving DecidableEq

/-- `_SyncCallbackJob`. `spawnError` tells how the executor refuses the job, if it does.
`deliverQueued` and `cancelQueued` are callbacks the owner loop has accepted; `path`, `starts`
and `deferrals` only observe. -/
structure Job where
  lane : Lane
  loop : Nat
  allowClosed : Bool
  spawnError : Option Failure
  state : JobState
  actualFuture : WorkerFuture
  completion : Completion
  detached : Bool
  delivered : Bool
  outcome : Option Outcome
  fatalDeferred : Bool
  deliveryPending : Bool
  deliverQueued : Bool
  cancelQueued : Bool
  path : List JobState
  starts : Nat
  deferrals : Nat

namespace Job

def new (lane : Lane) (loop : Nat) (allowClosed : Bool) (spawnError : Option Failure) : Job :=
  ⟨lane,loop,allowClosed,spawnError,.queued,.absent,.pending,false,false,none,false,false,false,
    false,[.queued],0,0⟩

def enter (j : Job) (s : JobState) : Job := {j with state := s,path := j.path++[s]}

/-- A queued job is cancelled; the loop cancels `completion` unless it is closed. -/
def drop (j : Job) (loopClosed : Bool) : Job :=
  {j.enter .cancelled with detached := true,cancelQueued := j.cancelQueued || !loopClosed}

def fatalError (j : Job) : Bool :=
  match j.lane,j.outcome with
  | some _,some (.error f) => f.isFatal
  | _,_ => false

/-- `_defer_fatal_locked` followed by `_defer_fatal_error` on the gate. -/
def deferFatal (j : Job) : Job :=
  if j.fatalError=true ∧ j.fatalDeferred=false
  then {j with fatalDeferred := true,deferrals := j.deferrals+1} else j

/-- What `_schedule_delivery_locked` writes to the job. -/
def scheduleDelivery (j : Job) (loopClosed : Bool) : Job :=
  if j.detached then {j with delivered := true}.deferFatal
  else if loopClosed then {{j with detached := true}.deferFatal with delivered := true}
  else {j with deliveryPending := true,deliverQueued := true}

/-- What `_deliver` writes to the job. -/
def deliver (j : Job) : Job :=
  let j := {j with delivered := true,deliveryPending := false}
  if j.detached then j.deferFatal
  else match j.completion,j.outcome with
    | .pending,some o => {j with completion := .done o}
    | _,_ => j

end Job

/-- The limits of a `PluginExecutionPolicy` that the broker reads. -/
structure Policy where
  syncParallelLimit : Nat
  syncQueueLimit : Nat

/-- `PluginSyncBroker`. Jobs are numbered in submission order; `notices` are the gates whose
`set_policy` has assigned a policy and not yet called `notify_policy_change`. -/
structure Broker where
  maxWorkers : Nat
  globalQueueLimit : Nat
  next : Nat
  jobs : Nat → Job
  laneQueues : AList (fun _ : Lane => List Nat)
  readyLanes : List Lane
  readyLaneSet : Finset Lane
  runningByLane : AList (fun _ : Lane => Nat)
  queuedCount : Int
  runningCount : Int
  pendingDeliveryCount : Int
  closed : Bool
  executor : Bool
  executorShutdown : Bool
  policies : Nat → Policy
  gateClosed : Nat → Bool
  loopClosed : Nat → Bool
  notices : List Nat

namespace Broker

def queueOf (b : Broker) (l : Lane) : List Nat := lookupD b.laneQueues l []

def runningOf (b : Broker) (l : Lane) : Nat := lookupD b.runningByLane l 0

def setJob (b : Broker) (i : Nat) (j : Job) : Broker :=
  {b with jobs := Function.update b.jobs i j}

def setQueue (b : Broker) (l : Lane) (q : List Nat) : Broker :=
  {b with laneQueues := b.laneQueues.insert l q}

def takeQueued (b : Broker) (l : Lane) (q : List Nat) : Broker :=
  {b.setQueue l q with queuedCount := b.queuedCount-1}

/-- `_lane_running_limit_locked`. -/
def laneRunningLimit (b : Broker) : Lane → Nat
  | some g =>
    let crossPluginCap := if 1<b.maxWorkers then b.maxWorkers-1 else 1
    max 1 (min (b.policies g).syncParallelLimit crossPluginCap)
  | none => b.maxWorkers

/-- `_lane_queue_limit_locked`. -/
def laneQueueLimit (b : Broker) : Lane → Nat
  | some g => (b.policies g).syncQueueLimit
  | none => b.globalQueueLimit

/-- `_queue_lane_locked`. -/
def queueLane (b : Broker) (l : Lane) : Broker :=
  if b.queueOf l=[] ∨ l∈b.readyLaneSet then b
  else if b.laneRunningLimit l≤b.runningOf l then b
  else {b with readyLanes := b.readyLanes++[l],readyLaneSet := insert l b.readyLaneSet}

/-- `_drop_stale_ready_lane_locked`. -/
def dropStaleReadyLane (b : Broker) (l : Lane) : Broker :=
  if l∈b.readyLaneSet then
    {b with
      readyLaneSet := b.readyLaneSet.erase l
      readyLanes := b.readyLanes.filter (fun k => k≠l)}
  else b

def popLane (b : Broker) (l : Lane) : Broker := {b with laneQueues := b.laneQueues.erase l}

/-- A lane goes back to the ready queue, or is forgotten when nothing of it is left. -/
def requeueLane (b : Broker) (l : Lane) : Broker :=
  if b.queueOf l≠[] then b.queueLane l
  else if b.runningOf l=0 then b.popLane l
  else b

/-- `_release_running_slot_locked`. -/
def releaseRunningSlot (b : Broker) (l : Lane) : Broker :=
  let laneRunning := b.runningOf l
  {b with
    runningCount := b.runningCount-1
    runningByLane := if laneRunning=1 then b.runningByLane.erase l
      else b.runningByLane.insert l (laneRunning-1)}

/-- `_take_drained_executor_locked`. -/
def takeDrainedExecutor (b : Broker) : Broker :=
  if b.closed=true ∧ b.queuedCount=0 ∧ b.runningCount=0 ∧ b.pendingDeliveryCount=0 ∧
      b.executorShutdown=false ∧ b.executor=true
  then {b with executor := false,executorShutdown := true} else b

/-- `_schedule_delivery_locked`. -/
def scheduleDelivery (b : Broker) (i : Nat) : Broker :=
  let j := b.jobs i
  let b' := b.setJob i (j.scheduleDelivery (b.loopClosed j.loop))
  if j.detached=true ∨ b.loopClosed j.loop=true then b'
  else {b' with pendingDeliveryCount := b.pendingDeliveryCount+1}

def takeSlot (b : Broker) (l : Lane) : Broker :=
  {b with
    runningCount := b.runningCount+1
    runningByLane := b.runningByLane.insert l (b.runningOf l+1)}

/-- `_ensure_executor_locked`, which raises after the final shutdown. -/
def ensureExecutor (b : Broker) : Broker :=
  if b.executor=false ∧ b.executorShutdown=true then b else {b with executor := true}

def spawnFailure (b : Broker) (j : Job) : Option Failure :=
  if b.executor=false ∧ b.executorShutdown=true then some .exception else j.spawnError

def startJob (b : Broker) (l : Lane) (i : Nat) : Broker :=
  let j := (b.jobs i).enter .running
  let failure := b.spawnFailure j
  let b := (b.takeSlot l).ensureExecutor
  match failure with
  | some f =>
    let b := (b.releaseRunningSlot l).setJob i {j.enter .terminal with outcome := some (.error f)}
    ((b.scheduleDelivery i).requeueLane l).queueLane l
  | none => (b.setJob i {j with actualFuture := .pending}).requeueLane l

def dropJob (b : Broker) (i : Nat) : Broker :=
  b.setJob i ((b.jobs i).drop (b.loopClosed (b.jobs i).loop))

/-- One turn of `_dispatch_locked`; `l` has just left the ready queue. -/
def dispatchLane (b : Broker) (l : Lane) : Broker :=
  match b.queueOf l with
  | [] => b.popLane l
  | i::queue =>
    if b.laneRunningLimit l≤b.runningOf l then b
    else
      let b := b.takeQueued l queue
      let j := b.jobs i
      match j.lane with
      | some g =>
        if b.gateClosed g=true ∧ j.allowClosed=false
        then (b.dropJob i).requeueLane l
        else b.startJob l i
      | none => b.startJob l i

def popReady (b : Broker) (l : Lane) (rest : List Lane) : Broker :=
  {b with readyLanes := rest,readyLaneSet := b.readyLaneSet.erase l}

/-- The loop of `_dispatch_locked`. -/
def dispatchLoop : Nat → Broker → Broker
  | 0,b => b
  | n+1,b =>
    if b.runningCount<b.maxWorkers then
      match b.readyLanes with
      | [] => b
      | l::rest => dispatchLoop n ((b.popReady l rest).dispatchLane l)
    else b

/-- Every turn shortens the queues or the ready list, so this many turns are enough. -/
def dispatchFuel (b : Broker) : Nat := total List.length b.laneQueues+b.readyLanes.length

/-- `_dispatch_locked`. -/
def dispatch (b : Broker) : Broker := dispatchLoop b.dispatchFuel b

def configure (b : Broker) (globalQueueLimit : Nat) : Broker :=
  {b with globalQueueLimit := globalQueueLimit}.dispatch

def reconsiderLane (b : Broker) (l : Lane) : Broker :=
  if (b.laneQueues.lookup l).isSome then b.queueLane l else b

def notifyPolicyChange (b : Broker) (g : Nat) : Broker := (b.reconsiderLane (some g)).dispatch

def dropJobs (b : Broker) (l : List Nat) : Broker :=
  {l.foldl dropJob b with queuedCount := b.queuedCount-l.length}

def closeGateQueue (b : Broker) (g : Nat) : Broker :=
  let queue := b.queueOf (some g)
  let retained := queue.filter (fun i => (b.jobs i).allowClosed)
  let b := (b.dropJobs (queue.filter (fun i => !(b.jobs i).allowClosed))).dropStaleReadyLane (some g)
  if retained≠[] then (b.setQueue (some g) retained).queueLane (some g)
  else if b.runningOf (some g)=0 then b.popLane (some g)
  else b.setQueue (some g) retained

def closeGateAdmission (b : Broker) (g : Nat) : Broker :=
  if b.queueOf (some g)=[] then b else (b.closeGateQueue g).dispatch

/-- The arguments of `submit`, and how the executor will treat the job. -/
structure Request where
  lane : Lane
  loop : Nat
  allowClosed : Bool
  spawnError : Option Failure

def immediate (b : Broker) (l : Lane) : Bool :=
  b.runningCount<b.maxWorkers && b.runningOf l<b.laneRunningLimit l && b.queueOf l=[] &&
    b.readyLanes=[]

def enqueue (b : Broker) (r : Request) : Broker :=
  {(b.setJob b.next (.new r.lane r.loop r.allowClosed r.spawnError)).setQueue r.lane
    (b.queueOf r.lane++[b.next]) with next := b.next+1,queuedCount := b.queuedCount+1}

/-- `submit`; the flag is false when it raises. -/
def submit (b : Broker) (r : Request) : Broker × Bool :=
  if b.closed then (b,false)
  else
    let laneQueue := b.queueOf r.lane
    let refused := if laneQueue=[] ∧ b.runningOf r.lane=0 then b.popLane r.lane
      else b.setQueue r.lane laneQueue
    if b.immediate r.lane=false ∧ b.laneQueueLimit r.lane≤laneQueue.length then (refused,false)
    else if b.immediate r.lane=false ∧ (b.globalQueueLimit : Int)≤b.queuedCount then (refused,false)
    else (((b.enqueue r).queueLane r.lane).dispatch,true)

/-- `_complete_from_worker` up to its dispatch. -/
def finishJob (b : Broker) (i : Nat) (o : Outcome) : Broker :=
  let j := b.jobs i
  let b := (b.setJob i {j.enter .terminal with outcome := some o}).releaseRunningSlot j.lane
  let b := b.scheduleDelivery i
  if b.queueOf j.lane≠[] then b.queueLane j.lane else b.popLane j.lane

def completeFromWorker (b : Broker) (i : Nat) (o : Outcome) : Broker :=
  if (b.jobs i).state≠.running then b else (b.finishJob i o).dispatch.takeDrainedExecutor

def deliver (b : Broker) (i : Nat) : Broker :=
  let j := b.jobs i
  let b := b.setJob i {j with deliverQueued := false}
  if j.delivered then b
  else
    let b' := b.setJob i {j.deliver with deliverQueued := false}
    (if j.deliveryPending then
      {b' with pendingDeliveryCount := max 0 (b.pendingDeliveryCount-1)}
    else b').takeDrainedExecutor

/-- `completion.cancel()` unless it is done. -/
def cancelCompletion (j : Job) : Job :=
  match j.completion with
  | .pending => {j with completion := .done .cancelled}
  | .done _ => j

def removeQueued (b : Broker) (i : Nat) : Broker :=
  let j := b.jobs i
  let queue := b.queueOf j.lane
  let b := if i∈queue then b.takeQueued j.lane (queue.erase i) else b
  let b := b.setJob i (cancelCompletion {j.enter .cancelled with detached := true})
  (b.dropStaleReadyLane j.lane).requeueLane j.lane

/-- The queued case of `cancel_or_detach`. -/
def cancelQueuedJob (b : Broker) (i : Nat) : Broker := (b.removeQueued i).dispatch

/-- The end of `cancel_or_detach` for a job whose outcome is there. -/
def detachTerminal (b : Broker) (i : Nat) : Broker :=
  let j := (b.jobs i).deferFatal
  if j.delivered=false ∧ j.deliveryPending=true then
    ({b.setJob i (cancelCompletion {j with delivered := true,deliveryPending := false}) with
      pendingDeliveryCount := max 0 (b.pendingDeliveryCount-1)}).takeDrainedExecutor
  else (b.setJob i (cancelCompletion j)).takeDrainedExecutor

/-- `future.cancel()`: a future no thread has taken is done at once, and so are its callbacks. -/
def cancelFuture (b : Broker) (i : Nat) : Broker :=
  match (b.jobs i).actualFuture with
  | .pending =>
    (b.setJob i {b.jobs i with actualFuture := .done .cancelled}).completeFromWorker i .cancelled
  | _ => b

def detachJob (b : Broker) (i : Nat) : Broker :=
  (b.setJob i {b.jobs i with detached := true}).cancelFuture i

def cancelOrDetach (b : Broker) (i : Nat) : Broker :=
  if (b.jobs i).state=.queued then b.cancelQueuedJob i
  else if ((b.detachJob i).jobs i).state=.terminal then (b.detachJob i).detachTerminal i
  else b.detachJob i

def dropQueued (b : Broker) (i : Nat) : Broker :=
  if (b.jobs i).state=.queued then b.dropJob i else b

/-- `close` up to its first `await`. -/
def close (b : Broker) : Broker :=
  {(b.laneQueues.entries.flatMap (fun e => e.2)).foldl dropQueued b with
    closed := true
    laneQueues := ∅
    readyLanes := []
    readyLaneSet := ∅
    queuedCount := 0}

structure Initial (b : Broker) : Prop where
  workers : 1≤b.maxWorkers
  limit : 1≤b.globalQueueLimit
  next : b.next=0
  laneQueues : b.laneQueues=∅
  readyLanes : b.readyLanes=[]
  readyLaneSet : b.readyLaneSet=∅
  runningByLane : b.runningByLane=∅
  queuedCount : b.queuedCount=0
  runningCount : b.runningCount=0
  pendingDeliveryCount : b.pendingDeliveryCount=0
  closed : b.closed=false
  notices : b.notices=[]

/-- `__init__`, with one policy for every gate. -/
def new (maxWorkers globalQueueLimit : Nat) (p : Policy) : Broker :=
  ⟨maxWorkers,globalQueueLimit,0,fun _ => .new none 0 false none,∅,[],∅,∅,0,0,0,false,false,false,
    fun _ => p,fun _ => false,fun _ => false,[]⟩

theorem new_initial (m n : Nat) (p : Policy) (hm : 1 ≤ m) (hn : 1≤n) : Initial (new m n p) :=
  ⟨hm,hn,rfl,rfl,rfl,rfl,rfl,rfl,rfl,rfl,rfl,rfl⟩

end Broker

open Broker

/-- The critical sections of the broker in the order the lock admits them, and what happens
around it: threads, loops, policies and gates. -/
inductive BrokerAct
  | submit (r : Request)
  | dispatch
  | workerStart (i : Nat)
  | workerFinish (i : Nat) (o : Outcome)
  | complete (i : Nat)
  | deliver (i : Nat)
  | runCancel (i : Nat)
  | cancelOrDetach (i : Nat)
  | closeGateAdmission (g : Nat)
  | configure (limit : Nat)
  | assignPolicy (g : Nat) (p : Policy)
  | notifyPolicyChange (g : Nat)
  | setGateClosed (g : Nat) (closed : Bool)
  | close
  | closePoll
  | closeLoop (loop : Nat)

/-- One critical section; `none` when it is not enabled. -/
def brokerStep (b : Broker) : BrokerAct → Option Broker
  | .submit r => some (b.submit r).1
  | .dispatch => some b.dispatch
  | .workerStart i =>
    let j := b.jobs i
    if i<b.next ∧ j.actualFuture=.pending
    then some (b.setJob i {j with actualFuture := .executing,starts := j.starts+1}) else none
  | .workerFinish i o =>
    let j := b.jobs i
    if i<b.next ∧ j.actualFuture=.executing ∧ o≠.cancelled
    then some (b.setJob i {j with actualFuture := .done o}) else none
  | .complete i =>
    match (b.jobs i).actualFuture with
    | .done o => if i<b.next then some (b.completeFromWorker i o) else none
    | _ => none
  | .deliver i =>
    let j := b.jobs i
    if i<b.next ∧ j.deliverQueued=true ∧ b.loopClosed j.loop=false
    then some (b.deliver i) else none
  | .runCancel i =>
    let j := b.jobs i
    if i<b.next ∧ j.cancelQueued=true ∧ b.loopClosed j.loop=false
    then some (b.setJob i {cancelCompletion j with cancelQueued := false}) else none
  | .cancelOrDetach i => if i<b.next then some (b.cancelOrDetach i) else none
  | .closeGateAdmission g => some (b.closeGateAdmission g)
  | .configure limit => if 1≤limit ∧ limit≤100000 then some (b.configure limit) else none
  | .assignPolicy g p =>
    some {b with policies := Function.update b.policies g p,notices := g::b.notices}
  | .notifyPolicyChange g =>
    some ({b with notices := b.notices.erase g}.notifyPolicyChange g)
  | .setGateClosed g closed =>
    some {b with gateClosed := Function.update b.gateClosed g closed}
  | .close => some b.close
  | .closePoll => some b.takeDrainedExecutor
  | .closeLoop loop => some {b with loopClosed := Function.update b.loopClosed loop true}

end XiaoQing.Execution
