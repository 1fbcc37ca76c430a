import XiaoQing.Framework.Run
import XiaoQing.Framework.Table

namespace XiaoQing.Gate

open Framework

/-- The limits of a `PluginExecutionPolicy` that the gate reads; `timed` tells whether
`timeout_seconds` is set. -/
structure Policy where
  timed : Bool
  parallelLimit : Nat
  admissionQueueLimit : Nat
  failureThreshold : Nat
  cooldownSeconds : Nat

/-- How a child ends; `refused` is `PluginExecutionClosed` or `PluginExecutionUnavailable`, `fatal`
is `PluginCallbackFatalError`. -/
inductive Ending
  | result
  | exception
  | refused
  | timeoutError
  | fatal
  | cancelled
  deriving DecidableEq

/-- The task that runs the operation of a call. -/
inductive Child
  | absent
  | running
  | done (e : Ending)
  deriving DecidableEq

/-- The `ready` future of a waiter. -/
inductive Ready
  | pending
  | granted
  | closed
  deriving DecidableEq

/-- Where a `run` stands: behind its waiter, behind its child, in the `sleep(0)` of the timeout
handler or of the cancellation handler, or returned. -/
inductive Phase
  | waiting
  | running
  | yielding (timedOut : Bool)
  | ended
  deriving DecidableEq

/-- How a `run` returned. -/
inductive Result
  | returned
  | failed
  | refused
  | timedOut
  | cancelled
  | fatal
  deriving DecidableEq

/-- One `run`: its waiter, its local `granted`, its child, and the child's place in
`_operation_tasks` and `_detached_operation_tasks`. -/
structure Call where
  allowClosed : Bool
  timed : Bool
  phase : Phase
  ready : Ready
  waiterGranted : Bool
  granted : Bool
  child : Child
  tracked : Bool
  detached : Bool
  result : Option Result

def Call.new (allowClosed timed granted : Bool) : Call :=
  ⟨allowClosed,timed,.waiting,.pending,false,granted,.absent,false,false,none⟩

/-- `PluginExecutionGate`. Calls are numbered as they are let in and stand for their errors in
`deferredFatalErrors`; `surfaced`, `grantLog` and `stale` only observe: which errors were consumed,
who got a slot, and whether a policy was set since waiters were last granted. -/
structure ExecutionGate where
  sequential : Bool
  policy : Policy
  next : Nat
  calls : Nat → Call
  running : Int
  waiters : List Nat
  closed : Bool
  held : Bool
  consecutiveFailures : Nat
  circuitOpenUntil : Nat
  poisonedByTimeout : Bool
  poisonedBySync : Bool
  now : Nat
  deferredFatalErrors : List Nat
  surfaced : List Nat
  reconciles : Nat
  grantLog : List Nat
  stale : Bool

namespace ExecutionGate

def setCall (g : ExecutionGate) (i : Nat) (c : Call) : ExecutionGate :=
  {g with calls := Function.update g.calls i c}

/-- `_execution_capacity`. -/
def capacity (g : ExecutionGate) : Nat := if g.sequential then 1 else g.policy.parallelLimit

def admittedOperations (g : ExecutionGate) : Int := g.running+g.waiters.length

/-- `_ensure_available_locked`; false when it raises. -/
def available (g : ExecutionGate) (allowClosed : Bool) : Bool :=
  if g.closed=true ∧ allowClosed=false then false
  else if allowClosed then true
  else !(g.poisonedByTimeout || g.poisonedBySync || g.now<g.circuitOpenUntil)

def closeWaiter (g : ExecutionGate) (i : Nat) : ExecutionGate :=
  g.setCall i {g.calls i with ready := .closed}

def grant (g : ExecutionGate) (i : Nat) : ExecutionGate :=
  {g.setCall i {g.calls i with ready := .granted,waiterGranted := true} with
    running := g.running+1
    grantLog := g.grantLog++[i]}

/-- The loop of `_grant_waiters_locked`. -/
def grantLoop : List Nat → ExecutionGate → ExecutionGate
  | [],g => {g with waiters := []}
  | i::rest,g =>
    if g.running<g.capacity then
      if (g.calls i).ready≠.pending then grantLoop rest g
      else if g.closed=true ∧ (g.calls i).allowClosed=false then grantLoop rest (g.closeWaiter i)
      else grantLoop rest (g.grant i)
    else {g with waiters := i::rest}

/-- `_grant_waiters_locked`. -/
def grantWaiters (g : ExecutionGate) : ExecutionGate :=
  grantLoop g.waiters {g with stale := false}

def recordSuccess (g : ExecutionGate) : ExecutionGate :=
  {g with
    consecutiveFailures := 0
    circuitOpenUntil := if g.poisonedByTimeout || g.poisonedBySync then g.circuitOpenUntil else 0}

def recordFailure (g : ExecutionGate) (forceOpen : Bool) : ExecutionGate :=
  {g with
    consecutiveFailures := g.consecutiveFailures+1
    circuitOpenUntil :=
      if forceOpen=true ∨ g.policy.failureThreshold≤g.consecutiveFailures+1
      then g.now+g.policy.cooldownSeconds else g.circuitOpenUntil}

def release (g : ExecutionGate) : ExecutionGate := {g with running := max 0 (g.running-1)}

/-- The `finally` of `run`. -/
def finishRun (g : ExecutionGate) (i : Nat) (r : Result) : ExecutionGate :=
  let c := g.calls i
  let g := if c.granted then g.release else g
  (g.setCall i {c with phase := .ended,result := some r}).grantWaiters

def removeOrReleaseWaiter (g : ExecutionGate) (i : Nat) : ExecutionGate :=
  let c := g.calls i
  let g := if c.waiterGranted then g.release.setCall i {c with waiterGranted := false}
    else {g with waiters := g.waiters.erase i}
  g.grantWaiters

/-- The second availability check of `run`, and `_run_bounded` up to its first `await`. -/
def startRun (g : ExecutionGate) (i : Nat) : ExecutionGate :=
  let c := g.calls i
  if g.available c.allowClosed
  then g.setCall i {c with phase := .running,child := .running,tracked := true}
  else g.finishRun i .refused

/-- `run` up to its first `await`; a call that is refused leaves no trace. -/
def run (g : ExecutionGate) (allowClosed : Bool) : ExecutionGate :=
  let i := g.next
  if g.available allowClosed=false then g
  else if (g.capacity+g.policy.admissionQueueLimit : Int)≤g.admittedOperations then g
  else if g.running<g.capacity ∧ g.waiters=[] then
    {g.setCall i (.new allowClosed g.policy.timed true) with
      next := g.next+1
      running := g.running+1
      grantLog := g.grantLog++[i]}.startRun i
  else
    {g.setCall i (.new allowClosed g.policy.timed false) with
      next := g.next+1
      waiters := g.waiters++[i]}

def resumeWaiter (g : ExecutionGate) (i : Nat) : Option ExecutionGate :=
  let c := g.calls i
  match c.ready with
  | .pending => none
  | .granted => some ((g.setCall i {c with granted := c.waiterGranted}).startRun i)
  | .closed => some ((g.removeOrReleaseWaiter i).finishRun i .refused)

/-- Both handlers of `_run_bounded` up to `sleep(0)`. -/
def detachChild (g : ExecutionGate) (i : Nat) (timedOut : Bool) : ExecutionGate :=
  g.setCall i {g.calls i with phase := .yielding timedOut,detached := true}

def resumeCall (g : ExecutionGate) (i : Nat) : Ending → ExecutionGate
  | .result => g.recordSuccess.finishRun i .returned
  | .exception => (g.recordFailure false).finishRun i .failed
  | .refused => g.finishRun i .refused
  | .fatal => (g.recordFailure false).finishRun i .fatal
  | .timeoutError => (g.recordFailure true).detachChild i true
  | .cancelled => g.detachChild i false

def markUnfinishedChild (g : ExecutionGate) (i : Nat) : ExecutionGate :=
  if (g.calls i).child=.running then {g with poisonedByTimeout := true} else g

def Call.quarantined (c : Call) : Bool := c.tracked && c.detached && c.child=.running

/-- `_discard_operation_task` for a child that is done. -/
def discardOperationTask (g : ExecutionGate) (i : Nat) : ExecutionGate :=
  let c := g.calls i
  let g := {g.setCall i {c with tracked := false,detached := false} with
    deferredFatalErrors :=
      if c.detached=true ∧ c.child=.done .fatal then g.deferredFatalErrors++[i]
      else g.deferredFatalErrors}
  if (List.range g.next).any (fun k => Call.quarantined (g.calls k)) then g
  else {g with poisonedByTimeout := false}

/-- The section of `close` that refuses waiters. -/
def refuseWaiters (g : ExecutionGate) : ExecutionGate :=
  g.waiters.foldl (fun g i =>
    if (g.calls i).allowClosed=false ∧ (g.calls i).ready=.pending then g.closeWaiter i else g) g

structure Initial (g : ExecutionGate) : Prop where
  next : g.next=0
  running : g.running=0
  waiters : g.waiters=[]
  poisonedByTimeout : g.poisonedByTimeout=false
  deferredFatalErrors : g.deferredFatalErrors=[]
  grantLog : g.grantLog=[]
  stale : g.stale=false

/-- `__init__`. -/
def new (sequential : Bool) (p : Policy) : ExecutionGate :=
  ⟨sequential,p,0,fun _ => .new false false false,0,[],false,false,0,0,false,false,0,[],[],0,[],false⟩

theorem new_initial (sequential : Bool) (p : Policy) : Initial (new sequential p) :=
  ⟨rfl,rfl,rfl,rfl,rfl,rfl,rfl⟩

end ExecutionGate

open ExecutionGate

/-- What happens at a gate between two `await`s. Cancellations and deadlines may strike at every
`await`; a child may end in any way. -/
inductive GateAct
  | run (allowClosed : Bool)
  | waiterResume (i : Nat)
  | waiterTimeout (i : Nat)
  | waiterCancel (i : Nat)
  | childEnd (i : Nat) (e : Ending)
  | discard (i : Nat)
  | callResume (i : Nat)
  | callTimeout (i : Nat)
  | callCancel (i : Nat)
  | yieldResume (i : Nat)
  | yieldCancel (i : Nat)
  | setPolicy (p : Policy) (onLoop : Bool)
  | reconcile
  | closeAdmission
  | holdForPublication
  | releasePublicationHold
  | refuseWaiters
  | consumeDeferredFatalError
  | syncPoison (poisoned : Bool)
  | tick

/-- One step of the gate; `none` when it is not enabled. -/
def gateStep (g : ExecutionGate) : GateAct → Option ExecutionGate
  | .run allowClosed => some (g.run allowClosed)
  | .waiterResume i =>
    if i<g.next ∧ (g.calls i).phase=.waiting then g.resumeWaiter i else none
  | .waiterTimeout i =>
    if i<g.next ∧ (g.calls i).phase=.waiting ∧ (g.calls i).timed=true
    then some (((g.removeOrReleaseWaiter i).recordFailure true).finishRun i .timedOut) else none
  | .waiterCancel i =>
    if i<g.next ∧ (g.calls i).phase=.waiting
    then some ((g.removeOrReleaseWaiter i).finishRun i .cancelled) else none
  | .childEnd i e =>
    if i<g.next ∧ (g.calls i).child=.running
    then some (g.setCall i {g.calls i with child := .done e}) else none
  | .discard i =>
    match (g.calls i).child with
    | .done _ =>
      if i<g.next ∧ (g.calls i).tracked=true then some (g.discardOperationTask i) else none
    | _ => none
  | .callResume i =>
    match (g.calls i).child with
    | .done e =>
      if i<g.next ∧ (g.calls i).phase=.running ∧ (g.calls i).tracked=false
      then some (g.resumeCall i e) else none
    | _ => none
  | .callTimeout i =>
    if i<g.next ∧ (g.calls i).phase=.running ∧ (g.calls i).timed=true
    then some ((g.recordFailure true).detachChild i true) else none
  | .callCancel i =>
    if i<g.next ∧ (g.calls i).phase=.running then some (g.detachChild i false) else none
  | .yieldResume i =>
    match (g.calls i).phase with
    | .yielding timedOut =>
      if i<g.next
      then some ((g.markUnfinishedChild i).finishRun i (if timedOut then .timedOut else .cancelled))
      else none
    | _ => none
  | .yieldCancel i =>
    match (g.calls i).phase with
    | .yielding _ => if i<g.next then some (g.finishRun i .cancelled) else none
    | _ => none
  | .setPolicy p onLoop =>
    if 1≤p.parallelLimit
    then some {g with
      policy := p
      stale := true
      reconciles := if onLoop then g.reconciles+1 else g.reconciles}
    else none
  | .reconcile =>
    if 0<g.reconciles then some {g with reconciles := g.reconciles-1}.grantWaiters else none
  | .closeAdmission => some {g with closed := true,held := false}
  | .holdForPublication => if g.closed then none else some {g with closed := true,held := true}
  | .releasePublicationHold => if g.held then some {g with closed := false,held := false} else none
  | .refuseWaiters => some g.refuseWaiters
  | .consumeDeferredFatalError =>
    some {g with
      deferredFatalErrors := g.deferredFatalErrors.tail
      surfaced := g.surfaced++g.deferredFatalErrors.take 1}
  | .syncPoison poisoned => some {g with poisonedBySync := poisoned}
  | .tick => some {g with now := g.now+1}

end XiaoQing.Gate
