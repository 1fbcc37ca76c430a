import XiaoQing.Delivery.SendAction
import XiaoQing.Framework.Run
import Mathlib.Data.List.AList
import Mathlib.Logic.Function.Basic

namespace XiaoQing.Inbound

open Delivery

structure Payload where
  userId : Option Int
  groupId : Option Int

/-- Lane keys, one constructor for each of the three key formats. -/
inductive EventKey
  | event (sequence : Nat)
  | user (userId : Int)
  | group (groupId userId : Int)
  deriving DecidableEq

def eventKey (p : Payload) (sequence : Nat) : EventKey :=
  match p.userId,p.groupId with
  | none,_ => .event sequence
  | some u,none => .user u
  | some u,some g => .group g u

/-- One action of a reply; `receipt` names the ticket's receipt attached to it. -/
structure OutAction where
  receipt : Option Nat
  deriving DecidableEq

/-- How a handler task ends: an action list, a list with a non-object in it, an error
(fatal ones are wrapped), or cancelled. -/
inductive HandlerOutcome
  | actions (l : List OutAction)
  | malformed
  | error
  | cancelled
  deriving DecidableEq

/-- The ticket's result future. -/
inductive ResultFuture
  | pending
  | actions (l : List OutAction)
  | failed
  | cancelled
  deriving DecidableEq

/-- `operation_task`: absent, running (with a cancellation requested or not) or done and not
yet seen by its worker. -/
inductive Operation
  | absent
  | running (cancelRequested : Bool)
  | done (outcome : HandlerOutcome)
  deriving DecidableEq

/-- The transport side of a ticket. `waiting true` is a waiter whose cancellation arrived
after the result was set and before it resumed. -/
inductive Consumer
  | unclaimed
  | waiting (mustCancel : Bool)
  | handed
  | ended
  | discarded
  deriving DecidableEq

/-- `_InboundEventTicket`; `returned`, `handovers` and `drops` only observe: the action list
the handler returned, how often it was handed to a waiter and how often it was settled. -/
structure Ticket where
  sequence : Nat
  key : EventKey
  guarded : Bool
  started : Bool
  finished : Bool
  result : ResultFuture
  operation : Operation
  consumer : Consumer
  returned : Option (List OutAction)
  handovers : Nat
  drops : Nat

def Ticket.finishOperation (k : Ticket) (o : HandlerOutcome) : Ticket :=
  {k with
    operation := .done o
    returned := match o with
      | .actions l => some l
      | _ => k.returned}

/-- `result.cancel()` unless the result is there. -/
def Ticket.cancelResult (k : Ticket) : Ticket :=
  if k.result=.pending then {k with result := .cancelled} else k

/-- `_InboundEventLane`. -/
structure Lane where
  pending : List Nat
  running : Option Nat
  ready : Bool

def Lane.empty : Lane := ⟨[],none,false⟩

/-- A worker task that has not ended; `current` is the ticket whose operation it awaits. -/
structure Worker where
  current : Option Nat
  cancelling : Bool
  mustCancel : Bool

def Worker.fresh : Worker := ⟨none,false,false⟩

/-- Constructor arguments of the dispatcher, and which receipt callbacks raise. -/
structure Config where
  maxWorkers : Int
  queueSize : Int
  allowLazyStart : Bool
  raises : Callback → Bool

def Config.workerLimit (c : Config) : Nat := max 1 c.maxWorkers.toNat

def Config.queueLimit (c : Config) : Nat := c.queueSize.toNat

def Config.capacity (c : Config) : Nat := c.workerLimit+c.queueLimit

/-- `_InboundEventDispatcher`. Tickets are numbered in admission order over the whole life
of the dispatcher; `startLog` lists them as they start. -/
structure Dispatcher where
  next : Nat
  tickets : Nat → Ticket
  lanes : AList (fun _ : EventKey => Lane)
  readyKeys : Option (List EventKey)
  workers : List Worker
  doneCallbacks : Nat
  sequence : Nat
  inflight : Int
  accepting : Bool
  startedOnce : Bool
  stopping : Bool
  stopActive : Bool
  settlements : List (Nat × List OutAction)
  receipts : Nat → Nat → DeliveryReceipt
  startLog : List Nat

namespace Dispatcher

def setTicket (d : Dispatcher) (t : Nat) (k : Ticket) : Dispatcher :=
  {d with tickets := Function.update d.tickets t k}

def setLane (d : Dispatcher) (k : EventKey) (lane : Lane) : Dispatcher :=
  {d with lanes := d.lanes.insert k lane}

/-- The lane of a key; `_lanes` drops idle lanes, so a missing one is empty. -/
def laneOf (d : Dispatcher) (k : EventKey) : Lane := (d.lanes.lookup k).getD .empty

def ready (d : Dispatcher) : List EventKey := d.readyKeys.getD []

def discardLaneIfIdle (d : Dispatcher) (k : EventKey) : Dispatcher :=
  let lane := d.laneOf k
  if lane.pending=[] ∧ lane.running=none ∧ lane.ready=false
  then {d with lanes := d.lanes.erase k} else d

def ensureWorkers (c : Config) (d : Dispatcher) : Dispatcher :=
  match d.readyKeys with
  | none => d
  | some ready =>
    let desired := min c.workerLimit (d.workers.length+ready.length)
    {d with workers := d.workers++List.replicate (desired-d.workers.length) .fresh}

/-- `_schedule_lane`; without a ready queue the source raises. -/
def scheduleLane (c : Config) (spawnWorker : Bool) (d : Dispatcher) (k : EventKey) :
    Dispatcher :=
  let lane := d.laneOf k
  if lane.ready=true ∨ lane.running≠none ∨ lane.pending=[] then d
  else match d.readyKeys with
    | none => d
    | some ready =>
      let d := {d.setLane k {lane with ready := true} with readyKeys := some (ready++[k])}
      if spawnWorker then d.ensureWorkers c else d

/-- `_settle_dropped`: the settlement task owns the list from here on. -/
def settleDropped (d : Dispatcher) (t : Nat) (l : List OutAction) : Dispatcher :=
  let k := d.tickets t
  let d := d.setTicket t {k with drops := k.drops+1}
  if l=[] then d else {d with settlements := d.settlements++[(t,l)]}

def startOnLoop (d : Dispatcher) : Dispatcher :=
  {d with
    readyKeys := some []
    lanes := ∅
    sequence := 0
    inflight := 0
    accepting := true
    startedOnce := true
    stopping := false}

def freshTicket (sequence : Nat) (key : EventKey) (guarded : Bool) : Ticket :=
  ⟨sequence,key,guarded,false,false,.pending,.absent,.unclaimed,none,0,0⟩

/-- The part of `admit` after the capacity check. -/
def enqueue (c : Config) (d : Dispatcher) (p : Payload) (guarded : Bool) : Dispatcher :=
  let t := d.next
  let sequence := d.sequence+1
  let key := eventKey p sequence
  let lane := d.laneOf key
  let d := {d.setTicket t (freshTicket sequence key guarded) with
    next := d.next+1
    sequence := sequence
    inflight := d.inflight+1}
  (d.setLane key {lane with pending := lane.pending++[t]}).scheduleLane c true key

/-- `admit`; `none` when it raises. -/
def admitEvent (c : Config) (d : Dispatcher) (p : Payload) (guarded : Bool) : Option Dispatcher :=
  if d.accepting=true then
    if d.inflight<c.capacity then some (d.enqueue c p guarded) else none
  else if c.allowLazyStart=true ∧ d.startedOnce=false ∧ d.stopping=false then
    if d.startOnLoop.inflight<c.capacity then some (d.startOnLoop.enqueue c p guarded) else none
  else none

def removePending (d : Dispatcher) (t : Nat) : Dispatcher :=
  let k := d.tickets t
  let lane := d.laneOf k.key
  let d := (d.setTicket t {k with finished := true}).setLane k.key
    {lane with pending := lane.pending.erase t}
  {d with inflight := d.inflight-1}

def cancel (d : Dispatcher) (t : Nat) : Dispatcher :=
  let k := d.tickets t
  if k.finished then d
  else
    let k := k.cancelResult
    let d := d.setTicket t k
    if k.started then
      match k.operation with
      | .running _ => d.setTicket t {k with operation := .running true}
      | _ => d
    else if t∈(d.laneOf k.key).pending then (d.removePending t).discardLaneIfIdle k.key
    else d

/-- The ticket is finished and its lane has no running ticket any more. -/
def releaseTicket (d : Dispatcher) (t : Nat) : Dispatcher :=
  let k := d.tickets t
  let lane := d.laneOf k.key
  let d := {d.setTicket t {k with operation := .absent,finished := true} with
    inflight := d.inflight-1}
  if lane.running=some t then d.setLane k.key {lane with running := none} else d

/-- The `finally` of `_execute_ticket`. -/
def finishTicket (c : Config) (d : Dispatcher) (t : Nat) : Dispatcher :=
  let key := (d.tickets t).key
  if (d.laneOf key).pending=[] then (d.releaseTicket t).discardLaneIfIdle key
  else (d.releaseTicket t).scheduleLane c false key

def setResult (d : Dispatcher) (t : Nat) (r : ResultFuture) : Dispatcher :=
  let k := d.tickets t
  if k.result=.pending then d.setTicket t {k with result := r} else d

def setWorker (d : Dispatcher) (w : Nat) (x : Worker) : Dispatcher :=
  {d with workers := d.workers.set w x}

def endWorker (d : Dispatcher) (w : Nat) : Dispatcher :=
  {d with workers := d.workers.eraseIdx w,doneCallbacks := d.doneCallbacks+1}

/-- How the authentication guard of a ticket answers. -/
inductive Guard
  | authorized
  | revoked
  | raised
  deriving DecidableEq

/-- A ticket popped from its lane that has been cancelled before it could start. -/
def skipTicket (c : Config) (d : Dispatcher) (key : EventKey) (t : Nat) (pending : List Nat) :
    Dispatcher :=
  let k := d.tickets t
  let d := if k.finished then d
    else {d.setTicket t {k with finished := true} with inflight := d.inflight-1}
  let d := d.discardLaneIfIdle key
  if pending=[] then d else d.scheduleLane c false key

def markRunning (d : Dispatcher) (key : EventKey) (t : Nat) (pending : List Nat) : Dispatcher :=
  let d := d.setLane key ⟨pending,some t,false⟩
  {d.setTicket t {d.tickets t with started := true} with startLog := d.startLog++[t]}

/-- `_execute_ticket` up to `await operation`. -/
def executeTicket (c : Config) (d : Dispatcher) (w : Nat) (x : Worker) (g : Guard) (t : Nat) :
    Dispatcher :=
  let k := d.tickets t
  if k.guarded=true ∧ g≠.authorized then (d.setResult t .failed).finishTicket c t
  else (d.setTicket t {k with operation := .running false}).setWorker w {x with current := some t}

/-- The body of `_worker_loop` for a lane that has just left the ready queue. -/
def serveLane (c : Config) (d : Dispatcher) (w : Nat) (x : Worker) (g : Guard) (key : EventKey)
    (lane : Lane) : Dispatcher :=
  match lane.running,lane.pending with
  | none,t::pending =>
    let d := d.setLane key {lane with pending := pending}
    if (d.tickets t).finished=true ∨ (d.tickets t).result=.cancelled
    then d.skipTicket c key t pending
    else (d.markRunning key t pending).executeTicket c w x g t
  | _,_ => d.discardLaneIfIdle key

/-- One iteration of `_worker_loop` up to the next `await`. -/
def workerLoop (c : Config) (d : Dispatcher) (w : Nat) (x : Worker) (g : Guard) : Dispatcher :=
  match d.readyKeys with
  | none => d.endWorker w
  | some [] => d.endWorker w
  | some (key::rest) =>
    let d := {d with readyKeys := some rest}
    match d.lanes.lookup key with
    | none => d
    | some lane =>
      let lane := {lane with ready := false}
      (d.setLane key lane).serveLane c w x g key lane

/-- `_execute_ticket` from the resumption of `await operation`; the flag tells whether the
worker goes on with its loop. -/
def resumeTicket (c : Config) (d : Dispatcher) (x : Worker) (t : Nat) (o : HandlerOutcome) :
    Dispatcher × Bool :=
  if x.mustCancel then ((d.setResult t .cancelled).finishTicket c t,false)
  else match o with
    | .cancelled => ((d.setResult t .cancelled).finishTicket c t,!x.cancelling)
    | .error => ((d.setResult t .failed).finishTicket c t,true)
    | .malformed => ((d.setResult t .failed).finishTicket c t,true)
    | .actions l =>
      if (d.tickets t).result=.pending then ((d.setResult t (.actions l)).finishTicket c t,true)
      else ((d.settleDropped t l).finishTicket c t,true)

/-- `Task.cancel()` on a worker: it reaches the awaited operation while that is running. -/
def cancelWorker (d : Dispatcher) (w : Nat) (x : Worker) : Dispatcher :=
  match x.current with
  | none => d.setWorker w {x with cancelling := true,mustCancel := true}
  | some t =>
    let k := d.tickets t
    match k.operation with
    | .running _ => (d.setTicket t {k with operation := .running true}).setWorker w
        {x with cancelling := true}
    | _ => d.setWorker w {x with cancelling := true,mustCancel := true}

def cancelWorkerAt (d : Dispatcher) (w : Nat) : Dispatcher :=
  match d.workers[w]? with
  | none => d
  | some x => d.cancelWorker w x

def takeResult (d : Dispatcher) (t : Nat) : Dispatcher :=
  let k := d.tickets t
  match k.result with
  | .actions _ => d.setTicket t {k with consumer := .handed,handovers := k.handovers+1}
  | .failed => d.setTicket t {k with consumer := .ended}
  | _ => (d.setTicket t {k with consumer := .ended}).cancel t

def discard (d : Dispatcher) (t : Nat) : Dispatcher :=
  let d := d.cancel t
  let k := d.tickets t
  let d := d.setTicket t {k with consumer := .discarded}
  match k.result with
  | .actions l => d.settleDropped t l
  | _ => d

/-- One queued ticket of `_abort_pending`. -/
def abortTicket (d : Dispatcher) (t : Nat) : Dispatcher :=
  if (d.tickets t).finished then d else (d.removePending t).setResult t .failed

/-- `_abort_pending` on one lane. -/
def abortLane (d : Dispatcher) (k : EventKey) : Dispatcher :=
  ((d.laneOf k).pending.foldl abortTicket d).discardLaneIfIdle k

def abortRunning (d : Dispatcher) (k : EventKey) : Dispatcher :=
  match (d.laneOf k).running with
  | none => d
  | some t =>
    let d := d.setResult t .failed
    let k := d.tickets t
    match k.operation with
    | .running _ => d.setTicket t {k with operation := .running true}
    | _ => d

/-- The first `TimeoutError` branch of `stop`. -/
def forceStop (d : Dispatcher) : Dispatcher :=
  let d := d.lanes.keys.foldl abortLane d
  d.lanes.keys.foldl abortRunning d

def finalizeStop (d : Dispatcher) : Dispatcher :=
  {d with readyKeys := none,lanes := ∅,workers := [],stopping := false,stopActive := false}

/-- One action of a settlement task: `resolve_action_handoff(action, delivered=False)`. -/
def settleAction (c : Config) (d : Dispatcher) (t : Nat) (a : OutAction) : Dispatcher :=
  match a.receipt with
  | none => d
  | some r =>
    let settled := (d.receipts t r).record (some false) c.raises
    {d with receipts := Function.update d.receipts t (Function.update (d.receipts t) r settled)}

def withSettlement (d : Dispatcher) (i t : Nat) (rest : List OutAction) : Dispatcher :=
  {d with settlements := d.settlements.set i (t,rest)}

/-- A dispatcher as constructed; the receipts that handlers will attach are still pending. -/
structure Initial (d : Dispatcher) : Prop where
  next : d.next=0
  lanes : d.lanes=∅
  readyKeys : d.readyKeys=none
  workers : d.workers=[]
  inflight : d.inflight=0
  accepting : d.accepting=false
  startedOnce : d.startedOnce=false
  stopping : d.stopping=false
  stopActive : d.stopActive=false
  settlements : d.settlements=[]
  startLog : d.startLog=[]
  receipts : ∀t r,(d.receipts t r).WellFormed ∧ (d.receipts t r).resolved=false

/-- `__init__`, with receipts that each expect one action. -/
def new : Dispatcher :=
  ⟨0,fun _ => freshTicket 0 (.event 0) false,∅,none,[],0,0,0,false,false,false,false,[],
    fun _ _ => .new 1,[]⟩

theorem new_initial : Initial new :=
  ⟨rfl,rfl,rfl,rfl,rfl,rfl,rfl,rfl,rfl,rfl,rfl,fun _ _ => ⟨DeliveryReceipt.new_wellFormed 1,rfl⟩⟩

end Dispatcher

open Dispatcher

/-- The atomic segments between two suspension points, of every party. -/
inductive Act
  | admitEvent (p : Payload) (guarded : Bool)
  | wait (t : Nat)
  | waiterCancel (t : Nat)
  | waiterResume (t : Nat)
  | discard (t : Nat)
  | cancel (t : Nat)
  | resultCallback (t : Nat)
  | workerLoop (w : Nat) (g : Guard)
  | workerResume (w : Nat)
  | workerCancel (w : Nat)
  | workerDone
  | operationFinish (t : Nat) (o : HandlerOutcome)
  | settle (i : Nat)
  | start
  | stop
  | stopTimeout
  | stopWorkers
  | stopFail
  | finalizeStop

/-- One segment; `none` when it is not enabled. -/
def step (c : Config) (d : Dispatcher) : Act → Option Dispatcher
  | .admitEvent p guarded => d.admitEvent c p guarded
  | .wait t =>
    let k := d.tickets t
    if t<d.next ∧ k.consumer=.unclaimed then
      if k.result=.pending then some (d.setTicket t {k with consumer := .waiting false})
      else some (d.takeResult t)
    else none
  | .waiterCancel t =>
    let k := d.tickets t
    if t<d.next ∧ k.consumer=.waiting false then
      if k.result=.pending then some (d.setTicket t {k with result := .cancelled})
      else some (d.setTicket t {k with consumer := .waiting true})
    else none
  | .waiterResume t =>
    let k := d.tickets t
    match k.consumer with
    | .waiting mustCancel =>
      if t<d.next ∧ k.result≠.pending then
        if mustCancel then some ((d.setTicket t {k with consumer := .ended}).cancel t)
        else some (d.takeResult t)
      else none
    | _ => none
  | .discard t =>
    if t<d.next ∧ (d.tickets t).consumer=.unclaimed then some (d.discard t) else none
  | .cancel t => if t<d.next then some (d.cancel t) else none
  | .resultCallback t =>
    if t<d.next ∧ (d.tickets t).result=.cancelled then some (d.cancel t) else none
  | .workerLoop w g =>
    match d.workers[w]? with
    | none => none
    | some x =>
      if x.current=none then
        if x.mustCancel then some (d.endWorker w) else some (d.workerLoop c w x g)
      else none
  | .workerResume w =>
    match d.workers[w]? with
    | none => none
    | some x =>
      match x.current with
      | none => none
      | some t =>
        match (d.tickets t).operation with
        | .done o =>
          match d.resumeTicket c x t o with
          | (d,true) => some (d.setWorker w {x with current := none})
          | (d,false) => some (d.endWorker w)
        | _ => none
  | .workerCancel w =>
    if w<d.workers.length then some (d.cancelWorkerAt w) else none
  | .workerDone =>
    if 0<d.doneCallbacks then
      let d := {d with doneCallbacks := d.doneCallbacks-1}
      if d.ready≠[] ∧ (d.stopping=false ∨ 0<d.inflight) then some (d.ensureWorkers c) else some d
    else none
  | .operationFinish t o =>
    let k := d.tickets t
    match k.operation with
    | .running cancelRequested =>
      if o=.cancelled ∧ cancelRequested=false then none
      else some (d.setTicket t (k.finishOperation o))
    | _ => none
  | .settle i =>
    match d.settlements[i]? with
    | some (t,a::rest) => some ((d.settleAction c t a).withSettlement i t rest)
    | some (_,[]) => some {d with settlements := d.settlements.eraseIdx i}
    | none => none
  | .start =>
    if d.accepting=false ∧ d.stopActive=false ∧ d.inflight=0 ∧ d.workers=[]
    then some d.startOnLoop else none
  | .stop =>
    if d.stopActive=true then none
    else if d.readyKeys=none then some {d with accepting := false,stopping := false}
    else some {d with accepting := false,stopping := true,stopActive := true}
  | .stopTimeout => if d.stopActive=true then some d.forceStop else none
  | .stopWorkers =>
    if d.stopActive=true ∧ d.inflight=0
    then some ((List.range d.workers.length).foldl cancelWorkerAt d) else none
  | .stopFail => if d.stopActive=true then some {d with stopActive := false} else none
  | .finalizeStop =>
    if d.stopActive=true ∧ d.inflight=0 ∧ d.workers=[] then some d.finalizeStop else none

end XiaoQing.Inbound
