import XiaoQing.Framework.Run
import XiaoQing.Framework.Table

namespace XiaoQing.OneBot

open Framework

/-- Why an event is dropped. -/
inductive Discard
  | overflow
  | rotation
  | stop
  deriving DecidableEq

/-- Where an accepted event is: on its way into the queue, queued, with the worker of its key,
handed to the handler, or dropped. -/
inductive Stage
  | inFlight
  | queued
  | taken
  | started
  | discarded (why : Discard)
  deriving DecidableEq

/-- `_QueuedOneBotEvent` with the key of the event; `auth` counts the rotations before it. -/
structure Event (κ : Type) where
  key : κ
  auth : Nat
  stage : Stage

/-- A `_drain_queue`: in `queue.get`, in the semaphore with an event, in the handler, or over. -/
inductive WorkerPhase
  | waiting
  | taken (e : Nat)
  | handling (e : Nat)
  | done
  deriving DecidableEq

structure Worker (κ : Type) where
  key : κ
  phase : WorkerPhase

/-- The event queues of a `OneBotWsClient`. Events and workers are numbered as they come; a missing
queue is empty. `inFlight` is the one dispatch the listener awaits and whether its `put` is over;
`pending` counts the permits of the semaphore in use, `keyless` the events without a key in their
handler; `started` records the calls of the handler. -/
structure EventClient (κ : Type) where
  queueSize : Nat
  maxPending : Nat
  accepting : Bool
  auth : Nat
  queues : κ → List Nat
  queueTasks : κ → Option Nat
  workers : Nat → Worker κ
  nextWorker : Nat
  events : Nat → Event κ
  next : Nat
  inFlight : Option (Nat × Bool)
  pending : Nat
  keyless : Nat
  started : List Nat

variable {κ : Type} [DecidableEq κ]

namespace EventClient

def setWorker (s : EventClient κ) (w : Nat) (phase : WorkerPhase) : EventClient κ :=
  {s with workers := Function.update s.workers w {s.workers w with phase := phase}}

def setStage (s : EventClient κ) (e : Nat) (stage : Stage) : EventClient κ :=
  {s with events := Function.update s.events e {s.events e with stage := stage}}

def setQueue (s : EventClient κ) (k : κ) (q : List Nat) : EventClient κ :=
  {s with queues := Function.update s.queues k q}

def setTask (s : EventClient κ) (k : κ) (w : Option Nat) : EventClient κ :=
  {s with queueTasks := Function.update s.queueTasks k w}

def served (s : EventClient κ) (k : κ) : Bool :=
  match s.queueTasks k with
  | none => false
  | some w => (s.workers w).phase≠.done

/-- `self._queue_tasks[key] = asyncio.create_task(self._drain_queue(key, handler))`. -/
def spawn (s : EventClient κ) (k : κ) : EventClient κ :=
  {s.setTask k (some s.nextWorker) with
    workers := Function.update s.workers s.nextWorker ⟨k,.waiting⟩
    nextWorker := s.nextWorker+1}

/-- The `finally` of `_drain_queue`, and the end of the task. -/
def retire (s : EventClient κ) (w : Nat) : EventClient κ :=
  let k := (s.workers w).key
  let s := s.setWorker w .done
  if s.queueTasks k=some w then
    if s.queues k=[] then s.setTask k none
    else if s.accepting then s.spawn k
    else s.setTask k none
  else s

def evict (s : EventClient κ) (k : κ) : EventClient κ :=
  if 0 < s.queueSize ∧ s.queueSize≤(s.queues k).length then
    match s.queues k with
    | [] => s
    | e::rest => (s.setStage e (.discarded .overflow)).setQueue k rest
  else s

/-- `_dispatch_event` up to `queue.put`. -/
def dispatch (s : EventClient κ) (k : κ) (auth : Nat) : EventClient κ :=
  let s := s.evict k
  {s with
    events := Function.update s.events s.next ⟨k,auth,.inFlight⟩
    next := s.next+1
    inFlight := some (s.next,false)}

/-- `_handle_event_safely` up to the handler, under the semaphore. -/
def enter (s : EventClient κ) (w e : Nat) : EventClient κ :=
  if (s.events e).auth=s.auth then
    {(s.setStage e .started).setWorker w (.handling e) with
      pending := s.pending+1
      started := s.started++[e]}
  else (s.setStage e (.discarded .rotation)).setWorker w .waiting

/-- `_stop_queue_workers` once no worker is left: the queues go, and a `put` on its way goes to a
queue that nobody reads. -/
def clear (s : EventClient κ) : EventClient κ :=
  {s with
    queues := fun _ => []
    queueTasks := fun _ => none
    events := fun e =>
      if (s.events e).stage=.queued ∨ (s.events e).stage=.inFlight
      then {s.events e with stage := .discarded .stop} else s.events e
    inFlight := none}

structure Initial (s : EventClient κ) : Prop where
  capacity : 0 < s.maxPending
  accepting : s.accepting=true
  queues : ∀k,s.queues k=[]
  queueTasks : ∀k,s.queueTasks k=none
  nextWorker : s.nextWorker=0
  next : s.next=0
  inFlight : s.inFlight=none
  pending : s.pending=0
  keyless : s.keyless=0
  started : s.started=[]

/-- `__init__`; `k` is the key of the rows not in use. -/
def new (queueSize maxPending : Nat) (k : κ) : EventClient κ :=
  ⟨queueSize,maxPending,true,0,fun _ => [],fun _ => none,fun _ => ⟨k,.done⟩,0,
    fun _ => ⟨k,0,.inFlight⟩,0,none,0,0,[]⟩

omit [DecidableEq κ] in
theorem new_initial (n m : Nat) (k : κ) (hm : 0 < m) : Initial (new n m k) :=
  ⟨hm,rfl,fun _ => rfl,fun _ => rfl,rfl,rfl,rfl,rfl,rfl,rfl⟩

end EventClient

open EventClient

inductive EventAct (κ : Type)
  | dispatch (k : κ) (auth : Nat)
  | put
  | ensure
  | dispatchCancel
  | take (w : Nat)
  | enter (w : Nat)
  | finish (w : Nat)
  | interrupt (w : Nat)
  | timeout (w : Nat)
  | cancelWorker (w : Nat) (fresh : Bool)
  | reap (k : κ)
  | clear
  | keylessStart
  | keylessFinish
  | rotate
  | stop

/-- One step between two `await`s; `none` when it is not enabled. The listener awaits one dispatch at
a time and loses it only when it is cancelled, by a rotation or by `stop`; only `stop` cancels workers,
and one that has not begun yet ends without its `finally`. -/
def eventStep (s : EventClient κ) : EventAct κ → Option (EventClient κ)
  | .dispatch k auth =>
    if s.accepting=true ∧ s.inFlight=none ∧ auth ≤ s.auth then some (s.dispatch k auth) else none
  | .put =>
    match s.inFlight with
    | some (e,false) =>
      let k := (s.events e).key
      some {(s.setStage e .queued).setQueue k (s.queues k++[e]) with inFlight := some (e,true)}
    | _ => none
  | .ensure =>
    match s.inFlight with
    | some (e,true) =>
      let k := (s.events e).key
      let s := {s with inFlight := none}
      some (if s.served k then s else s.spawn k)
    | _ => none
  | .dispatchCancel =>
    match s.inFlight with
    | some (e,false) =>
      if s.accepting=false then
        some {s.setStage e (.discarded .stop) with inFlight := none}
      else if (s.events e).auth≠s.auth then
        some {s.setStage e (.discarded .rotation) with inFlight := none}
      else none
    | _ => none
  | .take w =>
    if w < s.nextWorker ∧ (s.workers w).phase=.waiting then
      match s.queues (s.workers w).key with
      | [] => none
      | e::rest =>
        some (((s.setStage e .taken).setQueue (s.workers w).key rest).setWorker w (.taken e))
    else none
  | .enter w =>
    match (s.workers w).phase with
    | .taken e => if w < s.nextWorker ∧ s.pending < s.maxPending then some (s.enter w e) else none
    | _ => none
  | .finish w =>
    match (s.workers w).phase with
    | .handling _ =>
      if w < s.nextWorker then some {s.setWorker w .waiting with pending := s.pending-1} else none
    | _ => none
  | .interrupt w =>
    match (s.workers w).phase with
    | .handling _ =>
      if w < s.nextWorker then some ({s with pending := s.pending-1}.retire w) else none
    | _ => none
  | .timeout w =>
    if w < s.nextWorker ∧ (s.workers w).phase=.waiting then some (s.retire w) else none
  | .cancelWorker w fresh =>
    if w < s.nextWorker ∧ s.accepting=false then
      match (s.workers w).phase with
      | .waiting => some (if fresh then s.setWorker w .done else s.retire w)
      | .taken e => some ((s.setStage e (.discarded .stop)).retire w)
      | .handling _ => some ({s with pending := s.pending-1}.retire w)
      | .done => none
    else none
  | .reap k =>
    if s.served k=false ∧ (s.accepting=false ∨ s.queues k=[]) then some (s.setTask k none) else none
  | .clear =>
    if s.accepting=false ∧ (List.range s.nextWorker).all (fun w => (s.workers w).phase=.done)
    then some s.clear else none
  | .keylessStart =>
    if s.accepting=true ∧ s.inFlight=none ∧ s.pending < s.maxPending
    then some {s with pending := s.pending+1,keyless := s.keyless+1} else none
  | .keylessFinish =>
    if 0 < s.keyless then some {s with pending := s.pending-1,keyless := s.keyless-1} else none
  | .rotate => some {s with auth := s.auth+1}
  | .stop => some {s with accepting := false}

end XiaoQing.OneBot
