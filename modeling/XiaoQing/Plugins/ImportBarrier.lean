import Mathlib.Logic.Function.Basic
import XiaoQing.Framework.Run

namespace XiaoQing.Plugins

/-- `_ModuleImportBarrierJob.state` -/
inductive JobState
  | waiting
  | cancelled
  | running
  | done
deriving DecidableEq

/-- How a call of `cross` or `run_locked` ends. -/
inductive Crossing (ε : Type)
  | returned
  | noWorker
  | noLocks
  | failed (cause : ε)
  | raised (cause : ε)
deriving DecidableEq

def Crossing.message {ε : Type} : Crossing ε → Option String
  | .noWorker => some "timed out waiting for the plugin import barrier worker"
  | .noLocks => some "timed out waiting for plugin import module locks"
  | .failed _ => some "failed to cross plugin import module locks"
  | _ => none

def Crossing.isTimeout {ε : Type} : Crossing ε → Bool
  | .noWorker => true
  | .noLocks => true
  | _ => false

/-- Where a submitting thread stands: before its first look at the coordinator, in `wait(remaining)`,
in `completed.wait(remaining)`, after that wait ran out, in the unbounded `completed.wait()`; `direct`
runs the callback itself. -/
inductive CallStage (ε : Type)
  | absent
  | direct
  | entering
  | waiting
  | submitted
  | expired
  | committed
  | ended (how : Crossing ε)
deriving DecidableEq

/-- A submitting call and its job; `runs` and `commits` count the starts and the normal ends of the callback. -/
structure Submission (ν ε : Type) where
  names : List ν
  callback : Bool
  deadline : Int
  stage : CallStage ε
  state : JobState
  completed : Bool
  errors : List ε
  runs : Nat
  commits : Nat
deriving DecidableEq

namespace Submission

variable {ν ε : Type}

def unused : Submission ν ε := ⟨[],false,0,.absent,.waiting,false,[],0,0⟩

def new (names : List ν) (callback : Bool) (deadline : Int) : Submission ν ε :=
  ⟨names,callback,deadline,.absent,.waiting,false,[],0,0⟩

def close (c : Submission ν ε) : Option ε → Submission ν ε
  | none => {c with commits := c.commits+1}
  | some e => {c with errors := c.errors++[e]}

/-- What `_submit` does once the job is completed. -/
def outcome (c : Submission ν ε) : Crossing ε :=
  if c.state=.cancelled then .noLocks
  else match c.errors with
  | [] => .returned
  | e::_ => .failed e

end Submission

/-- Where a worker thread stands in `_run`. -/
inductive WorkerStage (ν : Type)
  | absent
  | top
  | waiting
  | starting (job : Nat)
  | locking (job : Nat) (left : List ν)
  | acquiring (job : Nat) (name : ν) (left : List ν)
  | deciding (job : Nat)
  | calling (job : Nat)
  | inCallback (job : Nat)
  | releasing (job : Nat)
  | settling (job : Nat)
  | completing (job : Nat)
deriving DecidableEq

def WorkerStage.job {ν : Type} : WorkerStage ν → Option Nat
  | .starting j => some j
  | .locking j _ => some j
  | .acquiring j _ _ => some j
  | .deciding j => some j
  | .calling j => some j
  | .inCallback j => some j
  | .releasing j => some j
  | .settling j => some j
  | .completing j => some j
  | _ => none

def WorkerStage.isBusy {ν : Type} : WorkerStage ν → Bool
  | .completing _ => false
  | x => x.job.isSome

structure Worker (ν : Type) where
  stage : WorkerStage ν
  locks : List ν
deriving DecidableEq

inductive Waiter
  | worker (w : Nat)
  | call (i : Nat)
deriving DecidableEq

/-- The coordinator's fields, `_condition` by its list of waiters; then the clock and the threads. -/
structure Coordinator (ν ε : Type) where
  available : Bool
  job : Option Nat
  busy : Bool
  worker : Option Nat
  waiters : List Waiter
  now : Int
  nextWorker : Nat
  workers : Nat → Worker ν
  calls : Nat → Submission ν ε

inductive BarrierAct (ν ε : Type)
  | tick (d : Nat)
  | call (i : Nat) (names : List ν) (callback : Bool) (timeout : Int)
  | directEnds (i : Nat) (error : Option ε)
  | look (i : Nat)
  | expire (i : Nat)
  | cancelOrWait (i : Nat)
  | finish (i : Nat)
  | work (w : Nat)
  | acquire (w : Nat)
  | fail (w : Nat) (cause : ε)
  | callbackEnds (w : Nat) (error : Option ε)
deriving DecidableEq

def BarrierAct.worker {ν ε : Type} : BarrierAct ν ε → Option Nat
  | .work w => some w
  | .acquire w => some w
  | .fail w _ => some w
  | .callbackEnds w _ => some w
  | _ => none

namespace Coordinator

variable {ν ε : Type} (s : Coordinator ν ε)

def initial (available : Bool) (now : Int) : Coordinator ν ε where
  available := available
  job := none
  busy := false
  worker := none
  waiters := []
  now := now
  nextWorker := 0
  workers _ := ⟨.absent,[]⟩
  calls _ := Submission.unused

def setCall (i : Nat) (c : Submission ν ε) : Coordinator ν ε := {s with calls := Function.update s.calls i c}

def setWorker (w : Nat) (x : Worker ν) : Coordinator ν ε :=
  {s with workers := Function.update s.workers w x}

def notify : Coordinator ν ε := {s with waiters := s.waiters.tail}

def notifyAll : Coordinator ν ε := {s with waiters := []}

def stage (w : Nat) : WorkerStage ν := (s.workers w).stage

/-- `self._worker is None or not self._worker.is_alive()` -/
def needsWorker : Bool :=
  match s.worker with
  | none => true
  | some w => (s.workers w).stage matches .absent

def spawn : Coordinator ν ε :=
  {s.setWorker s.nextWorker ⟨.top,[]⟩ with worker := some s.nextWorker, nextWorker := s.nextWorker+1}

def startWorker : Coordinator ν ε := if s.needsWorker then s.spawn else s

/-- What a submitter does each time it owns the condition; a waiter that was not notified leaves the
list itself. -/
def look (i : Nat) (c : Submission ν ε) : Coordinator ν ε :=
  let t := {s with waiters := s.waiters.erase (.call i)}
  if t.busy || t.job.isSome then
    if c.deadline ≤ s.now then t.setCall i {c with stage := .ended .noWorker}
    else {t.setCall i {c with stage := .waiting} with waiters := t.waiters++[.call i]}
  else ({t with job := some i}.startWorker.setCall i {c with stage := .submitted}).notify

/-- `while self._job is None: self._condition.wait()`, then the job is taken. -/
def take (w : Nat) (x : Worker ν) : Coordinator ν ε :=
  match s.job with
  | none => {s.setWorker w {x with stage := .waiting} with waiters := s.waiters++[.worker w]}
  | some j => {s.setWorker w ⟨.starting j,[]⟩ with job := none, busy := true}

/-- The worker's own steps, each up to the next point where another thread can come in. -/
def work (w : Nat) : Option (Coordinator ν ε) :=
  let x := s.workers w
  match x.stage with
  | .absent => none
  | .top => some (s.take w x)
  | .waiting => if .worker w∈s.waiters then none else some (s.take w x)
  | .starting j => some (s.setWorker w {x with stage := .locking j (s.calls j).names})
  | .locking j [] => some (s.setWorker w {x with stage := .deciding j})
  | .locking j (n::left) =>
    if (s.calls j).state=.cancelled then some (s.setWorker w {x with stage := .deciding j})
    else some (s.setWorker w {x with stage := .acquiring j n left})
  | .acquiring _ _ _ => none
  | .deciding j =>
    let c := s.calls j
    if c.state=.cancelled then some (s.setWorker w {x with stage := .releasing j})
    else some ((s.setCall j {c with state := .running}).setWorker w
      {x with stage := if c.callback then .calling j else .releasing j})
  | .calling j =>
    let c := s.calls j
    some ((s.setCall j {c with runs := c.runs+1}).setWorker w {x with stage := .inCallback j})
  | .inCallback _ => none
  | .releasing j => some (s.setWorker w ⟨.settling j,[]⟩)
  | .settling j =>
    let c := s.calls j
    let t := s.setCall j {c with state := if c.state=.cancelled then .cancelled else .done}
    some ({t.setWorker w {x with stage := .completing j} with busy := false}.notifyAll)
  | .completing j =>
    let c := s.calls j
    some ((s.setCall j {c with completed := true}).setWorker w {x with stage := .top})

/-- `_lock_getter`, `lock_getter(module_name)` or `acquire` raises. -/
def fail (w : Nat) (e : ε) : Option (Coordinator ν ε) :=
  let x := s.workers w
  match x.stage with
  | .starting j | .acquiring j _ _ =>
    let c := s.calls j
    some ((s.setCall j {c with errors := c.errors++[e]}).setWorker w {x with stage := .releasing j})
  | _ => none

def acquire (w : Nat) : Option (Coordinator ν ε) :=
  let x := s.workers w
  match x.stage with
  | .acquiring j n left => some (s.setWorker w ⟨.locking j left,x.locks++[n]⟩)
  | _ => none

def callbackEnds (w : Nat) (error : Option ε) : Option (Coordinator ν ε) :=
  let x := s.workers w
  match x.stage with
  | .inCallback j =>
    some ((s.setCall j ((s.calls j).close error)).setWorker w {x with stage := .releasing j})
  | _ => none

/-- A call of `cross` or `run_locked` up to its first look at the coordinator. -/
def call (i : Nat) (names : List ν) (callback : Bool) (timeout : Int) : Option (Coordinator ν ε) :=
  if (s.calls i).stage matches .absent then
    let c : Submission ν ε := .new names callback (s.now+timeout)
    if s.available then some (s.setCall i {c with stage := .entering})
    else if callback then some (s.setCall i {c with stage := .direct, runs := 1})
    else some (s.setCall i {c with stage := .ended .returned})
  else none

def step (s : Coordinator ν ε) : BarrierAct ν ε → Option (Coordinator ν ε)
  | .tick d => some {s with now := s.now+d}
  | .call i names callback timeout => s.call i names callback timeout
  | .directEnds i error =>
    let c := s.calls i
    match c.stage,error with
    | .direct,none => some (s.setCall i {c with stage := .ended .returned, commits := c.commits+1})
    | .direct,some e => some (s.setCall i {c with stage := .ended (.raised e)})
    | _,_ => none
  | .look i =>
    let c := s.calls i
    match c.stage with
    | .entering => some (s.look i c)
    | .waiting => if .call i∉s.waiters∨c.deadline ≤ s.now then some (s.look i c) else none
    | _ => none
  | .expire i =>
    let c := s.calls i
    match c.stage with
    | .submitted => if c.deadline ≤ s.now then some (s.setCall i {c with stage := .expired}) else none
    | _ => none
  | .cancelOrWait i =>
    let c := s.calls i
    match c.stage with
    | .expired =>
      if c.state=.waiting then some (s.setCall i {c with state := .cancelled, stage := .ended .noLocks})
      else some (s.setCall i {c with stage := .committed})
    | _ => none
  | .finish i =>
    let c := s.calls i
    match c.stage with
    | .submitted | .committed =>
      if c.completed then some (s.setCall i {c with stage := .ended c.outcome}) else none
    | _ => none
  | .work w => s.work w
  | .acquire w => s.acquire w
  | .fail w e => s.fail w e
  | .callbackEnds w error => s.callbackEnds w error

end Coordinator

end XiaoQing.Plugins
