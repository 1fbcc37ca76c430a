import XiaoQing.Inbound.SemaphoreOwners

namespace XiaoQing.Codex.Permits

open Framework Inbound

/-- `CodexPluginConfig`: the number of jobs at a time, and the rest. -/
structure PluginConfig (κ : Type*) where
  maxParallelJobs : Capacity
  rest : κ
  deriving DecidableEq

/-- The runner that the manager was given, or one that it made. -/
inductive CodexRunner (κ : Type*)
  | given
  | made (config : PluginConfig κ)
  deriving DecidableEq

/-- What the settings reader answers: there is none, it raises, or one generation. -/
inductive Snapshot (κ : Type*)
  | absent
  | unreadable
  | generation (config : PluginConfig κ) (revision : Nat)

/-- What `normalize_cwd` answers; the file system has its part in it. -/
inductive CwdOutcome
  | path (cwd : String)
  | refused
  | failed

inductive Fault
  | cwdError
  | other

structure JobStart (κ : Type*) where
  config : PluginConfig κ
  runner : CodexRunner κ
  cwd : String
  deriving DecidableEq

/-- Where `_execute_job` waits. -/
inductive Stage (κ : Type*)
  /-- for the manager's lock, with the settings read before the first attempt -/
  | refreshing (config : PluginConfig κ) (revision : Nat)
  /-- for the task of `acquire` to begin -/
  | calling
  /-- for the task of `acquire` to end -/
  | waiting
  /-- for the cancelled task of `acquire` to end, after the timeout or a cancellation -/
  | abandoning (cancelled : Bool)
  /-- for the manager's lock, with the settings read under the permit -/
  | confirming (config : PluginConfig κ) (revision : Nat)
  /-- for the manager's lock, to make sure that the job may start -/
  | checking (seen : Option Nat)
  /-- for the runner, which has been called -/
  | running (start : JobStart κ)
  /-- for the cancelled process to end -/
  | settling (slotAcquired : Bool)
  | ended
  deriving DecidableEq

/-- `_execute_job` of one job; `call` is its last call of `acquire`, and `acquired` and `released`
count its permits. `cancel_requested` and `cancel_event` are set together. -/
structure Execution (κ : Type*) where
  label : String
  cancelRequested : Bool
  call : Option Nat
  acquired : Nat
  released : Nat
  stage : Stage κ

structure Manager (κ : Type*) where
  config : PluginConfig κ
  ownsRunner : Bool
  runner : CodexRunner κ
  settingsRevision : Option Nat
  shuttingDown : Bool
  tombstones : List String
  running : String → Option Nat
  globalSem : AdjustableSemaphore
  executions : Nat → Option (Execution κ)
  next : Nat

/-- What `_prepare_job_start` returns or raises, with the flag for the permit. -/
inductive Prepared (κ : Type*)
  | start (start : JobStart κ)
  | result (slotAcquired : Bool)
  | raised (cancelled : Bool)

inductive Act (κ : Type*)
  | begin (label : String) (snapshot : Snapshot κ)
  | locked (i : Nat) (outcome : CwdOutcome)
  | call (i : Nat)
  | granted (i : Nat) (snapshot : Snapshot κ)
  | timeout (i : Nat)
  | givenUp (i : Nat)
  | check (i : Nat) (outcome : CwdOutcome)
  | finish (i : Nat)
  | settled (i : Nat)
  | cancel (i : Nat)
  | cancelJob (i : Nat)
  | resume (c : Nat)
  | reconfigure (config : PluginConfig κ) (revision : Option Nat) (outcome : CwdOutcome)
  | lifecycle (shuttingDown : Bool) (tombstones : List String) (running : String → Option Nat)

section

variable {κ : Type*}

def CodexRunner.of (owns : Bool) (config : PluginConfig κ) : CodexRunner κ :=
  if owns then .made config else .given

/-- `__init__`. -/
def Manager.new (config : PluginConfig κ) (ownsRunner : Bool) (revision : Option Nat) : Manager κ where
  config := config
  ownsRunner := ownsRunner
  runner := .of ownsRunner config
  settingsRevision := revision
  shuttingDown := false
  tombstones := []
  running := fun _ => none
  globalSem := .new config.maxParallelJobs
  executions := fun _ => none
  next := 0

def Act.execution : Act κ → Option Nat
  | .locked i _ => some i
  | .call i => some i
  | .granted i _ => some i
  | .timeout i => some i
  | .givenUp i => some i
  | .check i _ => some i
  | .finish i => some i
  | .settled i => some i
  | .cancel i => some i
  | .cancelJob i => some i
  | _ => none

def Execution.gaveBack (x : Execution κ) : Execution κ := {x with released := x.released+1}

namespace Manager

variable (m : Manager κ) (i : Nat) (x : Execution κ)

def put : Manager κ := {m with executions := Function.update m.executions i (some x)}

/-- `self.global_sem.release()`, on the path that x takes. -/
def release : Manager κ := {m with globalSem := m.globalSem.giveBack x.call}

/-- `reconfigure` under the lock: whether something was published, or the error, which leaves
everything as it was. -/
def reconfigure [DecidableEq κ] (config : PluginConfig κ) (revision : Option Nat)
    (outcome : CwdOutcome) : Except Fault (Bool×Manager κ) :=
  if m.shuttingDown then .error .other
  else if (revision.any fun r => m.settingsRevision.any fun current => r < current) then
    .ok (false,m)
  else if revision.isSome∧revision=m.settingsRevision∧config≠m.config then .error .other
  else
    let settingsRevision := revision.or m.settingsRevision
    if config=m.config then .ok (false,{m with settingsRevision := settingsRevision})
    else match outcome with
      | .refused => .error .cwdError
      | .failed => .error .other
      | .path _ => .ok (true,{m with
          globalSem := m.globalSem.resize config.maxParallelJobs.1
          settingsRevision := settingsRevision
          config := config
          runner := if m.ownsRunner then .made config else m.runner})

/-- The end of `_execute_job`. -/
def finish (slotAcquired : Bool) : Manager κ :=
  if slotAcquired then (m.release x).put i {x.gaveBack with stage := .ended}
  else m.put i {x with stage := .ended}

/-- What `_execute_job` does with what `_prepare_job_start` answered. -/
def execute : Prepared κ → Manager κ
  | .start start => m.put i {x with stage := .running start}
  | .result slotAcquired => m.finish i x slotAcquired
  | .raised false => m.finish i x false
  | .raised true => m.put i {x with cancelRequested := true,stage := .settling false}

/-- A turn of the loop in `_acquire_execution_slot`. -/
def request : Manager κ :=
  if x.cancelRequested then m.execute i x (.result false) else m.put i {x with stage := .calling}

def refresh : Snapshot κ → Manager κ
  | .absent => m.request i x
  | .unreadable => m.execute i x (.raised false)
  | .generation config revision => m.put i {x with stage := .refreshing config revision}

def confirm : Snapshot κ → Manager κ
  | .absent => m.put i {x with stage := .checking none}
  | .unreadable => (m.release x).execute i x.gaveBack (.raised false)
  | .generation config revision => m.put i {x with stage := .confirming config revision}

/-- `wait_for` returned from `acquire`. -/
def grant (snapshot : Snapshot κ) : Manager κ :=
  let x := {x with acquired := x.acquired+1}
  if x.cancelRequested then (m.release x).execute i x.gaveBack (.result false)
  else m.confirm i x snapshot

def refreshed [DecidableEq κ] (outcome : CwdOutcome) : Option (Manager κ) :=
  match x.stage with
  | .refreshing config revision =>
    match m.reconfigure config (some revision) outcome with
    | .ok (_,m) => some (m.request i x)
    | .error _ => some (m.execute i x (.raised false))
  | .confirming config revision =>
    match m.reconfigure config (some revision) outcome with
    | .ok (_,m) => some (m.put i {x with stage := .checking (some revision)})
    | .error .cwdError => some (m.execute i x (.result true))
    | .error .other => some ((m.release x).execute i x.gaveBack (.raised false))
  | _ => none

def mayStart : Bool :=
  !m.shuttingDown && !m.tombstones.contains x.label && !x.cancelRequested &&
    m.running x.label=some i

/-- The lock is obtained for the last check; from there to the call of the runner nothing else
runs. -/
def check (outcome : CwdOutcome) : Manager κ :=
  if m.globalSem.overCapacity then (m.release x).request i x.gaveBack
  else if m.mayStart i x then
    match outcome with
    | .path cwd => m.execute i x (.start ⟨m.config,m.runner,cwd⟩)
    | .refused => m.execute i x (.result true)
    | .failed => (m.release x).execute i x.gaveBack (.raised false)
  else m.execute i {x with cancelRequested := true} (.result true)

/-- The task of `acquire` is cancelled: before it began, or at its future. -/
def withdraw (cancelled : Bool) : Option (Manager κ) :=
  match x.stage,x.call with
  | .calling,_ => some (m.put i {x with call := none,stage := .abandoning cancelled})
  | .waiting,some c =>
    (m.globalSem.cancel c).map fun sem =>
      {m with globalSem := sem}.put i {x with stage := .abandoning cancelled}
  | _,_ => none

/-- The worker is cancelled where it waits. `wait_for` does not pass the cancellation on when
`acquire` has returned: that is `grant`. -/
def cancelled : Option (Manager κ) :=
  match x.stage with
  | .refreshing .. => some (m.execute i x (.raised true))
  | .calling => m.withdraw i x true
  | .waiting => m.withdraw i x true
  | .abandoning _ => some (m.execute i x (.raised true))
  | .confirming .. => some ((m.release x).execute i x.gaveBack (.raised true))
  | .checking _ => some ((m.release x).execute i x.gaveBack (.raised true))
  | .running _ => some (m.put i {x with cancelRequested := true,stage := .settling true})
  | .settling slotAcquired => some (m.finish i x slotAcquired)
  | .ended => none

def callEnded : Bool :=
  match x.call with
  | some c => m.globalSem.calls c=some .ended
  | none => true

def callHolds : Bool :=
  match x.call with
  | some c => m.globalSem.calls c=some .holding
  | none => false

def advance [DecidableEq κ] : Act κ → Option (Manager κ)
  | .locked _ outcome => m.refreshed i x outcome
  | .call _ =>
    match x.stage with
    | .calling => some ({m with globalSem := m.globalSem.acquire}.put i
        {x with call := some m.globalSem.next,stage := .waiting})
    | _ => none
  | .granted _ snapshot =>
    match x.stage with
    | .waiting => if m.callHolds x then some (m.grant i x snapshot) else none
    | _ => none
  | .timeout _ => m.withdraw i x false
  | .givenUp _ =>
    match x.stage with
    | .abandoning cancelled =>
      if m.callEnded x then
        some (if cancelled then m.execute i x (.raised true) else m.request i x)
      else none
    | _ => none
  | .check _ outcome =>
    match x.stage with
    | .checking _ => some (m.check i x outcome)
    | _ => none
  | .finish _ =>
    match x.stage with
    | .running _ => some (m.finish i x true)
    | _ => none
  | .settled _ =>
    match x.stage with
    | .settling slotAcquired => some (m.finish i x slotAcquired)
    | _ => none
  | .cancel _ => m.cancelled i x
  | .cancelJob _ => some (m.put i {x with cancelRequested := true})
  | _ => none

end Manager

def Manager.step [DecidableEq κ] (m : Manager κ) (a : Act κ) : Option (Manager κ) :=
  match a with
  | .begin label snapshot =>
    some ({m with next := m.next+1}.refresh m.next ⟨label,false,none,0,0,.calling⟩ snapshot)
  | .resume c => (m.globalSem.resume c).map fun sem => {m with globalSem := sem}
  | .reconfigure config revision outcome =>
    match m.reconfigure config revision outcome with
    | .ok (_,m) => some m
    | .error _ => some m
  | .lifecycle shuttingDown tombstones running =>
    some {m with
      shuttingDown := shuttingDown
      tombstones := tombstones
      running := running}
  | a => a.execution.bind fun i => (m.executions i).bind fun x => m.advance i x a

end

end XiaoQing.Codex.Permits
