import Mathlib.Logic.Function.Basic
import Mathlib.Tactic.Common

namespace XiaoQing.Codex

abbrev Label := String

inductive Status where
  | queued | starting | running | cancelling | cancelled | failed | done
deriving Repr, DecidableEq

def Status.terminal : Status → Bool
  | .cancelled | .failed | .done => true
  | .queued | .starting | .running | .cancelling => false

/-- A `RuntimeJob`; `incarnation` names the session object it was accepted for. -/
structure Job where
  jobId : Nat
  label : Label
  incarnation : Nat
  queueOverhead : Bool
  status : Status
  process : Bool
  cancelRequested : Bool
  promptStarted : Bool
  spawnHandoff : Bool
  finished : Bool
deriving Repr, DecidableEq

def Job.blank : Job := ⟨0,"",0,false,.queued,false,false,false,false,false⟩

/-- The sessions created under one label are told apart by their number. -/
structure Session where
  incarnation : Nat
  totalJobs : Nat
  updatedAt : Nat
deriving Repr, DecidableEq

structure Result where
  cancelled : Bool
  timedOut : Bool
  succeeded : Bool
deriving Repr, DecidableEq

def Result.cancelledResult : Result := ⟨true,false,false⟩

def Result.failedExecution : Result := ⟨false,false,false⟩

/-- Where `_execute_job` stands. -/
inductive Stage where
  | preparing | spawning | registered | prompted | conversing | stopping | unwinding | settling
  | ended (r : Result)
deriving Repr, DecidableEq

/-- Where a worker stands; `interrupted` is the cancellation held until the thread ends. -/
inductive Point where
  | fresh | claiming
  | executing (j : Nat) (stage : Stage)
  | collecting (j : Nat) (interrupted : Bool)
  | sending (j : Nat)
  | dead
deriving Repr, DecidableEq

structure Worker where
  label : Label
  point : Point
  cancelled : Bool
deriving Repr, DecidableEq

/-- A `delete_session` call that has been accepted and waits for the worker it found. -/
structure Deletion where
  label : Label
  incarnation : Nat
  worker : Option Nat
deriving Repr, DecidableEq

structure Shutdown where
  jobs : List Nat
  workers : List Nat
deriving Repr, DecidableEq

structure Config where
  perSessionQueueLimit : Nat
  maxPromptChars : Nat
  emergencyQueueLimit : Nat
  emergencyDiskBytes : Nat
  sessionTtlDays : Nat
  protectedSessions : List Label
deriving Repr, DecidableEq

/-- The manager. Jobs, workers and sessions are numbered in the order they are made;
`claims`, `starts` and `prompts` record what was done, latest first. -/
structure State where
  config : Config
  settingsRevision : Option Nat
  shuttingDown : Bool
  sessions : Label → Option Session
  incarnations : Label → Nat
  queues : Label → List Nat
  running : Label → Option Nat
  workers : Label → Option Nat
  tombstones : Label → Bool
  history : Label → List Nat
  jobs : Nat → Job
  accepted : Nat
  tasks : Nat → Worker
  spawned : Nat
  deletions : Nat → Option Deletion
  shutdowns : Nat → Option Shutdown
  claims : List Nat
  starts : List Nat
  prompts : List Nat

def State.initial (c : Config) : State where
  config := c
  settingsRevision := none
  shuttingDown := false
  sessions := fun _ => none
  incarnations := fun _ => 0
  queues := fun _ => []
  running := fun _ => none
  workers := fun _ => none
  tombstones := fun _ => false
  history := fun _ => []
  jobs := fun _ => .blank
  accepted := 0
  tasks := fun _ => ⟨"",.dead,false⟩
  spawned := 0
  deletions := fun _ => none
  shutdowns := fun _ => none
  claims := []
  starts := []
  prompts := []

/-- Why a request is refused; a refused request leaves the manager as it was. -/
inductive Refusal where
  | sessionExists | unknownSession | protectedSession | busy | closing | emergencyQueue | emergencyDisk
  | queueFull | promptTooLong | notSaved | noJob | conflictingSettings | invalidCwd | notEnabled
deriving Repr, DecidableEq

open Function (update)

namespace State

variable (s : State)

/-! Pieces shared by the operations -/

def setJob (j : Nat) (f : Job → Job) : State := {s with jobs := update s.jobs j (f (s.jobs j))}

def setPoint (w : Nat) (p : Point) : State :=
  {s with tasks := update s.tasks w {s.tasks w with point := p}}

/-- `task.cancel()`; a finished task ignores it. -/
def cancelWorkers (p : Nat → Bool) : State :=
  {s with
    tasks := fun w => if p w && (s.tasks w).point != .dead
      then {s.tasks w with cancelled := true} else s.tasks w}

def markJobCancelled (j : Job) : Job :=
  {j with cancelRequested := true,status := .cancelled,spawnHandoff := true,finished := true}

/-- Cancel every queued job of the labels `p` and empty their queues. -/
def dropQueued (p : Label → Bool) : State :=
  {s with
    jobs := fun j => if p (s.jobs j).label && j∈s.queues (s.jobs j).label
      then markJobCancelled (s.jobs j) else s.jobs j
    queues := fun l => if p l then [] else s.queues l}

def dequeue (j : Nat) : State :=
  let l := (s.jobs j).label
  {s.setJob j markJobCancelled with queues := update s.queues l ((s.queues l).erase j)}

/-- The first critical section of `_cancel_runtime_job`. -/
def cancelRuntimeJob (j : Nat) : State :=
  if (s.jobs j).finished then s
  else s.setJob j (fun x => {x with
    cancelRequested := true
    status := if x.status=.starting ∨ x.status=.running then .cancelling else x.status})

def alive (w : Nat) : Bool := (s.tasks w).point != .dead

def labelOf (w : Nat) : Label := (s.tasks w).label

def closing (l : Label) : Bool := s.shuttingDown || s.tombstones l

/-- `_ensure_worker_locked` -/
def ensureWorker (l : Label) : State :=
  if s.closing l || (s.workers l).any s.alive then s
  else {s with
    tasks := update s.tasks s.spawned ⟨l,.fresh,false⟩
    workers := update s.workers l (some s.spawned)
    spawned := s.spawned+1}

def isProtected (l : Label) : Bool := s.config.protectedSessions.contains l

/-! Requests: what each changes, then when it is granted -/

/-- `_create_session_record_locked`; `noted` tells whether the history was written. -/
def createRecord (l : Label) (time : Nat) (noted : Bool) : State :=
  {s with
    tombstones := update s.tombstones l false
    sessions := update s.sessions l (some ⟨s.incarnations l,0,time⟩)
    incarnations := update s.incarnations l (s.incarnations l+1)
    history := if noted then update s.history l (s.incarnations l::s.history l) else s.history}

def createSession (l : Label) (time : Nat) (saved noted : Bool) : Except Refusal State :=
  if (s.sessions l).isSome then .error .sessionExists
  else if !saved then .error .notSaved
  else .ok (s.createRecord l time noted)

def queuedCount (l : Label) : Nat :=
  ((s.queues l).filter (fun j => !(s.jobs j).queueOverhead)).length

def newJob (l : Label) (r : Session) (overhead : Bool) : Job :=
  {Job.blank with
    jobId := r.totalJobs+1,label := l,incarnation := r.incarnation,queueOverhead := overhead}

/-- `_enqueue_job_locked` past its checks. -/
def enqueueJob (l : Label) (r : Session) (overhead : Bool) (time : Nat) : State :=
  let t := s.ensureWorker l
  {t with
    sessions := update t.sessions l (some {r with totalJobs := r.totalJobs+1,updatedAt := time})
    jobs := update t.jobs t.accepted (newJob l r overhead)
    queues := update t.queues l (t.queues l++[t.accepted])
    accepted := t.accepted+1}

/-- The critical section of `enqueue` and `run_agent_task`. -/
def enqueue (l : Label) (overhead : Bool) (chars disk time : Nat) (saved : Bool) :
    Except Refusal State :=
  match s.sessions l with
  | none => .error .unknownSession
  | some r =>
    if s.closing l then .error .closing
    else if s.config.emergencyQueueLimit ≤ s.queuedCount l then .error .emergencyQueue
    else if s.config.emergencyDiskBytes≤disk then .error .emergencyDisk
    else if s.config.perSessionQueueLimit ≤ s.queuedCount l then .error .queueFull
    else if s.config.maxPromptChars<chars then .error .promptTooLong
    else if !saved then .error .notSaved
    else .ok (s.enqueueJob l r overhead time)

/-- `cancel`: a queued job of that number leaves the queue, else the running one is flagged. -/
def cancel (l : Label) (jobId : Option Nat) : Except Refusal State :=
  if (s.sessions l).isNone then .error .unknownSession
  else match (s.queues l).find? (fun j => jobId.any ((s.jobs j).jobId==·)) with
  | some j => .ok (s.dequeue j)
  | none =>
    match s.running l with
    | some j =>
      if jobId.all ((s.jobs j).jobId==·) then .ok (s.cancelRuntimeJob j) else .error .noJob
    | none => .error .noJob

def cancelAgentJob (j : Nat) : Except Refusal State :=
  if j < s.accepted then
    .ok (if j∈s.queues (s.jobs j).label then s.dequeue j else s.cancelRuntimeJob j)
  else .error .notEnabled

def clearQueue (l : Label) : Except Refusal State :=
  if (s.sessions l).isNone then .error .unknownSession
  else .ok (s.dropQueued (·==l))

/-- The first critical section of `delete_session`. -/
def markDeleting (d : Nat) (l : Label) (r : Session) : State :=
  {s with
    tombstones := update s.tombstones l true
    deletions := update s.deletions d (some ⟨l,r.incarnation,s.workers l⟩)}.dropQueued (·==l)

/-- `delete_session` up to its wait: with `force` the running job is flagged on the way. -/
def deleteSession (d : Nat) (l : Label) (force allowProtected : Bool) : Except Refusal State :=
  match s.sessions l with
  | none => .error .unknownSession
  | some r =>
    if s.isProtected l && !(force && allowProtected) then .error .protectedSession
    else if (s.running l).isSome && !force then .error .busy
    else if (s.deletions d).isSome then .error .notEnabled
    else .ok (match s.running l with
      | some j => (s.markDeleting d l r).cancelRuntimeJob j
      | none => s.markDeleting d l r)

/-- The waiting deletion loses patience, or is itself cancelled: it cancels the worker. -/
def interruptDeletion (d : Nat) : Except Refusal State :=
  match s.deletions d with
  | none => .error .notEnabled
  | some x => .ok (s.cancelWorkers (fun w => x.worker==some w))

def forgetDeletion (d : Nat) : State := {s with deletions := update s.deletions d none}

def abandonDeletion (d : Nat) : Except Refusal State :=
  if (s.deletions d).isSome then .ok (s.forgetDeletion d) else .error .notEnabled

/-- The session and its queue leave the manager by label; `archived` tells whether the file
operations went through. -/
def removeSession (l : Label) (archived : Bool) : State :=
  {s with
    sessions := update s.sessions l none
    queues := update s.queues l []
    history := if archived then update s.history l [] else s.history}

/-- The last critical section of `delete_session`. -/
def finishDeletion (d : Nat) (archived : Bool) : Except Refusal State :=
  match s.deletions d with
  | none => .error .notEnabled
  | some x =>
    if x.worker.any s.alive then .error .notEnabled
    else .ok ((s.removeSession x.label archived).forgetDeletion d)

/-- The start of `_expire_session_locked`. -/
def markExpired (l : Label) : State :=
  {s with tombstones := update s.tombstones l true,workers := update s.workers l none}

/-- `_expire_session_locked`; when its file operations fail it stops half-way. -/
def expireRecord (l : Label) (archived : Bool) : State :=
  if archived then
    ((s.markExpired l).removeSession l true).cancelWorkers (fun w => s.workers l==some w)
  else s.markExpired l

/-- `maintenance` on one label of `_expired_session_labels`. -/
def expireSession (l : Label) (cutoff : Nat) (archived : Bool) : Except Refusal State :=
  match s.sessions l with
  | none => .error .unknownSession
  | some r =>
    if s.config.sessionTtlDays=0 ∨ cutoff≤r.updatedAt ∨ s.isProtected l ∨ (s.running l).isSome ∨
        s.queues l≠[] then .error .notEnabled
    else .ok (s.expireRecord l archived)

/-- `reconfigure`: a stale revision is ignored, an equal one must agree. -/
def reconfigure (c : Config) (revision : Option Nat) (cwdValid : Bool) : Except Refusal State :=
  let stale := match revision,s.settingsRevision with
    | some r,some r' => decide (r<r')
    | _,_ => false
  let next := {s with settingsRevision := revision.or s.settingsRevision}
  if s.shuttingDown then .error .closing
  else if stale then .ok s
  else if revision.isSome && revision==s.settingsRevision && c != s.config then
    .error .conflictingSettings
  else if c=s.config then .ok next
  else if !cwdValid then .error .invalidCwd
  else .ok {next with config := c}

/-- `shutdown` up to its waits. -/
def close (k : Nat) : State :=
  let jobs := (List.range s.accepted).filter (fun j => s.running (s.jobs j).label==some j)
  let workers := (List.range s.spawned).filter (fun w => s.workers (s.tasks w).label==some w)
  {s with
    shuttingDown := true
    shutdowns := update s.shutdowns k (some ⟨jobs,workers⟩)}.dropQueued (fun _ => true)

def beginShutdown (k : Nat) : Except Refusal State :=
  if (s.shutdowns k).isSome then .error .notEnabled else .ok (s.close k)

def shutdownCancelsJob (k j : Nat) : Except Refusal State :=
  if (s.shutdowns k).any (·.jobs.contains j) then .ok (s.cancelRuntimeJob j)
  else .error .notEnabled

def interruptShutdown (k : Nat) : Except Refusal State :=
  match s.shutdowns k with
  | none => .error .notEnabled
  | some x => .ok (s.cancelWorkers (x.workers.contains ·))

def forgetShutdown (k : Nat) : State := {s with shutdowns := update s.shutdowns k none}

def abandonShutdown (k : Nat) : Except Refusal State :=
  if (s.shutdowns k).isSome then .ok (s.forgetShutdown k) else .error .notEnabled

/-- The last critical section of `shutdown`. -/
def clearAll : State := {s with workers := fun _ => none,running := fun _ => none}

def finishShutdown (k : Nat) : Except Refusal State :=
  match s.shutdowns k with
  | none => .error .notEnabled
  | some x =>
    if x.workers.any s.alive then .error .notEnabled else .ok (s.clearAll.forgetShutdown k)

/-! Workers. A pending cancellation is delivered before a worker does anything else. -/

def retire (w : Nat) : State :=
  {s.setPoint w .dead with workers := update s.workers (s.labelOf w) none}

def popQueue (l : Label) : State := {s with queues := update s.queues l (s.queues l).tail}

def takeJob (w j : Nat) : State :=
  {(s.setJob j (fun x => {x with status := .queued})).setPoint w (.executing j .preparing) with
    running := update s.running (s.labelOf w) (some j)
    claims := j::s.claims}

/-- One pass of `_claim_next_job`. -/
def claim (w : Nat) : State :=
  let l := s.labelOf w
  match s.queues l with
  | [] => s.retire w
  | j::_ =>
    if s.closing l then s.retire w
    else if (s.sessions l).isNone || (s.jobs j).cancelRequested then
      ((s.popQueue l).setJob j markJobCancelled).setPoint w .claiming
    else (s.popQueue l).takeJob w j

def mayGoOn (w j : Nat) : Bool :=
  !s.closing (s.labelOf w) && !(s.jobs j).cancelRequested && s.running (s.labelOf w)==some j

/-- `_prepare_job_start` once it holds a permit; `cwdValid` is the check under the new policy. -/
def startJob (w j : Nat) (cwdValid : Bool) : State :=
  if s.mayGoOn w j then
    let t := s.setJob j (fun x => {x with status := .starting})
    if cwdValid then {t.setPoint w (.executing j .spawning) with starts := j::s.starts}
    else t.setPoint w (.executing j (.ended .failedExecution))
  else (s.setJob j (fun x => {x with cancelRequested := true})).setPoint w
    (.executing j (.ended .cancelledResult))

/-- `_register_spawned_process` -/
def registerProcess (w j : Nat) : State :=
  (s.setJob j (fun x => {x with
    process := true
    status := if s.mayGoOn w j then .starting else .cancelling
    spawnHandoff := true})).setPoint w
    (.executing j (if s.mayGoOn w j then .registered else .stopping))

/-- `_authorize_job_prompt` -/
def authorizePrompt (w j : Nat) : State :=
  let maySend := s.mayGoOn w j && (s.jobs j).spawnHandoff
  (s.setJob j (fun x => {x with
    promptStarted := x.promptStarted || maySend
    status := if maySend then .running else .cancelling})).setPoint w
    (.executing j (if maySend then .prompted else .stopping))

def sendPrompt (w j : Nat) : State :=
  {s.setPoint w (.executing j .conversing) with prompts := j::s.prompts}

/-- What `_execute_job` may return, or have made of an exception, at a stage. -/
def admits (j : Nat) (r : Result) : Stage → Bool
  | .preparing => if (s.jobs j).cancelRequested then r==.cancelledResult || r==.failedExecution
      else r==.failedExecution
  | .spawning | .registered | .prompted => r==.failedExecution
  | .stopping => r==.cancelledResult || r==.failedExecution
  | .conversing => true
  | .unwinding | .settling | .ended _ => false

/-- `_settle_cancelled_execution` -/
def settleCancelled (w j : Nat) : State :=
  (s.setJob j (fun x => {x with cancelRequested := true})).setPoint w
    (.executing j (if (s.jobs j).process then .settling else .ended .cancelledResult))

def acknowledge (w : Nat) : State :=
  {s with tasks := update s.tasks w {s.tasks w with cancelled := false}}

/-- `CancelledError` reaches the worker where it waits. -/
def deliverCancellation (w : Nat) : Except Refusal State :=
  let t := s.acknowledge w
  match (s.tasks w).point with
  | .fresh | .claiming | .sending _ | .executing _ .settling => .ok (t.setPoint w .dead)
  | .executing j .preparing => .ok (t.settleCancelled w j)
  | .executing _ (.ended _) | .dead => .error .notEnabled
  | .executing j _ => .ok (t.setPoint w (.executing j .unwinding))
  | .collecting j _ => .ok (t.setPoint w (.collecting j true))

/-- `_finalize_job` up to the artifact thread, with `_commit_job_result`. -/
def finalizeJob (w j : Nat) (r : Result) (time : Nat) : State :=
  let l := s.labelOf w
  {(s.setJob j (fun x => {x with
    status := if x.cancelRequested || r.cancelled then .cancelled
      else if r.timedOut || !r.succeeded then .failed else .done
    process := false
    spawnHandoff := true})).setPoint w (.collecting j false) with
    running := if s.running l=some j then update s.running l none else s.running
    sessions := update s.sessions l ((s.sessions l).map ({· with updatedAt := time}))}

/-- The rest of `_finalize_job`, and what `_worker` does next. -/
def finishJob (w j : Nat) (interrupted : Bool) : State :=
  (s.setJob j (fun x => {x with spawnHandoff := true,finished := true})).setPoint w
    (if interrupted then .dead
    else if s.closing (s.labelOf w) then .claiming else .sending j)

/-- A step of a worker between two suspensions. -/
inductive Move where
  | claim | start (cwdValid : Bool) | register | authorize | sendPrompt | conclude (r : Result)
  | unwound | settled | finalize (time : Nat) | finish
deriving Repr, DecidableEq

def moveWorker (w : Nat) (m : Move) : Except Refusal State :=
  match (s.tasks w).cancelled,m,(s.tasks w).point with
  | _,.finalize time,.executing j (.ended r) => .ok (s.finalizeJob w j r time)
  | true,_,_ => .error .notEnabled
  | false,.claim,.fresh => .ok (s.claim w)
  | false,.claim,.claiming => .ok (s.claim w)
  | false,.claim,.sending _ => .ok (s.claim w)
  | false,.start cwdValid,.executing j .preparing => .ok (s.startJob w j cwdValid)
  | false,.register,.executing j .spawning => .ok (s.registerProcess w j)
  | false,.authorize,.executing j .registered => .ok (s.authorizePrompt w j)
  | false,.sendPrompt,.executing j .prompted => .ok (s.sendPrompt w j)
  | false,.conclude r,.executing j stage =>
    if s.admits j r stage then .ok (s.setPoint w (.executing j (.ended r))) else .error .notEnabled
  | false,.unwound,.executing j .unwinding => .ok (s.settleCancelled w j)
  | false,.settled,.executing j .settling =>
    .ok (s.setPoint w (.executing j (.ended .cancelledResult)))
  | false,.finish,.collecting j interrupted => .ok (s.finishJob w j interrupted)
  | false,_,_ => .error .notEnabled

end State

inductive Act where
  | create (l : Label) (time : Nat) (saved noted : Bool)
  | enqueue (l : Label) (overhead : Bool) (chars disk time : Nat) (saved : Bool)
  | cancel (l : Label) (jobId : Option Nat)
  | cancelAgent (j : Nat)
  | clearQueue (l : Label)
  | delete (d : Nat) (l : Label) (force allowProtected : Bool)
  | interruptDeletion (d : Nat)
  | abandonDeletion (d : Nat)
  | finishDeletion (d : Nat) (archived : Bool)
  | expire (l : Label) (cutoff : Nat) (archived : Bool)
  | reconfigure (c : Config) (revision : Option Nat) (cwdValid : Bool)
  | beginShutdown (k : Nat)
  | shutdownCancels (k j : Nat)
  | interruptShutdown (k : Nat)
  | abandonShutdown (k : Nat)
  | finishShutdown (k : Nat)
  | deliver (w : Nat)
  | move (w : Nat) (m : State.Move)
deriving Repr, DecidableEq

def State.handle (s : State) : Act → Except Refusal State
  | .create l time saved noted => s.createSession l time saved noted
  | .enqueue l overhead chars disk time saved => s.enqueue l overhead chars disk time saved
  | .cancel l jobId => s.cancel l jobId
  | .cancelAgent j => s.cancelAgentJob j
  | .clearQueue l => s.clearQueue l
  | .delete d l force allowProtected => s.deleteSession d l force allowProtected
  | .interruptDeletion d => s.interruptDeletion d
  | .abandonDeletion d => s.abandonDeletion d
  | .finishDeletion d archived => s.finishDeletion d archived
  | .expire l cutoff archived => s.expireSession l cutoff archived
  | .reconfigure c revision cwdValid => s.reconfigure c revision cwdValid
  | .beginShutdown k => s.beginShutdown k
  | .shutdownCancels k j => s.shutdownCancelsJob k j
  | .interruptShutdown k => s.interruptShutdown k
  | .abandonShutdown k => s.abandonShutdown k
  | .finishShutdown k => s.finishShutdown k
  | .deliver w => if (s.tasks w).cancelled then s.deliverCancellation w else .error .notEnabled
  | .move w m => s.moveWorker w m

def State.step (s : State) (a : Act) : Option State := (s.handle a).toOption

end XiaoQing.Codex
