import XiaoQing.Framework.Run
import XiaoQing.Framework.Utf8

namespace XiaoQing.Execution.ProcessTree

open Framework

abbrev Text := List Char

/-- The output streams of a process. -/
inductive Stream
  | stdout
  | stderr
  deriving DecidableEq

structure Output where
  /-- What the process wrote. -/
  written : List UInt8
  /-- How much of it was read. -/
  taken : Nat
  buffer : List (List UInt8)
  /-- The reader has returned. -/
  ended : Bool

/-- `b"".join(buffers[name])` -/
def Output.kept (o : Output) : List UInt8 := o.buffer.flatten

/-- What was done to end the process tree: its job was closed, its group was killed, or the process
alone was. -/
inductive Kill
  | job
  | group
  | root

structure ProcessResult where
  exitCode : Option Int
  stdout : Text
  stderr : Text
  timedOut : Bool
  outputLimited : Bool

/-- A result, the bytes it was made from and how many had been read then. -/
structure Report where
  result : ProcessResult
  outputs : Stream → List UInt8
  seen : Nat

/-- How a run ends: with a result, with `CancelledError` or with another error. -/
inductive Outcome
  | returned (r : Report)
  | cancelled
  | raised

/-- The task that ends the tree of a cancelled run. -/
inductive Cleanup
  | scheduled
  | running
  | done

/-- Where `run_process` waits. -/
inductive Stage
  /-- In `create_subprocess_exec`. -/
  | spawning
  /-- In `_spawn`, for the gate of the job. -/
  | gating
  /-- `_spawn` has raised, or was cancelled. -/
  | unspawned
  /-- For the exit, the overflow or the timeout. -/
  | watching
  /-- In `terminate`, after a timeout or an overflow. -/
  | stopping (timedOut : Bool)
  /-- For the readers. -/
  | draining (terminated timedOut : Bool)
  /-- In `terminate`, with the pipes still held. -/
  | reaping (timedOut : Bool)
  /-- In the handler of a cancellation. -/
  | cancelling (cleanup : Cleanup)
  /-- In the `terminate` of the `finally` block. -/
  | ending (out : Outcome)
  /-- In the `finally` block, for the tasks. -/
  | closing (out : Outcome)
  | left (out : Outcome)

structure ProcessRun where
  /-- `sys.platform=="win32"` -/
  windows : Bool
  /-- `max_capture_bytes` -/
  budget : Nat
  stage : Stage
  /-- There is a process. -/
  started : Bool
  /-- `proc.returncode` -/
  exitCode : Option Int
  kills : List Kill
  captured : Nat
  overflow : Bool
  outputs : Stream → Output
  waitDone : Bool
  overflowDone : Bool

/-- `smart_decode`, with `bytes.decode("gbk")` as a parameter. -/
def smartDecode (windows : Bool) (gbk : List UInt8 → Option Text) (data : List UInt8) : Text :=
  if data=[] then []
  else
    match decodeStrict 0 0 data with
    | .ok text => text
    | .error e =>
      if e.reason=.unexpectedEndOfData∧e.stop=data.length then decodeReplace 0 (data.take e.start)
      else
        match if windows then gbk data else none with
        | some text => text
        | none => decodeReplace 0 data

namespace ProcessRun

variable (gbk : List UInt8 → Option Text) (s : ProcessRun)

def kept (p : Stream) : List UInt8 := (s.outputs p).kept

def seen : Nat := (s.outputs .stdout).taken+(s.outputs .stderr).taken

def setOutput (p : Stream) (o : Output) : ProcessRun := {s with outputs := Function.update s.outputs p o}

def kill (k : Kill) : ProcessRun := {s with kills := k::s.kills}

def goTo (g : Stage) : ProcessRun := {s with stage := g}

/-- What `terminate` does before it waits. -/
def terminate : ProcessRun := s.kill (if s.windows then .job else .group)

/-- `_kill_directly`, before it waits. -/
def killDirectly : ProcessRun := if s.exitCode=none then s.kill .root else s

def sweepPosixGroup : ProcessRun := if s.windows then s else s.kill .group

/-- The `finally` block, up to where it waits. -/
def enterFinally (out : Outcome) : ProcessRun :=
  let s := if s.windows then s.kill .job else s
  if s.exitCode=none then s.terminate.goTo (.ending out) else s.sweepPosixGroup.goTo (.closing out)

/-- One round of `read_limited`. -/
def readChunk (p : Stream) (chunk : List UInt8) : ProcessRun :=
  let o := s.outputs p
  let remaining := s.budget-s.captured
  let buffer := if 0 < remaining then o.buffer++[chunk.take remaining] else o.buffer
  {s.setOutput p {o with taken := o.taken+chunk.length, buffer := buffer} with
    captured := s.captured+min chunk.length remaining
    overflow := s.overflow||decide (remaining < chunk.length)}

def report (timedOut : Bool) : Report :=
  ⟨⟨if timedOut||s.overflow then none else s.exitCode,smartDecode s.windows gbk (s.kept .stdout),
    smartDecode s.windows gbk (s.kept .stderr),timedOut,s.overflow⟩,s.kept,s.seen⟩

def finish (timedOut : Bool) : ProcessRun := s.enterFinally (.returned (s.report gbk timedOut))

def drained : Bool := (s.outputs .stdout).ended&&(s.outputs .stderr).ended

end ProcessRun

inductive Act
  /-- The system starts the process, within `create_subprocess_exec`. -/
  | start
  | spawned
  /-- `create_subprocess_exec` raises, or is cancelled; it kills a process it has started. -/
  | spawnFails
  | gateOpens
  /-- `_spawn` raises, or is cancelled, after the process is there; with a job or before it has one. -/
  | gateFails (owned : Bool)
  | write (p : Stream) (bytes : List UInt8)
  | read (p : Stream) (n : Nat)
  /-- The end of the stream, or an error of its reader. -/
  | streamEnds (p : Stream)
  | exit (code : Int)
  | seeExit
  | seeOverflow
  /-- The first wait is over. -/
  | wake (expired : Bool)
  /-- A `terminate` goes on to `_kill_directly`. -/
  | killDirectly
  /-- A `terminate` returns. -/
  | terminated
  /-- The wait for the readers is over, past the deadline or not. -/
  | drained (expired late : Bool)
  | cancel
  /-- Another error is raised where the run waits. -/
  | fail
  | cleanupStarts
  /-- The cleanup task itself is cancelled. -/
  | cleanupCut
  | resume
  | closed

def Stage.hasTasks : Stage → Bool
  | .spawning => false
  | .gating => false
  | .unspawned => false
  | _ => true

/-- A `terminate` is under way. -/
def Stage.terminating : Stage → Bool
  | .stopping _ => true
  | .reaping _ => true
  | .cancelling .running => true
  | .ending _ => true
  | _ => false

def step (gbk : List UInt8 → Option Text) (s : ProcessRun) : Act → Option ProcessRun
  | .start =>
    match s.stage with
    | .spawning => if s.started then none else some {s with started := true}
    | _ => none
  | .spawned =>
    match s.stage with
    | .spawning =>
      if s.started then some (s.goTo (if s.windows then .gating else .watching)) else none
    | _ => none
  | .spawnFails =>
    match s.stage with
    | .spawning => some ((if s.started then s.killDirectly else s).goTo .unspawned)
    | _ => none
  | .gateOpens =>
    match s.stage with
    | .gating => some (s.goTo .watching)
    | _ => none
  | .gateFails owned =>
    match s.stage with
    | .gating => some ((if owned then s.kill .job else s).killDirectly.goTo .unspawned)
    | _ => none
  | .write p bytes =>
    let o := s.outputs p
    if s.started then some (s.setOutput p {o with written := o.written++bytes}) else none
  | .read p n =>
    let o := s.outputs p
    if s.stage.hasTasks&&!o.ended&&decide (0 < n∧n≤65536∧n≤o.written.length-o.taken) then
      some (s.readChunk p ((o.written.drop o.taken).take n)) else none
  | .streamEnds p =>
    if s.stage.hasTasks then some (s.setOutput p {s.outputs p with ended := true}) else none
  | .exit code => if s.started&&s.exitCode.isNone then some {s with exitCode := some code} else none
  | .seeExit => if s.stage.hasTasks&&s.exitCode.isSome then some {s with waitDone := true} else none
  | .seeOverflow => if s.stage.hasTasks&&s.overflow then some {s with overflowDone := true} else none
  | .wake expired =>
    match s.stage with
    | .watching =>
      if s.waitDone||s.overflowDone||expired then
        if s.overflowDone||!s.waitDone then some (s.terminate.goTo (.stopping (!s.overflowDone)))
        else some (s.goTo (.draining false false))
      else none
    | _ => none
  | .killDirectly => if s.stage.terminating then some s.killDirectly else none
  | .terminated =>
    match s.stage with
    | .stopping timedOut => some (s.goTo (.draining true timedOut))
    | .reaping timedOut => some (s.finish gbk timedOut)
    | .cancelling .running => some (s.goTo (.cancelling .done))
    | .ending out => some (s.sweepPosixGroup.goTo (.closing out))
    | _ => none
  | .drained expired late =>
    match s.stage with
    | .draining _ timedOut =>
      if s.drained then some (s.finish gbk timedOut)
      else if expired then some (s.terminate.goTo (.reaping (timedOut||late)))
      else none
    | _ => none
  | .cancel =>
    match s.stage with
    | .watching | .stopping _ | .draining _ _ | .reaping _ => some (s.goTo (.cancelling .scheduled))
    | .cancelling _ => some s
    | .ending _ | .closing _ => some (s.goTo (.left .cancelled))
    | _ => none
  | .fail =>
    match s.stage with
    | .watching | .stopping _ | .draining _ _ | .reaping _ | .cancelling .running =>
      some (s.enterFinally .raised)
    | .ending _ | .closing _ => some (s.goTo (.left .raised))
    | _ => none
  | .cleanupStarts =>
    match s.stage with
    | .cancelling .scheduled => some (s.terminate.goTo (.cancelling .running))
    | _ => none
  | .cleanupCut =>
    match s.stage with
    | .cancelling .scheduled => some (s.goTo (.cancelling .done))
    | .cancelling .running => some (s.goTo (.cancelling .done))
    | _ => none
  | .resume =>
    match s.stage with
    | .cancelling .done => some (s.enterFinally .cancelled)
    | _ => none
  | .closed =>
    match s.stage with
    | .closing out => some (s.goTo (.left out))
    | _ => none

def Starts (s : ProcessRun) : Prop :=
  s.stage=.spawning∧s.started=false∧s.exitCode=none∧s.captured=0∧s.overflow=false∧s.waitDone=false∧
    s.overflowDone=false∧∀p,s.outputs p=⟨[],0,[],false⟩

end XiaoQing.Execution.ProcessTree
