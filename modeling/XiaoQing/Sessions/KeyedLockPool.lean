import XiaoQing.Framework.AsyncLock
import XiaoQing.Framework.Rows
import XiaoQing.Framework.Run
import XiaoQing.Framework.Table

namespace XiaoQing.Sessions

open Framework

/-- Where a use of `hold` stands; a waiting task that is cancelled after its future is done finds
the cancellation when it resumes. -/
inductive HoldStage
  | waiting (cancelled : Bool)
  | held
  | ended
  deriving DecidableEq

structure HoldCall (κ : Type) where
  task : Nat
  key : κ
  entry : Nat
  stage : HoldStage

/-- `_Entry`; the waiters of its lock are named by their calls. -/
structure KeyEntry where
  lock : AsyncLock Nat
  users : Nat
  owner : Option Nat
  depth : Nat

/-- `AsyncKeyedLockPool` with its entries as numbered objects and the uses of `hold` in the order of
their arrival; `failures` counts the errors raised by the release. -/
structure AsyncKeyedLockPool (κ : Type) where
  maxKeys : Nat
  maxKeyLength : Nat
  entries : List (κ × Nat)
  entry : Nat → KeyEntry
  nextEntry : Nat
  holds : Nat → Option (HoldCall κ)
  nextHold : Nat
  failures : Nat

inductive PoolAct (κ : Type)
  | enter (task : Nat) (key : κ) (keyLength : Nat)
  | cancel (i : Nat)
  | resume (i : Nat)
  | exit (i : Nat)

variable {κ : Type}

def KeyEntry.new : KeyEntry := ⟨.new,0,none,0⟩

namespace AsyncKeyedLockPool

def new (maxKeys maxKeyLength : Nat) : AsyncKeyedLockPool κ :=
  ⟨maxKeys,maxKeyLength,[],fun _ => .new,0,fun _ => none,0,0⟩

section

variable (s : AsyncKeyedLockPool κ)

def setEntry (e : Nat) (E : KeyEntry) : AsyncKeyedLockPool κ :=
  {s with entry := Function.update s.entry e E}

def setStage (i : Nat) (c : HoldCall κ) (stage : HoldStage) : AsyncKeyedLockPool κ :=
  {s with holds := Function.update s.holds i (some {c with stage})}

def fail : AsyncKeyedLockPool κ := {s with failures := s.failures+1}

/-- A new use of `hold`, with its entry as the call leaves it. -/
def begin (c : HoldCall κ) (E : KeyEntry) : AsyncKeyedLockPool κ :=
  {s with
    entry := Function.update s.entry c.entry E
    holds := Function.update s.holds s.nextHold (some c)
    nextHold := s.nextHold+1}

/-- `hold` from the user count to the body or to the wait for the lock. -/
def join (task : Nat) (key : κ) (e : Nat) : AsyncKeyedLockPool κ :=
  let E := {s.entry e with users := (s.entry e).users+1}
  if E.owner=some task then s.begin ⟨task,key,e,.held⟩ {E with depth := E.depth+1}
  else if E.lock.free then
    s.begin ⟨task,key,e,.held⟩ {E with lock := E.lock.take,owner := some task,depth := 1}
  else s.begin ⟨task,key,e,.waiting false⟩ {E with lock := E.lock.enqueue s.nextHold}

end

variable [DecidableEq κ] (s : AsyncKeyedLockPool κ)

/-- `entries.get(key)`. -/
def get (key : κ) : Option Nat := (row Prod.fst s.entries key).map Prod.snd

/-- `hold` up to its first suspension. A key of a wrong length and a key above the capacity of the
pool are refused. -/
def enter (task : Nat) (key : κ) (keyLength : Nat) : AsyncKeyedLockPool κ :=
  if keyLength=0 ∨ s.maxKeyLength < keyLength then s
  else
    match s.get key with
    | some e => s.join task key e
    | none =>
      if s.maxKeys ≤ s.entries.length then s
      else
        {s with
          entries := s.entries++[(key,s.nextEntry)]
          entry := Function.update s.entry s.nextEntry .new
          nextEntry := s.nextEntry+1}.join task key s.nextEntry

/-- The end of the `finally` clause. -/
def leave (c : HoldCall κ) : AsyncKeyedLockPool κ :=
  let E := {s.entry c.entry with users := (s.entry c.entry).users-1}
  let t := s.setEntry c.entry E
  if E.users≠0 then t
  else if E.owner≠none ∨ E.depth≠0 ∨ E.lock.locked=true then t.fail
  else if t.get c.key=some c.entry then {t with entries := t.entries.filter fun p => p.1≠c.key}
  else t

/-- `task.cancel()` of a task that waits for the lock. -/
def cancel (i : Nat) : Option (AsyncKeyedLockPool κ) :=
  match s.holds i with
  | none => none
  | some c =>
    let E := s.entry c.entry
    match c.stage,E.lock.signal i with
    | .waiting x,some .pending =>
      some ((s.setStage i c (.waiting x)).setEntry c.entry {E with lock := E.lock.cancel i})
    | .waiting _,some _ => some (s.setStage i c (.waiting true))
    | _,_ => none

def resume (i : Nat) : Option (AsyncKeyedLockPool κ) :=
  match s.holds i with
  | none => none
  | some c =>
    let E := s.entry c.entry
    match c.stage,E.lock.signal i with
    | .waiting false,some .result =>
      some ((s.setStage i c .held).setEntry c.entry
        {E with lock := E.lock.enter i,owner := some c.task,depth := 1})
    | .waiting true,some .result | .waiting _,some .cancelled =>
      some (((s.setStage i c .ended).setEntry c.entry {E with lock := E.lock.leave i}).leave c)
    | _,_ => none

/-- The `finally` clause of a use that holds the key. -/
def exit (i : Nat) : Option (AsyncKeyedLockPool κ) :=
  match s.holds i with
  | none => none
  | some c =>
    if c.stage≠.held then none
    else
      let E := s.entry c.entry
      let t := s.setStage i c .ended
      if E.owner≠some c.task ∨ E.depth=0 then some t.fail
      else if E.depth=1 then
        match E.lock.release with
        | none => some (t.setEntry c.entry {E with owner := none,depth := 0}).fail
        | some lock => some ((t.setEntry c.entry {E with lock,owner := none,depth := 0}).leave c)
      else some ((t.setEntry c.entry {E with depth := E.depth-1}).leave c)

def step : PoolAct κ → Option (AsyncKeyedLockPool κ)
  | .enter task key keyLength => some (s.enter task key keyLength)
  | .cancel i => s.cancel i
  | .resume i => s.resume i
  | .exit i => s.exit i

end AsyncKeyedLockPool

end XiaoQing.Sessions
