import XiaoQing.Framework.Run
import XiaoQing.Framework.Serial
import XiaoQing.Sessions.KeyedLock
import XiaoQing.Sessions.Session

namespace XiaoQing.Sessions

open Framework

/-- A call of the manager on one key; the session of `create` is built before the key is locked. -/
inductive Call
  | create (session : Session)
  | get
  | peek
  | delete
  | existing
  | update
  | cleanup
  | clear (plugin : String)

/-- How the callback of an update ends. -/
inductive Ending
  | returned
  | failed
  | cancelled

/-- An operation as it took effect, with the clock it read. -/
inductive SessionOp
  | create (session : Session)
  | get (now touched : Int)
  | peek (now : Int)
  | existing (now : Int)
  | delete
  | cleanup (now : Int)
  | clear (plugin : String)
  | update (now : Int) (script : List Stage) (ending : Ending) (committed : Int)

/-- `changed` is the error "stored session changed during a locked transaction". -/
inductive UpdateOutcome
  | missing
  | committed
  | raised (message : String)
  | failed
  | cancelled
  | changed

inductive SessionResult
  | session (result : Except String (Option Session))
  | flag (b : Bool)
  | update (replies : List StageReply) (outcome : UpdateOutcome)

/-- Where a task is: at none of the operations, in front of the next key of a sweep, in
`entry.lock.acquire()`, in `_await_transaction_future`, or running a callback, which then returned or
raised. `rest` holds the keys a sweep has left. -/
inductive TaskPhase
  | idle
  | between (call : Call) (rest : List SessionKey)
  | waiting (key : SessionKey) (entry : Nat) (reentrant : Bool) (call : Call)
      (rest : Option (List SessionKey))
  | transacting (key : SessionKey) (entry callback : Nat) (now : Int) (cancelled : Bool)
  | callback
  | ended (returned : Bool)

/-- A `_SessionTransaction`; `script` and `replies` record what its callback did. -/
structure Transaction where
  original : Nat
  staged : Staged
  script : List Stage
  replies : List StageReply

/-- The sessions of a `SessionManager` are numbered objects; `history` records for each key the
operations in the order they took effect. -/
structure SessionStore where
  objects : Nat → Session
  nextObject : Nat
  sessions : SessionKey → Option Nat
  history : SessionKey → List (SessionOp × SessionResult)

/-- A `SessionManager` and its tasks; a transaction is registered under its callback task. -/
structure SessionSystem where
  store : SessionStore
  pool : LockPool SessionKey
  transactions : Nat → Option (SessionKey × Transaction)
  tasks : Nat → TaskPhase
  nextTask : Nat

/-- `str(key)`. -/
def keyText (key : SessionKey) : String :=
  "("++toString key.1++", "++(match key.2 with | none => "None" | some g => toString g)++")"

namespace SessionStore

def setSession (s : SessionStore) (key : SessionKey) (o : Option Nat) : SessionStore :=
  {s with sessions := Function.update s.sessions key o}

def put (s : SessionStore) (key : SessionKey) (session : Session) : SessionStore :=
  {s with
    objects := Function.update s.objects s.nextObject session
    nextObject := s.nextObject+1
    sessions := Function.update s.sessions key (some s.nextObject)}

def touch (s : SessionStore) (o : Nat) (session : Session) : SessionStore :=
  {s with objects := Function.update s.objects o session}

def log (s : SessionStore) (key : SessionKey) (op : SessionOp) (result : SessionResult) :
    SessionStore :=
  {s with history := Function.update s.history key (s.history key++[(op,result)])}

def view (s : SessionStore) (key : SessionKey) : Option Session := (s.sessions key).map s.objects

def getActiveLocked (s : SessionStore) (key : SessionKey) (now : Int) :
    SessionStore × Option Nat :=
  match s.sessions key with
  | none => (s,none)
  | some o => if (s.objects o).isExpired now then (s.setSession key none,none) else (s,some o)

/-- `get` under the key lock: reads extend the idle lease. -/
def getLocked (s : SessionStore) (key : SessionKey) (now touched : Int) :
    SessionStore × Except String (Option Session) :=
  match s.getActiveLocked key now with
  | (s,none) => (s,.ok none)
  | (s,some o) =>
    let session := {s.objects o with updatedAt := touched}
    (s.touch o session,session.clone.map some)

/-- `delete`, and one key of `cleanup_expired` or `clear_plugin_sessions`: the stored session goes when
`drop` says so. -/
def dropLocked (s : SessionStore) (key : SessionKey) (drop : Session → Bool) :
    SessionStore × Bool :=
  match s.sessions key with
  | none => (s,false)
  | some o => if drop (s.objects o) then (s.setSession key none,true) else (s,false)

/-- The body of a call other than `update`, logged. -/
def perform (s : SessionStore) (key : SessionKey) (now touched : Int) : Call → SessionStore
  | .create session =>
    (s.put key session).log key (.create session) (.session (session.clone.map some))
  | .get =>
    match s.getLocked key now touched with
    | (s,result) => s.log key (.get now touched) (.session result)
  | .peek =>
    match s.getActiveLocked key now with
    | (s,o) => s.log key (.peek now) (.session (cloneOptional (o.map s.objects)))
  | .delete =>
    match s.dropLocked key (fun _ => true) with
    | (s,b) => s.log key .delete (.flag b)
  | .existing =>
    match s.getActiveLocked key now with
    | (s,o) => s.log key (.existing now) (.flag o.isSome)
  | .cleanup =>
    match s.dropLocked key (fun session => session.isExpired now) with
    | (s,b) => s.log key (.cleanup now) (.flag b)
  | .clear plugin =>
    match s.dropLocked key (fun session => session.pluginName=plugin) with
    | (s,b) => s.log key (.clear plugin) (.flag b)
  | .update => s

/-- `update` up to the callback: the working copy with the object it was taken from, unless there is
no session or no copy of it. -/
def openUpdate (s : SessionStore) (key : SessionKey) (now : Int) :
    SessionStore × Option (Nat × Session) :=
  match s.getActiveLocked key now with
  | (s,none) => (s.log key (.update now [] .returned 0) (.update [] .missing),none)
  | (s,some o) =>
    match (s.objects o).clone with
    | .error message =>
      (s.log key (.update now [] .returned 0) (.update [] (.raised message)),none)
    | .ok working => (s,some (o,working))

/-- The commit of an update whose callback returned, under `_lock`. -/
def commit (s : SessionStore) (key : SessionKey) (tx : Transaction) (committed : Int) :
    SessionStore × UpdateOutcome :=
  match prepareCommit key (s.objects tx.original) tx.staged committed with
  | .error message => (s,.raised message)
  | .ok candidate =>
    if s.sessions key≠some tx.original then (s,.changed)
    else match candidate with
      | none => (s.setSession key none,.committed)
      | some session => (s.put key session,.committed)

/-- `update` from the end of the callback on. -/
def closeUpdate (s : SessionStore) (key : SessionKey) (now : Int) (tx : Transaction)
    (ending : Ending) (committed : Int) : SessionStore :=
  let (s,outcome) := match ending with
    | .returned => s.commit key tx committed
    | .failed => (s,UpdateOutcome.failed)
    | .cancelled => (s,.cancelled)
  s.log key (.update now tx.script ending committed) (.update tx.replies outcome)

end SessionStore

namespace SessionSystem

def setTask (s : SessionSystem) (t : Nat) (phase : TaskPhase) : SessionSystem :=
  {s with tasks := Function.update s.tasks t phase}

def hold (s : SessionSystem) (t : Nat) (key : SessionKey) (call : Call)
    (rest : Option (List SessionKey)) : SessionSystem :=
  match s.pool.hold (keyText key).length t key with
  | none => s.setTask t .idle
  | some (pool,e,reentrant) =>
    {s.setTask t (.waiting key e reentrant call rest) with pool := pool}

def finish (s : SessionSystem) (t : Nat) (key : SessionKey) (e : Nat) (call : Call)
    (rest : Option (List SessionKey)) : SessionSystem :=
  let phase := match rest with
    | none => .idle
    | some keys => .between call keys
  {s.setTask t phase with pool := s.pool.release t key e}

/-- The callback runs in a task of its own, under which the transaction is registered. -/
def beginUpdate (s : SessionSystem) (t : Nat) (key : SessionKey) (e : Nat) (now : Int) (o : Nat)
    (working : Session) : SessionSystem :=
  {(s.setTask s.nextTask .callback).setTask t (.transacting key e s.nextTask now false) with
    nextTask := s.nextTask+1
    transactions := Function.update s.transactions s.nextTask
      (some (key,⟨o,⟨some working,false⟩,[],[]⟩))}

def body (s : SessionSystem) (t : Nat) (key : SessionKey) (e : Nat) (now touched : Int) (call : Call)
    (rest : Option (List SessionKey)) : SessionSystem :=
  match call with
  | .update =>
    match s.store.openUpdate key now with
    | (store,none) => {s with store := store}.finish t key e .update rest
    | (store,some (o,working)) => {s with store := store}.beginUpdate t key e now o working
  | call => {s with store := s.store.perform key now touched call}.finish t key e call rest

def endUpdate (s : SessionSystem) (t : Nat) (key : SessionKey) (e callback : Nat) (now : Int)
    (tx : Transaction) (ending : Ending) (committed : Int) : SessionSystem :=
  {s with
    store := s.store.closeUpdate key now tx ending committed
    transactions := Function.update s.transactions callback none}.finish t key e .update none

structure Initial (s : SessionSystem) : Prop where
  sessions : ∀key,s.store.sessions key=none
  history : ∀key,s.store.history key=[]
  entries : ∀key,s.pool.entries key=none
  nextLock : s.pool.nextLock=0
  faults : s.pool.faults=[]
  tasks : ∀t,s.tasks t=.idle
  nextTask : s.nextTask=0

end SessionSystem

open SessionSystem

def active (now : Int) : Option Session → Option Session
  | none => none
  | some session => if session.isExpired now then none else some session

def dropped (drop : Session → Bool) : Option Session → Option Session × Bool
  | none => (none,false)
  | some session => if drop session then (none,true) else (some session,false)

/-- The abstract object behind one key: every operation, an update with the whole of its callback,
is one step on the stored session. -/
def serialStep (key : SessionKey) (stored : Option Session) :
    SessionOp → Option Session × SessionResult
  | .create session => (some session,.session (session.clone.map some))
  | .get now touched =>
    match active now stored with
    | none => (none,.session (.ok none))
    | some session =>
      let session := {session with updatedAt := touched}
      (some session,.session (session.clone.map some))
  | .peek now => (active now stored,.session (cloneOptional (active now stored)))
  | .existing now => (active now stored,.flag (active now stored).isSome)
  | .delete => ((dropped (fun _ => true) stored).1,.flag (dropped (fun _ => true) stored).2)
  | .cleanup now =>
    let (stored,b) := dropped (fun session => session.isExpired now) stored
    (stored,.flag b)
  | .clear plugin =>
    let (stored,b) := dropped (fun session => session.pluginName=plugin) stored
    (stored,.flag b)
  | .update now script ending committed =>
    match active now stored with
    | none => (none,.update [] .missing)
    | some original =>
      match original.clone with
      | .error message => (some original,.update [] (.raised message))
      | .ok working =>
        let (staged,replies) := (Staged.mk (some working) false).run script
        match ending with
        | .failed => (some original,.update replies .failed)
        | .cancelled => (some original,.update replies .cancelled)
        | .returned =>
          match prepareCommit key original staged committed with
          | .error message => (some original,.update replies (.raised message))
          | .ok candidate => (candidate,.update replies .committed)

end XiaoQing.Sessions
