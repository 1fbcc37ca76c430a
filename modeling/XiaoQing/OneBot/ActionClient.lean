import XiaoQing.Delivery.SendAction
import XiaoQing.Framework.Run

namespace XiaoQing.OneBot

open Framework Delivery

/-- The `echo` of an envelope: the one a request drew, or any other value. -/
inductive Echo
  | own (request : Nat)
  | other
  deriving DecidableEq

/-- The fields of an incoming envelope that the client reads; a missing one is `none`, and a
`retcode` that is not an `int` is `some none`. -/
structure Envelope where
  echo : Option Echo
  status : Option String
  retcode : Option (Option Int)
  messageId : Option MessageId
  deriving DecidableEq

def Envelope.isActionResponse (e : Envelope) : Bool :=
  e.echo.isSome && (e.status.isSome || e.retcode.isSome)

def onebotActionSucceeded (response : Option Envelope) : Bool :=
  match response with
  | none => false
  | some e => e.status=some "ok" && e.retcode=some (some 0)

/-- `_finalize_onebot_action`: the result, and the id written back to the action. -/
def finalizeOnebotAction (response : Option Envelope) : Bool × Option MessageId :=
  if onebotActionSucceeded response then (true,response.bind Envelope.messageId) else (false,none)

/-- The future an echo resolves. -/
inductive Future
  | pending
  | resolved (response : Envelope)
  | failed (reason : String)
  | cancelled
  deriving DecidableEq

/-- How `request_action` ends. -/
inductive Exit
  | returned (response : Option Envelope)
  | outcomeUnknown
  | cancelledAfterCommit
  | cancelled
  deriving DecidableEq

/-- Where a `request_action` is: not made, between `_connected_target` and the commit token, in
`ws.send`, waiting for the response, or over. -/
inductive RequestPhase
  | absent
  | targeted (ws auth : Nat)
  | sending
  | waiting
  | done (exit : Exit)
  deriving DecidableEq

/-- `_OneBotActionCommit`; the echo is the number of the request. -/
structure ActionCommit where
  auth : Nat
  ws : Nat

/-- One call of `request_action`. `written` is set once its frame may have been written to the
socket; `anyDelivered` is the flag of the delivery loop that made the call. -/
structure Request where
  phase : RequestPhase
  future : Future
  commit : Option ActionCommit
  written : Bool
  anyDelivered : Bool

/-- A `_listen`: in `websockets.connect`, in front of the next frame, at the response check of one,
about to leave the loop, in its `finally`, or over. -/
inductive ListenPhase
  | connecting
  | reading
  | resolving (frame : Envelope)
  | leaving
  | closing
  | done
  deriving DecidableEq

/-- A connection with the generation of the `_EndpointAuthState` it was opened under. -/
structure Listener where
  auth : Nat
  phase : ListenPhase

/-- The request side of a `OneBotWsClient`. A connection and its socket have a
number, a request has the one of its echo, and an `_EndpointAuthState` is its generation.
`invalidations` holds the scheduled `invalidate_previous_generation`; `frames` records the envelopes
the connections have read. -/
structure ActionClient where
  endpointAuth : Nat
  credentialsTrusted : Bool
  ws : Option Nat
  connectedAuth : Option Nat
  pendingFutures : Nat → Bool
  pendingAuthStates : Nat → Option Nat
  requests : Nat → Request
  listeners : Nat → Listener
  nextListener : Nat
  invalidations : List Nat
  frames : List (Nat × Envelope)

namespace ActionClient

def setRequest (s : ActionClient) (r : Nat) (q : Request) : ActionClient :=
  {s with requests := Function.update s.requests r q}

def setListener (s : ActionClient) (l : Nat) (phase : ListenPhase) : ActionClient :=
  {s with listeners := Function.update s.listeners l {s.listeners l with phase := phase}}

/-- `_connected_target`; `isOpen` is what the socket says about itself. -/
def connectedTarget (s : ActionClient) (isOpen : Bool) : Option (Nat × Nat) :=
  match s.ws with
  | none => none
  | some ws =>
    if !s.credentialsTrusted then none
    else if s.connectedAuth≠none ∧ s.connectedAuth≠some s.endpointAuth then none
    else if !isOpen then none
    else some (ws,s.endpointAuth)

/-- The requests `_fail_pending_action_futures` takes out of the map. -/
def failing (s : ActionClient) (auth : Option Nat) (r : Nat) : Bool :=
  s.pendingFutures r &&
    (auth=none || s.pendingAuthStates r=none || s.pendingAuthStates r=auth)

def failPendingActionFutures (s : ActionClient) (reason : String) (exclude auth : Option Nat) :
    ActionClient :=
  {s with
    pendingFutures := fun r => s.pendingFutures r && !s.failing auth r
    pendingAuthStates := fun r => if s.failing auth r then none else s.pendingAuthStates r
    requests := fun r =>
      if s.failing auth r ∧ exclude≠some r ∧ (s.requests r).future=.pending
      then {s.requests r with future := .failed reason} else s.requests r}

/-- `_resolve_action_response` under a connection of generation `auth`. -/
def resolveActionResponse (s : ActionClient) (auth : Nat) (frame : Envelope) : ActionClient :=
  if !frame.isActionResponse then s
  else match frame.echo with
    | some (.own r) =>
      if auth=s.endpointAuth ∧ s.pendingFutures r=true ∧ (s.requests r).future=.pending ∧
          s.pendingAuthStates r=some auth
      then s.setRequest r {s.requests r with future := .resolved frame} else s
    | _ => s

def dropPending (s : ActionClient) (r : Nat) : ActionClient :=
  if s.pendingFutures r then {s with
    pendingFutures := Function.update s.pendingFutures r false
    pendingAuthStates := Function.update s.pendingAuthStates r none}
  else s

/-- The `finally` of `request_action`. -/
def finishRequest (s : ActionClient) (r : Nat) (exit : Exit) : ActionClient :=
  let q := s.requests r
  let future := if q.future=.pending then .cancelled else q.future
  (s.setRequest r {q with phase := .done exit,future := future}).dropPending r

def abandon (s : ActionClient) (commit : Option ActionCommit) : ActionClient :=
  if commit.isSome ∧ s.ws=commit.map ActionCommit.ws then {s with ws := none} else s

/-- The `except Exception` of `request_action`. -/
def sendFailed (s : ActionClient) (r : Nat) : ActionClient :=
  let commit := (s.requests r).commit
  ((s.abandon commit).failPendingActionFutures "WebSocket send failed" (some r)
    (commit.map ActionCommit.auth)).finishRequest r
      (if commit=none then .returned none else .outcomeUnknown)

def beginRequest (s : ActionClient) (r : Nat) (isOpen anyDelivered : Bool) : ActionClient :=
  let phase := match s.connectedTarget isOpen with
    | none => RequestPhase.done (.returned none)
    | some (ws,auth) => .targeted ws auth
  s.setRequest r ⟨phase,.pending,none,false,anyDelivered⟩

/-- The commit token, under the lock: rotation before it rejects the claim. -/
def commitRequest (s : ActionClient) (r ws auth : Nat) : ActionClient :=
  if s.ws≠some ws ∨ s.endpointAuth≠auth ∨ (s.connectedAuth≠none ∧ s.connectedAuth≠some auth)
  then s.finishRequest r (.returned none)
  else
    let s := s.setRequest r {s.requests r with phase := .sending,commit := some ⟨auth,ws⟩}
    {s with
      pendingFutures := Function.update s.pendingFutures r true
      pendingAuthStates := Function.update s.pendingAuthStates r (some auth)}

/-- The swap of `update`, under the lock. -/
def rotate (s : ActionClient) (trusted : Bool) : ActionClient :=
  {s with
    connectedAuth :=
      if s.ws.isSome ∧ s.connectedAuth=none then some s.endpointAuth else s.connectedAuth
    endpointAuth := s.endpointAuth+1
    credentialsTrusted := trusted
    invalidations := s.endpointAuth::s.invalidations}

/-- `_listen` up to its first frame: a connection of an older generation is closed. -/
def accept (s : ActionClient) (l : Nat) : ActionClient :=
  if (s.listeners l).auth=s.endpointAuth then
    {s.setListener l .reading with ws := some l,connectedAuth := some s.endpointAuth}
  else s.setListener l .done

def withdraw (s : ActionClient) (l : Nat) : ActionClient :=
  if s.ws=some l then {s with ws := none,connectedAuth := none} else s

def Initial (s : ActionClient) : Prop :=
  s.ws=none ∧ s.connectedAuth=none ∧ s.nextListener=0 ∧ s.invalidations=[] ∧
  s.frames=[] ∧ (∀r,s.pendingFutures r=false) ∧ (∀r,s.pendingAuthStates r=none) ∧
  (∀r,s.requests r=⟨.absent,.pending,none,false,false⟩) ∧ ∀l,(s.listeners l).phase=.connecting

end ActionClient

open ActionClient

inductive ActionAct
  | request (r : Nat) (isOpen anyDelivered : Bool)
  | commit (r : Nat)
  | write (r : Nat)
  | sent (r : Nat)
  | sendRaises (r : Nat) (timedOut : Bool)
  | wake (r : Nat)
  | timeout (r : Nat)
  | cancel (r : Nat)
  | rotate (trusted : Bool)
  | invalidate (auth : Nat)
  | connect
  | accept (l : Nat)
  | receive (l : Nat) (frame : Envelope)
  | resolve (l : Nat)
  | disconnect (l : Nat)
  | detach (l : Nat)
  | closed (ws : Nat)
  | stop

/-- One stretch of the client between two points where others can run; `none` when it is not
enabled. -/
def actionStep (s : ActionClient) : ActionAct → Option ActionClient
  | .request r isOpen anyDelivered =>
    if (s.requests r).phase=.absent then some (s.beginRequest r isOpen anyDelivered) else none
  | .commit r =>
    match (s.requests r).phase with
    | .targeted ws auth => some (s.commitRequest r ws auth)
    | _ => none
  | .write r =>
    if (s.requests r).phase=.sending then some (s.setRequest r {s.requests r with written := true})
    else none
  | .sent r =>
    if (s.requests r).phase=.sending then
      some (s.setRequest r {s.requests r with written := true,phase := .waiting})
    else none
  | .sendRaises r timedOut =>
    if (s.requests r).phase=.sending then
      some (if timedOut then s.finishRequest r .outcomeUnknown else s.sendFailed r)
    else none
  | .wake r =>
    if (s.requests r).phase=.waiting then
      match (s.requests r).future with
      | .resolved response => some (s.finishRequest r (.returned (some response)))
      | .failed _ => some (s.sendFailed r)
      | _ => none
    else none
  | .timeout r =>
    if (s.requests r).phase=.waiting then some (s.finishRequest r .outcomeUnknown) else none
  | .cancel r =>
    match (s.requests r).phase with
    | .sending => some (s.finishRequest r .cancelled)
    | .waiting => some (s.finishRequest r .cancelledAfterCommit)
    | _ => none
  | .rotate trusted => some (s.rotate trusted)
  | .invalidate auth =>
    if auth∈s.invalidations then
      let s := s.failPendingActionFutures "WebSocket authorization changed" none (some auth)
      some {s with invalidations := s.invalidations.erase auth}
    else none
  | .connect =>
    if s.credentialsTrusted then some {s with
      listeners := Function.update s.listeners s.nextListener ⟨s.endpointAuth,.connecting⟩
      nextListener := s.nextListener+1}
    else none
  | .accept l =>
    if l < s.nextListener ∧ (s.listeners l).phase=.connecting then some (s.accept l) else none
  | .receive l frame =>
    if l < s.nextListener ∧ (s.listeners l).phase=.reading then
      let t := {s with frames := ((s.listeners l).auth,frame)::s.frames}
      some (if (s.listeners l).auth=s.endpointAuth then t.setListener l (.resolving frame)
        else t.setListener l .leaving)
    else none
  | .resolve l =>
    if l < s.nextListener then
      match (s.listeners l).phase with
      | .resolving frame =>
        some ((s.resolveActionResponse (s.listeners l).auth frame).setListener l .reading)
      | _ => none
    else none
  | .disconnect l =>
    if l < s.nextListener ∧ ((s.listeners l).phase=.reading ∨ (s.listeners l).phase=.leaving) then
      some ((s.failPendingActionFutures "WebSocket connection closed" none
        (some (s.listeners l).auth)).setListener l .closing)
    else none
  | .detach l =>
    if l < s.nextListener ∧ (s.listeners l).phase=.closing then
      some ((s.withdraw l).setListener l .done)
    else none
  | .closed ws => some (s.withdraw ws)
  | .stop => some (s.failPendingActionFutures "WebSocket client stopped" none none)

/-- `_send_single_action` on what `send_action` did with a part; `rest` is what the transports
behind the socket do with it. -/
def sendSingleAction (recordCancelled observerRaises : Bool) (rest : PartResult) (written : Bool) :
    Exit → PartResult
  | .returned response =>
    match finalizeOnebotAction response with
    | (true,messageId) => .returned (some true) messageId recordCancelled observerRaises
    | (false,_) => rest
  | .outcomeUnknown => .returned none none recordCancelled observerRaises
  | .cancelledAfterCommit => .raised true written
  | .cancelled => .raised false written

/-- What `_send_action` records on the receipt for a part. -/
def recorded (anyDelivered : Bool) : PartResult → Option Bool
  | .returned sent _ _ _ => sent
  | .raised afterCommit _ => if afterCommit || anyDelivered then none else some false

end XiaoQing.OneBot
