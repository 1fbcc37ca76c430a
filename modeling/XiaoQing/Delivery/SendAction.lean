import Mathlib.Tactic.Common

namespace XiaoQing.Delivery

section

abbrev MessageId := String

/-- The three settlement callbacks a plugin hands to its receipt. -/
inductive Callback
  | commit
  | rollback
  | unknown
  deriving DecidableEq,Repr

/-- `DeliveryReceipt`. `calls` records the callbacks invoked so far, in order;
`outcome` is only meaningful once `resolved`. -/
structure DeliveryReceipt where
  expectedActions : Nat
  deliveredActions : Nat
  resolved : Bool
  committed : Bool
  outcome : Option Bool
  callbackError : Bool
  handoffPending : Bool
  messageIds : List MessageId
  calls : List Callback
  expected_pos : 0<expectedActions

namespace DeliveryReceipt

/-- `__init__`: a non-positive count is raised to one. -/
def new (expected : Int) : DeliveryReceipt :=
  ⟨max 1 expected.toNat,0,false,false,none,false,false,[],[],by omega⟩

def deferToTransport (r : DeliveryReceipt) : DeliveryReceipt :=
  {r with handoffPending := true}

/-- The property `handoff_pending`. -/
def handoffIsPending (r : DeliveryReceipt) : Bool := r.handoffPending && !r.resolved

def addMessageId (r : DeliveryReceipt) (messageId : Option MessageId) : DeliveryReceipt :=
  match messageId with
  | none => r
  | some m =>
    if m="" then r
    else if r.resolved then r
    else {r with messageIds := r.messageIds++[m]}

def addExpectedActions (r : DeliveryReceipt) (count : Nat) : DeliveryReceipt :=
  if r.resolved then r
  else {r with
    expectedActions := r.expectedActions+count
    expected_pos := Nat.add_pos_left r.expected_pos count}

/-- The callback runs outside the lock; a raising callback is kept as `callbackError`
and never rewrites the outcome. -/
def settle (r : DeliveryReceipt) (outcome : Option Bool) (callback : Callback)
    (raises : Callback → Bool) : DeliveryReceipt :=
  {r with
    resolved := true
    outcome := outcome
    calls := r.calls++[callback]
    callbackError := r.callbackError || raises callback
    committed := r.committed || (callback=.commit && !raises callback)}

/-- `record`; `none` stands for the unknown outcome. -/
def record (r : DeliveryReceipt) (delivered : Option Bool) (raises : Callback → Bool) :
    DeliveryReceipt :=
  if r.resolved then r
  else match delivered with
    | none => r.settle none .unknown raises
    | some false => r.settle (some false) .rollback raises
    | some true =>
      let r' := {r with deliveredActions := r.deliveredActions+1}
      if r'.expectedActions≤r'.deliveredActions then r'.settle (some true) .commit raises
      else r'

/-- The state machine invariant: callbacks run exactly when the receipt resolves, and the
outcome names the callback. -/
structure WellFormed (r : DeliveryReceipt) : Prop where
  pending : r.resolved=false → r.calls=[] ∧ r.outcome=none ∧ r.committed=false
  settled : r.resolved=true →
    (r.calls=[.commit] ∧ r.outcome=some true) ∨ (r.calls=[.rollback] ∧ r.outcome=some false) ∨
      (r.calls=[.unknown] ∧ r.outcome=none)

theorem new_wellFormed (expected : Int) : (new expected).WellFormed :=
  ⟨fun _ => ⟨rfl,rfl,rfl⟩,fun h => by simp [new] at h⟩

@[simp] theorem record_of_resolved (r : DeliveryReceipt) (d : Option Bool)
    (raises : Callback → Bool) (h : r.resolved=true) : r.record d raises=r := by
  simp [record,h]

theorem addMessageId_frame (r : DeliveryReceipt) (m : Option MessageId) :
    ∃ids,r.addMessageId m={r with messageIds := ids} := by
  unfold addMessageId
  cases m with
  | none => exact ⟨r.messageIds,rfl⟩
  | some m =>
    dsimp only
    split_ifs
    · exact ⟨r.messageIds,rfl⟩
    · exact ⟨r.messageIds,rfl⟩
    · exact ⟨_,rfl⟩

@[simp] theorem addMessageId_resolved (r : DeliveryReceipt) (m : Option MessageId) :
    (r.addMessageId m).resolved=r.resolved := by
  obtain ⟨ids,h⟩ := r.addMessageId_frame m
  rw [h]

@[simp] theorem addMessageId_delivered (r : DeliveryReceipt) (m : Option MessageId) :
    (r.addMessageId m).deliveredActions=r.deliveredActions := by
  obtain ⟨ids,h⟩ := r.addMessageId_frame m
  rw [h]

@[simp] theorem addMessageId_expected (r : DeliveryReceipt) (m : Option MessageId) :
    (r.addMessageId m).expectedActions=r.expectedActions := by
  obtain ⟨ids,h⟩ := r.addMessageId_frame m
  rw [h]

theorem addMessageId_of_resolved (r : DeliveryReceipt) (m : Option MessageId)
    (h : r.resolved=true) : r.addMessageId m=r := by
  cases m with
  | none => rfl
  | some m => simp [addMessageId,h]

theorem record_wellFormed (r : DeliveryReceipt) (d : Option Bool) (raises : Callback → Bool)
    (h : r.WellFormed) : (r.record d raises).WellFormed := by
  cases hr : r.resolved with
  | true => simpa [record,hr] using h
  | false =>
    obtain ⟨hc,ho,hm⟩ := h.pending hr
    cases d with
    | none =>
      refine ⟨fun hp => by simp [record,hr,settle] at hp,fun _ => ?_⟩
      simp [record,hr,settle,hc]
    | some b =>
      cases b with
      | false =>
        refine ⟨fun hp => by simp [record,hr,settle] at hp,fun _ => ?_⟩
        simp [record,hr,settle,hc]
      | true =>
        by_cases hd : r.expectedActions≤r.deliveredActions+1
        · refine ⟨fun hp => by simp [record,hr,settle,hd] at hp,fun _ => ?_⟩
          simp [record,hr,settle,hd,hc]
        · refine ⟨fun _ => ?_,fun hp => by simp [record,hr,hd] at hp⟩
          simp [record,hr,hd,hc,ho,hm]

theorem record_settles (r : DeliveryReceipt) (raises : Callback → Bool)
    (h : r.WellFormed) (hr : r.resolved=false) :
    ((r.record none raises).resolved=true ∧ (r.record none raises).calls=[.unknown]) ∧
    ((r.record (some false) raises).resolved=true ∧
      (r.record (some false) raises).calls=[.rollback] ∧
      (r.record (some false) raises).outcome=some false) := by
  obtain ⟨hc,_,_⟩ := h.pending hr
  simp [record,hr,settle,hc]

theorem record_confirm (r : DeliveryReceipt) (raises : Callback → Bool)
    (h : r.WellFormed) (hr : r.resolved=false) :
    if r.expectedActions≤r.deliveredActions+1
    then (r.record (some true) raises).resolved=true ∧ (r.record (some true) raises).calls=[.commit]
    else (r.record (some true) raises).resolved=false ∧ (r.record (some true) raises).calls=[] ∧
      (r.record (some true) raises).deliveredActions=r.deliveredActions+1 ∧
      (r.record (some true) raises).expectedActions=r.expectedActions := by
  obtain ⟨hc,_,_⟩ := h.pending hr
  split_ifs with hd
  · simp [record,hr,settle,hd,hc]
  · simp [record,hr,hd,hc]

theorem addMessageId_wellFormed (r : DeliveryReceipt) (m : Option MessageId)
    (h : r.WellFormed) : (r.addMessageId m).WellFormed := by
  obtain ⟨ids,hm⟩ := r.addMessageId_frame m
  rw [hm]
  exact ⟨h.pending,h.settled⟩

end DeliveryReceipt

end

section

/-- The fields of an outgoing action that splitting reads; `message` is `none` when it is
missing or not a list. -/
structure Action (seg : Type*) where
  action : String
  message : Option (List seg)

/-- `_maybe_split_action`, with `split_message_segments` as `split`. -/
def maybeSplitAction {seg : Type*} (split : List seg → List (List seg)) (a : Action seg) :
    List (Action seg) :=
  if a.action="send_group_msg" ∨ a.action="send_private_msg" then
    match a.message with
    | none => [a]
    | some message =>
      let chunks := split message
      if chunks.length≤1 then [a] else chunks.map (fun chunk => {a with message := some chunk})
  else [a]

theorem maybeSplitAction_pos {seg : Type*} (split : List seg → List (List seg))
    (a : Action seg) : 0<(maybeSplitAction split a).length := by
  unfold maybeSplitAction
  split_ifs with hname
  · cases a.message with
    | none => simp
    | some message =>
      dsimp only
      split_ifs with hlen
      · simp
      · simp; omega
  · simp

/-- What the transport does with one physical part. `returned` carries the three-valued
result and whether the task is cancelled at the shielded `record`, or the observer
notification raises; `raised` tells a cancellation after the commit point from any other
exception, and whether the part may have been written before it. -/
inductive PartResult
  | returned (sent : Option Bool) (messageId : Option MessageId)
      (recordCancelled observerRaises : Bool)
  | raised (afterCommit written : Bool)

/-- One turn of the loop: the split delay before the part may be cancelled. -/
structure PartRun where
  gapCancelled : Bool
  result : PartResult

structure Transport where
  capturedBySink : Bool
  raises : Callback → Bool
  part : Nat → PartRun

/-- Local variables of the loop; `attempts` logs the receipt's callbacks as they were when
each part was handed to the transport. -/
structure Loop where
  receipt : DeliveryReceipt
  settled : Nat
  anyDelivered : Bool
  sentAll : Option Bool
  attempts : List (List Callback)

/-- The `except BaseException` branch; `committed` is the check for
`OneBotActionCancelledAfterCommit`. -/
def Loop.onException (t : Transport) (committed : Bool) (l : Loop) : Loop :=
  if t.capturedBySink then l
  else {l with
    settled := l.settled+1
    receipt := l.receipt.record (if committed || l.anyDelivered then none else some false) t.raises}

def Loop.onReturn (t : Transport) (sent : Option Bool) (messageId : Option MessageId)
    (l : Loop) : Loop :=
  if t.capturedBySink then {l with settled := l.settled+1}
  else {l with
    settled := l.settled+1
    anyDelivered := l.anyDelivered || sent=some true
    receipt := (if sent=some true then l.receipt.addMessageId messageId else l.receipt).record
      sent t.raises}

def Loop.updateSentAll (sent : Option Bool) (l : Loop) : Loop :=
  {l with sentAll :=
    if sent=some false then some false
    else if sent=none ∧ l.sentAll=some true then none else l.sentAll}

/-- One iteration; the flag is false when the loop is left by an exception. -/
def sendPart (t : Transport) (i : Nat) (l : Loop) : Loop × Bool :=
  let p := t.part i
  if 0 < i ∧ p.gapCancelled=true then (l.onException t false,false)
  else
    let l := {l with attempts := l.attempts++[l.receipt.calls]}
    match p.result with
    | .raised afterCommit _ => (l.onException t afterCommit,false)
    | .returned sent messageId recordCancelled observerRaises =>
      let l := l.onReturn t sent messageId
      if !t.capturedBySink && recordCancelled then (l,false)
      else if sent=some true ∧ !t.capturedBySink ∧ observerRaises then (l,false)
      else (l.updateSentAll sent,true)

/-- The loop over the remaining `m` parts, starting at part `i`. -/
def sendParts (t : Transport) : Nat → Nat → Loop → Loop × Bool
  | _,0,l => (l,true)
  | i,m+1,l =>
    match sendPart t i l with
    | (l,false) => (l,false)
    | (l,true) => sendParts t (i+1) m l

/-- The `finally` clause: parts that will never be sent end the logical receipt. -/
def Loop.finish (t : Transport) (n : Nat) (l : Loop) : Loop :=
  if !t.capturedBySink && l.settled<n
  then {l with receipt := l.receipt.record (if l.anyDelivered then none else some false) t.raises}
  else l

/-- `_prepare_action_delivery` on the receipt of an action split into `n` parts. -/
def prepareReceipt (n : Nat) (r : DeliveryReceipt) : DeliveryReceipt :=
  if 1<n then r.addExpectedActions (n-1) else r

def startLoop (n : Nat) (r : DeliveryReceipt) : Loop :=
  ⟨(prepareReceipt n r).deferToTransport,0,false,some true,[]⟩

/-- `_send_action` on an action split into `n` parts with `r` attached: the final loop
variables and the return value, `none` when the call raises. -/
def sendAction (t : Transport) (n : Nat) (r : DeliveryReceipt) : Loop × Option (Option Bool) :=
  match sendParts t 0 n (startLoop n r) with
  | (l,completed) => (l.finish t n,if completed then some l.sentAll else none)

end

end XiaoQing.Delivery
