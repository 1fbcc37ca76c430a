import XiaoQing.Commands.CommandRouter
import XiaoQing.Framework.Lease
import XiaoQing.Framework.Rows
import XiaoQing.Framework.Run

namespace XiaoQing.Pendo

open Framework Commands

/-- A reminder of an item; the time is a canonical UTC timestamp, as whole seconds. -/
structure ReminderKey where
  item : Text
  time : Nat
  deriving DecidableEq

inductive LogState where
  | pending
  | claimed
  | sent
  | confirmed
  deriving DecidableEq

/-- A row of `reminder_logs`. -/
structure LogRow where
  key : ReminderKey
  sentAt : Option Nat
  confirmedAt : Option Nat
  userAction : Option Text
  repeatCount : Nat
  lastSentAt : Option Nat
  state : LogState
  claimToken : Option Nat
  claimExpiresAt : Option Nat
  nextAttemptAt : Option Nat
  failureCount : Nat
  fireAt : Option Nat

def LogRow.lease (r : LogRow) : Option Lease :=
  match r.claimToken,r.claimExpiresAt with
  | some token,some expires => some ⟨token,expires⟩
  | _,_ => none

/-- `SET claim_token = NULL, claim_expires_at = NULL`. -/
def LogRow.unclaimed (r : LogRow) : LogRow := {r with claimToken := none,claimExpiresAt := none}

/-- An entry of an item's `remind_times`: whether it is written canonically, and its instant where it
can be read. -/
structure RemindTime where
  canonical : Bool
  instant : Option Nat

structure ItemView where
  owner : Text
  isEvent : Bool
  zoneValid : Bool
  remindTimes : Option (List RemindTime)

structure Confirmation where
  item : Text
  userAction : Text
  owner : Option Text
  remindTime : Option Nat
  allowFuture : Bool
  startedAt : Nat
  found : List ReminderKey

/-- The table, the clock, the source of tokens and the confirmations under way; besides, the leases
that claims have returned, the tokens that no row has any more, and how many repeats of a reminder
have been delivered since it was last opened. -/
structure Reminders where
  now : Nat
  drawn : Nat
  rows : List LogRow
  confirming : List Confirmation
  granted : List (ReminderKey × Lease)
  ended : List Nat
  repeats : ReminderKey → Nat

namespace Reminders

def new : Reminders := ⟨0,0,[],[],[],[],fun _ => 0⟩

abbrev rowOf (s : Reminders) (k : ReminderKey) : Option LogRow := row LogRow.key s.rows k

def clearing (s : Reminders) (p : LogRow → Bool) (f : LogRow → LogRow) : Reminders :=
  {s with
    rows := updateWhere p (fun r => (f r).unclaimed) s.rows
    ended := Ledger.lostTokens LogRow.lease p s.rows++s.ended}

/-! First deliveries -/

def attemptDue (now : Nat) (r : LogRow) : Bool := r.nextAttemptAt.all (· ≤ now)

def lapsed (now : Nat) (r : LogRow) : Bool := r.claimExpiresAt.all (· ≤ now)

def claimable (now : Nat) (r : LogRow) : Bool :=
  r.confirmedAt.isNone && r.sentAt.isNone && attemptDue now r &&
    (r.state≠.claimed || lapsed now r)

def claimedRow (k : ReminderKey) (token expires : Nat) : LogRow :=
  { key := k
    sentAt := none
    confirmedAt := none
    userAction := none
    repeatCount := 0
    lastSentAt := none
    state := .claimed
    claimToken := some token
    claimExpiresAt := some expires
    nextAttemptAt := none
    failureCount := 0
    fireAt := none }

def LogRow.claim (token expires : Nat) (r : LogRow) : LogRow :=
  {r with state := .claimed,claimToken := some token,claimExpiresAt := some expires}

/-- `claim_reminder`; the token, where it gets the lease. -/
def claimReminder (s : Reminders) (k : ReminderKey) (leaseSeconds : Nat) : Reminders × Option Nat :=
  if leaseSeconds=0 then (s,none)
  else
    let token := s.drawn
    let expires := s.now+leaseSeconds
    let drawn : Reminders := {s with drawn := s.drawn+1}
    if (s.rowOf k).all (claimable s.now) then
      ({drawn with
        rows := upsert LogRow.key (claimedRow k token expires) (claimable s.now)
          (LogRow.claim token expires) s.rows
        granted := (k,⟨token,expires⟩)::s.granted},some token)
    else (drawn,none)

def heldBy (k : ReminderKey) (token : Nat) (r : LogRow) : Bool :=
  r.key=k && r.state=.claimed && r.claimToken=some token

def completeReminderClaim (s : Reminders) (k : ReminderKey) (token : Nat) : Reminders × Bool :=
  (s.clearing (heldBy k token) (fun r => {r with
    state := .sent
    sentAt := some (r.sentAt.getD s.now)
    lastSentAt := some s.now
    repeatCount := max r.repeatCount 1
    nextAttemptAt := none}),
    decide (s.rows.countP (heldBy k token)=1))

def releaseReminderClaim (s : Reminders) (k : ReminderKey) (token : Nat) (retryAt : Option Nat) :
    Reminders × Bool :=
  (s.clearing (heldBy k token) (fun r => {r with
    state := .pending
    nextAttemptAt := retryAt
    failureCount := r.failureCount+1}),
    decide (s.rows.countP (heldBy k token)=1))

/-! Repeats -/

def repeatable (k : ReminderKey) (expected now : Nat) (r : LogRow) : Bool :=
  r.key=k && r.confirmedAt.isNone && r.sentAt.isSome && r.repeatCount=expected &&
    attemptDue now r && (r.state=.sent || (r.state=.claimed && lapsed now r))

def claimReminderRepeat (s : Reminders) (k : ReminderKey) (expected leaseSeconds : Nat) :
    Reminders × Option Nat :=
  if expected=0 || leaseSeconds=0 then (s,none)
  else
    let token := s.drawn
    let expires := s.now+leaseSeconds
    let drawn : Reminders := {s with drawn := s.drawn+1}
    if s.rows.countP (repeatable k expected s.now)=1 then
      ({drawn with
        rows := updateWhere (repeatable k expected s.now) (LogRow.claim token expires) s.rows
        granted := (k,⟨token,expires⟩)::s.granted},some token)
    else (drawn,none)

def repeatHeldBy (k : ReminderKey) (token expected : Nat) (r : LogRow) : Bool :=
  heldBy k token r && r.repeatCount=expected && r.confirmedAt.isNone

def completeReminderRepeat (s : Reminders) (k : ReminderKey) (token expected : Nat) :
    Reminders × Bool :=
  let done := decide (s.rows.countP (repeatHeldBy k token expected)=1)
  ({s.clearing (repeatHeldBy k token expected) (fun r => {r with
      state := .sent
      repeatCount := r.repeatCount+1
      lastSentAt := some s.now
      nextAttemptAt := none}) with
    repeats := if done then Function.update s.repeats k (s.repeats k+1) else s.repeats},done)

def releaseReminderRepeat (s : Reminders) (k : ReminderKey) (token expected : Nat)
    (retryAt : Option Nat) : Reminders × Bool :=
  (s.clearing (repeatHeldBy k token expected) (fun r => {r with
    state := .sent
    nextAttemptAt := retryAt
    failureCount := r.failureCount+1}),
    decide (s.rows.countP (repeatHeldBy k token expected)=1))

/-! Logging -/

def loggedRow (k : ReminderKey) (sentAt : Option Nat) : LogRow :=
  { key := k
    sentAt := sentAt
    confirmedAt := none
    userAction := none
    repeatCount := 1
    lastSentAt := sentAt
    state := if sentAt.isNone then .pending else .sent
    claimToken := none
    claimExpiresAt := none
    nextAttemptAt := none
    failureCount := 0
    fireAt := none }

def logReminder (s : Reminders) (k : ReminderKey) (sent : Bool) : Reminders :=
  let sentAt := if sent then some s.now else none
  match s.rowOf k with
  | none => {s with rows := s.rows++[loggedRow k sentAt]}
  | some r =>
    if sent then
      {s.clearing (fun r => r.key=k) (fun r => {r with
          sentAt := some (r.sentAt.getD s.now)
          repeatCount := r.repeatCount+1
          lastSentAt := some s.now
          state := .sent}) with
        repeats :=
          if r.sentAt.isSome then Function.update s.repeats k (s.repeats k+1) else s.repeats}
    else s

/-! Confirmation -/

def visible (owner : Option Text) (view : Option ItemView) : Bool :=
  match view with
  | none => false
  | some item => owner.all (fun owner => owner=item.owner)

/-- `confirm_reminder` up to where it has read the rows to confirm. -/
def confirmRead (s : Reminders) (item userAction : Text) (owner : Option Text)
    (remindTime : Option Nat) (allowFuture : Bool) (view : Option ItemView) : Reminders :=
  let found :=
    if visible owner view then
      (s.rows.filter (fun r => r.key.item=item && r.confirmedAt.isNone &&
        remindTime.all (fun time => r.key.time=time))).map LogRow.key
    else []
  {s with confirming := ⟨item,userAction,owner,remindTime,allowFuture,s.now,found⟩::s.confirming}

/-- The times that `_latest_confirmable_time` chooses from. -/
def confirmable (times : List RemindTime) (requested : Option Nat) (allowFuture : Bool) (now : Nat) :
    List Nat :=
  times.filterMap (fun time =>
    match time.instant with
    | none => none
    | some instant =>
      let matched := time.canonical && requested=some instant
      if requested.isSome && !matched then none
      else if decide (instant ≤ now) || (allowFuture && matched) then some instant
      else none)

def latestConfirmableTime (times : List RemindTime) (requested : Option Nat) (allowFuture : Bool)
    (now : Nat) : Option Nat :=
  match confirmable times requested allowFuture now with
  | [] => none
  | first::others => some (others.foldl max first)

def confirmedRow (k : ReminderKey) (stamp : Nat) (userAction : Text) : LogRow :=
  { key := k
    sentAt := none
    confirmedAt := some stamp
    userAction := some userAction
    repeatCount := 0
    lastSentAt := none
    state := .confirmed
    claimToken := none
    claimExpiresAt := none
    nextAttemptAt := none
    failureCount := 0
    fireAt := none }

def LogRow.confirm (stamp : Nat) (userAction : Text) (r : LogRow) : LogRow :=
  {r with
    confirmedAt := some stamp
    userAction := some userAction
    state := .confirmed
    nextAttemptAt := none}

def upsertConfirmed (s : Reminders) (k : ReminderKey) (stamp : Nat) (userAction : Text) : Reminders :=
  match s.rowOf k with
  | none => {s with rows := s.rows++[confirmedRow k stamp userAction]}
  | some _ =>
    s.clearing (fun r => r.key=k && r.confirmedAt.isNone) (LogRow.confirm stamp userAction)

def insertConfirmForUnsent (s : Reminders) (c : Confirmation) (view : Option ItemView) : Reminders :=
  if visible c.owner view then
    match view.bind ItemView.remindTimes with
    | none => s
    | some times =>
      if view.any (fun item => item.isEvent && !item.zoneValid) then s
      else
        match latestConfirmableTime times c.remindTime c.allowFuture c.startedAt with
        | none => s
        | some time => s.upsertConfirmed ⟨c.item,time⟩ c.startedAt c.userAction
  else s

/-- The writing half of `confirm_reminder`; no row is ever removed, so a key stands for a row id. -/
def confirmWrite (s : Reminders) (c : Confirmation) (view : Option ItemView) : Reminders :=
  if c.found.isEmpty then s.insertConfirmForUnsent c view
  else s.clearing (fun r => r.key∈c.found) (LogRow.confirm c.startedAt c.userAction)

/-! Future reminders -/

def pendingRow (k : ReminderKey) : LogRow :=
  { key := k
    sentAt := none
    confirmedAt := none
    userAction := none
    repeatCount := 0
    lastSentAt := none
    state := .pending
    claimToken := none
    claimExpiresAt := none
    nextAttemptAt := none
    failureCount := 0
    fireAt := some k.time }

def LogRow.fill (time : Nat) (r : LogRow) : LogRow := {r with fireAt := some (r.fireAt.getD time)}

def LogRow.preconfirm (now : Nat) (r : LogRow) : LogRow :=
  {r with
    confirmedAt := some (r.confirmedAt.getD now)
    userAction := if r.confirmedAt.isNone then some "preconfirmed".toList else r.userAction
    state := .confirmed
    nextAttemptAt := none}

def LogRow.reopen (r : LogRow) : LogRow :=
  {r with
    sentAt := none
    confirmedAt := none
    userAction := none
    repeatCount := 0
    lastSentAt := none
    state := .pending
    nextAttemptAt := none
    failureCount := 0}

/-- `set_future_reminder_confirmation`. -/
def setFuture (s : Reminders) (k : ReminderKey) (owner : Text) (confirmed : Bool)
    (view : Option ItemView) : Reminders :=
  match view with
  | none => s
  | some item =>
    if item.owner=owner && item.isEvent &&
        (item.remindTimes.getD []).any (fun time => time.canonical && time.instant=some k.time) &&
        decide (s.now < k.time) then
      let filled : Reminders := {s with
        rows := upsert LogRow.key (pendingRow k) (fun _ => true) (LogRow.fill k.time) s.rows}
      if confirmed then filled.clearing (fun r => r.key=k) (LogRow.preconfirm s.now)
      else
        {filled.clearing (fun r => r.key=k) LogRow.reopen with
          repeats := Function.update s.repeats k 0}
    else s

/-! Expiry -/

/-- `REMINDER_CHECK_WINDOW_SECONDS`. -/
def checkWindowSeconds : Nat := 120

/-- `REMINDER_STALE_AFTER_SECONDS`. -/
def staleAfterSeconds : Nat := 86400

def stale (now : Nat) (r : LogRow) : Bool :=
  match r.fireAt with
  | none => false
  | some fire =>
    let attempted := decide (0 < r.failureCount) || r.state=.claimed
    r.sentAt.isNone && r.confirmedAt.isNone &&
      ((!attempted && decide (fire+checkWindowSeconds < now)) ||
        (attempted && decide (fire+staleAfterSeconds < now)))

/-- What `get_due_reminder_items` writes before it reads the queue. -/
def expire (s : Reminders) : Reminders :=
  s.clearing (stale s.now) (LogRow.confirm s.now "expired".toList)

/-! Runs -/

inductive Act where
  | claim (k : ReminderKey) (leaseSeconds : Nat)
  | complete (k : ReminderKey) (token : Nat)
  | release (k : ReminderKey) (token : Nat) (retryAt : Option Nat)
  | claimRepeat (k : ReminderKey) (expected leaseSeconds : Nat)
  | completeRepeat (k : ReminderKey) (token expected : Nat)
  | releaseRepeat (k : ReminderKey) (token expected : Nat) (retryAt : Option Nat)
  | log (k : ReminderKey) (sent : Bool)
  | confirmRead (item userAction : Text) (owner : Option Text) (remindTime : Option Nat)
      (allowFuture : Bool) (view : Option ItemView)
  | confirmWrite (i : Nat) (view : Option ItemView)
  | setFuture (k : ReminderKey) (owner : Text) (confirmed : Bool) (view : Option ItemView)
  | expire

/-- The operation of an act; a repeat is settled with the count it was claimed with, which
`claim_reminder_repeat` has checked to be positive. -/
def perform (s : Reminders) : Act → Option Reminders
  | .claim k leaseSeconds => some (s.claimReminder k leaseSeconds).1
  | .complete k token => some (s.completeReminderClaim k token).1
  | .release k token retryAt => some (s.releaseReminderClaim k token retryAt).1
  | .claimRepeat k expected leaseSeconds => some (s.claimReminderRepeat k expected leaseSeconds).1
  | .completeRepeat k token expected =>
    if expected=0 then none else some (s.completeReminderRepeat k token expected).1
  | .releaseRepeat k token expected retryAt =>
    if expected=0 then none else some (s.releaseReminderRepeat k token expected retryAt).1
  | .log k sent => some (s.logReminder k sent)
  | .confirmRead item userAction owner remindTime allowFuture view =>
    some (s.confirmRead item userAction owner remindTime allowFuture view)
  | .confirmWrite i view => (s.confirming[i]?).map (fun c => s.confirmWrite c view)
  | .setFuture k owner confirmed view => some (s.setFuture k owner confirmed view)
  | .expire => some s.expire

def step (s : Reminders) (call : Nat × Act) : Option Reminders :=
  if s.now ≤ call.1 then perform {s with now := call.1} call.2 else none

end Reminders

end XiaoQing.Pendo
