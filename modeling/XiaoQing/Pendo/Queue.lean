import XiaoQing.Pendo.Undo

namespace XiaoQing.Pendo

open Framework Commands

/-- A confirmation between its reading and its writing, with the keys of the rows it found. -/
structure Confirming where
  item : Text
  userAction : Text
  owner : Option Text
  remindTime : Option Nat
  allowFuture : Bool
  startedAt : Nat
  found : List Nat

namespace Db

variable {B : ZoneBook} (db : Db B) (now : Nat)

def lists (k : ReminderKey) : Bool :=
  (db.item k.item).any (fun i => i.live && decide (k.time∈i.remindTimes))

def rowOf (k : ReminderKey) : Option QueueRow := row QueueRow.key db.reminders k

/-- `UPDATE reminder_logs SET … WHERE …`. -/
def settle (p : QueueRow → Bool) (f : LogRow → LogRow) : Db B :=
  {db with reminders := updateWhere p (fun r => {r with log := f r.log}) db.reminders}

/-! First deliveries -/

/-- `claim_reminder`; the token, where it gets the lease. -/
def claimReminder (k : ReminderKey) (leaseSeconds : Nat) : Db B × Option Nat :=
  if leaseSeconds=0 then (db,none)
  else
    ({db with
      reminders := upsert QueueRow.key
        ⟨db.nextReminder,Reminders.claimedRow k db.drawn (now+leaseSeconds)⟩
        (fun r => Reminders.claimable now r.log)
        (fun r => {r with log := Reminders.LogRow.claim db.drawn (now+leaseSeconds) r.log}) db.reminders
      nextReminder := db.nextReminder+1
      drawn := db.drawn+1},
      if (db.rowOf k).all (fun r => Reminders.claimable now r.log) then some db.drawn else none)

def completeReminderClaim (k : ReminderKey) (token : Nat) : Db B :=
  db.settle (fun r => Reminders.heldBy k token r.log) (fun r => LogRow.unclaimed {r with
    state := .sent
    sentAt := some (r.sentAt.getD now)
    lastSentAt := some now
    repeatCount := max r.repeatCount 1
    nextAttemptAt := none})

def releaseReminderClaim (k : ReminderKey) (token : Nat) (retryAt : Option Nat) : Db B :=
  db.settle (fun r => Reminders.heldBy k token r.log) (fun r => LogRow.unclaimed {r with
    state := .pending
    nextAttemptAt := retryAt
    failureCount := r.failureCount+1})

/-! Repeats -/

def repeatable (k : ReminderKey) (expected : Nat) (r : QueueRow) : Bool :=
  Reminders.repeatable k expected now r.log

def claimReminderRepeat (k : ReminderKey) (expected leaseSeconds : Nat) : Db B × Option Nat :=
  if expected=0 || leaseSeconds=0 then (db,none)
  else
    ({db.settle (repeatable now k expected) (Reminders.LogRow.claim db.drawn (now+leaseSeconds)) with
      drawn := db.drawn+1},
      if db.reminders.countP (repeatable now k expected)=1 then some db.drawn else none)

def completeReminderRepeat (k : ReminderKey) (token expected : Nat) : Db B :=
  db.settle (fun r => Reminders.repeatHeldBy k token expected r.log) (fun r => LogRow.unclaimed {r with
    state := .sent
    repeatCount := r.repeatCount+1
    lastSentAt := some now
    nextAttemptAt := none})

def releaseReminderRepeat (k : ReminderKey) (token expected : Nat) (retryAt : Option Nat) : Db B :=
  db.settle (fun r => Reminders.repeatHeldBy k token expected r.log) (fun r => LogRow.unclaimed {r with
    state := .sent
    nextAttemptAt := retryAt
    failureCount := r.failureCount+1})

/-! Confirmation -/

/-- The rows that `confirm_reminder` selects. -/
def confirmRead (item userAction : Text) (owner : Option Text) (remindTime : Option Nat)
    (allowFuture : Bool) : Confirming :=
  let selected := fun r : QueueRow => decide (r.key.item=item) && r.log.confirmedAt.isNone &&
    remindTime.all (fun time => r.key.time=time) &&
    (db.item item).any (fun i => i.live && owner.all (·=i.owner))
  ⟨item,userAction,owner,remindTime,allowFuture,now,(db.reminders.filter selected).map QueueRow.id⟩

def confirmFound (c : Confirming) : Db B :=
  db.settle (fun r => decide (r.id∈c.found))
    (fun r => (Reminders.LogRow.confirm c.startedAt c.userAction r).unclaimed)

/-- The reminder that `_insert_confirm_for_unsent` chooses. -/
def confirmTarget (c : Confirming) : Option ReminderKey :=
  (db.item c.item).bind (fun i =>
    let zoneValid := match i.cells.value .timezone with
      | .text (a::as) => B.known (a::as)
      | _ => true
    if i.live && c.owner.all (·=i.owner) && (decide (i.kind≠.event) || zoneValid) then
      (Reminders.latestConfirmableTime (i.remindTimes.map (fun t => ⟨true,some t⟩)) c.remindTime
        c.allowFuture c.startedAt).map (⟨c.item,·⟩)
    else none)

/-- The upsert of `_insert_confirm_for_unsent`. -/
def insertConfirmed (c : Confirming) (k : ReminderKey) : Db B :=
  {db with
    reminders := upsert QueueRow.key
      ⟨db.nextReminder,Reminders.confirmedRow k c.startedAt c.userAction⟩
      (fun r => r.log.confirmedAt.isNone)
      (fun r => {r with log := (Reminders.LogRow.confirm c.startedAt c.userAction r.log).unclaimed})
      db.reminders
    nextReminder := db.nextReminder+1}

/-- `set_future_reminder_confirmation`. -/
def setFuture (k : ReminderKey) (owner : Text) (confirmed : Bool) : Db B :=
  if (db.item k.item).any (fun i => decide (i.owner=owner) && decide (i.kind=.event)) &&
      db.lists k && decide (now < k.time) then
    let filled : Db B := {db with
      reminders := upsert QueueRow.key ⟨db.nextReminder,Reminders.pendingRow k⟩ (fun _ => true)
        (fun r => {r with log := Reminders.LogRow.fill k.time r.log}) db.reminders
      nextReminder := db.nextReminder+1}
    filled.settle (fun r => decide (r.key=k))
      (fun r => (if confirmed then Reminders.LogRow.preconfirm now r else Reminders.LogRow.reopen r).unclaimed)
  else db

/-! Polling -/

/-- What `get_due_reminder_items` writes before it reads the queue. -/
def expire : Db B :=
  db.settle (fun r => Reminders.stale now r.log)
    (fun r => (Reminders.LogRow.confirm now "expired".toList r).unclaimed)

def dueRow (r : QueueRow) : Bool :=
  let attempted := decide (0 < r.log.failureCount) || r.log.state=.claimed
  let window := if attempted then Reminders.staleAfterSeconds else Reminders.checkWindowSeconds
  r.waiting && r.log.fireAt.any (fun fire => fire≤now && now≤fire+window) &&
    Reminders.attemptDue now r.log && (r.log.state≠.claimed || Reminders.lapsed now r.log)

def dueItem (i : Item) : Bool :=
  i.live &&
    match i.kind with
    | .event => i.cells.value .eventRole∈[.null,.text "single".toList,.text "multi_node_child".toList,
        .text "recurring_occurrence".toList]
    | .task => i.cells.value .status=.text "open".toList
    | _ => false

/-- The reminders of the items that `get_due_reminder_items` returns. -/
def dueReminders : List ReminderKey :=
  (db.items.filter (fun i => dueItem i && db.reminders.any (fun r =>
    decide (r.key.item=i.id) && dueRow now r && decide (r.key.time∈i.remindTimes)))).flatMap
      (fun i => i.remindTimes.map (⟨i.id,·⟩))

/-- `get_unconfirmed_sent_reminders`. -/
def unconfirmedSent : List (ReminderKey × Nat) :=
  (db.reminders.filter (fun r => r.log.sentAt.isSome && r.log.confirmedAt.isNone && db.lists r.key &&
    (db.item r.key.item).any (fun i =>
      decide (i.kind≠.task) || i.cells.value .status=.text "open".toList))).map
        (fun r => (r.key,r.log.repeatCount))

/-- What `prune_reminder_logs` removes. -/
def outdated (before : Nat) (r : QueueRow) : Bool := r.log.confirmedAt.any (· < before)

/-- `prune_reminder_logs`. -/
def prune (before : Nat) : Db B :=
  {db with reminders := db.reminders.filter (fun r => !outdated before r)}

end Db

/-- An operation between its reading and its writing. -/
inductive Pending where
  | update (c : Update) (u : Prepared)
  | undoDelete (owner : Text) (choice : Db.DeleteChoice)
  | undoEdit (owner : Text) (choice : EditChoice)
  | confirm (c : Confirming)
  | confirmed (c : Confirming) (k : ReminderKey)

/-- The database with the operations under way and what the poller has read; besides, the claims that
have succeeded, each with whether its reminder was listed by a live item then. -/
structure Queue (B : ZoneBook) where
  db : Db B
  pending : List Pending
  due : List ReminderKey
  sent : List (ReminderKey × Nat)
  granted : List (ReminderKey × Bool)

inductive QueueAct where
  | insert (n : NewItem) (log : Option LogSpec)
  | readUpdate (c : Update)
  | importBundle (owner : Text) (collections : List CollectionOperation) (operations : List Operation)
  | createCollection (c : NewCollection) (zone : Text) (children : List NewItem) (action : Text)
  | updateCollection (c : CollectionUpdate)
  | deleteItem (id owner : Text) (soft : Bool) (log : Option LogSpec)
  | batchSoftDelete (c : BatchDelete)
  | deleteEventInstance (id owner : Text)
  | deleteEventCollection (id owner : Text) (cascade : Bool) (log : Option LogSpec)
  | readUndoDelete (owner : Text) (threshold : Nat)
  | readUndoEdit (owner : Text) (threshold : Nat)
  | commit (i : Nat)
  | listDue
  | claim (k : ReminderKey) (leaseSeconds : Nat)
  | complete (k : ReminderKey) (token : Nat)
  | release (k : ReminderKey) (token : Nat) (retryAt : Option Nat)
  | listSent
  | claimRepeat (k : ReminderKey) (expected leaseSeconds : Nat)
  | completeRepeat (k : ReminderKey) (token expected : Nat)
  | releaseRepeat (k : ReminderKey) (token expected : Nat) (retryAt : Option Nat)
  | readConfirm (item userAction : Text) (owner : Option Text) (remindTime : Option Nat)
      (allowFuture : Bool)
  | setFuture (k : ReminderKey) (owner : Text) (confirmed : Bool)
  | prune (before : Nat)

namespace Queue

variable {B : ZoneBook}

def new (zone : Text → Zone B) : Queue B :=
  ⟨⟨[],[],[],1,[],[],1,1,zone⟩,[],[],[],[]⟩

/-- A transaction; one that is refused or raises leaves the database as it was. -/
def write (s : Queue B) (db : Option (Db B)) : Queue B := {s with db := db.getD s.db}

def read (s : Queue B) (p : Option Pending) : Queue B := {s with pending := s.pending++p.toList}

/-- The writing half of an operation; a confirmation that found no row goes on to insert one. -/
def commit (s : Queue B) (now : Nat) : Pending → Queue B
  | .update c u => s.write (s.db.commitUpdate now c u)
  | .undoDelete owner choice => s.write ((s.db.commitDelete now owner choice).map Prod.fst)
  | .undoEdit owner choice => s.write ((s.db.commitEdit now owner choice).map Prod.fst)
  | .confirm c =>
    if c.found.isEmpty then s.read ((s.db.confirmTarget c).map (.confirmed c))
    else s.write (some (s.db.confirmFound c))
  | .confirmed c k => s.write (some (s.db.insertConfirmed c k))

def grant (s : Queue B) (k : ReminderKey) (claimed : Db B × Option Nat) : Queue B :=
  {s with
    db := claimed.1
    granted := if claimed.2.isSome then (k,s.db.lists k)::s.granted else s.granted}

def step (s : Queue B) (call : Nat × QueueAct) : Option (Queue B) :=
  let now := call.1
  match call.2 with
  | .insert n log => some (s.write (s.db.insertItem now n log))
  | .readUpdate c => some (s.read ((s.db.prepareUpdate now c).map (.update c)))
  | .importBundle owner collections operations =>
    some (s.write (s.db.executeImportBundle now owner collections operations))
  | .createCollection c zone children action =>
    some (s.write (s.db.createEventCollection now c zone children action))
  | .updateCollection c => some (s.write (s.db.updateCollection now c))
  | .deleteItem id owner soft log => some (s.write (s.db.deleteItem now id owner soft log))
  | .batchSoftDelete c => some (s.write (some (s.db.batchSoftDelete now c)))
  | .deleteEventInstance id owner => some (s.write (s.db.deleteEventInstance now id owner))
  | .deleteEventCollection id owner cascade log =>
    some (s.write (s.db.deleteEventCollection now id owner cascade log))
  | .readUndoDelete owner threshold =>
    some (s.read (some (.undoDelete owner (s.db.chooseDelete owner threshold))))
  | .readUndoEdit owner threshold =>
    some (s.read (some (.undoEdit owner (s.db.chooseEdit now owner threshold))))
  | .commit i =>
    s.pending[i]?.map (fun p => ({s with pending := s.pending.eraseIdx i} : Queue B).commit now p)
  | .listDue =>
    let db := s.db.expire now
    some {s with db := db,due := s.due++db.dueReminders now}
  | .claim k leaseSeconds =>
    if k∈s.due then some (s.grant k (s.db.claimReminder now k leaseSeconds)) else none
  | .complete k token => some (s.write (some (s.db.completeReminderClaim now k token)))
  | .release k token retryAt => some (s.write (some (s.db.releaseReminderClaim k token retryAt)))
  | .listSent => some {s with sent := s.sent++s.db.unconfirmedSent}
  | .claimRepeat k expected leaseSeconds =>
    if (k,expected)∈s.sent then
      some (s.grant k (s.db.claimReminderRepeat now k expected leaseSeconds))
    else none
  | .completeRepeat k token expected =>
    some (s.write (some (s.db.completeReminderRepeat now k token expected)))
  | .releaseRepeat k token expected retryAt =>
    some (s.write (some (s.db.releaseReminderRepeat k token expected retryAt)))
  | .readConfirm item userAction owner remindTime allowFuture =>
    some (s.read (some (.confirm (s.db.confirmRead now item userAction owner remindTime allowFuture))))
  | .setFuture k owner confirmed => some (s.write (some (s.db.setFuture now k owner confirmed)))
  | .prune before => some (s.write (some (s.db.prune before)))

end Queue

end XiaoQing.Pendo
