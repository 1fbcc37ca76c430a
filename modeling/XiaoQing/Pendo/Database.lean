import Mathlib.Data.List.Dedup
import XiaoQing.Pendo.Record
import XiaoQing.Pendo.ReminderLog

namespace XiaoQing.Pendo

open Framework Commands

/-- A row of `items`. -/
structure Item where
  id : Text
  owner : Text
  kind : Kind
  version : Nat
  cells : Cells

inductive CollectionKind where
  | multiNode
  | recurring

/-- A row of `event_collections`. -/
structure Collection where
  id : Text
  owner : Text
  kind : CollectionKind
  version : Nat
  cells : Cells

def Cells.live (cells : Cells) : Bool := cells.value .deleted=.flag false

def Cells.instant (cells : Cells) (c : Column) : Option Nat :=
  match cells.value c with
  | .stamp s => s.instant
  | _ => none

namespace Item

abbrev live (i : Item) : Bool := i.cells.live

def collection (i : Item) : Option Text :=
  match i.cells.value .eventCollectionId with
  | .text id => some id
  | _ => none

/-- The times of `remind_times`. -/
def remindTimes (i : Item) : List Nat := (i.cells.value .remindTimes).times

/-- What `to_dict` gives for a key: its class has no other fields. -/
def field (i : Item) (c : Column) : Value := if c∈i.kind.columns then i.cells.value c else .null

def zone (i : Item) (userZone : Text) : Value :=
  match i.cells.value .timezone with
  | .text (c::cs) => .text (c::cs)
  | _ => .text userZone

def write (u : Prepared) (i : Item) : Item := {i with cells := i.cells.write u}

/-- `SET …, version = version + 1`. -/
def bump (u : Prepared) (i : Item) : Item := {i with version := i.version+1,cells := i.cells.write u}

end Item

namespace Collection

abbrev live (c : Collection) : Bool := c.cells.live

def write (u : Prepared) (c : Collection) : Collection := {c with cells := c.cells.write u}

/-- `version = version + 1`, with what else is set. -/
def bump (u : Prepared) (c : Collection) : Collection :=
  {c with version := c.version+1,cells := c.cells.write u}

end Collection

/-! Logs -/

/-- The actions that an undo looks for; `edit what` is any that begins with `edit_`. -/
inductive Change where
  | edit (what : Text)
  | updateEventCollection
  | delete
  | deleteTask
  | deleteNote
  | deleteEventCollection
  deriving DecidableEq

inductive Action where
  | change (c : Change)
  | undo (c : Change)
  | other (name : Text)
  deriving DecidableEq

structure Snapshot where
  oldValues : Fields
  beforeVersion : Nat
  afterVersion : Nat

/-- The `details` of a log, as far as they are read back. -/
structure Details where
  onCollection : Bool := false
  oldValues : Option Fields := none
  updates : Option Fields := none
  beforeVersion : Option Nat := none
  afterVersion : Option Nat := none
  children : List (Text × Snapshot) := []
  instanceIds : Option (List Text) := none
  childIds : List Text := []
  batch : Option Nat := none
  sourceLogs : List Nat := []
  restored : List Text := []

/-- A row of `operation_logs`; `undone` is `undone_at` and `undo_log_id`. -/
structure Log where
  id : Nat
  user : Text
  action : Action
  itemType : Option Text
  item : Text
  details : Details
  createdAt : Nat
  undone : Option (Nat × Nat)

/-- The dictionary `operation_log` of a caller; of its details only `child_ids` is read back. -/
structure LogSpec where
  user : Text
  action : Action
  itemType : Option (Option Text)
  item : Option Text
  childIds : List Text

/-! The database -/

/-- A row of `items_fts`. -/
structure IndexRow where
  id : Text
  title : Value
  content : Value
  tags : Value
  category : Value

/-- A row of `reminder_logs` with the key that SQLite gives it; keys are not given twice. -/
structure QueueRow where
  id : Nat
  log : LogRow

namespace QueueRow

abbrev key (r : QueueRow) : ReminderKey := r.log.key

def waiting (r : QueueRow) : Bool := r.log.sentAt.isNone && r.log.confirmedAt.isNone

def dropped (id : Text) (times : List Nat) (r : QueueRow) : Bool :=
  r.key.item=id && r.log.sentAt.isNone && r.key.time∉times

end QueueRow

/-- The tables, with the next keys of logs and reminders, the identities drawn for batches, and the
zone in every user's settings. -/
structure Db (B : ZoneBook) where
  items : List Item
  collections : List Collection
  logs : List Log
  nextLog : Nat
  index : List IndexRow
  reminders : List QueueRow
  nextReminder : Nat
  drawn : Nat
  zone : Text → Zone B

namespace Db

variable {B : ZoneBook}

abbrev item (db : Db B) (id : Text) : Option Item := row Item.id db.items id

abbrev collection (db : Db B) (id : Text) : Option Collection := row Collection.id db.collections id

def userZone (db : Db B) (user : Text) : Text := (db.zone user).val

/-! Triggers -/

def children (db : Db B) (id : Text) : List Item :=
  db.items.filter (fun i => decide (i.collection=some id) && decide (i.kind=.event) && i.live)

/-- The place of a timestamp text in the order of texts: the empty one comes first, NULL has none. -/
def textOrder : Value → Option Nat
  | .text [] => some 0
  | .stamp .blank => some 0
  | .stamp (.utc t) => some (t+1)
  | _ => none

def ofOrder : Option Nat → Value
  | none => .null
  | some 0 => .stamp .blank
  | some (t+1) => .stamp (.utc t)

/-- `MIN(start_time)` of the children. -/
def firstStart (children : List Item) : Value :=
  ofOrder ((children.filterMap (fun i => textOrder (i.cells.value .startTime))).min?)

/-- `MAX(COALESCE(end_time, start_time))` of the children. -/
def lastEnd (children : List Item) : Value :=
  ofOrder ((children.filterMap (fun i => (textOrder (i.cells.value .endTime)).or
    (textOrder (i.cells.value .startTime)))).max?)

theorem canonical_ofOrder (c : Column) (h : c≠.remindTimes) (o : Option Nat) :
    canonical c (ofOrder o)=true := by
  cases o with
  | none => unfold canonical ofOrder; rw [if_neg h]; split <;> simp [Value.blank]
  | some n =>
    cases n with
    | zero => unfold canonical ofOrder; rw [if_neg h]; split <;> simp [Value.blank]
    | succ t => exact canonical_utc c t h

def projection (db : Db B) (id : Text) : Prepared where
  fields := (Fields.of .startTime (firstStart (db.children id))).merge
    (Fields.of .endTime (lastEnd (db.children id)))
  canonical c v hv := by
    rcases Option.or_eq_some_iff.mp hv with h | ⟨_,h⟩
    all_goals
      unfold Fields.of at h
      split at h
      · subst c
        cases h
        exact canonical_ofOrder _ (by decide) _
      · cases h

/-- What a trigger writes to the headers of `ids`, with the dates of their children where `dates`. -/
def touchCollections (db : Db B) (now : Nat) (dates : Bool) (ids : List Text) : Db B :=
  {db with
    collections := updateWhere (fun c => decide (c.id∈ids) && c.live)
      (fun c => c.bump ((if dates then db.projection c.id else .none).merge
        (.stamp .updatedAt now updatedAt_ne))) db.collections}

def projected : List Column := [.startTime,.endTime,.deleted,.eventCollectionId]

/-- `event_collection_version_update` and `event_collection_projection_update`. -/
def afterUpdate (db : Db B) (now : Nat) (old new : Item) : Db B :=
  db.touchCollections now
    (projected.any (fun c => old.cells.value c≠new.cells.value c))
    (old.collection.toList++new.collection.toList)

/-- `UPDATE items SET …` on the row of an id. -/
def writeItem (db : Db B) (now : Nat) (id : Text) (f : Item → Item) : Db B :=
  match db.item id with
  | none => db
  | some old =>
    ({db with items := updateWhere (fun i => i.id=id) f db.items}).afterUpdate now old (f old)

/-- `INSERT INTO items`; the id is a primary key. -/
def insertRow (db : Db B) (now : Nat) (i : Item) : Option (Db B) :=
  if (db.item i.id).isSome then none
  else some (({db with items := db.items++[i]}).touchCollections now true i.collection.toList)

/-- `DELETE FROM items`. -/
def deleteRow (db : Db B) (now : Nat) (id : Text) : Db B :=
  match db.item id with
  | none => db
  | some old =>
    ({db with items := db.items.filter (·.id≠id)}).touchCollections now true old.collection.toList

/-! The search index -/

/-- `value or ""`. -/
def orEmpty (v : Value) : Value := if v.blank then .text [] else v

def indexRow (id : Text) (value : Column → Value) : IndexRow :=
  ⟨id,orEmpty (value .title),orEmpty (value .content),value .tags,orEmpty (value .category)⟩

/-- `DELETE FROM items_fts`. -/
def unindex (db : Db B) (id : Text) : Db B := {db with index := db.index.filter (·.id≠id)}

def updateFts (db : Db B) (r : IndexRow) : Db B :=
  {db.unindex r.id with index := (db.unindex r.id).index++[r]}

def refreshFts (db : Db B) (id : Text) : Db B :=
  match (db.item id).filter Item.live with
  | none => db
  | some i => db.updateFts (indexRow id i.cells.value)

/-! The reminder queue -/

/-- The row of a reminder that `_sync_reminder_logs` writes. -/
def materialise (db : Db B) (k : ReminderKey) : Db B :=
  {db with
    reminders := upsert QueueRow.key ⟨db.nextReminder,Reminders.pendingRow k⟩ QueueRow.waiting
      (fun r => {r with log := {r.log with fireAt := some k.time}}) db.reminders
    nextReminder := db.nextReminder+1}

/-- `_sync_reminder_logs`; the zone of a user's settings is a known one, so every time that storage
accepts has its instant. -/
def syncReminderLogs (db : Db B) (id : Text) (times : List Nat) : Db B :=
  match db.item id with
  | none => db
  | some _ =>
    times.dedup.foldl (fun db t => db.materialise ⟨id,t⟩)
      {db with reminders := db.reminders.filter (fun r => !r.dropped id times)}

/-- `_sync_reminder_logs` where a dictionary names `remind_times`. -/
def syncNamed (db : Db B) (id : Text) (u : Fields) : Db B :=
  match u .remindTimes with
  | some times => db.syncReminderLogs id times.times
  | none => db

/-- `DELETE FROM reminder_logs` of an item, with its history where `all`. -/
def dropReminders (db : Db B) (id : Text) (all : Bool) : Db B :=
  {db with reminders := db.reminders.filter (fun r => !(r.key.item=id && (all || r.waiting)))}

/-! Logs -/

/-- `_log_operation_with_cursor`. -/
def addLog (db : Db B) (user : Text) (action : Action) (itemType : Option Text) (item : Text)
    (details : Details) (createdAt : Nat) : Db B :=
  {db with
    logs := db.logs++[⟨db.nextLog,user,action,itemType,item,details,createdAt,none⟩]
    nextLog := db.nextLog+1}

/-- `_log_operation_from_spec`, with the details that the operation adds. -/
def logFromSpec (db : Db B) (now : Nat) (spec : Option LogSpec) (item : Text)
    (itemType : Option Text) (details : LogSpec → Details) : Db B :=
  match spec with
  | none => db
  | some spec => db.addLog spec.user spec.action (spec.itemType.getD itemType) (spec.item.getD item)
      {details spec with childIds := spec.childIds} now

end Db

end XiaoQing.Pendo
