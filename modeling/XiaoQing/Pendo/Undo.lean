import XiaoQing.Framework.Keyed
import XiaoQing.Pendo.Edits

namespace XiaoQing.Pendo

section

open Framework Commands

def markDeleted (now : Nat) : Prepared :=
  (Prepared.of .deleted (.flag true) rfl).merge
    ((Prepared.stamp .deletedAt now (by decide)).merge (.stamp .updatedAt now updatedAt_ne))

def markRestored (now : Nat) : Prepared :=
  (Prepared.of .deleted (.flag false) rfl).merge
    ((Prepared.of .deletedAt .null rfl).merge (.stamp .updatedAt now updatedAt_ne))

def Cells.gone (cells : Cells) : Bool := cells.value .deleted=.flag true

/-- The answer of an undo: what it restored, or that it refused. -/
inductive Reply where
  | restored (ids : List Text)
  | refused

/-- A call of `batch_soft_delete`; what `details_factory` adds to a log is not read back. -/
structure BatchDelete where
  ids : List Text
  owner : Text
  itemType : Option Kind
  action : Option Change

namespace Db

variable {B : ZoneBook} (db : Db B) (now : Nat)

/-! Deletions -/

def owned (owner id : Text) (p : Item → Bool) : Bool :=
  (db.item id).any (fun i => decide (i.owner=owner) && p i)

/-- The soft deletion of one row, with its reminders and its place in the index. -/
def retire (bump : Bool) (id : Text) : Db B :=
  ((db.writeItem now id (if bump then Item.bump (markDeleted now) else Item.write (markDeleted now))
    ).dropReminders id false).unindex id

/-- `delete_item`, for a reference that has been resolved; nothing where nothing is deleted. -/
def deleteItem (id owner : Text) (soft : Bool) (log : Option LogSpec) : Option (Db B) :=
  if db.owned owner id Item.live then
    let removed :=
      if soft then db.retire now true id
      else ((db.deleteRow now id).dropReminders id true).unindex id
    some (removed.logFromSpec now log id none (fun _ => {}))
  else none

def batchSoftDelete (c : BatchDelete) : Db B :=
  let active := (c.ids.filter (!·.isEmpty)).dedup.filter (fun id =>
    db.owned c.owner id (fun i => i.live && c.itemType.all (·=i.kind)))
  let removed := active.foldl (fun db id => retire db now true id) db
  match c.action with
  | none => removed
  | some action =>
    active.foldl (fun db id => addLog db c.owner (.change action)
      (c.itemType.map Kind.text) id {batch := some db.drawn} now) {removed with drawn := removed.drawn+1}

def siblings (owner id : Text) : List Item :=
  db.items.filter (fun i => decide (i.owner=owner) && decide (i.kind=.event) && i.live &&
    decide (i.collection=some id))

def markHeader (id owner : Text) (p : Cells → Bool) (u : Prepared) : Db B :=
  {db with
    collections := updateWhere (fun c => c.id=id && c.owner=owner && p c.cells) (Collection.write u)
      db.collections}

def headed (id owner : Text) (p : Cells → Bool) : Bool :=
  (db.collection id).any (fun c => decide (c.owner=owner) && p c.cells)

abbrev eventText : Text := Kind.event.text

def lastNodeOf (owner : Text) (i : Item) : Option Text :=
  i.collection.filter (fun id =>
    i.cells.value .eventCollectionKind=.text "multi_node".toList &&
      (db.siblings owner id).length=1 && db.headed id owner Cells.live)

def deleteEventInstance (id owner : Text) : Option (Db B) :=
  ((db.item id).filter (fun i => decide (i.owner=owner) && decide (i.kind=.event) && i.live)).map
    (fun i =>
      match db.lastNodeOf owner i with
      | some collection =>
        ((db.markHeader collection owner Cells.live (markDeleted now)).retire now true id).addLog owner
          (.change .deleteEventCollection) (some eventText) collection {childIds := [id]} now
      | none => (db.retire now true id).addLog owner (.change .delete) (some eventText) id {} now)

/-- `delete_event_collection`, for a reference that has been resolved. -/
def deleteEventCollection (id owner : Text) (cascade : Bool) (log : Option LogSpec) : Option (Db B) :=
  if db.headed id owner Cells.live then
    let removed := if cascade then (db.siblings owner id).map Item.id else []
    some ((removed.foldl (fun db child => retire db now false child)
      (db.markHeader id owner Cells.live (markDeleted now))).logFromSpec now log id (some eventText)
        (fun _ => {}))
  else none

/-! Undoing a deletion -/

/-- The restoration of one row, with its place in the index and its reminders. -/
def revive (id : Text) : Db B :=
  let restored := db.writeItem now id (Item.bump (markRestored now))
  (restored.syncReminderLogs id (((restored.item id).map Item.remindTimes).getD [])).refreshFts id

/-- `_restore_deleted_item_ids`, with the ids it has restored. -/
def restoreDeleted (owner : Text) (ids : List Text) : Db B × List Text :=
  let restorable := (ids.filter (!·.isEmpty)).dedup.filter (fun id =>
    db.owned owner id (·.cells.gone))
  (restorable.foldl (fun db id => revive db now id) db,restorable)

def pendingLog (owner : Text) (l : Log) : Bool := l.user=owner && l.undone.isNone

def latestKey (l : Log) : Nat ×ₗ Nat := toLex (l.createdAt,l.id)

/-- `ORDER BY created_at DESC, id DESC LIMIT 1`. -/
def latest (p : Log → Bool) : Option Log := (rank latestKey db.logs).find? p

/-- `_UNDO_DELETE_ACTIONS`. -/
def Action.deletes : Action → Bool
  | .change .deleteEventCollection => true
  | .change .deleteTask => true
  | .change .deleteNote => true
  | .change .delete => true
  | _ => false

/-- `_latest_delete_log_row`. -/
def latestDeleteLog (owner : Text) (threshold : Nat) : Option Log :=
  db.latest (fun l => pendingLog owner l && Action.deletes l.action && decide (threshold≤l.createdAt))

/-- `_latest_deleted_item_row`. -/
def latestDeletedItem (owner : Text) (threshold : Nat) : Option Item :=
  (rank (fun i : Item => (i.cells.instant .deletedAt).getD 0) db.items).find? (fun i =>
    decide (i.owner=owner) && i.cells.gone && (i.cells.instant .deletedAt).any (threshold ≤ ·))

/-- `_mark_operation_logs_undone`; nothing where it raises. -/
def markUndone (owner : Text) (ids : List Nat) (source : Change) (itemType : Option Text)
    (item : Text) (restored : List Text) : Option (Db B) :=
  let taken := fun l : Log => pendingLog owner l && decide (l.id∈ids)
  if ids.isEmpty || db.logs.countP taken≠ids.dedup.length then none
  else
    let logged := db.addLog owner (.undo source) itemType item
      {sourceLogs := ids.dedup,restored := restored.dedup} now
    some {logged with
      logs := updateWhere taken (fun l => {l with undone := some (now,db.nextLog)}) logged.logs}

/-- The logs of one batch: those of its identity, or, where it has none, of its second. -/
def sameBatch (owner : Text) (log l : Log) : Bool :=
  pendingLog owner l && decide (l.action=log.action) && decide (l.details.batch=log.details.batch) &&
    (log.details.batch.isSome || decide (l.createdAt=log.createdAt)) &&
    (log.itemType.isNone || decide (l.itemType=log.itemType))

def outcome (restored : List Text) (header : Bool) : Reply :=
  if restored.isEmpty && !header then .refused else .restored restored

/-- What the undo of a logged deletion found to restore: the header, the items and the logs. -/
structure Restoration where
  header : Option Text
  ids : List Text
  logs : List Nat

/-- What `_undo_delete_from_log` reads. -/
def restorationOf (owner : Text) (log : Log) : Restoration :=
  match log.action with
  | .change .deleteEventCollection =>
    ⟨some log.item,
      if log.details.childIds.isEmpty then
        (db.items.filter (fun i => decide (i.owner=owner) && decide (i.collection=some log.item) &&
          i.cells.gone)).map Item.id
      else log.details.childIds,[log.id]⟩
  | .change .deleteTask | .change .deleteNote =>
    let rows := db.logs.filter (sameBatch owner log)
    ⟨none,rows.map Log.item,rows.map Log.id⟩
  | _ => ⟨none,[log.item],[log.id]⟩

def Action.source : Action → Change
  | .change c => c
  | _ => .delete

/-- The transaction of `_undo_delete_from_log`. -/
def undoFromLog (owner : Text) (log : Log) (r : Restoration) : Option (Db B × Reply) :=
  let header := r.header.any (fun id => db.headed id owner Cells.gone)
  let headed := match r.header with
    | none => db
    | some id => db.markHeader id owner Cells.gone (markRestored now)
  let (items,restored) := headed.restoreDeleted now owner r.ids
  (items.markUndone now owner r.logs (Action.source log.action) log.itemType log.item restored).map
    (fun db => (db,outcome restored header))

/-- The transaction of `_undo_delete_from_item_row`. -/
def undoFromItemRow (owner : Text) (i : Item) : Db B × Reply :=
  let (items,restored) := db.restoreDeleted now owner [i.id]
  if restored.isEmpty then (items,.refused)
  else (items.addLog owner (.undo .delete) (some i.kind.text) i.id {restored := [i.id]} now,
    .restored [i.id])

/-- What `undo_delete` decides to undo. -/
inductive DeleteChoice where
  | nothing
  | fromLog (log : Log) (r : Restoration)
  | fromItemRow (i : Item)

/-- The reading half of `undo_delete`. -/
def chooseDelete (owner : Text) (threshold : Nat) : DeleteChoice :=
  match db.latestDeleteLog owner threshold,db.latestDeletedItem owner threshold with
  | none,none => .nothing
  | some log,none => .fromLog log (db.restorationOf owner log)
  | none,some i => .fromItemRow i
  | some log,some i =>
    if (i.cells.instant .deletedAt).all (· ≤ log.createdAt) then
      .fromLog log (db.restorationOf owner log)
    else .fromItemRow i

/-- The writing half of `undo_delete`. -/
def commitDelete (owner : Text) : DeleteChoice → Option (Db B × Reply)
  | .nothing => some (db,.refused)
  | .fromLog log r => db.undoFromLog now owner log r
  | .fromItemRow i => some (db.undoFromItemRow now owner i)

/-- `undo_delete`; `threshold` is the first whole second of the window. -/
def undoDelete (owner : Text) (threshold : Nat) : Option (Db B × Reply) :=
  db.commitDelete now owner (db.chooseDelete owner threshold)

end Db

end

section

open Framework Commands

def Action.edits : Action → Bool
  | .change (.edit _) => true
  | .change .updateEventCollection => true
  | _ => false

/-- `action LIKE 'edit_%'`. -/
def Action.editsItem : Action → Bool
  | .change (.edit _) => true
  | _ => false

/-- An edit of items as `undo_edit` has read it: the rows, and what to set. -/
structure ItemRestoration where
  log : Log
  ids : List Text
  values : Prepared
  afterVersion : Nat

/-- What `undo_edit` decides to do. -/
inductive EditChoice where
  | refused
  | raised
  | collection (log : Log)
  | items (r : ItemRestoration)

namespace Db

variable {B : ZoneBook} (db : Db B) (now : Nat)

def latestEditLog (owner : Text) (threshold : Nat) : Option Log :=
  db.latest (fun l => pendingLog owner l && Action.edits l.action && decide (threshold≤l.createdAt))

/-- The values that `_restore_edit_snapshot` will set, by the first row; nothing where it raises. -/
def restoreValues (owner first : Text) (oldValues : Fields) : Option Prepared :=
  ((db.item first).filter (fun i => decide (i.owner=owner) && i.live)).bind (fun current =>
    let values := (oldValues.without (·=.createdAt)).merge (stampNow now .updatedAt)
    let context := (Fields.of .timezone (current.zone (db.userZone owner))).merge values
    (normalizeItemDatetimes B current.kind (db.userZone owner) context).bind (fun normalized =>
      prepareData (values.only normalized)))

/-- The reading half of `undo_edit`. -/
def chooseEdit (owner : Text) (threshold : Nat) : EditChoice :=
  match db.latestEditLog owner threshold with
  | none => .refused
  | some log =>
    if log.details.onCollection then .collection log
    else
      match log.details.oldValues,log.details.afterVersion with
      | some oldValues,some afterVersion =>
        if oldValues.isEmpty then .refused
        else
          let requested := (log.details.instanceIds.getD [log.item]).filter (!·.isEmpty)
          match requested.dedup.filter (fun id => db.owned owner id Item.live) with
          | [] => .refused
          | first::rest =>
            match db.restoreValues now owner first oldValues with
            | none => .raised
            | some values => .items ⟨log,first::rest,values,afterVersion⟩
      | _,_ => .refused

/-! The edit of an item -/

def previous (owner item : Text) (id : Nat) (p : Action → Bool) : Option Log :=
  (rank Log.id db.logs).find? (fun l => pendingLog owner l && decide (l.item=item) &&
    decide (l.id < id) && p l.action)

def writeDetails (id : Nat) (details : Details) : Db B :=
  {db with logs := updateWhere (fun l => l.id=id) (fun l => {l with details := details}) db.logs}

/-- `_rebase_previous_item_edit`. -/
def rebaseItem (owner item : Text) (log : Log) (afterVersion : Nat) : Db B :=
  match db.previous owner item log.id Action.editsItem with
  | none => db
  | some before =>
    if before.details.afterVersion=log.details.beforeVersion then
      db.writeDetails before.id {before.details with afterVersion := some (afterVersion+1)}
    else db

/-- One row of `_restore_edit_snapshot`. -/
def restoreRow (values : Prepared) (id : Text) : Db B :=
  (db.writeItem now id (Item.bump values)).syncNamed id values.fields

def sourceOf (l : Log) : Change := Action.source l.action

/-- The transaction of `_restore_edit_snapshot`. -/
def restoreEdit (owner : Text) (r : ItemRestoration) : Option (Db B × Reply) :=
  if r.ids.all (fun id => db.owned owner id (fun i => i.live && decide (i.version=r.afterVersion))) then
    let written := r.ids.foldl (fun db id => restoreRow db now r.values id) db
    let found :=
      if searched.any r.values.fields.names then r.ids.foldl refreshFts written else written
    let rebased :=
      match r.ids with
      | [id] => found.rebaseItem owner id r.log r.afterVersion
      | _ => found
    (rebased.markUndone now owner [r.log.id] (sourceOf r.log) r.log.itemType
      (match r.ids with
      | [id] => id
      | _ => []) r.ids).map (fun db => (db,.restored r.ids))
  else some (db,.refused)

/-! The edit of a collection -/

/-- The children's part of the rebasing: the versions that the restored children have now. -/
def rebaseChildren (before restored : List (Text × Snapshot)) : List (Text × Snapshot) :=
  before.map (fun (id,snapshot) =>
    match restored.lookup id with
    | some kept =>
      if snapshot.afterVersion=kept.beforeVersion then
        (id,{snapshot with afterVersion := kept.afterVersion+1})
      else (id,snapshot)
    | none => (id,snapshot))

def rebaseCollection (owner : Text) (log : Log) (version : Nat) : Db B :=
  match db.previous owner log.item log.id Action.edits with
  | none => db
  | some before =>
    if before.details.afterVersion=log.details.beforeVersion then
      db.writeDetails before.id {before.details with
        afterVersion := some version
        children := rebaseChildren before.details.children log.details.children}
    else db

def prepareSnapshots (children : List (Text × Snapshot)) : Option (List (Text × Prepared)) :=
  children.mapM (fun (id,snapshot) =>
    (prepareData (snapshot.oldValues.merge (stampNow now .updatedAt))).map (fun u => (id,u)))

def restoreChild (child : Text × Prepared) : Db B :=
  ((db.writeItem now child.1 (Item.bump child.2)).syncNamed child.1 child.2.fields).refreshFts child.1

/-- The transaction of `restore_collection_edit`. -/
def restoreCollectionEdit (owner : Text) (log : Log) : Option (Db B × Reply) :=
  let details := log.details
  if (db.collection log.item).any (fun c => decide (c.owner=owner) && c.live &&
        decide (some c.version=details.afterVersion)) &&
      details.children.all (fun (id,snapshot) => db.owned owner id (fun i =>
        i.live && decide (i.version=snapshot.afterVersion))) then
    (prepareSnapshots now details.children).bind (fun children =>
    (prepareData ((details.oldValues.getD .empty).merge (stampNow now .updatedAt))).bind (fun values =>
      let restored := children.foldl (fun db child => restoreChild db now child) db
      let written := restored.writeHeader log.item (Collection.bump values)
      let version := ((written.collection log.item).map Collection.version).getD 0
      ((written.rebaseCollection owner log version).markUndone now owner [log.id] (sourceOf log)
        (some eventText) log.item (details.children.map Prod.fst)).map
          (fun db => (db,.restored (details.children.map Prod.fst)))))
  else some (db,.refused)

/-- The writing half of `undo_edit`. -/
def commitEdit (owner : Text) : EditChoice → Option (Db B × Reply)
  | .refused => some (db,.refused)
  | .raised => none
  | .collection log => db.restoreCollectionEdit now owner log
  | .items r => db.restoreEdit now owner r

/-- `undo_edit`; `threshold` is the first whole second of the window. -/
def undoEdit (owner : Text) (threshold : Nat) : Option (Db B × Reply) :=
  db.commitEdit now owner (db.chooseEdit now owner threshold)

end Db

end

end XiaoQing.Pendo
