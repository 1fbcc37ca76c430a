import XiaoQing.Pendo.Database

namespace XiaoQing.Pendo

open Framework Commands

/-- The columns of `u` that `v` names. -/
def Fields.only (names u : Fields) : Fields := fun c => if names.names c then u c else none

/-- `_FTS_FIELDS`. -/
def searched : List Column := [.title,.content,.tags,.category]

/-- What a row holds that no column was given for: the defaults of the schema. -/
def Column.initial : Column → Value
  | .category => .text "未分类".toList
  | .visibility => .text "private".toList
  | c => c.unset

def Cells.initial : Cells where
  value := Column.initial
  canonical c := by
    cases c <;> rfl

structure NewItem where
  id : Text
  owner : Text
  kind : Kind
  version : Nat
  fields : Fields

/-- One call of `update_item`, with the id that the reference has been resolved to. -/
structure Update where
  id : Text
  updates : Fields
  owner : Option Text
  expectedVersion : Option Nat
  itemType : Option Kind
  log : Option LogSpec
  touch : Bool

inductive Operation where
  | insert (i : NewItem)
  | update (id : Text) (kind : Kind) (fields : Fields)

structure NewCollection where
  id : Text
  owner : Text
  kind : CollectionKind
  fields : Fields

inductive CollectionOperation where
  | insert (c : NewCollection)
  | update (id : Text) (fields : Fields)

/-- One call of `update_collection`; a child's update is its times and its rules. -/
structure CollectionUpdate where
  id : Text
  owner : Text
  updates : Fields
  children : List (Text × Value × Value)
  expectedVersion : Option Nat
  expectedChildren : Option (List (Text × Nat))
  log : Option LogSpec

/-- A child that an edit of its collection writes, as it was read, and what is set. -/
structure ChildEdit where
  child : Item
  changes : Prepared

def NewItem.row (i : NewItem) (u : Prepared) : Item :=
  ⟨i.id,i.owner,i.kind,i.version,Cells.initial.write u⟩

def Operation.id : Operation → Text
  | .insert i => i.id
  | .update id _ _ => id

def ChildEdit.set (now : Nat) (e : ChildEdit) : Prepared :=
  e.changes.merge (.stamp .updatedAt now updatedAt_ne)

def ChildEdit.snapshot (e : ChildEdit) : Text × Snapshot :=
  (e.child.id,
    ⟨fun c => if e.changes.fields.names c then some (e.child.field c) else none,
      e.child.version,e.child.version+1⟩)

namespace Db

variable {B : ZoneBook} (db : Db B) (now : Nat)

def stampNow (c : Column) : Fields := .of c (.stamp (.utc now))

/-! Identifiers -/

def hexDigit (c : Char) : Bool := c.isDigit || decide ('a'≤c.toLower ∧ c.toLower≤ 'f')

def publicId (id : Text) : Text :=
  if id.length=32 && id.all hexDigit then (id.take 8).map Char.toLower else id

/-- `_resolve_public_identifier` among the ids of an owner's live rows; nothing where the reference,
without its surrounding blanks, is unknown or ambiguous. -/
def resolve (ids : List Text) (reference : Text) : Option Text :=
  if reference.isEmpty then none
  else
    match ids.filter (fun id => id.map Char.toLower=reference.map Char.toLower) with
    | [id] => some id
    | _::_::_ => none
    | [] =>
      if reference.length=8 && reference.all hexDigit then
        match ids.filter (fun id => (publicId id).map Char.toLower=reference.map Char.toLower) with
        | [id] => some id
        | _ => none
      else none

def resolveItemId (owner reference : Text) : Option Text :=
  resolve ((db.items.filter (fun i => decide (i.owner=owner) && i.live)).map Item.id) reference

/-- `resolve_event_collection_id`. -/
def resolveCollectionId (owner reference : Text) : Option Text :=
  resolve ((db.collections.filter (fun c => decide (c.owner=owner) && c.live)).map Collection.id)
    reference

/-! Insertions -/

/-- The row of a payload: what `setdefault` supplies, the zone of an event, and the timestamps as
storage has them. `validate_item_data` has passed on the payload. -/
def prepareNew (i : NewItem) : Option Prepared :=
  let filled := ((stampNow now .createdAt).merge (stampNow now .updatedAt)).merge i.fields
  let placed := if i.kind=.event && (filled .timezone).all Value.blank then
      filled.merge (.of .timezone (.text (db.userZone i.owner)))
    else filled
  (normalizeItemDatetimes B i.kind (db.userZone i.owner) placed).bind prepareData

def commitInsert (i : NewItem) (u : Prepared) (log : Option LogSpec) : Option (Db B) :=
  (db.insertRow now (i.row u)).map (fun db =>
    (((db.syncNamed i.id u.fields).updateFts
      (indexRow i.id (fun c => (u.fields c).getD (.text [])))).logFromSpec now log i.id (some i.kind.text)
        (fun _ => {})))

def insertItem (i : NewItem) (log : Option LogSpec) : Option (Db B) :=
  if i.owner.isEmpty then none
  else (db.prepareNew now i).bind (fun u => db.commitInsert now i u log)

/-! Updates -/

/-- What `update_item` will set, by the row it has read. -/
def prepareUpdate (c : Update) : Option Prepared :=
  (db.item c.id).bind (fun current =>
    let mutable := c.updates.without (·=.createdAt)
    let updates := if c.touch then mutable.merge (stampNow now .updatedAt) else mutable
    let userZone := db.userZone current.owner
    let context := (Fields.of .timezone (current.zone userZone)).merge updates
    (normalizeItemDatetimes B current.kind userZone context).bind (fun normalized =>
      prepareData (updates.only normalized)))

def changed (u : Prepared) (c : Column) : Bool := c≠.updatedAt && u.fields.names c

/-- `old_values`: what the class of the item shows of the changed columns. -/
def oldValues (before : Item) (u : Prepared) : Fields :=
  fun c => if changed u c then some (before.field c) else none

/-- The details that an update adds to its log: an edit remembers what it replaced. -/
def editDetails (before : Item) (u : Prepared) (touch : Bool) (spec : LogSpec) : Details :=
  match spec.action with
  | .change (.edit _) =>
    { oldValues := some (oldValues before u)
      updates := some (u.fields.without (!changed u ·))
      beforeVersion := some before.version
      afterVersion := some (before.version+touch.toNat) }
  | _ => {}

def matchesUpdate (c : Update) (i : Item) : Bool :=
  i.live && c.owner.all (·=i.owner) && c.itemType.all (·=i.kind) &&
    c.expectedVersion.all (·=i.version)

/-- The transaction of `update_item`. -/
def commitUpdate (c : Update) (u : Prepared) : Option (Db B) :=
  if u.fields.isEmpty then none
  else
    ((db.item c.id).filter (matchesUpdate c)).map (fun before =>
      let written := db.writeItem now c.id (if c.touch then Item.bump u else Item.write u)
      let synced := written.syncNamed c.id u.fields
      let found := if searched.any u.fields.names then synced.refreshFts c.id else synced
      found.logFromSpec now c.log c.id (c.itemType.map Kind.text) (editDetails before u c.touch))

/-- `update_item`; nothing where it writes nothing. -/
def updateItem (c : Update) : Option (Db B) :=
  (db.prepareUpdate now c).bind (fun u => db.commitUpdate now c u)

/-! Imports -/

/-- One operation of `_apply_batch_operations`. -/
def applyOperation (owner : Text) (operation : Operation) : Option (Db B) :=
  if operation.id.isEmpty then none
  else
    match operation with
    | .insert i =>
      (db.prepareNew now {i with owner := owner}).bind (fun u =>
        (db.insertRow now (NewItem.row {i with owner := owner} u)).map (·.syncNamed i.id u.fields))
    | .update id kind fields =>
      (db.prepareNew now ⟨id,owner,kind,0,fields⟩).bind (fun u =>
        if (db.item id).any (fun i => decide (i.owner=owner) && i.live) then
          some ((db.writeItem now id (Item.bump u)).syncNamed id u.fields)
        else none)

def batchInsertOrUpdate (owner : Text) (operations : List Operation) : Option (Db B) :=
  (operations.foldlM (fun db operation => applyOperation db now owner operation) db).map (fun db =>
    operations.foldl (fun db operation => db.refreshFts operation.id) db)

/-! Collections -/

def defaultTimezone : Text := "Asia/Shanghai".toList

/-- The columns that `_prepare_new_event_collection` supplies. -/
def newHeader : Fields := fun c =>
  match c with
  | .content => some (.text [])
  | .category => some (Column.initial .category)
  | .location => some (.text [])
  | .tags => some (.texts [])
  | .notes => some (.text [])
  | .context => some (.document ['{','}'])
  | .visibility => some (Column.initial .visibility)
  | .reminderRules => some (.document ['[',']'])
  | .createdAt => some (.stamp (.utc now))
  | .updatedAt => some (.stamp (.utc now))
  | .deleted => some (.flag false)
  | _ => none

/-- `normalize_event_collection_datetimes_for_storage`. -/
def normalizeHeader (owner : Text) (u : Fields) : Option Fields :=
  normalizeItemDatetimes B .event (db.userZone owner) u

/-- `INSERT INTO event_collections` with what `_prepare_new_event_collection` checks. -/
def insertHeader (c : NewCollection) (zone : Text) : Option (Db B) :=
  if c.owner.isEmpty || (c.fields .title).all Value.blank || (db.collection c.id).isSome then none
  else
    let supplied := (newHeader now).merge (.of .timezone (.text zone))
    ((db.normalizeHeader c.owner (supplied.merge c.fields)).bind prepareData).map (fun u =>
      {db with
        collections := db.collections++[⟨c.id,c.owner,c.kind,0,Cells.initial.write u⟩]})

/-- One operation of `_apply_event_collection_import_operations`; `_EVENT_COLLECTION_IMPORT_UPDATE_FIELDS`
leaves no column out. -/
def applyCollectionOperation (owner : Text) : CollectionOperation → Option (Db B)
  | .insert c => db.insertHeader now {c with owner := owner} defaultTimezone
  | .update id fields =>
    ((db.normalizeHeader owner ((stampNow now .updatedAt).merge fields)).bind prepareData).map (fun u =>
      {db with
        collections := updateWhere (fun c => c.id=id && c.owner=owner && c.live)
          (Collection.write u) db.collections})

/-- `execute_import_bundle`, after the bundle has been reserved. -/
def executeImportBundle (owner : Text) (collections : List CollectionOperation)
    (operations : List Operation) : Option (Db B) :=
  (collections.foldlM (fun db operation => applyCollectionOperation db now owner operation) db).bind
    (fun db => db.batchInsertOrUpdate now owner operations)

/-- A child as `create_event_collection` completes it. -/
def childItem (c : NewCollection) (zone : Text) (child : NewItem) : NewItem :=
  let roled := child.fields.merge (fun column =>
    match column with
    | .eventCollectionId => some (.text c.id)
    | .eventCollectionKind => some (.text (match c.kind with
      | .multiNode => "multi_node".toList
      | .recurring => "recurring".toList))
    | .eventRole => some (.text (match c.kind with
      | .multiNode => "multi_node_child".toList
      | .recurring => "recurring_occurrence".toList))
    | _ => none)
  {child with
    owner := c.owner
    kind := .event
    fields := (Fields.of .timezone (.text zone)).merge roled}

def insertChild (c : NewCollection) (zone : Text) (child : NewItem) : Option (Db B) :=
  if child.id.isEmpty then none
  else
    (db.prepareNew now (childItem c zone child)).bind (fun u =>
      db.commitInsert now (childItem c zone child) u none)

def createEventCollection (c : NewCollection) (zone : Text) (children : List NewItem) (action : Text) :
    Option (Db B) :=
  (db.insertHeader now c (db.userZone c.owner)).bind (fun db =>
    (children.foldlM (fun db child => insertChild db now c zone child) db).map (fun db =>
      db.addLog c.owner (.other action) (some Kind.event.text) c.id
        {childIds := children.map NewItem.id} now))

/-- `_EVENT_COLLECTION_UPDATE_FIELDS`. -/
def collectionColumns : List Column :=
  [.title,.content,.category,.location,.tags,.notes,.context,.visibility,.timezone,.rrule,
    .reminderRules,.startTime,.endTime,.sourceItemId]

def childChanges (clean : Fields) (children : List (Text × Value × Value)) (child : Item) : Fields :=
  let shared := clean.without (fun c => c≠.category && c≠.timezone)
  match children.find? (fun entry => entry.1=child.id) with
  | none => shared
  | some (_,times,rules) =>
    shared.merge ((Fields.of .remindTimes times).merge (.of .reminderRules rules))

/-- The children that are written; `zone` is the collection's. -/
def childEdits (owner : Text) (zone clean : Fields) (children : List (Text × Value × Value)) :
    List Item → Option (List ChildEdit)
  | [] => some []
  | child::rest =>
    let changes := childChanges clean children child
    (childEdits owner zone clean children rest).bind (fun edits =>
      if changes.isEmpty then some edits
      else
        (normalizeItemDatetimes B .event (db.userZone owner) (zone.merge changes)).bind
          (fun normalized =>
            (prepareData (changes.only normalized)).map (fun u => ⟨child,u⟩::edits)))

def writeChild (e : ChildEdit) : Db B :=
  let written := db.writeItem now e.child.id (Item.bump (e.set now))
  let synced := written.syncNamed e.child.id e.changes.fields
  if searched.any e.changes.fields.names then synced.refreshFts e.child.id else synced

/-- The rows that `update_collection` reads as children. -/
def membersOf (owner id : Text) : List Item :=
  db.items.filter (fun i => decide (i.collection=some id) && decide (i.owner=owner) && i.live)

def writeHeader (id : Text) (f : Collection → Collection) : Db B :=
  {db with collections := updateWhere (fun c => c.id=id) f db.collections}

/-- What `update_collection` found to write. -/
structure CollectionEdit where
  header : Collection
  clean : Prepared
  children : List ChildEdit

/-- The checks of `update_collection`. -/
def prepareCollection (c : CollectionUpdate) : Option CollectionEdit :=
  let named := c.updates.without (fun column => column∉collectionColumns)
  if named.isEmpty && c.children.isEmpty then none
  else
    ((db.collection c.id).filter (fun h =>
      decide (h.owner=c.owner) && h.live && c.expectedVersion.all (·=h.version))).bind (fun header =>
    let context := (Fields.of .timezone (header.cells.value .timezone)).merge named
    (db.normalizeHeader c.owner context).bind (fun normalized =>
    let members := db.membersOf c.owner c.id
    if (c.expectedChildren.all (fun expected =>
        expected.length=members.length &&
          members.all (fun m => (m.id,m.version)∈expected))) &&
        c.children.all (fun entry => members.any (fun m => m.id=entry.1)) then
      (db.childEdits c.owner (normalized.without (·≠.timezone)) (named.only normalized) c.children
        members).bind (fun children =>
          (prepareData (named.only normalized)).map (fun clean => ⟨header,clean,children⟩))
    else none))

/-- The transaction of `update_collection`. -/
def commitCollection (c : CollectionUpdate) (e : CollectionEdit) : Db B :=
  let children := e.children.foldl (fun db e => writeChild db now e) db
  let written := children.writeHeader c.id
    (Collection.bump (e.clean.merge (.stamp .updatedAt now updatedAt_ne)))
  let spec := c.log.getD ⟨c.owner,.change (.edit "event_collection".toList),none,none,[]⟩
  written.logFromSpec now (some spec) c.id (some Kind.event.text) (fun _ =>
    { onCollection := true
      oldValues := some (fun column =>
        if e.clean.fields.names column then some (e.header.cells.value column) else none)
      updates := some e.clean.fields
      beforeVersion := some e.header.version
      afterVersion := some (((written.collection c.id).map Collection.version).getD 0)
      children := e.children.map ChildEdit.snapshot })

/-- `update_collection`, for a reference that has been resolved; nothing where it writes nothing. -/
def updateCollection (c : CollectionUpdate) : Option (Db B) :=
  (db.prepareCollection c).map (fun e => db.commitCollection now c e)

end Db

end XiaoQing.Pendo
