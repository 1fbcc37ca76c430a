import XiaoQing.Commands.CommandRouter
import XiaoQing.Commands.Catalog
import XiaoQing.Framework.Rows
import Mathlib.Data.List.Infix

namespace XiaoQing.Pendo

open Commands

/-! The cache of `Database` and the bookkeeping each thread keeps for it. -/

/-- `CACHE_TTL`, in seconds. -/
def cacheTtl : Nat := 30

def cacheMaxSize : Nat := 1024

structure CacheEntry (ν : Type) where
  time : Nat
  value : ν

/-- The ordered dictionary, the least recently used key first, and the generation. -/
structure ReadCache (ν : Type) where
  entries : List (Text × CacheEntry ν)
  generation : Nat

/-- `_cache_reads` of one thread. -/
structure CacheReads where
  generations : List (Text × Nat)
  overflowed : Bool

variable {ν : Type}

/-- `del d[key]`, or nothing where the key is not there. -/
def without {α : Type} (key : Text) (d : List (Text × α)) : List (Text × α) :=
  d.filter (fun e => e.1≠key)

namespace CacheReads

def new : CacheReads := ⟨[],false⟩

def record (reads : CacheReads) (key : Text) (generation : Nat) : CacheReads :=
  let room := if cacheMaxSize ≤ reads.generations.length then ⟨[],true⟩ else reads
  {room with generations := (key,generation)::without key room.generations}

/-- The generation that `_cache_set` compares; none is -1. -/
def expected (reads : CacheReads) (key : Text) (generation : Nat) : Option Nat :=
  (reads.generations.lookup key).or (if reads.overflowed then none else some generation)

def forget (reads : CacheReads) (key : Text) : CacheReads :=
  {reads with generations := without key reads.generations}

end CacheReads

namespace ReadCache

def new : ReadCache ν := ⟨[],0⟩

/-- `_cache_get_or_miss` after the generation is recorded. -/
def get (cache : ReadCache ν) (key : Text) (now : Nat) : ReadCache ν × Option ν :=
  match cache.entries.lookup key with
  | none => (cache,none)
  | some entry =>
    if now-entry.time ≤ cacheTtl then
      ({cache with entries := without key cache.entries++[(key,entry)]},some entry.value)
    else ({cache with entries := without key cache.entries},none)

/-- `_cache_set` once the generations agree. -/
def put (cache : ReadCache ν) (key : Text) (value : ν) (now : Nat) : ReadCache ν :=
  let room :=
    if (cache.entries.lookup key).isSome then without key cache.entries
    else if cacheMaxSize ≤ cache.entries.length then cache.entries.tail
    else cache.entries
  {cache with entries := room++[(key,⟨now,value⟩)]}

/-- `_cache_set`. -/
def set (cache : ReadCache ν) (reads : CacheReads) (key : Text) (value : ν) (now : Nat) :
    ReadCache ν :=
  if reads.expected key cache.generation=some cache.generation then cache.put key value now
  else cache

/-- `cache_clear`. -/
def clear (cache : ReadCache ν) : ReadCache ν := ⟨[],cache.generation+1⟩

/-- What `cache_invalidate` removes; an empty pattern removes everything. -/
def matching (pattern key : Text) : Bool := pattern.isEmpty || decide (pattern <:+: key)

/-- `cache_invalidate`. -/
def invalidate (cache : ReadCache ν) (pattern : Text) : ReadCache ν :=
  ⟨cache.entries.filter (fun e => !matching pattern e.1),cache.generation+1⟩

variable {cache : ReadCache ν} {key pattern : Text} {value : ν} {now : Nat} {reads : CacheReads}
  {e : Text × CacheEntry ν}

theorem get_sub (h : e∈(cache.get key now).1.entries) : e∈cache.entries := by
  unfold get at h
  cases hfound : cache.entries.lookup key with
  | none =>
    rw [hfound] at h
    exact h
  | some entry =>
    rw [hfound] at h
    have hmem : (key,entry)∈cache.entries := by
      rw [List.lookup_eq_some_iff] at hfound
      obtain ⟨before,after,heq,_⟩ := hfound
      simp [heq]
    dsimp only at h
    split at h
    · rcases List.mem_append.mp h with h | h
      · exact List.mem_of_mem_filter h
      · rw [List.mem_singleton.mp h]
        exact hmem
    · exact List.mem_of_mem_filter h

theorem get_hit (h : (cache.get key now).2=some value) :
    ∃time,(key,⟨time,value⟩)∈cache.entries := by
  unfold get at h
  cases hfound : cache.entries.lookup key with
  | none =>
    rw [hfound] at h
    cases h
  | some entry =>
    rw [hfound] at h
    dsimp only at h
    rw [List.lookup_eq_some_iff] at hfound
    obtain ⟨before,after,heq,_⟩ := hfound
    split at h
    · refine ⟨entry.time,?_⟩
      cases h
      simp [heq]
    · cases h

@[simp] theorem get_generation : (cache.get key now).1.generation=cache.generation := by
  unfold get
  split
  · rfl
  · split <;> rfl

theorem mem_put (h : e∈(cache.put key value now).entries) :
    e∈cache.entries ∨ e=(key,⟨now,value⟩) := by
  unfold put at h
  rcases List.mem_append.mp h with h | h
  · left
    split at h
    · exact List.mem_of_mem_filter h
    · split at h
      · exact List.mem_of_mem_tail h
      · exact h
  · exact .inr (List.mem_singleton.mp h)

@[simp] theorem set_generation : (cache.set reads key value now).generation=cache.generation := by
  unfold set
  split <;> rfl

theorem mem_set (h : e∈(cache.set reads key value now).entries) : e∈cache.entries ∨
    (e=(key,⟨now,value⟩) ∧ reads.expected key cache.generation=some cache.generation) := by
  unfold set at h
  split at h
  · exact (mem_put h).imp_right (fun he => ⟨he,‹_›⟩)
  · exact .inl h

theorem mem_invalidate (h : e∈(cache.invalidate pattern).entries) :
    e∈cache.entries ∧ matching pattern e.1=false := by
  have h := List.mem_filter.mp h
  exact ⟨h.1,by simpa using h.2⟩

end ReadCache

namespace CacheReads

variable {reads : CacheReads} {key other : Text} {generation g : Nat}

theorem mem_record {e : Text × Nat} (h : e∈(reads.record key generation).generations) :
    e=(key,generation) ∨ e∈reads.generations := by
  unfold record at h
  rcases List.mem_cons.mp h with h | h
  · exact .inl h
  · right
    split at h
    · cases List.mem_of_mem_filter h
    · exact List.mem_of_mem_filter h

theorem mem_forget {e : Text × Nat} (h : e∈(reads.forget key).generations) : e∈reads.generations :=
  List.mem_of_mem_filter h

end CacheReads

end XiaoQing.Pendo

namespace XiaoQing.Pendo.Reads

open Framework Commands

/-! The tables that cached reads select from, and the transactions that write them. The columns no
WHERE clause of these reads, nor of the transactions, looks at are the body of a row. -/

structure ItemRow (β : Type) where
  id : Text
  owner : Text
  kind : Text
  deleted : Bool
  version : Nat
  collection : Option Text
  multiNode : Bool
  body : β
  deriving DecidableEq

structure SettingsRow (ς : Type) where
  user : Text
  body : ς

structure CollectionRow where
  id : Text
  owner : Text
  deleted : Bool

structure Tables (β ς : Type) where
  items : List (ItemRow β)
  settings : List (SettingsRow ς)
  collections : List CollectionRow

structure Decoder (β ι ς σ φ : Type) where
  /-- `_row_to_item` -/
  rowToItem : ItemRow β → Option ι
  /-- whether `_resolve_item_filters` attaches the user's zone -/
  usesZone : φ → Bool
  /-- `json.dumps` of the resolved filters -/
  dumps : φ → Option Text → Text
  /-- the rest of the WHERE clause, its order and its page; the zone of the clause, then of the order -/
  page : φ → Option Text → Option Text → Nat → Nat → List (ItemRow β) → List (ItemRow β)
  /-- `_hydrate_user_settings_row` -/
  hydrate : ς → σ
  /-- `_default_user_settings` -/
  defaults : Text → σ
  /-- `get_user_timezone(…).key` -/
  zone : σ → Text

/-- A read with the zone that its filters were resolved with. -/
inductive Query (φ : Type) where
  | item (id : Text) (owner : Option Text)
  | items (owner : Text) (filters : φ) (zone : Option Text) (limit offset : Nat)
  | settings (user : Text)
  deriving DecidableEq

inductive Value (ι σ : Type) where
  | item (item : Option ι)
  | items (items : List ι)
  | settings (settings : σ)
  deriving DecidableEq

/-- What a writer does to the cache once it has committed. An owner still to be looked up stands
with the owner that the row had. -/
inductive Invalidation where
  | pattern (pattern : Text)
  | clear
  | ownerOf (id owner : Text)

variable {β ι ς σ φ : Type}

namespace Tables

/-- The row that `get_item` selects. -/
def item (t : Tables β ς) (id : Text) (owner : Option Text) : Option (ItemRow β) :=
  t.items.find? (fun r => r.id=id && owner.all (· = r.owner) && !r.deleted)

/-- The rows that `get_items` selects from. -/
def live (t : Tables β ς) (owner : Text) : List (ItemRow β) :=
  t.items.filter (fun r => r.owner=owner && !r.deleted)

def settingsOf (t : Tables β ς) (user : Text) : Option (SettingsRow ς) :=
  row SettingsRow.user t.settings user

end Tables

/-! Reads -/

def itemsPattern (owner : Text) : Text := join '|' ["items".toList,owner]

def settingsKey (user : Text) : Text := join '|' ["settings".toList,user]

/-- `_cache_key` of a read. -/
def Query.key (D : Decoder β ι ς σ φ) : Query φ → Text
  | .item id owner => join '|' ["item".toList,id,owner.getD "*".toList]
  | .items owner filters zone limit offset =>
    join '|' ["items".toList,owner,D.dumps filters zone,Nat.toDigits 10 limit,Nat.toDigits 10 offset]
  | .settings user => settingsKey user

def Query.Same (q : Query φ) (t t' : Tables β ς) : Prop :=
  match q with
  | .item id owner => t.item id owner=t'.item id owner
  | .items owner _ _ _ _ => t.live owner=t'.live owner
  | .settings user => t.settingsOf user=t'.settingsOf user

/-- What a read selects and decodes; `zone` is what the clauses of `get_items` are built with. -/
def Query.select (D : Decoder β ι ς σ φ) (q : Query φ) (zone : Option Text) (t : Tables β ς) :
    Value ι σ :=
  match q with
  | .item id owner => .item ((t.item id owner).bind D.rowToItem)
  | .items owner filters sortZone limit offset =>
    .items ((D.page filters zone sortZone limit offset (t.live owner)).filterMap D.rowToItem)
  | .settings user =>
    .settings (((t.settingsOf user).map (fun r => D.hydrate r.body)).getD (D.defaults user))

/-- Whether the answer goes into the cache: not a missing item and not default settings. -/
def Query.kept (D : Decoder β ι ς σ φ) (q : Query φ) (t : Tables β ς) : Bool :=
  match q with
  | .item id owner => ((t.item id owner).bind D.rowToItem).isSome
  | .items _ _ _ _ _ => true
  | .settings user => (t.settingsOf user).isSome

/-! Writes -/

def ItemRow.edited (touch : Bool) (edit : ItemRow β → ItemRow β) (r : ItemRow β) : ItemRow β :=
  {edit r with id := r.id,owner := r.owner,kind := r.kind,version := r.version+touch.toNat}

def ItemRow.marked (deleted touch : Bool) (mark : β → β) (r : ItemRow β) : ItemRow β :=
  {r with deleted := deleted,version := r.version+touch.toNat,body := mark r.body}

def editItems (p : ItemRow β → Bool) (f : ItemRow β → ItemRow β) (t : Tables β ς) : Tables β ς :=
  {t with items := updateWhere p f t.items}

def invalidations (ids : List Text) (owner : Text) : List Invalidation :=
  ids.map .pattern++[.pattern (itemsPattern owner)]

def collectionInvalidations (collection owner : Text) : List Invalidation :=
  [.pattern collection,.pattern (join '|' ["event_collections".toList,owner])]

def idsOf (p : ItemRow β → Bool) (t : Tables β ς) : List Text := (t.items.filter p).map ItemRow.id

/-- The tables and the cache work that a transaction leaves, where it changes anything. -/
abbrev Commit (β ς : Type) := Option (Tables β ς × List Invalidation)

def insertRow (row : ItemRow β) (t : Tables β ς) : Option (Tables β ς) :=
  if t.items.any (fun r => r.id=row.id) then none else some {t with items := t.items++[row]}

def insertItem (row : ItemRow β) (t : Tables β ς) : Commit β ς :=
  (insertRow row t).map (fun t => (t,invalidations [row.id] row.owner))

/-- `update_item`, the id resolved; the owner of the lists is looked up where none is given. -/
def updateItem (D : Decoder β ι ς σ φ) (id : Text) (owner itemType : Option Text)
    (expectedVersion : Option Nat) (touch : Bool) (edit : ItemRow β → ItemRow β) (t : Tables β ς) :
    Commit β ς :=
  let matched := fun r : ItemRow β => r.id=id && owner.all (· = r.owner) && !r.deleted &&
    itemType.all (· = r.kind) && expectedVersion.all (· = r.version)
  if ((t.item id none).bind D.rowToItem).isNone then none
  else
    match t.items.find? matched with
    | none => none
    | some r =>
      let lists := match owner with
        | some owner => .pattern (itemsPattern owner)
        | none => .ownerOf id r.owner
      some (editItems matched (.edited touch edit) t,[.pattern id,lists])

inductive Operation (β : Type) where
  | insert (row : ItemRow β)
  | update (id : Text) (edit : ItemRow β → ItemRow β)

def Operation.id : Operation β → Text
  | .insert row => row.id
  | .update id _ => id

/-- One turn of `_apply_batch_operations`. -/
def Operation.apply (owner : Text) (t : Tables β ς) (operation : Operation β) :
    Option (Tables β ς) :=
  if operation.id.isEmpty then none
  else
    match operation with
    | .insert row => insertRow {row with owner := owner} t
    | .update id edit =>
      let matched := fun r : ItemRow β => r.id=id && r.owner=owner && !r.deleted
      if t.items.countP matched=1 then some (editItems matched (.edited true edit) t) else none

/-- `batch_insert_or_update`, and the items of `execute_import_bundle`. -/
def batchInsertOrUpdate (owner : Text) (operations : List (Operation β)) (t : Tables β ς) :
    Commit β ς :=
  (operations.foldlM (Operation.apply owner) t).map (fun t =>
    (t,invalidations (operations.map Operation.id) owner))

def batchSoftDelete (ids : List Text) (owner : Text) (itemType : Option Text) (mark : β → β)
    (t : Tables β ς) : Commit β ς :=
  let active := fun r : ItemRow β =>
    decide (r.id∈ids) && r.owner=owner && !r.deleted && itemType.all (· = r.kind)
  let deletedIds := idsOf active t
  if deletedIds.isEmpty then none
  else some (editItems active (.marked true true mark) t,invalidations deletedIds owner)

def createEventCollection (collection owner : Text) (children : List (ItemRow β)) (t : Tables β ς) :
    Commit β ς :=
  if t.collections.any (fun c => c.id=collection) then none
  else
    ((children.map (fun r => {r with owner := owner,collection := some collection})).foldlM
      (fun t r => insertRow r t)
      {t with collections := t.collections++[⟨collection,owner,false⟩]}).map (fun t =>
        (t,invalidations (children.map ItemRow.id) owner++
          [.pattern (join '|' ["event_collections".toList,owner])]))

def headerIs (deleted : Bool) (collection owner : Text) (c : CollectionRow) : Bool :=
  c.id=collection && c.owner=owner && c.deleted=deleted

def markHeader (deleted : Bool) (collection owner : Text) (t : Tables β ς) : Tables β ς :=
  {t with
    collections := updateWhere (headerIs (!deleted) collection owner)
      (fun c => {c with deleted := deleted}) t.collections}

def eventText : Text := "event".toList

def taskText : Text := "task".toList

def deleteEventInstance (id owner : Text) (mark : β → β) (t : Tables β ς) : Commit β ς :=
  let matched := fun r : ItemRow β =>
    r.id=id && r.owner=owner && r.kind=eventText && !r.deleted
  match t.items.find? matched with
  | none => none
  | some r =>
    let removed := editItems matched (.marked true true mark) t
    match r.collection with
    | none => some (removed,invalidations [id] owner)
    | some collection =>
      let siblings := t.items.countP (fun r => r.owner=owner && r.kind=eventText && !r.deleted &&
        r.collection=some collection)
      if r.multiNode && siblings=1 && t.collections.any (headerIs false collection owner) then
        some (markHeader true collection owner removed,
          invalidations [id] owner++collectionInvalidations collection owner)
      else some (removed,invalidations [id] owner)

def deleteEventCollection (collection owner : Text) (cascade : Bool) (mark : β → β)
    (t : Tables β ς) : Commit β ς :=
  let child := fun r : ItemRow β => cascade && r.owner=owner && r.kind=eventText && !r.deleted &&
    r.collection=some collection
  if t.collections.any (headerIs false collection owner) then
    some (markHeader true collection owner (editItems child (.marked true false mark) t),
      invalidations (idsOf child t) owner++collectionInvalidations collection owner)
  else none

def putSettings (user : Text) (patch : Option ς → ς) (t : Tables β ς) : Tables β ς :=
  {t with
    settings := upsert SettingsRow.user ⟨user,patch none⟩ (fun _ => true)
      (fun r => {r with body := patch (some r.body)}) t.settings}

/-- The migration of overdue tasks; `due` is its condition on dates and status, `done` that the day
has been migrated already. -/
def migrateTodos (user : Text) (due : β → Bool) (move : β → β) (done : ς → Bool)
    (patch : Option ς → ς) (t : Tables β ς) : Commit β ς :=
  let matched := fun r : ItemRow β =>
    r.owner=user && r.kind=taskText && !r.deleted && due r.body
  if (t.settingsOf user).any (fun r => done r.body) then none
  else some (putSettings user patch (editItems matched (.marked false true move) t),
    invalidations (idsOf matched t) user++[.pattern (settingsKey user)])

/-- `delete_item`, the id resolved. -/
def deleteItem (id owner : Text) (soft : Bool) (mark : β → β) (t : Tables β ς) : Commit β ς :=
  let matched := fun r : ItemRow β => r.id=id && r.owner=owner && (!soft || !r.deleted)
  if t.items.any matched then
    some (if soft then editItems matched (.marked true true mark) t
      else {t with items := t.items.filter (fun r => !matched r)},invalidations [id] owner)
  else none

/-- `undo_delete`: the rows and the collection header of the operation it undoes. -/
def undoDelete (owner : Text) (ids : List Text) (collection : Option Text) (mark : β → β)
    (t : Tables β ς) : Commit β ς :=
  let matched := fun r : ItemRow β => decide (r.id∈ids) && r.owner=owner && r.deleted
  let restored := editItems matched (.marked false true mark) t
  some (match collection with
    | none => restored
    | some collection => markHeader false collection owner restored,[.clear])

/-- `_restore_edit_snapshot`, for the live rows of `undo_edit`. -/
def restoreEditSnapshot (owner : Text) (ids : List Text) (afterVersion : Nat)
    (edit : ItemRow β → ItemRow β) (t : Tables β ς) : Commit β ς :=
  let matched := fun r : ItemRow β => decide (r.id∈ids) && r.owner=owner && !r.deleted
  if (idsOf matched t).isEmpty ||
      t.items.any (fun r => matched r && r.version≠afterVersion) then none
  else some (editItems matched (.edited true edit) t,invalidations (idsOf matched t) owner)

/-- `update_collection`; `changes` is what it writes to a child, where it writes anything. -/
def updateCollection (collection owner : Text)
    (changes : ItemRow β → Option (ItemRow β → ItemRow β)) (t : Tables β ς) : Commit β ς :=
  let changed := fun r : ItemRow β =>
    r.collection=some collection && r.owner=owner && !r.deleted && (changes r).isSome
  if t.collections.any (headerIs false collection owner) then
    some (editItems changed (fun r => r.edited true ((changes r).getD id)) t,
      invalidations (idsOf changed t) owner++[.pattern collection])
  else none

/-- `restore_collection_edit`; the snapshots are children, their versions and what is written back. -/
def restoreCollectionEdit (collection owner : Text)
    (snapshots : List (Text × Nat × (ItemRow β → ItemRow β))) (t : Tables β ς) : Commit β ς :=
  let held := fun snapshot : Text × Nat × (ItemRow β → ItemRow β) =>
    t.items.any (fun r => r.id=snapshot.1 && r.owner=owner && !r.deleted && r.version=snapshot.2.1)
  if t.collections.any (headerIs false collection owner) && snapshots.all held then
    some (snapshots.foldl (fun t snapshot =>
      editItems (fun r => r.id=snapshot.1 && r.owner=owner) (.edited true snapshot.2.2) t) t,
      snapshots.map (fun snapshot => .pattern snapshot.1)++
        [.pattern collection,.pattern (itemsPattern owner)])
  else none

def updateUserSettings (user : Text) (patch : Option ς → ς) (t : Tables β ς) : Commit β ς :=
  some (putSettings user patch t,[.pattern (settingsKey user)])

def purgeDemoOwner (owner : Text) (t : Tables β ς) : Commit β ς :=
  some ({ items := t.items.filter (fun r => r.owner≠owner)
          settings := t.settings.filter (fun r => r.user≠owner)
          collections := t.collections.filter (fun c => c.owner≠owner) },[.clear])

inductive Write (β ς : Type) where
  | insertItem (row : ItemRow β)
  | updateItem (id : Text) (owner itemType : Option Text) (expectedVersion : Option Nat)
      (touch : Bool) (edit : ItemRow β → ItemRow β)
  | batchInsertOrUpdate (owner : Text) (operations : List (Operation β))
  | batchSoftDelete (ids : List Text) (owner : Text) (itemType : Option Text) (mark : β → β)
  | createEventCollection (collection owner : Text) (children : List (ItemRow β))
  | deleteEventInstance (id owner : Text) (mark : β → β)
  | deleteEventCollection (collection owner : Text) (cascade : Bool) (mark : β → β)
  | migrateTodos (user : Text) (due : β → Bool) (move : β → β) (done : ς → Bool)
      (patch : Option ς → ς)
  | deleteItem (id owner : Text) (soft : Bool) (mark : β → β)
  | undoDelete (owner : Text) (ids : List Text) (collection : Option Text) (mark : β → β)
  | restoreEditSnapshot (owner : Text) (ids : List Text) (afterVersion : Nat)
      (edit : ItemRow β → ItemRow β)
  | updateCollection (collection owner : Text)
      (changes : ItemRow β → Option (ItemRow β → ItemRow β))
  | restoreCollectionEdit (collection owner : Text)
      (snapshots : List (Text × Nat × (ItemRow β → ItemRow β)))
  | updateUserSettings (user : Text) (patch : Option ς → ς)
  | purgeDemoOwner (owner : Text)

def Write.commit (D : Decoder β ι ς σ φ) (w : Write β ς) (t : Tables β ς) : Commit β ς :=
  match w with
  | .insertItem row => Reads.insertItem row t
  | .updateItem id owner itemType expectedVersion touch edit =>
    Reads.updateItem D id owner itemType expectedVersion touch edit t
  | .batchInsertOrUpdate owner operations => Reads.batchInsertOrUpdate owner operations t
  | .batchSoftDelete ids owner itemType mark => Reads.batchSoftDelete ids owner itemType mark t
  | .createEventCollection collection owner children =>
    Reads.createEventCollection collection owner children t
  | .deleteEventInstance id owner mark => Reads.deleteEventInstance id owner mark t
  | .deleteEventCollection collection owner cascade mark =>
    Reads.deleteEventCollection collection owner cascade mark t
  | .migrateTodos user due move done patch => Reads.migrateTodos user due move done patch t
  | .deleteItem id owner soft mark => Reads.deleteItem id owner soft mark t
  | .undoDelete owner ids collection mark => Reads.undoDelete owner ids collection mark t
  | .restoreEditSnapshot owner ids afterVersion edit =>
    Reads.restoreEditSnapshot owner ids afterVersion edit t
  | .updateCollection collection owner changes => Reads.updateCollection collection owner changes t
  | .restoreCollectionEdit collection owner snapshots =>
    Reads.restoreCollectionEdit collection owner snapshots t
  | .updateUserSettings user patch => Reads.updateUserSettings user patch t
  | .purgeDemoOwner owner => Reads.purgeDemoOwner owner t

end XiaoQing.Pendo.Reads
