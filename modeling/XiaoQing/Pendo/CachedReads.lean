import XiaoQing.Framework.Freshness
import XiaoQing.Framework.Run
import XiaoQing.Pendo.CachedWrites

namespace XiaoQing.Pendo.Reads

open Framework Commands

/-! The threads of one database object. A statement, a transaction and a stretch under the cache lock
are each one step. -/

/-- A value, the read that selected it and the number of the last commit before. -/
structure Reading (ι σ φ : Type) where
  source : Query φ
  value : Value ι σ
  readAt : Nat

/-- What goes on when a read has its value; `get_items` reads settings for its filters twice. -/
inductive Frame (φ : Type) where
  | answer
  | filters (owner : Text) (filters : φ) (limit offset : Nat)
  | conditions (owner : Text) (filters : φ) (zone : Option Text) (limit offset : Nat)

inductive Pc (ι σ φ : Type) where
  | idle
  | lookup (q : Query φ) (k : Frame φ)
  | fetch (q : Query φ) (zone : Option Text) (k : Frame φ)
  | store (r : Reading ι σ φ) (k : Frame φ)
  | writing (commit : Nat)

/-- A thread; besides, the writes that had returned when its read began, and the commit that the zone
of its filters was read after. -/
structure Thread (ι σ φ : Type) where
  pc : Pc ι σ φ
  reads : CacheReads
  begun : List Nat
  zoneAt : Nat

structure Answer (ι σ φ : Type) where
  query : Query φ
  value : Value ι σ
  readAt : Nat
  begun : List Nat
  zoneAt : Nat

/-- The tables after each commit, and what the writer of each has still to do to the cache. -/
structure Store (β ς : Type) where
  tables : Nat → Tables β ς
  now : Nat
  todo : Nat → List Invalidation

structure St (β ι ς σ φ : Type) where
  store : Store β ς
  cache : ReadCache (Reading ι σ φ)
  threads : Nat → Thread ι σ φ
  answers : List (Answer ι σ φ)

inductive Call (φ : Type) where
  | getItem (id : Text) (owner : Option Text)
  | getItems (owner : Text) (filters : φ) (limit offset : Nat)
  | getUserSettings (user : Text)

inductive Act (β ς φ : Type) where
  | read (thread : Nat) (call : Call φ)
  | write (thread : Nat) (w : Write β ς)
  | advance (thread time : Nat)

variable {β ι ς σ φ : Type}

namespace Store

def current (st : Store β ς) : Tables β ς := st.tables st.now

def returned (st : Store β ς) : List Nat :=
  (List.range (st.now+1)).filter (fun c => (st.todo c).isEmpty)

def commit (st : Store β ς) (t : Tables β ς) (todo : List Invalidation) : Store β ς :=
  { tables := Function.update st.tables (st.now+1) t
    now := st.now+1
    todo := Function.update st.todo (st.now+1) todo }

def progress (st : Store β ς) (c : Nat) (todo : List Invalidation) : Store β ς :=
  {st with todo := Function.update st.todo c todo}

end Store

def truthy (owner : Option Text) : Option Text := owner.filter (fun owner => !owner.isEmpty)

def Query.zone : Query φ → Option Text
  | .items _ _ zone _ _ => zone
  | _ => none

def zoneOf (D : Decoder β ι ς σ φ) : Value ι σ → Option Text
  | .settings settings => some (D.zone settings)
  | _ => none

/-- Where a call starts; a page of no items is answered without a read. -/
def Call.start (D : Decoder β ι ς σ φ) : Call φ → Pc ι σ φ
  | .getItem id owner => .lookup (.item id (truthy owner)) .answer
  | .getItems owner filters limit offset =>
    if limit=0 then .idle
    else if D.usesZone filters then .lookup (.settings owner) (.filters owner filters limit offset)
    else .lookup (.items owner filters none limit offset) .answer
  | .getUserSettings user => .lookup (.settings user) .answer

/-- What follows a miss: `_item_list_conditions` resolves the filters again. -/
def Query.missed (D : Decoder β ι ς σ φ) (q : Query φ) (k : Frame φ) : Pc ι σ φ :=
  match q with
  | .items owner filters zone limit offset =>
    if D.usesZone filters then
      .lookup (.settings owner) (.conditions owner filters zone limit offset)
    else .fetch q none k
  | _ => .fetch q none k

namespace St

def new (t : Tables β ς) : St β ι ς σ φ :=
  { store := ⟨fun _ => t,0,fun _ => []⟩
    cache := .new
    threads := fun _ => ⟨.idle,.new,[],0⟩
    answers := [] }

def setThread (s : St β ι ς σ φ) (τ : Nat) (th : Thread ι σ φ) : St β ι ς σ φ :=
  {s with threads := Function.update s.threads τ th}

def finish (D : Decoder β ι ς σ φ) (s : St β ι ς σ φ) (τ : Nat) (th : Thread ι σ φ) (q : Query φ)
    (r : Reading ι σ φ) (k : Frame φ) : St β ι ς σ φ :=
  match k with
  | .answer =>
    {s.setThread τ {th with pc := .idle} with
      answers := ⟨q,r.value,r.readAt,th.begun,th.zoneAt⟩::s.answers}
  | .filters owner filters limit offset =>
    s.setThread τ {th with
      pc := .lookup (.items owner filters (zoneOf D r.value) limit offset) .answer
      zoneAt := r.readAt}
  | .conditions owner filters zone limit offset =>
    s.setThread τ {th with
      pc := .fetch (.items owner filters zone limit offset) (zoneOf D r.value) .answer}

/-- `_cache_get_or_miss` and what follows it. -/
def lookup (D : Decoder β ι ς σ φ) (s : St β ι ς σ φ) (τ time : Nat) (q : Query φ) (k : Frame φ) :
    St β ι ς σ φ :=
  let key := q.key D
  let th := {s.threads τ with reads := (s.threads τ).reads.record key s.cache.generation}
  let found := s.cache.get key time
  match found.2 with
  | some r => ({s with cache := found.1}).finish D τ th q r k
  | none => ({s with cache := found.1}).setThread τ {th with pc := q.missed D k}

def fetch (D : Decoder β ι ς σ φ) (s : St β ι ς σ φ) (τ : Nat) (q : Query φ) (zone : Option Text)
    (k : Frame φ) : St β ι ς σ φ :=
  let r : Reading ι σ φ := ⟨q,q.select D zone s.store.current,s.store.now⟩
  if q.kept D s.store.current then s.setThread τ {s.threads τ with pc := .store r k}
  else s.finish D τ (s.threads τ) q r k

/-- `_cache_set` and what follows it. -/
def keep (D : Decoder β ι ς σ φ) (s : St β ι ς σ φ) (τ time : Nat) (r : Reading ι σ φ)
    (k : Frame φ) : St β ι ς σ φ :=
  let key := r.source.key D
  let th := {s.threads τ with reads := (s.threads τ).reads.forget key}
  ({s with cache := s.cache.set (s.threads τ).reads key r time}).finish D τ th r.source r k

def announce (s : St β ι ς σ φ) (τ c : Nat) : St β ι ς σ φ :=
  match s.store.todo c with
  | [] => s.setThread τ {s.threads τ with pc := .idle}
  | .pattern pattern::rest =>
    {s with store := s.store.progress c rest,cache := s.cache.invalidate pattern}
  | .clear::rest => {s with store := s.store.progress c rest,cache := s.cache.clear}
  | .ownerOf id _::rest =>
    match row ItemRow.id s.store.current.items id with
    | none => {s with store := s.store.progress c rest}
    | some r =>
      {s with
        store := s.store.progress c
          (if r.owner.isEmpty then rest else .pattern (itemsPattern r.owner)::rest)}

def step (D : Decoder β ι ς σ φ) (s : St β ι ς σ φ) : Act β ς φ → Option (St β ι ς σ φ)
  | .read τ call =>
    match (s.threads τ).pc with
    | .idle => some (s.setThread τ {s.threads τ with pc := call.start D,begun := s.store.returned})
    | _ => none
  | .write τ w =>
    match (s.threads τ).pc with
    | .idle =>
      match w.commit D s.store.current with
      | none => some s
      | some (t,todo) =>
        some (({s with store := s.store.commit t todo}).setThread τ
          {s.threads τ with pc := .writing (s.store.now+1)})
    | _ => none
  | .advance τ time =>
    match (s.threads τ).pc with
    | .idle => none
    | .lookup q k => some (s.lookup D τ time q k)
    | .fetch q zone k => some (s.fetch D τ q zone k)
    | .store r k => some (s.keep D τ time r k)
    | .writing c => some (s.announce τ c)

end St

end XiaoQing.Pendo.Reads
