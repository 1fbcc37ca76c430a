import Mathlib.Data.List.Sort
import Mathlib.Logic.Function.Basic
import XiaoQing.Framework.Dict
import XiaoQing.Framework.Run

namespace XiaoQing.Chat.Planner

open Function (update)

open Framework

structure ConversationState (κ : Type*) where
  content : κ
  updatedAt : Int

/-- A snapshot that was taken for a turn: the chat, and how often its state had been cleared or
evicted by then. -/
structure Snapshot where
  chat : String
  age : Nat

structure Commit where
  turn : Nat
  snapshot : Snapshot

/-- `PFCStateStore` with its files. `age` counts the clears and the evictions of a chat; `snapshots`
are the turns begun so far and `commits` the ones that were written back, in order. -/
structure PFCStateStore (κ : Type*) where
  maxCacheSize : Nat
  cache : OrderedDict String (ConversationState κ)
  dirty : String → Bool
  nextTurn : Nat
  committedTurns : String → Option Nat
  files : String → Option (ConversationState κ)
  age : String → Nat
  snapshots : Nat → Option Snapshot
  commits : List Commit

inductive StoreAct (κ : Type*)
  | get (chat : String) (now : Int)
  | beginTurn (chat : String) (now : Int)
  | commit (turn : Nat) (content : κ) (now : Int)
  | setState (chat : String) (content : κ) (now : Int)
  | change (chat : String) (content : κ)
  | markDirty (chat : String)
  | save (chat : String) (now : Int) (written : Bool)
  | clear (chat : String) (deleted : Bool)

namespace PFCStateStore

variable {κ : Type*} (blank : κ) (s : PFCStateStore κ)

def new (maxCacheSize : Nat) (files : String → Option (ConversationState κ)) : PFCStateStore κ where
  maxCacheSize := maxCacheSize
  cache := []
  dirty := fun _ => false
  nextTurn := 0
  committedTurns := fun _ => none
  files := files
  age := fun _ => 0
  snapshots := fun _ => none
  commits := []

def candidates (protected_ : Option String) : OrderedDict String (ConversationState κ) :=
  (s.cache.filter fun e => some e.1≠protected_ && !s.dirty e.1).insertionSort
    fun a b => a.2.updatedAt ≤ b.2.updatedAt

def victims (protected_ : Option String) : List String :=
  ((s.candidates protected_).take (s.cache.length-s.maxCacheSize)).map Prod.fst

def drop (gone : String → Bool) : PFCStateStore κ :=
  {s with
    cache := s.cache.discard gone
    committedTurns := fun chat => if gone chat then none else s.committedTurns chat
    age := fun chat => if gone chat then s.age chat+1 else s.age chat}

/-- `_evict_clean_states_unlocked`. -/
def evict (protected_ : Option String) : PFCStateStore κ :=
  s.drop fun chat => (s.victims protected_).contains chat

def stored (chat : String) : κ := (s.files chat).elim blank ConversationState.content

/-- `_get_unlocked`; a chat without a file begins with a blank state. -/
def get (chat : String) (now : Int) : PFCStateStore κ :=
  if (s.cache.get? chat).isSome then s
  else
    let state := (s.files chat).getD ⟨blank,now⟩
    {s with cache := s.cache.assign chat state}.evict (some chat)

/-- `begin_turn`, right after the snapshot was copied. -/
def beginTurn (chat : String) (now : Int) : PFCStateStore κ :=
  let s := s.get blank chat now
  let turn := s.nextTurn+1
  {s with
    nextTurn := turn
    committedTurns := update s.committedTurns chat (some ((s.committedTurns chat).getD turn))
    snapshots := update s.snapshots turn (some ⟨chat,s.age chat⟩)}

/-- `claim_commit`: the turn is not older than the one that was written back. -/
def claims (chat : String) (turn : Nat) : Bool := (s.committedTurns chat).any fun least => least ≤ turn

def setState (chat : String) (content : κ) (now : Int) : PFCStateStore κ :=
  {s with
    cache := s.cache.assign chat ⟨content,now⟩
    dirty := update s.dirty chat true}.evict (some chat)

/-- `commit_planner_snapshot`; nothing runs between the claim and the write. -/
def commit (turn : Nat) (snapshot : Snapshot) (content : κ) (now : Int) : PFCStateStore κ :=
  if s.claims snapshot.chat turn then
    let commit : Commit := ⟨turn,⟨snapshot.chat,s.age snapshot.chat⟩⟩
    let s := {s with
      committedTurns := update s.committedTurns snapshot.chat (some turn)
      commits := s.commits++[commit]}
    s.setState snapshot.chat content now
  else s

def markDirty (chat : String) : PFCStateStore κ :=
  if (s.cache.get? chat).isSome then {s with dirty := update s.dirty chat true} else s

def change (chat : String) (content : κ) : PFCStateStore κ :=
  match s.cache.get? chat with
  | some state => {s with cache := s.cache.assign chat {state with content := content}}.markDirty chat
  | none => s

/-- `save`; the state is stamped even when it is not written. -/
def save (chat : String) (now : Int) (written : Bool) : PFCStateStore κ :=
  match s.cache.get? chat with
  | some state =>
    let state := {state with updatedAt := now}
    let s := {s with cache := s.cache.assign chat state}
    if written then
      {s with
        files := update s.files chat (some state)
        dirty := update s.dirty chat false}.evict none
    else s
  | none => s

/-- `clear`; the files go last. -/
def clear (chat : String) (deleted : Bool) : PFCStateStore κ :=
  {s.drop (· = chat) with
    dirty := update s.dirty chat false
    files := if deleted then update s.files chat none else s.files}

def step : StoreAct κ → Option (PFCStateStore κ)
  | .get chat now => some (s.get blank chat now)
  | .beginTurn chat now => some (s.beginTurn blank chat now)
  | .commit turn content now => (s.snapshots turn).map fun snapshot => s.commit turn snapshot content now
  | .setState chat content now => some (s.setState chat content now)
  | .change chat content => some (s.change chat content)
  | .markDirty chat => some (s.markDirty chat)
  | .save chat now written => some (s.save chat now written)
  | .clear chat deleted => some (s.clear chat deleted)

end PFCStateStore

end XiaoQing.Chat.Planner
