import Mathlib.Logic.Function.Basic
import XiaoQing.Framework.Keyed
import XiaoQing.Framework.Run

namespace XiaoQing.Chat.Actions

open Framework

/-- A `get_recent_async` that found nothing cached, with the clears it saw: its thread is to read the
file, or has read it. -/
inductive ColdLoad (ρ : Type*)
  | reading (clears : Nat)
  | loaded (clears : Nat) (records : List ρ)

def ColdLoad.clears {ρ : Type*} : ColdLoad ρ → Nat
  | .reading clears => clears
  | .loaded clears _ => clears

/-- The thread that holds the write lock in `_persist`. -/
inductive Flush (ρ : Type*)
  | idle
  | writing (payload : List ρ) (version : Nat)
  | written (version : Nat)

@[irreducible] def maxRecords : Nat := 200

/-- `ActionHistoryStore` for one chat. `history` is what the file said at first and all that was
appended, since the last clear; `behind` says that the cached list was begun without the records of
the file. -/
structure ActionHistoryStore (ρ : Type*) where
  cache : Option (List ρ)
  dirty : Bool
  asyncLoading : Bool
  stateVersion : Nat
  clearGeneration : Nat
  diskMerged : Bool
  file : Option (List ρ)
  flush : Flush ρ
  loads : Nat → Option (ColdLoad ρ)
  history : List ρ
  behind : Bool

inductive StoreAct (ρ : Type*)
  | append (record : ρ) (readable : Bool)
  | look (i : Nat)
  | read (i : Nat) (readable : Bool)
  | merge (i : Nat)
  | cancelLoad (i : Nat)
  | persist
  | write (done : Bool)
  | settle
  | clear (deleted : Bool)

namespace ActionHistoryStore

variable {ρ : Type*} (s : ActionHistoryStore ρ)

def new (file : Option (List ρ)) : ActionHistoryStore ρ where
  cache := none
  dirty := false
  asyncLoading := false
  stateVersion := 0
  clearGeneration := 0
  diskMerged := false
  file := file
  flush := .idle
  loads := fun _ => none
  history := file.getD []
  behind := false

def filed : List ρ := latest maxRecords (s.file.getD [])

/-- `_load`: a file that cannot be read counts as none. -/
def load (readable : Bool) : List ρ := if readable then s.filed else []

/-- The list that `append` adds to: what is cached, an empty list while a load is under way, or what
it loads itself. -/
def opened (readable : Bool) : ActionHistoryStore ρ :=
  match s.cache with
  | some _ => s
  | none =>
    if s.asyncLoading then
      {s with
        cache := some []
        behind := !s.filed.isEmpty}
    else
      {s with
        cache := some (s.load readable)
        diskMerged := true}

def push (record : ρ) : ActionHistoryStore ρ :=
  {s with
    cache := some (latest maxRecords (s.cache.getD []++[record]))
    dirty := true
    stateVersion := s.stateVersion+1
    history := s.history++[record]}

def append (record : ρ) (readable : Bool) : ActionHistoryStore ρ := (s.opened readable).push record

/-- The beginning of `get_recent_async`; with a cached list it has nothing to wait for. -/
def look (i : Nat) : Option (ActionHistoryStore ρ) :=
  match s.cache,s.loads i with
  | none,none => some {s with
      asyncLoading := true
      loads := Function.update s.loads i (some (.reading s.clearGeneration))}
  | some _,none => some s
  | _,_ => none

def read (i : Nat) (readable : Bool) : Option (ActionHistoryStore ρ) :=
  match s.loads i with
  | some (.reading clears) => some {s with
      loads := Function.update s.loads i (some (.loaded clears (s.load readable)))}
  | _ => none

/-- `get_recent_async` goes on when its thread has ended. -/
def merge (i : Nat) : Option (ActionHistoryStore ρ) :=
  match s.loads i with
  | some (.loaded clears records) =>
    let s := {s with
      asyncLoading := false
      loads := Function.update s.loads i none}
    if s.clearGeneration=clears∧s.diskMerged=false then
      some {s with
        diskMerged := true
        cache := some (latest maxRecords (records++s.cache.getD []))
        behind := false}
    else some s
  | _ => none

def cancelLoad (i : Nat) : Option (ActionHistoryStore ρ) :=
  match s.loads i with
  | some _ => some {s with
      asyncLoading := false
      loads := Function.update s.loads i none}
  | none => none

/-- `_persist` up to the write. -/
def persist : Option (ActionHistoryStore ρ) :=
  match s.flush with
  | .idle =>
    if s.dirty then
      some {s with flush := .writing (latest maxRecords (s.cache.getD [])) s.stateVersion}
    else some s
  | _ => none

/-- `write_json`; the file is replaced as a whole, or the write raises. -/
def write (done : Bool) : Option (ActionHistoryStore ρ) :=
  match s.flush with
  | .writing payload version =>
    if done then
      some {s with
        file := some payload
        flush := .written version}
    else some {s with flush := .idle}
  | _ => none

/-- The rest of `_persist`. -/
def settle : Option (ActionHistoryStore ρ) :=
  match s.flush with
  | .written version => some {s with
      dirty := if s.stateVersion=version then false else s.dirty
      flush := .idle}
  | _ => none

/-- `clear`; a deletion that raises leaves the file. -/
def clear (deleted : Bool) : Option (ActionHistoryStore ρ) :=
  match s.flush with
  | .idle => some {s with
      cache := none
      dirty := false
      stateVersion := s.stateVersion+1
      clearGeneration := s.clearGeneration+1
      diskMerged := false
      file := if deleted then none else s.file
      history := []
      behind := false}
  | _ => none

def step : StoreAct ρ → Option (ActionHistoryStore ρ)
  | .append record readable => some (s.append record readable)
  | .look i => s.look i
  | .read i readable => s.read i readable
  | .merge i => s.merge i
  | .cancelLoad i => s.cancelLoad i
  | .persist => s.persist
  | .write done => s.write done
  | .settle => s.settle
  | .clear deleted => s.clear deleted

end ActionHistoryStore

end XiaoQing.Chat.Actions
