import Mathlib.Algebra.Order.Ring.Rat
import Mathlib.Data.Finset.Dedup
import Mathlib.Data.Finset.Empty
import Mathlib.Data.Finset.Lattice.Basic
import XiaoQing.Commands.CommandRouter
import XiaoQing.Framework.Run

namespace XiaoQing.Chat.Facts

open Framework Commands

/-- A `StoredMessage` as the extraction reads it; the time is a float, and `none` is one that is not
a number. `rendered` is what `render_stored_message` shows. -/
structure Message where
  role : String
  name : Text
  ts : Option ℚ
  userId : Option Int
  messageId : Option Int
  localId : Text
  content : Text
  rendered : Text
  deriving DecidableEq

/-- What the checkpoint file says: the time up to which messages were observed, 0 without a file, and
which messages of that very time. -/
structure Position where
  ts : ℚ
  ids : Finset String

def maxChars : Nat := 1800

def maxItems : Nat := 50

namespace Message

variable (digest : Text → String) (m : Message)

/-- `_message_timestamp`. -/
def timestamp : ℚ :=
  match m.ts with
  | some q => if 0 < q then q else 0
  | none => 0

/-- `message_identity`; `digest` is the hash that is left without an id. -/
def identity : String :=
  let localId := strip m.localId
  if localId≠[] then "l:"++String.ofList localId
  else match m.messageId with
    | some id => "m:"++toString id
    | none =>
      let userId := (m.userId.filter (· ≠ 0)).elim [] fun id => (toString id).toList
      "h:"++digest (m.role.toList++['\x00']++userId++['\x00']++m.content)

def shorten (text : Text) : Text :=
  if 220 < text.length then (text.take 217).rdropWhile isSpace++"...".toList else text

/-- `_fact_line`: the line of a user's message, or nothing. -/
def factLine : Text :=
  match m.userId.filter (· ≠ 0) with
  | none => []
  | some id =>
    if m.role≠"user" then []
    else
      let stripped := strip (if m.name=[] then "用户".toList else m.name)
      let name := if stripped=[] then "用户".toList else stripped
      let text := strip m.rendered
      if text=[] then []
      else name++ '<'::(toString id).toList++">：".toList++shorten text

def hasLine : Bool := m.factLine≠[]

def isUnobserved (p : Position) : Bool :=
  p.ts ≤ 0 || (p.ts < m.timestamp || (m.timestamp=p.ts && m.identity digest∉p.ids))

end Message

/-- The messages put into the batch and the number of those that were looked at. -/
structure Selection where
  batch : List Message
  covered : Nat

/-- The loop of `select_fact_batch` over what is pending, with the batch so far. -/
def select : Selection → List Message → Selection
  | s,[] => s
  | s,m::rest =>
    if m.hasLine then
      let total := (s.batch.map fun m => m.factLine.length).sum
      if s.batch≠[]∧(maxChars < total+m.factLine.length∨maxItems ≤ s.batch.length) then s
      else select ⟨s.batch++[m],s.covered+1⟩ rest
    else select ⟨s.batch,s.covered+1⟩ rest

/-- `select_fact_batch`: the batch, and the position after it; the time of the last message may not
be a number. -/
def selectFactBatch (digest : Text → String) (history : List Message) (p : Position) :
    List Message×Option ℚ×Finset String :=
  let pending := history.filter (·.isUnobserved digest p)
  let s := select ⟨[],0⟩ pending
  match (pending.take s.covered).getLast? with
  | none => ([],some p.ts,p.ids)
  | some last =>
    let seen := (((pending.take s.covered).filter fun m => m.ts.isSome && m.ts=last.ts).map
      (·.identity digest)).toFinset
    (s.batch,last.ts,if last.ts=some p.ts then seen∪p.ids else seen)

/-- `save_last_observed_ts`: a position that is not a positive number is not written. -/
def savePosition (p : Position) (watermark : Option ℚ) (ids : Finset String) : Position :=
  match watermark with
  | some q => if 0 < q then ⟨q,ids⟩ else p
  | none => p

/-- The history of a chat with the checkpoint and the batches sent so far. `log` is all that was
appended, and the history is what is left of it without the first `trimmed` messages. -/
structure Extraction where
  log : List Message
  trimmed : Nat
  position : Position
  batches : List (List Message)

inductive Act
  | append (m : Message)
  | trim (n : Nat)
  | round (minMessages : Nat) (saved : Bool)

namespace Extraction

variable (digest : Text → String) (s : Extraction)

def new : Extraction := ⟨[],0,⟨0,∅⟩,[]⟩

def history : List Message := s.log.drop s.trimmed

def pending : List Message := s.history.filter (·.isUnobserved digest s.position)

/-- `maybe_extract_person_facts`, up to the call of the model; writing the checkpoint may raise. -/
def round (minMessages : Nat) (saved : Bool) : Extraction :=
  if (s.pending digest).length < max 1 minMessages then s
  else
    let (batch,watermark,ids) := selectFactBatch digest s.history s.position
    if watermark=some s.position.ts∧ids=s.position.ids then s
    else if saved then
      {s with
        position := savePosition s.position watermark ids
        batches := if batch=[] then s.batches else s.batches++[batch]}
    else s

def step : Act → Option Extraction
  | .append m => some {s with log := s.log++[m]}
  | .trim n => some {s with trimmed := min (s.trimmed+n) s.log.length}
  | .round minMessages saved => some (s.round digest minMessages saved)

end Extraction

end XiaoQing.Chat.Facts
