import Mathlib.Data.Finset.Erase
import Mathlib.Data.Finset.Insert
import XiaoQing.Framework.Paths
import XiaoQing.Sessions.Session

namespace XiaoQing.Sessions.ValueGraph

open Framework

variable {α : Type} [DecidableEq α]

/-- Exact types of the values that hold no other values. -/
inductive LeafType
  | none
  | bool
  | int
  | float
  | str
  | bytes
  | other
deriving DecidableEq

def LeafType.permitted : LeafType → Bool
  | .other => false
  | _ => true

/-- A value as a container's slot holds it: a leaf, or the identity of a container. -/
inductive Value (α : Type)
  | leaf (type : LeafType) (payload : α)
  | ref (identity : Nat)
deriving DecidableEq

structure Key (α : Type) where
  type : LeafType
  payload : α
deriving DecidableEq

inductive Container (α : Type)
  | dict (entries : List (Key α×Value α))
  | list (items : List (Value α))
  | tuple (items : List (Value α))
deriving DecidableEq

def Container.keys : Container α → List (Key α)
  | .dict entries => entries.map Prod.fst
  | _ => []

def Container.items : Container α → List (Value α)
  | .dict entries => entries.map Prod.snd
  | .list items => items
  | .tuple items => items

def Container.mutable : Container α → Bool
  | .tuple _ => false
  | _ => true

/-- The containers in memory; identities from `next` on are free. -/
structure Store (α : Type) where
  get : Nat → Container α
  next : Nat

namespace Store

def push (m : Store α) (c : Container α) : Store α :=
  ⟨Function.update m.get m.next c,m.next+1⟩

def put (m : Store α) (i : Nat) (c : Container α) : Store α :=
  {m with get := Function.update m.get i c}

end Store

inductive CloneError
  | nodeLimit
  | nestingLimit
  | valueType
  | referenceCycle
  | keyType
deriving DecidableEq

def CloneError.message : CloneError → String
  | .nodeLimit => "session data exceeds the node limit"
  | .nestingLimit => "session data exceeds the nesting limit"
  | .valueType => "session data values must use built-in dict, list, tuple, "++
      "str, bytes, int, float, bool, or None"
  | .referenceCycle => "session data must not contain reference cycles"
  | .keyType => "session data mapping keys must be strings"

structure CloneState (α : Type) where
  store : Store α
  memo : Nat → Option Nat
  active : Finset Nat
  nodes : Nat

namespace CloneState

def allocate (s : CloneState α) (c : Container α) : CloneState α := {s with store := s.store.push c}

def remember (s : CloneState α) (i j : Nat) : CloneState α :=
  {s with memo := Function.update s.memo i (some j)}

def fill (s : CloneState α) (j : Nat) (c : Container α) : CloneState α :=
  {s with store := s.store.put j c}

def enter (s : CloneState α) (i : Nat) : CloneState α := {s with active := insert i s.active}

def leave (s : CloneState α) (i : Nat) : CloneState α := {s with active := s.active.erase i}

def count (s : CloneState α) : CloneState α := {s with nodes := s.nodes+1}

end CloneState

/-- `cloned_dict[key] = item` -/
def setItem (entries : List (Key α×Value α)) (k : Key α) (v : Value α) : List (Key α×Value α) :=
  if k∈entries.map Prod.fst then entries.map fun e => if e.1=k then (k,v) else e
  else entries++[(k,v)]

section

variable (clone : Value α → CloneState α → Except CloneError (Value α×CloneState α))

def cloneItems : List (Value α) → CloneState α → Except CloneError (List (Value α)×CloneState α)
  | [],s => .ok ([],s)
  | v::vs,s => do
    let (w,s) ← clone v s
    let (ws,s) ← cloneItems vs s
    return (w::ws,s)

def cloneEntries : List (Key α×Value α) → List (Key α×Value α) → CloneState α →
    Except CloneError (List (Key α×Value α)×CloneState α)
  | [],cloned,s => .ok (cloned,s)
  | (k,v)::entries,cloned,s =>
    if k.type≠.str then .error .keyType
    else do
      let (w,s) ← clone v s
      cloneEntries entries (setItem cloned k w) s

/-- The branch of one container: a dict or a list is remembered before its items are cloned, a tuple
after. -/
def cloneContainer (i : Nat) (s : CloneState α) : Except CloneError (Value α×CloneState α) :=
  match s.store.get i with
  | .dict entries => do
    let j := s.store.next
    let (cloned,s) ← cloneEntries clone entries [] ((s.allocate (.dict [])).remember i j)
    return (.ref j,s.fill j (.dict cloned))
  | .list items => do
    let j := s.store.next
    let (cloned,s) ← cloneItems clone items ((s.allocate (.list [])).remember i j)
    return (.ref j,s.fill j (.list cloned))
  | .tuple items => do
    let (cloned,s) ← cloneItems clone items s
    let j := s.store.next
    return (.ref j,(s.allocate (.tuple cloned)).remember i j)

end

/-- `room` is the depth limit plus one, less the depth: at 0 the depth is past the limit. -/
def cloneSessionValue (maxNodes : Nat) :
    Nat → Value α → CloneState α → Except CloneError (Value α×CloneState α)
  | room,v,s =>
    let s := s.count
    if maxNodes < s.nodes then .error .nodeLimit
    else match room with
      | 0 => .error .nestingLimit
      | room+1 =>
        match v with
        | .leaf type payload =>
          if type.permitted then .ok (.leaf type payload,s) else .error .valueType
        | .ref i =>
          if i∈s.active then .error .referenceCycle
          else match s.memo i with
            | some j => .ok (.ref j,s)
            | none => do
              let (w,s) ← cloneContainer (cloneSessionValue maxNodes room) i (s.enter i)
              return (w,s.leave i)

/-- What a value can hold: identities in use, and one entry for each key of a mapping. -/
structure Store.WellFormed (m : Store α) : Prop where
  inUse : ∀i < m.next,∀j,Value.ref j∈(m.get i).items → j < m.next
  distinct : ∀i < m.next,(m.get i).keys.Nodup

structure Graph (α : Type) where
  store : Store α
  root : Value α
  wellFormed : store.WellFormed
  rooted : ∀i,root=.ref i → i < store.next

def cloneGraph (maxDepth maxNodes : Nat) (g : Graph α) : Except CloneError (Value α×CloneState α) :=
  cloneSessionValue maxNodes (maxDepth+1) g.root ⟨g.store,fun _ => none,∅,0⟩

def Store.children (m : Store α) : Value α → List (Value α)
  | .leaf _ _ => []
  | .ref i => (m.get i).items

end XiaoQing.Sessions.ValueGraph
