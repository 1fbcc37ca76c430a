import XiaoQing.Commands.CommandRouter
import XiaoQing.Framework.Effects

namespace XiaoQing.Sessions

open Commands (strip)

/-- A value kept in a session: a scalar of a built-in type, a container, a reference back to a
container around it, or an object of any other type. A key that is not a `str` is `none`. -/
inductive SessionValue
  | scalar (literal : String)
  | list (items : List SessionValue)
  | tuple (items : List SessionValue)
  | dict (entries : List (Option String × SessionValue))
  | cyclic
  | custom

def maxSessionDataDepth : Nat := 64

def maxSessionDataNodes : Nat := 100000

/-- The limits at the start of `_clone_session_value`. -/
def checkLimits (depth nodes : Nat) : Except String Unit :=
  if maxSessionDataNodes < nodes then .error "session data exceeds the node limit"
  else if maxSessionDataDepth < depth then .error "session data exceeds the nesting limit"
  else .ok ()

mutual

/-- `_clone_session_value` on a tree; `nodes` counts the values visited. -/
def cloneValue (depth nodes : Nat) : SessionValue → Except String (SessionValue × Nat)
  | .scalar literal => do
    checkLimits depth (nodes+1)
    .ok (.scalar literal,nodes+1)
  | .list items => do
    checkLimits depth (nodes+1)
    let (items,nodes) ← cloneItems (depth+1) (nodes+1) items
    .ok (.list items,nodes)
  | .tuple items => do
    checkLimits depth (nodes+1)
    let (items,nodes) ← cloneItems (depth+1) (nodes+1) items
    .ok (.tuple items,nodes)
  | .dict entries => do
    checkLimits depth (nodes+1)
    let (entries,nodes) ← cloneEntries (depth+1) (nodes+1) entries
    .ok (.dict entries,nodes)
  | .cyclic => do
    checkLimits depth (nodes+1)
    .error "session data must not contain reference cycles"
  | .custom => do
    checkLimits depth (nodes+1)
    .error ("session data values must use built-in dict, list, tuple, "++
      "str, bytes, int, float, bool, or None")

def cloneItems (depth nodes : Nat) :
    List SessionValue → Except String (List SessionValue × Nat)
  | [] => .ok ([],nodes)
  | item::rest => do
    let (item,nodes) ← cloneValue depth nodes item
    let (rest,nodes) ← cloneItems depth nodes rest
    .ok (item::rest,nodes)

def cloneEntries (depth nodes : Nat) : List (Option String × SessionValue) →
    Except String (List (Option String × SessionValue) × Nat)
  | [] => .ok ([],nodes)
  | (none,_)::_ => .error "session data mapping keys must be strings"
  | (some key,item)::rest => do
    let (item,nodes) ← cloneValue depth nodes item
    let (rest,nodes) ← cloneEntries depth nodes rest
    .ok ((some key,item)::rest,nodes)

end

def cloneSessionData (data : SessionValue) : Except String SessionValue := do
  let (cloned,_) ← cloneValue 0 0 data
  match cloned with
  | .dict entries => .ok (.dict entries)
  | _ => .error "session data must be a dict"

abbrev SessionKey := Int × Option Int

/-- `Session`; times are on the clock `time.time`. -/
structure Session where
  userId : Int
  groupId : Option Int
  pluginName : String
  sessionId : String
  state : String
  data : SessionValue
  createdAt : Int
  updatedAt : Int
  timeout : Int
  version : Int

def stripped (s : String) : String := String.ofList (strip s.toList)

/-- `_normalize_id` on an integer. -/
def normalizeId (field : String) (value : Int) : Except String Int :=
  if value ≤ 0 then .error (field++" must be positive") else .ok value

def normalizeGroup : Option Int → Except String (Option Int)
  | none => .ok none
  | some group => do
    let group ← normalizeId "group_id" group
    .ok (some group)

def normalizePluginName (value : String) : Except String String :=
  if stripped value="" then .error "plugin_name must not be empty" else .ok (stripped value)

def normalizeSessionId (value : String) : Except String String :=
  if stripped value="" then .error "session_id must not be empty" else .ok (stripped value)

def normalizeTimeout (value : Int) : Except String Int :=
  if value ≤ 0 then .error "session timeout must be a positive finite number" else .ok value

namespace Session

def postInit (s : Session) : Except String Session := do
  let userId ← normalizeId "user_id" s.userId
  let groupId ← normalizeGroup s.groupId
  let pluginName ← normalizePluginName s.pluginName
  let sessionId ← normalizeSessionId s.sessionId
  let timeout ← normalizeTimeout s.timeout
  match s.data with
  | .dict _ =>
    if s.version < 0 then .error "session version must not be negative"
    else .ok {s with
      userId := userId
      groupId := groupId
      pluginName := pluginName
      sessionId := sessionId
      timeout := timeout}
  | _ => .error "session data must be a dict"

def isExpired (s : Session) (now : Int) : Bool := s.timeout < now-s.updatedAt

def clone (s : Session) : Except String Session := do
  let data ← cloneSessionData s.data
  {s with data := data}.postInit

end Session

def cloneOptional : Option Session → Except String (Option Session)
  | none => .ok none
  | some s => s.clone.map some

/-- The staged view of a `_SessionTransaction`. -/
structure Staged where
  working : Option Session
  replaced : Bool

def prepareCommit (key : SessionKey) (original : Session) (staged : Staged) (now : Int) :
    Except String (Option Session) :=
  match staged.working with
  | none => .ok none
  | some working => do
    let candidate ← working.clone
    let timeout ← normalizeTimeout candidate.timeout
    let candidate := {candidate with
      userId := key.1
      groupId := key.2
      timeout := timeout
      updatedAt := now
      version := original.version+1}
    if staged.replaced then
      let pluginName ← normalizePluginName candidate.pluginName
      let sessionId ← normalizeSessionId candidate.sessionId
      .ok (some {candidate with pluginName := pluginName,sessionId := sessionId})
    else .ok (some {candidate with
      pluginName := original.pluginName
      createdAt := original.createdAt
      sessionId := original.sessionId})

/-- What the callback of an update does: changes to the session it was handed, calls of the manager
that come back to its own transaction, and calls that are refused. -/
inductive Stage
  | mutate (working : Session)
  | create (session : Session)
  | read
  | existing
  | delete
  | refused (message : String)

inductive StageReply
  | done
  | session (result : Except String (Option Session))
  | flag (b : Bool)
  | raised (message : String)

/-- The object handed to the callback counts as long as it is the working copy. -/
def Staged.apply (staged : Staged) : Stage → Staged × StageReply
  | .mutate working =>
    (if staged.working.isSome ∧ staged.replaced=false then {staged with working := some working}
      else staged,.done)
  | .create session => (⟨some session,true⟩,.session (session.clone.map some))
  | .read => (staged,.session (cloneOptional staged.working))
  | .existing => (staged,.flag staged.working.isSome)
  | .delete => ({staged with working := none},.flag staged.working.isSome)
  | .refused message => (staged,.raised message)

def Staged.run (staged : Staged) : List Stage → Staged × List StageReply
  | [] => (staged,[])
  | a::rest =>
    let (staged,reply) := staged.apply a
    let (staged,replies) := staged.run rest
    (staged,reply::replies)

mutual

theorem cloneValue_eq {depth nodes m : Nat} {v w : SessionValue}
    (h : cloneValue depth nodes v=.ok (w,m)) : w=v := by
  cases v with
  | scalar literal =>
    obtain ⟨_,_,h⟩ := Framework.ok_of_bind h
    cases h
    rfl
  | list items =>
    obtain ⟨_,_,h⟩ := Framework.ok_of_bind h
    obtain ⟨⟨cloned,n⟩,hitems,h⟩ := Framework.ok_of_bind h
    cases h
    rw [cloneItems_eq hitems]
  | tuple items =>
    obtain ⟨_,_,h⟩ := Framework.ok_of_bind h
    obtain ⟨⟨cloned,n⟩,hitems,h⟩ := Framework.ok_of_bind h
    cases h
    rw [cloneItems_eq hitems]
  | dict entries =>
    obtain ⟨_,_,h⟩ := Framework.ok_of_bind h
    obtain ⟨⟨cloned,n⟩,hentries,h⟩ := Framework.ok_of_bind h
    cases h
    rw [cloneEntries_eq hentries]
  | cyclic =>
    obtain ⟨_,_,h⟩ := Framework.ok_of_bind h
    cases h
  | custom =>
    obtain ⟨_,_,h⟩ := Framework.ok_of_bind h
    cases h

theorem cloneItems_eq {depth nodes m : Nat} {l cloned : List SessionValue}
    (h : cloneItems depth nodes l=.ok (cloned,m)) : cloned=l := by
  cases l with
  | nil =>
    cases h
    rfl
  | cons item rest =>
    obtain ⟨⟨first,n⟩,hitem,h⟩ := Framework.ok_of_bind h
    obtain ⟨⟨others,k⟩,hrest,h⟩ := Framework.ok_of_bind h
    cases h
    rw [cloneValue_eq hitem,cloneItems_eq hrest]

theorem cloneEntries_eq {depth nodes m : Nat} {l cloned : List (Option String × SessionValue)}
    (h : cloneEntries depth nodes l=.ok (cloned,m)) : cloned=l := by
  cases l with
  | nil =>
    cases h
    rfl
  | cons entry rest =>
    obtain ⟨key,item⟩ := entry
    cases key with
    | none => cases h
    | some key =>
      obtain ⟨⟨first,n⟩,hitem,h⟩ := Framework.ok_of_bind h
      obtain ⟨⟨others,k⟩,hrest,h⟩ := Framework.ok_of_bind h
      cases h
      rw [cloneValue_eq hitem,cloneEntries_eq hrest]

end

end XiaoQing.Sessions
