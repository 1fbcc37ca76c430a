import XiaoQing.Framework.Keyed
import XiaoQing.Framework.Run
import XiaoQing.Framework.Dict
import Mathlib.Data.List.DropRight

namespace XiaoQing.Commands

open Framework

abbrev Text := List Char

/-- The fields of a command that the router reads; `H` is the type of its handler. -/
structure CommandSpec (H : Type) where
  plugin : String
  name : String
  triggers : List Text
  priority : Int
  handler : H
  deriving DecidableEq

/-- `CommandConflictError`. -/
structure CommandConflict (H : Type) where
  trigger : Text
  priority : Int
  first : CommandSpec H
  second : CommandSpec H

structure CommandRouter (H : Type) where
  commands : List (CommandSpec H)
  orderedCommands : List (CommandSpec H)
  triggerIndex : Char → List (CommandSpec H × Text)
  indexDirty : Bool

/-- The characters for which `str.isspace` holds. -/
def isSpace (c : Char) : Bool :=
  let n := c.toNat
  (9≤n && n≤13) || (28≤n && n≤32) || n=0x85 || n=0xA0 || n=0x1680 || (0x2000≤n && n≤0x200A) ||
    n=0x2028 || n=0x2029 || n=0x202F || n=0x205F || n=0x3000

def strip (t : Text) : Text := (t.dropWhile isSpace).rdropWhile isSpace

section

variable {t : Text} {c : Char}

theorem strip_eq_self (hh : ∀c,t.head?=some c → isSpace c=false)
    (hl : ∀c,t.getLast?=some c → isSpace c=false) : strip t=t := by
  unfold strip
  have hdrop : t.dropWhile isSpace=t := by
    cases t with
    | nil => rfl
    | cons c t => rw [List.dropWhile_cons_of_neg (by simp [hh c rfl])]
  rw [hdrop,List.rdropWhile_eq_self_iff]
  intro hne
  have hlast := hl _ (List.getLast?_eq_some_getLast hne)
  simp [hlast]

theorem strip_head (h : (strip t).head?=some c) : isSpace c=false := by
  unfold strip at h
  have hpre := List.rdropWhile_prefix isSpace (t.dropWhile isSpace)
  obtain ⟨r,hr⟩ := hpre
  have hhead : (t.dropWhile isSpace).head?=some c := by
    rw [← hr,List.head?_append,h]
    rfl
  have hnot := List.head?_dropWhile_not isSpace t
  rw [hhead] at hnot
  simpa using hnot

theorem strip_last (h : (strip t).getLast?=some c) : isSpace c=false := by
  unfold strip at h
  have hne : (t.dropWhile isSpace).rdropWhile isSpace≠[] := by
    intro hnil
    rw [hnil] at h
    cases h
  have hlast := List.rdropWhile_last_not isSpace _ hne
  rw [List.getLast?_eq_some_getLast hne,Option.some.injEq] at h
  rw [h] at hlast
  simpa using hlast

theorem strip_strip (t : Text) : strip (strip t)=strip t :=
  strip_eq_self (fun _ h => strip_head h) fun _ h => strip_last h

theorem strip_of_none (h : ∀c∈t,isSpace c=false) : strip t=t :=
  strip_eq_self (fun c hc => h c (List.mem_of_head? hc)) fun c hc => h c (List.mem_of_getLast? hc)

end

abbrev Owners (H : Type) := AList (fun _ : Text × Int => CommandSpec H)

variable {H : Type}

namespace CommandRouter

def new : CommandRouter H := ⟨[],[],fun _ => [],true⟩

/-- The inner loop of `_validate_unambiguous`. -/
def claimTriggers (spec : CommandSpec H) :
    List Text → Owners H → Except (CommandConflict H) (Owners H)
  | [],owners => .ok owners
  | trigger::rest,owners =>
    match owners.lookup (trigger,spec.priority) with
    | some previous => .error ⟨trigger,spec.priority,previous,spec⟩
    | none => claimTriggers spec rest (owners.insert (trigger,spec.priority) spec)

/-- The outer loop of `_validate_unambiguous`. -/
def claimAll : List (CommandSpec H) → Owners H → Except (CommandConflict H) (Owners H)
  | [],owners => .ok owners
  | spec::rest,owners =>
    match claimTriggers spec spec.triggers owners with
    | .error e => .error e
    | .ok owners => claimAll rest owners

def validateUnambiguous (commands : List (CommandSpec H)) : Except (CommandConflict H) (Owners H) :=
  claimAll commands ∅

def commandSortKey (s : CommandSpec H) : Int ×ₗ Nat :=
  toLex (s.priority,(s.triggers.map List.length).foldl max 0)

def candidateKey (c : CommandSpec H × Text) : Int ×ₗ Nat := toLex (c.1.priority,c.2.length)

/-- `trigger_index.setdefault(trigger[0], []).append((spec, trigger))`; an empty trigger is passed
over. -/
def indexTrigger (index : Char → List (CommandSpec H × Text)) (spec : CommandSpec H) :
    Text → Char → List (CommandSpec H × Text)
  | [] => index
  | c::rest => Function.update index c (index c++[(spec,c::rest)])

def buildIndex (ordered : List (CommandSpec H)) : Char → List (CommandSpec H × Text) :=
  ordered.foldl (fun index spec =>
    spec.triggers.foldl (fun index trigger => indexTrigger index spec trigger) index) (fun _ => [])

def ensureIndexes (r : CommandRouter H) : CommandRouter H :=
  if r.indexDirty then
    let ordered := rank commandSortKey r.commands
    {r with
      orderedCommands := ordered
      triggerIndex := fun c => rank candidateKey (buildIndex ordered c)
      indexDirty := false}
  else r

/-- `register`; the error stands beside the state it leaves. -/
def register (r : CommandRouter H) (spec : CommandSpec H) :
    Except (CommandConflict H) Unit × CommandRouter H :=
  let replacement := r.commands++[spec]
  match validateUnambiguous replacement with
  | .error e => (.error e,r)
  | .ok _ => (.ok (),{r with commands := replacement,indexDirty := true})

def replacePlugin (r : CommandRouter H) (pluginName : String) (specs : List (CommandSpec H)) :
    Except (CommandConflict H) (List (CommandSpec H)) × CommandRouter H :=
  let previous := r.commands.filter (fun command => command.plugin=pluginName)
  let replacement := r.commands.filter (fun command => command.plugin≠pluginName)++specs
  match validateUnambiguous replacement with
  | .error e => (.error e,r)
  | .ok _ => (.ok previous,{r with commands := replacement,indexDirty := true})

def clearPlugin (r : CommandRouter H) (pluginName : String) :
    Except (CommandConflict H) (List (CommandSpec H)) × CommandRouter H :=
  r.replacePlugin pluginName []

def matchesAt (trigger text : Text) : Bool :=
  trigger.isPrefixOf text &&
    match text.drop trigger.length with
    | [] => true
    | c::_ => isSpace c

/-- The loop of `resolve`. -/
def firstMatch (text : Text) : List (CommandSpec H × Text) → Option (CommandSpec H × Text)
  | [] => none
  | (spec,trigger)::rest =>
    if matchesAt trigger text then some (spec,strip (text.drop trigger.length))
    else firstMatch text rest

def resolve (r : CommandRouter H) :
    Text → Option (CommandSpec H × Text) × CommandRouter H
  | [] => (none,r)
  | c::rest =>
    let r := r.ensureIndexes
    (firstMatch (c::rest) (r.triggerIndex c),r)

end CommandRouter

inductive RouterAct (H : Type)
  | register (spec : CommandSpec H)
  | replacePlugin (pluginName : String) (specs : List (CommandSpec H))
  | clearPlugin (pluginName : String)
  | resolve (text : Text)

def routerStep (r : CommandRouter H) : RouterAct H → Option (CommandRouter H)
  | .register spec => some (r.register spec).2
  | .replacePlugin pluginName specs => some (r.replacePlugin pluginName specs).2
  | .clearPlugin pluginName => some (r.clearPlugin pluginName).2
  | .resolve text => some (r.resolve text).2

end XiaoQing.Commands
