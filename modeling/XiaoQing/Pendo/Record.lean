import Mathlib.Data.Option.Basic
import Mathlib.Tactic.Common
import XiaoQing.Commands.CommandRouter

namespace XiaoQing.Pendo

open Commands

/-- What `datetime.fromisoformat` reads in a timestamp, to the second: the canonical UTC text of an
instant, another text with an offset, or a wall time. -/
inductive Stamp where
  | blank
  | utc (t : Nat)
  | offset (t : Nat)
  | wall (w : Nat)
  | unreadable
  deriving DecidableEq

/-- A decoded cell; a list or an object other than these is its JSON text. -/
inductive Value where
  | null
  | flag (b : Bool)
  | number (n : Int)
  | text (t : Text)
  | texts (l : List Text)
  | stamp (s : Stamp)
  | stamps (l : List Stamp)
  | document (json : Text)
  deriving DecidableEq

def Stamp.instant : Stamp → Option Nat
  | .utc t => some t
  | _ => none

def Value.times : Value → List Nat
  | .stamps l => l.filterMap Stamp.instant
  | _ => []

/-- The fields of the item classes, without the identity, the type and the version, and `rrule` of
the collections. -/
inductive Column where
  | title | content | tags | category | createdAt | updatedAt | context | visibility | attachments
  | aiMeta | deleted | deletedAt
  | startTime | endTime | timezone | location | participants | remindTimes | reminderRules
  | eventRole | eventCollectionId | eventCollectionKind | eventIndex | eventNodeKey | sourceItemId
  | notes
  | planDate | deadlineAt | priority | status | repeatRule | completedAt | cancelledAt
  | references | lastViewed | relatedItems
  | mood | moodScore | weather | templateId | diaryDate | entryTime | templateAnswers | isFavorite
  | amount | amountCents | currency | transactionType | ledgerCategory | ledgerDate | accountName
  | counterAccountName | merchant | remark
  | rrule
  deriving DecidableEq

inductive Kind where
  | event
  | task
  | note
  | diary
  | ledger
  deriving DecidableEq

def Kind.text : Kind → Text
  | .event => "event".toList
  | .task => "task".toList
  | .note => "note".toList
  | .diary => "diary".toList
  | .ledger => "ledger".toList

/-- The fields of `Item`. -/
def commonColumns : List Column :=
  [.title,.content,.tags,.category,.createdAt,.updatedAt,.context,.visibility,.attachments,.aiMeta,
    .deleted,.deletedAt]

def columns : List Column :=
  [.title,.content,.tags,.category,.createdAt,.updatedAt,.context,.visibility,.attachments,.aiMeta,
    .deleted,.deletedAt,.startTime,.endTime,.timezone,.location,.participants,.remindTimes,
    .reminderRules,.eventRole,.eventCollectionId,.eventCollectionKind,.eventIndex,.eventNodeKey,
    .sourceItemId,.notes,.planDate,.deadlineAt,.priority,.status,.repeatRule,.completedAt,
    .cancelledAt,.references,.lastViewed,.relatedItems,.mood,.moodScore,.weather,.templateId,
    .diaryDate,.entryTime,.templateAnswers,.isFavorite,.amount,.amountCents,.currency,
    .transactionType,.ledgerCategory,.ledgerDate,.accountName,.counterAccountName,.merchant,.remark,
    .rrule]

theorem columns_all {p : Column → Bool} : columns.all p=true ↔ ∀c,p c=true := by
  have hmem : ∀c,c∈columns := by
    intro c
    cases c <;> decide
  rw [List.all_eq_true]
  exact ⟨fun h c => h c (hmem c),fun h c _ => h c⟩

/-- `__dataclass_fields__` of the class of a kind. -/
def Kind.columns : Kind → List Column
  | .event => commonColumns++[.startTime,.endTime,.timezone,.location,.participants,.remindTimes,
      .reminderRules,.eventRole,.eventCollectionId,.eventCollectionKind,.eventIndex,.eventNodeKey,
      .sourceItemId,.notes]
  | .task => commonColumns++[.planDate,.deadlineAt,.priority,.status,.remindTimes,.reminderRules,
      .repeatRule,.completedAt,.cancelledAt]
  | .note => commonColumns++[.references,.lastViewed,.relatedItems]
  | .diary => commonColumns++[.mood,.moodScore,.weather,.location,.templateId,.diaryDate,.entryTime,
      .templateAnswers,.isFavorite]
  | .ledger => commonColumns++[.amount,.amountCents,.currency,.transactionType,.ledgerCategory,
      .ledgerDate,.accountName,.counterAccountName,.merchant,.remark]

/-- `_COMMON_STORAGE_DATETIME_FIELDS`. -/
def commonDatetimes : List Column := [.createdAt,.updatedAt,.deletedAt]

/-- `_ITEM_STORAGE_DATETIME_FIELDS`. -/
def Kind.datetimes : Kind → List Column
  | .event => [.startTime,.endTime]
  | .task => [.deadlineAt,.completedAt,.cancelledAt]
  | .note => [.lastViewed]
  | .diary => [.entryTime]
  | .ledger => []

/-- `_ALL_STORAGE_DATETIME_FIELDS`. -/
def storageDatetimes : List Column :=
  commonDatetimes++Kind.event.datetimes++Kind.task.datetimes++Kind.note.datetimes++
    Kind.diary.datetimes++Kind.ledger.datetimes

abbrev Fields := Column → Option Value

namespace Fields

def empty : Fields := fun _ => none

def of (c : Column) (v : Value) : Fields := fun d => if d=c then some v else none

/-- `{**base, **u}`. -/
def merge (base u : Fields) : Fields := fun c => (u c).or (base c)

/-- `u` without the columns `p`. -/
def without (p : Column → Bool) (u : Fields) : Fields := fun c => if p c then none else u c

def names (u : Fields) (c : Column) : Bool := (u c).isSome

def isEmpty (u : Fields) : Bool := columns.all (fun c => (u c).isNone)

end Fields

/-! Timestamps in storage -/

/-- The time zone database: its zones, and the instants that read as a wall time there. -/
structure ZoneBook where
  known : Text → Bool
  instants : Text → Nat → List Nat

/-- The name of a zone that `ZoneInfo` finds. -/
abbrev Zone (B : ZoneBook) := {name : Text // B.known name=true}

/-- `value in (None, "")`. -/
def Value.blank : Value → Bool
  | .null => true
  | .text [] => true
  | .stamp .blank => true
  | _ => false

variable (B : ZoneBook)

/-- `normalize_datetime_for_storage`; nothing where it raises. A wall time stands for an instant only
where it is the wall time of exactly one. -/
def normalizeStamp (zone : Text) : Stamp → Option Stamp
  | .utc t => some (.utc t)
  | .offset t => some (.utc t)
  | .wall w =>
    match B.instants zone w with
    | [t] => some (.utc t)
    | _ => none
  | .blank => none
  | .unreadable => none

def normalizeDatetime (zone : Text) : Value → Option Value
  | .stamp s => (normalizeStamp B zone s).map Value.stamp
  | _ => none

/-- The `remind_times` of `normalize_item_datetimes_for_storage`. -/
def normalizeRemindTimes (zone : Text) : Value → Option Value
  | .stamps l => ((l.filter (·≠.blank)).mapM (normalizeStamp B zone)).map Value.stamps
  | _ => none

/-- What `normalize_item_datetimes_for_storage` makes of one column. -/
def normalizeCell (kind : Kind) (userZone sourceZone : Text) (c : Column) (v : Value) : Option Value :=
  if c=.remindTimes then normalizeRemindTimes B sourceZone v
  else if v.blank then some v
  else if c∈commonDatetimes then normalizeDatetime B userZone v
  else if c∈kind.datetimes then normalizeDatetime B sourceZone v
  else some v

/-- The zone that an item's wall times are in: the zone that an event names, or the user's. -/
def sourceZone (kind : Kind) (userZone : Text) (u : Fields) : Option Text :=
  if kind=.event then
    let name := match u .timezone with
      | some (.text (c::cs)) => c::cs
      | _ => userZone
    if B.known name then some name else none
  else some userZone

/-- `normalize_item_datetimes_for_storage`; nothing where a timestamp or the zone is refused. -/
def normalizeItemDatetimes (kind : Kind) (userZone : Text) (u : Fields) : Option Fields :=
  (sourceZone B kind userZone u).bind (fun zone =>
    if columns.all (fun c => (u c).all (fun v => (normalizeCell B kind userZone zone c v).isSome)) then
      some (fun c => (u c).bind (normalizeCell B kind userZone zone c))
    else none)

/-- What `require_canonical_utc_storage` lets through in a column. -/
def canonical (c : Column) (v : Value) : Bool :=
  if c=.remindTimes then
    match v with
    | .stamps l => l.all (fun s => match s with | .utc _ => true | _ => false)
    | _ => false
  else if c∈storageDatetimes then
    v.blank || (match v with | .stamp (.utc _) => true | _ => false)
  else true

structure Prepared where
  fields : Fields
  canonical : ∀c v,fields c=some v → Pendo.canonical c v=true

/-- `_prepare_data` and `_prepare_event_collection_data`; a dictionary of `Fields` names no unknown
field. -/
def prepareData (u : Fields) : Option Prepared :=
  if h : columns.all (fun c => (u c).all (canonical c)) then
    some ⟨u,fun c v hv => by simpa [hv] using columns_all.mp h c⟩
  else none

/-- What `_row_to_item` and `_row_to_event_collection` read in a column that is NULL. -/
def Column.unset : Column → Value
  | .tags => .texts []
  | .remindTimes => .stamps []
  | .attachments | .participants | .reminderRules | .references | .relatedItems
  | .templateAnswers => .document ['[',']']
  | .context | .aiMeta => .document ['{','}']
  | .notes => .text []
  | .deleted | .isFavorite => .flag false
  | .status => .text ['o','p','e','n']
  | _ => .null

theorem canonical_unset (c : Column) : canonical c c.unset=true := by
  cases c <;> decide

@[ext] structure Cells where
  value : Column → Value
  canonical : ∀c,Pendo.canonical c (value c)=true

def decoded (c : Column) (v : Value) : Value := if v=.null then c.unset else v

/-- The columns that `SET` names get their values, the others keep theirs. -/
def Cells.write (cells : Cells) (u : Prepared) : Cells where
  value c := ((u.fields c).map (decoded c)).getD (cells.value c)
  canonical c := by
    cases h : u.fields c with
    | none => exact cells.canonical c
    | some v =>
      simp only [Option.map_some,Option.getD_some,decoded]
      split
      · exact canonical_unset c
      · exact u.canonical c v h

theorem Cells.write_value (cells : Cells) (u : Prepared) (c : Column) :
    (cells.write u).value c=((u.fields c).map (decoded c)).getD (cells.value c) := rfl

theorem updatedAt_ne : Column.updatedAt≠.remindTimes := by decide

theorem canonical_utc (c : Column) (t : Nat) (h : c≠.remindTimes) : canonical c (.stamp (.utc t))=true := by
  unfold canonical
  rw [if_neg h]
  split <;> simp

def Prepared.none : Prepared := ⟨.empty,fun _ _ h => by cases h⟩

/-- `SET c = v`. -/
def Prepared.of (c : Column) (v : Value) (h : Pendo.canonical c v=true) : Prepared where
  fields := .of c v
  canonical d w hw := by
    unfold Fields.of at hw
    split at hw
    · subst d
      cases hw
      exact h
    · cases hw

/-- `SET c = now`. -/
def Prepared.stamp (c : Column) (t : Nat) (h : c≠.remindTimes) : Prepared :=
  .of c (.stamp (.utc t)) (canonical_utc c t h)

def Prepared.merge (base u : Prepared) : Prepared where
  fields := base.fields.merge u.fields
  canonical c v hv := by
    rcases Option.or_eq_some_iff.mp hv with h | ⟨_,h⟩
    · exact u.canonical c v h
    · exact base.canonical c v h

@[simp] theorem Prepared.merge_fields (base u : Prepared) (c : Column) :
    (base.merge u).fields c=(u.fields c).or (base.fields c) := rfl

@[simp] theorem Prepared.of_fields (c d : Column) (v : Value) (h : Pendo.canonical c v=true) :
    (Prepared.of c v h).fields d=if d=c then some v else Option.none := rfl

@[simp] theorem Prepared.stamp_fields (c d : Column) (t : Nat) (h : c≠.remindTimes) :
    (Prepared.stamp c t h).fields d=if d=c then some (.stamp (.utc t)) else Option.none := rfl

end XiaoQing.Pendo
