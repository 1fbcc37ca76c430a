import Mathlib.Data.Char
import Mathlib.Data.Finset.Sort
import Mathlib.Data.List.Lex
import XiaoQing.Commands.CommandRouter
import XiaoQing.Framework.Effects

namespace XiaoQing.Delivery

open Commands Framework

/-- A parsed JSON value; the values of other types are left open. -/
inductive JsonValue (β : Type)
  | null
  | str (text : Text)
  | int (n : Int)
  | list (items : List (JsonValue β))
  | dict (fields : List (String × JsonValue β))
  | other (value : β)

abbrev JsonFields (β : Type) := List (String × JsonValue β)

/-- The checks of `DurableFanoutStateError`, and the errors of the file. -/
inductive FanoutError
  | object
  | eventId
  | payload
  | targets
  | target
  | targetKind
  | targetId
  | unique
  | delivered
  | commit
  | unknownTarget
  | unreadable
  | schema
  | write

inductive FanoutKind
  | group
  | privateChat
  deriving DecidableEq

def FanoutKind.text : FanoutKind → Text
  | .group => "group".toList
  | .privateChat => "private".toList

structure FanoutTarget where
  kind : FanoutKind
  targetId : Int
  positive : 0 < targetId
  deriving DecidableEq

def FanoutTarget.key (t : FanoutTarget) : Text := t.kind.text++ ':'::(toString t.targetId).toList

structure PendingFanout (β : Type) where
  eventId : Text
  payload : List (JsonFields β)
  targets : List FanoutTarget
  commit : JsonFields β
  delivered : Finset Text

def maxTargets : Nat := 1000

def maxSegments : Nat := 1000

def maxEventIdChars : Nat := 256

variable {β : Type}

def FanoutTarget.asJson (t : FanoutTarget) : JsonValue β :=
  .dict [("kind",.str t.kind.text),("id",.int t.targetId)]

namespace PendingFanout

variable (p : PendingFanout β)

def keys : List Text := p.targets.map FanoutTarget.key

def complete : Bool := p.targets.all fun t => decide (t.key∈p.delivered)

def pendingTargets : List FanoutTarget := p.targets.filter fun t => decide (t.key∉p.delivered)

def asJson : JsonValue β :=
  .dict [("event_id",.str p.eventId),("payload",.list (p.payload.map .dict)),
    ("targets",.list (p.targets.map FanoutTarget.asJson)),
    ("delivered",.list (p.delivered.sort.map .str)),("commit",.dict p.commit)]

end PendingFanout

section

/-! `_decode_pending`, check by check -/

def decodeEventId : Option (JsonValue β) → Except FanoutError Text
  | some (.str t) => if t.isEmpty ∨ maxEventIdChars < t.length then .error .eventId else .ok t
  | _ => .error .eventId

def asDict : JsonValue β → Except FanoutError (JsonFields β)
  | .dict fields => .ok fields
  | _ => .error .payload

def decodePayload : Option (JsonValue β) → Except FanoutError (List (JsonFields β))
  | some (.list l) => if maxSegments < l.length then .error .payload else l.mapM asDict
  | _ => .error .payload

def decodeKind (t : Text) : Except FanoutError FanoutKind :=
  if t=FanoutKind.group.text then .ok .group
  else if t=FanoutKind.privateChat.text then .ok .privateChat
  else .error .targetKind

/-- `str(value)`, where `render` is what `str` gives for a value that is no string. -/
def strOf (render : JsonValue β → Text) : JsonValue β → Text
  | .str t => t
  | v => render v

def decodeTarget (render : JsonValue β → Text) : JsonValue β → Except FanoutError FanoutTarget
  | .dict item => do
    let kind ← decodeKind (((item.lookup "kind").map (strOf render)).getD [])
    match item.lookup "id" with
    | some (.int n) => if h : 0 < n then .ok ⟨kind,n,h⟩ else .error .targetId
    | _ => .error .targetId
  | _ => .error .target

def decodeTargets (render : JsonValue β → Text) :
    Option (JsonValue β) → Except FanoutError (List FanoutTarget)
  | some (.list l) =>
    if l.isEmpty ∨ maxTargets < l.length then .error .targets
    else do
      let targets ← l.mapM (decodeTarget render)
      if (targets.map FanoutTarget.key).Nodup then .ok targets else .error .unique
  | _ => .error .targets

def asText : JsonValue β → Except FanoutError Text
  | .str t => .ok t
  | _ => .error .delivered

def decodeDelivered (keys : List Text) : Option (JsonValue β) → Except FanoutError (Finset Text)
  | some (.list l) => do
    let delivered ← l.mapM asText
    if ∀k∈delivered,k∈keys then .ok delivered.toFinset else .error .delivered
  | _ => .error .delivered

def decodeCommit : Option (JsonValue β) → Except FanoutError (JsonFields β)
  | some (.dict fields) => .ok fields
  | _ => .error .commit

def decodePending (render : JsonValue β → Text) : JsonValue β → Except FanoutError (PendingFanout β)
  | .dict f => do
    let eventId ← decodeEventId (f.lookup "event_id")
    let payload ← decodePayload (f.lookup "payload")
    let targets ← decodeTargets render (f.lookup "targets")
    let delivered ← decodeDelivered (targets.map FanoutTarget.key) (f.lookup "delivered")
    let commit ← decodeCommit (f.lookup "commit")
    .ok ⟨eventId,payload,targets,commit,delivered⟩
  | _ => .error .object

end

structure PendingFanout.Valid (p : PendingFanout β) : Prop where
  eventId : p.eventId≠[]∧p.eventId.length ≤ maxEventIdChars
  payload : p.payload.length ≤ maxSegments
  targets : p.targets≠[]∧p.targets.length ≤ maxTargets
  unique : p.keys.Nodup
  delivered : ∀k∈p.delivered,k∈p.keys

section

variable {ε α γ : Type} {p : PendingFanout β} {render : JsonValue β → Text} {v : JsonValue β}

theorem mapM_map_ok {f : α → γ} {g : γ → Except ε α} (h : ∀a,g (f a)=.ok a) (l : List α) :
    (l.map f).mapM g=.ok l := by
  induction l with
  | nil => rfl
  | cons a l ih =>
    rw [List.map_cons,List.mapM_cons,h,ih]
    rfl

theorem length_mapM {g : α → Except ε γ} {l : List α} {r : List γ} (h : l.mapM g=.ok r) :
    r.length=l.length := by
  induction l generalizing r with
  | nil =>
    cases h
    rfl
  | cons a l ih =>
    rw [List.mapM_cons] at h
    obtain ⟨b,-,h⟩ := ok_of_bind h
    obtain ⟨bs,hbs,h⟩ := ok_of_bind h
    cases h
    rw [List.length_cons,List.length_cons,ih hbs]

theorem decodeKind_text (k : FanoutKind) : decodeKind k.text=.ok k := by
  cases k <;> rfl

theorem decodeTarget_asJson (t : FanoutTarget) : decodeTarget render t.asJson=.ok t := by
  obtain ⟨kind,n,hn⟩ := t
  simp [FanoutTarget.asJson,decodeTarget,strOf,decodeKind_text,List.lookup_cons,hn,bind,Except.bind]

theorem decodePending_asJson (h : p.Valid) : decodePending render p.asJson=.ok p := by
  have hevent : decodeEventId (some (.str p.eventId : JsonValue β))=.ok p.eventId := by
    have hne : ¬(p.eventId.isEmpty=true∨maxEventIdChars < p.eventId.length) := by
      simp [h.eventId.1,h.eventId.2]
    exact if_neg hne
  have hpayload : decodePayload (some (.list (p.payload.map .dict)))=.ok p.payload := by
    unfold decodePayload
    dsimp only
    rw [List.length_map,if_neg (Nat.not_lt.mpr h.payload)]
    exact mapM_map_ok (show ∀f : JsonFields β,asDict (.dict f)=.ok f from fun _ => rfl) _
  have htargets : decodeTargets render (some (.list (p.targets.map FanoutTarget.asJson)))=.ok p.targets := by
    unfold decodeTargets
    dsimp only
    rw [if_neg (by simp [h.targets.1,h.targets.2]),mapM_map_ok decodeTarget_asJson]
    exact if_pos h.unique
  have hdelivered : decodeDelivered p.keys (some (.list (p.delivered.sort.map .str) : JsonValue β))=
      .ok p.delivered := by
    have hstr : ∀t,asText (.str t : JsonValue β)=.ok t := fun _ => rfl
    have hall : ∀k∈p.delivered.sort,k∈p.keys := fun k hk => h.delivered k ((Finset.mem_sort _).mp hk)
    unfold decodeDelivered
    dsimp only
    rw [mapM_map_ok hstr]
    exact (if_pos hall).trans (congrArg Except.ok (Finset.sort_toFinset _ _))
  have hfields : decodePending render p.asJson=(do
      let eventId ← decodeEventId (some (.str p.eventId : JsonValue β))
      let payload ← decodePayload (some (.list (p.payload.map .dict)))
      let targets ← decodeTargets render (some (.list (p.targets.map FanoutTarget.asJson)))
      let delivered ← decodeDelivered (targets.map FanoutTarget.key)
        (some (.list (p.delivered.sort.map .str) : JsonValue β))
      let commit ← decodeCommit (some (.dict p.commit))
      .ok ⟨eventId,payload,targets,commit,delivered⟩) := rfl
  unfold PendingFanout.keys at hdelivered
  rw [hfields,hevent,hpayload,htargets]
  change (decodeDelivered (p.targets.map FanoutTarget.key) _ >>= _)=_
  rw [hdelivered]
  rfl

theorem decodePending_valid (h : decodePending render v=.ok p) : p.Valid := by
  unfold decodePending at h
  split at h
  swap
  · cases h
  obtain ⟨eventId,hevent,h⟩ := ok_of_bind h
  obtain ⟨payload,hpayload,h⟩ := ok_of_bind h
  obtain ⟨targets,htargets,h⟩ := ok_of_bind h
  obtain ⟨delivered,hdelivered,h⟩ := ok_of_bind h
  obtain ⟨commit,-,h⟩ := ok_of_bind h
  cases h
  have hid : eventId≠[]∧eventId.length ≤ maxEventIdChars := by
    unfold decodeEventId at hevent
    split at hevent
    · split_ifs at hevent with hbad
      cases hevent
      simpa [not_or] using hbad
    · cases hevent
  have hsegments : payload.length ≤ maxSegments := by
    unfold decodePayload at hpayload
    split at hpayload
    · split_ifs at hpayload with hbad
      rw [length_mapM hpayload]
      exact Nat.le_of_not_lt hbad
    · cases hpayload
  have hlist : (targets≠[]∧targets.length ≤ maxTargets)∧(targets.map FanoutTarget.key).Nodup := by
    unfold decodeTargets at htargets
    split at htargets
    · split_ifs at htargets with hbad
      obtain ⟨found,hfound,hunique⟩ := ok_of_bind htargets
      split_ifs at hunique with hnodup
      cases hunique
      have hlen := length_mapM hfound
      simp only [not_or,List.isEmpty_iff,Nat.not_lt] at hbad
      refine ⟨⟨?_,hlen ▸ hbad.2⟩,hnodup⟩
      rintro rfl
      exact hbad.1 (List.length_eq_zero_iff.mp hlen.symm)
    · cases htargets
  have hset : ∀k∈delivered,k∈targets.map FanoutTarget.key := by
    unfold decodeDelivered at hdelivered
    split at hdelivered
    · obtain ⟨found,-,hsub⟩ := ok_of_bind hdelivered
      split_ifs at hsub with hall
      cases hsub
      exact fun k hk => hall k (List.mem_toFinset.mp hk)
    · cases hdelivered
  exact ⟨hid,hsegments,hlist.1,hlist.2,hset⟩

theorem decodePending_eq {q : PendingFanout β} (h : decodePending render p.asJson=.ok q) : q=p := by
  unfold decodePending PendingFanout.asJson at h
  obtain ⟨eventId,hevent,h⟩ := ok_of_bind h
  obtain ⟨payload,hpayload,h⟩ := ok_of_bind h
  obtain ⟨targets,htargets,h⟩ := ok_of_bind h
  obtain ⟨delivered,hdelivered,h⟩ := ok_of_bind h
  obtain ⟨commit,hcommit,h⟩ := ok_of_bind h
  cases h
  have hid : eventId=p.eventId := by
    change decodeEventId (some (.str p.eventId : JsonValue β))=_ at hevent
    unfold decodeEventId at hevent
    dsimp only at hevent
    split_ifs at hevent
    exact (Except.ok.inj hevent).symm
  have hsegments : payload=p.payload := by
    change decodePayload (some (.list (p.payload.map .dict)))=_ at hpayload
    unfold decodePayload at hpayload
    dsimp only at hpayload
    split_ifs at hpayload
    rw [mapM_map_ok (show ∀f : JsonFields β,asDict (.dict f)=.ok f from fun _ => rfl)] at hpayload
    exact (Except.ok.inj hpayload).symm
  have hlist : targets=p.targets := by
    change decodeTargets render (some (.list (p.targets.map FanoutTarget.asJson)))=_ at htargets
    unfold decodeTargets at htargets
    dsimp only at htargets
    split_ifs at htargets
    obtain ⟨found,hfound,hunique⟩ := ok_of_bind htargets
    rw [mapM_map_ok decodeTarget_asJson] at hfound
    cases hfound
    split_ifs at hunique
    exact (Except.ok.inj hunique).symm
  have hset : delivered=p.delivered := by
    change decodeDelivered _ (some (.list (p.delivered.sort.map .str) : JsonValue β))=_ at hdelivered
    unfold decodeDelivered at hdelivered
    obtain ⟨found,hfound,hsub⟩ := ok_of_bind hdelivered
    rw [mapM_map_ok (show ∀t,asText (.str t : JsonValue β)=.ok t from fun _ => rfl)] at hfound
    cases hfound
    split_ifs at hsub
    exact (Except.ok.inj hsub).symm.trans (Finset.sort_toFinset _ _)
  have hdict : commit=p.commit := (Except.ok.inj hcommit).symm
  rw [hid,hsegments,hlist,hset,hdict]

theorem decodePending_asJson_iff : decodePending render p.asJson=.ok p ↔ p.Valid :=
  ⟨decodePending_valid,decodePending_asJson⟩

end

end XiaoQing.Delivery
