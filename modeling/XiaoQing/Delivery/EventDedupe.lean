import Mathlib.Algebra.Order.Group.Nat
import Mathlib.Data.List.AList
import Mathlib.Data.List.Induction
import Mathlib.Data.List.Sort
import Mathlib.Tactic.Common
import XiaoQing.Framework.Serial

namespace XiaoQing.Delivery

/-- What the code asks of a Python value: `is None`, `isinstance(_,bool)`, its type's name, its `repr`. -/
structure Reflection (V : Type) where
  isNone : V → Bool
  isBool : V → Bool
  typeName : V → String
  repr : V → String

/-- An event by its `get`: a missing field reads as `None`. -/
abbrev InboundEvent (V : Type) := String → V

abbrev DedupeKey := List (String×String)

def keyFields : List String :=
  ["self_id","post_type","message_type","group_id","user_id","message_id"]

def inboundEventDedupeKey {V : Type} (py : Reflection V) (event : InboundEvent V) : DedupeKey :=
  keyFields.map fun f => (py.typeName (event f),py.repr (event f))

structure Expiration (κ τ : Type) where
  expiresAt : τ
  sequence : Nat
  key : κ
deriving DecidableEq

/-- `_event_dedupe_expirations` is a heap: kept here in the order in which it is popped. -/
structure EventDedupe (κ τ : Type) where
  recentEventIds : AList (fun _ : κ => τ)
  expirations : List (Expiration κ τ)
  sequence : Nat

/-- `heapq.heappop` of an empty list. -/
inductive IndexError | emptyHeap
deriving DecidableEq

inductive ClaimOutcome (κ τ : Type)
  | passed
  | duplicate
  | accepted (sequence : Nat) (evicted : Option (Expiration κ τ))

def ClaimOutcome.claimed {κ τ : Type} : ClaimOutcome κ τ → Bool
  | .passed => true
  | .duplicate => false
  | .accepted _ _ => true

def ClaimOutcome.number {κ τ : Type} : ClaimOutcome κ τ → Option Nat
  | .accepted n _ => some n
  | _ => none

section

variable {κ τ : Type} [DecidableEq κ] [LinearOrder τ]

/-- Tuple order; sequence numbers are distinct, so keys are never compared. -/
def Expiration.Le (a b : Expiration κ τ) : Prop :=
  a.expiresAt<b.expiresAt∨(a.expiresAt=b.expiresAt∧a.sequence≤b.sequence)

instance : DecidableRel (Expiration.Le (κ:=κ) (τ:=τ)) := fun _ _ => by
  unfold Expiration.Le; infer_instance

def heappush (h : List (Expiration κ τ)) (e : Expiration κ τ) : List (Expiration κ τ) :=
  h.orderedInsert Expiration.Le e

/-- `if ids.get(key) == expires_at: ids.pop(key, None)` -/
def dropMatching (ids : AList (fun _ : κ => τ)) (e : Expiration κ τ) : AList (fun _ : κ => τ) :=
  if ids.lookup e.key=some e.expiresAt then ids.erase e.key else ids

def pruneExpiredEventIds (now : τ) :
    List (Expiration κ τ) → AList (fun _ : κ => τ) → List (Expiration κ τ)×AList (fun _ : κ => τ)
  | [],ids => ([],ids)
  | e::h,ids => if e.expiresAt≤now then pruneExpiredEventIds now h (dropMatching ids e) else (e::h,ids)

/-- The `while len(ids) >= capacity` loop: it pops until an entry still named its key. -/
def evictOldest (capacity : Nat) : List (Expiration κ τ) → AList (fun _ : κ => τ) →
    Except IndexError (Option (Expiration κ τ)×List (Expiration κ τ)×AList (fun _ : κ => τ))
  | [],ids => if capacity ≤ ids.entries.length then .error .emptyHeap else .ok (none,[],ids)
  | e::h,ids =>
    if capacity ≤ ids.entries.length then
      if ids.lookup e.key=some e.expiresAt then .ok (some e,h,ids.erase e.key)
      else evictOldest capacity h ids
    else .ok (none,e::h,ids)

/-- The body under the lock; it has no await, so calls do not interleave inside it. -/
def claimKey [Add τ] (ttl : τ) (maxKeys : Nat) (now : τ) (key : κ) (s : EventDedupe κ τ) :
    Except IndexError (ClaimOutcome κ τ×EventDedupe κ τ) :=
  let (heap,ids) := pruneExpiredEventIds now s.expirations s.recentEventIds
  if key∈ids then .ok (.duplicate,⟨ids,heap,s.sequence⟩)
  else do
    let (evicted,heap,ids) ← evictOldest (max 1 maxKeys) heap ids
    let expiresAt := now+ttl
    let sequence := s.sequence+1
    return (.accepted sequence evicted,
      ⟨ids.insert key expiresAt,heappush heap ⟨expiresAt,sequence,key⟩,sequence⟩)

def Expiration.pair (e : Expiration κ τ) : Sigma (fun _ : κ => τ) := ⟨e.key,e.expiresAt⟩

def Matched (ids : AList (fun _ : κ => τ)) (h : List (Expiration κ τ)) : Prop :=
  ids.entries.Perm (h.map Expiration.pair)

variable {ids : AList (fun _ : κ => τ)} {h : List (Expiration κ τ)} {e : Expiration κ τ} {now : τ}

namespace Matched

omit [DecidableEq κ] [LinearOrder τ] in
theorem length (hm : Matched ids h) : ids.entries.length=h.length := by
  rw [List.Perm.length_eq hm,List.length_map]

omit [DecidableEq κ] [LinearOrder τ] in
theorem mem_iff (hm : Matched ids h) {k : κ} : k∈ids↔∃e∈h,e.key=k := by
  have hk : ids.keys.Perm (h.map Expiration.key) := by
    have hp := List.Perm.map Sigma.fst hm
    rwa [List.map_map] at hp
  exact hk.mem_iff.trans List.mem_map

omit [LinearOrder τ] in
theorem lookup_head (hm : Matched ids (e::h)) : ids.lookup e.key=some e.expiresAt := by
  have hmem : (⟨e.key,e.expiresAt⟩ : Sigma (fun _ : κ => τ))∈ids.entries := by
    rw [List.Perm.mem_iff hm]
    exact List.mem_cons_self (a:=e.pair)
  exact AList.mem_lookup_iff.mpr hmem

omit [LinearOrder τ] in
theorem erase_head (hm : Matched ids (e::h)) : Matched (ids.erase e.key) h := by
  have hk := List.Perm.kerase (a:=e.key) ids.nodupKeys hm
  rw [List.map_cons,List.kerase_cons_eq (a:=e.key) (s:=e.pair) rfl] at hk
  exact hk

omit [LinearOrder τ] in
theorem insert (hm : Matched ids h) (he : e.key∉ids) :
    Matched (ids.insert e.key e.expiresAt) (h++[e]) := by
  have hi : (ids.insert e.key e.expiresAt).entries=⟨e.key,e.expiresAt⟩::ids.entries := by
    rw [AList.entries_insert,List.kerase_of_notMem_keys (mt AList.mem_keys.mpr he)]
  unfold Matched
  rw [hi,List.map_append]
  exact (List.Perm.cons _ hm).trans (List.perm_append_singleton _ _).symm

theorem dropMatching_head (hm : Matched ids (e::h)) : dropMatching ids e=ids.erase e.key := by
  rw [dropMatching,if_pos hm.lookup_head]

end Matched

/-- Sorted as popped: later entries expire no earlier and carry a larger number. -/
def Expiring (h : List (Expiration κ τ)) : Prop :=
  h.Pairwise fun a b => a.expiresAt≤b.expiresAt∧a.sequence<b.sequence

omit [DecidableEq κ] in
theorem heappush_last (hl : ∀a∈h,a.expiresAt≤e.expiresAt∧a.sequence<e.sequence) :
    heappush h e=h++[e] := by
  induction h with
  | nil => rfl
  | cons a h ih =>
    obtain ⟨ht,hn⟩ := hl a List.mem_cons_self
    have hle : ¬Expiration.Le e a := by
      rintro (hlt | ⟨-,hle⟩)
      · exact absurd ht (not_le.mpr hlt)
      · omega
    rw [heappush,List.orderedInsert_of_not_le Expiration.Le h hle,List.cons_append]
    exact congrArg _ (ih fun b hb => hl b (List.mem_cons_of_mem _ hb))

omit [DecidableEq κ] in
theorem prune_spec [DecidableEq κ] (now : τ) (hm : Matched ids h) (ho : Expiring h) :
    ∃ids',pruneExpiredEventIds now h ids=(h.filter (fun e => now<e.expiresAt),ids')∧
      Matched ids' (h.filter fun e => now<e.expiresAt) := by
  induction h generalizing ids with
  | nil => exact ⟨ids,rfl,hm⟩
  | cons e h ih =>
    obtain ⟨hall,ho⟩ := List.pairwise_cons.mp ho
    by_cases he : e.expiresAt≤now
    · obtain ⟨ids',hp,hm'⟩ := ih hm.erase_head ho
      refine ⟨ids',?_,?_⟩
      · rw [pruneExpiredEventIds,if_pos he,hm.dropMatching_head,hp]
        simp [not_lt.mpr he]
      · simpa [not_lt.mpr he] using hm'
    · have hlive : (e::h).filter (fun e => now<e.expiresAt)=e::h := by
        rw [List.filter_eq_self]
        intro a ha
        rcases List.mem_cons.mp ha with rfl | ha
        · simpa using he
        · simpa using (lt_of_not_ge he).trans_le (hall a ha).1
      refine ⟨ids,?_,by rw [hlive]; exact hm⟩
      rw [pruneExpiredEventIds,if_neg he,hlive]

theorem evict_room {capacity : Nat} (hl : ids.entries.length<capacity) :
    evictOldest capacity h ids=.ok (none,h,ids) := by
  cases h with
  | nil => rw [evictOldest,if_neg (by omega)]
  | cons e h => rw [evictOldest,if_neg (by omega)]

theorem evict_full {capacity : Nat} (hm : Matched ids (e::h)) (hl : capacity ≤ ids.entries.length) :
    evictOldest capacity (e::h) ids=.ok (some e,h,ids.erase e.key) := by
  rw [evictOldest,if_pos hl,if_pos hm.lookup_head]

end

section

variable {V τ : Type} [LinearOrder τ] [Add τ]

structure ClaimCall (V τ : Type) where
  now : τ
  event : InboundEvent V

def ClaimCall.key (py : Reflection V) (c : ClaimCall V τ) : Option DedupeKey :=
  if py.isNone (c.event "message_id") || py.isBool (c.event "message_id") then none
  else some (inboundEventDedupeKey py c.event)

def claimInboundEvent (py : Reflection V) (ttl : τ) (maxKeys : Nat) (c : ClaimCall V τ)
    (s : EventDedupe DedupeKey τ) :
    Except IndexError (ClaimOutcome DedupeKey τ×EventDedupe DedupeKey τ) :=
  match c.key py with
  | none => .ok (.passed,s)
  | some key => claimKey ttl maxKeys c.now key s

def EventDedupe.empty {κ τ : Type} : EventDedupe κ τ := ⟨∅,[],0⟩

abbrev ClaimLog (V τ : Type) := List (ClaimCall V τ×ClaimOutcome DedupeKey τ)

def recordClaim (py : Reflection V) (ttl : τ) (maxKeys : Nat)
    (r : ClaimLog V τ×EventDedupe DedupeKey τ) (c : ClaimCall V τ) :
    Except IndexError (ClaimLog V τ×EventDedupe DedupeKey τ) := do
  let (o,t) ← claimInboundEvent py ttl maxKeys c r.2
  return (r.1++[(c,o)],t)

def claims (py : Reflection V) (ttl : τ) (maxKeys : Nat) (cs : List (ClaimCall V τ)) :
    Except IndexError (ClaimLog V τ×EventDedupe DedupeKey τ) :=
  cs.foldlM (recordClaim py ttl maxKeys) ([],.empty)

/-- Claim number `n` of the log was made by `d` and its entry has not been evicted in the log. -/
def Standing (log : ClaimLog V τ) (n : Nat) (d : ClaimCall V τ) : Prop :=
  (∃v,(d,ClaimOutcome.accepted n v)∈log)∧
    ∀c m e,(c,ClaimOutcome.accepted m (some e))∈log → e.sequence≠n

/-- A standing claim whose TTL has not run out at `now`. -/
def Live (ttl : τ) (log : ClaimLog V τ) (now : τ) (n : Nat) (d : ClaimCall V τ) : Prop :=
  Standing log n d∧now<d.now+ttl

variable {py : Reflection V} {ttl : τ} {maxKeys n : Nat} {log : ClaimLog V τ}
  {s t : EventDedupe DedupeKey τ} {c d : ClaimCall V τ} {o : ClaimOutcome DedupeKey τ}

omit [Add τ] [LinearOrder τ] in
theorem standing_silent (ho : o.number=none) : Standing (log++[(c,o)]) n d↔Standing log n d := by
  have hno : ∀m v,o≠.accepted m v := by
    rintro m v rfl
    cases ho
  simp only [Standing,List.mem_append,List.mem_singleton,Prod.mk.injEq]
  constructor
  · rintro ⟨⟨v,hv | ⟨-,hv⟩⟩,hev⟩
    · exact ⟨⟨v,hv⟩,fun c m e h => hev c m e (.inl h)⟩
    · exact absurd hv.symm (hno _ _)
  · rintro ⟨⟨v,hv⟩,hev⟩
    refine ⟨⟨v,.inl hv⟩,?_⟩
    rintro c' m e (h | ⟨-,h⟩)
    · exact hev c' m e h
    · exact absurd h.symm (hno _ _)

variable {v : Option (Expiration DedupeKey τ)}

omit [Add τ] [LinearOrder τ] in
theorem standing_accepted {m : Nat}
    (hfresh : ∀c' m' e,(c',ClaimOutcome.accepted m' (some e))∈log → e.sequence≠m) :
    Standing (log++[(c,.accepted m v)]) n d↔
      (Standing log n d∨(n=m∧d=c))∧∀e,v=some e → e.sequence≠n := by
  simp only [Standing,List.mem_append,List.mem_singleton,Prod.mk.injEq,ClaimOutcome.accepted.injEq]
  constructor
  · rintro ⟨⟨w,hw | ⟨rfl,rfl,rfl⟩⟩,hev⟩
    · exact ⟨.inl ⟨⟨w,hw⟩,fun c' m' e h => hev c' m' e (.inl h)⟩,
        fun e he => hev c m e (.inr ⟨rfl,rfl,he.symm⟩)⟩
    · exact ⟨.inr ⟨rfl,rfl⟩,fun e he => hev d n e (.inr ⟨rfl,rfl,he.symm⟩)⟩
  · rintro ⟨⟨⟨w,hw⟩,hev⟩ | ⟨rfl,rfl⟩,hv⟩
    · refine ⟨⟨w,.inl hw⟩,?_⟩
      rintro c' m' e (h | ⟨-,-,h⟩)
      · exact hev c' m' e h
      · exact hv e h.symm
    · refine ⟨⟨v,.inr ⟨rfl,rfl,rfl⟩⟩,?_⟩
      rintro c' m' e (h | ⟨-,-,h⟩)
      · exact hfresh c' m' e h
      · exact hv e h.symm

/-- The entry the code keeps for claim number `n` made by `d`. -/
def expirationOf (py : Reflection V) (ttl : τ) (n : Nat) (d : ClaimCall V τ) :
    Expiration DedupeKey τ :=
  ⟨d.now+ttl,n,inboundEventDedupeKey py d.event⟩

structure Remembers (py : Reflection V) (ttl : τ) (maxKeys : Nat) (log : ClaimLog V τ)
    (s : EventDedupe DedupeKey τ) : Prop where
  matched : Matched s.recentEventIds s.expirations
  expiring : Expiring s.expirations
  bounded : s.expirations.length ≤ max 1 maxKeys
  numbered : log.filterMap (fun p => p.2.number)=List.range' 1 s.sequence
  keyed : ∀d m v,(d,ClaimOutcome.accepted m v)∈log → d.key py=some (inboundEventDedupeKey py d.event)
  evicted : ∀d m e,(d,ClaimOutcome.accepted m (some e))∈log → e.sequence ≤ s.sequence
  origin : ∀e∈s.expirations,∃n d,Standing log n d∧e=expirationOf py ttl n d
  present : ∀n d now,Standing log n d → (∀p∈log,p.1.now≤now) → now<d.now+ttl →
    expirationOf py ttl n d∈s.expirations

structure Answers (py : Reflection V) (ttl : τ) (log : ClaimLog V τ) (c : ClaimCall V τ)
    (o : ClaimOutcome DedupeKey τ) : Prop where
  unkeyed : c.key py=none → o=.passed
  claimed : ∀k,c.key py=some k →
    (o.claimed=true↔¬∃n d,Live ttl log c.now n d∧d.key py=some k)
  oldest : ∀m e,o=.accepted m (some e) →
    (∃d,Live ttl log c.now e.sequence d∧e=expirationOf py ttl e.sequence d)∧
      ∀n d,Live ttl log c.now n d → e.sequence≤n

namespace Remembers

theorem empty : Remembers py ttl maxKeys ([] : ClaimLog V τ) .empty where
  matched := .refl _
  expiring := .nil
  bounded := Nat.zero_le _
  numbered := rfl
  keyed := by simp
  evicted := by simp
  origin := by simp [EventDedupe.empty]
  present := by simp [Standing]

theorem live_iff (h : Remembers py ttl maxKeys log s) {now : τ} (hnow : ∀p∈log,p.1.now≤now)
    {e : Expiration DedupeKey τ} :
    e∈s.expirations.filter (fun e => now<e.expiresAt)↔
      ∃n d,Live ttl log now n d∧e=expirationOf py ttl n d := by
  rw [List.mem_filter]
  constructor
  · rintro ⟨he,hlive⟩
    obtain ⟨n,d,hs,rfl⟩ := h.origin e he
    exact ⟨n,d,⟨hs,of_decide_eq_true hlive⟩,rfl⟩
  · rintro ⟨n,d,⟨hs,hlive⟩,rfl⟩
    exact ⟨h.present n d now hs hnow hlive,decide_eq_true hlive⟩

theorem key_of_standing (h : Remembers py ttl maxKeys log s) (hs : Standing log n d) :
    d.key py=some (inboundEventDedupeKey py d.event) := by
  obtain ⟨⟨v,hv⟩,-⟩ := hs
  exact h.keyed d n v hv

theorem number_le (h : Remembers py ttl maxKeys log s)
    (hv : (d,ClaimOutcome.accepted n v)∈log) : n ≤ s.sequence := by
  have hn : n∈log.filterMap (fun p => p.2.number) := List.mem_filterMap.mpr ⟨_,hv,rfl⟩
  rw [h.numbered,List.mem_range'_1] at hn
  omega

theorem silent (h : Remembers py ttl maxKeys log s) {ids : AList (fun _ : DedupeKey => τ)}
    {kept : List (Expiration DedupeKey τ)} (ho : o.number=none) (hm : Matched ids kept)
    (hsub : kept.Sublist s.expirations)
    (hkept : ∀e∈s.expirations,c.now<e.expiresAt → e∈kept) :
    Remembers py ttl maxKeys (log++[(c,o)]) ⟨ids,kept,s.sequence⟩ := by
  have hno : ∀m v,o≠.accepted m v := by
    rintro m v rfl
    cases ho
  have hacc : ∀{d m v},(d,ClaimOutcome.accepted m v)∈log++[(c,o)] →
      (d,ClaimOutcome.accepted m v)∈log := by
    intro d m v hd
    rcases List.mem_append.mp hd with hd | hd
    · exact hd
    · simp only [List.mem_singleton,Prod.mk.injEq] at hd
      exact absurd hd.2.symm (hno _ _)
  refine ⟨hm,h.expiring.sublist hsub,hsub.length_le.trans h.bounded,?_,
    fun d m v hd => h.keyed d m v (hacc hd),fun d m e hd => h.evicted d m e (hacc hd),?_,?_⟩
  · rw [List.filterMap_append,h.numbered]
    simp [ho]
  · intro e he
    obtain ⟨n,d,hs,rfl⟩ := h.origin e (hsub.subset he)
    exact ⟨n,d,(standing_silent ho).mpr hs,rfl⟩
  · intro n d now hs hnow hlive
    have hp := h.present n d now ((standing_silent ho).mp hs)
      (fun p hp => hnow p (List.mem_append_left _ hp)) hlive
    exact hkept _ hp ((hnow (c,o) (by simp)).trans_lt hlive)

theorem accept [AddRightMono τ] (h : Remembers py ttl maxKeys log s)
    (hnow : ∀p∈log,p.1.now≤c.now) (hk : c.key py=some (inboundEventDedupeKey py c.event)) {rest : List (Expiration DedupeKey τ)}
    {ids : AList (fun _ : DedupeKey => τ)}
    (hsplit : s.expirations.filter (fun e => c.now<e.expiresAt)=v.toList++rest)
    (hm : Matched ids rest) (hroom : rest.length < max 1 maxKeys)
    (hfree : inboundEventDedupeKey py c.event∉ids) :
    Remembers py ttl maxKeys (log++[(c,.accepted (s.sequence+1) v)])
      ⟨ids.insert (inboundEventDedupeKey py c.event) (c.now+ttl),
        heappush rest (expirationOf py ttl (s.sequence+1) c),s.sequence+1⟩ := by
  have hsub : (v.toList++rest).Sublist s.expirations := hsplit ▸ List.filter_sublist
  have hord : Expiring (v.toList++rest) := h.expiring.sublist hsub
  have hfrom : ∀e∈v.toList++rest,∃n d,Standing log n d∧e=expirationOf py ttl n d∧n ≤ s.sequence := by
    intro e he
    obtain ⟨n,d,hs,rfl⟩ := h.origin e (hsub.subset he)
    obtain ⟨⟨w,hw⟩,-⟩ := id hs
    exact ⟨n,d,hs,rfl,h.number_le hw⟩
  have hlast : ∀a∈rest,a.expiresAt≤(expirationOf py ttl (s.sequence+1) c).expiresAt∧
      a.sequence<(expirationOf py ttl (s.sequence+1) c).sequence := by
    intro a ha
    obtain ⟨n,d,⟨⟨w,hw⟩,-⟩,rfl,hn⟩ := hfrom a (List.mem_append_right _ ha)
    exact ⟨add_le_add_left (hnow _ hw) ttl,Nat.lt_succ_of_le hn⟩
  have hfresh : ∀c' m e,(c',ClaimOutcome.accepted m (some e))∈log → e.sequence≠s.sequence+1 := by
    intro c' m e he
    have := h.evicted c' m e he
    omega
  have hgone : ∀e,v=some e → e.sequence ≤ s.sequence∧∀a∈rest,e.sequence<a.sequence := by
    rintro e rfl
    obtain ⟨n,d,-,rfl,hn⟩ := hfrom e (by simp)
    exact ⟨hn,fun a ha => ((List.pairwise_cons.mp hord).1 a ha).2⟩
  rw [heappush_last hlast]
  refine ⟨hm.insert (e:=expirationOf py ttl (s.sequence+1) c) hfree,?_,?_,?_,?_,?_,?_,?_⟩
  · refine List.pairwise_append.mpr ⟨(List.pairwise_append.mp hord).2.1,List.pairwise_singleton _ _,?_⟩
    intro a ha b hb
    rw [List.mem_singleton.mp hb]
    exact hlast a ha
  · rw [List.length_append,List.length_singleton]
    exact hroom
  · rw [List.filterMap_append,h.numbered,List.range'_1_concat,Nat.add_comm 1]
    rfl
  · intro d m w hd
    rcases List.mem_append.mp hd with hd | hd
    · exact h.keyed d m w hd
    · simp only [List.mem_singleton,Prod.mk.injEq] at hd
      rw [hd.1,hk]
  · intro d m e hd
    rcases List.mem_append.mp hd with hd | hd
    · exact Nat.le_succ_of_le (h.evicted d m e hd)
    · simp only [List.mem_singleton,Prod.mk.injEq,ClaimOutcome.accepted.injEq] at hd
      exact Nat.le_succ_of_le (hgone e hd.2.2.symm).1
  · intro e he
    rcases List.mem_append.mp he with he | he
    · obtain ⟨n,d,hs,rfl,-⟩ := hfrom e (List.mem_append_right _ he)
      exact ⟨n,d,(standing_accepted hfresh).mpr
        ⟨.inl hs,fun e' hv => ((hgone e' hv).2 _ he).ne⟩,rfl⟩
    · refine ⟨s.sequence+1,c,(standing_accepted hfresh).mpr ⟨.inr ⟨rfl,rfl⟩,?_⟩,
        List.mem_singleton.mp he⟩
      intro e' hv
      have := (hgone e' hv).1
      omega
  · intro n d now hs hnow' hlive
    obtain ⟨hs | ⟨rfl,rfl⟩,hv⟩ := (standing_accepted hfresh).mp hs
    · have hp := h.present n d now hs (fun p hp => hnow' p (List.mem_append_left _ hp)) hlive
      have hc : c.now<d.now+ttl := (hnow' (c,_) (List.mem_append_right _ List.mem_cons_self)).trans_lt hlive
      have hf : expirationOf py ttl n d∈v.toList++rest := by
        rw [← hsplit,List.mem_filter]
        exact ⟨hp,decide_eq_true hc⟩
      rcases List.mem_append.mp hf with hf | hf
      · exact absurd rfl (hv _ (Option.mem_toList.mp hf))
      · exact List.mem_append_left _ hf
    · exact List.mem_append_right _ List.mem_cons_self

theorem claim [AddRightMono τ] (h : Remembers py ttl maxKeys log s)
    (hnow : ∀p∈log,p.1.now≤c.now) :
    ∃o t,claimInboundEvent py ttl maxKeys c s=.ok (o,t)∧
      Remembers py ttl maxKeys (log++[(c,o)]) t∧Answers py ttl log c o := by
  cases hk : c.key py with
  | none =>
    refine ⟨.passed,s,?_,?_,?_⟩
    · rw [claimInboundEvent,hk]
    · exact h.silent rfl h.matched (List.Sublist.refl _) fun e he _ => he
    · exact ⟨fun _ => rfl,by simp [hk],by simp⟩
  | some k =>
    have hkey : k=inboundEventDedupeKey py c.event := by
      simp only [ClaimCall.key] at hk
      split at hk
      · cases hk
      · exact (Option.some.inj hk).symm
    obtain ⟨ids,hp,hm⟩ := prune_spec c.now h.matched h.expiring
    have hheld : k∈ids↔∃n d,Live ttl log c.now n d∧d.key py=some k := by
      rw [hm.mem_iff]
      constructor
      · rintro ⟨e,he,rfl⟩
        obtain ⟨n,d,hl,rfl⟩ := (h.live_iff hnow).mp he
        exact ⟨n,d,hl,h.key_of_standing hl.1⟩
      · rintro ⟨n,d,hl,hd⟩
        refine ⟨_,(h.live_iff hnow).mpr ⟨n,d,hl,rfl⟩,?_⟩
        rw [h.key_of_standing hl.1] at hd
        exact Option.some.inj hd
    have hclaim : claimInboundEvent py ttl maxKeys c s=claimKey ttl maxKeys c.now k s := by
      rw [claimInboundEvent,hk]
    rw [hclaim,claimKey,hp]
    by_cases hdup : k∈ids
    · refine ⟨.duplicate,_,by simp only [hdup,if_true]; rfl,?_,?_⟩
      · refine h.silent rfl hm List.filter_sublist fun e he hlive => ?_
        exact List.mem_filter.mpr ⟨he,decide_eq_true hlive⟩
      · refine ⟨by simp [hk],?_,by simp⟩
        intro k' hk'
        rw [hk,Option.some.injEq] at hk'
        subst k'
        simpa [ClaimOutcome.claimed] using hheld.mp hdup
    · have hnew : ∀k',c.key py=some k' → ¬∃n d,Live ttl log c.now n d∧d.key py=some k' := by
        intro k' hk'
        rw [hk,Option.some.injEq] at hk'
        subst k'
        exact fun hl => hdup (hheld.mpr hl)
      subst hkey
      simp only [hdup,if_false]
      cases hf : s.expirations.filter (fun e => c.now<e.expiresAt) with
      | nil =>
        rw [hf] at hm
        rw [evict_room (by rw [hm.length]; simp)]
        refine ⟨_,_,rfl,h.accept hnow hk (v:=none) hf hm (by simp) hdup,?_⟩
        exact ⟨by simp [hk],fun k' hk' => by simpa [ClaimOutcome.claimed] using hnew k' hk',by simp⟩
      | cons e rest =>
        rw [hf] at hm
        by_cases hl : max 1 maxKeys ≤ ids.entries.length
        · rw [evict_full hm hl]
          have hle : (e::rest).length ≤ max 1 maxKeys :=
            (hf ▸ List.filter_sublist.length_le).trans h.bounded
          have hgone : inboundEventDedupeKey py c.event∉ids.erase e.key := by
            rw [AList.mem_erase]
            exact fun hmem => hdup hmem.2
          refine ⟨_,_,rfl,h.accept hnow hk (v:=some e) hf hm.erase_head hle hgone,?_⟩
          refine ⟨by simp [hk],fun k' hk' => by simpa [ClaimOutcome.claimed] using hnew k' hk',?_⟩
          rintro m e' he'
          obtain ⟨-,he'⟩ := ClaimOutcome.accepted.inj he'
          cases he'
          have hord : Expiring (e::rest) := hf ▸ h.expiring.sublist List.filter_sublist
          refine ⟨?_,?_⟩
          · obtain ⟨n,d,hlive,rfl⟩ := (h.live_iff hnow).mp (hf ▸ List.mem_cons_self)
            exact ⟨d,hlive,rfl⟩
          · intro n d hlive
            have hmem := (h.live_iff hnow).mpr ⟨n,d,hlive,rfl⟩
            rw [hf] at hmem
            rcases List.mem_cons.mp hmem with heq | hmem
            · rw [← heq]; rfl
            · exact ((List.pairwise_cons.mp hord).1 _ hmem).2.le
        · rw [evict_room (by omega)]
          have hroom : (e::rest).length < max 1 maxKeys := by
            rw [← hm.length]
            omega
          refine ⟨_,_,rfl,h.accept hnow hk (v:=none) hf hm hroom hdup,?_⟩
          exact ⟨by simp [hk],fun k' hk' => by simpa [ClaimOutcome.claimed] using hnew k' hk',by simp⟩

end Remembers

/-- Any calls with a clock that never goes back: no claim fails, the dictionary and the heap hold the
same pairs within the capacity, and each call is answered from the claims that still stand. -/
theorem claims_faithful [AddRightMono τ] (py : Reflection V) (ttl : τ) (maxKeys : Nat)
    (cs : List (ClaimCall V τ)) (hc : cs.Pairwise fun a b => a.now≤b.now) :
    ∃log s,claims py ttl maxKeys cs=.ok (log,s)∧log.map Prod.fst=cs∧
      Matched s.recentEventIds s.expirations∧s.recentEventIds.entries.length ≤ max 1 maxKeys∧
      log.filterMap (fun p => p.2.number)=List.range' 1 s.sequence∧
      ∀pre c o post,log=pre++(c,o)::post → Answers py ttl pre c o := by
  suffices hs : ∃log s,claims py ttl maxKeys cs=.ok (log,s)∧log.map Prod.fst=cs∧
      Remembers py ttl maxKeys log s∧∀pre c o post,log=pre++(c,o)::post → Answers py ttl pre c o by
    obtain ⟨log,s,hrun,hcs,hr,ha⟩ := hs
    exact ⟨log,s,hrun,hcs,hr.matched,hr.matched.length ▸ hr.bounded,hr.numbered,ha⟩
  induction cs using List.reverseRecOn with
  | nil => exact ⟨[],.empty,rfl,rfl,.empty,by simp⟩
  | append_singleton cs c ih =>
    obtain ⟨hpre,-,hlast⟩ := List.pairwise_append.mp hc
    obtain ⟨log,s,hrun,hcs,hr,ha⟩ := ih hpre
    have hnow : ∀p∈log,p.1.now≤c.now := by
      intro p hp
      exact hlast p.1 (hcs ▸ List.mem_map_of_mem hp) c List.mem_cons_self
    obtain ⟨o,t,hclaim,hr',ho⟩ := hr.claim hnow
    refine ⟨log++[(c,o)],t,?_,by rw [List.map_append,hcs]; rfl,hr',?_⟩
    · rw [claims,List.foldlM_append,← claims,hrun]
      simp only [bind,Except.bind,List.foldlM_cons,recordClaim,hclaim,List.foldlM_nil]
      rfl
    · intro pre c' o' post heq
      rcases Framework.log_split heq with ⟨rfl,hp,-⟩ | ⟨rest,-,hlog⟩
      · cases hp
        exact ho
      · exact ha pre c' o' rest hlog

/-- Integer fields; a missing field is `None`. -/
def integerFields : Reflection (Option Int) where
  isNone := Option.isNone
  isBool _ := false
  typeName v := if v.isNone then "NoneType" else "int"
  repr v := v.elim "None" toString

def messageAt (now : Nat) (id : Int) : ClaimCall (Option Int) Nat :=
  ⟨now,fun f => if f="message_id" then some id else none⟩

/-- Two keys fit; the third claim evicts message 1, which is then claimed again. -/
def fourMessages : List (ClaimCall (Option Int) Nat) :=
  [messageAt 0 1,messageAt 5 2,messageAt 5 2,messageAt 9 3,messageAt 9 1]

theorem claims_faithful_fourMessages :
    ∃log s,claims integerFields 300 2 fourMessages=.ok (log,s)∧log.map Prod.fst=fourMessages∧
      Matched s.recentEventIds s.expirations∧s.recentEventIds.entries.length≤2∧
      log.filterMap (fun p => p.2.number)=List.range' 1 s.sequence∧
      ∀pre c o post,log=pre++(c,o)::post → Answers integerFields 300 pre c o :=
  claims_faithful integerFields 300 2 fourMessages (by decide)

example : ((claims integerFields 300 2 fourMessages).toOption.map
    fun r => r.1.map fun p => p.2.claimed)=some [true,true,false,true,true] := by
  decide

end

end XiaoQing.Delivery
