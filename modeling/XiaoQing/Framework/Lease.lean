import XiaoQing.Framework.Rows
import Mathlib.Data.Set.Insert
import Mathlib.Logic.Function.Basic
import Mathlib.Logic.Relation
import Mathlib.Tactic.Common

namespace XiaoQing.Framework

/-! Leases: a key is held by one token until a time, or until the token is given back. -/

structure Lease where
  token : Nat
  expires : Nat
  deriving DecidableEq

/-- Who holds which key, and all that has been handed out. -/
structure Ledger (κ : Type*) where
  now : Nat
  drawn : Nat
  holder : κ → Option Lease
  granted : List (κ × Lease)
  ended : Set Nat

namespace Ledger

variable {κ : Type*}

def start : Ledger κ := ⟨0,0,fun _ => none,[],∅⟩

/-- Time passes; a token is drawn and gets nothing; a free or lapsed key is granted to a new token;
some keys are taken from their holders. -/
inductive Step [DecidableEq κ] : Ledger κ → Ledger κ → Prop
  | pass {l : Ledger κ} {now : Nat} : l.now ≤ now → Step l {l with now := now}
  | draw {l : Ledger κ} : Step l {l with drawn := l.drawn+1}
  | grant {l : Ledger κ} {k : κ} {expires : Nat} : (∀h∈l.holder k,h.expires ≤ l.now) →
    Step l {l with
      drawn := l.drawn+1
      holder := Function.update l.holder k (some ⟨l.drawn,expires⟩)
      granted := (k,⟨l.drawn,expires⟩)::l.granted}
  | finish {l : Ledger κ} {P : κ → Prop} {holder : κ → Option Lease} :
    (∀k,P k → holder k=none) → (∀k,¬P k → holder k=l.holder k) →
    Step l {l with
      holder := holder
      ended := l.ended ∪ {t | ∃k h,P k ∧ l.holder k=some h ∧ h.token=t}}

abbrev Steps [DecidableEq κ] : Ledger κ → Ledger κ → Prop := Relation.ReflTransGen Step

def last [DecidableEq κ] (l : Ledger κ) (k : κ) : Option Lease :=
  (l.granted.find? (fun g => g.1=k)).map Prod.snd

/-- A lease that has been handed out, has not been ended and has not lapsed. -/
structure Live (l : Ledger κ) (k : κ) (h : Lease) : Prop where
  granted : (k,h)∈l.granted
  kept : h.token∉l.ended
  unexpired : l.now < h.expires

structure Sound [DecidableEq κ] (l : Ledger κ) : Prop where
  drawn : ∀g∈l.granted,g.2.token < l.drawn
  distinct : (l.granted.map (fun g => g.2.token)).Nodup
  ended : ∀t∈l.ended,∃g∈l.granted,g.2.token=t
  held : ∀k h,l.holder k=some h → l.last k=some h ∧ h.token∉l.ended
  live : ∀k h,l.Live k h → l.holder k=some h

variable [DecidableEq κ] {l l' : Ledger κ} {k : κ} {h h' : Lease}

theorem mem_of_last (hl : l.last k=some h) : (k,h)∈l.granted := by
  obtain ⟨⟨j,g⟩,hfind,rfl⟩ := Option.map_eq_some_iff.mp hl
  have hj : j=k := of_decide_eq_true (List.find?_some (p:=fun g : κ × Lease => decide (g.1=k)) hfind)
  exact hj ▸ List.mem_of_find?_eq_some hfind

theorem start_sound : Sound (start : Ledger κ) where
  drawn := by simp [start]
  distinct := by simp [start]
  ended := by simp [start]
  held := by simp [start]
  live k h hl := by simpa [start] using hl.granted

theorem Sound.token_inj (hs : Sound l) {j : κ} (hk : (k,h)∈l.granted) (hj : (j,h')∈l.granted)
    (ht : h.token=h'.token) : k=j ∧ h=h' := by
  have hsame := List.inj_on_of_nodup_map hs.distinct hk hj ht
  exact ⟨congrArg Prod.fst hsame,congrArg Prod.snd hsame⟩

theorem Step.sound (hstep : Step l l') (hs : Sound l) : Sound l' := by
  cases hstep with
  | pass hnow =>
    exact ⟨hs.drawn,hs.distinct,hs.ended,hs.held,
      fun k h hl => hs.live k h ⟨hl.granted,hl.kept,Nat.lt_of_le_of_lt hnow hl.unexpired⟩⟩
  | draw =>
    exact ⟨fun g hg => Nat.lt_succ_of_lt (hs.drawn g hg),hs.distinct,hs.ended,hs.held,
      fun k h hl => hs.live k h ⟨hl.granted,hl.kept,hl.unexpired⟩⟩
  | @grant k expires hfree =>
    have hnew : l.drawn∉l.ended := by
      intro he
      obtain ⟨g,hg,ht⟩ := hs.ended _ he
      have := hs.drawn g hg
      omega
    refine ⟨?_,?_,?_,?_,?_⟩
    · intro g hg
      rcases List.mem_cons.mp hg with rfl | hg
      · exact Nat.lt_succ_self _
      · exact Nat.lt_succ_of_lt (hs.drawn g hg)
    · refine List.nodup_cons.mpr ⟨?_,hs.distinct⟩
      intro hmem
      obtain ⟨g,hg,ht⟩ := List.mem_map.mp hmem
      have := hs.drawn g hg
      simp only at ht
      omega
    · intro t ht
      obtain ⟨g,hg,he⟩ := hs.ended t ht
      exact ⟨g,List.mem_cons_of_mem _ hg,he⟩
    · intro j h hj
      simp only at hj
      by_cases hjk : j=k
      · subst j
        rw [Function.update_self] at hj
        cases hj
        exact ⟨by simp [last],hnew⟩
      · rw [Function.update_of_ne hjk] at hj
        obtain ⟨hlast,hkept⟩ := hs.held j h hj
        refine ⟨?_,hkept⟩
        rw [←hlast]
        simp [last,Ne.symm hjk]
    · intro j h hl
      simp only
      by_cases hjk : j=k
      · subst j
        rw [Function.update_self]
        rcases List.mem_cons.mp hl.granted with he | hold
        · rw [(Prod.mk.inj he).2]
        · have hheld := hs.live k h ⟨hold,hl.kept,hl.unexpired⟩
          have hle := hfree h hheld
          have hlt := hl.unexpired
          simp only at hlt
          omega
      · rw [Function.update_of_ne hjk]
        refine hs.live j h ⟨?_,hl.kept,hl.unexpired⟩
        rcases List.mem_cons.mp hl.granted with he | hold
        · exact absurd (Prod.mk.inj he).1 hjk
        · exact hold
  | @finish P holder hgone hkeep =>
    refine ⟨hs.drawn,hs.distinct,?_,?_,?_⟩
    · rintro t (ht | ⟨k,h,_,hk,rfl⟩)
      · exact hs.ended t ht
      · exact ⟨_,mem_of_last (hs.held k h hk).1,rfl⟩
    · intro k h hk
      simp only at hk
      have hnot : ¬P k := fun hP => by rw [hgone k hP] at hk; cases hk
      rw [hkeep k hnot] at hk
      obtain ⟨hlast,hkept⟩ := hs.held k h hk
      refine ⟨hlast,?_⟩
      rintro (he | ⟨j,g,hP,hj,ht⟩)
      · exact hkept he
      · have hsame := hs.token_inj (mem_of_last hlast) (mem_of_last (hs.held j g hj).1) ht.symm
        exact hnot (hsame.1 ▸ hP)
    · intro k h hl
      have hkept : h.token∉l.ended := fun he => hl.kept (Or.inl he)
      have hheld := hs.live k h ⟨hl.granted,hkept,hl.unexpired⟩
      have hnot : ¬P k := fun hP => hl.kept (Or.inr ⟨k,h,hP,hheld,rfl⟩)
      simp only
      rw [hkeep k hnot]
      exact hheld

theorem Steps.sound (hsteps : Steps l l') (hs : Sound l) : Sound l' := by
  induction hsteps with
  | refl => exact hs
  | tail _ hstep ih => exact hstep.sound ih

theorem Sound.live_unique (hs : Sound l) (hl : l.Live k h) (hl' : l.Live k h') : h=h' := by
  have hheld := hs.live k h hl
  rw [hs.live k h' hl'] at hheld
  exact (Option.some.inj hheld).symm

/-- Whoever holds a key has its last lease, and has not lost it. -/
theorem Sound.held_last (hs : Sound l) (hk : l.holder k=some h) :
    l.last k=some h ∧ h.token∉l.ended := hs.held k h hk

/-! A table whose rows carry the leases -/

section

variable {ρ : Type*} (key : ρ → κ) (lease : ρ → Option Lease)

def holderOf (rows : List ρ) (k : κ) : Option Lease := (row key rows k).bind lease

/-- The tokens of the rows that an update takes the lease from. -/
def lostTokens (lease : ρ → Option Lease) (p : ρ → Bool) (rows : List ρ) : List Nat :=
  (rows.filter p).filterMap (fun r => (lease r).map Lease.token)

def ofRows (now drawn : Nat) (rows : List ρ) (granted : List (κ × Lease)) (ended : List Nat) :
    Ledger κ :=
  ⟨now,drawn,holderOf key lease rows,granted,{t | t∈ended}⟩

variable {key lease} {rows : List ρ} {p : ρ → Bool} {f : ρ → ρ} {now drawn : Nat}
  {granted : List (κ × Lease)} {ended : List Nat}

theorem holderOf_updateWhere (hf : ∀r,key (f r)=key r) :
    holderOf key lease (updateWhere p f rows) k=
      (row key rows k).bind (fun r => lease (if p r then f r else r)) := by
  unfold holderOf
  rw [row_updateWhere hf]
  cases row key rows k <;> rfl

theorem holderOf_keep (hf : ∀r,key (f r)=key r) (hkeep : ∀r∈rows,p r → lease (f r)=lease r) :
    holderOf key lease (updateWhere p f rows)=holderOf key lease rows := by
  funext k
  rw [holderOf_updateWhere hf,holderOf]
  cases h : row key rows k with
  | none => rfl
  | some r =>
    simp only [Option.bind_some]
    split
    · exact hkeep r (mem_of_row h) ‹_›
    · rfl

theorem holderOf_append {new : ρ} (hnew : lease new=none) :
    holderOf key lease (rows++[new])=holderOf key lease rows := by
  funext k
  unfold holderOf
  rw [row_append]
  cases row key rows k with
  | none => by_cases h : key new=k <;> simp [h,hnew]
  | some r => rfl

/-- An update that takes away the leases of its rows. -/
theorem finish_of_update (hunique : UniqueKeys key rows) (hf : ∀r,key (f r)=key r)
    (hclear : ∀r,p r → lease (f r)=none) :
    Step (ofRows key lease now drawn rows granted ended)
      (ofRows key lease now drawn (updateWhere p f rows) granted (lostTokens lease p rows++ended)) := by
  have hended : {t | t∈lostTokens lease p rows++ended}={t | t∈ended} ∪
      {t | ∃k h,(∃r,row key rows k=some r ∧ p r) ∧ holderOf key lease rows k=some h ∧ h.token=t} := by
    ext t
    simp only [Set.mem_ofPred_eq,List.mem_append,Set.mem_union,lostTokens,List.mem_filterMap,
      List.mem_filter]
    rw [or_comm]
    refine or_congr_right ?_
    constructor
    · rintro ⟨r,⟨hr,hp⟩,ht⟩
      obtain ⟨h,hh,rfl⟩ := Option.map_eq_some_iff.mp ht
      have hrow := hunique.row_of_mem hr
      exact ⟨key r,h,⟨r,hrow,hp⟩,by rw [holderOf,hrow]; exact hh,rfl⟩
    · rintro ⟨k,h,⟨r,hrow,hp⟩,hh,rfl⟩
      rw [holderOf,hrow,Option.bind_some] at hh
      exact ⟨r,⟨mem_of_row hrow,hp⟩,by rw [hh]; rfl⟩
  have hstep := @Step.finish κ _ (ofRows key lease now drawn rows granted ended)
    (fun k => ∃r,row key rows k=some r ∧ p r) (holderOf key lease (updateWhere p f rows)) ?_ ?_
  · unfold ofRows at hstep ⊢
    rw [hended]
    exact hstep
  · rintro k ⟨r,hrow,hp⟩
    rw [holderOf_updateWhere hf,hrow,Option.bind_some,if_pos hp]
    exact hclear r hp
  · intro k hk
    change _=holderOf key lease rows k
    rw [holderOf_updateWhere hf,holderOf]
    cases hrow : row key rows k with
    | none => rfl
    | some r => rw [Option.bind_some,Option.bind_some,if_neg (fun hp => hk ⟨r,hrow,hp⟩)]

/-- An update that leases the row of one key, which was free. -/
theorem grant_of_update {expires : Nat} {r : ρ} (hf : ∀r,key (f r)=key r)
    (hp : ∀r,p r → key r=k) (hrow : row key rows k=some r) (hpr : p r)
    (hfree : ∀h∈lease r,h.expires ≤ now) (hnew : lease (f r)=some ⟨drawn,expires⟩) :
    Step (ofRows key lease now drawn rows granted ended)
      (ofRows key lease now (drawn+1) (updateWhere p f rows) ((k,⟨drawn,expires⟩)::granted) ended) := by
  have hholder : holderOf key lease (updateWhere p f rows)=
      Function.update (holderOf key lease rows) k (some ⟨drawn,expires⟩) := by
    funext j
    by_cases hj : j=k
    · subst j
      rw [Function.update_self,holderOf_updateWhere hf,hrow,Option.bind_some,if_pos hpr,hnew]
    · rw [Function.update_of_ne hj,holderOf,holderOf,
        row_updateWhere_of_ne hf (fun r hr he => hj (he.symm.trans (hp r hr)))]
  have hstep := @Step.grant κ _ (ofRows key lease now drawn rows granted ended) k expires ?_
  · unfold ofRows at hstep ⊢
    rw [hholder]
    exact hstep
  · intro h hh
    change h∈holderOf key lease rows k at hh
    rw [holderOf,hrow] at hh
    exact hfree h hh

/-- A new row with a lease, for a key that has none. -/
theorem grant_of_append {expires : Nat} {new : ρ} (hrow : row key rows (key new)=none)
    (hnew : lease new=some ⟨drawn,expires⟩) :
    Step (ofRows key lease now drawn rows granted ended)
      (ofRows key lease now (drawn+1) (rows++[new]) ((key new,⟨drawn,expires⟩)::granted) ended) := by
  have hholder : holderOf key lease (rows++[new])=
      Function.update (holderOf key lease rows) (key new) (some ⟨drawn,expires⟩) := by
    funext j
    unfold holderOf
    rw [row_append]
    by_cases hj : j=key new
    · subst j
      rw [Function.update_self,hrow,if_pos rfl]
      exact hnew
    · rw [Function.update_of_ne hj,if_neg (Ne.symm hj),Option.or_none]
  have hstep := @Step.grant κ _ (ofRows key lease now drawn rows granted ended) (key new) expires ?_
  · unfold ofRows at hstep ⊢
    rw [hholder]
    exact hstep
  · intro h hh
    change h∈holderOf key lease rows (key new) at hh
    rw [holderOf,hrow] at hh
    cases hh

end

end Ledger

end XiaoQing.Framework
