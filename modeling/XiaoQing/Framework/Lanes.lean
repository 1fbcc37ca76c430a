import Mathlib.Data.List.Basic
import Mathlib.Data.List.Nodup
import XiaoQing.Framework.Table

namespace XiaoQing.Framework

open Function (update update_of_ne update_self)

section

/-- Keyed FIFO lanes: items are numbered as they are pushed, a lane runs one item at a time
and a queue holds the keys that a worker should look at. -/
structure Lanes (κ : Type*) where
  next : Nat
  key : Nat → κ
  started : Nat → Bool
  finished : Nat → Bool
  pending : κ → List Nat
  running : κ → Option Nat
  ready : κ → Bool
  queue : List κ
  startLog : List Nat

namespace Lanes

variable {κ : Type*} [DecidableEq κ]

def push (s : Lanes κ) (k : κ) : Lanes κ :=
  {s with
    next := s.next+1
    key := update s.key s.next k
    started := update s.started s.next false
    finished := update s.finished s.next false
    pending := update s.pending k (s.pending k++[s.next])}

def remove (s : Lanes κ) (t : Nat) : Lanes κ :=
  {s with
    finished := update s.finished t true
    pending := update s.pending (s.key t) ((s.pending (s.key t)).erase t)}

def start (s : Lanes κ) (k : κ) (t : Nat) (rest : List Nat) : Lanes κ :=
  {s with
    started := update s.started t true
    pending := update s.pending k rest
    running := update s.running k (some t)
    startLog := s.startLog++[t]}

def finish (s : Lanes κ) (t : Nat) : Lanes κ :=
  {s with
    finished := update s.finished t true
    running := update s.running (s.key t) none}

def schedule (s : Lanes κ) (k : κ) : Lanes κ :=
  {s with ready := update s.ready k true,queue := s.queue++[k]}

def dequeue (s : Lanes κ) (k : κ) (rest : List κ) : Lanes κ :=
  {s with ready := update s.ready k false,queue := rest}

def live (s : Lanes κ) : Nat := tally (fun b => !b) s.finished s.next

/-- The lanes hold exactly the unfinished items, in the order they were pushed. -/
structure Consistent (s : Lanes κ) : Prop where
  sorted : ∀k,(s.pending k).Pairwise (· < ·)
  queued : ∀k t,t∈s.pending k ↔ t < s.next ∧ s.key t=k ∧ s.started t=false ∧ s.finished t=false
  active : ∀k t,s.running k=some t ↔
    t < s.next ∧ s.key t=k ∧ s.started t=true ∧ s.finished t=false
  logged : ∀t∈s.startLog,t < s.next ∧ s.started t=true
  ordered : ∀k,(s.startLog.filter (fun t => s.key t=k)).Pairwise (· < ·)
  ahead : ∀t∈s.startLog,∀u∈s.pending (s.key t),t<u

/-- Keys outside `hole` that have work and no running item are queued, every key once. -/
structure Scheduled (s : Lanes κ) (hole : κ → Prop) : Prop where
  member : ∀k,s.ready k=true ↔ k∈s.queue
  nodup : s.queue.Nodup
  awake : ∀k,¬hole k → s.pending k≠[] → s.running k=none → s.ready k=true

variable {s : Lanes κ} {k : κ} {t : Nat} {rest : List Nat}

theorem Consistent.push (h : s.Consistent) (k : κ) : (s.push k).Consistent := by
  have hne (t : Nat) (ht : t < s.next) : t≠s.next := by omega
  have hkey (t : Nat) (ht : t < s.next) : (s.push k).key t=s.key t :=
    update_of_ne (hne t ht) _ _
  refine ⟨?_,?_,?_,?_,?_,?_⟩
  · intro j
    by_cases hj : j=k
    · subst j
      simp only [Lanes.push,update_self]
      rw [List.pairwise_append]
      refine ⟨h.sorted k,List.pairwise_singleton _ _,?_⟩
      intro a ha b hb
      rw [List.mem_singleton.mp hb]
      exact ((h.queued k a).mp ha).1
    · simp only [Lanes.push,update_of_ne hj]
      exact h.sorted j
  · intro j t
    by_cases ht : t=s.next
    · subst t
      by_cases hj : j=k
      · subst j; simp [Lanes.push]
      · have hnot : s.next∉s.pending j := fun hm => absurd ((h.queued j _).mp hm).1 (by omega)
        simp [Lanes.push,hj,hnot,Ne.symm hj]
    · by_cases hj : j=k
      · subst j
        simp only [Lanes.push,update_self,update_of_ne ht,List.mem_append,
          List.mem_singleton,ht,or_false,h.queued]
        constructor
        · rintro ⟨h1,h2⟩; exact ⟨by omega,h2⟩
        · rintro ⟨h1,h2⟩; exact ⟨by omega,h2⟩
      · simp only [Lanes.push,update_of_ne ht,update_of_ne hj,h.queued]
        constructor
        · rintro ⟨h1,h2⟩; exact ⟨by omega,h2⟩
        · rintro ⟨h1,h2⟩; exact ⟨by omega,h2⟩
  · intro j t
    by_cases ht : t=s.next
    · subst t
      have hnot : s.running j≠some s.next :=
        fun hm => absurd ((h.active j _).mp hm).1 (by omega)
      simp [Lanes.push,hnot]
    · simp only [Lanes.push,update_of_ne ht,h.active]
      constructor
      · rintro ⟨h1,h2⟩; exact ⟨by omega,h2⟩
      · rintro ⟨h1,h2⟩; exact ⟨by omega,h2⟩
  · intro t ht
    obtain ⟨hlt,hs⟩ := h.logged t ht
    exact ⟨by simp only [Lanes.push]; omega,by
      simpa only [Lanes.push,update_of_ne (hne t hlt)] using hs⟩
  · intro j
    have heq : (s.push k).startLog.filter (fun t => (s.push k).key t=j)=
        s.startLog.filter (fun t => s.key t=j) := by
      apply List.filter_congr
      intro t ht
      rw [hkey t (h.logged t ht).1]
    rw [heq]
    exact h.ordered j
  · intro t ht u hu
    have hlt := (h.logged t ht).1
    rw [hkey t hlt] at hu
    by_cases hj : s.key t=k
    · simp only [Lanes.push,hj,update_self,List.mem_append,List.mem_singleton] at hu
      rcases hu with hu | rfl
      · exact h.ahead t ht u (hj ▸ hu)
      · exact hlt
    · simp only [Lanes.push,update_of_ne hj] at hu
      exact h.ahead t ht u hu

theorem Consistent.remove (h : s.Consistent) (ht : t∈s.pending (s.key t)) :
    (s.remove t).Consistent := by
  obtain ⟨hlt,_,hst,hfin⟩ := (h.queued _ _).mp ht
  have hnd (k : κ) : (s.pending k).Nodup := (h.sorted k).imp (fun hab => by omega)
  have hsub (k : κ) (u : Nat) (hu : u∈(s.remove t).pending k) : u∈s.pending k := by
    by_cases hk : k=s.key t
    · subst k
      simp only [Lanes.remove,update_self] at hu
      exact List.mem_of_mem_erase hu
    · simpa only [Lanes.remove,update_of_ne hk] using hu
  refine ⟨?_,?_,?_,h.logged,h.ordered,?_⟩
  · intro k
    by_cases hk : k=s.key t
    · subst k
      simp only [Lanes.remove,update_self]
      exact (h.sorted _).sublist List.erase_sublist
    · simp only [Lanes.remove,update_of_ne hk]
      exact h.sorted k
  · intro k u
    by_cases hu : u=t
    · subst u
      have hnot : t∉(s.remove t).pending k := by
        by_cases hk : k=s.key t
        · subst k
          simp only [Lanes.remove,update_self]
          exact fun hm => ((hnd _).mem_erase_iff.mp hm).1 rfl
        · simp only [Lanes.remove,update_of_ne hk]
          exact fun hm => hk ((h.queued k t).mp hm).2.1.symm
      exact iff_of_false hnot (by simp [Lanes.remove])
    · simp only [Lanes.remove,update_of_ne hu]
      rw [←h.queued]
      by_cases hk : k=s.key t
      · subst k
        rw [update_self,(hnd _).mem_erase_iff]
        exact ⟨fun hm => hm.2,fun hm => ⟨hu,hm⟩⟩
      · rw [update_of_ne hk]
  · intro k u
    by_cases hu : u=t
    · subst u
      exact iff_of_false (fun hr => by rw [((h.active k t).mp hr).2.2.1] at hst; cases hst)
        (by simp [Lanes.remove])
    · simp only [Lanes.remove,update_of_ne hu]
      exact h.active k u
  · intro a ha u hu
    exact h.ahead a ha u (hsub _ u hu)

theorem Consistent.start (h : s.Consistent) (hp : s.pending k=t::rest)
    (hr : s.running k=none) : (s.start k t rest).Consistent := by
  obtain ⟨hlt,hk,hst,hfin⟩ := (h.queued k t).mp (by simp [hp])
  have hsort := h.sorted k
  rw [hp,List.pairwise_cons] at hsort
  have hnotrest : t∉rest := fun hm => absurd (hsort.1 t hm) (by omega)
  have hnew : t∉s.startLog := fun hm => by
    rw [(h.logged t hm).2] at hst; cases hst
  refine ⟨?_,?_,?_,?_,?_,?_⟩
  · intro j
    by_cases hj : j=k
    · subst j; simpa only [Lanes.start,update_self] using hsort.2
    · simp only [Lanes.start,update_of_ne hj]
      exact h.sorted j
  · intro j u
    by_cases hu : u=t
    · subst u
      refine iff_of_false ?_ (by simp [Lanes.start])
      by_cases hj : j=k
      · subst j; simpa only [Lanes.start,update_self] using hnotrest
      · simp only [Lanes.start,update_of_ne hj]
        exact fun hm => hj (((h.queued j t).mp hm).2.1.symm.trans hk)
    · simp only [Lanes.start,update_of_ne hu]
      rw [←h.queued]
      by_cases hj : j=k
      · subst j; simp [hp,hu]
      · simp only [update_of_ne hj]
  · intro j u
    by_cases hu : u=t
    · subst u
      by_cases hj : j=k
      · subst j; simp [Lanes.start,hlt,hk,hfin]
      · have hnot : s.running j≠some t := fun hm => hj
          (((h.active j t).mp hm).2.1.symm.trans hk)
        simp [Lanes.start,hj,hnot,hk,Ne.symm hj]
    · simp only [Lanes.start,update_of_ne hu]
      rw [←h.active]
      by_cases hj : j=k
      · subst j; simp [hr,Ne.symm hu]
      · simp only [update_of_ne hj]
  · intro u hu
    simp only [Lanes.start,List.mem_append,List.mem_singleton] at hu
    rcases hu with hu | rfl
    · obtain ⟨h1,h2⟩ := h.logged u hu
      have hne : u≠t := fun he => hnew (he ▸ hu)
      exact ⟨h1,by simpa only [Lanes.start,update_of_ne hne] using h2⟩
    · exact ⟨hlt,by simp [Lanes.start]⟩
  · intro j
    simp only [Lanes.start,List.filter_append]
    rw [List.pairwise_append]
    refine ⟨h.ordered j,?_,?_⟩
    · by_cases hj : s.key t=j <;> simp [hj]
    · intro a ha b hb
      obtain ⟨hb1,hb2⟩ := List.mem_filter.mp hb
      obtain ⟨ha1,ha2⟩ := List.mem_filter.mp ha
      have hbt := List.mem_singleton.mp hb1
      subst b
      have hkey : s.key a=k := by
        have h1 : s.key a=j := of_decide_eq_true ha2
        have h2 : s.key t=j := of_decide_eq_true hb2
        rw [h1,←h2,hk]
      exact h.ahead a ha1 t (by rw [hkey,hp]; simp)
  · intro a ha u hu
    have hu' : u∈s.pending (s.key a) := by
      by_cases hj : s.key a=k
      · simp only [Lanes.start,hj,update_self] at hu
        rw [hj,hp]
        exact List.mem_cons_of_mem _ hu
      · simpa only [Lanes.start,update_of_ne hj] using hu
    simp only [Lanes.start,List.mem_append,List.mem_singleton] at ha
    rcases ha with ha | rfl
    · exact h.ahead a ha u hu'
    · simp only [Lanes.start,hk,update_self] at hu
      exact hsort.1 u hu

theorem Consistent.finish (h : s.Consistent) (hr : s.running (s.key t)=some t) :
    (s.finish t).Consistent := by
  obtain ⟨hlt,_,hst,hfin⟩ := (h.active _ _).mp hr
  refine ⟨h.sorted,?_,?_,h.logged,h.ordered,h.ahead⟩
  · intro k u
    by_cases hu : u=t
    · subst u
      exact iff_of_false (fun hm => by rw [((h.queued k t).mp hm).2.2.1] at hst; cases hst)
        (by simp [Lanes.finish])
    · simp only [Lanes.finish,update_of_ne hu]
      exact h.queued k u
  · intro k u
    by_cases hu : u=t
    · subst u
      refine iff_of_false ?_ (by simp [Lanes.finish])
      by_cases hk : k=s.key t
      · subst k; simp [Lanes.finish]
      · simp only [Lanes.finish,update_of_ne hk]
        exact fun hm => hk ((h.active k t).mp hm).2.1.symm
    · simp only [Lanes.finish,update_of_ne hu]
      rw [←h.active]
      by_cases hk : k=s.key t
      · subst k
        rw [update_self,hr]
        simp [Ne.symm hu]
      · rw [update_of_ne hk]

theorem Consistent.schedule (h : s.Consistent) (k : κ) : (s.schedule k).Consistent :=
  ⟨h.sorted,h.queued,h.active,h.logged,h.ordered,h.ahead⟩

theorem Consistent.dequeue (h : s.Consistent) (k : κ) (rest : List κ) :
    (s.dequeue k rest).Consistent :=
  ⟨h.sorted,h.queued,h.active,h.logged,h.ordered,h.ahead⟩

theorem live_push (s : Lanes κ) (k : κ) : (s.push k).live=s.live+1 := by
  simp only [live,Lanes.push]
  rw [tally_push]
  simp

omit [DecidableEq κ] in
theorem live_update (s : Lanes κ) (hlt : t < s.next) (hf : s.finished t=false) :
    tally (fun b => !b) (update s.finished t true) s.next+1=s.live := by
  have h := tally_update (fun b => !b) s.finished s.next t true hlt
  rw [hf] at h
  simpa [live] using h

theorem Consistent.live_remove (h : s.Consistent) (ht : t∈s.pending (s.key t)) :
    (s.remove t).live+1=s.live := by
  obtain ⟨hlt,_,_,hfin⟩ := (h.queued _ _).mp ht
  exact live_update s hlt hfin

theorem Consistent.live_finish (h : s.Consistent) (hr : s.running (s.key t)=some t) :
    (s.finish t).live+1=s.live := by
  obtain ⟨hlt,_,_,hfin⟩ := (h.active _ _).mp hr
  exact live_update s hlt hfin

omit [DecidableEq κ] in
theorem Scheduled.mono {hole hole' : κ → Prop} (h : s.Scheduled hole)
    (hh : ∀k,hole k → hole' k) : s.Scheduled hole' :=
  ⟨h.member,h.nodup,fun k hk => h.awake k (fun hx => hk (hh k hx))⟩

variable {hole : κ → Prop}

theorem Scheduled.schedule (h : s.Scheduled hole) (hk : s.ready k=false) :
    (s.schedule k).Scheduled (fun j => hole j ∧ j≠k) := by
  have hnot : k∉s.queue := fun hm => by rw [(h.member k).mpr hm] at hk; cases hk
  refine ⟨?_,?_,?_⟩
  · intro j
    by_cases hj : j=k
    · subst j; simp [Lanes.schedule]
    · simp [Lanes.schedule,hj,h.member]
  · simp only [Lanes.schedule]
    rw [List.nodup_append]
    refine ⟨h.nodup,by simp,?_⟩
    intro a ha b hb he
    rw [List.mem_singleton.mp hb] at he
    exact hnot (he ▸ ha)
  · intro j hj hp hr
    by_cases hjk : j=k
    · subst j; simp [Lanes.schedule]
    · simp only [Lanes.schedule,update_of_ne hjk]
      exact h.awake j (fun hh => hj ⟨hh,hjk⟩) hp hr

theorem Scheduled.dequeue {rest : List κ} (h : s.Scheduled hole)
    (hq : s.queue=k::rest) : (s.dequeue k rest).Scheduled (fun j => hole j ∨ j=k) := by
  have hnd := h.nodup
  rw [hq,List.nodup_cons] at hnd
  refine ⟨?_,hnd.2,?_⟩
  · intro j
    by_cases hj : j=k
    · subst j; simp [Lanes.dequeue,hnd.1]
    · simp [Lanes.dequeue,hj,h.member,hq]
  · intro j hj hp hr
    obtain ⟨hj1,hj2⟩ := not_or.mp hj
    simp only [Lanes.dequeue,update_of_ne hj2]
    exact h.awake j hj1 hp hr

/-- A key without work, or with a running item, needs no place in the queue. -/
theorem Scheduled.close (h : s.Scheduled (fun j => hole j ∨ j=k))
    (hk : s.pending k=[] ∨ s.running k≠none ∨ s.ready k=true) : s.Scheduled hole := by
  refine ⟨h.member,h.nodup,?_⟩
  intro j hj hp hr
  by_cases hjk : j=k
  · subst j
    rcases hk with hk | hk | hk
    · exact absurd hk hp
    · exact absurd hr hk
    · exact hk
  · exact h.awake j (not_or.mpr ⟨hj,hjk⟩) hp hr

omit [DecidableEq κ] in
theorem Scheduled.shrink {s' : Lanes κ} (h : s.Scheduled hole)
    (hr : s'.ready=s.ready) (hq : s'.queue=s.queue) (hn : s'.running=s.running)
    (hp : ∀j,s.pending j=[] → s'.pending j=[]) : s'.Scheduled hole := by
  refine ⟨by rw [hr,hq]; exact h.member,by rw [hq]; exact h.nodup,?_⟩
  intro j hj hpj hrj
  rw [hr]
  exact h.awake j hj (fun he => hpj (hp j he)) (by rwa [←hn])

omit [DecidableEq κ] in
/-- What happens inside one lane can only disturb the schedule of that lane. -/
theorem Scheduled.local {s' : Lanes κ} (h : s.Scheduled hole) (k : κ)
    (hr : s'.ready=s.ready) (hq : s'.queue=s.queue)
    (hp : ∀j,j≠k → s'.pending j=s.pending j) (hn : ∀j,j≠k → s'.running j=s.running j) :
    s'.Scheduled (fun j => hole j ∨ j=k) := by
  refine ⟨by rw [hr,hq]; exact h.member,by rw [hq]; exact h.nodup,?_⟩
  intro j hj hpj hrj
  obtain ⟨hj1,hj2⟩ := not_or.mp hj
  rw [hr]
  exact h.awake j hj1 (by rwa [←hp j hj2]) (by rwa [←hn j hj2])

end Lanes

end

section

variable {ω α : Type*}

theorem split_at {l : List ω} {i : Nat} {x : ω} (h : l[i]?=some x) :
    ∃l₁ l₂,l=l₁++x::l₂ ∧ (∀y,l.set i y=l₁++y::l₂) ∧ l.eraseIdx i=l₁++l₂ := by
  induction l generalizing i with
  | nil => simp at h
  | cons a l ih =>
    cases i with
    | zero =>
      simp only [List.getElem?_cons_zero,Option.some.injEq] at h
      exact ⟨[],l,by simp [h],fun y => rfl,rfl⟩
    | succ i =>
      obtain ⟨l₁,l₂,hl,hs,he⟩ := ih (by simpa using h)
      exact ⟨a::l₁,l₂,by rw [hl]; rfl,fun y => by rw [List.set_cons_succ,hs]; rfl,
        by rw [List.eraseIdx_cons_succ,he]; rfl⟩

def jobs (job : ω → Option α) (l : List ω) : List α := l.filterMap job

variable {job : ω → Option α} {l : List ω} {i : Nat} {x y : ω} {a b : α}

theorem nodup_drop {p q : List α} {a : α} (hn : (p++a::q).Nodup) :
    (p++q).Nodup ∧ ∀b,b∈p++q ↔ b∈p++a::q ∧ b≠a := by
  rw [List.nodup_middle,List.nodup_cons] at hn
  obtain ⟨hna,hpq⟩ := hn
  refine ⟨hpq,?_⟩
  intro b
  simp only [List.mem_append,List.mem_cons] at hna ⊢
  constructor
  · intro hb
    refine ⟨by tauto,?_⟩
    rintro rfl
    exact hna hb
  · rintro ⟨hb,hne⟩
    tauto

/-- A worker that changes without touching its job. -/
theorem jobs_set_same (h : l[i]?=some x) (hy : job y=job x) :
    jobs job (l.set i y)=jobs job l := by
  obtain ⟨l₁,l₂,hl,hs,_⟩ := split_at h
  rw [hs,hl]
  simp [jobs,List.filterMap_append,List.filterMap_cons,hy]

theorem jobs_erase_idle (h : l[i]?=some x) (hx : job x=none) :
    jobs job (l.eraseIdx i)=jobs job l := by
  obtain ⟨l₁,l₂,hl,_,he⟩ := split_at h
  rw [he,hl]
  simp [jobs,List.filterMap_append,hx]

theorem jobs_set_take (h : l[i]?=some x) (hx : job x=none) (hy : job y=some a)
    (hn : (jobs job l).Nodup) (ha : a∉jobs job l) :
    (jobs job (l.set i y)).Nodup ∧ ∀b,b∈jobs job (l.set i y) ↔ b=a ∨ b∈jobs job l := by
  obtain ⟨l₁,l₂,hl,hs,_⟩ := split_at h
  have hold : jobs job l=l₁.filterMap job++l₂.filterMap job := by
    rw [hl]; simp [jobs,List.filterMap_append,hx]
  have hnew : jobs job (l.set i y)=l₁.filterMap job++a::l₂.filterMap job := by
    rw [hs]; simp [jobs,List.filterMap_append,hy]
  rw [hnew,hold]
  rw [hold] at hn ha
  refine ⟨List.nodup_middle.mpr (List.nodup_cons.mpr ⟨ha,hn⟩),?_⟩
  intro b
  simp only [List.mem_append,List.mem_cons]
  tauto

/-- A worker lets its job go and stays in the pool. -/
theorem jobs_set_drop (h : l[i]?=some x) (hx : job x=some a) (hy : job y=none)
    (hn : (jobs job l).Nodup) :
    (jobs job (l.set i y)).Nodup ∧ ∀b,b∈jobs job (l.set i y) ↔ b∈jobs job l ∧ b≠a := by
  obtain ⟨l₁,l₂,hl,hs,_⟩ := split_at h
  have hold : jobs job l=l₁.filterMap job++a::l₂.filterMap job := by
    rw [hl]; simp [jobs,List.filterMap_append,hx]
  have hnew : jobs job (l.set i y)=l₁.filterMap job++l₂.filterMap job := by
    rw [hs]; simp [jobs,List.filterMap_append,hy]
  rw [hnew,hold]
  exact nodup_drop (hold ▸ hn)

/-- A worker leaves the pool together with its job. -/
theorem jobs_erase_drop (h : l[i]?=some x) (hx : job x=some a) (hn : (jobs job l).Nodup) :
    (jobs job (l.eraseIdx i)).Nodup ∧ ∀b,b∈jobs job (l.eraseIdx i) ↔ b∈jobs job l ∧ b≠a := by
  obtain ⟨l₁,l₂,hl,_,he⟩ := split_at h
  have hold : jobs job l=l₁.filterMap job++a::l₂.filterMap job := by
    rw [hl]; simp [jobs,List.filterMap_append,hx]
  have hnew : jobs job (l.eraseIdx i)=l₁.filterMap job++l₂.filterMap job := by
    rw [he]; simp [jobs,List.filterMap_append]
  rw [hnew,hold]
  exact nodup_drop (hold ▸ hn)

theorem mem_jobs_of_getElem (h : l[i]?=some x) (hx : job x=some a) : a∈jobs job l :=
  List.mem_filterMap.mpr ⟨x,List.mem_of_getElem? h,hx⟩

theorem jobs_length_le (job : ω → Option α) (l : List ω) : (jobs job l).length≤l.length :=
  List.length_filterMap_le job l

end

end XiaoQing.Framework
