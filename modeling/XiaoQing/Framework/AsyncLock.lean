import Mathlib.Data.List.Nodup
import Mathlib.Tactic.Common

namespace XiaoQing.Framework

/-! A lock for tasks that take turns: a waiter leaves the queue when it resumes, not when it is
woken, so that a lock which is free may have a task on its way to it. -/

/-- The future of a waiter. -/
inductive Signal
  | pending
  | result
  | cancelled
  deriving DecidableEq

/-- `asyncio.Lock`; a waiter is named by the call that waits. -/
structure AsyncLock (ι : Type*) where
  locked : Bool
  waiters : List (ι × Signal)

namespace AsyncLock

variable {ι : Type*}

def new : AsyncLock ι := ⟨false,[]⟩

def ids (l : AsyncLock ι) : List ι := l.waiters.map Prod.fst

/-- `_wake_up_first`. -/
def wakeFirst (l : AsyncLock ι) : AsyncLock ι :=
  match l.waiters with
  | (i,.pending)::rest => {l with waiters := (i,.result)::rest}
  | _ => l

/-- `acquire` goes ahead without waiting. -/
def free (l : AsyncLock ι) : Bool := !l.locked && l.waiters.all fun w => w.2=.cancelled

def take (l : AsyncLock ι) : AsyncLock ι := {l with locked := true}

/-- `acquire` comes to its `await`. -/
def enqueue (l : AsyncLock ι) (i : ι) : AsyncLock ι := {l with waiters := l.waiters++[(i,.pending)]}

/-- `release`; `none` where it raises. -/
def release (l : AsyncLock ι) : Option (AsyncLock ι) :=
  if l.locked then some (wakeFirst {l with locked := false}) else none

variable [DecidableEq ι]

def signal (l : AsyncLock ι) (i : ι) : Option Signal :=
  (l.waiters.find? fun w => w.1=i).map Prod.snd

def cancel (l : AsyncLock ι) (i : ι) : AsyncLock ι :=
  {l with waiters := l.waiters.map fun w => if w=(i,.pending) then (i,.cancelled) else w}

def remove (l : AsyncLock ι) (i : ι) : AsyncLock ι :=
  {l with waiters := l.waiters.filter fun w => w.1≠i}

/-- `acquire` after a cancelled wait. -/
def leave (l : AsyncLock ι) (i : ι) : AsyncLock ι :=
  if l.locked then l.remove i else (l.remove i).wakeFirst

/-- `acquire` after its future got a result. -/
def enter (l : AsyncLock ι) (i : ι) : AsyncLock ι := (l.remove i).take

end AsyncLock

open AsyncLock

variable {ι : Type*}

/-- At most one call is on its way to the lock: the lock is free then, and it is the first in the
queue. The first call of the queue of a free lock has been woken. -/
structure AsyncLock.Fair (l : AsyncLock ι) : Prop where
  nodup : l.ids.Nodup
  granted : ∀i,(i,.result)∈l.waiters → l.locked=false∧l.waiters.head?=some (i,.result)
  awake : l.locked=false → ∀w,l.waiters.head?=some w → w.2≠.pending

section

variable {l : AsyncLock ι} {i j : ι} {m : AsyncLock ι}

theorem AsyncLock.Fair.new : (new : AsyncLock ι).Fair := ⟨.nil,nofun,nofun⟩

@[simp] theorem ids_wakeFirst : l.wakeFirst.ids=l.ids := by
  unfold wakeFirst
  split
  · rename_i hl
    simp [ids,hl]
  · rfl

@[simp] theorem locked_wakeFirst : l.wakeFirst.locked=l.locked := by
  unfold wakeFirst
  split <;> rfl

/-- Waking repairs a lock whose queue was in order but for its first call. -/
theorem fair_wakeFirst (hn : l.ids.Nodup) (hl : l.locked=false)
    (hg : ∀i,(i,.result)∈l.waiters → l.waiters.head?=some (i,.result)) : l.wakeFirst.Fair := by
  refine ⟨by rw [ids_wakeFirst]; exact hn,fun i hi => ⟨by rw [locked_wakeFirst,hl],?_⟩,fun _ w hw => ?_⟩
  · unfold wakeFirst at hi ⊢
    split at hi
    · rename_i j rest hq
      rcases List.mem_cons.mp hi with he | hrest
      · rw [List.head?_cons,he]
      · have hhead := hg i (by rw [hq]; exact List.mem_cons_of_mem _ hrest)
        rw [hq,List.head?_cons] at hhead
        cases hhead
    · exact hg i hi
  · unfold wakeFirst at hw
    split at hw
    · cases hw
      exact nofun
    · rename_i hnot
      intro hp
      obtain ⟨j,p⟩ := w
      obtain rfl : p=.pending := hp
      cases hq : l.waiters with
      | nil =>
        rw [hq] at hw
        cases hw
      | cons first rest =>
        rw [hq,List.head?_cons,Option.some.injEq] at hw
        exact hnot j rest (by rw [hq,hw])

theorem mem_ids_enqueue : j∈(l.enqueue i).ids ↔ j∈l.ids∨j=i := by
  simp [ids,enqueue]

theorem locked_of_free (h : l.free=true) : l.locked=false := by
  unfold free at h
  simp only [Bool.and_eq_true,Bool.not_eq_true'] at h
  exact h.1

theorem AsyncLock.Fair.take (h : l.Fair) (hf : l.free=true) : l.take.Fair := by
  simp only [free,Bool.and_eq_true,List.all_eq_true,decide_eq_true_eq] at hf
  refine ⟨h.nodup,fun i hi => ?_,nofun⟩
  have hc : Signal.result=.cancelled := hf.2 _ hi
  cases hc

theorem AsyncLock.Fair.enqueue (h : l.Fair) (hi : i∉l.ids) (hf : l.free=false) : (l.enqueue i).Fair := by
  -- a free lock with an empty queue is taken at once
  have hhead : ∀w,(l.enqueue i).waiters.head?=some w → l.locked=false → l.waiters.head?=some w := by
    intro w hw hl
    cases hq : l.waiters with
    | nil =>
      simp [free,hl,hq] at hf
    | cons first rest =>
      simp only [AsyncLock.enqueue,hq,List.cons_append,List.head?_cons] at hw ⊢
      exact hw
  refine ⟨?_,fun j hj => ?_,fun hl w hw => h.awake hl w (hhead w hw hl)⟩
  · simp only [ids,AsyncLock.enqueue,List.map_append,List.map_singleton]
    refine List.nodup_append.mpr ⟨h.nodup,List.nodup_singleton _,fun a ha b hb => ?_⟩
    rw [List.mem_singleton.mp hb]
    rintro rfl
    exact hi ha
  · rcases List.mem_append.mp hj with hold | hnew
    · obtain ⟨hl,hfirst⟩ := h.granted j hold
      refine ⟨hl,?_⟩
      simp only [AsyncLock.enqueue,List.head?_append,hfirst,Option.some_or]
    · cases List.mem_singleton.mp hnew

theorem AsyncLock.Fair.release (h : l.Fair) (hr : l.release=some m) :
    m.Fair∧m.ids=l.ids∧m.locked=false := by
  unfold AsyncLock.release at hr
  split at hr
  · rename_i hl
    cases hr
    refine ⟨fair_wakeFirst h.nodup rfl fun i hi => ?_,ids_wakeFirst,locked_wakeFirst⟩
    rw [(h.granted i hi).1] at hl
    cases hl
  · cases hr

variable [DecidableEq ι]

@[simp] theorem ids_cancel : (l.cancel i).ids=l.ids := by
  simp only [ids,cancel,List.map_map]
  apply List.map_congr_left
  intro w _
  simp only [Function.comp]
  split
  · rename_i hw
    rw [hw]
  · rfl

theorem AsyncLock.Fair.cancel (h : l.Fair) : (l.cancel i).Fair := by
  refine ⟨by rw [ids_cancel]; exact h.nodup,fun j hj => ?_,fun hl w hw => ?_⟩
  · obtain ⟨w,hw,he⟩ := List.mem_map.mp hj
    split at he
    · cases he
    · subst he
      obtain ⟨hl,hfirst⟩ := h.granted j hw
      refine ⟨hl,?_⟩
      simp [AsyncLock.cancel,hfirst]
  · simp only [AsyncLock.cancel,List.head?_map,Option.map_eq_some_iff] at hw
    obtain ⟨v,hv,rfl⟩ := hw
    split
    · exact nofun
    · exact h.awake hl v hv

theorem mem_ids_remove : j∈(l.remove i).ids ↔ j∈l.ids∧j≠i := by
  simp only [ids,remove,List.mem_map,List.mem_filter,decide_eq_true_eq]
  constructor
  · rintro ⟨w,⟨hw,hne⟩,rfl⟩
    exact ⟨⟨w,hw,rfl⟩,hne⟩
  · rintro ⟨⟨w,hw,rfl⟩,hne⟩
    exact ⟨w,⟨hw,hne⟩,rfl⟩

theorem AsyncLock.Fair.remove_granted (h : l.Fair) (hj : (j,.result)∈(l.remove i).waiters) :
    l.locked=false∧(l.remove i).waiters.head?=some (j,.result) := by
  simp only [AsyncLock.remove,List.mem_filter,decide_eq_true_eq] at hj
  obtain ⟨hl,hfirst⟩ := h.granted j hj.1
  refine ⟨hl,?_⟩
  obtain ⟨rest,hq⟩ := List.head?_eq_some_iff.mp hfirst
  simp [AsyncLock.remove,hq,hj.2]

theorem AsyncLock.Fair.remove_nodup (h : l.Fair) : (l.remove i).ids.Nodup :=
  h.nodup.sublist (List.filter_sublist.map Prod.fst)

theorem AsyncLock.Fair.leave (h : l.Fair) : (l.leave i).Fair := by
  unfold AsyncLock.leave
  split
  · rename_i hl
    refine ⟨h.remove_nodup,fun j hj => h.remove_granted hj,fun hf => ?_⟩
    have hf : l.locked=false := hf
    rw [hf] at hl
    cases hl
  · rename_i hl
    apply fair_wakeFirst h.remove_nodup (by simpa [AsyncLock.remove] using hl)
    intro j hj
    exact (h.remove_granted hj).2

theorem mem_ids_leave : j∈(l.leave i).ids ↔ j∈l.ids∧j≠i := by
  unfold AsyncLock.leave
  split
  · exact mem_ids_remove
  · rw [ids_wakeFirst]
    exact mem_ids_remove

theorem locked_leave : (l.leave i).locked=l.locked := by
  unfold AsyncLock.leave
  split
  · rfl
  · rw [locked_wakeFirst]
    rfl

theorem signal_mem {p : Signal} (h : l.signal i=some p) : (i,p)∈l.waiters := by
  unfold signal at h
  obtain ⟨w,hw,rfl⟩ := Option.map_eq_some_iff.mp h
  have hi : w.1=i := by simpa using List.find?_some hw
  rw [← hi]
  exact List.mem_of_find?_eq_some hw

theorem mem_ids_enter : j∈(l.enter i).ids ↔ j∈l.ids∧j≠i := mem_ids_remove

/-- The call on its way takes the lock, and no other one is on its way then. -/
theorem AsyncLock.Fair.enter (h : l.Fair) (hi : l.signal i=some .result) :
    (l.enter i).Fair∧l.locked=false := by
  obtain ⟨hl,hfirst⟩ := h.granted i (signal_mem hi)
  refine ⟨⟨h.remove_nodup,fun j hj => ?_,nofun⟩,hl⟩
  have hmem : (j,.result)∈l.waiters∧j≠i := by
    simpa [AsyncLock.enter,AsyncLock.take,AsyncLock.remove] using hj
  have hother := (h.granted j hmem.1).2
  rw [hfirst] at hother
  cases hother
  exact absurd rfl hmem.2

end

end XiaoQing.Framework
