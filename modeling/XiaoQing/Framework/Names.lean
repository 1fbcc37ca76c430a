import Mathlib.Data.List.Induction
import Mathlib.Data.List.Nodup
import Mathlib.Data.List.Perm.Subperm
import Mathlib.Tactic.Common

namespace XiaoQing.Framework

variable {ι α : Type*} [DecidableEq α]

/-- The name given at a place: its own one, if it has one that is not used yet, or else one made from
the place and the number of names used. -/
def pickName (g : ι → Nat → α) (used : List α) (r : ι × Option α) : α :=
  match r.2 with
  | some a => if a∈used then g r.1 used.length else a
  | none => g r.1 used.length

/-- The names given so far and the set of those in use. -/
def nameStep (g : ι → Nat → α) (s : List α × List α) (r : ι × Option α) : List α × List α :=
  (s.1++[pickName g s.2 r],s.2.insert (pickName g s.2 r))

def naming (g : ι → Nat → α) (l : List (ι × Option α)) : List α × List α :=
  l.foldl (nameStep g) ([],[])

def owns (l : List (ι × Option α)) : List α := l.filterMap Prod.snd

/-- The place has no name of its own, or one that stands before. -/
def Wants (before : List (ι × Option α)) (r : ι × Option α) : Prop := ∀a,r.2=some a → a∈owns before

/-- A name that stands for the first time is kept. -/
def KeepsOwn (g : ι → Nat → α) (l : List (ι × Option α)) : Prop :=
  ∀before i a after,l=before++(i,some a)::after → a∉owns before →
    (naming g l).1[before.length]?=some a

/-- No place has for its own the name that is made for a place that wants one. -/
def Unforged (g : ι → Nat → α) (l : List (ι × Option α)) : Prop :=
  ∀before r after,l=before++r::after → Wants before r → g r.1 before.length∉owns l

section

variable {g : ι → Nat → α} {l m before after : List (ι × Option α)} {r : ι × Option α} {a : α} {i : ι}

theorem naming_snoc (l : List (ι × Option α)) (r : ι × Option α) :
    naming g (l++[r])=nameStep g (naming g l) r := List.foldl_concat ..

theorem length_naming (l : List (ι × Option α)) : (naming g l).1.length=l.length := by
  induction l using List.reverseRecOn with
  | nil => rfl
  | append_singleton l r ih =>
    rw [naming_snoc]
    simp [nameStep,ih]

omit [DecidableEq α] in
theorem owns_append (l m : List (ι × Option α)) : owns (l++m)=owns l++owns m :=
  List.filterMap_append

omit [DecidableEq α] in
theorem mem_owns : a∈owns l↔∃i,(i,some a)∈l := by
  unfold owns
  simp [List.mem_filterMap]

omit [DecidableEq α] in
/-- The place at which a name stands for the first time. -/
theorem exists_first (h : a∈owns l) : ∃before i after,l=before++(i,some a)::after∧a∉owns before := by
  induction l using List.reverseRecOn with
  | nil => cases h
  | append_singleton l r ih =>
    by_cases hin : a∈owns l
    · obtain ⟨before,i,after,rfl,hfirst⟩ := ih hin
      exact ⟨before,i,after++[r],by simp,hfirst⟩
    · rw [owns_append,List.mem_append] at h
      have hr := h.resolve_left hin
      obtain ⟨i,hi⟩ := mem_owns.mp hr
      exact ⟨l,i,[],by rw [List.mem_singleton.mp hi],hin⟩

theorem naming_append (l m : List (ι × Option α)) : ∃t,(naming g (l++m)).1=(naming g l).1++t := by
  induction m using List.reverseRecOn with
  | nil => exact ⟨[],by simp⟩
  | append_singleton m r ih =>
    obtain ⟨t,ht⟩ := ih
    rw [← List.append_assoc,naming_snoc]
    refine ⟨t++[pickName g (naming g (l++m)).2 r],?_⟩
    unfold nameStep
    rw [ht,List.append_assoc]

theorem getElem?_naming (l m : List (ι × Option α)) (k : Nat) (hk : k < l.length) :
    (naming g (l++m)).1[k]?=(naming g l).1[k]? := by
  obtain ⟨t,ht⟩ := naming_append (g:=g) l m
  rw [ht]
  exact List.getElem?_append_left (by rw [length_naming]; exact hk)

theorem KeepsOwn.shorten (h : KeepsOwn g (l++m)) : KeepsOwn g l := by
  intro before i a after hl hfirst
  have hkept := h before i a (after++m) (by rw [hl]; simp) hfirst
  rw [getElem?_naming l m _ (by rw [hl]; simp)] at hkept
  exact hkept

omit [DecidableEq α] in
theorem Unforged.shorten (h : Unforged g (l++m)) : Unforged g l := by
  intro before r after hl hw hin
  have hnot := h before r (after++m) (by rw [hl]; simp) hw
  rw [owns_append] at hnot
  exact hnot (List.mem_append_left _ hin)

theorem KeepsOwn.mem (h : KeepsOwn g l) (ha : a∈owns l) : a∈(naming g l).1 := by
  obtain ⟨before,i,after,hl,hfirst⟩ := exists_first ha
  exact List.mem_of_getElem? (h before i a after hl hfirst)

end

end XiaoQing.Framework
