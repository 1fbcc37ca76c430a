import Mathlib.Data.List.Basic
import Mathlib.Logic.Relation
import Mathlib.Tactic.Common

namespace XiaoQing.Framework

instance lawfulBEqText : LawfulBEq (List Char) := inferInstance

section

variable {σ α : Type*}

/-- Execute a schedule; a disabled step rejects the whole schedule. -/
def execute (step : σ → α → Option σ) : σ → List α → Option σ
  | s,[] => some s
  | s,a::as => (step s a).bind (fun t => execute step t as)

/-- Execute a schedule whose steps must all pass a check. -/
def executeIf (step : σ → α → Option σ) (ok : σ → α → Bool) : σ → List α → Option σ
  | s,[] => some s
  | s,a::as => if ok s a then (step s a).bind (fun t => executeIf step ok t as) else none

/-- States of the runs in which every step taken satisfies `ok`. -/
inductive Reach (step : σ → α → Option σ) (ok : σ → α → Prop) (init : σ → Prop) : σ → Prop
  | start {s} : init s → Reach step ok init s
  | next {s t} (a : α) : Reach step ok init s → ok s a → step s a=some t →
      Reach step ok init t

/-- No condition on the steps: every interleaving the system admits. -/
abbrev Free (_ : σ) (_ : α) : Prop := True

section

variable {step : σ → α → Option σ} {ok : σ → α → Prop} {init : σ → Prop}

variable {P : σ → Prop}

/-- The invariant rule: what holds at the start and is kept by one step holds in every run. -/
theorem Reach.invariant (h0 : ∀s,init s → P s)
    (hs : ∀s a t,P s → ok s a → step s a=some t → P t) {s : σ}
    (h : Reach step ok init s) : P s := by
  induction h with
  | start hi => exact h0 _ hi
  | next a _ ha hstep ih => exact hs _ a _ ih ha hstep

/-- A second invariant may lean on one already established. -/
theorem Reach.invariant_under {P Q : σ → Prop} (hP : ∀s,Reach step ok init s → P s)
    (h0 : ∀s,init s → Q s)
    (hs : ∀s a t,P s → Q s → ok s a → step s a=some t → Q t) {s : σ}
    (h : Reach step ok init s) : Q s := by
  induction h with
  | start hi => exact h0 _ hi
  | next a hr ha hstep ih => exact hs _ a _ (hP _ hr) ih ha hstep

theorem Reach.weaken {ok' : σ → α → Prop} (hok : ∀s a,ok s a → ok' s a) {s : σ}
    (h : Reach step ok init s) : Reach step ok' init s := by
  induction h with
  | start hi => exact .start hi
  | next a _ ha hstep ih => exact .next a ih (hok _ _ ha) hstep

/-- A schedule whose actions are acceptable everywhere stays inside the reachable states. -/
theorem Reach.execute {s t : σ} (as : List α) (hok : ∀a∈as,∀u,ok u a) (h : Reach step ok init s)
    (he : execute step s as=some t) : Reach step ok init t := by
  induction as generalizing s with
  | nil =>
    simp only [Framework.execute,Option.some.injEq] at he
    exact he ▸ h
  | cons a as ih =>
    obtain ⟨u,hu,hrest⟩ := Option.bind_eq_some_iff.mp he
    exact ih (fun b hb => hok b (List.mem_cons_of_mem a hb)) (.next a h (hok a (by simp) s) hu) hrest

theorem Reach.executeIf {check : σ → α → Bool} {s t : σ} (as : List α)
    (h : Reach step (fun s a => check s a=true) init s) (he : executeIf step check s as=some t) :
    Reach step (fun s a => check s a=true) init t := by
  induction as generalizing s with
  | nil =>
    simp only [Framework.executeIf,Option.some.injEq] at he
    exact he ▸ h
  | cons a as ih =>
    unfold Framework.executeIf at he
    split at he
    · obtain ⟨u,hu,hrest⟩ := Option.bind_eq_some_iff.mp he
      exact ih (.next a h ‹_› hu) hrest
    · cases he

/-- A schedule is no longer than what its actions use up. -/
theorem length_le_of_decreasing {ok : α → Prop} (measure : σ → Nat)
    (hP : ∀s a t,P s → step s a=some t → P t)
    (hs : ∀s a t,P s → ok a → step s a=some t → measure t < measure s) {s t : σ} (as : List α)
    (hok : ∀a∈as,ok a) (h : P s) (he : execute step s as=some t) : as.length ≤ measure s := by
  induction as generalizing s with
  | nil => exact Nat.zero_le _
  | cons a as ih =>
    obtain ⟨u,hu,hrest⟩ := Option.bind_eq_some_iff.mp he
    have hless := hs s a u h (hok a (by simp)) hu
    have htail := ih (fun b hb => hok b (List.mem_cons_of_mem a hb)) (hP s a u h hu) hrest
    rw [List.length_cons]
    omega

theorem execute_keeps (hs : ∀s a t,P s → step s a=some t → P t) {s t : σ} (as : List α)
    (h : P s) (he : execute step s as=some t) : P t := by
  induction as generalizing s with
  | nil =>
    simp only [Framework.execute,Option.some.injEq] at he
    exact he ▸ h
  | cons a as ih =>
    obtain ⟨u,hu,hrest⟩ := Option.bind_eq_some_iff.mp he
    exact ih (hs s a u h hu) hrest

theorem execute_append (s : σ) (as bs : List α) :
    execute step s (as++bs)=(execute step s as).bind fun t => execute step t bs := by
  induction as generalizing s with
  | nil => rfl
  | cons a as ih =>
    simp only [List.cons_append,Framework.execute,Option.bind_assoc]
    congr 1
    funext t
    exact ih t

/-- The refinement rule: what one step does to a state it does to what the state stands for. -/
theorem execute_refines {β : Type*} {R : σ → β → Prop} (effect : β → α → β)
    (hs : ∀s b a t,R s b → step s a=some t → R t (effect b a)) {s t : σ} {b : β} (as : List α)
    (h : R s b) (he : execute step s as=some t) : R t (as.foldl effect b) := by
  induction as generalizing s b with
  | nil =>
    simp only [Framework.execute,Option.some.injEq] at he
    exact he ▸ h
  | cons a as ih =>
    obtain ⟨u,hu,hrest⟩ := Option.bind_eq_some_iff.mp he
    exact ih (hs s b a u h hu) hrest

end

end

section

variable {σ β : Type*}

/-- A `while` loop: each step goes on with a smaller state or ends with a result. -/
def loop (step : σ → σ ⊕ β) (size : σ → Nat) (h : ∀s t,step s=.inl t → size t < size s) (s : σ) : β :=
  match _hs : step s with
  | .inl t => loop step size h t
  | .inr b => b
termination_by size s
decreasing_by exact h s t _hs

def Leads (step : σ → σ ⊕ β) : σ → σ → Prop := Relation.ReflTransGen (fun s t => step s=.inl t)

section

variable {step : σ → σ ⊕ β} {size : σ → Nat} {h : ∀s t,step s=.inl t → size t < size s} {s t : σ}
  {b : β}

theorem loop_inl (hs : step s=.inl t) : loop step size h s=loop step size h t := by
  rw [loop]
  split
  · rename_i u hu
    rw [hs] at hu
    cases hu
    rfl
  · rename_i hu
    rw [hs] at hu
    cases hu

theorem loop_inr (hs : step s=.inr b) : loop step size h s=b := by
  rw [loop]
  split
  · rename_i hu
    rw [hs] at hu
    cases hu
  · rename_i hu
    rw [hs] at hu
    cases hu
    rfl

theorem Leads.single (hs : step s=.inl t) : Leads step s t := Relation.ReflTransGen.single hs

theorem Leads.loop_eq (hs : Leads step s t) : loop step size h s=loop step size h t := by
  induction hs with
  | refl => rfl
  | tail _ hstep ih => rw [ih,loop_inl hstep]

/-- The rule of the loop: what holds where it ends, and comes back along one step, holds of every
state and its result. -/
theorem loop_induction {P : σ → β → Prop} (hend : ∀s b,step s=.inr b → P s b)
    (hstep : ∀s t b,step s=.inl t → P t b → P s b) (s : σ) : P s (loop step size h s) := by
  induction hn : size s using Nat.strongRecOn generalizing s with
  | ind n ih =>
    cases hs : step s with
    | inl t =>
      rw [loop_inl hs]
      exact hstep s t _ hs (ih (size t) (hn ▸ h s t hs) t rfl)
    | inr b =>
      rw [loop_inr hs]
      exact hend s b hs

end

end

end XiaoQing.Framework
