import Mathlib.Data.List.Basic
import Mathlib.Tactic.Common

namespace XiaoQing.Framework

variable {α : Type*} {m : List α → Option Nat} {s t u : List α} {a : α} {n : Nat}

/-- The matches of a pattern from left to right, and what stands between them; `m` says how much
follows the first element of a match that begins here. -/
def scan (m : List α → Option Nat) : Nat → List α → List (α ⊕ List α)
  | _,[] => []
  | n+1,_::t => scan m n t
  | 0,a::t =>
    match m (a::t) with
    | none => .inl a::scan m 0 t
    | some n => .inr ((a::t).take (n+1))::scan m n t

theorem scan_of_none (h : m (a::t)=none) : scan m 0 (a::t)=.inl a::scan m 0 t := by
  simp only [scan,h]

theorem scan_of_some (h : m (a::t)=some n) : scan m 0 (a::t)=.inr ((a::t).take (n+1))::scan m n t := by
  simp only [scan,h]

/-- No match that begins before `u` reaches into it. -/
def Apart (m : List α → Option Nat) (u : List α) : Prop := ∀s≠[],m (s++u)=m s

def Bounded (m : List α → Option Nat) : Prop := ∀t n,m t=some n → n < t.length

theorem Apart.nil (m : List α → Option Nat) : Apart m [] := by
  intro s _
  rw [List.append_nil]

theorem scan_append (hb : Bounded m) (h : Apart m u) :
    ∀n t,n ≤ t.length → scan m n (t++u)=scan m n t++scan m 0 u := by
  intro n t
  induction t generalizing n with
  | nil =>
    intro hn
    rw [Nat.le_zero.mp hn]
    rfl
  | cons a t ih =>
    intro hn
    cases n with
    | succ n => exact ih n (Nat.le_of_succ_le_succ hn)
    | zero =>
      have hm := h (a::t) (List.cons_ne_nil _ _)
      rw [List.cons_append] at hm
      cases hat : m (a::t) with
      | none =>
        rw [List.cons_append,scan_of_none (hm.trans hat),scan_of_none hat,ih 0 (Nat.zero_le _),
          List.cons_append]
      | some n =>
        have hlt := hb _ _ hat
        have htake : (a::(t++u)).take (n+1)=(a::t).take (n+1) := by
          rw [← List.cons_append,List.take_append_of_le_length (by omega)]
        rw [List.cons_append,scan_of_some (hm.trans hat),scan_of_some hat,htake,
          ih n (by simp at hlt; omega),List.cons_append]

def Unmatched (m : List α → Option Nat) (t : List α) : Prop := ∀a∈scan m 0 t,a.isLeft=true

theorem Unmatched.append (hb : Bounded m) (h : Apart m u) : Unmatched m (t++u)↔Unmatched m t∧Unmatched m u := by
  unfold Unmatched
  rw [scan_append hb h 0 t (Nat.zero_le _)]
  constructor
  · intro hall
    exact ⟨fun a ha => hall a (List.mem_append_left _ ha),fun a ha => hall a (List.mem_append_right _ ha)⟩
  · rintro ⟨ht,hu⟩ a ha
    rcases List.mem_append.mp ha with ha | ha
    · exact ht a ha
    · exact hu a ha

theorem Unmatched.cons (h : m (a::t)=none) : Unmatched m (a::t)↔Unmatched m t := by
  unfold Unmatched
  rw [scan_of_none h]
  constructor
  · intro hall b hb
    exact hall b (List.mem_cons_of_mem _ hb)
  · intro hall b hb
    rcases List.mem_cons.mp hb with rfl | hb
    · rfl
    · exact hall b hb

end XiaoQing.Framework
