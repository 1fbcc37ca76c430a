import Mathlib.Algebra.BigOperators.Fin
import Mathlib.Data.Nat.Count
import Mathlib.Logic.Function.Basic
import Mathlib.Tactic.Common

namespace XiaoQing.Framework

open Function (update update_of_ne update_self)

variable {β : Type*}

/-- Number of the rows below `n` that satisfy `p`; rows are never removed from a table. -/
def tally (p : β → Bool) (f : Nat → β) (n : Nat) : Nat := Nat.count (fun i => p (f i)=true) n

@[simp] theorem tally_zero (p : β → Bool) (f : Nat → β) : tally p f 0=0 := by
  simp [tally]

theorem tally_succ (p : β → Bool) (f : Nat → β) (n : Nat) :
    tally p f (n+1)=tally p f n+(p (f n)).toNat := by
  rw [tally,Nat.count_succ]
  cases h : p (f n) <;> simp [tally]

theorem tally_congr (p : β → Bool) (f g : Nat → β) (n : Nat)
    (h : ∀i<n,p (f i)=p (g i)) : tally p f n=tally p g n := by
  induction n with
  | zero => simp
  | succ n ih =>
    rw [tally_succ,tally_succ,ih (fun i hi => h i (by omega)),h n (by omega)]

/-- Writing a row changes the count by that row alone. -/
theorem tally_update (p : β → Bool) (f : Nat → β) (n i : Nat) (a : β) (hi : i<n) :
    tally p (update f i a) n+(p (f i)).toNat=tally p f n+(p a).toNat := by
  induction n with
  | zero => omega
  | succ n ih =>
    rw [tally_succ,tally_succ]
    by_cases hn : i=n
    · subst i
      have hsame : tally p (update f n a) n=tally p f n := by
        apply tally_congr
        intro j hj
        rw [update_of_ne (by omega)]
      rw [hsame,update_self]
      omega
    · have hne : n≠i := by omega
      have h := ih (by omega)
      rw [update_of_ne hne]
      omega

theorem tally_push (p : β → Bool) (f : Nat → β) (n : Nat) (a : β) :
    tally p (update f n a) (n+1)=tally p f n+(p a).toNat := by
  rw [tally_succ,update_self]
  congr 1
  apply tally_congr
  intro j hj
  rw [update_of_ne (by omega)]

theorem tally_pos (p : β → Bool) (f : Nat → β) (n i : Nat) (hi : i<n) (hp : p (f i)=true) :
    0<tally p f n := by
  induction n with
  | zero => omega
  | succ n ih =>
    rw [tally_succ]
    by_cases hn : i=n
    · subst i; rw [hp]; simp
    · have := ih (by omega); omega

theorem tally_two (p : β → Bool) (f : Nat → β) (n i j : Nat) (hi : i<n) (hj : j<n) (hij : i≠j)
    (hpi : p (f i)=true) (hpj : p (f j)=true) : 2≤tally p f n := by
  induction n with
  | zero => omega
  | succ n ih =>
    rw [tally_succ]
    by_cases hin : i=n
    · subst i
      have hone := tally_pos p f n j (by omega) hpj
      rw [hpi]
      simp only [Bool.toNat_true]
      omega
    · by_cases hjn : j=n
      · subst j
        have hone := tally_pos p f n i (by omega) hpi
        rw [hpj]
        simp only [Bool.toNat_true]
        omega
      · have htwo := ih (by omega) (by omega)
        omega

theorem tally_eq_zero (p : β → Bool) (f : Nat → β) (n : Nat) :
    tally p f n=0 ↔ ∀i<n,p (f i)=false := by
  constructor
  · intro h i hi
    by_contra hp
    have := tally_pos p f n i hi (by simpa using hp)
    omega
  · intro h
    induction n with
    | zero => simp
    | succ n ih =>
      rw [tally_succ,ih (fun i hi => h i (by omega)),h n (by omega)]
      rfl

theorem tally_le (p q : β → Bool) (f : Nat → β) (n : Nat)
    (h : ∀i<n,p (f i)=true → q (f i)=true) : tally p f n≤tally q f n := by
  induction n with
  | zero => simp
  | succ n ih =>
    rw [tally_succ,tally_succ]
    have hn := ih (fun i hi => h i (by omega))
    have hlast := h n (by omega)
    cases hp : p (f n) with
    | false => simp; omega
    | true => rw [hlast hp]; simp; omega

/-- Two checks that exclude each other are counted separately. -/
theorem tally_add (p q r : β → Bool) (f : Nat → β) (n : Nat)
    (h : ∀a,(p a).toNat=(q a).toNat+(r a).toNat) : tally p f n=tally q f n+tally r f n := by
  induction n with
  | zero => simp
  | succ n ih =>
    rw [tally_succ,tally_succ,tally_succ,ih,h (f n)]
    omega

theorem tally_congr_check (p q : β → Bool) (f : Nat → β) (n : Nat) (h : ∀i<n,p (f i)=q (f i)) :
    tally p f n=tally q f n := by
  apply Nat.le_antisymm
  · exact tally_le p q f n fun i hi hp => (h i hi).symm.trans hp
  · exact tally_le q p f n fun i hi hq => (h i hi).trans hq

/-- A list that names every counted row once is as long as the count. -/
theorem tally_eq_length (p : β → Bool) (f : Nat → β) (n : Nat) (l : List Nat) (hn : l.Nodup)
    (hl : ∀i,i∈l ↔ i<n ∧ p (f i)=true) : tally p f n=l.length := by
  rw [tally,Nat.count_eq_card_filter_range,←List.toFinset_card_of_nodup hn]
  congr 1
  ext i
  simp [hl]

/-- Sum of the weights of the rows below `n`. -/
def sumBelow (w : β → Nat) (f : Nat → β) (n : Nat) : Nat := ∑ i∈Finset.range n,w (f i)

theorem sumBelow_update (w : β → Nat) (f : Nat → β) (n i : Nat) (a : β) (hi : i < n) :
    sumBelow w (update f i a) n+w (f i)=sumBelow w f n+w a := by
  have hmem : i∈Finset.range n := Finset.mem_range.mpr hi
  have hrest : ∑ j∈(Finset.range n).erase i,w (update f i a j)=
      ∑ j∈(Finset.range n).erase i,w (f j) := by
    apply Finset.sum_congr rfl
    intro j hj
    rw [update_of_ne (Finset.ne_of_mem_erase hj)]
  have hnew := Finset.sum_erase_add _ (fun j => w (update f i a j)) hmem
  have hold := Finset.sum_erase_add _ (fun j => w (f j)) hmem
  simp only [update_self] at hnew
  rw [sumBelow,sumBelow,←hnew,←hold,hrest]
  omega

end XiaoQing.Framework
