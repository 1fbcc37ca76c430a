import Mathlib.Algebra.Order.Floor.Ring
import Mathlib.Data.Rat.Floor
import Mathlib.Tactic.Linarith
import Mathlib.Tactic.Ring

namespace XiaoQing.Framework

section

/-! Whole numbers charged with the rest carried on -/

/-- `int` of a number. -/
def truncate (q : ℚ) : ℤ := if 0≤q then ⌊q⌋ else ⌈q⌉

/-- What of an amount is charged, allowing for a tolerance, and what is carried on. -/
def carry (tolerance amount : ℚ) : ℤ×ℚ :=
  let whole := truncate (amount+tolerance)
  (whole,max 0 (amount-whole))

variable {ε amount owed x r r' : ℚ} {d d' : ℤ} {n n' : ℕ}

theorem truncate_of_nonneg (h : 0≤x) : truncate x=⌊x⌋ := if_pos h

/-- What `n` charges have taken of what was owed, and what is carried on: they are never short of it and
exceed it by a tolerance each, for which each has charged something. -/
structure Carried (ε : ℚ) (n : ℕ) (owed : ℚ) (d : ℤ) (r : ℚ) : Prop where
  charged : 0≤d
  rest : 0≤r∧r < 1
  covers : owed≤d+r
  exceeds : d+r≤owed+n*ε
  tolerated : d+r≤owed+d*ε

theorem Carried.start (h : 0≤r∧r < 1) : Carried ε 0 r 0 r := by
  refine ⟨le_rfl,h,?_,?_,?_⟩
  all_goals simp

theorem Carried.idle (h : Carried ε n owed d r) (hε : 0≤ε) : Carried ε (n+1) owed d r := by
  refine ⟨h.charged,h.rest,h.covers,?_,h.tolerated⟩
  have hexceeds := h.exceeds
  push_cast
  linarith

theorem carry_spec (hε : 0≤ε) (hone : ε < 1) (hx : 0≤x) :
    0≤(carry ε x).1∧(0≤(carry ε x).2∧(carry ε x).2 < 1)∧x≤(carry ε x).1+(carry ε x).2∧
      (carry ε x).1+(carry ε x).2≤x+ε∧((carry ε x).1=0 → (carry ε x).2=x) := by
  have hsum : 0≤x+ε := by linarith
  have hwhole : (carry ε x).1=⌊x+ε⌋ := truncate_of_nonneg hsum
  have hrest : (carry ε x).2=max 0 (x-⌊x+ε⌋) := by
    unfold carry
    rw [truncate_of_nonneg hsum]
  have hlow : (⌊x+ε⌋ : ℚ)≤x+ε := Int.floor_le _
  have hhigh : x+ε < ⌊x+ε⌋+1 := Int.lt_floor_add_one _
  rw [hwhole,hrest]
  refine ⟨Int.floor_nonneg.mpr hsum,⟨le_max_left _ _,max_lt one_pos (by linarith)⟩,?_,?_,fun hzero => ?_⟩
  · have hle := le_max_right 0 (x-(⌊x+ε⌋ : ℚ))
    linarith
  · have hle : max 0 (x-(⌊x+ε⌋ : ℚ))≤x+ε-⌊x+ε⌋ := max_le (by linarith) (by linarith)
    linarith
  · rw [hzero,Int.cast_zero,sub_zero]
    exact max_eq_right hx

theorem Carried.charge (h : Carried ε n owed d r) (hε : 0≤ε) (hone : ε < 1) (hx : 0≤x) :
    Carried ε (n+1) (owed+x) (d+(carry ε (r+x)).1) (carry ε (r+x)).2 := by
  obtain ⟨hd,hrest,hcovers,hexceeds,hzero⟩ := carry_spec hε hone (add_nonneg h.rest.1 hx)
  generalize hpart : carry ε (r+x)=part at hd hrest hcovers hexceeds hzero ⊢
  have hc := h.covers
  have he := h.exceeds
  have ht := h.tolerated
  refine ⟨add_nonneg h.charged hd,hrest,?_,?_,?_⟩
  · push_cast
    linarith
  · push_cast
    linarith
  · rcases hd.eq_or_lt with hnone | hsome
    · have hrest := hzero hnone.symm
      rw [← hnone,hrest]
      push_cast
      linarith
    · have hfirst : (1 : ℚ)≤part.1 := by exact_mod_cast hsome
      have htolerance : ε≤part.1*ε := le_mul_of_one_le_left hε hfirst
      push_cast
      linarith

/-- What is left of a stock that may not fall below nothing. -/
def leftOf (stock d : ℤ) : ℤ := max 0 (stock-d)

theorem leftOf_leftOf {stock : ℤ} (h : 0≤d') : leftOf (leftOf stock d) d'=leftOf stock (d+d') := by
  unfold leftOf
  omega

/-- However often the same amount is charged for, a bounded stock is left the same up to one. -/
theorem Carried.leftOf_le {stock cap : ℤ} (h : Carried ε n owed d r) (h' : Carried ε n' owed d' r')
    (hε : 0 < ε) (hnonneg : 0≤cap) (hcap : ε*(cap+2)≤1) (hstock : stock≤cap) : leftOf stock d≤leftOf stock d'+1 := by
  have hbound : (d' : ℚ)-d < d'*ε+1 := by
    have hcovers := h.covers
    have htolerated := h'.tolerated
    have hr := h.rest.2
    have hr' := h'.rest.1
    linarith
  by_cases hsmall : (d' : ℚ)*ε≤1
  · have hlt : (d' : ℚ)-d < 2 := by linarith
    have hle : d'-d < 2 := by exact_mod_cast hlt
    unfold leftOf
    omega
  · -- With so much charged nothing is left either way.
    have hcovers := h.covers
    have htolerated := h'.tolerated
    have hr := h.rest.2
    have hr' := h'.rest.1
    have hbig : (cap : ℚ)+2 < d' := by
      by_contra hle
      have hmul := mul_le_mul_of_nonneg_left (not_lt.mp hle) hε.le
      linarith [mul_comm ε (d' : ℚ)]
    have hzero : (0 : ℚ)≤cap := by exact_mod_cast hnonneg
    have hunit : ε≤1 := by nlinarith
    have hscale : ((cap : ℚ)+2)*(1-ε)≤d'*(1-ε) := mul_le_mul_of_nonneg_right hbig.le (by linarith)
    have hlow : (cap : ℚ) < d := by nlinarith
    have hd : cap < d := by exact_mod_cast hlow
    unfold leftOf
    omega

end

end XiaoQing.Framework
