import Mathlib.Logic.Function.Basic
import Mathlib.Tactic.Common

namespace XiaoQing.Framework

/-! Readings of a store that is written meanwhile. The commits are numbered; `changes c k` says that
commit `c` changed what the key `k` names, `pending c k` that its writer has still to announce it. -/

variable {κ : Type*}

/-- A reading of `k` taken after commit `n` misses no commit that has been announced. -/
def Settled (now : Nat) (changes pending : Nat → κ → Prop) (k : κ) (n : Nat) : Prop :=
  ∀c,n < c → c ≤ now → changes c k → pending c k

section

variable {now n m : Nat} {changes changes' pending pending' : Nat → κ → Prop} {k : κ}

theorem Settled.current : Settled now changes pending k now := by
  intro c hn hc
  omega

theorem Settled.later (h : Settled now changes pending k n) (hm : n ≤ m) :
    Settled now changes pending k m := fun c hc => h c (by omega)

theorem Settled.announced {c : Nat} (h : Settled now changes pending k n) (hc : c ≤ now)
    (hk : changes c k) (hp : ¬pending c k) : c ≤ n := by
  by_contra hn
  exact hp (h c (by omega) hc hk)

/-- Announcements made of other keys leave a reading settled. -/
theorem Settled.keep (h : Settled now changes pending k n)
    (hp : ∀c,pending c k → pending' c k) : Settled now changes pending' k n :=
  fun c hn hc hk => hp c (h c hn hc hk)

/-- A commit that is still to be announced leaves every reading settled. -/
theorem Settled.commit (h : Settled now changes pending k n)
    (hold : ∀c,c ≤ now → changes' c k → changes c k) (hp : ∀c,c ≤ now → pending c k → pending' c k)
    (hnew : changes' (now+1) k → pending' (now+1) k) : Settled (now+1) changes' pending' k n := by
  intro c hn hc hk
  by_cases hcur : c ≤ now
  · exact hp c hcur (h c hn hcur (hold c hcur hk))
  · have heq : c=now+1 := by omega
    subst heq
    exact hnew hk

end

/-- A stamp drawn earlier from a counter that only grows, and what holds while it has not moved. -/
def Stamped (counter stamp : Nat) (P : Prop) : Prop := stamp ≤ counter ∧ (stamp=counter → P)

section

variable {counter stamp : Nat} {P Q : Prop}

theorem Stamped.imp (h : Stamped counter stamp P) (hPQ : P → Q) : Stamped counter stamp Q :=
  ⟨h.1,fun he => hPQ (h.2 he)⟩

theorem Stamped.bump (h : stamp ≤ counter) : Stamped (counter+1) stamp P :=
  ⟨by omega,fun he => by omega⟩

end

end XiaoQing.Framework
