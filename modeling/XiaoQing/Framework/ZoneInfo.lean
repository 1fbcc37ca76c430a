import XiaoQing.Framework.IsoTime
import Mathlib.Order.Monotone.Basic

/-! Time zones as sequences of offset transitions, and the local times they show -/

namespace XiaoQing.Framework

/-- What a zone answers from one transition to the next: seconds from UTC, and the daylight saving part. -/
structure Ttinfo where
  utcoff : Int
  dstoff : Int
  bound : -86400<utcoff ∧ utcoff<86400
  deriving DecidableEq

/-- A time zone: the answer before the first transition, and the transitions in seconds since 1970. A
recurring rule counts as the transitions that it gives. -/
structure Zone where
  before : Ttinfo
  transitions : List (Int × Ttinfo)
  ascending : transitions.Pairwise (fun s t => s.1<t.1)

/-- Turns of the loop of `bisect_right`. -/
def bisectLoop (a : List Int) (x : Int) : Nat → Nat → Nat → Nat
  | 0,lo,_ => lo
  | k+1,lo,hi =>
    if lo<hi then
      if x<a.getD ((lo+hi)/2) 0 then bisectLoop a x k lo ((lo+hi)/2) else bisectLoop a x k ((lo+hi)/2+1) hi
    else lo

/-- `bisect_right`; each turn narrows the search. -/
def bisectRight (a : List Int) (x : Int) : Nat := bisectLoop a x a.length 0 a.length

/-- The number of the answer at a time, by `_find_trans`. -/
def findTrans (a : List Int) (x : Int) : Nat :=
  if a≠[] ∧ x<a.getD 0 0 then 0
  else if a=[] ∨ x>a.getD (a.length-1) 0 then a.length
  else bisectRight a x

/-- `_ts_to_local`: a local time for each transition, from the offsets on its two sides. -/
def tsToLocal (pick : Int → Int → Int) : Ttinfo → List (Int × Ttinfo) → List Int
  | _,[] => []
  | prev,(t,info)::rest => (t+pick prev.utcoff info.utcoff)::tsToLocal pick info rest

/-- `_get_local_timestamp`, with `EPOCHORDINAL` in seconds. -/
def localTimestamp (w : Int) : Int := w/1000000-62135596800

namespace Zone

def transUtc (z : Zone) : List Int := z.transitions.map Prod.fst

/-- `_trans_local[fold]`. -/
def transLocal (z : Zone) (fold : Bool) : List Int := tsToLocal (if fold then min else max) z.before z.transitions

def ttinfo (z : Zone) (k : Nat) : Ttinfo := (z.before::z.transitions.map Prod.snd).getD k z.before

def find (z : Zone) (fold : Bool) (w : Int) : Ttinfo := z.ttinfo (findTrans (z.transLocal fold) (localTimestamp w))

def display (z : Zone) (u : Int) : Int :=
  u+(z.ttinfo (findTrans z.transUtc (localTimestamp u))).utcoff*1000000

def reading (z : Zone) (fold : Bool) (w : Int) : Int := w-(z.find fold w).utcoff*1000000

/-- No gap and no fold begins before the last one has ended, in local time. -/
def Orderly (z : Zone) : Prop :=
  ∀i,i+1<z.transitions.length →
    (z.transLocal false).getD i 0≤(z.transLocal true).getD (i+1) 0

end Zone

/-! Bisecting a sorted list -/

/-- The numbers of a list up to a place are at most `x` and the others are greater. -/
def Splits (a : List Int) (x : Int) (k : Nat) : Prop :=
  k≤a.length ∧ (∀i<k,a.getD i 0≤x) ∧ ∀i,k ≤ i → i<a.length → x<a.getD i 0

/-- Every number of a list is at most the next one. -/
def Rising (a : List Int) : Prop := ∀i,i+1<a.length → a.getD i 0≤a.getD (i+1) 0

section

variable {a : List Int} {x : Int} {i j k lo hi n : Nat}

theorem Rising.le (h : Rising a) (hij : i≤j) (hj : j<a.length) : a.getD i 0≤a.getD j 0 := by
  induction j,hij using Nat.le_induction with
  | base => exact Int.le_refl _
  | succ j hij ih => exact Int.le_trans (ih (by omega)) (h j hj)

theorem Splits.unique (hj : Splits a x j) (hk : Splits a x k) : j=k := by
  obtain ⟨hjlen,hjlow,hjhigh⟩ := hj
  obtain ⟨hklen,hklow,hkhigh⟩ := hk
  rcases Nat.lt_trichotomy j k with h | h | h
  · have hle := hklow j h
    have hlt := hjhigh j (Nat.le_refl j) (by omega)
    omega
  · exact h
  · have hle := hjlow k h
    have hlt := hkhigh k (Nat.le_refl k) (by omega)
    omega

/-- In a rising list only the two numbers at the place count. -/
theorem Rising.splits (h : Rising a) (hk : k≤a.length) (hlow : k≠0 → a.getD (k-1) 0≤x)
    (hhigh : k<a.length → x<a.getD k 0) : Splits a x k := by
  refine ⟨hk,fun i hi => ?_,fun i hki hi => ?_⟩
  · have hle := h.le (i:=i) (j:=k-1) (by omega) (by omega)
    exact Int.le_trans hle (hlow (by omega))
  · exact Int.lt_of_lt_of_le (hhigh (by omega)) (h.le hki hi)

theorem bisectLoop_splits (h : Rising a) (n : Nat) :
    ∀lo hi,lo≤hi → hi≤a.length → hi-lo≤n → (∀i<lo,a.getD i 0≤x) →
      (∀i,hi ≤ i → i<a.length → x<a.getD i 0) → Splits a x (bisectLoop a x n lo hi) := by
  induction n with
  | zero =>
    intro lo hi hle hlen hn hlow hhigh
    have heq : hi=lo := by omega
    subst heq
    exact ⟨hlen,hlow,hhigh⟩
  | succ n ih =>
    intro lo hi hle hlen hn hlow hhigh
    unfold bisectLoop
    split_ifs with hlt hx
    · apply ih
      · omega
      · omega
      · omega
      · exact hlow
      · intro i hi' hilen
        exact Int.lt_of_lt_of_le hx (h.le hi' hilen)
    · apply ih
      · omega
      · exact hlen
      · omega
      · intro i hi'
        have hmid := h.le (i:=i) (j:=(lo+hi)/2) (by omega) (by omega)
        omega
      · exact hhigh
    · have heq : hi=lo := by omega
      subst heq
      exact ⟨hlen,hlow,hhigh⟩

theorem bisectRight_splits (h : Rising a) (x : Int) : Splits a x (bisectRight a x) := by
  apply bisectLoop_splits h
  · exact Nat.zero_le _
  · exact Nat.le_refl _
  · omega
  · exact fun i hi => absurd hi (Nat.not_lt_zero i)
  · exact fun i hi hlen => absurd hlen (Nat.not_lt.mpr hi)

theorem findTrans_splits (h : Rising a) (x : Int) : Splits a x (findTrans a x) := by
  unfold findTrans
  split_ifs with hfirst hlast
  · exact h.splits (Nat.zero_le _) (fun hne => absurd rfl hne) (fun _ => hfirst.2)
  · apply h.splits (Nat.le_refl _)
    · intro hne
      have hlast' := hlast.resolve_left (List.ne_nil_of_length_pos (Nat.pos_of_ne_zero hne))
      omega
    · exact fun hlt => absurd hlt (Nat.lt_irrefl _)
  · exact bisectRight_splits h x

end

/-! The local times of an orderly zone -/

theorem tsToLocal_length (pick : Int → Int → Int) (prev : Ttinfo) (l : List (Int × Ttinfo)) :
    (tsToLocal pick prev l).length=l.length := by
  induction l generalizing prev with
  | nil => rfl
  | cons t l ih => exact congrArg (·+1) (ih t.2)

theorem tsToLocal_getD (pick : Int → Int → Int) (prev : Ttinfo) (l : List (Int × Ttinfo)) (i : Nat)
    (hi : i<l.length) (d : Ttinfo) :
    (tsToLocal pick prev l).getD i 0=
      (l.map Prod.fst).getD i 0+pick ((prev::l.map Prod.snd).getD i d).utcoff
        ((prev::l.map Prod.snd).getD (i+1) d).utcoff := by
  induction l generalizing prev i with
  | nil => exact absurd hi (Nat.not_lt_zero i)
  | cons t l ih =>
    cases i with
    | zero => rfl
    | succ i => exact ih t.2 i (Nat.lt_of_succ_lt_succ hi)

namespace Zone

variable {z : Zone} {u w : Int} {i k : Nat}

theorem transLocal_length (fold : Bool) : (z.transLocal fold).length=z.transitions.length :=
  tsToLocal_length _ _ _

theorem transUtc_length : z.transUtc.length=z.transitions.length := List.length_map _

theorem transLocal_false (hi : i<z.transitions.length) :
    (z.transLocal false).getD i 0=z.transUtc.getD i 0+max (z.ttinfo i).utcoff (z.ttinfo (i+1)).utcoff :=
  tsToLocal_getD _ _ _ i hi z.before

theorem transLocal_true (hi : i<z.transitions.length) :
    (z.transLocal true).getD i 0=z.transUtc.getD i 0+min (z.ttinfo i).utcoff (z.ttinfo (i+1)).utcoff :=
  tsToLocal_getD _ _ _ i hi z.before

theorem transUtc_rising (z : Zone) : Rising z.transUtc := by
  intro i hi
  have hlen : i+1<z.transitions.length := by rwa [transUtc_length] at hi
  have hlt := List.pairwise_iff_getElem.mp z.ascending i (i+1) (by omega) hlen (by omega)
  unfold transUtc
  simpa [List.getD_eq_getElem?_getD,hlen,Nat.lt_of_succ_lt hlen] using Int.le_of_lt hlt

theorem transLocal_le (hi : i<z.transitions.length) : (z.transLocal true).getD i 0≤(z.transLocal false).getD i 0 := by
  rw [transLocal_true hi,transLocal_false hi]
  omega

theorem Orderly.rising (h : z.Orderly) (fold : Bool) : Rising (z.transLocal fold) := by
  intro i hi
  rw [transLocal_length] at hi
  have hstep := h i hi
  have hfirst := transLocal_le (z:=z) (i:=i) (by omega)
  have hsecond := transLocal_le (z:=z) hi
  cases fold with
  | false => exact Int.le_trans hstep hsecond
  | true => exact Int.le_trans hfirst hstep

theorem localTimestamp_sub (w : Int) (o : Int) : localTimestamp (w-o*1000000)=localTimestamp w-o := by
  unfold localTimestamp
  omega

/-- The instant that the answer of a number gives for a local time is shown as that local time. -/
def Shown (z : Zone) (w : Int) (k : Nat) : Prop :=
  Splits z.transUtc (localTimestamp w-(z.ttinfo k).utcoff) k

theorem display_iff (z : Zone) (u w : Int) :
    z.display u=w ↔ ∃k,z.Shown w k ∧ u=w-(z.ttinfo k).utcoff*1000000 := by
  have hsplits := findTrans_splits z.transUtc_rising (localTimestamp u)
  unfold display Shown
  constructor
  · intro h
    generalize findTrans z.transUtc (localTimestamp u)=k at h hsplits
    have hu : u=w-(z.ttinfo k).utcoff*1000000 := by omega
    refine ⟨k,?_,hu⟩
    rwa [hu,localTimestamp_sub] at hsplits
  · rintro ⟨k,hk,rfl⟩
    rw [localTimestamp_sub] at hsplits ⊢
    rw [hsplits.unique hk]
    omega

/-- The places of a local time among the local times of the transitions. -/
structure Places (z : Zone) (w : Int) (j k : Nat) : Prop where
  first : Splits (z.transLocal false) (localTimestamp w) j
  second : Splits (z.transLocal true) (localTimestamp w) k

theorem Orderly.places (h : z.Orderly) (w : Int) :
    ∃j k,Places z w j k ∧ z.find false w=z.ttinfo j ∧ z.find true w=z.ttinfo k :=
  ⟨_,_,⟨findTrans_splits (h.rising false) _,findTrans_splits (h.rising true) _⟩,rfl,rfl⟩

theorem Places.near (h : Places z w i k) (horderly : z.Orderly) : k=i ∨ k=i+1 := by
  obtain ⟨hilen,hilow,hihigh⟩ := h.first
  obtain ⟨hklen,hklow,hkhigh⟩ := h.second
  rw [transLocal_length] at hilen hklen hihigh hkhigh
  have hle : i≤k := by
    by_contra hlt
    have hlow := hilow k (by omega)
    have hhigh := hkhigh k (Nat.le_refl k) (by omega)
    have hboth := transLocal_le (z:=z) (i:=k) (by omega)
    omega
  have hnear : k ≤ i+1 := by
    by_contra hlt
    have hlow := hklow (i+1) (by omega)
    have hhigh := hihigh i (Nat.le_refl i) (by omega)
    have hstep := horderly i (by omega)
    omega
  omega

/-- An instant that is shown as a local time comes from one of its places. -/
theorem Places.of_shown (h : Places z w i k) (horderly : z.Orderly) {l : Nat} (hl : z.Shown w l) : l=i ∨ l=k := by
  have hnear := h.near horderly
  obtain ⟨hlen,hlow,hhigh⟩ := hl
  obtain ⟨hilen,hilow,-⟩ := h.first
  obtain ⟨-,-,hkhigh⟩ := h.second
  rw [transUtc_length] at hlen hhigh
  rw [transLocal_length] at hilen hkhigh
  have hle : l≤k := by
    by_contra hlt
    have hutc := hlow (l-1) (by omega)
    have hlocal := hkhigh (l-1) (by omega) (by omega)
    rw [transLocal_true (by omega),Nat.sub_add_cancel (by omega)] at hlocal
    omega
  have hge : i≤l := by
    by_contra hlt
    have hlocal := hilow l (by omega)
    have hutc := hhigh l (Nat.le_refl l) (by omega)
    rw [transLocal_false (by omega)] at hlocal
    omega
  omega

/-- A local time with two places is in a gap, which nothing is shown as, or in a fold, which the instants
of both places are shown as. -/
theorem Places.gap_or_fold (h : Places z w i (i+1)) :
    (z.ttinfo i).utcoff≠(z.ttinfo (i+1)).utcoff ∧ (z.Shown w i ↔ z.Shown w (i+1)) := by
  obtain ⟨hilen,hilow,hihigh⟩ := h.first
  obtain ⟨hklen,hklow,hkhigh⟩ := h.second
  rw [transLocal_length] at hilen hklen hihigh hkhigh
  have hlow := hklow i (Nat.lt_succ_self i)
  have hhigh := hihigh i (Nat.le_refl i) hklen
  rw [transLocal_true hklen] at hlow
  rw [transLocal_false hklen] at hhigh
  rcases lt_or_ge (z.ttinfo i).utcoff (z.ttinfo (i+1)).utcoff with hgap | hfold
  · refine ⟨by omega,fun hshown => ?_,fun hshown => ?_⟩
    · have hlt := hshown.2.2 i (Nat.le_refl i) (by rwa [transUtc_length])
      omega
    · have hle := hshown.2.1 i (Nat.lt_succ_self i)
      omega
  · refine ⟨by omega,fun _ => ?_,fun _ => ?_⟩
    · apply z.transUtc_rising.splits
      · rwa [transUtc_length]
      · intro _
        rw [Nat.add_sub_cancel]
        omega
      · intro hlt
        rw [transUtc_length] at hlt
        have hnext := hkhigh (i+1) (Nat.le_refl _) hlt
        rw [transLocal_true hlt] at hnext
        omega
    · apply z.transUtc_rising.splits
      · rwa [transUtc_length]
      · intro hne
        have hprev := hilow (i-1) (by omega)
        rw [transLocal_false (by omega),Nat.sub_add_cancel (by omega)] at hprev
        omega
      · intro _
        omega

/-- In an orderly zone a local time has one reading, which alone may be shown as it, or two at different
offsets of which both or neither is shown as it. -/
theorem Orderly.readings (h : z.Orderly) (w : Int) :
    (z.find false w=z.find true w ∧ ∀u,z.display u=w → u=z.reading false w) ∨
      ((z.find false w).utcoff≠(z.find true w).utcoff ∧
        (z.display (z.reading false w)=w ↔ z.display (z.reading true w)=w) ∧
        ∀u,z.display u=w → u=z.reading false w ∨ u=z.reading true w) := by
  obtain ⟨j,k,hplaces,hfirst,hsecond⟩ := h.places w
  have hshown : ∀u,z.display u=w → u=z.reading false w ∨ u=z.reading true w := by
    intro u hu
    obtain ⟨l,hl,rfl⟩ := (z.display_iff u w).mp hu
    unfold reading
    rw [hfirst,hsecond]
    rcases hplaces.of_shown h hl with rfl | rfl
    · exact .inl rfl
    · exact .inr rfl
  rcases hplaces.near h with rfl | rfl
  · left
    refine ⟨hfirst.trans hsecond.symm,fun u hu => ?_⟩
    have hboth : z.reading true w=z.reading false w := by
      unfold reading
      rw [hfirst,hsecond]
    rcases hshown u hu with hu | hu
    · exact hu
    · exact hu.trans hboth
  · right
    obtain ⟨hne,hiff⟩ := hplaces.gap_or_fold
    have hdisplay : ∀fold l,z.find fold w=z.ttinfo l → (l=j∨l=j+1) →
        (z.display (z.reading fold w)=w ↔ z.Shown w l) := by
      intro fold l hl hcases
      unfold reading
      rw [hl,display_iff]
      constructor
      · rintro ⟨m,hm,heq⟩
        have hm' := hplaces.of_shown h hm
        have hml : m=l := by
          rcases hcases with rfl | rfl <;> rcases hm' with rfl | rfl
          · rfl
          · omega
          · omega
          · rfl
        rwa [← hml]
      · exact fun hl => ⟨l,hl,rfl⟩
    refine ⟨by rwa [hfirst,hsecond],?_,hshown⟩
    rw [hdisplay false j hfirst (.inl rfl),hdisplay true (j+1) hsecond (.inr rfl)]
    exact hiff

end Zone

end XiaoQing.Framework
