import Mathlib.Data.Set.Basic
import Mathlib.Tactic.Common

namespace XiaoQing.Framework

section

variable {V : Type*} (children : V → List V)

def follow : V → List Nat → Option V
  | v,[] => some v
  | v,k::p => (children v)[k]?.bind fun u => follow u p

def Reaches (v u : V) : Prop := ∃p,follow children v p=some u

/-- `q` turns off `p` at an earlier child: a depth-first walk has left `q` when it comes to `p`. -/
def Before : List Nat → List Nat → Prop
  | j::q,k::p => j<k∨(j=k∧Before q p)
  | _,_ => False

/-- The walk from `v` that skips `S` meets `u` at `p` for the first time. -/
def First (S : Set V) (v : V) (p : List Nat) (u : V) : Prop :=
  follow children v p=some u∧u∉S∧∀q,Before q p → follow children v q≠some u

/-- Every first meeting with a value that has children leaves room for them. -/
def Shallow (S : Set V) (v : V) (room : Nat) : Prop :=
  ∀p u,First children S v p u → children u≠[] → p.length+2≤room

def ShallowAll : Set V → List V → Nat → Prop
  | _,[],_ => True
  | S,v::vs,room => Shallow children S v room∧ShallowAll (S∪{u | Reaches children v u}) vs room

/-- No value below `v` is below one of its own children. -/
def Acyclic (v : V) : Prop :=
  ∀u,Reaches children v u → ∀w∈children u,¬Reaches children w u

def Closed (S : Set V) : Prop := ∀u∈S,∀w,Reaches children u w → w∈S

end

section

variable {V : Type*} {children : V → List V} {S : Set V} {u v w : V} {vs : List V} {p q : List Nat}
  {k room : Nat}

theorem follow_cons : follow children v (k::p)=(children v)[k]?.bind fun u => follow children u p := rfl

theorem follow_append : follow children v (p++q)=(follow children v p).bind fun u => follow children u q := by
  induction p generalizing v with
  | nil => rfl
  | cons k p ih =>
    rw [List.cons_append,follow_cons,follow_cons]
    cases (children v)[k]? with
    | none => rfl
    | some u => exact ih

theorem Reaches.refl : Reaches children v v := ⟨[],rfl⟩

theorem Reaches.trans (h : Reaches children v u) (h' : Reaches children u w) :
    Reaches children v w := by
  obtain ⟨p,hp⟩ := h
  obtain ⟨q,hq⟩ := h'
  exact ⟨p++q,by rw [follow_append,hp]; exact hq⟩

theorem Reaches.child (h : u∈children v) : Reaches children v u := by
  obtain ⟨k,hk⟩ := List.mem_iff_getElem?.mp h
  exact ⟨[k],by rw [follow_cons,hk]; rfl⟩

theorem reaches_iff : Reaches children v w↔v=w∨∃u∈children v,Reaches children u w := by
  constructor
  · rintro ⟨p,hp⟩
    cases p with
    | nil => exact .inl (Option.some.inj hp)
    | cons k p =>
      rw [follow_cons,Option.bind_eq_some_iff] at hp
      obtain ⟨u,hu,hp⟩ := hp
      exact .inr ⟨u,List.mem_of_getElem? hu,p,hp⟩
  · rintro (rfl | ⟨u,hu,h⟩)
    · exact .refl
    · exact (Reaches.child hu).trans h

theorem Acyclic.of_reaches (h : Acyclic children v) (hu : Reaches children v u) :
    Acyclic children u := fun w hw => h w (hu.trans hw)

/-- A value whose children are acyclic and do not lead back to it is acyclic. -/
theorem Acyclic.of_children (hc : ∀u∈children v,Acyclic children u∧¬Reaches children u v) :
    Acyclic children v := by
  intro u hu w hw
  rcases reaches_iff.mp hu with rfl | ⟨x,hx,hxu⟩
  · exact (hc w hw).2
  · exact (hc x hx).1 u hxu w hw

theorem shallow_of_mem (hS : Closed children S) (hv : v∈S) : Shallow children S v room := by
  rintro p u ⟨hp,hu,-⟩
  exact absurd (hS v hv u ⟨p,hp⟩) hu

theorem shallow_leaf (h : children v=[]) : Shallow children S v room := by
  rintro p u ⟨hp,-,-⟩ hu
  cases p with
  | nil =>
    cases Option.some.inj hp
    exact absurd h hu
  | cons k p => simp [follow_cons,h] at hp

/-- The first meetings below a list of values, whose first index picks the value. -/
private def FirstAll (children : V → List V) (S : Set V) (vs : List V) (k : Nat) (p : List Nat)
    (u : V) : Prop :=
  vs[k]?.bind (fun v => follow children v p)=some u∧u∉S∧
    ∀j q,Before (j::q) (k::p) → vs[j]?.bind (fun v => follow children v q)≠some u

private theorem firstAll_zero : FirstAll children S (v::vs) 0 p u↔First children S v p u := by
  unfold FirstAll First
  simp only [List.getElem?_cons_zero,Option.bind_some]
  refine and_congr_right fun _ => and_congr_right fun _ => ⟨?_,?_⟩
  · intro h q hq
    exact h 0 q (.inr ⟨rfl,hq⟩)
  · rintro h j q (hj | ⟨rfl,hq⟩)
    · exact absurd hj (Nat.not_lt_zero _)
    · exact h q hq

private theorem firstAll_succ : FirstAll children S (v::vs) (k+1) p u↔
    FirstAll children (S∪{u | Reaches children v u}) vs k p u := by
  unfold FirstAll
  simp only [List.getElem?_cons_succ,Set.mem_union,Set.mem_ofPred_eq,not_or]
  constructor
  · rintro ⟨hp,hu,hb⟩
    refine ⟨hp,⟨hu,?_⟩,?_⟩
    · rintro ⟨q,hq⟩
      exact hb 0 q (.inl (Nat.succ_pos _)) hq
    · rintro j q (hj | ⟨rfl,hq⟩)
      · exact hb (j+1) q (.inl (Nat.succ_lt_succ hj))
      · exact hb (j+1) q (.inr ⟨rfl,hq⟩)
  · rintro ⟨hp,⟨hu,hv⟩,hb⟩
    refine ⟨hp,hu,?_⟩
    rintro j q hj
    cases j with
    | zero => exact fun hq => hv ⟨q,hq⟩
    | succ j =>
      rcases hj with hj | ⟨hj,hq⟩
      · exact hb j q (.inl (Nat.lt_of_succ_lt_succ hj))
      · exact hb j q (.inr ⟨Nat.succ.inj hj,hq⟩)

private theorem shallowAll_iff : ShallowAll children S vs room↔
    ∀k p u,FirstAll children S vs k p u → children u≠[] → p.length+2≤room := by
  induction vs generalizing S with
  | nil => simp [ShallowAll,FirstAll]
  | cons v vs ih =>
    rw [ShallowAll,ih]
    constructor
    · rintro ⟨h0,hs⟩ k p u h
      cases k with
      | zero => exact h0 p u (firstAll_zero.mp h)
      | succ k => exact hs k p u (firstAll_succ.mp h)
    · intro h
      exact ⟨fun p u hf => h 0 p u (firstAll_zero.mpr hf),
        fun k p u hf => h (k+1) p u (firstAll_succ.mpr hf)⟩

/-- One level of the walk at a value met for the first time. -/
theorem shallow_succ (hv : v∉S) :
    Shallow children S v (room+1)↔
      (children v≠[] → 1≤room)∧ShallowAll children S (children v) room := by
  have hfirst : ∀k p u,First children S v (k::p) u↔FirstAll children S (children v) k p u := by
    intro k p u
    unfold First FirstAll
    rw [follow_cons]
    refine and_congr_right fun hp => and_congr_right fun hu => ⟨?_,?_⟩
    · intro h j q hq
      exact h (j::q) hq
    · intro h q hq
      cases q with
      | nil => exact absurd hq id
      | cons j q => exact h j q hq
  rw [shallowAll_iff]
  constructor
  · intro h
    refine ⟨fun hc => ?_,fun k p u hf hu => ?_⟩
    · have := h [] v ⟨rfl,hv,fun q hq => absurd hq (by cases q <;> exact id)⟩ hc
      simpa using this
    · have := h (k::p) u ((hfirst k p u).mpr hf) hu
      simpa using this
  · rintro ⟨hc,ha⟩ p u hf hu
    cases p with
    | nil =>
      cases Option.some.inj hf.1
      have := hc hu
      simpa using this
    | cons k p =>
      have := ha k p u ((hfirst k p u).mp hf) hu
      simpa using this

end

end XiaoQing.Framework
