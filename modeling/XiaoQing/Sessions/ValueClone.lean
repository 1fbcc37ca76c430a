import Mathlib.Algebra.BigOperators.Group.Finset.Basic
import Mathlib.Algebra.Order.BigOperators.Group.Finset
import XiaoQing.Sessions.ValueGraph

namespace XiaoQing.Sessions.ValueGraph

open Function (update update_of_ne update_self)

open Framework

variable {α : Type}

def CloneState.done (s : CloneState α) : Set (Value α) :=
  {v | ∀c,v=.ref c → c∉s.active∧s.memo c≠none}

open Classical in
noncomputable def Store.cost (m : Store α) (S : Set (Value α)) : Nat :=
  ∑ c∈(Finset.range m.next).filter (fun c => Value.ref c∈S),(m.get c).items.length

def Store.Plain (m : Store α) : Value α → Prop
  | .leaf type _ => type.permitted
  | .ref i => ∀k∈(m.get i).keys,k.type=.str

structure Store.Good (m : Store α) (v : Value α) : Prop where
  acyclic : Acyclic m.children v
  plain : ∀u,Reaches m.children v u → m.Plain u

def Value.Copies (memo : Nat → Option Nat) : Value α → Value α → Prop
  | .leaf type payload,w => w=.leaf type payload
  | .ref i,w => ∃j,w=.ref j∧memo i=some j

def Container.withItems : Container α → List (Value α) → Container α
  | .dict entries,ws => .dict ((entries.map Prod.fst).zip ws)
  | .list _,ws => .list ws
  | .tuple _,ws => .tuple ws

section

variable {m : Store α} {S T : Set (Value α)} {i : Nat}

theorem Store.cost_mono (h : S⊆T) : m.cost S ≤ m.cost T := by
  classical
  unfold Store.cost
  refine Finset.sum_le_sum_of_subset fun c hc => ?_
  rw [Finset.mem_filter] at hc ⊢
  exact ⟨hc.1,h hc.2⟩

theorem Store.cost_congr (h : ∀c,Value.ref c∈S↔.ref c∈T) : m.cost S=m.cost T := by
  classical
  unfold Store.cost
  exact Finset.sum_congr (Finset.filter_congr fun c _ => h c) fun _ _ => rfl

theorem Store.cost_insert (hi : i < m.next) (hS : .ref i∉S) (hT : T=S∪{.ref i}) :
    m.cost T=m.cost S+(m.get i).items.length := by
  classical
  have hmem : ∀c,Value.ref c∈T↔Value.ref c∈S∨c=i := by
    intro c
    rw [hT]
    simp [or_comm]
  unfold Store.cost
  have hf : (Finset.range m.next).filter (fun c => Value.ref c∈T)=
      insert i ((Finset.range m.next).filter fun c => Value.ref c∈S) := by
    ext c
    simp only [Finset.mem_filter,Finset.mem_range,Finset.mem_insert,hmem]
    constructor
    · rintro ⟨hc,hS | rfl⟩
      · exact .inr ⟨hc,hS⟩
      · exact .inl rfl
    · rintro (rfl | ⟨hc,hS⟩)
      · exact ⟨hi,.inr rfl⟩
      · exact ⟨hc,.inl hS⟩
  rw [hf,Finset.sum_insert (by simp [hS]),Nat.add_comm]

theorem Value.Copies.mono {memo memo' : Nat → Option Nat} {v w : Value α}
    (hm : ∀i j,memo i=some j → memo' i=some j) (h : v.Copies memo w) : v.Copies memo' w := by
  cases v with
  | leaf type payload => exact h
  | ref i =>
    obtain ⟨j,rfl,hj⟩ := h
    exact ⟨j,rfl,hm i j hj⟩

theorem copies_ref {memo : Nat → Option Nat} {vs ws : List (Value α)} {d : Nat}
    (h : List.Forall₂ (Value.Copies memo) vs ws) (hd : .ref d∈ws) : ∃a,memo a=some d := by
  induction h with
  | nil => exact absurd hd List.not_mem_nil
  | @cons v w vs ws hvw _ ih =>
    rcases List.mem_cons.mp hd with rfl | hd
    · cases v with
      | leaf type payload => cases hvw
      | ref a =>
        obtain ⟨j,hj,ha⟩ := hvw
        cases hj
        exact ⟨a,ha⟩
    · exact ih hd

theorem Container.items_withItems {c : Container α} {ws : List (Value α)}
    (hl : c.items.length=ws.length) : (c.withItems ws).items=ws := by
  cases c with
  | dict entries =>
    simp only [Container.items,List.length_map] at hl
    simp [Container.withItems,Container.items,List.map_snd_zip,hl]
  | list items => rfl
  | tuple items => rfl

theorem Container.keys_withItems {c : Container α} {ws : List (Value α)}
    (hl : c.items.length=ws.length) : (c.withItems ws).keys=c.keys := by
  cases c with
  | dict entries =>
    simp only [Container.items,List.length_map] at hl
    simp [Container.withItems,Container.keys,List.map_fst_zip,hl]
  | list items => rfl
  | tuple items => rfl

theorem reaches_leaf {type : LeafType} {payload : α} {u : Value α}
    (h : Reaches m.children (.leaf type payload) u) : u=.leaf type payload := by
  rcases reaches_iff.mp h with h | ⟨w,hw,-⟩
  · exact h.symm
  · exact absurd hw List.not_mem_nil

end

section

variable [DecidableEq α]

variable {clone : Value α → CloneState α → Except CloneError (Value α×CloneState α)}
  {entries cloned r : List (Key α×Value α)} {ws : List (Value α)} {s s' : CloneState α} {i : Nat}
  {w : Value α}

theorem setItem_new {k : Key α} (hk : k∉entries.map Prod.fst) : setItem entries k w=entries++[(k,w)] :=
  if_neg hk

theorem cloneEntries_ok (hd : ((cloned++entries).map Prod.fst).Nodup) :
    cloneEntries clone entries cloned s=.ok (r,s')↔
      (∀k∈entries.map Prod.fst,k.type=.str)∧∃ws,
        cloneItems clone (entries.map Prod.snd) s=.ok (ws,s')∧
          r=cloned++(entries.map Prod.fst).zip ws := by
  induction entries generalizing cloned s with
  | nil =>
    simp only [cloneEntries,cloneItems,List.map_nil,Except.ok.injEq,Prod.mk.injEq]
    constructor
    · rintro ⟨rfl,rfl⟩
      exact ⟨by simp,[],⟨rfl,rfl⟩,by simp⟩
    · rintro ⟨-,ws,⟨rfl,rfl⟩,hr⟩
      exact ⟨by simpa using hr.symm,rfl⟩
  | cons e entries ih =>
    obtain ⟨k,v⟩ := e
    simp only [cloneEntries,cloneItems,List.map_cons,List.forall_mem_cons]
    by_cases hk : k.type=.str
    · simp only [hk,ne_eq,not_true_eq_false,if_false,true_and]
      cases hc : clone v s with
      | error e => simp [bind,Except.bind]
      | ok p =>
        obtain ⟨w,t⟩ := p
        have hnew : k∉cloned.map Prod.fst := by
          rw [List.map_append,List.map_cons] at hd
          intro hmem
          exact (List.nodup_append.mp hd).2.2 k hmem k List.mem_cons_self rfl
        have hd' : (((cloned++[(k,w)])++entries).map Prod.fst).Nodup := by
          simpa using hd
        simp only [bind,Except.bind]
        rw [setItem_new hnew,ih hd']
        refine and_congr_right fun _ => ?_
        constructor
        · rintro ⟨ws,hws,rfl⟩
          exact ⟨w::ws,by simp only [hws]; rfl,by simp⟩
        · rintro ⟨ws,hws,rfl⟩
          cases ht : cloneItems clone (entries.map Prod.snd) t with
          | error e => simp [ht] at hws
          | ok q =>
            obtain ⟨us,u⟩ := q
            simp only [ht,pure,Except.pure,Except.ok.injEq,Prod.mk.injEq] at hws
            obtain ⟨rfl,rfl⟩ := hws
            exact ⟨us,rfl,by simp⟩
    · simp [hk]

def CloneState.opened (s : CloneState α) (i : Nat) : CloneState α :=
  match s.store.get i with
  | .tuple _ => s
  | .dict _ => (s.allocate (.dict [])).remember i s.store.next
  | .list _ => (s.allocate (.list [])).remember i s.store.next

def CloneState.identity (s : CloneState α) (i : Nat) (s2 : CloneState α) : Nat :=
  match s.store.get i with
  | .tuple _ => s2.store.next
  | _ => s.store.next

def CloneState.sealed (s : CloneState α) (i : Nat) (s2 : CloneState α) (ws : List (Value α)) :
    CloneState α :=
  match s.store.get i with
  | .tuple _ => (s2.allocate (.tuple ws)).remember i s2.store.next
  | c => s2.fill s.store.next (c.withItems ws)

theorem cloneContainer_ok (hd : (s.store.get i).keys.Nodup) :
    cloneContainer clone i s=.ok (w,s')↔(∀k∈(s.store.get i).keys,k.type=.str)∧∃ws s2,
      cloneItems clone (s.store.get i).items (s.opened i)=.ok (ws,s2)∧
        w=.ref (s.identity i s2)∧s'=s.sealed i s2 ws := by
  unfold cloneContainer CloneState.opened CloneState.identity CloneState.sealed
  cases hc : s.store.get i with
  | dict entries =>
    rw [hc] at hd
    simp only [Container.keys,Container.items]
    have he : ∀r t,cloneEntries clone entries [] ((s.allocate (.dict [])).remember i s.store.next)=.ok (r,t)↔
        (∀k∈entries.map Prod.fst,k.type=.str)∧∃ws,
          cloneItems clone (entries.map Prod.snd) ((s.allocate (.dict [])).remember i s.store.next)=.ok (ws,t)∧
            r=[]++(entries.map Prod.fst).zip ws := fun r t => cloneEntries_ok hd
    cases hr : cloneEntries clone entries [] ((s.allocate (.dict [])).remember i s.store.next) with
    | error e =>
      simp only [bind,Except.bind]
      constructor
      · intro h; cases h
      · rintro ⟨hk,ws,s2,hws,-⟩
        have := (he _ s2).mpr ⟨hk,ws,hws,rfl⟩
        rw [hr] at this
        cases this
    | ok p =>
      obtain ⟨r,t⟩ := p
      obtain ⟨hk,ws,hws,rfl⟩ := (he r t).mp hr
      simp only [bind,Except.bind,pure,Except.pure,Except.ok.injEq,Prod.mk.injEq]
      constructor
      · rintro ⟨rfl,rfl⟩
        exact ⟨hk,ws,t,hws,rfl,rfl⟩
      · rintro ⟨-,ws',s2,hws',rfl,rfl⟩
        rw [hws,Except.ok.injEq,Prod.mk.injEq] at hws'
        obtain ⟨rfl,rfl⟩ := hws'
        exact ⟨rfl,rfl⟩
  | list items =>
    simp only [Container.keys,Container.items,List.not_mem_nil,false_implies,implies_true,true_and]
    cases hr : cloneItems clone items ((s.allocate (.list [])).remember i s.store.next) with
    | error e => simp [bind,Except.bind]
    | ok p =>
      simp only [bind,Except.bind,pure,Except.pure,Except.ok.injEq,Prod.mk.injEq]
      constructor
      · rintro ⟨rfl,rfl⟩
        exact ⟨p.1,p.2,rfl,rfl,rfl⟩
      · rintro ⟨ws,s2,rfl,rfl,rfl⟩
        exact ⟨rfl,rfl⟩
  | tuple items =>
    simp only [Container.keys,Container.items,List.not_mem_nil,false_implies,implies_true,true_and]
    cases hr : cloneItems clone items s with
    | error e => simp [bind,Except.bind]
    | ok p =>
      simp only [bind,Except.bind,pure,Except.pure,Except.ok.injEq,Prod.mk.injEq]
      constructor
      · rintro ⟨rfl,rfl⟩
        exact ⟨p.1,p.2,rfl,rfl,rfl⟩
      · rintro ⟨ws,s2,rfl,rfl,rfl⟩
        exact ⟨rfl,rfl⟩

end

/-- What the traversal keeps true of its state over the original store `m`. -/
structure Clones (m : Store α) (s : CloneState α) : Prop where
  kept : ∀i < m.next,s.store.get i=m.get i
  next : m.next ≤ s.store.next
  memo : ∀i j,s.memo i=some j → i < m.next∧m.next≤j∧j < s.store.next
  injective : ∀i i' j,s.memo i=some j → s.memo i'=some j → i=i'
  wellFormed : s.store.WellFormed
  closed : Closed m.children s.done
  good : ∀c,.ref c∈s.done → m.Good (.ref c)
  copied : ∀c,.ref c∈s.done → ∃j ws,s.memo c=some j∧s.store.get j=(m.get c).withItems ws∧
    List.Forall₂ (Value.Copies s.memo) (m.get c).items ws

structure Pass (m : Store α) (maxNodes room : Nat) (vs : List (Value α)) (s s' : CloneState α)
    (ws : List (Value α)) : Prop where
  clones : Clones m s'
  memo : ∀i j,s.memo i=some j → s'.memo i=some j
  still : ∀c∈s.active,s'.memo c=s.memo c
  active : s'.active=s.active
  next : s.store.next ≤ s'.store.next
  frame : ∀j < s.store.next,s'.store.get j=s.store.get j
  done : s'.done=s.done∪{u | ∃v∈vs,Reaches m.children v u}
  nodes : s'.nodes+m.cost s.done=s.nodes+vs.length+m.cost s'.done
  copies : List.Forall₂ (Value.Copies s'.memo) vs ws
  within : s.nodes ≤ maxNodes → s'.nodes ≤ maxNodes
  shallow : ShallowAll m.children s.done vs room
  good : ∀v∈vs,m.Good v
  away : ∀v∈vs,∀c∈s.active,¬Reaches m.children v (.ref c)

section

variable {m : Store α} {s s' s'' : CloneState α} {v w : Value α} {vs ws : List (Value α)}
  {maxNodes room i j : Nat}

theorem mem_done_ref : .ref i∈s.done↔i∉s.active∧s.memo i≠none := by
  constructor
  · intro h
    exact h i rfl
  · rintro h c hc
    cases hc
    exact h

theorem mem_done_leaf {type : LeafType} {payload : α} : .leaf type payload∈s.done := by
  intro c hc
  cases hc

theorem Pass.nil (h : Clones m s) : Pass m maxNodes room [] s s [] where
  clones := h
  memo _ _ hj := hj
  still _ _ := rfl
  active := rfl
  next := le_refl _
  frame _ _ := rfl
  done := by simp
  nodes := rfl
  copies := .nil
  within hs := hs
  shallow := trivial
  good := by simp
  away := by simp

theorem Pass.cons (h : Pass m maxNodes room [v] s s' [w]) (h' : Pass m maxNodes room vs s' s'' ws) :
    Pass m maxNodes room (v::vs) s s'' (w::ws) where
  clones := h'.clones
  memo i j hj := h'.memo i j (h.memo i j hj)
  still c hc := (h'.still c (h.active ▸ hc)).trans (h.still c hc)
  active := h'.active.trans h.active
  next := h.next.trans h'.next
  frame j hj := (h'.frame j (hj.trans_le h.next)).trans (h.frame j hj)
  done := by
    rw [h'.done,h.done]
    ext u
    simp [or_assoc]
  nodes := by
    have h1 := h.nodes
    have h2 := h'.nodes
    simp only [List.length_cons,List.length_nil] at h1 ⊢
    omega
  copies := by
    obtain ⟨hc,-⟩ := List.forall₂_cons.mp h.copies
    exact .cons (hc.mono h'.memo) h'.copies
  within hs := h'.within (h.within hs)
  shallow := by
    refine ⟨h.shallow.1,?_⟩
    have hd : s'.done=s.done∪{u | Reaches m.children v u} := by
      rw [h.done]
      simp
    rw [← hd]
    exact h'.shallow
  good := by
    rintro u hu
    rcases List.mem_cons.mp hu with rfl | hu
    · exact h.good u (by simp)
    · exact h'.good u hu
  away := by
    rintro u hu c hc
    rcases List.mem_cons.mp hu with rfl | hu
    · exact h.away u (by simp) c hc
    · exact h'.away u hu c (h.active ▸ hc)

theorem done_enter (hm : s.memo i=none) : (s.count.enter i).done=s.done := by
  ext v
  constructor
  · intro h c hc
    obtain ⟨ha,hn⟩ := h c hc
    exact ⟨fun hx => ha (Finset.mem_insert_of_mem hx),hn⟩
  · intro h c hc
    obtain ⟨ha,hn⟩ := h c hc
    refine ⟨fun hx => ?_,hn⟩
    rcases Finset.mem_insert.mp hx with rfl | hx
    · exact hn hm
    · exact ha hx

theorem Clones.enter (h : Clones m s) (hm : s.memo i=none) : Clones m (s.count.enter i) where
  kept := h.kept
  next := h.next
  memo := h.memo
  injective := h.injective
  wellFormed := h.wellFormed
  closed := by rw [done_enter hm]; exact h.closed
  good := by rw [done_enter hm]; exact h.good
  copied := by rw [done_enter hm]; exact h.copied

variable {c : Container α}

theorem done_allocate (hi : i∈s.active) :
    ((s.allocate c).remember i j).done=s.done := by
  ext v
  constructor
  · intro h k hk
    obtain ⟨ha,hn⟩ := h k hk
    have hki : k≠i := fun he => ha (he ▸ hi)
    refine ⟨ha,?_⟩
    simpa [CloneState.remember,CloneState.allocate,update_of_ne hki] using hn
  · intro h k hk
    obtain ⟨ha,hn⟩ := h k hk
    have hki : k≠i := fun he => ha (he ▸ hi)
    refine ⟨ha,?_⟩
    simpa [CloneState.remember,CloneState.allocate,update_of_ne hki] using hn

theorem Clones.allocate (h : Clones m s) (hin : i < m.next) (hi : i∈s.active) (hm : s.memo i=none) (hc : c.items=[]) (hk : c.keys=[]) :
    Clones m ((s.allocate c).remember i s.store.next) := by
  have hmemo : ∀a b,((s.allocate c).remember i s.store.next).memo a=some b →
      (a=i∧b=s.store.next)∨(a≠i∧s.memo a=some b) := by
    intro a b hab
    by_cases ha : a=i
    · subst a
      simp only [CloneState.remember,update_self,Option.some.injEq] at hab
      exact .inl ⟨rfl,hab.symm⟩
    · simp only [CloneState.remember,update_of_ne ha] at hab
      exact .inr ⟨ha,hab⟩
  have hget : ∀k≠s.store.next,((s.allocate c).remember i s.store.next).store.get k=s.store.get k :=
    fun k hk => update_of_ne hk _ _
  have hself : ((s.allocate c).remember i s.store.next).store.get s.store.next=c :=
    update_self _ _ _
  have hd := done_allocate (c:=c) (j:=s.store.next) hi
  refine ⟨?_,Nat.le_succ_of_le h.next,?_,?_,⟨?_,?_⟩,hd ▸ h.closed,hd ▸ h.good,?_⟩
  · intro k hk
    have hne : k≠s.store.next := (hk.trans_le h.next).ne
    rw [hget k hne]
    exact h.kept k hk
  · intro a b hab
    rcases hmemo a b hab with ⟨rfl,rfl⟩ | ⟨-,hab⟩
    · exact ⟨hin,h.next,Nat.lt_succ_self _⟩
    · obtain ⟨h1,h2,h3⟩ := h.memo a b hab
      exact ⟨h1,h2,Nat.lt_succ_of_lt h3⟩
  · intro a a' b hab hab'
    rcases hmemo a b hab with ⟨rfl,rfl⟩ | ⟨-,hs⟩ <;>
      rcases hmemo a' _ hab' with ⟨rfl,hb⟩ | ⟨-,hs'⟩
    · rfl
    · exact absurd (h.memo _ _ hs').2.2 (lt_irrefl _)
    · exact absurd (hb ▸ (h.memo _ _ hs).2.2) (lt_irrefl _)
    · exact h.injective _ _ _ hs hs'
  · intro k hk j hj
    by_cases hne : k=s.store.next
    · rw [hne,hself,hc] at hj
      exact absurd hj List.not_mem_nil
    · rw [hget k hne] at hj
      exact Nat.lt_succ_of_lt (h.wellFormed.inUse k
        (Nat.lt_of_le_of_ne (Nat.le_of_lt_succ hk) hne) j hj)
  · intro k hk
    by_cases hne : k=s.store.next
    · rw [hne,hself,‹c.keys=[]›]
      exact List.nodup_nil
    · rw [hget k hne]
      exact h.wellFormed.distinct k (Nat.lt_of_le_of_ne (Nat.le_of_lt_succ hk) hne)
  · intro a ha
    rw [hd] at ha
    obtain ⟨b,ws,hb,hg,hw⟩ := h.copied a ha
    have hai : a≠i := fun he => (mem_done_ref.mp ha).1 (he ▸ hi)
    have hext : ∀a b,s.memo a=some b → ((s.allocate c).remember i s.store.next).memo a=some b := by
      intro a b hab
      have hne : a≠i := fun he => by rw [he,hm] at hab; cases hab
      exact (update_of_ne hne _ _).trans hab
    refine ⟨b,ws,hext a b hb,?_,hw.imp fun _ _ hvw => hvw.mono hext⟩
    rw [hget b (h.memo a b hb).2.2.ne]
    exact hg

theorem Clones.close (h : Clones m s) (hwf : m.WellFormed) (hin : i < m.next)
    (hi : i∈s.active) (hold : ∀b,s.memo i=some b → b=j) (hfree : ∀a≠i,s.memo a≠some j)
    (hcopies : List.Forall₂ (Value.Copies s.memo) (m.get i).items ws) (hgood : m.Good (.ref i))
    (hitems : ∀u∈(m.get i).items,u∈s.done) (hj : m.next≤j) {t : CloneState α}
    (hget : t.store.get=update s.store.get j ((m.get i).withItems ws))
    (hmemo : t.memo=update s.memo i (some j)) (hactive : t.active=s.active.erase i)
    (hjt : j<t.store.next) (hnext : s.store.next≤t.store.next)
    (hnew : ∀k<t.store.next,k≠j → k < s.store.next) :
    Clones m t∧t.done=s.done∪{.ref i} := by
  have hext : ∀a b,s.memo a=some b → t.memo a=some b := by
    intro a b hab
    rw [hmemo]
    by_cases ha : a=i
    · subst a
      rw [update_self,hold b hab]
    · rw [update_of_ne ha,hab]
  have hinv : ∀a b,t.memo a=some b → (a=i∧b=j)∨(a≠i∧s.memo a=some b) := by
    intro a b hab
    rw [hmemo] at hab
    by_cases ha : a=i
    · subst a
      rw [update_self,Option.some.injEq] at hab
      exact .inl ⟨rfl,hab.symm⟩
    · rw [update_of_ne ha] at hab
      exact .inr ⟨ha,hab⟩
  have hlen := hcopies.length_eq
  have hother : ∀k≠j,t.store.get k=s.store.get k := fun k hk => by
    rw [hget,update_of_ne hk]
  have hself : t.store.get j=(m.get i).withItems ws := by rw [hget,update_self]
  have hdone : t.done=s.done∪{.ref i} := by
    ext v
    constructor
    · intro hv
      by_cases hvi : v=.ref i
      · exact .inr hvi
      · refine .inl fun c hc => ?_
        obtain ⟨ha,hn⟩ := hv c hc
        have hci : c≠i := fun he => hvi (by rw [hc,he])
        rw [hactive] at ha
        rw [hmemo,update_of_ne hci] at hn
        exact ⟨fun hx => ha (Finset.mem_erase.mpr ⟨hci,hx⟩),hn⟩
    · rintro (hv | rfl)
      · intro c hc
        obtain ⟨ha,hn⟩ := hv c hc
        have hci : c≠i := fun he => ha (he ▸ hi)
        rw [hactive,hmemo,update_of_ne hci]
        exact ⟨fun hx => ha (Finset.mem_of_mem_erase hx),hn⟩
      · intro c hc
        cases hc
        rw [hactive,hmemo,update_self]
        exact ⟨Finset.notMem_erase _ _,by simp⟩
  refine ⟨⟨?_,h.next.trans hnext,?_,?_,⟨?_,?_⟩,?_,?_,?_⟩,hdone⟩
  · intro k hk
    rw [hother k (hk.trans_le hj).ne]
    exact h.kept k hk
  · intro a b hab
    rcases hinv a b hab with ⟨rfl,rfl⟩ | ⟨-,hab⟩
    · exact ⟨hin,hj,hjt⟩
    · obtain ⟨h1,h2,h3⟩ := h.memo a b hab
      exact ⟨h1,h2,h3.trans_le hnext⟩
  · intro a a' b hab hab'
    rcases hinv a b hab with ⟨rfl,rfl⟩ | ⟨ha,hab⟩ <;>
      rcases hinv a' _ hab' with ⟨rfl,hb⟩ | ⟨ha',hab'⟩
    · rfl
    · exact absurd hab' (hfree a' ha')
    · exact absurd (hb ▸ hab) (hfree a ha)
    · exact h.injective _ _ _ hab hab'
  · intro k hk d hd
    by_cases hkj : k=j
    · rw [hkj,hself,Container.items_withItems hlen] at hd
      obtain ⟨a,ha⟩ := copies_ref hcopies hd
      exact (h.memo a d ha).2.2.trans_le hnext
    · rw [hother k hkj] at hd
      exact (h.wellFormed.inUse k (hnew k hk hkj) d hd).trans_le hnext
  · intro k hk
    by_cases hkj : k=j
    · rw [hkj,hself,Container.keys_withItems hlen]
      exact hwf.distinct i hin
    · rw [hother k hkj]
      exact h.wellFormed.distinct k (hnew k hk hkj)
  · rw [hdone]
    rintro u (hu | rfl) w hw
    · exact .inl (h.closed u hu w hw)
    · rcases reaches_iff.mp hw with rfl | ⟨x,hx,hxw⟩
      · exact .inr rfl
      · exact .inl (h.closed x (hitems x hx) w hxw)
  · intro c hc
    rw [hdone] at hc
    rcases hc with hc | hc
    · exact h.good c hc
    · cases hc
      exact hgood
  · intro c hc
    rw [hdone] at hc
    rcases hc with hc | hc
    · obtain ⟨b,us,hb,hg,hw⟩ := h.copied c hc
      have hci : c≠i := fun he => (mem_done_ref.mp hc).1 (he ▸ hi)
      have hbj : b≠j := fun he => hfree c hci (he ▸ hb)
      exact ⟨b,us,hext c b hb,(hother b hbj).trans hg,hw.imp fun _ _ hvw => hvw.mono hext⟩
    · cases hc
      refine ⟨j,ws,by rw [hmemo,update_self],hself,hcopies.imp fun _ _ hvw => hvw.mono hext⟩

theorem Pass.leaf {type : LeafType} {payload : α} (h : Clones m s) (ht : type.permitted)
    (hn : s.nodes+1 ≤ maxNodes) : Pass m maxNodes room [.leaf type payload] s s.count
      [.leaf type payload] where
  clones := ⟨h.kept,h.next,h.memo,h.injective,h.wellFormed,h.closed,h.good,h.copied⟩
  memo _ _ hj := hj
  still _ _ := rfl
  active := rfl
  next := le_refl _
  frame _ _ := rfl
  done := by
    refine (Set.union_eq_self_of_subset_right ?_).symm
    rintro u ⟨v,hv,hu⟩
    rw [List.mem_singleton.mp hv] at hu
    rw [reaches_leaf hu]
    exact mem_done_leaf
  nodes := by
    have hd : s.count.done=s.done := rfl
    rw [hd]
    rfl
  copies := .cons rfl .nil
  within _ := hn
  shallow := ⟨shallow_leaf rfl,trivial⟩
  good := by
    intro v hv
    rw [List.mem_singleton.mp hv]
    refine ⟨fun u hu w hw => ?_,fun u hu => ?_⟩
    · rw [reaches_leaf hu] at hw
      exact absurd hw List.not_mem_nil
    · rw [reaches_leaf hu]
      exact ht
  away := by
    intro v hv c _ hr
    rw [List.mem_singleton.mp hv] at hr
    cases reaches_leaf hr

theorem Pass.hit (h : Clones m s) (ha : i∉s.active) (hm : s.memo i=some j)
    (hn : s.nodes+1 ≤ maxNodes) : Pass m maxNodes room [.ref i] s s.count [.ref j] where
  clones := ⟨h.kept,h.next,h.memo,h.injective,h.wellFormed,h.closed,h.good,h.copied⟩
  memo _ _ hj := hj
  still _ _ := rfl
  active := rfl
  next := le_refl _
  frame _ _ := rfl
  done := by
    refine (Set.union_eq_self_of_subset_right ?_).symm
    rintro u ⟨v,hv,hu⟩
    rw [List.mem_singleton.mp hv] at hu
    exact h.closed _ (mem_done_ref.mpr ⟨ha,by simp [hm]⟩) u hu
  nodes := by
    have hd : s.count.done=s.done := rfl
    rw [hd]
    rfl
  copies := .cons ⟨j,rfl,hm⟩ .nil
  within _ := hn
  shallow := ⟨shallow_of_mem h.closed (mem_done_ref.mpr ⟨ha,by simp [hm]⟩),trivial⟩
  good := by
    intro v hv
    rw [List.mem_singleton.mp hv]
    exact h.good i (mem_done_ref.mpr ⟨ha,by simp [hm]⟩)
  away := by
    intro v hv c hc hr
    rw [List.mem_singleton.mp hv] at hr
    have hd := h.closed _ (mem_done_ref.mpr ⟨ha,by simp [hm]⟩) _ hr
    exact (mem_done_ref.mp hd).1 hc

/-- The state in which the items of `i` are cloned, against the state before the call. -/
structure Opened (m : Store α) (i : Nat) (s s1 : CloneState α) : Prop where
  clones : Clones m s1
  done : s1.done=s.done
  active : s1.active=insert i s.active
  nodes : s1.nodes=s.nodes+1
  others : ∀c≠i,s1.memo c=s.memo c
  next : s.store.next ≤ s1.store.next
  frame : ∀j < s.store.next,s1.store.get j=s.store.get j

theorem Opened.enter (h : Clones m s) (hm : s.memo i=none) : Opened m i s (s.count.enter i) :=
  ⟨h.enter hm,done_enter hm,rfl,rfl,fun _ _ => rfl,le_refl _,fun _ _ => rfl⟩

theorem Opened.allocate (h : Clones m s) (hin : i < m.next) (hm : s.memo i=none)
    (hc : c.items=[]) (hk : c.keys=[]) :
    Opened m i s (((s.count.enter i).allocate c).remember i s.store.next) where
  clones := (h.enter hm).allocate hin (Finset.mem_insert_self _ _) hm hc hk
  done := (done_allocate (Finset.mem_insert_self _ _)).trans (done_enter hm)
  active := rfl
  nodes := rfl
  others _ hne := update_of_ne hne _ _
  next := Nat.le_succ _
  frame _ hj := update_of_ne hj.ne _ _

theorem Pass.fresh (h : Clones m s) (hwf : m.WellFormed) (hin : i < m.next) (ha : i∉s.active)
    (hm : s.memo i=none) (hkeys : ∀k∈(m.get i).keys,k.type=.str) {s1 s2 t : CloneState α}
    (ho : Opened m i s s1) (hp : Pass m maxNodes room (m.get i).items s1 s2 ws)
    (hroom : (m.get i).items≠[] → 1≤room) (hn : s.nodes+1 ≤ maxNodes)
    (hold : ∀b,s2.memo i=some b → b=j) (hfree : ∀a≠i,s2.memo a≠some j) (hj : s.store.next≤j)
    (hget : t.store.get=update s2.store.get j ((m.get i).withItems ws))
    (hmemo : t.memo=update s2.memo i (some j)) (hactive : t.active=s2.active.erase i)
    (hnodes : t.nodes=s2.nodes) (hjt : j<t.store.next) (hnext : s2.store.next≤t.store.next)
    (hnew : ∀k<t.store.next,k≠j → k < s2.store.next) :
    Pass m maxNodes (room+1) [.ref i] s t [.ref j] := by
  have hi2 : i∈s2.active := by
    rw [hp.active,ho.active]
    exact Finset.mem_insert_self _ _
  have hback : ∀u∈(m.get i).items,¬Reaches m.children u (.ref i) := fun u hu =>
    hp.away u hu i (ho.active ▸ Finset.mem_insert_self _ _)
  have hitems : ∀u∈(m.get i).items,u∈s2.done := by
    intro u hu
    rw [hp.done]
    exact .inr ⟨u,hu,.refl⟩
  have hgood : m.Good (.ref i) := by
    refine ⟨.of_children fun u hu => ⟨(hp.good u hu).acyclic,hback u hu⟩,fun u hu => ?_⟩
    rcases reaches_iff.mp hu with rfl | ⟨x,hx,hxu⟩
    · exact hkeys
    · exact (hp.good x hx).plain u hxu
  have hnew2 : .ref i∉s2.done := fun hd => (mem_done_ref.mp hd).1 hi2
  have hnew0 : .ref i∉s.done := fun hd => (mem_done_ref.mp hd).2 hm
  obtain ⟨hclones,hdone⟩ := hp.clones.close hwf hin hi2 hold hfree hp.copies hgood hitems
    (h.next.trans hj) hget hmemo hactive hjt hnext hnew
  have hreach : {u | ∃v∈[Value.ref i],Reaches m.children v u}=
      {u | ∃v∈(m.get i).items,Reaches m.children v u}∪{.ref i} := by
    ext u
    simp only [List.mem_singleton,exists_eq_left,Set.mem_ofPred_eq,Set.mem_union,
      Set.mem_singleton_iff]
    rw [reaches_iff,or_comm,eq_comm]
    rfl
  have hne : ∀{c},c∈s.active → c≠i := fun hc he => ha (he ▸ hc)
  refine ⟨hclones,?_,?_,?_,(ho.next.trans hp.next).trans hnext,?_,?_,?_,?_,?_,?_,?_,?_⟩
  · intro a b hab
    have hai : a≠i := fun he => by rw [he,hm] at hab; cases hab
    rw [hmemo,update_of_ne hai]
    exact hp.memo a b ((ho.others a hai).trans hab)
  · intro c hc
    rw [hmemo,update_of_ne (hne hc),
      hp.still c (ho.active ▸ Finset.mem_insert_of_mem hc),ho.others c (hne hc)]
  · rw [hactive,hp.active,ho.active,Finset.erase_insert ha]
  · intro k hk
    rw [hget,update_of_ne (hk.trans_le hj).ne,hp.frame k (hk.trans_le ho.next)]
    exact ho.frame k hk
  · rw [hdone,hp.done,ho.done,hreach,Set.union_assoc]
  · have h1 := hp.nodes
    have h2 := Store.cost_insert hin hnew2 hdone
    rw [ho.done,ho.nodes] at h1
    rw [hnodes,h2,List.length_singleton]
    omega
  · refine .cons ⟨j,rfl,?_⟩ .nil
    rw [hmemo,update_self]
  · intro _
    rw [hnodes]
    exact hp.within (ho.nodes ▸ hn)
  · refine ⟨(shallow_succ hnew0).mpr ⟨hroom,?_⟩,trivial⟩
    rw [← ho.done]
    exact hp.shallow
  · intro v hv
    rw [List.mem_singleton.mp hv]
    exact hgood
  · intro v hv c hc hr
    rw [List.mem_singleton.mp hv] at hr
    rcases reaches_iff.mp hr with hr | ⟨u,hu,hr⟩
    · cases hr
      exact ha hc
    · exact hp.away u hu c (ho.active ▸ Finset.mem_insert_of_mem hc) hr

end

section

variable [DecidableEq α] {m : Store α} {s s' s2 : CloneState α} {v w : Value α}
  {vs ws : List (Value α)} {maxNodes room i j : Nat}
  {clone : Value α → CloneState α → Except CloneError (Value α×CloneState α)}

omit [DecidableEq α] in
theorem cloneItems_cons : cloneItems clone (v::vs) s=.ok (ws,s2)↔
    ∃w us s1,clone v s=.ok (w,s1)∧cloneItems clone vs s1=.ok (us,s2)∧ws=w::us := by
  rw [cloneItems]
  cases hc : clone v s with
  | error e => simp [bind,Except.bind]
  | ok p =>
    cases ht : cloneItems clone vs p.2 with
    | error e =>
      simp only [bind,Except.bind,ht]
      constructor
      · intro h; cases h
      · rintro ⟨w,us,s1,hw,hus,-⟩
        cases hw
        rw [ht] at hus
        cases hus
    | ok q =>
      simp only [bind,Except.bind,ht,pure,Except.pure,Except.ok.injEq,Prod.mk.injEq]
      constructor
      · rintro ⟨rfl,rfl⟩
        exact ⟨p.1,q.1,p.2,rfl,ht,rfl⟩
      · rintro ⟨w,us,s1,hw,hus,rfl⟩
        cases hw
        rw [ht] at hus
        cases hus
        exact ⟨rfl,rfl⟩

omit [DecidableEq α] in
theorem cloneItems_pass (hclone : ∀v s w s',Clones m s → (∀c,v=.ref c → c < m.next) →
    clone v s=.ok (w,s') → 1≤room∧Pass m maxNodes room [v] s s' [w]) (h : Clones m s)
    (hr : ∀v∈vs,∀c,v=.ref c → c < m.next) (hc : cloneItems clone vs s=.ok (ws,s')) :
    (vs≠[] → 1≤room)∧Pass m maxNodes room vs s s' ws := by
  induction vs generalizing s ws with
  | nil =>
    cases hc
    exact ⟨fun hne => absurd rfl hne,.nil h⟩
  | cons v vs ih =>
    obtain ⟨w,us,s1,hw,hus,rfl⟩ := cloneItems_cons.mp hc
    obtain ⟨hroom,hp⟩ := hclone v s w s1 h (hr v List.mem_cons_self) hw
    obtain ⟨-,hps⟩ := ih hp.clones (fun u hu => hr u (List.mem_cons_of_mem _ hu)) hus
    exact ⟨fun _ => hroom,hp.cons hps⟩

theorem cloneContainer_pass (hwf : m.WellFormed) (h : Clones m s) (hin : i < m.next)
    (ha : i∉s.active) (hm : s.memo i=none) (hn : s.nodes+1 ≤ maxNodes)
    (hitems : ∀{s1 s2 ws},Clones m s1 → cloneItems clone (m.get i).items s1=.ok (ws,s2) →
      ((m.get i).items≠[] → 1≤room)∧Pass m maxNodes room (m.get i).items s1 s2 ws)
    (hc : cloneContainer clone i (s.count.enter i)=.ok (w,s')) :
    Pass m maxNodes (room+1) [.ref i] s (s'.leave i) [w] := by
  have hg : (s.count.enter i).store.get i=m.get i := h.kept i hin
  rw [cloneContainer_ok (hg ▸ hwf.distinct i hin),hg] at hc
  obtain ⟨hkeys,ws,s2,hws,rfl,rfl⟩ := hc
  have hkept : ∀c : Container α,c.items=[] → c.keys=[] →
      cloneItems clone (m.get i).items (((s.count.enter i).allocate c).remember i s.store.next)=
        .ok (ws,s2) →
      Pass m maxNodes (room+1) [.ref i] s
        ((s2.fill s.store.next ((m.get i).withItems ws)).leave i) [.ref s.store.next] := by
    intro c hci hck hws
    have ho := Opened.allocate h hin hm hci hck
    obtain ⟨hroom,hp⟩ := hitems ho.clones hws
    have hmemo : s2.memo i=some s.store.next := hp.memo i _ (update_self _ _ _)
    refine hp.fresh h hwf hin ha hm hkeys ho hroom hn ?_ ?_ (le_refl _) rfl ?_ rfl rfl
      ((Nat.lt_succ_self _).trans_le hp.next) (le_refl _) (fun k hk _ => hk)
    · intro b hb
      rw [hmemo] at hb
      exact (Option.some.inj hb).symm
    · intro a hai hb
      exact hai (hp.clones.injective a i _ hb hmemo)
    · exact (Function.update_eq_self_iff.mpr hmemo.symm).symm
  unfold CloneState.opened at hws
  unfold CloneState.identity CloneState.sealed
  rw [hg] at hws ⊢
  cases hk : m.get i with
  | dict entries =>
    rw [hk] at hws hkept
    exact hkept (.dict []) rfl rfl hws
  | list items =>
    rw [hk] at hws hkept
    exact hkept (.list []) rfl rfl hws
  | tuple items =>
    simp only [hk] at hws
    rw [← hk] at hws
    have ho := Opened.enter h hm
    obtain ⟨hroom,hp⟩ := hitems ho.clones hws
    refine hp.fresh h hwf hin ha hm hkeys ho hroom hn ?_ ?_ hp.next ?_ rfl rfl rfl
      (Nat.lt_succ_self _) (Nat.le_succ _)
      (fun k hk hne => Nat.lt_of_le_of_ne (Nat.le_of_lt_succ hk) hne)
    · intro b hb
      rw [hp.still i (Finset.mem_insert_self _ _)] at hb
      exact absurd (hm.symm.trans hb) (by simp)
    · intro a _ hb
      exact absurd (hp.clones.memo a _ hb).2.2 (lt_irrefl _)
    · rw [hk]
      rfl

theorem clone_pass (hwf : m.WellFormed) (h : Clones m s) (hr : ∀c,v=.ref c → c < m.next)
    (hc : cloneSessionValue maxNodes room v s=.ok (w,s')) :
    1≤room∧Pass m maxNodes room [v] s s' [w] := by
  induction room generalizing v s w s' with
  | zero =>
    simp only [cloneSessionValue] at hc
    split_ifs at hc
  | succ room ih =>
    refine ⟨Nat.succ_pos _,?_⟩
    simp only [cloneSessionValue] at hc
    split_ifs at hc with hn
    have hn : s.nodes+1 ≤ maxNodes := Nat.le_of_not_lt hn
    cases v with
    | leaf type payload =>
      simp only at hc
      split_ifs at hc with ht
      cases hc
      exact .leaf h ht hn
    | ref i =>
      simp only at hc
      split_ifs at hc with ha
      cases hm : s.memo i with
      | some j =>
        have hm' : s.count.memo i=some j := hm
        simp only [hm'] at hc
        cases hc
        exact .hit h ha hm hn
      | none =>
        have hm' : s.count.memo i=none := hm
        simp only [hm'] at hc
        cases hk : cloneContainer (cloneSessionValue maxNodes room) i (s.count.enter i) with
        | error e => simp [hk,bind,Except.bind] at hc
        | ok p =>
          simp only [hk,bind,Except.bind,pure,Except.pure,Except.ok.injEq,Prod.mk.injEq] at hc
          obtain ⟨rfl,rfl⟩ := hc
          have hin := hr i rfl
          refine cloneContainer_pass hwf h hin ha hm hn ?_ hk
          intro s1 s2 ws h1 hws
          refine cloneItems_pass (fun v s w s' hs hv hc => ih hs hv hc) h1 ?_ hws
          rintro v hv c rfl
          exact hwf.inUse i hin c hv

structure Fits (m : Store α) (maxNodes room : Nat) (s : CloneState α) (vs : List (Value α)) :
    Prop where
  inUse : ∀v∈vs,∀c,v=.ref c → c < m.next
  good : ∀v∈vs,m.Good v
  away : ∀v∈vs,∀c∈s.active,¬Reaches m.children v (.ref c)
  shallow : ShallowAll m.children s.done vs room
  nodes : s.nodes+vs.length+m.cost (s.done∪{u | ∃v∈vs,Reaches m.children v u})≤
    maxNodes+m.cost s.done

omit [DecidableEq α] in
theorem Fits.head (h : Fits m maxNodes room s (v::vs)) : Fits m maxNodes room s [v] where
  inUse u hu := h.inUse u (List.mem_cons.mpr (.inl (List.mem_singleton.mp hu)))
  good u hu := h.good u (List.mem_cons.mpr (.inl (List.mem_singleton.mp hu)))
  away u hu := h.away u (List.mem_cons.mpr (.inl (List.mem_singleton.mp hu)))
  shallow := ⟨h.shallow.1,trivial⟩
  nodes := by
    have hn := h.nodes
    have hc : m.cost (s.done∪{u | ∃x∈[v],Reaches m.children x u})≤
        m.cost (s.done∪{u | ∃x∈v::vs,Reaches m.children x u}) := by
      refine Store.cost_mono (Set.union_subset_union_right _ ?_)
      rintro u ⟨x,hx,hu⟩
      exact ⟨x,List.mem_cons.mpr (.inl (List.mem_singleton.mp hx)),hu⟩
    simp only [List.length_cons,List.length_nil] at hn ⊢
    omega

omit [DecidableEq α] in
theorem Fits.tail (h : Fits m maxNodes room s (v::vs)) (hp : Pass m maxNodes room [v] s s' [w]) :
    Fits m maxNodes room s' vs where
  inUse u hu := h.inUse u (List.mem_cons_of_mem _ hu)
  good u hu := h.good u (List.mem_cons_of_mem _ hu)
  away u hu c hc := h.away u (List.mem_cons_of_mem _ hu) c (hp.active ▸ hc)
  shallow := by
    have hd : s'.done=s.done∪{u | Reaches m.children v u} := by
      rw [hp.done]
      simp
    rw [hd]
    exact h.shallow.2
  nodes := by
    have hn := h.nodes
    have hp' := hp.nodes
    have hd : s'.done∪{u | ∃x∈vs,Reaches m.children x u}=
        s.done∪{u | ∃x∈v::vs,Reaches m.children x u} := by
      rw [hp.done]
      ext u
      simp [or_assoc]
    rw [hd]
    simp only [List.length_cons,List.length_nil] at hn hp'
    omega

omit [DecidableEq α] in
theorem cloneItems_complete (hpass : ∀v s w s',Clones m s → (∀c,v=.ref c → c < m.next) →
    clone v s=.ok (w,s') → 1≤room∧Pass m maxNodes room [v] s s' [w])
    (hclone : ∀v s,Clones m s → 1≤room → Fits m maxNodes room s [v] → ∃w s',clone v s=.ok (w,s'))
    (h : Clones m s) (hroom : vs≠[] → 1≤room) (hf : Fits m maxNodes room s vs) :
    ∃ws s',cloneItems clone vs s=.ok (ws,s') := by
  induction vs generalizing s with
  | nil => exact ⟨[],s,rfl⟩
  | cons v vs ih =>
    have hroom := hroom (by simp)
    obtain ⟨w,s1,hw⟩ := hclone v s h hroom hf.head
    obtain ⟨-,hp⟩ := hpass v s w s1 h (hf.inUse v List.mem_cons_self) hw
    obtain ⟨us,s2,hus⟩ := ih hp.clones (fun _ => hroom) (hf.tail hp)
    exact ⟨w::us,s2,cloneItems_cons.mpr ⟨w,us,s1,hw,hus,rfl⟩⟩

omit [DecidableEq α] in
theorem Opened.opened (h : Clones m s) (hin : i < m.next) (hm : s.memo i=none) :
    Opened m i s ((s.count.enter i).opened i) := by
  unfold CloneState.opened
  split
  · exact .enter h hm
  · exact .allocate h hin hm rfl rfl
  · exact .allocate h hin hm rfl rfl

omit [DecidableEq α] in
theorem Fits.items (hwf : m.WellFormed) (hin : i < m.next) (ha : i∉s.active) (hm : s.memo i=none)
    {s1 : CloneState α} (ho : Opened m i s s1) (hf : Fits m maxNodes (room+1) s [.ref i]) :
    ((m.get i).items≠[] → 1≤room)∧Fits m maxNodes room s1 (m.get i).items := by
  have hg := hf.good _ List.mem_cons_self
  have hback : ∀u∈(m.get i).items,¬Reaches m.children u (.ref i) :=
    fun u hu => hg.acyclic _ .refl u hu
  have hnew0 : .ref i∉s.done := fun hd => (mem_done_ref.mp hd).2 hm
  obtain ⟨hroom,hall⟩ := (shallow_succ hnew0).mp hf.shallow.1
  refine ⟨hroom,?_,?_,?_,by rw [ho.done]; exact hall,?_⟩
  · rintro v hv c rfl
    exact hwf.inUse i hin c hv
  · intro v hv
    exact ⟨hg.acyclic.of_reaches (.child hv),fun u hu => hg.plain u ((Reaches.child hv).trans hu)⟩
  · intro v hv c hc hr
    rw [ho.active] at hc
    rcases Finset.mem_insert.mp hc with rfl | hc
    · exact hback v hv hr
    · exact hf.away _ List.mem_cons_self c hc ((Reaches.child hv).trans hr)
  · have hn := hf.nodes
    have hreach : s.done∪{u | ∃v∈[Value.ref i],Reaches m.children v u}=
        (s.done∪{u | ∃v∈(m.get i).items,Reaches m.children v u})∪{.ref i} := by
      ext u
      simp only [List.mem_singleton,exists_eq_left,Set.mem_ofPred_eq,Set.mem_union,
        Set.mem_singleton_iff]
      rw [reaches_iff,or_assoc,or_comm (b:=u=_),eq_comm]
      rfl
    have hnot : .ref i∉s.done∪{u | ∃v∈(m.get i).items,Reaches m.children v u} := by
      rintro (hd | ⟨u,hu,hr⟩)
      · exact hnew0 hd
      · exact hback u hu hr
    rw [Store.cost_insert hin hnot hreach,List.length_singleton] at hn
    rw [ho.nodes,ho.done]
    omega

theorem clone_complete (hwf : m.WellFormed) (h : Clones m s) (hroom : 1≤room)
    (hf : Fits m maxNodes room s [v]) : ∃w s',cloneSessionValue maxNodes room v s=.ok (w,s') := by
  induction room generalizing v s with
  | zero => exact absurd hroom (Nat.not_succ_le_zero 0)
  | succ room ih =>
    have hn : s.nodes+1 ≤ maxNodes := by
      have := hf.nodes
      have := m.cost_mono (S:=s.done) (T:=s.done∪{u | ∃x∈[v],Reaches m.children x u})
        Set.subset_union_left
      rw [List.length_singleton] at *
      omega
    have hn' : ¬maxNodes < s.count.nodes := Nat.not_lt.mpr hn
    simp only [cloneSessionValue,if_neg hn']
    cases v with
    | leaf type payload =>
      have ht : type.permitted := (hf.good _ List.mem_cons_self).plain _ .refl
      exact ⟨_,_,if_pos ht⟩
    | ref i =>
      have hin := hf.inUse _ List.mem_cons_self i rfl
      have ha : i∉s.count.active := fun hi => hf.away _ List.mem_cons_self i hi .refl
      simp only [if_neg ha]
      cases hm : s.memo i with
      | some j =>
        have hm' : s.count.memo i=some j := hm
        exact ⟨.ref j,s.count,by simp only [hm']⟩
      | none =>
        have hm' : s.count.memo i=none := hm
        simp only [hm']
        have ho := Opened.opened h hin hm
        obtain ⟨hr,hfi⟩ := hf.items (s:=s) hwf hin ha hm ho
        have hpass : ∀v s w s',Clones m s → (∀c,v=.ref c → c < m.next) →
            cloneSessionValue maxNodes room v s=.ok (w,s') →
              1≤room∧Pass m maxNodes room [v] s s' [w] :=
          fun v s w s' hs hv hc => clone_pass hwf hs hv hc
        obtain ⟨ws,s2,hws⟩ := cloneItems_complete hpass
          (fun v s hs hroom hf => ih hs hroom hf) ho.clones hr hfi
        have hg : (s.count.enter i).store.get i=m.get i := h.kept i hin
        have hkeys : ∀k∈(m.get i).keys,k.type=.str :=
          (hf.good _ List.mem_cons_self).plain _ .refl
        have hc : cloneContainer (cloneSessionValue maxNodes room) i _=.ok (_,_) :=
          (cloneContainer_ok (hg ▸ hwf.distinct i hin)).mpr ⟨hg ▸ hkeys,ws,s2,hg ▸ hws,rfl,rfl⟩
        rw [hc]
        exact ⟨_,_,rfl⟩

end

end XiaoQing.Sessions.ValueGraph
