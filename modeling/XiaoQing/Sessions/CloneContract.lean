import XiaoQing.Sessions.ValueClone

namespace XiaoQing.Sessions.ValueGraph

open Framework

variable {α : Type}

def Value.rename (f : Nat → Nat) : Value α → Value α
  | .leaf type payload => .leaf type payload
  | .ref i => .ref (f i)

def Container.rename (f : Nat → Nat) : Container α → Container α
  | .dict entries => .dict (entries.map fun e => (e.1,e.2.rename f))
  | .list items => .list (items.map (Value.rename f))
  | .tuple items => .tuple (items.map (Value.rename f))

namespace Graph

variable (g g' : Graph α)

def Reachable (v : Value α) : Prop := Reaches g.store.children g.root v

def IsAcyclic : Prop := Acyclic g.store.children g.root

/-- Only the built-in types, and only `str` keys. -/
def Permitted : Prop := ∀v,g.Reachable v → g.store.Plain v

def DepthWithin (d : Nat) : Prop := ∀p v,follow g.store.children g.root p=some v → p.length≤d

noncomputable def nodeCount : Nat := 1+g.store.cost {v | g.Reachable v}

/-- The depth limit, asked only of a container's items on the first path that leads to it. -/
def FirstWithin (d : Nat) : Prop :=
  ∀p v,First g.store.children ∅ g.root p v → g.store.children v≠[] → p.length+1≤d

structure Allowed (maxDepth maxNodes : Nat) : Prop where
  acyclic : g.IsAcyclic
  permitted : g.Permitted
  depth : g.DepthWithin maxDepth
  nodes : g.nodeCount ≤ maxNodes

structure Renaming (f : Nat → Nat) : Prop where
  root : g'.root=g.root.rename f
  containers : ∀c,g.Reachable (.ref c) → g'.store.get (f c)=(g.store.get c).rename f
  injective : Set.InjOn f {c | g.Reachable (.ref c)}

def Isomorphic : Prop :=
  ∃f,Renaming g g' f∧Set.BijOn f {c | g.Reachable (.ref c)} {c | g'.Reachable (.ref c)}

end Graph

namespace Container

variable {c : Container α} {f : Nat → Nat}

@[simp] theorem items_rename : (c.rename f).items=c.items.map (Value.rename f) := by
  cases c <;> simp [rename,items]

@[simp] theorem keys_rename : (c.rename f).keys=c.keys := by
  cases c <;> simp [rename,keys]

theorem withItems_rename : c.withItems (c.items.map (Value.rename f))=c.rename f := by
  cases c with
  | dict entries =>
    simp only [withItems,rename,items,List.map_map,Container.dict.injEq]
    rw [List.zip_map']
    rfl
  | list vs => rfl
  | tuple vs => rfl

end Container

namespace Graph.Renaming

variable {g g' : Graph α} {f : Nat → Nat} {v w : Value α} {p : List Nat}

theorem children (h : Renaming g g' f) (hv : g.Reachable v) :
    g'.store.children (v.rename f)=(g.store.children v).map (Value.rename f) := by
  cases v with
  | leaf type payload => rfl
  | ref c =>
    change (g'.store.get (f c)).items=_
    rw [h.containers c hv,Container.items_rename]
    rfl

theorem follow (h : Renaming g g' f) (hv : g.Reachable v) :
    Framework.follow g'.store.children (v.rename f) p=
      (Framework.follow g.store.children v p).map (Value.rename f) := by
  induction p generalizing v with
  | nil => rfl
  | cons k p ih =>
    rw [follow_cons,follow_cons,h.children hv,List.getElem?_map]
    cases hk : (g.store.children v)[k]? with
    | none => rfl
    | some u => exact ih (hv.trans (.child (List.mem_of_getElem? hk)))

theorem rename_injective (h : Renaming g g' f) (hv : g.Reachable v) (hw : g.Reachable w)
    (he : v.rename f=w.rename f) : v=w := by
  cases v with
  | leaf type payload =>
    cases w with
    | leaf type' payload' => exact he
    | ref d => cases he
  | ref c =>
    cases w with
    | leaf type payload => cases he
    | ref d =>
      rw [Value.rename,Value.rename,Value.ref.injEq] at he
      rw [h.injective hv hw he]

theorem reaches_iff (h : Renaming g g' f) (hv : g.Reachable v) :
    Reaches g'.store.children (v.rename f) w↔∃u,Reaches g.store.children v u∧w=u.rename f := by
  constructor
  · rintro ⟨p,hp⟩
    rw [h.follow hv,Option.map_eq_some_iff] at hp
    obtain ⟨u,hu,rfl⟩ := hp
    exact ⟨u,⟨p,hu⟩,rfl⟩
  · rintro ⟨u,⟨p,hu⟩,rfl⟩
    exact ⟨p,by rw [h.follow hv,hu]; rfl⟩

theorem reachable_iff (h : Renaming g g' f) : g'.Reachable w↔∃u,g.Reachable u∧w=u.rename f := by
  unfold Graph.Reachable
  rw [h.root]
  exact h.reaches_iff .refl

theorem bijOn (h : Renaming g g' f) :
    Set.BijOn f {c | g.Reachable (.ref c)} {c | g'.Reachable (.ref c)} := by
  refine ⟨fun c hc => h.reachable_iff.mpr ⟨_,hc,rfl⟩,h.injective,fun d hd => ?_⟩
  obtain ⟨u,hu,he⟩ := h.reachable_iff.mp hd
  cases u with
  | leaf type payload => cases he
  | ref c =>
    cases he
    exact ⟨c,hu,rfl⟩

theorem isAcyclic (h : Renaming g g' f) (ha : g.IsAcyclic) : g'.IsAcyclic := by
  intro u' hu' w' hw' hr
  obtain ⟨u,hu,rfl⟩ := h.reachable_iff.mp hu'
  rw [h.children hu] at hw'
  obtain ⟨w,hw,rfl⟩ := List.mem_map.mp hw'
  have hrw := hu.trans (.child hw)
  obtain ⟨x,hx,he⟩ := (h.reaches_iff hrw).mp hr
  rw [← h.rename_injective hu (hrw.trans hx) he] at hx
  exact ha u hu w hw hx

theorem permitted (h : Renaming g g' f) (hp : g.Permitted) : g'.Permitted := by
  intro v' hv'
  obtain ⟨v,hv,rfl⟩ := h.reachable_iff.mp hv'
  cases v with
  | leaf type payload => exact hp _ hv
  | ref c =>
    change ∀k∈(g'.store.get (f c)).keys,_
    rw [h.containers c hv,Container.keys_rename]
    exact hp _ hv

theorem firstWithin {d : Nat} (h : Renaming g g' f) (hd : g.FirstWithin d) : g'.FirstWithin d := by
  rintro p v' ⟨hp,-,hb⟩ hc
  rw [h.root,h.follow .refl,Option.map_eq_some_iff] at hp
  obtain ⟨v,hv,rfl⟩ := hp
  refine hd p v ⟨hv,fun hx => hx,?_⟩ ?_
  · intro q hq hqv
    apply hb q hq
    rw [h.root,h.follow .refl,hqv]
    rfl
  · intro hnil
    rw [h.children ⟨p,hv⟩,hnil] at hc
    exact hc rfl

end Graph.Renaming

namespace Graph

variable {g g' : Graph α} {f : Nat → Nat}

theorem lt_next {c : Nat} (h : g.Reachable (.ref c)) : c<g.store.next := by
  have hr : ∀v u,(∀i,v=.ref i → i<g.store.next) → Reaches g.store.children v u →
      ∀i,u=.ref i → i<g.store.next := by
    rintro v u hv ⟨p,hp⟩
    induction p generalizing v with
    | nil =>
      cases Option.some.inj hp
      exact hv
    | cons k p ih =>
      rw [follow_cons,Option.bind_eq_some_iff] at hp
      obtain ⟨x,hx,hp⟩ := hp
      refine ih x ?_ hp
      rintro i rfl
      cases v with
      | leaf type payload => exact absurd (List.mem_of_getElem? hx) List.not_mem_nil
      | ref j => exact g.wellFormed.inUse j (hv j rfl) i (List.mem_of_getElem? hx)
  exact hr _ _ g.rooted h c rfl

theorem Renaming.nodeCount (h : Renaming g g' f) : g'.nodeCount=g.nodeCount := by
  classical
  unfold Graph.nodeCount Store.cost
  rw [Nat.add_left_cancel_iff]
  symm
  refine Finset.sum_nbij f ?_ ?_ ?_ ?_
  · intro c hc
    obtain ⟨-,hc⟩ := Finset.mem_filter.mp hc
    have hf := h.bijOn.mapsTo hc
    exact Finset.mem_filter.mpr ⟨Finset.mem_range.mpr (lt_next hf),hf⟩
  · intro a ha b hb he
    exact h.injective (Finset.mem_filter.mp ha).2 (Finset.mem_filter.mp hb).2 he
  · intro d hd
    obtain ⟨c,hc,he⟩ := h.bijOn.surjOn (Finset.mem_filter.mp hd).2
    exact ⟨c,Finset.mem_filter.mpr ⟨Finset.mem_range.mpr (lt_next hc),hc⟩,he⟩
  · intro c hc
    rw [h.containers c (Finset.mem_filter.mp hc).2,Container.items_rename,List.length_map]

end Graph

def Graph.start (g : Graph α) : CloneState α := ⟨g.store,fun _ => none,∅,0⟩

section

variable {g : Graph α} {s : CloneState α} {w : Value α} {maxDepth maxNodes : Nat}

theorem start_done {v : Value α} : v∈g.start.done↔∀c,v≠.ref c := by
  constructor
  · intro h c hc
    exact (h c hc).2 rfl
  · intro h c hc
    exact absurd hc (h c)

theorem start_clones : Clones g.store g.start where
  kept _ _ := rfl
  next := le_refl _
  memo _ _ h := by cases h
  injective _ _ _ h := by cases h
  wellFormed := g.wellFormed
  closed := by
    intro u hu w hw
    cases u with
    | leaf type payload =>
      rw [reaches_leaf hw]
      exact hu
    | ref c => exact absurd rfl (start_done.mp hu c)
  good c hc := absurd rfl (start_done.mp hc c)
  copied c hc := absurd rfl (start_done.mp hc c)

theorem start_cost : g.store.cost g.start.done=0 := by
  classical
  unfold Store.cost
  rw [Finset.filter_false_of_mem]
  · rfl
  · intro c _ hc
    exact start_done.mp hc c rfl

theorem firstWithin_iff {d : Nat} :
    g.FirstWithin d↔ShallowAll g.store.children g.start.done [g.root] (d+1) := by
  have hleaf : ∀v,g.store.children v≠[] → v∉g.start.done := by
    intro v hv hd
    cases v with
    | leaf type payload => exact hv rfl
    | ref c => exact start_done.mp hd c rfl
  constructor
  · intro h
    refine ⟨fun p v hf hv => ?_,trivial⟩
    have := h p v ⟨hf.1,fun hx => hx,hf.2.2⟩ hv
    omega
  · intro h p v hf hv
    have := h.1 p v ⟨hf.1,hleaf v hv,hf.2.2⟩ hv
    omega

theorem cost_reachable :
    g.store.cost (g.start.done∪{u | ∃v∈[g.root],Reaches g.store.children v u})=
      g.store.cost {v | g.Reachable v} := by
  refine Store.cost_congr fun c => ⟨?_,?_⟩
  · rintro (hc | ⟨v,hv,hc⟩)
    · exact absurd rfl (start_done.mp hc c)
    · rw [List.mem_singleton.mp hv] at hc
      exact hc
  · intro hc
    exact .inr ⟨g.root,List.mem_cons_self,hc⟩

variable [DecidableEq α]

theorem cloneGraph_pass (h : cloneGraph maxDepth maxNodes g=.ok (w,s)) :
    Pass g.store maxNodes (maxDepth+1) [g.root] g.start s [w] :=
  (clone_pass g.wellFormed start_clones g.rooted h).2

theorem cloneGraph_ok_iff : (∃w s,cloneGraph maxDepth maxNodes g=.ok (w,s))↔
    g.IsAcyclic∧g.Permitted∧g.nodeCount ≤ maxNodes∧g.FirstWithin maxDepth := by
  constructor
  · rintro ⟨w,s,h⟩
    have hp := cloneGraph_pass h
    have hg := hp.good g.root List.mem_cons_self
    refine ⟨hg.acyclic,hg.plain,?_,firstWithin_iff.mpr hp.shallow⟩
    have hn := hp.nodes
    have hw := hp.within (Nat.zero_le _)
    rw [start_cost,hp.done,cost_reachable,List.length_singleton] at hn
    have h0 : g.start.nodes=0 := rfl
    unfold Graph.nodeCount
    omega
  · rintro ⟨ha,hp,hn,hf⟩
    refine clone_complete g.wellFormed start_clones (Nat.succ_pos _) ⟨?_,?_,?_,?_,?_⟩
    · intro v hv
      rw [List.mem_singleton.mp hv]
      exact g.rooted
    · intro v hv
      rw [List.mem_singleton.mp hv]
      exact ⟨ha,hp⟩
    · intro v _ c hc
      exact absurd hc (Finset.notMem_empty c)
    · exact firstWithin_iff.mp hf
    · change 0+1+g.store.cost _ ≤ maxNodes+g.store.cost g.start.done
      rw [start_cost]
      have hc := cost_reachable (g:=g)
      unfold Graph.start at hc
      rw [hc]
      unfold Graph.nodeCount at hn
      omega

omit [DecidableEq α] in
theorem copies_rename {memo : Nat → Option Nat} {vs ws : List (Value α)}
    (h : List.Forall₂ (Value.Copies memo) vs ws) :
    ws=vs.map (Value.rename fun c => (memo c).getD 0) := by
  induction h with
  | nil => rfl
  | @cons v w vs ws hvw _ ih =>
    rw [List.map_cons,← ih]
    cases v with
    | leaf type payload => rw [hvw]; rfl
    | ref c =>
      obtain ⟨j,rfl,hj⟩ := hvw
      rw [Value.rename,hj]
      rfl

structure ClonedFrom (g : Graph α) (w : Value α) (s : CloneState α) (g' : Graph α) : Prop where
  store : g'.store=s.store
  root : g'.root=w
  isomorphic : g.Isomorphic g'
  separate : ∀c,g'.Reachable (.ref c) → (g'.store.get c).mutable → ¬g.Reachable (.ref c)
  untouched : ∀c<g.store.next,g'.store.get c=g.store.get c

theorem cloneGraph_cloned (h : cloneGraph maxDepth maxNodes g=.ok (w,s)) :
    ∃g',ClonedFrom g w s g'∧∃f,g.Renaming g' f := by
  have hp := cloneGraph_pass h
  have hcl := hp.clones
  have hdone : ∀c,g.Reachable (.ref c) → .ref c∈s.done := by
    intro c hc
    rw [hp.done]
    exact .inr ⟨g.root,List.mem_cons_self,hc⟩
  have hw : w=g.root.rename fun c => (s.memo c).getD 0 := by
    simpa using copies_rename hp.copies
  have hroot : ∀i,w=.ref i → i < s.store.next := by
    rintro i rfl
    obtain ⟨a,ha⟩ := copies_ref hp.copies List.mem_cons_self
    exact (hcl.memo a i ha).2.2
  let g' : Graph α := ⟨s.store,w,hcl.wellFormed,hroot⟩
  have hren : g.Renaming g' fun c => (s.memo c).getD 0 := by
    refine ⟨hw,?_,?_⟩
    · intro c hc
      obtain ⟨j,ws,hj,hget,hws⟩ := hcl.copied c (hdone c hc)
      simp only [hj,Option.getD_some]
      rw [← Container.withItems_rename,← copies_rename hws]
      exact hget
    · intro a ha b hb he
      obtain ⟨i,-,hi,-⟩ := hcl.copied a (hdone a ha)
      obtain ⟨j,-,hj,-⟩ := hcl.copied b (hdone b hb)
      simp only [hi,hj,Option.getD_some] at he
      exact hcl.injective a b i hi (he ▸ hj)
  refine ⟨g',⟨rfl,rfl,⟨_,hren,hren.bijOn⟩,?_,hcl.kept⟩,_,hren⟩
  intro d hd _ hg
  obtain ⟨c,hc,hcd⟩ := hren.bijOn.surjOn hd
  obtain ⟨j,-,hj,-⟩ := hcl.copied c (hdone c hc)
  simp only [hj,Option.getD_some] at hcd
  have := (hcl.memo c j hj).2.1
  have := Graph.lt_next hg
  omega

/-- What the docstring promises: bounded trees of built-in values in, an independent copy out. -/
structure CloneContract (maxDepth maxNodes : Nat) (g : Graph α) : Prop where
  accepts : (∃w s,cloneGraph maxDepth maxNodes g=.ok (w,s))↔g.Allowed maxDepth maxNodes
  clones : ∀w s,cloneGraph maxDepth maxNodes g=.ok (w,s) →
    ∃g',ClonedFrom g w s g'∧∃w' s',cloneGraph maxDepth maxNodes g'=.ok (w',s')

omit [DecidableEq α] in
theorem firstWithin_of_depthWithin {d : Nat} (h : g.DepthWithin d) : g.FirstWithin d := by
  rintro p v ⟨hp,-,-⟩ hv
  obtain ⟨u,us,hu⟩ := List.exists_cons_of_ne_nil hv
  have hq : follow g.store.children g.root (p++[0])=some u := by
    rw [follow_append,hp,Option.bind_some,follow_cons,hu]
    rfl
  simpa using h _ _ hq

/-- The contract fails exactly for the otherwise allowed graphs in which a path too deep leads on
through a container that was met, and cloned, on a shorter path before. -/
theorem cloneContract_iff (maxDepth maxNodes : Nat) (g : Graph α) :
    CloneContract maxDepth maxNodes g↔
      (g.IsAcyclic → g.Permitted → g.nodeCount ≤ maxNodes → g.FirstWithin maxDepth →
        g.DepthWithin maxDepth) := by
  constructor
  · intro h ha hp hn hf
    exact (h.accepts.mp (cloneGraph_ok_iff.mpr ⟨ha,hp,hn,hf⟩)).depth
  · intro hd
    refine ⟨cloneGraph_ok_iff.trans ⟨?_,?_⟩,?_⟩
    · rintro ⟨ha,hp,hn,hf⟩
      exact ⟨ha,hp,hd ha hp hn hf,hn⟩
    · rintro ⟨ha,hp,hdep,hn⟩
      exact ⟨ha,hp,hn,firstWithin_of_depthWithin hdep⟩
    · intro w s h
      obtain ⟨ha,hp,hn,hf⟩ := cloneGraph_ok_iff.mp ⟨w,s,h⟩
      obtain ⟨g',hg',f,hren⟩ := cloneGraph_cloned h
      exact ⟨g',hg',cloneGraph_ok_iff.mpr
        ⟨hren.isAcyclic ha,hren.permitted hp,hren.nodeCount.trans_le hn,hren.firstWithin hf⟩⟩

end

/-- `a` nests 40 lists; `b` nests 40 more around `a` itself; the data is the dict of both. -/
def twoChains : Store String where
  get i :=
    if i=0 then .dict [(⟨.str,"a"⟩,.ref 1),(⟨.str,"b"⟩,.ref 41)]
    else if i=40 then .list []
    else if i=80 then .list [.ref 1]
    else .list [.ref (i+1)]
  next := 81

theorem twoChains_wellFormed : twoChains.WellFormed where
  inUse := by
    intro i hi j hj
    simp only [twoChains] at hi hj ⊢
    split_ifs at hj with h0 h40 h80 <;> simp [Container.items] at hj <;> omega
  distinct := by
    intro i _
    simp only [twoChains]
    split_ifs <;> simp [Container.keys]

def twoChainsGraph : Graph String where
  store := twoChains
  root := .ref 0
  wellFormed := twoChains_wellFormed
  rooted := by
    intro i hi
    cases hi
    decide

theorem twoChains_cloned :
    (cloneGraph maxSessionDataDepth maxSessionDataNodes twoChainsGraph).toOption.isSome=true := by
  decide +kernel

/-- Through `b` the innermost list of `a` is 80 levels down, and the data is accepted. -/
theorem clone_accepts_deep_path :
    ¬CloneContract maxSessionDataDepth maxSessionDataNodes twoChainsGraph := by
  intro h
  have hok : ∃w s,cloneGraph maxSessionDataDepth maxSessionDataNodes twoChainsGraph=.ok (w,s) := by
    have hc := twoChains_cloned
    cases hr : cloneGraph maxSessionDataDepth maxSessionDataNodes twoChainsGraph with
    | error e =>
      rw [hr] at hc
      cases hc
    | ok p => exact ⟨p.1,p.2,rfl⟩
  have hpath : follow twoChains.children (.ref 0) (1::List.replicate 79 0)=some (.ref 40) := by
    decide +kernel
  have hd := (h.accepts.mp hok).depth _ _ hpath
  simp [maxSessionDataDepth] at hd

end XiaoQing.Sessions.ValueGraph
