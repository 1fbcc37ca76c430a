import XiaoQing.Gate.Children

namespace XiaoQing.Gate

open Framework ExecutionGate

structure Standing.Ok (s : Standing) : Prop where
  waiting : s.phase=.waiting → s.child=.absent ∧ s.tracked=false ∧ s.detached=false
  running : s.phase=.running → s.detached=false
  tracked : s.child=.running → s.tracked=true
  detached : s.tracked=true → s.phase≠.running → s.detached=true
  result : s.phase≠.ended → s.result=none

variable {allowed : ExecutionGate → GateAct → Prop} {g g' : ExecutionGate} {a : GateAct} {i j : Nat}
  {s s' : Standing}

theorem Standing.Ok.turn (h : s.Ok) (ht : Turn g g' a i s s') : s'.Ok := by
  cases ht with
  | same => exact h
  | start hp ha =>
    obtain ⟨_,_,hd⟩ := h.waiting hp
    have hr := h.result (by simp [hp])
    exact ⟨nofun,fun _ => hd,fun _ => rfl,fun _ hx => absurd rfl hx,fun _ => hr⟩
  | turnedAway r hp =>
    obtain ⟨hc,ht,_⟩ := h.waiting hp
    exact ⟨nofun,nofun,h.tracked,fun hx => by simp [ht] at hx,fun hx => absurd rfl hx⟩
  | resumed e r hp ht hc hr =>
    exact ⟨nofun,nofun,h.tracked,fun hx => by simp [ht] at hx,fun hx => absurd rfl hx⟩
  | detach timedOut hp hc =>
    exact ⟨nofun,nofun,h.tracked,fun _ _ => rfl,fun _ => h.result (by simp [hp])⟩
  | yielded timedOut r hp hc =>
    exact ⟨nofun,nofun,h.tracked,fun hx _ => h.detached hx (by simp [hp]),fun hx => absurd rfl hx⟩
  | childEnd e hc =>
    refine ⟨?_,h.running,nofun,h.detached,h.result⟩
    intro hp
    rw [(h.waiting hp).1] at hc
    cases hc
  | discard e ht hc hf =>
    refine ⟨?_,fun _ => rfl,?_,nofun,h.result⟩
    · intro hp
      exact ⟨(h.waiting hp).1,rfl,rfl⟩
    · intro hx
      have hx' : s.child=.running := hx
      rw [hc] at hx'
      cases hx'

theorem Entry.standing_ok (h : Entry g s) : s.Ok := by
  cases h with
  | queued b ha => exact ⟨fun _ => ⟨rfl,rfl,rfl⟩,nofun,nofun,nofun,fun _ => rfl⟩
  | started b ha => exact ⟨nofun,fun _ => rfl,fun _ => rfl,fun _ hx => absurd rfl hx,fun _ => rfl⟩

theorem ChildStep.cases {k : Nat} (h : ChildStep a i g g') (hk : k<g'.next) :
    k<g.next ∧ k≠i ∧ (g'.calls k).standing=(g.calls k).standing ∨
    k<g.next ∧ k=i ∧ Turn g g' a k (g.calls k).standing (g'.calls k).standing ∨
    k=g.next ∧ k=i ∧ Entry g (g'.calls k).standing := by
  by_cases hki : k=i
  · subst k
    cases h.moved with
    | inl hm => exact Or.inr (Or.inl ⟨hm.1 ▸ hk,rfl,hm.2⟩)
    | inr hm => exact Or.inr (Or.inr ⟨hm.1,rfl,hm.2.2⟩)
  · left
    refine ⟨?_,hki,h.others k hki⟩
    cases h.moved with
    | inl hm => exact hm.1 ▸ hk
    | inr hm => omega

theorem reach_ok (h : Reach gateStep allowed Initial g) : ∀i<g.next,(g.calls i).standing.Ok := by
  apply h.invariant (P := fun g => ∀i<g.next,(g.calls i).standing.Ok)
  · intro g hg i hi
    rw [hg.next] at hi
    omega
  · intro g a g' hok _ hs k hk
    obtain ⟨i,hstep⟩ := gateStep_child hs
    obtain ⟨hlt,_,he⟩ | ⟨hlt,_,ht⟩ | ⟨_,_,he⟩ := hstep.cases hk
    · rw [he]; exact hok k hlt
    · exact (hok k hlt).turn ht
    · exact he.standing_ok

/-! Children cut off from their callers -/

def Call.abandoned (c : Call) : Prop := c.phase=.ended ∧ c.child=.running

/-- Nobody cancels a caller in its `sleep(0)` while the child still runs. -/
def Undisturbed (g : ExecutionGate) (a : GateAct) : Prop :=
  ∀i,a=.yieldCancel i → (g.calls i).child≠.running

def Poisoned (g : ExecutionGate) : Prop :=
  ∀i<g.next,(g.calls i).abandoned → g.poisonedByTimeout=true

theorem quarantined_of_abandoned {c : Call} (h : c.standing.Ok) (hc : c.abandoned) :
    Call.quarantined c=true := by
  obtain ⟨hp,hr⟩ := hc
  have ht : c.tracked=true := h.tracked hr
  have hd : c.detached=true := h.detached ht (by simp [Call.standing,hp])
  simp [Call.quarantined,ht,hd,hr]

theorem abandoned_congr {c c' : Call} (h : c'.standing=c.standing) : c'.abandoned ↔ c.abandoned := by
  have hp : c'.phase=c.phase := congrArg Standing.phase h
  have hc : c'.child=c.child := congrArg Standing.child h
  rw [Call.abandoned,Call.abandoned,hp,hc]

theorem Turn.abandoned (ht : Turn g g' a i s s') (hok : s.Ok)
    (hu : a=.yieldCancel i → s.child≠.running) (hp : s'.phase=.ended) (hc : s'.child=.running) :
    s.phase=.ended ∧ s.child=.running ∨ g'.poisonedByTimeout=true := by
  cases ht with
  | same => exact Or.inl ⟨hp,hc⟩
  | start | detach => cases hp
  | turnedAway r hw =>
    have hc' : s.child=.running := hc
    rw [(hok.waiting hw).1] at hc'
    cases hc'
  | resumed e r hw ht hd hr =>
    have hc' : s.child=.running := hc
    rw [hd] at hc'
    cases hc'
  | yielded timedOut r hw hm =>
    right
    cases hm with
    | inl ha => exact absurd hc (hu ha)
    | inr hm => exact hm hc
  | childEnd => cases hc
  | discard e ht hd hf => exact Or.inl ⟨hp,hc⟩

theorem Poisoned.step (h : Poisoned g) (hok : ∀i<g.next,(g.calls i).standing.Ok)
    (hok' : ∀i<g'.next,(g'.calls i).standing.Ok) (hu : Undisturbed g a) (hs : gateStep g a=some g') :
    Poisoned g' := by
  intro k hk habandoned
  obtain ⟨i,hstep⟩ := gateStep_child hs
  have hkept (hp : g.poisonedByTimeout=true) : g'.poisonedByTimeout=true := by
    cases hstep.poisoned hp with
    | inl hp' => exact hp'
    | inr hq =>
      have hx := quarantined_of_abandoned (hok' k hk) habandoned
      rw [hq k hk] at hx
      cases hx
  obtain ⟨hlt,_,he⟩ | ⟨hlt,_,ht⟩ | ⟨_,_,he⟩ := hstep.cases hk
  · exact hkept (h k hlt ((abandoned_congr he).mp habandoned))
  · cases ht.abandoned (hok k hlt) (hu k) habandoned.1 habandoned.2 with
    | inl hold => exact hkept (h k hlt hold)
    | inr hp => exact hp
  · have hp : (g'.calls k).standing.phase=.ended := habandoned.1
    generalize (g'.calls k).standing=s at he hp
    cases he <;> cases hp

theorem reach_poisoned (h : Reach gateStep Undisturbed Initial g) : Poisoned g := by
  induction h with
  | start hi =>
    intro i hlt
    rw [hi.next] at hlt
    omega
  | next a hr hu hs ih => exact ih.step (reach_ok hr) (reach_ok (hr.next a hu hs)) hu hs

theorem Poisoned.barred (h : Poisoned g) (hi : i<g.next) (hc : (g.calls i).abandoned) :
    g.available false=false := by
  simp [ExecutionGate.available,h i hi hc]

theorem ChildStep.barred {k : Nat} (h : ChildStep a i g g') (hg : g.available false=false)
    (hk : k<g'.next) :
    (g.next≤k → (g'.calls k).allowClosed=true) ∧
    ((g'.calls k).child=.running → k<g.next ∧ (g.calls k).child=.running ∨
      (g'.calls k).allowClosed=true) := by
  have hallow {b : Bool} (hb : g.available b=true) : b=true := by
    cases b with
    | true => rfl
    | false => rw [hg] at hb; cases hb
  obtain ⟨hlt,_,he⟩ | ⟨hlt,_,ht⟩ | ⟨hnew,_,he⟩ := h.cases hk
  · have hc : (g'.calls k).child=(g.calls k).child := congrArg Standing.child he
    exact ⟨fun hx => by omega,fun hx => Or.inl ⟨hlt,hc ▸ hx⟩⟩
  · refine ⟨fun hx => by omega,?_⟩
    intro hc
    have hc' : (g'.calls k).standing.child=.running := hc
    show k<g.next ∧ (g.calls k).standing.child=.running ∨ (g'.calls k).standing.allowClosed=true
    generalize (g'.calls k).standing=s at ht hc'
    cases ht with
    | start hp ha => exact Or.inr (hallow ha)
    | same | turnedAway | resumed | detach | yielded | discard => exact Or.inl ⟨hlt,hc'⟩
    | childEnd => cases hc'
  · have hb : (g'.calls k).allowClosed=true := by
      show (g'.calls k).standing.allowClosed=true
      generalize (g'.calls k).standing=s at he
      cases he with
      | queued b ha | started b ha => exact hallow ha
    exact ⟨fun _ => hb,fun _ => Or.inr hb⟩

/-! One normal child at a time -/

def Call.unfinished (c : Call) : Prop := c.allowClosed=false ∧ c.child=.running

def Alone (g : ExecutionGate) : Prop :=
  ∀i<g.next,∀j<g.next,(g.calls i).unfinished → (g.calls j).unfinished → i=j

theorem unfinished_congr {c c' : Call} (h : c'.standing=c.standing) :
    c'.unfinished ↔ c.unfinished := by
  have ha : c'.allowClosed=c.allowClosed := congrArg Standing.allowClosed h
  have hc : c'.child=c.child := congrArg Standing.child h
  rw [Call.unfinished,Call.unfinished,ha,hc]

theorem SlotInv.holds_of_child (h : SlotInv none g.waiters g) (hi : i<g.next)
    (hok : (g.calls i).standing.Ok) (hc : (g.calls i).child=.running) :
    (g.calls i).holds=true ∨ (g.calls i).phase=.ended := by
  by_cases he : (g.calls i).phase=.ended
  · exact Or.inr he
  · left
    have hw : (g.calls i).phase≠.waiting := by
      intro hp
      have hx : (g.calls i).child=.absent := (hok.waiting hp).1
      rw [hx] at hc
      cases hc
    have hg := h.owned i hi hw he
    simp [Call.holds,he,hg]

theorem SlotInv.sole (h : SlotInv none g.waiters g) (hseq : g.sequential=true) (hi : i<g.next)
    (hj : j<g.next) (hhi : (g.calls i).holds=true) (hhj : (g.calls j).holds=true) : i=j := by
  by_contra hne
  have htwo := tally_two Call.holds g.calls g.next i j hi hj hne hhi hhj
  have hsingle := h.single hseq
  have hr := h.running
  omega

theorem ChildStep.unfinished {k : Nat} (h : ChildStep a i g g') (hk : k<g'.next)
    (hu : (g'.calls k).unfinished) :
    k<g.next ∧ (g.calls k).unfinished ∨
      k=i ∧ g.available false=true ∧ (g'.calls k).phase=.running := by
  obtain ⟨hallow,hc⟩ := hu
  obtain ⟨hlt,_,he⟩ | ⟨hlt,hki,ht⟩ | ⟨hnew,hki,he⟩ := h.cases hk
  · exact Or.inl ⟨hlt,(unfinished_congr he).mp ⟨hallow,hc⟩⟩
  · have hallow' : (g'.calls k).standing.allowClosed=false := hallow
    have hc' : (g'.calls k).standing.child=.running := hc
    show k<g.next ∧ (g.calls k).unfinished ∨
      k=i ∧ g.available false=true ∧ (g'.calls k).standing.phase=.running
    generalize (g'.calls k).standing=s at ht hallow' hc'
    cases ht with
    | start hp ha => exact Or.inr ⟨hki,hallow' ▸ ha,rfl⟩
    | same | turnedAway | resumed | detach | yielded | discard => exact Or.inl ⟨hlt,hallow',hc'⟩
    | childEnd => cases hc'
  · right
    have hallow' : (g'.calls k).standing.allowClosed=false := hallow
    have hc' : (g'.calls k).standing.child=.running := hc
    show k=i ∧ g.available false=true ∧ (g'.calls k).standing.phase=.running
    generalize (g'.calls k).standing=s at he hallow' hc'
    cases he with
    | queued b ha => cases hc'
    | started b ha => exact ⟨hki,hallow' ▸ ha,rfl⟩

theorem Alone.step (h : Alone g) (hpoisoned : Poisoned g) (hslots : SlotInv none g'.waiters g')
    (hok : ∀i<g'.next,(g'.calls i).standing.Ok) (hseq : g'.sequential=true)
    (hs : gateStep g a=some g') : Alone g' := by
  obtain ⟨m,hstep⟩ := gateStep_child hs
  -- the child that has just started and any other would both have the slot
  have hclash : ∀k<g'.next,∀l<g'.next,k=m → g.available false=true →
      (g'.calls k).phase=.running → l<g.next → (g'.calls l).unfinished → k=l := by
    intro k hk l hl hkm hav hrun hlt hul
    by_contra hne
    have hlm : l≠m := by omega
    have hsame := hstep.others l hlm
    have hholdk : (g'.calls k).holds=true := by
      have hg := hslots.owned k hk (by simp [hrun]) (by simp [hrun])
      simp [Call.holds,hrun,hg]
    cases hslots.holds_of_child hl (hok l hl) hul.2 with
    | inl hholdl => exact hne (hslots.sole hseq hk hl hholdk hholdl)
    | inr he =>
      have habandoned : (g.calls l).abandoned := (abandoned_congr hsame).mp ⟨he,hul.2⟩
      rw [hpoisoned.barred hlt habandoned] at hav
      cases hav
  intro i hi j hj hui huj
  cases hstep.unfinished hi hui with
  | inl h1 =>
    cases hstep.unfinished hj huj with
    | inl h2 => exact h i h1.1 j h2.1 h1.2 h2.2
    | inr h2 => exact (hclash j hj i hi h2.1 h2.2.1 h2.2.2 h1.1 hui).symm
  | inr h1 =>
    cases hstep.unfinished hj huj with
    | inl h2 => exact hclash i hi j hj h1.1 h1.2.1 h1.2.2 h2.1 huj
    | inr h2 => exact h1.1.trans h2.1.symm

theorem reach_alone (h : Reach gateStep Undisturbed Initial g) : g.sequential=true → Alone g := by
  induction h with
  | start hi =>
    intro _ i hlt
    rw [hi.next] at hlt
    omega
  | next a hr hu hs ih =>
    intro hseq
    obtain ⟨m,hstep⟩ := gateStep_child hs
    have hr' := hr.next a hu hs
    exact (ih (hstep.sequential ▸ hseq)).step (reach_poisoned hr) (reach_slotInv hr') (reach_ok hr')
      hseq hs

structure Quarantine (g : ExecutionGate) : Prop where
  closed : ∀i<g.next,(g.calls i).abandoned → g.available false=false
  barred : ∀i<g.next,(g.calls i).abandoned → ∀a g',gateStep g a=some g' → ∀k<g'.next,
    (g.next≤k → (g'.calls k).allowClosed=true) ∧
    ((g'.calls k).child=.running → k<g.next ∧ (g.calls k).child=.running ∨
      (g'.calls k).allowClosed=true)
  alone : g.sequential=true → ∀i<g.next,∀j<g.next,(g.calls i).unfinished →
    (g.calls j).unfinished → i=j

/-- While nobody cancels a caller in its `sleep(0)` before a child that still runs, a child that
outlives its call keeps normal operations out. -/
theorem gate_quarantines (g : ExecutionGate) (h : Reach gateStep Undisturbed Initial g) :
    Quarantine g := by
  have hpoisoned := reach_poisoned h
  apply Quarantine.mk
  · exact fun i hi hc => hpoisoned.barred hi hc
  · intro i hi hc a g' hs k hk
    obtain ⟨m,hstep⟩ := gateStep_child hs
    exact hstep.barred (hpoisoned.barred hi hc) hk
  · exact reach_alone h

/-- The operation outlives the timeout of its call. -/
theorem gate_quarantines_example :
    ∃g,Reach gateStep Undisturbed Initial g ∧ (g.calls 0).abandoned ∧ Quarantine g := by
  obtain ⟨g,hg,hp,hc⟩ : ∃g,execute gateStep (ExecutionGate.new true ⟨true,4,8,3,60⟩)
      [.run false,.callTimeout 0,.yieldResume 0]=some g ∧ (g.calls 0).phase=.ended ∧
      (g.calls 0).child=.running := ⟨_,rfl,by decide,by decide⟩
  have hr : Reach gateStep Undisturbed Initial g := by
    apply Reach.execute _ _ (.start (new_initial _ _)) hg
    intro a ha u i he
    subst a
    simp at ha
  exact ⟨g,hr,⟨hp,hc⟩,gate_quarantines g hr⟩

/-- A second cancellation in the `sleep(0)` of the first leaves a child behind unmarked, and a
sequential gate runs two normal operations. -/
theorem gate_overlooks_child :
    ¬(∀g,Reach gateStep Free Initial g → ∀i<g.next,(g.calls i).abandoned →
      g.available false=false) ∧
    ¬(∀g,Reach gateStep Free Initial g → g.sequential=true → Alone g) := by
  have hinit : Reach gateStep Free Initial (ExecutionGate.new true ⟨false,4,8,3,60⟩) :=
    .start (new_initial _ _)
  constructor
  · intro hall
    obtain ⟨g,hg,hn,hp,hc,hav⟩ : ∃g,execute gateStep (ExecutionGate.new true ⟨false,4,8,3,60⟩)
        [.run false,.callCancel 0,.yieldCancel 0]=some g ∧ 0<g.next ∧ (g.calls 0).phase=.ended ∧
        (g.calls 0).child=.running ∧ g.available false=true :=
      ⟨_,rfl,by decide,by decide,by decide,by decide⟩
    have hclosed := hall g (Reach.execute _ (fun _ _ _ => trivial) hinit hg) 0 hn ⟨hp,hc⟩
    rw [hclosed] at hav
    cases hav
  · intro hall
    obtain ⟨g,hg,hseq,hn,h0,h1⟩ : ∃g,execute gateStep (ExecutionGate.new true ⟨false,4,8,3,60⟩)
        [.run false,.callCancel 0,.yieldCancel 0,.run false]=some g ∧ g.sequential=true ∧ 1<g.next ∧
        ((g.calls 0).allowClosed=false ∧ (g.calls 0).child=.running) ∧
        (g.calls 1).allowClosed=false ∧ (g.calls 1).child=.running :=
      ⟨_,rfl,by decide,by decide,by decide,by decide⟩
    have heq := hall g (Reach.execute _ (fun _ _ _ => trivial) hinit hg) hseq 0 (by omega) 1 hn h0 h1
    omega

/-! Fatal errors -/

/-- Neither a deadline nor a cancellation strikes a caller between the done callback of a child that
failed fatally and the caller's resumption. -/
def Unraced (g : ExecutionGate) (a : GateAct) : Prop :=
  ∀i,a=.callTimeout i ∨ a=.callCancel i → (g.calls i).child=.done .fatal →
    (g.calls i).tracked=true

def Kept (taken : Prop) (s : Standing) : Prop :=
  s.child=.done .fatal → s.result=some .fatal ∨ taken ∨ s.tracked=true ∨ s.phase=.running

theorem Turn.kept {taken taken' : Prop} (ht : Turn g g' a i s s') (hok : s.Ok)
    (hu : a=.callTimeout i ∨ a=.callCancel i → s.child=.done .fatal → s.tracked=true)
    (htaken : taken → taken') (hmem : i∈g'.takenOver → taken') (h : Kept taken s) :
    Kept taken' s' := by
  have hold : s.phase≠.ended → s.phase≠.running → s.child=.done .fatal →
      s.result=none ∧ (taken ∨ s.tracked=true) := by
    intro he hr hc
    have hn := hok.result he
    refine ⟨hn,?_⟩
    rcases h hc with hres | htk | htr | hrun
    · rw [hn] at hres; cases hres
    · exact Or.inl htk
    · exact Or.inr htr
    · exact absurd hrun hr
  have hlater : taken ∨ s.tracked=true → s'.tracked=s.tracked →
      s'.result=some .fatal ∨ taken' ∨ s'.tracked=true ∨ s'.phase=.running := by
    intro hx he
    cases hx with
    | inl htk => exact Or.inr (Or.inl (htaken htk))
    | inr htr => exact Or.inr (Or.inr (Or.inl (he.trans htr)))
  intro hc
  cases ht with
  | same =>
    rcases h hc with hres | htk | hrest
    · exact Or.inl hres
    · exact Or.inr (Or.inl (htaken htk))
    · exact Or.inr (Or.inr hrest)
  | start => cases hc
  | turnedAway r hp =>
    have hc' : s.child=.done .fatal := hc
    rw [(hok.waiting hp).1] at hc'
    cases hc'
  | resumed e r hp htr hd hr =>
    have hc' : s.child=.done .fatal := hc
    rw [hd] at hc'
    cases hc'
    exact Or.inl (congrArg some (hr rfl))
  | detach timedOut hp hd =>
    have htr : s.tracked=true := by
      rcases hd with ha | ha | hn
      · exact hu (Or.inl ha) hc
      · exact hu (Or.inr ha) hc
      · exact absurd hc hn
    exact hlater (Or.inr htr) rfl
  | yielded timedOut r hp hd =>
    exact hlater (hold (by simp [hp]) (by simp [hp]) hc).2 rfl
  | childEnd e hrun => exact hlater (Or.inr (hok.tracked hrun)) rfl
  | discard e htr hd hf =>
    have he : e=.fatal := by
      have hc' : s.child=.done .fatal := hc
      rw [hd] at hc'
      cases hc'
      rfl
    by_cases hrun : s.phase=.running
    · exact Or.inr (Or.inr (Or.inr hrun))
    · exact Or.inr (Or.inl (hmem (hf (hok.detached htr hrun) he)))

theorem reach_kept (h : Reach gateStep Unraced Initial g) :
    ∀i<g.next,Kept (i∈g.takenOver) (g.calls i).standing := by
  induction h with
  | start hi =>
    intro i hlt
    rw [hi.next] at hlt
    omega
  | next a hr hu hs ih =>
    intro k hk
    obtain ⟨i,hstep⟩ := gateStep_child hs
    obtain ⟨hlt,_,he⟩ | ⟨hlt,_,ht⟩ | ⟨_,_,he⟩ := hstep.cases hk
    · rw [he]
      intro hc
      rcases ih k hlt hc with hres | htk | hrest
      · exact Or.inl hres
      · exact Or.inr (Or.inl (hstep.taken k htk))
      · exact Or.inr (Or.inr hrest)
    · exact ht.kept (reach_ok hr k hlt) (hu k) (hstep.taken k) (fun hm => hm) (ih k hlt)
    · intro hc
      generalize (Gate.ExecutionGate.calls _ k).standing=s at he hc
      cases he <;> cases hc

theorem consume_surfaces (ds : List Nat) (hd : g.deferredFatalErrors=ds) :
    ∃g',execute gateStep g (List.replicate ds.length .consumeDeferredFatalError)=some g' ∧
      g'.surfaced=g.surfaced++ds := by
  induction ds generalizing g with
  | nil => exact ⟨g,rfl,(List.append_nil _).symm⟩
  | cons d ds ih =>
    set e : ExecutionGate := {g with
      deferredFatalErrors := g.deferredFatalErrors.tail
      surfaced := g.surfaced++g.deferredFatalErrors.take 1} with he
    have htail : e.deferredFatalErrors=ds := by rw [he]; simp [hd]
    have hsurfaced : e.surfaced=g.surfaced++[d] := by rw [he]; simp [hd]
    obtain ⟨g',hrun,hg'⟩ := ih htail
    refine ⟨g',hrun,?_⟩
    rw [hg',hsurfaced,List.append_assoc]
    rfl

structure FatalKept (g : ExecutionGate) : Prop where
  kept : ∀i<g.next,(g.calls i).child=.done .fatal → (g.calls i).tracked=false →
    (g.calls i).phase=.ended → (g.calls i).result=some .fatal ∨ i∈g.deferredFatalErrors ∨
      i∈g.surfaced
  pending : ∀i<g.next,(g.calls i).child=.done .fatal → (g.calls i).result=some .fatal ∨
    i∈g.deferredFatalErrors ∨ i∈g.surfaced ∨ (gateStep g (.discard i)).isSome=true ∨
      (gateStep g (.callResume i)).isSome=true
  surfaces : ∃g',execute gateStep g
    (List.replicate g.deferredFatalErrors.length .consumeDeferredFatalError)=some g' ∧
      ∀i∈g.deferredFatalErrors,i∈g'.surfaced

/-- While no caller is struck between the done callback of its child and its own resumption, every
fatal error is raised or handed to the gate. -/
theorem gate_keeps_fatal_errors (g : ExecutionGate) (h : Reach gateStep Unraced Initial g) :
    FatalKept g := by
  have hkept := reach_kept h
  apply FatalKept.mk
  · intro i hi hc ht hp
    rcases hkept i hi hc with hres | htk | htr | hrun
    · exact Or.inl hres
    · exact Or.inr (List.mem_append.mp htk)
    · have htr' : (g.calls i).tracked=true := htr
      rw [ht] at htr'
      cases htr'
    · have hrun' : (g.calls i).phase=.running := hrun
      rw [hp] at hrun'
      cases hrun'
  · intro i hi hc
    have hdiscard : (g.calls i).tracked=true → (gateStep g (.discard i)).isSome=true := by
      intro htr
      simp [Gate.gateStep,hc,hi,htr]
    have hresume : (g.calls i).tracked=false → (g.calls i).phase=.running →
        (gateStep g (.callResume i)).isSome=true := by
      intro htr hp
      simp [Gate.gateStep,hc,hi,htr,hp]
    rcases hkept i hi hc with hres | htk | htr | hrun
    · exact Or.inl hres
    · cases List.mem_append.mp htk with
      | inl hd => exact Or.inr (Or.inl hd)
      | inr hs => exact Or.inr (Or.inr (Or.inl hs))
    · exact Or.inr (Or.inr (Or.inr (Or.inl (hdiscard htr))))
    · right; right; right
      cases htr : (g.calls i).tracked with
      | true => exact Or.inl (hdiscard htr)
      | false => exact Or.inr (hresume htr hrun)
  · obtain ⟨g',hrun,hs⟩ := consume_surfaces g.deferredFatalErrors rfl
    refine ⟨g',hrun,?_⟩
    intro i hi
    rw [hs]
    exact List.mem_append_right _ hi

/-- The error of a child that outlives its call goes to the gate. -/
theorem gate_keeps_fatal_errors_example :
    ∃g,Reach gateStep Unraced Initial g ∧ 0∈g.deferredFatalErrors ∧ FatalKept g := by
  obtain ⟨u,v,g,hu,hv,hg,hc,hd⟩ : ∃u v g,
      execute gateStep (ExecutionGate.new true ⟨true,4,8,3,60⟩) [.run false]=some u ∧
      gateStep u (.callTimeout 0)=some v ∧
      execute gateStep v [.yieldResume 0,.childEnd 0 .fatal,.discard 0]=some g ∧
      (u.calls 0).child=.running ∧ g.deferredFatalErrors=[0] :=
    ⟨_,_,_,rfl,rfl,rfl,by decide,by decide⟩
  have hstart : Reach gateStep Unraced Initial u := by
    apply Reach.execute _ _ (.start (new_initial _ _)) hu
    intro a ha e i he
    simp only [List.mem_singleton] at ha
    subst a
    cases he <;> contradiction
  have hstruck : Unraced u (.callTimeout 0) := by
    intro i he hf
    have hi : i=0 := by
      cases he with
      | inl he => cases he; rfl
      | inr he => cases he
    rw [hi,hc] at hf
    cases hf
  have hr : Reach gateStep Unraced Initial g := by
    apply Reach.execute _ _ (hstart.next _ hstruck hv) hg
    intro a ha e i he
    simp only [List.mem_cons,List.not_mem_nil,or_false] at ha
    rcases ha with rfl | rfl | rfl <;> cases he <;> contradiction
  exact ⟨g,hr,by simp [hd],gate_keeps_fatal_errors g hr⟩

/-- A cancellation between the done callback and the caller's resumption loses the error. -/
theorem gate_loses_fatal_error :
    ¬∀g,Reach gateStep Free Initial g → ∀i<g.next,(g.calls i).child=.done .fatal →
      (g.calls i).tracked=false → (g.calls i).phase=.ended → (g.calls i).result=some .fatal ∨
        i∈g.deferredFatalErrors ∨ i∈g.surfaced := by
  intro hall
  obtain ⟨g,hg,hn,hc,ht,hp,hr,hd,hs⟩ : ∃g,execute gateStep (ExecutionGate.new true ⟨false,4,8,3,60⟩)
      [.run false,.childEnd 0 .fatal,.discard 0,.callCancel 0,.yieldResume 0]=some g ∧ 0<g.next ∧
      (g.calls 0).child=.done .fatal ∧ (g.calls 0).tracked=false ∧ (g.calls 0).phase=.ended ∧
      (g.calls 0).result=some .cancelled ∧ g.deferredFatalErrors=[] ∧ g.surfaced=[] :=
    ⟨_,rfl,by decide,by decide,by decide,by decide,by decide,by decide,by decide⟩
  have hinit : Reach gateStep Free Initial (ExecutionGate.new true ⟨false,4,8,3,60⟩) :=
    .start (new_initial _ _)
  have hkept := hall g (Reach.execute _ (fun _ _ _ => trivial) hinit hg) 0 hn hc ht hp
  rw [hr,hd,hs] at hkept
  simp at hkept

end XiaoQing.Gate
