import XiaoQing.Gate.SlotRun

namespace XiaoQing.Gate

open Framework ExecutionGate

variable {g g' : ExecutionGate} {i : Nat} {c : Call}

/-! Calls inside the gate never exceed what they were -/

structure Flow (g g' : ExecutionGate) : Prop where
  policy : g'.policy=g.policy
  sequential : g'.sequential=g.sequential
  grants : g'.grantLog=g.grantLog ∧ g'.running≤g.running ∨ g'.running≤g.capacity
  admitted : g'.admittedOperations≤g.admittedOperations

theorem Flow.capacity (h : Flow g g') : g'.capacity=g.capacity := by
  simp only [ExecutionGate.capacity,h.policy,h.sequential]

theorem Flow.trans {g'' : ExecutionGate} (h : Flow g g') (h' : Flow g' g'') : Flow g g'' := by
  apply Flow.mk
  · exact h'.policy.trans h.policy
  · exact h'.sequential.trans h.sequential
  · have hcap := h.capacity
    cases h'.grants with
    | inr h2 => right; omega
    | inl h2 =>
      cases h.grants with
      | inl h1 => exact Or.inl ⟨h2.1.trans h1.1,by omega⟩
      | inr h1 => right; omega
  · exact Int.le_trans h'.admitted h.admitted

theorem Flow.frame (hp : g'.policy=g.policy) (hs : g'.sequential=g.sequential)
    (hl : g'.grantLog=g.grantLog) (hr : g'.running=g.running)
    (hw : g'.waiters.length=g.waiters.length) : Flow g g' := by
  apply Flow.mk hp hs
  · exact Or.inl ⟨hl,Int.le_of_eq hr⟩
  · simp only [admittedOperations,hr,hw,Int.le_refl]

theorem Flow.refl (g : ExecutionGate) : Flow g g := .frame rfl rfl rfl rfl rfl

theorem grantLoop_flow (ws : List Nat) (g : ExecutionGate) :
    ((grantLoop ws g).grantLog=g.grantLog ∧ (grantLoop ws g).running=g.running ∨
      (grantLoop ws g).running≤g.capacity) ∧
    (grantLoop ws g).admittedOperations≤g.running+ws.length := by
  induction ws generalizing g with
  | nil => exact ⟨Or.inl ⟨rfl,rfl⟩,Int.le_refl _⟩
  | cons i rest ih =>
    have hlen : ((i::rest).length : Int)=rest.length+1 := by simp
    simp only [ExecutionGate.grantLoop]
    split_ifs with hb
    · obtain ⟨h1,h2⟩ := ih g
      exact ⟨h1,by omega⟩
    · obtain ⟨h1,h2⟩ := ih (g.closeWaiter i)
      have h2' : (grantLoop rest (g.closeWaiter i)).admittedOperations≤g.running+rest.length := h2
      exact ⟨h1,by omega⟩
    · obtain ⟨h1,h2⟩ := ih (g.grant i)
      have hrun : (g.grant i).running=g.running+1 := rfl
      have hcap : (g.grant i).capacity=g.capacity := rfl
      refine ⟨?_,by omega⟩
      right
      cases h1 with
      | inl h1 => omega
      | inr h1 => omega
    · exact ⟨Or.inl ⟨rfl,rfl⟩,Int.le_refl _⟩

theorem grantWaiters_flow (g : ExecutionGate) : Flow g g.grantWaiters := by
  obtain ⟨h1,h2⟩ := grantLoop_flow g.waiters {g with stale := false}
  obtain ⟨_,h3,h4,_⟩ := grantLoop_frame g.waiters {g with stale := false}
  refine ⟨h4,h3,?_,h2⟩
  cases h1 with
  | inl h1 => exact Or.inl ⟨h1.1,Int.le_of_eq h1.2⟩
  | inr h1 => exact Or.inr h1

theorem release_flow (h0 : 0≤g.running) : Flow g (g.release.setCall i c) := by
  have hrun : (g.release.setCall i c).running=max 0 (g.running-1) := rfl
  constructor
  · rfl
  · rfl
  · exact Or.inl ⟨rfl,by omega⟩
  · show max 0 (g.running-1)+g.waiters.length≤g.running+g.waiters.length
    omega

theorem finishRun_flow (h0 : 0≤g.running) (i : Nat) (r : Result) : Flow g (g.finishRun i r) := by
  simp only [ExecutionGate.finishRun]
  split_ifs
  · exact (release_flow h0).trans (grantWaiters_flow _)
  · have hset : Flow g (g.setCall i {g.calls i with phase := .ended,result := some r}) :=
      .frame rfl rfl rfl rfl rfl
    exact hset.trans (grantWaiters_flow _)

theorem removeOrReleaseWaiter_flow (h0 : 0≤g.running) (i : Nat) :
    Flow g (g.removeOrReleaseWaiter i) := by
  simp only [ExecutionGate.removeOrReleaseWaiter]
  split_ifs
  · exact (release_flow h0).trans (grantWaiters_flow _)
  · have herase : Flow g {g with waiters := g.waiters.erase i} := by
      have hlen : (g.waiters.erase i).length≤g.waiters.length := List.erase_sublist.length_le
      constructor
      · rfl
      · rfl
      · exact Or.inl ⟨rfl,Int.le_refl _⟩
      · show g.running+(g.waiters.erase i).length≤g.running+g.waiters.length
        omega
    exact herase.trans (grantWaiters_flow _)

theorem startRun_flow (h0 : 0≤g.running) (i : Nat) : Flow g (g.startRun i) := by
  simp only [ExecutionGate.startRun]
  split_ifs
  · exact .frame rfl rfl rfl rfl rfl
  · exact finishRun_flow h0 i .refused

theorem SlotInv.giveUp_flow (h : SlotInv none g.waiters g) (hi : i<g.next)
    (hp : (g.calls i).phase=.waiting) (r : Result) :
    Flow g ((g.removeOrReleaseWaiter i).finishRun i r) :=
  (removeOrReleaseWaiter_flow h.nonneg i).trans
    (finishRun_flow (h.removeOrReleaseWaiter hi hp).nonneg i r)

theorem SlotInv.resumeWaiter_flow (h : SlotInv none g.waiters g) (hi : i<g.next)
    (hp : (g.calls i).phase=.waiting) (hs : g.resumeWaiter i=some g') : Flow g g' := by
  simp only [ExecutionGate.resumeWaiter] at hs
  split at hs
  · cases hs
  · have hset : Flow g (g.setCall i {g.calls i with granted := (g.calls i).waiterGranted}) :=
      .frame rfl rfl rfl rfl rfl
    exact Option.some.inj hs ▸ hset.trans
      (startRun_flow (g := g.setCall i {g.calls i with granted := (g.calls i).waiterGranted})
        h.nonneg i)
  · exact Option.some.inj hs ▸ h.giveUp_flow hi hp .refused

theorem resumeCall_flow (h0 : 0≤g.running) (i : Nat) (e : Ending) : Flow g (g.resumeCall i e) := by
  have hfail (b : Bool) : Flow g (g.recordFailure b) := .frame rfl rfl rfl rfl rfl
  have hsuccess : Flow g g.recordSuccess := .frame rfl rfl rfl rfl rfl
  have hdetach : Flow g (g.detachChild i false) := .frame rfl rfl rfl rfl rfl
  have hexpire : Flow g ((g.recordFailure true).detachChild i true) := .frame rfl rfl rfl rfl rfl
  cases e with
  | result => exact hsuccess.trans (finishRun_flow (g := g.recordSuccess) h0 i .returned)
  | exception => exact (hfail false).trans (finishRun_flow (g := g.recordFailure false) h0 i .failed)
  | refused => exact finishRun_flow h0 i .refused
  | timeoutError => exact hexpire
  | fatal => exact (hfail false).trans (finishRun_flow (g := g.recordFailure false) h0 i .fatal)
  | cancelled => exact hdetach

structure StepBounds (g g' : ExecutionGate) : Prop where
  grants : g'.grantLog≠g.grantLog → g'.running≤g'.capacity
  admissions : g.admittedOperations<g'.admittedOperations →
    g'.admittedOperations≤g'.capacity+g'.policy.admissionQueueLimit

theorem Flow.bounds (h : Flow g g') : StepBounds g g' := by
  apply StepBounds.mk
  · intro hl
    have hcap := h.capacity
    cases h.grants with
    | inl hg => exact absurd hg.1 hl
    | inr hg => omega
  · intro hlt
    have hle := h.admitted
    omega

theorem StepBounds.frame (hl : g'.grantLog=g.grantLog)
    (ha : g'.admittedOperations=g.admittedOperations) : StepBounds g g' :=
  ⟨fun hx => absurd hl hx,fun hx => absurd ha (Int.ne_of_gt hx)⟩

theorem SlotInv.run_bounds (h : SlotInv none g.waiters g) (allowClosed : Bool) :
    StepBounds g (g.run allowClosed) := by
  have h0 := h.nonneg
  simp only [ExecutionGate.run]
  split_ifs with h1 h2 h3
  · exact (Flow.refl g).bounds
  · exact (Flow.refl g).bounds
  · set e : ExecutionGate := {g.setCall g.next (.new allowClosed g.policy.timed true) with
      next := g.next+1,running := g.running+1,grantLog := g.grantLog++[g.next]} with he
    have hrun : e.running=g.running+1 := rfl
    have hcap : e.capacity=g.capacity := rfl
    have hadmitted : e.admittedOperations=g.running+1+g.waiters.length := rfl
    have hold : g.admittedOperations=g.running+g.waiters.length := rfl
    have hflow := startRun_flow (g := e) (by omega) g.next
    have hc := hflow.capacity
    have hpol : (e.startRun g.next).policy=g.policy := hflow.policy
    have hle := hflow.admitted
    apply StepBounds.mk
    · intro _
      cases hflow.grants with
      | inl hg => omega
      | inr hg => omega
    · intro _
      rw [hpol]
      omega
  · have hadmitted : ({g.setCall g.next (.new allowClosed g.policy.timed false) with
        next := g.next+1,waiters := g.waiters++[g.next]} : ExecutionGate).admittedOperations=
        g.admittedOperations+1 := by
      show g.running+((g.waiters++[g.next]).length : Int)=g.running+g.waiters.length+1
      rw [List.length_append,List.length_singleton]
      omega
    apply StepBounds.mk
    · exact fun hx => absurd rfl hx
    · intro _
      rw [hadmitted]
      show g.admittedOperations+1≤(g.capacity : Int)+g.policy.admissionQueueLimit
      omega

theorem SlotInv.step_bounds {a : GateAct} (h : SlotInv none g.waiters g)
    (hs : Gate.gateStep g a=some g') : StepBounds g g' := by
  have h0 := h.nonneg
  cases a with simp only [Gate.gateStep] at hs
  | run allowClosed =>
    exact Option.some.inj hs ▸ h.run_bounds allowClosed
  | waiterResume i =>
    split_ifs at hs with hpre
    exact (h.resumeWaiter_flow hpre.1 hpre.2 hs).bounds
  | waiterTimeout i =>
    split_ifs at hs with hpre
    obtain ⟨hi,hp,_⟩ := hpre
    have hremoved := removeOrReleaseWaiter_flow h0 i
    have hfail : Flow (g.removeOrReleaseWaiter i) ((g.removeOrReleaseWaiter i).recordFailure true) :=
      .frame rfl rfl rfl rfl rfl
    have h0' : 0≤((g.removeOrReleaseWaiter i).recordFailure true).running :=
      (h.removeOrReleaseWaiter hi hp).nonneg
    exact Option.some.inj hs ▸ ((hremoved.trans hfail).trans (finishRun_flow h0' i .timedOut)).bounds
  | waiterCancel i =>
    split_ifs at hs with hpre
    exact Option.some.inj hs ▸ (h.giveUp_flow hpre.1 hpre.2 .cancelled).bounds
  | childEnd i e =>
    split_ifs at hs
    have hflow : Flow g (g.setCall i {g.calls i with child := .done e}) := .frame rfl rfl rfl rfl rfl
    exact Option.some.inj hs ▸ hflow.bounds
  | discard i =>
    split at hs
    · split_ifs at hs
      have hflow : Flow g (g.discardOperationTask i) := by
        simp only [ExecutionGate.discardOperationTask]
        split <;> exact .frame rfl rfl rfl rfl rfl
      exact Option.some.inj hs ▸ hflow.bounds
    · cases hs
  | callResume i =>
    split at hs
    · split_ifs at hs
      exact Option.some.inj hs ▸ (resumeCall_flow h0 i _).bounds
    · cases hs
  | callTimeout i =>
    split_ifs at hs
    have hflow : Flow g ((g.recordFailure true).detachChild i true) := .frame rfl rfl rfl rfl rfl
    exact Option.some.inj hs ▸ hflow.bounds
  | callCancel i =>
    split_ifs at hs
    have hflow : Flow g (g.detachChild i false) := .frame rfl rfl rfl rfl rfl
    exact Option.some.inj hs ▸ hflow.bounds
  | yieldResume i =>
    split at hs
    · have hmark : Flow g (g.markUnfinishedChild i) ∧ 0≤(g.markUnfinishedChild i).running := by
        simp only [ExecutionGate.markUnfinishedChild]
        split_ifs
        · exact ⟨.frame rfl rfl rfl rfl rfl,h0⟩
        · exact ⟨.refl g,h0⟩
      by_cases hi : i<g.next
      · rw [if_pos hi] at hs
        exact Option.some.inj hs ▸ (hmark.1.trans (finishRun_flow hmark.2 i _)).bounds
      · rw [if_neg hi] at hs
        cases hs
    · cases hs
  | yieldCancel i =>
    split at hs
    · split_ifs at hs
      exact Option.some.inj hs ▸ (finishRun_flow h0 i .cancelled).bounds
    · cases hs
  | setPolicy p onLoop =>
    by_cases hp : 1≤p.parallelLimit
    · rw [if_pos hp] at hs
      exact Option.some.inj hs ▸ StepBounds.frame rfl rfl
    · rw [if_neg hp] at hs
      cases hs
  | reconcile =>
    split_ifs at hs
    have hdec : Flow g {g with reconciles := g.reconciles-1} := .frame rfl rfl rfl rfl rfl
    exact Option.some.inj hs ▸ (hdec.trans (grantWaiters_flow _)).bounds
  | refuseWaiters =>
    obtain ⟨h1,h2,h3,h4,h5,_⟩ := refuseWaiters_frame g.waiters g
    have hflow : Flow g g.refuseWaiters := .frame h3 h4 h5 h2 (congrArg List.length h1)
    exact Option.some.inj hs ▸ hflow.bounds
  | holdForPublication | releasePublicationHold =>
    split_ifs at hs
    exact Option.some.inj hs ▸ StepBounds.frame rfl rfl
  | closeAdmission | consumeDeferredFatalError | syncPoison | tick =>
    exact Option.some.inj hs ▸ StepBounds.frame rfl rfl

/-! No waiter behind a free slot -/

theorem Tight.frame (h : Tight g) (hs : g'.stale=g.stale) (hw : g'.waiters=g.waiters)
    (hc : g'.capacity=g.capacity) (hr : g'.running=g.running) : Tight g' := by
  intro hf
  rw [hw,hc,hr]
  exact h (hs.symm.trans hf)

theorem startRun_tight (h : Tight g) (i : Nat) : Tight (g.startRun i) := by
  simp only [ExecutionGate.startRun]
  split_ifs
  · exact h.frame rfl rfl rfl rfl
  · exact finishRun_tight g i .refused

theorem Tight.run (h : Tight g) (allowClosed : Bool) : Tight (g.run allowClosed) := by
  simp only [ExecutionGate.run]
  split_ifs with h1 h2 h3
  · exact h
  · exact h
  · apply startRun_tight
    exact fun _ => Or.inl h3.2
  · intro hs
    right
    show (g.capacity : Int)≤g.running
    cases h hs with
    | inl hw =>
      by_contra hr
      exact h3 ⟨by omega,hw⟩
    | inr hr => exact hr

theorem Tight.resumeWaiter (h : Tight g) (hs : g.resumeWaiter i=some g') : Tight g' := by
  simp only [ExecutionGate.resumeWaiter] at hs
  split at hs
  · cases hs
  · have hset : Tight (g.setCall i {g.calls i with granted := (g.calls i).waiterGranted}) :=
      h.frame rfl rfl rfl rfl
    exact Option.some.inj hs ▸ startRun_tight hset i
  · exact Option.some.inj hs ▸ finishRun_tight _ i .refused

theorem Tight.resumeCall (h : Tight g) (i : Nat) (e : Ending) : Tight (g.resumeCall i e) := by
  cases e with
  | result | exception | refused | fatal => exact finishRun_tight _ i _
  | timeoutError | cancelled => exact h.frame rfl rfl rfl rfl

theorem Tight.step {a : GateAct} (h : Tight g) (hs : gateStep g a=some g') : Tight g' := by
  cases a with simp only [Gate.gateStep] at hs
  | run allowClosed =>
    exact Option.some.inj hs ▸ h.run allowClosed
  | waiterResume i =>
    split_ifs at hs
    exact h.resumeWaiter hs
  | waiterTimeout i | waiterCancel i =>
    split_ifs at hs
    exact Option.some.inj hs ▸ finishRun_tight _ i _
  | childEnd i e | callTimeout i | callCancel i | holdForPublication | releasePublicationHold =>
    split_ifs at hs
    exact Option.some.inj hs ▸ h.frame rfl rfl rfl rfl
  | discard i =>
    split at hs
    · split_ifs at hs
      have hd : Tight (g.discardOperationTask i) := by
        simp only [ExecutionGate.discardOperationTask]
        split <;> exact h.frame rfl rfl rfl rfl
      exact Option.some.inj hs ▸ hd
    · cases hs
  | callResume i =>
    split at hs
    · split_ifs at hs
      exact Option.some.inj hs ▸ h.resumeCall i _
    · cases hs
  | yieldResume i =>
    split at hs
    · by_cases hi : i<g.next
      · rw [if_pos hi] at hs
        exact Option.some.inj hs ▸ finishRun_tight _ i _
      · rw [if_neg hi] at hs
        cases hs
    · cases hs
  | yieldCancel i =>
    split at hs
    · split_ifs at hs
      exact Option.some.inj hs ▸ finishRun_tight _ i .cancelled
    · cases hs
  | setPolicy p onLoop =>
    by_cases hp : 1≤p.parallelLimit
    · rw [if_pos hp] at hs
      exact Option.some.inj hs ▸ fun hf => by cases hf
    · rw [if_neg hp] at hs
      cases hs
  | reconcile =>
    split_ifs at hs
    exact Option.some.inj hs ▸ grantWaiters_tight _
  | refuseWaiters =>
    obtain ⟨h1,h2,h3,h4,_,h6⟩ := refuseWaiters_frame g.waiters g
    have hcap : g.refuseWaiters.capacity=g.capacity := by
      simp only [ExecutionGate.capacity,ExecutionGate.refuseWaiters,h3,h4]
    exact Option.some.inj hs ▸ h.frame h6 h1 hcap h2
  | closeAdmission | consumeDeferredFatalError | syncPoison | tick =>
    exact Option.some.inj hs ▸ h.frame rfl rfl rfl rfl

/-! Runs -/

theorem slotInv_initial (h : Initial g) : SlotInv none g.waiters g := by
  have hn := h.next
  have hw := h.waiters
  have hl := h.grantLog
  apply SlotInv.mk
  · rw [h.running,hn]; rfl
  · rw [hw]; exact List.Pairwise.nil
  · rw [hw]; exact fun i hi => by cases hi
  · exact fun i hi => by omega
  · exact fun i hi => by omega
  · exact fun i hi => by omega
  · rw [hl]; exact List.Pairwise.nil
  · rw [hl]; exact fun i hi => by cases hi
  · exact fun i hi => by omega
  · rw [h.running]; exact fun _ => by omega

theorem reach_slotInv {ok : ExecutionGate → GateAct → Prop} (h : Reach gateStep ok Initial g) :
    SlotInv none g.waiters g :=
  h.invariant (fun _ hg => slotInv_initial hg) (fun _ _ _ hg _ hs => hg.gateStep hs)

theorem reach_tight {ok : ExecutionGate → GateAct → Prop} (h : Reach gateStep ok Initial g) :
    Tight g :=
  h.invariant (P := Tight) (fun _ hg _ => Or.inl hg.waiters) (fun _ _ _ hg _ hs => hg.step hs)

structure SlotGuarantee (g : ExecutionGate) : Prop where
  running : g.running=tally Call.holds g.calls g.next
  unclamped : ∀i<g.next,(g.calls i).holds=true → g.release.running=g.running-1
  drained : (∀i<g.next,(g.calls i).phase=.ended) → g.running=0
  fifo : g.grantLog.Pairwise (· < ·)
  logged : ∀i<g.next,(g.calls i).holds=true → i∈g.grantLog
  ahead : ∀i<g.next,(g.calls i).phase=.waiting → (g.calls i).ready=.pending →
    i∈g.waiters ∧ ∀k∈g.grantLog,k < i
  awake : g.stale=false → ∀i<g.next,(g.calls i).phase=.waiting → (g.calls i).ready=.pending →
    g.capacity≤g.running
  steps : ∀a g',gateStep g a=some g' → StepBounds g g'

/-- Every interleaving keeps the slots counted, grants them in order and below the capacity in
force, and leaves no waiter behind a free slot but after a change of the policy. -/
theorem gate_slots (g : ExecutionGate) (h : Reach gateStep Free Initial g) : SlotGuarantee g := by
  have hinv := reach_slotInv h
  apply SlotGuarantee.mk
  · exact hinv.running
  · exact fun i hi hh => hinv.release_running hi hh
  · intro hall
    have hzero : tally Call.holds g.calls g.next=0 := by
      rw [tally_eq_zero]
      exact fun i hi => by simp [Call.holds,hall i hi]
    rw [hinv.running,hzero]
    rfl
  · exact hinv.log
  · exact hinv.logged
  · intro i hi hp hr
    have hm := hinv.kept i hi (by simp) hp hr
    exact ⟨hm,fun k hk => (hinv.behind k hk).2 i hm⟩
  · intro hs i hi hp hr
    have hm := hinv.kept i hi (by simp) hp hr
    cases reach_tight h hs with
    | inl hw => rw [hw] at hm; cases hm
    | inr hc => exact hc
  · exact fun a g' hs => hinv.step_bounds hs

/-- Two calls of a sequential gate; the second is granted when the first returns. -/
theorem gate_slots_example :
    ∃g,execute gateStep (ExecutionGate.new true ⟨false,4,8,3,60⟩)
      [.run false,.run false,.childEnd 0 .result,.discard 0,.callResume 0,.waiterResume 1]=some g ∧
      SlotGuarantee g := by
  obtain ⟨g,hg⟩ := Option.isSome_iff_exists.mp (by decide :
    (execute gateStep (ExecutionGate.new true ⟨false,4,8,3,60⟩)
      [.run false,.run false,.childEnd 0 .result,.discard 0,.callResume 0,
        .waiterResume 1]).isSome=true)
  exact ⟨g,hg,gate_slots g (Reach.execute _ (fun _ _ _ => trivial) (.start (new_initial _ _)) hg)⟩

/-- Lowering the limits leaves more calls inside than they allow; raising them leaves a waiter
behind a free slot until the waiters are granted. -/
theorem gate_outlives_policy :
    ¬(∀g,Reach gateStep Free Initial g →
      g.admittedOperations≤g.capacity+g.policy.admissionQueueLimit) ∧
    ¬(∀g,Reach gateStep Free Initial g → ∀i<g.next,(g.calls i).phase=.waiting →
      (g.calls i).ready=.pending → g.capacity≤g.running) := by
  have hinit : Reach gateStep Free Initial (ExecutionGate.new false ⟨false,1,1,3,60⟩) :=
    .start (new_initial _ _)
  constructor
  · intro hall
    obtain ⟨g,hg,ha,hc,hq⟩ : ∃g,execute gateStep (ExecutionGate.new false ⟨false,1,1,3,60⟩)
        [.run false,.run false,.setPolicy ⟨false,1,0,3,60⟩ true]=some g ∧ g.admittedOperations=2 ∧
        g.capacity=1 ∧ g.policy.admissionQueueLimit=0 := ⟨_,rfl,by decide,by decide,by decide⟩
    have hle := hall g (Reach.execute _ (fun _ _ _ => trivial) hinit hg)
    omega
  · intro hall
    obtain ⟨g,hg,hn,hp,hr,hc,hrun⟩ : ∃g,
        execute gateStep (ExecutionGate.new false ⟨false,1,1,3,60⟩)
          [.run false,.run false,.setPolicy ⟨false,2,1,3,60⟩ true]=some g ∧ 1<g.next ∧
        (g.calls 1).phase=.waiting ∧ (g.calls 1).ready=.pending ∧ g.capacity=2 ∧ g.running=1 :=
      ⟨_,rfl,by decide,by decide,by decide,by decide,by decide⟩
    have hle := hall g (Reach.execute _ (fun _ _ _ => trivial) hinit hg) 1 hn hp hr
    omega

end XiaoQing.Gate
