import XiaoQing.Gate.SlotFlow

namespace XiaoQing.Gate

open Framework ExecutionGate

structure Standing where
  allowClosed : Bool
  phase : Phase
  child : Child
  tracked : Bool
  detached : Bool
  result : Option Result

def Call.standing (c : Call) : Standing :=
  ⟨c.allowClosed,c.phase,c.child,c.tracked,c.detached,c.result⟩

def ExecutionGate.takenOver (g : ExecutionGate) : List Nat := g.deferredFatalErrors++g.surfaced

/-- What one step `a` does to call `i`. -/
inductive Turn (g g' : ExecutionGate) (a : GateAct) (i : Nat) (s : Standing) : Standing → Prop
  | same : Turn g g' a i s s
  | start (hp : s.phase=.waiting) (ha : g.available s.allowClosed=true) :
    Turn g g' a i s {s with phase := .running,child := .running,tracked := true}
  | turnedAway (r : Result) (hp : s.phase=.waiting) :
    Turn g g' a i s {s with phase := .ended,result := some r}
  | resumed (e : Ending) (r : Result) (hp : s.phase=.running) (ht : s.tracked=false)
    (hc : s.child=.done e) (hr : e=.fatal → r=.fatal) :
    Turn g g' a i s {s with phase := .ended,result := some r}
  | detach (timedOut : Bool) (hp : s.phase=.running)
    (hc : a=.callTimeout i ∨ a=.callCancel i ∨ s.child≠.done .fatal) :
    Turn g g' a i s {s with phase := .yielding timedOut,detached := true}
  | yielded (timedOut : Bool) (r : Result) (hp : s.phase=.yielding timedOut)
    (hc : a=.yieldCancel i ∨ (s.child=.running → g'.poisonedByTimeout=true)) :
    Turn g g' a i s {s with phase := .ended,result := some r}
  | childEnd (e : Ending) (hc : s.child=.running) : Turn g g' a i s {s with child := .done e}
  | discard (e : Ending) (ht : s.tracked=true) (hc : s.child=.done e)
    (hf : s.detached=true → e=.fatal → i∈g'.takenOver) :
    Turn g g' a i s {s with tracked := false,detached := false}

/-- A call comes in. -/
inductive Entry (g : ExecutionGate) : Standing → Prop
  | queued (b : Bool) (ha : g.available b=true) : Entry g ⟨b,.waiting,.absent,false,false,none⟩
  | started (b : Bool) (ha : g.available b=true) : Entry g ⟨b,.running,.running,true,false,none⟩

structure ChildStep (a : GateAct) (i : Nat) (g g' : ExecutionGate) : Prop where
  sequential : g'.sequential=g.sequential
  others : ∀k,k≠i → (g'.calls k).standing=(g.calls k).standing
  moved : g'.next=g.next ∧ Turn g g' a i (g.calls i).standing (g'.calls i).standing ∨
    i=g.next ∧ g'.next=g.next+1 ∧ Entry g (g'.calls i).standing
  poisoned : g.poisonedByTimeout=true → g'.poisonedByTimeout=true ∨
    ∀k<g'.next,Call.quarantined (g'.calls k)=false
  taken : ∀k∈g.takenOver,k∈g'.takenOver

structure Aside (g g' : ExecutionGate) : Prop where
  sequential : g'.sequential=g.sequential
  next : g'.next=g.next
  calls : ∀k,(g'.calls k).standing=(g.calls k).standing
  poisoned : g.poisonedByTimeout=true → g'.poisonedByTimeout=true
  taken : ∀k∈g.takenOver,k∈g'.takenOver

/-- Besides, call `i` is now at `s`. -/
structure Moved (g g' : ExecutionGate) (i : Nat) (s : Standing) : Prop where
  sequential : g'.sequential=g.sequential
  next : g'.next=g.next
  self : (g'.calls i).standing=s
  others : ∀k,k≠i → (g'.calls k).standing=(g.calls k).standing
  poisoned : g.poisonedByTimeout=true → g'.poisonedByTimeout=true
  taken : ∀k∈g.takenOver,k∈g'.takenOver

variable {g g' e : ExecutionGate} {a : GateAct} {i : Nat} {c : Call} {s s' : Standing}

theorem Aside.frame (hq : g'.sequential=g.sequential) (hn : g'.next=g.next) (hc : g'.calls=g.calls)
    (hp : g.poisonedByTimeout=true → g'.poisonedByTimeout=true)
    (hd : g'.deferredFatalErrors=g.deferredFatalErrors) (hs : g'.surfaced=g.surfaced) :
    Aside g g' := by
  apply Aside.mk hq hn
  · intro k
    rw [hc]
  · exact hp
  · simp only [takenOver,hd,hs,imp_self,implies_true]

theorem Aside.trans (h : Aside g e) (h' : Aside e g') : Aside g g' :=
  ⟨h'.sequential.trans h.sequential,h'.next.trans h.next,fun k => (h'.calls k).trans (h.calls k),fun hp => h'.poisoned (h.poisoned hp),
    fun k hk => h'.taken k (h.taken k hk)⟩

theorem Aside.step (h : Aside g g') : ChildStep a i g g' := by
  apply ChildStep.mk
  · exact h.sequential
  · exact fun k _ => h.calls k
  · left
    rw [h.calls i]
    exact ⟨h.next,.same⟩
  · exact fun hp => Or.inl (h.poisoned hp)
  · exact h.taken

theorem Moved.after (h : Aside g e) (h' : Moved e g' i s) : Moved g g' i s :=
  ⟨h'.sequential.trans h.sequential,h'.next.trans h.next,h'.self,fun k hk => (h'.others k hk).trans (h.calls k),
    fun hp => h'.poisoned (h.poisoned hp),fun k hk => h'.taken k (h.taken k hk)⟩

theorem Moved.before (h : Moved g e i s) (h' : Aside e g') : Moved g g' i s :=
  ⟨h'.sequential.trans h.sequential,h'.next.trans h.next,(h'.calls i).trans h.self,fun k hk => (h'.calls k).trans (h.others k hk),
    fun hp => h'.poisoned (h.poisoned hp),fun k hk => h'.taken k (h.taken k hk)⟩

theorem Moved.step (h : Moved g g' i s) (ht : Turn g g' a i (g.calls i).standing s) :
    ChildStep a i g g' := by
  apply ChildStep.mk
  · exact h.sequential
  · exact h.others
  · left
    rw [h.self]
    exact ⟨h.next,ht⟩
  · exact fun hp => Or.inl (h.poisoned hp)
  · exact h.taken

theorem setCall_moved (g : ExecutionGate) (i : Nat) (c : Call) :
    Moved g (g.setCall i c) i c.standing := by
  constructor
  · rfl
  · rfl
  · rw [setCall_self]
  · intro k hk
    rw [setCall_ne g c hk]
  · exact fun hp => hp
  · exact fun _ hk => hk

theorem setCall_aside (hc : c.standing=(g.calls i).standing) : Aside g (g.setCall i c) := by
  constructor
  · rfl
  · rfl
  · intro k
    by_cases hk : k=i
    · subst k
      rw [setCall_self,hc]
    · rw [setCall_ne g c hk]
  · exact fun hp => hp
  · exact fun _ hk => hk

theorem grantLoop_aside (ws : List Nat) (g : ExecutionGate) : Aside g (grantLoop ws g) := by
  induction ws generalizing g with
  | nil => exact .frame rfl rfl rfl (fun hp => hp) rfl rfl
  | cons i rest ih =>
    simp only [ExecutionGate.grantLoop]
    split_ifs
    · exact ih g
    · have hclose : Aside g (g.closeWaiter i) := setCall_aside rfl
      exact hclose.trans (ih (g.closeWaiter i))
    · have hset : Aside g (g.setCall i {g.calls i with ready := .granted,waiterGranted := true}) :=
        setCall_aside rfl
      have hgrant : Aside g (g.grant i) := hset.trans (.frame rfl rfl rfl (fun hp => hp) rfl rfl)
      exact hgrant.trans (ih (g.grant i))
    · exact .frame rfl rfl rfl (fun hp => hp) rfl rfl

theorem grantWaiters_aside (g : ExecutionGate) : Aside g g.grantWaiters := by
  have hfresh : Aside g {g with stale := false} := .frame rfl rfl rfl (fun hp => hp) rfl rfl
  exact hfresh.trans (grantLoop_aside g.waiters _)

theorem release_aside (g : ExecutionGate) : Aside g g.release :=
  .frame rfl rfl rfl (fun hp => hp) rfl rfl

theorem recordFailure_aside (g : ExecutionGate) (forceOpen : Bool) :
    Aside g (g.recordFailure forceOpen) := .frame rfl rfl rfl (fun hp => hp) rfl rfl

theorem removeOrReleaseWaiter_aside (g : ExecutionGate) (i : Nat) :
    Aside g (g.removeOrReleaseWaiter i) := by
  simp only [ExecutionGate.removeOrReleaseWaiter]
  split_ifs
  · have hset : Aside g.release (g.release.setCall i {g.calls i with waiterGranted := false}) :=
      setCall_aside rfl
    exact ((release_aside g).trans hset).trans (grantWaiters_aside _)
  · have herase : Aside g {g with waiters := g.waiters.erase i} :=
      .frame rfl rfl rfl (fun hp => hp) rfl rfl
    exact herase.trans (grantWaiters_aside _)

theorem refuseWaiters_aside (g : ExecutionGate) : Aside g g.refuseWaiters := by
  have hfold : ∀(ds : List Nat) (e : ExecutionGate),Aside e (ds.foldl (fun g i =>
      if (g.calls i).allowClosed=false ∧ (g.calls i).ready=.pending then g.closeWaiter i else g) e) := by
    intro ds
    induction ds with
    | nil => exact fun e => .frame rfl rfl rfl (fun hp => hp) rfl rfl
    | cons i ds ih =>
      intro e
      rw [List.foldl_cons]
      apply Aside.trans _ (ih _)
      split_ifs
      · exact setCall_aside rfl
      · exact .frame rfl rfl rfl (fun hp => hp) rfl rfl
  exact hfold g.waiters g

theorem finishRun_moved (g : ExecutionGate) (i : Nat) (r : Result) :
    Moved g (g.finishRun i r) i {(g.calls i).standing with phase := .ended,result := some r} := by
  simp only [ExecutionGate.finishRun]
  split_ifs
  · have hset := setCall_moved g.release i {g.calls i with phase := .ended,result := some r}
    exact (hset.after (release_aside g)).before (grantWaiters_aside _)
  · have hset := setCall_moved g i {g.calls i with phase := .ended,result := some r}
    exact hset.before (grantWaiters_aside _)

theorem startRun_moved (g : ExecutionGate) (i : Nat) :
    g.available (g.calls i).allowClosed=true ∧ Moved g (g.startRun i) i
      {(g.calls i).standing with phase := .running,child := .running,tracked := true} ∨
    g.available (g.calls i).allowClosed=false ∧ Moved g (g.startRun i) i
      {(g.calls i).standing with phase := .ended,result := some .refused} := by
  simp only [ExecutionGate.startRun]
  split_ifs with ha
  · exact Or.inl ⟨ha,setCall_moved g i _⟩
  · exact Or.inr ⟨by simpa using ha,finishRun_moved g i .refused⟩

theorem resumeWaiter_step (hp : (g.calls i).phase=.waiting) (hs : g.resumeWaiter i=some g') :
    ChildStep a i g g' := by
  simp only [ExecutionGate.resumeWaiter] at hs
  split at hs
  · cases hs
  · set e := g.setCall i {g.calls i with granted := (g.calls i).waiterGranted} with he
    have hset : Aside g e := setCall_aside rfl
    have hcall : (e.calls i).standing=(g.calls i).standing := hset.calls i
    have hallow : (e.calls i).allowClosed=(g.calls i).allowClosed := congrArg Standing.allowClosed hcall
    cases startRun_moved e i with
    | inl h =>
      rw [hcall,hallow] at h
      exact Option.some.inj hs ▸ (h.2.after hset).step (.start hp h.1)
    | inr h =>
      rw [hcall] at h
      exact Option.some.inj hs ▸ (h.2.after hset).step (.turnedAway .refused hp)
  · have haside := removeOrReleaseWaiter_aside g i
    have hmoved := finishRun_moved (g.removeOrReleaseWaiter i) i .refused
    rw [haside.calls i] at hmoved
    exact Option.some.inj hs ▸ (hmoved.after haside).step (.turnedAway .refused hp)

theorem run_step (g : ExecutionGate) (allowClosed : Bool) : ∃i,ChildStep a i g (g.run allowClosed) := by
  have hstay : ChildStep a 0 g g := (Aside.frame rfl rfl rfl (fun hp => hp) rfl rfl).step
  simp only [ExecutionGate.run]
  split_ifs with h1 h2 h3
  · exact ⟨0,hstay⟩
  · exact ⟨0,hstay⟩
  · have hopen : g.available allowClosed=true := by simpa using h1
    set e : ExecutionGate := {g.setCall g.next (.new allowClosed g.policy.timed true) with
      next := g.next+1,running := g.running+1,grantLog := g.grantLog++[g.next]} with he
    have hself : e.calls g.next=.new allowClosed g.policy.timed true := setCall_self g g.next _
    have hcheck : e.available (e.calls g.next).allowClosed=true := by rw [hself]; exact hopen
    have hstart : Moved e (e.startRun g.next) g.next ⟨allowClosed,.running,.running,true,false,none⟩ := by
      cases startRun_moved e g.next with
      | inl h => rw [hself] at h; exact h.2
      | inr h => rw [hcheck] at h; cases h.1
    refine ⟨g.next,?_⟩
    apply ChildStep.mk
    · exact hstart.sequential
    · intro k hk
      rw [hstart.others k hk]
      exact congrArg Call.standing (setCall_ne g _ hk)
    · right
      rw [hstart.self]
      exact ⟨rfl,hstart.next,.started allowClosed hopen⟩
    · exact fun hp => Or.inl (hstart.poisoned hp)
    · exact hstart.taken
  · have hopen : g.available allowClosed=true := by simpa using h1
    refine ⟨g.next,?_⟩
    apply ChildStep.mk
    · rfl
    · exact fun k hk => congrArg Call.standing (setCall_ne g _ hk)
    · right
      refine ⟨rfl,rfl,?_⟩
      show Entry g ((g.setCall g.next (.new allowClosed g.policy.timed false)).calls g.next).standing
      rw [setCall_self]
      exact .queued allowClosed hopen
    · exact fun hp => Or.inl hp
    · exact fun _ hk => hk

theorem detachChild_step (hp : (g.calls i).phase=.running) (timedOut : Bool)
    (hc : a=.callTimeout i ∨ a=.callCancel i ∨ (g.calls i).child≠.done .fatal) :
    ChildStep a i g (g.detachChild i timedOut) :=
  (setCall_moved g i _).step (.detach timedOut hp hc)

theorem resumeCall_step {e : Ending} (hp : (g.calls i).phase=.running)
    (ht : (g.calls i).tracked=false) (hc : (g.calls i).child=.done e) :
    ChildStep a i g (g.resumeCall i e) := by
  have hsuccess : Aside g g.recordSuccess := .frame rfl rfl rfl (fun hp => hp) rfl rfl
  have hfail := recordFailure_aside g
  cases e with
  | result =>
    have hmoved := (finishRun_moved g.recordSuccess i .returned).after hsuccess
    exact hmoved.step (.resumed .result .returned hp ht hc (fun he => by cases he))
  | exception =>
    have hmoved := (finishRun_moved (g.recordFailure false) i .failed).after (hfail false)
    exact hmoved.step (.resumed .exception .failed hp ht hc (fun he => by cases he))
  | refused =>
    exact (finishRun_moved g i .refused).step (.resumed .refused .refused hp ht hc (fun he => by cases he))
  | fatal =>
    have hmoved := (finishRun_moved (g.recordFailure false) i .fatal).after (hfail false)
    exact hmoved.step (.resumed .fatal .fatal hp ht hc (fun _ => rfl))
  | timeoutError =>
    have hmoved := (setCall_moved (g.recordFailure true) i {g.calls i with
      phase := .yielding true,detached := true}).after (hfail true)
    exact hmoved.step (.detach true hp (Or.inr (Or.inr (by simp [Call.standing,hc]))))
  | cancelled =>
    exact detachChild_step hp false (Or.inr (Or.inr (by simp [hc])))

theorem yieldResume_step {timedOut : Bool} (hy : (g.calls i).phase=.yielding timedOut) (r : Result) :
    ChildStep a i g ((g.markUnfinishedChild i).finishRun i r) := by
  have hmark : Aside g (g.markUnfinishedChild i) ∧
      ((g.calls i).child=.running → (g.markUnfinishedChild i).poisonedByTimeout=true) := by
    simp only [ExecutionGate.markUnfinishedChild]
    split_ifs with hc
    · exact ⟨.frame rfl rfl rfl (fun _ => rfl) rfl rfl,fun _ => rfl⟩
    · exact ⟨.frame rfl rfl rfl (fun hp => hp) rfl rfl,fun hx => absurd hx hc⟩
  have hmoved := finishRun_moved (g.markUnfinishedChild i) i r
  rw [hmark.1.calls i] at hmoved
  have hturn : (g.calls i).child=.running →
      ((g.markUnfinishedChild i).finishRun i r).poisonedByTimeout=true :=
    fun hc => hmoved.poisoned (hmark.2 hc)
  exact (hmoved.after hmark.1).step (.yielded timedOut r hy (Or.inr hturn))

theorem discardOperationTask_frame (g : ExecutionGate) (i : Nat) :
    (g.discardOperationTask i).calls=
      (g.setCall i {g.calls i with tracked := false,detached := false}).calls ∧
    (g.discardOperationTask i).sequential=g.sequential ∧
    (g.discardOperationTask i).next=g.next ∧
    (g.discardOperationTask i).surfaced=g.surfaced ∧
    (g.discardOperationTask i).deferredFatalErrors=
      if (g.calls i).detached=true ∧ (g.calls i).child=.done .fatal then g.deferredFatalErrors++[i]
      else g.deferredFatalErrors := by
  simp only [ExecutionGate.discardOperationTask]
  split <;> exact ⟨rfl,rfl,rfl,rfl,rfl⟩

theorem discardOperationTask_poisoned (hp : g.poisonedByTimeout=true) :
    (g.discardOperationTask i).poisonedByTimeout=true ∨
      ∀k<g.next,Call.quarantined ((g.discardOperationTask i).calls k)=false := by
  rw [(discardOperationTask_frame g i).1]
  simp only [ExecutionGate.discardOperationTask]
  split
  · exact Or.inl hp
  · rename_i hq
    right
    intro k hk
    simp only [List.any_eq_true,List.mem_range,not_exists,not_and,Bool.not_eq_true] at hq
    exact hq k hk

theorem discardOperationTask_step {e : Ending} (ht : (g.calls i).tracked=true)
    (hc : (g.calls i).child=.done e) : ChildStep a i g (g.discardOperationTask i) := by
  obtain ⟨hcalls,hseq,hnext,hsurfaced,hdeferred⟩ := discardOperationTask_frame g i
  have hset := setCall_moved g i {g.calls i with tracked := false,detached := false}
  apply ChildStep.mk
  · exact hseq
  · intro k hk
    rw [hcalls]
    exact hset.others k hk
  · left
    rw [hcalls,hset.self]
    refine ⟨hnext,.discard e ht hc ?_⟩
    intro hdet hfatal
    have hdet' : (g.calls i).detached=true := hdet
    rw [takenOver,hdeferred,if_pos ⟨hdet',hfatal ▸ hc⟩]
    simp
  · intro hp
    rw [hnext]
    exact discardOperationTask_poisoned hp
  · intro k hk
    rw [takenOver,hsurfaced,hdeferred]
    rw [takenOver] at hk
    cases List.mem_append.mp hk with
    | inl hd => split_ifs <;> simp [hd]
    | inr hs => exact List.mem_append_right _ hs

theorem gateStep_child (hs : gateStep g a=some g') : ∃i,ChildStep a i g g' := by
  have quiet {e : ExecutionGate} (h : Aside g e) : ∃i,ChildStep a i g e := ⟨0,h.step⟩
  cases a with simp only [gateStep] at hs
  | run allowClosed =>
    exact Option.some.inj hs ▸ run_step g allowClosed
  | waiterResume i =>
    split_ifs at hs with hpre
    exact ⟨i,resumeWaiter_step hpre.2 hs⟩
  | waiterTimeout i =>
    split_ifs at hs with hpre
    have haside := (removeOrReleaseWaiter_aside g i).trans (recordFailure_aside _ true)
    have hmoved := finishRun_moved ((g.removeOrReleaseWaiter i).recordFailure true) i .timedOut
    rw [haside.calls i] at hmoved
    exact ⟨i,Option.some.inj hs ▸ (hmoved.after haside).step (.turnedAway .timedOut hpre.2.1)⟩
  | waiterCancel i =>
    split_ifs at hs with hpre
    have haside := removeOrReleaseWaiter_aside g i
    have hmoved := finishRun_moved (g.removeOrReleaseWaiter i) i .cancelled
    rw [haside.calls i] at hmoved
    exact ⟨i,Option.some.inj hs ▸ (hmoved.after haside).step (.turnedAway .cancelled hpre.2)⟩
  | childEnd i e =>
    split_ifs at hs with hpre
    exact ⟨i,Option.some.inj hs ▸ (setCall_moved g i _).step (.childEnd e hpre.2)⟩
  | discard i =>
    split at hs
    · rename_i e hc
      split_ifs at hs with hpre
      exact ⟨i,Option.some.inj hs ▸ discardOperationTask_step hpre.2 hc⟩
    · cases hs
  | callResume i =>
    split at hs
    · rename_i e hc
      split_ifs at hs with hpre
      exact ⟨i,Option.some.inj hs ▸ resumeCall_step hpre.2.1 hpre.2.2 hc⟩
    · cases hs
  | callTimeout i =>
    split_ifs at hs with hpre
    have hset := (setCall_moved (g.recordFailure true) i {g.calls i with
      phase := .yielding true,detached := true}).after (recordFailure_aside g true)
    exact ⟨i,Option.some.inj hs ▸ hset.step (.detach true hpre.2.1 (Or.inl rfl))⟩
  | callCancel i =>
    split_ifs at hs with hpre
    exact ⟨i,Option.some.inj hs ▸ detachChild_step hpre.2 false (Or.inr (Or.inl rfl))⟩
  | yieldResume i =>
    split at hs
    · rename_i timedOut hy
      by_cases hi : i<g.next
      · rw [if_pos hi] at hs
        exact ⟨i,Option.some.inj hs ▸ yieldResume_step hy _⟩
      · rw [if_neg hi] at hs
        cases hs
    · cases hs
  | yieldCancel i =>
    split at hs
    · rename_i timedOut hy
      split_ifs at hs
      exact ⟨i,Option.some.inj hs ▸
        (finishRun_moved g i .cancelled).step (.yielded timedOut .cancelled hy (Or.inl rfl))⟩
    · cases hs
  | setPolicy p onLoop =>
    by_cases hp : 1≤p.parallelLimit
    · rw [if_pos hp] at hs
      exact Option.some.inj hs ▸ quiet (.frame rfl rfl rfl (fun hp => hp) rfl rfl)
    · rw [if_neg hp] at hs
      cases hs
  | reconcile =>
    split_ifs at hs
    have hdec : Aside g {g with reconciles := g.reconciles-1} :=
      .frame rfl rfl rfl (fun hp => hp) rfl rfl
    exact Option.some.inj hs ▸ quiet (hdec.trans (grantWaiters_aside _))
  | refuseWaiters =>
    exact Option.some.inj hs ▸ quiet (refuseWaiters_aside g)
  | consumeDeferredFatalError =>
    have hconsume : Aside g {g with
        deferredFatalErrors := g.deferredFatalErrors.tail
        surfaced := g.surfaced++g.deferredFatalErrors.take 1} := by
      constructor
      · rfl
      · rfl
      · exact fun _ => rfl
      · exact fun hp => hp
      · intro k hk
        simp only [takenOver,List.mem_append] at hk ⊢
        cases hd : g.deferredFatalErrors with
        | nil => simpa [hd] using hk
        | cons d ds =>
          rw [hd] at hk
          simp only [List.mem_cons,List.tail_cons,List.take_succ_cons,List.take_zero,
            List.not_mem_nil,or_false] at hk ⊢
          tauto
    exact Option.some.inj hs ▸ quiet hconsume
  | holdForPublication | releasePublicationHold =>
    split_ifs at hs
    exact Option.some.inj hs ▸ quiet (.frame rfl rfl rfl (fun hp => hp) rfl rfl)
  | closeAdmission | syncPoison | tick =>
    exact Option.some.inj hs ▸ quiet (.frame rfl rfl rfl (fun hp => hp) rfl rfl)

end XiaoQing.Gate
