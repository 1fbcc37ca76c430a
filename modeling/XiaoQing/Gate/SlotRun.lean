import XiaoQing.Gate.Slots

namespace XiaoQing.Gate

open Framework ExecutionGate

variable {limbo limbo' : Option Nat} {g g' : ExecutionGate} {i k : Nat} {c : Call} {n : Int}
  {ws ws' log : List Nat}

/-! Entering -/

theorem SlotInv.push (h : SlotInv none ws g) (hn : n=g.running+c.holds.toNat)
    (hsingle : g.sequential=true → n≤1) (hnew : c.phase=.waiting)
    (hlimbo : ∀k,k≠g.next → limbo≠some k) (hws : ws'=ws ∨ ws'=ws++[g.next])
    (hq : g.next∈ws' → c.waiterGranted=false ∧ limbo≠some g.next)
    (hk : limbo≠some g.next → c.ready=.pending → g.next∈ws')
    (hh : limbo≠some g.next → c.granted=false ∧ (c.ready=.granted → c.waiterGranted=true))
    (hlog : log=g.grantLog ∨ log=g.grantLog++[g.next] ∧ ws'=[])
    (hl : c.holds=true → g.next∈log) :
    SlotInv limbo ws' {g.setCall g.next c with next := g.next+1,running := n,grantLog := log} := by
  have hcall (k : Nat) (hne : k≠g.next) : (g.setCall g.next c).calls k=g.calls k := setCall_ne g c hne
  have hself : (g.setCall g.next c).calls g.next=c := setCall_self g g.next c
  have hold : ∀k∈ws,k<g.next := fun k hk => (h.queued k hk).1
  have hmem : ∀k∈ws',k∈ws ∨ k=g.next := by
    intro k hk
    cases hws with
    | inl he => rw [he] at hk; exact Or.inl hk
    | inr he => rw [he] at hk; simpa using hk
  have hkeep : ∀k∈ws,k∈ws' := by
    intro k hk
    cases hws with
    | inl he => rw [he]; exact hk
    | inr he => rw [he]; exact List.mem_append_left _ hk
  have hlogged : ∀k∈g.grantLog,k∈log := by
    intro k hk
    cases hlog with
    | inl he => rw [he]; exact hk
    | inr he => rw [he.1]; exact List.mem_append_left _ hk
  apply SlotInv.mk
  · have ht := tally_push Call.holds g.calls g.next c
    have hr := h.running
    show n=(tally Call.holds (Function.update g.calls g.next c) (g.next+1) : Int)
    omega
  · cases hws with
    | inl he => rw [he]; exact h.sorted
    | inr he =>
      rw [he,List.pairwise_append]
      exact ⟨h.sorted,List.pairwise_singleton _ _,fun a ha b hb => by
        rw [List.mem_singleton.mp hb]; exact hold a ha⟩
  · intro k hm
    by_cases hkn : k=g.next
    · subst k
      obtain ⟨q1,q2⟩ := hq hm
      exact ⟨Nat.lt_succ_self _,by rw [hself]; exact hnew,by rw [hself]; exact q1,q2⟩
    · obtain ⟨h1,h2,h3,_⟩ := h.queued k ((hmem k hm).resolve_right hkn)
      exact ⟨Nat.lt_succ_of_lt h1,by rw [hcall k hkn]; exact h2,by rw [hcall k hkn]; exact h3,
        hlimbo k hkn⟩
  · intro k hlt hx hp hready
    by_cases hkn : k=g.next
    · subst k
      rw [hself] at hready
      exact hk hx hready
    · rw [hcall k hkn] at hp hready
      exact hkeep k (h.kept k (by show k<g.next; have : k<g.next+1 := hlt; omega) (by simp) hp hready)
  · intro k hlt hx hp
    by_cases hkn : k=g.next
    · subst k
      rw [hself]
      exact hh hx
    · rw [hcall k hkn] at hp ⊢
      exact h.handed k (by have : k<g.next+1 := hlt; omega) (by simp) hp
  · intro k hlt hp he
    by_cases hkn : k=g.next
    · subst k
      rw [hself] at hp
      exact absurd hnew hp
    · rw [hcall k hkn] at hp he ⊢
      exact h.owned k (by have : k<g.next+1 := hlt; omega) hp he
  · cases hlog with
    | inl he => rw [he]; exact h.log
    | inr he =>
      rw [he.1,List.pairwise_append]
      exact ⟨h.log,List.pairwise_singleton _ _,fun a ha b hb => by
        rw [List.mem_singleton.mp hb]; exact (h.behind a ha).1⟩
  · intro k hm
    cases hlog with
    | inl he =>
      have hk' : k∈g.grantLog := he ▸ hm
      obtain ⟨h1,h2⟩ := h.behind k hk'
      refine ⟨Nat.lt_succ_of_lt h1,fun w hw => ?_⟩
      cases hmem w hw with
      | inl hw' => exact h2 w hw'
      | inr hw' => rw [hw']; exact h1
    | inr he =>
      have hk' : k∈g.grantLog++[g.next] := he.1 ▸ hm
      have hlt : k<g.next+1 := by
        cases List.mem_append.mp hk' with
        | inl hk1 => exact Nat.lt_succ_of_lt (h.behind k hk1).1
        | inr hk1 => rw [List.mem_singleton.mp hk1]; exact Nat.lt_succ_self _
      exact ⟨hlt,fun w hw => by rw [he.2] at hw; cases hw⟩
  · intro k hlt hholds
    by_cases hkn : k=g.next
    · subst k
      rw [hself] at hholds
      exact hl hholds
    · rw [hcall k hkn] at hholds
      exact hlogged k (h.logged k (by have : k<g.next+1 := hlt; omega) hholds)
  · exact hsingle

theorem SlotInv.startRun (h : SlotInv (some i) g.waiters g) (hi : i<g.next)
    (hp : (g.calls i).phase=.waiting) (hg : (g.calls i).granted=true) :
    SlotInv none (g.startRun i).waiters (g.startRun i) := by
  have hholds : (g.calls i).holds=true := by simp [Call.holds,hp,hg]
  have hout := h.not_queued (Or.inr (Or.inr rfl))
  simp only [ExecutionGate.startRun]
  split_ifs
  · have hrun : ({g.calls i with phase := .running,child := .running,tracked := true} : Call).holds=
        true := by simp [Call.holds,hg]
    have hw : SlotInv none g.waiters {g.setCall i {g.calls i with
        phase := .running,child := .running,tracked := true} with running := g.running} := by
      apply h.write hi
      · rw [hholds,hrun]
      · exact h.single
      · exact fun k hk => iff_of_false (by simp) (by simpa using Ne.symm hk)
      · exact fun hm => absurd hm hout
      · exact fun _ hx => by cases hx
      · exact fun _ hx => by cases hx
      · exact fun _ _ => hg
      · exact fun _ => h.logged i hi hholds
    exact hw
  · exact h.finishRun hi (fun k hk => by simpa using Ne.symm hk) hout (hholds.trans hg.symm) _

theorem SlotInv.run (h : SlotInv none g.waiters g) (allowClosed : Bool) :
    SlotInv none (g.run allowClosed).waiters (g.run allowClosed) := by
  simp only [ExecutionGate.run]
  split_ifs with h1 h2 h3
  · exact h
  · exact h
  · have hfree : (Call.new allowClosed g.policy.timed true).holds=true := by
      simp [Call.holds,Call.new]
    have hpush : SlotInv (some g.next) g.waiters {g.setCall g.next
        (.new allowClosed g.policy.timed true) with
          next := g.next+1,running := g.running+1,grantLog := g.grantLog++[g.next]} := by
      apply h.push
      · rw [hfree]; rfl
      · intro hs
        have hcap := capacity_sequential g hs
        omega
      · rfl
      · exact fun k hk => by simpa using Ne.symm hk
      · exact Or.inl rfl
      · intro hm
        rw [h3.2] at hm
        cases hm
      · exact fun hx => absurd rfl hx
      · exact fun hx => absurd rfl hx
      · exact Or.inr ⟨rfl,h3.2⟩
      · exact fun _ => List.mem_append_right _ (List.mem_singleton.mpr rfl)
    apply hpush.startRun (Nat.lt_succ_self _)
    · exact congrArg Call.phase (setCall_self g g.next _)
    · exact congrArg Call.granted (setCall_self g g.next _)
  · have hfree : (Call.new allowClosed g.policy.timed false).holds=false := by
      simp [Call.holds,Call.new]
    have hpush : SlotInv none (g.waiters++[g.next]) {g.setCall g.next
        (.new allowClosed g.policy.timed false) with
          next := g.next+1,running := g.running,grantLog := g.grantLog} := by
      apply h.push
      · rw [hfree]; simp
      · exact h.single
      · rfl
      · exact fun _ _ => by simp
      · exact Or.inr rfl
      · exact fun _ => ⟨rfl,by simp⟩
      · exact fun _ _ => List.mem_append_right _ (List.mem_singleton.mpr rfl)
      · exact fun _ => ⟨rfl,fun hx => by cases hx⟩
      · exact Or.inl rfl
      · intro hx
        rw [hfree] at hx
        cases hx
    exact hpush.frame rfl rfl rfl rfl rfl

theorem SlotInv.resumeWaiter (h : SlotInv none g.waiters g) (hi : i<g.next)
    (hp : (g.calls i).phase=.waiting) (hs : g.resumeWaiter i=some g') :
    SlotInv none g'.waiters g' := by
  simp only [ExecutionGate.resumeWaiter] at hs
  split at hs
  · cases hs
  · rename_i hr
    obtain ⟨hg,hw⟩ := h.handed i hi (by simp) hp
    have hw := hw hr
    have hholds : (g.calls i).holds=true := by simp [Call.holds,hp,hw]
    have hafter : ({g.calls i with granted := (g.calls i).waiterGranted} : Call).holds=true := by
      simp [Call.holds,hp,hw]
    have hset : SlotInv (some i) g.waiters {g.setCall i {g.calls i with
        granted := (g.calls i).waiterGranted} with running := g.running} := by
      apply h.write hi
      · rw [hholds,hafter]
      · exact h.single
      · exact fun k hk => iff_of_false (by simpa using Ne.symm hk) (by simp)
      · exact fun hm => absurd hm (h.not_queued (Or.inr (Or.inl hw)))
      · exact fun hx => absurd rfl hx
      · exact fun hx => absurd rfl hx
      · exact fun hx => absurd hp hx
      · exact fun _ => h.logged i hi hholds
    have hself := setCall_self g i {g.calls i with granted := (g.calls i).waiterGranted}
    have hp' : ((g.setCall i {g.calls i with
        granted := (g.calls i).waiterGranted}).calls i).phase=.waiting := by rw [hself]; exact hp
    have hg' : ((g.setCall i {g.calls i with
        granted := (g.calls i).waiterGranted}).calls i).granted=true := by rw [hself]; exact hw
    exact Option.some.inj hs ▸ SlotInv.startRun (g := g.setCall i {g.calls i with
      granted := (g.calls i).waiterGranted}) hset hi hp' hg'
  · exact Option.some.inj hs ▸ h.giveUp hi hp .refused

/-! The child -/

theorem SlotInv.setChild (h : SlotInv none g.waiters g) (hi : i<g.next)
    (hp : c.phase=(g.calls i).phase ∨
      (g.calls i).phase=.running ∧ c.phase≠.waiting ∧ c.phase≠.ended)
    (hr : c.ready=(g.calls i).ready) (hw : c.waiterGranted=(g.calls i).waiterGranted)
    (hg : c.granted=(g.calls i).granted) : SlotInv none g.waiters (g.setCall i c) := by
  have hholds : c.holds=(g.calls i).holds := by
    cases hp with
    | inl he => simp [Call.holds,he,hw,hg]
    | inr he => simp [Call.holds,he.1,he.2.2,hw,hg]
  have hset : SlotInv none g.waiters {g.setCall i c with running := g.running} := by
    apply h.write hi
    · rw [hholds]
    · exact h.single
    · exact fun _ _ => Iff.rfl
    · intro hm
      obtain ⟨_,h2,h3,h4⟩ := h.queued i hm
      cases hp with
      | inl he => exact ⟨he.trans h2,hw.trans h3,h4⟩
      | inr he => rw [h2] at he; cases he.1
    · intro hx hq hready
      cases hp with
      | inl he => exact h.kept i hi hx (he ▸ hq) (hr ▸ hready)
      | inr he => exact absurd hq he.2.1
    · intro hx hq
      cases hp with
      | inl he =>
        obtain ⟨h1,h2⟩ := h.handed i hi hx (he ▸ hq)
        exact ⟨hg.trans h1,fun hy => hw.trans (h2 (hr ▸ hy))⟩
      | inr he => exact absurd hq he.2.1
    · intro hq he'
      cases hp with
      | inl he => exact hg.trans (h.owned i hi (he ▸ hq) (he ▸ he'))
      | inr he => exact hg.trans (h.owned i hi (by simp [he.1]) (by simp [he.1]))
    · intro hx
      exact h.logged i hi (hholds ▸ hx)
  exact hset

theorem SlotInv.leave (h : SlotInv none g.waiters g) (hi : i<g.next)
    (hp : (g.calls i).phase≠.waiting) (he : (g.calls i).phase≠.ended) (r : Result) :
    SlotInv none (g.finishRun i r).waiters (g.finishRun i r) := by
  have hg := h.owned i hi hp he
  exact h.finishRun hi (fun _ _ => by simp) (h.not_queued (Or.inl hp)) (by simp [Call.holds,he,hg]) r

theorem SlotInv.detachChild (h : SlotInv none g.waiters g) (hi : i<g.next)
    (hp : (g.calls i).phase=.running) (timedOut : Bool) :
    SlotInv none (g.detachChild i timedOut).waiters (g.detachChild i timedOut) :=
  h.setChild (c := {g.calls i with phase := .yielding timedOut,detached := true}) hi
    (Or.inr ⟨hp,by simp,by simp⟩) rfl rfl rfl

theorem SlotInv.recordFailure (h : SlotInv none g.waiters g) (forceOpen : Bool) :
    SlotInv none (g.recordFailure forceOpen).waiters (g.recordFailure forceOpen) :=
  h.frame rfl rfl rfl rfl rfl

theorem SlotInv.resumeCall (h : SlotInv none g.waiters g) (hi : i<g.next)
    (hp : (g.calls i).phase=.running) (e : Ending) :
    SlotInv none (g.resumeCall i e).waiters (g.resumeCall i e) := by
  have hw : (g.calls i).phase≠.waiting := by simp [hp]
  have he : (g.calls i).phase≠.ended := by simp [hp]
  have hfail (b : Bool) := h.recordFailure b
  have hsuccess : SlotInv none g.recordSuccess.waiters g.recordSuccess := h.frame rfl rfl rfl rfl rfl
  cases e with
  | result => exact hsuccess.leave hi hw he .returned
  | exception => exact (hfail false).leave hi hw he .failed
  | refused => exact h.leave hi hw he .refused
  | timeoutError => exact (hfail true).detachChild hi hp true
  | fatal => exact (hfail false).leave hi hw he .fatal
  | cancelled => exact h.detachChild hi hp false

theorem SlotInv.discardOperationTask (h : SlotInv none g.waiters g) (hi : i<g.next) :
    SlotInv none (g.discardOperationTask i).waiters (g.discardOperationTask i) := by
  have hset := h.setChild (c := {g.calls i with
    tracked := false
    detached := false}) hi (Or.inl rfl) rfl rfl rfl
  simp only [ExecutionGate.discardOperationTask]
  split
  · exact hset.frame rfl rfl rfl rfl rfl
  · exact hset.frame rfl rfl rfl rfl rfl

theorem refuseWaiters_frame (ds : List Nat) (g : ExecutionGate) :
    let e := ds.foldl (fun g i => if (g.calls i).allowClosed=false ∧ (g.calls i).ready=.pending
      then g.closeWaiter i else g) g
    e.waiters=g.waiters ∧ e.running=g.running ∧ e.policy=g.policy ∧ e.sequential=g.sequential ∧
      e.grantLog=g.grantLog ∧ e.stale=g.stale := by
  induction ds generalizing g with
  | nil => exact ⟨rfl,rfl,rfl,rfl,rfl,rfl⟩
  | cons i ds ih =>
    obtain ⟨h1,h2,h3,h4,h5,h6⟩ := ih (if (g.calls i).allowClosed=false ∧ (g.calls i).ready=.pending
      then g.closeWaiter i else g)
    simp only [List.foldl_cons]
    rw [h1,h2,h3,h4,h5,h6]
    split_ifs <;> exact ⟨rfl,rfl,rfl,rfl,rfl,rfl⟩

theorem SlotInv.refuseWaiters (h : SlotInv none g.waiters g) :
    SlotInv none g.refuseWaiters.waiters g.refuseWaiters := by
  have hfold : ∀(ds : List Nat) (e : ExecutionGate),(∀w∈ds,w∈g.waiters) → SlotInv none g.waiters e →
      SlotInv none g.waiters (ds.foldl (fun g i => if (g.calls i).allowClosed=false ∧
        (g.calls i).ready=.pending then g.closeWaiter i else g) e) := by
    intro ds
    induction ds with
    | nil => exact fun e _ he => he
    | cons i ds ih =>
      intro e hds he
      apply ih _ (fun w hw => hds w (List.mem_cons_of_mem i hw))
      dsimp only
      split_ifs
      · exact he.closeWaiter (hds i List.mem_cons_self)
      · exact he
  simp only [ExecutionGate.refuseWaiters,refuseWaiters_frame]
  exact hfold g.waiters g (fun _ hw => hw) h

theorem SlotInv.gateStep {a : GateAct} (h : SlotInv none g.waiters g) (hs : gateStep g a=some g') :
    SlotInv none g'.waiters g' := by
  cases a with simp only [Gate.gateStep] at hs
  | run allowClosed =>
    exact Option.some.inj hs ▸ h.run allowClosed
  | waiterResume i =>
    split_ifs at hs with hpre
    exact h.resumeWaiter hpre.1 hpre.2 hs
  | waiterTimeout i =>
    split_ifs at hs with hpre
    obtain ⟨hi,hp,_⟩ := hpre
    obtain ⟨hout,hg,hholds⟩ := h.removed hi hp
    have hfail : SlotInv (some i) (g.removeOrReleaseWaiter i).waiters
        ((g.removeOrReleaseWaiter i).recordFailure true) :=
      (h.removeOrReleaseWaiter hi hp).frame rfl rfl rfl rfl rfl
    have hnext : i<(g.removeOrReleaseWaiter i).next := by rw [removeOrReleaseWaiter_next]; exact hi
    exact Option.some.inj hs ▸ SlotInv.finishRun (g := (g.removeOrReleaseWaiter i).recordFailure true)
      hfail hnext (fun k hk => by simpa using Ne.symm hk) hout (hholds.trans hg.symm) .timedOut
  | waiterCancel i =>
    split_ifs at hs with hpre
    exact Option.some.inj hs ▸ h.giveUp hpre.1 hpre.2 .cancelled
  | childEnd i e =>
    split_ifs at hs with hpre
    exact Option.some.inj hs ▸ h.setChild hpre.1 (Or.inl rfl) rfl rfl rfl
  | discard i =>
    split at hs
    · split_ifs at hs with hpre
      exact Option.some.inj hs ▸ h.discardOperationTask hpre.1
    · cases hs
  | callResume i =>
    split at hs
    · split_ifs at hs with hpre
      exact Option.some.inj hs ▸ h.resumeCall hpre.1 hpre.2.1 _
    · cases hs
  | callTimeout i =>
    split_ifs at hs with hpre
    exact Option.some.inj hs ▸ (h.recordFailure true).detachChild hpre.1 hpre.2.1 true
  | callCancel i =>
    split_ifs at hs with hpre
    exact Option.some.inj hs ▸ h.detachChild hpre.1 hpre.2 false
  | yieldResume i =>
    split at hs
    · rename_i timedOut hy
      split_ifs at hs with hi
      all_goals
        have hmark : SlotInv none (g.markUnfinishedChild i).waiters (g.markUnfinishedChild i) := by
          simp only [ExecutionGate.markUnfinishedChild]
          split_ifs
          · exact h.frame rfl rfl rfl rfl rfl
          · exact h
        have hcall : (g.markUnfinishedChild i).calls=g.calls ∧
            (g.markUnfinishedChild i).next=g.next := by
          simp only [ExecutionGate.markUnfinishedChild]
          split_ifs <;> exact ⟨rfl,rfl⟩
        exact Option.some.inj hs ▸ hmark.leave (by rw [hcall.2]; exact hi)
          (by rw [hcall.1,hy]; simp) (by rw [hcall.1,hy]; simp) _
    · cases hs
  | yieldCancel i =>
    split at hs
    · rename_i timedOut hy
      split_ifs at hs with hi
      exact Option.some.inj hs ▸ h.leave hi (by rw [hy]; simp) (by rw [hy]; simp) .cancelled
    · cases hs
  | reconcile =>
    split_ifs at hs
    have hdec : SlotInv none g.waiters {g with reconciles := g.reconciles-1} :=
      h.frame rfl rfl rfl rfl rfl
    exact Option.some.inj hs ▸ hdec.grantWaiters
  | refuseWaiters =>
    exact Option.some.inj hs ▸ h.refuseWaiters
  | setPolicy p onLoop =>
    by_cases hp : 1≤p.parallelLimit
    · rw [if_pos hp] at hs
      exact Option.some.inj hs ▸ h.frame rfl rfl rfl rfl rfl
    · rw [if_neg hp] at hs
      cases hs
  | holdForPublication | releasePublicationHold =>
    split_ifs at hs
    exact Option.some.inj hs ▸ h.frame rfl rfl rfl rfl rfl
  | closeAdmission | consumeDeferredFatalError | syncPoison | tick =>
    exact Option.some.inj hs ▸ h.frame rfl rfl rfl rfl rfl

end XiaoQing.Gate
