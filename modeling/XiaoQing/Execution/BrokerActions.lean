import XiaoQing.Execution.BrokerInvariant

namespace XiaoQing.Execution

open Function (update update_of_ne)

open Framework Broker

variable {hole : Lane → Prop} {float : Nat → Prop} {slot : Option Lane} {b b' : Broker}
  {l k : Lane} {i g : Nat} {j : Job}

/-! Policies -/

theorem BrokerInv.reconsiderLane (h : BrokerInv noHole noFloat none b) (g : Nat) :
    BrokerInv noHole noFloat none
      ({b with notices := b.notices.erase g}.reconsiderLane (some g)) := by
  have hd : BrokerInv (fun k => noHole k ∨ k=some g) noFloat none
      {b with notices := b.notices.erase g} := by
    refine ⟨h.workers,h.queued,h.nodup,h.queuedCount,h.runningCount,h.bounded,h.running,h.pending,
      h.owed,h.readyNodup,h.ready,?_⟩
    intro k hk hn hq hr
    obtain ⟨hk1,hk2⟩ := not_or.mp hk
    refine h.awake k hk1 (fun g' hg' hm => hn g' hg' ?_) hq hr
    have hne : g'≠g := by rintro rfl; exact hk2 hg'
    exact (List.mem_erase_of_ne hne).mpr hm
  unfold Broker.reconsiderLane
  split_ifs with hs
  · exact hd.queueLane
  · refine hd.fill (Or.inl ?_)
    have hnone : b.laneQueues.lookup (some g)=none := by simpa using hs
    simp [Broker.queueOf,lookupD,hnone]

theorem BrokerInv.assignPolicy (h : BrokerInv noHole noFloat none b) (g : Nat) (p : Policy) :
    BrokerInv noHole noFloat none
      {b with policies := update b.policies g p,notices := g::b.notices} := by
  refine ⟨h.workers,h.queued,h.nodup,h.queuedCount,h.runningCount,h.bounded,h.running,h.pending,
    h.owed,h.readyNodup,h.ready,?_⟩
  intro k hk hn hq hr
  refine h.awake k hk (fun g' hg' hm => hn g' hg' (List.mem_cons_of_mem g hm)) hq ?_
  cases k with
  | none => exact hr
  | some g' =>
    have hne : g'≠g := fun he => hn g' rfl (by rw [he]; exact List.mem_cons_self)
    simp only [Broker.laneRunningLimit,update_of_ne hne] at hr
    exact hr

theorem BrokerInv.setLimit (h : BrokerInv noHole noFloat none b) (n : Nat) :
    BrokerInv noHole noFloat none {b with globalQueueLimit := n} := by
  refine ⟨h.workers,h.queued,h.nodup,h.queuedCount,h.runningCount,h.bounded,h.running,h.pending,
    h.owed,h.readyNodup,h.ready,?_⟩
  intro k hk hn hq hr
  refine h.awake k hk hn hq ?_
  cases k with
  | none => exact hr
  | some g' => exact hr

/-! Submission -/

theorem BrokerInv.enqueue (h : BrokerInv noHole noFloat none b) (r : Request) :
    BrokerInv (fun k => noHole k ∨ k=r.lane) noFloat none (b.enqueue r) := by
  unfold Broker.enqueue
  set x := Job.new r.lane r.loop r.allowClosed r.spawnError with hx
  set e : Broker := {(b.setJob b.next x).setQueue r.lane (b.queueOf r.lane++[b.next]) with
    next := b.next+1,queuedCount := b.queuedCount+1} with he
  have hjob : e.jobs b.next=x := setJob_self b b.next x
  have hold (m : Nat) (hm : m≠b.next) : e.jobs m=b.jobs m := setJob_ne b x hm
  have hqueue (k : Lane) : e.queueOf k=if k=r.lane then b.queueOf r.lane++[b.next] else
      b.queueOf k := lookupD_setQueue (b.setJob b.next x) r.lane k _
  have hnot (k : Lane) : b.next∉b.queueOf k := fun hm => absurd ((h.queued k _).mp hm).1 (by omega)
  refine ⟨h.workers,?_,?_,?_,h.runningCount,h.bounded,?_,?_,?_,h.readyNodup,h.ready,?_⟩
  · intro k m
    rw [hqueue]
    have hq := h.queued k m
    change _ ↔ m<b.next+1 ∧ _
    by_cases hm : m=b.next
    · subst m
      rw [hjob]
      by_cases hk : k=r.lane
      · subst k; simp [hx,Job.new]
      · rw [if_neg hk]
        exact iff_of_false (hnot k) (fun hc => hk hc.2.2.1.symm)
    · rw [hold m hm]
      have hlt : m<b.next ↔ m<b.next+1 := by omega
      rw [←hlt,←hq]
      by_cases hk : k=r.lane
      · subst k; simp [hm]
      · rw [if_neg hk]
  · intro k
    rw [hqueue]
    split_ifs
    · rw [List.nodup_append]
      refine ⟨h.nodup _,by simp,?_⟩
      intro a ha c hc hac
      rw [List.mem_singleton.mp hc] at hac
      exact hnot _ (hac ▸ ha)
    · exact h.nodup k
  · have ht := total_setQueue (b.setJob b.next x) r.lane (b.queueOf r.lane++[b.next])
    have hc := h.queuedCount
    change b.queuedCount+1=(total List.length ((b.setJob b.next x).setQueue r.lane
      (b.queueOf r.lane++[b.next])).laneQueues : Int)
    have hl : (b.setJob b.next x).queueOf r.lane=b.queueOf r.lane := rfl
    have hm : (b.setJob b.next x).laneQueues=b.laneQueues := rfl
    rw [hl,hm,List.length_append,List.length_singleton] at ht
    omega
  · intro k
    have ht := tally_push (Job.holdsSlot k) b.jobs b.next x
    have hr := h.running k
    change b.runningOf k=tally (Job.holdsSlot k) (update b.jobs b.next x) (b.next+1)+_
    rw [ht,hr]
    simp [hx,Job.new,Job.holdsSlot]
  · have ht := tally_push Job.deliveryPending b.jobs b.next x
    have hp := h.pending
    change b.pendingDeliveryCount=
      (tally Job.deliveryPending (update b.jobs b.next x) (b.next+1) : Int)
    rw [ht,hp]
    simp [hx,Job.new]
  · intro m hm hd
    by_cases hmn : m=b.next
    · subst m; rw [hjob] at hd; cases hd
    · rw [hold m hmn] at hd ⊢
      exact h.owed m (by change m<b.next+1 at hm; omega) hd
  · intro k hk hn hkq hkr
    obtain ⟨hk1,hk2⟩ := not_or.mp hk
    rw [hqueue,if_neg hk2] at hkq
    exact h.awake k hk1 hn hkq hkr

theorem BrokerInv.setQueue_same (h : BrokerInv hole noFloat slot b) (l : Lane) :
    BrokerInv hole noFloat slot (b.setQueue l (b.queueOf l)) := by
  have ht := total_setQueue b l (b.queueOf l)
  exact (h.shrinkQueue (q := b.queueOf l) (List.Sublist.refl _) (lookupD_setQueue b l · _) (by omega)
    rfl).refloat (fun m => by simp)

theorem BrokerInv.submit (h : BrokerInv noHole noFloat none b) (r : Request) :
    BrokerInv noHole noFloat none (b.submit r).1 := by
  have hrefused : BrokerInv noHole noFloat none
      (if b.queueOf r.lane=[] ∧ b.runningOf r.lane=0 then b.popLane r.lane
        else b.setQueue r.lane (b.queueOf r.lane)) := by
    split_ifs with hq
    · exact h.popLane hq.1
    · exact h.setQueue_same r.lane
  unfold Broker.submit
  by_cases hc : b.closed=true
  · rw [if_pos hc]; exact h
  · rw [if_neg hc]
    dsimp only
    by_cases h1 : b.immediate r.lane=false ∧ b.laneQueueLimit r.lane≤(b.queueOf r.lane).length
    · rw [if_pos h1]; exact hrefused
    · rw [if_neg h1]
      by_cases h2 : b.immediate r.lane=false ∧ (b.globalQueueLimit : Int)≤b.queuedCount
      · rw [if_pos h2]; exact hrefused
      · rw [if_neg h2]
        exact (h.enqueue r).queueLane.dispatch

/-! Completion and delivery -/

theorem BrokerInv.finishJob (h : BrokerInv noHole noFloat none b) (hi : i<b.next)
    (hrun : (b.jobs i).state=.running) (o : Outcome) :
    BrokerInv noHole noFloat none (b.finishJob i o) := by
  have hdp := h.notOwed hi (by rw [hrun]; simp)
  have hend := h.endJob (j := {(b.jobs i).enter .terminal with outcome := some o}) hi rfl rfl hrun
    rfl hdp
  have hrel := hend.releaseSlot
  have hself : ((b.setJob i {(b.jobs i).enter .terminal with outcome := some o}).releaseRunningSlot
      (b.jobs i).lane).jobs i={(b.jobs i).enter .terminal with outcome := some o} :=
    setJob_self b i _
  have hsch := hrel.scheduleDelivery (i := i) hi (by rw [hself]; rfl) (by rw [hself]; exact hdp)
  unfold Broker.finishJob
  dsimp only
  generalize (((b.setJob i {(b.jobs i).enter .terminal with outcome := some o}).releaseRunningSlot
    (b.jobs i).lane).scheduleDelivery i)=e at hsch
  by_cases hq : e.queueOf (b.jobs i).lane=[]
  · rw [if_neg (by simp [hq])]
    exact (hsch.popLane hq).fill (Or.inl ((queueOf_popLane hq).trans hq))
  · rw [if_pos hq]
    exact hsch.queueLane

theorem BrokerInv.completeFromWorker (h : BrokerInv noHole noFloat none b) (hi : i<b.next)
    (o : Outcome) : BrokerInv noHole noFloat none (b.completeFromWorker i o) := by
  unfold Broker.completeFromWorker
  by_cases hst : (b.jobs i).state≠.running
  · rw [if_pos hst]; exact h
  · rw [if_neg hst]
    exact (h.finishJob hi (not_not.mp hst) o).dispatch.takeDrainedExecutor

theorem BrokerInv.pending_pos (h : BrokerInv hole float slot b) (hi : i<b.next)
    (hp : (b.jobs i).deliveryPending=true) : 0<b.pendingDeliveryCount := by
  have ht := tally_pos Job.deliveryPending b.jobs b.next i hi hp
  have hc := h.pending
  omega

theorem jobDeliver_frame (j : Job) : j.deliver.lane=j.lane ∧ j.deliver.state=j.state ∧
    j.deliver.deliveryPending=false := by
  unfold Job.deliver
  dsimp only
  split_ifs
  · obtain ⟨h1,h2,h3,_⟩ := deferFatal_frame {j with delivered := true,deliveryPending := false}
    exact ⟨h1,h2,h3⟩
  · split <;> exact ⟨rfl,rfl,rfl⟩

theorem BrokerInv.clearPending (h : BrokerInv hole float slot b) (hi : i<b.next)
    (hlane : j.lane=(b.jobs i).lane) (hs : j.state=(b.jobs i).state)
    (hold : (b.jobs i).deliveryPending=true) (hp : j.deliveryPending=false) :
    BrokerInv hole float slot
      {b.setJob i j with pendingDeliveryCount := max 0 (b.pendingDeliveryCount-1)} := by
  refine h.writeJob hi hlane (by rw [hs]) (fun _ _ => Iff.rfl) (fun l => ?_) ?_
    (fun hj => by rw [hp] at hj; cases hj)
  · simp only [Job.holdsSlot,hs,hlane]
  · have hpos := h.pending_pos hi hold
    rw [hp,hold]
    simp only [Bool.toNat_true,Bool.toNat_false]
    omega

theorem BrokerInv.deliver (h : BrokerInv noHole noFloat none b) (hi : i<b.next) :
    BrokerInv noHole noFloat none (b.deliver i) := by
  have hd := h.setJob_same (j := {b.jobs i with deliverQueued := false}) hi rfl rfl rfl
  unfold Broker.deliver
  dsimp only
  by_cases hdel : (b.jobs i).delivered=true
  · rw [if_pos hdel]; exact hd
  · rw [if_neg hdel]
    refine BrokerInv.takeDrainedExecutor ?_
    obtain ⟨h1,h2,h3⟩ := jobDeliver_frame (b.jobs i)
    have hself := setJob_self b i {b.jobs i with deliverQueued := false}
    by_cases hp : (b.jobs i).deliveryPending=true
    · rw [if_pos hp]
      exact hd.clearPending (j := {(b.jobs i).deliver with deliverQueued := false}) hi
        (by rw [hself]; exact h1) (by rw [hself]; exact h2) (by rw [hself]; exact hp) h3
    · rw [if_neg hp]
      exact hd.setJob_same (j := {(b.jobs i).deliver with deliverQueued := false}) hi
        (by rw [hself]; exact h1) (by rw [hself]; exact h2)
        (by rw [hself]; exact h3.trans (by simpa using hp))

/-! Cancellation -/

theorem cancelCompletion_frame (j : Job) : (cancelCompletion j).lane=j.lane ∧
    (cancelCompletion j).state=j.state ∧ (cancelCompletion j).deliveryPending=j.deliveryPending := by
  unfold cancelCompletion
  split <;> exact ⟨rfl,rfl,rfl⟩

theorem BrokerInv.removeQueued (h : BrokerInv noHole noFloat none b) (hi : i<b.next)
    (hst : (b.jobs i).state=.queued) : BrokerInv noHole noFloat none (b.removeQueued i) := by
  have hmem : i∈b.queueOf (b.jobs i).lane := (h.queued _ i).mpr ⟨hi,hst,rfl,fun hx => hx⟩
  have hnd := h.nodup (b.jobs i).lane
  have hlen := List.length_erase_of_mem hmem
  have hpos := List.length_pos_of_mem hmem
  have hdp := h.notOwed hi (by rw [hst]; simp)
  have htake : BrokerInv noHole (fun m => m=i) none
      (b.takeQueued (b.jobs i).lane ((b.queueOf (b.jobs i).lane).erase i)) := by
    refine (h.takeQueued List.erase_sublist (by omega)).refloat (fun m => ?_)
    rw [hnd.mem_erase_iff]
    constructor
    · rintro rfl
      exact ⟨hmem,fun hx => hx.1 rfl⟩
    · rintro ⟨hm,hno⟩
      by_contra hne
      exact hno ⟨hne,hm⟩
  obtain ⟨h1,h2,h3⟩ := cancelCompletion_frame {(b.jobs i).enter .cancelled with detached := true}
  have hset := htake.settleLast (j := cancelCompletion {(b.jobs i).enter .cancelled with
    detached := true}) hi h1 hst (Or.inl h2) (h3.trans hdp)
  unfold Broker.removeQueued
  dsimp only
  rw [if_pos hmem]
  exact (hset.dropStaleReadyLane (b.jobs i).lane).requeueLane

theorem BrokerInv.detachTerminal (h : BrokerInv noHole noFloat none b) (hi : i<b.next) :
    BrokerInv noHole noFloat none (b.detachTerminal i) := by
  obtain ⟨h1,h2,h3,_⟩ := deferFatal_frame (b.jobs i)
  unfold Broker.detachTerminal
  dsimp only
  split_ifs with hp
  · refine BrokerInv.takeDrainedExecutor ?_
    obtain ⟨c1,c2,c3⟩ := cancelCompletion_frame
      {(b.jobs i).deferFatal with delivered := true,deliveryPending := false}
    have hold : (b.jobs i).deliveryPending=true := h3.symm.trans hp.2
    exact h.clearPending hi (c1.trans h1) (c2.trans h2) hold c3
  · refine BrokerInv.takeDrainedExecutor ?_
    obtain ⟨c1,c2,c3⟩ := cancelCompletion_frame (b.jobs i).deferFatal
    exact h.setJob_same hi (c1.trans h1) (c2.trans h2) (c3.trans h3)

theorem BrokerInv.cancelFuture (h : BrokerInv noHole noFloat none b) (hi : i<b.next) :
    BrokerInv noHole noFloat none (b.cancelFuture i) := by
  unfold Broker.cancelFuture
  split
  · have hd := h.setJob_same (j := {b.jobs i with actualFuture := .done .cancelled}) hi rfl rfl rfl
    exact hd.completeFromWorker hi _
  · exact h

structure Drains (b b' : Broker) : Prop where
  next : b'.next=b.next
  maxWorkers : b'.maxWorkers=b.maxWorkers
  policies : b'.policies=b.policies
  globalQueueLimit : b'.globalQueueLimit=b.globalQueueLimit
  loopClosed : b'.loopClosed=b.loopClosed
  queues : ∀k,b'.queueOf k <:+ b.queueOf k
  count : b'.queuedCount≤b.queuedCount

theorem Drains.refl (b : Broker) : Drains b b :=
  ⟨rfl,rfl,rfl,rfl,rfl,fun _ => List.suffix_rfl,Int.le_refl _⟩

theorem Drains.trans {b'' : Broker} (h : Drains b b') (h' : Drains b' b'') : Drains b b'' :=
  ⟨h'.next.trans h.next,h'.maxWorkers.trans h.maxWorkers,h'.policies.trans h.policies,
    h'.globalQueueLimit.trans h.globalQueueLimit,h'.loopClosed.trans h.loopClosed,
    fun k => (h'.queues k).trans (h.queues k),Int.le_trans h'.count h.count⟩

theorem Drains.frame (hn : b'.next=b.next) (hm : b'.maxWorkers=b.maxWorkers)
    (hp : b'.policies=b.policies) (hg : b'.globalQueueLimit=b.globalQueueLimit)
    (hl : b'.loopClosed=b.loopClosed) (hq : b'.laneQueues=b.laneQueues)
    (hc : b'.queuedCount=b.queuedCount) : Drains b b' :=
  ⟨hn,hm,hp,hg,hl,fun k => by unfold Broker.queueOf; rw [hq],Int.le_of_eq hc⟩

theorem Drains.laneQueueLimit (h : Drains b b') (l : Lane) :
    b'.laneQueueLimit l=b.laneQueueLimit l := by
  cases l with
  | none => exact h.globalQueueLimit
  | some g => unfold Broker.laneQueueLimit; rw [h.policies]

theorem queueLane_drains (b : Broker) (l : Lane) : Drains b (b.queueLane l) := by
  unfold Broker.queueLane
  split_ifs
  · exact .refl b
  · exact .refl b
  · exact .frame rfl rfl rfl rfl rfl rfl rfl

theorem popLane_drains (h : b.queueOf l=[]) : Drains b (b.popLane l) :=
  ⟨rfl,rfl,rfl,rfl,rfl,fun k => by rw [queueOf_popLane h],Int.le_refl _⟩

theorem requeueLane_drains (b : Broker) (l : Lane) : Drains b (b.requeueLane l) := by
  unfold Broker.requeueLane
  by_cases hq : b.queueOf l=[]
  · rw [if_neg (by simp [hq])]
    split_ifs
    · exact popLane_drains hq
    · exact .refl b
  · rw [if_pos hq]
    exact queueLane_drains b l

theorem scheduleDelivery_drains (b : Broker) (i : Nat) : Drains b (b.scheduleDelivery i) := by
  unfold Broker.scheduleDelivery
  dsimp only
  split_ifs <;> exact .frame rfl rfl rfl rfl rfl rfl rfl

theorem takeDrainedExecutor_drains (b : Broker) : Drains b b.takeDrainedExecutor := by
  unfold Broker.takeDrainedExecutor
  split_ifs
  · exact .frame rfl rfl rfl rfl rfl rfl rfl
  · exact .refl b

theorem ensureExecutor_drains (b : Broker) : Drains b b.ensureExecutor := by
  unfold Broker.ensureExecutor
  split_ifs
  · exact .refl b
  · exact .frame rfl rfl rfl rfl rfl rfl rfl

theorem startJob_drains (b : Broker) (l : Lane) (i : Nat) : Drains b (b.startJob l i) := by
  have ht : Drains b (b.takeSlot l) := .frame rfl rfl rfl rfl rfl rfl rfl
  have he := ht.trans (ensureExecutor_drains (b.takeSlot l))
  unfold Broker.startJob
  dsimp only
  split
  · rename_i f _
    rw [queueLane_requeueLane]
    have h1 : Drains (b.takeSlot l).ensureExecutor
        (((b.takeSlot l).ensureExecutor.releaseRunningSlot l).setJob i
          {((b.jobs i).enter .running).enter .terminal with outcome := some (.error f)}) :=
      .frame rfl rfl rfl rfl rfl rfl rfl
    exact ((he.trans h1).trans (scheduleDelivery_drains _ i)).trans (requeueLane_drains _ l)
  · have h1 : Drains (b.takeSlot l).ensureExecutor ((b.takeSlot l).ensureExecutor.setJob i
        {(b.jobs i).enter .running with actualFuture := .pending}) := .frame rfl rfl rfl rfl rfl rfl rfl
    exact (he.trans h1).trans (requeueLane_drains _ l)

theorem takeQueued_drains {queue : List Nat} (hq : b.queueOf l=i::queue) :
    Drains b (b.takeQueued l queue) := by
  refine ⟨rfl,rfl,rfl,rfl,rfl,fun k => ?_,by change b.queuedCount-1≤b.queuedCount; omega⟩
  have hk : (b.takeQueued l queue).queueOf k=if k=l then queue else b.queueOf k :=
    lookupD_setQueue b l k queue
  rw [hk]
  split_ifs with h
  · rw [h,hq]; exact List.suffix_cons i queue
  · exact List.suffix_rfl

theorem dispatchLane_head {queue : List Nat} (hq : b.queueOf l=i::queue)
    (hr : b.runningOf l<b.laneRunningLimit l) :
    Drains (b.takeQueued l queue) (b.dispatchLane l) := by
  have hdrop : Drains (b.takeQueued l queue) ((b.takeQueued l queue).dropJob i) :=
    .frame rfl rfl rfl rfl rfl rfl rfl
  have hstart := startJob_drains (b.takeQueued l queue) l i
  unfold Broker.dispatchLane
  rw [hq]
  dsimp only
  rw [if_neg (by omega)]
  split
  · split_ifs
    · exact hdrop.trans (requeueLane_drains _ l)
    · exact hstart
  · exact hstart

theorem dispatchLane_drains (b : Broker) (l : Lane) : Drains b (b.dispatchLane l) := by
  cases hq : b.queueOf l with
  | nil =>
    unfold Broker.dispatchLane
    rw [hq]
    exact popLane_drains hq
  | cons i queue =>
    by_cases hr : b.runningOf l<b.laneRunningLimit l
    · exact (takeQueued_drains hq).trans (dispatchLane_head hq hr)
    · unfold Broker.dispatchLane
      rw [hq]
      dsimp only
      rw [if_pos (by omega)]
      exact .refl b

theorem dispatchLoop_drains (n : Nat) (b : Broker) : Drains b (dispatchLoop n b) := by
  induction n generalizing b with
  | zero => exact .refl b
  | succ n ih =>
    unfold Broker.dispatchLoop
    split_ifs
    · split
      · exact .refl b
      · rename_i l rest _
        have hpop : Drains b (b.popReady l rest) := .frame rfl rfl rfl rfl rfl rfl rfl
        exact (hpop.trans (dispatchLane_drains (b.popReady l rest) l)).trans (ih _)
    · exact .refl b

theorem dispatch_drains (b : Broker) : Drains b b.dispatch := dispatchLoop_drains _ b

theorem finishJob_drains (b : Broker) (i : Nat) (o : Outcome) : Drains b (b.finishJob i o) := by
  have h0 : Drains b ((b.setJob i {(b.jobs i).enter .terminal with
      outcome := some o}).releaseRunningSlot (b.jobs i).lane) := .frame rfl rfl rfl rfl rfl rfl rfl
  have h1 := h0.trans (scheduleDelivery_drains _ i)
  unfold Broker.finishJob
  dsimp only
  refine h1.trans ?_
  split_ifs with hq
  · exact queueLane_drains _ _
  · exact popLane_drains (not_not.mp hq)

theorem completeFromWorker_drains (b : Broker) (i : Nat) (o : Outcome) :
    Drains b (b.completeFromWorker i o) := by
  unfold Broker.completeFromWorker
  by_cases hst : (b.jobs i).state≠.running
  · rw [if_pos hst]; exact .refl b
  · rw [if_neg hst]
    exact ((finishJob_drains b i o).trans (dispatch_drains _)).trans (takeDrainedExecutor_drains _)

theorem cancelFuture_drains (b : Broker) (i : Nat) : Drains b (b.cancelFuture i) := by
  unfold Broker.cancelFuture
  split
  · have h0 : Drains b (b.setJob i {b.jobs i with actualFuture := .done .cancelled}) :=
      .frame rfl rfl rfl rfl rfl rfl rfl
    exact h0.trans (completeFromWorker_drains _ i .cancelled)
  · exact .refl b

theorem detachJob_drains (b : Broker) (i : Nat) : Drains b (b.detachJob i) := by
  have h0 : Drains b (b.setJob i {b.jobs i with detached := true}) :=
    .frame rfl rfl rfl rfl rfl rfl rfl
  exact h0.trans (cancelFuture_drains _ i)

theorem BrokerInv.detachJob (h : BrokerInv noHole noFloat none b) (hi : i<b.next) :
    BrokerInv noHole noFloat none (b.detachJob i) := by
  have hd := h.setJob_same (j := {b.jobs i with detached := true}) hi rfl rfl rfl
  exact hd.cancelFuture (i := i) hi

theorem BrokerInv.cancelOrDetach (h : BrokerInv noHole noFloat none b) (hi : i<b.next) :
    BrokerInv noHole noFloat none (b.cancelOrDetach i) := by
  unfold Broker.cancelOrDetach
  by_cases hst : (b.jobs i).state=.queued
  · rw [if_pos hst]; exact (h.removeQueued hi hst).dispatch
  · rw [if_neg hst]
    split_ifs
    · exact (h.detachJob hi).detachTerminal (by rw [(detachJob_drains b i).next]; exact hi)
    · exact h.detachJob hi

/-! Closing -/

theorem BrokerInv.dropAll (ds : List Nat) (h : BrokerInv hole float slot b)
    (hf : ∀m∈ds,float m ∧ m<b.next ∧ (b.jobs m).state=.queued) (hnd : ds.Nodup) :
    BrokerInv hole (fun m => float m ∧ m∉ds) slot (ds.foldl dropJob b) := by
  induction ds generalizing b float with
  | nil => exact h.refloat (fun m => by simp)
  | cons i ds ih =>
    obtain ⟨hi1,hi2,hi3⟩ := hf i (by simp)
    rw [List.nodup_cons] at hnd
    have hdp := h.notOwed hi2 (by rw [hi3]; simp)
    have hd := h.settleJob (j := (b.jobs i).drop (b.loopClosed (b.jobs i).loop)) hi2 hi1 rfl hi3
      (Or.inl rfl) hdp
    refine (ih (b := b.dropJob i) hd (fun m hm => ?_) hnd.2).refloat (fun m => ?_)
    · obtain ⟨h1,h2,h3⟩ := hf m (List.mem_cons_of_mem i hm)
      have hne : m≠i := by rintro rfl; exact hnd.1 hm
      exact ⟨⟨h1,hne⟩,h2,by rw [Broker.dropJob,setJob_ne _ _ hne]; exact h3⟩
    · rw [List.mem_cons,not_or]
      tauto

theorem foldl_dropJob (ds : List Nat) (b : Broker) : ∃J,∀e : Broker,e.jobs=b.jobs →
    e.loopClosed=b.loopClosed → ds.foldl dropJob e={e with jobs := J} := by
  induction ds generalizing b with
  | nil =>
    refine ⟨b.jobs,fun e he _ => ?_⟩
    rw [←he]; rfl
  | cons i ds ih =>
    obtain ⟨J,hJ⟩ := ih (b.dropJob i)
    refine ⟨J,fun e he hl => ?_⟩
    refine (hJ (e.dropJob i) ?_ hl).trans rfl
    change update e.jobs i _=update b.jobs i _
    rw [he,hl]

theorem dropStaleReadyLane_setQueue (b : Broker) (l k : Lane) (q : List Nat) :
    (b.dropStaleReadyLane l).setQueue k q=(b.setQueue k q).dropStaleReadyLane l := by
  unfold Broker.dropStaleReadyLane Broker.setQueue
  split_ifs <;> rfl

theorem dropStaleReadyLane_popLane (b : Broker) (l k : Lane) :
    (b.dropStaleReadyLane l).popLane k=(b.popLane k).dropStaleReadyLane l := by
  unfold Broker.dropStaleReadyLane Broker.popLane
  split_ifs <;> rfl

theorem dropStaleReadyLane_queueOf (b : Broker) (l k : Lane) :
    (b.dropStaleReadyLane l).queueOf k=b.queueOf k := by
  unfold Broker.dropStaleReadyLane
  split_ifs <;> rfl

theorem BrokerInv.closeGateQueue (h : BrokerInv noHole noFloat none b) (g : Nat) :
    BrokerInv noHole noFloat none (b.closeGateQueue g) := by
  unfold Broker.closeGateQueue
  dsimp only
  set q := b.queueOf (some g) with hqdef
  set rs := q.filter (fun i => (b.jobs i).allowClosed) with hrs
  set ds := q.filter (fun i => !(b.jobs i).allowClosed) with hds
  have hlen : rs.length+ds.length=q.length := by
    rw [hrs,hds]
    have := List.length_eq_length_filter_add (l := q) (fun i => (b.jobs i).allowClosed)
    omega
  obtain ⟨J,hJ⟩ := foldl_dropJob ds b
  -- the jobs leave the queue first and change state afterwards
  have hdrop (m : AList (fun _ : Lane => List Nat))
      (hget : ∀k,lookupD m k []=if k=some g then rs else b.queueOf k)
      (htotal : total List.length m+q.length=total List.length b.laneQueues+rs.length) :
      BrokerInv noHole noFloat none
        {b with jobs := J,laneQueues := m,queuedCount := b.queuedCount-ds.length} := by
    have hs := h.shrinkQueue (l := some g) (q := rs) (n := b.queuedCount-ds.length)
      List.filter_sublist hget htotal (by rw [←hqdef]; omega)
    have ha := hs.dropAll ds (fun m hm => ?_) ((h.nodup _).filter _)
    · rw [hJ {b with laneQueues := m,queuedCount := b.queuedCount-ds.length} rfl rfl] at ha
      refine ha.refloat (fun m => ?_)
      rw [hrs,hds]
      simp only [List.mem_filter,Bool.not_eq_true']
      constructor
      · exact fun hx => hx.elim
      · rintro ⟨⟨h1,h2⟩,h3⟩
        by_cases hc : (b.jobs m).allowClosed=true
        · exact h2 ⟨h1,hc⟩
        · exact h3 ⟨h1,by simpa using hc⟩
    · rw [hds,List.mem_filter] at hm
      obtain ⟨h1,h2,_,_⟩ := (h.queued _ m).mp hm.1
      refine ⟨⟨hm.1,?_⟩,h1,h2⟩
      rw [hrs,List.mem_filter]
      rintro ⟨_,hc⟩
      rw [hc] at hm
      simp at hm
  have hjobs : b.dropJobs ds={b with jobs := J,queuedCount := b.queuedCount-ds.length} := by
    unfold Broker.dropJobs
    rw [hJ b rfl rfl]
  rw [hjobs]
  set e : Broker := {b with jobs := J,queuedCount := b.queuedCount-ds.length} with he
  have hset := (hdrop (b.setQueue (some g) rs).laneQueues (lookupD_setQueue b (some g) · rs)
    (total_setQueue b (some g) rs)).dropStaleReadyLane (some g)
  split_ifs with hne hrun
  · rw [dropStaleReadyLane_setQueue]
    exact hset.queueLane
  · have hnil : rs=[] := by simpa using hne
    have ht : total List.length (b.laneQueues.erase (some g))+q.length=
        total List.length b.laneQueues := total_erase rfl
    have hpop := hdrop (b.laneQueues.erase (some g)) (fun k => ?_) (by rw [hnil]; simpa using ht)
    · rw [dropStaleReadyLane_popLane]
      refine (hpop.dropStaleReadyLane (some g)).fill (Or.inl ?_)
      rw [dropStaleReadyLane_queueOf]
      exact lookupD_erase_self
    · by_cases hk : k=some g
      · rw [if_pos hk,hk,hnil]; exact lookupD_erase_self
      · rw [if_neg hk]; exact lookupD_erase_ne hk
  · have hnil : rs=[] := by simpa using hne
    rw [dropStaleReadyLane_setQueue]
    refine hset.fill (Or.inl ?_)
    rw [dropStaleReadyLane_queueOf]
    exact (lookupD_setQueue b (some g) (some g) rs).trans (by rw [if_pos rfl]; exact hnil)

theorem BrokerInv.closeGateAdmission (h : BrokerInv noHole noFloat none b) (g : Nat) :
    BrokerInv noHole noFloat none (b.closeGateAdmission g) := by
  unfold Broker.closeGateAdmission
  split_ifs
  · exact h
  · exact (h.closeGateQueue g).dispatch

theorem foldl_dropQueued (ds : List Nat) (b : Broker) : ∃J,∀e : Broker,e.jobs=b.jobs →
    e.loopClosed=b.loopClosed → ds.foldl dropQueued e={e with jobs := J} := by
  induction ds generalizing b with
  | nil =>
    refine ⟨b.jobs,fun e he _ => ?_⟩
    rw [←he]; rfl
  | cons i ds ih =>
    obtain ⟨J,hJ⟩ := ih (b.dropQueued i)
    refine ⟨J,fun e he hl => ?_⟩
    have hcongr : (e.dropQueued i).jobs=(b.dropQueued i).jobs ∧
        (e.dropQueued i).loopClosed=(b.dropQueued i).loopClosed ∧
        e.dropQueued i={e with jobs := (e.dropQueued i).jobs} := by
      unfold Broker.dropQueued
      rw [he]
      split_ifs
      · refine ⟨?_,hl,rfl⟩
        change update e.jobs i _=update b.jobs i _
        rw [he,hl]
      · exact ⟨he,hl,rfl⟩
    refine (hJ (e.dropQueued i) hcongr.1 hcongr.2.1).trans ?_
    rw [hcongr.2.2]

theorem BrokerInv.dropEvery (ds : List Nat)
    (h : BrokerInv hole (fun m => m<b.next ∧ (b.jobs m).state=.queued) slot b)
    (hlt : ∀m∈ds,m<b.next) :
    BrokerInv hole (fun m => (m<b.next ∧ (b.jobs m).state=.queued) ∧ m∉ds) slot
      (ds.foldl dropQueued b) := by
  induction ds generalizing b with
  | nil => exact h.refloat (fun m => by simp)
  | cons i ds ih =>
    have hi : i<b.next := hlt i (by simp)
    have hrest : ∀m∈ds,m<b.next := fun m hm => hlt m (List.mem_cons_of_mem i hm)
    by_cases hq : (b.jobs i).state=.queued
    · have hdp := h.notOwed hi (by rw [hq]; simp)
      have hd := h.settleJob (j := (b.jobs i).drop (b.loopClosed (b.jobs i).loop)) hi ⟨hi,hq⟩ rfl hq
        (Or.inl rfl) hdp
      have hstate (m : Nat) : ((b.dropJob i).jobs m).state=.queued ↔
          (b.jobs m).state=.queued ∧ m≠i := by
        unfold Broker.dropJob
        by_cases hm : m=i
        · subst m
          rw [setJob_self]
          exact iff_of_false (fun hx => by cases hx) (fun hx => hx.2 rfl)
        · rw [setJob_ne _ _ hm]; simp [hm]
      have hb : BrokerInv hole (fun m => m<(b.dropJob i).next ∧
          ((b.dropJob i).jobs m).state=.queued) slot (b.dropJob i) := by
        refine hd.refloat (fun m => ?_)
        rw [hstate]
        change m<b.next ∧ _ ↔ _
        tauto
      have he : b.dropQueued i=b.dropJob i := by unfold Broker.dropQueued; rw [if_pos hq]
      rw [List.foldl_cons,he]
      refine (ih hb hrest).refloat (fun m => ?_)
      rw [hstate,List.mem_cons,not_or]
      change _ ↔ (m<b.next ∧ _) ∧ _
      tauto
    · have he : b.dropQueued i=b := by unfold Broker.dropQueued; rw [if_neg hq]
      rw [List.foldl_cons,he]
      refine (ih h hrest).refloat (fun m => ?_)
      rw [List.mem_cons,not_or]
      constructor
      · rintro ⟨h1,_,h3⟩; exact ⟨h1,h3⟩
      · rintro ⟨h1,h2⟩
        refine ⟨h1,?_,h2⟩
        rintro rfl
        exact hq h1.2

theorem mem_queueOf_entries (h : i∈b.queueOf l) :
    i∈b.laneQueues.entries.flatMap (fun e => e.2) := by
  unfold Broker.queueOf lookupD at h
  cases hl : b.laneQueues.lookup l with
  | none => rw [hl] at h; cases h
  | some q =>
    rw [hl] at h
    exact List.mem_flatMap.mpr ⟨⟨l,q⟩,AList.mem_lookup_iff.mp hl,h⟩

theorem BrokerInv.close (h : BrokerInv noHole noFloat none b) :
    BrokerInv noHole noFloat none b.close := by
  unfold Broker.close
  set ds := b.laneQueues.entries.flatMap (fun e => e.2) with hds
  obtain ⟨J,hJ⟩ := foldl_dropQueued ds b
  rw [hJ b rfl rfl]
  set e : Broker := {b with
    closed := true
    laneQueues := ∅
    readyLanes := []
    readyLaneSet := ∅
    queuedCount := 0} with he
  have hclear : BrokerInv noHole (fun m => m<b.next ∧ (b.jobs m).state=.queued) none e := by
    have hq (k : Lane) : e.queueOf k=[] := lookupD_empty
    refine ⟨h.workers,?_,?_,rfl,h.runningCount,h.bounded,h.running,h.pending,h.owed,List.nodup_nil,
      ?_,?_⟩
    · intro k m
      rw [hq]
      refine iff_of_false (by simp) ?_
      rintro ⟨h1,h2,_,h4⟩
      exact h4 ⟨h1,h2⟩
    · intro k; rw [hq]; exact List.nodup_nil
    · intro k; simp [he]
    · intro k _ _ hkq
      exact absurd (hq k) hkq
  have hall : ∀m∈ds,m<b.next := by
    intro m hm
    obtain ⟨⟨k,q⟩,hk,hmq⟩ := List.mem_flatMap.mp hm
    have hlook : b.laneQueues.lookup k=some q := AList.mem_lookup_iff.mpr hk
    have hmem : m∈b.queueOf k := by
      unfold Broker.queueOf lookupD
      rw [hlook]
      exact hmq
    exact ((h.queued k m).mp hmem).1
  have hd := hclear.dropEvery (b := e) ds hall
  rw [hJ e rfl rfl] at hd
  refine hd.refloat (fun m => ?_)
  constructor
  · exact fun hx => hx.elim
  · rintro ⟨⟨h1,h2⟩,h3⟩
    exact h3 (mem_queueOf_entries ((h.queued (b.jobs m).lane m).mpr ⟨h1,h2,rfl,fun hx => hx⟩))

end XiaoQing.Execution
