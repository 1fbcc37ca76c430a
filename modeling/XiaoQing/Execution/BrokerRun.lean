import XiaoQing.Execution.BrokerActions

namespace XiaoQing.Execution

open Framework Broker

variable {b b' : Broker} {l : Lane} {i : Nat} {j : Job}

/-! Settled between critical sections -/

theorem Settled.frame (h : Settled b) (hr : b'.readyLanes=b.readyLanes)
    (hm : b'.maxWorkers=b.maxWorkers) (hc : b'.runningCount=b.runningCount) : Settled b' := by
  unfold Settled
  rw [hr,hm,hc]
  exact h

theorem Settled.takeDrainedExecutor (h : Settled b) : Settled b.takeDrainedExecutor := by
  unfold Broker.takeDrainedExecutor
  split_ifs
  · exact h.frame rfl rfl rfl
  · exact h

theorem Settled.submit (h : Settled b) (r : Request) : Settled (b.submit r).1 := by
  have hrefused : Settled (if b.queueOf r.lane=[] ∧ b.runningOf r.lane=0 then b.popLane r.lane
      else b.setQueue r.lane (b.queueOf r.lane)) := by
    split_ifs <;> exact h.frame rfl rfl rfl
  unfold Broker.submit
  dsimp only
  by_cases hc : b.closed=true
  · rw [if_pos hc]; exact h
  · rw [if_neg hc]
    by_cases h1 : b.immediate r.lane=false ∧ b.laneQueueLimit r.lane≤(b.queueOf r.lane).length
    · rw [if_pos h1]; exact hrefused
    · rw [if_neg h1]
      by_cases h2 : b.immediate r.lane=false ∧ (b.globalQueueLimit : Int)≤b.queuedCount
      · rw [if_pos h2]; exact hrefused
      · rw [if_neg h2]; exact dispatch_settled _

theorem Settled.completeFromWorker (h : Settled b) (i : Nat) (o : Outcome) :
    Settled (b.completeFromWorker i o) := by
  unfold Broker.completeFromWorker
  by_cases hst : (b.jobs i).state≠.running
  · rw [if_pos hst]; exact h
  · rw [if_neg hst]; exact (dispatch_settled _).takeDrainedExecutor

theorem Settled.deliver (h : Settled b) (i : Nat) : Settled (b.deliver i) := by
  unfold Broker.deliver
  dsimp only
  split_ifs
  · exact h.frame rfl rfl rfl
  · refine Settled.takeDrainedExecutor ?_
    exact h.frame rfl rfl rfl
  · refine Settled.takeDrainedExecutor ?_
    exact h.frame rfl rfl rfl

theorem Settled.detachTerminal (h : Settled b) (i : Nat) : Settled (b.detachTerminal i) := by
  unfold Broker.detachTerminal
  dsimp only
  split_ifs
  · refine Settled.takeDrainedExecutor ?_
    exact h.frame rfl rfl rfl
  · refine Settled.takeDrainedExecutor ?_
    exact h.frame rfl rfl rfl

theorem Settled.cancelFuture (h : Settled b) (i : Nat) : Settled (b.cancelFuture i) := by
  unfold Broker.cancelFuture
  split
  · refine Settled.completeFromWorker ?_ i _
    exact h.frame rfl rfl rfl
  · exact h

theorem Settled.cancelOrDetach (h : Settled b) (i : Nat) : Settled (b.cancelOrDetach i) := by
  unfold Broker.cancelOrDetach
  by_cases hst : (b.jobs i).state=.queued
  · rw [if_pos hst]; exact dispatch_settled _
  · rw [if_neg hst]
    have hd : Settled (b.setJob i {b.jobs i with detached := true}) := h.frame rfl rfl rfl
    have hf : Settled (b.detachJob i) := hd.cancelFuture i
    split_ifs
    · exact hf.detachTerminal i
    · exact hf

theorem Settled.closeGateAdmission (h : Settled b) (g : Nat) : Settled (b.closeGateAdmission g) := by
  unfold Broker.closeGateAdmission
  by_cases hq : b.queueOf (some g)=[]
  · rw [if_pos hq]; exact h
  · rw [if_neg hq]; exact dispatch_settled _

/-! Runs -/

theorem brokerInv_initial (h : Initial b) : BrokerInv noHole noFloat none b := by
  have hq (k : Lane) : b.queueOf k=[] := by
    unfold Broker.queueOf
    rw [h.laneQueues]
    exact lookupD_empty
  refine ⟨h.workers,?_,?_,?_,?_,?_,?_,?_,?_,?_,?_,?_⟩
  · intro k m
    rw [hq]
    exact iff_of_false (by simp) (fun hm => by have := h.next; omega)
  · intro k; rw [hq]; exact List.nodup_nil
  · rw [h.queuedCount,h.laneQueues]; rfl
  · rw [h.runningCount,h.runningByLane]; rfl
  · rw [h.runningCount]; exact Int.natCast_nonneg _
  · intro k
    unfold Broker.runningOf
    rw [h.runningByLane,h.next]
    simp [tally]
  · rw [h.pendingDeliveryCount,h.next]; rfl
  · intro m hm
    have := h.next
    omega
  · rw [h.readyLanes]; exact List.nodup_nil
  · intro k; rw [h.readyLanes,h.readyLaneSet]; simp
  · intro k _ _ hk
    exact absurd (hq k) hk

theorem BrokerInv.brokerStep {a : BrokerAct} (h : BrokerInv noHole noFloat none b)
    (hs : brokerStep b a=some b') : BrokerInv noHole noFloat none b' := by
  cases a with simp only [Execution.brokerStep] at hs
  | submit r =>
    exact Option.some.inj hs ▸ h.submit r
  | dispatch =>
    exact Option.some.inj hs ▸ h.dispatch
  | workerStart i =>
    split_ifs at hs with hpre
    exact Option.some.inj hs ▸ h.setJob_same hpre.1 rfl rfl rfl
  | workerFinish i o =>
    split_ifs at hs with hpre
    exact Option.some.inj hs ▸ h.setJob_same hpre.1 rfl rfl rfl
  | complete i =>
    split at hs
    · split_ifs at hs with hi
      exact Option.some.inj hs ▸ h.completeFromWorker hi _
    · cases hs
  | deliver i =>
    split_ifs at hs with hpre
    exact Option.some.inj hs ▸ h.deliver hpre.1
  | runCancel i =>
    split_ifs at hs with hpre
    obtain ⟨h1,h2,h3⟩ := cancelCompletion_frame (b.jobs i)
    exact Option.some.inj hs ▸ h.setJob_same hpre.1 h1 h2 h3
  | cancelOrDetach i =>
    split_ifs at hs with hi
    exact Option.some.inj hs ▸ h.cancelOrDetach hi
  | closeGateAdmission g =>
    exact Option.some.inj hs ▸ h.closeGateAdmission g
  | configure limit =>
    split_ifs at hs
    exact Option.some.inj hs ▸ (h.setLimit limit).dispatch
  | assignPolicy g p =>
    exact Option.some.inj hs ▸ h.assignPolicy g p
  | notifyPolicyChange g =>
    exact Option.some.inj hs ▸ (h.reconsiderLane g).dispatch
  | setGateClosed g closed =>
    exact Option.some.inj hs ▸ ⟨h.workers,h.queued,h.nodup,h.queuedCount,h.runningCount,h.bounded,
      h.running,h.pending,h.owed,h.readyNodup,h.ready,h.awake⟩
  | close =>
    exact Option.some.inj hs ▸ h.close
  | closePoll =>
    exact Option.some.inj hs ▸ h.takeDrainedExecutor
  | closeLoop loop =>
    exact Option.some.inj hs ▸ ⟨h.workers,h.queued,h.nodup,h.queuedCount,h.runningCount,h.bounded,
      h.running,h.pending,h.owed,h.readyNodup,h.ready,h.awake⟩

theorem Settled.brokerStep {a : BrokerAct} (h : Settled b) (hs : brokerStep b a=some b') :
    Settled b' := by
  cases a with simp only [Execution.brokerStep] at hs
  | submit r =>
    exact Option.some.inj hs ▸ h.submit r
  | dispatch =>
    exact Option.some.inj hs ▸ dispatch_settled b
  | complete i =>
    split at hs
    · split_ifs at hs
      exact Option.some.inj hs ▸ h.completeFromWorker i _
    · cases hs
  | deliver i =>
    split_ifs at hs
    exact Option.some.inj hs ▸ h.deliver i
  | cancelOrDetach i =>
    split_ifs at hs
    exact Option.some.inj hs ▸ h.cancelOrDetach i
  | closeGateAdmission g =>
    exact Option.some.inj hs ▸ h.closeGateAdmission g
  | configure limit =>
    split_ifs at hs
    exact Option.some.inj hs ▸ dispatch_settled _
  | notifyPolicyChange g =>
    exact Option.some.inj hs ▸ dispatch_settled _
  | close =>
    exact Option.some.inj hs ▸ Or.inl rfl
  | closePoll =>
    exact Option.some.inj hs ▸ h.takeDrainedExecutor
  | workerStart i | workerFinish i o | runCancel i =>
    split_ifs at hs
    exact Option.some.inj hs ▸ h.frame rfl rfl rfl
  | assignPolicy g p | setGateClosed g closed | closeLoop loop =>
    exact Option.some.inj hs ▸ h.frame rfl rfl rfl

theorem reach_brokerInv {ok : Broker → BrokerAct → Prop} (h : Reach brokerStep ok Initial b) :
    BrokerInv noHole noFloat none b :=
  h.invariant (fun _ hb => brokerInv_initial hb) (fun _ _ _ hb _ hs => hb.brokerStep hs)

theorem reach_settled {ok : Broker → BrokerAct → Prop} (h : Reach brokerStep ok Initial b) :
    Settled b :=
  h.invariant (P := Settled) (fun _ hb => Or.inl hb.readyLanes)
    (fun _ _ _ hb _ hs => Settled.brokerStep hb hs)

/-! Admission -/

def Admission (b : Broker) (r : Request) : Prop :=
  (b.submit r).2=true →
    if b.immediate r.lane=true then
      (b.submit r).1.queueOf r.lane=[] ∧ (b.submit r).1.queuedCount≤b.queuedCount
    else
      ((b.submit r).1.queueOf r.lane).length≤(b.submit r).1.laneQueueLimit r.lane ∧
        (b.submit r).1.queuedCount≤(b.submit r).1.globalQueueLimit

theorem dispatch_immediate (hready : b.readyLanes=[]) (hset : l∉b.readyLaneSet)
    (hw : b.runningCount<b.maxWorkers) (hr : b.runningOf l<b.laneRunningLimit l)
    (hq : b.queueOf l=[i]) : (b.queueLane l).dispatch.queueOf l=[] ∧
      (b.queueLane l).dispatch.queuedCount≤b.queuedCount-1 := by
  have hlane : b.queueLane l={b with readyLanes := [l],readyLaneSet := insert l b.readyLaneSet} := by
    unfold Broker.queueLane
    rw [if_neg (by simp [hq,hset]),if_neg (by omega),hready]
    rfl
  rw [hlane]
  set e : Broker := {b with readyLanes := [l],readyLaneSet := insert l b.readyLaneSet}
  obtain ⟨n,hn⟩ : ∃n,e.dispatchFuel=n+1 := ⟨total List.length e.laneQueues,rfl⟩
  have hturn : e.dispatch=dispatchLoop n ((e.popReady l []).dispatchLane l) := by
    unfold Broker.dispatch
    rw [hn,Broker.dispatchLoop,if_pos hw]
  have hhead : Drains ((e.popReady l []).takeQueued l []) ((e.popReady l []).dispatchLane l) :=
    dispatchLane_head hq hr
  have hd := hhead.trans (dispatchLoop_drains n ((e.popReady l []).dispatchLane l))
  rw [hturn]
  refine ⟨?_,hd.count⟩
  have hempty : ((e.popReady l []).takeQueued l []).queueOf l=[] := queueOf_setQueue_self _ l []
  have hsuffix := hd.queues l
  rw [hempty] at hsuffix
  exact List.suffix_nil.mp hsuffix

theorem BrokerInv.admission (h : BrokerInv noHole noFloat none b) (r : Request) :
    Admission b r := by
  unfold Admission Broker.submit
  dsimp only
  by_cases hc : b.closed=true
  · rw [if_pos hc]; exact fun ht => by cases ht
  rw [if_neg hc]
  by_cases h1 : b.immediate r.lane=false ∧ b.laneQueueLimit r.lane≤(b.queueOf r.lane).length
  · rw [if_pos h1]; exact fun ht => by cases ht
  rw [if_neg h1]
  by_cases h2 : b.immediate r.lane=false ∧ (b.globalQueueLimit : Int)≤b.queuedCount
  · rw [if_pos h2]; exact fun ht => by cases ht
  rw [if_neg h2]
  intro _
  dsimp only
  set e := b.enqueue r
  have hqueue : e.queueOf r.lane=b.queueOf r.lane++[b.next] := queueOf_setQueue_self _ _ _
  split_ifs with him
  · simp only [Broker.immediate,Bool.and_eq_true,decide_eq_true_eq] at him
    obtain ⟨⟨⟨hw,hr⟩,hq⟩,hready⟩ := him
    have hset : r.lane∉e.readyLaneSet := fun hm => by
      have hmem := (h.ready r.lane).mp hm
      rw [hready] at hmem
      cases hmem
    have hd := dispatch_immediate (b := e) hready hset hw hr (by rw [hqueue,hq]; rfl)
    refine ⟨hd.1,?_⟩
    have hcount : e.queuedCount=b.queuedCount+1 := rfl
    omega
  · have hno : b.immediate r.lane=false := by simpa using him
    have hd := (queueLane_drains e r.lane).trans (dispatch_drains (e.queueLane r.lane))
    have hlen := (hd.queues r.lane).length_le
    have hlimit : e.laneQueueLimit r.lane=b.laneQueueLimit r.lane := rfl
    rw [hd.laneQueueLimit,hd.globalQueueLimit,hlimit]
    rw [hqueue,List.length_append,List.length_singleton] at hlen
    have hcount := hd.count
    have hq1 : ¬b.laneQueueLimit r.lane≤(b.queueOf r.lane).length := fun hx => h1 ⟨hno,hx⟩
    have hq2 : ¬(b.globalQueueLimit : Int)≤b.queuedCount := fun hx => h2 ⟨hno,hx⟩
    change _≤b.queuedCount+1 at hcount
    change _ ∧ _≤(b.globalQueueLimit : Int)
    omega

/-! What holds in every state -/

def ClampIdle (b : Broker) (i : Nat) : Prop :=
  (b.jobs i).deliveryPending=true → max 0 (b.pendingDeliveryCount-1)=b.pendingDeliveryCount-1

theorem BrokerInv.clampIdle (h : BrokerInv noHole noFloat none b) (hi : i<b.next) :
    ClampIdle b i := by
  intro hp
  have hpos := h.pending_pos hi hp
  omega

/-- What users of the broker may rely on between two critical sections. A lane may be overlooked
only while its gate has changed its policy and not yet notified the broker. -/
structure BrokerGuarantee (b : Broker) : Prop where
  queued : b.queuedCount=total List.length b.laneQueues
  running : b.runningCount=total id b.runningByLane
  bounded : b.runningCount≤b.maxWorkers
  pending : b.pendingDeliveryCount=tally Job.deliveryPending b.jobs b.next
  deliverIdle : ∀i<b.next,ClampIdle b i
  detachIdle : ∀i<b.next,ClampIdle (b.detachJob i) i
  nodup : b.readyLanes.Nodup
  ready : ∀l,l∈b.readyLaneSet ↔ l∈b.readyLanes
  awake : ∀l,(∀g,l=some g → g∉b.notices) → b.queueOf l≠[] → b.runningOf l<b.laneRunningLimit l →
    l∈b.readyLaneSet
  settled : b.readyLanes=[] ∨ b.maxWorkers≤b.runningCount
  admission : ∀r,Admission b r

/-- Every order of critical sections keeps the counters exact, the ready lanes right, no lane
stranded and every admission inside its bounds. -/
theorem broker_schedules (b : Broker) (h : Reach brokerStep Free Initial b) :
    BrokerGuarantee b := by
  have hinv := reach_brokerInv h
  refine ⟨hinv.queuedCount,hinv.runningCount,hinv.bounded,hinv.pending,
    fun i hi => hinv.clampIdle hi,fun i hi => ?_,hinv.readyNodup,hinv.ready,?_,reach_settled h,
    hinv.admission⟩
  · refine (hinv.detachJob hi).clampIdle ?_
    rw [(detachJob_drains b i).next]
    exact hi
  · exact fun l hn hq hr => hinv.awake l (fun hx => hx) hn hq hr

/-- Two jobs of one gate, the second waiting; the first completes and the second runs. -/
theorem broker_schedules_example :
    ∃b,execute brokerStep (Broker.new 3 4 ⟨1,4⟩)
      [.submit ⟨some 0,0,false,none⟩,.submit ⟨some 0,0,false,none⟩,.workerStart 0,
        .workerFinish 0 .result,.complete 0]=some b ∧ BrokerGuarantee b := by
  obtain ⟨b,hb⟩ := Option.isSome_iff_exists.mp (by decide :
    (execute brokerStep (Broker.new 3 4 ⟨1,4⟩)
      [.submit ⟨some 0,0,false,none⟩,.submit ⟨some 0,0,false,none⟩,.workerStart 0,
        .workerFinish 0 .result,.complete 0]).isSome=true)
  exact ⟨b,hb,broker_schedules b (Reach.execute _ (fun _ _ _ => trivial)
    (.start (new_initial 3 4 ⟨1,4⟩ (by decide) (by decide))) hb)⟩

/-- A gate raises its limit; before it notifies the broker another lane submits a job. The gate's
lane has a waiting job and a free slot, and is not ready. -/
theorem broker_overlooks_lane : ¬∀b,Reach brokerStep Free Initial b → ∀l,b.queueOf l≠[] →
    b.runningOf l<b.laneRunningLimit l → l∈b.readyLaneSet := by
  intro hall
  obtain ⟨b,hb,hrun⟩ : ∃b,execute brokerStep (Broker.new 3 4 ⟨1,4⟩)
      [.submit ⟨some 0,0,false,none⟩,.submit ⟨some 0,0,false,none⟩,.assignPolicy 0 ⟨2,4⟩,
        .submit ⟨none,0,false,none⟩]=some b ∧ b.queueOf (some 0)≠[] ∧
      b.runningOf (some 0)<b.laneRunningLimit (some 0) ∧ some 0∉b.readyLaneSet :=
    ⟨_,rfl,by decide,by decide,by decide⟩
  obtain ⟨hq,hr,hnot⟩ := hrun
  exact hnot (hall b (Reach.execute _ (fun _ _ _ => trivial)
    (.start (new_initial 3 4 ⟨1,4⟩ (by decide) (by decide))) hb) (some 0) hq hr)

end XiaoQing.Execution
