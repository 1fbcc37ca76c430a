import XiaoQing.Execution.OffloadStage

namespace XiaoQing.Execution

open Function (update update_idem update_of_ne update_self)

open Framework Broker Offload

variable {hole : Lane → Prop} {b b' : Broker} {l : Lane} {i m g : Nat} {closed : Bool} {j j' : Job}
  {c c' : Nat → Consumer} {r r' : Nat → Nat}

/-! The dispatcher goes over the jobs -/

theorem JobTurn.loop (h : JobTurn closed j j') : j'.loop=j.loop := by
  cases h with
  | same => rfl
  | drop => rfl
  | start => rfl
  | refuse f =>
    unfold Job.scheduleDelivery
    split_ifs
    · rw [deferFatal_eq]; rfl
    · rw [deferFatal_eq]; rfl
    · rfl

theorem JobTurn.same_of (h : JobTurn closed j j') (hs : j.state≠.queued) : j'=j := by
  cases h with
  | same => rfl
  | drop hq | start hq | refuse f hq => exact absurd hq hs

theorem JobTurn.left (h : JobTurn closed j j') : j'=j ∨ j'.state≠.queued := by
  cases h with
  | same => exact Or.inl rfl
  | drop | start => exact Or.inr (by simp [Job.drop,Job.enter])
  | refuse f =>
    right
    rw [(scheduleDelivery_trace closed _).2.1]
    simp [Job.enter]

theorem JobTurn.trans {j'' : Job} (h : JobTurn closed j j') (h' : JobTurn closed j' j'') :
    JobTurn closed j j'' := by
  rcases h.left with rfl | hs
  · exact h'
  · rw [h'.same_of hs]; exact h

structure Turned (b b' : Broker) : Prop where
  next : b'.next=b.next
  loopClosed : b'.loopClosed=b.loopClosed
  turn : ∀m,JobTurn (b.loopClosed (b.jobs m).loop) (b.jobs m) (b'.jobs m)

theorem Turned.frame (hn : b'.next=b.next) (hl : b'.loopClosed=b.loopClosed)
    (hj : b'.jobs=b.jobs) : Turned b b' :=
  ⟨hn,hl,fun m => by rw [hj]; exact .same⟩

theorem Turned.refl (b : Broker) : Turned b b := .frame rfl rfl rfl

theorem Turned.trans {b'' : Broker} (h : Turned b b') (h' : Turned b' b'') : Turned b b'' := by
  refine ⟨h'.next.trans h.next,h'.loopClosed.trans h.loopClosed,fun m => (h.turn m).trans ?_⟩
  have ht := h'.turn m
  rw [h.loopClosed,(h.turn m).loop] at ht
  exact ht

theorem Turned.one (hn : b'.next=b.next) (hl : b'.loopClosed=b.loopClosed)
    (hj : b'.jobs=update b.jobs i j)
    (ht : JobTurn (b.loopClosed (b.jobs i).loop) (b.jobs i) j) : Turned b b' := by
  refine ⟨hn,hl,fun m => ?_⟩
  rw [hj]
  by_cases hm : m=i
  · subst m; rw [update_self]; exact ht
  · rw [update_of_ne hm]; exact .same

theorem requeueLane_jobs (b : Broker) (l : Lane) : (b.requeueLane l).jobs=b.jobs := by
  unfold Broker.requeueLane
  split_ifs
  · exact queueLane_jobs b l
  · rfl
  · rfl

theorem scheduleDelivery_jobs (b : Broker) (i : Nat) : (b.scheduleDelivery i).jobs=
    update b.jobs i ((b.jobs i).scheduleDelivery (b.loopClosed (b.jobs i).loop)) := by
  unfold Broker.scheduleDelivery
  dsimp only
  split_ifs <;> rfl

theorem ensureExecutor_jobs (b : Broker) : b.ensureExecutor.jobs=b.jobs := by
  unfold Broker.ensureExecutor
  split_ifs <;> rfl

theorem startJob_turned (hq : (b.jobs i).state=.queued) : Turned b (b.startJob l i) := by
  have hd := startJob_drains b l i
  have hjobs : (b.takeSlot l).ensureExecutor.jobs=b.jobs := ensureExecutor_jobs _
  have hloop : (b.takeSlot l).ensureExecutor.loopClosed=b.loopClosed :=
    (ensureExecutor_drains (b.takeSlot l)).loopClosed
  have hturn : ∃j,(b.startJob l i).jobs=update b.jobs i j ∧
      JobTurn (b.loopClosed (b.jobs i).loop) (b.jobs i) j := by
    unfold Broker.startJob
    dsimp only
    generalize (b.takeSlot l).ensureExecutor=e at hjobs hloop
    split
    · rename_i f _
      refine ⟨_,?_,.refuse f hq⟩
      rw [queueLane_requeueLane,requeueLane_jobs,scheduleDelivery_jobs,setJob_self]
      change update (update e.jobs i _) i _=_
      rw [update_idem,hjobs]
      change update b.jobs i (Job.scheduleDelivery _ (e.loopClosed (b.jobs i).loop))=_
      rw [hloop]
    · refine ⟨_,?_,.start hq⟩
      rw [requeueLane_jobs]
      change update e.jobs i _=_
      rw [hjobs]
  obtain ⟨j,hj,ht⟩ := hturn
  exact .one hd.next hd.loopClosed hj ht

theorem dropJob_turned (hq : (b.jobs i).state=.queued) : Turned b (b.dropJob i) :=
  .one rfl rfl rfl (.drop hq)

theorem requeueLane_turned (b : Broker) (l : Lane) : Turned b (b.requeueLane l) :=
  .frame (requeueLane_drains b l).next (requeueLane_drains b l).loopClosed (requeueLane_jobs b l)

theorem BrokerInv.dispatchLane_turned (h : BrokerInv hole noFloat none b) (l : Lane) :
    Turned b (b.dispatchLane l) := by
  unfold Broker.dispatchLane
  split
  · exact .frame rfl rfl rfl
  · rename_i i queue hq
    obtain ⟨_,hs,_,_⟩ := (h.queued l i).mp (by rw [hq]; simp)
    have htake : Turned b (b.takeQueued l queue) := .frame rfl rfl rfl
    have hdrop := htake.trans (dropJob_turned (b := b.takeQueued l queue) hs)
    have hstart := htake.trans (startJob_turned (b := b.takeQueued l queue) (l := l) hs)
    split_ifs
    · exact .refl b
    · dsimp only
      split
      · split_ifs
        · exact hdrop.trans (requeueLane_turned _ l)
        · exact hstart
      · exact hstart

theorem BrokerInv.dispatchLoop_turned (n : Nat) (h : BrokerInv hole noFloat none b) :
    Turned b (Broker.dispatchLoop n b) := by
  induction n generalizing b with
  | zero => exact .refl b
  | succ n ih =>
    unfold Broker.dispatchLoop
    split_ifs with hb
    · split
      · exact .refl b
      · rename_i l rest hr
        have hpop := h.popReady hr
        have hturn : Turned b (b.popReady l rest) := .frame rfl rfl rfl
        exact (hturn.trans (hpop.dispatchLane_turned l)).trans (ih (hpop.dispatchLane hb))
    · exact .refl b

theorem BrokerInv.dispatch_turned (h : BrokerInv hole noFloat none b) : Turned b b.dispatch :=
  h.dispatchLoop_turned _

theorem takeDrainedExecutor_turned (b : Broker) : Turned b b.takeDrainedExecutor := by
  unfold Broker.takeDrainedExecutor
  split_ifs
  · exact .frame rfl rfl rfl
  · exact .refl b

theorem foldl_dropJob_turned (ds : List Nat) (hnd : ds.Nodup)
    (hq : ∀m∈ds,(b.jobs m).state=.queued) : Turned b (ds.foldl dropJob b) := by
  induction ds generalizing b with
  | nil => exact .refl b
  | cons i ds ih =>
    rw [List.nodup_cons] at hnd
    have hrest : ∀m∈ds,((b.dropJob i).jobs m).state=.queued := by
      intro m hm
      have hne : m≠i := by rintro rfl; exact hnd.1 hm
      rw [Broker.dropJob,setJob_ne _ _ hne]
      exact hq m (List.mem_cons_of_mem i hm)
    exact (dropJob_turned (hq i (by simp))).trans (ih hnd.2 hrest)

theorem foldl_dropQueued_turned (ds : List Nat) (b : Broker) : Turned b (ds.foldl dropQueued b) := by
  induction ds generalizing b with
  | nil => exact .refl b
  | cons i ds ih =>
    refine Turned.trans ?_ (ih (b.dropQueued i))
    unfold Broker.dropQueued
    split_ifs with hq
    · exact dropJob_turned hq
    · exact .refl b

theorem BrokerInv.closeGateQueue_turned (h : BrokerInv noHole noFloat none b) (g : Nat) :
    Turned b (b.closeGateQueue g) := by
  unfold Broker.closeGateQueue
  dsimp only
  set ds := (b.queueOf (some g)).filter (fun i => !(b.jobs i).allowClosed) with hds
  have hfold : Turned b (ds.foldl dropJob b) := by
    refine foldl_dropJob_turned ds ((h.nodup _).filter _) (fun m hm => ?_)
    exact ((h.queued _ m).mp (List.mem_filter.mp hm).1).2.1
  have hdrop : Turned b (b.dropJobs ds) := hfold.trans (.frame rfl rfl rfl)
  have hstale : Turned b ((b.dropJobs ds).dropStaleReadyLane (some g)) := by
    refine hdrop.trans ?_
    unfold Broker.dropStaleReadyLane
    split_ifs
    · exact .frame rfl rfl rfl
    · exact .refl _
  refine hstale.trans ?_
  split_ifs
  · exact .frame (queueLane_drains _ _).next (queueLane_drains _ _).loopClosed (queueLane_jobs _ _)
  · exact .frame rfl rfl rfl
  · exact .frame rfl rfl rfl

/-! Jobs and their tasks -/

def JobsOk (b : Broker) (c : Nat → Consumer) (r : Nat → Nat) : Prop :=
  ∀i<b.next,JobOk (b.loopClosed (b.jobs i).loop) (b.jobs i) (c i) (r i)

theorem JobsOk.turned (h : JobsOk b c r) (ht : Turned b b') : JobsOk b' c r := by
  intro i hi
  rw [ht.next] at hi
  rw [ht.loopClosed,(ht.turn i).loop]
  exact (h i hi).turn (ht.turn i)

theorem JobsOk.write (h : JobsOk b c r) (hn : b'.next=b.next) (hl : b'.loopClosed=b.loopClosed)
    (hm : ∀m,m≠i → b'.jobs m=b.jobs m ∧ c' m=c m ∧ r' m=r m)
    (hj : JobOk (b.loopClosed (b'.jobs i).loop) (b'.jobs i) (c' i) (r' i)) : JobsOk b' c' r' := by
  intro m hlt
  rw [hn] at hlt
  rw [hl]
  by_cases he : m=i
  · subst m; exact hj
  · obtain ⟨h1,h2,h3⟩ := hm m he
    rw [h1,h2,h3]
    exact h m hlt

theorem JobsOk.setJob (h : JobsOk b c r) (hloop : j.loop=(b.jobs i).loop)
    (hj : JobOk (b.loopClosed (b.jobs i).loop) j (c i) (r i)) : JobsOk (b.setJob i j) c r := by
  refine h.write (i := i) rfl rfl (fun m hm => ⟨setJob_ne b j hm,rfl,rfl⟩) ?_
  rw [setJob_self,hloop]
  exact hj

theorem scheduleDelivery_loop (closed : Bool) (j : Job) : (j.scheduleDelivery closed).loop=j.loop := by
  unfold Job.scheduleDelivery
  split_ifs
  · rw [deferFatal_eq]
  · rw [deferFatal_eq]
  · rfl

theorem scheduleDelivery_detached (h : j.detached=true) :
    (j.scheduleDelivery closed).detached=true := by
  unfold Job.scheduleDelivery
  rw [if_pos h,deferFatal_eq]
  exact h

theorem finishJob_jobs (b : Broker) (i : Nat) (o : Outcome) : (b.finishJob i o).jobs=
    update b.jobs i ({(b.jobs i).enter .terminal with outcome := some o}.scheduleDelivery
      (b.loopClosed (b.jobs i).loop)) := by
  have hsch : (((b.setJob i {(b.jobs i).enter .terminal with outcome := some o}).releaseRunningSlot
      (b.jobs i).lane).scheduleDelivery i).jobs=
      update b.jobs i ({(b.jobs i).enter .terminal with outcome := some o}.scheduleDelivery
        (b.loopClosed (b.jobs i).loop)) := by
    have hself : ((b.setJob i {(b.jobs i).enter .terminal with outcome := some o}).releaseRunningSlot
      (b.jobs i).lane).jobs i={(b.jobs i).enter .terminal with outcome := some o} := setJob_self b i _
    rw [scheduleDelivery_jobs,hself]
    exact update_idem _ _ _
  unfold Broker.finishJob
  dsimp only
  split_ifs
  · rw [queueLane_jobs]; exact hsch
  · exact hsch

theorem JobsOk.finishJob (h : JobsOk b c r) (hi : i<b.next) (hrun : (b.jobs i).state=.running)
    (o : Outcome) : JobsOk (b.finishJob i o) c r := by
  have hd := finishJob_drains b i o
  refine h.write (i := i) hd.next hd.loopClosed (fun m hm => ⟨?_,rfl,rfl⟩) ?_
  · rw [finishJob_jobs,update_of_ne hm]
  · rw [finishJob_jobs,update_self,scheduleDelivery_loop]
    exact (h i hi).finish hrun o

theorem BrokerInv.dispatched_turned (h : BrokerInv hole noFloat none b) :
    Turned b b.dispatch.takeDrainedExecutor := h.dispatch_turned.trans (takeDrainedExecutor_turned _)

theorem JobsOk.completeFromWorker (h : JobsOk b c r) (hinv : BrokerInv noHole noFloat none b)
    (hi : i<b.next) (o : Outcome) : JobsOk (b.completeFromWorker i o) c r := by
  unfold Broker.completeFromWorker
  by_cases hst : (b.jobs i).state≠.running
  · rw [if_pos hst]; exact h
  · rw [if_neg hst]
    have hrun := not_not.mp hst
    exact (h.finishJob hi hrun o).turned (hinv.finishJob hi hrun o).dispatched_turned

theorem jobDeliver_loop (j : Job) : j.deliver.loop=j.loop := by
  unfold Job.deliver
  dsimp only
  split_ifs
  · rw [deferFatal_eq]
  · split <;> rfl

theorem JobsOk.deliver (h : JobsOk b c r) (hi : i<b.next) (hq : (b.jobs i).deliverQueued=true) :
    JobsOk (b.deliver i) c r := by
  unfold Broker.deliver
  dsimp only
  by_cases hdel : (b.jobs i).delivered=true
  · rw [if_pos hdel]
    exact h.setJob rfl ((h i hi).deliverAgain hdel)
  · rw [if_neg hdel]
    have hj := (h i hi).deliver hq (by simpa using hdel)
    have hd := h.setJob (j := {(b.jobs i).deliver with deliverQueued := false})
      (jobDeliver_loop (b.jobs i)) hj
    refine JobsOk.turned ?_ (takeDrainedExecutor_turned _)
    have hidem : update (b.setJob i {b.jobs i with deliverQueued := false}).jobs i
        {(b.jobs i).deliver with deliverQueued := false}=
        (b.setJob i {(b.jobs i).deliver with deliverQueued := false}).jobs := update_idem _ _ _
    split_ifs
    · exact hd.turned (.frame rfl rfl hidem)
    · exact hd.turned (.frame rfl rfl hidem)

theorem JobsOk.enqueue (h : JobsOk b c r) (q : Request) (hc : c b.next=.waiting)
    (hr : r b.next=0) : JobsOk (b.enqueue q) c r := by
  intro m hm
  have hm' : m<b.next+1 := hm
  by_cases he : m=b.next
  · subst m
    have hself : (b.enqueue q).jobs b.next=.new q.lane q.loop q.allowClosed q.spawnError :=
      setJob_self b b.next _
    rw [hself,hc,hr]
    exact ⟨rfl,rfl,rfl,.queued rfl rfl rfl rfl rfl rfl rfl rfl rfl (Or.inl rfl) rfl⟩
  · have hold : (b.enqueue q).jobs m=b.jobs m := setJob_ne b _ he
    rw [hold]
    exact h m (by omega)

theorem JobsOk.submit (h : JobsOk b c r) (hinv : BrokerInv noHole noFloat none b) (q : Request)
    (hc : c b.next=.waiting) (hr : r b.next=0) : JobsOk (b.submit q).1 c r := by
  have hrefused : Turned b (if b.queueOf q.lane=[] ∧ b.runningOf q.lane=0 then b.popLane q.lane
      else b.setQueue q.lane (b.queueOf q.lane)) := by
    split_ifs <;> exact .frame rfl rfl rfl
  unfold Broker.submit
  dsimp only
  by_cases hcl : b.closed=true
  · rw [if_pos hcl]; exact h
  rw [if_neg hcl]
  by_cases h1 : b.immediate q.lane=false ∧ b.laneQueueLimit q.lane≤(b.queueOf q.lane).length
  · rw [if_pos h1]; exact h.turned hrefused
  rw [if_neg h1]
  by_cases h2 : b.immediate q.lane=false ∧ (b.globalQueueLimit : Int)≤b.queuedCount
  · rw [if_pos h2]; exact h.turned hrefused
  rw [if_neg h2]
  have hd := queueLane_drains (b.enqueue q) q.lane
  have hlane : Turned (b.enqueue q) ((b.enqueue q).queueLane q.lane) :=
    .frame hd.next hd.loopClosed (queueLane_jobs _ _)
  exact (h.enqueue q hc hr).turned (hlane.trans (hinv.enqueue q).queueLane.dispatch_turned)

/-! The task gives up -/

theorem removeQueued_jobs (b : Broker) (i : Nat) : (b.removeQueued i).jobs=update b.jobs i
    (cancelCompletion {(b.jobs i).enter .cancelled with detached := true}) := by
  have hstale (e : Broker) (l : Lane) : (e.dropStaleReadyLane l).jobs=e.jobs := by
    unfold Broker.dropStaleReadyLane
    split_ifs <;> rfl
  unfold Broker.removeQueued
  dsimp only
  rw [requeueLane_jobs,hstale]
  split_ifs <;> rfl

theorem removeQueued_next (b : Broker) (i : Nat) : (b.removeQueued i).next=b.next ∧
    (b.removeQueued i).loopClosed=b.loopClosed := by
  have hstale (e : Broker) (l : Lane) : (e.dropStaleReadyLane l).next=e.next ∧
      (e.dropStaleReadyLane l).loopClosed=e.loopClosed := by
    unfold Broker.dropStaleReadyLane
    split_ifs <;> exact ⟨rfl,rfl⟩
  unfold Broker.removeQueued
  dsimp only
  rw [(requeueLane_drains _ _).next,(requeueLane_drains _ _).loopClosed,(hstale _ _).1,(hstale _ _).2]
  split_ifs <;> exact ⟨rfl,rfl⟩

theorem JobsOk.cancelQueuedJob {n : Nat} (h : JobsOk b c r) (hinv : BrokerInv noHole noFloat none b)
    (hi : i<b.next) (hq : (b.jobs i).state=.queued) :
    JobsOk (b.cancelQueuedJob i) (update c i .ended) (update r i n) := by
  have hremoved : JobsOk (b.removeQueued i) (update c i .ended) (update r i n) := by
    obtain ⟨h1,h2⟩ := removeQueued_next b i
    refine h.write (i := i) h1 h2 (fun m hm => ⟨?_,update_of_ne hm _ _,
      update_of_ne hm _ _⟩) ?_
    · rw [removeQueued_jobs,update_of_ne hm]
    · rw [removeQueued_jobs,update_self,update_self,update_self]
      obtain ⟨x,hx⟩ := cancelCompletion_eq {(b.jobs i).enter .cancelled with detached := true}
      rw [hx]
      have hj := h i hi
      obtain ⟨hf,ho,_,_,_,hfd,_,hn,_⟩ := hj.fresh hq
      refine ⟨?_,hj.starts,hj.deferrals,.cancelled rfl hf ho hfd hn⟩
      change (b.jobs i).path++[.cancelled]=_
      rw [hj.path,hq]; rfl
  exact hremoved.turned (hinv.removeQueued hi hq).dispatch_turned

theorem JobsOk.cancelFuture (h : JobsOk b c r) (hinv : BrokerInv noHole noFloat none b)
    (hi : i<b.next) : JobsOk (b.cancelFuture i) c r := by
  unfold Broker.cancelFuture
  split
  · rename_i hf
    have hj := h i hi
    have hstarts : (b.jobs i).starts=0 := by rw [hj.starts,hf]; rfl
    have hset := h.setJob (j := {b.jobs i with actualFuture := .done .cancelled}) rfl
      (hj.thread (by simp) (by simp [hf]) hstarts)
    exact hset.completeFromWorker (hinv.setJob_same hi rfl rfl rfl) hi .cancelled
  · exact h

theorem detachTerminal_jobs (h : (b.jobs i).delivered=true ∨ (b.jobs i).deliveryPending=true) :
    ∃p,(b.detachTerminal i).jobs=update b.jobs i (cancelCompletion
      {(b.jobs i).deferFatal with delivered := true,deliveryPending := p}) := by
  have hdrained (e : Broker) : e.takeDrainedExecutor.jobs=e.jobs := by
    unfold Broker.takeDrainedExecutor
    split_ifs <;> rfl
  obtain ⟨_,_,hp,hd,_⟩ := deferFatal_frame (b.jobs i)
  unfold Broker.detachTerminal
  dsimp only
  split_ifs with hc
  · exact ⟨false,hdrained _⟩
  · rw [hp,hd] at hc
    have hdel : (b.jobs i).deferFatal.delivered=true := by
      rw [hd]
      rcases h with h | h
      · exact h
      · by_contra hn
        exact hc ⟨by simpa using hn,h⟩
    refine ⟨(b.jobs i).deferFatal.deliveryPending,?_⟩
    rw [hdrained,←hdel]
    rfl

theorem JobOk.handed {c : Consumer} {r : Nat} (h : JobOk closed j c r) (hs : j.state=.terminal) :
    j.delivered=true ∨ j.deliveryPending=true := by
  cases h.stage with
  | queued hx | running hx | cancelled hx => rw [hs] at hx; cases hx
  | pending _ _ _ _ _ _ hp => exact Or.inr hp
  | delivered _ _ _ _ _ hd | returned _ _ _ _ hd | detached _ _ _ hd => exact Or.inl hd

theorem detachTerminal_next (b : Broker) (i : Nat) : (b.detachTerminal i).next=b.next ∧
    (b.detachTerminal i).loopClosed=b.loopClosed := by
  unfold Broker.detachTerminal
  dsimp only
  split_ifs
  · exact ⟨(takeDrainedExecutor_drains _).next,(takeDrainedExecutor_drains _).loopClosed⟩
  · exact ⟨(takeDrainedExecutor_drains _).next,(takeDrainedExecutor_drains _).loopClosed⟩

theorem JobsOk.detachTerminal {n : Nat} (h : ∀m<b.next,m≠i →
      JobOk (b.loopClosed (b.jobs m).loop) (b.jobs m) (c m) (r m))
    (hj : JobOk (b.loopClosed j.loop) j (c i) (r i)) (he : b.jobs i={j with detached := true})
    (hs : j.state=.terminal) (hc : c i≠.ended ∨ j.detached=true)
    (hn : n=r i ∨ j.fatalError=false) :
    JobsOk (b.detachTerminal i) (update c i .ended) (update r i n) := by
  have hnext := detachTerminal_next b i
  obtain ⟨p,hp⟩ := detachTerminal_jobs (b := b) (i := i) (by rw [he]; exact hj.handed hs)
  intro m hm
  rw [hnext.1] at hm
  rw [hnext.2,hp]
  by_cases hmi : m=i
  · subst m
    rw [update_self,update_self,update_self,he]
    have hloop : (cancelCompletion {{j with detached := true}.deferFatal with
        delivered := true,deliveryPending := p}).loop=j.loop := by
      obtain ⟨x,hx⟩ := cancelCompletion_eq {{j with detached := true}.deferFatal with
        delivered := true,deliveryPending := p}
      rw [hx,deferFatal_eq]
    rw [hloop]
    exact hj.abandonTerminal hs hc hn
  · rw [update_of_ne hmi,update_of_ne hmi,update_of_ne hmi]
    exact h m hm hmi

theorem BrokerInv.cancelFuture_detached (h : BrokerInv noHole noFloat none b) (hi : i<b.next)
    (hd : (b.jobs i).detached=true) : ((b.cancelFuture i).jobs i).detached=true := by
  unfold Broker.cancelFuture
  split
  · have hset := h.setJob_same (j := {b.jobs i with actualFuture := .done .cancelled}) hi rfl rfl rfl
    have hself := setJob_self b i {b.jobs i with actualFuture := .done .cancelled}
    have hd' : ((b.setJob i {b.jobs i with actualFuture := .done .cancelled}).jobs i).detached=true := by
      rw [hself]; exact hd
    have hi' : i<(b.setJob i {b.jobs i with actualFuture := .done .cancelled}).next := hi
    generalize b.setJob i {b.jobs i with actualFuture := .done .cancelled}=e at hset hd' hi'
    unfold Broker.completeFromWorker
    by_cases hst : (e.jobs i).state≠.running
    · rw [if_pos hst]; exact hd'
    · rw [if_neg hst]
      -- the finished job is terminal, so the dispatcher leaves it alone
      have hjob : (e.finishJob i .cancelled).jobs i={(e.jobs i).enter .terminal with
          outcome := some .cancelled}.scheduleDelivery (e.loopClosed (e.jobs i).loop) := by
        rw [finishJob_jobs,update_self]
      have hturn := (hset.finishJob hi' (not_not.mp hst) .cancelled).dispatched_turned.turn i
      rw [hturn.same_of (by rw [hjob,(scheduleDelivery_trace _ _).2.1]; simp [Job.enter]),hjob]
      exact scheduleDelivery_detached (j := {(e.jobs i).enter .terminal with
        outcome := some .cancelled}) hd'
  · exact hd

theorem JobsOk.cancelOrDetach {n : Nat} (h : JobsOk b c r) (hinv : BrokerInv noHole noFloat none b)
    (hi : i<b.next) (hc : c i≠.ended)
    (hn : n=r i ∨ (b.jobs i).fatalError=false ∧ (b.jobs i).completion≠.pending) :
    JobsOk (b.cancelOrDetach i) (update c i .ended) (update r i n) := by
  have hj := h i hi
  have hself := setJob_self b i {b.jobs i with detached := true}
  have hset := hinv.setJob_same (j := {b.jobs i with detached := true}) hi rfl rfl rfl
  have hn' : n=r i ∨ (b.jobs i).fatalError=false := hn.imp_right And.left
  unfold Broker.cancelOrDetach
  cases hst : (b.jobs i).state with
  | queued => rw [if_pos rfl]; exact h.cancelQueuedJob hinv hi hst
  | cancelled =>
    rw [if_neg (by simp)]
    have hfuture : (b.jobs i).actualFuture=.absent := by
      cases hj.stage with
      | cancelled _ hf => exact hf
      | queued hx | running hx | pending _ hx | delivered _ hx | returned _ hx | detached hx =>
        rw [hst] at hx; cases hx
    have hsame : b.detachJob i=b.setJob i {b.jobs i with detached := true} := by
      unfold Broker.detachJob Broker.cancelFuture
      rw [hself]
      dsimp only
      rw [hfuture]
    rw [hsame,hself,if_neg (by simp [hst])]
    refine h.write (i := i) rfl rfl (fun m hm => ⟨setJob_ne _ _ hm,update_of_ne hm _ _,
      update_of_ne hm _ _⟩) ?_
    rw [hself]
    exact hj.detachCancelled hst
  | running =>
    rw [if_neg (by simp)]
    have hr : n=r i := by
      rcases hn with hn | hn
      · exact hn
      · cases hj.stage with
        | running _ _ _ hp => exact absurd hp hn.2
        | queued hx | cancelled hx | pending _ hx | delivered _ hx | returned _ hx | detached hx =>
          rw [hst] at hx; cases hx
    have hd : JobsOk (b.setJob i {b.jobs i with detached := true}) (update c i .ended)
        (update r i n) := by
      refine h.write (i := i) rfl rfl (fun m hm => ⟨setJob_ne _ _ hm,update_of_ne hm _ _,
        update_of_ne hm _ _⟩) ?_
      rw [hself,update_self,update_self,hr]
      exact hj.detachRunning hst
    have hf : JobsOk (b.detachJob i) (update c i .ended) (update r i n) :=
      hd.cancelFuture hset hi
    split_ifs with hterm
    · have hi' : i<(b.detachJob i).next := by rw [(detachJob_drains b i).next]; exact hi
      have hdet := hset.cancelFuture_detached (i := i) hi (by rw [hself])
      have hfinal := JobsOk.detachTerminal (b := b.detachJob i) (i := i) (n := n)
        (j := (b.detachJob i).jobs i) (fun m hm _ => hf m hm) (hf i hi') (by rw [←hdet]; rfl) hterm
        (Or.inr hdet) (Or.inl (by rw [update_self]))
      rw [update_idem,update_idem] at hfinal
      exact hfinal
    · exact hf
  | terminal =>
    rw [if_neg (by simp)]
    obtain ⟨w,hw,hjw⟩ : ∃w,b.detachJob i=b.setJob i {{b.jobs i with actualFuture := w} with
        detached := true} ∧ JobOk (b.loopClosed (b.jobs i).loop) {b.jobs i with actualFuture := w}
          (c i) (r i) := by
      by_cases hf : (b.jobs i).actualFuture=.pending
      · have hstarts : (b.jobs i).starts=0 := by rw [hj.starts,hf]; rfl
        refine ⟨.done .cancelled,?_,hj.thread (by simp) (by simp [hf]) hstarts⟩
        unfold Broker.detachJob Broker.cancelFuture
        rw [hself]
        dsimp only
        rw [hf]
        unfold Broker.completeFromWorker
        rw [if_pos (by rw [setJob_self]; simp [hst])]
        unfold Broker.setJob
        dsimp only
        rw [update_idem]
      · refine ⟨(b.jobs i).actualFuture,?_,hj⟩
        unfold Broker.detachJob Broker.cancelFuture
        rw [hself]
        dsimp only
        split
        · rename_i hx; exact absurd hx hf
        · rfl
    rw [hw]
    have hjob := setJob_self b i {{b.jobs i with actualFuture := w} with detached := true}
    rw [if_pos (by rw [hjob]; exact hst)]
    refine JobsOk.detachTerminal (j := {b.jobs i with actualFuture := w}) (fun m hm hmi => ?_) hjw hjob
      hst (Or.inl hc) hn'
    rw [setJob_ne _ _ hmi]
    exact h m hm

end XiaoQing.Execution
