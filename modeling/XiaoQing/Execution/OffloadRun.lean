import XiaoQing.Execution.OffloadJobs

namespace XiaoQing.Execution

open Function (update update_eq_self update_of_ne update_self)

open Framework Broker Offload

variable {b b' : Broker} {i : Nat} {closed : Bool} {j : Job} {c : Nat → Consumer} {r : Nat → Nat}

/-! Runs -/

structure OffloadInv (s : Offload) : Prop where
  broker : BrokerInv noHole noFloat none s.broker
  jobs : JobsOk s.broker s.consumer s.raised
  fresh : ∀i,s.broker.next ≤ i → s.consumer i=.waiting ∧ s.raised i=0

/-- The steps that lose no error and give none twice: no task takes the `CancelledError` its own
gated callback raised for a cancellation, and no loop closes while the fatal error of a gated job is
on its way to a task that is still there. -/
def Careful (s : Offload) : OffloadAct → Prop
  | .resume i => ¬(s.consumer i=.woken ∧ (s.broker.jobs i).lane≠none ∧
      (s.broker.jobs i).completion=.done (.error .cancelledError))
  | .broker (.closeLoop loop) => ∀i < s.broker.next,(s.broker.jobs i).loop=loop →
      (s.broker.jobs i).fatalError=true → (s.broker.jobs i).detached=true ∨ s.consumer i=.ended
  | _ => True

theorem JobOk.closeLoop {c : Consumer} {r : Nat} (h : JobOk closed j c r)
    (hf : j.fatalError=true → j.detached=true ∨ c=.ended) : JobOk true j c r := by
  refine ⟨h.path,h.starts,h.deferrals,?_⟩
  cases h.stage with
  | queued h1 h2 h3 h4 h5 h6 h7 h8 h9 h10 h11 => exact .queued h1 h2 h3 h4 h5 h6 h7 h8 h9 h10 h11
  | cancelled h1 h2 h3 h4 h5 => exact .cancelled h1 h2 h3 h4 h5
  | running h1 h2 h3 h4 h5 h6 h7 h8 h9 h10 h11 => exact .running h1 h2 h3 h4 h5 h6 h7 h8 h9 h10 h11
  | pending o h1 h2 h3 h4 h5 h6 h7 h8 h9 h10 h11 h12 =>
    refine .pending o h1 h2 h3 h4 h5 h6 h7 h8 h9 h10 h11 (fun hx => ?_)
    rcases hf hx with hd | hd
    · rw [h4] at hd; cases hd
    · rcases h10 with h10 | h10 <;> rw [h10] at hd <;> cases hd
  | delivered o h1 h2 h3 h4 h5 h6 h7 h8 h9 h10 h11 =>
    refine .delivered o h1 h2 h3 h4 h5 h6 h7 h8 h9 h10 (fun hx => ?_)
    rcases hf hx with hd | hd
    · rw [h4] at hd; cases hd
    · exact absurd hd h8
  | returned o h1 h2 h3 h4 h5 h6 h7 h8 => exact .returned o h1 h2 h3 h4 h5 h6 h7 h8
  | detached h1 h2 h3 h4 h5 h6 h7 h8 => exact .detached h1 h2 h3 h4 h5 h6 (Or.inr rfl) h8

theorem JobsOk.closeLoop (h : JobsOk b c r) (loop : Nat)
    (hf : ∀i<b.next,(b.jobs i).loop=loop → (b.jobs i).fatalError=true →
      (b.jobs i).detached=true ∨ c i=.ended) :
    JobsOk {b with loopClosed := update b.loopClosed loop true} c r := by
  intro i hi
  change JobOk (update b.loopClosed loop true (b.jobs i).loop) (b.jobs i) (c i) (r i)
  by_cases hl : (b.jobs i).loop=loop
  · rw [hl,update_self]
    exact (h i hi).closeLoop (hf i hi hl)
  · rw [update_of_ne hl]
    exact h i hi

def BrokerAct.schedules : BrokerAct → Bool
  | .dispatch | .closeGateAdmission _ | .configure _ | .assignPolicy _ _ | .notifyPolicyChange _
  | .setGateClosed _ _ | .close | .closePoll => true
  | _ => false

theorem BrokerInv.schedules_turned {a : BrokerAct} (hinv : BrokerInv noHole noFloat none b)
    (ha : a.schedules=true) (hs : Execution.brokerStep b a=some b') : Turned b b' := by
  cases a with simp only [Execution.brokerStep] at hs
  | dispatch =>
    exact Option.some.inj hs ▸ hinv.dispatch_turned
  | closeGateAdmission g =>
    simp only [Execution.brokerStep,Broker.closeGateAdmission] at hs
    split_ifs at hs
    · exact Option.some.inj hs ▸ .refl b
    · exact Option.some.inj hs ▸
        (hinv.closeGateQueue_turned g).trans (hinv.closeGateQueue g).dispatch_turned
  | configure limit =>
    split_ifs at hs
    have hturn : Turned b {b with globalQueueLimit := limit} := .frame rfl rfl rfl
    exact Option.some.inj hs ▸ hturn.trans (hinv.setLimit limit).dispatch_turned
  | assignPolicy g p | setGateClosed g closed =>
    exact Option.some.inj hs ▸ .frame rfl rfl rfl
  | notifyPolicyChange g =>
    have hturn : Turned b ({b with notices := b.notices.erase g}.reconsiderLane (some g)) := by
      have herase : Turned b {b with notices := b.notices.erase g} := .frame rfl rfl rfl
      refine herase.trans ?_
      unfold Broker.reconsiderLane
      split_ifs
      · exact .frame (queueLane_drains _ _).next (queueLane_drains _ _).loopClosed (queueLane_jobs _ _)
      · exact .refl _
    exact Option.some.inj hs ▸ hturn.trans (hinv.reconsiderLane g).dispatch_turned
  | close =>
    have hfold := foldl_dropQueued_turned (b.laneQueues.entries.flatMap (fun e => e.2)) b
    have hclosed : Turned b b.close := hfold.trans (.frame rfl rfl rfl)
    exact Option.some.inj hs ▸ hclosed
  | closePoll =>
    exact Option.some.inj hs ▸ takeDrainedExecutor_turned b
  | submit | workerStart | workerFinish | complete | deliver | runCancel | cancelOrDetach | closeLoop =>
    cases ha

theorem submit_next (b : Broker) (q : Request) : b.next≤(b.submit q).1.next := by
  have hd : ((b.enqueue q).queueLane q.lane).dispatch.next=(b.enqueue q).next :=
    ((queueLane_drains (b.enqueue q) q.lane).trans (dispatch_drains _)).next
  have hnext : (b.enqueue q).next=b.next+1 := rfl
  unfold Broker.submit
  dsimp only
  split_ifs
  · exact Nat.le_refl _
  · exact Nat.le_refl _
  · exact Nat.le_refl _
  · exact Nat.le_refl _
  · exact Nat.le_refl _
  · change b.next≤((b.enqueue q).queueLane q.lane).dispatch.next
    omega

theorem deliver_next (b : Broker) (i : Nat) : (b.deliver i).next=b.next := by
  unfold Broker.deliver
  dsimp only
  split_ifs
  · rfl
  · exact (takeDrainedExecutor_drains _).next
  · exact (takeDrainedExecutor_drains _).next

theorem JobsOk.brokerStep {a : BrokerAct} (h : JobsOk b c r)
    (hinv : BrokerInv noHole noFloat none b) (hfresh : c b.next=.waiting ∧ r b.next=0)
    (hcancel : ∀i,a≠.cancelOrDetach i)
    (hclose : ∀loop,a=.closeLoop loop → ∀i<b.next,(b.jobs i).loop=loop →
      (b.jobs i).fatalError=true → (b.jobs i).detached=true ∨ c i=.ended)
    (hs : Execution.brokerStep b a=some b') : JobsOk b' c r ∧ b.next≤b'.next := by
  by_cases ha : a.schedules=true
  · have hturn := hinv.schedules_turned ha hs
    exact ⟨h.turned hturn,Nat.le_of_eq hturn.next.symm⟩
  cases a with simp only [Execution.brokerStep] at hs
  | submit q =>
    exact Option.some.inj hs ▸ ⟨h.submit hinv q hfresh.1 hfresh.2,submit_next b q⟩
  | workerStart i =>
    split_ifs at hs with hpre
    have hj := h i hpre.1
    have hstarts : (b.jobs i).starts+1=WorkerFuture.executing.started := by
      rw [hj.starts,hpre.2]; rfl
    exact Option.some.inj hs ▸
      ⟨h.setJob rfl (hj.thread (by simp) (by simp [hpre.2]) hstarts),Nat.le_refl _⟩
  | workerFinish i o =>
    split_ifs at hs with hpre
    have hj := h i hpre.1
    have hstarts : (b.jobs i).starts=(WorkerFuture.done o).started := by
      rw [hj.starts,hpre.2.1]
      cases o with
      | result | error f => rfl
      | cancelled => exact absurd rfl hpre.2.2
    exact Option.some.inj hs ▸
      ⟨h.setJob rfl (hj.thread (by simp) (by simp [hpre.2.1]) hstarts),Nat.le_refl _⟩
  | complete i =>
    split at hs
    · split_ifs at hs with hi
      exact Option.some.inj hs ▸ ⟨h.completeFromWorker hinv hi _,
        Nat.le_of_eq (completeFromWorker_drains b i _).next.symm⟩
    · cases hs
  | deliver i =>
    split_ifs at hs with hpre
    exact Option.some.inj hs ▸ ⟨h.deliver hpre.1 hpre.2.1,Nat.le_of_eq (deliver_next b i).symm⟩
  | runCancel i =>
    split_ifs at hs with hpre
    have hloop : (cancelCompletion (b.jobs i)).loop=(b.jobs i).loop := by
      obtain ⟨x,hx⟩ := cancelCompletion_eq (b.jobs i)
      rw [hx]
    exact Option.some.inj hs ▸
      ⟨h.setJob hloop ((h i hpre.1).runCancel hpre.2.1),Nat.le_refl _⟩
  | cancelOrDetach i => exact absurd rfl (hcancel i)
  | closeLoop loop =>
    exact Option.some.inj hs ▸ ⟨h.closeLoop loop (hclose loop rfl),Nat.le_refl _⟩
  | dispatch | closeGateAdmission g | configure limit | assignPolicy g p | notifyPolicyChange g
  | setGateClosed g closed | close | closePoll => exact absurd rfl ha

/-! Tasks -/

theorem cancelOrDetach_next (b : Broker) (i : Nat) : (b.cancelOrDetach i).next=b.next := by
  unfold Broker.cancelOrDetach
  split_ifs
  · exact (dispatch_drains _).next.trans (removeQueued_next b i).1
  · exact (detachTerminal_next _ i).1.trans (detachJob_drains b i).next
  · exact (detachJob_drains b i).next

variable {s : Offload}

theorem OffloadInv.abandon {n : Nat} (h : OffloadInv s) (hi : i < s.broker.next)
    (hc : s.consumer i≠.ended)
    (hn : n=s.raised i ∨ (s.broker.jobs i).fatalError=false ∧ (s.broker.jobs i).completion≠.pending) :
    OffloadInv {s.abandon i with raised := update s.raised i n} := by
  refine ⟨h.broker.cancelOrDetach hi,h.jobs.cancelOrDetach h.broker hi hc hn,fun m hm => ?_⟩
  have hm' : (s.broker.cancelOrDetach i).next ≤ m := hm
  rw [cancelOrDetach_next] at hm'
  have hne : m≠i := by omega
  obtain ⟨h1,h2⟩ := h.fresh m hm'
  exact ⟨(update_of_ne hne _ _).trans h1,(update_of_ne hne _ _).trans h2⟩

theorem OffloadInv.setConsumer {c : Consumer} {n : Nat} (h : OffloadInv s)
    (hi : i < s.broker.next) (hj : JobOk (s.broker.loopClosed (s.broker.jobs i).loop) (s.broker.jobs i)
      c n) : OffloadInv {s.setConsumer i c with raised := update s.raised i n} := by
  refine ⟨h.broker,h.jobs.write (i := i) rfl rfl (fun m hm => ⟨rfl,update_of_ne hm _ _,
    update_of_ne hm _ _⟩) ?_,fun m hm => ?_⟩
  · change JobOk _ (s.broker.jobs i) (update s.consumer i c i)
      (update s.raised i n i)
    rw [update_self,update_self]
    exact hj
  · have hne : m≠i := by
      have hm' : s.broker.next ≤ m := hm
      omega
    obtain ⟨h1,h2⟩ := h.fresh m hm
    exact ⟨(update_of_ne hne _ _).trans h1,(update_of_ne hne _ _).trans h2⟩

theorem OffloadInv.consume {c : Consumer} (h : OffloadInv s) (hloop : s.onLoop i)
    (hold : s.consumer i≠.ended) (hc : c≠.ended)
    (hwoken : c=.woken → ∃o,(s.broker.jobs i).completion=.done o ∧ o≠.cancelled)
    (hkeep : s.consumer i=.waiting ∧ (c=.cancelling ∨ c=.woken) ∨
      s.consumer i=.woken ∧ c=.mustCancel) : OffloadInv (s.setConsumer i c) := by
  obtain ⟨hi,hopen⟩ := hloop
  have hj := h.jobs i hi
  rw [hopen] at hj
  have hset := h.setConsumer (c := c) (n := s.raised i) hi (by
    rw [hopen]; exact hj.consume hold hc hwoken hkeep)
  rw [update_eq_self] at hset
  exact hset

theorem OffloadInv.resume {s t : Offload} (h : OffloadInv s) (hloop : s.onLoop i)
    (hok : ¬(s.consumer i=.woken ∧ (s.broker.jobs i).lane≠none ∧
      (s.broker.jobs i).completion=.done (.error .cancelledError)))
    (hs : s.resume i=some t) : OffloadInv t := by
  obtain ⟨hi,hopen⟩ := hloop
  have hj := h.jobs i hi
  have hkeep : update s.raised i (s.raised i)=s.raised := update_eq_self _ _
  have habandon (hc : s.consumer i≠.ended) : OffloadInv (s.abandon i) := by
    have ha := h.abandon hi hc (n := s.raised i) (Or.inl rfl)
    rw [hkeep] at ha
    exact ha
  unfold Offload.resume at hs
  split at hs
  · rename_i hc
    exact Option.some.inj hs ▸ habandon (by rw [hc]; simp)
  · rename_i hc
    exact Option.some.inj hs ▸ habandon (by rw [hc]; simp)
  · rename_i hc _
    exact Option.some.inj hs ▸ habandon (by rw [hc]; simp)
  · rename_i hc hcomp
    rw [hc,hopen] at hj
    have hset := h.setConsumer (c := .ended) (n := s.raised i) hi (by
      rw [hopen]; exact hj.finishTask hcomp)
    rw [hkeep] at hset
    exact Option.some.inj hs ▸ hset
  · rename_i f hc hcomp
    obtain rfl := Option.some.inj hs
    rw [hc,hopen] at hj
    have hset := h.setConsumer (c := .ended) (n := s.raised i+1) hi (by
      rw [hopen]; exact hj.finishTask hcomp)
    cases f with
    | exception => exact hset
    | fatal => exact hset
    | cancelledError =>
      have hlane : (s.broker.jobs i).lane=none := by
        by_contra hl
        exact hok ⟨hc,hl,hcomp⟩
      have hfatal : (s.broker.jobs i).fatalError=false := by
        unfold Job.fatalError
        rw [hlane]
      exact h.abandon hi (by rw [hc]; simp) (Or.inr ⟨hfatal,by rw [hcomp]; simp⟩)
  · cases hs

theorem OffloadInv.step {s t : Offload} {a : OffloadAct} (h : OffloadInv s) (hok : Careful s a)
    (hs : offloadStep s a=some t) : OffloadInv t := by
  cases a with
  | broker a =>
    have hfresh := h.fresh s.broker.next (Nat.le_refl _)
    by_cases hcancel : ∃i,a=.cancelOrDetach i
    · obtain ⟨i,rfl⟩ := hcancel
      cases hs
    · have hs' : (brokerStep s.broker a).map (fun b => {s with broker := b})=some t := by
        cases a with
        | cancelOrDetach i => exact absurd ⟨i,rfl⟩ hcancel
        | _ => exact hs
      obtain ⟨b,hb,rfl⟩ := Option.map_eq_some_iff.mp hs'
      obtain ⟨hjobs,hnext⟩ := h.jobs.brokerStep h.broker hfresh (fun i he => hcancel ⟨i,he⟩)
        (fun loop he => by subst he; exact hok) hb
      exact ⟨h.broker.brokerStep hb,hjobs,fun i hi => h.fresh i (Nat.le_trans hnext hi)⟩
  | consumerCancel i =>
    simp only [offloadStep] at hs
    split_ifs at hs with hloop
    obtain ⟨c,hc,rfl⟩ := Option.map_eq_some_iff.mp hs
    unfold cancelConsumer at hc
    split at hc
    · rename_i hold
      obtain rfl := Option.some.inj hc
      exact h.consume hloop (by rw [hold]; simp) (by simp) (fun hx => by cases hx)
        (Or.inl ⟨hold,Or.inl rfl⟩)
    · rename_i hold
      obtain rfl := Option.some.inj hc
      exact h.consume hloop (by rw [hold]; simp) (by simp) (fun hx => by cases hx)
        (Or.inr ⟨hold,rfl⟩)
    · cases hc
  | innerDone i =>
    simp only [offloadStep] at hs
    split_ifs at hs with hpre
    obtain ⟨hloop,hold⟩ := hpre
    split at hs
    · cases hs
    · exact Option.some.inj hs ▸ h.consume hloop (by rw [hold]; simp) (by simp)
        (fun hx => by cases hx) (Or.inl ⟨hold,Or.inl rfl⟩)
    · rename_i o hne hcomp
      exact Option.some.inj hs ▸ h.consume hloop (by rw [hold]; simp) (by simp)
        (fun _ => ⟨o,hcomp,hne⟩)
        (Or.inl ⟨hold,Or.inr rfl⟩)
  | resume i =>
    simp only [offloadStep] at hs
    split_ifs at hs with hloop
    exact h.resume hloop hok hs

theorem fatalError_outcome (h : j.fatalError=true) : ∃f,j.outcome=some (.error f) := by
  unfold Job.fatalError at h
  split at h
  · exact ⟨_,by assumption⟩
  · cases h

theorem JobOk.fatal {c : Consumer} {r : Nat} (h : JobOk closed j c r) (hf : j.fatalError=true) :
    r+j.deferrals=1 ∨ r+j.deferrals=0 ∧ closed=false ∧ c≠.ended ∧
      (j.deliverQueued=true ∧ j.delivered=false ∨ ∃o,j.outcome=some o ∧ j.completion=.done o) := by
  obtain ⟨f,hout⟩ := fatalError_outcome hf
  have hd := h.deferrals
  cases h.stage with
  | queued _ _ ho | running _ _ ho | cancelled _ _ ho => rw [hout] at ho; cases ho
  | pending o _ ho _ _ hdel _ hq hfd _ hc hr hopen =>
    refine Or.inr ⟨by rw [hd,hfd,hr]; rfl,hopen hf,?_,Or.inl ⟨hq,hdel⟩⟩
    rcases hc with rfl | rfl <;> simp
  | delivered o _ ho hcomp _ _ hfd _ hc _ hr hopen =>
    exact Or.inr ⟨by rw [hd,hfd,hr]; rfl,hopen hf,hc,Or.inr ⟨o,ho,hcomp⟩⟩
  | returned o _ ho _ _ hfd _ _ hr =>
    rw [hout] at ho
    cases ho
    exact Or.inl (by rw [hd,hfd,hr]; rfl)
  | detached _ _ _ _ hfd _ _ hr =>
    exact Or.inl (by rw [hd,hfd,hf,hr hf]; rfl)

end XiaoQing.Execution
