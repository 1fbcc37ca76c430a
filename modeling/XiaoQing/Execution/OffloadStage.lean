import XiaoQing.Execution.BrokerRun

namespace XiaoQing.Execution

section

open Framework Broker

/-- The task in `offload_plugin_sync`: it awaits the shield; it was cancelled while awaiting; the
shield has passed the completion on; it was cancelled after that; it is gone. -/
inductive Consumer
  | waiting
  | cancelling
  | woken
  | mustCancel
  | ended
  deriving DecidableEq

/-- The broker and the task behind each of its jobs; `raised` counts the errors a task got. -/
structure Offload where
  broker : Broker
  consumer : Nat → Consumer
  raised : Nat → Nat

namespace Offload

def setConsumer (s : Offload) (i : Nat) (c : Consumer) : Offload :=
  {s with consumer := Function.update s.consumer i c}

/-- The `except asyncio.CancelledError` of `offload_plugin_sync`. -/
def abandon (s : Offload) (i : Nat) : Offload :=
  {s.setConsumer i .ended with broker := s.broker.cancelOrDetach i}

/-- `task.cancel()`: it cancels the shield's future, or waits for the task to resume. -/
def cancelConsumer : Consumer → Option Consumer
  | .waiting => some .cancelling
  | .woken => some .mustCancel
  | _ => none

/-- The task gets the error of its job; `CancelledError` is taken for its own cancellation. -/
def raiseError (s : Offload) (i : Nat) (f : Failure) : Offload :=
  let s := {s with raised := Function.update s.raised i (s.raised i+1)}
  match f with
  | .cancelledError => s.abandon i
  | _ => s.setConsumer i .ended

def resume (s : Offload) (i : Nat) : Option Offload :=
  match s.consumer i,(s.broker.jobs i).completion with
  | .cancelling,_ | .mustCancel,_ | .woken,.done .cancelled => some (s.abandon i)
  | .woken,.done .result => some (s.setConsumer i .ended)
  | .woken,.done (.error f) => some (s.raiseError i f)
  | _,_ => none

def onLoop (s : Offload) (i : Nat) : Prop :=
  i < s.broker.next ∧ s.broker.loopClosed (s.broker.jobs i).loop=false

instance (s : Offload) (i : Nat) : Decidable (s.onLoop i) :=
  inferInstanceAs (Decidable (_ ∧ _))

def new (b : Broker) : Offload := ⟨b,fun _ => .waiting,fun _ => 0⟩

structure Initial (s : Offload) : Prop where
  broker : Broker.Initial s.broker
  consumer : ∀i,s.consumer i=.waiting
  raised : ∀i,s.raised i=0

end Offload

open Offload

inductive OffloadAct
  | broker (a : BrokerAct)
  | consumerCancel (i : Nat)
  | innerDone (i : Nat)
  | resume (i : Nat)

/-- One critical section of the broker or one callback of a loop. Only the task of a job calls
`cancel_or_detach`. -/
def offloadStep (s : Offload) : OffloadAct → Option Offload
  | .broker (.cancelOrDetach _) => none
  | .broker a => (brokerStep s.broker a).map (fun b => {s with broker := b})
  | .consumerCancel i =>
    if s.onLoop i then (cancelConsumer (s.consumer i)).map (s.setConsumer i) else none
  | .innerDone i =>
    if s.onLoop i ∧ s.consumer i=.waiting then
      match (s.broker.jobs i).completion with
      | .pending => none
      | .done .cancelled => some (s.setConsumer i .cancelling)
      | .done _ => some (s.setConsumer i .woken)
    else none
  | .resume i => if s.onLoop i then s.resume i else none

end

section

open Framework Broker Offload

/-! Stages of a job -/

def JobState.route : JobState → List JobState
  | .queued => [.queued]
  | .running => [.queued,.running]
  | .terminal => [.queued,.running,.terminal]
  | .cancelled => [.queued,.cancelled]

def WorkerFuture.started : WorkerFuture → Nat
  | .absent | .pending | .done .cancelled => 0
  | .executing | .done _ => 1

def Outcome.raises : Outcome → Nat
  | .error _ => 1
  | _ => 0

/-- Where a job, its task and its error stand; `closed` tells whether the loop is closed. -/
inductive Stage (closed : Bool) (j : Job) (c : Consumer) (r : Nat) : Prop
  | queued : j.state=.queued → j.actualFuture=.absent → j.outcome=none → j.completion=.pending →
    j.detached=false → j.delivered=false → j.fatalDeferred=false → j.cancelQueued=false →
    j.deliverQueued=false → c=.waiting ∨ c=.cancelling → r=0 → Stage closed j c r
  | cancelled : j.state=.cancelled → j.actualFuture=.absent → j.outcome=none →
    j.fatalDeferred=false → j.deliverQueued=false → Stage closed j c r
  | running : j.state=.running → j.actualFuture≠.absent → j.outcome=none → j.completion=.pending →
    j.delivered=false → j.fatalDeferred=false → j.cancelQueued=false → j.deliverQueued=false →
    c=.waiting ∨ c=.cancelling ∨ c=.ended → (j.detached=true ↔ c=.ended) → r=0 → Stage closed j c r
  | pending (o : Outcome) : j.state=.terminal → j.outcome=some o → j.completion=.pending →
    j.detached=false → j.delivered=false → j.deliveryPending=true → j.deliverQueued=true →
    j.fatalDeferred=false → j.cancelQueued=false → c=.waiting ∨ c=.cancelling → r=0 →
    (j.fatalError=true → closed=false) → Stage closed j c r
  | delivered (o : Outcome) : j.state=.terminal → j.outcome=some o → j.completion=.done o →
    j.detached=false → j.delivered=true → j.fatalDeferred=false → j.cancelQueued=false →
    c≠.ended → (c=.woken → o≠.cancelled) → r=0 → (j.fatalError=true → closed=false) →
    Stage closed j c r
  | returned (o : Outcome) : j.state=.terminal → j.outcome=some o → j.detached=false →
    j.delivered=true → j.fatalDeferred=false → j.cancelQueued=false → c=.ended → r=o.raises →
    Stage closed j c r
  | detached : j.state=.terminal → j.outcome≠none → j.detached=true → j.delivered=true →
    j.fatalDeferred=j.fatalError → j.cancelQueued=false → (c=.ended ∨ closed=true) →
    (j.fatalError=true → r=0) → Stage closed j c r

structure JobOk (closed : Bool) (j : Job) (c : Consumer) (r : Nat) : Prop where
  path : j.path=j.state.route
  starts : j.starts=j.actualFuture.started
  deferrals : j.deferrals=j.fatalDeferred.toNat
  stage : Stage closed j c r

/-- What the dispatcher does to one job. -/
inductive JobTurn (closed : Bool) (j : Job) : Job → Prop
  | same : JobTurn closed j j
  | drop : j.state=.queued → JobTurn closed j (j.drop closed)
  | start : j.state=.queued → JobTurn closed j {j.enter .running with actualFuture := .pending}
  | refuse (f : Failure) : j.state=.queued → JobTurn closed j
    ({(j.enter .running).enter .terminal with outcome := some (.error f)}.scheduleDelivery closed)

variable {closed : Bool} {j j' : Job} {c : Consumer} {r : Nat}

theorem deferFatal_eq (j : Job) : j.deferFatal={j with
    fatalDeferred := j.fatalDeferred || j.fatalError
    deferrals := j.deferrals+(j.fatalError && !j.fatalDeferred).toNat} := by
  unfold Job.deferFatal
  split_ifs with h
  · rw [h.1,h.2]; rfl
  · have hd : (j.fatalDeferred || j.fatalError)=j.fatalDeferred := by
      revert h
      cases j.fatalDeferred <;> cases j.fatalError <;> simp
    have hn : (j.fatalError && !j.fatalDeferred)=false := by
      revert h
      cases j.fatalDeferred <;> cases j.fatalError <;> simp
    rw [hd,hn]
    rfl

theorem deferFatal_deferrals (h : j.deferrals=j.fatalDeferred.toNat) :
    j.deferFatal.deferrals=j.deferFatal.fatalDeferred.toNat := by
  rw [deferFatal_eq]
  cases hf : j.fatalError <;> cases hd : j.fatalDeferred <;> simp [h,hd]

theorem scheduleDelivery_stage (o : Outcome) (hs : j.state=.terminal) (ho : j.outcome=some o)
    (hcomp : j.completion=.pending) (hdel : j.delivered=false) (hfd : j.fatalDeferred=false)
    (hcq : j.cancelQueued=false) (hc : c=.waiting ∨ c=.cancelling ∨ c=.ended)
    (hdet : j.detached=true ↔ c=.ended) (hr : r=0) :
    Stage closed (j.scheduleDelivery closed) c r := by
  unfold Job.scheduleDelivery
  split_ifs with h1 h2
  · rw [deferFatal_eq]
    refine .detached hs (by simp [ho]) h1 rfl ?_ hcq (Or.inl (hdet.mp h1)) (fun _ => hr)
    change (j.fatalDeferred || _)=_
    rw [hfd,Bool.false_or]; rfl
  · rw [deferFatal_eq]
    refine .detached hs (by simp [ho]) rfl rfl ?_ hcq (Or.inr h2) (fun _ => hr)
    change (j.fatalDeferred || _)=_
    rw [hfd,Bool.false_or]; rfl
  · have hc' : c=.waiting ∨ c=.cancelling := by
      rcases hc with hc | hc | hc
      · exact Or.inl hc
      · exact Or.inr hc
      · exact absurd (hdet.mpr hc) h1
    exact .pending o hs ho hcomp (by simpa using h1) hdel rfl rfl hfd hcq hc' hr
      (fun _ => by simpa using h2)

theorem scheduleDelivery_trace (closed : Bool) (j : Job) :
    (j.scheduleDelivery closed).path=j.path ∧ (j.scheduleDelivery closed).state=j.state ∧
      (j.scheduleDelivery closed).starts=j.starts ∧
      (j.scheduleDelivery closed).actualFuture=j.actualFuture ∧
      (j.deferrals=j.fatalDeferred.toNat →
        (j.scheduleDelivery closed).deferrals=(j.scheduleDelivery closed).fatalDeferred.toNat) := by
  unfold Job.scheduleDelivery
  split_ifs
  · refine ⟨?_,?_,?_,?_,fun h => deferFatal_deferrals h⟩ <;> rw [deferFatal_eq]
  · refine ⟨?_,?_,?_,?_,fun h => ?_⟩
    · rw [deferFatal_eq]
    · rw [deferFatal_eq]
    · rw [deferFatal_eq]
    · rw [deferFatal_eq]
    · exact deferFatal_deferrals (j := {j with detached := true}) h
  · exact ⟨rfl,rfl,rfl,rfl,fun h => h⟩

theorem JobOk.finish (h : JobOk closed j c r) (hrun : j.state=.running) (o : Outcome) :
    JobOk closed ({j.enter .terminal with outcome := some o}.scheduleDelivery closed) c r := by
  obtain ⟨h1,h2,h3,h4,h5⟩ :=
    scheduleDelivery_trace closed {j.enter .terminal with outcome := some o}
  have hpath : j.path++[.terminal]=JobState.terminal.route := by rw [h.path,hrun]; rfl
  have hstage : Stage closed ({j.enter .terminal with outcome := some o}.scheduleDelivery closed)
      c r := by
    cases h.stage with
    | running _ _ _ hcomp hdel hfd hcq _ hc hdet hr =>
      exact scheduleDelivery_stage o rfl rfl hcomp hdel hfd hcq hc hdet hr
    | queued hs | cancelled hs | pending _ hs | delivered _ hs | returned _ hs | detached hs =>
      rw [hrun] at hs; cases hs
  exact ⟨h1.trans (hpath.trans (by rw [h2]; rfl)),by rw [h3,h4]; exact h.starts,h5 h.deferrals,hstage⟩

theorem JobOk.fresh (h : JobOk closed j c r) (hq : j.state=.queued) :
    j.actualFuture=.absent ∧ j.outcome=none ∧ j.completion=.pending ∧ j.detached=false ∧
      j.delivered=false ∧ j.fatalDeferred=false ∧ j.cancelQueued=false ∧ j.deliverQueued=false ∧
      (c=.waiting ∨ c=.cancelling) ∧ r=0 := by
  cases h.stage with
  | queued _ h1 h2 h3 h4 h5 h6 h7 h8 h9 h10 => exact ⟨h1,h2,h3,h4,h5,h6,h7,h8,h9,h10⟩
  | running hx | cancelled hx | pending _ hx | delivered _ hx | returned _ hx | detached hx =>
    rw [hq] at hx; cases hx

theorem JobOk.dropQueued {c' : Consumer} (h : JobOk closed j c r) (hq : j.state=.queued)
    (hpath : j'.path=j.path++[.cancelled]) (hs : j'.state=.cancelled)
    (hstarts : j'.starts=j.starts) (hfuture : j'.actualFuture=j.actualFuture)
    (hout : j'.outcome=j.outcome) (hdef : j'.deferrals=j.deferrals)
    (hfd : j'.fatalDeferred=j.fatalDeferred) (hdq : j'.deliverQueued=j.deliverQueued) :
    JobOk closed j' c' r := by
  obtain ⟨hf,ho,_,_,_,hd,_,hn,_⟩ := h.fresh hq
  refine ⟨?_,?_,?_,?_⟩
  · rw [hpath,h.path,hq,hs]; rfl
  · rw [hstarts,hfuture]; exact h.starts
  · rw [hdef,hfd]; exact h.deferrals
  · exact .cancelled hs (hfuture.trans hf) (hout.trans ho) (hfd.trans hd) (hdq.trans hn)

theorem JobOk.turn (h : JobOk closed j c r) (ht : JobTurn closed j j') : JobOk closed j' c r := by
  cases ht with
  | same => exact h
  | drop hq => exact h.dropQueued hq rfl rfl rfl rfl rfl rfl rfl rfl
  | start hq =>
    obtain ⟨hf,ho,hcomp,hdet,hdel,hfd,hcq,hdq,hc,hr⟩ := h.fresh hq
    have hpath : j.path++[.running]=JobState.running.route := by rw [h.path,hq]; rfl
    have hstarts : j.starts=0 := by rw [h.starts,hf]; rfl
    have hattached : j.detached=true ↔ c=.ended := by
      rcases hc with rfl | rfl <;> simp [hdet]
    exact ⟨hpath,hstarts,h.deferrals,.running rfl (by simp) ho hcomp hdel hfd hcq hdq
      (hc.imp_right Or.inl) hattached hr⟩
  | refuse f hq =>
    obtain ⟨hf,ho,hcomp,hdet,hdel,hfd,hcq,_,hc,hr⟩ := h.fresh hq
    obtain ⟨h1,h2,h3,h4,h5⟩ := scheduleDelivery_trace closed
      {(j.enter .running).enter .terminal with outcome := some (.error f)}
    have hpath : (j.path++[.running])++[.terminal]=JobState.terminal.route := by
      rw [h.path,hq]; rfl
    have hattached : j.detached=true ↔ c=.ended := by
      rcases hc with rfl | rfl <;> simp [hdet]
    refine ⟨h1.trans (hpath.trans (by rw [h2]; rfl)),by rw [h3,h4]; exact h.starts,h5 h.deferrals,?_⟩
    exact scheduleDelivery_stage (.error f) rfl rfl hcomp hdel hfd hcq
      (hc.imp_right Or.inl) hattached hr

theorem JobOk.thread {w : WorkerFuture} {n : Nat} (h : JobOk closed j c r) (hw : w≠.absent)
    (hold : j.actualFuture≠.absent) (hn : n=w.started) :
    JobOk closed {j with actualFuture := w,starts := n} c r := by
  refine ⟨h.path,hn,h.deferrals,?_⟩
  cases h.stage with
  | queued _ hf => exact absurd hf hold
  | cancelled _ hf => exact absurd hf hold
  | running h1 _ h3 h4 h5 h6 h7 h8 h9 h10 h11 =>
    exact .running h1 hw h3 h4 h5 h6 h7 h8 h9 h10 h11
  | pending o h1 h2 h3 h4 h5 h6 h7 h8 h9 h10 h11 h12 =>
    exact .pending o h1 h2 h3 h4 h5 h6 h7 h8 h9 h10 h11 h12
  | delivered o h1 h2 h3 h4 h5 h6 h7 h8 h9 h10 h11 =>
    exact .delivered o h1 h2 h3 h4 h5 h6 h7 h8 h9 h10 h11
  | returned o h1 h2 h3 h4 h5 h6 h7 h8 => exact .returned o h1 h2 h3 h4 h5 h6 h7 h8
  | detached h1 h2 h3 h4 h5 h6 h7 h8 => exact .detached h1 h2 h3 h4 h5 h6 h7 h8

theorem JobOk.deliver (h : JobOk closed j c r) (hq : j.deliverQueued=true)
    (hd : j.delivered=false) : JobOk closed {j.deliver with deliverQueued := false} c r := by
  cases h.stage with
  | queued _ _ _ _ _ _ _ _ hn | running _ _ _ _ _ _ _ hn | cancelled _ _ _ _ hn =>
    rw [hq] at hn; cases hn
  | delivered _ _ _ _ _ hn | returned _ _ _ _ hn | detached _ _ _ hn =>
    rw [hd] at hn; cases hn
  | pending o h1 h2 h3 h4 h5 h6 h7 h8 h9 h10 h11 h12 =>
    have he : j.deliver={j with delivered := true,deliveryPending := false,completion := .done o} := by
      unfold Job.deliver
      dsimp only
      rw [if_neg (by simp [h4]),h3,h2]
    rw [he]
    refine ⟨h.path,h.starts,h.deferrals,.delivered o h1 h2 rfl h4 rfl h8 h9 ?_ ?_ h11 h12⟩
    · rcases h10 with rfl | rfl <;> simp
    · rcases h10 with rfl | rfl <;> simp

theorem JobOk.deliverAgain (h : JobOk closed j c r) (hd : j.delivered=true) :
    JobOk closed {j with deliverQueued := false} c r := by
  refine ⟨h.path,h.starts,h.deferrals,?_⟩
  cases h.stage with
  | queued _ _ _ _ _ hn | running _ _ _ _ hn | pending _ _ _ _ _ hn => rw [hd] at hn; cases hn
  | cancelled h1 h2 h3 h4 h5 => exact .cancelled h1 h2 h3 h4 rfl
  | delivered o h1 h2 h3 h4 h5 h6 h7 h8 h9 h10 h11 =>
    exact .delivered o h1 h2 h3 h4 h5 h6 h7 h8 h9 h10 h11
  | returned o h1 h2 h3 h4 h5 h6 h7 h8 => exact .returned o h1 h2 h3 h4 h5 h6 h7 h8
  | detached h1 h2 h3 h4 h5 h6 h7 h8 => exact .detached h1 h2 h3 h4 h5 h6 h7 h8

theorem cancelCompletion_eq (j : Job) : ∃x,cancelCompletion j={j with completion := x} := by
  unfold cancelCompletion
  split
  · exact ⟨.done .cancelled,rfl⟩
  · exact ⟨j.completion,rfl⟩

theorem JobOk.runCancel (h : JobOk closed j c r) (hq : j.cancelQueued=true) :
    JobOk closed {cancelCompletion j with cancelQueued := false} c r := by
  obtain ⟨x,hx⟩ := cancelCompletion_eq j
  rw [hx]
  refine ⟨h.path,h.starts,h.deferrals,?_⟩
  cases h.stage with
  | cancelled h1 h2 h3 h4 h5 => exact .cancelled h1 h2 h3 h4 h5
  | queued _ _ _ _ _ _ _ hn | running _ _ _ _ _ _ hn | pending _ _ _ _ _ _ _ _ _ hn
  | delivered _ _ _ _ _ _ _ hn | returned _ _ _ _ _ _ hn | detached _ _ _ _ _ hn =>
    rw [hq] at hn; cases hn

/-! The task goes away -/

theorem JobOk.detachRunning (h : JobOk closed j c r) (hs : j.state=.running) :
    JobOk closed {j with detached := true} .ended r := by
  refine ⟨h.path,h.starts,h.deferrals,?_⟩
  cases h.stage with
  | running h1 h2 h3 h4 h5 h6 h7 h8 _ _ hr =>
    exact .running h1 h2 h3 h4 h5 h6 h7 h8 (Or.inr (Or.inr rfl)) (iff_of_true rfl rfl) hr
  | queued hx | cancelled hx | pending _ hx | delivered _ hx | returned _ hx | detached hx =>
    rw [hs] at hx; cases hx

theorem JobOk.detachCancelled {c' : Consumer} {n : Nat} (h : JobOk closed j c r)
    (hs : j.state=.cancelled) : JobOk closed {j with detached := true} c' n := by
  refine ⟨h.path,h.starts,h.deferrals,?_⟩
  cases h.stage with
  | cancelled h1 h2 h3 h4 h5 => exact .cancelled h1 h2 h3 h4 h5
  | queued hx | running hx | pending _ hx | delivered _ hx | returned _ hx | detached hx =>
    rw [hs] at hx; cases hx

theorem JobOk.ofCompletion (h : ∀x,JobOk closed {j with completion := x} c r) :
    JobOk closed (cancelCompletion j) c r := by
  obtain ⟨x,hx⟩ := cancelCompletion_eq j
  rw [hx]
  exact h x

theorem JobOk.abandonTerminal {n : Nat} {p : Bool} (h : JobOk closed j c r)
    (hs : j.state=.terminal) (hc : c≠.ended ∨ j.detached=true) (hn : n=r ∨ j.fatalError=false) :
    JobOk closed (cancelCompletion {{j with detached := true}.deferFatal with
      delivered := true,deliveryPending := p}) .ended n := by
  have hdef := deferFatal_deferrals (j := {j with detached := true}) h.deferrals
  rw [deferFatal_eq] at hdef ⊢
  refine .ofCompletion (fun x => ⟨h.path,h.starts,hdef,?_⟩)
  have hdetached (hout : j.outcome≠none) (hfd : (j.fatalDeferred || j.fatalError)=j.fatalError)
      (hcq : j.cancelQueued=false) (hr : j.fatalError=true → r=0) :
      Stage closed {j with
        detached := true
        fatalDeferred := j.fatalDeferred || j.fatalError
        deferrals := j.deferrals+(j.fatalError && !j.fatalDeferred).toNat
        delivered := true
        deliveryPending := p
        completion := x} .ended n := by
    refine .detached hs hout rfl rfl hfd hcq (Or.inl rfl) (fun hfatal => ?_)
    have hfatal' : j.fatalError=true := hfatal
    rcases hn with hn | hn
    · exact hn.trans (hr hfatal')
    · rw [hfatal'] at hn; cases hn
  cases h.stage with
  | queued hx | running hx | cancelled hx => rw [hs] at hx; cases hx
  | pending o _ ho _ _ _ _ _ hfd hcq _ hr =>
    exact hdetached (by simp [ho]) (by simp [hfd]) hcq (fun _ => hr)
  | delivered o _ ho _ _ _ hfd hcq _ _ hr =>
    exact hdetached (by simp [ho]) (by simp [hfd]) hcq (fun _ => hr)
  | returned o _ _ hdet _ _ _ he =>
    rcases hc with hc | hc
    · exact absurd he hc
    · rw [hdet] at hc; cases hc
  | detached _ ho _ _ hfd hcq _ hr => exact hdetached ho (by simp [hfd]) hcq hr

/-! The task goes on -/

theorem JobOk.consume {c' : Consumer} (h : JobOk false j c r) (hc : c≠.ended) (hc' : c'≠.ended)
    (hwoken : c'=.woken → ∃o,j.completion=.done o ∧ o≠.cancelled)
    (hkeep : c=.waiting ∧ (c'=.cancelling ∨ c'=.woken) ∨ c=.woken ∧ c'=.mustCancel) :
    JobOk false j c' r := by
  refine ⟨h.path,h.starts,h.deferrals,?_⟩
  have hpending (hp : j.completion=.pending) (hold : c=.waiting ∨ c=.cancelling) :
      c'=.waiting ∨ c'=.cancelling := by
    rcases hkeep with ⟨_,hk | hk⟩ | ⟨hk,_⟩
    · exact Or.inr hk
    · obtain ⟨o,ho,_⟩ := hwoken hk
      rw [hp] at ho; cases ho
    · rcases hold with hold | hold <;> rw [hk] at hold <;> cases hold
  cases h.stage with
  | queued h1 h2 h3 h4 h5 h6 h7 h8 h9 h10 h11 =>
    exact .queued h1 h2 h3 h4 h5 h6 h7 h8 h9 (hpending h4 h10) h11
  | cancelled h1 h2 h3 h4 h5 => exact .cancelled h1 h2 h3 h4 h5
  | running h1 h2 h3 h4 h5 h6 h7 h8 h9 h10 h11 =>
    have hold : c=.waiting ∨ c=.cancelling := by
      rcases h9 with h9 | h9 | h9
      · exact Or.inl h9
      · exact Or.inr h9
      · exact absurd h9 hc
    exact .running h1 h2 h3 h4 h5 h6 h7 h8 ((hpending h4 hold).imp_right Or.inl)
      (iff_of_false (fun hd => hc (h10.mp hd)) hc') h11
  | pending o h1 h2 h3 h4 h5 h6 h7 h8 h9 h10 h11 h12 =>
    exact .pending o h1 h2 h3 h4 h5 h6 h7 h8 h9 (hpending h3 h10) h11 h12
  | delivered o h1 h2 h3 h4 h5 h6 h7 h8 h9 h10 h11 =>
    refine .delivered o h1 h2 h3 h4 h5 h6 h7 hc' (fun hw => ?_) h10 h11
    obtain ⟨o',ho',hne⟩ := hwoken hw
    rw [h3] at ho'
    cases ho'
    exact hne
  | returned o h1 h2 h3 h4 h5 h6 h7 h8 => exact absurd h7 hc
  | detached h1 h2 h3 h4 h5 h6 h7 h8 =>
    rcases h7 with h7 | h7
    · exact absurd h7 hc
    · cases h7

theorem JobOk.finishTask {o : Outcome} (h : JobOk false j .woken r)
    (ho : j.completion=.done o) : JobOk false j .ended (r+o.raises) := by
  refine ⟨h.path,h.starts,h.deferrals,?_⟩
  cases h.stage with
  | queued _ _ _ hp | running _ _ _ hp | pending _ _ _ hp => rw [ho] at hp; cases hp
  | cancelled h1 h2 h3 h4 h5 => exact .cancelled h1 h2 h3 h4 h5
  | delivered o' h1 h2 h3 h4 h5 h6 h7 h8 h9 h10 h11 =>
    rw [ho] at h3
    cases h3
    exact .returned o h1 h2 h4 h5 h6 h7 rfl (by rw [h10,Nat.zero_add])
  | returned o h1 h2 h3 h4 h5 h6 h7 h8 => cases h7
  | detached h1 h2 h3 h4 h5 h6 h7 h8 => rcases h7 with h7 | h7 <;> cases h7

end

end XiaoQing.Execution
