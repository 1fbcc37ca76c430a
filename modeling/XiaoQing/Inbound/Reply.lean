import XiaoQing.Inbound.LaneRun

namespace XiaoQing.Inbound

open Framework Delivery Dispatcher

def receiptsOf (l : List OutAction) : List Nat := l.filterMap OutAction.receipt

/-- Where the reply of an admitted ticket stands. -/
inductive Stage (k : Ticket) : Prop
  | awaited (returned : k.returned=none) (handed : k.handovers=0) (dropped : k.drops=0)
      (result : ∀l,k.result≠.actions l) (operation : ∀l,k.operation≠.done (.actions l))
  | returned (l : List OutAction) (returned : k.returned=some l) (handed : k.handovers=0)
      (dropped : k.drops=0) (result : ∀l',k.result≠.actions l')
      (operation : k.operation=.done (.actions l))
  | held (l : List OutAction) (returned : k.returned=some l) (handed : k.handovers=0)
      (dropped : k.drops=0) (result : k.result=.actions l) (operation : k.operation=.absent)
      (consumer : k.consumer=.unclaimed ∨ k.consumer=.waiting false ∨
        k.consumer=.waiting true ∧ receiptsOf l=[])
  | handed (l : List OutAction) (returned : k.returned=some l) (handed : k.handovers=1)
      (dropped : k.drops=0) (result : k.result=.actions l) (operation : k.operation=.absent)
      (consumer : k.consumer=.handed)
  | dropped (l : List OutAction) (returned : k.returned=some l) (handed : k.handovers=0)
      (dropped : k.drops=1) (operation : k.operation=.absent)
      (consumer : (∀l',k.result≠.actions l') ∨ k.consumer=.discarded)
  | blank (l : List OutAction) (returned : k.returned=some l) (handed : k.handovers=0)
      (dropped : k.drops=0) (operation : k.operation=.absent)
      (consumer : (∀l',k.result≠.actions l') ∨ k.consumer=.ended) (receipts : receiptsOf l=[])

structure Ticket.Sound (k : Ticket) : Prop where
  stage : Stage k
  idle : k.started=false → k.operation=.absent ∧ k.returned=none
  finished : k.finished=true → k.operation=.absent ∧ k.result≠.pending
  claimed : k.result=.pending → k.consumer=.unclaimed ∨ k.consumer=.waiting false

structure Ticket.Quiet (k k' : Ticket) : Prop where
  returned : k'.returned=k.returned
  handed : k'.handovers=k.handovers
  dropped : k'.drops=k.drops
  consumer : k'.consumer=k.consumer
  started : k'.started=k.started
  result : k'.result=k.result ∨ k.result=.pending ∧ (k'.result=.cancelled ∨ k'.result=.failed)
  operation : k'.operation=k.operation ∨ ∃b,k.operation=.running b ∧ k'.operation=.running true
  finished : k'.finished=k.finished ∨ k.started=false ∧ k'.result≠.pending

theorem Ticket.Quiet.refl (k : Ticket) : k.Quiet k :=
  ⟨rfl,rfl,rfl,rfl,rfl,Or.inl rfl,Or.inl rfl,Or.inl rfl⟩

variable {k k' : Ticket}

theorem Ticket.Quiet.result_actions (h : k.Quiet k') (l : List OutAction) :
    k'.result=.actions l ↔ k.result=.actions l := by
  rcases h.result with hr | ⟨hr,hr' | hr'⟩
  · rw [hr]
  · rw [hr,hr']; simp
  · rw [hr,hr']; simp

theorem Ticket.Quiet.operation_done (h : k.Quiet k') (o : HandlerOutcome) :
    k'.operation=.done o ↔ k.operation=.done o := by
  rcases h.operation with hr | ⟨b,hr,hr'⟩
  · rw [hr]
  · rw [hr,hr']; simp

theorem Ticket.Quiet.operation_absent (h : k.Quiet k') :
    k'.operation=.absent ↔ k.operation=.absent := by
  rcases h.operation with hr | ⟨b,hr,hr'⟩
  · rw [hr]
  · rw [hr,hr']; simp

theorem Ticket.Quiet.sound (h : k.Quiet k') (hk : k.Sound) : k'.Sound := by
  have hno (hr : ∀l,k.result≠.actions l) (l : List OutAction) : k'.result≠.actions l :=
    fun he => hr l ((h.result_actions l).mp he)
  refine ⟨?_,?_,?_,?_⟩
  · cases hk.stage with
    | awaited h1 h2 h3 h4 h5 =>
      exact .awaited (h.returned.trans h1) (h.handed.trans h2) (h.dropped.trans h3) (hno h4)
        (fun l he => h5 l ((h.operation_done _).mp he))
    | returned l h1 h2 h3 h4 h5 =>
      exact .returned l (h.returned.trans h1) (h.handed.trans h2) (h.dropped.trans h3) (hno h4)
        ((h.operation_done _).mpr h5)
    | held l h1 h2 h3 h4 h5 h6 =>
      exact .held l (h.returned.trans h1) (h.handed.trans h2) (h.dropped.trans h3)
        ((h.result_actions l).mpr h4) (h.operation_absent.mpr h5) (by rw [h.consumer]; exact h6)
    | handed l h1 h2 h3 h4 h5 h6 =>
      exact .handed l (h.returned.trans h1) (h.handed.trans h2) (h.dropped.trans h3)
        ((h.result_actions l).mpr h4) (h.operation_absent.mpr h5) (h.consumer.trans h6)
    | dropped l h1 h2 h3 h4 h5 =>
      exact .dropped l (h.returned.trans h1) (h.handed.trans h2) (h.dropped.trans h3)
        (h.operation_absent.mpr h4) (h5.imp hno (fun hc => h.consumer.trans hc))
    | blank l h1 h2 h3 h4 h5 h6 =>
      exact .blank l (h.returned.trans h1) (h.handed.trans h2) (h.dropped.trans h3)
        (h.operation_absent.mpr h4) (h5.imp hno (fun hc => h.consumer.trans hc)) h6
  · intro hs
    rw [h.started] at hs
    exact ⟨h.operation_absent.mpr (hk.idle hs).1,h.returned.trans (hk.idle hs).2⟩
  · intro hf
    rcases h.finished with he | ⟨hs,hr⟩
    · rw [he] at hf
      obtain ⟨ho,hr⟩ := hk.finished hf
      refine ⟨h.operation_absent.mpr ho,?_⟩
      rcases h.result with hr' | ⟨hp,_⟩
      · rw [hr']; exact hr
      · exact absurd hp hr
    · exact ⟨h.operation_absent.mpr (hk.idle hs).1,hr⟩
  · intro hp
    rcases h.result with hr | ⟨_,hr | hr⟩
    · rw [h.consumer]
      exact hk.claimed (hr.symm.trans hp)
    · rw [hp] at hr; cases hr
    · rw [hp] at hr; cases hr

theorem Ticket.Quiet.trans {k'' : Ticket} (h : k.Quiet k') (h' : k'.Quiet k'') : k.Quiet k'' := by
  refine ⟨h'.returned.trans h.returned,h'.handed.trans h.handed,h'.dropped.trans h.dropped,
    h'.consumer.trans h.consumer,h'.started.trans h.started,?_,?_,?_⟩
  · rcases h'.result with hr | ⟨hp,hr⟩
    · rw [hr]; exact h.result
    · rcases h.result with hr' | ⟨_,hr' | hr'⟩
      · exact Or.inr ⟨hr'.symm.trans hp,hr⟩
      · rw [hp] at hr'; cases hr'
      · rw [hp] at hr'; cases hr'
  · rcases h'.operation with ho | ⟨b,hb,ho⟩
    · rw [ho]; exact h.operation
    · rcases h.operation with ho' | ⟨b',hb',_⟩
      · exact Or.inr ⟨b,ho'.symm.trans hb,ho⟩
      · exact Or.inr ⟨b',hb',ho⟩
  · rcases h'.finished with hf | ⟨hs,hr⟩
    · rcases h.finished with hf' | ⟨hs,hr⟩
      · exact Or.inl (hf.trans hf')
      · refine Or.inr ⟨hs,?_⟩
        rcases h'.result with hr' | ⟨hp,_⟩
        · rw [hr']; exact hr
        · exact absurd hp hr
    · exact Or.inr ⟨h.started.symm.trans hs,hr⟩

/-! The dispatcher -/

def Untouched (r : DeliveryReceipt) : Prop := r.WellFormed ∧ r.resolved=false

def RolledBack (r : DeliveryReceipt) : Prop :=
  r.resolved=true ∧ r.calls=[.rollback] ∧ r.outcome=some false

def Worker.Safe (d : Dispatcher) (x : Worker) : Prop :=
  ∀t,x.current=some t → (d.tickets t).operation≠.absent ∧
    (x.mustCancel=true → ∃o,(d.tickets t).operation=.done o ∧ ∀l,o=.actions l → receiptsOf l=[])

structure ReplyInv (d : Dispatcher) : Prop where
  tickets : ∀t<d.next,(d.tickets t).Sound
  workers : ∀x∈d.workers,x.Safe d
  tasks : ∀p∈d.settlements,p.1<d.next ∧ (d.tickets p.1).drops=1
  receipts : ∀t r,Untouched (d.receipts t r) ∨
    RolledBack (d.receipts t r) ∧ t<d.next ∧ (d.tickets t).drops=1
  dropped : ∀t<d.next,∀l,(d.tickets t).returned=some l → (d.tickets t).drops=1 →
    ∀r∈receiptsOf l,RolledBack (d.receipts t r) ∨ ∃rest,(t,rest)∈d.settlements ∧ r∈receiptsOf rest

structure SameTasks (d d' : Dispatcher) : Prop where
  next : d'.next=d.next
  settlements : d'.settlements=d.settlements
  receipts : d'.receipts=d.receipts

theorem SameTasks.refl (d : Dispatcher) : SameTasks d d := ⟨rfl,rfl,rfl⟩

variable {c : Config} {d d' d'' : Dispatcher} {t w : Nat} {x : Worker}

theorem SameTasks.trans (h : SameTasks d d') (h' : SameTasks d' d'') : SameTasks d d'' :=
  ⟨h'.next.trans h.next,h'.settlements.trans h.settlements,h'.receipts.trans h.receipts⟩

theorem ReplyInv.update (h : ReplyInv d) (hd : SameTasks d d')
    (hs : ∀u<d.next,(d'.tickets u).Sound)
    (hk : ∀u<d.next,
      (d'.tickets u).returned=(d.tickets u).returned ∧ (d'.tickets u).drops=(d.tickets u).drops ∨
        (d'.tickets u).drops=0 ∧ (d.tickets u).drops=0)
    (hw : ∀x∈d'.workers,x.Safe d') : ReplyInv d' := by
  have hdrop (u : Nat) (hu : u<d.next) : (d'.tickets u).drops=1 ↔ (d.tickets u).drops=1 := by
    rcases hk u hu with ⟨_,hk⟩ | ⟨hk,hk'⟩
    · rw [hk]
    · rw [hk,hk']
  refine ⟨by rw [hd.next]; exact hs,hw,?_,?_,?_⟩
  · intro p hp
    rw [hd.settlements] at hp
    obtain ⟨hlt,h1⟩ := h.tasks p hp
    exact ⟨by rw [hd.next]; exact hlt,(hdrop _ hlt).mpr h1⟩
  · intro u r
    rw [hd.receipts,hd.next]
    exact (h.receipts u r).imp_right (fun ⟨hr,hlt,h1⟩ => ⟨hr,hlt,(hdrop u hlt).mpr h1⟩)
  · intro u hu l hl h1
    rw [hd.next] at hu
    rw [hd.receipts,hd.settlements]
    rcases hk u hu with ⟨hk,_⟩ | ⟨hk,_⟩
    · exact h.dropped u hu l (hk.symm.trans hl) ((hdrop u hu).mp h1)
    · rw [hk] at h1; cases h1

structure QuietStep (d d' : Dispatcher) : Prop extends SameTasks d d' where
  tickets : ∀u,(d.tickets u).Quiet (d'.tickets u)
  workers : ∀x'∈d'.workers,∀u,x'.current=some u →
    ∃x∈d.workers,x.current=some u ∧ (x'.mustCancel=true → x.mustCancel=true)

theorem QuietStep.refl (d : Dispatcher) : QuietStep d d :=
  ⟨SameTasks.refl d,fun _ => .refl _,fun x hx _ hu => ⟨x,hx,hu,fun hm => hm⟩⟩

theorem QuietStep.trans (h : QuietStep d d') (h' : QuietStep d' d'') : QuietStep d d'' := by
  refine ⟨h.toSameTasks.trans h'.toSameTasks,fun u => (h.tickets u).trans (h'.tickets u),?_⟩
  intro x'' hx'' u hu
  obtain ⟨x',hx',hu',hm'⟩ := h'.workers x'' hx'' u hu
  obtain ⟨x,hx,hux,hm⟩ := h.workers x' hx' u hu'
  exact ⟨x,hx,hux,fun hc => hm (hm' hc)⟩

theorem ReplyInv.quiet (h : ReplyInv d) (hq : QuietStep d d') : ReplyInv d' := by
  refine h.update hq.toSameTasks (fun u hu => (hq.tickets u).sound (h.tickets u hu))
    (fun u _ => Or.inl ⟨(hq.tickets u).returned,(hq.tickets u).dropped⟩) ?_
  intro x' hx' u hu
  obtain ⟨x,hx,hux,hm⟩ := hq.workers x' hx' u hu
  obtain ⟨ha,hc⟩ := h.workers x hx u hux
  refine ⟨fun he => ha ((hq.tickets u).operation_absent.mp he),fun hm' => ?_⟩
  obtain ⟨o,ho,hl⟩ := hc (hm hm')
  exact ⟨o,((hq.tickets u).operation_done o).mpr ho,hl⟩

theorem QuietStep.of_same (hd : SameTasks d d') (ht : d'.tickets=d.tickets)
    (hw : d'.workers=d.workers) : QuietStep d d' := by
  refine ⟨hd,fun u => by rw [ht]; exact .refl _,?_⟩
  rw [hw]
  exact (QuietStep.refl d).workers

theorem QuietStep.setTicket {k : Ticket} (hk : (d.tickets t).Quiet k) :
    QuietStep d (d.setTicket t k) := by
  refine ⟨⟨rfl,rfl,rfl⟩,?_,(QuietStep.refl d).workers⟩
  intro u
  by_cases hu : u=t
  · subst u
    rw [show (d.setTicket t k).tickets t=k from Function.update_self _ _ _]
    exact hk
  · rw [show (d.setTicket t k).tickets u=d.tickets u from Function.update_of_ne hu _ _]
    exact .refl _

/-! Quiet functions -/

theorem setTicket_self (d : Dispatcher) (t : Nat) (k : Ticket) : (d.setTicket t k).tickets t=k :=
  Function.update_self _ _ _

theorem setTicket_ne (d : Dispatcher) (k : Ticket) {u : Nat} (h : u≠t) :
    (d.setTicket t k).tickets u=d.tickets u := Function.update_of_ne h _ _

theorem discardLaneIfIdle_same (d : Dispatcher) (k : EventKey) :
    SameTasks d (d.discardLaneIfIdle k) ∧ (d.discardLaneIfIdle k).tickets=d.tickets ∧
      (d.discardLaneIfIdle k).workers=d.workers := by
  unfold discardLaneIfIdle
  dsimp only
  split_ifs <;> exact ⟨⟨rfl,rfl,rfl⟩,rfl,rfl⟩

theorem discardLaneIfIdle_quiet (d : Dispatcher) (k : EventKey) :
    QuietStep d (d.discardLaneIfIdle k) :=
  .of_same (discardLaneIfIdle_same d k).1 (discardLaneIfIdle_same d k).2.1
    (discardLaneIfIdle_same d k).2.2

theorem ensureWorkers_same (c : Config) (d : Dispatcher) :
    SameTasks d (d.ensureWorkers c) ∧ (d.ensureWorkers c).tickets=d.tickets ∧
      ∀x∈(d.ensureWorkers c).workers,x∈d.workers ∨ x=.fresh := by
  unfold Dispatcher.ensureWorkers
  split
  · exact ⟨⟨rfl,rfl,rfl⟩,rfl,fun x hx => Or.inl hx⟩
  · refine ⟨⟨rfl,rfl,rfl⟩,rfl,fun x hx => ?_⟩
    rcases List.mem_append.mp hx with hx | hx
    · exact Or.inl hx
    · exact Or.inr (List.mem_replicate.mp hx).2

theorem scheduleLane_same (c : Config) (spawn : Bool) (d : Dispatcher) (k : EventKey) :
    SameTasks d (d.scheduleLane c spawn k) ∧ (d.scheduleLane c spawn k).tickets=d.tickets ∧
      ∀x∈(d.scheduleLane c spawn k).workers,x∈d.workers ∨ x=.fresh := by
  unfold Dispatcher.scheduleLane
  dsimp only
  by_cases h : (d.laneOf k).ready=true ∨ (d.laneOf k).running≠none ∨ (d.laneOf k).pending=[]
  · rw [if_pos h]
    exact ⟨.refl d,rfl,fun x hx => Or.inl hx⟩
  · rw [if_neg h]
    split
    · exact ⟨.refl d,rfl,fun x hx => Or.inl hx⟩
    · rename_i ready hr
      split_ifs
      · obtain ⟨⟨h1,h2,h3⟩,h4,h5⟩ := ensureWorkers_same c
          {d.setLane k {d.laneOf k with ready := true} with readyKeys := some (ready++[k])}
        exact ⟨⟨h1,h2,h3⟩,h4,h5⟩
      · exact ⟨⟨rfl,rfl,rfl⟩,rfl,fun x hx => Or.inl hx⟩

theorem QuietStep.of_spawn (hd : SameTasks d d') (ht : d'.tickets=d.tickets)
    (hw : ∀x∈d'.workers,x∈d.workers ∨ x=.fresh) : QuietStep d d' := by
  refine ⟨hd,fun u => by rw [ht]; exact .refl _,fun x hx u hu => ?_⟩
  rcases hw x hx with hx | rfl
  · exact ⟨x,hx,hu,fun hm => hm⟩
  · cases hu

theorem scheduleLane_quiet (c : Config) (spawn : Bool) (d : Dispatcher) (k : EventKey) :
    QuietStep d (d.scheduleLane c spawn k) := by
  obtain ⟨h1,h2,h3⟩ := scheduleLane_same c spawn d k
  exact .of_spawn h1 h2 h3

theorem setResult_quiet (d : Dispatcher) (t : Nat) {r : ResultFuture}
    (hr : r=.cancelled ∨ r=.failed) : QuietStep d (d.setResult t r) := by
  unfold Dispatcher.setResult
  dsimp only
  split_ifs with hp
  · exact .setTicket ⟨rfl,rfl,rfl,rfl,rfl,Or.inr ⟨hp,hr⟩,Or.inl rfl,Or.inl rfl⟩
  · exact .refl d

theorem removePending_quiet (hs : (d.tickets t).started=false) (hr : (d.tickets t).result≠.pending) :
    QuietStep d (d.removePending t) := by
  have hq : QuietStep d (d.setTicket t {d.tickets t with finished := true}) :=
    .setTicket ⟨rfl,rfl,rfl,rfl,rfl,Or.inl rfl,Or.inl rfl,Or.inr ⟨hs,hr⟩⟩
  exact hq.trans (.of_same ⟨rfl,rfl,rfl⟩ rfl rfl)

theorem cancelResult_quiet (k : Ticket) : k.Quiet k.cancelResult := by
  unfold Ticket.cancelResult
  split_ifs with hp
  · exact ⟨rfl,rfl,rfl,rfl,rfl,Or.inr ⟨hp,Or.inl rfl⟩,Or.inl rfl,Or.inl rfl⟩
  · exact .refl _

theorem cancelResult_settled (k : Ticket) : k.cancelResult.result≠.pending := by
  unfold Ticket.cancelResult
  split_ifs with hp
  · simp
  · exact hp

theorem cancel_quiet (d : Dispatcher) (t : Nat) : QuietStep d (d.cancel t) := by
  unfold Dispatcher.cancel
  dsimp only
  by_cases hfin : (d.tickets t).finished
  · rw [if_pos hfin]; exact .refl d
  rw [if_neg hfin]
  set k := (d.tickets t).cancelResult with hk
  have hq : (d.tickets t).Quiet k := cancelResult_quiet _
  have hres : k.result≠.pending := cancelResult_settled _
  have hd := QuietStep.setTicket hq
  by_cases hst : k.started
  · rw [if_pos hst]
    split
    · rename_i b hop
      have hrun : k.Quiet {k with operation := .running true} :=
        ⟨rfl,rfl,rfl,rfl,rfl,Or.inl rfl,Or.inr ⟨b,hop,rfl⟩,Or.inl rfl⟩
      exact hd.trans (.setTicket (by rw [setTicket_self]; exact hrun))
    · exact hd
  · rw [if_neg hst]
    split_ifs with hp
    · have hself := setTicket_self d t k
      refine (hd.trans (removePending_quiet ?_ ?_)).trans (discardLaneIfIdle_quiet _ _)
      · rw [hself]; simpa using hst
      · rw [hself]; exact hres
    · exact hd

theorem abortTicket_quiet (hs : (d.tickets t).started=false) : QuietStep d (d.abortTicket t) := by
  unfold Dispatcher.abortTicket
  by_cases hf : (d.tickets t).finished
  · rw [if_pos hf]; exact .refl d
  rw [if_neg hf]
  have hself : (d.removePending t).tickets t={d.tickets t with finished := true} :=
    Function.update_self _ _ _
  have hne (u : Nat) (hu : u≠t) : (d.removePending t).tickets u=d.tickets u :=
    Function.update_of_ne hu _ _
  unfold Dispatcher.setResult
  dsimp only
  rw [hself]
  dsimp only
  split_ifs with hp
  · refine ⟨⟨rfl,rfl,rfl⟩,fun u => ?_,(QuietStep.refl d).workers⟩
    by_cases hu : u=t
    · subst u
      rw [setTicket_self]
      exact ⟨rfl,rfl,rfl,rfl,rfl,Or.inr ⟨hp,Or.inr rfl⟩,Or.inl rfl,Or.inr ⟨hs,by simp⟩⟩
    · rw [setTicket_ne _ _ hu,hne u hu]
      exact .refl _
  · exact removePending_quiet hs hp

theorem abortTickets_quiet (l : List Nat) (h : ∀t∈l,(d.tickets t).started=false) :
    QuietStep d (l.foldl Dispatcher.abortTicket d) := by
  induction l generalizing d with
  | nil => exact .refl d
  | cons t l ih =>
    have hq := abortTicket_quiet (h t (by simp))
    refine hq.trans (ih (fun u hu => ?_))
    rw [(hq.tickets u).started]
    exact h u (List.mem_cons_of_mem t hu)

theorem abortRunning_quiet (d : Dispatcher) (k : EventKey) : QuietStep d (d.abortRunning k) := by
  unfold Dispatcher.abortRunning
  split
  · exact .refl d
  · rename_i t _
    have hq := setResult_quiet d t (Or.inr rfl : ResultFuture.failed=.cancelled ∨ _)
    dsimp only
    split
    · rename_i b hop
      exact hq.trans (.setTicket
        ⟨rfl,rfl,rfl,rfl,rfl,Or.inl rfl,Or.inr ⟨b,hop,rfl⟩,Or.inl rfl⟩)
    · exact hq

theorem QuietStep.foldl {α : Type*} {f : Dispatcher → α → Dispatcher} {P : Dispatcher → Prop}
    (hf : ∀d a,P d → QuietStep d (f d a) ∧ P (f d a)) (l : List α) (h : P d) :
    QuietStep d (l.foldl f d) := by
  induction l generalizing d with
  | nil => exact .refl d
  | cons a l ih => exact (hf d a h).1.trans (ih (hf d a h).2)

theorem forceStop_quiet (h : LaneInv c nowhere none d) : QuietStep d d.forceStop := by
  refine (QuietStep.foldl (P := LaneInv c nowhere none) (fun e k he => ⟨?_,he.abortLane k⟩) _
    h).trans (QuietStep.foldl (P := fun _ => True) (fun e k _ => ⟨abortRunning_quiet e k,trivial⟩) _
    trivial)
  exact (abortTickets_quiet _ (fun t ht => ((he.lanes.queued k t).mp ht).2.2.1)).trans
    (discardLaneIfIdle_quiet _ k)

theorem skipTicket_quiet {pending : List Nat} (key : EventKey) (hs : (d.tickets t).started=false)
    (hr : (d.tickets t).finished=true ∨ (d.tickets t).result=.cancelled) :
    QuietStep d (d.skipTicket c key t pending) := by
  unfold Dispatcher.skipTicket
  dsimp only
  by_cases hf : (d.tickets t).finished=true
  · rw [if_pos hf]
    split_ifs
    · exact discardLaneIfIdle_quiet d key
    · exact (discardLaneIfIdle_quiet d key).trans (scheduleLane_quiet c false _ key)
  · rw [if_neg hf]
    have hres : (d.tickets t).result≠.pending := by
      rcases hr with hr | hr
      · exact absurd hr hf
      · rw [hr]; simp
    have hq : QuietStep d (d.setTicket t {d.tickets t with finished := true}) :=
      .setTicket ⟨rfl,rfl,rfl,rfl,rfl,Or.inl rfl,Or.inl rfl,Or.inr ⟨hs,hres⟩⟩
    have hd : QuietStep d {d.setTicket t {d.tickets t with finished := true} with
        inflight := d.inflight-1} := hq.trans (.of_same ⟨rfl,rfl,rfl⟩ rfl rfl)
    split_ifs
    · exact hd.trans (discardLaneIfIdle_quiet _ key)
    · exact (hd.trans (discardLaneIfIdle_quiet _ key)).trans (scheduleLane_quiet c false _ key)

theorem endWorker_quiet (d : Dispatcher) (w : Nat) : QuietStep d (d.endWorker w) :=
  ⟨⟨rfl,rfl,rfl⟩,fun _ => .refl _,
    fun x hx _ hu => ⟨x,List.mem_of_mem_eraseIdx hx,hu,fun hm => hm⟩⟩

end XiaoQing.Inbound
