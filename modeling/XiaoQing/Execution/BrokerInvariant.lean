import XiaoQing.Execution.SyncBroker
import XiaoQing.Framework.Table

namespace XiaoQing.Execution

open Framework Broker

def Job.holdsSlot (l : Lane) (j : Job) : Bool := j.state=.running && j.lane=l

/-- The books of the broker. `hole` are lanes about to be requeued, `float` are jobs taken out of
their queue that have not changed state, `slot` a worker slot taken for a job not yet running. -/
structure BrokerInv (hole : Lane → Prop) (float : Nat → Prop) (slot : Option Lane) (b : Broker) :
    Prop where
  workers : 1≤b.maxWorkers
  queued : ∀l i,i∈b.queueOf l ↔
    i<b.next ∧ (b.jobs i).state=.queued ∧ (b.jobs i).lane=l ∧ ¬float i
  nodup : ∀l,(b.queueOf l).Nodup
  queuedCount : b.queuedCount=total List.length b.laneQueues
  runningCount : b.runningCount=total id b.runningByLane
  bounded : b.runningCount≤b.maxWorkers
  running : ∀l,b.runningOf l=tally (Job.holdsSlot l) b.jobs b.next+(if slot=some l then 1 else 0)
  pending : b.pendingDeliveryCount=tally Job.deliveryPending b.jobs b.next
  owed : ∀i<b.next,(b.jobs i).deliveryPending=true → (b.jobs i).state=.terminal
  readyNodup : b.readyLanes.Nodup
  ready : ∀l,l∈b.readyLaneSet ↔ l∈b.readyLanes
  awake : ∀l,¬hole l → (∀g,l=some g → g∉b.notices) → b.queueOf l≠[] →
    b.runningOf l<b.laneRunningLimit l → l∈b.readyLaneSet

abbrev noHole (_ : Lane) : Prop := False

abbrev noFloat (_ : Nat) : Prop := False

variable {hole hole' : Lane → Prop} {float float' : Nat → Prop} {slot : Option Lane} {b b' : Broker}
  {l k : Lane} {i m : Nat} {j : Job}

theorem queueOf_setQueue_self (b : Broker) (l : Lane) (q : List Nat) :
    (b.setQueue l q).queueOf l=q := lookupD_insert_self

theorem queueOf_popLane (h : b.queueOf l=[]) : (b.popLane l).queueOf k=b.queueOf k :=
  lookupD_erase_default h

theorem total_setQueue (b : Broker) (l : Lane) (q : List Nat) :
    total List.length (b.setQueue l q).laneQueues+(b.queueOf l).length=
      total List.length b.laneQueues+q.length := total_insert rfl

theorem total_popLane (h : b.queueOf l=[]) :
    total List.length (b.popLane l).laneQueues=total List.length b.laneQueues := by
  have ht := total_erase (f := List.length) (m := b.laneQueues) (k := l) (d := []) rfl
  have hq : lookupD b.laneQueues l []=[] := h
  rw [hq,List.length_nil,Nat.add_zero] at ht
  exact ht

theorem BrokerInv.mono (h : BrokerInv hole float slot b) (hh : ∀l,hole l → hole' l) :
    BrokerInv hole' float slot b :=
  {h with awake := fun l hl => h.awake l (fun hx => hl (hh l hx))}

theorem BrokerInv.fill (h : BrokerInv (fun k => hole k ∨ k=l) float slot b)
    (hl : b.queueOf l=[] ∨ b.laneRunningLimit l≤b.runningOf l ∨ l∈b.readyLaneSet) :
    BrokerInv hole float slot b := by
  refine {h with awake := fun k hk hn hq hr => ?_}
  by_cases hkl : k=l
  · subst k
    rcases hl with hl | hl | hl
    · exact absurd hl hq
    · omega
    · exact hl
  · exact h.awake k (not_or.mpr ⟨hk,hkl⟩) hn hq hr

/-! Ready lanes -/

theorem BrokerInv.queueLane (h : BrokerInv (fun k => hole k ∨ k=l) float slot b) :
    BrokerInv hole float slot (b.queueLane l) := by
  unfold Broker.queueLane
  split_ifs with h1 h2
  · exact h.fill (h1.imp_right Or.inr)
  · exact h.fill (Or.inr (Or.inl h2))
  · obtain ⟨hq,hr⟩ := not_or.mp h1
    have hnot : l∉b.readyLanes := fun hm => hr ((h.ready l).mpr hm)
    refine ⟨h.workers,h.queued,h.nodup,h.queuedCount,h.runningCount,h.bounded,h.running,h.pending,
      h.owed,?_,?_,?_⟩
    · rw [List.nodup_append]
      refine ⟨h.readyNodup,by simp,?_⟩
      intro x hx y hy he
      rw [List.mem_singleton.mp hy] at he
      exact hnot (he ▸ hx)
    · intro k
      simp only [Finset.mem_insert,h.ready,List.mem_append,List.mem_singleton]
      tauto
    · intro k hk hn hkq hkr
      by_cases hkl : k=l
      · subst k; exact Finset.mem_insert_self _ _
      · exact Finset.mem_insert_of_mem (h.awake k (not_or.mpr ⟨hk,hkl⟩) hn hkq hkr)

theorem BrokerInv.dropStaleReadyLane (h : BrokerInv hole float slot b) (l : Lane) :
    BrokerInv (fun k => hole k ∨ k=l) float slot (b.dropStaleReadyLane l) := by
  unfold Broker.dropStaleReadyLane
  split_ifs
  · refine ⟨h.workers,h.queued,h.nodup,h.queuedCount,h.runningCount,h.bounded,h.running,h.pending,
      h.owed,h.readyNodup.filter _,?_,?_⟩
    · intro k
      simp only [Finset.mem_erase,h.ready,List.mem_filter,decide_eq_true_eq]
      tauto
    · intro k hk hn hkq hkr
      obtain ⟨hk1,hk2⟩ := not_or.mp hk
      exact Finset.mem_erase.mpr ⟨hk2,h.awake k hk1 hn hkq hkr⟩
  · exact h.mono (fun _ hx => Or.inl hx)

theorem BrokerInv.popReady {rest : List Lane} (h : BrokerInv hole float slot b)
    (hr : b.readyLanes=l::rest) :
    BrokerInv (fun k => hole k ∨ k=l) float slot (b.popReady l rest) := by
  have hnd := h.readyNodup
  rw [hr,List.nodup_cons] at hnd
  refine ⟨h.workers,h.queued,h.nodup,h.queuedCount,h.runningCount,h.bounded,h.running,h.pending,
    h.owed,hnd.2,?_,?_⟩
  · intro k
    simp only [Broker.popReady,Finset.mem_erase,h.ready,hr,List.mem_cons]
    constructor
    · rintro ⟨hk,hk' | hk'⟩
      · exact absurd hk' hk
      · exact hk'
    · intro hk
      exact ⟨fun he => hnd.1 (he ▸ hk),Or.inr hk⟩
  · intro k hk hn hkq hkr
    obtain ⟨hk1,hk2⟩ := not_or.mp hk
    exact Finset.mem_erase.mpr ⟨hk2,h.awake k hk1 hn hkq hkr⟩

theorem BrokerInv.popLane (h : BrokerInv hole float slot b) (hq : b.queueOf l=[]) :
    BrokerInv hole float slot (b.popLane l) := by
  have hqueue (k : Lane) : (b.popLane l).queueOf k=b.queueOf k := queueOf_popLane hq
  refine ⟨h.workers,?_,?_,?_,h.runningCount,h.bounded,h.running,h.pending,h.owed,h.readyNodup,
    h.ready,?_⟩
  · intro k i; rw [hqueue]; exact h.queued k i
  · intro k; rw [hqueue]; exact h.nodup k
  · rw [total_popLane hq]; exact h.queuedCount
  · intro k hk hn hkq hkr
    rw [hqueue] at hkq
    exact h.awake k hk hn hkq hkr

theorem BrokerInv.requeueLane (h : BrokerInv (fun k => hole k ∨ k=l) float slot b) :
    BrokerInv hole float slot (b.requeueLane l) := by
  unfold Broker.requeueLane
  by_cases hq : b.queueOf l=[]
  · rw [if_neg (by simp [hq])]
    have hc := h.fill (Or.inl hq)
    split_ifs
    · exact hc.popLane hq
    · exact hc
  · rw [if_pos hq]
    exact h.queueLane

/-! Queues, slots and jobs -/

theorem BrokerInv.refloat (h : BrokerInv hole float slot b) (hf : ∀m,float' m ↔ float m) :
    BrokerInv hole float' slot b :=
  {h with queued := fun l i => by rw [hf]; exact h.queued l i}

theorem BrokerInv.shrinkQueue {q : List Nat} {m : AList (fun _ : Lane => List Nat)} {n : Int}
    (h : BrokerInv hole noFloat slot b) (hsub : q.Sublist (b.queueOf l))
    (hget : ∀k,lookupD m k []=if k=l then q else b.queueOf k)
    (htotal : total List.length m+(b.queueOf l).length=total List.length b.laneQueues+q.length)
    (hn : n+(b.queueOf l).length=b.queuedCount+q.length) :
    BrokerInv hole (fun i => i∈b.queueOf l ∧ i∉q) slot
      {b with laneQueues := m,queuedCount := n} := by
  have hqueue (k : Lane) : ({b with laneQueues := m,queuedCount := n} : Broker).queueOf k=
      if k=l then q else b.queueOf k := hget k
  refine ⟨h.workers,?_,?_,?_,h.runningCount,h.bounded,h.running,h.pending,h.owed,h.readyNodup,
    h.ready,?_⟩
  · intro k i
    rw [hqueue]
    have hold := h.queued k i
    simp only [not_false_eq_true,and_true] at hold
    by_cases hk : k=l
    · subst k
      rw [if_pos rfl]
      constructor
      · intro hi
        obtain ⟨h1,h2,h3⟩ := hold.mp (hsub.subset hi)
        exact ⟨h1,h2,h3,fun hx => hx.2 hi⟩
      · rintro ⟨h1,h2,h3,h4⟩
        by_contra hi
        exact h4 ⟨hold.mpr ⟨h1,h2,h3⟩,hi⟩
    · rw [if_neg hk,hold]
      constructor
      · rintro ⟨h1,h2,h3⟩
        refine ⟨h1,h2,h3,fun hx => ?_⟩
        exact hk (h3.symm.trans ((h.queued l i).mp hx.1).2.2.1)
      · rintro ⟨h1,h2,h3,_⟩
        exact ⟨h1,h2,h3⟩
  · intro k
    rw [hqueue]
    split_ifs
    · exact hsub.nodup (h.nodup l)
    · exact h.nodup k
  · have hc := h.queuedCount
    change n=(total List.length m : Int)
    omega
  · intro k hk hnt hkq hkr
    rw [hqueue] at hkq
    refine h.awake k hk hnt (fun he => hkq ?_) hkr
    split_ifs with hkl
    · subst k
      exact List.sublist_nil.mp (he ▸ hsub)
    · exact he

theorem lookupD_setQueue (b : Broker) (l k : Lane) (q : List Nat) :
    lookupD (b.setQueue l q).laneQueues k []=if k=l then q else b.queueOf k := by
  by_cases hk : k=l
  · subst k; rw [if_pos rfl]; exact lookupD_insert_self
  · rw [if_neg hk]; exact lookupD_insert_ne hk

theorem BrokerInv.takeQueued {q : List Nat} (h : BrokerInv hole noFloat slot b)
    (hsub : q.Sublist (b.queueOf l)) (hn : q.length+1=(b.queueOf l).length) :
    BrokerInv hole (fun i => i∈b.queueOf l ∧ i∉q) slot (b.takeQueued l q) :=
  h.shrinkQueue hsub (lookupD_setQueue b l · q) (total_setQueue b l q) (by omega)

theorem BrokerInv.popQueue {queue : List Nat} (h : BrokerInv hole noFloat slot b)
    (hq : b.queueOf l=i::queue) : BrokerInv hole (fun m => m=i) slot (b.takeQueued l queue) := by
  have hnd := h.nodup l
  rw [hq,List.nodup_cons] at hnd
  refine (h.takeQueued (by rw [hq]; exact List.sublist_cons_self i queue)
    (by rw [hq,List.length_cons])).refloat (fun m => ?_)
  rw [hq,List.mem_cons]
  constructor
  · rintro rfl
    exact ⟨Or.inl rfl,hnd.1⟩
  · rintro ⟨hm | hm,hnot⟩
    · exact hm
    · exact absurd hm hnot

theorem runningOf_insert (b : Broker) (l k : Lane) (n : Nat) :
    lookupD (b.runningByLane.insert l n) k 0=if k=l then n else b.runningOf k := by
  by_cases hk : k=l
  · subst k; simp
  · rw [if_neg hk]; exact lookupD_insert_ne hk

theorem BrokerInv.takeSlot (h : BrokerInv (fun k => hole k ∨ k=l) float none b)
    (hb : b.runningCount<b.maxWorkers) :
    BrokerInv (fun k => hole k ∨ k=l) float (some l) (b.takeSlot l) := by
  refine ⟨h.workers,h.queued,h.nodup,h.queuedCount,?_,?_,?_,h.pending,h.owed,h.readyNodup,h.ready,
    ?_⟩
  · have ht : total id (b.runningByLane.insert l (b.runningOf l+1))+b.runningOf l=
        total id b.runningByLane+(b.runningOf l+1) := total_insert rfl
    have hc := h.runningCount
    change b.runningCount+1=(total id (b.runningByLane.insert l (b.runningOf l+1)) : Int)
    omega
  · change b.runningCount+1≤_
    change b.runningCount+1≤(b.maxWorkers : Int)
    omega
  · intro k
    have hk := h.running k
    change lookupD (b.runningByLane.insert l (b.runningOf l+1)) k 0=_
    rw [runningOf_insert]
    by_cases hkl : k=l
    · subst k
      rw [if_pos rfl,if_pos rfl,hk]
      simp [Broker.takeSlot]
    · rw [if_neg hkl,if_neg (by simpa using Ne.symm hkl),hk]
      simp [Broker.takeSlot]
  · intro k hk hn hkq hkr
    obtain ⟨_,hk2⟩ := not_or.mp hk
    have hkr' : lookupD (b.runningByLane.insert l (b.runningOf l+1)) k 0<b.laneRunningLimit k := hkr
    rw [runningOf_insert,if_neg hk2] at hkr'
    exact h.awake k hk hn hkq hkr'

theorem BrokerInv.ensureExecutor (h : BrokerInv hole float slot b) :
    BrokerInv hole float slot b.ensureExecutor := by
  unfold Broker.ensureExecutor
  split_ifs
  · exact h
  · exact ⟨h.workers,h.queued,h.nodup,h.queuedCount,h.runningCount,h.bounded,h.running,h.pending,
      h.owed,h.readyNodup,h.ready,h.awake⟩

theorem BrokerInv.takeDrainedExecutor (h : BrokerInv hole float slot b) :
    BrokerInv hole float slot b.takeDrainedExecutor := by
  unfold Broker.takeDrainedExecutor
  split_ifs
  · exact ⟨h.workers,h.queued,h.nodup,h.queuedCount,h.runningCount,h.bounded,h.running,h.pending,
      h.owed,h.readyNodup,h.ready,h.awake⟩
  · exact h

theorem releaseRunningSlot_runningOf (b : Broker) (l k : Lane) :
    (b.releaseRunningSlot l).runningOf k=if k=l then b.runningOf l-1 else b.runningOf k := by
  have hdef : (b.releaseRunningSlot l).runningOf k=
      lookupD (if b.runningOf l=1 then b.runningByLane.erase l
        else b.runningByLane.insert l (b.runningOf l-1)) k 0 := rfl
  rw [hdef]
  by_cases hk : k=l
  · subst k
    rw [if_pos rfl]
    split_ifs with h1
    · rw [lookupD_erase_self,h1]
    · rw [lookupD_insert_self]
  · rw [if_neg hk]
    split_ifs
    · exact lookupD_erase_ne hk
    · exact lookupD_insert_ne hk

theorem BrokerInv.releaseSlot (h : BrokerInv hole float (some l) b) :
    BrokerInv (fun k => hole k ∨ k=l) float none (b.releaseRunningSlot l) := by
  have hl := h.running l
  rw [if_pos rfl] at hl
  refine ⟨h.workers,h.queued,h.nodup,h.queuedCount,?_,?_,?_,h.pending,h.owed,h.readyNodup,h.ready,
    ?_⟩
  · have hc := h.runningCount
    change b.runningCount-1=(total id (if b.runningOf l=1 then b.runningByLane.erase l
      else b.runningByLane.insert l (b.runningOf l-1)) : Int)
    split_ifs with h1
    · have ht : total id (b.runningByLane.erase l)+b.runningOf l=total id b.runningByLane :=
        total_erase rfl
      omega
    · have ht : total id (b.runningByLane.insert l (b.runningOf l-1))+b.runningOf l=
          total id b.runningByLane+(b.runningOf l-1) := total_insert rfl
      omega
  · have hb := h.bounded
    change b.runningCount-1≤(b.maxWorkers : Int)
    omega
  · intro k
    rw [releaseRunningSlot_runningOf]
    have hk := h.running k
    change _=tally (Job.holdsSlot k) b.jobs b.next+_
    by_cases hkl : k=l
    · subst k
      simp only [if_true,reduceCtorEq,if_false]
      omega
    · rw [if_neg hkl,hk,if_neg (by simpa using Ne.symm hkl)]
      simp
  · intro k hk hn hkq hkr
    obtain ⟨hk1,hk2⟩ := not_or.mp hk
    rw [releaseRunningSlot_runningOf,if_neg hk2] at hkr
    exact h.awake k hk1 hn hkq hkr

theorem setJob_self (b : Broker) (i : Nat) (j : Job) : (b.setJob i j).jobs i=j :=
  Function.update_self _ _ _

theorem setJob_ne (b : Broker) (j : Job) (h : m≠i) : (b.setJob i j).jobs m=b.jobs m :=
  Function.update_of_ne h _ _

theorem BrokerInv.writeJob {slot' : Option Lane} {p : Int}
    (h : BrokerInv hole float slot b) (hi : i<b.next) (hlane : j.lane=(b.jobs i).lane)
    (hq : (j.state=.queued ∧ ¬float' i) ↔ ((b.jobs i).state=.queued ∧ ¬float i))
    (hf : ∀m,m≠i → (float' m ↔ float m))
    (hs : ∀l,(if slot'=some l then 1 else 0)+(j.holdsSlot l).toNat=
      (if slot=some l then 1 else 0)+((b.jobs i).holdsSlot l).toNat)
    (hp : p+(b.jobs i).deliveryPending.toNat=b.pendingDeliveryCount+j.deliveryPending.toNat)
    (ho : j.deliveryPending=true → j.state=.terminal) :
    BrokerInv hole float' slot' {b.setJob i j with pendingDeliveryCount := p} := by
  refine ⟨h.workers,?_,h.nodup,h.queuedCount,h.runningCount,h.bounded,?_,?_,?_,h.readyNodup,h.ready,
    h.awake⟩
  · intro l m
    refine (h.queued l m).trans ?_
    change _ ↔ m<b.next ∧ ((b.setJob i j).jobs m).state=_ ∧ ((b.setJob i j).jobs m).lane=l ∧ _
    by_cases hm : m=i
    · subst m
      rw [setJob_self,hlane]
      constructor
      · rintro ⟨h1,h2,h3,h4⟩
        obtain ⟨h5,h6⟩ := hq.mpr ⟨h2,h4⟩
        exact ⟨h1,h5,h3,h6⟩
      · rintro ⟨h1,h2,h3,h4⟩
        obtain ⟨h5,h6⟩ := hq.mp ⟨h2,h4⟩
        exact ⟨h1,h5,h3,h6⟩
    · rw [setJob_ne _ _ hm]
      rw [hf m hm]
  · intro l
    have ht := tally_update (Job.holdsSlot l) b.jobs b.next i j hi
    have hr := h.running l
    have hl := hs l
    change b.runningOf l=tally (Job.holdsSlot l) (Function.update b.jobs i j) b.next+_
    omega
  · have ht := tally_update Job.deliveryPending b.jobs b.next i j hi
    have hb := h.pending
    change p=(tally Job.deliveryPending (Function.update b.jobs i j) b.next : Int)
    omega
  · intro m hm
    change ((b.setJob i j).jobs m).deliveryPending=true → ((b.setJob i j).jobs m).state=_
    by_cases hmi : m=i
    · subst m; rw [setJob_self]; exact ho
    · rw [setJob_ne _ _ hmi]; exact h.owed m hm

theorem BrokerInv.setJob_same (h : BrokerInv hole float slot b) (hi : i<b.next)
    (hlane : j.lane=(b.jobs i).lane) (hs : j.state=(b.jobs i).state)
    (hp : j.deliveryPending=(b.jobs i).deliveryPending) :
    BrokerInv hole float slot (b.setJob i j) := by
  refine h.writeJob hi hlane (by rw [hs]) (fun _ _ => Iff.rfl) (fun l => ?_) (by rw [hp])
    (fun hj => ?_)
  · simp only [Job.holdsSlot,hs,hlane]
  · rw [hs]; exact h.owed i hi (hp.symm.trans hj)

theorem BrokerInv.notOwed (h : BrokerInv hole float slot b) (hi : i<b.next)
    (hs : (b.jobs i).state≠.terminal) : (b.jobs i).deliveryPending=false := by
  by_contra hd
  exact hs (h.owed i hi (by simpa using hd))

theorem BrokerInv.settleJob (h : BrokerInv hole float slot b) (hi : i<b.next) (hfloat : float i)
    (hlane : j.lane=(b.jobs i).lane) (hold : (b.jobs i).state=.queued)
    (hs : j.state=.cancelled ∨ j.state=.terminal) (hp : j.deliveryPending=false) :
    BrokerInv hole (fun m => float m ∧ m≠i) slot (b.setJob i j) := by
  have hdp : (b.jobs i).deliveryPending=false := h.notOwed hi (by rw [hold]; simp)
  have hne : j.state≠.queued := by rcases hs with hs | hs <;> rw [hs] <;> simp
  have hnr : j.state≠.running := by rcases hs with hs | hs <;> rw [hs] <;> simp
  refine h.writeJob hi hlane ?_ (fun m hm => ?_) (fun l => ?_) (by rw [hp,hdp])
    (fun hj => by rw [hp] at hj; cases hj)
  · exact iff_of_false (fun hx => hne hx.1) (fun hx => hx.2 hfloat)
  · exact ⟨fun hx => hx.1,fun hx => ⟨hx,hm⟩⟩
  · simp [Job.holdsSlot,hold,hnr]

theorem BrokerInv.settleLast (h : BrokerInv hole (fun m => m=i) slot b) (hi : i<b.next)
    (hlane : j.lane=(b.jobs i).lane) (hold : (b.jobs i).state=.queued)
    (hs : j.state=.cancelled ∨ j.state=.terminal) (hp : j.deliveryPending=false) :
    BrokerInv hole noFloat slot (b.setJob i j) :=
  (h.settleJob hi rfl hlane hold hs hp).refloat (fun m => by simp)

theorem BrokerInv.runJob (h : BrokerInv hole (fun m => m=i) (some l) b) (hi : i<b.next)
    (hl : (b.jobs i).lane=l) (hlane : j.lane=l) (hold : (b.jobs i).state=.queued)
    (hs : j.state=.running) (hp : j.deliveryPending=false) :
    BrokerInv hole noFloat none (b.setJob i j) := by
  have hdp : (b.jobs i).deliveryPending=false := h.notOwed hi (by rw [hold]; simp)
  refine h.writeJob hi (hlane.trans hl.symm) ?_ (fun m hm => ?_) (fun k => ?_) (by rw [hp,hdp])
    (fun hj => by rw [hp] at hj; cases hj)
  · exact iff_of_false (fun hx => by rw [hs] at hx; cases hx.1) (fun hx => hx.2 rfl)
  · exact iff_of_false (fun hx => hx) hm
  · by_cases hk : l=k
    · subst k; simp [Job.holdsSlot,hold,hs,hlane]
    · simp [Job.holdsSlot,hold,hs,hlane,hk]

theorem BrokerInv.endJob (h : BrokerInv hole noFloat none b) (hi : i<b.next)
    (hl : (b.jobs i).lane=l) (hlane : j.lane=l) (hold : (b.jobs i).state=.running)
    (hs : j.state=.terminal) (hp : j.deliveryPending=false) :
    BrokerInv hole noFloat (some l) (b.setJob i j) := by
  have hdp : (b.jobs i).deliveryPending=false := h.notOwed hi (by rw [hold]; simp)
  refine h.writeJob hi (hlane.trans hl.symm) ?_ (fun m hm => Iff.rfl) (fun k => ?_)
    (by rw [hp,hdp]) (fun hj => by rw [hp] at hj; cases hj)
  · exact iff_of_false (fun hx => by rw [hs] at hx; cases hx.1)
      (fun hx => by rw [hold] at hx; cases hx.1)
  · by_cases hk : l=k
    · subst k; simp [Job.holdsSlot,hold,hs,hl]
    · simp [Job.holdsSlot,hold,hs,hl,hk]

theorem deferFatal_frame (j : Job) : j.deferFatal.lane=j.lane ∧ j.deferFatal.state=j.state ∧
    j.deferFatal.deliveryPending=j.deliveryPending ∧ j.deferFatal.delivered=j.delivered ∧
    j.deferFatal.detached=j.detached := by
  unfold Job.deferFatal
  split_ifs <;> exact ⟨rfl,rfl,rfl,rfl,rfl⟩

theorem BrokerInv.scheduleDelivery (h : BrokerInv hole float slot b) (hi : i<b.next)
    (ht : (b.jobs i).state=.terminal) (hp : (b.jobs i).deliveryPending=false) :
    BrokerInv hole float slot (b.scheduleDelivery i) := by
  unfold Broker.scheduleDelivery Job.scheduleDelivery
  dsimp only
  by_cases hdet : (b.jobs i).detached=true
  · rw [if_pos hdet,if_pos (Or.inl hdet)]
    obtain ⟨h1,h2,h3,_⟩ := deferFatal_frame {b.jobs i with delivered := true}
    exact h.setJob_same hi h1 h2 h3
  · rw [if_neg hdet]
    by_cases hloop : b.loopClosed (b.jobs i).loop=true
    · rw [if_pos hloop,if_pos (Or.inr hloop)]
      obtain ⟨h1,h2,h3,_⟩ := deferFatal_frame {b.jobs i with detached := true}
      exact h.setJob_same hi h1 h2 h3
    · rw [if_neg hloop,if_neg (not_or.mpr ⟨hdet,hloop⟩)]
      refine h.writeJob hi rfl Iff.rfl (fun _ _ => Iff.rfl) (fun l => rfl) ?_ (fun _ => ht)
      rw [hp]; simp

/-! Frames -/

theorem queueLane_jobs (b : Broker) (l : Lane) : (b.queueLane l).jobs=b.jobs := by
  unfold Broker.queueLane
  split_ifs <;> rfl

theorem queueLane_requeueLane (b : Broker) (l : Lane) :
    (b.requeueLane l).queueLane l=b.requeueLane l := by
  unfold Broker.requeueLane
  by_cases hq : b.queueOf l=[]
  · rw [if_neg (by simp [hq])]
    split_ifs
    · have hp : (b.popLane l).queueOf l=[] := by rw [queueOf_popLane hq]; exact hq
      unfold Broker.queueLane
      rw [if_pos (Or.inl hp)]
    · unfold Broker.queueLane
      rw [if_pos (Or.inl hq)]
  · rw [if_pos hq]
    by_cases h1 : b.queueOf l=[] ∨ l∈b.readyLaneSet
    · have he : b.queueLane l=b := by unfold Broker.queueLane; rw [if_pos h1]
      rw [he,he]
    · by_cases h2 : b.laneRunningLimit l≤b.runningOf l
      · have he : b.queueLane l=b := by unfold Broker.queueLane; rw [if_neg h1,if_pos h2]
        rw [he,he]
      · have he : b.queueLane l={b with
            readyLanes := b.readyLanes++[l],readyLaneSet := insert l b.readyLaneSet} := by
          unfold Broker.queueLane; rw [if_neg h1,if_neg h2]
        rw [he]
        unfold Broker.queueLane
        rw [if_pos (Or.inr (Finset.mem_insert_self _ _))]

/-! Dispatch -/

theorem BrokerInv.startJob (h : BrokerInv (fun k => hole k ∨ k=l) (fun m => m=i) none b) (hi : i<b.next)
    (hl : (b.jobs i).lane=l) (hold : (b.jobs i).state=.queued)
    (hb : b.runningCount<b.maxWorkers) : BrokerInv hole noFloat none (b.startJob l i) := by
  have hdp := h.notOwed hi (by rw [hold]; simp)
  have hslot := (h.takeSlot hb).ensureExecutor
  have hjobs : (b.takeSlot l).ensureExecutor.jobs=b.jobs := by
    unfold Broker.ensureExecutor; split_ifs <;> rfl
  have hnext : (b.takeSlot l).ensureExecutor.next=b.next := by
    unfold Broker.ensureExecutor; split_ifs <;> rfl
  unfold Broker.startJob
  dsimp only
  generalize (b.takeSlot l).ensureExecutor=e at hslot hjobs hnext
  have hie : i<e.next := by rw [hnext]; exact hi
  split
  · rename_i f _
    have hr : BrokerInv (fun k => hole k ∨ k=l) (fun m => m=i) none (e.releaseRunningSlot l) :=
      hslot.releaseSlot.mono (by tauto)
    have hterm := hr.settleLast (j := {((b.jobs i).enter .running).enter .terminal with
      outcome := some (.error f)}) hie (by change (b.jobs i).lane=(e.jobs i).lane; rw [hjobs])
      (by change (e.jobs i).state=_; rw [hjobs]; exact hold) (Or.inr rfl) hdp
    rw [queueLane_requeueLane]
    refine (hterm.scheduleDelivery hie ?_ ?_).requeueLane
    · rw [setJob_self]; rfl
    · rw [setJob_self]; exact hdp
  · exact (hslot.runJob (j := {(b.jobs i).enter .running with actualFuture := .pending}) hie
      (by rw [hjobs]; exact hl) hl (by rw [hjobs]; exact hold) rfl hdp).requeueLane

theorem BrokerInv.dispatchLane (h : BrokerInv (fun k => hole k ∨ k=l) noFloat none b)
    (hb : b.runningCount<b.maxWorkers) : BrokerInv hole noFloat none (b.dispatchLane l) := by
  unfold Broker.dispatchLane
  split
  · rename_i hq
    exact (h.popLane hq).fill (Or.inl ((queueOf_popLane hq).trans hq))
  · rename_i i queue hq
    split_ifs with hlim
    · exact h.fill (Or.inr (Or.inl hlim))
    · obtain ⟨hi,hst,hlane,_⟩ := (h.queued l i).mp (by rw [hq]; simp)
      have hp := h.popQueue hq
      dsimp only
      have hstart : BrokerInv hole noFloat none
          ((b.takeQueued l queue).startJob l i) :=
        hp.startJob hi hlane hst hb
      split
      · split_ifs
        · have hdp := h.notOwed hi (by rw [hst]; simp)
          exact (hp.settleLast (j := (b.jobs i).drop (b.loopClosed (b.jobs i).loop)) hi rfl hst
            (Or.inl rfl) hdp).requeueLane
        · exact hstart
      · exact hstart

theorem BrokerInv.dispatchLoop (n : Nat) (h : BrokerInv hole noFloat none b) :
    BrokerInv hole noFloat none (dispatchLoop n b) := by
  induction n generalizing b with
  | zero => exact h
  | succ n ih =>
    unfold Broker.dispatchLoop
    split_ifs with hb
    · split
      · exact h
      · rename_i l rest hr
        exact ih ((h.popReady hr).dispatchLane hb)
    · exact h

theorem BrokerInv.dispatch (h : BrokerInv hole noFloat none b) : BrokerInv hole noFloat none b.dispatch :=
  h.dispatchLoop _

/-! Progress of the dispatcher -/

def Settled (b : Broker) : Prop := b.readyLanes=[] ∨ (b.maxWorkers : Int)≤b.runningCount

theorem queueLane_fuel (b : Broker) (l : Lane) :
    (b.queueLane l).laneQueues=b.laneQueues ∧
      (b.queueLane l).readyLanes.length≤b.readyLanes.length+1 := by
  unfold Broker.queueLane
  split_ifs
  · exact ⟨rfl,by omega⟩
  · exact ⟨rfl,by omega⟩
  · exact ⟨rfl,by simp⟩

theorem requeueLane_fuel (b : Broker) (l : Lane) :
    (b.requeueLane l).dispatchFuel≤b.dispatchFuel+1 := by
  unfold Broker.requeueLane
  by_cases hq : b.queueOf l=[]
  · rw [if_neg (by simp [hq])]
    split_ifs
    · unfold Broker.dispatchFuel
      rw [total_popLane hq]
      change _+b.readyLanes.length≤_
      omega
    · omega
  · rw [if_pos hq]
    obtain ⟨h1,h2⟩ := queueLane_fuel b l
    unfold Broker.dispatchFuel
    rw [h1]
    omega

theorem scheduleDelivery_frame (b : Broker) (i : Nat) :
    (b.scheduleDelivery i).laneQueues=b.laneQueues ∧
      (b.scheduleDelivery i).readyLanes=b.readyLanes := by
  unfold Broker.scheduleDelivery
  dsimp only
  split_ifs <;> exact ⟨rfl,rfl⟩

theorem ensureExecutor_frame (b : Broker) : b.ensureExecutor.laneQueues=b.laneQueues ∧
    b.ensureExecutor.readyLanes=b.readyLanes := by
  unfold Broker.ensureExecutor
  split_ifs <;> exact ⟨rfl,rfl⟩

theorem startJob_fuel (b : Broker) (l : Lane) (i : Nat) :
    (b.startJob l i).dispatchFuel≤b.dispatchFuel+1 := by
  obtain ⟨he1,he2⟩ := ensureExecutor_frame (b.takeSlot l)
  unfold Broker.startJob
  dsimp only
  split
  · rw [queueLane_requeueLane]
    refine (requeueLane_fuel _ l).trans ?_
    unfold Broker.dispatchFuel
    obtain ⟨h1,h2⟩ := scheduleDelivery_frame (((b.takeSlot l).ensureExecutor.releaseRunningSlot l).setJob i
      {((b.jobs i).enter .running).enter .terminal with outcome := some (.error ‹_›)}) i
    rw [h1,h2]
    change total List.length (b.takeSlot l).ensureExecutor.laneQueues+
      (b.takeSlot l).ensureExecutor.readyLanes.length+1≤_
    rw [he1,he2]
    exact Nat.le_refl _
  · refine (requeueLane_fuel _ l).trans ?_
    unfold Broker.dispatchFuel
    change total List.length (b.takeSlot l).ensureExecutor.laneQueues+
      (b.takeSlot l).ensureExecutor.readyLanes.length+1≤_
    rw [he1,he2]
    exact Nat.le_refl _

theorem dispatchLane_fuel {rest : List Lane} (b : Broker) (hr : b.readyLanes=l::rest) :
    ((b.popReady l rest).dispatchLane l).dispatchFuel<b.dispatchFuel := by
  have hpop : (b.popReady l rest).dispatchFuel+1=b.dispatchFuel := by
    unfold Broker.dispatchFuel
    rw [hr]
    change total List.length b.laneQueues+rest.length+1=_
    simp only [List.length_cons]
    omega
  generalize b.popReady l rest=e at hpop
  unfold Broker.dispatchLane
  split
  · rename_i hq
    unfold Broker.dispatchFuel at hpop ⊢
    rw [total_popLane hq]
    change total List.length e.laneQueues+e.readyLanes.length<_
    omega
  · rename_i i queue hq
    have ht := total_setQueue e l queue
    rw [hq,List.length_cons] at ht
    have hshort : (e.takeQueued l queue).dispatchFuel+1=e.dispatchFuel := by
      unfold Broker.dispatchFuel
      change total List.length (e.setQueue l queue).laneQueues+e.readyLanes.length+1=_
      omega
    split_ifs
    · omega
    generalize e.takeQueued l queue=f at hshort
    have hstart := startJob_fuel f l i
    dsimp only
    split
    · split_ifs
      · have hre := requeueLane_fuel (f.dropJob i) l
        have hset : (f.dropJob i).dispatchFuel=f.dispatchFuel := rfl
        omega
      · omega
    · omega

theorem dispatchLoop_settled (n : Nat) (hn : b.dispatchFuel≤n) : Settled (dispatchLoop n b) := by
  induction n generalizing b with
  | zero =>
    left
    unfold Broker.dispatchLoop
    unfold Broker.dispatchFuel at hn
    exact List.length_eq_zero_iff.mp (by omega)
  | succ n ih =>
    unfold Broker.dispatchLoop
    split_ifs with hb
    · split
      · rename_i hr
        exact Or.inl hr
      · rename_i l rest hr
        have hf := dispatchLane_fuel b hr
        exact ih (by omega)
    · exact Or.inr (by omega)

theorem dispatch_settled (b : Broker) : Settled b.dispatch :=
  dispatchLoop_settled _ (Nat.le_refl _)

end XiaoQing.Execution
