import XiaoQing.Inbound.LaneInvariant

namespace XiaoQing.Inbound

open Function (update update_eq_self update_idem update_self)

open Framework Delivery Dispatcher

variable {c : Config} {d d' : Dispatcher} {hole : EventKey → Prop} {orphan : Option Nat}
  {k : EventKey} {t w : Nat} {x : Worker}

/-! Tickets leave the lanes -/

theorem view_removePending (d : Dispatcher) (t : Nat) :
    (d.removePending t).view=d.view.remove t := by
  have hrun : update d.view.running (d.tickets t).key (d.laneOf (d.tickets t).key).running=
      d.view.running := update_eq_self (d.tickets t).key d.view.running
  have hready : update d.view.ready (d.tickets t).key (d.laneOf (d.tickets t).key).ready=
      d.view.ready := update_eq_self (d.tickets t).key d.view.ready
  have hkey : update d.view.key t (d.tickets t).key=d.view.key :=
    update_eq_self t d.view.key
  have hst : update d.view.started t (d.tickets t).started=d.view.started :=
    update_eq_self t d.view.started
  change (((d.setTicket t {d.tickets t with finished := true}).setLane (d.tickets t).key _).view)=_
  rw [view_setLane,view_setTicket]
  simp only [hkey,hst,hrun,hready,Lanes.remove]
  rfl

theorem LaneInv.removePending (h : LaneInv c hole orphan d)
    (ht : t∈(d.laneOf (d.tickets t).key).pending) : LaneInv c hole orphan (d.removePending t) :=
  h.ofRemove ht (view_removePending d t) rfl ⟨rfl,rfl,rfl,rfl,rfl,rfl⟩

theorem LaneInv.cancel (h : LaneInv c hole orphan d) (t : Nat) :
    LaneInv c hole orphan (d.cancel t) := by
  unfold Dispatcher.cancel
  dsimp only
  by_cases hfin : (d.tickets t).finished
  · rw [if_pos hfin]; exact h
  rw [if_neg hfin]
  set x := (d.tickets t).cancelResult with hx
  have hxk : x.key=(d.tickets t).key := by rw [hx]; unfold Ticket.cancelResult; split_ifs <;> rfl
  have hxs : x.started=(d.tickets t).started := by
    rw [hx]; unfold Ticket.cancelResult; split_ifs <;> rfl
  have hxf : x.finished=(d.tickets t).finished := by
    rw [hx]; unfold Ticket.cancelResult; split_ifs <;> rfl
  have hd := h.setTicket_same t x hxk hxs hxf
  have hself : (d.setTicket t x).tickets t=x := by simp [Dispatcher.setTicket]
  by_cases hst : x.started
  · rw [if_pos hst]
    split
    · exact hd.setTicket_same t _ (by rw [hself]) (by rw [hself]) (by rw [hself])
    · exact hd
  · rw [if_neg hst]
    split_ifs with hp
    · exact (hd.removePending (by rw [hself]; exact hp)).discard _
    · exact hd

theorem setResult_view (d : Dispatcher) (t : Nat) (r : ResultFuture) :
    (d.setResult t r).view=d.view := by
  unfold Dispatcher.setResult
  dsimp only
  split_ifs
  · exact view_setTicket_same d t _ rfl rfl rfl
  · rfl

/-! The end of an execution -/

theorem discardLaneIfIdle_workers (d : Dispatcher) (k : EventKey) (ws : List Worker) :
    ({d with workers := ws} : Dispatcher).discardLaneIfIdle k=
      {d.discardLaneIfIdle k with workers := ws} := by
  have hl : ({d with workers := ws} : Dispatcher).laneOf k=d.laneOf k := rfl
  unfold discardLaneIfIdle
  dsimp only
  rw [hl]
  split_ifs <;> rfl

theorem scheduleLane_workers (c : Config) (d : Dispatcher) (k : EventKey) (ws : List Worker) :
    ({d with workers := ws} : Dispatcher).scheduleLane c false k=
      {d.scheduleLane c false k with workers := ws} := by
  have hl : ({d with workers := ws} : Dispatcher).laneOf k=d.laneOf k := rfl
  unfold Dispatcher.scheduleLane
  dsimp only
  rw [hl]
  by_cases h : (d.laneOf k).ready=true ∨ (d.laneOf k).running≠none ∨ (d.laneOf k).pending=[]
  · rw [if_pos h,if_pos h]
  · rw [if_neg h,if_neg h]
    obtain ⟨next,tickets,lanes,readyKeys⟩ := d
    cases readyKeys <;> rfl

theorem releaseTicket_workers (d : Dispatcher) (t : Nat) (ws : List Worker) :
    ({d with workers := ws} : Dispatcher).releaseTicket t=
      {d.releaseTicket t with workers := ws} := by
  have hl : ({d with workers := ws} : Dispatcher).laneOf (d.tickets t).key=
    d.laneOf (d.tickets t).key := rfl
  unfold releaseTicket
  dsimp only
  rw [hl]
  split_ifs <;> rfl

theorem finishTicket_workers (c : Config) (d : Dispatcher) (t : Nat) (ws : List Worker) :
    ({d with workers := ws} : Dispatcher).finishTicket c t=
      {d.finishTicket c t with workers := ws} := by
  have hl : ({d with workers := ws} : Dispatcher).laneOf (d.tickets t).key=
    d.laneOf (d.tickets t).key := rfl
  unfold Dispatcher.finishTicket
  dsimp only
  rw [hl,releaseTicket_workers]
  split_ifs
  · exact discardLaneIfIdle_workers (d.releaseTicket t) _ ws
  · exact scheduleLane_workers c (d.releaseTicket t) _ ws

theorem finishTicket_workers_eq (c : Config) (d : Dispatcher) (t : Nat) :
    (d.finishTicket c t).workers=d.workers :=
  (congrArg Dispatcher.workers (finishTicket_workers c d t d.workers) : _)

theorem view_releaseTicket (h : (d.laneOf (d.tickets t).key).running=some t) :
    (d.releaseTicket t).view=d.view.finish t := by
  have hkey : update d.view.key t (d.tickets t).key=d.view.key :=
    update_eq_self t d.view.key
  have hst : update d.view.started t (d.tickets t).started=d.view.started :=
    update_eq_self t d.view.started
  have hpend : update d.view.pending (d.tickets t).key
      (d.laneOf (d.tickets t).key).pending=d.view.pending :=
    update_eq_self (d.tickets t).key d.view.pending
  have hready : update d.view.ready (d.tickets t).key
      (d.laneOf (d.tickets t).key).ready=d.view.ready :=
    update_eq_self (d.tickets t).key d.view.ready
  have hticket := view_setTicket d t {d.tickets t with operation := .absent,finished := true}
  simp only [hkey,hst] at hticket
  unfold releaseTicket
  dsimp only
  rw [if_pos h,view_setLane]
  have hk := congrArg Lanes.key hticket
  have hs := congrArg Lanes.started hticket
  have hf := congrArg Lanes.finished hticket
  simp only [Lanes.finish,Lanes.mk.injEq]
  exact ⟨rfl,hk,hs,hf,hpend,rfl,hready,rfl,rfl⟩

theorem releaseTicket_rest (d : Dispatcher) (t : Nat) :
    SameRest d (d.releaseTicket t) ∧ (d.releaseTicket t).inflight=d.inflight-1 := by
  unfold releaseTicket
  dsimp only
  split_ifs <;> exact ⟨⟨rfl,rfl,rfl,rfl,rfl,rfl⟩,rfl⟩

theorem LaneInv.finishTicket (h : LaneInv c nowhere (some t) d)
    (ht : (d.laneOf (d.tickets t).key).running=some t) :
    LaneInv c nowhere none (d.finishTicket c t) := by
  have hactive := (h.lanes.active (d.tickets t).key t).mp ht
  have hawake : d.readyKeys≠none := h.awake_of_live (Lanes.live_pos hactive.1 hactive.2.2.2)
  have hv := view_releaseTicket ht
  obtain ⟨hrest,hi⟩ := releaseTicket_rest d t
  have hinv := h.ofFinish ht hv hi hrest
  have hlane : ((d.releaseTicket t).laneOf (d.tickets t).key).pending=
      (d.laneOf (d.tickets t).key).pending := congrFun (congrArg Lanes.pending hv) _
  unfold Dispatcher.finishTicket
  dsimp only
  split_ifs with hp
  · exact (hinv.close (Or.inl (hlane.trans hp))).discard _
  · exact hinv.scheduleLane false (by rw [hrest.readyKeys]; exact hawake)

theorem LaneInv.running_of_executing (h : LaneInv c hole orphan d) (ht : t∈d.executing) :
    (d.laneOf (d.tickets t).key).running=some t := by
  obtain ⟨h1,h2,h3,_⟩ := (h.executing t).mp ht
  exact (h.lanes.active _ t).mpr ⟨h1,rfl,h2,h3⟩

theorem LaneInv.finishRelease (h : LaneInv c nowhere none d) (hw : d.workers[w]?=some x)
    (hx : x.current=some t) :
    LaneInv c nowhere none ((d.finishTicket c t).setWorker w {x with current := none}) := by
  have hmem : t∈d.executing := mem_jobs_of_getElem hw hx
  obtain ⟨hn,hj⟩ := jobs_set_drop (y := {x with current := none}) hw hx rfl h.nodup
  have ho := h.orphaned (t := t) (d.workers.set w {x with current := none}) hn hj
    (by rw [List.length_set]; exact h.workers)
  have hf := ho.finishTicket (h.running_of_executing hmem)
  rw [finishTicket_workers] at hf
  unfold Dispatcher.setWorker
  rw [finishTicket_workers_eq]
  exact hf

theorem LaneInv.finishEnd (h : LaneInv c nowhere none d) (hw : d.workers[w]?=some x)
    (hx : x.current=some t) : LaneInv c nowhere none ((d.finishTicket c t).endWorker w) := by
  have hmem : t∈d.executing := mem_jobs_of_getElem hw hx
  obtain ⟨hn,hj⟩ := jobs_erase_drop hw hx h.nodup
  have hlen : (d.workers.eraseIdx w).length≤d.workers.length := by
    rw [List.length_eraseIdx]; split_ifs <;> omega
  have ho := h.orphaned (t := t) (d.workers.eraseIdx w) hn hj (hlen.trans h.workers)
  have hf := ho.finishTicket (h.running_of_executing hmem)
  rw [finishTicket_workers] at hf
  unfold Dispatcher.endWorker
  rw [finishTicket_workers_eq]
  exact hf.frame rfl rfl ⟨rfl,rfl,rfl,rfl,rfl,rfl⟩

/-! The worker loop -/

theorem LaneInv.lookup_queued {rest : List EventKey} (h : LaneInv c hole orphan d)
    (hk : d.readyKeys=some (k::rest)) : ∃lane,d.lanes.lookup k=some lane := by
  have hready : (d.laneOf k).ready=true :=
    (h.schedule.member k).mpr (by simp [Dispatcher.view,Dispatcher.ready,hk])
  cases hl : d.lanes.lookup k with
  | none =>
    simp [laneOf,hl,Lane.empty] at hready
  | some lane => exact ⟨lane,rfl⟩

variable {lane : Lane}

theorem LaneInv.dequeue {rest : List EventKey} (h : LaneInv c nowhere none d)
    (hk : d.readyKeys=some (k::rest)) (hl : d.laneOf k=lane) :
    LaneInv c (fun j => nowhere j ∨ j=k) none
      (({d with readyKeys := some rest} : Dispatcher).setLane k {lane with ready := false}) := by
  subst hl
  have hpend : update d.view.pending k (d.laneOf k).pending=d.view.pending :=
    update_eq_self k d.view.pending
  have hrun : update d.view.running k (d.laneOf k).running=d.view.running :=
    update_eq_self k d.view.running
  have hq : d.ready=k::rest := by simp [Dispatcher.ready,hk]
  refine h.ofDequeue hq ?_ rfl ?_ ⟨rfl,rfl,rfl,rfl,rfl,rfl⟩
  · rw [view_setLane]
    simp only [Lanes.dequeue,Lanes.mk.injEq]
    exact ⟨rfl,rfl,rfl,rfl,hpend,hrun,rfl,rfl,rfl⟩
  · simp [Dispatcher.setLane]

variable {pending : List Nat}

theorem LaneInv.dropHead (h : LaneInv c hole orphan d)
    (hl : d.laneOf k=lane) (hp : lane.pending=t::pending) :
    LaneInv c hole orphan
      {(d.setLane k {lane with pending := pending}).setTicket t {d.tickets t with finished := true}
        with inflight := d.inflight-1} := by
  subst hl
  have hmem : t∈(d.laneOf k).pending := by rw [hp]; simp
  obtain ⟨_,hkey,_,_⟩ := (h.lanes.queued k t).mp hmem
  have hkey : (d.tickets t).key=k := hkey
  have hk : update d.view.key t (d.tickets t).key=d.view.key :=
    update_eq_self t d.view.key
  have hst : update d.view.started t (d.tickets t).started=d.view.started :=
    update_eq_self t d.view.started
  have hrun : update d.view.running k (d.laneOf k).running=d.view.running :=
    update_eq_self k d.view.running
  have hready : update d.view.ready k (d.laneOf k).ready=d.view.ready :=
    update_eq_self k d.view.ready
  have herase : ((d.laneOf k).pending).erase t=pending := by rw [hp]; simp
  have hticket := view_setTicket (d.setLane k {d.laneOf k with pending := pending}) t
    {d.tickets t with finished := true}
  rw [view_setLane] at hticket
  refine h.ofRemove (t := t) (by rw [hkey]; exact hmem) ?_ rfl ⟨rfl,rfl,rfl,rfl,rfl,rfl⟩
  refine Eq.trans hticket ?_
  simp only [hk,hst,hrun,hready,Lanes.remove,Lanes.mk.injEq,true_and,and_true]
  change _=update d.view.pending (d.tickets t).key
    (((d.laneOf (d.tickets t).key).pending).erase t)
  rw [hkey,herase]

theorem LaneInv.skipTicket
    (h : LaneInv c (fun j => nowhere j ∨ j=k) none d) (hl : d.laneOf k=lane)
    (hp : lane.pending=t::pending) (hon : d.readyKeys≠none) :
    LaneInv c nowhere none
      ((d.setLane k {lane with pending := pending}).skipTicket c k t pending) := by
  have hmem : t∈(d.laneOf k).pending := by rw [hl,hp]; simp
  have hfin : ¬((d.setLane k {lane with pending := pending}).tickets t).finished=true := by
    have hf : (d.tickets t).finished=false := ((h.lanes.queued k t).mp hmem).2.2.2
    change ¬(d.tickets t).finished=true
    rw [hf]; simp
  unfold Dispatcher.skipTicket
  dsimp only
  rw [if_neg hfin]
  have hr := (h.dropHead hl hp).discard k
  split_ifs with hnil
  · refine hr.close (Or.inl ?_)
    rw [laneOf_discard]
    change ((d.setLane k {lane with pending := pending}).laneOf k).pending=[]
    simp [hnil]
  · refine hr.scheduleLane false ?_
    rw [(discard_rest _ k).1.readyKeys]
    exact hon

theorem LaneInv.markRunning
    (h : LaneInv c (fun j => nowhere j ∨ j=k) none d) (hl : d.laneOf k=lane)
    (hp : lane.pending=t::pending) (hr : lane.running=none) (hy : lane.ready=false) :
    LaneInv c nowhere (some t)
      ((d.setLane k {lane with pending := pending}).markRunning k t pending) := by
  subst hl
  have hk : update d.view.key t (d.tickets t).key=d.view.key :=
    update_eq_self t d.view.key
  have hfin : update d.view.finished t (d.tickets t).finished=d.view.finished :=
    update_eq_self t d.view.finished
  have hready : update d.view.ready k false=d.view.ready := by
    rw [←hy]; exact update_eq_self k d.view.ready
  have hticket := view_setTicket
    ((d.setLane k {d.laneOf k with pending := pending}).setLane k ⟨pending,some t,false⟩)
    t {d.tickets t with started := true}
  rw [view_setLane,view_setLane] at hticket
  simp only [hk,hfin,hready,update_idem] at hticket
  refine h.ofStart hp hr ?_ rfl ⟨rfl,rfl,rfl,rfl,rfl,rfl⟩
  have hs := congrArg Lanes.started hticket
  have hkeys := congrArg Lanes.key hticket
  have hf := congrArg Lanes.finished hticket
  have hpe := congrArg Lanes.pending hticket
  have hru := congrArg Lanes.running hticket
  have hre := congrArg Lanes.ready hticket
  simp only [Dispatcher.view,Lanes.start,Lanes.mk.injEq]
  exact ⟨rfl,hkeys,hs,hf,hpe,hru,hre,rfl,rfl⟩

theorem markRunning_self (d : Dispatcher) (k : EventKey) (t : Nat) (pending : List Nat) :
    (d.markRunning k t pending).tickets t={d.tickets t with started := true} :=
  update_self _ _ _

theorem markRunning_next (d : Dispatcher) (k : EventKey) (t : Nat) (pending : List Nat) :
    (d.markRunning k t pending).next=d.next := rfl

theorem markRunning_workers (d : Dispatcher) (k : EventKey) (t : Nat) (pending : List Nat) :
    (d.markRunning k t pending).workers=d.workers := rfl

theorem LaneInv.setWorker_same (h : LaneInv c hole orphan d) (hw : d.workers[w]?=some x)
    (y : Worker) (hy : y.current=x.current) : LaneInv c hole orphan (d.setWorker w y) :=
  h.setWorkers _ (jobs_set_same hw hy) (by rw [List.length_set]; exact h.workers)

theorem LaneInv.endIdle (h : LaneInv c hole orphan d) (hw : d.workers[w]?=some x)
    (hx : x.current=none) : LaneInv c hole orphan (d.endWorker w) := by
  have hlen : (d.workers.eraseIdx w).length≤d.workers.length := by
    rw [List.length_eraseIdx]; split_ifs <;> omega
  exact (h.setWorkers _ (jobs_erase_idle hw hx) (hlen.trans h.workers)).frame rfl rfl
    ⟨rfl,rfl,rfl,rfl,rfl,rfl⟩

theorem LaneInv.takeTicket (h : LaneInv c nowhere (some t) d) (hw : d.workers[w]?=some x)
    (hx : x.current=none) (ht : t<d.next) (hs : (d.tickets t).started=true)
    (hf : (d.tickets t).finished=false) :
    LaneInv c nowhere none (d.setWorker w {x with current := some t}) := by
  have hnot : t∉d.executing := fun hm => ((h.executing t).mp hm).2.2.2 rfl
  obtain ⟨hn,hj⟩ := jobs_set_take (y := {x with current := some t}) hw hx rfl h.nodup hnot
  exact h.adopted _ hn hj (by rw [List.length_set]; exact h.workers) ht hs hf

theorem LaneInv.executeTicket (h : LaneInv c nowhere (some t) d) (hw : d.workers[w]?=some x)
    (hx : x.current=none) (ht : t<d.next) (hs : (d.tickets t).started=true)
    (hf : (d.tickets t).finished=false) (g : Guard) :
    LaneInv c nowhere none (d.executeTicket c w x g t) := by
  have hrun : (d.laneOf (d.tickets t).key).running=some t :=
    (h.lanes.active _ t).mpr ⟨ht,rfl,hs,hf⟩
  unfold Dispatcher.executeTicket
  dsimp only
  split_ifs
  · have hd := h.setResult t .failed
    refine hd.finishTicket ((hd.lanes.active _ t).mpr ?_)
    rw [setResult_view]
    exact ⟨ht,(congrFun (congrArg Lanes.key (setResult_view d t .failed)) t).symm,hs,hf⟩
  · have hd := h.setTicket_same t {d.tickets t with operation := .running false} rfl rfl rfl
    exact hd.takeTicket hw hx ht (by simpa [Dispatcher.setTicket] using hs)
      (by simpa [Dispatcher.setTicket] using hf)

theorem LaneInv.serveLane (h : LaneInv c (fun j => nowhere j ∨ j=k) none d)
    (hl : d.laneOf k=lane) (hy : lane.ready=false) (hon : d.readyKeys≠none)
    (hw : d.workers[w]?=some x) (hx : x.current=none) (g : Guard) :
    LaneInv c nowhere none (d.serveLane c w x g k lane) := by
  unfold Dispatcher.serveLane
  split
  · rename_i t pending hrun hpend
    have hmem : t∈(d.laneOf k).pending := by rw [hl,hpend]; simp
    obtain ⟨hlt,_,_,hfin⟩ := (h.lanes.queued k t).mp hmem
    dsimp only
    split_ifs
    · exact h.skipTicket hl hpend hon
    · have hm := h.markRunning hl hpend hrun hy
      have hself := markRunning_self (d.setLane k {lane with pending := pending}) k t pending
      refine hm.executeTicket (w := w) (x := x) ?_ hx ?_ ?_ ?_ g
      · rw [markRunning_workers]; exact hw
      · rw [markRunning_next]; exact hlt
      · rw [hself]
      · rw [hself]; exact hfin
  · rename_i hno
    refine (h.close ?_).discard k
    rw [hl]
    cases hr : lane.running with
    | some u => exact Or.inr (by simp)
    | none =>
      cases hp : lane.pending with
      | nil => exact Or.inl rfl
      | cons t pending => exact absurd hp (hno t pending hr)

theorem LaneInv.workerLoop (h : LaneInv c nowhere none d) (hw : d.workers[w]?=some x)
    (hx : x.current=none) (g : Guard) : LaneInv c nowhere none (d.workerLoop c w x g) := by
  unfold Dispatcher.workerLoop
  split
  · exact h.endIdle hw hx
  · exact h.endIdle hw hx
  · rename_i key rest hkeys
    obtain ⟨lane,hl⟩ := h.lookup_queued hkeys
    have hlane : d.laneOf key=lane := by simp [laneOf,hl]
    dsimp only
    rw [hl]
    exact (h.dequeue hkeys hlane).serveLane (laneOf_setLane_self _ _ _) rfl
      (by simp [Dispatcher.setLane]) hw hx g

theorem setResult_workers (d : Dispatcher) (t : Nat) (r : ResultFuture) :
    (d.setResult t r).workers=d.workers := by
  unfold Dispatcher.setResult
  dsimp only
  split_ifs <;> rfl

theorem settleDropped_workers (d : Dispatcher) (t : Nat) (l : List OutAction) :
    (d.settleDropped t l).workers=d.workers := by
  unfold Dispatcher.settleDropped
  dsimp only
  split_ifs <;> rfl

theorem LaneInv.resumeTicket (h : LaneInv c hole orphan d) (x : Worker) (t : Nat)
    (o : HandlerOutcome) : ∃e b,d.resumeTicket c x t o=(e.finishTicket c t,b) ∧
      LaneInv c hole orphan e ∧ e.workers=d.workers := by
  unfold Dispatcher.resumeTicket
  by_cases hm : x.mustCancel=true
  · rw [if_pos hm]
    exact ⟨_,_,rfl,h.setResult t _,setResult_workers d t _⟩
  · rw [if_neg hm]
    cases o with
    | cancelled => exact ⟨_,_,rfl,h.setResult t _,setResult_workers d t _⟩
    | error => exact ⟨_,_,rfl,h.setResult t _,setResult_workers d t _⟩
    | malformed => exact ⟨_,_,rfl,h.setResult t _,setResult_workers d t _⟩
    | actions l =>
      dsimp only
      split_ifs
      · exact ⟨_,_,rfl,h.setResult t _,setResult_workers d t _⟩
      · exact ⟨_,_,rfl,h.settleDropped t l,settleDropped_workers d t l⟩

theorem LaneInv.cancelWorker (h : LaneInv c hole orphan d) (hw : d.workers[w]?=some x) :
    LaneInv c hole orphan (d.cancelWorker w x) := by
  unfold Dispatcher.cancelWorker
  split
  · exact h.setWorker_same hw _ rfl
  · rename_i t _
    dsimp only
    split
    · have hd := h.setTicket_same t {d.tickets t with operation := .running true} rfl rfl rfl
      exact hd.setWorker_same hw {x with cancelling := true} rfl
    · exact h.setWorker_same hw _ rfl

theorem LaneInv.cancelWorkerAt (h : LaneInv c hole orphan d) (w : Nat) :
    LaneInv c hole orphan (d.cancelWorkerAt w) := by
  unfold Dispatcher.cancelWorkerAt
  split
  · exact h
  · rename_i x hw
    exact h.cancelWorker hw

theorem LaneInv.foldl {α : Type*} {f : Dispatcher → α → Dispatcher}
    (hf : ∀d a,LaneInv c hole orphan d → LaneInv c hole orphan (f d a)) (l : List α)
    (h : LaneInv c hole orphan d) : LaneInv c hole orphan (l.foldl f d) := by
  induction l generalizing d with
  | nil => exact h
  | cons a l ih => exact ih (hf d a h)

/-! Admission -/

theorem view_pushed (d : Dispatcher) (s : Nat) (k : EventKey) (guarded : Bool) :
    (({d.setTicket d.next (freshTicket s k guarded) with
      next := d.next+1
      sequence := s
      inflight := d.inflight+1} : Dispatcher).setLane k
        {d.laneOf k with pending := (d.laneOf k).pending++[d.next]}).view=d.view.push k := by
  have hrun : update d.view.running k (d.laneOf k).running=d.view.running :=
    update_eq_self k d.view.running
  have hready : update d.view.ready k (d.laneOf k).ready=d.view.ready :=
    update_eq_self k d.view.ready
  have hticket := view_setTicket d d.next (freshTicket s k guarded)
  have hk := congrArg Lanes.key hticket
  have hs := congrArg Lanes.started hticket
  have hf := congrArg Lanes.finished hticket
  rw [view_setLane]
  simp only [Lanes.push,Lanes.mk.injEq]
  exact ⟨rfl,hk,hs,hf,rfl,hrun,hready,rfl,rfl⟩

theorem LaneInv.enqueue (h : LaneInv c nowhere none d) (hon : d.readyKeys≠none)
    (hso : d.startedOnce=true) (hcap : d.inflight<c.capacity) (p : Payload) (guarded : Bool) :
    LaneInv c nowhere none (d.enqueue c p guarded) := by
  unfold Dispatcher.enqueue
  dsimp only
  refine (h.ofPush hcap (view_pushed d _ _ guarded) rfl ⟨rfl,rfl,rfl,rfl,rfl,rfl⟩ hon
    hso).scheduleLane true ?_
  exact hon

theorem LaneInv.startOnLoop (h : LaneInv c nowhere none d) (hi : d.inflight=0)
    (hs : d.stopActive=false) : LaneInv c nowhere none d.startOnLoop :=
  h.ofClear hi rfl rfl rfl rfl rfl rfl rfl (fun _ => ⟨by simp [Dispatcher.startOnLoop],rfl⟩)
    (fun ha => by
      change d.stopActive=true at ha
      rw [hs] at ha; cases ha) (fun hn => by cases hn)

theorem LaneInv.admitEvent (h : LaneInv c nowhere none d) (p : Payload) (guarded : Bool)
    (hd : d.admitEvent c p guarded=some d') : LaneInv c nowhere none d' := by
  unfold Dispatcher.admitEvent at hd
  by_cases hacc : d.accepting=true
  · rw [if_pos hacc] at hd
    split_ifs at hd with hcap
    obtain ⟨hon,hso⟩ := h.online hacc
    exact Option.some.inj hd ▸ h.enqueue hon hso hcap p guarded
  · rw [if_neg hacc] at hd
    split_ifs at hd with hlazy hcap
    have hnext := h.dormant hlazy.2.1
    have hzero : d.inflight=0 := by
      rw [h.inflight]
      simp [Lanes.live,Dispatcher.view,hnext]
    have hactive : d.stopActive=false := by
      by_contra ha
      have hs := (h.halted (by simpa using ha)).2
      rw [hlazy.2.2] at hs; cases hs
    have hstart := h.startOnLoop hzero hactive
    exact Option.some.inj hd ▸ hstart.enqueue (by simp [Dispatcher.startOnLoop]) rfl hcap p guarded

/-! Stopping -/

theorem abortTicket_started (d : Dispatcher) (t u : Nat) :
    ((d.abortTicket t).tickets u).started=(d.tickets u).started := by
  unfold abortTicket
  split_ifs
  · rfl
  · have hv := setResult_view (d.removePending t) t .failed
    rw [view_removePending] at hv
    exact congrFun (congrArg Lanes.started hv) u

theorem abortTicket_next (d : Dispatcher) (t : Nat) : (d.abortTicket t).next=d.next := by
  unfold abortTicket
  split_ifs
  · rfl
  · have hv := setResult_view (d.removePending t) t .failed
    rw [view_removePending] at hv
    exact congrArg Lanes.next hv

theorem LaneInv.abortTicket (h : LaneInv c hole orphan d) (ht : t<d.next)
    (hs : (d.tickets t).started=false) : LaneInv c hole orphan (d.abortTicket t) := by
  unfold Dispatcher.abortTicket
  by_cases hf : (d.tickets t).finished
  · rw [if_pos hf]; exact h
  · rw [if_neg hf]
    exact (h.removePending (h.ticket_pending ht hs (by simpa using hf))).setResult t .failed

theorem LaneInv.abortTickets (l : List Nat) (h : LaneInv c hole orphan d)
    (hl : ∀t∈l,t<d.next ∧ (d.tickets t).started=false) :
    LaneInv c hole orphan (l.foldl Dispatcher.abortTicket d) := by
  induction l generalizing d with
  | nil => exact h
  | cons t l ih =>
    obtain ⟨hlt,hs⟩ := hl t (by simp)
    refine ih (h.abortTicket hlt hs) (fun u hu => ?_)
    rw [abortTicket_started,abortTicket_next]
    exact hl u (List.mem_cons_of_mem t hu)

theorem LaneInv.abortLane (h : LaneInv c hole orphan d) (k : EventKey) :
    LaneInv c hole orphan (d.abortLane k) :=
  (h.abortTickets (d.laneOf k).pending (fun t ht => by
    obtain ⟨hlt,_,hs,_⟩ := (h.lanes.queued k t).mp ht
    exact ⟨hlt,hs⟩)).discard k

theorem LaneInv.abortRunning (h : LaneInv c hole orphan d) (k : EventKey) :
    LaneInv c hole orphan (d.abortRunning k) := by
  unfold Dispatcher.abortRunning
  split
  · exact h
  · rename_i t _
    have hd := h.setResult t .failed
    dsimp only
    split
    · exact hd.setTicket_same _ _ rfl rfl rfl
    · exact hd

theorem LaneInv.forceStop (h : LaneInv c hole orphan d) : LaneInv c hole orphan d.forceStop :=
  LaneInv.foldl (fun _ k hd => hd.abortRunning k) _
    (LaneInv.foldl (fun _ k hd => hd.abortLane k) _ h)

theorem LaneInv.finalizeStop (h : LaneInv c nowhere none d) (hi : d.inflight=0)
    (hw : d.workers=[]) (ha : d.stopActive=true) : LaneInv c nowhere none d.finalizeStop :=
  h.ofClear hi rfl rfl rfl rfl rfl hi hw.symm
    (fun hacc => by
      have hoff := (h.halted ha).1
      change d.accepting=true at hacc
      rw [hoff] at hacc; cases hacc)
    (fun hs => by cases hs) h.dormant

/-! Runs -/

theorem laneInv_initial (hd : Initial d) : LaneInv c nowhere none d := by
  have hlane (k : EventKey) : d.laneOf k=.empty := by
    simp only [laneOf,hd.lanes,AList.lookup_empty,Option.getD_none]
  have hq : d.ready=[] := by simp [Dispatcher.ready,hd.readyKeys]
  have hnext : d.view.next=0 := hd.next
  have hlive : d.view.live=0 := by simp [Lanes.live,hnext]
  have hexec : d.executing=[] := by simp [Dispatcher.executing,hd.workers,jobs]
  refine ⟨⟨?_,?_,?_,?_,?_,?_⟩,⟨?_,?_,?_⟩,?_,?_,?_,?_,?_,?_,?_,?_,?_⟩
  · intro k
    change (d.laneOf k).pending.Pairwise (· < ·)
    rw [hlane]; exact List.Pairwise.nil
  · intro k t
    change t∈(d.laneOf k).pending ↔ _
    rw [hlane,hnext]; simp [Lane.empty]
  · intro k t
    change (d.laneOf k).running=some t ↔ _
    rw [hlane,hnext]; simp [Lane.empty]
  · intro t ht
    change t∈d.startLog at ht
    rw [hd.startLog] at ht; cases ht
  · intro k
    change (d.startLog.filter _).Pairwise (· < ·)
    rw [hd.startLog]; exact List.Pairwise.nil
  · intro t ht
    change t∈d.startLog at ht
    rw [hd.startLog] at ht; cases ht
  · intro k
    change (d.laneOf k).ready=true ↔ k∈d.ready
    rw [hlane,hq]; simp [Lane.empty]
  · change d.ready.Nodup
    rw [hq]; exact List.nodup_nil
  · intro k _ hp _
    change (d.laneOf k).pending≠[] at hp
    rw [hlane] at hp; exact absurd rfl hp
  · rw [hd.inflight,hlive]; rfl
  · rw [hd.inflight]; omega
  · rw [hd.workers]; simp
  · rw [hexec]; exact List.nodup_nil
  · intro t
    rw [hexec,hd.next]; simp
  · intro ha; rw [hd.accepting] at ha; cases ha
  · intro ha; rw [hd.stopActive] at ha; cases ha
  · intro _; exact hd.inflight
  · intro _; exact hd.next

theorem LaneInv.setConsumer (h : LaneInv c hole orphan d) (t : Nat) (x : Consumer) :
    LaneInv c hole orphan (d.setTicket t {d.tickets t with consumer := x}) :=
  h.setTicket_same t _ rfl rfl rfl

theorem LaneInv.takeResult (h : LaneInv c hole orphan d) (t : Nat) :
    LaneInv c hole orphan (d.takeResult t) := by
  unfold Dispatcher.takeResult
  dsimp only
  split
  · exact h.setTicket_same t _ rfl rfl rfl
  · exact h.setTicket_same t _ rfl rfl rfl
  · exact (h.setConsumer t .ended).cancel t

theorem LaneInv.discardTicket (h : LaneInv c hole orphan d) (t : Nat) :
    LaneInv c hole orphan (Dispatcher.discard d t) := by
  unfold Dispatcher.discard
  have hd := (h.cancel t).setTicket_same t
    {(d.cancel t).tickets t with consumer := .discarded} rfl rfl rfl
  dsimp only
  split
  · exact hd.settleDropped t _
  · exact hd

theorem LaneInv.settleAction (h : LaneInv c hole orphan d) (t : Nat) (a : OutAction) :
    LaneInv c hole orphan (d.settleAction c t a) := by
  unfold Dispatcher.settleAction
  split
  · exact h
  · exact h.frame rfl rfl ⟨rfl,rfl,rfl,rfl,rfl,rfl⟩

theorem step_laneInv (a : Act) (h : LaneInv c nowhere none d) (hs : step c d a=some d') :
    LaneInv c nowhere none d' := by
  cases a with simp only [step] at hs
  | admitEvent p guarded => exact h.admitEvent p guarded hs
  | wait t =>
    split_ifs at hs
    · exact Option.some.inj hs ▸ h.setTicket_same t _ rfl rfl rfl
    · exact Option.some.inj hs ▸ h.takeResult t
  | waiterCancel t =>
    split_ifs at hs
    · exact Option.some.inj hs ▸ h.setTicket_same t _ rfl rfl rfl
    · exact Option.some.inj hs ▸ h.setTicket_same t _ rfl rfl rfl
  | waiterResume t =>
    split at hs
    · split_ifs at hs
      · exact Option.some.inj hs ▸ (h.setConsumer t .ended).cancel t
      · exact Option.some.inj hs ▸ h.takeResult t
    · cases hs
  | discard t =>
    split_ifs at hs
    exact Option.some.inj hs ▸ h.discardTicket t
  | cancel t =>
    split_ifs at hs
    exact Option.some.inj hs ▸ h.cancel t
  | resultCallback t =>
    split_ifs at hs
    exact Option.some.inj hs ▸ h.cancel t
  | workerLoop w g =>
    split at hs
    · cases hs
    · rename_i x hw
      split_ifs at hs with hx
      · exact Option.some.inj hs ▸ h.endIdle hw hx
      · exact Option.some.inj hs ▸ h.workerLoop hw hx g
  | workerResume w =>
    split at hs
    · cases hs
    · rename_i x hw
      split at hs
      · cases hs
      · rename_i t hx
        split at hs
        · rename_i o _
          obtain ⟨e,b,hr,he,hwe⟩ := h.resumeTicket x t o
          rw [hr] at hs
          cases b with
          | true => exact Option.some.inj hs ▸ he.finishRelease (by rw [hwe]; exact hw) hx
          | false => exact Option.some.inj hs ▸ he.finishEnd (by rw [hwe]; exact hw) hx
        · cases hs
  | workerCancel w =>
    split_ifs at hs
    exact Option.some.inj hs ▸ h.cancelWorkerAt w
  | workerDone =>
    have hd : LaneInv c nowhere none {d with doneCallbacks := d.doneCallbacks-1} :=
      h.frame rfl rfl ⟨rfl,rfl,rfl,rfl,rfl,rfl⟩
    split_ifs at hs
    · exact Option.some.inj hs ▸ hd.ensureWorkers
    · exact Option.some.inj hs ▸ hd
  | operationFinish t o =>
    split at hs
    · split_ifs at hs
      exact Option.some.inj hs ▸ h.setTicket_same t _ rfl rfl rfl
    · cases hs
  | settle i =>
    split at hs
    · rename_i t a rest _
      exact Option.some.inj hs ▸ (h.settleAction t a).frame rfl rfl ⟨rfl,rfl,rfl,rfl,rfl,rfl⟩
    · exact Option.some.inj hs ▸ h.frame rfl rfl ⟨rfl,rfl,rfl,rfl,rfl,rfl⟩
    · cases hs
  | start =>
    split_ifs at hs with hpre
    exact Option.some.inj hs ▸ h.startOnLoop hpre.2.2.1 hpre.2.1
  | stop =>
    split_ifs at hs with hactive hkeys
    · obtain rfl := Option.some.inj hs
      exact ⟨h.lanes,h.schedule,h.inflight,h.capacity,h.workers,h.nodup,h.executing,
        (fun ha => by cases ha),(fun ha => absurd ha hactive),h.offline,h.dormant⟩
    · obtain rfl := Option.some.inj hs
      exact ⟨h.lanes,h.schedule,h.inflight,h.capacity,h.workers,h.nodup,h.executing,
        (fun ha => by cases ha),(fun _ => ⟨rfl,rfl⟩),h.offline,h.dormant⟩
  | stopTimeout =>
    split_ifs at hs
    exact Option.some.inj hs ▸ h.forceStop
  | stopWorkers =>
    split_ifs at hs
    exact Option.some.inj hs ▸ LaneInv.foldl (fun _ w hd => hd.cancelWorkerAt w) _ h
  | stopFail =>
    split_ifs at hs
    obtain rfl := Option.some.inj hs
    exact ⟨h.lanes,h.schedule,h.inflight,h.capacity,h.workers,h.nodup,h.executing,h.online,
      (fun ha => by cases ha),h.offline,h.dormant⟩
  | finalizeStop =>
    split_ifs at hs with hpre
    exact Option.some.inj hs ▸ h.finalizeStop hpre.2.1 hpre.2.2 hpre.1

theorem reach_laneInv {ok : Dispatcher → Act → Prop} (h : Reach (step c) ok Initial d) :
    LaneInv c nowhere none d :=
  h.invariant (fun _ hd => laneInv_initial hd) (fun _ a _ hd _ hs => step_laneInv a hd hs)

def Ticket.isRunning (k : Ticket) : Bool := k.started && !k.finished

structure LaneGuarantee (c : Config) (d : Dispatcher) : Prop where
  fifo : ∀k,(d.startLog.filter (fun t => (d.tickets t).key=k)).Pairwise (· < ·)
  waiting : ∀t<d.next,(d.tickets t).started=false → (d.tickets t).finished=false →
    t∈(d.laneOf (d.tickets t).key).pending ∧ ∀u∈d.startLog,(d.tickets u).key=(d.tickets t).key → u<t
  single : ∀t<d.next,∀u<d.next,(d.tickets t).isRunning=true → (d.tickets u).isRunning=true →
    (d.tickets t).key=(d.tickets u).key → t=u
  inflight : d.inflight=tally (fun k : Ticket => !k.finished) d.tickets d.next
  nonnegative : 0≤d.inflight
  capacity : d.inflight≤c.workerLimit+c.queueLimit
  running : tally Ticket.isRunning d.tickets d.next≤c.workerLimit
  awake : d.accepting=true → ∀k,(d.laneOf k).pending≠[] → (d.laneOf k).running=none →
    d.ready.count k=1

/-- Every interleaving keeps the lanes in order, the counters exact and no lane stranded. -/
theorem dispatcher_lanes (c : Config) (d : Dispatcher) (h : Reach (step c) Free Initial d) :
    LaneGuarantee c d := by
  have hinv := reach_laneInv h
  have hactive (t : Nat) (ht : t<d.next) (hr : (d.tickets t).isRunning=true) :
      (d.laneOf (d.tickets t).key).running=some t := by
    simp only [Ticket.isRunning,Bool.and_eq_true,Bool.not_eq_true'] at hr
    exact (hinv.lanes.active _ t).mpr ⟨ht,rfl,hr.1,hr.2⟩
  have hlive : d.inflight=tally (fun k : Ticket => !k.finished) d.tickets d.next := hinv.inflight
  refine ⟨hinv.lanes.ordered,?_,?_,hlive,?_,?_,?_,?_⟩
  · intro t ht hs hf
    have hp := hinv.ticket_pending ht hs hf
    exact ⟨hp,fun u hu hk => hinv.lanes.ahead u hu t (by
      change t∈(d.laneOf (d.tickets u).key).pending
      rw [hk]; exact hp)⟩
  · intro t ht u hu hrt hru hk
    have h1 := hactive t ht hrt
    have h2 := hactive u hu hru
    rw [hk,h2] at h1
    exact (Option.some.inj h1).symm
  · rw [hlive]; exact Int.natCast_nonneg _
  · have hcap := hinv.capacity
    simpa [Config.capacity] using hcap
  · have hlen := tally_eq_length Ticket.isRunning d.tickets d.next d.executing hinv.nodup (by
      intro t
      rw [hinv.executing t]
      simp [Ticket.isRunning])
    rw [hlen]
    exact (jobs_length_le Worker.current d.workers).trans hinv.workers
  · intro _ k hp hr
    have hready := hinv.schedule.awake k (fun hn => hn) hp hr
    exact List.count_eq_one_of_mem hinv.schedule.nodup ((hinv.schedule.member k).mp hready)

/-- Two events of one user, the first of them running. -/
theorem dispatcher_lanes_example :
    ∃d,execute (step ⟨1,4,false,fun _ => false⟩) Dispatcher.new
      [.start,.admitEvent ⟨some 1,none⟩ false,.admitEvent ⟨some 1,none⟩ false,
        .workerLoop 0 .authorized]=some d ∧ LaneGuarantee ⟨1,4,false,fun _ => false⟩ d := by
  obtain ⟨d,hd⟩ := Option.isSome_iff_exists.mp (by decide :
    (execute (step ⟨1,4,false,fun _ => false⟩) Dispatcher.new
      [.start,.admitEvent ⟨some 1,none⟩ false,.admitEvent ⟨some 1,none⟩ false,
        .workerLoop 0 .authorized]).isSome=true)
  exact ⟨d,hd,dispatcher_lanes _ d (Reach.execute _ (fun _ _ _ => trivial) (.start new_initial) hd)⟩

end XiaoQing.Inbound
