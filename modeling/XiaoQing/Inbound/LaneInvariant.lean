import XiaoQing.Inbound.Dispatcher
import XiaoQing.Framework.Lanes

namespace XiaoQing.Inbound

open Function (update update_eq_self update_of_ne update_self)

open Framework Delivery

namespace Dispatcher

def view (d : Dispatcher) : Lanes EventKey where
  next := d.next
  key := fun t => (d.tickets t).key
  started := fun t => (d.tickets t).started
  finished := fun t => (d.tickets t).finished
  pending := fun k => (d.laneOf k).pending
  running := fun k => (d.laneOf k).running
  ready := fun k => (d.laneOf k).ready
  queue := d.ready
  startLog := d.startLog

def executing (d : Dispatcher) : List Nat := jobs Worker.current d.workers

end Dispatcher

open Dispatcher

/-- The lane invariant of the dispatcher; `hole` are keys about to be rescheduled, `orphan`
is a ticket marked running that no worker holds at the moment. -/
structure LaneInv (c : Config) (hole : EventKey → Prop) (orphan : Option Nat)
    (d : Dispatcher) : Prop where
  lanes : d.view.Consistent
  schedule : d.view.Scheduled hole
  inflight : d.inflight=d.view.live
  capacity : d.inflight≤c.capacity
  workers : d.workers.length≤c.workerLimit
  nodup : d.executing.Nodup
  executing : ∀t,t∈d.executing ↔
    t<d.next ∧ (d.tickets t).started=true ∧ (d.tickets t).finished=false ∧ orphan≠some t
  online : d.accepting=true → d.readyKeys≠none ∧ d.startedOnce=true
  halted : d.stopActive=true → d.accepting=false ∧ d.stopping=true
  offline : d.readyKeys=none → d.inflight=0
  dormant : d.startedOnce=false → d.next=0

abbrev nowhere (_ : EventKey) : Prop := False

structure SameRest (d d' : Dispatcher) : Prop where
  workers : d'.workers=d.workers
  readyKeys : d'.readyKeys=d.readyKeys
  accepting : d'.accepting=d.accepting
  startedOnce : d'.startedOnce=d.startedOnce
  stopping : d'.stopping=d.stopping
  stopActive : d'.stopActive=d.stopActive

variable {c : Config} {d d' : Dispatcher} {hole : EventKey → Prop} {orphan : Option Nat}
  {k : EventKey} {t : Nat}

/-! Lanes as a total function -/

@[simp] theorem laneOf_setLane_self (d : Dispatcher) (k : EventKey) (lane : Lane) :
    (d.setLane k lane).laneOf k=lane := by
  simp [laneOf,setLane]

theorem laneOf_setLane_ne (d : Dispatcher) (lane : Lane) {j : EventKey} (h : j≠k) :
    (d.setLane k lane).laneOf j=d.laneOf j := by
  simp [laneOf,setLane,h]

@[simp] theorem laneOf_discard (d : Dispatcher) (k j : EventKey) :
    (d.discardLaneIfIdle k).laneOf j=d.laneOf j := by
  unfold discardLaneIfIdle
  dsimp only
  split_ifs with h
  · obtain ⟨hp,hr,hy⟩ := h
    by_cases hj : j=k
    · subst j
      have hnone : (d.lanes.erase k).lookup k=none := AList.lookup_erase k d.lanes
      change ((d.lanes.erase k).lookup k).getD .empty=_
      rw [hnone]
      cases hl : d.laneOf k with
      | mk p r y => rw [hl] at hp hr hy; simp_all [Lane.empty]
    · change ((d.lanes.erase k).lookup j).getD .empty=_
      rw [AList.lookup_erase_ne hj]
      rfl
  · rfl

theorem view_setLane (d : Dispatcher) (k : EventKey) (lane : Lane) :
    (d.setLane k lane).view={d.view with
      pending := update d.view.pending k lane.pending
      running := update d.view.running k lane.running
      ready := update d.view.ready k lane.ready} := by
  have h (j : EventKey) : (d.setLane k lane).laneOf j=if j=k then lane else d.laneOf j := by
    by_cases hj : j=k
    · subst j; simp
    · rw [laneOf_setLane_ne d lane hj,if_neg hj]
  simp only [view,Lanes.mk.injEq]
  refine ⟨rfl,rfl,rfl,rfl,?_,?_,?_,rfl,rfl⟩
  all_goals
    funext j
    rw [h]
    by_cases hj : j=k <;> simp [hj]

theorem view_setTicket (d : Dispatcher) (t : Nat) (x : Ticket) :
    (d.setTicket t x).view={d.view with
      key := update d.view.key t x.key
      started := update d.view.started t x.started
      finished := update d.view.finished t x.finished} := by
  simp only [view,Lanes.mk.injEq]
  refine ⟨rfl,?_,?_,?_,rfl,rfl,rfl,rfl,rfl⟩
  all_goals
    funext u
    by_cases hu : u=t
    · subst u; simp [setTicket]
    · simp [setTicket,hu]

theorem view_setTicket_same (d : Dispatcher) (t : Nat) (x : Ticket)
    (hk : x.key=(d.tickets t).key) (hs : x.started=(d.tickets t).started)
    (hf : x.finished=(d.tickets t).finished) : (d.setTicket t x).view=d.view := by
  rw [view_setTicket,hk,hs,hf]
  simp only [view,Lanes.mk.injEq,and_true,true_and]
  exact ⟨update_eq_self t _,update_eq_self t _,update_eq_self t _⟩

@[simp] theorem view_discard (d : Dispatcher) (k : EventKey) :
    (d.discardLaneIfIdle k).view=d.view := by
  have hrest : (d.discardLaneIfIdle k).next=d.next ∧ (d.discardLaneIfIdle k).tickets=d.tickets ∧
      (d.discardLaneIfIdle k).ready=d.ready ∧ (d.discardLaneIfIdle k).startLog=d.startLog := by
    unfold discardLaneIfIdle; dsimp only; split_ifs <;> exact ⟨rfl,rfl,rfl,rfl⟩
  simp [view,hrest]

/-! Transfer of the invariant -/

theorem SameRest.executing (h : SameRest d d') : d'.executing=d.executing := by
  unfold Dispatcher.executing; rw [h.workers]

theorem LaneInv.frame (h : LaneInv c hole orphan d) (hv : d'.view=d.view)
    (hi : d'.inflight=d.inflight) (hs : SameRest d d') : LaneInv c hole orphan d' := by
  have hn : d'.next=d.next := congrArg Lanes.next hv
  have hst (t : Nat) : (d'.tickets t).started=(d.tickets t).started :=
    congrFun (congrArg Lanes.started hv) t
  have hfi (t : Nat) : (d'.tickets t).finished=(d.tickets t).finished :=
    congrFun (congrArg Lanes.finished hv) t
  refine ⟨hv ▸ h.lanes,hv ▸ h.schedule,by rw [hi,hv]; exact h.inflight,
    by rw [hi]; exact h.capacity,by rw [hs.workers]; exact h.workers,
    by rw [hs.executing]; exact h.nodup,?_,by rw [hs.accepting,hs.readyKeys,hs.startedOnce]; exact h.online,
    by rw [hs.stopActive,hs.accepting,hs.stopping]; exact h.halted,
    by rw [hs.readyKeys,hi]; exact h.offline,by rw [hs.startedOnce,hn]; exact h.dormant⟩
  intro t
  rw [hs.executing,hn,hst,hfi]
  exact h.executing t

theorem LaneInv.setTicket_same (h : LaneInv c hole orphan d) (t : Nat) (x : Ticket)
    (hk : x.key=(d.tickets t).key) (hs : x.started=(d.tickets t).started)
    (hf : x.finished=(d.tickets t).finished) : LaneInv c hole orphan (d.setTicket t x) :=
  h.frame (view_setTicket_same d t x hk hs hf) rfl ⟨rfl,rfl,rfl,rfl,rfl,rfl⟩

theorem LaneInv.setResult (h : LaneInv c hole orphan d) (t : Nat) (r : ResultFuture) :
    LaneInv c hole orphan (d.setResult t r) := by
  unfold Dispatcher.setResult
  dsimp only
  split_ifs
  · exact h.setTicket_same t _ rfl rfl rfl
  · exact h

theorem LaneInv.settleDropped (h : LaneInv c hole orphan d) (t : Nat) (l : List OutAction) :
    LaneInv c hole orphan (d.settleDropped t l) := by
  have hd := h.setTicket_same t {d.tickets t with drops := (d.tickets t).drops+1} rfl rfl rfl
  unfold Dispatcher.settleDropped
  dsimp only
  split_ifs
  · exact hd
  · exact hd.frame rfl rfl ⟨rfl,rfl,rfl,rfl,rfl,rfl⟩

theorem discard_rest (d : Dispatcher) (k : EventKey) :
    SameRest d (d.discardLaneIfIdle k) ∧ (d.discardLaneIfIdle k).inflight=d.inflight := by
  unfold discardLaneIfIdle
  dsimp only
  split_ifs <;> exact ⟨⟨rfl,rfl,rfl,rfl,rfl,rfl⟩,rfl⟩

theorem LaneInv.discard (h : LaneInv c hole orphan d) (k : EventKey) :
    LaneInv c hole orphan (d.discardLaneIfIdle k) :=
  h.frame (view_discard d k) (discard_rest d k).2 (discard_rest d k).1

theorem LaneInv.setWorkers (h : LaneInv c hole orphan d) (ws : List Worker)
    (hj : jobs Worker.current ws=d.executing) (hl : ws.length≤c.workerLimit) :
    LaneInv c hole orphan {d with workers := ws} :=
  ⟨h.lanes,h.schedule,h.inflight,h.capacity,hl,by
    change (jobs Worker.current ws).Nodup; rw [hj]; exact h.nodup,by
    intro t; change t∈jobs Worker.current ws ↔ _; rw [hj]; exact h.executing t,
    h.online,h.halted,h.offline,h.dormant⟩

theorem LaneInv.orphaned (h : LaneInv c hole none d) (ws : List Worker)
    (hn : (jobs Worker.current ws).Nodup)
    (hj : ∀u,u∈jobs Worker.current ws ↔ u∈d.executing ∧ u≠t)
    (hl : ws.length≤c.workerLimit) : LaneInv c hole (some t) {d with workers := ws} := by
  refine ⟨h.lanes,h.schedule,h.inflight,h.capacity,hl,hn,?_,h.online,h.halted,h.offline,h.dormant⟩
  intro u
  change u∈jobs Worker.current ws ↔ _
  rw [hj,h.executing]
  simp only [ne_eq,Option.some.injEq,reduceCtorEq,not_false_eq_true,and_true,eq_comm (a := t)]
  tauto

theorem LaneInv.adopted (h : LaneInv c hole (some t) d) (ws : List Worker)
    (hn : (jobs Worker.current ws).Nodup)
    (hj : ∀u,u∈jobs Worker.current ws ↔ u=t ∨ u∈d.executing)
    (hl : ws.length≤c.workerLimit) (ht : t<d.next) (hs : (d.tickets t).started=true)
    (hf : (d.tickets t).finished=false) : LaneInv c hole none {d with workers := ws} := by
  refine ⟨h.lanes,h.schedule,h.inflight,h.capacity,hl,hn,?_,h.online,h.halted,h.offline,h.dormant⟩
  intro u
  change u∈jobs Worker.current ws ↔ _
  rw [hj,h.executing]
  simp only [ne_eq,Option.some.injEq,reduceCtorEq,not_false_eq_true,and_true]
  constructor
  · rintro (rfl | hu)
    · exact ⟨ht,hs,hf⟩
    · exact ⟨hu.1,hu.2.1,hu.2.2.1⟩
  · rintro ⟨h1,h2,h3⟩
    by_cases hu : u=t
    · exact Or.inl hu
    · exact Or.inr ⟨h1,h2,h3,fun he => hu he.symm⟩

theorem LaneInv.close (h : LaneInv c (fun j => hole j ∨ j=k) orphan d)
    (hk : (d.laneOf k).pending=[] ∨ (d.laneOf k).running≠none) : LaneInv c hole orphan d :=
  {h with schedule := h.schedule.close (by
    rcases hk with hk | hk
    · exact Or.inl hk
    · exact Or.inr (Or.inl hk))}

theorem jobs_append_fresh (ws : List Worker) (n : Nat) :
    jobs Worker.current (ws++List.replicate n .fresh)=jobs Worker.current ws := by
  simp only [jobs,List.filterMap_append,List.append_right_eq_self]
  rw [List.filterMap_eq_nil_iff]
  intro x hx
  rw [(List.mem_replicate.mp hx).2]
  rfl

theorem LaneInv.ensureWorkers (h : LaneInv c hole orphan d) :
    LaneInv c hole orphan (d.ensureWorkers c) := by
  unfold Dispatcher.ensureWorkers
  split
  · exact h
  · have hl := h.workers
    refine h.setWorkers _ (jobs_append_fresh _ _) ?_
    simp only [List.length_append,List.length_replicate]
    omega

theorem LaneInv.scheduleLane (h : LaneInv c (fun j => hole j ∨ j=k) orphan d) (spawn : Bool)
    (hr : d.readyKeys≠none) : LaneInv c hole orphan (d.scheduleLane c spawn k) := by
  unfold Dispatcher.scheduleLane
  dsimp only
  by_cases hskip : (d.laneOf k).ready=true ∨ (d.laneOf k).running≠none ∨ (d.laneOf k).pending=[]
  · rw [if_pos hskip]
    refine {h with schedule := h.schedule.close ?_}
    change (d.laneOf k).pending=[] ∨ (d.laneOf k).running≠none ∨ (d.laneOf k).ready=true
    tauto
  · rw [if_neg hskip]
    simp only [not_or] at hskip
    have hready : d.view.ready k=false := by
      have := hskip.1
      change (d.laneOf k).ready=false
      simpa using this
    split
    · rename_i hkeys
      exact absurd hkeys hr
    · rename_i ready hkeys
      have hq : d.ready=ready := by simp [Dispatcher.ready,hkeys]
      have hv : ({d.setLane k {d.laneOf k with ready := true} with
          readyKeys := some (ready++[k])} : Dispatcher).view=d.view.schedule k := by
        have hs := view_setLane d k {d.laneOf k with ready := true}
        have hp : update d.view.pending k (d.laneOf k).pending=d.view.pending :=
          update_eq_self k d.view.pending
        have hn : update d.view.running k (d.laneOf k).running=d.view.running :=
          update_eq_self k d.view.running
        change {(d.setLane k {d.laneOf k with ready := true}).view with
          queue := ready++[k]}=_
        rw [hs]
        simp only [hp,hn,Lanes.schedule]
        rw [←hq]
        rfl
      have hinv : LaneInv c hole orphan {d.setLane k {d.laneOf k with ready := true} with
          readyKeys := some (ready++[k])} := by
        refine ⟨by rw [hv]; exact h.lanes.schedule k,?_,by rw [hv]; exact h.inflight,h.capacity,
          h.workers,h.nodup,h.executing,fun ha => ⟨by simp,(h.online ha).2⟩,h.halted,
          fun hn => by simp at hn,h.dormant⟩
        rw [hv]
        exact (h.schedule.schedule hready).mono (by tauto)
      split_ifs
      · exact hinv.ensureWorkers
      · exact hinv

/-! The ticket transitions -/

theorem LaneInv.ticket_pending (h : LaneInv c hole orphan d) (ht : t<d.next)
    (hs : (d.tickets t).started=false) (hf : (d.tickets t).finished=false) :
    t∈(d.laneOf (d.tickets t).key).pending := (h.lanes.queued _ t).mpr ⟨ht,rfl,hs,hf⟩

theorem LaneInv.awake_of_live (h : LaneInv c hole orphan d) (hl : 0<d.view.live) :
    d.readyKeys≠none := by
  intro hn
  have h1 := h.offline hn
  have h2 := h.inflight
  omega

theorem Lanes.live_pos {s : Lanes EventKey} (ht : t < s.next) (hf : s.finished t=false) :
    0 < s.live := tally_pos _ _ _ t ht (by rw [hf]; rfl)

theorem LaneInv.ofRemove (h : LaneInv c hole orphan d)
    (ht : t∈(d.laneOf (d.tickets t).key).pending) (hv : d'.view=d.view.remove t)
    (hi : d'.inflight=d.inflight-1) (hr : SameRest d d') : LaneInv c hole orphan d' := by
  obtain ⟨hlt,_,hst,hfin⟩ := (h.lanes.queued _ t).mp ht
  have hlive := h.lanes.live_remove ht
  have hinf := h.inflight
  have hcap := h.capacity
  have hn : d'.next=d.next := congrArg Lanes.next hv
  have hst' (u : Nat) : (d'.tickets u).started=(d.tickets u).started :=
    congrFun (congrArg Lanes.started hv) u
  have hfi' (u : Nat) : (d'.tickets u).finished=
      update (fun v => (d.tickets v).finished) t true u :=
    congrFun (congrArg Lanes.finished hv) u
  refine ⟨hv ▸ h.lanes.remove ht,?_,by rw [hi,hv]; omega,by omega,by rw [hr.workers]; exact h.workers,
    by rw [hr.executing]; exact h.nodup,?_,by rw [hr.accepting,hr.readyKeys,hr.startedOnce]; exact h.online,
    by rw [hr.stopActive,hr.accepting,hr.stopping]; exact h.halted,
    fun hnone => ?_,by rw [hr.startedOnce,hn]; exact h.dormant⟩
  · rw [hv]
    refine h.schedule.shrink rfl rfl rfl ?_
    intro j hj
    by_cases hjk : j=d.view.key t
    · subst j; simp [Lanes.remove,hj]
    · simpa [Lanes.remove,hjk] using hj
  · intro u
    rw [hr.executing,hn,hst',hfi',h.executing]
    by_cases hu : u=t
    · subst u
      have hst : (d.tickets t).started=false := hst
      simp [hst]
    · rw [update_of_ne hu]
  · rw [hr.readyKeys] at hnone
    exact absurd hnone (h.awake_of_live (by omega))

theorem LaneInv.ofFinish (h : LaneInv c nowhere (some t) d)
    (ht : (d.laneOf (d.tickets t).key).running=some t) (hv : d'.view=d.view.finish t)
    (hi : d'.inflight=d.inflight-1) (hr : SameRest d d') :
    LaneInv c (fun j => nowhere j ∨ j=(d.tickets t).key) none d' := by
  have hlive := h.lanes.live_finish ht
  have hinf := h.inflight
  have hcap := h.capacity
  have hn : d'.next=d.next := congrArg Lanes.next hv
  have hst' (u : Nat) : (d'.tickets u).started=(d.tickets u).started :=
    congrFun (congrArg Lanes.started hv) u
  have hfi' (u : Nat) : (d'.tickets u).finished=
      update (fun v => (d.tickets v).finished) t true u :=
    congrFun (congrArg Lanes.finished hv) u
  refine ⟨hv ▸ h.lanes.finish ht,?_,by rw [hi,hv]; omega,by omega,by rw [hr.workers]; exact h.workers,
    by rw [hr.executing]; exact h.nodup,?_,by rw [hr.accepting,hr.readyKeys,hr.startedOnce]; exact h.online,
    by rw [hr.stopActive,hr.accepting,hr.stopping]; exact h.halted,
    fun hnone => ?_,by rw [hr.startedOnce,hn]; exact h.dormant⟩
  · rw [hv]
    refine h.schedule.local _ rfl rfl (fun j _ => rfl) ?_
    intro j hj
    exact update_of_ne hj _ _
  · intro u
    rw [hr.executing,hn,hst',hfi',h.executing]
    by_cases hu : u=t
    · subst u; simp
    · rw [update_of_ne hu]
      simp [Ne.symm hu]
  · rw [hr.readyKeys] at hnone
    exact absurd hnone (h.awake_of_live (by omega))

theorem LaneInv.ofStart {rest : List Nat} (h : LaneInv c (fun j => nowhere j ∨ j=k) none d)
    (hp : (d.laneOf k).pending=t::rest) (hn : (d.laneOf k).running=none)
    (hv : d'.view=d.view.start k t rest) (hi : d'.inflight=d.inflight) (hr : SameRest d d') :
    LaneInv c nowhere (some t) d' := by
  obtain ⟨hlt,hkey,hst,hfin⟩ := (h.lanes.queued k t).mp (by
    change t∈(d.laneOf k).pending; rw [hp]; simp)
  have hnext : d'.next=d.next := congrArg Lanes.next hv
  have hst' (u : Nat) : (d'.tickets u).started=
      update (fun v => (d.tickets v).started) t true u :=
    congrFun (congrArg Lanes.started hv) u
  have hfi' (u : Nat) : (d'.tickets u).finished=(d.tickets u).finished :=
    congrFun (congrArg Lanes.finished hv) u
  have hlane : LaneInv c (fun j => nowhere j ∨ j=k) (some t) d' := by
    refine ⟨hv ▸ h.lanes.start hp hn,?_,by rw [hi,hv]; exact h.inflight,by rw [hi]; exact h.capacity,
      by rw [hr.workers]; exact h.workers,by rw [hr.executing]; exact h.nodup,?_,
      by rw [hr.accepting,hr.readyKeys,hr.startedOnce]; exact h.online,
    by rw [hr.stopActive,hr.accepting,hr.stopping]; exact h.halted,by rw [hr.readyKeys,hi]; exact h.offline,
      by rw [hr.startedOnce,hnext]; exact h.dormant⟩
    · have hlocal : (d.view.start k t rest).Scheduled (fun j => (nowhere j ∨ j=k) ∨ j=k) :=
        h.schedule.local k rfl rfl (fun j hj => update_of_ne hj _ _)
          (fun j hj => update_of_ne hj _ _)
      rw [hv]
      exact hlocal.mono (by tauto)
    · intro u
      rw [hr.executing,hnext,hst',hfi',h.executing]
      by_cases hu : u=t
      · subst u
        have hst : (d.tickets t).started=false := hst
        simp [hst]
      · rw [update_of_ne hu]
        simp [Ne.symm hu]
  refine hlane.close (Or.inr ?_)
  have hrun : d'.view.running k=some t := by rw [hv]; exact update_self _ _ _
  change d'.view.running k≠none
  rw [hrun]; simp

theorem LaneInv.ofPush (h : LaneInv c nowhere none d) (hcap : d.inflight<c.capacity)
    (hv : d'.view=d.view.push k) (hi : d'.inflight=d.inflight+1) (hr : SameRest d d')
    (hon : d.readyKeys≠none) (hso : d.startedOnce=true) :
    LaneInv c (fun j => nowhere j ∨ j=k) none d' := by
  have hlive := Lanes.live_push d.view k
  have hinf := h.inflight
  have hnext : d'.next=d.next+1 := congrArg Lanes.next hv
  have hst' (u : Nat) : (d'.tickets u).started=
      update (fun v => (d.tickets v).started) d.next false u :=
    congrFun (congrArg Lanes.started hv) u
  have hfi' (u : Nat) : (d'.tickets u).finished=
      update (fun v => (d.tickets v).finished) d.next false u :=
    congrFun (congrArg Lanes.finished hv) u
  refine ⟨hv ▸ h.lanes.push k,?_,by rw [hi,hv]; push_cast [hlive]; omega,by omega,
    by rw [hr.workers]; exact h.workers,by rw [hr.executing]; exact h.nodup,?_,
    by rw [hr.accepting,hr.readyKeys,hr.startedOnce]; exact h.online,
    by rw [hr.stopActive,hr.accepting,hr.stopping]; exact h.halted,
    fun hnone => absurd (hr.readyKeys ▸ hnone) hon,
    fun hs => by rw [hr.startedOnce,hso] at hs; cases hs⟩
  · rw [hv]
    refine h.schedule.local k rfl rfl (fun j hj => ?_) (fun j _ => rfl)
    exact update_of_ne hj _ _
  · intro u
    rw [hr.executing,hnext,hst',hfi',h.executing]
    by_cases hu : u=d.next
    · subst u; simp
    · rw [update_of_ne hu,update_of_ne hu]
      have hlt : u<d.next ↔ u<d.next+1 := by omega
      rw [hlt]

theorem LaneInv.ofDequeue {rest : List EventKey} (h : LaneInv c nowhere none d)
    (hq : d.ready=k::rest) (hv : d'.view=d.view.dequeue k rest) (hi : d'.inflight=d.inflight)
    (hk : d'.readyKeys≠none) (hr : SameRest {d with readyKeys := d'.readyKeys} d') :
    LaneInv c (fun j => nowhere j ∨ j=k) none d' := by
  have he : d'.executing=d.executing := hr.executing
  have hnext : d'.next=d.next := congrArg Lanes.next hv
  have hst' (u : Nat) : (d'.tickets u).started=(d.tickets u).started :=
    congrFun (congrArg Lanes.started hv) u
  have hfi' (u : Nat) : (d'.tickets u).finished=(d.tickets u).finished :=
    congrFun (congrArg Lanes.finished hv) u
  refine ⟨hv ▸ h.lanes.dequeue k rest,by rw [hv]; exact h.schedule.dequeue hq,
    by rw [hi,hv]; exact h.inflight,by rw [hi]; exact h.capacity,by rw [hr.workers]; exact h.workers,
    by rw [he]; exact h.nodup,?_,
    fun ha => ⟨hk,hr.startedOnce.trans (h.online (hr.accepting ▸ ha)).2⟩,
    by rw [hr.stopActive,hr.accepting,hr.stopping]; exact h.halted,fun hn => absurd hn hk,
    by rw [hr.startedOnce,hnext]; exact h.dormant⟩
  intro u
  rw [he,hnext,hst',hfi',h.executing]

theorem LaneInv.ofClear (h : LaneInv c nowhere none d) (hi : d.inflight=0)
    (hl : d'.lanes=∅) (hq : d'.ready=[]) (ht : d'.tickets=d.tickets) (hn : d'.next=d.next)
    (hlog : d'.startLog=d.startLog) (hi' : d'.inflight=0) (hw : d'.workers=d.workers)
    (hon : d'.accepting=true → d'.readyKeys≠none ∧ d'.startedOnce=true)
    (hhalt : d'.stopActive=true → d'.accepting=false ∧ d'.stopping=true) (hdor : d'.startedOnce=false → d'.next=0) :
    LaneInv c nowhere none d' := by
  have hlive : d.view.live=0 := by have := h.inflight; omega
  have hall : ∀u<d.next,(d.tickets u).finished=true := by
    intro u hu
    have hu : (!(d.tickets u).finished)=false := (tally_eq_zero _ _ _).mp hlive u hu
    simpa using hu
  have hlane (j : EventKey) : d'.laneOf j=.empty := by
    simp only [laneOf,hl,AList.lookup_empty,Option.getD_none]
  have hv : d'.view={d.view with
      pending := fun _ => [],running := fun _ => none,ready := fun _ => false,queue := []} := by
    simp only [view,Lanes.mk.injEq,hn,ht,hlog,hq,true_and,and_true]
    exact ⟨funext fun j => by rw [hlane]; rfl,funext fun j => by rw [hlane]; rfl,
      funext fun j => by rw [hlane]; rfl⟩
  have he : d'.executing=d.executing := by unfold Dispatcher.executing; rw [hw]
  have hcap := h.capacity
  refine ⟨?_,?_,?_,by omega,by rw [hw]; exact h.workers,by rw [he]; exact h.nodup,?_,hon,
    hhalt,fun _ => hi',hdor⟩
  · rw [hv]
    refine ⟨fun _ => List.Pairwise.nil,fun j u => ?_,fun j u => ?_,h.lanes.logged,h.lanes.ordered,
      fun _ _ u hu => by cases hu⟩
    · refine iff_of_false (by simp) ?_
      rintro ⟨hu,_,_,hf⟩
      have hf : (d.tickets u).finished=false := hf
      rw [hall u hu] at hf; cases hf
    · refine iff_of_false (by simp) ?_
      rintro ⟨hu,_,_,hf⟩
      have hf : (d.tickets u).finished=false := hf
      rw [hall u hu] at hf; cases hf
  · rw [hv]
    exact ⟨fun j => by simp,List.nodup_nil,fun j _ hp => absurd rfl hp⟩
  · rw [hi',hv]
    change (0 : Int)=(d.view.live : Int)
    rw [hlive]; rfl
  · intro u
    rw [he,hn,ht]
    exact h.executing u

end XiaoQing.Inbound
