import XiaoQing.OneBot.EventQueues

set_option linter.unusedSectionVars false

namespace XiaoQing.OneBot

open Framework EventClient

def Stage.rank : Stage → Nat
  | .started => 0
  | .taken => 1
  | .queued => 2
  | .inFlight => 3
  | .discarded _ => 4

variable {κ : Type}

namespace EventClient

abbrev keyOf (s : EventClient κ) (e : Nat) : κ := (s.events e).key

abbrev stageOf (s : EventClient κ) (e : Nat) : Stage := (s.events e).stage

end EventClient

def Ordered (s : EventClient κ) : Prop :=
  ∀a < s.next,∀b < s.next,s.keyOf a=s.keyOf b → (s.stageOf a).rank<(s.stageOf b).rank →
    (s.stageOf b).rank<4 → a<b

structure Queues (s : EventClient κ) : Prop where
  queued : ∀k,∀e∈s.queues k,e < s.next ∧ s.keyOf e=k ∧ s.stageOf e=.queued
  kept : ∀e < s.next,s.stageOf e=.queued → e∈s.queues (s.keyOf e)
  sorted : ∀k,(s.queues k).Pairwise (· < ·)
  bound : 0 < s.queueSize → ∀k,(s.queues k).length ≤ s.queueSize

structure Tasks (s : EventClient κ) : Prop where
  registered : ∀w < s.nextWorker,(s.workers w).phase≠.done → s.queueTasks (s.workers w).key=some w
  known : ∀k w,s.queueTasks k=some w → w < s.nextWorker ∧ (s.workers w).key=k

structure Holders (s : EventClient κ) : Prop where
  taken : ∀w < s.nextWorker,∀e,(s.workers w).phase=.taken e →
    e < s.next ∧ s.stageOf e=.taken ∧ s.keyOf e=(s.workers w).key
  held : ∀e < s.next,s.stageOf e=.taken → ∃w < s.nextWorker,(s.workers w).phase=.taken e
  handling : ∀w < s.nextWorker,∀e,(s.workers w).phase=.handling e →
    e < s.next ∧ s.stageOf e=.started ∧ s.keyOf e=(s.workers w).key

structure Log (s : EventClient κ) : Prop where
  mem : ∀e,e∈s.started ↔ e < s.next ∧ s.stageOf e=.started
  nodup : s.started.Nodup
  ordered : s.started.Pairwise (fun a b => s.keyOf a=s.keyOf b → a<b)

structure Flight (s : EventClient κ) : Prop where
  flying : ∀e,s.inFlight=some (e,false) → e < s.next ∧ s.stageOf e=.inFlight ∧
    (s.queueSize=0 ∨ (s.queues (s.keyOf e)).length < s.queueSize)
  landed : ∀e,s.inFlight=some (e,true) → e < s.next
  kept : ∀e < s.next,s.stageOf e=.inFlight → s.inFlight=some (e,false)

def Served (s : EventClient κ) : Prop :=
  s.accepting=true → ∀k,s.queues k≠[] → s.served k=true ∨ ∃e,s.inFlight=some (e,true) ∧ s.keyOf e=k

structure Fates (s : EventClient κ) : Prop where
  auth : ∀e < s.next,(s.events e).auth ≤ s.auth
  rotation : ∀e < s.next,s.stageOf e=.discarded .rotation → (s.events e).auth < s.auth
  stop : ∀e < s.next,s.stageOf e=.discarded .stop → s.accepting=false

def Worker.busy (w : Worker κ) : Bool :=
  match w.phase with
  | .handling _ => true
  | _ => false

structure Permits (s : EventClient κ) : Prop where
  used : s.pending=tally Worker.busy s.workers s.nextWorker+s.keyless
  bound : s.pending ≤ s.maxPending
  positive : 0 < s.maxPending

variable [DecidableEq κ] {s s' : EventClient κ} {k : κ} {e w : Nat} {stage : Stage} {q : List Nat}
  {phase : WorkerPhase}

/-! Writing -/

theorem setStage_stage_self (s : EventClient κ) (e : Nat) (stage : Stage) :
    (s.setStage e stage).stageOf e=stage := by
  simp [EventClient.stageOf,setStage]

theorem setStage_stage_ne {a : Nat} (h : a≠e) : (s.setStage e stage).stageOf a=s.stageOf a := by
  simp [EventClient.stageOf,setStage,h]

theorem setStage_key (s : EventClient κ) (e a : Nat) (stage : Stage) :
    (s.setStage e stage).keyOf a=s.keyOf a := by
  by_cases h : a=e
  · subst a
    simp [EventClient.keyOf,setStage]
  · simp [EventClient.keyOf,setStage,h]

theorem setStage_auth (s : EventClient κ) (e a : Nat) (stage : Stage) :
    ((s.setStage e stage).events a).auth=(s.events a).auth := by
  by_cases h : a=e
  · subst a
    simp [setStage]
  · simp [setStage,h]

theorem setQueue_self (s : EventClient κ) (k : κ) (q : List Nat) : (s.setQueue k q).queues k=q := by
  simp [setQueue]

theorem setQueue_ne {j : κ} (h : j≠k) : (s.setQueue k q).queues j=s.queues j := by
  simp [setQueue,h]

/-! Order -/

theorem Ordered.frame (h : Ordered s) (hn : s'.next=s.next) (he : s'.events=s.events) :
    Ordered s' := by
  simp only [Ordered,EventClient.keyOf,EventClient.stageOf,hn,he]
  exact h

theorem Ordered.discard (h : Ordered s) (why : Discard) : Ordered (s.setStage e (.discarded why)) := by
  intro a ha b hb hk hr h4
  rw [setStage_key,setStage_key] at hk
  by_cases hbe : b=e
  · subst b
    rw [setStage_stage_self] at h4
    exact absurd h4 (by simp [Stage.rank])
  · rw [setStage_stage_ne hbe] at hr h4
    by_cases hae : a=e
    · subst a
      rw [setStage_stage_self] at hr
      have hx : 4<(s.stageOf b).rank := hr
      omega
    · rw [setStage_stage_ne hae] at hr
      exact h a ha b hb hk hr h4

theorem Ordered.advance (h : Ordered s) (he : e < s.next) (hr : (s.stageOf e).rank=stage.rank+1)
    (hpeer : ∀b < s.next,b≠e → s.keyOf b=s.keyOf e → (s.stageOf b).rank=(s.stageOf e).rank → e<b)
    (h4 : (s.stageOf e).rank<4) : Ordered (s.setStage e stage) := by
  intro a ha b hb hk hrank hb4
  rw [setStage_key,setStage_key] at hk
  by_cases hae : a=e
  · subst a
    by_cases hbe : b=e
    · subst b
      omega
    · rw [setStage_stage_self] at hrank
      rw [setStage_stage_ne hbe] at hrank hb4
      by_cases hpass : (s.stageOf e).rank<(s.stageOf b).rank
      · exact h e he b hb hk hpass hb4
      · exact hpeer b hb hbe hk.symm (by omega)
  · rw [setStage_stage_ne hae] at hrank
    by_cases hbe : b=e
    · subst b
      rw [setStage_stage_self] at hrank
      exact h a ha e he hk (by omega) h4
    · rw [setStage_stage_ne hbe] at hrank hb4
      exact h a ha b hb hk hrank hb4

/-! Queues -/

theorem Queues.frame (h : Queues s) (hn : s'.next=s.next) (he : s'.events=s.events)
    (hq : s'.queues=s.queues) (hs : s'.queueSize=s.queueSize) : Queues s' := by
  apply Queues.mk
  · rw [hq]
    simp only [EventClient.keyOf,EventClient.stageOf,hn,he]
    exact h.queued
  · rw [hq]
    simp only [EventClient.keyOf,EventClient.stageOf,hn,he]
    exact h.kept
  · rw [hq]; exact h.sorted
  · rw [hq,hs]; exact h.bound

theorem Queues.aside (h : Queues s) (hold : s.stageOf e≠.queued) (hnew : stage≠.queued) :
    Queues (s.setStage e stage) := by
  apply Queues.mk
  · intro k a ha
    obtain ⟨h1,h2,h3⟩ := h.queued k a ha
    have hne : a≠e := fun hx => hold (hx ▸ h3)
    exact ⟨h1,by rw [setStage_key]; exact h2,by rw [setStage_stage_ne hne]; exact h3⟩
  · intro a ha hs
    rw [setStage_key]
    by_cases hae : a=e
    · subst a
      rw [setStage_stage_self] at hs
      exact absurd hs hnew
    · rw [setStage_stage_ne hae] at hs
      exact h.kept a ha hs
  · exact h.sorted
  · exact h.bound

theorem Queues.pop (h : Queues s) (hq : s.queues k=e::q) (hnew : stage≠.queued) :
    Queues ((s.setStage e stage).setQueue k q) := by
  obtain ⟨_,hkey,_⟩ := h.queued k e (by rw [hq]; exact List.mem_cons_self)
  have hsorted := h.sorted k
  rw [hq,List.pairwise_cons] at hsorted
  have hmem : ∀j,∀a∈((s.setStage e stage).setQueue k q).queues j,a∈s.queues j ∧ a≠e := by
    intro j a ha
    by_cases hj : j=k
    · subst j
      rw [setQueue_self] at ha
      have hlt := hsorted.1 a ha
      exact ⟨by rw [hq]; exact List.mem_cons_of_mem e ha,by omega⟩
    · rw [setQueue_ne hj] at ha
      refine ⟨ha,fun hx => hj ?_⟩
      rw [←(h.queued j a ha).2.1,hx,hkey]
  apply Queues.mk
  · intro j a ha
    obtain ⟨hold,hne⟩ := hmem j a ha
    obtain ⟨h1,h2,h3⟩ := h.queued j a hold
    exact ⟨h1,(setStage_key s e a stage).trans h2,(setStage_stage_ne hne).trans h3⟩
  · intro a ha hs
    show a∈((s.setStage e stage).setQueue k q).queues ((s.setStage e stage).keyOf a)
    have hne : a≠e := by
      intro hx
      subst a
      exact hnew ((setStage_stage_self s e stage).symm.trans hs)
    have hold := h.kept a ha ((setStage_stage_ne hne).symm.trans hs)
    rw [setStage_key]
    by_cases hj : s.keyOf a=k
    · rw [hj,setQueue_self]
      rw [hj,hq] at hold
      exact (List.mem_cons.mp hold).resolve_left hne
    · rw [setQueue_ne hj]
      exact hold
  · intro j
    by_cases hj : j=k
    · subst j
      rw [setQueue_self]
      exact hsorted.2
    · rw [setQueue_ne hj]
      exact h.sorted j
  · intro hpos j
    have hb := h.bound hpos j
    by_cases hj : j=k
    · subst j
      rw [setQueue_self]
      rw [hq,List.length_cons] at hb
      show q.length ≤ s.queueSize
      omega
    · rw [setQueue_ne hj]
      exact hb

theorem Queues.push (h : Queues s) (he : e < s.next) (hold : s.stageOf e≠.queued)
    (hlast : ∀a∈s.queues (s.keyOf e),a<e)
    (hroom : s.queueSize=0 ∨ (s.queues (s.keyOf e)).length < s.queueSize) :
    Queues ((s.setStage e .queued).setQueue (s.keyOf e) (s.queues (s.keyOf e)++[e])) := by
  set k := s.keyOf e with hk
  have hne : ∀j,∀a∈s.queues j,a≠e := fun j a ha hx => hold (hx ▸ (h.queued j a ha).2.2)
  apply Queues.mk
  · intro j a ha
    have hkeep : a∈s.queues j → a < s.next ∧ (s.setStage e .queued).keyOf a=j ∧
        (s.setStage e .queued).stageOf a=.queued := by
      intro ha'
      obtain ⟨h1,h2,h3⟩ := h.queued j a ha'
      exact ⟨h1,(setStage_key s e a .queued).trans h2,(setStage_stage_ne (hne j a ha')).trans h3⟩
    by_cases hj : j=k
    · subst j
      rw [setQueue_self] at ha
      cases List.mem_append.mp ha with
      | inl ha' => exact hkeep ha'
      | inr ha' =>
        rw [List.mem_singleton.mp ha']
        exact ⟨he,setStage_key s e e .queued,setStage_stage_self s e .queued⟩
    · rw [setQueue_ne hj] at ha
      exact hkeep ha
  · intro a ha hs
    show a∈((s.setStage e .queued).setQueue k (s.queues k++[e])).queues ((s.setStage e .queued).keyOf a)
    rw [setStage_key]
    by_cases hae : a=e
    · subst a
      rw [←hk,setQueue_self]
      exact List.mem_append_right _ (List.mem_singleton.mpr rfl)
    · have hold' := h.kept a ha ((setStage_stage_ne hae).symm.trans hs)
      by_cases hj : s.keyOf a=k
      · rw [hj,setQueue_self]
        rw [hj] at hold'
        exact List.mem_append_left _ hold'
      · rw [setQueue_ne hj]
        exact hold'
  · intro j
    by_cases hj : j=k
    · subst j
      rw [setQueue_self,List.pairwise_append]
      exact ⟨h.sorted k,List.pairwise_singleton _ _,fun a ha b hb => by
        rw [List.mem_singleton.mp hb]; exact hlast a ha⟩
    · rw [setQueue_ne hj]
      exact h.sorted j
  · intro hpos j
    by_cases hj : j=k
    · subst j
      rw [setQueue_self,List.length_append,List.length_singleton]
      have hpos' : 0 < s.queueSize := hpos
      show (s.queues k).length+1 ≤ s.queueSize
      omega
    · rw [setQueue_ne hj]
      exact h.bound hpos j

/-! Workers -/

theorem setWorker_self (s : EventClient κ) (w : Nat) (phase : WorkerPhase) :
    (s.setWorker w phase).workers w={s.workers w with phase := phase} := by
  simp [setWorker]

theorem setWorker_ne {v : Nat} (h : v≠w) : (s.setWorker w phase).workers v=s.workers v := by
  simp [setWorker,h]

theorem setWorker_key (s : EventClient κ) (w v : Nat) (phase : WorkerPhase) :
    ((s.setWorker w phase).workers v).key=(s.workers v).key := by
  by_cases h : v=w
  · subst v
    rw [setWorker_self]
  · rw [setWorker_ne h]

theorem setTask_self (s : EventClient κ) (k : κ) (t : Option Nat) :
    (s.setTask k t).queueTasks k=t := by
  simp [setTask]

theorem setTask_ne {j : κ} {t : Option Nat} (h : j≠k) :
    (s.setTask k t).queueTasks j=s.queueTasks j := by
  simp [setTask,h]

theorem spawn_worker_self (s : EventClient κ) (k : κ) :
    (s.spawn k).workers s.nextWorker=⟨k,.waiting⟩ := by
  simp [spawn]

theorem spawn_worker_ne {v : Nat} (h : v≠s.nextWorker) : (s.spawn k).workers v=s.workers v := by
  simp [spawn,h]

theorem spawn_task_self (s : EventClient κ) (k : κ) :
    (s.spawn k).queueTasks k=some s.nextWorker := by
  simp [spawn,setTask]

theorem spawn_task_ne {j : κ} (h : j≠k) : (s.spawn k).queueTasks j=s.queueTasks j := by
  simp [spawn,setTask,h]

theorem Tasks.frame (h : Tasks s) (hn : s'.nextWorker=s.nextWorker) (hw : s'.workers=s.workers)
    (ht : s'.queueTasks=s.queueTasks) : Tasks s' := by
  apply Tasks.mk
  · rw [hn,hw,ht]; exact h.registered
  · rw [hn,hw,ht]; exact h.known

theorem Tasks.unique (h : Tasks s) {v : Nat} (hw : w < s.nextWorker) (hv : v < s.nextWorker)
    (hlw : (s.workers w).phase≠.done) (hlv : (s.workers v).phase≠.done)
    (hk : (s.workers w).key=(s.workers v).key) : w=v := by
  have h1 := h.registered w hw hlw
  have h2 := h.registered v hv hlv
  rw [hk,h2] at h1
  exact (Option.some.inj h1).symm

theorem Tasks.served_of_live (h : Tasks s) (hw : w < s.nextWorker) (hl : (s.workers w).phase≠.done) :
    s.served (s.workers w).key=true := by
  simp [EventClient.served,h.registered w hw hl,hl]

theorem Tasks.setWorker (h : Tasks s) (hw : w < s.nextWorker) (hl : (s.workers w).phase≠.done) :
    Tasks (s.setWorker w phase) := by
  apply Tasks.mk
  · intro v hv hp
    rw [setWorker_key]
    by_cases hvw : v=w
    · subst v
      exact h.registered w hw hl
    · rw [setWorker_ne hvw] at hp
      exact h.registered v hv hp
  · intro k v hk
    rw [setWorker_key]
    exact h.known k v hk

theorem Tasks.spawn (h : Tasks s) (hs : s.served k=false) : Tasks (s.spawn k) := by
  apply Tasks.mk
  · intro v hv hp
    have hv' : v < s.nextWorker+1 := hv
    by_cases hn : v=s.nextWorker
    · subst v
      rw [spawn_worker_self,spawn_task_self]
    · rw [spawn_worker_ne hn] at hp ⊢
      have hlt : v < s.nextWorker := by omega
      have hne : (s.workers v).key≠k := by
        intro he
        have hlive := h.served_of_live hlt hp
        rw [he,hs] at hlive
        cases hlive
      rw [spawn_task_ne hne]
      exact h.registered v hlt hp
  · intro j v hj
    by_cases hjk : j=k
    · subst j
      rw [spawn_task_self] at hj
      rw [←Option.some.inj hj,spawn_worker_self]
      exact ⟨Nat.lt_succ_self _,rfl⟩
    · rw [spawn_task_ne hjk] at hj
      obtain ⟨hlt,hkey⟩ := h.known j v hj
      rw [spawn_worker_ne (by omega)]
      exact ⟨Nat.lt_succ_of_lt hlt,hkey⟩

theorem Tasks.drop (h : Tasks s) (hs : s.served k=false) : Tasks (s.setTask k none) := by
  apply Tasks.mk
  · intro v hv hp
    have hne : (s.workers v).key≠k := by
      intro he
      have hlive := h.served_of_live hv hp
      rw [he,hs] at hlive
      cases hlive
    have hkeep := h.registered v hv hp
    show (s.setTask k none).queueTasks (s.workers v).key=some v
    rw [setTask_ne hne]
    exact hkeep
  · intro j v hj
    by_cases hjk : j=k
    · subst j
      rw [setTask_self] at hj
      cases hj
    · rw [setTask_ne hjk] at hj
      exact h.known j v hj

theorem Tasks.not_served (h : Tasks s) (hw : w < s.nextWorker) (hl : (s.workers w).phase≠.done) :
    (s.setWorker w .done).served (s.workers w).key=false := by
  have ht : (s.setWorker w .done).queueTasks (s.workers w).key=some w := h.registered w hw hl
  simp [EventClient.served,ht,setWorker_self]

theorem retire_eq (h : Tasks s) (hw : w < s.nextWorker) (hl : (s.workers w).phase≠.done) :
    s.retire w=
      if s.queues (s.workers w).key=[] then (s.setWorker w .done).setTask (s.workers w).key none
      else if s.accepting then (s.setWorker w .done).spawn (s.workers w).key
      else (s.setWorker w .done).setTask (s.workers w).key none := by
  have ht : (s.setWorker w .done).queueTasks (s.workers w).key=some w := h.registered w hw hl
  simp only [EventClient.retire]
  rw [if_pos ht]
  rfl

theorem Tasks.retire (h : Tasks s) (hw : w < s.nextWorker) (hl : (s.workers w).phase≠.done) :
    Tasks (s.retire w) := by
  have hdone : Tasks (s.setWorker w .done) := h.setWorker hw hl
  have hs := h.not_served hw hl
  rw [retire_eq h hw hl]
  split_ifs
  · exact hdone.drop hs
  · exact hdone.spawn hs
  · exact hdone.drop hs

/-! Holders -/

theorem Holders.frame (h : Holders s) (hn : s'.next=s.next) (he : s'.events=s.events)
    (hm : s'.nextWorker=s.nextWorker) (hw : s'.workers=s.workers) : Holders s' := by
  apply Holders.mk
  · simp only [EventClient.keyOf,EventClient.stageOf,hn,he,hm,hw]; exact h.taken
  · simp only [EventClient.stageOf,hn,he,hm,hw]; exact h.held
  · simp only [EventClient.keyOf,EventClient.stageOf,hn,he,hm,hw]; exact h.handling

theorem Holders.aside (h : Holders s) (hold : s.stageOf e≠.taken) (hold' : s.stageOf e≠.started)
    (hnew : stage≠.taken) : Holders (s.setStage e stage) := by
  apply Holders.mk
  · intro w hw a ha
    obtain ⟨h1,h2,h3⟩ := h.taken w hw a ha
    have hne : a≠e := fun hx => hold (hx ▸ h2)
    exact ⟨h1,(setStage_stage_ne hne).trans h2,(setStage_key s e a stage).trans h3⟩
  · intro a ha hs
    have hne : a≠e := by
      intro hx
      subst a
      exact hnew ((setStage_stage_self s e stage).symm.trans hs)
    exact h.held a ha ((setStage_stage_ne hne).symm.trans hs)
  · intro w hw a ha
    obtain ⟨h1,h2,h3⟩ := h.handling w hw a ha
    have hne : a≠e := fun hx => hold' (hx ▸ h2)
    exact ⟨h1,(setStage_stage_ne hne).trans h2,(setStage_key s e a stage).trans h3⟩

theorem Holders.rest (h : Holders s) (hold : ∀e,(s.workers w).phase≠.taken e)
    (hnew : phase=.waiting ∨ phase=.done) : Holders (s.setWorker w phase) := by
  have hne {v a : Nat} (hp : ((s.setWorker w phase).workers v).phase=.taken a ∨
      ((s.setWorker w phase).workers v).phase=.handling a) : v≠w := by
    intro hx
    subst v
    rw [setWorker_self] at hp
    cases hnew with
    | inl hnew => simp [hnew] at hp
    | inr hnew => simp [hnew] at hp
  apply Holders.mk
  · intro v hv a ha
    have hvw := hne (Or.inl ha)
    rw [setWorker_ne hvw] at ha ⊢
    exact h.taken v hv a ha
  · intro a ha hs
    obtain ⟨v,hv,hp⟩ := h.held a ha hs
    have hvw : v≠w := fun hx => hold a (hx ▸ hp)
    exact ⟨v,hv,by rw [setWorker_ne hvw]; exact hp⟩
  · intro v hv a ha
    have hvw := hne (Or.inr ha)
    rw [setWorker_ne hvw] at ha ⊢
    exact h.handling v hv a ha

theorem Holders.spawn (h : Holders s) (k : κ) : Holders (s.spawn k) := by
  have hlt {v a : Nat} (hv : v < s.nextWorker+1) (hp : ((s.spawn k).workers v).phase=.taken a ∨
      ((s.spawn k).workers v).phase=.handling a) : v < s.nextWorker ∧ v≠s.nextWorker := by
    by_cases hn : v=s.nextWorker
    · subst v
      rw [spawn_worker_self] at hp
      simp at hp
    · omega
  apply Holders.mk
  · intro v hv a ha
    obtain ⟨hv',hne⟩ := hlt hv (Or.inl ha)
    rw [spawn_worker_ne hne] at ha ⊢
    exact h.taken v hv' a ha
  · intro a ha hs
    obtain ⟨v,hv,hp⟩ := h.held a ha hs
    exact ⟨v,Nat.lt_succ_of_lt hv,by rw [spawn_worker_ne (by omega)]; exact hp⟩
  · intro v hv a ha
    obtain ⟨hv',hne⟩ := hlt hv (Or.inr ha)
    rw [spawn_worker_ne hne] at ha ⊢
    exact h.handling v hv' a ha

theorem Holders.retire (hdone : Holders (s.setWorker w .done)) : Holders (s.retire w) := by
  simp only [EventClient.retire]
  split_ifs
  · exact hdone.frame rfl rfl rfl rfl
  · exact hdone.spawn _
  · exact hdone.frame rfl rfl rfl rfl
  · exact hdone

theorem Holders.take (h : Holders s) (hw : w < s.nextWorker) (hp : (s.workers w).phase=.waiting)
    (he : e < s.next) (hold : s.stageOf e=.queued) (hk : s.keyOf e=(s.workers w).key) :
    Holders ((s.setStage e .taken).setWorker w (.taken e)) := by
  have hstage {a : Nat} (ha : s.stageOf a≠.queued) : a≠e := fun hx => ha (hx ▸ hold)
  apply Holders.mk
  · intro v hv a ha
    by_cases hvw : v=w
    · subst v
      rw [setWorker_self] at ha ⊢
      cases ha
      exact ⟨he,setStage_stage_self s e .taken,(setStage_key s e e .taken).trans hk⟩
    · rw [setWorker_ne hvw] at ha ⊢
      obtain ⟨h1,h2,h3⟩ := h.taken v hv a ha
      have hne := hstage (a := a) (by rw [h2]; simp)
      exact ⟨h1,(setStage_stage_ne hne).trans h2,(setStage_key s e a .taken).trans h3⟩
  · intro a ha hs
    by_cases hae : a=e
    · subst a
      exact ⟨w,hw,by rw [setWorker_self]⟩
    · obtain ⟨v,hv,hpv⟩ := h.held a ha ((setStage_stage_ne hae).symm.trans hs)
      have hvw : v≠w := by
        intro hx
        rw [hx,hp] at hpv
        cases hpv
      exact ⟨v,hv,by rw [setWorker_ne hvw]; exact hpv⟩
  · intro v hv a ha
    have hvw : v≠w := by
      intro hx
      subst v
      rw [setWorker_self] at ha
      cases ha
    rw [setWorker_ne hvw] at ha ⊢
    obtain ⟨h1,h2,h3⟩ := h.handling v hv a ha
    have hne := hstage (a := a) (by rw [h2]; simp)
    exact ⟨h1,(setStage_stage_ne hne).trans h2,(setStage_key s e a .taken).trans h3⟩

theorem Holders.release (h : Holders s) (ht : Tasks s) (hw : w < s.nextWorker)
    (hp : (s.workers w).phase=.taken e)
    (hnew : stage=.started ∧ phase=.handling e ∨
      (∃why,stage=.discarded why) ∧ (phase=.waiting ∨ phase=.done)) :
    Holders ((s.setStage e stage).setWorker w phase) := by
  obtain ⟨he,hold,hk⟩ := h.taken w hw e hp
  have hsole {v : Nat} (hv : v < s.nextWorker) (hpv : (s.workers v).phase=.taken e) : v=w := by
    apply ht.unique hv hw
    · simp [hpv]
    · simp [hp]
    · rw [←(h.taken v hv e hpv).2.2,hk]
  have hnot : stage≠.taken := by
    rcases hnew with ⟨hs,_⟩ | ⟨⟨why,hs⟩,_⟩
    · simp [hs]
    · simp [hs]
  have hnottaken {a : Nat} : phase≠.taken a := by
    rcases hnew with ⟨_,hs⟩ | ⟨_,hs | hs⟩
    · simp [hs]
    · simp [hs]
    · simp [hs]
  apply Holders.mk
  · intro v hv a ha
    have hvw : v≠w := by
      intro hx
      subst v
      rw [setWorker_self] at ha
      exact hnottaken ha
    rw [setWorker_ne hvw] at ha ⊢
    obtain ⟨h1,h2,h3⟩ := h.taken v hv a ha
    have hae : a≠e := fun hx => hvw (hsole hv (hx ▸ ha))
    exact ⟨h1,(setStage_stage_ne hae).trans h2,(setStage_key s e a stage).trans h3⟩
  · intro a ha hs
    have hae : a≠e := by
      intro hx
      subst a
      exact hnot ((setStage_stage_self s e stage).symm.trans hs)
    obtain ⟨v,hv,hpv⟩ := h.held a ha ((setStage_stage_ne hae).symm.trans hs)
    have hvw : v≠w := by
      intro hx
      rw [hx,hp] at hpv
      exact hae (WorkerPhase.taken.inj hpv).symm
    exact ⟨v,hv,by rw [setWorker_ne hvw]; exact hpv⟩
  · intro v hv a ha
    by_cases hvw : v=w
    · subst v
      rw [setWorker_self] at ha ⊢
      have hphase : phase=.handling a := ha
      rcases hnew with ⟨hs,hs'⟩ | ⟨_,hs | hs⟩
      · rw [hs'] at hphase
        cases hphase
        exact ⟨he,(setStage_stage_self s e stage).trans hs,(setStage_key s e e stage).trans hk⟩
      · rw [hs] at hphase
        cases hphase
      · rw [hs] at hphase
        cases hphase
    · rw [setWorker_ne hvw] at ha ⊢
      obtain ⟨h1,h2,h3⟩ := h.handling v hv a ha
      have hae : a≠e := by
        intro hx
        rw [hx,hold] at h2
        cases h2
      exact ⟨h1,(setStage_stage_ne hae).trans h2,(setStage_key s e a stage).trans h3⟩

end XiaoQing.OneBot
