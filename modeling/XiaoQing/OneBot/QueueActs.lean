import XiaoQing.OneBot.QueueRun

set_option linter.unusedSectionVars false

namespace XiaoQing.OneBot

open Framework EventClient

variable {κ : Type} [DecidableEq κ]

structure QueueInv (s : EventClient κ) : Prop where
  ordered : Ordered s
  queues : Queues s
  tasks : Tasks s
  holders : Holders s
  log : Log s
  flight : Flight s
  served : Served s
  fates : Fates s
  permits : Permits s

variable {s s' : EventClient κ} {k : κ} {e w auth : Nat} {stage : Stage} {phase : WorkerPhase}

theorem QueueInv.initial (h : Initial s) : QueueInv s := by
  have hn := h.next
  have hw := h.nextWorker
  have hq := h.queues
  have hf := h.inFlight
  constructor
  · intro a ha
    omega
  · apply Queues.mk
    · simp [hq]
    · intro a ha
      omega
    · simp [hq]
    · simp [hq]
  · apply Tasks.mk
    · intro v hv
      omega
    · simp [h.queueTasks]
  · apply Holders.mk
    · intro v hv
      omega
    · intro a ha
      omega
    · intro v hv
      omega
  · apply Log.mk
    · simp [h.started,hn]
    · simp [h.started]
    · simp [h.started]
  · apply Flight.mk
    · simp [hf]
    · simp [hf]
    · intro a ha
      omega
  · intro _ j hj
    exact absurd (hq j) hj
  · apply Fates.mk
    · intro a ha
      omega
    · intro a ha
      omega
    · intro a ha
      omega
  · apply Permits.mk
    · rw [hw,h.pending,h.keyless,tally_zero]
    · rw [h.pending]
      exact Nat.zero_le _
    · exact h.capacity

theorem QueueInv.frame (h : QueueInv s) (hn : s'.next=s.next) (he : s'.events=s.events)
    (hq : s'.queues=s.queues) (hs : s'.queueSize=s.queueSize) (hm : s'.nextWorker=s.nextWorker)
    (hw : s'.workers=s.workers) (ht : s'.queueTasks=s.queueTasks) (hi : s'.inFlight=s.inFlight)
    (hl : s'.started=s.started) (ha : s.auth ≤ s'.auth)
    (hacc : s'.accepting=true → s.accepting=true) (hp : Permits s') : QueueInv s' := by
  constructor
  · exact h.ordered.frame hn he
  · exact h.queues.frame hn he hq hs
  · exact h.tasks.frame hm hw ht
  · exact h.holders.frame hn he hm hw
  · exact h.log.frame hn he hl
  · exact h.flight.frame hn he hi hs (fun j => by rw [hq])
  · apply h.served.keep hacc
    · intro j hj
      rw [hq]
      exact hj
    · intro j
      simp only [EventClient.served,ht,hw]
    · intro a hfl
      exact ⟨hi.trans hfl,by simp only [EventClient.keyOf,he]⟩
  · apply h.fates.frame hn he ha
    intro hf
    by_contra hx
    rw [hacc (by simpa using hx)] at hf
    cases hf
  · exact hp

/-! Arrival -/

theorem evict_eq (s : EventClient κ) (k : κ) :
    ¬(0 < s.queueSize ∧ s.queueSize≤(s.queues k).length) ∧ s.evict k=s ∨
    ∃e rest,s.queues k=e::rest ∧ 0 < s.queueSize ∧ s.queueSize≤(s.queues k).length ∧
      s.evict k=(s.setStage e (.discarded .overflow)).setQueue k rest := by
  simp only [EventClient.evict]
  split
  · rename_i hfull
    cases hq : s.queues k with
    | nil =>
      rw [hq,List.length_nil] at hfull
      omega
    | cons e rest => exact Or.inr ⟨e,rest,rfl,hfull.1,hq ▸ hfull.2,rfl⟩
  · rename_i hroom
    exact Or.inl ⟨hroom,rfl⟩

theorem QueueInv.evict (h : QueueInv s) (k : κ) : QueueInv (s.evict k) := by
  rcases evict_eq s k with ⟨_,hsame⟩ | ⟨e,rest,hq,_,_,hev⟩
  · rw [hsame]
    exact h
  · obtain ⟨_,_,hst⟩ := h.queues.queued k e (by rw [hq]; exact List.mem_cons_self)
    rw [hev]
    constructor
    · exact (h.ordered.discard .overflow).frame rfl rfl
    · exact h.queues.pop hq (by simp)
    · exact h.tasks.frame rfl rfl rfl
    · exact (h.holders.aside (by simp [hst]) (by simp [hst]) (by simp)).frame rfl rfl rfl rfl
    · exact (h.log.aside (by simp [hst]) (by simp)).frame rfl rfl rfl
    · have haside := h.flight.aside (e := e) (by simp [hst]) (show Stage.discarded .overflow≠_ by simp)
      refine haside.frame rfl rfl rfl rfl ?_
      intro j
      by_cases hj : j=k
      · subst j
        rw [setQueue_self]
        show rest.length≤(s.queues k).length
        rw [hq,List.length_cons]
        omega
      · rw [setQueue_ne hj]
    · refine h.served.keep (fun hx => hx) ?_ (fun _ => rfl) ?_
      · intro j hj
        have hne : j≠k := by
          intro hx
          rw [hx,hq] at hj
          cases hj
        rw [setQueue_ne hne]
        exact hj
      · intro a ha
        exact ⟨ha,setStage_key s e a _⟩
    · exact (h.fates.move (by simp) (by simp)).frame rfl rfl (Nat.le_refl _) (fun hx => hx)
    · exact h.permits.frame rfl rfl rfl rfl

theorem evict_room (h : QueueInv s) (k : κ) :
    (s.evict k).queueSize=0 ∨ ((s.evict k).queues k).length<(s.evict k).queueSize := by
  rcases evict_eq s k with ⟨hroom,hsame⟩ | ⟨e,rest,hq,hpos,_,hev⟩
  · rw [hsame]
    omega
  · right
    have hb := h.queues.bound hpos k
    rw [hq,List.length_cons] at hb
    rw [hev,setQueue_self]
    show rest.length < s.queueSize
    omega

def EventClient.enlist (s : EventClient κ) (k : κ) (auth : Nat) : EventClient κ :=
  {s with
    events := Function.update s.events s.next ⟨k,auth,.inFlight⟩
    next := s.next+1
    inFlight := some (s.next,false)}

theorem enlist_self (s : EventClient κ) (k : κ) (auth : Nat) :
    (s.enlist k auth).events s.next=⟨k,auth,.inFlight⟩ := by
  simp [enlist]

theorem enlist_old {a : Nat} (ha : a < s.next) : (s.enlist k auth).events a=s.events a := by
  have hne : a≠s.next := by omega
  simp [enlist,hne]

theorem enlist_cases {P : Nat → Event κ → Prop} (hold : ∀a < s.next,P a (s.events a))
    (hnew : P s.next ⟨k,auth,.inFlight⟩) : ∀a<(s.enlist k auth).next,P a ((s.enlist k auth).events a) := by
  intro a ha
  have ha' : a < s.next+1 := ha
  by_cases hx : a=s.next
  · subst a
    rw [enlist_self]
    exact hnew
  · have hlt : a < s.next := by omega
    rw [enlist_old hlt]
    exact hold a hlt

theorem QueueInv.enlist (h : QueueInv s) (hi : s.inFlight=none) (ha : auth ≤ s.auth)
    (hroom : s.queueSize=0 ∨ (s.queues k).length < s.queueSize) : QueueInv (s.enlist k auth) := by
  have hkeep {a : Nat} (hlt : a < s.next) : (s.enlist k auth).events a=s.events a := enlist_old hlt
  constructor
  · intro a ha b hb hk hr h4
    have ha' : a < s.next+1 := ha
    have hb' : b < s.next+1 := hb
    by_cases hbn : b=s.next
    · by_cases han : a=s.next
      · rw [han,hbn] at hr
        omega
      · omega
    · have hblt : b < s.next := by omega
      simp only [EventClient.keyOf,EventClient.stageOf,hkeep hblt] at hk hr h4
      by_cases han : a=s.next
      · rw [han,enlist_self] at hr
        have hx : 3<(s.events b).stage.rank := hr
        omega
      · have halt : a < s.next := by omega
        rw [hkeep halt] at hk hr
        exact h.ordered a halt b hblt hk hr h4
  · apply Queues.mk
    · intro j a hj
      obtain ⟨h1,h2,h3⟩ := h.queues.queued j a hj
      simp only [EventClient.keyOf,EventClient.stageOf,hkeep h1]
      exact ⟨Nat.lt_succ_of_lt h1,h2,h3⟩
    · apply enlist_cases (P := fun a x => x.stage=.queued → a∈s.queues x.key)
      · exact h.queues.kept
      · intro hx
        cases hx
    · exact h.queues.sorted
    · exact h.queues.bound
  · exact h.tasks.frame rfl rfl rfl
  · apply Holders.mk
    · intro w hw a hp
      obtain ⟨h1,h2,h3⟩ := h.holders.taken w hw a hp
      simp only [EventClient.keyOf,EventClient.stageOf,hkeep h1]
      exact ⟨Nat.lt_succ_of_lt h1,h2,h3⟩
    · apply enlist_cases (P := fun a x => x.stage=.taken → ∃w < s.nextWorker,(s.workers w).phase=.taken a)
      · exact h.holders.held
      · intro hx
        cases hx
    · intro w hw a hp
      obtain ⟨h1,h2,h3⟩ := h.holders.handling w hw a hp
      simp only [EventClient.keyOf,EventClient.stageOf,hkeep h1]
      exact ⟨Nat.lt_succ_of_lt h1,h2,h3⟩
  · have hlt {a : Nat} (hm : a∈s.started) : a < s.next := ((h.log.mem a).mp hm).1
    apply Log.mk
    · intro a
      constructor
      · intro hm
        have hm' := (h.log.mem a).mp hm
        simp only [EventClient.stageOf,hkeep hm'.1]
        exact ⟨Nat.lt_succ_of_lt hm'.1,hm'.2⟩
      · intro hx
        revert hx
        rintro ⟨hx,hs⟩
        revert hs
        apply enlist_cases (P := fun a x => x.stage=.started → a∈s.started) _ _ a hx
        · exact fun b hb hs => (h.log.mem b).mpr ⟨hb,hs⟩
        · intro hs
          cases hs
    · exact h.log.nodup
    · apply List.Pairwise.imp_of_mem _ h.log.ordered
      intro a b hma hmb hab hk
      simp only [EventClient.keyOf,hkeep (hlt hma),hkeep (hlt hmb)] at hk
      exact hab hk
  · apply Flight.mk
    · intro a hf
      cases hf
      have hroom' : (s.enlist k auth).queueSize=0 ∨
          ((s.enlist k auth).queues k).length<(s.enlist k auth).queueSize := hroom
      rw [EventClient.keyOf,EventClient.stageOf,enlist_self]
      exact ⟨Nat.lt_succ_self _,rfl,hroom'⟩
    · intro a hf
      cases hf
    · apply enlist_cases (P := fun a x => x.stage=.inFlight → some (s.next,false)=some (a,false))
      · intro a hlt hs
        have hx := h.flight.kept a hlt hs
        rw [hi] at hx
        cases hx
      · intro _
        rfl
  · refine h.served.keep (fun hx => hx) (fun _ hj => hj) (fun _ => rfl) ?_
    intro a hf
    rw [hi] at hf
    cases hf
  · apply Fates.mk
    · apply enlist_cases (P := fun _ x => x.auth ≤ s.auth)
      · exact h.fates.auth
      · exact ha
    · apply enlist_cases (P := fun _ x => x.stage=.discarded .rotation → x.auth < s.auth)
      · exact h.fates.rotation
      · intro hx
        cases hx
    · apply enlist_cases (P := fun _ x => x.stage=.discarded .stop → s.accepting=false)
      · exact h.fates.stop
      · intro hx
        cases hx
  · exact h.permits.frame rfl rfl rfl rfl

theorem evict_frame (s : EventClient κ) (k : κ) :
    (s.evict k).inFlight=s.inFlight ∧ (s.evict k).auth=s.auth ∧ (s.evict k).next=s.next := by
  rcases evict_eq s k with ⟨_,hsame⟩ | ⟨_,_,_,_,_,hev⟩
  · rw [hsame]
    exact ⟨rfl,rfl,rfl⟩
  · rw [hev]
    exact ⟨rfl,rfl,rfl⟩

theorem dispatch_eq (s : EventClient κ) (k : κ) (auth : Nat) :
    s.dispatch k auth=(s.evict k).enlist k auth := rfl

theorem QueueInv.dispatch (h : QueueInv s) (hi : s.inFlight=none) (ha : auth ≤ s.auth) :
    QueueInv (s.dispatch k auth) := by
  obtain ⟨hinFlight,hauth,_⟩ := evict_frame s k
  rw [dispatch_eq]
  apply (h.evict k).enlist
  · rw [hinFlight]
    exact hi
  · rw [hauth]
    exact ha
  · exact evict_room h k

theorem QueueInv.put (h : QueueInv s) (hi : s.inFlight=some (e,false)) :
    QueueInv {(s.setStage e .queued).setQueue (s.keyOf e) (s.queues (s.keyOf e)++[e]) with
      inFlight := some (e,true)} := by
  obtain ⟨he,hst,hroom⟩ := h.flight.flying e hi
  have hsole : ∀b < s.next,s.stageOf b=.inFlight → b=e := by
    intro b hb hs
    have hx := h.flight.kept b hb hs
    rw [hi] at hx
    cases hx
    rfl
  constructor
  · have hadvance : Ordered (s.setStage e .queued) := by
      apply h.ordered.advance he
      · rw [hst]
        rfl
      · intro b hb hbe _ hr
        rw [hst] at hr
        have hflying : s.stageOf b=.inFlight := by
          cases hb' : s.stageOf b with
          | inFlight => rfl
          | queued => simp [hb',Stage.rank] at hr
          | taken => simp [hb',Stage.rank] at hr
          | started => simp [hb',Stage.rank] at hr
          | discarded => simp [hb',Stage.rank] at hr
        exact absurd (hsole b hb hflying) hbe
      · simp [hst,Stage.rank]
    exact hadvance.frame rfl rfl
  · have hpush : Queues ((s.setStage e .queued).setQueue (s.keyOf e) (s.queues (s.keyOf e)++[e])) := by
      apply h.queues.push he (by simp [hst])
      · intro a ha
        obtain ⟨halt,hak,has⟩ := h.queues.queued _ a ha
        exact h.ordered a halt e he hak (by simp [has,hst,Stage.rank]) (by simp [hst,Stage.rank])
      · exact hroom
    exact hpush.frame rfl rfl rfl rfl
  · exact h.tasks.frame rfl rfl rfl
  · exact (h.holders.aside (by simp [hst]) (by simp [hst]) (by simp)).frame rfl rfl rfl rfl
  · exact (h.log.aside (by simp [hst]) (by simp)).frame rfl rfl rfl
  · exact h.flight.land hi (show Stage.queued≠_ by simp) (Or.inr rfl) rfl rfl rfl
  · intro hacc j hj
    by_cases hje : j=s.keyOf e
    · right
      exact ⟨e,rfl,hje ▸ setStage_key s e e .queued⟩
    · left
      have hj' : s.queues j≠[] := by
        intro hx
        apply hj
        show ((s.setStage e .queued).setQueue (s.keyOf e) (s.queues (s.keyOf e)++[e])).queues j=[]
        rw [setQueue_ne hje]
        exact hx
      cases h.served hacc j hj' with
      | inl hs => exact hs
      | inr hf =>
        obtain ⟨a,ha,_⟩ := hf
        rw [hi] at ha
        cases ha
  · exact (h.fates.move (by simp) (by simp)).frame rfl rfl (Nat.le_refl _) (fun hx => hx)
  · exact h.permits.frame rfl rfl rfl rfl

theorem QueueInv.ensure (h : QueueInv s) (hi : s.inFlight=some (e,true)) :
    QueueInv (if s.served (s.keyOf e) then {s with inFlight := none}
      else {s with inFlight := none}.spawn (s.keyOf e)) := by
  have hflight : Flight {s with inFlight := none} := by
    apply Flight.mk
    · intro a ha
      cases ha
    · intro a ha
      cases ha
    · intro a ha hs
      have hx := h.flight.kept a ha hs
      rw [hi] at hx
      cases hx
  have hserved : s.accepting=true → ∀j,j≠s.keyOf e → s.queues j≠[] → s.served j=true := by
    intro hacc j hje hj
    cases h.served hacc j hj with
    | inl hs => exact hs
    | inr hf =>
      obtain ⟨a,ha,hk⟩ := hf
      rw [hi] at ha
      cases ha
      exact absurd hk.symm hje
  have htasks : Tasks {s with inFlight := none} := h.tasks.frame rfl rfl rfl
  have hholders : Holders {s with inFlight := none} := h.holders.frame rfl rfl rfl rfl
  split_ifs with hs
  · constructor
    · exact h.ordered.frame rfl rfl
    · exact h.queues.frame rfl rfl rfl rfl
    · exact htasks
    · exact hholders
    · exact h.log.frame rfl rfl rfl
    · exact hflight
    · intro hacc j hj
      left
      by_cases hje : j=s.keyOf e
      · rw [hje]
        exact hs
      · exact hserved hacc j hje hj
    · exact h.fates.frame rfl rfl (Nat.le_refl _) (fun hx => hx)
    · exact h.permits.frame rfl rfl rfl rfl
  · have hidle : s.served (s.keyOf e)=false := by simpa using hs
    constructor
    · exact h.ordered.frame rfl rfl
    · exact h.queues.frame rfl rfl rfl rfl
    · exact htasks.spawn hidle
    · exact hholders.spawn _
    · exact h.log.frame rfl rfl rfl
    · exact hflight.frame rfl rfl rfl rfl (fun _ => Nat.le_refl _)
    · intro hacc j hj
      left
      by_cases hje : j=s.keyOf e
      · rw [hje]
        exact served_spawn_self _ _
      · rw [served_spawn_ne htasks hje]
        exact hserved hacc j hje hj
    · exact h.fates.frame rfl rfl (Nat.le_refl _) (fun hx => hx)
    · exact h.permits.frame rfl rfl rfl (busy_spawn _ _)

theorem QueueInv.dispatchCancel (h : QueueInv s) (hi : s.inFlight=some (e,false)) (why : Discard)
    (hr : why=.rotation → (s.events e).auth < s.auth) (hs : why=.stop → s.accepting=false) :
    QueueInv {s.setStage e (.discarded why) with inFlight := none} := by
  obtain ⟨_,hst,_⟩ := h.flight.flying e hi
  constructor
  · exact (h.ordered.discard why).frame rfl rfl
  · exact (h.queues.aside (by simp [hst]) (show Stage.discarded why≠_ by simp)).frame rfl rfl rfl rfl
  · exact h.tasks.frame rfl rfl rfl
  · exact (h.holders.aside (by simp [hst]) (by simp [hst]) (by simp)).frame rfl rfl rfl rfl
  · exact (h.log.aside (by simp [hst]) (by simp)).frame rfl rfl rfl
  · exact h.flight.land hi (show Stage.discarded why≠_ by simp) (Or.inl rfl) rfl rfl rfl
  · refine h.served.keep (fun hx => hx) (fun _ hj => hj) (fun _ => rfl) ?_
    intro a ha
    rw [hi] at ha
    cases ha
  · have hmove : Fates (s.setStage e (.discarded why)) := by
      apply h.fates.move
      · intro hx
        exact hr (Stage.discarded.inj hx)
      · intro hx
        exact hs (Stage.discarded.inj hx)
    exact hmove.frame rfl rfl (Nat.le_refl _) (fun hx => hx)
  · exact h.permits.frame rfl rfl rfl rfl

/-! Workers at work -/

theorem QueueInv.take {rest : List Nat} (h : QueueInv s) (hw : w < s.nextWorker)
    (hp : (s.workers w).phase=.waiting) (hq : s.queues (s.workers w).key=e::rest) :
    QueueInv (((s.setStage e .taken).setQueue (s.workers w).key rest).setWorker w (.taken e)) := by
  have hmem : e∈s.queues (s.workers w).key := by
    rw [hq]
    exact List.mem_cons_self
  obtain ⟨he,hk,hst⟩ := h.queues.queued _ e hmem
  have hlive : (s.workers w).phase≠.done := by simp [hp]
  constructor
  · have hadvance : Ordered (s.setStage e .taken) := by
      apply h.ordered.advance he
      · rw [hst]
        rfl
      · intro b hb hbe hkey hr
        rw [hst] at hr
        have hqueued : s.stageOf b=.queued := by
          cases hb' : s.stageOf b with
          | inFlight => simp [hb',Stage.rank] at hr
          | queued => rfl
          | taken => simp [hb',Stage.rank] at hr
          | started => simp [hb',Stage.rank] at hr
          | discarded => simp [hb',Stage.rank] at hr
        have hbmem := h.queues.kept b hb hqueued
        rw [hkey,hk,hq] at hbmem
        have hsorted := h.queues.sorted (s.workers w).key
        rw [hq,List.pairwise_cons] at hsorted
        exact hsorted.1 b ((List.mem_cons.mp hbmem).resolve_left hbe)
      · simp [hst,Stage.rank]
    exact hadvance.frame rfl rfl
  · exact (h.queues.pop hq (show Stage.taken≠_ by simp)).frame rfl rfl rfl rfl
  · exact (h.tasks.setWorker hw hlive).frame rfl rfl rfl
  · exact (h.holders.take hw hp he hst hk).frame rfl rfl rfl rfl
  · exact (h.log.aside (by simp [hst]) (by simp)).frame rfl rfl rfl
  · have haside := h.flight.aside (e := e) (by simp [hst]) (show Stage.taken≠_ by simp)
    refine haside.frame rfl rfl rfl rfl ?_
    intro j
    by_cases hj : j=(s.workers w).key
    · show (((s.setStage e .taken).setQueue (s.workers w).key rest).queues j).length≤(s.queues j).length
      rw [hj,setQueue_self,hq,List.length_cons]
      omega
    · show (((s.setStage e .taken).setQueue (s.workers w).key rest).queues j).length≤(s.queues j).length
      rw [setQueue_ne hj]
      exact Nat.le_refl _
  · refine h.served.keep (fun hx => hx) ?_ ?_ ?_
    · intro j hj
      show ((s.setStage e .taken).setQueue (s.workers w).key rest).queues j=[]
      have hne : j≠(s.workers w).key := by
        intro hx
        rw [hx,hq] at hj
        cases hj
      rw [setQueue_ne hne]
      exact hj
    · exact served_setWorker (s := (s.setStage e .taken).setQueue (s.workers w).key rest) hlive (by simp)
    · intro a ha
      exact ⟨ha,setStage_key s e a _⟩
  · exact (h.fates.move (by simp) (by simp)).frame rfl rfl (Nat.le_refl _) (fun hx => hx)
  · refine h.permits.frame rfl rfl rfl ?_
    have hb := busy_setWorker hw (.taken e)
    have hold : Worker.busy (s.workers w)=false := by simp [Worker.busy,hp]
    rw [hold] at hb
    exact hb

theorem QueueInv.enter (h : QueueInv s) (hw : w < s.nextWorker) (hp : (s.workers w).phase=.taken e)
    (hfree : s.pending < s.maxPending) : QueueInv (s.enter w e) := by
  obtain ⟨he,hst,hk⟩ := h.holders.taken w hw e hp
  have hlive : (s.workers w).phase≠.done := by simp [hp]
  have hold : Worker.busy (s.workers w)=false := by simp [Worker.busy,hp]
  simp only [EventClient.enter]
  split_ifs with hauth
  · constructor
    · have hadvance : Ordered (s.setStage e .started) := by
        apply h.ordered.advance he
        · rw [hst]
          rfl
        · intro b hb hbe hkey hr
          rw [hst] at hr
          have htaken : s.stageOf b=.taken := by
            cases hb' : s.stageOf b with
            | inFlight => simp [hb',Stage.rank] at hr
            | queued => simp [hb',Stage.rank] at hr
            | taken => rfl
            | started => simp [hb',Stage.rank] at hr
            | discarded => simp [hb',Stage.rank] at hr
          obtain ⟨v,hv,hpv⟩ := h.holders.held b hb htaken
          have hvw : v=w := by
            apply h.tasks.unique hv hw
            · simp [hpv]
            · exact hlive
            · rw [←(h.holders.taken v hv b hpv).2.2,hkey,hk]
          rw [hvw,hp] at hpv
          exact absurd (WorkerPhase.taken.inj hpv).symm hbe
        · simp [hst,Stage.rank]
      exact hadvance.frame rfl rfl
    · exact (h.queues.aside (by simp [hst]) (show Stage.started≠_ by simp)).frame rfl rfl rfl rfl
    · exact (h.tasks.setWorker hw hlive).frame rfl rfl rfl
    · exact (h.holders.release h.tasks hw hp (Or.inl ⟨rfl,rfl⟩)).frame rfl rfl rfl rfl
    · refine h.log.call he (by simp [hst]) ?_ rfl rfl rfl
      intro a ha hkey
      obtain ⟨halt,has⟩ := (h.log.mem a).mp ha
      exact h.ordered a halt e he hkey (by simp [has,hst,Stage.rank]) (by simp [hst,Stage.rank])
    · have haside := h.flight.aside (e := e) (by simp [hst]) (show Stage.started≠_ by simp)
      exact haside.frame rfl rfl rfl rfl (fun _ => Nat.le_refl _)
    · refine h.served.keep (fun hx => hx) (fun _ hj => hj) ?_ ?_
      · exact served_setWorker (s := s.setStage e .started) hlive (by simp)
      · intro a ha
        exact ⟨ha,setStage_key s e a _⟩
    · exact (h.fates.move (by simp) (by simp)).frame rfl rfl (Nat.le_refl _) (fun hx => hx)
    · have hb := busy_setWorker hw (.handling e)
      rw [hold] at hb
      have hused := h.permits.used
      have hone : (Worker.busy {s.workers w with phase := WorkerPhase.handling e}).toNat=1 := rfl
      have hzero : Bool.toNat false=0 := rfl
      apply Permits.mk
      · show s.pending+1=tally Worker.busy (s.setWorker w (.handling e)).workers s.nextWorker+s.keyless
        omega
      · exact hfree
      · exact h.permits.positive
  · constructor
    · exact (h.ordered.discard .rotation).frame rfl rfl
    · exact (h.queues.aside (by simp [hst]) (show Stage.discarded .rotation≠_ by simp)).frame
        rfl rfl rfl rfl
    · exact (h.tasks.setWorker hw hlive).frame rfl rfl rfl
    · exact h.holders.release h.tasks hw hp (Or.inr ⟨⟨_,rfl⟩,Or.inl rfl⟩)
    · exact (h.log.aside (by simp [hst]) (by simp)).frame rfl rfl rfl
    · have haside := h.flight.aside (e := e) (by simp [hst]) (show Stage.discarded .rotation≠_ by simp)
      exact haside.frame rfl rfl rfl rfl (fun _ => Nat.le_refl _)
    · refine h.served.keep (fun hx => hx) (fun _ hj => hj) ?_ ?_
      · exact served_setWorker (s := s.setStage e (.discarded .rotation)) hlive (by simp)
      · intro a ha
        exact ⟨ha,setStage_key s e a _⟩
    · have hmove : Fates (s.setStage e (.discarded .rotation)) := by
        apply h.fates.move
        · intro _
          have hle := h.fates.auth e he
          omega
        · simp
      exact hmove.frame rfl rfl (Nat.le_refl _) (fun hx => hx)
    · refine h.permits.frame rfl rfl rfl ?_
      have hb := busy_setWorker hw .waiting
      rw [hold] at hb
      exact hb

theorem QueueInv.finish (h : QueueInv s) (hw : w < s.nextWorker) (hp : (s.workers w).phase=.handling e) :
    QueueInv {s.setWorker w .waiting with pending := s.pending-1} := by
  have hlive : (s.workers w).phase≠.done := by simp [hp]
  have hold : Worker.busy (s.workers w)=true := by simp [Worker.busy,hp]
  have hrest : Holders (s.setWorker w .waiting) := by
    apply h.holders.rest _ (Or.inl rfl)
    simp [hp]
  constructor
  · exact h.ordered.frame rfl rfl
  · exact h.queues.frame rfl rfl rfl rfl
  · exact (h.tasks.setWorker hw hlive).frame rfl rfl rfl
  · exact hrest.frame rfl rfl rfl rfl
  · exact h.log.frame rfl rfl rfl
  · exact h.flight.frame rfl rfl rfl rfl (fun _ => Nat.le_refl _)
  · refine h.served.keep (fun hx => hx) (fun _ hj => hj) ?_ (fun _ ha => ⟨ha,rfl⟩)
    exact served_setWorker hlive (by simp)
  · exact h.fates.frame rfl rfl (Nat.le_refl _) (fun hx => hx)
  · have hb := busy_setWorker hw .waiting
    rw [hold] at hb
    have hused := h.permits.used
    have hbound := h.permits.bound
    have hzero : (Worker.busy {s.workers w with phase := WorkerPhase.waiting}).toNat=0 := rfl
    have hone : Bool.toNat true=1 := rfl
    apply Permits.mk
    · show s.pending-1=tally Worker.busy (s.setWorker w .waiting).workers s.nextWorker+s.keyless
      omega
    · show s.pending-1 ≤ s.maxPending
      omega
    · exact h.permits.positive

/-! Workers that end -/

theorem QueueInv.retire (h : QueueInv s) (hw : w < s.nextWorker) (hl : (s.workers w).phase≠.done)
    (hdone : Holders (s.setWorker w .done)) {n : Nat}
    (hn : n+(Worker.busy (s.workers w)).toNat=s.pending) :
    QueueInv ({s with pending := n}.retire w) := by
  set r : EventClient κ := {s with pending := n} with hr
  have htasks : Tasks r := h.tasks.frame rfl rfl rfl
  obtain ⟨hnext,hev,hq,hsize,hflight,hstarted,hauth,hacc,hpending,hkeyless,hmax⟩ := retire_frame r w
  constructor
  · exact h.ordered.frame hnext hev
  · exact h.queues.frame hnext hev hq hsize
  · exact htasks.retire hw hl
  · apply Holders.retire
    exact hdone.frame rfl rfl rfl rfl
  · exact h.log.frame hnext hev hstarted
  · exact h.flight.frame hnext hev hflight hsize (fun j => by rw [hq])
  · apply Served.retire _ htasks hw hl
    exact h.served.keep (fun hx => hx) (fun _ hj => hj) (fun _ => rfl) (fun _ ha => ⟨ha,rfl⟩)
  · exact h.fates.frame hnext hev (by rw [hauth]) (fun hx => hacc.trans hx)
  · have hb := busy_retire (s := r) hw
    have hused := h.permits.used
    have hbound := h.permits.bound
    apply Permits.mk
    · rw [hpending,hkeyless]
      show n=_+s.keyless
      have hold : tally Worker.busy r.workers r.nextWorker=tally Worker.busy s.workers s.nextWorker := rfl
      have hsame : (Worker.busy (r.workers w)).toNat=(Worker.busy (s.workers w)).toNat := rfl
      omega
    · rw [hpending,hmax]
      show n ≤ s.maxPending
      omega
    · rw [hmax]
      exact h.permits.positive

theorem QueueInv.interrupt (h : QueueInv s) (hw : w < s.nextWorker)
    (hp : (s.workers w).phase=.handling e) : QueueInv ({s with pending := s.pending-1}.retire w) := by
  have hold : Worker.busy (s.workers w)=true := by simp [Worker.busy,hp]
  have hpos := tally_pos Worker.busy s.workers s.nextWorker w hw hold
  have hused := h.permits.used
  apply h.retire hw
  · simp [hp]
  · apply h.holders.rest _ (Or.inr rfl)
    simp [hp]
  · rw [hold]
    show s.pending-1+1=s.pending
    omega

theorem QueueInv.timeout (h : QueueInv s) (hw : w < s.nextWorker) (hp : (s.workers w).phase=.waiting) :
    QueueInv (s.retire w) := by
  have hold : Worker.busy (s.workers w)=false := by simp [Worker.busy,hp]
  apply h.retire hw
  · simp [hp]
  · apply h.holders.rest _ (Or.inr rfl)
    simp [hp]
  · rw [hold]
    rfl

theorem QueueInv.abandon (h : QueueInv s) (hw : w < s.nextWorker) (hp : (s.workers w).phase=.waiting)
    (hstop : s.accepting=false) : QueueInv (s.setWorker w .done) := by
  constructor
  · exact h.ordered.frame rfl rfl
  · exact h.queues.frame rfl rfl rfl rfl
  · exact h.tasks.setWorker hw (by simp [hp])
  · apply h.holders.rest _ (Or.inr rfl)
    simp [hp]
  · exact h.log.frame rfl rfl rfl
  · exact h.flight.frame rfl rfl rfl rfl (fun _ => Nat.le_refl _)
  · intro hacc
    have hx : s.accepting=true := hacc
    rw [hstop] at hx
    cases hx
  · exact h.fates.frame rfl rfl (Nat.le_refl _) (fun hx => hx)
  · refine h.permits.frame rfl rfl rfl ?_
    have hb := busy_setWorker hw .done
    have hold : Worker.busy (s.workers w)=false := by simp [Worker.busy,hp]
    rw [hold] at hb
    exact hb

theorem QueueInv.dropTaken (h : QueueInv s) (hw : w < s.nextWorker) (hp : (s.workers w).phase=.taken e)
    (hstop : s.accepting=false) : QueueInv ((s.setStage e (.discarded .stop)).retire w) := by
  obtain ⟨he,hst,hk⟩ := h.holders.taken w hw e hp
  have hold : Worker.busy (s.workers w)=false := by simp [Worker.busy,hp]
  have hlive : (s.workers w).phase≠.done := by simp [hp]
  -- between the two writes the worker still has the event, so `Holders` comes from `release`
  have hdone : Holders ((s.setStage e (.discarded .stop)).setWorker w .done) :=
    h.holders.release h.tasks hw hp (Or.inr ⟨⟨_,rfl⟩,Or.inr rfl⟩)
  set r := s.setStage e (.discarded .stop) with hr
  have htasks : Tasks r := h.tasks.frame rfl rfl rfl
  obtain ⟨hnext,hev,hq,hsize,hflight,hstarted,hauth,hacc,hpending,hkeyless,hmax⟩ := retire_frame r w
  constructor
  · exact (h.ordered.discard .stop).frame hnext hev
  · exact (h.queues.aside (by simp [hst]) (show Stage.discarded .stop≠_ by simp)).frame hnext hev hq hsize
  · exact htasks.retire hw hlive
  · exact hdone.retire
  · exact (h.log.aside (by simp [hst]) (show Stage.discarded .stop≠_ by simp)).frame hnext hev hstarted
  · have haside := h.flight.aside (e := e) (by simp [hst]) (show Stage.discarded .stop≠_ by simp)
    exact haside.frame hnext hev hflight hsize (fun j => by rw [hq])
  · intro hx
    rw [hacc] at hx
    have hx' : s.accepting=true := hx
    rw [hstop] at hx'
    cases hx'
  · have hmove : Fates r := h.fates.move (by simp) (fun _ => hstop)
    exact hmove.frame hnext hev (by rw [hauth]) (fun hx => hacc.trans hx)
  · apply h.permits.frame hpending hkeyless hmax
    have hb := busy_retire (s := r) hw
    have hsame : Worker.busy (r.workers w)=false := hold
    rw [hsame] at hb
    exact hb

/-! The rest of the client -/

theorem QueueInv.reap (h : QueueInv s) (hs : s.served k=false)
    (hidle : s.accepting=false ∨ s.queues k=[]) : QueueInv (s.setTask k none) := by
  constructor
  · exact h.ordered.frame rfl rfl
  · exact h.queues.frame rfl rfl rfl rfl
  · exact h.tasks.drop hs
  · exact h.holders.frame rfl rfl rfl rfl
  · exact h.log.frame rfl rfl rfl
  · exact h.flight.frame rfl rfl rfl rfl (fun _ => Nat.le_refl _)
  · intro hacc j hj
    have hacc' : s.accepting=true := hacc
    have hj' : s.queues j≠[] := hj
    have hjk : j≠k := by
      intro hx
      rw [hx] at hj'
      cases hidle with
      | inl hstop =>
        rw [hstop] at hacc'
        cases hacc'
      | inr hempty => exact hj' hempty
    have hsame : (s.setTask k none).served j=s.served j :=
      served_congr (setTask_ne hjk) (fun _ _ => Iff.rfl)
    rw [hsame]
    exact h.served hacc' j hj'
  · exact h.fates.frame rfl rfl (Nat.le_refl _) (fun hx => hx)
  · exact h.permits.frame rfl rfl rfl rfl

theorem clear_events (s : EventClient κ) (a : Nat) :
    s.clear.keyOf a=s.keyOf a ∧ (s.clear.events a).auth=(s.events a).auth ∧
    (s.clear.stageOf a=s.stageOf a ∧ s.stageOf a≠.queued ∧ s.stageOf a≠.inFlight ∨
      s.clear.stageOf a=.discarded .stop ∧ (s.stageOf a=.queued ∨ s.stageOf a=.inFlight)) := by
  simp only [EventClient.keyOf,EventClient.stageOf,EventClient.clear]
  split_ifs with hst
  · exact ⟨rfl,rfl,Or.inr ⟨rfl,hst⟩⟩
  · exact ⟨rfl,rfl,Or.inl ⟨rfl,not_or.mp hst⟩⟩

theorem QueueInv.clear (h : QueueInv s) (hstop : s.accepting=false)
    (hdone : ∀w < s.nextWorker,(s.workers w).phase=.done) : QueueInv s.clear := by
  constructor
  · intro a ha b hb hk hr h4
    obtain ⟨hka,_,hsa⟩ := clear_events s a
    obtain ⟨hkb,_,hsb⟩ := clear_events s b
    rw [hka,hkb] at hk
    rcases hsb with ⟨hsb,_⟩ | ⟨hsb,_⟩
    · rw [hsb] at hr h4
      rcases hsa with ⟨hsa,_⟩ | ⟨hsa,_⟩
      · rw [hsa] at hr
        exact h.ordered a ha b hb hk hr h4
      · rw [hsa] at hr
        have hx : 4<(s.stageOf b).rank := hr
        omega
    · rw [hsb] at h4
      exact absurd h4 (by simp [Stage.rank])
  · apply Queues.mk
    · intro j a ha
      cases ha
    · intro a ha hs
      obtain ⟨_,_,hsa⟩ := clear_events s a
      rcases hsa with ⟨hsa,hnot,_⟩ | ⟨hsa,_⟩
      · rw [hsa] at hs
        exact absurd hs hnot
      · rw [hsa] at hs
        cases hs
    · intro j
      exact List.Pairwise.nil
    · intro _ j
      exact Nat.zero_le _
  · apply Tasks.mk
    · intro v hv hp
      exact absurd (hdone v hv) hp
    · intro j v hj
      cases hj
  · apply Holders.mk
    · intro v hv a ha
      have hp : (s.workers v).phase=.taken a := ha
      rw [hdone v hv] at hp
      cases hp
    · intro a ha hs
      obtain ⟨_,_,hsa⟩ := clear_events s a
      rcases hsa with ⟨hsa,_⟩ | ⟨hsa,_⟩
      · rw [hsa] at hs
        exact h.holders.held a ha hs
      · rw [hsa] at hs
        cases hs
    · intro v hv a ha
      have hp : (s.workers v).phase=.handling a := ha
      rw [hdone v hv] at hp
      cases hp
  · apply Log.mk
    · intro a
      show a∈s.started ↔ a < s.next ∧ s.clear.stageOf a=.started
      rw [h.log.mem a]
      obtain ⟨_,_,hsa⟩ := clear_events s a
      rcases hsa with ⟨hsa,_⟩ | ⟨hsa,hold⟩
      · rw [hsa]
      · rw [hsa]
        apply and_congr_right
        intro _
        apply iff_of_false
        · rcases hold with hx | hx <;> simp [hx]
        · simp
    · exact h.log.nodup
    · apply List.Pairwise.imp _ h.log.ordered
      intro a b hab hk
      rw [(clear_events s a).1,(clear_events s b).1] at hk
      exact hab hk
  · apply Flight.mk
    · intro a ha
      cases ha
    · intro a ha
      cases ha
    · intro a ha hs
      obtain ⟨_,_,hsa⟩ := clear_events s a
      rcases hsa with ⟨hsa,_,hnot⟩ | ⟨hsa,_⟩
      · rw [hsa] at hs
        exact absurd hs hnot
      · rw [hsa] at hs
        cases hs
  · intro _ j hj
    exact absurd rfl hj
  · apply Fates.mk
    · intro a ha
      rw [(clear_events s a).2.1]
      exact h.fates.auth a ha
    · intro a ha hd
      obtain ⟨_,hauth,hsa⟩ := clear_events s a
      rw [hauth]
      rcases hsa with ⟨hsa,_⟩ | ⟨hsa,_⟩
      · rw [hsa] at hd
        exact h.fates.rotation a ha hd
      · rw [hsa] at hd
        cases hd
    · intro _ _ _
      exact hstop
  · exact h.permits.frame rfl rfl rfl rfl

end XiaoQing.OneBot
