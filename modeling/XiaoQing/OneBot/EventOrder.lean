import XiaoQing.OneBot.QueueActs

set_option linter.unusedSectionVars false

namespace XiaoQing.OneBot

open Framework EventClient

variable {κ : Type} [DecidableEq κ] {s t : EventClient κ} {a : EventAct κ} {e : Nat} {stage : Stage}

theorem step_inv (h : QueueInv s) (hs : eventStep s a=some t) : QueueInv t := by
  cases a with simp only [eventStep] at hs
  | dispatch k auth =>
    split_ifs at hs with hg
    cases hs
    exact h.dispatch hg.2.1 hg.2.2
  | put =>
    split at hs
    · rename_i e hi
      cases hs
      exact h.put hi
    · cases hs
  | ensure =>
    split at hs
    · rename_i e hi
      cases hs
      exact h.ensure hi
    · cases hs
  | dispatchCancel =>
    split at hs
    · rename_i e hi
      split_ifs at hs with hstop hauth
      · cases hs
        exact h.dispatchCancel hi .stop (by simp) (fun _ => hstop)
      · cases hs
        apply h.dispatchCancel hi .rotation
        · intro _
          exact Nat.lt_of_le_of_ne (h.fates.auth e (h.flight.flying e hi).1) hauth
        · simp
    · cases hs
  | take w =>
    split_ifs at hs with hg
    split at hs
    · cases hs
    · rename_i e rest hq
      cases hs
      exact h.take hg.1 hg.2 hq
  | enter w =>
    split at hs
    · rename_i e hp
      split_ifs at hs with hg
      cases hs
      exact h.enter hg.1 hp hg.2
    · cases hs
  | finish w =>
    split at hs
    · rename_i e hp
      split_ifs at hs with hw
      cases hs
      exact h.finish hw hp
    · cases hs
  | interrupt w =>
    split at hs
    · rename_i e hp
      split_ifs at hs with hw
      cases hs
      exact h.interrupt hw hp
    · cases hs
  | timeout w =>
    split_ifs at hs with hg
    cases hs
    exact h.timeout hg.1 hg.2
  | cancelWorker w fresh =>
    split at hs
    · rename_i hg
      split at hs
      · rename_i hp
        split_ifs at hs
        · cases hs
          exact h.abandon hg.1 hp hg.2
        · cases hs
          exact h.timeout hg.1 hp
      · rename_i e hp
        cases hs
        exact h.dropTaken hg.1 hp hg.2
      · rename_i e hp
        cases hs
        exact h.interrupt hg.1 hp
      · cases hs
    · cases hs
  | reap k =>
    split_ifs at hs with hg
    cases hs
    exact h.reap hg.1 hg.2
  | clear =>
    split_ifs at hs with hg
    cases hs
    apply h.clear hg.1
    simpa using hg.2
  | keylessStart =>
    split_ifs at hs with hg
    cases hs
    refine h.frame rfl rfl rfl rfl rfl rfl rfl rfl rfl (Nat.le_refl _) (fun hx => hx) ?_
    have hused := h.permits.used
    apply Permits.mk
    · show s.pending+1=tally Worker.busy s.workers s.nextWorker+(s.keyless+1)
      omega
    · exact hg.2.2
    · exact h.permits.positive
  | keylessFinish =>
    split_ifs at hs with hg
    cases hs
    refine h.frame rfl rfl rfl rfl rfl rfl rfl rfl rfl (Nat.le_refl _) (fun hx => hx) ?_
    have hused := h.permits.used
    have hbound := h.permits.bound
    apply Permits.mk
    · show s.pending-1=tally Worker.busy s.workers s.nextWorker+(s.keyless-1)
      omega
    · show s.pending-1 ≤ s.maxPending
      omega
    · exact h.permits.positive
  | rotate =>
    cases hs
    exact h.frame rfl rfl rfl rfl rfl rfl rfl rfl rfl (Nat.le_succ _) (fun hx => hx)
      (h.permits.frame rfl rfl rfl rfl)
  | stop =>
    cases hs
    exact h.frame rfl rfl rfl rfl rfl rfl rfl rfl rfl (Nat.le_refl _) (fun hx => by cases hx)
      (h.permits.frame rfl rfl rfl rfl)

theorem reach_queueInv (h : Reach eventStep Free Initial s) : QueueInv s :=
  h.invariant (fun _ hi => QueueInv.initial hi) (fun _ _ _ hi _ hs => step_inv hi hs)

/-! What a step does to an event -/

/-- How an act moves an event that is there. -/
inductive Move (s : EventClient κ) : EventAct κ → Nat → Stage → Prop
  | overflow {k : κ} {auth e : Nat} {rest : List Nat} : s.queues k=e::rest → 0 < s.queueSize →
      s.queueSize≤(s.queues k).length → Move s (.dispatch k auth) e (.discarded .overflow)
  | put {e : Nat} : s.inFlight=some (e,false) → Move s .put e .queued
  | dispatchCancel {e : Nat} {why : Discard} : s.inFlight=some (e,false) →
      (why=.stop ∧ s.accepting=false ∨ why=.rotation ∧ (s.events e).auth≠s.auth) →
      Move s .dispatchCancel e (.discarded why)
  | take {w e : Nat} {rest : List Nat} : s.queues (s.workers w).key=e::rest → Move s (.take w) e .taken
  | enter {w e : Nat} : w < s.nextWorker → (s.workers w).phase=.taken e → Move s (.enter w) e .started
  | reject {w e : Nat} : w < s.nextWorker → (s.workers w).phase=.taken e → (s.events e).auth≠s.auth →
      Move s (.enter w) e (.discarded .rotation)
  | cancelWorker {w : Nat} {fresh : Bool} {e : Nat} : w < s.nextWorker → (s.workers w).phase=.taken e →
      s.accepting=false → Move s (.cancelWorker w fresh) e (.discarded .stop)
  | clear {e : Nat} : s.accepting=false → s.stageOf e=.queued ∨ s.stageOf e=.inFlight →
      Move s .clear e (.discarded .stop)

theorem setStage_move (hm : Move s a e stage) (b : Nat) :
    (s.setStage e stage).events b=s.events b ∨
      ∃stage',Move s a b stage' ∧ (s.setStage e stage).events b={s.events b with stage := stage'} := by
  by_cases hb : b=e
  · subst b
    exact Or.inr ⟨stage,hm,by simp [setStage]⟩
  · left
    simp [setStage,hb]

theorem step_move (hs : eventStep s a=some t) (b : Nat) (hb : b < s.next) :
    t.events b=s.events b ∨ ∃stage,Move s a b stage ∧ t.events b={s.events b with stage := stage} := by
  cases a with simp only [eventStep] at hs
  | dispatch k auth =>
    split_ifs at hs
    cases hs
    obtain ⟨_,_,hnext⟩ := evict_frame s k
    rw [dispatch_eq,enlist_old (by omega)]
    rcases evict_eq s k with ⟨_,hsame⟩ | ⟨e,rest,hq,hpos,hfull,hev⟩
    · rw [hsame]
      exact Or.inl rfl
    · rw [hev]
      exact setStage_move (.overflow hq hpos hfull) b
  | put =>
    split at hs
    · rename_i e hi
      cases hs
      exact setStage_move (.put hi) b
    · cases hs
  | ensure =>
    split at hs
    · cases hs
      left
      split_ifs <;> rfl
    · cases hs
  | dispatchCancel =>
    split at hs
    · rename_i e hi
      split_ifs at hs with hstop hauth
      · cases hs
        exact setStage_move (.dispatchCancel hi (Or.inl ⟨rfl,hstop⟩)) b
      · cases hs
        exact setStage_move (.dispatchCancel hi (Or.inr ⟨rfl,hauth⟩)) b
    · cases hs
  | take w =>
    split_ifs at hs
    split at hs
    · cases hs
    · rename_i e rest hq
      cases hs
      exact setStage_move (.take hq) b
  | enter w =>
    split at hs
    · rename_i e hp
      split_ifs at hs with hg
      cases hs
      simp only [EventClient.enter]
      split_ifs with hauth
      · exact setStage_move (.enter hg.1 hp) b
      · exact setStage_move (.reject hg.1 hp hauth) b
    · cases hs
  | finish w =>
    split at hs
    · split_ifs at hs
      cases hs
      exact Or.inl rfl
    · cases hs
  | interrupt w =>
    split at hs
    · split_ifs at hs
      cases hs
      left
      rw [(retire_frame _ w).2.1]
    · cases hs
  | timeout w =>
    split_ifs at hs
    cases hs
    left
    rw [(retire_frame _ w).2.1]
  | cancelWorker w fresh =>
    split at hs
    · rename_i hg
      split at hs
      · split_ifs at hs
        · cases hs
          exact Or.inl rfl
        · cases hs
          left
          rw [(retire_frame _ w).2.1]
      · rename_i e hp
        cases hs
        rw [(retire_frame _ w).2.1]
        exact setStage_move (.cancelWorker hg.1 hp hg.2) b
      · cases hs
        left
        rw [(retire_frame _ w).2.1]
      · cases hs
    · cases hs
  | reap k =>
    split_ifs at hs
    cases hs
    exact Or.inl rfl
  | clear =>
    split_ifs at hs with hg
    cases hs
    simp only [EventClient.clear]
    split_ifs with hst
    · exact Or.inr ⟨_,.clear hg.1 hst,rfl⟩
    · exact Or.inl rfl
  | keylessStart =>
    split_ifs at hs
    cases hs
    exact Or.inl rfl
  | keylessFinish =>
    split_ifs at hs
    cases hs
    exact Or.inl rfl
  | rotate =>
    cases hs
    exact Or.inl rfl
  | stop =>
    cases hs
    exact Or.inl rfl

theorem Move.source (h : QueueInv s) (hm : Move s a e stage) :
    s.stageOf e≠.started ∧ ∀why,s.stageOf e≠.discarded why := by
  have hpending {x : Stage} (hx : s.stageOf e=x) (h1 : x≠.started) (h2 : ∀why,x≠.discarded why) :
      s.stageOf e≠.started ∧ ∀why,s.stageOf e≠.discarded why := by
    rw [hx]
    exact ⟨h1,h2⟩
  have hfirst {k : κ} {rest : List Nat} (hq : s.queues k=e::rest) : s.stageOf e=.queued :=
    (h.queues.queued k e (by rw [hq]; exact List.mem_cons_self)).2.2
  cases hm with
  | overflow hq => exact hpending (hfirst hq) (by simp) (by simp)
  | put hi => exact hpending (h.flight.flying e hi).2.1 (by simp) (by simp)
  | dispatchCancel hi => exact hpending (h.flight.flying e hi).2.1 (by simp) (by simp)
  | take hq => exact hpending (hfirst hq) (by simp) (by simp)
  | enter hw hp => exact hpending (h.holders.taken _ hw e hp).2.1 (by simp) (by simp)
  | reject hw hp => exact hpending (h.holders.taken _ hw e hp).2.1 (by simp) (by simp)
  | cancelWorker hw hp => exact hpending (h.holders.taken _ hw e hp).2.1 (by simp) (by simp)
  | clear _ hst =>
    cases hst with
    | inl hst => exact hpending hst (by simp) (by simp)
    | inr hst => exact hpending hst (by simp) (by simp)

def Justified (s : EventClient κ) (a : EventAct κ) (e : Nat) : Discard → Prop
  | .overflow => (∃auth,a=.dispatch (s.keyOf e) auth) ∧
      (s.queues (s.keyOf e)).length=s.queueSize ∧
      ∀b < s.next,s.keyOf b=s.keyOf e → s.stageOf b=.queued → e≤b
  | .rotation => (s.events e).auth < s.auth
  | .stop => s.accepting=false

theorem Move.justified (h : QueueInv s) (hm : Move s a e stage) (he : e < s.next) (why : Discard)
    (hd : stage=.discarded why) : Justified s a e why := by
  have hold (hx : (s.events e).auth≠s.auth) : (s.events e).auth < s.auth :=
    Nat.lt_of_le_of_ne (h.fates.auth e he) hx
  cases hm with
  | overflow hq hpos hfull =>
    rename_i k auth rest
    cases hd
    have hk := (h.queues.queued k e (by rw [hq]; exact List.mem_cons_self)).2.1
    have hsorted := h.queues.sorted k
    rw [hq,List.pairwise_cons] at hsorted
    refine ⟨⟨auth,by rw [hk]⟩,?_,?_⟩
    · rw [hk]
      exact Nat.le_antisymm (h.queues.bound hpos k) hfull
    · intro b hb hkey hst
      have hbmem := h.queues.kept b hb hst
      rw [hkey,hk,hq,List.mem_cons] at hbmem
      cases hbmem with
      | inl hbe => exact Nat.le_of_eq hbe.symm
      | inr hbr => exact Nat.le_of_lt (hsorted.1 b hbr)
  | put => cases hd
  | dispatchCancel _ hwhy =>
    cases hd
    rcases hwhy with ⟨hw,hstop⟩ | ⟨hw,hauth⟩
    · rw [hw]
      exact hstop
    · rw [hw]
      exact hold hauth
  | take => cases hd
  | enter => cases hd
  | reject _ _ hauth =>
    cases hd
    exact hold hauth
  | cancelWorker _ _ hstop =>
    cases hd
    exact hstop
  | clear hstop =>
    cases hd
    exact hstop

/-! The client's own work -/

def EventAct.internal : EventAct κ → Bool
  | .put => true
  | .ensure => true
  | .take _ => true
  | .enter _ => true
  | .finish _ => true
  | .keylessFinish => true
  | _ => false

/-- The internal steps that an event still needs, that of its worker included. -/
def Stage.steps : Stage → Nat
  | .inFlight => 5
  | .queued => 3
  | .taken => 2
  | .started => 0
  | .discarded _ => 0

namespace EventClient

def landing (s : EventClient κ) : Nat :=
  match s.inFlight with
  | some (_,true) => 1
  | _ => 0

def eventSteps (s : EventClient κ) : Nat :=
  sumBelow (fun x : Event κ => x.stage.steps) s.events s.next

def work (s : EventClient κ) : Nat := s.eventSteps+s.landing+s.pending

end EventClient

theorem eventSteps_setStage (he : e < s.next) (stage : Stage) :
    (s.setStage e stage).eventSteps+(s.stageOf e).steps=s.eventSteps+stage.steps :=
  sumBelow_update (fun x : Event κ => x.stage.steps) s.events s.next e _ he

theorem work_decreases (h : QueueInv s) (ha : a.internal=true) (hs : eventStep s a=some t) :
    t.work < s.work := by
  cases a with simp only [eventStep] at hs
  | put =>
    split at hs
    · rename_i e hi
      cases hs
      obtain ⟨he,hst,_⟩ := h.flight.flying e hi
      have hsteps := eventSteps_setStage he .queued
      rw [hst] at hsteps
      have hlanding : s.landing=0 := by simp [landing,hi]
      simp only [Stage.steps] at hsteps
      show (s.setStage e .queued).eventSteps+1+s.pending < s.eventSteps+s.landing+s.pending
      omega
    · cases hs
  | ensure =>
    split at hs
    · rename_i e hi
      have hlanding : s.landing=1 := by simp [landing,hi]
      have hwork : t.work=s.eventSteps+0+s.pending := by
        cases hs
        split_ifs <;> rfl
      rw [hwork,EventClient.work]
      omega
    · cases hs
  | take w =>
    split_ifs at hs
    split at hs
    · cases hs
    · rename_i e rest hq
      cases hs
      obtain ⟨he,_,hst⟩ := h.queues.queued _ e (by rw [hq]; exact List.mem_cons_self)
      have hsteps := eventSteps_setStage he .taken
      rw [hst] at hsteps
      simp only [Stage.steps] at hsteps
      show (s.setStage e .taken).eventSteps+s.landing+s.pending < s.eventSteps+s.landing+s.pending
      omega
  | enter w =>
    split at hs
    · rename_i e hp
      split_ifs at hs with hg
      cases hs
      obtain ⟨he,hst,_⟩ := h.holders.taken w hg.1 e hp
      simp only [EventClient.enter]
      split_ifs
      · have hsteps := eventSteps_setStage he .started
        rw [hst] at hsteps
        simp only [Stage.steps] at hsteps
        show (s.setStage e .started).eventSteps+s.landing+(s.pending+1)<
          s.eventSteps+s.landing+s.pending
        omega
      · have hsteps := eventSteps_setStage he (.discarded .rotation)
        rw [hst] at hsteps
        simp only [Stage.steps] at hsteps
        show (s.setStage e (.discarded .rotation)).eventSteps+s.landing+s.pending<
          s.eventSteps+s.landing+s.pending
        omega
    · cases hs
  | finish w =>
    split at hs
    · rename_i e hp
      split_ifs at hs with hw
      cases hs
      have hbusy := tally_pos Worker.busy s.workers s.nextWorker w hw (by simp [Worker.busy,hp])
      have hused := h.permits.used
      show s.eventSteps+s.landing+(s.pending-1) < s.eventSteps+s.landing+s.pending
      omega
    · cases hs
  | keylessFinish =>
    split_ifs at hs
    cases hs
    have hused := h.permits.used
    show s.eventSteps+s.landing+(s.pending-1) < s.eventSteps+s.landing+s.pending
    omega
  | dispatch => cases ha
  | dispatchCancel => cases ha
  | interrupt => cases ha
  | timeout => cases ha
  | cancelWorker => cases ha
  | reap => cases ha
  | clear => cases ha
  | keylessStart => cases ha
  | rotate => cases ha
  | stop => cases ha

theorem live_of_served {k : κ} (h : QueueInv s) (hs : s.served k=true) :
    ∃w < s.nextWorker,(s.workers w).key=k ∧ (s.workers w).phase≠.done := by
  simp only [EventClient.served] at hs
  split at hs
  · cases hs
  · rename_i w hq
    obtain ⟨hw,hk⟩ := h.tasks.known k w hq
    exact ⟨w,hw,hk,by simpa using hs⟩

def Settled (s : EventClient κ) : Prop := ∀a : EventAct κ,a.internal=true → eventStep s a=none

theorem settled_events (h : QueueInv s) (hs : Settled s) (hacc : s.accepting=true)
    (he : e < s.next) : e∈s.started ∨ ∃why,s.stageOf e=.discarded why := by
  have hnone : s.inFlight=none := by
    cases hi : s.inFlight with
    | none => rfl
    | some f =>
      obtain ⟨b,landed⟩ := f
      cases landed with
      | false =>
        have hput := hs .put rfl
        simp [eventStep,hi] at hput
      | true =>
        have hensure := hs .ensure rfl
        simp [eventStep,hi] at hensure
  have hidle : ∀w < s.nextWorker,∀b,(s.workers w).phase≠.handling b := by
    intro w hw b hp
    have hfinish := hs (.finish w) rfl
    simp [eventStep,hp,hw] at hfinish
  have hpending : s.pending=0 := by
    have hzero : tally Worker.busy s.workers s.nextWorker=0 := by
      rw [tally_eq_zero]
      intro w hw
      cases hp : (s.workers w).phase with
      | handling b => exact absurd hp (hidle w hw b)
      | waiting => simp [Worker.busy,hp]
      | taken => simp [Worker.busy,hp]
      | done => simp [Worker.busy,hp]
    have hkeyless : s.keyless=0 := by
      by_contra hne
      have hpos : 0 < s.keyless := by omega
      have hfinish := hs .keylessFinish rfl
      simp [eventStep,hpos] at hfinish
    rw [h.permits.used,hzero,hkeyless]
  have hfree : ∀w < s.nextWorker,∀b,(s.workers w).phase≠.taken b := by
    intro w hw b hp
    have hpos := h.permits.positive
    have hroom : s.pending < s.maxPending := by omega
    have henter := hs (.enter w) rfl
    simp [eventStep,hp,hw,hroom] at henter
  cases hst : s.stageOf e with
  | started => exact Or.inl ((h.log.mem e).mpr ⟨he,hst⟩)
  | discarded why => exact Or.inr ⟨why,rfl⟩
  | inFlight =>
    have hfl := h.flight.kept e he hst
    rw [hnone] at hfl
    cases hfl
  | taken =>
    obtain ⟨w,hw,hp⟩ := h.holders.held e he hst
    exact absurd hp (hfree w hw e)
  | queued =>
    have hmem := h.queues.kept e he hst
    have hserved : s.served (s.keyOf e)=true := by
      cases h.served hacc (s.keyOf e) (List.ne_nil_of_mem hmem) with
      | inl hserved => exact hserved
      | inr hfl =>
        obtain ⟨b,hb,_⟩ := hfl
        rw [hnone] at hb
        cases hb
    obtain ⟨w,hw,hk,hp⟩ := live_of_served h hserved
    cases hphase : (s.workers w).phase with
    | done => exact absurd hphase hp
    | taken b => exact absurd hphase (hfree w hw b)
    | handling b => exact absurd hphase (hidle w hw b)
    | waiting =>
      have htake := hs (.take w) rfl
      rw [←hk] at hmem
      cases hq : s.queues (s.workers w).key with
      | nil =>
        rw [hq] at hmem
        cases hmem
      | cons b rest => simp [eventStep,hphase,hw,hq] at htake

structure QueueGuarantee (s : EventClient κ) : Prop where
  single : ∀v < s.nextWorker,∀w < s.nextWorker,∀a b,(s.workers v).phase=.handling a →
    (s.workers w).phase=.handling b → s.keyOf a=s.keyOf b → v=w ∧ a=b
  arrival : s.started.Pairwise (fun a b => s.keyOf a=s.keyOf b → a<b)
  once : s.started.Nodup
  handled : ∀e,e∈s.started ↔ e < s.next ∧ s.stageOf e=.started
  attended : ∀k,s.queues k≠[] → (∃w < s.nextWorker,(s.workers w).key=k ∧ (s.workers w).phase≠.done) ∨
    (∃e,s.inFlight=some (e,true) ∧ s.keyOf e=k) ∨ s.accepting=false
  identity : ∀a t,eventStep s a=some t → ∀e < s.next,t.keyOf e=s.keyOf e
  final : ∀a t,eventStep s a=some t → ∀e < s.next,
    (s.stageOf e=.started ∨ ∃why,s.stageOf e=.discarded why) → t.stageOf e=s.stageOf e
  justified : ∀a t,eventStep s a=some t → ∀e < s.next,∀why,
    t.stageOf e=.discarded why → s.stageOf e=.discarded why ∨ Justified s a e why
  bounded : ∀as t,(∀a∈as,a.internal=true) → execute eventStep s as=some t → as.length ≤ s.work
  settled : Settled s → ∀e < s.next,
    e∈s.started ∨ (∃why,s.stageOf e=.discarded why) ∨ s.accepting=false

/-- Every interleaving keeps the order of each key, loses an event only for a reason and leaves no
queue alone. -/
theorem event_queues_serve (s : EventClient κ) (h : Reach eventStep Free Initial s) :
    QueueGuarantee s := by
  have hinv := reach_queueInv h
  have hmoves {a : EventAct κ} {t : EventClient κ} (hs : eventStep s a=some t) {e : Nat}
      (he : e < s.next) := step_move hs e he
  constructor
  · intro v hv w hw a b hpv hpw hk
    have hkv := (hinv.holders.handling v hv a hpv).2.2
    have hkw := (hinv.holders.handling w hw b hpw).2.2
    have hvw : v=w := hinv.tasks.unique hv hw (by simp [hpv]) (by simp [hpw]) (by rw [←hkv,←hkw,hk])
    rw [hvw,hpw] at hpv
    exact ⟨hvw,(WorkerPhase.handling.inj hpv).symm⟩
  · exact hinv.log.ordered
  · exact hinv.log.nodup
  · exact hinv.log.mem
  · intro k hk
    by_cases hacc : s.accepting=true
    · cases hinv.served hacc k hk with
      | inl hserved => exact Or.inl (live_of_served hinv hserved)
      | inr hflight => exact Or.inr (Or.inl hflight)
    · exact Or.inr (Or.inr (by simpa using hacc))
  · intro a t hs e he
    rcases hmoves hs he with hsame | ⟨stage,_,hmoved⟩
    · rw [EventClient.keyOf,hsame]
    · rw [EventClient.keyOf,hmoved]
  · intro a t hs e he hend
    rcases hmoves hs he with hsame | ⟨stage,hm,_⟩
    · rw [EventClient.stageOf,hsame]
    · obtain ⟨hnot,hnot'⟩ := hm.source hinv
      rcases hend with hend | ⟨why,hend⟩
      · exact absurd hend hnot
      · exact absurd hend (hnot' why)
  · intro a t hs e he why hd
    rcases hmoves hs he with hsame | ⟨stage,hm,hmoved⟩
    · left
      rw [EventClient.stageOf,hsame] at hd
      exact hd
    · right
      rw [EventClient.stageOf,hmoved] at hd
      exact hm.justified hinv he why hd
  · intro as t hint hex
    refine length_le_of_decreasing (P := QueueInv) EventClient.work ?_ ?_ as hint hinv hex
    · exact fun _ _ _ hi hs => step_inv hi hs
    · exact fun _ _ _ hi ha hs => work_decreases hi ha hs
  · intro hs e he
    by_cases hacc : s.accepting=true
    · cases settled_events hinv hs hacc he with
      | inl hstarted => exact Or.inl hstarted
      | inr hdropped => exact Or.inr (Or.inl hdropped)
    · exact Or.inr (Or.inr (by simpa using hacc))

/-- A queue of one place: the second waiting event pushes the first one out. -/
theorem event_queues_serve_example :
    ∃s,execute eventStep (EventClient.new 1 1 7)
      [.dispatch 7 0,.put,.ensure,.take 0,.enter 0,.dispatch 7 0,.put,.ensure,.dispatch 7 0,.put,
        .ensure,.finish 0,.take 0,.enter 0]=some s ∧ s.started=[0,2] ∧ QueueGuarantee s := by
  obtain ⟨s,hs,hl⟩ : ∃s,execute eventStep (EventClient.new 1 1 7)
      [.dispatch 7 0,.put,.ensure,.take 0,.enter 0,.dispatch 7 0,.put,.ensure,.dispatch 7 0,.put,
        .ensure,.finish 0,.take 0,.enter 0]=some s ∧ s.started=[0,2] := ⟨_,rfl,by decide⟩
  have hinit : Reach eventStep Free Initial (EventClient.new 1 1 7) :=
    .start (new_initial _ _ _ (by decide))
  exact ⟨s,hs,hl,event_queues_serve s (Reach.execute _ (fun _ _ _ => trivial) hinit hs)⟩

end XiaoQing.OneBot
