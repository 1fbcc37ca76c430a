import XiaoQing.Codex.Ledger

namespace XiaoQing.Codex

open Function (update update_apply)
open Framework

variable {s t : State} {l : Label} {w j : Nat}

structure Starts (s : State) : Prop where
  once : s.starts.Nodup
  started : ∀j∈s.starts,j∈s.claims
  unique : ∀w w' j,(s.tasks w).point.job?=some j → (s.tasks w').point.job?=some j → w=w'
  preparing : ∀w j,(s.tasks w).point=.executing j .preparing → j∉s.starts
  authorized : ∀w j,(s.tasks w).point=.executing j .prompted → (s.jobs j).promptStarted=true
  prompted : ∀j∈s.prompts,j∈s.claims ∧ (s.jobs j).promptStarted=true

theorem Starts.initial (c : Config) : Starts (State.initial c) := by
  constructor <;> simp [State.initial,Point.job?]

variable {f : Job → Job}

theorem Starts.setJob (h : Starts s)
    (hf : ∀x,x.promptStarted=true → (f x).promptStarted=true) : Starts (s.setJob j f) := by
  obtain ⟨ho,hs,hu,hp,ha,hr⟩ := h
  constructor <;> simp only [State.setJob,update_apply] at * <;> grind

theorem Starts.dropQueued {p : Label → Bool} (h : Starts s) : Starts (s.dropQueued p) := by
  obtain ⟨ho,hs,hu,hp,ha,hr⟩ := h
  constructor <;> simp only [State.dropQueued,State.markJobCancelled] at * <;> grind

theorem Starts.cancelRuntimeJob (h : Starts s) : Starts (s.cancelRuntimeJob j) := by
  unfold State.cancelRuntimeJob
  split_ifs
  · exact h
  · exact h.setJob (fun _ hx => hx)

theorem Starts.setPoint {p : Point} (h : Starts s)
    (hj : ∀j,p.job?=some j → (s.tasks w).point.job?=some j)
    (hp : ∀j,p≠.executing j .preparing) (ha : ∀j,p=.executing j .prompted →
      (s.jobs j).promptStarted=true) : Starts (s.setPoint w p) := by
  obtain ⟨ho,hs,hu,hpr,hau,hr⟩ := h
  constructor <;> simp only [State.setPoint,update_apply] at * <;> grind

theorem Starts.acknowledge (h : Starts s) : Starts (s.acknowledge w) := by
  obtain ⟨ho,hs,hu,hp,ha,hr⟩ := h
  constructor <;> simp only [State.acknowledge,update_apply] at * <;> grind

theorem Starts.cancelWorkers {p : Nat → Bool} (h : Starts s) : Starts (s.cancelWorkers p) := by
  obtain ⟨ho,hs,hu,hp,ha,hr⟩ := h
  constructor <;> simp only [State.cancelWorkers] at * <;> grind

theorem Starts.enqueueJob {r : Session} {overhead : Bool} {time : Nat} (h : Starts s)
    (hq : Queues s) (hh : Holds s) : Starts (s.enqueueJob l r overhead time) := by
  have he : Starts (s.ensureWorker l) := by
    obtain ⟨ho,hs,hu,hp,ha,hr⟩ := h
    unfold State.ensureWorker
    split_ifs
    · constructor <;> assumption
    · constructor <;> simp only [update_apply] at * <;> grind [Point.job?]
  have hk := (hh.ensureWorker (l := l)).held
  have hc : (s.ensureWorker l).claims=s.claims ∧ (s.ensureWorker l).accepted=s.accepted := by
    unfold State.ensureWorker
    split_ifs <;> exact ⟨rfl,rfl⟩
  have hold (k : Nat) (hm : k∈(s.ensureWorker l).claims) :
      (s.enqueueJob l r overhead time).jobs k=(s.ensureWorker l).jobs k := by
    have hlt := (hq.claimed k (hc.1 ▸ hm)).1
    exact Function.update_of_ne (by rw [hc.2]; omega) _ _
  refine ⟨he.once,he.started,he.unique,he.preparing,fun w k hp => ?_,fun k hm => ?_⟩
  · rw [hold k (hk w k (by rw [show ((s.ensureWorker l).tasks w).point=_ from hp]; rfl)).1]
    exact he.authorized w k hp
  · have hp := he.prompted k hm
    exact ⟨hp.1,by rw [hold k hp.1]; exact hp.2⟩

theorem Starts.take {rest : List Nat} (h : Starts s) (hq : Queues s) (hh : Holds s)
    (hj : s.queues (s.labelOf w)=j::rest) : Starts ((s.popQueue (s.labelOf w)).takeJob w j) := by
  have hn : j∉s.claims := by
    intro hm
    have hl := (hq.queued (s.labelOf w) j (by simp [hj])).2.1
    exact hq.not_queued hm (by rw [hl,hj]; exact List.mem_cons_self)
  have hk := hh.held
  obtain ⟨ho,hs,hu,hp,ha,hr⟩ := h
  constructor <;>
    simp only [State.popQueue,State.takeJob,State.setJob,State.setPoint,State.labelOf,update_apply,
      List.mem_cons] at * <;> grind [Point.job?]

theorem Starts.rework {p : Point} (h : Starts s)
    (hf : ∀x,x.promptStarted=true → (f x).promptStarted=true)
    (hj : ∀j,p.job?=some j → (s.tasks w).point.job?=some j)
    (hp : ∀j,p≠.executing j .preparing) (ha : ∀k,p=.executing k .prompted →
      ((s.setJob j f).jobs k).promptStarted=true) : Starts ((s.setJob j f).setPoint w p) :=
  (h.setJob hf).setPoint hj hp ha

theorem Starts.startJob {cwdValid : Bool} (h : Starts s) (hh : Holds s)
    (hp : (s.tasks w).point=.executing j .preparing) : Starts (s.startJob w j cwdValid) := by
  have hj := (hh.held w j (by rw [hp]; rfl)).1
  have hn := h.preparing w j hp
  unfold State.startJob
  split_ifs
  · have hu := h.unique
    have hr : Starts ((s.setJob j (fun x => {x with status := .starting})).setPoint w
        (.executing j .spawning)) :=
      h.rework (fun _ hx => hx) (by simp [hp,Point.job?]) (by simp) (by simp)
    refine ⟨List.nodup_cons.mpr ⟨hn,hr.once⟩,?_,hr.unique,?_,hr.authorized,hr.prompted⟩
    · intro k hk
      rcases List.mem_cons.mp hk with rfl | hk
      · exact hj
      · exact h.started k hk
    · intro w' k hk hm
      have hk' := hk
      rcases List.mem_cons.mp hm with rfl | hm
      · have he := hr.unique w' w k (by rw [hk]; rfl) (by simp [State.setPoint,Point.job?])
        subst he
        simp [State.setPoint] at hk
      · exact hr.preparing w' k hk' hm
  · exact h.rework (fun _ hx => hx) (by simp [hp,Point.job?]) (by simp) (by simp)
  · exact h.rework (fun _ hx => hx) (by simp [hp,Point.job?]) (by simp) (by simp)

theorem Starts.effect {a : Act} (h : Starts s) (hq : Queues s) (hh : Holds s)
    (ha : Effect s a t) : Starts t := by
  cases ha with
  | enqueue => exact h.enqueueJob hq hh
  | @dequeue _ _ j | @dequeueAgent j =>
    have hs : Starts (s.setJob j State.markJobCancelled) := h.setJob (fun _ hx => hx)
    exact ⟨hs.once,hs.started,hs.unique,hs.preparing,hs.authorized,hs.prompted⟩
  | cancel | cancelAgent | shutdownCancels => exact h.cancelRuntimeJob
  | clearQueue => exact h.dropQueued
  | @delete _ l =>
    have hd := h.dropQueued (p := (·==l))
    exact ⟨hd.once,hd.started,hd.unique,hd.preparing,hd.authorized,hd.prompted⟩
  | @deleteForced d l _ _ r =>
    have hd := h.dropQueued (p := (·==l))
    have hm : Starts (s.markDeleting d l r) :=
      ⟨hd.once,hd.started,hd.unique,hd.preparing,hd.authorized,hd.prompted⟩
    exact hm.cancelRuntimeJob
  | interruptDeletion | interruptShutdown => exact h.cancelWorkers
  | @expire l _ archived =>
    unfold State.expireRecord
    split_ifs
    · have hm : Starts ((s.markExpired l).removeSession l true) :=
        ⟨h.once,h.started,h.unique,h.preparing,h.authorized,h.prompted⟩
      exact hm.cancelWorkers
    · exact ⟨h.once,h.started,h.unique,h.preparing,h.authorized,h.prompted⟩
  | beginShutdown =>
    have hd := h.dropQueued (p := fun _ => true)
    exact ⟨hd.once,hd.started,hd.unique,hd.preparing,hd.authorized,hd.prompted⟩
  | create | abandonDeletion | finishDeletion | reconfigure | abandonShutdown | finishShutdown =>
    exact ⟨h.once,h.started,h.unique,h.preparing,h.authorized,h.prompted⟩
  | deliverKill => exact h.acknowledge.setPoint (by simp [Point.job?]) (by simp) (by simp)
  | deliverSettle _ hp =>
    exact h.acknowledge.rework (fun _ hx => hx) (by simp [State.acknowledge,hp,Point.job?])
      (by simp; split_ifs <;> simp) (by simp; split_ifs <;> simp)
  | deliverUnwind _ hp =>
    exact h.acknowledge.setPoint (by simp [State.acknowledge,hp,Point.job?]) (by simp) (by simp)
  | deliverHold _ hp =>
    exact h.acknowledge.setPoint (by simp [State.acknowledge,hp,Point.job?]) (by simp) (by simp)
  | @retire w =>
    have hr : Starts (s.setPoint w .dead) := h.setPoint (by simp [Point.job?]) (by simp) (by simp)
    exact ⟨hr.once,hr.started,hr.unique,hr.preparing,hr.authorized,hr.prompted⟩
  | @skip w j =>
    have hs : Starts (s.setJob j State.markJobCancelled) := h.setJob (fun _ hx => hx)
    have hp : Starts ((s.popQueue (s.labelOf w)).setJob j State.markJobCancelled) :=
      ⟨hs.once,hs.started,hs.unique,hs.preparing,hs.authorized,hs.prompted⟩
    exact hp.setPoint (by simp [Point.job?]) (by simp) (by simp)
  | take _ hj => exact h.take hq hh hj
  | start hp => exact h.startJob hh hp
  | register hp =>
    exact h.rework (fun _ hx => hx) (by simp [hp,Point.job?]) (by split_ifs <;> simp)
      (by split_ifs <;> simp)
  | @authorize w j hp =>
    refine h.rework (fun x hx => by simp [hx]) (by simp [hp,Point.job?]) (by split_ifs <;> simp) ?_
    intro k hk
    split_ifs at hk with hm
    · cases hk
      simp [State.setJob,hm]
    · cases hk
  | @sendPrompt w j hp =>
    have hr : Starts (s.setPoint w (.executing j .conversing)) :=
      h.setPoint (by simp [hp,Point.job?]) (by simp) (by simp)
    refine ⟨hr.once,hr.started,hr.unique,hr.preparing,hr.authorized,fun k hk => ?_⟩
    rcases List.mem_cons.mp hk with rfl | hk
    · exact ⟨(hh.held w k (by rw [hp]; rfl)).1,h.authorized w k hp⟩
    · exact h.prompted k hk
  | conclude hp | settled hp =>
    exact h.setPoint (by simp [hp,Point.job?]) (by simp) (by simp)
  | @unwound w j hp =>
    exact h.rework (fun _ hx => hx) (by simp [hp,Point.job?]) (by split_ifs <;> simp)
      (by split_ifs <;> simp)
  | @finalize w j r time hp =>
    have hr : Starts ((s.setJob j (fun x => {x with
        status := if x.cancelRequested || r.cancelled then .cancelled
          else if r.timedOut || !r.succeeded then .failed else .done
        process := false
        spawnHandoff := true})).setPoint w (.collecting j false)) :=
      h.rework (fun _ hx => hx) (by simp [hp,Point.job?]) (by simp) (by simp)
    exact ⟨hr.once,hr.started,hr.unique,hr.preparing,hr.authorized,hr.prompted⟩
  | finish _ hp =>
    exact h.rework (fun _ hx => hx) (by split_ifs <;> simp [hp,Point.job?])
      (by split_ifs <;> simp) (by split_ifs <;> simp)

/-! A recorded cancellation is never taken back, and nothing is authorised after it. -/

structure Job.Later (x y : Job) : Prop where
  label : y.label=x.label
  incarnation : y.incarnation=x.incarnation
  cancelled : x.cancelRequested=true → y.cancelRequested=true
  authorized : x.cancelRequested=true → y.promptStarted=true → x.promptStarted=true

theorem Job.Later.refl (x : Job) : x.Later x := ⟨rfl,rfl,id,fun _ => id⟩

theorem Job.Later.trans {x y z : Job} (h : x.Later y) (h' : y.Later z) : x.Later z :=
  ⟨h'.label.trans h.label,h'.incarnation.trans h.incarnation,fun hc => h'.cancelled (h.cancelled hc),
    fun hc hp => h.authorized hc (h'.authorized (h.cancelled hc) hp)⟩

def Later (s t : State) : Prop :=
  s.accepted≤ t.accepted ∧ ∀j < s.accepted,(s.jobs j).Later (t.jobs j)

variable {u : State}

theorem Later.of_jobs (ha : u.accepted=s.accepted) (hj : u.jobs=s.jobs) : Later s u :=
  ⟨Nat.le_of_eq ha.symm,fun _ _ => hj ▸ .refl _⟩

theorem Later.setJob (hf : (s.jobs j).Later (f (s.jobs j)))
    (ha : u.accepted=s.accepted) (hu : u.jobs=(s.setJob j f).jobs) : Later s u := by
  refine ⟨Nat.le_of_eq ha.symm,fun k _ => ?_⟩
  rw [hu]
  by_cases hk : k=j
  · subst hk
    simpa [State.setJob] using hf
  · rw [show (s.setJob j f).jobs k=s.jobs k from Function.update_of_ne hk _ _]
    exact .refl _

theorem Later.dropQueued {p : Label → Bool} (ha : u.accepted=s.accepted)
    (hu : u.jobs=(s.dropQueued p).jobs) : Later s u := by
  refine ⟨Nat.le_of_eq ha.symm,fun k _ => ?_⟩
  rw [hu]
  simp only [State.dropQueued]
  split_ifs
  · exact ⟨rfl,rfl,fun _ => rfl,fun _ hp => hp⟩
  · exact .refl _

theorem Later.cancelRuntimeJob (s : State) (j : Nat) : Later s (s.cancelRuntimeJob j) := by
  unfold State.cancelRuntimeJob
  split_ifs
  · exact .of_jobs rfl rfl
  · exact .setJob (f := fun x => {x with
      cancelRequested := true
      status := if x.status=.starting ∨ x.status=.running then .cancelling else x.status})
      ⟨rfl,rfl,fun _ => rfl,fun _ hp => hp⟩ rfl rfl

theorem Later.trans (h : Later s t) (h' : Later t u) : Later s u :=
  ⟨Nat.le_trans h.1 h'.1,fun j hj => (h.2 j hj).trans (h'.2 j (Nat.lt_of_lt_of_le hj h.1))⟩

theorem later_effect {a : Act} (ha : Effect s a t) : Later s t := by
  cases ha with
  | @enqueue l r overhead _ _ time =>
    have hj : (s.ensureWorker l).jobs=s.jobs ∧ (s.ensureWorker l).accepted=s.accepted := by
      unfold State.ensureWorker
      split_ifs <;> exact ⟨rfl,rfl⟩
    refine ⟨by simp [State.enqueueJob,hj.2],fun k hk => ?_⟩
    rw [show (s.enqueueJob l r overhead time).jobs k=(s.ensureWorker l).jobs k from
      Function.update_of_ne (by rw [hj.2]; omega) _ _,hj.1]
    exact .refl _
  | @dequeue _ _ j | @dequeueAgent j | @skip _ j =>
    exact .setJob (j := j) (f := State.markJobCancelled) ⟨rfl,rfl,fun _ => rfl,fun _ hp => hp⟩
      rfl rfl
  | cancel | cancelAgent | shutdownCancels => exact .cancelRuntimeJob s _
  | @clearQueue l | @delete _ l => exact .dropQueued (p := (·==l)) rfl rfl
  | @deleteForced d l _ _ r =>
    have hm : Later s (s.markDeleting d l r) := .dropQueued (p := (·==l)) rfl rfl
    exact hm.trans (.cancelRuntimeJob _ _)
  | @expire l _ archived =>
    unfold State.expireRecord
    split_ifs <;> exact .of_jobs rfl rfl
  | beginShutdown => exact .dropQueued (p := fun _ => true) rfl rfl
  | create | interruptDeletion | abandonDeletion | finishDeletion | reconfigure | interruptShutdown
  | abandonShutdown | finishShutdown | deliverKill | deliverUnwind | deliverHold | retire | sendPrompt
  | conclude | settled => exact .of_jobs rfl rfl
  | @deliverSettle w j | @unwound w j =>
    exact .setJob (j := j) (f := fun x => {x with cancelRequested := true})
      ⟨rfl,rfl,fun _ => rfl,fun _ hp => hp⟩ rfl rfl
  | @take w j =>
    exact .setJob (j := j) (f := fun x => {x with status := .queued}) ⟨rfl,rfl,id,fun _ => id⟩ rfl rfl
  | @start w cwdValid j =>
    unfold State.startJob
    split_ifs
    · exact .setJob (j := j) (f := fun x => {x with status := .starting}) ⟨rfl,rfl,id,fun _ => id⟩
        rfl rfl
    · exact .setJob (j := j) (f := fun x => {x with status := .starting}) ⟨rfl,rfl,id,fun _ => id⟩
        rfl rfl
    · exact .setJob (j := j) (f := fun x => {x with cancelRequested := true})
        ⟨rfl,rfl,fun _ => rfl,fun _ hp => hp⟩ rfl rfl
  | @register w j =>
    exact .setJob (j := j) (f := fun x => {x with
      process := true
      status := if s.mayGoOn w j then .starting else .cancelling
      spawnHandoff := true}) ⟨rfl,rfl,id,fun _ => id⟩ rfl rfl
  | @authorize w j =>
    refine .setJob (j := j) (f := fun x => {x with
      promptStarted := x.promptStarted || (s.mayGoOn w j && (s.jobs j).spawnHandoff)
      status := if s.mayGoOn w j && (s.jobs j).spawnHandoff then .running else .cancelling})
      ⟨rfl,rfl,id,fun hc hp => ?_⟩ rfl rfl
    simpa [State.mayGoOn,hc] using hp
  | @finalize w j r =>
    exact .setJob (j := j) (f := fun x => {x with
      status := if x.cancelRequested || r.cancelled then .cancelled
        else if r.timedOut || !r.succeeded then .failed else .done
      process := false
      spawnHandoff := true}) ⟨rfl,rfl,id,fun _ => id⟩ rfl rfl
  | @finish w j =>
    exact .setJob (j := j) (f := fun x => {x with spawnHandoff := true,finished := true})
      ⟨rfl,rfl,id,fun _ => id⟩ rfl rfl

theorem later_execute {as : List Act} (h : execute State.step s as=some t) : Later s t := by
  induction as generalizing s with
  | nil =>
    cases h
    exact .of_jobs rfl rfl
  | cons a as ih =>
    obtain ⟨u,hu,hrest⟩ := Option.bind_eq_some_iff.mp h
    exact (later_effect (effect_of_step hu)).trans (ih hrest)

end XiaoQing.Codex
