import XiaoQing.Codex.Effects
import XiaoQing.Framework.Run

namespace XiaoQing.Codex

open Function (update update_apply)
open Framework

def Point.job? : Point → Option Nat
  | .executing j _ | .collecting j _ | .sending j => some j
  | .fresh | .claiming | .dead => none

structure Queues (s : State) : Prop where
  queued : ∀l,∀j∈s.queues l,j < s.accepted ∧ (s.jobs j).label=l ∧ (s.jobs j).status=.queued ∧
    (s.jobs j).cancelRequested=false ∧ (s.jobs j).finished=false
  owned : ∀l,∀j∈s.queues l,∃r,s.sessions l=some r ∧ (s.jobs j).incarnation=r.incarnation
  closed : ∀l,s.closing l=true → s.queues l=[]
  sorted : ∀l,(s.queues l).Pairwise (·<·)
  claimed : ∀k∈s.claims,k < s.accepted ∧ ∀j∈s.queues (s.jobs k).label,k<j

structure Holds (s : State) : Prop where
  running : ∀l j,s.running l=some j → j∈s.claims ∧ (s.jobs j).label=l
  held : ∀w j,(s.tasks w).point.job?=some j → j∈s.claims ∧ (s.jobs j).label=s.labelOf w
  unborn : ∀w,s.spawned≤ w → (s.tasks w).point=.dead
  workers : ∀l w,s.workers l=some w → w < s.spawned ∧ s.labelOf w=l
  captured : ∀d x w,s.deletions d=some x → x.worker=some w → w < s.spawned ∧ s.labelOf w=x.label
  closing : ∀k x,s.shutdowns k=some x → ∀j∈x.jobs,j∈s.claims

structure Numbered (s : State) : Prop where
  live : ∀l r,s.sessions l=some r → r.incarnation+1=s.incarnations l
  jobs : ∀j < s.accepted,(s.jobs j).incarnation < s.incarnations (s.jobs j).label
  history : ∀l,∀k∈s.history l,k < s.incarnations l

variable {s t : State} {l : Label} {w j : Nat}

theorem Queues.not_queued (h : Queues s) (hj : j∈s.claims) : j∉s.queues (s.jobs j).label :=
  fun hm => absurd ((h.claimed j hj).2 j hm) (Nat.lt_irrefl j)

theorem Queues.nodup (h : Queues s) : (s.queues l).Nodup := (h.sorted l).imp Nat.ne_of_lt

theorem cancelRuntimeJob_eq (s : State) (j : Nat) :
    ∃f,s.cancelRuntimeJob j={s with jobs := f} ∧ (∀k,k≠j → f k=s.jobs k) ∧
      ∀k,(f k).status.terminal=(s.jobs k).status.terminal ∧ (f k).finished=(s.jobs k).finished ∧
        (f k).label=(s.jobs k).label ∧ (f k).incarnation=(s.jobs k).incarnation := by
  unfold State.cancelRuntimeJob
  split_ifs
  · exact ⟨s.jobs,rfl,fun _ _ => rfl,fun _ => ⟨rfl,rfl,rfl,rfl⟩⟩
  · refine ⟨_,rfl,fun k hk => Function.update_of_ne hk _ _,fun k => ?_⟩
    by_cases hk : k=j
    · subst hk
      cases hs : (s.jobs k).status <;> simp [hs,Status.terminal]
    · simp [hk]

section Queues

theorem Queues.createRecord {time : Nat} {noted : Bool} (h : Queues s) (hl : s.sessions l=none) :
    Queues (s.createRecord l time noted) := by
  obtain ⟨hq,ho,hc,hs,hk⟩ := h
  constructor <;> simp only [State.createRecord,State.closing,update_apply] at * <;> grind

theorem Queues.setJob {f : Job → Job} (h : Queues s) (hj : j∉s.queues (s.jobs j).label)
    (hf : ∀x,(f x).label=x.label) : Queues (s.setJob j f) := by
  obtain ⟨hq,ho,hc,hs,hk⟩ := h
  constructor <;> simp only [State.setJob,State.closing,update_apply] at * <;> grind

theorem Queues.cancelRuntimeJob (h : Queues s) (hj : j∉s.queues (s.jobs j).label) :
    Queues (s.cancelRuntimeJob j) := by
  unfold State.cancelRuntimeJob
  split_ifs
  · exact h
  · exact h.setJob hj (fun _ => rfl)

theorem Queues.dequeue (h : Queues s) (hj : j∈s.queues (s.jobs j).label) :
    Queues (s.dequeue j) := by
  have hm (k : Nat) : k∈(s.queues (s.jobs j).label).erase j ↔
      k≠j ∧ k∈s.queues (s.jobs j).label := h.nodup.mem_erase_iff
  have hp := (h.sorted (s.jobs j).label).sublist (List.erase_sublist (a := j))
  obtain ⟨hq,ho,hc,hs,hk⟩ := h
  constructor <;>
    simp only [State.dequeue,State.setJob,State.closing,State.markJobCancelled,update_apply] at * <;>
    grind

theorem Queues.dropQueued {p : Label → Bool} (h : Queues s) : Queues (s.dropQueued p) := by
  obtain ⟨hq,ho,hc,hs,hk⟩ := h
  constructor <;> simp only [State.dropQueued,State.closing,State.markJobCancelled] at * <;> grind

theorem Queues.shut {u : State} {p : Label → Bool} (h : Queues (s.dropQueued p))
    (hu : u.jobs=(s.dropQueued p).jobs ∧ u.queues=(s.dropQueued p).queues ∧
      u.sessions=s.sessions ∧ u.claims=s.claims ∧ u.accepted=s.accepted)
    (hc : ∀l,u.closing l=true → s.closing l=true ∨ p l=true) : Queues u := by
  obtain ⟨hq,ho,hcl,hs,hk⟩ := h
  obtain ⟨h1,h2,h3,h4,h5⟩ := hu
  constructor <;> simp only [h1,h2,h3,h4,h5] <;> try assumption
  intro l hl
  rcases hc l hl with h | h
  · exact hcl l h
  · simp [State.dropQueued,h]

theorem Queues.markDeleting {d : Nat} {r : Session} (h : Queues s) :
    Queues (s.markDeleting d l r) := by
  refine h.dropQueued.shut (p := (·==l)) ⟨rfl,rfl,rfl,rfl,rfl⟩ (fun m hm => ?_)
  simp only [State.markDeleting,State.dropQueued,State.closing,update_apply] at hm ⊢
  grind

theorem Queues.close {k : Nat} (h : Queues s) : Queues (s.close k) :=
  h.dropQueued.shut (p := fun _ => true) ⟨rfl,rfl,rfl,rfl,rfl⟩ (fun _ _ => .inr rfl)

theorem Queues.enqueueJob {r : Session} {overhead : Bool} {time : Nat} (h : Queues s)
    (hr : s.sessions l=some r) (hc : s.closing l=false) :
    Queues (s.enqueueJob l r overhead time) := by
  have he : Queues (s.ensureWorker l) ∧ (s.ensureWorker l).sessions=s.sessions ∧
      (s.ensureWorker l).closing l=false := by
    unfold State.ensureWorker
    split_ifs
    · exact ⟨h,rfl,hc⟩
    · exact ⟨⟨h.queued,h.owned,h.closed,h.sorted,h.claimed⟩,rfl,hc⟩
  obtain ⟨⟨hq,ho,hcl,hs,hk⟩,hse,hce⟩ := he
  rw [← hse] at hr
  constructor <;>
    simp only [State.enqueueJob,State.newJob,Job.blank,State.closing,update_apply] at * <;> grind

theorem Queues.removeSession {archived : Bool} (h : Queues s) :
    Queues (s.removeSession l archived) := by
  obtain ⟨hq,ho,hc,hs,hk⟩ := h
  constructor <;> simp only [State.removeSession,State.closing,update_apply] at * <;> grind

theorem Queues.expireRecord {archived : Bool} (h : Queues s) (hl : s.queues l=[]) :
    Queues (s.expireRecord l archived) := by
  have hm : Queues (s.markExpired l) := by
    refine ⟨h.queued,h.owned,?_,h.sorted,h.claimed⟩
    have hcl := h.closed
    simp only [State.markExpired,State.closing,update_apply] at hcl ⊢
    grind
  unfold State.expireRecord
  split_ifs
  · have hr : Queues ((s.markExpired l).removeSession l true) := hm.removeSession
    exact ⟨hr.queued,hr.owned,hr.closed,hr.sorted,hr.claimed⟩
  · exact hm

theorem Queues.skip {rest : List Nat} (h : Queues s) (hq : s.queues (s.labelOf w)=j::rest) :
    Queues (((s.popQueue (s.labelOf w)).setJob j State.markJobCancelled).setPoint w .claiming) := by
  have hp := h.sorted (s.labelOf w)
  rw [hq,List.pairwise_cons] at hp
  obtain ⟨hqd,ho,hc,hs,hk⟩ := h
  constructor <;>
    simp only [State.popQueue,State.setJob,State.setPoint,State.closing,State.markJobCancelled,
      update_apply] at * <;> grind

theorem Queues.take {rest : List Nat} (h : Queues s) (hq : s.queues (s.labelOf w)=j::rest) :
    Queues ((s.popQueue (s.labelOf w)).takeJob w j) := by
  have hp := h.sorted (s.labelOf w)
  rw [hq,List.pairwise_cons] at hp
  obtain ⟨hqd,ho,hc,hs,hk⟩ := h
  constructor <;>
    simp only [State.popQueue,State.takeJob,State.setJob,State.setPoint,State.closing,
      update_apply,List.mem_cons] at * <;> grind

theorem Queues.finalizeJob {r : Result} {time : Nat} (h : Queues s) (hj : j∈s.claims) :
    Queues (s.finalizeJob w j r time) := by
  have hn := h.not_queued hj
  obtain ⟨hq,ho,hc,hs,hk⟩ := h
  constructor <;>
    simp only [State.finalizeJob,State.setJob,State.setPoint,State.closing,update_apply] at * <;>
    grind

theorem Queues.rework {f : Job → Job} {p : Point} (h : Queues s) (hj : j∈s.claims)
    (hf : ∀x,(f x).label=x.label) : Queues ((s.setJob j f).setPoint w p) :=
  have hs := h.setJob (h.not_queued hj) hf
  ⟨hs.queued,hs.owned,hs.closed,hs.sorted,hs.claimed⟩

end Queues

theorem Queues.effect {a : Act} (h : Queues s) (hw : Holds s) (ha : Effect s a t) : Queues t := by
  cases ha with
  | create hl => exact h.createRecord hl
  | enqueue hr hc => exact h.enqueueJob hr hc
  | dequeue hj => exact h.dequeue ((h.queued _ _ hj).2.1.symm ▸ hj)
  | cancel hj => exact h.cancelRuntimeJob (h.not_queued (hw.running _ _ hj).1)
  | dequeueAgent hj => exact h.dequeue hj
  | cancelAgent _ hj => exact h.cancelRuntimeJob hj
  | clearQueue => exact h.dropQueued
  | delete => exact h.markDeleting
  | @deleteForced l _ _ _ r j _ hj =>
    refine h.markDeleting.cancelRuntimeJob (fun hm => ?_)
    refine h.markDeleting.not_queued ?_ hm
    exact (hw.running _ _ hj).1
  | interruptDeletion | abandonDeletion | reconfigure | interruptShutdown | abandonShutdown
  | finishShutdown | deliverKill | deliverUnwind | deliverHold | retire | sendPrompt | conclude
  | settled => exact ⟨h.queued,h.owned,h.closed,h.sorted,h.claimed⟩
  | @finishDeletion d archived x =>
    have hr : Queues (s.removeSession x.label archived) := h.removeSession
    exact ⟨hr.queued,hr.owned,hr.closed,hr.sorted,hr.claimed⟩
  | expire _ _ hq => exact h.expireRecord hq
  | beginShutdown => exact h.close
  | shutdownCancels hx hj => exact h.cancelRuntimeJob (h.not_queued (hw.closing _ _ hx _ hj))
  | @deliverSettle w j _ hp =>
    have hj := (hw.held w j (by rw [hp]; rfl)).1
    have hs : Queues (s.setJob j (fun x => {x with cancelRequested := true})) :=
      h.setJob (h.not_queued hj) (fun _ => rfl)
    exact ⟨hs.queued,hs.owned,hs.closed,hs.sorted,hs.claimed⟩
  | skip _ hq => exact h.skip hq
  | take _ hq => exact h.take hq
  | @start w cwdValid j hp =>
    have hj := (hw.held w j (by rw [hp]; rfl)).1
    unfold State.startJob
    split_ifs
    · have hs : Queues (s.setJob j (fun x => {x with status := .starting})) :=
        h.setJob (h.not_queued hj) (fun _ => rfl)
      exact ⟨hs.queued,hs.owned,hs.closed,hs.sorted,hs.claimed⟩
    · exact h.rework hj (fun _ => rfl)
    · exact h.rework hj (fun _ => rfl)
  | @register w j hp => exact h.rework (hw.held w j (by rw [hp]; rfl)).1 (fun _ => rfl)
  | @authorize w j hp => exact h.rework (hw.held w j (by rw [hp]; rfl)).1 (fun _ => rfl)
  | @unwound w j hp => exact h.rework (hw.held w j (by rw [hp]; rfl)).1 (fun _ => rfl)
  | @finalize w j r time hp => exact h.finalizeJob (hw.held w j (by rw [hp]; rfl)).1
  | @finish w j held _ hp => exact h.rework (hw.held w j (by rw [hp]; rfl)).1 (fun _ => rfl)

section Holds

theorem Holds.createRecord {time : Nat} {noted : Bool} (h : Holds s) :
    Holds (s.createRecord l time noted) :=
  ⟨h.running,h.held,h.unborn,h.workers,h.captured,h.closing⟩

theorem Holds.setJob {f : Job → Job} (h : Holds s) (hf : ∀x,(f x).label=x.label) :
    Holds (s.setJob j f) := by
  obtain ⟨hr,hh,hu,hw,hc,hk⟩ := h
  constructor <;> simp only [State.setJob,State.labelOf,update_apply] at * <;> grind

theorem Holds.cancelRuntimeJob (h : Holds s) : Holds (s.cancelRuntimeJob j) := by
  unfold State.cancelRuntimeJob
  split_ifs
  · exact h
  · exact h.setJob (fun _ => rfl)

theorem Holds.dequeue (h : Holds s) : Holds (s.dequeue j) :=
  have hs : Holds (s.setJob j State.markJobCancelled) := h.setJob (fun _ => rfl)
  ⟨hs.running,hs.held,hs.unborn,hs.workers,hs.captured,hs.closing⟩

theorem Holds.dropQueued {p : Label → Bool} (h : Holds s) : Holds (s.dropQueued p) := by
  have hl (j : Nat) : ((s.dropQueued p).jobs j).label=(s.jobs j).label := by
    simp only [State.dropQueued]
    split_ifs <;> rfl
  refine ⟨fun l j hj => ?_,fun w j hj => ?_,h.unborn,h.workers,h.captured,h.closing⟩
  · exact hl j ▸ h.running l j hj
  · exact hl j ▸ h.held w j hj

theorem Holds.setPoint {p : Point} (h : Holds s) (hw : (s.tasks w).point≠.dead)
    (hp : ∀j,p.job?=some j → j∈s.claims ∧ (s.jobs j).label=s.labelOf w) :
    Holds (s.setPoint w p) := by
  obtain ⟨hr,hh,hu,hw,hc,hk⟩ := h
  constructor <;> simp only [State.setPoint,State.labelOf,update_apply] at * <;> grind

theorem Holds.acknowledge (h : Holds s) : Holds (s.acknowledge w) := by
  obtain ⟨hr,hh,hu,hw,hc,hk⟩ := h
  constructor <;> simp only [State.acknowledge,State.labelOf,update_apply] at * <;> grind

theorem Holds.cancelWorkers {p : Nat → Bool} (h : Holds s) : Holds (s.cancelWorkers p) := by
  obtain ⟨hr,hh,hu,hw,hc,hk⟩ := h
  constructor <;> simp only [State.cancelWorkers,State.labelOf] at * <;> grind

theorem Holds.ensureWorker (h : Holds s) : Holds (s.ensureWorker l) := by
  unfold State.ensureWorker
  split_ifs
  · exact h
  · obtain ⟨hr,hh,hu,hw,hc,hk⟩ := h
    constructor <;> simp only [State.labelOf,update_apply] at * <;> grind [Point.job?]

theorem Holds.enqueueJob {r : Session} {overhead : Bool} {time : Nat} (h : Holds s)
    (hq : Queues s) : Holds (s.enqueueJob l r overhead time) := by
  have he := h.ensureWorker (l := l)
  have hk : ∀k∈(s.ensureWorker l).claims,k<(s.ensureWorker l).accepted := by
    unfold State.ensureWorker
    split_ifs <;> exact fun k hk => (hq.claimed k hk).1
  obtain ⟨hr,hh,hu,hw,hc,hs⟩ := he
  constructor <;> simp only [State.enqueueJob,State.labelOf,update_apply] at * <;> grind

theorem Holds.markDeleting {d : Nat} {r : Session} (h : Holds s) :
    Holds (s.markDeleting d l r) := by
  have hd : Holds {s with deletions := update s.deletions d (some ⟨l,r.incarnation,s.workers l⟩)} := by
    refine ⟨h.running,h.held,h.unborn,h.workers,?_,h.closing⟩
    have hc := h.captured
    have hw := h.workers
    simp only [State.labelOf,update_apply] at *
    grind
  have hq := hd.dropQueued (p := (·==l))
  exact ⟨hq.running,hq.held,hq.unborn,hq.workers,hq.captured,hq.closing⟩

theorem Holds.forgetDeletion {d : Nat} (h : Holds s) : Holds (s.forgetDeletion d) := by
  refine ⟨h.running,h.held,h.unborn,h.workers,?_,h.closing⟩
  have hc := h.captured
  simp only [State.forgetDeletion,State.labelOf,update_apply] at *
  grind

theorem Holds.forgetShutdown {k : Nat} (h : Holds s) : Holds (s.forgetShutdown k) := by
  refine ⟨h.running,h.held,h.unborn,h.workers,h.captured,?_⟩
  have hc := h.closing
  simp only [State.forgetShutdown,update_apply] at *
  grind

theorem Holds.markExpired (h : Holds s) : Holds (s.markExpired l) := by
  refine ⟨h.running,h.held,h.unborn,?_,h.captured,h.closing⟩
  have hw := h.workers
  simp only [State.markExpired,State.labelOf,update_apply] at *
  grind

theorem Holds.expireRecord {archived : Bool} (h : Holds s) : Holds (s.expireRecord l archived) := by
  have hm := h.markExpired (l := l)
  unfold State.expireRecord
  split_ifs
  · have hr : Holds ((s.markExpired l).removeSession l true) :=
      ⟨hm.running,hm.held,hm.unborn,hm.workers,hm.captured,hm.closing⟩
    exact hr.cancelWorkers
  · exact hm

theorem Holds.close {k : Nat} (h : Holds s) : Holds (s.close k) := by
  have hd := h.dropQueued (p := fun _ => true)
  refine ⟨hd.running,hd.held,hd.unborn,hd.workers,hd.captured,?_⟩
  intro k' x hx j hj
  simp only [State.close,State.dropQueued,update_apply] at hx
  split_ifs at hx
  · cases hx
    have hrun := (List.mem_filter.mp hj).2
    exact (h.running _ j (by simpa using hrun)).1
  · exact h.closing k' x hx j hj

theorem Holds.retire (h : Holds s) : Holds (s.retire w) := by
  obtain ⟨hr,hh,hu,hw,hc,hk⟩ := h
  constructor <;>
    simp only [State.retire,State.setPoint,State.labelOf,update_apply] at * <;> grind [Point.job?]

theorem Holds.take {rest : List Nat} (h : Holds s) (hq : Queues s) (hw : (s.tasks w).point≠.dead)
    (hj : s.queues (s.labelOf w)=j::rest) : Holds ((s.popQueue (s.labelOf w)).takeJob w j) := by
  have hl := (hq.queued (s.labelOf w) j (by simp [hj])).2.1
  obtain ⟨hr,hh,hu,hw,hc,hk⟩ := h
  constructor <;>
    simp only [State.popQueue,State.takeJob,State.setJob,State.setPoint,State.labelOf,update_apply,
      List.mem_cons] at * <;> grind [Point.job?]

theorem Holds.finalizeJob {r : Result} {time : Nat} (h : Holds s) (hw : (s.tasks w).point≠.dead)
    (hj : j∈s.claims ∧ (s.jobs j).label=s.labelOf w) : Holds (s.finalizeJob w j r time) := by
  obtain ⟨hr,hh,hu,hw,hc,hk⟩ := h
  constructor <;>
    simp only [State.finalizeJob,State.setJob,State.setPoint,State.labelOf,update_apply] at * <;>
    grind [Point.job?]

theorem Holds.rework {f : Job → Job} {p : Point} (h : Holds s) (hw : (s.tasks w).point≠.dead)
    (hj : j∈s.claims ∧ (s.jobs j).label=s.labelOf w) (hp : ∀k,p.job?=some k → k=j)
    (hf : ∀x,(f x).label=x.label) : Holds ((s.setJob j f).setPoint w p) := by
  refine (h.setJob hf).setPoint hw (fun k hk => ?_)
  cases hp k hk
  refine ⟨hj.1,?_⟩
  simpa [State.setJob,State.labelOf,hf] using hj.2

end Holds

theorem Holds.effect {a : Act} (h : Holds s) (hq : Queues s) (ha : Effect s a t) : Holds t := by
  cases ha with
  | create => exact h.createRecord
  | enqueue => exact h.enqueueJob hq
  | dequeue | dequeueAgent => exact h.dequeue
  | cancel | cancelAgent | shutdownCancels => exact h.cancelRuntimeJob
  | clearQueue => exact h.dropQueued
  | delete => exact h.markDeleting
  | deleteForced => exact h.markDeleting.cancelRuntimeJob
  | interruptDeletion | interruptShutdown => exact h.cancelWorkers
  | abandonDeletion => exact h.forgetDeletion
  | @finishDeletion d archived x =>
    have hr : Holds (s.removeSession x.label archived) :=
      ⟨h.running,h.held,h.unborn,h.workers,h.captured,h.closing⟩
    exact hr.forgetDeletion
  | expire => exact h.expireRecord
  | reconfigure => exact ⟨h.running,h.held,h.unborn,h.workers,h.captured,h.closing⟩
  | beginShutdown => exact h.close
  | abandonShutdown => exact h.forgetShutdown
  | finishShutdown =>
    have hr : Holds s.clearAll := by
      constructor
      · exact fun _ _ hj => nomatch hj
      · exact h.held
      · exact h.unborn
      · exact fun _ _ hw => nomatch hw
      · exact h.captured
      · exact h.closing
    exact hr.forgetShutdown
  | @deliverKill w _ hp =>
    have ha : ((s.acknowledge w).tasks w).point≠.dead := by simpa [State.acknowledge] using hp
    exact h.acknowledge.setPoint ha (fun _ hj => nomatch hj)
  | @deliverSettle w j _ hp =>
    have ha : ((s.acknowledge w).tasks w).point≠.dead := by simp [State.acknowledge,hp]
    refine h.acknowledge.rework ha ?_ (by simp [Point.job?]) (fun _ => rfl)
    exact h.acknowledge.held w j (by simp [State.acknowledge,hp,Point.job?])
  | @deliverUnwind w j stage _ hp =>
    have ha : ((s.acknowledge w).tasks w).point≠.dead := by simp [State.acknowledge,hp]
    refine h.acknowledge.setPoint ha (fun k hk => ?_)
    exact h.acknowledge.held w k (by simpa [State.acknowledge,hp,Point.job?] using hk)
  | @deliverHold w j held _ hp =>
    have ha : ((s.acknowledge w).tasks w).point≠.dead := by simp [State.acknowledge,hp]
    refine h.acknowledge.setPoint ha (fun k hk => ?_)
    exact h.acknowledge.held w k (by simpa [State.acknowledge,hp,Point.job?] using hk)
  | retire => exact h.retire
  | @skip w j rest hw =>
    have hp : Holds (s.popQueue (s.labelOf w)) :=
      ⟨h.running,h.held,h.unborn,h.workers,h.captured,h.closing⟩
    have hj : Holds ((s.popQueue (s.labelOf w)).setJob j State.markJobCancelled) :=
      hp.setJob (fun _ => rfl)
    exact hj.setPoint hw.not_dead (fun _ hk => nomatch hk)
  | take hw hj => exact h.take hq hw.not_dead hj
  | @start w cwdValid j hp =>
    have hd : (s.tasks w).point≠.dead := by simp [hp]
    have hj := h.held w j (by rw [hp]; rfl)
    unfold State.startJob
    split_ifs
    · have hr : Holds ((s.setJob j (fun x => {x with status := .starting})).setPoint w
          (.executing j .spawning)) := h.rework hd hj (by simp [Point.job?]) (fun _ => rfl)
      exact ⟨hr.running,hr.held,hr.unborn,hr.workers,hr.captured,hr.closing⟩
    · exact h.rework hd hj (by simp [Point.job?]) (fun _ => rfl)
    · exact h.rework hd hj (by simp [Point.job?]) (fun _ => rfl)
  | @register w j hp | @authorize w j hp | @unwound w j hp =>
    exact h.rework (by simp [hp]) (h.held w j (by rw [hp]; rfl)) (by simp [Point.job?])
      (fun _ => rfl)
  | @sendPrompt w j hp =>
    have hr : Holds (s.setPoint w (.executing j .conversing)) :=
      h.setPoint (by simp [hp]) (fun k hk => h.held w k (by rw [hp]; exact hk))
    exact ⟨hr.running,hr.held,hr.unborn,hr.workers,hr.captured,hr.closing⟩
  | @conclude w j r stage hp | @settled w j hp =>
    exact h.setPoint (by simp [hp]) (fun k hk => h.held w k (by rw [hp]; exact hk))
  | @finalize w j r time hp =>
    exact h.finalizeJob (by simp [hp]) (h.held w j (by rw [hp]; rfl))
  | @finish w j held _ hp =>
    refine h.rework (by simp [hp]) (h.held w j (by rw [hp]; rfl)) ?_ (fun _ => rfl)
    split_ifs <;> simp [Point.job?]

theorem Numbered.of_same {u : State} (h : Numbered s) (hi : u.incarnations=s.incarnations)
    (ha : u.accepted=s.accepted)
    (hj : ∀j,(u.jobs j).label=(s.jobs j).label ∧ (u.jobs j).incarnation=(s.jobs j).incarnation)
    (hs : ∀l r,u.sessions l=some r → ∃r',s.sessions l=some r' ∧ r'.incarnation=r.incarnation)
    (hh : ∀l,∀k∈u.history l,k∈s.history l) : Numbered u := by
  refine ⟨fun l r hr => ?_,fun j hlt => ?_,fun l k hk => ?_⟩
  · obtain ⟨r',hr',he⟩ := hs l r hr
    rw [hi,← he]
    exact h.live l r' hr'
  · rw [(hj j).1,(hj j).2,hi]
    exact h.jobs j (ha ▸ hlt)
  · rw [hi]
    exact h.history l k (hh l k hk)

theorem Numbered.setJob {f : Job → Job} (h : Numbered s)
    (hf : ∀x,(f x).label=x.label ∧ (f x).incarnation=x.incarnation) : Numbered (s.setJob j f) := by
  refine h.of_same rfl rfl (fun k => ?_) (fun l r hr => ⟨r,hr,rfl⟩) (fun _ _ hk => hk)
  simp only [State.setJob,update_apply]
  split_ifs with hk
  · exact hk ▸ hf _
  · exact ⟨rfl,rfl⟩

theorem Numbered.rework {f : Job → Job} {p : Point} (h : Numbered s)
    (hf : ∀x,(f x).label=x.label ∧ (f x).incarnation=x.incarnation) :
    Numbered ((s.setJob j f).setPoint w p) :=
  have hs := h.setJob (j := j) hf
  ⟨hs.live,hs.jobs,hs.history⟩

theorem Numbered.dropQueued {p : Label → Bool} (h : Numbered s) : Numbered (s.dropQueued p) := by
  refine h.of_same rfl rfl (fun k => ?_) (fun l r hr => ⟨r,hr,rfl⟩) (fun _ _ hk => hk)
  simp only [State.dropQueued]
  split_ifs <;> exact ⟨rfl,rfl⟩

theorem Numbered.cancelRuntimeJob (h : Numbered s) : Numbered (s.cancelRuntimeJob j) := by
  unfold State.cancelRuntimeJob
  split_ifs
  · exact h
  · exact h.setJob (fun _ => ⟨rfl,rfl⟩)

theorem Numbered.createRecord {time : Nat} {noted : Bool} (h : Numbered s) :
    Numbered (s.createRecord l time noted) := by
  obtain ⟨hl,hj,hh⟩ := h
  constructor <;> simp only [State.createRecord,update_apply] at * <;> grind

theorem Numbered.enqueueJob {r : Session} {overhead : Bool} {time : Nat} (h : Numbered s)
    (hr : s.sessions l=some r) : Numbered (s.enqueueJob l r overhead time) := by
  have he : Numbered (s.ensureWorker l) ∧ (s.ensureWorker l).sessions=s.sessions := by
    unfold State.ensureWorker
    split_ifs
    · exact ⟨h,rfl⟩
    · exact ⟨⟨h.live,h.jobs,h.history⟩,rfl⟩
  obtain ⟨⟨hl,hj,hh⟩,hse⟩ := he
  rw [← hse] at hr
  constructor <;>
    simp only [State.enqueueJob,State.newJob,Job.blank,update_apply] at * <;> grind

theorem Numbered.removeSession {archived : Bool} (h : Numbered s) :
    Numbered (s.removeSession l archived) := by
  obtain ⟨hl,hj,hh⟩ := h
  constructor <;> simp only [State.removeSession,update_apply] at * <;> grind

theorem Numbered.finalizeJob {r : Result} {time : Nat} (h : Numbered s) :
    Numbered (s.finalizeJob w j r time) := by
  refine h.of_same rfl rfl (fun k => ?_) (fun l x hx => ?_) (fun _ _ hk => hk)
  · by_cases hk : k=j
    · subst hk
      simp [State.finalizeJob,State.setPoint,State.setJob]
    · simp [State.finalizeJob,State.setPoint,State.setJob,hk]
  · simp only [State.finalizeJob,update_apply] at hx
    split_ifs at hx with hl
    · obtain ⟨y,hy,rfl⟩ := Option.map_eq_some_iff.mp hx
      exact ⟨y,hl ▸ hy,rfl⟩
    · exact ⟨x,hx,rfl⟩

theorem Numbered.effect {a : Act} (h : Numbered s) (ha : Effect s a t) : Numbered t := by
  cases ha with
  | create => exact h.createRecord
  | enqueue hr => exact h.enqueueJob hr
  | @dequeue _ _ j | @dequeueAgent j =>
    have hs : Numbered (s.setJob j State.markJobCancelled) := h.setJob (fun _ => ⟨rfl,rfl⟩)
    exact ⟨hs.live,hs.jobs,hs.history⟩
  | cancel | cancelAgent | shutdownCancels => exact h.cancelRuntimeJob
  | clearQueue => exact h.dropQueued
  | @delete _ l =>
    have hd := h.dropQueued (p := (·==l))
    exact ⟨hd.live,hd.jobs,hd.history⟩
  | @deleteForced _ l _ _ r =>
    have hd := h.dropQueued (p := (·==l))
    have hm (d : Nat) : Numbered (s.markDeleting d l r) := ⟨hd.live,hd.jobs,hd.history⟩
    exact (hm _).cancelRuntimeJob
  | @finishDeletion d archived x =>
    have hr : Numbered (s.removeSession x.label archived) := h.removeSession
    exact ⟨hr.live,hr.jobs,hr.history⟩
  | @expire l _ archived =>
    unfold State.expireRecord
    split_ifs
    · have hr : Numbered (s.removeSession l true) := h.removeSession
      exact ⟨hr.live,hr.jobs,hr.history⟩
    · exact ⟨h.live,h.jobs,h.history⟩
  | beginShutdown =>
    have hd := h.dropQueued (p := fun _ => true)
    exact ⟨hd.live,hd.jobs,hd.history⟩
  | interruptDeletion | interruptShutdown | abandonDeletion | abandonShutdown | finishShutdown
  | reconfigure | deliverKill | deliverUnwind | deliverHold | retire | sendPrompt | conclude
  | settled => exact ⟨h.live,h.jobs,h.history⟩
  | @deliverSettle w j | @unwound w j =>
    have hs : Numbered (s.setJob j (fun x => {x with cancelRequested := true})) :=
      h.setJob (fun _ => ⟨rfl,rfl⟩)
    exact ⟨hs.live,hs.jobs,hs.history⟩
  | @skip w j =>
    have hs : Numbered (s.setJob j State.markJobCancelled) := h.setJob (fun _ => ⟨rfl,rfl⟩)
    exact ⟨hs.live,hs.jobs,hs.history⟩
  | @take w j =>
    have hs : Numbered (s.setJob j (fun x => {x with status := .queued})) :=
      h.setJob (fun _ => ⟨rfl,rfl⟩)
    exact ⟨hs.live,hs.jobs,hs.history⟩
  | @start w cwdValid j =>
    have hs (f : Job → Job) (hf : ∀x,(f x).label=x.label ∧ (f x).incarnation=x.incarnation) :
        Numbered (s.setJob j f) := h.setJob hf
    unfold State.startJob
    split_ifs
    · have hn := hs (fun x => {x with status := .starting}) (fun _ => ⟨rfl,rfl⟩)
      exact ⟨hn.live,hn.jobs,hn.history⟩
    · have hn := hs (fun x => {x with status := .starting}) (fun _ => ⟨rfl,rfl⟩)
      exact ⟨hn.live,hn.jobs,hn.history⟩
    · have hn := hs (fun x => {x with cancelRequested := true}) (fun _ => ⟨rfl,rfl⟩)
      exact ⟨hn.live,hn.jobs,hn.history⟩
  | register => exact h.rework (fun _ => ⟨rfl,rfl⟩)
  | authorize => exact h.rework (fun _ => ⟨rfl,rfl⟩)
  | finalize => exact h.finalizeJob
  | finish => exact h.rework (fun _ => ⟨rfl,rfl⟩)

/-! The manager as `_load` leaves it with no stored session -/

theorem Queues.initial (c : Config) : Queues (State.initial c) := by
  constructor <;> simp [State.initial]

theorem Holds.initial (c : Config) : Holds (State.initial c) := by
  constructor <;> simp [State.initial,Point.job?]

theorem Numbered.initial (c : Config) : Numbered (State.initial c) := by
  constructor <;> simp [State.initial]

end XiaoQing.Codex
