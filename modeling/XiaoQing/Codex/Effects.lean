import XiaoQing.Codex.Manager

namespace XiaoQing.Codex

open State (Move)

def State.Looking (s : State) (w : Nat) : Prop :=
  (s.tasks w).cancelled=false ∧
    ((s.tasks w).point=.fresh ∨ (s.tasks w).point=.claiming ∨ ∃j,(s.tasks w).point=.sending j)

/-- What the manager does when an act is granted, with the facts it has checked. -/
inductive Effect (s : State) : Act → State → Prop where
  | create {l time saved noted} : s.sessions l=none →
      Effect s (.create l time saved noted) (s.createRecord l time noted)
  | enqueue {l r overhead chars disk time saved} : s.sessions l=some r → s.closing l=false →
      Effect s (.enqueue l overhead chars disk time saved) (s.enqueueJob l r overhead time)
  | dequeue {l jobId j} : j∈s.queues l → Effect s (.cancel l jobId) (s.dequeue j)
  | cancel {l jobId j} : s.running l=some j → Effect s (.cancel l jobId) (s.cancelRuntimeJob j)
  | dequeueAgent {j} : j∈s.queues (s.jobs j).label → Effect s (.cancelAgent j) (s.dequeue j)
  | cancelAgent {j} : j < s.accepted → j∉s.queues (s.jobs j).label →
      Effect s (.cancelAgent j) (s.cancelRuntimeJob j)
  | clearQueue {l} : Effect s (.clearQueue l) (s.dropQueued (·==l))
  | delete {d l force allowed r} : s.sessions l=some r → s.running l=none →
      Effect s (.delete d l force allowed) (s.markDeleting d l r)
  | deleteForced {d l force allowed r j} : s.sessions l=some r → s.running l=some j →
      Effect s (.delete d l force allowed) ((s.markDeleting d l r).cancelRuntimeJob j)
  | interruptDeletion {d x} : s.deletions d=some x →
      Effect s (.interruptDeletion d) (s.cancelWorkers (fun w => x.worker==some w))
  | abandonDeletion {d} : Effect s (.abandonDeletion d) (s.forgetDeletion d)
  | finishDeletion {d archived x} : s.deletions d=some x →
      (∀w,x.worker=some w → (s.tasks w).point=.dead) →
      Effect s (.finishDeletion d archived) ((s.removeSession x.label archived).forgetDeletion d)
  | expire {l cutoff archived r} : s.sessions l=some r → s.running l=none → s.queues l=[] →
      Effect s (.expire l cutoff archived) (s.expireRecord l archived)
  | reconfigure {c revision cwdValid c' revision'} : Effect s (.reconfigure c revision cwdValid)
      {s with config := c',settingsRevision := revision'}
  | beginShutdown {k} : Effect s (.beginShutdown k) (s.close k)
  | shutdownCancels {k j x} : s.shutdowns k=some x → j∈x.jobs →
      Effect s (.shutdownCancels k j) (s.cancelRuntimeJob j)
  | interruptShutdown {k x} : s.shutdowns k=some x →
      Effect s (.interruptShutdown k) (s.cancelWorkers (x.workers.contains ·))
  | abandonShutdown {k} : Effect s (.abandonShutdown k) (s.forgetShutdown k)
  | finishShutdown {k x} : s.shutdowns k=some x → (∀w∈x.workers,(s.tasks w).point=.dead) →
      Effect s (.finishShutdown k) (s.clearAll.forgetShutdown k)
  | deliverKill {w} : (s.tasks w).cancelled=true → (s.tasks w).point≠.dead →
      (∀j stage,(s.tasks w).point=.executing j stage → stage=.settling) →
      (∀j held,(s.tasks w).point≠.collecting j held) →
      Effect s (.deliver w) ((s.acknowledge w).setPoint w .dead)
  | deliverSettle {w j} : (s.tasks w).cancelled=true → (s.tasks w).point=.executing j .preparing →
      Effect s (.deliver w) ((s.acknowledge w).settleCancelled w j)
  | deliverUnwind {w j stage} : (s.tasks w).cancelled=true → (s.tasks w).point=.executing j stage →
      Effect s (.deliver w) ((s.acknowledge w).setPoint w (.executing j .unwinding))
  | deliverHold {w j held} : (s.tasks w).cancelled=true → (s.tasks w).point=.collecting j held →
      Effect s (.deliver w) ((s.acknowledge w).setPoint w (.collecting j true))
  | retire {w} : s.Looking w → (s.queues (s.labelOf w)=[] ∨ s.closing (s.labelOf w)=true) →
      Effect s (.move w .claim) (s.retire w)
  | skip {w j rest} : s.Looking w → s.queues (s.labelOf w)=j::rest →
      (s.sessions (s.labelOf w)=none ∨ (s.jobs j).cancelRequested=true) →
      Effect s (.move w .claim)
        (((s.popQueue (s.labelOf w)).setJob j State.markJobCancelled).setPoint w .claiming)
  | take {w j rest} : s.Looking w → s.queues (s.labelOf w)=j::rest →
      s.closing (s.labelOf w)=false → Effect s (.move w .claim) ((s.popQueue (s.labelOf w)).takeJob w j)
  | start {w cwdValid j} : (s.tasks w).point=.executing j .preparing →
      Effect s (.move w (.start cwdValid)) (s.startJob w j cwdValid)
  | register {w j} : (s.tasks w).point=.executing j .spawning →
      Effect s (.move w .register) (s.registerProcess w j)
  | authorize {w j} : (s.tasks w).point=.executing j .registered →
      Effect s (.move w .authorize) (s.authorizePrompt w j)
  | sendPrompt {w j} : (s.tasks w).point=.executing j .prompted →
      Effect s (.move w .sendPrompt) (s.sendPrompt w j)
  | conclude {w j r stage} : (s.tasks w).point=.executing j stage →
      Effect s (.move w (.conclude r)) (s.setPoint w (.executing j (.ended r)))
  | unwound {w j} : (s.tasks w).point=.executing j .unwinding →
      Effect s (.move w .unwound) (s.settleCancelled w j)
  | settled {w j} : (s.tasks w).point=.executing j .settling →
      Effect s (.move w .settled) (s.setPoint w (.executing j (.ended .cancelledResult)))
  | finalize {w j r time} : (s.tasks w).point=.executing j (.ended r) →
      Effect s (.move w (.finalize time)) (s.finalizeJob w j r time)
  | finish {w j held} : (s.tasks w).cancelled=false → (s.tasks w).point=.collecting j held →
      Effect s (.move w .finish) (s.finishJob w j held)

variable {s t : State}

theorem State.Looking.not_dead {w : Nat} (h : s.Looking w) : (s.tasks w).point≠.dead := by
  obtain ⟨_,hp | hp | ⟨j,hp⟩⟩ := h <;> simp [hp]

theorem claim_effect {w : Nat} (hw : s.Looking w) : Effect s (.move w .claim) (s.claim w) := by
  simp only [State.claim]
  split
  · exact .retire hw (.inl ‹_›)
  · split_ifs with hc hs
    · exact .retire hw (.inr hc)
    · exact .skip hw ‹_› (by simpa using hs)
    · exact .take hw ‹_› (by simpa using hc)

theorem moveWorker_effect {w : Nat} {m : Move} (h : s.moveWorker w m=.ok t) :
    Effect s (.move w m) t := by
  unfold State.moveWorker at h
  split at h
  case h_1 hp => cases h; exact .finalize hp
  case h_2 => cases h
  case h_3 hc hp => cases h; exact claim_effect ⟨hc,.inl hp⟩
  case h_4 hc hp => cases h; exact claim_effect ⟨hc,.inr (.inl hp)⟩
  case h_5 hc hp => cases h; exact claim_effect ⟨hc,.inr (.inr ⟨_,hp⟩)⟩
  case h_6 hp => cases h; exact .start hp
  case h_7 hp => cases h; exact .register hp
  case h_8 hp => cases h; exact .authorize hp
  case h_9 hp => cases h; exact .sendPrompt hp
  case h_10 hp =>
    split at h
    · cases h; exact .conclude hp
    · cases h
  case h_11 hp => cases h; exact .unwound hp
  case h_12 hp => cases h; exact .settled hp
  case h_13 hc hp => cases h; exact .finish hc hp
  case h_14 => cases h

theorem cancel_effect {l : Label} {jobId : Option Nat} (h : s.cancel l jobId=.ok t) :
    Effect s (.cancel l jobId) t := by
  unfold State.cancel at h
  split at h
  · cases h
  · split at h
    · rename_i hj
      cases h
      exact .dequeue (List.mem_of_find?_eq_some hj)
    · split at h
      · rename_i hj
        split at h
        · cases h; exact .cancel hj
        · cases h
      · cases h

theorem deleteSession_effect {d : Nat} {l : Label} {force allowed : Bool}
    (h : s.deleteSession d l force allowed=.ok t) : Effect s (.delete d l force allowed) t := by
  unfold State.deleteSession at h
  split at h
  · cases h
  · rename_i r hr
    split_ifs at h
    cases h
    split
    · rename_i j hj; exact .deleteForced hr hj
    · rename_i hj; exact .delete hr hj

theorem reconfigure_effect {c : Config} {revision : Option Nat} {cwdValid : Bool}
    (h : s.reconfigure c revision cwdValid=.ok t) : Effect s (.reconfigure c revision cwdValid) t := by
  simp only [State.reconfigure] at h
  split_ifs at h
  all_goals cases h; exact .reconfigure

theorem deliver_effect {w : Nat} (hc : (s.tasks w).cancelled=true)
    (h : s.deliverCancellation w=.ok t) : Effect s (.deliver w) t := by
  simp only [State.deliverCancellation] at h
  split at h
  case h_1 hp => cases h; exact .deliverKill hc (by simp [hp]) (by simp [hp]) (by simp [hp])
  case h_2 hp => cases h; exact .deliverKill hc (by simp [hp]) (by simp [hp]) (by simp [hp])
  case h_3 hp => cases h; exact .deliverKill hc (by simp [hp]) (by simp [hp]) (by simp [hp])
  case h_4 hp => cases h; exact .deliverKill hc (by simp [hp]) (by simp [hp]) (by simp [hp])
  case h_5 hp => cases h; exact .deliverSettle hc hp
  case h_6 => cases h
  case h_7 => cases h
  case h_8 hp => cases h; exact .deliverUnwind hc hp
  case h_9 hp => cases h; exact .deliverHold hc hp

theorem effect_of_step {a : Act} (h : s.step a=some t) : Effect s a t := by
  have hok : s.handle a=.ok t := by
    unfold State.step at h
    cases ha : s.handle a with
    | error e => rw [ha] at h; cases h
    | ok u => rw [ha] at h; cases h; rfl
  cases a with
  | create l time saved noted =>
    simp only [State.handle,State.createSession] at hok
    split_ifs at hok with hl
    cases hok
    exact .create (Option.not_isSome_iff_eq_none.mp hl)
  | enqueue l overhead chars disk time saved =>
    simp only [State.handle,State.enqueue] at hok
    split at hok
    · cases hok
    · rename_i r hr
      split_ifs at hok with hc
      cases hok
      exact .enqueue hr (Bool.not_eq_true _ ▸ hc)
  | cancel l jobId => exact cancel_effect hok
  | cancelAgent j =>
    simp only [State.handle,State.cancelAgentJob] at hok
    split_ifs at hok with hj hq
    · cases hok; exact .dequeueAgent hq
    · cases hok; exact .cancelAgent hj hq
  | clearQueue l =>
    simp only [State.handle,State.clearQueue] at hok
    split_ifs at hok
    cases hok
    exact .clearQueue
  | delete d l force allowed => exact deleteSession_effect hok
  | interruptDeletion d =>
    simp only [State.handle,State.interruptDeletion] at hok
    split at hok
    · cases hok
    · cases hok; exact .interruptDeletion ‹_›
  | abandonDeletion d =>
    simp only [State.handle,State.abandonDeletion] at hok
    split_ifs at hok
    cases hok
    exact .abandonDeletion
  | finishDeletion d archived =>
    simp only [State.handle,State.finishDeletion] at hok
    split at hok
    · cases hok
    · rename_i x hx
      split_ifs at hok with hw
      cases hok
      refine .finishDeletion hx (fun w hxw => ?_)
      simpa [hxw,State.alive] using hw
  | expire l cutoff archived =>
    simp only [State.handle,State.expireSession] at hok
    split at hok
    · cases hok
    · rename_i r hr
      split_ifs at hok with hc
      cases hok
      obtain ⟨_,_,_,hrun,hq⟩ : _ ∧ _ ∧ _ ∧ _ ∧ _ := by simpa only [not_or,not_not] using hc
      exact .expire hr (Option.not_isSome_iff_eq_none.mp hrun) hq
  | reconfigure c revision cwdValid => exact reconfigure_effect hok
  | beginShutdown k =>
    simp only [State.handle,State.beginShutdown] at hok
    split_ifs at hok
    cases hok
    exact .beginShutdown
  | shutdownCancels k j =>
    simp only [State.handle,State.shutdownCancelsJob] at hok
    split_ifs at hok with hk
    cases hok
    obtain ⟨x,hx,hj⟩ := (Option.any_eq_true _ _).mp hk
    exact .shutdownCancels hx (List.contains_iff_mem.mp hj)
  | interruptShutdown k =>
    simp only [State.handle,State.interruptShutdown] at hok
    split at hok
    · cases hok
    · cases hok; exact .interruptShutdown ‹_›
  | abandonShutdown k =>
    simp only [State.handle,State.abandonShutdown] at hok
    split_ifs at hok
    cases hok
    exact .abandonShutdown
  | finishShutdown k =>
    simp only [State.handle,State.finishShutdown] at hok
    split at hok
    · cases hok
    · rename_i x hx
      split_ifs at hok with hw
      cases hok
      refine .finishShutdown hx (fun w hm => ?_)
      simpa [State.alive] using fun hd => hw (List.any_eq_true.mpr ⟨w,hm,hd⟩)
  | deliver w =>
    simp only [State.handle] at hok
    split_ifs at hok with hc
    exact deliver_effect hc hok
  | move w m => exact moveWorker_effect hok

end XiaoQing.Codex
