import XiaoQing.Codex.JobOrder

namespace XiaoQing.Codex

open Function (update update_apply)
open Framework

variable {s t : State} {l : Label} {w j : Nat}

/-- No session is created under a label whose deletion still waits, no expiry fails in its file
operations, and no worker is cancelled again while it settles a cancellation. -/
def Clean (s : State) : Act → Prop
  | .create l _ _ _ => ∀d x,s.deletions d=some x → x.label≠l
  | .expire _ _ archived => archived=true
  | .deliver w => ∀j,(s.tasks w).point≠.executing j .settling
  | _ => True

def State.Doomed (s : State) (w : Nat) : Prop :=
  ((s.tasks w).cancelled=true ∧ ∀j stage,(s.tasks w).point≠.executing j stage) ∨
    ∃j,(s.tasks w).point=.collecting j true

structure Crew (s : State) : Prop where
  active : ∀w j stage,(s.tasks w).point=.executing j stage →
    s.running (s.labelOf w)=some j ∧ s.workers (s.labelOf w)=some w
  solo : ∀w,(s.tasks w).point≠.dead → s.workers (s.labelOf w)=some w ∨ s.Doomed w
  run : ∀l j,s.running l=some j → ∃w stage,s.labelOf w=l ∧ (s.tasks w).point=.executing j stage

structure Watch (s : State) : Prop where
  served : ∀l,s.queues l≠[] → ∃w,s.workers l=some w ∧ (s.tasks w).point≠.dead ∧
    (s.tasks w).cancelled=false ∧ ∀j,(s.tasks w).point≠.collecting j true
  frozen : ∀l w,s.workers l=some w → (s.tasks w).point≠.dead →
    ((s.tasks w).cancelled=true ∨ ∃j,(s.tasks w).point=.collecting j true) → s.closing l=true
  idle : ∀l w,s.sessions l=none → s.workers l=some w → (s.tasks w).point=.dead
  pending : ∀d x,s.deletions d=some x → s.tombstones x.label=true ∧
    (s.workers x.label=none ∨ s.workers x.label=x.worker)
  stopping : ∀k x,s.shutdowns k=some x → s.shuttingDown=true ∧
    ∀l w,s.workers l=some w → w∈x.workers

theorem State.Looking.not_executing (h : s.Looking w) (j : Nat) (stage : Stage) :
    (s.tasks w).point≠.executing j stage := by
  obtain ⟨_,hp | hp | ⟨_,hp⟩⟩ := h <;> simp [hp]

theorem State.Looking.not_collecting (h : s.Looking w) (j : Nat) (held : Bool) :
    (s.tasks w).point≠.collecting j held := by
  obtain ⟨_,hp | hp | ⟨_,hp⟩⟩ := h <;> simp [hp]

variable {p : Nat → Bool}

@[simp] theorem cancelWorkers_point :
    ((s.cancelWorkers p).tasks w).point=(s.tasks w).point := by
  simp only [State.cancelWorkers]
  split_ifs <;> rfl

@[simp] theorem cancelWorkers_label :
    (s.cancelWorkers p).labelOf w=s.labelOf w := by
  simp only [State.cancelWorkers,State.labelOf]
  split_ifs <;> rfl

theorem cancelWorkers_cancelled (h : (s.tasks w).cancelled=true) :
    ((s.cancelWorkers p).tasks w).cancelled=true := by
  simp only [State.cancelWorkers]
  split_ifs
  · rfl
  · exact h

theorem Crew.looking (h : Crew s) (hw : s.Looking w) : s.workers (s.labelOf w)=some w := by
  rcases h.solo w hw.not_dead with h | ⟨hc,_⟩ | ⟨j,hj⟩
  · exact h
  · simp [hw.1] at hc
  · obtain ⟨_,hp | hp | ⟨_,hp⟩⟩ := hw <;> simp [hp] at hj

section Crew

theorem Crew.stay {stage : Stage} (h : Crew s) (hp : (s.tasks w).point=.executing j stage)
    (stage' : Stage) :
    Crew (s.setPoint w (.executing j stage')) := by
  obtain ⟨ha,hs,hr⟩ := h
  constructor <;>
    simp only [State.setPoint,State.labelOf,State.Doomed,update_apply] at * <;> grind

theorem Crew.acknowledged {stage : Stage} (h : Crew s)
    (hp : (s.tasks w).point=.executing j stage) (stage' : Stage) :
    Crew ((s.acknowledge w).setPoint w (.executing j stage')) := by
  obtain ⟨ha,hs,hr⟩ := h
  constructor <;>
    simp only [State.acknowledge,State.setPoint,State.labelOf,State.Doomed,update_apply] at * <;>
    grind

theorem Crew.of_same (h : Crew s) (ht : t.tasks=s.tasks) (hr : t.running=s.running)
    (hw : t.workers=s.workers) : Crew t := by
  obtain ⟨ha,hs,hn⟩ := h
  constructor <;> simp only [State.labelOf,State.Doomed,ht,hr,hw] <;> assumption

theorem Crew.cancelWorkers (h : Crew s) : Crew (s.cancelWorkers p) := by
  refine ⟨fun w j stage hp => ?_,fun w hp => ?_,fun l j hj => ?_⟩
  · rw [cancelWorkers_label]
    exact h.active w j stage (by simpa using hp)
  · rw [cancelWorkers_label]
    rcases h.solo w (by simpa using hp) with hs | ⟨hc,hn⟩ | hk
    · exact .inl hs
    · exact .inr (.inl ⟨cancelWorkers_cancelled hc,by simpa using hn⟩)
    · exact .inr (.inr (by simpa using hk))
  · obtain ⟨w,stage,hl,hp⟩ := h.run l j hj
    exact ⟨w,stage,by simpa using hl,by simpa using hp⟩

theorem Crew.ensureWorker (h : Crew s) (hh : Holds s) : Crew (s.ensureWorker l) := by
  unfold State.ensureWorker
  split_ifs with hc
  · exact h
  · have hu := hh.unborn
    have hw := hh.workers
    have hd : ∀w,s.workers l=some w → (s.tasks w).point=.dead := by
      intro w hw
      by_contra hd
      exact hc (by simp [hw,State.alive,hd])
    obtain ⟨ha,hs,hr⟩ := h
    constructor <;> simp only [State.labelOf,State.Doomed,update_apply] at * <;> grind

theorem Crew.expire (h : Crew s) (hl : s.running l=none) : Crew (s.expireRecord l true) := by
  have hne (w j stage) (hp : (s.tasks w).point=.executing j stage) : (s.tasks w).label≠l := by
    rintro rfl
    have ha := (h.active w j stage hp).1
    simp [State.labelOf,hl] at ha
  set u := (s.markExpired l).removeSession l true with hu
  have hut : u.tasks=s.tasks := rfl
  have huw : u.workers=update s.workers l none := rfl
  have hul (w : Nat) : u.labelOf w=s.labelOf w := rfl
  simp only [State.expireRecord,if_true,← hu]
  refine ⟨fun w j stage hp => ?_,fun w hp => ?_,fun m j hj => ?_⟩
  · have hp' : (s.tasks w).point=.executing j stage := by simpa [hut] using hp
    obtain ⟨hr,hw⟩ := h.active w j stage hp'
    rw [cancelWorkers_label,hul]
    refine ⟨hr,?_⟩
    exact (Function.update_of_ne (hne w j stage hp') _ _).trans hw
  · have hp' : (s.tasks w).point≠.dead := by simpa [hut] using hp
    rcases h.solo w hp' with hs | ⟨hc,hn⟩ | hk
    · by_cases hw : s.labelOf w=l
      · refine .inr (.inl ⟨?_,fun j stage he => hne w j stage (by simpa [hut] using he) hw⟩)
        rw [hw] at hs
        simp [State.cancelWorkers,hut,hs,hp']
      · refine .inl ?_
        rw [cancelWorkers_label,hul]
        exact (Function.update_of_ne hw _ _).trans hs
    · exact .inr (.inl ⟨cancelWorkers_cancelled hc,by simpa [hut] using hn⟩)
    · exact .inr (.inr (by simpa [hut] using hk))
  · obtain ⟨w,stage,hw,hp⟩ := h.run m j hj
    exact ⟨w,stage,by rw [cancelWorkers_label]; exact hw,by simpa [hut] using hp⟩

theorem Crew.clearAll (h : Crew s)
    (hd : ∀l w,s.workers l=some w → (s.tasks w).point=.dead) : Crew s.clearAll := by
  refine ⟨fun w j stage hp => ?_,fun w hp => ?_,fun l j hj => nomatch hj⟩
  · have hp' : (s.tasks w).point=.executing j stage := hp
    simp [hd _ w (h.active w j stage hp').2] at hp'
  · rcases h.solo w hp with hs | hs
    · exact absurd (hd _ w hs) hp
    · exact .inr hs

theorem Crew.leave {p : Point} (h : Crew s) (hw : ∀j stage,(s.tasks w).point≠.executing j stage)
    (hd : (s.tasks w).point≠.dead) (hp : ∀j stage,p≠.executing j stage)
    (hk : ∀j,(s.tasks w).point=.collecting j true → p=.dead ∨ p=.collecting j true)  :
    Crew (s.setPoint w p) := by
  obtain ⟨ha,hs,hr⟩ := h
  constructor
  · simp only [State.setPoint,State.labelOf,update_apply] at *
    grind
  · simp only [State.setPoint,State.labelOf,State.Doomed,update_apply] at *
    grind
  · intro l j hj
    obtain ⟨w',stage,hl,he⟩ := hr l j hj
    have hne : w'≠w := by rintro rfl; exact hw _ _ he
    exact ⟨w',stage,by simpa [State.setPoint,State.labelOf,hne] using hl,
      by simpa [State.setPoint,hne] using he⟩

theorem Crew.retire (h : Crew s) (hw : s.Looking w) : Crew (s.retire w) := by
  have hl := h.looking hw
  have hn : ∀j stage,(s.tasks w).point≠.executing j stage := hw.not_executing
  have hc := h.leave (p := .dead) hn hw.not_dead (by simp) (by simp)
  obtain ⟨ha,hs,hr⟩ := hc
  refine ⟨fun w' j stage hp => ?_,fun w' hp => ?_,hr⟩
  · obtain ⟨hrun,hwk⟩ := ha w' j stage hp
    refine ⟨hrun,?_⟩
    have hne : (s.setPoint w .dead).labelOf w'≠s.labelOf w := by
      intro he
      rw [he] at hwk
      cases hl.symm.trans hwk
      simp [State.retire,State.setPoint] at hp
    exact (Function.update_of_ne hne _ _).trans hwk
  · rcases hs w' hp with hwk | hd
    · refine .inl ?_
      have hne : (s.setPoint w .dead).labelOf w'≠s.labelOf w := by
        intro he
        rw [he] at hwk
        cases hl.symm.trans hwk
        simp [State.retire,State.setPoint] at hp
      exact (Function.update_of_ne hne _ _).trans hwk
    · exact .inr hd

theorem Crew.take (h : Crew s) (hw : s.Looking w) :
    Crew ((s.popQueue (s.labelOf w)).takeJob w j) := by
  have hl := h.looking hw
  have hn : ∀j stage,(s.tasks w).point≠.executing j stage := hw.not_executing
  obtain ⟨ha,hs,hr⟩ := h
  constructor
  · simp only [State.popQueue,State.takeJob,State.setJob,State.setPoint,State.labelOf,
      update_apply] at *
    grind
  · simp only [State.popQueue,State.takeJob,State.setJob,State.setPoint,State.labelOf,State.Doomed,
      update_apply] at *
    grind
  · intro m k hk
    by_cases hm : m=s.labelOf w
    · subst hm
      refine ⟨w,.preparing,by simp [State.popQueue,State.takeJob,State.setPoint,State.setJob,State.labelOf],?_⟩
      have hjk : j=k := by simpa [State.popQueue,State.takeJob,State.labelOf] using hk
      simp [State.popQueue,State.takeJob,State.setPoint,hjk]
    · have hk' : s.running m=some k := by
        simpa [State.popQueue,State.takeJob,State.labelOf,show m≠(s.tasks w).label from hm] using hk
      obtain ⟨w',stage,hlw,he⟩ := hr m k hk'
      have hne : w'≠w := by rintro rfl; exact hn _ _ he
      exact ⟨w',stage,by simpa [State.popQueue,State.takeJob,State.setPoint,State.setJob,State.labelOf,hne] using hlw,
        by simpa [State.popQueue,State.takeJob,State.setPoint,State.setJob,hne] using he⟩

theorem Crew.finalizeJob {r : Result} {time : Nat} (h : Crew s)
    (hp : (s.tasks w).point=.executing j (.ended r)) : Crew (s.finalizeJob w j r time) := by
  obtain ⟨ha,hs,hr⟩ := h
  obtain ⟨hrun,hwk⟩ := ha w j _ hp
  constructor
  · simp only [State.finalizeJob,State.setJob,State.setPoint,State.labelOf,update_apply] at *
    grind
  · simp only [State.finalizeJob,State.setJob,State.setPoint,State.labelOf,State.Doomed,
      update_apply] at *
    grind
  · intro m k hk
    have hm : m≠s.labelOf w := by
      rintro rfl
      simp [State.finalizeJob,hrun] at hk
    have hk' : s.running m=some k := by simpa [State.finalizeJob,hrun,hm] using hk
    obtain ⟨w',stage,hl,he⟩ := hr m k hk'
    have hne : w'≠w := by rintro rfl; exact hm hl.symm
    exact ⟨w',stage,by simpa [State.finalizeJob,State.setPoint,State.setJob,State.labelOf,hne] using hl,
      by simpa [State.finalizeJob,State.setPoint,State.setJob,hne] using he⟩

theorem Crew.startJob {cwdValid : Bool} (h : Crew s)
    (hp : (s.tasks w).point=.executing j .preparing) : Crew (s.startJob w j cwdValid) := by
  unfold State.startJob
  split_ifs <;> exact (h.stay hp _).of_same rfl rfl rfl

theorem Crew.kill (h : Crew s) (hn : ∀j stage,(s.tasks w).point≠.executing j stage) :
    Crew ((s.acknowledge w).setPoint w .dead) := by
  obtain ⟨ha,hs,hr⟩ := h
  constructor
  · simp only [State.acknowledge,State.setPoint,State.labelOf,update_apply] at *
    grind
  · simp only [State.acknowledge,State.setPoint,State.labelOf,State.Doomed,update_apply] at *
    grind
  · intro l j hj
    obtain ⟨w',stage,hl,he⟩ := hr l j hj
    have hne : w'≠w := by rintro rfl; exact hn _ _ he
    exact ⟨w',stage,by simpa [State.acknowledge,State.setPoint,State.labelOf,hne] using hl,
      by simpa [State.acknowledge,State.setPoint,hne] using he⟩

theorem Crew.hold {held : Bool} (h : Crew s) (hp : (s.tasks w).point=.collecting j held) :
    Crew ((s.acknowledge w).setPoint w (.collecting j true)) := by
  obtain ⟨ha,hs,hr⟩ := h
  constructor
  · simp only [State.acknowledge,State.setPoint,State.labelOf,update_apply] at *
    grind
  · simp only [State.acknowledge,State.setPoint,State.labelOf,State.Doomed,update_apply] at *
    grind
  · intro l k hk
    obtain ⟨w',stage,hl,he⟩ := hr l k hk
    have hne : w'≠w := by rintro rfl; simp [hp] at he
    exact ⟨w',stage,by simpa [State.acknowledge,State.setPoint,State.labelOf,hne] using hl,
      by simpa [State.acknowledge,State.setPoint,hne] using he⟩

theorem Crew.effect {a : Act} (h : Crew s) (hh : Holds s) (hw : Watch s) (hok : Clean s a)
    (ha : Effect s a t) : Crew t := by
  cases ha with
  | @enqueue l =>
    have he := h.ensureWorker (l := l) hh
    exact ⟨he.active,he.solo,he.run⟩
  | @cancel _ _ j | @cancelAgent j | @shutdownCancels _ j =>
    obtain ⟨f,hf,-⟩ := cancelRuntimeJob_eq s j
    rw [hf]
    exact ⟨h.active,h.solo,h.run⟩
  | @deleteForced d l _ _ r j =>
    obtain ⟨f,hf,-⟩ := cancelRuntimeJob_eq (s.markDeleting d l r) j
    rw [hf]
    exact ⟨h.active,h.solo,h.run⟩
  | interruptDeletion | interruptShutdown => exact h.cancelWorkers
  | @expire l cutoff archived r _ hrun =>
    cases (show archived=true from hok)
    exact h.expire hrun
  | @finishShutdown k x hx hd =>
    have hc := h.clearAll (fun l w hl => hd w ((hw.stopping k x hx).2 l w hl))
    exact ⟨hc.active,hc.solo,hc.run⟩
  | create | dequeue | dequeueAgent | clearQueue | delete | abandonDeletion | finishDeletion
  | reconfigure | beginShutdown | abandonShutdown => exact ⟨h.active,h.solo,h.run⟩
  | @deliverKill w hc hd he hn =>
    have hex (j stage) : (s.tasks w).point≠.executing j stage := by
      intro hp
      cases he j stage hp
      exact hok j hp
    exact h.kill hex
  | deliverSettle _ hp => exact (h.acknowledged hp _).of_same rfl rfl rfl
  | deliverUnwind _ hp => exact h.acknowledged hp _
  | deliverHold _ hp => exact h.hold hp
  | retire hw => exact h.retire hw
  | @skip w j _ hw =>
    have hl := h.leave (p := .claiming) hw.not_executing hw.not_dead (by simp)
      (fun k hk => absurd hk (hw.not_collecting k true))
    exact ⟨hl.active,hl.solo,hl.run⟩
  | take hw => exact h.take hw
  | start hp => exact h.startJob hp
  | register hp | authorize hp | unwound hp | sendPrompt hp =>
    exact (h.stay hp _).of_same rfl rfl rfl
  | conclude hp | settled hp => exact h.stay hp _
  | finalize hp => exact h.finalizeJob hp
  | @finish w j held hc hp =>
    have hl := h.leave (w := w) (p := if held then .dead
      else if s.closing (s.labelOf w) then .claiming else .sending j)
      (by simp [hp]) (by simp [hp]) (by intro j stage; split_ifs <;> simp)
      (by intro k hk; rw [hp] at hk; cases hk; exact .inl rfl)
    exact ⟨hl.active,hl.solo,hl.run⟩

end Crew

section Watch

variable {u : State}

theorem Watch.shrink (h : Watch s) (ht : u.tasks=s.tasks) (hw : u.workers=s.workers)
    (hq : ∀l,u.queues l≠[] → s.queues l≠[]) (hc : ∀l,s.closing l=true → u.closing l=true)
    (hs : ∀l,u.sessions l=none → s.sessions l=none ∨ ∀w,s.workers l=some w → (s.tasks w).point=.dead)
    (hp : ∀d x,u.deletions d=some x → u.tombstones x.label=true ∧
      (s.workers x.label=none ∨ s.workers x.label=x.worker))
    (hk : ∀k x,u.shutdowns k=some x → u.shuttingDown=true ∧
      ∀l w,s.workers l=some w → w∈x.workers) : Watch u where
  served l hl := by rw [ht,hw]; exact h.served l (hq l hl)
  frozen l w := by
    rw [ht,hw]
    exact fun hl hd hx => hc l (h.frozen l w hl hd hx)
  idle l w hl := by
    rw [ht,hw]
    intro hlw
    rcases hs l hl with hn | hn
    · exact h.idle l w hn hlw
    · exact hn w hlw
  pending d x hx := by rw [hw]; exact hp d x hx
  stopping k x hx := by rw [hw]; exact hk k x hx

theorem Watch.quiet (h : Watch s) (ht : u.tasks=s.tasks) (hw : u.workers=s.workers)
    (hq : ∀l,u.queues l≠[] → s.queues l≠[]) (hc : u.tombstones=s.tombstones)
    (hd : u.shuttingDown=s.shuttingDown) (hs : u.sessions=s.sessions)
    (hp : ∀d x,u.deletions d=some x → s.deletions d=some x)
    (hk : ∀k x,u.shutdowns k=some x → s.shutdowns k=some x) : Watch u := by
  refine h.shrink ht hw hq (fun l hl => by simpa [State.closing,hc,hd] using hl)
    (fun l hl => .inl (hs ▸ hl)) (fun d x hx => ?_) (fun k x hx => ?_)
  · rw [hc]; exact h.pending d x (hp d x hx)
  · rw [hd]; exact h.stopping k x (hk k x hx)

theorem Watch.createRecord {time : Nat} {noted : Bool} (h : Watch s) (hl : s.sessions l=none)
    (hn : ∀d x,s.deletions d=some x → x.label≠l) : Watch (s.createRecord l time noted) := by
  obtain ⟨hv,hf,hi,hp,hk⟩ := h
  constructor
  · exact hv
  · simp only [State.createRecord,State.closing,update_apply] at *
    grind
  · simp only [State.createRecord,update_apply] at *
    grind
  · simp only [State.createRecord,update_apply] at *
    grind
  · exact hk

theorem Watch.enqueueJob {r : Session} {overhead : Bool} {time : Nat} (h : Watch s) (hh : Holds s)
    (hr : s.sessions l=some r) (hc : s.closing l=false) :
    Watch (s.enqueueJob l r overhead time) := by
  have hu := hh.unborn
  have hw := hh.workers
  obtain ⟨hv,hf,hi,hp,hk⟩ := h
  unfold State.enqueueJob State.ensureWorker
  dsimp only
  split_ifs with ha
  · have halive : ∃w,s.workers l=some w ∧ (s.tasks w).point≠.dead := by
      simpa [hc,Option.any_eq_true,State.alive] using ha
    obtain ⟨w,hlw,hlive⟩ := halive
    constructor
    · intro m hm
      by_cases hml : m=l
      · subst hml
        refine ⟨w,hlw,hlive,?_,fun j hj => ?_⟩
        · rw [← Bool.not_eq_true]
          intro hx
          simp [hf m w hlw hlive (.inl hx)] at hc
        · simp [hf m w hlw hlive (.inr ⟨j,hj⟩)] at hc
      · exact hv m (by simpa [hml] using hm)
    · exact hf
    · intro m w hm
      simp only [update_apply] at hm
      split_ifs at hm
      exact hi m w hm
    · exact hp
    · exact hk
  · have hdead : ∀w,s.workers l=some w → (s.tasks w).point=.dead := by
      intro w hlw
      by_contra hd
      exact ha (by simp [hlw,State.alive,hd])
    constructor
    · intro m hm
      by_cases hml : m=l
      · subst hml
        exact ⟨s.spawned,by simp,by simp,by simp,by simp⟩
      · obtain ⟨w,hmw,hlive,hx⟩ := hv m (by simpa [hml] using hm)
        have hne : w≠s.spawned := by
          rintro rfl
          exact hlive (hu _ (Nat.le_refl _))
        exact ⟨w,by simpa [hml] using hmw,by simpa [hne] using hlive,by simpa [hne] using hx⟩
    · simp only [State.closing,State.labelOf,update_apply] at *
      grind
    · simp only [State.labelOf,update_apply] at *
      grind
    · simp only [State.closing,update_apply] at *
      grind
    · simp only [State.closing,update_apply] at *
      grind

theorem Watch.cancelWorkers (h : Watch s) (hq : Queues s)
    (hp : ∀l w,s.workers l=some w → p w=true → s.closing l=true) : Watch (s.cancelWorkers p) := by
  constructor
  · intro l hl
    obtain ⟨w,hlw,hlive,hc,hk⟩ := h.served l hl
    refine ⟨w,hlw,by simpa using hlive,?_,by simpa using hk⟩
    have hpw : p w=false := by
      rw [← Bool.not_eq_true]
      exact fun hpw => hl (hq.closed l (hp l w hlw hpw))
    simpa [State.cancelWorkers,hpw] using hc
  · intro l w hlw hlive hx
    have hlive' : (s.tasks w).point≠.dead := by simpa using hlive
    rcases hx with hx | hx
    · by_cases hpw : p w=true
      · exact hp l w hlw hpw
      · exact h.frozen l w hlw hlive' (.inl (by simpa [State.cancelWorkers,hpw] using hx))
    · exact h.frozen l w hlw hlive' (.inr (by simpa using hx))
  · intro l w hl hlw
    simpa using h.idle l w hl hlw
  · exact h.pending
  · exact h.stopping

theorem dropQueued_nonempty {p : Label → Bool} (l : Label) (hl : (s.dropQueued p).queues l≠[]) :
    s.queues l≠[] := by
  simp only [State.dropQueued] at hl
  split_ifs at hl
  · exact absurd rfl hl
  · exact hl

theorem Watch.markDeleting {d : Nat} {r : Session} (h : Watch s) :
    Watch (s.markDeleting d l r) := by
  refine h.shrink rfl rfl dropQueued_nonempty (fun m hm => ?_) (fun m hm => .inl hm)
    (fun d' x hx => ?_) h.stopping
  · simp only [State.markDeleting,State.dropQueued,State.closing,update_apply] at hm ⊢
    grind
  · have hp := h.pending d' x
    simp only [State.markDeleting,State.dropQueued,update_apply] at hx ⊢
    split_ifs at hx
    · cases hx
      exact ⟨by simp,.inr rfl⟩
    · obtain ⟨ht,hw⟩ := hp hx
      exact ⟨by simp [ht],hw⟩

theorem Watch.close {k : Nat} (h : Watch s) (hh : Holds s) : Watch (s.close k) := by
  refine h.shrink rfl rfl dropQueued_nonempty (fun m hm => ?_) (fun m hm => .inl hm) h.pending
    (fun k' x hx => ?_)
  · simp [State.close,State.dropQueued,State.closing]
  · simp only [State.close,State.dropQueued,update_apply] at hx
    split_ifs at hx
    · cases hx
      refine ⟨rfl,fun l w hlw => ?_⟩
      obtain ⟨hlt,hl⟩ := hh.workers l w hlw
      simpa [hlt,show (s.tasks w).label=l from hl] using hlw
    · exact ⟨rfl,(h.stopping k' x hx).2⟩

theorem Watch.clearAll (h : Watch s) (hd : ∀l w,s.workers l=some w → (s.tasks w).point=.dead) :
    Watch s.clearAll := by
  constructor
  · intro l hl
    obtain ⟨w,hlw,hlive,_⟩ := h.served l hl
    exact absurd (hd l w hlw) hlive
  · exact fun _ _ hlw => nomatch hlw
  · exact fun _ _ _ hlw => nomatch hlw
  · exact fun d x hx => ⟨(h.pending d x hx).1,.inl rfl⟩
  · exact fun k x hx => ⟨(h.stopping k x hx).1,fun _ _ hlw => nomatch hlw⟩

theorem Watch.advance {x : Worker} (h : Watch s) (ht : u.tasks=update s.tasks w x)
    (hd : (s.tasks w).point≠.dead) (hx : x.point≠.dead)
    (hc : x.cancelled=true → (s.tasks w).cancelled=true)
    (hk : ∀j,x.point=.collecting j true → (s.tasks w).cancelled=true ∨
      ∃j,(s.tasks w).point=.collecting j true)
    (hw : u.workers=s.workers) (hq : ∀l,u.queues l≠[] → s.queues l≠[])
    (htb : u.tombstones=s.tombstones) (hsd : u.shuttingDown=s.shuttingDown)
    (hs : ∀l,u.sessions l=none → s.sessions l=none) (hdl : u.deletions=s.deletions)
    (hsh : u.shutdowns=s.shutdowns) : Watch u := by
  obtain ⟨hv,hf,hi,hp,hst⟩ := h
  constructor
  · intro l hl
    obtain ⟨w',hlw,hlive,hc',hk'⟩ := hv l (hq l hl)
    refine ⟨w',hw ▸ hlw,?_⟩
    by_cases hww : w'=w
    · subst hww
      refine ⟨by simpa [ht] using hx,?_,fun j hj => ?_⟩
      · rw [ht,Function.update_self,← Bool.not_eq_true]
        intro hxc
        simp [hc hxc] at hc'
      · rw [ht,Function.update_self] at hj
        rcases hk j hj with hcc | ⟨k,hcc⟩
        · simp [hcc] at hc'
        · exact hk' k hcc
    · rw [ht,Function.update_of_ne hww]
      exact ⟨hlive,hc',hk'⟩
  · intro l w' hlw hlive hxx
    rw [hw] at hlw
    have hcl : s.closing l=true := by
      by_cases hww : w'=w
      · subst hww
        rw [ht,Function.update_self] at hlive hxx
        refine hf l w' hlw hd ?_
        rcases hxx with hxx | ⟨j,hxx⟩
        · exact .inl (hc hxx)
        · exact hk j hxx
      · rw [ht,Function.update_of_ne hww] at hlive hxx
        exact hf l w' hlw hlive hxx
    simpa [State.closing,htb,hsd] using hcl
  · intro l w' hl hlw
    rw [hw] at hlw
    have hdd := hi l w' (hs l hl) hlw
    have hww : w'≠w := by rintro rfl; exact hd hdd
    rw [ht,Function.update_of_ne hww]
    exact hdd
  · intro d y hy
    rw [htb,hw]
    exact hp d y (hdl ▸ hy)
  · intro k y hy
    rw [hsd,hw]
    exact hst k y (hsh ▸ hy)

theorem Watch.kill {x : Worker} (h : Watch s) (hq : Queues s)
    (ht : u.tasks=update s.tasks w x) (hx : x.point=.dead)
    (hn : ∀l,s.workers l=some w → (s.tasks w).point≠.dead → s.closing l=true ∨ s.queues l=[])
    (hw : u.workers=s.workers) (hqq : u.queues=s.queues) (htb : u.tombstones=s.tombstones)
    (hsd : u.shuttingDown=s.shuttingDown) (hs : u.sessions=s.sessions)
    (hdl : u.deletions=s.deletions) (hsh : u.shutdowns=s.shutdowns) : Watch u := by
  obtain ⟨hv,hf,hi,hp,hst⟩ := h
  constructor
  · intro l hl
    rw [hqq] at hl
    obtain ⟨w',hlw,hlive,hc'⟩ := hv l hl
    have hww : w'≠w := by
      rintro rfl
      rcases hn l hlw hlive with hc | hc
      · exact hl (hq.closed l hc)
      · exact hl hc
    refine ⟨w',hw ▸ hlw,?_⟩
    rw [ht,Function.update_of_ne hww]
    exact ⟨hlive,hc'⟩
  · intro l w' hlw hlive hxx
    have hww : w'≠w := by
      rintro rfl
      rw [ht,Function.update_self] at hlive
      exact hlive hx
    rw [ht,Function.update_of_ne hww] at hlive hxx
    have hcl := hf l w' (hw ▸ hlw) hlive hxx
    simpa [State.closing,htb,hsd] using hcl
  · intro l w' hl hlw
    by_cases hww : w'=w
    · rw [hww,ht,Function.update_self]
      exact hx
    · rw [ht,Function.update_of_ne hww]
      exact hi l w' (hs ▸ hl) (hw ▸ hlw)
  · intro d y hy
    rw [htb,hw]
    exact hp d y (hdl ▸ hy)
  · intro k y hy
    rw [hsd,hw]
    exact hst k y (hsh ▸ hy)

theorem Watch.unlist (h : Watch s) (hl : s.queues l=[]) (ht : u.tasks=s.tasks)
    (hw : u.workers=update s.workers l none) (hq : u.queues=s.queues)
    (hc : ∀l,s.closing l=true → u.closing l=true) (hs : u.sessions=s.sessions)
    (htb : ∀l,s.tombstones l=true → u.tombstones l=true)
    (hsd : u.shuttingDown=s.shuttingDown) (hdl : u.deletions=s.deletions)
    (hsh : u.shutdowns=s.shutdowns) : Watch u := by
  obtain ⟨hv,hf,hi,hp,hst⟩ := h
  have hsome (m w) (hm : u.workers m=some w) : s.workers m=some w := by
    rw [hw,update_apply] at hm
    split_ifs at hm
    exact hm
  constructor
  · intro m hm
    rw [hq] at hm
    obtain ⟨w,hmw,hrest⟩ := hv m hm
    have hne : m≠l := by rintro rfl; exact hm hl
    exact ⟨w,by rw [hw,Function.update_of_ne hne]; exact hmw,by rw [ht]; exact hrest⟩
  · intro m w hmw hlive hx
    rw [ht] at hlive hx
    exact hc m (hf m w (hsome m w hmw) hlive hx)
  · intro m w hm hmw
    rw [ht]
    exact hi m w (hs ▸ hm) (hsome m w hmw)
  · intro d x hx
    obtain ⟨htx,hwx⟩ := hp d x (hdl ▸ hx)
    refine ⟨htb _ htx,?_⟩
    by_cases hxl : x.label=l
    · exact .inl (by rw [hw,hxl,Function.update_self])
    · rw [hw,Function.update_of_ne hxl]
      exact hwx
  · intro k x hx
    obtain ⟨hk,hkw⟩ := hst k x (hsh ▸ hx)
    exact ⟨hsd ▸ hk,fun m w hm => hkw m w (hsome m w hm)⟩

theorem Watch.expire (h : Watch s) (hq : Queues s) (hh : Holds s) (hl : s.queues l=[]) :
    Watch (s.expireRecord l true) := by
  have hm : Watch (s.markExpired l) := by
    refine h.unlist hl rfl rfl rfl (fun m hm => ?_) rfl (fun m hm => ?_) rfl rfl rfl
    · simp only [State.closing,State.markExpired,update_apply] at hm ⊢
      grind
    · simp only [State.markExpired,update_apply]
      grind
  have hr : Watch ((s.markExpired l).removeSession l true) := by
    refine hm.shrink rfl rfl (fun m hm => ?_) (fun _ hm => hm) (fun m hn => ?_) hm.pending hm.stopping
    · simp only [State.removeSession,update_apply] at hm
      split_ifs at hm
      · exact absurd rfl hm
      · exact hm
    · by_cases hml : m=l
      · exact .inr (fun w hw => by simp [State.markExpired,hml] at hw)
      · exact .inl (by simpa [State.removeSession,hml] using hn)
  have hqm : Queues (s.expireRecord l true) := hq.expireRecord hl
  simp only [State.expireRecord,if_true] at hqm ⊢
  have hqr : Queues ((s.markExpired l).removeSession l true) :=
    ⟨hqm.queued,hqm.owned,hqm.closed,hqm.sorted,hqm.claimed⟩
  refine hr.cancelWorkers hqr (fun m w hmw hpw => ?_)
  by_cases hml : m=l
  · simp [State.removeSession,State.markExpired,hml] at hmw
  · have hmw' : s.workers m=some w := by
      simpa [State.removeSession,State.markExpired,hml] using hmw
    have hlw : s.workers l=some w := by simpa using hpw
    exact absurd ((hh.workers m w hmw').2.symm.trans (hh.workers l w hlw).2) hml

theorem Watch.effect {a : Act} (h : Watch s) (hq : Queues s) (hh : Holds s)
    (hok : Clean s a) (ha : Effect s a t) : Watch t := by
  cases ha with
  | create hl => exact h.createRecord hl hok
  | enqueue hr hcl => exact h.enqueueJob hh hr hcl
  | @dequeue _ _ j | @dequeueAgent j =>
    refine h.quiet rfl rfl (fun l hl he => ?_) rfl rfl rfl (fun _ _ hx => hx) (fun _ _ hx => hx)
    simp only [State.dequeue,update_apply] at hl
    split_ifs at hl with hlj
    · rw [hlj] at he
      simp [he] at hl
    · exact hl he
  | @cancel _ _ j | @cancelAgent j | @shutdownCancels _ j =>
    obtain ⟨f,hf,-⟩ := cancelRuntimeJob_eq s j
    rw [hf]
    exact h.quiet rfl rfl (fun _ hl => hl) rfl rfl rfl (fun _ _ hx => hx) (fun _ _ hx => hx)
  | clearQueue =>
    exact h.quiet rfl rfl dropQueued_nonempty rfl rfl rfl (fun _ _ hx => hx) (fun _ _ hx => hx)
  | delete => exact h.markDeleting
  | @deleteForced d l _ _ r j =>
    obtain ⟨f,hf,-⟩ := cancelRuntimeJob_eq (s.markDeleting d l r) j
    rw [hf]
    have hm := h.markDeleting (d := d) (l := l) (r := r)
    exact hm.quiet rfl rfl (fun _ hl => hl) rfl rfl rfl (fun _ _ hx => hx) (fun _ _ hx => hx)
  | @interruptDeletion d x hx =>
    refine h.cancelWorkers hq (fun l w hlw hpw => ?_)
    have hl := (hh.captured d x w hx (by simpa using hpw)).2
    rw [(hh.workers l w hlw).2] at hl
    simp [State.closing,hl,(h.pending d x hx).1]
  | abandonDeletion =>
    refine h.quiet rfl rfl (fun _ hl => hl) rfl rfl rfl (fun d x hx => ?_) (fun _ _ hx => hx)
    simp only [State.forgetDeletion,update_apply] at hx
    split_ifs at hx
    exact hx
  | @finishDeletion d archived x hx hd =>
    refine h.shrink rfl rfl (fun m hm => ?_) (fun _ hm => hm) (fun m hn => ?_) (fun d' y hy => ?_)
      h.stopping
    · simp only [State.removeSession,State.forgetDeletion,update_apply] at hm
      split_ifs at hm
      · exact absurd rfl hm
      · exact hm
    · by_cases hml : m=x.label
      · refine .inr (fun w hw => ?_)
        rcases (h.pending d x hx).2 with hn | hn
        · simp [hml,hn] at hw
        · exact hd w (by rw [← hn,← hml]; exact hw)
      · exact .inl (by simpa [State.removeSession,State.forgetDeletion,hml] using hn)
    · simp only [State.removeSession,State.forgetDeletion,update_apply] at hy
      split_ifs at hy
      exact h.pending d' y hy
  | @expire l cutoff archived r _ _ hl =>
    cases (show archived=true from hok)
    exact h.expire hq hh hl
  | reconfigure =>
    exact h.quiet rfl rfl (fun _ hl => hl) rfl rfl rfl (fun _ _ hx => hx) (fun _ _ hx => hx)
  | beginShutdown => exact h.close hh
  | @interruptShutdown k x hx =>
    refine h.cancelWorkers hq (fun l w _ _ => ?_)
    simp [State.closing,(h.stopping k x hx).1]
  | abandonShutdown =>
    refine h.quiet rfl rfl (fun _ hl => hl) rfl rfl rfl (fun _ _ hx => hx) (fun k x hx => ?_)
    simp only [State.forgetShutdown,update_apply] at hx
    split_ifs at hx
    exact hx
  | @finishShutdown k x hx hd =>
    have hcl := h.clearAll (fun l w hl => hd w ((h.stopping k x hx).2 l w hl))
    refine hcl.quiet rfl rfl (fun _ hl => hl) rfl rfl rfl (fun _ _ hx => hx) (fun k' y hy => ?_)
    simp only [State.forgetShutdown,update_apply] at hy
    split_ifs at hy
    exact hy
  | @deliverKill w hcn hd =>
    refine h.kill hq (w := w) (x := {s.tasks w with cancelled := false,point := .dead})
      (by simp [State.acknowledge,State.setPoint]) rfl (fun l hlw hd => ?_) rfl rfl rfl rfl rfl rfl rfl
    exact .inl (h.frozen l w hlw hd (.inl hcn))
  | @deliverSettle w j hcn hp =>
    exact h.advance (w := w) (x := ⟨s.labelOf w,.executing j (if (s.jobs j).process then .settling
      else .ended .cancelledResult),false⟩)
      (by simp [State.acknowledge,State.settleCancelled,State.setPoint,State.setJob,State.labelOf]; rfl)
      (by simp [hp]) (by simp) (by simp) (by simp) rfl (fun _ hl => hl) rfl rfl (fun _ hl => hl) rfl rfl
  | @deliverUnwind w j stage hcn hp =>
    exact h.advance (w := w) (x := ⟨s.labelOf w,.executing j .unwinding,false⟩)
      (by simp [State.acknowledge,State.setPoint,State.labelOf]) (by simp [hp])
      (by simp) (by simp) (by simp) rfl (fun _ hl => hl) rfl rfl (fun _ hl => hl) rfl rfl
  | @deliverHold w j held hcn hp =>
    exact h.advance (w := w) (x := ⟨s.labelOf w,.collecting j true,false⟩)
      (by simp [State.acknowledge,State.setPoint,State.labelOf]) (by simp [hp])
      (by simp) (by simp) (fun _ _ => .inl hcn) rfl (fun _ hl => hl) rfl rfl (fun _ hl => hl) rfl rfl
  | @retire w hw hn =>
    have hnil : s.queues (s.labelOf w)=[] := hn.elim id (hq.closed _)
    have hk : Watch (s.setPoint w .dead) := by
      refine h.kill hq (w := w) rfl rfl (fun l hlw _ => ?_) rfl rfl rfl rfl rfl rfl rfl
      exact .inr ((hh.workers l w hlw).2 ▸ hnil)
    exact hk.unlist hnil rfl rfl rfl (fun _ hl => hl) rfl (fun _ hl => hl) rfl rfl rfl
  | @skip w j rest hw hj | @take w j rest hw hj =>
    refine h.advance (w := w) rfl hw.not_dead (by simp)
      (by simp [State.popQueue,State.setJob,hw.1]) (by simp) rfl
      (fun m hm he => ?_) rfl rfl (fun _ hl => hl) rfl rfl
    simp only [State.popQueue,State.takeJob,State.setPoint,State.setJob,update_apply] at hm
    split_ifs at hm with hml
    · rw [← hml,he] at hm
      exact hm rfl
    · exact hm he
  | @start w cwdValid j hp =>
    unfold State.startJob
    dsimp only
    split_ifs
    · exact h.advance (w := w) rfl (by simp [hp]) (by simp) id (by simp) rfl (fun _ hl => hl) rfl rfl
        (fun _ hl => hl) rfl rfl
    · exact h.advance (w := w) rfl (by simp [hp]) (by simp) id (by simp) rfl (fun _ hl => hl) rfl rfl
        (fun _ hl => hl) rfl rfl
    · exact h.advance (w := w) rfl (by simp [hp]) (by simp) id (by simp) rfl (fun _ hl => hl) rfl rfl
        (fun _ hl => hl) rfl rfl
  | @register w j hp | @authorize w j hp | @sendPrompt w j hp | @conclude w j _ _ hp
  | @unwound w j hp | @settled w j hp =>
    exact h.advance (w := w) rfl (by simp [hp]) (by simp) id (by simp) rfl (fun _ hl => hl) rfl rfl
      (fun _ hl => hl) rfl rfl
  | @finalize w j r time hp =>
    refine h.advance (w := w) rfl (by simp [hp]) (by simp) id (by simp) rfl (fun _ hl => hl) rfl rfl
      (fun m hm => ?_) rfl rfl
    simp only [State.finalizeJob,State.setPoint,State.setJob,update_apply] at hm
    split_ifs at hm with hml
    · simpa [hml] using hm
    · exact hm
  | @finish w j held hcn hp =>
    cases held with
    | true =>
      refine h.kill hq (w := w) rfl rfl (fun l hlw hd => ?_) rfl rfl rfl rfl rfl rfl rfl
      exact .inl (h.frozen l w hlw hd (.inr ⟨j,hp⟩))
    | false =>
      refine h.advance (w := w) rfl (by simp [hp]) ?_ id (fun k hk => ?_) rfl (fun _ hl => hl) rfl rfl
        (fun _ hl => hl) rfl rfl
      · simp; split_ifs <;> simp
      · simp at hk
        split_ifs at hk

end Watch

end XiaoQing.Codex
