import XiaoQing.Codex.Ledger

namespace XiaoQing.Codex

open Function (update update_apply)
open Framework

variable {s t : State} {l : Label} {w j i : Nat}

/-- No session is created under a label while an accepted deletion of it is still waiting. -/
def NoReuse (s : State) : Act → Prop
  | .create l _ _ _ => ∀d x,s.deletions d=some x → x.label≠l
  | _ => True

/-- The session on whose behalf a deletion or an expiry takes this step. -/
def State.removes (s : State) : Act → Option (Label × Nat)
  | .delete _ l _ _ | .expire l _ _ => (s.sessions l).map (fun r => (l,r.incarnation))
  | .interruptDeletion d | .abandonDeletion d | .finishDeletion d _ =>
    (s.deletions d).map (fun x => (x.label,x.incarnation))
  | _ => none

def Job.of (x : Job) (l : Label) (i : Nat) : Prop := x.label=l ∧ x.incarnation=i

/-- The job belongs to another label, or to a session created later under this one. -/
def Job.beyond (x : Job) (l : Label) (i : Nat) : Prop := x.label=l → i<x.incarnation

/-- The step removes at most the `i`-th session of `l`: its record, its queued jobs and what the
history directory holds up to it; other sessions, later ones included, keep everything. -/
structure Spares (l : Label) (i : Nat) (s t : State) : Prop where
  sessions : ∀m r,s.sessions m=some r → (m=l → r.incarnation≠i) → t.sessions m=some r
  queues : ∀m,t.queues m=s.queues m ∨ ∀j∈s.queues m,(s.jobs j).of l i
  history : ∀m,∀k∈s.history m,(m=l → i<k) → k∈t.history m
  protection : t.config=s.config
  running : t.running=s.running
  jobs : ∀j < s.accepted,(s.jobs j).beyond l i → t.jobs j=s.jobs j
  workers : ∀w j,(s.tasks w).point.job?=some j → (s.jobs j).beyond l i → t.tasks w=s.tasks w
  strangers : ∀w,s.labelOf w≠l → t.tasks w=s.tasks w

def Selected (s : State) : Prop := ∀d x,s.deletions d=some x →
  s.incarnations x.label=x.incarnation+1

theorem Selected.of_same {u : State} (h : Selected s) (hi : u.incarnations=s.incarnations)
    (hd : ∀d x,u.deletions d=some x → s.deletions d=some x) : Selected u := by
  intro d x hx
  rw [hi]
  exact h d x (hd d x hx)

theorem Selected.markDeleting {d : Nat} {r : Session} (h : Selected s) (hn : Numbered s)
    (hr : s.sessions l=some r) : Selected (s.markDeleting d l r) := by
  intro d' x hx
  have hl := hn.live l r hr
  have hd := h d' x
  simp only [State.markDeleting,State.dropQueued,update_apply] at hx ⊢
  split_ifs at hx
  · cases hx; exact hl.symm
  · exact hd hx

theorem Selected.effect {a : Act} (h : Selected s) (hn : Numbered s) (hok : NoReuse s a)
    (ha : Effect s a t) : Selected t := by
  cases ha with
  | @create l =>
    intro d x hx
    have hne : x.label≠l := hok d x hx
    simp only [State.createRecord,update_apply,hne,if_false]
    exact h d x hx
  | @enqueue l =>
    refine h.of_same ?_ ?_
    · simp only [State.enqueueJob,State.ensureWorker]; split_ifs <;> rfl
    · simp only [State.enqueueJob,State.ensureWorker]; split_ifs <;> exact fun _ _ hx => hx
  | @cancel _ _ j | @cancelAgent j | @shutdownCancels _ j =>
    obtain ⟨f,hf,-⟩ := cancelRuntimeJob_eq s j
    rw [hf]
    exact h
  | @delete _ _ _ _ r hr => exact h.markDeleting hn hr
  | @deleteForced d l _ _ r j hr =>
    obtain ⟨f,hf,-⟩ := cancelRuntimeJob_eq (s.markDeleting d l r) j
    rw [hf]
    exact h.markDeleting hn hr
  | @abandonDeletion d | @finishDeletion d =>
    refine h.of_same rfl (fun d' x hx => ?_)
    simp only [State.forgetDeletion,update_apply] at hx
    split_ifs at hx
    exact hx
  | @expire l _ archived =>
    unfold State.expireRecord
    split_ifs <;> exact h.of_same rfl (fun _ _ hx => hx)
  | start =>
    unfold State.startJob
    dsimp only
    split_ifs <;> exact h.of_same rfl (fun _ _ hx => hx)
  | dequeue | dequeueAgent | clearQueue | interruptDeletion | reconfigure | beginShutdown
  | interruptShutdown | abandonShutdown | finishShutdown | deliverKill | deliverSettle
  | deliverUnwind | deliverHold | retire | skip | take | register | authorize | sendPrompt
  | conclude | unwound | settled | finalize | finish =>
    exact h.of_same rfl (fun _ _ hx => hx)

/-- What holds in every run that reuses no label under a waiting deletion. -/
structure Traced (s : State) : Prop where
  queues : Queues s
  holds : Holds s
  numbered : Numbered s
  selected : Selected s

theorem traced {c : Config} (h : Reach State.step NoReuse (·=State.initial c) s) : Traced s := by
  refine h.invariant (fun s hs => ?_) (fun s a t hi hok hst => ?_)
  · subst hs
    exact ⟨.initial c,.initial c,.initial c,fun _ _ hx => nomatch hx⟩
  · have he := effect_of_step hst
    exact ⟨hi.queues.effect hi.holds he,hi.holds.effect hi.queues he,hi.numbered.effect he,
      hi.selected.effect hi.numbered hok he⟩

section

variable (h : Traced s) (hi : s.incarnations l=i+1)
include h hi

theorem Traced.not_beyond (hj : j < s.accepted) (hb : (s.jobs j).beyond l i) : (s.jobs j).label≠l := by
  intro hl
  have hlt := h.numbered.jobs j hj
  rw [hl,hi] at hlt
  have := hb hl
  omega

theorem Traced.queue_of (hj : j∈s.queues l) : (s.jobs j).of l i := by
  obtain ⟨r,hr,he⟩ := h.queues.owned l j hj
  have hl := h.numbered.live l r hr
  exact ⟨(h.queues.queued l j hj).2.1,by omega⟩

theorem Traced.spares {u : State} (hs : ∀m,m≠l → u.sessions m=s.sessions m)
    (hq : ∀m,m≠l → u.queues m=s.queues m) (hh : ∀m,m≠l → u.history m=s.history m)
    (hc : u.config=s.config) (hr : u.running=s.running)
    (hj : ∀j,(s.jobs j).label≠l → u.jobs j=s.jobs j)
    (hw : ∀w,s.labelOf w≠l → u.tasks w=s.tasks w) : Spares l i s u where
  sessions m r hm hne := by
    by_cases hml : m=l
    · have hl := h.numbered.live m r hm
      rw [hml,hi] at hl
      exact absurd (by omega) (hne hml)
    · rw [hs m hml,hm]
  queues m := by
    by_cases hml : m=l
    · exact .inr (fun j hj => h.queue_of hi (hml ▸ hj))
    · exact .inl (hq m hml)
  history m k hk hlt := by
    by_cases hml : m=l
    · have hb := h.numbered.history m k hk
      rw [hml,hi] at hb
      exact absurd (hlt hml) (by omega)
    · rw [hh m hml]; exact hk
  protection := hc
  running := hr
  jobs j hlt hb := hj j (h.not_beyond hi hlt hb)
  workers w j hp hb := by
    obtain ⟨hk,hl⟩ := h.holds.held w j hp
    exact hw w (hl ▸ h.not_beyond hi (h.queues.claimed j hk).1 hb)
  strangers := hw

theorem Traced.spares_markDeleting {d : Nat} {r : Session} :
    Spares l i s (s.markDeleting d l r) := by
  refine h.spares hi (fun _ _ => rfl) (fun m hm => ?_) (fun _ _ => rfl) rfl rfl (fun j hj => ?_)
    (fun _ _ => rfl)
  · simp [State.markDeleting,State.dropQueued,hm]
  · simp [State.markDeleting,State.dropQueued,hj]

theorem Traced.spares_forced {d : Nat} {r : Session} (hr : s.running l=some j) :
    Spares l i s ((s.markDeleting d l r).cancelRuntimeJob j) := by
  obtain ⟨f,hf,hj,-⟩ := cancelRuntimeJob_eq (s.markDeleting d l r) j
  rw [hf]
  refine h.spares hi (fun _ _ => rfl) (fun m hm => ?_) (fun _ _ => rfl) rfl rfl (fun k hk => ?_)
    (fun _ _ => rfl)
  · simp [State.markDeleting,State.dropQueued,hm]
  · have hne : k≠j := by rintro rfl; exact hk (h.holds.running l k hr).2
    refine (hj k hne).trans ?_
    simp [State.markDeleting,State.dropQueued,hk]

theorem Traced.spares_cancelWorkers {p : Nat → Bool} (hp : ∀w,p w=true → s.labelOf w=l) :
    Spares l i s (s.cancelWorkers p) := by
  refine h.spares hi (fun _ _ => rfl) (fun _ _ => rfl) (fun _ _ => rfl) rfl rfl (fun _ _ => rfl)
    (fun w hw => ?_)
  have hpw : p w=false := by
    rw [← Bool.not_eq_true]
    exact fun hpw => hw (hp w hpw)
  simp [State.cancelWorkers,hpw]

theorem Traced.spares_removeSession {archived : Bool} {d : Nat} :
    Spares l i s ((s.removeSession l archived).forgetDeletion d) := by
  refine h.spares hi (fun m hm => ?_) (fun m hm => ?_) (fun m hm => ?_) rfl rfl (fun _ _ => rfl)
    (fun _ _ => rfl)
  · simp [State.removeSession,State.forgetDeletion,hm]
  · simp [State.removeSession,State.forgetDeletion,hm]
  · simp only [State.removeSession,State.forgetDeletion]
    split_ifs <;> simp [hm]

theorem Traced.spares_expireRecord {archived : Bool} :
    Spares l i s (s.expireRecord l archived) := by
  unfold State.expireRecord
  split_ifs
  · refine h.spares hi (fun m hm => ?_) (fun m hm => ?_) (fun m hm => ?_) rfl rfl (fun _ _ => rfl)
      (fun w hw => ?_)
    · simp [State.cancelWorkers,State.removeSession,State.markExpired,hm]
    · simp [State.cancelWorkers,State.removeSession,State.markExpired,hm]
    · simp [State.cancelWorkers,State.removeSession,State.markExpired,hm]
    · have hne : s.workers l≠some w := fun hl => hw (h.holds.workers l w hl).2
      simp [State.cancelWorkers,State.removeSession,State.markExpired,hne]
  · exact h.spares hi (fun _ _ => rfl) (fun _ _ => rfl) (fun _ _ => rfl) rfl rfl (fun _ _ => rfl)
      (fun _ _ => rfl)

end

theorem Traced.newest {a : Act} (h : Traced s) (ha : s.removes a=some (l,i)) :
    s.incarnations l=i+1 := by
  cases a with
  | delete d m force allowed | expire m cutoff archived =>
    obtain ⟨r,hr,he⟩ := Option.map_eq_some_iff.mp ha
    cases he
    exact (h.numbered.live _ r hr).symm
  | interruptDeletion d | abandonDeletion d | finishDeletion d archived =>
    obtain ⟨x,hx,he⟩ := Option.map_eq_some_iff.mp ha
    cases he
    exact h.selected d x hx
  | _ => cases ha

/-- A deletion or an expiry accepted for one session removes only that session, in every run
that creates no session under a label whose deletion is still waiting. -/
theorem deletion_spares_other_sessions {c : Config}
    (h : Reach State.step NoReuse (·=State.initial c) s) {a : Act} (hst : s.step a=some t)
    (ha : s.removes a=some (l,i)) : Spares l i s t := by
  have ht := traced h
  have hi := ht.newest ha
  cases effect_of_step hst with
  | delete hr =>
    simp only [State.removes,hr,Option.map_some,Option.some.injEq,Prod.mk.injEq] at ha
    obtain ⟨rfl,-⟩ := ha
    exact ht.spares_markDeleting hi
  | deleteForced hr hj =>
    simp only [State.removes,hr,Option.map_some,Option.some.injEq,Prod.mk.injEq] at ha
    obtain ⟨rfl,-⟩ := ha
    exact ht.spares_forced hi hj
  | @interruptDeletion d x hx =>
    simp only [State.removes,hx,Option.map_some,Option.some.injEq,Prod.mk.injEq] at ha
    obtain ⟨rfl,-⟩ := ha
    refine ht.spares_cancelWorkers hi (fun w hw => ?_)
    exact (ht.holds.captured d x w hx (by simpa using hw)).2
  | abandonDeletion =>
    exact ht.spares hi (fun _ _ => rfl) (fun _ _ => rfl) (fun _ _ => rfl) rfl rfl (fun _ _ => rfl)
      (fun _ _ => rfl)
  | finishDeletion hx =>
    simp only [State.removes,hx,Option.map_some,Option.some.injEq,Prod.mk.injEq] at ha
    obtain ⟨rfl,-⟩ := ha
    exact ht.spares_removeSession hi
  | expire hr =>
    simp only [State.removes,hr,Option.map_some,Option.some.injEq,Prod.mk.injEq] at ha
    obtain ⟨rfl,-⟩ := ha
    exact ht.spares_expireRecord hi
  | _ => cases ha

/-! Two deletions of one session -/

def ampleConfig : Config := ⟨5,100,10,1000,7,[]⟩

def guardedConfig : Config := {ampleConfig with protectedSessions := ["paper"]}

def deletedAtWork : List Act :=
  [.enqueue "paper" false 3 0 2 true,.move 0 .claim,.move 0 (.start true),
   .delete 0 "paper" true false,.move 0 .register,.move 0 (.conclude .cancelledResult),
   .move 0 (.finalize 3),.move 0 .finish,.move 0 .claim]

theorem deletedAtWork_clear : ∀a∈deletedAtWork,∀u,NoReuse u a := by
  intro a ha u
  simp only [deletedAtWork,List.mem_cons,List.not_mem_nil,or_false] at ha
  rcases ha with rfl | rfl | rfl | rfl | rfl | rfl | rfl | rfl | rfl <;> exact trivial

theorem deletion_spares_other_sessions_example :
    ∃s t,s.step (.finishDeletion 0 true)=some t ∧ (s.sessions "paper").isSome ∧
      t.sessions "paper"=none ∧ Spares "paper" 0 s t := by
  have hrun : ((State.initial ampleConfig).step (.create "paper" 1 true true)).any (fun s₀ =>
      (execute State.step s₀ deletedAtWork).any (fun s =>
        (s.step (.finishDeletion 0 true)).any (fun t => (s.sessions "paper").isSome &&
          (t.sessions "paper").isNone &&
          s.removes (.finishDeletion 0 true)==some ("paper",0))))=true := by
    decide
  obtain ⟨s₀,h₀,hrun⟩ := (Option.any_eq_true _ _).mp hrun
  obtain ⟨s,hs,hrun⟩ := (Option.any_eq_true _ _).mp hrun
  obtain ⟨t,ht,hrun⟩ := (Option.any_eq_true _ _).mp hrun
  simp only [Bool.and_eq_true,beq_iff_eq] at hrun
  obtain ⟨⟨hlive,hgone⟩,hr⟩ := hrun
  have hclear : NoReuse (State.initial ampleConfig) (.create "paper" 1 true true) :=
    fun _ _ hx => nomatch hx
  have hfirst : Reach State.step NoReuse (·=State.initial ampleConfig) s₀ :=
    .next _ (.start rfl) hclear h₀
  exact ⟨s,t,ht,hlive,Option.isNone_iff_eq_none.mp hgone,
    deletion_spares_other_sessions (hfirst.execute _ deletedAtWork_clear hs) ht hr⟩

/-- The second of two deletions of one session ends after the label has been taken again. -/
def deletedTwice : List Act :=
  [.create "paper" 1 true true,.enqueue "paper" false 3 0 2 true,.move 0 .claim,
   .move 0 (.start true),.delete 0 "paper" true false,.delete 1 "paper" true false,
   .move 0 .register,.move 0 (.conclude .cancelledResult),.move 0 (.finalize 3),.move 0 .finish,
   .move 0 .claim,.finishDeletion 0 true,.create "paper" 4 true true,
   .reconfigure guardedConfig none true,.enqueue "paper" false 3 0 5 true]

/-- It removes a later session with its protection, its queued job and its history. -/
theorem late_deletion_removes_later_session :
    ∃s t,Reach State.step Free (·=State.initial ampleConfig) s ∧
      s.step (.finishDeletion 1 true)=some t ∧
      s.removes (.finishDeletion 1 true)=some ("paper",0) ∧
      (s.sessions "paper").map (·.incarnation)=some 1 ∧ s.isProtected "paper"=true ∧
      t.sessions "paper"=none ∧ s.queues "paper"=[1] ∧ t.queues "paper"=[] ∧
      s.history "paper"=[1] ∧ t.history "paper"=[] ∧ ¬Spares "paper" 0 s t := by
  have hrun : (execute State.step (State.initial ampleConfig) deletedTwice).any (fun s =>
      (s.step (.finishDeletion 1 true)).any (fun t =>
        decide (s.removes (.finishDeletion 1 true)=some ("paper",0) ∧
          (s.sessions "paper").map (·.incarnation)=some 1 ∧ s.isProtected "paper"=true ∧
          t.sessions "paper"=none ∧ s.queues "paper"=[1] ∧ t.queues "paper"=[] ∧
          s.history "paper"=[1] ∧ t.history "paper"=[])))=true := by
    decide
  obtain ⟨s,hs,hrun⟩ := (Option.any_eq_true _ _).mp hrun
  obtain ⟨t,ht,hrun⟩ := (Option.any_eq_true _ _).mp hrun
  obtain ⟨hr,hn,hp,hg,hq,hq',hh,hh'⟩ := of_decide_eq_true hrun
  refine ⟨s,t,.execute _ (fun _ _ _ => trivial) (.start rfl) hs,ht,hr,hn,hp,hg,hq,hq',hh,hh',?_⟩
  intro hspares
  have hk := hspares.history "paper" 1 (by simp [hh]) (fun _ => Nat.one_pos)
  simp [hh'] at hk

end XiaoQing.Codex
