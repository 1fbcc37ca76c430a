import XiaoQing.OneBot.QueueInvariant

set_option linter.unusedSectionVars false

namespace XiaoQing.OneBot

open Framework EventClient

variable {κ : Type} [DecidableEq κ] {s s' : EventClient κ} {k : κ} {e w : Nat} {stage : Stage}
  {phase : WorkerPhase}

/-! The log -/

theorem Log.frame (h : Log s) (hn : s'.next=s.next) (he : s'.events=s.events)
    (hl : s'.started=s.started) : Log s' := by
  apply Log.mk
  · simp only [EventClient.stageOf,hn,he,hl]; exact h.mem
  · rw [hl]; exact h.nodup
  · simp only [EventClient.keyOf,he,hl]; exact h.ordered

theorem Log.aside (h : Log s) (hold : s.stageOf e≠.started) (hnew : stage≠.started) :
    Log (s.setStage e stage) := by
  apply Log.mk
  · intro a
    show a∈s.started ↔ a < s.next ∧ (s.setStage e stage).stageOf a=.started
    rw [h.mem a]
    by_cases hae : a=e
    · subst a
      rw [setStage_stage_self]
      exact iff_of_false (fun hx => hold hx.2) (fun hx => hnew hx.2)
    · rw [setStage_stage_ne hae]
  · exact h.nodup
  · simp only [setStage_key]
    exact h.ordered

theorem Log.call (h : Log s) (he : e < s.next) (hold : s.stageOf e≠.started)
    (hlast : ∀a∈s.started,s.keyOf a=s.keyOf e → a<e)
    (hn : s'.next=s.next) (hev : s'.events=(s.setStage e .started).events)
    (hl : s'.started=s.started++[e]) : Log s' := by
  have hstage (a : Nat) : s'.stageOf a=(s.setStage e .started).stageOf a := by
    simp only [EventClient.stageOf,hev]
  have hkey (a : Nat) : s'.keyOf a=s.keyOf a := by
    have hx : s'.keyOf a=(s.setStage e .started).keyOf a := by simp only [EventClient.keyOf,hev]
    rw [hx,setStage_key]
  have hnot : e∉s.started := fun hm => hold ((h.mem e).mp hm).2
  apply Log.mk
  · intro a
    rw [hl,hn,hstage,List.mem_append,List.mem_singleton,h.mem a]
    by_cases hae : a=e
    · subst a
      rw [setStage_stage_self]
      exact iff_of_true (Or.inr rfl) ⟨he,rfl⟩
    · rw [setStage_stage_ne hae]
      simp [hae]
  · rw [hl,List.nodup_append]
    refine ⟨h.nodup,List.nodup_singleton e,?_⟩
    intro a ha b hb hab
    rw [List.mem_singleton.mp hb] at hab
    exact hnot (hab ▸ ha)
  · rw [hl,List.pairwise_append]
    simp only [hkey]
    refine ⟨h.ordered,List.pairwise_singleton _ _,?_⟩
    intro a ha b hb hk
    rw [List.mem_singleton.mp hb] at hk ⊢
    exact hlast a ha hk

/-! Fates -/

theorem Fates.frame (h : Fates s) (hn : s'.next=s.next) (he : s'.events=s.events)
    (ha : s.auth ≤ s'.auth) (hs : s.accepting=false → s'.accepting=false) : Fates s' := by
  apply Fates.mk
  · rw [hn,he]
    exact fun e hlt => Nat.le_trans (h.auth e hlt) ha
  · simp only [EventClient.stageOf,hn,he]
    exact fun e hlt hd => Nat.lt_of_lt_of_le (h.rotation e hlt hd) ha
  · simp only [EventClient.stageOf,hn,he]
    exact fun e hlt hd => hs (h.stop e hlt hd)

theorem Fates.move (h : Fates s)
    (hr : stage=.discarded .rotation → (s.events e).auth < s.auth)
    (hs : stage=.discarded .stop → s.accepting=false) : Fates (s.setStage e stage) := by
  apply Fates.mk
  · intro a ha
    rw [setStage_auth]
    exact h.auth a ha
  · intro a ha hd
    rw [setStage_auth]
    by_cases hae : a=e
    · subst a
      rw [setStage_stage_self] at hd
      exact hr hd
    · rw [setStage_stage_ne hae] at hd
      exact h.rotation a ha hd
  · intro a ha hd
    by_cases hae : a=e
    · subst a
      rw [setStage_stage_self] at hd
      exact hs hd
    · rw [setStage_stage_ne hae] at hd
      exact h.stop a ha hd

/-! The dispatch -/

theorem Flight.frame (h : Flight s) (hn : s'.next=s.next) (he : s'.events=s.events)
    (hi : s'.inFlight=s.inFlight) (hq : s'.queueSize=s.queueSize)
    (hlen : ∀k,(s'.queues k).length≤(s.queues k).length) : Flight s' := by
  apply Flight.mk
  · intro a ha
    obtain ⟨h1,h2,h3⟩ := h.flying a (hi ▸ ha)
    have hkey : s'.keyOf a=s.keyOf a := by simp only [EventClient.keyOf,he]
    refine ⟨hn ▸ h1,by simp only [EventClient.stageOf,he]; exact h2,?_⟩
    rw [hq,hkey]
    have hl := hlen (s.keyOf a)
    omega
  · intro a ha
    rw [hn]
    exact h.landed a (hi ▸ ha)
  · intro a ha hs
    rw [hi]
    exact h.kept a (hn ▸ ha) (by simpa only [EventClient.stageOf,he] using hs)

theorem Flight.aside (h : Flight s) (hold : s.stageOf e≠.inFlight) (hnew : stage≠.inFlight) :
    Flight (s.setStage e stage) := by
  apply Flight.mk
  · intro a ha
    obtain ⟨h1,h2,h3⟩ := h.flying a ha
    have hae : a≠e := fun hx => hold (hx ▸ h2)
    refine ⟨h1,(setStage_stage_ne hae).trans h2,?_⟩
    rw [setStage_key]
    exact h3
  · exact h.landed
  · intro a ha hs
    have hae : a≠e := by
      intro hx
      subst a
      exact hnew ((setStage_stage_self s e stage).symm.trans hs)
    exact h.kept a ha ((setStage_stage_ne hae).symm.trans hs)

theorem Flight.land (h : Flight s) (hi : s.inFlight=some (e,false)) (hnew : stage≠.inFlight)
    {flight : Option (Nat × Bool)} (hf : flight=none ∨ flight=some (e,true))
    (hn : s'.next=s.next) (hev : s'.events=(s.setStage e stage).events)
    (hfl : s'.inFlight=flight) : Flight s' := by
  have hstage (a : Nat) : s'.stageOf a=(s.setStage e stage).stageOf a := by
    simp only [EventClient.stageOf,hev]
  have hsole : ∀a < s.next,s.stageOf a=.inFlight → a=e := by
    intro a ha hs
    have hx := h.kept a ha hs
    rw [hi] at hx
    cases hx
    rfl
  apply Flight.mk
  · intro a ha
    rw [hfl] at ha
    rcases hf with hf | hf
    · rw [hf] at ha; cases ha
    · rw [hf] at ha; cases ha
  · intro a ha
    rw [hfl] at ha
    rcases hf with hf | hf
    · rw [hf] at ha; cases ha
    · rw [hf] at ha
      cases ha
      rw [hn]
      exact (h.flying e hi).1
  · intro a ha hs
    rw [hstage] at hs
    by_cases hae : a=e
    · subst a
      rw [setStage_stage_self] at hs
      exact absurd hs hnew
    · rw [setStage_stage_ne hae] at hs
      exact absurd (hsole a (hn ▸ ha) hs) hae

/-! Service -/

theorem served_congr {j : κ} (ht : s'.queueTasks j=s.queueTasks j)
    (hw : ∀w,s.queueTasks j=some w → ((s'.workers w).phase=.done ↔ (s.workers w).phase=.done)) :
    s'.served j=s.served j := by
  simp only [EventClient.served,ht]
  cases hq : s.queueTasks j with
  | none => rfl
  | some w => simp [hw w hq]

theorem served_setWorker (hl : (s.workers w).phase≠.done) (hp : phase≠.done) (j : κ) :
    (s.setWorker w phase).served j=s.served j := by
  have hkept : (s.setWorker w phase).queueTasks j=s.queueTasks j := rfl
  apply served_congr hkept
  intro v hv
  by_cases hvw : v=w
  · subst v
    rw [setWorker_self]
    exact iff_of_false hp hl
  · rw [setWorker_ne hvw]

theorem served_spawn_self (s : EventClient κ) (k : κ) : (s.spawn k).served k=true := by
  simp [EventClient.served,spawn_task_self,spawn_worker_self]

theorem served_spawn_ne (ht : Tasks s) {j : κ} (hj : j≠k) : (s.spawn k).served j=s.served j := by
  apply served_congr (spawn_task_ne hj)
  intro v hv
  have hlt := (ht.known j v hv).1
  rw [spawn_worker_ne (by omega)]

theorem served_retire_ne (ht : Tasks s) (hw : w < s.nextWorker) (hl : (s.workers w).phase≠.done)
    {j : κ} (hj : j≠(s.workers w).key) : (s.retire w).served j=s.served j := by
  have hdone : (s.setWorker w .done).served j=s.served j := by
    have hkept : (s.setWorker w .done).queueTasks j=s.queueTasks j := rfl
    apply served_congr hkept
    intro v hv
    have hkey := (ht.known j v hv).2
    have hvw : v≠w := fun hx => hj (by rw [←hkey,hx])
    rw [setWorker_ne hvw]
  have hdrop : ((s.setWorker w .done).setTask (s.workers w).key none).served j=s.served j := by
    rw [←hdone]
    exact served_congr (setTask_ne hj) (fun _ _ => Iff.rfl)
  rw [retire_eq ht hw hl]
  split_ifs
  · exact hdrop
  · rw [served_spawn_ne (ht.setWorker hw hl) hj,hdone]
  · exact hdrop

theorem retire_frame (s : EventClient κ) (w : Nat) :
    (s.retire w).next=s.next ∧ (s.retire w).events=s.events ∧ (s.retire w).queues=s.queues ∧
    (s.retire w).queueSize=s.queueSize ∧ (s.retire w).inFlight=s.inFlight ∧
    (s.retire w).started=s.started ∧ (s.retire w).auth=s.auth ∧
    (s.retire w).accepting=s.accepting ∧ (s.retire w).pending=s.pending ∧
    (s.retire w).keyless=s.keyless ∧ (s.retire w).maxPending=s.maxPending := by
  simp only [EventClient.retire]
  split_ifs <;> exact ⟨rfl,rfl,rfl,rfl,rfl,rfl,rfl,rfl,rfl,rfl,rfl⟩

theorem Served.retire (h : Served s) (ht : Tasks s) (hw : w < s.nextWorker)
    (hl : (s.workers w).phase≠.done) : Served (s.retire w) := by
  obtain ⟨_,hev,hq,_,hi,_,_,hacc,_⟩ := retire_frame s w
  intro ha j hj
  rw [hacc] at ha
  rw [hq] at hj
  by_cases hjk : j=(s.workers w).key
  · left
    rw [retire_eq ht hw hl,if_neg (hjk ▸ hj),if_pos ha,hjk]
    exact served_spawn_self _ _
  · rw [served_retire_ne ht hw hl hjk,hi]
    simp only [EventClient.keyOf,hev]
    exact h ha j hj

theorem Served.keep (h : Served s) (ha : s'.accepting=true → s.accepting=true)
    (hq : ∀k,s.queues k=[] → s'.queues k=[]) (hs : ∀k,s'.served k=s.served k)
    (hi : ∀e,s.inFlight=some (e,true) → s'.inFlight=some (e,true) ∧ s'.keyOf e=s.keyOf e) :
    Served s' := by
  intro hacc j hj
  rw [hs]
  cases h (ha hacc) j (fun hx => hj (hq j hx)) with
  | inl hserved => exact Or.inl hserved
  | inr hflight =>
    obtain ⟨e,he,hk⟩ := hflight
    obtain ⟨he',hk'⟩ := hi e he
    exact Or.inr ⟨e,he',hk'.trans hk⟩

/-! Permits -/

theorem Permits.frame (h : Permits s) (hp : s'.pending=s.pending) (hk : s'.keyless=s.keyless)
    (hm : s'.maxPending=s.maxPending)
    (ht : tally Worker.busy s'.workers s'.nextWorker=tally Worker.busy s.workers s.nextWorker) :
    Permits s' := by
  apply Permits.mk
  · rw [hp,hk,ht]; exact h.used
  · rw [hp,hm]; exact h.bound
  · rw [hm]; exact h.positive

theorem busy_setWorker (hw : w < s.nextWorker) (phase : WorkerPhase) :
    tally Worker.busy (s.setWorker w phase).workers s.nextWorker+(Worker.busy (s.workers w)).toNat=
      tally Worker.busy s.workers s.nextWorker+
        (Worker.busy {s.workers w with phase := phase}).toNat :=
  tally_update Worker.busy s.workers s.nextWorker w _ hw

theorem busy_spawn (s : EventClient κ) (k : κ) :
    tally Worker.busy (s.spawn k).workers (s.spawn k).nextWorker=
      tally Worker.busy s.workers s.nextWorker := by
  have h : tally Worker.busy (s.spawn k).workers (s.spawn k).nextWorker=_ :=
    tally_push Worker.busy s.workers s.nextWorker ⟨k,.waiting⟩
  rw [h]
  rfl

theorem busy_retire (hw : w < s.nextWorker) :
    tally Worker.busy (s.retire w).workers (s.retire w).nextWorker+
      (Worker.busy (s.workers w)).toNat=tally Worker.busy s.workers s.nextWorker := by
  have h := busy_setWorker hw .done
  have hdone : (Worker.busy {s.workers w with phase := WorkerPhase.done}).toNat=0 := rfl
  have hspawn := busy_spawn (s.setWorker w .done) (s.workers w).key
  have hnext : (s.setWorker w .done).nextWorker=s.nextWorker := rfl
  rw [hnext] at hspawn
  simp only [EventClient.retire]
  split_ifs
  · show tally Worker.busy (s.setWorker w .done).workers s.nextWorker+_=_
    omega
  · omega
  · show tally Worker.busy (s.setWorker w .done).workers s.nextWorker+_=_
    omega
  · show tally Worker.busy (s.setWorker w .done).workers s.nextWorker+_=_
    omega

end XiaoQing.OneBot
