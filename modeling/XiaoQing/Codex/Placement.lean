import XiaoQing.Codex.Crew

namespace XiaoQing.Codex

open Function (update update_apply)
open Framework

variable {s t : State} {l : Label} {w j : Nat}

structure Placed (s : State) : Prop where
  executing : ∀w j stage,(s.tasks w).point=.executing j stage →
    (s.jobs j).status.terminal=false ∧ (s.jobs j).finished=false
  collecting : ∀w j held,(s.tasks w).point=.collecting j held →
    (s.jobs j).status.terminal=true ∧ (s.jobs j).finished=false
  placed : ∀j < s.accepted,j∈s.queues (s.jobs j).label ∨ s.running (s.jobs j).label=some j ∨
    ((s.jobs j).status.terminal=true ∧
      ((s.jobs j).finished=true ∨ ∃w held,(s.tasks w).point=.collecting j held))
  mine : ∀l j,s.running l=some j → ∃r,s.sessions l=some r ∧ (s.jobs j).incarnation=r.incarnation

section Placed

variable {u : State}

theorem Placed.flags (h : Placed s) (ht : u.tasks=s.tasks) (hr : u.running=s.running)
    (hq : u.queues=s.queues) (hs : u.sessions=s.sessions) (ha : u.accepted=s.accepted)
    (hj : ∀k,(u.jobs k).status.terminal=(s.jobs k).status.terminal ∧
      (u.jobs k).finished=(s.jobs k).finished ∧ (u.jobs k).label=(s.jobs k).label ∧
      (u.jobs k).incarnation=(s.jobs k).incarnation) : Placed u where
  executing w j stage := by
    rw [ht,(hj j).1,(hj j).2.1]
    exact h.executing w j stage
  collecting w j held := by
    rw [ht,(hj j).1,(hj j).2.1]
    exact h.collecting w j held
  placed j := by
    rw [ha,hq,hr,ht,(hj j).1,(hj j).2.1,(hj j).2.2.1]
    exact h.placed j
  mine l j := by
    rw [hr,hs,(hj j).2.2.2]
    exact h.mine l j

theorem Placed.cancelRuntimeJob (h : Placed s) : Placed (s.cancelRuntimeJob j) := by
  obtain ⟨f,hf,-,hj⟩ := cancelRuntimeJob_eq s j
  rw [hf]
  exact h.flags rfl rfl rfl rfl rfl hj

theorem Placed.discard (h : Placed s) (hqs : Queues s) (hh : Holds s)
    (ht : u.tasks=s.tasks) (hr : u.running=s.running) (hs : u.sessions=s.sessions)
    (ha : u.accepted=s.accepted)
    (hj : ∀k,u.jobs k=s.jobs k ∧ (k∈s.queues (s.jobs k).label → k∈u.queues (s.jobs k).label) ∨
      k∈s.queues (s.jobs k).label ∧ u.jobs k=State.markJobCancelled (s.jobs k)) : Placed u := by
  have hkeep (k : Nat) (hk : k∈s.claims) : u.jobs k=s.jobs k := by
    rcases hj k with ⟨he,_⟩ | ⟨hm,_⟩
    · exact he
    · exact absurd hm (hqs.not_queued hk)
  refine ⟨fun w j stage hp => ?_,fun w j held hp => ?_,fun j hlt => ?_,fun l j hl => ?_⟩
  · rw [ht] at hp
    rw [hkeep j (hh.held w j (by rw [hp]; rfl)).1]
    exact h.executing w j stage hp
  · rw [ht] at hp
    rw [hkeep j (hh.held w j (by rw [hp]; rfl)).1]
    exact h.collecting w j held hp
  · rcases hj j with ⟨he,hm⟩ | ⟨_,he⟩
    · rw [he,hr,ht]
      rcases h.placed j (ha ▸ hlt) with hq | hq
      · exact .inl (hm hq)
      · exact .inr hq
    · rw [he]
      exact .inr (.inr ⟨rfl,.inl rfl⟩)
  · rw [hr] at hl
    rw [hs,hkeep j (hh.running l j hl).1]
    exact h.mine l j hl

theorem Placed.dropQueued {p : Label → Bool} (h : Placed s) (hq : Queues s) (hh : Holds s) :
    Placed (s.dropQueued p) := by
  refine h.discard hq hh rfl rfl rfl rfl (fun k => ?_)
  simp only [State.dropQueued,Bool.and_eq_true,decide_eq_true_eq]
  grind

theorem Placed.dequeue (h : Placed s) (hq : Queues s) (hh : Holds s)
    (hj : j∈s.queues (s.jobs j).label) : Placed (s.dequeue j) := by
  refine h.discard hq hh rfl rfl rfl rfl (fun k => ?_)
  by_cases hk : k=j
  · subst hk
    exact .inr ⟨hj,by simp [State.dequeue,State.setJob]⟩
  · refine .inl ⟨by simp [State.dequeue,State.setJob,hk],fun hm => ?_⟩
    simp only [State.dequeue,update_apply]
    split_ifs with hl
    · rw [hl] at hm
      exact (List.mem_erase_of_ne hk).mpr hm
    · exact hm

theorem Placed.enqueueJob {r : Session} {overhead : Bool} {time : Nat} (h : Placed s)
    (hq : Queues s) (hh : Holds s) (hr : s.sessions l=some r) :
    Placed (s.enqueueJob l r overhead time) := by
  have hu := hh.unborn
  have hclaims (k : Nat) (hk : k∈s.claims) : k≠s.accepted :=
    Nat.ne_of_lt (hq.claimed k hk).1
  have he : ∃ts ws sp,s.ensureWorker l={s with tasks := ts,workers := ws,spawned := sp} ∧
      (∀w j stage,(ts w).point=.executing j stage ↔ (s.tasks w).point=.executing j stage) ∧
      ∀w j held,(ts w).point=.collecting j held ↔ (s.tasks w).point=.collecting j held := by
    unfold State.ensureWorker
    split_ifs
    · exact ⟨_,_,_,rfl,fun _ _ _ => .rfl,fun _ _ _ => .rfl⟩
    · have hd := hu s.spawned (Nat.le_refl _)
      refine ⟨_,_,_,rfl,fun w j stage => ?_,fun w j held => ?_⟩ <;> by_cases hw : w=s.spawned <;>
        simp [hw,hd]
  obtain ⟨ts,ws,sp,heq,hex,hcol⟩ := he
  unfold State.enqueueJob
  rw [heq]
  dsimp only
  refine ⟨fun w j stage hp => ?_,fun w j held hp => ?_,fun j hlt => ?_,fun m j hm => ?_⟩
  · have hp' := (hex w j stage).mp hp
    have hne := hclaims j (hh.held w j (by rw [hp']; rfl)).1
    simpa [hne] using h.executing w j stage hp'
  · have hp' := (hcol w j held).mp hp
    have hne := hclaims j (hh.held w j (by rw [hp']; rfl)).1
    simpa [hne] using h.collecting w j held hp'
  · by_cases hj : j=s.accepted
    · subst hj
      exact .inl (by simp [State.newJob])
    · simp only [update_apply,if_neg hj]
      rcases h.placed j (Nat.lt_of_le_of_ne (Nat.lt_succ_iff.mp hlt) hj) with
        hm | hm | ⟨hm,hf | ⟨w,held,hp⟩⟩
      · refine .inl ?_
        split_ifs with hl
        · rw [hl] at hm
          exact List.mem_append_left _ hm
        · exact hm
      · exact .inr (.inl hm)
      · exact .inr (.inr ⟨hm,.inl hf⟩)
      · exact .inr (.inr ⟨hm,.inr ⟨w,held,(hcol w j held).mpr hp⟩⟩)
  · have hne := hclaims j (hh.running m j hm).1
    obtain ⟨r',hr',hi⟩ := h.mine m j hm
    by_cases hml : m=l
    · subst hml
      cases hr.symm.trans hr'
      exact ⟨{r with totalJobs := r.totalJobs+1,updatedAt := time},by simp,by simpa [hne] using hi⟩
    · exact ⟨r',by simpa [hml] using hr',by simpa [hne] using hi⟩

theorem Placed.rework {stage : Stage} {f : Job → Job} (h : Placed s)
    (hp : (s.tasks w).point=.executing j stage) (stage' : Stage)
    (ht : ∀w',(u.tasks w').point=if w'=w then .executing j stage' else (s.tasks w').point)
    (hr : u.running=s.running) (hq : u.queues=s.queues) (hs : u.sessions=s.sessions)
    (ha : u.accepted=s.accepted) (hj : u.jobs=update s.jobs j (f (s.jobs j)))
    (hf : (f (s.jobs j)).status.terminal=false ∧ (f (s.jobs j)).finished=(s.jobs j).finished ∧
      (f (s.jobs j)).label=(s.jobs j).label ∧
      (f (s.jobs j)).incarnation=(s.jobs j).incarnation) : Placed u := by
  have hx := h.executing w j stage hp
  have hsame (k : Nat) : (u.jobs k).status.terminal=(s.jobs k).status.terminal ∧
      (u.jobs k).finished=(s.jobs k).finished ∧ (u.jobs k).label=(s.jobs k).label ∧
      (u.jobs k).incarnation=(s.jobs k).incarnation := by
    by_cases hk : k=j
    · subst hk
      rw [hj,Function.update_self]
      exact ⟨hf.1.trans hx.1.symm,hf.2⟩
    · rw [hj,Function.update_of_ne hk]
      exact ⟨rfl,rfl,rfl,rfl⟩
  refine ⟨fun w' k st hk => ?_,fun w' k held hk => ?_,fun k hlt => ?_,fun l k hk => ?_⟩
  · rw [(hsame k).1,(hsame k).2.1]
    rw [ht] at hk
    split_ifs at hk
    · cases hk; exact hx
    · exact h.executing w' k st hk
  · rw [(hsame k).1,(hsame k).2.1]
    rw [ht] at hk
    split_ifs at hk
    exact h.collecting w' k held hk
  · rw [(hsame k).1,(hsame k).2.1,(hsame k).2.2.1,hq,hr]
    rcases h.placed k (ha ▸ hlt) with hm | hm | ⟨hm,hff | ⟨w',held,hk⟩⟩
    · exact .inl hm
    · exact .inr (.inl hm)
    · exact .inr (.inr ⟨hm,.inl hff⟩)
    · have hne : w'≠w := by rintro rfl; simp [hp] at hk
      exact .inr (.inr ⟨hm,.inr ⟨w',held,by rw [ht,if_neg hne]; exact hk⟩⟩)
  · rw [hs,(hsame k).2.2.2]
    exact h.mine l k (hr ▸ hk)

theorem Placed.wander {p : Point} (h : Placed s)
    (hd : ∀j stage,(s.tasks w).point≠.executing j stage)
    (hc : ∀j held,(s.tasks w).point≠.collecting j held)
    (ht : ∀w',(u.tasks w').point=if w'=w then p else (s.tasks w').point)
    (hpe : ∀j stage,p≠.executing j stage) (hpc : ∀j held,p≠.collecting j held)
    (hr : u.running=s.running) (hq : u.queues=s.queues) (hs : u.sessions=s.sessions)
    (ha : u.accepted=s.accepted) (hj : u.jobs=s.jobs) : Placed u := by
  refine ⟨fun w' k st hk => ?_,fun w' k held hk => ?_,fun k hlt => ?_,fun l k hk => ?_⟩
  · rw [ht] at hk
    split_ifs at hk
    · exact absurd hk (hpe k st)
    · exact hj ▸ h.executing w' k st hk
  · rw [ht] at hk
    split_ifs at hk
    · exact absurd hk (hpc k held)
    · exact hj ▸ h.collecting w' k held hk
  · rw [hj,hq,hr]
    rcases h.placed k (ha ▸ hlt) with hm | hm | ⟨hm,hff | ⟨w',held,hk⟩⟩
    · exact .inl hm
    · exact .inr (.inl hm)
    · exact .inr (.inr ⟨hm,.inl hff⟩)
    · have hne : w'≠w := by rintro rfl; exact hc _ _ hk
      exact .inr (.inr ⟨hm,.inr ⟨w',held,by rw [ht,if_neg hne]; exact hk⟩⟩)
  · rw [hj,hs]
    exact h.mine l k (hr ▸ hk)

theorem Placed.take {rest : List Nat} (h : Placed s) (hqs : Queues s) (hc : Crew s)
    (hw : s.Looking w) (hj : s.queues (s.labelOf w)=j::rest) :
    Placed ((s.popQueue (s.labelOf w)).takeJob w j) := by
  have hm : j∈s.queues (s.labelOf w) := by simp [hj]
  obtain ⟨_,hlj,hsj,_,hfj⟩ := hqs.queued _ j hm
  have hnc : j∉s.claims := fun hk => hqs.not_queued hk (hlj.symm ▸ hm)
  obtain ⟨r,hr,hi⟩ := hqs.owned _ j hm
  have hidle : s.running (s.labelOf w)=none := by
    cases hrun : s.running (s.labelOf w) with
    | none => rfl
    | some k =>
      obtain ⟨w',stage,hl,hp⟩ := hc.run _ k hrun
      have hww := (hc.active w' k stage hp).2
      rw [hl,hc.looking hw] at hww
      cases hww
      exact absurd hp (hw.not_executing k stage)
  set u := (s.popQueue (s.labelOf w)).takeJob w j with hu
  have ht (w' : Nat) : (u.tasks w').point=if w'=w then .executing j .preparing
      else (s.tasks w').point := by
    simp only [hu,State.takeJob,State.popQueue,State.setPoint,State.setJob,update_apply]
    split_ifs <;> rfl
  have hjobs (k : Nat) : (u.jobs k).status.terminal=(s.jobs k).status.terminal ∧
      (u.jobs k).finished=(s.jobs k).finished ∧ (u.jobs k).label=(s.jobs k).label ∧
      (u.jobs k).incarnation=(s.jobs k).incarnation := by
    by_cases hk : k=j
    · subst hk
      simp [hu,State.takeJob,State.popQueue,State.setPoint,State.setJob,hsj,Status.terminal]
    · simp [hu,State.takeJob,State.popQueue,State.setPoint,State.setJob,hk]
  have hrun : u.running=update s.running (s.labelOf w) (some j) := rfl
  have hque : u.queues=update s.queues (s.labelOf w) (s.queues (s.labelOf w)).tail := rfl
  refine ⟨fun w' k st hk => ?_,fun w' k held hk => ?_,fun k hlt => ?_,fun l k hk => ?_⟩
  · rw [(hjobs k).1,(hjobs k).2.1]
    rw [ht] at hk
    split_ifs at hk
    · cases hk
      exact ⟨by rw [hsj]; rfl,hfj⟩
    · exact h.executing w' k st hk
  · rw [(hjobs k).1,(hjobs k).2.1]
    rw [ht] at hk
    split_ifs at hk
    exact h.collecting w' k held hk
  · rw [(hjobs k).1,(hjobs k).2.1,(hjobs k).2.2.1,hque,hrun]
    by_cases hkj : k=j
    · subst hkj
      exact .inr (.inl (by rw [hlj,Function.update_self]))
    rcases h.placed k hlt with hkq | hkr | ⟨hkt,hkf | ⟨w',held,hp⟩⟩
    · refine .inl ?_
      simp only [update_apply]
      split_ifs with hl
      · rw [hl,hj] at hkq
        rw [hj]
        exact (List.mem_cons.mp hkq).resolve_left hkj
      · exact hkq
    · refine .inr (.inl ?_)
      have hl : (s.jobs k).label≠s.labelOf w := by
        intro hl
        simp [hl,hidle] at hkr
      rw [Function.update_of_ne hl]
      exact hkr
    · exact .inr (.inr ⟨hkt,.inl hkf⟩)
    · have hne : w'≠w := by rintro rfl; exact hw.not_collecting k held hp
      exact .inr (.inr ⟨hkt,.inr ⟨w',held,by rw [ht,if_neg hne]; exact hp⟩⟩)
  · rw [(hjobs k).2.2.2]
    rw [hrun,update_apply] at hk
    split_ifs at hk with hl
    · cases hk
      exact ⟨r,hl ▸ hr,hi⟩
    · exact h.mine l k hk

theorem Placed.finalizeJob {r : Result} {time : Nat} (h : Placed s) (hc : Crew s) (hh : Holds s)
    (hu : Starts s) (hp : (s.tasks w).point=.executing j (.ended r)) :
    Placed (s.finalizeJob w j r time) := by
  have hrun := (hc.active w j _ hp).1
  have hlj := (hh.held w j (by rw [hp]; rfl)).2
  obtain ⟨_,hfin⟩ := h.executing w j _ hp
  set u := s.finalizeJob w j r time with hueq
  have ht (w' : Nat) : (u.tasks w').point=if w'=w then .collecting j false
      else (s.tasks w').point := by
    simp only [hueq,State.finalizeJob,State.setPoint,State.setJob,update_apply]
    split_ifs <;> rfl
  have hother (k : Nat) (hk : k≠j) : u.jobs k=s.jobs k := by
    simp [hueq,State.finalizeJob,State.setPoint,State.setJob,hk]
  have hself : (u.jobs j).status.terminal=true ∧ (u.jobs j).finished=false ∧
      (u.jobs j).label=(s.jobs j).label := by
    refine ⟨?_,?_,?_⟩
    · simp only [hueq,State.finalizeJob,State.setPoint,State.setJob,Function.update_self]
      split_ifs <;> rfl
    · simpa [hueq,State.finalizeJob,State.setPoint,State.setJob] using hfin
    · simp [hueq,State.finalizeJob,State.setPoint,State.setJob]
  have hur : u.running=update s.running (s.labelOf w) none := by
    simp only [hueq,State.finalizeJob,hrun,if_true]
  have honly (w' k held) (hk : (s.tasks w').point=.collecting k held) : w'≠w ∧ k≠j := by
    refine ⟨by rintro rfl; simp [hp] at hk,?_⟩
    rintro rfl
    have he := hu.unique w' w k (by rw [hk]; rfl) (by rw [hp]; rfl)
    rw [he,hp] at hk
    cases hk
  refine ⟨fun w' k st hk => ?_,fun w' k held hk => ?_,fun k hlt => ?_,fun l k hk => ?_⟩
  · rw [ht] at hk
    split_ifs at hk with hw
    have hne : k≠j := by
      rintro rfl
      exact hw (hu.unique w' w k (by rw [hk]; rfl) (by rw [hp]; rfl))
    rw [hother k hne]
    exact h.executing w' k st hk
  · rw [ht] at hk
    split_ifs at hk with hw
    · cases hk
      exact ⟨hself.1,hself.2.1⟩
    · rw [hother k (honly w' k held hk).2]
      exact h.collecting w' k held hk
  · by_cases hkj : k=j
    · subst hkj
      exact .inr (.inr ⟨hself.1,.inr ⟨w,false,by rw [ht,if_pos rfl]⟩⟩)
    rw [hother k hkj,hur]
    rcases h.placed k hlt with hkq | hkr | ⟨hkt,hkf | ⟨w',held,hk⟩⟩
    · exact .inl hkq
    · refine .inr (.inl ?_)
      have hl : (s.jobs k).label≠s.labelOf w := by
        intro hl
        rw [hl,hrun] at hkr
        exact hkj (Option.some.inj hkr).symm
      rw [Function.update_of_ne hl]
      exact hkr
    · exact .inr (.inr ⟨hkt,.inl hkf⟩)
    · exact .inr (.inr ⟨hkt,.inr ⟨w',held,by rw [ht,if_neg (honly w' k held hk).1]; exact hk⟩⟩)
  · rw [hur,update_apply] at hk
    split_ifs at hk with hl
    have hkj : k≠j := by
      rintro rfl
      exact hl ((hh.running l k hk).2.symm.trans hlj)
    rw [hother k hkj]
    obtain ⟨r',hr',hi⟩ := h.mine l k hk
    exact ⟨r',by simpa [hueq,State.finalizeJob,hl] using hr',hi⟩

theorem Placed.finishJob {held : Bool} (h : Placed s) (hu : Starts s)
    (hp : (s.tasks w).point=.collecting j held) : Placed (s.finishJob w j held) := by
  obtain ⟨hterm,_⟩ := h.collecting w j held hp
  set u := s.finishJob w j held with hueq
  have ht (w' : Nat) (hw : w'≠w) : (u.tasks w').point=(s.tasks w').point := by
    simp [hueq,State.finishJob,State.setPoint,State.setJob,hw]
  have hw (k) : (∀stage,(u.tasks w).point≠.executing k stage) ∧
      ∀b,(u.tasks w).point≠.collecting k b := by
    simp only [hueq,State.finishJob,State.setPoint,State.setJob,Function.update_self]
    constructor <;> intro <;> split_ifs <;> simp
  have hother (k : Nat) (hk : k≠j) : u.jobs k=s.jobs k := by
    simp [hueq,State.finishJob,State.setPoint,State.setJob,hk]
  have hself : (u.jobs j).status=(s.jobs j).status ∧ (u.jobs j).finished=true ∧
      (u.jobs j).incarnation=(s.jobs j).incarnation := by
    simp [hueq,State.finishJob,State.setPoint,State.setJob]
  have hne (w' k) (hw' : w'≠w) (hk : (s.tasks w').point.job?=some k) : k≠j := by
    rintro rfl
    exact hw' (hu.unique w' w k hk (by rw [hp]; rfl))
  refine ⟨fun w' k st hk => ?_,fun w' k b hk => ?_,fun k hlt => ?_,fun l k hk => ?_⟩
  · have hww : w'≠w := by rintro rfl; exact (hw k).1 st hk
    rw [ht w' hww] at hk
    rw [hother k (hne w' k hww (by rw [hk]; rfl))]
    exact h.executing w' k st hk
  · have hww : w'≠w := by rintro rfl; exact (hw k).2 b hk
    rw [ht w' hww] at hk
    rw [hother k (hne w' k hww (by rw [hk]; rfl))]
    exact h.collecting w' k b hk
  · by_cases hkj : k=j
    · subst hkj
      exact .inr (.inr ⟨by rw [hself.1]; exact hterm,.inl hself.2.1⟩)
    rw [hother k hkj]
    rcases h.placed k hlt with hkq | hkr | ⟨hkt,hkf | ⟨w',b,hk⟩⟩
    · exact .inl hkq
    · exact .inr (.inl hkr)
    · exact .inr (.inr ⟨hkt,.inl hkf⟩)
    · have hww : w'≠w := by
        rintro rfl
        rw [hp] at hk
        cases hk
        exact hkj rfl
      exact .inr (.inr ⟨hkt,.inr ⟨w',b,by rw [ht w' hww]; exact hk⟩⟩)
  · have hk' : s.running l=some k := hk
    obtain ⟨r,hr,hi⟩ := h.mine l k hk'
    refine ⟨r,hr,?_⟩
    by_cases hkj : k=j
    · subst hkj; exact hself.2.2.trans hi
    · rw [hother k hkj]; exact hi

theorem Placed.acknowledged {stage : Stage} {f : Job → Job} (h : Placed s)
    (hp : (s.tasks w).point=.executing j stage) (stage' : Stage)
    (hu : u=((s.acknowledge w).setJob j f).setPoint w (.executing j stage'))
    (hf : ∀x : Job,(f x).status=x.status ∧ (f x).finished=x.finished ∧ (f x).label=x.label ∧
      (f x).incarnation=x.incarnation) : Placed u := by
  subst hu
  obtain ⟨hst,hfi,hl,hi⟩ := hf (s.jobs j)
  refine h.rework (f := f) hp stage' (fun w' => ?_) rfl rfl rfl rfl rfl
    ⟨hst ▸ (h.executing w j stage hp).1,hfi,hl,hi⟩
  simp only [State.acknowledge,State.setPoint,State.setJob,update_apply]
  split_ifs <;> rfl

theorem Placed.createRecord {time : Nat} {noted : Bool} (h : Placed s) (hl : s.sessions l=none) :
    Placed (s.createRecord l time noted) := by
  refine ⟨h.executing,h.collecting,h.placed,fun m j hj => ?_⟩
  obtain ⟨r,hr,hi⟩ := h.mine m j hj
  have hne : m≠l := by rintro rfl; simp [hl] at hr
  exact ⟨r,by simpa [State.createRecord,hne] using hr,hi⟩

theorem Placed.cancelWorkers {p : Nat → Bool} (h : Placed s) : Placed (s.cancelWorkers p) := by
  refine ⟨fun w j st hp => ?_,fun w j held hp => ?_,fun j hlt => ?_,h.mine⟩
  · exact h.executing w j st (by simpa using hp)
  · exact h.collecting w j held (by simpa using hp)
  · rcases h.placed j hlt with hp | hp | ⟨ht,hf | ⟨w,held,hp⟩⟩
    · exact .inl hp
    · exact .inr (.inl hp)
    · exact .inr (.inr ⟨ht,.inl hf⟩)
    · exact .inr (.inr ⟨ht,.inr ⟨w,held,by simpa using hp⟩⟩)

theorem Placed.removeSession {archived : Bool} (h : Placed s) (hempty : s.queues l=[])
    (hidle : ∀j,s.running l≠some j) : Placed (s.removeSession l archived) := by
  refine ⟨h.executing,h.collecting,fun j hlt => ?_,fun m j hj => ?_⟩
  · rcases h.placed j hlt with hp | hp
    · refine .inl ?_
      have hne : (s.jobs j).label≠l := by
        intro hl
        simp [hl,hempty] at hp
      simpa [State.removeSession,hne] using hp
    · exact .inr hp
  · have hne : m≠l := by rintro rfl; exact hidle j hj
    obtain ⟨r,hr,hi⟩ := h.mine m j hj
    exact ⟨r,by simpa [State.removeSession,hne] using hr,hi⟩

theorem Placed.hold {held : Bool} (h : Placed s) (hp : (s.tasks w).point=.collecting j held) :
    Placed ((s.acknowledge w).setPoint w (.collecting j true)) := by
  have ht (w' : Nat) : (((s.acknowledge w).setPoint w (.collecting j true)).tasks w').point=
      if w'=w then .collecting j true else (s.tasks w').point := by
    simp only [State.acknowledge,State.setPoint,update_apply]
    split_ifs <;> rfl
  refine ⟨fun w' k st hk => ?_,fun w' k b hk => ?_,fun k hlt => ?_,h.mine⟩
  · rw [ht] at hk
    split_ifs at hk
    exact h.executing w' k st hk
  · rw [ht] at hk
    split_ifs at hk
    · cases hk; exact h.collecting w j held hp
    · exact h.collecting w' k b hk
  · rcases h.placed k hlt with hk | hk | ⟨hkt,hf | ⟨w',b,hk⟩⟩
    · exact .inl hk
    · exact .inr (.inl hk)
    · exact .inr (.inr ⟨hkt,.inl hf⟩)
    · by_cases hww : w'=w
      · subst hww
        rw [hp] at hk
        cases hk
        exact .inr (.inr ⟨hkt,.inr ⟨w',true,by rw [ht,if_pos rfl]⟩⟩)
      · exact .inr (.inr ⟨hkt,.inr ⟨w',b,by rw [ht,if_neg hww]; exact hk⟩⟩)

theorem Placed.skip {rest : List Nat} (h : Placed s) (hq : Queues s) (hh : Holds s) (hl : s.Looking w)
    (hj : s.queues (s.labelOf w)=j::rest) :
    Placed (((s.popQueue (s.labelOf w)).setJob j State.markJobCancelled).setPoint w .claiming) := by
  have hm : j∈s.queues (s.labelOf w) := by simp [hj]
  have hlj := (hq.queued _ j hm).2.1
  have hd : Placed ((s.popQueue (s.labelOf w)).setJob j State.markJobCancelled) := by
    refine h.discard hq hh rfl rfl rfl rfl (fun k => ?_)
    by_cases hk : k=j
    · subst hk
      exact .inr ⟨hlj.symm ▸ hm,by simp [State.popQueue,State.setJob]⟩
    · refine .inl ⟨by simp [State.popQueue,State.setJob,hk],fun hkq => ?_⟩
      simp only [State.popQueue,State.setJob,update_apply]
      split_ifs with hkl
      · rw [hkl,hj] at hkq
        rw [hj]
        exact (List.mem_cons.mp hkq).resolve_left hk
      · exact hkq
  refine hd.wander (w := w) (p := .claiming) hl.not_executing hl.not_collecting (fun w' => ?_)
    (by simp) (by simp) rfl rfl rfl rfl rfl
  simp only [State.setPoint,update_apply]
  split_ifs <;> rfl

theorem Placed.effect {a : Act} (h : Placed s) (hq : Queues s) (hh : Holds s) (hu : Starts s)
    (hc : Crew s) (hw : Watch s) (hok : Clean s a) (ha : Effect s a t) : Placed t := by
  have hpoint (w : Nat) (p : Point) (w' : Nat) : ((s.setPoint w p).tasks w').point=
      if w'=w then p else (s.tasks w').point := by
    simp only [State.setPoint,update_apply]
    split_ifs <;> rfl
  cases ha with
  | create hl => exact h.createRecord hl
  | enqueue hr => exact h.enqueueJob hq hh hr
  | dequeue hj => exact h.dequeue hq hh ((hq.queued _ _ hj).2.1.symm ▸ hj)
  | dequeueAgent hj => exact h.dequeue hq hh hj
  | cancel | cancelAgent | shutdownCancels => exact h.cancelRuntimeJob
  | clearQueue => exact h.dropQueued hq hh
  | @delete _ l =>
    have hd := h.dropQueued (p := (·==l)) hq hh
    exact ⟨hd.executing,hd.collecting,hd.placed,hd.mine⟩
  | @deleteForced d l _ _ r =>
    have hd := h.dropQueued (p := (·==l)) hq hh
    have hm : Placed (s.markDeleting d l r) := ⟨hd.executing,hd.collecting,hd.placed,hd.mine⟩
    exact hm.cancelRuntimeJob
  | interruptDeletion | interruptShutdown => exact h.cancelWorkers
  | abandonDeletion | reconfigure | abandonShutdown =>
    exact ⟨h.executing,h.collecting,h.placed,h.mine⟩
  | @finishDeletion d archived x hx hd =>
    obtain ⟨htomb,hwk⟩ := hw.pending d x hx
    have hidle (j : Nat) : s.running x.label≠some j := by
      intro hj
      obtain ⟨w,stage,hl,hp⟩ := hc.run _ j hj
      have hlw := (hc.active w j stage hp).2
      rw [hl] at hlw
      rcases hwk with hn | hn
      · simp [hn] at hlw
      · simp [hd w (hn ▸ hlw)] at hp
    have hr : Placed (s.removeSession x.label archived) :=
      h.removeSession (hq.closed _ (by simp [State.closing,htomb])) hidle
    exact ⟨hr.executing,hr.collecting,hr.placed,hr.mine⟩
  | @expire l cutoff archived r _ hrun hl =>
    cases (show archived=true from hok)
    have hm : Placed (s.markExpired l) := ⟨h.executing,h.collecting,h.placed,h.mine⟩
    have hidle (j : Nat) : (s.markExpired l).running l≠some j := by
      intro hj
      rw [show (s.markExpired l).running l=s.running l from rfl,hrun] at hj
      cases hj
    simp only [State.expireRecord,if_true]
    exact (hm.removeSession hl hidle).cancelWorkers
  | beginShutdown =>
    have hd := h.dropQueued (p := fun _ => true) hq hh
    exact ⟨hd.executing,hd.collecting,hd.placed,hd.mine⟩
  | @finishShutdown k x hx hd =>
    refine ⟨h.executing,h.collecting,fun j hlt => ?_,fun _ _ hj => by cases hj⟩
    rcases h.placed j hlt with hp | hp | hp
    · exact .inl hp
    · obtain ⟨w,stage,hl,he⟩ := hc.run _ j hp
      have hlw := (hc.active w j stage he).2
      simp [hd w ((hw.stopping k x hx).2 _ w hlw)] at he
    · exact .inr (.inr hp)
  | @deliverKill w hcn hd he hn =>
    have hex (j stage) : (s.tasks w).point≠.executing j stage := by
      intro hp
      cases he j stage hp
      exact hok j hp
    refine h.wander (p := .dead) hex hn (fun w' => ?_) (by simp) (by simp) rfl rfl rfl rfl rfl
    simp only [State.acknowledge,State.setPoint,update_apply]
    split_ifs <;> rfl
  | deliverSettle _ hp =>
    exact h.acknowledged hp _ rfl (fun _ => ⟨rfl,rfl,rfl,rfl⟩)
  | deliverUnwind _ hp =>
    refine h.acknowledged (f := id) hp .unwinding ?_ (fun _ => ⟨rfl,rfl,rfl,rfl⟩)
    simp [State.setJob,State.acknowledge]
  | deliverHold _ hp => exact h.hold hp
  | @retire w hl =>
    exact h.wander (p := .dead) hl.not_executing hl.not_collecting (hpoint w .dead) (by simp) (by simp)
      rfl rfl rfl rfl rfl
  | skip hl hj => exact h.skip hq hh hl hj
  | take hl hj => exact h.take hq hc hl hj
  | @start w cwdValid j hp =>
    unfold State.startJob
    split_ifs
    · exact h.rework (f := fun x => {x with status := .starting}) hp _ (hpoint w _) rfl rfl rfl rfl rfl
        ⟨rfl,rfl,rfl,rfl⟩
    · exact h.rework (f := fun x => {x with status := .starting}) hp _ (hpoint w _) rfl rfl rfl rfl rfl
        ⟨rfl,rfl,rfl,rfl⟩
    · exact h.rework (f := fun x => {x with cancelRequested := true}) hp _ (hpoint w _) rfl rfl rfl rfl
        rfl ⟨(h.executing w j _ hp).1,rfl,rfl,rfl⟩
  | @register w j hp =>
    refine h.rework (f := fun x => {x with
      process := true
      status := if s.mayGoOn w j then .starting else .cancelling
      spawnHandoff := true}) hp _ (hpoint w _) rfl rfl rfl rfl rfl ⟨?_,rfl,rfl,rfl⟩
    simp only
    split_ifs <;> rfl
  | @authorize w j hp =>
    refine h.rework (f := fun x => {x with
      promptStarted := x.promptStarted || (s.mayGoOn w j && (s.jobs j).spawnHandoff)
      status := if s.mayGoOn w j && (s.jobs j).spawnHandoff then .running else .cancelling})
      hp _ (hpoint w _) rfl rfl rfl rfl rfl ⟨?_,rfl,rfl,rfl⟩
    simp only
    split_ifs <;> rfl
  | @sendPrompt w j hp | @conclude w j _ _ hp | @settled w j hp =>
    exact h.rework (f := id) hp _ (hpoint w _) rfl rfl rfl rfl (by simp [State.sendPrompt,State.setPoint])
      ⟨(h.executing w j _ hp).1,rfl,rfl,rfl⟩
  | @unwound w j hp =>
    exact h.rework (f := fun x => {x with cancelRequested := true}) hp _ (hpoint w _) rfl rfl rfl rfl
      rfl ⟨(h.executing w j _ hp).1,rfl,rfl,rfl⟩
  | finalize hp => exact h.finalizeJob hc hh hu hp
  | finish _ hp => exact h.finishJob hu hp

end Placed

end XiaoQing.Codex
