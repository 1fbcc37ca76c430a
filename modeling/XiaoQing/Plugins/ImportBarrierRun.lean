import Mathlib.Data.List.Nodup
import XiaoQing.Plugins.ImportBarrierJobs

namespace XiaoQing.Plugins.Coordinator

open Function (update update_of_ne update_self)

open Framework

variable {ν ε : Type} {s t : Coordinator ν ε} {i j w : Nat} {c d : Submission ν ε} {x y : Worker ν}
  {p : Place ν}

/-! The worker, the condition and its waiters -/

def current (s : Coordinator ν ε) : Worker ν :=
  match s.worker with
  | none => ⟨.absent,[]⟩
  | some w => s.workers w

def place (s : Coordinator ν ε) (i : Nat) : Place ν :=
  if s.job=some i then .pending
  else if s.current.stage.job=some i then .held s.current
  else .out

structure Tidy (s : Coordinator ν ε) : Prop where
  fresh : ∀w,s.nextWorker ≤ w → (s.workers w).stage=.absent
  only : ∀w,(s.workers w).stage≠.absent → s.worker=some w
  alive : ∀w,s.worker=some w → (s.workers w).stage≠.absent
  busy : s.busy=s.current.stage.isBusy
  pending : ∀i,s.job=some i → s.busy=false∧s.worker≠none∧s.current.stage.job≠some i
  nodup : s.waiters.Nodup
  waiting : ∀i,.call i∈s.waiters → s.busy=true∨s.job≠none
  sleeping : ∀w,.worker w∈s.waiters → s.worker=some w∧(s.workers w).stage=.waiting∧s.job=none

theorem current_of (hw : s.worker=some w) : s.current=s.workers w := by
  rw [current,hw]

theorem current_eq (hw : s.worker=some w) (hx : s.workers w=x) : s.current=x :=
  (current_of hw).trans hx

theorem Tidy.worker_of (h : Tidy s) (hx : (s.workers w).stage≠.absent) :
    s.worker=some w∧s.current=s.workers w :=
  ⟨h.only w hx,current_of (h.only w hx)⟩

theorem Tidy.setCall (h : Tidy s) (i : Nat) (c : Submission ν ε) : Tidy (s.setCall i c) :=
  ⟨h.fresh,h.only,h.alive,h.busy,h.pending,h.nodup,h.waiting,h.sleeping⟩

theorem Tidy.turn (h : Tidy s) (job : Option Nat) (busy : Bool) (waiters : List Waiter)
    (hw : s.worker=some w) (hy : y.stage≠.absent) (hb : busy=y.stage.isBusy)
    (hp : ∀i,job=some i → busy=false∧y.stage.job≠some i) (hn : waiters.Nodup)
    (hc : ∀i,.call i∈waiters → busy=true∨job≠none)
    (hs : ∀v,.worker v∈waiters → v=w∧y.stage=.waiting∧job=none) :
    Tidy {s.setWorker w y with job := job, busy := busy, waiters := waiters} := by
  have hcur : ({s.setWorker w y with job := job, busy := busy, waiters := waiters} : Coordinator ν ε).current=y :=
    current_eq (w := w) hw (update_self _ _ _)
  have hlt : w < s.nextWorker := by
    by_contra hle
    exact h.alive w hw (h.fresh w (by omega))
  refine ⟨fun v hv => ?_,fun v hv => ?_,fun v hv => ?_,?_,fun i hi => ?_,hn,hc,fun v hv => ?_⟩
  · change s.nextWorker ≤ v at hv
    have hvw : v≠w := by omega
    change (update s.workers w y v).stage=_
    rw [update_of_ne hvw]
    exact h.fresh v hv
  · by_cases hvw : v=w
    · subst hvw
      exact hw
    · change (update s.workers w y v).stage≠_ at hv
      rw [update_of_ne hvw] at hv
      exact h.only v hv
  · have hvw : v=w := by
      change s.worker=some v at hv
      rw [hw] at hv
      cases hv
      rfl
    subst hvw
    change (update s.workers v y v).stage≠_
    rwa [update_self]
  · rw [hcur]
    exact hb
  · rw [hcur]
    refine ⟨(hp i hi).1,?_,(hp i hi).2⟩
    change s.worker≠none
    simp [hw]
  · obtain ⟨rfl,hst,hj⟩ := hs v hv
    refine ⟨hw,?_,hj⟩
    change (update s.workers v y v).stage=_
    rwa [update_self]

structure Inv (s : Coordinator ν ε) : Prop where
  threads : Tidy s
  fits : ∀i,Fits (s.place i) (s.calls i)

theorem Inv.fits_of (h : Inv s) (hplace : ∀k,k≠i → t.place k=s.place k)
    (hcalls : ∀k,k≠i → t.calls k=s.calls k) (hi : Fits (t.place i) (t.calls i)) (k : Nat) :
    Fits (t.place k) (t.calls k) := by
  by_cases hk : k=i
  · subst hk
    exact hi
  · rw [hplace k hk,hcalls k hk]
    exact h.fits k

theorem Inv.call (h : Inv s) (hm : CallMove s (s.calls i) c) : Inv (s.setCall i c) := by
  refine ⟨h.threads.setCall i c,h.fits_of (i := i) (fun _ _ => rfl) (fun k hk => ?_) ?_⟩
  · exact update_of_ne hk _ _
  · change Fits (s.place i) (update s.calls i c i)
    rw [update_self]
    exact hm.fits (h.fits i)

variable {st : WorkerStage ν}

theorem WorkMove.stages {l : List ν} (hm : WorkMove c l st y d) (hj : st.job=some j) :
    st.isBusy=true∧y.stage.job=some j∧y.stage.isBusy=true := by
  cases hm <;> exact ⟨rfl,hj,rfl⟩

theorem job_stage_ne (hj : st.job=some j) : st≠.absent := by
  intro hst
  rw [hst] at hj
  cases hj

theorem place_held (hj : s.current.stage.job=some j) (hn : s.job≠some j) : s.place j=.held s.current := by
  rw [place,if_neg hn,if_pos hj]

theorem place_other (hj : s.current.stage.job=some j) {k : Nat} (hk : k≠j) :
    s.place k=if s.job=some k then .pending else .out := by
  have hne : s.current.stage.job≠some k := by
    rw [hj]
    simpa using Ne.symm hk
  rw [place,if_neg hne]

theorem Tidy.free (h : Tidy s) (hb : s.busy=true) : s.job=none := by
  cases hs : s.job with
  | none => rfl
  | some i =>
    have := (h.pending i hs).1
    simp [hb] at this

theorem Inv.serve (h : Inv s) (hj : (s.workers w).stage.job=some j) (hb : (s.workers w).stage.isBusy=true)
    (hyj : y.stage.job=some j) (busy : Bool) (waiters : List Waiter) (hy : busy=y.stage.isBusy)
    (hn : waiters.Sublist s.waiters) (hwait : busy=true∨waiters=[])
    (hfits : Fits (.held (s.workers w)) (s.calls j) → Fits (.held y) c) :
    Inv {(s.setCall j c).setWorker w y with busy := busy, waiters := waiters} := by
  obtain ⟨hw,hcur⟩ := h.threads.worker_of (job_stage_ne hj)
  have hjob := h.threads.free (by rw [h.threads.busy,hcur,hb])
  have hcur' : ({(s.setCall j c).setWorker w y with busy := busy, waiters := waiters} :
      Coordinator ν ε).current=y :=
    current_eq (w := w) hw (update_self _ _ _)
  constructor
  · have hturn := (h.threads.setCall j c).turn (y := y) s.job busy waiters hw
      (job_stage_ne hyj) hy (fun i hi => by simp [hjob] at hi) (h.threads.nodup.sublist hn)
      (fun i hi => .inl (hwait.resolve_right (List.ne_nil_of_mem hi))) (fun v hv => by
        obtain ⟨hv,hst,-⟩ := h.threads.sleeping v (hn.subset hv)
        rw [hw] at hv
        cases hv
        rw [hst] at hj
        cases hj)
    exact hturn
  · apply h.fits_of (i := j)
    · intro k hk
      rw [place_other (hcur'.symm ▸ hyj) hk,place_other (hcur.symm ▸ hj) hk]
      rfl
    · intro k hk
      exact update_of_ne hk _ _
    · have hbefore := h.fits j
      rw [place_held (hcur.symm ▸ hj) (by simp [hjob]),hcur] at hbefore
      rw [place_held (hcur'.symm ▸ hyj) (by simp [setWorker,Coordinator.setCall,hjob]),hcur']
      change Fits _ (update s.calls j c j)
      rw [update_self]
      exact hfits hbefore

theorem Inv.work (h : Inv s) (hj : (s.workers w).stage.job=some j)
    (hm : WorkMove (s.calls j) (s.workers w).locks (s.workers w).stage y c) :
    Inv ((s.setCall j c).setWorker w y) := by
  obtain ⟨hbusy,hyj,hyb⟩ := hm.stages hj
  obtain ⟨-,hcur⟩ := h.threads.worker_of (job_stage_ne hj)
  have hb : s.busy=true := by rw [h.threads.busy,hcur,hbusy]
  exact h.serve hj hbusy hyj s.busy s.waiters (by rw [hb,hyb]) (.refl _) (.inl hb) hm.fits

theorem Fits.settle {l : List ν} (h : Fits (.held ⟨.settling j,l⟩) c) :
    Fits (.held ⟨.completing j,l⟩) {c with
      state := if c.state=JobState.cancelled then .cancelled else .done} := by
  obtain ⟨hcomp,hserved,-⟩ := h.place
  have hsub := h.submitted (by simp)
  by_cases hc : c.state=.cancelled
  · simp only [hc,if_true]
    have hsame : {c with state := JobState.cancelled}=c := by rw [← hc]
    rw [hsame]
    exact ⟨⟨hcomp,hserved,.inr hc⟩,.inl ⟨hsub,by simp⟩⟩
  · simp only [hc,if_false]
    have hdone : Served {c with state := .done} :=
      ⟨hserved.runs,hserved.commits,by simp,hserved.failed,fun he _ => ⟨by simp,(hserved.crossed he hc).2⟩⟩
    have hsub' := hsub.keep (d := {c with state := .done}) rfl (.inr ⟨hc,by simp,by simp⟩)
    exact ⟨⟨hcomp,hdone,.inl rfl⟩,.inl ⟨hsub',by simp⟩⟩

theorem Inv.settle (h : Inv s) (hx : (s.workers w).stage=.settling j) :
    Inv ({(s.setCall j {s.calls j with
        state := if (s.calls j).state=JobState.cancelled then .cancelled else .done}).setWorker w
          {s.workers w with stage := .completing j} with busy := false}.notifyAll) := by
  have hj : (s.workers w).stage.job=some j := by
    rw [hx]
    rfl
  have hb : (s.workers w).stage.isBusy=true := by
    rw [hx]
    rfl
  apply h.serve (y := {s.workers w with stage := .completing j}) hj hb rfl false []
  · rfl
  · exact List.nil_sublist _
  · exact .inr rfl
  · intro hf
    rw [show s.workers w=⟨.settling j,(s.workers w).locks⟩ by rw [← hx]] at hf
    exact hf.settle

theorem Inv.complete (h : Inv s) (hx : (s.workers w).stage=.completing j) :
    Inv ((s.setCall j {s.calls j with completed := true}).setWorker w {s.workers w with stage := .top}) := by
  have hj : (s.workers w).stage.job=some j := by
    rw [hx]
    rfl
  obtain ⟨hw,hcur⟩ := h.threads.worker_of (job_stage_ne hj)
  have hb : s.busy=false := by
    rw [h.threads.busy,hcur,hx]
    rfl
  have hcur' : ((s.setCall j {s.calls j with completed := true}).setWorker w
      {s.workers w with stage := .top}).current={s.workers w with stage := .top} :=
    current_eq (w := w) hw (update_self _ _ _)
  have hnj : s.job≠some j := by
    intro hs
    exact (h.threads.pending j hs).2.2 (hcur.symm ▸ hj)
  constructor
  · have hturn := (h.threads.setCall j {s.calls j with completed := true}).turn
      (y := {s.workers w with stage := .top}) s.job s.busy s.waiters hw (by simp)
      hb (fun i _ => ⟨hb,by simp [WorkerStage.job]⟩) h.threads.nodup h.threads.waiting (fun v hv => by
        obtain ⟨hv,hst,-⟩ := h.threads.sleeping v hv
        rw [hw] at hv
        cases hv
        rw [hst] at hx
        cases hx)
    exact hturn
  · have hplace : ∀k,((s.setCall j {s.calls j with completed := true}).setWorker w
        {s.workers w with stage := .top}).place k=if s.job=some k then .pending else .out := by
      intro k
      rw [place,hcur']
      rfl
    apply h.fits_of (i := j)
    · intro k hk
      rw [hplace,place_other (hcur.symm ▸ hj) hk]
    · intro k hk
      exact update_of_ne hk _ _
    · have hf := h.fits j
      rw [place_held (hcur.symm ▸ hj) hnj,hcur] at hf
      have hsub := hf.submitted (by simp)
      have hok := hf.place.2
      rw [hx] at hok
      obtain ⟨hserved,hd⟩ := hok
      rw [hplace,if_neg hnj]
      change Fits _ (update s.calls j _ j)
      rw [update_self]
      refine ⟨fun _ => ⟨⟨hserved.runs,hserved.commits,hserved.unstarted,hserved.failed,hserved.crossed⟩,hd⟩,
        .inl ⟨hsub.keep rfl (.inl rfl),fun _ => rfl⟩⟩

theorem AtTop.stage_eq (h : AtTop s w) : (s.workers w).stage=.top∨(s.workers w).stage=.waiting :=
  h.imp_right And.left

theorem AtTop.not_asleep (h : AtTop s w) (ht : Tidy s) : .worker w∉s.waiters := by
  intro hm
  obtain hx | ⟨-,hx⟩ := h
  · have := (ht.sleeping w hm).2.1
    simp [hx] at this
  · exact hx hm

theorem Tidy.no_call (h : Tidy s) (hb : s.busy=false) (hj : s.job=none) : .call i∉s.waiters := by
  intro hm
  have := h.waiting i hm
  simp [hb,hj] at this

theorem Inv.take (h : Inv s) (ha : AtTop s w) : Inv (s.take w (s.workers w)) := by
  have hne : (s.workers w).stage≠.absent := by
    obtain hx | hx := ha.stage_eq <;> simp [hx]
  have hidle : (s.workers w).stage.job=none∧(s.workers w).stage.isBusy=false := by
    obtain hx | hx := ha.stage_eq <;> rw [hx] <;> exact ⟨rfl,rfl⟩
  obtain ⟨hw,hcur⟩ := h.threads.worker_of hne
  have hb : s.busy=false := by rw [h.threads.busy,hcur,hidle.2]
  unfold Coordinator.take
  cases hjob : s.job with
  | none =>
    have hcur' : ({s.setWorker w {s.workers w with stage := .waiting} with
        waiters := s.waiters++[.worker w]} : Coordinator ν ε).current={s.workers w with stage := .waiting} :=
      current_eq (w := w) hw (update_self _ _ _)
    constructor
    · have hnodup : (s.waiters++[Waiter.worker w]).Nodup := by
        refine h.threads.nodup.append (List.nodup_singleton _) ?_
        simpa using ha.not_asleep h.threads
      have hturn := h.threads.turn (y := {s.workers w with stage := .waiting}) s.job s.busy (s.waiters++[.worker w]) hw
        (by simp) hb (fun i hi => by simp [hjob] at hi) hnodup
        (fun i hi => absurd ((List.mem_append.mp hi).resolve_right (by simp)) (h.threads.no_call hb hjob))
        (fun v hv => by
          refine ⟨?_,rfl,hjob⟩
          obtain hv | hv := List.mem_append.mp hv
          · have := (h.threads.sleeping v hv).1
            rw [hw] at this
            cases this
            rfl
          · simpa using hv)
      exact hturn
    · intro k
      have hplace : ({s.setWorker w {s.workers w with stage := .waiting} with
          waiters := s.waiters++[.worker w]} : Coordinator ν ε).place k=s.place k := by
        rw [place,place,hcur',hcur,hidle.1]
        rfl
      rw [hplace]
      exact h.fits k
  | some j =>
    have hcur' : ({s.setWorker w ⟨.starting j,[]⟩ with job := none, busy := true} : Coordinator ν ε).current=
        ⟨.starting j,[]⟩ :=
      current_eq (w := w) hw (update_self _ _ _)
    constructor
    · have hturn := h.threads.turn (y := ⟨.starting j,[]⟩) none true s.waiters
        hw (by simp) rfl (by simp) h.threads.nodup (fun _ _ => .inl rfl) (fun v hv => by
          have := (h.threads.sleeping v hv).2.2
          simp [hjob] at this)
      exact hturn
    · have hpending : s.place j=.pending := by rw [place,if_pos hjob]
      apply h.fits_of (i := j)
      · intro k hk
        have hkj : s.job≠some k := by
          rw [hjob]
          simpa using Ne.symm hk
        rw [place_other (hcur'.symm ▸ rfl) hk,place,if_neg hkj,hcur,hidle.1]
        rfl
      · exact fun _ _ => rfl
      · have hf := h.fits j
        have hsub := hf.submitted (by simp [hpending])
        rw [hpending] at hf
        rw [place_held (hcur'.symm ▸ rfl) (by simp),hcur']
        exact ⟨⟨hf.place.1,hf.place.2,rfl⟩,.inl ⟨hsub,by simp⟩⟩

theorem CanLook.apart (hl : CanLook s i) (h : Inv s) :
    Undecided (s.calls i)∧(s.calls i).state=.waiting∧(s.calls i).completed=false∧s.place i=.out := by
  obtain hst | ⟨hst,-⟩ := hl
  · obtain ⟨ha,ho⟩ := (h.fits i).apart (by simp [Submitted,hst])
    simp only [Apart,hst] at ha
    exact ⟨ha.1,ha.2.1,ha.2.2,ho⟩
  · obtain ⟨ha,ho⟩ := (h.fits i).apart (by simp [Submitted,hst])
    simp only [Apart,hst] at ha
    exact ⟨ha.1,ha.2.1,ha.2.2,ho⟩

theorem Tidy.rewait (h : Tidy s) {waiters : List Waiter} (hn : waiters.Nodup)
    (hs : ∀v,.worker v∈waiters → .worker v∈s.waiters)
    (hc : ∀k,.call k∈waiters → s.busy=true∨s.job≠none) : Tidy {s with waiters := waiters} :=
  ⟨h.fresh,h.only,h.alive,h.busy,h.pending,hn,hc,fun v hv => h.sleeping v (hs v hv)⟩

theorem tail_eq_nil {α : Type} {l : List α} (hn : l.Nodup) {a : α} (h : ∀b∈l,b=a) : l.tail=[] := by
  cases l with
  | nil => rfl
  | cons b l =>
    apply List.eq_nil_iff_forall_not_mem.mpr
    intro x hx
    have hxb : x=b := (h x (List.mem_cons_of_mem b hx)).trans (h b (List.mem_cons_self ..)).symm
    exact (List.nodup_cons.mp hn).1 (hxb ▸ hx)

theorem Tidy.notify_free (h : Tidy s) (hb : s.busy=false) (hj : s.job=none) :
    (s.waiters.erase (.call i)).tail=[] := by
  cases hw : s.waiters.head? with
  | none =>
    rw [List.head?_eq_none_iff.mp hw]
    rfl
  | some a =>
    have hall : ∀b∈s.waiters,b=a := by
      intro b hm
      have ha := List.mem_of_mem_head? hw
      cases b with
      | call k => exact absurd hm (h.no_call hb hj)
      | worker v =>
        cases a with
        | call k => exact absurd ha (h.no_call hb hj)
        | worker u =>
          have hv := (h.sleeping v hm).1
          have hu := (h.sleeping u ha).1
          rw [hv] at hu
          cases hu
          rfl
    exact tail_eq_nil (h.nodup.erase _) (fun b hm => hall b (List.mem_of_mem_erase hm))

theorem Tidy.spawn (h : Tidy s) (hw : s.worker=none) : Tidy s.spawn := by
  have habs : ∀v,(s.workers v).stage=.absent := by
    intro v
    by_contra hv
    have := h.only v hv
    simp [hw] at this
  have hself : s.spawn.workers s.nextWorker=⟨.top,[]⟩ := update_self _ _ _
  have hcur : s.spawn.current=⟨.top,[]⟩ := hself
  have hold : s.current=⟨.absent,[]⟩ := by rw [current,hw]
  constructor
  · intro v hv
    change s.nextWorker+1 ≤ v at hv
    change (update s.workers s.nextWorker _ v).stage=_
    rw [update_of_ne (by omega)]
    exact habs v
  · intro v hv
    by_cases hvn : v=s.nextWorker
    · rw [hvn]
      rfl
    · change (update s.workers s.nextWorker _ v).stage≠_ at hv
      rw [update_of_ne hvn] at hv
      exact absurd (habs v) hv
  · intro v hv
    cases hv
    rw [hself]
    simp
  · rw [hcur]
    have hb := h.busy
    rwa [hold] at hb
  · intro i hi
    have := (h.pending i hi).2.1
    simp [hw] at this
  · exact h.nodup
  · exact h.waiting
  · intro v hv
    have := (h.sleeping v hv).1
    simp [hw] at this

theorem Tidy.startWorker (h : Tidy s) : Tidy s.startWorker∧s.startWorker.worker≠none∧
    (s.startWorker.current=s.current∨
      s.startWorker.current.stage.job=none∧s.current.stage.job=none) := by
  cases hw : s.worker with
  | none =>
    have hneeds : s.needsWorker=true := by
      unfold needsWorker
      rw [hw]
    have hold : s.current=⟨.absent,[]⟩ := by rw [current,hw]
    rw [Coordinator.startWorker,if_pos hneeds,hold]
    refine ⟨h.spawn hw,by simp [Coordinator.spawn],.inr ⟨?_,rfl⟩⟩
    rw [current_eq (w := s.nextWorker) rfl (update_self _ _ _)]
    rfl
  | some w =>
    have hne := h.alive w hw
    have hneeds : ¬s.needsWorker=true := by
      unfold needsWorker
      rw [hw]
      cases hx : (s.workers w).stage <;> simp [hx] at hne ⊢
    rw [Coordinator.startWorker,if_neg hneeds]
    exact ⟨h,by simp [hw],.inl rfl⟩

theorem startWorker_calls (s : Coordinator ν ε) : s.startWorker.calls=s.calls := by
  unfold Coordinator.startWorker
  split <;> rfl

theorem startWorker_free (s : Coordinator ν ε) : s.startWorker.busy=s.busy∧s.startWorker.job=s.job := by
  unfold Coordinator.startWorker
  split <;> exact ⟨rfl,rfl⟩

theorem Tidy.submit (h : Tidy s) (hb : s.busy=false) (hw : s.worker≠none) (hn : s.current.stage.job≠some i) :
    Tidy {s with job := some i, waiters := []} := by
  refine ⟨h.fresh,h.only,h.alive,h.busy,fun k hk => ?_,.nil,by simp,by simp⟩
  cases hk
  exact ⟨hb,hw,hn⟩

theorem look_submit (s : Coordinator ν ε) (i : Nat) (c : Submission ν ε) (h : Tidy s) (hb : s.busy=false)
    (hj : s.job=none) : s.look i c=
      {s.startWorker with job := some i, waiters := []}.setCall i {c with stage := .submitted} := by
  unfold look
  have hfree : (s.busy || s.job.isSome)=false := by rw [hb,hj]; rfl
  simp only [hfree]
  have hnotify := h.notify_free (i := i) hb hj
  unfold Coordinator.startWorker needsWorker
  cases hw : s.worker with
  | none => simp [notify,Coordinator.spawn,setWorker,Coordinator.setCall,hnotify]
  | some w =>
    cases hx : (s.workers w).stage <;>
      simp [notify,Coordinator.spawn,setWorker,Coordinator.setCall,hnotify,hx,hw]

theorem Inv.submit (h : Inv s) (hl : CanLook s i) (hb : s.busy=false) (hj : s.job=none) :
    Inv ({s.startWorker with job := some i, waiters := []}.setCall i
      {s.calls i with stage := .submitted}) := by
  obtain ⟨hu,hst,hcomp,ho⟩ := hl.apart h
  obtain ⟨htidy,hw,hcur⟩ := h.threads.startWorker
  obtain ⟨hbusy,hjob⟩ := startWorker_free s
  have hn : s.current.stage.job≠some i := by
    intro hc
    rw [place_held hc (by simp [hj])] at ho
    cases ho
  have hjobs : s.startWorker.current.stage.job=s.current.stage.job := by
    obtain hcur | ⟨hnew,hold⟩ := hcur
    · rw [hcur]
    · rw [hnew,hold]
  constructor
  · exact (htidy.submit (hbusy.trans hb) hw (by rwa [hjobs])).setCall i _
  · intro k
    change Fits (({s.startWorker with job := some i, waiters := []} : Coordinator ν ε).place k) _
    by_cases hk : k=i
    · subst hk
      rw [place,if_pos rfl]
      change Fits _ (update s.startWorker.calls k _ k)
      rw [update_self]
      have hsub : Submitted {s.calls k with stage := .submitted} := by simp [Submitted,hst]
      exact ⟨⟨hcomp,hu.state,hu.runs,hu.commits,hu.errors⟩,.inl ⟨hsub,by simp⟩⟩
    · have hplace : ({s.startWorker with job := some i, waiters := []} : Coordinator ν ε).place k=s.place k := by
        rw [place,if_neg (by simpa using Ne.symm hk)]
        change (if s.startWorker.current.stage.job=some k then Place.held s.startWorker.current else .out)=_
        have hsame : s.place k=if s.current.stage.job=some k then .held s.current else .out := by
          rw [place,if_neg (by simp [hj])]
        rw [hsame,hjobs]
        obtain hcur | ⟨-,hold⟩ := hcur
        · rw [hcur]
        · simp [hold]
      rw [hplace]
      change Fits _ (update s.startWorker.calls i _ k)
      rw [update_of_ne hk,startWorker_calls]
      exact h.fits k

theorem Inv.queue (h : Inv s) (hl : CanLook s i) (hfree : s.busy=true∨s.job≠none) {st : CallStage ε}
    (hst : st=.waiting∨st=.ended .noWorker) {waiters : List Waiter} (hn : waiters.Nodup)
    (hs : ∀v,.worker v∈waiters → .worker v∈s.waiters) :
    Inv {s.setCall i {s.calls i with stage := st} with waiters := waiters} := by
  obtain ⟨hu,hwait,hcomp,ho⟩ := hl.apart h
  have htidy := (h.threads.setCall i {s.calls i with stage := st}).rewait hn hs (fun _ _ => hfree)
  refine ⟨htidy,h.fits_of (i := i) (fun _ _ => rfl) (fun k hk => update_of_ne hk _ _) ?_⟩
  change Fits (s.place i) (update s.calls i _ i)
  rw [update_self]
  have happart : Apart {s.calls i with stage := st} := by
    obtain rfl | rfl := hst
    · exact ⟨⟨hu.state,hu.runs,hu.commits,hu.errors⟩,hwait,hcomp⟩
    · exact ⟨⟨hu.state,hu.runs,hu.commits,hu.errors⟩,hwait,hcomp⟩
  exact ⟨(h.fits i).place.restage st,.inr ⟨happart,ho⟩⟩

theorem erase_call_subset (s : Coordinator ν ε) (v : Nat) (h : .worker v∈s.waiters.erase (.call i)) :
    .worker v∈s.waiters :=
  List.mem_of_mem_erase h

theorem Inv.look (h : Inv s) (hl : CanLook s i) : Inv (s.look i (s.calls i)) := by
  have hnodup := h.threads.nodup.erase (.call i)
  by_cases hfree : s.busy=true∨s.job≠none
  · have hcond : (s.busy || s.job.isSome)=true := by
      obtain hb | hj := hfree
      · simp [hb]
      · simp [Option.isSome_iff_ne_none,hj]
    unfold Coordinator.look
    simp only [hcond,if_true]
    split
    · exact h.queue hl hfree (.inr rfl) hnodup (erase_call_subset s)
    · have hfresh : (s.waiters.erase (.call i)++[Waiter.call i]).Nodup := by
        refine hnodup.append (List.nodup_singleton _) ?_
        simpa using h.threads.nodup.not_mem_erase
      refine h.queue hl hfree (.inl rfl) hfresh (fun v hv => ?_)
      exact erase_call_subset s v ((List.mem_append.mp hv).resolve_right (by simp))
  · have hb : s.busy=false := by simpa using fun hb => hfree (.inl hb)
    have hj : s.job=none := by
      by_contra hj
      exact hfree (.inr hj)
    rw [look_submit s i _ h.threads hb hj]
    exact h.submit hl hb hj

theorem Inv.tick (h : Inv s) (d : Nat) : Inv {s with now := s.now+d} :=
  ⟨⟨h.threads.fresh,h.threads.only,h.threads.alive,h.threads.busy,h.threads.pending,h.threads.nodup,
    h.threads.waiting,h.threads.sleeping⟩,h.fits⟩

theorem Inv.effect {o : Option Nat} (h : Inv s) (he : Effect s o t) : Inv t := by
  cases he with
  | tick d => exact h.tick d
  | call hm => exact h.call hm
  | look hl => exact h.look hl
  | take ha => exact h.take ha
  | work hj hm => exact h.work hj hm
  | settle hx => exact h.settle hx
  | complete hx => exact h.complete hx

theorem inv_initial (available : Bool) (now : Int) : Inv (initial available now : Coordinator ν ε) := by
  constructor
  · constructor <;> simp [initial,current,WorkerStage.isBusy,WorkerStage.job]
  · intro i
    refine ⟨fun hc => by simp [initial,Submission.unused] at hc,.inr ⟨?_,?_⟩⟩
    · exact ⟨⟨.inl rfl,rfl,rfl,rfl⟩,rfl,rfl⟩
    · simp [place,initial,current,WorkerStage.job]

theorem Inv.next {a : BarrierAct ν ε} (h : Inv s) (hs : step s a=some t) : Inv t :=
  h.effect (effect_of_step hs)

variable {as : List (BarrierAct ν ε)}

theorem Inv.run (h : Inv s) (hs : execute step s as=some t) : Inv t :=
  execute_keeps (fun _ _ _ hi hn => hi.next hn) as h hs

/-! A job that is set is taken -/

def lag (s : Coordinator ν ε) : Nat := if s.current.stage.job=none then 0 else 1

theorem Tidy.on_way (h : Tidy s) (hj : s.job=some i) (hw : s.worker=some w) :
    AtTop s w∨∃j,(s.workers w).stage=.completing j := by
  have hcur := current_of hw
  have hb := (h.pending i hj).1
  rw [h.busy,hcur] at hb
  cases hx : (s.workers w).stage with
  | absent => exact absurd hx (h.alive w hw)
  | top => exact .inl (.inl hx)
  | waiting =>
    refine .inl (.inr ⟨hx,fun hm => ?_⟩)
    have := (h.sleeping w hm).2.2
    simp [hj] at this
  | completing j => exact .inr ⟨j,rfl⟩
  | _ =>
    rw [hx] at hb
    cases hb

theorem Tidy.work_enabled (h : Tidy s) (hj : s.job=some i) (hw : s.worker=some w) : (s.work w).isSome=true := by
  unfold Coordinator.work
  obtain (hx | ⟨hx,hm⟩) | ⟨j,hx⟩ := h.on_way hj hw
  · simp [hx]
  · simp [hx,hm]
  · simp [hx]

theorem Inv.pending_step {o : Option Nat} (h : Inv s) (hj : s.job=some i) (hw : s.worker=some w)
    (he : Effect s o t) :
    (t.job=some i∧t.worker=some w∧t.lag+(decide (o=some w)).toNat ≤ s.lag)∨
      (o=some w∧(t.workers w).stage=.starting i) := by
  have hcur := current_of hw
  have hb := (h.threads.pending i hj).1
  have hone : ∀v,(s.workers v).stage≠.absent → v=w := by
    intro v hv
    have := h.threads.only v hv
    rw [hw] at this
    cases this
    rfl
  cases he with
  | tick d => exact .inl ⟨hj,hw,by simp [lag,current,hw]⟩
  | call hm => exact .inl ⟨hj,hw,by simp [lag,current,Coordinator.setCall,hw]⟩
  | look hl =>
    left
    unfold Coordinator.look
    simp only [hj,Option.isSome_some,Bool.or_true,if_true]
    split <;> simp [hw,lag,current,Coordinator.setCall]
  | @take v ha =>
    have hv : v=w := by
      apply hone
      obtain hx | hx := ha.stage_eq <;> simp [hx]
    subst hv
    right
    simp [Coordinator.take,hj,setWorker]
  | @work v k y c hk hm =>
    obtain ⟨hbusy,-⟩ := hm.stages hk
    have hv := hone v (job_stage_ne hk)
    subst hv
    rw [h.threads.busy,hcur,hbusy] at hb
    cases hb
  | @settle v k hx =>
    have hv := hone v (by simp [hx])
    subst hv
    rw [h.threads.busy,hcur,hx] at hb
    cases hb
  | @complete v k hx =>
    have hv := hone v (by simp [hx])
    subst hv
    left
    refine ⟨hj,hw,?_⟩
    have hbefore : s.lag=1 := by simp [lag,hcur,hx,WorkerStage.job]
    have hcur' : ((s.setCall k {s.calls k with completed := true}).setWorker v
        {s.workers v with stage := .top}).current={s.workers v with stage := .top} :=
      current_eq (w := v) hw (update_self _ _ _)
    have hafter : ((s.setCall k {s.calls k with completed := true}).setWorker v
        {s.workers v with stage := .top}).lag=0 := by
      rw [lag,hcur']
      rfl
    rw [hbefore,hafter]
    simp

theorem lag_le (s : Coordinator ν ε) : s.lag ≤ 1 := by
  unfold lag
  split <;> omega

theorem Inv.taken_within (h : Inv s) (hj : s.job=some i) (hw : s.worker=some w) (hs : execute step s as=some t)
    (hc : s.lag<as.countP (fun a => a.worker=some w)) :
    ∃bs cs u,as=bs++cs∧execute step s bs=some u∧(u.workers w).stage=.starting i := by
  induction as generalizing s with
  | nil => simp at hc
  | cons a as ih =>
    obtain ⟨u,hu,hrest⟩ := Option.bind_eq_some_iff.mp hs
    obtain ⟨huj,huw,hlag⟩ | ⟨-,hstart⟩ := h.pending_step hj hw (effect_of_step hu)
    · have hcount : u.lag<as.countP (fun a => a.worker=some w) := by
        rw [List.countP_cons] at hc
        by_cases ha : a.worker=some w
        · simp only [ha,decide_true,if_true,Bool.toNat_true] at hc hlag
          omega
        · simp only [ha,decide_false,Bool.toNat_false,Bool.false_eq_true,if_false] at hc hlag
          omega
      obtain ⟨bs,cs,v,hsplit,hv,hst⟩ := ih (h.next hu) huj huw hrest hcount
      refine ⟨a::bs,cs,v,by rw [hsplit,List.cons_append],?_,hst⟩
      simp [execute,hu,hv]
    · exact ⟨[a],as,u,rfl,by simp [execute,hu],hstart⟩

/-! What a call ends with -/

theorem WorkMove.same_stage {l : List ν} (hm : WorkMove c l st y d) :
    d.stage=c.stage := by
  cases hm with
  | leave j error => cases error <;> rfl
  | _ => rfl

theorem look_other (s : Coordinator ν ε) {k : Nat} (hk : i≠k) : (s.look k (s.calls k)).calls i=s.calls i := by
  unfold look
  dsimp only
  split
  · split <;> exact update_of_ne hk _ _
  · refine (update_of_ne hk _ _).trans ?_
    rw [startWorker_calls]

variable {how : Crossing ε}

theorem Effect.ended {o : Option Nat} (he : Effect s o t)
    (h : (s.calls i).stage=.ended how) : (t.calls i).stage=.ended how := by
  have hkeep : ∀k c,c.stage=(s.calls k).stage → (update s.calls k c i).stage=.ended how := by
    intro k c hc
    by_cases hk : i=k
    · subst hk
      rw [update_self,hc]
      exact h
    · rw [update_of_ne hk]
      exact h
  cases he with
  | tick d => exact h
  | @call k c hm =>
    have hk : i≠k := by
      intro hik
      subst hik
      cases hm <;> simp_all
    change (update s.calls k c i).stage=_
    rw [update_of_ne hk]
    exact h
  | @look k hl =>
    have hk : i≠k := by
      intro hik
      subst hik
      obtain hst | ⟨hst,-⟩ := hl <;> simp [hst] at h
    rw [look_other s hk]
    exact h
  | take ha =>
    unfold Coordinator.take
    split <;> exact h
  | work hj hm => exact hkeep _ _ hm.same_stage
  | settle hx => exact hkeep _ _ rfl
  | complete hx => exact hkeep _ _ rfl

theorem ended_run (hs : execute step s as=some t)
    (h : (s.calls i).stage=.ended how) : (t.calls i).stage=.ended how := by
  induction as generalizing s with
  | nil =>
    cases hs
    exact h
  | cons a as ih =>
    obtain ⟨u,hu,hrest⟩ := Option.bind_eq_some_iff.mp hs
    exact ih hrest ((effect_of_step hu).ended h)

def Reported (c : Submission ν ε) : Crossing ε → Prop
  | .returned => c.callback=true → c.commits=1
  | .noWorker => c.runs=0
  | .noLocks => c.runs=0
  | .failed _ => c.commits=0
  | .raised _ => c.commits=0

theorem Fits.unstarted (h : Fits p c) (hs : Submitted c) (hc : c.state=.cancelled) : c.runs=0 := by
  have hplace := h.place
  cases p with
  | out =>
    obtain ⟨-,ho⟩ | ⟨ha,-⟩ := h.stage
    · exact (hplace (ho rfl)).1.unstarted (.inr hc)
    · unfold Submitted at hs
      unfold Apart at ha
      split at hs <;> simp_all
  | pending => exact hplace.2.runs
  | held x =>
    obtain ⟨-,hok⟩ := hplace
    cases hx : x.stage <;> rw [hx] at hok
    case starting => exact hok.1.runs
    case locking => exact hok.1.runs
    case acquiring => exact hok.1.runs
    case deciding => exact hok.1.runs
    case calling => exact hok.runs
    case inCallback => exact absurd (hok.state.symm.trans hc) (by simp)
    case releasing => exact hok.1.unstarted (.inr hc)
    case settling => exact hok.1.unstarted (.inr hc)
    case completing => exact hok.1.unstarted (.inr hc)
    all_goals exact hok.elim

theorem Fits.reported (h : Fits p c) (he : c.stage=.ended how) : Reported c how := by
  cases how with
  | returned =>
    obtain ⟨ha,-⟩ := h.apart (by simp [Submitted,he])
    simp only [Apart,he] at ha
    exact ha.2.1
  | noWorker =>
    obtain ⟨ha,-⟩ := h.apart (by simp [Submitted,he])
    simp only [Apart,he] at ha
    exact ha.1.runs
  | noLocks =>
    obtain ⟨hs,-⟩ | ⟨ha,-⟩ := h.stage
    · have hc := hs
      simp only [Submitted,he] at hc
      exact h.unstarted hs hc
    · simp [Apart,he] at ha
  | failed e =>
    obtain ⟨ha,-⟩ := h.apart (by simp [Submitted,he])
    simp only [Apart,he] at ha
    exact ha.2.1
  | raised e =>
    obtain ⟨ha,-⟩ := h.apart (by simp [Submitted,he])
    simp only [Apart,he] at ha
    exact ha.2.1

theorem Fits.runs_le (h : Fits p c) : c.runs ≤ 1 := by
  have hplace := h.place
  cases p with
  | out =>
    obtain ⟨-,ho⟩ | ⟨ha,-⟩ := h.stage
    · exact (hplace (ho rfl)).1.runs
    · unfold Apart at ha
      split at ha
      · simp [ha.1.runs]
      · simp [ha.1.runs]
      · simp [ha.1.runs]
      · simp [ha.1.runs]
      · exact Nat.le_of_eq ha.2.1
      · exact Nat.le_of_eq ha.1
      · exact ha.1
      · exact ha.1
      · exact ha.elim
  | pending => simp [hplace.2.runs]
  | held x =>
    obtain ⟨-,hok⟩ := hplace
    cases hx : x.stage <;> rw [hx] at hok
    case starting => simp [hok.1.runs]
    case locking => simp [hok.1.runs]
    case acquiring => simp [hok.1.runs]
    case deciding => simp [hok.1.runs]
    case calling => simp [hok.runs]
    case inCallback => simp [hok.runs]
    case releasing => exact hok.1.runs
    case settling => exact hok.1.runs
    case completing => exact hok.1.runs
    all_goals exact hok.elim

structure Coordinated (s : Coordinator ν ε) : Prop where
  one : ∀v w j k,(s.workers v).stage.job=some j → (s.workers w).stage.job=some k → v=w
  alone : ∀i w j,s.job=some i → (s.workers w).stage.job=some j → (s.workers w).stage=.completing j
  tracked : ∀i,(s.calls i).stage=.submitted∨(s.calls i).stage=.expired∨(s.calls i).stage=.committed →
    s.job=some i∨(∃w,(s.workers w).stage.job=some i)∨(s.calls i).completed=true
  taken : ∀i,s.job=some i → ∃w,s.worker=some w∧(s.work w).isSome=true∧
    ∀as t,execute step s as=some t → 2 ≤ as.countP (fun a => a.worker=some w) →
      ∃bs cs u,as=bs++cs∧execute step s bs=some u∧(u.workers w).stage=.starting i
  kept : ∀i a t,s.job=some i → step s a=some t → t.job=some i∨∃w,(t.workers w).stage=.starting i
  awake : ∀i,.call i∈s.waiters → s.busy=true∨s.job≠none
  locked : ∀w j,(s.workers w).stage=.inCallback j → (s.workers w).locks=(s.calls j).names
  once : ∀i,(s.calls i).runs ≤ 1
  reported : ∀i how as t,(s.calls i).stage=.ended how → execute step s as=some t →
    (t.calls i).stage=.ended how∧Reported (t.calls i) how

theorem Inv.held (h : Inv s) (hj : (s.workers w).stage.job=some j) :
    s.worker=some w∧s.place j=.held (s.workers w) := by
  obtain ⟨hw,hcur⟩ := h.threads.worker_of (job_stage_ne hj)
  refine ⟨hw,?_⟩
  rw [place_held (hcur.symm ▸ hj),hcur]
  intro hs
  exact (h.threads.pending j hs).2.2 (hcur.symm ▸ hj)

theorem Inv.coordinated (h : Inv s) : Coordinated s := by
  constructor
  · intro v w j k hv hw
    have hsv := (h.held hv).1
    rw [(h.held hw).1] at hsv
    cases hsv
    rfl
  · intro i w j hi hj
    obtain ⟨hw,-⟩ := h.held hj
    obtain hx | ⟨k,hx⟩ := h.threads.on_way hi hw
    · obtain hx | hx := hx.stage_eq <;> rw [hx] at hj <;> cases hj
    · rw [hx] at hj ⊢
      cases hj
      rfl
  · intro i hst
    obtain ⟨-,ho⟩ := (h.fits i).waits hst
    by_cases hi : s.job=some i
    · exact .inl hi
    · by_cases hj : s.current.stage.job=some i
      · right
        left
        cases hw : s.worker with
        | none =>
          rw [current,hw] at hj
          cases hj
        | some w => exact ⟨w,by rwa [current_of hw] at hj⟩
      · exact .inr (.inr (ho (by rw [place,if_neg hi,if_neg hj])))
  · intro i hi
    obtain ⟨w,hw⟩ := Option.ne_none_iff_exists'.mp (h.threads.pending i hi).2.1
    refine ⟨w,hw,h.threads.work_enabled hi hw,fun as t hs hc => ?_⟩
    have hlag := s.lag_le
    exact h.taken_within hi hw hs (by omega)
  · intro i a t hi hs
    obtain ⟨w,hw⟩ := Option.ne_none_iff_exists'.mp (h.threads.pending i hi).2.1
    obtain ⟨hk,-⟩ | ⟨-,hst⟩ := h.pending_step hi hw (effect_of_step hs)
    · exact .inl hk
    · exact .inr ⟨w,hst⟩
  · exact h.threads.waiting
  · intro w j hx
    obtain ⟨-,hp⟩ := h.held (w := w) (j := j) (by rw [hx]; rfl)
    have hf := h.fits j
    rw [hp] at hf
    have hok := hf.place.2
    rw [hx] at hok
    exact hok.locks
  · exact fun i => (h.fits i).runs_le
  · intro i how as t he hs
    have hlater := ended_run hs he
    exact ⟨hlater,((h.run hs).fits i).reported hlater⟩

/-- The import barrier, for every interleaving of submitters, deadlines and the worker: one job at a
time, every job that is set is taken, a callback runs at most once, and a timeout means never. -/
theorem import_barrier (available : Bool) (now : Int)
    (h : Reach step Free (·=initial available now) s) : Coordinated s := by
  apply Inv.coordinated
  apply h.invariant
  · rintro s rfl
    exact inv_initial available now
  · intro s a t hi _ hs
    exact hi.next hs

def twoCalls : List (BarrierAct String Unit) :=
  [.call 0 ["a","b"] true 5,.look 0,.call 1 ["b"] true 50,.work 0,.look 1,.work 0,.work 0,.tick 5,.expire 0,
   .cancelOrWait 0,.acquire 0,.work 0,.work 0,.work 0,.work 0,.look 1,.work 0,.work 0,.work 0,.work 0,
   .acquire 0,.work 0,.work 0,.work 0,.callbackEnds 0 none,.work 0,.work 0,.work 0,.finish 1]

theorem import_barrier_twoCalls : ∃s : Coordinator String Unit,
    execute step (initial true 0) twoCalls=some s∧
    ((s.calls 0).stage=.ended .noLocks∧(s.calls 0).runs=0)∧
    ((s.calls 1).stage=.ended .returned∧(s.calls 1).commits=1)∧Coordinated s := by
  have hrun : (execute step (initial true 0) twoCalls).any (fun s : Coordinator String Unit =>
      decide (((s.calls 0).stage=.ended .noLocks∧(s.calls 0).runs=0)∧
        ((s.calls 1).stage=.ended .returned∧(s.calls 1).commits=1)))=true := by
    decide
  obtain ⟨s,hs,hfacts⟩ := (Option.any_eq_true _ _).mp hrun
  obtain ⟨hfirst,hsecond⟩ := of_decide_eq_true hfacts
  have hstart : Reach step Free (·=initial true 0) (initial true 0 : Coordinator String Unit) := .start rfl
  exact ⟨s,hs,hfirst,hsecond,import_barrier true 0 (hstart.execute twoCalls (fun _ _ _ => trivial) hs)⟩

end XiaoQing.Plugins.Coordinator
