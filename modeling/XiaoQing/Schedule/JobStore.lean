import XiaoQing.Commands.CommandRouter

namespace XiaoQing.Schedule

open Commands

/-- The fields that `_snapshot_job` reads of a job. -/
structure JobSnapshot (φ θ ν τ : Type) where
  jobId : Text
  func : φ
  trigger : θ
  args : List ν
  kwargs : List (Text×ν)
  name : Text
  misfireGraceTime : Option Int
  coalesce : Bool
  maxInstances : Nat
  nextRunTime : Option τ
  executor : Text

/-- The arguments of `scheduler.add_job(…, replace_existing=True)`; `none` where one is left out. -/
structure JobRequest (φ θ ν τ : Type) where
  func : φ
  trigger : θ
  args : Option (List ν)
  kwargs : Option (List (Text×ν))
  id : Text
  name : Text
  misfireGraceTime : Option Int
  coalesce : Bool
  maxInstances : Nat
  nextRunTime : Option (Option τ)
  executor : Option Text

def defaultExecutor : Text := "default".toList

/-- The job that a request asks for; without a next run time the trigger chooses it. -/
structure JobRequest.Describes {φ θ ν τ : Type} (r : JobRequest φ θ ν τ) (j : JobSnapshot φ θ ν τ) :
    Prop where
  jobId : j.jobId=r.id
  func : j.func=r.func
  trigger : j.trigger=r.trigger
  args : j.args=r.args.getD []
  kwargs : j.kwargs=r.kwargs.getD []
  name : j.name=r.name
  misfireGraceTime : j.misfireGraceTime=r.misfireGraceTime
  coalesce : j.coalesce=r.coalesce
  maxInstances : j.maxInstances=r.maxInstances
  nextRunTime : ∀t,r.nextRunTime=some t → j.nextRunTime=t
  executor : j.executor=r.executor.getD defaultExecutor

/-- A scheduler of the library, as its callers may use it: the jobs are objects that adding and
removing do not change, a call touches the job with its id only, and a call that raises may have
done anything to that job. -/
structure JobStore (σ ω φ θ ν τ ε : Type) where
  info : ω → JobSnapshot φ θ ν τ
  timezone : σ → ν
  running : σ → Bool
  getJobs : σ → List ω
  getJob : σ → Text → Option ω
  addJob : σ → JobRequest φ θ ν τ → Except ε Unit×σ
  removeJob : σ → Text → Except ε Unit×σ
  getJobs_nodup : ∀s,(getJobs s).Nodup
  getJob_iff : ∀s i j,getJob s i=some j ↔ j∈getJobs s∧(info j).jobId=i
  addJob_ok : ∀s r,(addJob s r).1=.ok () → ∃j,getJob (addJob s r).2 r.id=some j∧r.Describes (info j)
  addJob_other : ∀s r i,i≠r.id → getJob (addJob s r).2 i=getJob s i
  removeJob_ok : ∀s i,(removeJob s i).1=.ok () → getJob (removeJob s i).2 i=none
  removeJob_other : ∀s i i',i'≠i → getJob (removeJob s i).2 i'=getJob s i'

section

variable {σ ω φ θ ν τ ε : Type} (S : JobStore σ ω φ θ ν τ ε)

def JobStore.idOf (j : ω) : Text := (S.info j).jobId

variable {S} {s : σ} {i : Text} {j k : ω}

end

/-! A store in memory, whose calls fail as planned -/

structure MemoryStore (φ θ ν τ ε : Type) where
  jobs : List (JobSnapshot φ θ ν τ)
  distinct : (jobs.map JobSnapshot.jobId).Nodup
  zone : ν
  faults : List (Option ε)

section

variable {φ θ ν τ ε : Type}

def JobRequest.job (next : θ → Option τ) (r : JobRequest φ θ ν τ) : JobSnapshot φ θ ν τ where
  jobId := r.id
  func := r.func
  trigger := r.trigger
  args := r.args.getD []
  kwargs := r.kwargs.getD []
  name := r.name
  misfireGraceTime := r.misfireGraceTime
  coalesce := r.coalesce
  maxInstances := r.maxInstances
  nextRunTime := r.nextRunTime.getD (next r.trigger)
  executor := r.executor.getD defaultExecutor

namespace MemoryStore

variable (m : MemoryStore φ θ ν τ ε) (i : Text)

def getJob : Option (JobSnapshot φ θ ν τ) := m.jobs.find? fun j => decide (j.jobId=i)

def without : List (JobSnapshot φ θ ν τ) := m.jobs.filter fun j => decide (j.jobId≠i)

variable {m i}

theorem jobId_of_getJob {j : JobSnapshot φ θ ν τ} (h : m.getJob i=some j) : j.jobId=i := by
  unfold getJob at h
  have hid := List.find?_some h
  exact of_decide_eq_true hid

theorem getJob_iff {j : JobSnapshot φ θ ν τ} : m.getJob i=some j ↔ j∈m.jobs∧j.jobId=i := by
  constructor
  · intro h
    exact ⟨List.mem_of_find?_eq_some h,jobId_of_getJob h⟩
  · rintro ⟨hj,rfl⟩
    cases hfound : m.getJob j.jobId with
    | none =>
      have hnot := List.find?_eq_none.mp hfound j hj
      exact absurd (decide_eq_true rfl) hnot
    | some k =>
      have hid := jobId_of_getJob hfound
      rw [List.inj_on_of_nodup_map m.distinct (List.mem_of_find?_eq_some hfound) hj hid]

theorem without_distinct : ((m.without i).map JobSnapshot.jobId).Nodup :=
  m.distinct.sublist (List.filter_sublist.map _)

theorem not_mem_without : i∉(m.without i).map JobSnapshot.jobId := by
  intro h
  obtain ⟨j,hj,he⟩ := List.mem_map.mp h
  exact of_decide_eq_true (List.mem_filter.mp hj).2 he

theorem mem_without {j : JobSnapshot φ θ ν τ} : j∈m.without i ↔ j∈m.jobs∧j.jobId≠i := by
  rw [without,List.mem_filter,decide_eq_true_iff]

/-- `add_job`: it raises what is planned for this call, or puts the job in. -/
def addJob (next : θ → Option τ) (m : MemoryStore φ θ ν τ ε) (r : JobRequest φ θ ν τ) :
    Except ε Unit×MemoryStore φ θ ν τ ε :=
  match m.faults with
  | some e::rest => (.error e,{m with faults:=rest})
  | rest => (.ok (),⟨r.job next::m.without r.id,
      List.nodup_cons.mpr ⟨not_mem_without,without_distinct⟩,m.zone,rest.tail⟩)

def removeJob (m : MemoryStore φ θ ν τ ε) (i : Text) : Except ε Unit×MemoryStore φ θ ν τ ε :=
  match m.faults with
  | some e::rest => (.error e,{m with faults:=rest})
  | rest => (.ok (),⟨m.without i,without_distinct,m.zone,rest.tail⟩)

theorem getJob_congr {n : MemoryStore φ θ ν τ ε} (h : ∀j : JobSnapshot φ θ ν τ,j.jobId=i → (j∈n.jobs ↔ j∈m.jobs)) :
    n.getJob i=m.getJob i := by
  refine Option.ext fun j => ?_
  rw [getJob_iff,getJob_iff]
  constructor
  · rintro ⟨hj,hid⟩
    exact ⟨(h j hid).mp hj,hid⟩
  · rintro ⟨hj,hid⟩
    exact ⟨(h j hid).mpr hj,hid⟩

end MemoryStore

/-- The store meets what `JobStore` asks for. -/
def memoryJobStore (next : θ → Option τ) :
    JobStore (MemoryStore φ θ ν τ ε) (JobSnapshot φ θ ν τ) φ θ ν τ ε where
  info j := j
  timezone := MemoryStore.zone
  running _ := true
  getJobs := MemoryStore.jobs
  getJob := MemoryStore.getJob
  addJob := MemoryStore.addJob next
  removeJob := MemoryStore.removeJob
  getJobs_nodup m := m.distinct.of_map _
  getJob_iff m i j := MemoryStore.getJob_iff
  addJob_ok m r h := by
    unfold MemoryStore.addJob at h ⊢
    split at h
    · cases h
    · exact ⟨r.job next,MemoryStore.getJob_iff.mpr ⟨List.mem_cons_self,rfl⟩,
        rfl,rfl,rfl,rfl,rfl,rfl,rfl,rfl,rfl,fun t ht => by simp [JobRequest.job,ht],rfl⟩
  addJob_other m r i h := by
    unfold MemoryStore.addJob
    split
    · rfl
    · refine MemoryStore.getJob_congr fun j hj => ?_
      rw [List.mem_cons,MemoryStore.mem_without]
      constructor
      · rintro (rfl | hmem)
        · exact absurd hj.symm h
        · exact hmem.1
      · exact fun hmem => .inr ⟨hmem,hj ▸ h⟩
  removeJob_ok m i h := by
    unfold MemoryStore.removeJob at h ⊢
    split at h
    · cases h
    · cases hj : MemoryStore.getJob ⟨m.without i,_,m.zone,_⟩ i with
      | none => rfl
      | some j => exact absurd (MemoryStore.getJob_iff.mp hj).2 (MemoryStore.mem_without.mp (MemoryStore.getJob_iff.mp hj).1).2
  removeJob_other m i i' h := by
    unfold MemoryStore.removeJob
    split
    · rfl
    · refine MemoryStore.getJob_congr fun j hj => ?_
      rw [MemoryStore.mem_without]
      exact ⟨And.left,fun hmem => ⟨hmem,hj ▸ h⟩⟩

end

end XiaoQing.Schedule
