import Mathlib.Data.List.Dedup
import XiaoQing.Framework.Effects
import XiaoQing.Schedule.JobStore
import Mathlib.Data.Char
import Mathlib.Data.List.Lex

namespace XiaoQing.Schedule

open Commands Framework

structure PreparedJob (φ θ : Type) where
  jobId : Text
  func : φ
  trigger : θ
  description : Option Text

inductive SpecError (ε : Type)
  | jobId
  | handler (jobId : Text)
  | cron (jobId : Text)
  | description (jobId : Text)
  | cronKeys (jobId : Text)
  | trigger (e : ε)

inductive ReplaceError (ε : Type)
  | noPrefix
  | cleanup
  | start (e : ε)
  | notStarted
  | spec (e : SpecError ε)
  | duplicate (pre : Text)
  | outside (pre : Text) (ids : List Text)
  | replace (e : ε)
  | rollback (pre : Text) (e : ε) (errors : List ε)

variable {σ ω φ θ ν τ ε : Type}

/-- `job.description or job.job_id` -/
def PreparedJob.name (p : PreparedJob φ θ) : Text :=
  match p.description with
  | some (c::t) => c::t
  | _ => p.jobId

/-- The call in `_add_prepared_job`. -/
def PreparedJob.request (p : PreparedJob φ θ) : JobRequest φ θ ν τ where
  func := p.func
  trigger := p.trigger
  args := none
  kwargs := none
  id := p.jobId
  name := p.name
  misfireGraceTime := some 60
  coalesce := true
  maxInstances := 1
  nextRunTime := none
  executor := none

/-- The call in `_restore_job`. -/
def JobSnapshot.request (j : JobSnapshot φ θ ν τ) : JobRequest φ θ ν τ where
  func := j.func
  trigger := j.trigger
  args := some j.args
  kwargs := some j.kwargs
  id := j.jobId
  name := j.name
  misfireGraceTime := j.misfireGraceTime
  coalesce := j.coalesce
  maxInstances := j.maxInstances
  nextRunTime := some j.nextRunTime
  executor := some j.executor

section

variable (S : JobStore σ ω φ θ ν τ ε)

/-- The jobs of `get_jobs` under the prefix. -/
def owned (pre : Text) (s : σ) : List ω := (S.getJobs s).filter fun j => pre.isPrefixOf (S.idOf j)

section

variable [DecidableEq ω]

end

end

section

variable {S : JobStore σ ω φ θ ν τ ε} {pre i : Text} {s : σ} {j : ω} {l : List ω}

section

variable [DecidableEq ω]

end

/-- The jobs that a replacement asks for, and no others, are under the prefix. -/
def HasNew (S : JobStore σ ω φ θ ν τ ε) (pre : Text) (prepared : List (PreparedJob φ θ)) (s : σ) : Prop :=
  (∀p∈prepared,∃j,S.getJob s p.jobId=some j∧p.request.Describes (S.info j))∧
    ∀i,pre.isPrefixOf i=true → i∉prepared.map PreparedJob.jobId → S.getJob s i=none

/-- The jobs under the prefix are those of `s`, in all their fields. -/
def HasPrevious (S : JobStore σ ω φ θ ν τ ε) (pre : Text) (s t : σ) : Prop :=
  ∀i,pre.isPrefixOf i=true → (S.getJob t i).map S.info=(S.getJob s i).map S.info

def Raised (S : JobStore σ ω φ θ ν τ ε) (e : ε) : Prop :=
  ∃s,(∃r,(S.addJob s r).1=.error e)∨∃i,(S.removeJob s i).1=.error e

/-- How a replacement may end; an error of the rollback itself is the only way to other jobs. -/
inductive Replaced (S : JobStore σ ω φ θ ν τ ε) (pre : Text) (prepared : List (PreparedJob φ θ)) (s t : σ) :
    Except (ReplaceError ε) Unit → Prop
  | done : HasNew S pre prepared t → Replaced S pre prepared s t (.ok ())
  | restored {e : ε} : Raised S e → HasPrevious S pre s t → Replaced S pre prepared s t (.error (.replace e))
  | broken {e : ε} {errors : List ε} : Raised S e → errors≠[] → (∀x∈errors,Raised S x) →
    Replaced S pre prepared s t (.error (.rollback pre e errors))

section

variable {prepared : List (PreparedJob φ θ)} {orders : SetOrder} {t : σ}

variable [DecidableEq ω]

end

end

end XiaoQing.Schedule
