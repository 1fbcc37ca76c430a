import XiaoQing.Framework.Run
import XiaoQing.QingPet.Frames

namespace XiaoQing.QingPet

open Framework Tx Commands

/-- A scheduled job, with what its caller hands in. -/
inductive Job where
  | dailyReset (group ageDays : Int)
  | weeklyActivity (group : Int)

namespace Job

def name : Job → Text
  | dailyReset _ _ => Act.dailyResetJob
  | weeklyActivity _ => Act.weeklyActivityJob

def effects (now : Nat) (period : Text) : Job → Act Unit
  | dailyReset group ageDays => Act.resetDay group ageDays
  | weeklyActivity group => Act.settleWeek now group period

theorem effects_runs (now : Nat) (period : Text) (j : Job) {s t : Db} {a : Unit}
    (h : (j.effects now period).run s=.ok (a,t)) : t.runs=s.runs := by
  have hs : Db.Within [.users,.pets,.ledger,.titleExpiries] s t := by
    cases j with
    | dailyReset group days =>
      exact (resetDay_only.mono (by decide)).run h
    | weeklyActivity group =>
      exact (settleWeek_only.mono (by decide)).run h
  exact hs .runs (by decide)

end Job

/-! The row of a period -/

def Db.Done (db : Db) (k : Text × Text) : Prop := ∃r,row Act.runKey db.runs k=some r ∧ r.completed=true

def Db.Claimable (db : Db) (now : Nat) (k : Text × Text) : Prop :=
  ∃t,(Act.claimSchedulerRun now k.1 k.2 300).run db=.ok (true,t)

section Rows

variable {db t : Db} {now later seconds : Nat} {job period : Text} {k : Text × Text}

theorem Db.done_congr (h : t.runs=db.runs) : t.Done k ↔ db.Done k := by
  unfold Db.Done
  rw [h]

theorem done_map {o : Option JobRun} {f : JobRun → JobRun} (hf : ∀r,(f r).completed=r.completed) :
    (∃r,o.map f=some r ∧ r.completed=true) ↔ ∃r,o=some r ∧ r.completed=true := by
  cases o <;> simp [hf]

theorem claim_true (h : (Act.claimSchedulerRun now job period seconds).run db=.ok (true,t)) :
    (row Act.runKey db.runs (job,period)).all (fun r => !r.completed && r.lease.all (·≤now))=true ∧
      ∀k,t.Done k ↔ db.Done k := by
  obtain ⟨o,u,hread,hrest⟩ := bind_ok h
  cases read_ok hread
  cases hrow : row Act.runKey db.runs (job,period) with
  | none =>
    rw [hrow] at hrest
    obtain ⟨_,v,hwrite,hpure⟩ := bind_ok hrest
    cases write_ok hwrite
    cases pure_ok hpure
    refine ⟨rfl,fun k => ?_⟩
    simp only [Db.Done,row_append]
    by_cases hk : (job,period)=k
    · subst hk
      simp [hrow,Act.runKey]
    · simp [Act.runKey,hk]
  | some r =>
    rw [hrow] at hrest
    dsimp only at hrest
    split at hrest
    · cases pure_ok hrest
    split at hrest
    · cases pure_ok hrest
    rename_i hdone hlease
    obtain ⟨_,v,hwrite,hpure⟩ := bind_ok hrest
    cases write_ok hwrite
    cases pure_ok hpure
    have hopen : r.completed=false := by simpa using hdone
    refine ⟨?_,fun k => ?_⟩
    · cases hl : r.lease <;> simp_all
    · have hkey : ∀r : JobRun,Act.runKey {r with lease := some (now+max 1 seconds*second)}=Act.runKey r :=
        fun _ => rfl
      simp only [Db.Done,row_updateWhere hkey]
      exact done_map (fun r => by split <;> rfl)

theorem claimable_of_open (hnow : now≤later) (h : (row Act.runKey db.runs k).all (fun r =>
    !r.completed && r.lease.all (·≤now))=true) : db.Claimable later k := by
  unfold Db.Claimable Act.claimSchedulerRun
  dsimp only
  rw [run_read_bind]
  cases hrow : row Act.runKey db.runs (k.1,k.2) with
  | none => exact ⟨_,rfl⟩
  | some r =>
    rw [show k=(k.1,k.2) from rfl,hrow,Option.all_some,Bool.and_eq_true] at h
    have hlease : r.lease.any (fun x => decide (later < x))=false := by
      cases hl : r.lease with
      | none => rfl
      | some x =>
        have hx : x≤now := by simpa [hl] using h.2
        simpa using hx.trans hnow
    dsimp only
    rw [if_neg (by simpa using h.1),if_neg (by simp [hlease])]
    exact ⟨_,rfl⟩

theorem complete_true (h : (Act.completeSchedulerRun job period).run db=.ok (true,t)) :
    ∀k,t.Done k ↔ db.Done k ∨ k=(job,period) := by
  obtain ⟨n,u,hread,hrest⟩ := bind_ok h
  cases read_ok hread
  obtain ⟨_,v,hwrite,hpure⟩ := bind_ok hrest
  cases write_ok hwrite
  have hp := pure_ok hpure
  rw [Prod.mk.injEq] at hp
  obtain ⟨hone,rfl⟩ := hp
  have hfound : row Act.runKey db.runs (job,period)≠none := by
    intro hnone
    have hzero : db.runs.countP (fun r => decide (Act.runKey r=(job,period)) && !r.completed)=0 :=
      List.countP_eq_zero.mpr (fun r hr => by simp [row_eq_none hnone r hr])
    simp [hzero] at hone
  intro k
  have hkey : ∀r : JobRun,Act.runKey {r with completed := true,lease := none}=Act.runKey r :=
    fun _ => rfl
  simp only [Db.Done,row_updateWhere hkey]
  cases hrow : row Act.runKey db.runs k with
  | none =>
    have hne : k≠(job,period) := fun he => hfound (he ▸ hrow)
    simp [hne]
  | some r =>
    have hk : Act.runKey r=k := row_key hrow
    by_cases hdone : r.completed=true
    · simp [hdone]
    · by_cases he : k=(job,period)
      · simp [hk,hdone,he]
      · simp [hk,hdone,he]

end Rows

/-! Workers -/

/-- How far a worker's transaction has come. -/
inductive JobStage where
  | begun
  | claimed
  | applied
  | completed
  deriving DecidableEq

/-- The worker that has the write lock: the tables as it found them, and its working copy. -/
structure Writer where
  worker : Nat
  job : Job
  period : Text
  base : Db
  copy : Db
  stage : JobStage
  claimedAt : Nat

namespace Writer

def key (w : Writer) : Text × Text := (w.job.name,w.period)

end Writer

/-- The committed tables, the writer, and the runs whose effects were committed. -/
structure Jobs where
  db : Db
  writer : Option Writer
  applied : List (Text × Text)

inductive JobAct where
  | begin (worker : Nat) (job : Job) (period : Text)
  | claim (worker : Nat)
  | apply (worker : Nat)
  | complete (worker : Nat)
  | commit (worker : Nat)
  /-- An exception, or the end of the process: a rollback. -/
  | fail (worker : Nat)
  | serve (c : Call)

namespace Jobs

def start (db : Db) : Jobs := ⟨db,none,[]⟩

/-- The writer goes on with its copy, or its transaction is rolled back. -/
def proceed (s : Jobs) (w : Writer) (stage : JobStage) (copy : Option Db) : Jobs :=
  {s with writer := copy.map (fun t => {w with copy := t,stage := stage})}

def taken (m : Act Bool) (db : Db) : Option Db :=
  match m.run db with
  | .ok (true,t) => some t
  | _ => none

def done (m : Act Unit) (db : Db) : Option Db :=
  match m.run db with
  | .ok (_,t) => some t
  | .error _ => none

def held (s : Jobs) (worker : Nat) (stage : JobStage) : Option Writer :=
  s.writer.filter (fun w => w.worker=worker && w.stage=stage)

def step (s : Jobs) : Nat × JobAct → Option Jobs
  | (_,.begin worker job period) =>
    if s.writer.isSome then none
    else some {s with writer := some ⟨worker,job,period,s.db,s.db,.begun,0⟩}
  | (now,.claim worker) => (s.held worker .begun).map (fun w =>
    s.proceed {w with claimedAt := now} .claimed
      (taken (Act.claimSchedulerRun now w.job.name w.period 300) w.copy))
  | (now,.apply worker) => (s.held worker .claimed).map (fun w =>
    s.proceed w .applied (done (w.job.effects now w.period) w.copy))
  | (_,.complete worker) => (s.held worker .applied).map (fun w =>
    s.proceed w .completed (taken (Act.completeSchedulerRun w.job.name w.period) w.copy))
  | (_,.commit worker) => (s.held worker .completed).map (fun w =>
    ⟨w.copy,none,s.applied++[w.key]⟩)
  | (_,.fail worker) => (s.writer.filter (fun w => w.worker=worker)).map (fun _ =>
    {s with writer := none})
  | (now,.serve c) => if s.writer.isSome || c.isJob then none else some {s with db := c.after now s.db}

/-- The copy of a writer is what its statements made of the committed tables. -/
def Follows (db : Db) (w : Writer) : Prop :=
  w.base=db ∧
  match w.stage with
  | .begun => w.copy=db
  | .claimed =>
    taken (Act.claimSchedulerRun w.claimedAt w.job.name w.period 300) db=some w.copy
  | .applied => ∃t now,
    taken (Act.claimSchedulerRun w.claimedAt w.job.name w.period 300) db=some t ∧
      done (w.job.effects now w.period) t=some w.copy
  | .completed => ∃t u now,
    taken (Act.claimSchedulerRun w.claimedAt w.job.name w.period 300) db=some t ∧
      done (w.job.effects now w.period) t=some u ∧
        taken (Act.completeSchedulerRun w.job.name w.period) u=some w.copy

structure Sound (db : Db) (s : Jobs) : Prop where
  writer : ∀w,s.writer=some w → Follows s.db w
  kept : ∀k,db.Done k → s.db.Done k
  applied : ∀k∈s.applied,s.db.Done k ∧ ¬db.Done k
  once : s.applied.Nodup

theorem taken_ok {m : Act Bool} {db t : Db} (h : taken m db=some t) : m.run db=.ok (true,t) := by
  unfold taken at h
  split at h
  · cases h
    assumption
  · cases h

theorem done_ok {m : Act Unit} {db t : Db} (h : done m db=some t) : m.run db=.ok ((),t) := by
  unfold done at h
  split at h
  · cases h
    assumption
  · cases h

theorem held_some {s : Jobs} {worker : Nat} {stage : JobStage} {w : Writer}
    (h : s.held worker stage=some w) : s.writer=some w ∧ w.worker=worker ∧ w.stage=stage := by
  obtain ⟨hw,hp⟩ := Option.filter_eq_some_iff.mp h
  simpa only [Bool.and_eq_true,decide_eq_true_eq,hw,true_and] using hp

section

variable {db : Db} {w : Writer}

theorem Follows.opened (h : Follows db w) (hstage : w.stage≠.begun) :
    (row Act.runKey db.runs w.key).all (fun r => !r.completed && r.lease.all (·≤w.claimedAt))=true := by
  obtain ⟨_,h⟩ := h
  cases hs : w.stage with
  | begun => exact absurd hs hstage
  | claimed =>
    rw [hs] at h
    exact (claim_true (taken_ok h)).1
  | applied =>
    rw [hs] at h
    obtain ⟨t,now,hclaim,_⟩ := h
    exact (claim_true (taken_ok hclaim)).1
  | completed =>
    rw [hs] at h
    obtain ⟨t,u,now,hclaim,_⟩ := h
    exact (claim_true (taken_ok hclaim)).1

theorem Follows.not_done (h : Follows db w) (hstage : w.stage≠.begun) : ¬db.Done w.key := by
  rintro ⟨r,hr,hdone⟩
  have hopen := h.opened hstage
  simp [hr,hdone] at hopen

theorem Follows.ran (h : Follows db w) (hstage : w.stage=.completed) :
    ∃now,transact (Act.runJob w.claimedAt w.job.name w.period (w.job.effects now w.period)) db=
      (.ok (),w.copy) := by
  obtain ⟨_,h⟩ := h
  rw [hstage] at h
  obtain ⟨t,u,now,hclaim,heffects,hcomplete⟩ := h
  refine ⟨now,transact_ok ?_⟩
  unfold Act.runJob
  rw [run_bind_of_ok (taken_ok hclaim)]
  unfold Act.check
  rw [run_require_bind rfl,run_bind_of_ok (done_ok heffects),run_bind_of_ok (taken_ok hcomplete)]
  rfl

theorem Follows.settles (h : Follows db w) (hstage : w.stage=.completed) (k : Text × Text) :
    w.copy.Done k ↔ db.Done k ∨ k=w.key := by
  obtain ⟨_,h⟩ := h
  rw [hstage] at h
  obtain ⟨t,u,now,hclaim,heffects,hcomplete⟩ := h
  rw [complete_true (taken_ok hcomplete) k]
  have hu : u.Done k ↔ t.Done k := Db.done_congr (w.job.effects_runs now w.period (done_ok heffects))
  rw [hu,(claim_true (taken_ok hclaim)).2 k]
  rfl

end

theorem Sound.proceed {db : Db} {s : Jobs} {w : Writer} {stage : JobStage} {copy : Option Db}
    (h : Sound db s)
    (hw : ∀t,copy=some t → Follows s.db {w with copy := t,stage := stage}) :
    Sound db (s.proceed w stage copy) := by
  refine ⟨fun v hv => ?_,h.kept,h.applied,h.once⟩
  obtain ⟨t,ht,rfl⟩ := Option.map_eq_some_iff.mp hv
  exact hw t ht

theorem after_runs {now : Nat} {c : Call} {db : Db} (h : c.isJob=false) :
    (c.after now db).runs=db.runs := by
  refine Call.after_within _ c db .runs ?_
  cases c <;> first | exact Bool.noConfusion h | simp [Call.tables]

theorem step_sound {db : Db} {s t : Jobs} {a : Nat × JobAct} (h : Sound db s) (hs : s.step a=some t) :
    Sound db t := by
  obtain ⟨now,a⟩ := a
  cases a with
  | begin worker job period =>
    simp only [step] at hs
    split at hs
    · cases hs
    cases hs
    refine ⟨fun v hv => ?_,h.kept,h.applied,h.once⟩
    cases hv
    exact ⟨rfl,rfl⟩
  | claim worker =>
    obtain ⟨w,hheld,rfl⟩ := Option.map_eq_some_iff.mp hs
    obtain ⟨hw,_,hstage⟩ := held_some hheld
    obtain ⟨hbase,hcopy⟩ := h.writer w hw
    rw [hstage] at hcopy
    exact h.proceed (fun t ht => ⟨hbase,hcopy ▸ ht⟩)
  | apply worker =>
    obtain ⟨w,hheld,rfl⟩ := Option.map_eq_some_iff.mp hs
    obtain ⟨hw,_,hstage⟩ := held_some hheld
    obtain ⟨hbase,hcopy⟩ := h.writer w hw
    rw [hstage] at hcopy
    exact h.proceed (fun t ht => ⟨hbase,w.copy,now,hcopy,ht⟩)
  | complete worker =>
    obtain ⟨w,hheld,rfl⟩ := Option.map_eq_some_iff.mp hs
    obtain ⟨hw,_,hstage⟩ := held_some hheld
    obtain ⟨hbase,hcopy⟩ := h.writer w hw
    rw [hstage] at hcopy
    obtain ⟨u,now',hclaim,heffects⟩ := hcopy
    exact h.proceed (fun t ht => ⟨hbase,u,w.copy,now',hclaim,heffects,ht⟩)
  | commit worker =>
    obtain ⟨w,hheld,rfl⟩ := Option.map_eq_some_iff.mp hs
    obtain ⟨hw,_,hstage⟩ := held_some hheld
    have hf := h.writer w hw
    have hnew : ¬s.db.Done w.key := hf.not_done (by rw [hstage]; decide)
    have hdone := hf.settles hstage
    refine ⟨nofun,fun k hk => (hdone k).mpr (.inl (h.kept k hk)),fun k hk => ?_,?_⟩
    · rcases List.mem_append.mp hk with hk | hk
      · exact ⟨(hdone k).mpr (.inl (h.applied k hk).1),(h.applied k hk).2⟩
      · cases List.mem_singleton.mp hk
        exact ⟨(hdone _).mpr (.inr rfl),fun hk => hnew (h.kept _ hk)⟩
    · refine List.nodup_append.mpr ⟨h.once,List.nodup_singleton _,?_⟩
      rintro k hk l hl rfl
      cases List.mem_singleton.mp hl
      exact hnew (h.applied _ hk).1
  | fail worker =>
    obtain ⟨w,_,rfl⟩ := Option.map_eq_some_iff.mp hs
    exact ⟨nofun,h.kept,h.applied,h.once⟩
  | serve c =>
    simp only [step] at hs
    split at hs
    · cases hs
    rename_i hguard
    cases hs
    rw [Bool.or_eq_true,not_or,Bool.not_eq_true,Bool.not_eq_true] at hguard
    have hdone : ∀k,(c.after now s.db).Done k ↔ s.db.Done k :=
      fun k => Db.done_congr (after_runs hguard.2)
    refine ⟨fun v hv => ?_,fun k hk => (hdone k).mpr (h.kept k hk),fun k hk => ?_,h.once⟩
    · have hnone : s.writer=none := Option.not_isSome_iff_eq_none.mp (by simp [hguard.1])
      exact nomatch hnone ▸ hv
    · exact ⟨(hdone k).mpr (h.applied k hk).1,(h.applied k hk).2⟩

theorem reach_sound {db : Db} {s : Jobs} (h : Reach step Free (·=start db) s) : Sound db s := by
  refine h.invariant ?_ (fun _ _ _ hp _ hs => step_sound hp hs)
  rintro _ rfl
  exact ⟨nofun,fun _ hk => hk,nofun,List.nodup_nil⟩

def continues (worker : Nat) (a : JobAct) : Prop :=
  a=.apply worker ∨ a=.complete worker ∨ a=.commit worker

theorem step_continues {s t : Jobs} {now worker : Nat} {a : JobAct} (hs : s.step (now,a)=some t)
    (ha : continues worker a) : ∃w,s.writer=some w ∧ w.worker=worker ∧ w.stage≠.begun := by
  have hstage : ∃stage w,s.held worker stage=some w ∧ stage≠.begun := by
    rcases ha with rfl | rfl | rfl <;>
      · obtain ⟨w,hheld,_⟩ := Option.map_eq_some_iff.mp hs
        exact ⟨_,w,hheld,by decide⟩
  obtain ⟨stage,w,hheld,hne⟩ := hstage
  obtain ⟨hw,hworker,rfl⟩ := held_some hheld
  exact ⟨w,hw,hworker,hne⟩

theorem step_rolls_back {s t : Jobs} {now : Nat} {a : JobAct} {w : Writer} (hs : s.step (now,a)=some t)
    (hw : s.writer=some w) (hne : a≠.commit w.worker) : t.db=s.db ∧ t.applied=s.applied := by
  cases a with
  | begin worker job period => simp [step,hw] at hs
  | claim worker =>
    obtain ⟨_,_,rfl⟩ := Option.map_eq_some_iff.mp hs
    exact ⟨rfl,rfl⟩
  | apply worker =>
    obtain ⟨_,_,rfl⟩ := Option.map_eq_some_iff.mp hs
    exact ⟨rfl,rfl⟩
  | complete worker =>
    obtain ⟨_,_,rfl⟩ := Option.map_eq_some_iff.mp hs
    exact ⟨rfl,rfl⟩
  | commit worker =>
    obtain ⟨v,hheld,rfl⟩ := Option.map_eq_some_iff.mp hs
    obtain ⟨hv,hworker,_⟩ := held_some hheld
    cases hw.symm.trans hv
    exact absurd (congrArg JobAct.commit hworker.symm) hne
  | fail worker =>
    obtain ⟨_,_,rfl⟩ := Option.map_eq_some_iff.mp hs
    exact ⟨rfl,rfl⟩
  | serve c => simp [step,hw] at hs

end Jobs

open Jobs in
/-- In every run of the workers, from any tables: a period's effects are committed at most once, as
    one run of its job on the tables as they were; only the worker whose claim stands applies,
    completes or commits, and nobody takes the claim from it; and a worker that ends without a commit
    leaves the tables as they were, with the period claimable again. -/
theorem scheduled_jobs_once (db : Db) (s : Jobs) (h : Reach step Free (·=start db) s) :
    s.applied.Nodup ∧
    (∀k∈s.applied,s.db.Done k ∧ ¬db.Done k) ∧
    (∀now worker t,s.step (now,.commit worker)=some t → ∃w now',s.writer=some w ∧ w.worker=worker ∧
      ¬s.db.Done w.key ∧ t.db.Done w.key ∧ t.applied=s.applied++[w.key] ∧
      transact (Act.runJob w.claimedAt w.job.name w.period (w.job.effects now' w.period)) s.db=
        (.ok (),t.db)) ∧
    (∀now worker a t,s.step (now,a)=some t → continues worker a →
      ∃w,s.writer=some w ∧ w.worker=worker ∧ w.stage≠.begun ∧ w.base=s.db) ∧
    (∀w,s.writer=some w → ∀now worker job period,s.step (now,.begin worker job period)=none) ∧
    ∀w now a t,s.writer=some w → s.step (now,a)=some t → a≠.commit w.worker →
      t.db=s.db ∧ t.applied=s.applied ∧
      (t.writer=none → w.stage≠.begun → ∀later,w.claimedAt≤later → t.db.Claimable later w.key) := by
  have hsound := reach_sound h
  refine ⟨hsound.once,hsound.applied,?_,?_,?_,?_⟩
  · intro now worker t hs
    obtain ⟨w,hheld,rfl⟩ := Option.map_eq_some_iff.mp hs
    obtain ⟨hw,hworker,hstage⟩ := held_some hheld
    have hf := hsound.writer w hw
    obtain ⟨now',hran⟩ := hf.ran hstage
    exact ⟨w,now',hw,hworker,hf.not_done (by rw [hstage]; decide),(hf.settles hstage _).mpr (.inr rfl),
      rfl,hran⟩
  · intro now worker a t hs ha
    obtain ⟨w,hw,hworker,hstage⟩ := step_continues hs ha
    exact ⟨w,hw,hworker,hstage,(hsound.writer w hw).1⟩
  · intro w hw now worker job period
    simp [step,hw]
  · intro w now a t hw hs hne
    obtain ⟨hdb,happlied⟩ := step_rolls_back hs hw hne
    refine ⟨hdb,happlied,fun _ hstage later hlater => ?_⟩
    rw [hdb]
    exact claimable_of_open hlater ((hsound.writer w hw).opened hstage)

/-- The first worker fails after the effects, the second settles the period, and the first is refused. -/
def retriedReset : List (Nat × JobAct) :=
  [(5,.begin 1 (.dailyReset 7 1) ['d']),(5,.claim 1),(5,.apply 1),(6,.fail 1),
    (7,.begin 2 (.dailyReset 7 1) ['d']),(7,.claim 2),(7,.apply 2),(7,.complete 2),(8,.commit 2),
    (9,.begin 1 (.dailyReset 7 1) ['d']),(9,.claim 1)]

def fedUser : User := (User.fresh ⟨['u'],7⟩ 0).incrementAction .feed 3

def fedDb : Db := {Db.empty with users := [fedUser]}

theorem scheduled_jobs_once_example :
    ∃s : Jobs,execute Jobs.step (Jobs.start fedDb) retriedReset=some s ∧
      s.writer.isNone ∧ s.db.users.all (fun u => u.today .feed=0) ∧ s.applied.Nodup ∧
      s.applied=[(Act.dailyResetJob,['d'])] := by
  have hrun : (execute Jobs.step (Jobs.start fedDb) retriedReset).any
      (fun s => s.writer.isNone && s.db.users.all (fun u => u.today .feed=0) &&
        decide (s.applied=[(Act.dailyResetJob,['d'])]))=true := by
    decide
  obtain ⟨s,hs,hq⟩ := (Option.any_eq_true _ _).mp hrun
  simp only [Bool.and_eq_true,decide_eq_true_iff] at hq
  obtain ⟨⟨hwriter,hreset⟩,happlied⟩ := hq
  have honce := scheduled_jobs_once fedDb s (.execute retriedReset (fun _ _ _ => trivial) (.start rfl) hs)
  exact ⟨s,hs,hwriter,hreset,honce.1,happlied⟩

end XiaoQing.QingPet
