import XiaoQing.Plugins.ImportBarrier

namespace XiaoQing.Plugins.Coordinator

open Framework

variable {ν ε : Type}

/-! What one step can do -/

/-- A step of a submitting call outside the condition, or one that gives its job up. -/
inductive CallMove (s : Coordinator ν ε) (c : Submission ν ε) : Submission ν ε → Prop
  | enter (h : c.stage=.absent) (ha : s.available=true) (names callback timeout) :
      CallMove s c {Submission.new names callback (s.now+timeout) with stage := .entering}
  | direct (h : c.stage=.absent) (names timeout) :
      CallMove s c {Submission.new names true (s.now+timeout) with stage := .direct, runs := 1}
  | skip (h : c.stage=.absent) (names timeout) :
      CallMove s c {Submission.new names false (s.now+timeout) with stage := .ended .returned}
  | directReturns (h : c.stage=.direct) :
      CallMove s c {c with stage := .ended .returned, commits := c.commits+1}
  | directRaises (h : c.stage=.direct) (e : ε) : CallMove s c {c with stage := .ended (.raised e)}
  | expire (h : c.stage=.submitted) : CallMove s c {c with stage := .expired}
  | cancel (h : c.stage=.expired) (hw : c.state=.waiting) :
      CallMove s c {c with state := .cancelled, stage := .ended .noLocks}
  | commit (h : c.stage=.expired) (hw : c.state≠.waiting) : CallMove s c {c with stage := .committed}
  | finish (h : c.stage=.submitted∨c.stage=.committed) (hc : c.completed=true) :
      CallMove s c {c with stage := .ended c.outcome}

/-- A step of the worker between taking the job and settling it. -/
inductive WorkMove (c : Submission ν ε) (l : List ν) : WorkerStage ν → Worker ν → Submission ν ε → Prop
  | start (j : Nat) : WorkMove c l (.starting j) ⟨.locking j c.names,l⟩ c
  | locked (j : Nat) : WorkMove c l (.locking j []) ⟨.deciding j,l⟩ c
  | stop (j : Nat) (n : ν) (left : List ν) (h : c.state=.cancelled) :
      WorkMove c l (.locking j (n::left)) ⟨.deciding j,l⟩ c
  | next (j : Nat) (n : ν) (left : List ν) :
      WorkMove c l (.locking j (n::left)) ⟨.acquiring j n left,l⟩ c
  | acquire (j : Nat) (n : ν) (left : List ν) :
      WorkMove c l (.acquiring j n left) ⟨.locking j left,l++[n]⟩ c
  | failStart (j : Nat) (e : ε) :
      WorkMove c l (.starting j) ⟨.releasing j,l⟩ {c with errors := c.errors++[e]}
  | failLock (j : Nat) (n : ν) (left : List ν) (e : ε) :
      WorkMove c l (.acquiring j n left) ⟨.releasing j,l⟩ {c with errors := c.errors++[e]}
  | skip (j : Nat) (h : c.state=.cancelled) : WorkMove c l (.deciding j) ⟨.releasing j,l⟩ c
  | run (j : Nat) (h : c.state≠.cancelled) (hc : c.callback=true) :
      WorkMove c l (.deciding j) ⟨.calling j,l⟩ {c with state := .running}
  | cross (j : Nat) (h : c.state≠.cancelled) (hc : c.callback=false) :
      WorkMove c l (.deciding j) ⟨.releasing j,l⟩ {c with state := .running}
  | enter (j : Nat) : WorkMove c l (.calling j) ⟨.inCallback j,l⟩ {c with runs := c.runs+1}
  | leave (j : Nat) (error : Option ε) : WorkMove c l (.inCallback j) ⟨.releasing j,l⟩ (c.close error)
  | release (j : Nat) : WorkMove c l (.releasing j) ⟨.settling j,[]⟩ c

def AtTop (s : Coordinator ν ε) (w : Nat) : Prop :=
  (s.workers w).stage=.top∨((s.workers w).stage=.waiting∧.worker w∉s.waiters)

def CanLook (s : Coordinator ν ε) (i : Nat) : Prop :=
  (s.calls i).stage=.entering∨
    ((s.calls i).stage=.waiting∧(.call i∉s.waiters∨(s.calls i).deadline ≤ s.now))

/-- What a step comes to, and the worker that takes it. -/
inductive Effect (s : Coordinator ν ε) : Option Nat → Coordinator ν ε → Prop
  | tick (d : Nat) : Effect s none {s with now := s.now+d}
  | call {i : Nat} {c : Submission ν ε} (h : CallMove s (s.calls i) c) : Effect s none (s.setCall i c)
  | look {i : Nat} (h : CanLook s i) : Effect s none (s.look i (s.calls i))
  | take {w : Nat} (h : AtTop s w) : Effect s (some w) (s.take w (s.workers w))
  | work {w j : Nat} {y : Worker ν} {c : Submission ν ε} (hj : (s.workers w).stage.job=some j)
      (h : WorkMove (s.calls j) (s.workers w).locks (s.workers w).stage y c) :
      Effect s (some w) ((s.setCall j c).setWorker w y)
  | settle {w j : Nat} (h : (s.workers w).stage=.settling j) :
      Effect s (some w) ({(s.setCall j {s.calls j with
        state := if (s.calls j).state=JobState.cancelled then .cancelled else .done}).setWorker w
          {s.workers w with stage := .completing j} with busy := false}.notifyAll)
  | complete {w j : Nat} (h : (s.workers w).stage=.completing j) :
      Effect s (some w) ((s.setCall j {s.calls j with completed := true}).setWorker w
        {s.workers w with stage := .top})

variable {s t : Coordinator ν ε} {i j w : Nat} {c d : Submission ν ε} {x y : Worker ν}

@[simp] theorem setCall_self (s : Coordinator ν ε) (i : Nat) : s.setCall i (s.calls i)=s := by
  rw [setCall,Function.update_eq_self]

variable {st : WorkerStage ν}

theorem Effect.worked (hx : (s.workers w).stage=st) (hj : st.job=some j)
    (h : WorkMove (s.calls j) (s.workers w).locks st y c) :
    Effect s (some w) ((s.setCall j c).setWorker w y) := by
  subst hx
  exact .work hj h

theorem Effect.stayed (hx : (s.workers w).stage=st) (hj : st.job=some j)
    (h : WorkMove (s.calls j) (s.workers w).locks st y (s.calls j)) :
    Effect s (some w) (s.setWorker w y) := by
  have := Effect.worked hx hj h
  rwa [setCall_self] at this

theorem effect_of_work (h : s.work w=some t) : Effect s (some w) t := by
  unfold work at h
  cases hx : (s.workers w).stage with
  | absent => simp [hx] at h
  | top =>
    simp only [hx,Option.some.injEq] at h
    exact h ▸ .take (.inl hx)
  | waiting =>
    simp only [hx] at h
    split_ifs at h with hm
    cases h
    exact .take (.inr ⟨hx,hm⟩)
  | starting j =>
    simp only [hx,Option.some.injEq] at h
    subst h
    exact .stayed hx rfl (.start j)
  | locking j left =>
    cases left with
    | nil =>
      simp only [hx,Option.some.injEq] at h
      subst h
      exact .stayed hx rfl (.locked j)
    | cons n left =>
      simp only [hx] at h
      split_ifs at h with hc <;> cases h
      · exact .stayed hx rfl (.stop j n left hc)
      · exact .stayed hx rfl (.next j n left)
  | acquiring j n left => simp [hx] at h
  | deciding j =>
    simp only [hx] at h
    split_ifs at h with hc hcb <;> cases h
    · exact .stayed hx rfl (.skip j hc)
    · exact .worked hx rfl (.run j hc hcb)
    · exact .worked hx rfl (.cross j hc (by simpa using hcb))
  | calling j =>
    simp only [hx,Option.some.injEq] at h
    subst h
    exact .worked hx rfl (.enter j)
  | inCallback j => simp [hx] at h
  | releasing j =>
    simp only [hx,Option.some.injEq] at h
    subst h
    exact .stayed hx rfl (.release j)
  | settling j =>
    simp only [hx,Option.some.injEq] at h
    exact h ▸ .settle hx
  | completing j =>
    simp only [hx,Option.some.injEq] at h
    exact h ▸ .complete hx

theorem effect_of_fail {e : ε} (h : s.fail w e=some t) : Effect s (some w) t := by
  unfold fail at h
  cases hx : (s.workers w).stage with
  | starting j =>
    simp only [hx,Option.some.injEq] at h
    subst h
    exact .worked hx rfl (.failStart j e)
  | acquiring j n left =>
    simp only [hx,Option.some.injEq] at h
    subst h
    exact .worked hx rfl (.failLock j n left e)
  | _ => simp [hx] at h

theorem effect_of_acquire (h : s.acquire w=some t) : Effect s (some w) t := by
  unfold acquire at h
  cases hx : (s.workers w).stage with
  | acquiring j n left =>
    simp only [hx,Option.some.injEq] at h
    subst h
    exact .stayed hx rfl (.acquire j n left)
  | _ => simp [hx] at h

theorem effect_of_callbackEnds {error : Option ε} (h : s.callbackEnds w error=some t) :
    Effect s (some w) t := by
  unfold callbackEnds at h
  cases hx : (s.workers w).stage with
  | inCallback j =>
    simp only [hx,Option.some.injEq] at h
    subst h
    exact .worked hx rfl (.leave j error)
  | _ => simp [hx] at h

theorem effect_of_call {names : List ν} {callback : Bool} {timeout : Int}
    (h : s.call i names callback timeout=some t) : Effect s none t := by
  unfold call at h
  cases ha : (s.calls i).stage with
  | absent =>
    simp only [ha,if_true] at h
    split_ifs at h with hav hcb <;> cases h
    · exact .call (.enter ha hav names callback timeout)
    · subst hcb
      exact .call (.direct ha names timeout)
    · have hcross : callback=false := by simpa using hcb
      subst hcross
      exact .call (.skip ha names timeout)
  | _ => simp [ha] at h

theorem effect_of_step {a : BarrierAct ν ε} (h : step s a=some t) : Effect s a.worker t := by
  cases a with simp only [step] at h
  | tick d =>
    cases h
    exact .tick d
  | call i names callback timeout => exact effect_of_call h
  | directEnds i error =>
    split at h
    · cases h
      exact .call (.directReturns ‹_›)
    · cases h
      exact .call (.directRaises ‹_› _)
    · cases h
  | look i =>
    split at h
    · cases h
      exact .look (.inl ‹_›)
    · split_ifs at h with hw
      cases h
      exact .look (.inr ⟨‹_›,hw⟩)
    · cases h
  | expire i =>
    split at h
    · split_ifs at h
      cases h
      exact .call (.expire ‹_›)
    · cases h
  | cancelOrWait i =>
    split at h
    · split_ifs at h with hw <;> cases h
      · exact .call (.cancel ‹_› hw)
      · exact .call (.commit ‹_› hw)
    · cases h
  | finish i =>
    split at h
    · split_ifs at h with hc
      cases h
      exact .call (.finish (.inl ‹_›) hc)
    · split_ifs at h with hc
      cases h
      exact .call (.finish (.inr ‹_›) hc)
    · cases h
  | work w => exact effect_of_work h
  | acquire w => exact effect_of_acquire h
  | fail w e => exact effect_of_fail h
  | callbackEnds w error => exact effect_of_callbackEnds h

/-! What holds of a job wherever it is -/

/-- Where a job is: not with the coordinator, in `_job`, in the hands of the worker. -/
inductive Place (ν : Type)
  | out
  | pending
  | held (x : Worker ν)

structure Undecided (c : Submission ν ε) : Prop where
  state : c.state=.waiting∨c.state=.cancelled
  runs : c.runs=0
  commits : c.commits=0
  errors : c.errors=[]

/-- The worker is through with the callback, or with the attempt to reach it. -/
structure Served (c : Submission ν ε) : Prop where
  runs : c.runs ≤ 1
  commits : c.commits ≤ c.runs
  unstarted : c.state=.waiting∨c.state=.cancelled → c.runs=0
  failed : c.errors≠[] → c.commits=0
  crossed : c.errors=[] → c.state≠.cancelled → c.state≠.waiting∧(c.callback=true → c.commits=1)

/-- The callback is about to run or runs; every requested lock is held. -/
structure Inside (c : Submission ν ε) (l : List ν) (runs : Nat) : Prop where
  state : c.state=.running
  callback : c.callback=true
  runs : c.runs=runs
  commits : c.commits=0
  errors : c.errors=[]
  locks : l=c.names

def StageOk (c : Submission ν ε) (l : List ν) : WorkerStage ν → Prop
  | .starting _ => Undecided c∧l=[]
  | .locking _ left => Undecided c∧l++left=c.names
  | .acquiring _ n left => Undecided c∧l++n::left=c.names
  | .deciding _ => Undecided c∧(c.state=.cancelled∨l=c.names)
  | .calling _ => Inside c l 0
  | .inCallback _ => Inside c l 1
  | .releasing _ => Served c∧c.state≠.done
  | .settling _ => Served c∧c.state≠.done
  | .completing _ => Served c∧(c.state=.done∨c.state=.cancelled)
  | _ => False

def PlaceOk (c : Submission ν ε) : Place ν → Prop
  | .out => c.completed=true → Served c∧(c.state=.done∨c.state=.cancelled)
  | .pending => c.completed=false∧Undecided c
  | .held x => c.completed=false∧StageOk c x.locks x.stage

def Submitted (c : Submission ν ε) : Prop :=
  match c.stage with
  | .submitted => c.state≠.cancelled
  | .expired => c.state≠.cancelled
  | .committed => c.state≠.cancelled∧c.state≠.waiting
  | .ended .noLocks => c.state=.cancelled
  | _ => False

/-- A call whose job is not submitted: before that, after the end, or without the coordinator. -/
def Apart (c : Submission ν ε) : Prop :=
  match c.stage with
  | .absent => Undecided c∧c.state=.waiting∧c.completed=false
  | .entering => Undecided c∧c.state=.waiting∧c.completed=false
  | .waiting => Undecided c∧c.state=.waiting∧c.completed=false
  | .ended .noWorker => Undecided c∧c.state=.waiting∧c.completed=false
  | .direct => c.completed=false∧c.runs=1∧c.commits=0
  | .ended (.raised _) => c.runs=1∧c.commits=0∧c.completed=false
  | .ended (.failed _) => c.runs ≤ 1∧c.commits=0∧(c.completed=true∧c.state=.done)
  | .ended .returned => c.runs ≤ 1∧(c.callback=true → c.commits=1)∧c.commits ≤ c.runs
  | _ => False

structure Fits (p : Place ν) (c : Submission ν ε) : Prop where
  place : PlaceOk c p
  stage : Submitted c∧(p=.out → c.completed=true)∨Apart c∧p=.out

variable {p : Place ν}

theorem Fits.submitted (h : Fits p c) (hp : p≠.out) : Submitted c := by
  obtain ⟨hs,-⟩ | ⟨-,ho⟩ := h.stage
  · exact hs
  · exact absurd ho hp

theorem Submitted.keep (h : Submitted c) (hst : d.stage=c.stage)
    (hs : d.state=c.state∨(c.state≠.cancelled∧d.state≠.cancelled∧d.state≠.waiting)) : Submitted d := by
  unfold Submitted at h ⊢
  rw [hst]
  obtain hs | ⟨hc,hd,hw⟩ := hs
  · rwa [hs]
  · split at h
    · exact hd
    · exact hd
    · exact ⟨hd,hw⟩
    · exact absurd h hc
    · exact h

theorem Undecided.served (h : Undecided c) (hc : c.state=.cancelled) : Served c := by
  refine ⟨?_,?_,fun _ => h.runs,fun _ => h.commits,fun _ hn => absurd hc hn⟩
  · rw [h.runs]
    exact Nat.zero_le 1
  · rw [h.commits]
    exact Nat.zero_le _

theorem Undecided.fail (h : Undecided c) (e : ε) : Served {c with errors := c.errors++[e]} := by
  refine ⟨?_,?_,fun _ => h.runs,fun _ => h.commits,fun he => absurd he (by simp)⟩
  · rw [h.runs]
    exact Nat.zero_le 1
  · rw [h.commits]
    exact Nat.zero_le _

theorem Undecided.not_done (h : Undecided c) : c.state≠.done := by
  intro hd
  obtain hs | hs := h.state <;> rw [hd] at hs <;> cases hs

theorem Inside.leave {l : List ν} (h : Inside c l 1) (error : Option ε) :
    Served (c.close error)∧(c.close error).state≠.done := by
  have hstate := h.state
  have hruns := h.runs
  have hcommits := h.commits
  have herrors := h.errors
  cases error with
  | none =>
    constructor
    · constructor <;> simp [Submission.close,hstate,hruns,hcommits,herrors]
    · simp [Submission.close,hstate]
  | some e =>
    constructor
    · constructor <;> simp [Submission.close,hstate,hruns,hcommits,herrors]
    · simp [Submission.close,hstate]

theorem WorkMove.fits {l : List ν} (hm : WorkMove c l st y d)
    (h : Fits (.held ⟨st,l⟩) c) : Fits (.held y) d := by
  obtain ⟨hcomp,hok⟩ := h.place
  have hsub := h.submitted (by simp)
  cases hm with
  | start j => exact ⟨⟨hcomp,hok.1,by rw [hok.2,List.nil_append]⟩,.inl ⟨hsub,by simp⟩⟩
  | locked j =>
    have hl : l=c.names := by rw [← hok.2,List.append_nil]
    exact ⟨⟨hcomp,hok.1,.inr hl⟩,.inl ⟨hsub,by simp⟩⟩
  | stop j n left hc => exact ⟨⟨hcomp,hok.1,.inl hc⟩,.inl ⟨hsub,by simp⟩⟩
  | next j n left => exact ⟨⟨hcomp,hok⟩,.inl ⟨hsub,by simp⟩⟩
  | acquire j n left =>
    have hl : l++[n]++left=c.names := by rw [← hok.2,List.append_assoc,List.singleton_append]
    exact ⟨⟨hcomp,hok.1,hl⟩,.inl ⟨hsub,by simp⟩⟩
  | failStart j e =>
    exact ⟨⟨hcomp,hok.1.fail e,hok.1.not_done⟩,.inl ⟨hsub.keep rfl (.inl rfl),by simp⟩⟩
  | failLock j n left e =>
    exact ⟨⟨hcomp,hok.1.fail e,hok.1.not_done⟩,.inl ⟨hsub.keep rfl (.inl rfl),by simp⟩⟩
  | skip j hc => exact ⟨⟨hcomp,hok.1.served hc,hok.1.not_done⟩,.inl ⟨hsub,by simp⟩⟩
  | run j hc hcb =>
    have hl : l=c.names := hok.2.resolve_left hc
    have hsub' := hsub.keep (d := {c with state := .running}) rfl (.inr ⟨hc,by simp,by simp⟩)
    exact ⟨⟨hcomp,rfl,hcb,hok.1.runs,hok.1.commits,hok.1.errors,hl⟩,.inl ⟨hsub',by simp⟩⟩
  | cross j hc hcb =>
    have hsub' := hsub.keep (d := {c with state := .running}) rfl (.inr ⟨hc,by simp,by simp⟩)
    have hserved : Served {c with state := .running} := by
      have hruns := hok.1.runs
      have hcommits := hok.1.commits
      constructor <;> simp [hruns,hcommits,hcb]
    exact ⟨⟨hcomp,hserved,by simp⟩,.inl ⟨hsub',by simp⟩⟩
  | enter j =>
    have hruns : c.runs+1=1 := by rw [hok.runs]
    exact ⟨⟨hcomp,hok.state,hok.callback,hruns,hok.commits,hok.errors,hok.locks⟩,
      .inl ⟨hsub.keep rfl (.inl rfl),by simp⟩⟩
  | leave j error =>
    have hclose : (c.close error).completed=false∧Submitted (c.close error) := by
      cases error with
      | none => exact ⟨hcomp,hsub.keep rfl (.inl rfl)⟩
      | some e => exact ⟨hcomp,hsub.keep rfl (.inl rfl)⟩
    exact ⟨⟨hclose.1,hok.leave error⟩,.inl ⟨hclose.2,by simp⟩⟩
  | release j => exact ⟨⟨hcomp,hok⟩,.inl ⟨hsub,by simp⟩⟩

theorem Fits.apart (h : Fits p c) (hs : ¬Submitted c) : Apart c∧p=.out := by
  obtain ⟨hsub,-⟩ | ha := h.stage
  · exact absurd hsub hs
  · exact ha

theorem Fits.out (h : Fits p c) (hc : c.completed=true) : p=.out := by
  cases p with
  | out => rfl
  | pending => exact absurd hc (by simp [h.place.1])
  | held x => exact absurd hc (by simp [h.place.1])

theorem Served.outcome (h : Served c) (hd : c.state=.done∨c.state=.cancelled) (hn : c.state≠.cancelled)
    (hc : c.completed=true) : Apart {c with stage := .ended c.outcome} := by
  have hdone := hd.resolve_right hn
  cases he : c.errors with
  | nil =>
    have hcross := (h.crossed he hn).2
    simpa [Apart,Submission.outcome,hn,he] using ⟨h.runs,hcross,h.commits⟩
  | cons e es =>
    have hfail := h.failed (by simp [he])
    simpa [Apart,Submission.outcome,hn,he] using ⟨h.runs,hfail,hc,hdone⟩

theorem Fits.cancel (h : Fits p c) (hs : Submitted c) (hw : c.state=.waiting) :
    Fits p {c with state := .cancelled, stage := .ended .noLocks} := by
  have hundecided : Undecided c → Undecided {c with state := .cancelled, stage := .ended .noLocks} :=
    fun hu => ⟨.inr rfl,hu.runs,hu.commits,hu.errors⟩
  have hserved : Served c → Served {c with state := .cancelled, stage := .ended .noLocks} := by
    intro hv
    exact ⟨hv.runs,hv.commits,fun _ => hv.unstarted (.inl hw),hv.failed,fun _ hn => absurd rfl hn⟩
  have hstage : (p=.out → c.completed=true) := by
    intro hp
    obtain ⟨-,ho⟩ | ⟨ha,-⟩ := h.stage
    · exact ho hp
    · unfold Submitted at hs
      unfold Apart at ha
      split at hs <;> simp_all
  refine ⟨?_,.inl ⟨rfl,hstage⟩⟩
  have hplace := h.place
  cases p with
  | out =>
    obtain ⟨-,hd⟩ := hplace (hstage rfl)
    simp [hw] at hd
  | pending => exact ⟨hplace.1,hundecided hplace.2⟩
  | held x =>
    obtain ⟨hcomp,hok⟩ := hplace
    refine ⟨hcomp,?_⟩
    cases hx : x.stage <;> rw [hx] at hok
    case starting => exact ⟨hundecided hok.1,hok.2⟩
    case locking => exact ⟨hundecided hok.1,hok.2⟩
    case acquiring => exact ⟨hundecided hok.1,hok.2⟩
    case deciding => exact ⟨hundecided hok.1,.inl rfl⟩
    case calling => exact absurd (hok.state.symm.trans hw) (by simp)
    case inCallback => exact absurd (hok.state.symm.trans hw) (by simp)
    case releasing => exact ⟨hserved hok.1,by simp⟩
    case settling => exact ⟨hserved hok.1,by simp⟩
    case completing => exact ⟨hserved hok.1,.inr rfl⟩
    all_goals exact hok.elim

theorem PlaceOk.restage (h : PlaceOk c p) (st : CallStage ε) : PlaceOk {c with stage := st} p := by
  have hundecided : Undecided c → Undecided {c with stage := st} :=
    fun hu => ⟨hu.state,hu.runs,hu.commits,hu.errors⟩
  have hserved : Served c → Served {c with stage := st} :=
    fun hv => ⟨hv.runs,hv.commits,hv.unstarted,hv.failed,hv.crossed⟩
  have hinside : ∀l n,Inside c l n → Inside {c with stage := st} l n :=
    fun l n hi => ⟨hi.state,hi.callback,hi.runs,hi.commits,hi.errors,hi.locks⟩
  cases p with
  | out => exact fun hc => ⟨hserved (h hc).1,(h hc).2⟩
  | pending => exact ⟨h.1,hundecided h.2⟩
  | held x =>
    obtain ⟨hcomp,hok⟩ := h
    refine ⟨hcomp,?_⟩
    cases hx : x.stage <;> rw [hx] at hok
    case starting => exact ⟨hundecided hok.1,hok.2⟩
    case locking => exact ⟨hundecided hok.1,hok.2⟩
    case acquiring => exact ⟨hundecided hok.1,hok.2⟩
    case deciding => exact ⟨hundecided hok.1,hok.2⟩
    case calling => exact hinside _ _ hok
    case inCallback => exact hinside _ _ hok
    case releasing => exact ⟨hserved hok.1,hok.2⟩
    case settling => exact ⟨hserved hok.1,hok.2⟩
    case completing => exact ⟨hserved hok.1,hok.2⟩
    all_goals exact hok.elim

theorem Fits.waits (h : Fits p c) (hst : c.stage=.submitted∨c.stage=.expired∨c.stage=.committed) :
    Submitted c∧(p=.out → c.completed=true) := by
  obtain hs | ⟨ha,-⟩ := h.stage
  · exact hs
  · obtain hst | hst | hst := hst <;> simp [Apart,hst] at ha

theorem CallMove.fits (hm : CallMove s c d) (h : Fits p c) : Fits p d := by
  have hnew : ∀names callback deadline,Undecided (Submission.new names callback deadline : Submission ν ε) :=
    fun _ _ _ => ⟨.inl rfl,rfl,rfl,rfl⟩
  cases hm with
  | enter hst ha names callback timeout =>
    obtain ⟨-,rfl⟩ := h.apart (by simp [Submitted,hst])
    have hu := hnew names callback (s.now+timeout)
    exact ⟨fun hc => by simp [Submission.new] at hc,
      .inr ⟨⟨⟨hu.state,hu.runs,hu.commits,hu.errors⟩,rfl,rfl⟩,rfl⟩⟩
  | direct hst names timeout =>
    obtain ⟨-,rfl⟩ := h.apart (by simp [Submitted,hst])
    exact ⟨fun hc => by simp [Submission.new] at hc,.inr ⟨⟨rfl,rfl,rfl⟩,rfl⟩⟩
  | skip hst names timeout =>
    obtain ⟨-,rfl⟩ := h.apart (by simp [Submitted,hst])
    refine ⟨fun hc => by simp [Submission.new] at hc,.inr ⟨?_,rfl⟩⟩
    simp [Apart,Submission.new]
  | directReturns hst =>
    obtain ⟨ha,rfl⟩ := h.apart (by simp [Submitted,hst])
    simp only [Apart,hst] at ha
    obtain ⟨hcomp,hruns,hcommits⟩ := ha
    refine ⟨fun hc => by simp [hcomp] at hc,.inr ⟨?_,rfl⟩⟩
    simp [Apart,hruns,hcommits]
  | directRaises hst e =>
    obtain ⟨ha,rfl⟩ := h.apart (by simp [Submitted,hst])
    simp only [Apart,hst] at ha
    obtain ⟨hcomp,hruns,hcommits⟩ := ha
    exact ⟨fun hc => by simp [hcomp] at hc,.inr ⟨⟨hruns,hcommits,hcomp⟩,rfl⟩⟩
  | expire hst =>
    obtain ⟨hs,ho⟩ := h.waits (.inl hst)
    simp only [Submitted,hst] at hs
    exact ⟨h.place.restage _,.inl ⟨hs,ho⟩⟩
  | cancel hst hw => exact h.cancel (h.waits (.inr (.inl hst))).1 hw
  | commit hst hw =>
    obtain ⟨hs,ho⟩ := h.waits (.inr (.inl hst))
    simp only [Submitted,hst] at hs
    exact ⟨h.place.restage _,.inl ⟨⟨hs,hw⟩,ho⟩⟩
  | finish hst hc =>
    have hout := h.out hc
    have hs := (h.waits (by tauto)).1
    have hn : c.state≠.cancelled := by
      obtain hst | hst := hst <;> simp only [Submitted,hst] at hs
      · exact hs
      · exact hs.1
    subst hout
    obtain ⟨hserved,hd⟩ := h.place hc
    exact ⟨h.place.restage _,.inr ⟨hserved.outcome hd hn hc,rfl⟩⟩

end XiaoQing.Plugins.Coordinator
