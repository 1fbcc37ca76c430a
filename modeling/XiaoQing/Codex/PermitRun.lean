import Mathlib.Logic.Relation
import XiaoQing.Codex.Permits

namespace XiaoQing.Codex.Permits

open Framework Inbound AcquireCall

section

variable {κ : Type*}

def Stage.owns : Stage κ → Bool
  | .confirming .. => true
  | .checking _ => true
  | .running _ => true
  | .settling slotAcquired => slotAcquired
  | _ => false

def Stage.waits : Stage κ → Bool
  | .waiting => true
  | _ => false

def Stage.idle (s : Stage κ) : Bool := !s.owns && !s.waits

def Stage.runs : Stage κ → Bool
  | .running _ => true
  | _ => false

def Seen (m : Manager κ) (s : Stage κ) : Prop :=
  ∀r,s=.checking (some r) → ∃current,m.settingsRevision=some current∧r ≤ current

/-- What the steps other than the start of a process are made of. -/
inductive Quiet [DecidableEq κ] (m : Manager κ) : Manager κ → Prop
  | lifecycle (shuttingDown : Bool) (tombstones : List String) (running : String → Option Nat) :
    Quiet m {m with
      shuttingDown := shuttingDown
      tombstones := tombstones
      running := running}
  | policy {changed : Bool} {t : Manager κ} (config : PluginConfig κ) (revision : Option Nat)
    (outcome : CwdOutcome) : m.reconfigure config revision outcome=.ok (changed,t) → Quiet m t
  | resume {sem : AdjustableSemaphore} (c : Nat) : m.globalSem.resume c=some sem →
    Quiet m {m with globalSem := sem}
  | enter {y : Execution κ} : y.stage.idle=true → y.call=none → y.acquired=y.released →
    Quiet m ({m with next := m.next+1}.put m.next y)
  | mark {i : Nat} {x : Execution κ} (asked : Bool) : m.executions i=some x →
    Quiet m (m.put i {x with cancelRequested := asked})
  | rest {i : Nat} {x y : Execution κ} : m.executions i=some x → x.stage.idle=true →
    y.stage.idle=true → (y.call=x.call∨y.call=none) → y.acquired=x.acquired → y.released=x.released →
    Quiet m (m.put i y)
  | call {i : Nat} {x : Execution κ} : m.executions i=some x → x.stage=.calling →
    Quiet m ({m with globalSem := m.globalSem.acquire}.put i
      {x with call := some m.globalSem.next,stage := .waiting})
  | withdraw {i c : Nat} {x : Execution κ} {sem : AdjustableSemaphore} {stage : Stage κ} :
    m.executions i=some x → x.stage=.waiting → x.call=some c → m.globalSem.cancel c=some sem →
    stage.idle=true → Quiet m ({m with globalSem := sem}.put i {x with stage := stage})
  | take {i c : Nat} {x : Execution κ} {stage : Stage κ} :
    m.executions i=some x → x.stage=.waiting → x.call=some c → m.globalSem.calls c=some .holding →
    stage.owns=true → stage.runs=false → Seen m stage →
    Quiet m (m.put i {x with acquired := x.acquired+1,stage := stage})
  | keep {i : Nat} {x : Execution κ} (asked : Bool) {stage : Stage κ} :
    m.executions i=some x → x.stage.owns=true → stage.owns=true → stage.runs=false → Seen m stage →
    Quiet m (m.put i {x with cancelRequested := asked,stage := stage})
  | release {i : Nat} {x : Execution κ} (asked : Bool) {stage : Stage κ} :
    m.executions i=some x → x.stage.owns=true → stage.idle=true →
    Quiet m ((m.release x).put i {x.gaveBack with cancelRequested := asked,stage := stage})

structure Starts (m t : Manager κ) (i : Nat) (x : Execution κ) (seen : Option Nat) (cwd : String) :
    Prop where
  known : m.executions i=some x
  checked : x.stage=.checking seen
  within : m.globalSem.overCapacity=false
  allowed : m.mayStart i x=true
  result : t=m.put i {x with stage := .running ⟨m.config,m.runner,cwd⟩}

structure Fits (s : AdjustableSemaphore) (x : Execution κ) : Prop where
  counted : x.acquired=x.released+x.stage.owns.toNat
  made : ∀c,x.call=some c → c < s.next
  holds : x.stage.owns=true → ∃c,x.call=some c∧isHolder (s.calls c)=true
  waits : x.stage.waits=true → ∃c,x.call=some c∧live (s.calls c)=true
  idle : x.stage.idle=true → ∀c,x.call=some c → live (s.calls c)=false

structure Inv (m : Manager κ) : Prop where
  sound : Sound m.globalSem
  numbered : ∀i,m.executions i≠none → i < m.next
  fits : ∀i x,m.executions i=some x → Fits m.globalSem x
  distinct : ∀i j x y c,m.executions i=some x → m.executions j=some y → x.call=some c →
    y.call=some c → i=j
  owned : ∀c,live (m.globalSem.calls c)=true → ∃i x,m.executions i=some x∧x.call=some c

end

section

variable {κ : Type*} {m t : Manager κ} {i : Nat} {x y : Execution κ} {s sem : AdjustableSemaphore}
  {stage : Stage κ}

theorem put_self : (m.put i y).executions i=some y := Function.update_self _ _ _

theorem put_other {j : Nat} (hji : j≠i) : (m.put i y).executions j=m.executions j :=
  Function.update_of_ne hji _ _

theorem put_put : (m.put i x).put i y=m.put i y := by
  simp only [Manager.put,Function.update_idem]

theorem isHolder_iff {call : Option AcquireCall} : isHolder call=true↔call=some .holding := by
  constructor
  · intro hheld
    cases call with
    | none => cases hheld
    | some a =>
      cases a with
      | waiting w d => cases hheld
      | holding => rfl
      | ended => cases hheld
  · rintro rfl
    rfl

theorem Fits.alike (h : Fits s x) (hnext : s.next ≤ sem.next)
    (halike : ∀c,x.call=some c → Alike s sem c) : Fits sem x where
  counted := h.counted
  made c hc := Nat.lt_of_lt_of_le (h.made c hc) hnext
  holds hs := by
    obtain ⟨c,hc,hheld⟩ := h.holds hs
    exact ⟨c,hc,(halike c hc).holder hheld⟩
  waits hs := by
    obtain ⟨c,hc,hlive⟩ := h.waits hs
    exact ⟨c,hc,(halike c hc).live.trans hlive⟩
  idle hs c hc := (halike c hc).live.trans (h.idle hs c hc)

theorem Inv.move (h : Inv m) (hx : m.executions i=some x) (hsound : Sound sem)
    (hnext : m.globalSem.next ≤ sem.next) (hy : Fits sem y)
    (hothers : ∀c,x.call≠some c → c < m.globalSem.next → Alike m.globalSem sem c)
    (hcall : ∀c,y.call=some c → x.call=some c∨m.globalSem.next ≤ c)
    (hleft : ∀c,x.call=some c → y.call≠some c → live (sem.calls c)=false)
    (hnew : ∀c,m.globalSem.next ≤ c → live (sem.calls c)=true → y.call=some c) :
    Inv ({m with globalSem := sem}.put i y) where
  sound := hsound
  numbered j hj := by
    by_cases hji : j=i
    · rw [hji]
      exact h.numbered i (by rw [hx]; exact Option.some_ne_none _)
    · rw [put_other hji] at hj
      exact h.numbered j hj
  fits j z hz := by
    by_cases hji : j=i
    · subst j
      rw [put_self,Option.some.injEq] at hz
      subst z
      exact hy
    · rw [put_other hji] at hz
      refine (h.fits j z hz).alike hnext fun c hc => hothers c ?_ ((h.fits j z hz).made c hc)
      intro hxc
      exact hji (h.distinct j i z x c hz hx hc hxc)
  distinct j k z w c hz hw hzc hwc := by
    -- a call of y is the one of x, or a new one
    have hapart : ∀j z,j≠i → m.executions j=some z → z.call=some c → y.call≠some c := by
      intro j z hji hz hzc hyc
      rcases hcall c hyc with hxc | hfresh
      · exact hji (h.distinct j i z x c hz hx hzc hxc)
      · exact absurd ((h.fits j z hz).made c hzc) (Nat.not_lt.mpr hfresh)
    by_cases hji : j=i
    · by_cases hki : k=i
      · rw [hji,hki]
      · rw [put_other hki] at hw
        rw [hji,put_self,Option.some.injEq] at hz
        exact absurd (hz ▸ hzc) (hapart k w hki hw hwc)
    · rw [put_other hji] at hz
      by_cases hki : k=i
      · rw [hki,put_self,Option.some.injEq] at hw
        exact absurd (hw ▸ hwc) (hapart j z hji hz hzc)
      · rw [put_other hki] at hw
        exact h.distinct j k z w c hz hw hzc hwc
  owned c hc := by
    by_cases hyc : y.call=some c
    · exact ⟨i,y,put_self,hyc⟩
    · by_cases hxc : x.call=some c
      · have hdead := hleft c hxc hyc
        have hlive : live (sem.calls c)=true := hc
        rw [hlive] at hdead
        cases hdead
      · have hold : c < m.globalSem.next := by
          by_contra hnot
          exact hyc (hnew c (Nat.le_of_not_lt hnot) hc)
        obtain ⟨j,z,hz,hzc⟩ := h.owned c ((hothers c hxc hold).live ▸ hc)
        have hji : j≠i := by
          rintro rfl
          rw [hx,Option.some.injEq] at hz
          exact hxc (hz ▸ hzc)
        exact ⟨j,z,by rw [put_other hji]; exact hz,hzc⟩

theorem Inv.around (h : Inv m) (hsound : Sound sem) (hnext : sem.next=m.globalSem.next)
    (halike : ∀c,Alike m.globalSem sem c) : Inv {m with globalSem := sem} where
  sound := hsound
  numbered := h.numbered
  fits j z hz := (h.fits j z hz).alike (Nat.le_of_eq hnext.symm) fun c _ => halike c
  distinct := h.distinct
  owned c hc := h.owned c ((halike c).live ▸ hc)

variable {c : Nat}

theorem Inv.unmade (h : Inv m) (hc : m.globalSem.next ≤ c) :
    live (m.globalSem.calls c)=false := by
  cases hcall : m.globalSem.calls c with
  | none => rfl
  | some a =>
    have hlt := h.sound.books.made c (by rw [hcall]; exact Option.some_ne_none _)
    omega

theorem Inv.still (h : Inv m) (hx : m.executions i=some x) (hy : Fits m.globalSem y)
    (hcall : y.call=x.call∨y.call=none∧x.stage.idle=true) : Inv (m.put i y) := by
  refine h.move hx h.sound (Nat.le_refl _) hy (fun c _ _ => .of_calls rfl) ?_ ?_ ?_
  · intro c hc
    rcases hcall with hsame | ⟨hnone,-⟩
    · exact .inl (hsame ▸ hc)
    · rw [hnone] at hc
      cases hc
  · intro c hc hyc
    rcases hcall with hsame | ⟨-,hidle⟩
    · exact absurd (hsame ▸ hc) hyc
    · exact (h.fits i x hx).idle hidle c hc
  · intro c hc hlive
    rw [h.unmade hc] at hlive
    cases hlive

theorem idle_owns (h : stage.idle=true) : stage.owns=false := by
  cases howns : stage.owns with
  | false => rfl
  | true =>
    rw [Stage.idle,howns] at h
    cases h

theorem idle_waits (h : stage.idle=true) : stage.waits=false := by
  cases hwaits : stage.waits with
  | false => rfl
  | true =>
    rw [Stage.idle,hwaits,Bool.not_true,Bool.and_false] at h
    cases h

theorem owns_waits (h : stage.owns=true) : stage.waits=false := by
  cases stage with
  | waiting => cases h
  | refreshing => rfl
  | calling => rfl
  | abandoning => rfl
  | confirming => rfl
  | checking => rfl
  | running => rfl
  | settling => rfl
  | ended => rfl

theorem owns_idle (h : stage.owns=true) : stage.idle=false := by
  rw [Stage.idle,h]
  rfl

theorem idle_runs (h : stage.idle=true) : stage.runs=false := by
  cases stage with
  | running start => cases h
  | refreshing => rfl
  | calling => rfl
  | waiting => rfl
  | abandoning => rfl
  | confirming => rfl
  | checking => rfl
  | settling => rfl
  | ended => rfl

theorem Fits.even (h : Fits s x) (hidle : x.stage.idle=true) : x.acquired=x.released := by
  have hcount := h.counted
  rw [idle_owns hidle] at hcount
  exact hcount

theorem fits_idle (hidle : y.stage.idle=true) (heven : y.acquired=y.released)
    (hmade : ∀c,y.call=some c → c < s.next) (hdead : ∀c,y.call=some c → live (s.calls c)=false) :
    Fits s y where
  counted := by
    rw [idle_owns hidle]
    exact heven
  made := hmade
  holds hs := by
    rw [idle_owns hidle] at hs
    cases hs
  waits hs := by
    rw [idle_waits hidle] at hs
    cases hs
  idle _ := hdead

theorem fits_owner (howns : y.stage.owns=true) (hcount : y.acquired=y.released+1)
    (hc : y.call=some c) (hlt : c < s.next) (hheld : isHolder (s.calls c)=true) : Fits s y where
  counted := by
    rw [howns]
    exact hcount
  made d hd := by
    rw [hc,Option.some.injEq] at hd
    exact hd ▸ hlt
  holds _ := ⟨c,hc,hheld⟩
  waits hs := by
    rw [owns_waits howns] at hs
    cases hs
  idle hs := by
    rw [owns_idle howns] at hs
    cases hs

theorem Inv.enter (h : Inv m) (hidle : y.stage.idle=true) (hcall : y.call=none)
    (heven : y.acquired=y.released) : Inv ({m with next := m.next+1}.put m.next y) := by
  have hfresh : m.executions m.next=none := by
    by_contra hne
    exact absurd (h.numbered m.next hne) (Nat.lt_irrefl _)
  have hfits : Fits m.globalSem y := by
    apply fits_idle hidle heven
    · intro c hc
      rw [hcall] at hc
      cases hc
    · intro c hc
      rw [hcall] at hc
      cases hc
  refine ⟨h.sound,fun j hj => ?_,fun j z hz => ?_,fun j k z w c hz hw hzc hwc => ?_,fun c hc => ?_⟩
  · by_cases hjn : j=m.next
    · rw [hjn]
      exact Nat.lt_succ_self _
    · rw [put_other hjn] at hj
      exact Nat.lt_succ_of_lt (h.numbered j hj)
  · by_cases hjn : j=m.next
    · rw [hjn,put_self,Option.some.injEq] at hz
      exact hz ▸ hfits
    · rw [put_other hjn] at hz
      exact h.fits j z hz
  · have hold : ∀j z,({m with next := m.next+1}.put m.next y).executions j=some z → z.call=some c →
        m.executions j=some z := by
      intro j z hz hzc
      by_cases hjn : j=m.next
      · rw [hjn,put_self,Option.some.injEq] at hz
        rw [← hz,hcall] at hzc
        cases hzc
      · rw [put_other hjn] at hz
        exact hz
    exact h.distinct j k z w c (hold j z hz hzc) (hold k w hw hwc) hzc hwc
  · obtain ⟨j,z,hz,hzc⟩ := h.owned c hc
    have hjn : j≠m.next := by
      rintro rfl
      rw [hfresh] at hz
      cases hz
    exact ⟨j,z,by rw [put_other hjn]; exact hz,hzc⟩

theorem Inv.call (h : Inv m) (hx : m.executions i=some x) (hstage : x.stage=.calling) :
    Inv ({m with globalSem := m.globalSem.acquire}.put i
      {x with call := some m.globalSem.next,stage := .waiting}) := by
  have hidle : x.stage.idle=true := by rw [hstage]; rfl
  have hnext : m.globalSem.acquire.next=m.globalSem.next+1 := acquire_next _
  have hfits : Fits m.globalSem.acquire
      ({x with call := some m.globalSem.next,stage := .waiting} : Execution κ) := by
    refine ⟨(h.fits i x hx).even hidle,fun c hc => ?_,nofun,fun _ => ⟨_,rfl,acquire_live _⟩,nofun⟩
    rw [Option.some.injEq] at hc
    omega
  refine h.move hx h.sound.acquire.1 (by omega) hfits ?_ ?_ ?_ ?_
  · intro c _ hlt
    exact acquire_alike _ (Nat.ne_of_lt hlt)
  · intro c hc
    rw [Option.some.injEq] at hc
    exact .inr (Nat.le_of_eq hc)
  · intro c hc _
    have hlt := (h.fits i x hx).made c hc
    rw [(acquire_alike _ (Nat.ne_of_lt hlt)).live]
    exact (h.fits i x hx).idle hidle c hc
  · intro c hle hlive
    by_contra hne
    have hlt : m.globalSem.acquire.next ≤ c := by
      have : m.globalSem.next≠c := fun he => hne (congrArg some he)
      omega
    cases hcall : m.globalSem.acquire.calls c with
    | none =>
      rw [hcall] at hlive
      cases hlive
    | some a =>
      have hmade := h.sound.acquire.1.books.made c (by rw [hcall]; exact Option.some_ne_none _)
      omega

theorem Inv.kill (h : Inv m) (hx : m.executions i=some x) (hc : x.call=some c)
    (hsound : Sound sem) (hnext : sem.next=m.globalSem.next) (hdead : live (sem.calls c)=false)
    (halike : ∀d,d≠c → Alike m.globalSem sem d) (hcall : y.call=x.call) (hidle : y.stage.idle=true)
    (heven : y.acquired=y.released) : Inv ({m with globalSem := sem}.put i y) := by
  have honly : ∀d,y.call=some d → d=c := by
    intro d hd
    rw [hcall,hc,Option.some.injEq] at hd
    exact hd.symm
  have hlt : c < sem.next := hnext ▸ (h.fits i x hx).made c hc
  have hfits : Fits sem y := by
    apply fits_idle hidle heven
    · intro d hd
      rw [honly d hd]
      exact hlt
    · intro d hd
      rw [honly d hd]
      exact hdead
  refine h.move hx hsound (Nat.le_of_eq hnext.symm) hfits ?_ ?_ ?_ ?_
  · intro d hd _
    apply halike
    rintro rfl
    exact hd hc
  · intro d hd
    exact .inl (hcall ▸ hd)
  · intro d hd hyd
    exact absurd (hcall ▸ hd) hyd
  · intro d hle hlive
    have hdc : d≠c := by
      rintro rfl
      omega
    rw [(halike d hdc).live,h.unmade hle] at hlive
    cases hlive

theorem Inv.holding (h : Inv m) (hx : m.executions i=some x) (howns : x.stage.owns=true) :
    ∃c,x.call=some c∧m.globalSem.calls c=some .holding := by
  obtain ⟨c,hc,hheld⟩ := (h.fits i x hx).holds howns
  exact ⟨c,hc,isHolder_iff.mp hheld⟩

theorem Inv.release (h : Inv m) (hx : m.executions i=some x) (howns : x.stage.owns=true)
    (hcall : y.call=x.call) (hidle : y.stage.idle=true) (hacquired : y.acquired=x.acquired)
    (hreleased : y.released=x.released+1) : Inv ((m.release x).put i y) := by
  obtain ⟨c,hc,hheld⟩ := h.holding hx howns
  have hstep := release_sound h.sound (release_giveBack hheld)
  have hdead := giveBack_dead m.globalSem c
  have hcount := (h.fits i x hx).counted
  rw [howns,Bool.toNat_true] at hcount
  unfold Manager.release
  rw [hc]
  exact h.kill hx hc hstep.1 (giveBack_next _ _) hdead.1 hdead.2 hcall hidle (by omega)

variable {changed : Bool}

variable {revision : Option Nat}

variable {config : PluginConfig κ}

variable {outcome : CwdOutcome}

theorem Inv.reconfigured [DecidableEq κ] (h : Inv m)
    (ht : m.reconfigure config revision outcome=.ok (changed,t)) : Inv t := by
  unfold Manager.reconfigure at ht
  split at ht
  · cases ht
  split at ht
  · cases ht
    exact h
  split at ht
  · cases ht
  dsimp only at ht
  split at ht
  · cases ht
    exact ⟨h.sound,h.numbered,h.fits,h.distinct,h.owned⟩
  · cases outcome with
    | refused => cases ht
    | failed => cases ht
    | path cwd =>
      cases ht
      have hresized := h.around (resize_sound h.sound config.maxParallelJobs.1).1 (resize_next _ _)
        (resize_alike _ _)
      exact ⟨hresized.sound,hresized.numbered,hresized.fits,hresized.distinct,hresized.owned⟩

theorem Quiet.inv [DecidableEq κ] (hq : Quiet m t) (h : Inv m) : Inv t := by
  cases hq with
  | lifecycle => exact ⟨h.sound,h.numbered,h.fits,h.distinct,h.owned⟩
  | policy config revision outcome ht => exact h.reconfigured ht
  | resume c hs =>
    obtain ⟨hnext,-,halike⟩ := resume_alike hs
    exact h.around (resume_sound h.sound hs).1 hnext halike
  | enter hidle hcall heven => exact h.enter hidle hcall heven
  | mark asked hx =>
    have hfits := h.fits _ _ hx
    exact h.still hx ⟨hfits.counted,hfits.made,hfits.holds,hfits.waits,hfits.idle⟩ (.inl rfl)
  | rest hx hidle hnow hcall hacquired hreleased =>
    rename_i i x y
    have hfits := h.fits _ _ hx
    have heven : y.acquired=y.released := by rw [hacquired,hreleased,hfits.even hidle]
    have hsame : ∀c,y.call=some c → x.call=some c := by
      intro c hc
      rcases hcall with hsame | hnone
      · exact hsame ▸ hc
      · rw [hnone] at hc
        cases hc
    refine h.still hx (fits_idle hnow heven (fun c hc => hfits.made c (hsame c hc))
      fun c hc => hfits.idle hidle c (hsame c hc)) ?_
    exact hcall.imp id fun hnone => ⟨hnone,hidle⟩
  | call hx hstage => exact h.call hx hstage
  | withdraw hx hstage hc hs hidle =>
    have hfits := h.fits _ _ hx
    have heven := hfits.counted
    rw [hstage] at heven
    obtain ⟨hdead,hnext,-,halike⟩ := cancel_dead hs
    exact h.kill hx hc (cancel_sound h.sound hs).1 hnext hdead halike rfl hidle heven
  | take hx hstage hc hheld howns hruns hseen =>
    have hfits := h.fits _ _ hx
    have heven := hfits.counted
    rw [hstage] at heven
    have hone : isHolder (m.globalSem.calls _)=true := isHolder_iff.mpr hheld
    exact h.still hx (fits_owner howns (by rw [heven]; rfl) hc (hfits.made _ hc) hone) (.inl rfl)
  | keep asked hx hbefore howns hruns hseen =>
    have hfits := h.fits _ _ hx
    obtain ⟨c,hc,hheld⟩ := hfits.holds hbefore
    have hcount := hfits.counted
    rw [hbefore,Bool.toNat_true] at hcount
    exact h.still hx (fits_owner howns hcount hc (hfits.made c hc) hheld) (.inl rfl)
  | release asked hx howns hidle => exact h.release hx howns rfl hidle rfl rfl

variable {seen : Option Nat}

theorem Starts.inv {cwd : String} (hs : Starts m t i x seen cwd) (h : Inv m) :
    Inv t := by
  have howns : x.stage.owns=true := by rw [hs.checked]; rfl
  have hfits := h.fits i x hs.known
  obtain ⟨c,hc,hheld⟩ := hfits.holds howns
  have hcount := hfits.counted
  rw [howns,Bool.toNat_true] at hcount
  rw [hs.result]
  exact h.still hs.known (fits_owner rfl hcount hc (hfits.made c hc) hheld) (.inl rfl)

theorem reconfigure_executions [DecidableEq κ]
    (ht : m.reconfigure config revision outcome=.ok (changed,t)) : t.executions=m.executions := by
  unfold Manager.reconfigure at ht
  split at ht
  · cases ht
  split at ht
  · cases ht
    rfl
  split at ht
  · cases ht
  dsimp only at ht
  split at ht
  · cases ht
    rfl
  · cases outcome with
    | refused => cases ht
    | failed => cases ht
    | path cwd =>
      cases ht
      rfl

theorem reconfigure_revision [DecidableEq κ]
    (ht : m.reconfigure config revision outcome=.ok (changed,t)) :
    (∀r,m.settingsRevision=some r → ∃current,t.settingsRevision=some current∧r ≤ current)∧
      ∀r,revision=some r → ∃current,t.settingsRevision=some current∧r ≤ current := by
  unfold Manager.reconfigure at ht
  split at ht
  · cases ht
  split at ht
  · -- the settings are older than those in force
    rename_i hstale
    cases ht
    refine ⟨fun r hr => ⟨r,hr,Nat.le_refl _⟩,fun r hr => ?_⟩
    rw [hr,Option.any_some] at hstale
    cases hcurrent : m.settingsRevision with
    | none =>
      rw [hcurrent] at hstale
      cases hstale
    | some current =>
      rw [hcurrent,Option.any_some,decide_eq_true_eq] at hstale
      exact ⟨current,rfl,Nat.le_of_lt hstale⟩
  split at ht
  · cases ht
  rename_i hfresh _
  have hrevision : t.settingsRevision=revision.or m.settingsRevision := by
    dsimp only at ht
    split at ht
    · cases ht
      rfl
    · cases outcome with
      | refused => cases ht
      | failed => cases ht
      | path cwd =>
        cases ht
        rfl
  rw [hrevision]
  cases revision with
  | none => exact ⟨fun r hr => ⟨r,hr,Nat.le_refl _⟩,nofun⟩
  | some r =>
    refine ⟨fun old hold => ⟨r,rfl,?_⟩,fun new hnew => ⟨r,rfl,?_⟩⟩
    · rw [hold,Option.any_some,Option.any_some,decide_eq_true_eq] at hfresh
      exact Nat.le_of_not_lt hfresh
    · rw [Option.some.injEq] at hnew
      exact Nat.le_of_eq hnew.symm

theorem execute_idle {p : Prepared κ} (hp : p=.result false∨∃cancelled,p=.raised cancelled)
    (m : Manager κ) (i : Nat) (x : Execution κ) : ∃asked,∃stage : Stage κ,stage.idle=true∧
      m.execute i x p=m.put i {x with cancelRequested := asked,stage := stage} := by
  rcases hp with rfl | ⟨cancelled,rfl⟩
  · exact ⟨x.cancelRequested,.ended,rfl,rfl⟩
  · cases cancelled with
    | false => exact ⟨x.cancelRequested,.ended,rfl,rfl⟩
    | true => exact ⟨true,.settling false,rfl,rfl⟩

theorem request_idle (m : Manager κ) (i : Nat) (x : Execution κ) : ∃asked,∃stage : Stage κ,
    stage.idle=true∧m.request i x=m.put i {x with cancelRequested := asked,stage := stage} := by
  unfold Manager.request
  split
  · exact execute_idle (.inl rfl) m i x
  · exact ⟨x.cancelRequested,.calling,rfl,rfl⟩

section

variable [DecidableEq κ]

theorem rest_quiet (hx : m.executions i=some x) (hidle : x.stage.idle=true)
    (ht : ∃asked,∃stage : Stage κ,stage.idle=true∧
      t=m.put i {x with cancelRequested := asked,stage := stage}) : Quiet m t := by
  obtain ⟨asked,stage,hnow,rfl⟩ := ht
  exact .rest hx hidle hnow (.inl rfl) rfl rfl

theorem release_quiet (hx : m.executions i=some x) (howns : x.stage.owns=true)
    (ht : ∃asked,∃stage : Stage κ,stage.idle=true∧
      t=(m.release x).put i {x.gaveBack with cancelRequested := asked,stage := stage}) :
    Quiet m t := by
  obtain ⟨asked,stage,hnow,rfl⟩ := ht
  exact .release asked hx howns hnow

theorem return_quiet (hx : m.executions i=some x) (hstage : x.stage=.waiting)
    (hc : x.call=some c) (hheld : m.globalSem.calls c=some .holding)
    (ht : ∃asked,∃stage : Stage κ,stage.idle=true∧
      t=(m.release x).put i {x with
        cancelRequested := asked
        acquired := x.acquired+1
        released := x.released+1
        stage := stage}) : Relation.ReflTransGen Quiet m t := by
  obtain ⟨asked,stage,hnow,rfl⟩ := ht
  have htaken : Quiet m (m.put i {x with acquired := x.acquired+1,stage := .checking none}) :=
    .take hx hstage hc hheld rfl rfl nofun
  have hback := Quiet.release asked (put_self (m:=m) (i:=i)
    (y:={x with acquired := x.acquired+1,stage := .checking none})) rfl hnow
  refine Relation.ReflTransGen.tail (.single htaken) ?_
  convert hback using 1
  exact put_put.symm

theorem grant_quiet (snapshot : Snapshot κ) (hx : m.executions i=some x)
    (hstage : x.stage=.waiting) (hc : x.call=some c) (hheld : m.globalSem.calls c=some .holding) :
    Relation.ReflTransGen Quiet m (m.grant i x snapshot) := by
  unfold Manager.grant
  dsimp only
  split
  · exact return_quiet hx hstage hc hheld (execute_idle (.inl rfl) _ i _)
  · cases snapshot with
    | absent => exact .single (.take hx hstage hc hheld rfl rfl nofun)
    | unreadable => exact return_quiet hx hstage hc hheld (execute_idle (.inr ⟨false,rfl⟩) _ i _)
    | generation config revision => exact .single (.take hx hstage hc hheld rfl rfl nofun)

theorem refreshed_quiet (hx : m.executions i=some x)
    (ht : m.refreshed i x outcome=some t) : Relation.ReflTransGen Quiet m t := by
  unfold Manager.refreshed at ht
  split at ht
  · rename_i config revision hstage
    have hidle : x.stage.idle=true := by rw [hstage]; rfl
    split at ht
    · rename_i changed u hu
      cases ht
      have hxu : u.executions i=some x := by rw [reconfigure_executions hu]; exact hx
      exact .tail (.single (.policy config _ outcome hu)) (rest_quiet hxu hidle (request_idle u i x))
    · cases ht
      exact .single (rest_quiet hx hidle (execute_idle (.inr ⟨false,rfl⟩) m i x))
  · rename_i config revision hstage
    have howns : x.stage.owns=true := by rw [hstage]; rfl
    split at ht
    · rename_i changed u hu
      cases ht
      have hxu : u.executions i=some x := by rw [reconfigure_executions hu]; exact hx
      have hseen : Seen u (.checking (some revision)) := by
        intro r hr
        cases hr
        exact (reconfigure_revision hu).2 revision rfl
      exact .tail (.single (.policy config _ outcome hu))
        (.keep x.cancelRequested hxu howns rfl rfl hseen)
    · cases ht
      exact .single (release_quiet hx howns ⟨x.cancelRequested,.ended,rfl,rfl⟩)
    · cases ht
      exact .single (release_quiet hx howns (execute_idle (.inr ⟨false,rfl⟩) _ i _))
  · cases ht

theorem check_effects (outcome : CwdOutcome) (hx : m.executions i=some x)
    (hstage : x.stage=.checking seen) : Quiet m (m.check i x outcome)∨
      ∃cwd,Starts m (m.check i x outcome) i x seen cwd := by
  have howns : x.stage.owns=true := by rw [hstage]; rfl
  unfold Manager.check
  split
  · exact .inl (release_quiet hx howns (request_idle _ i _))
  · rename_i hwithin
    split
    · rename_i hallowed
      cases outcome with
      | path cwd => exact .inr ⟨cwd,hx,hstage,Bool.not_eq_true _ ▸ hwithin,hallowed,rfl⟩
      | refused => exact .inl (release_quiet hx howns ⟨x.cancelRequested,.ended,rfl,rfl⟩)
      | failed => exact .inl (release_quiet hx howns (execute_idle (.inr ⟨false,rfl⟩) _ i _))
    · exact .inl (release_quiet hx howns ⟨true,.ended,rfl,rfl⟩)

theorem withdraw_quiet {cancelled : Bool} (hx : m.executions i=some x)
    (ht : m.withdraw i x cancelled=some t) : Quiet m t := by
  unfold Manager.withdraw at ht
  split at ht
  · rename_i hstage
    cases ht
    exact .rest hx (by rw [hstage]; rfl) rfl (.inr rfl) rfl rfl
  · rename_i c hstage hc
    obtain ⟨sem,hs,rfl⟩ := Option.map_eq_some_iff.mp ht
    exact .withdraw hx hstage hc hs rfl
  · cases ht

theorem finish_quiet {slotAcquired : Bool} (hx : m.executions i=some x)
    (hstage : x.stage=.settling slotAcquired) : Quiet m (m.finish i x slotAcquired) := by
  cases slotAcquired with
  | false => exact rest_quiet hx (by rw [hstage]; rfl) ⟨x.cancelRequested,.ended,rfl,rfl⟩
  | true => exact release_quiet hx (by rw [hstage]; rfl) ⟨x.cancelRequested,.ended,rfl,rfl⟩

theorem cancelled_quiet (hx : m.executions i=some x) (ht : m.cancelled i x=some t) : Quiet m t := by
  unfold Manager.cancelled at ht
  split at ht
  · rename_i hstage
    cases ht
    exact rest_quiet hx (by rw [hstage]; rfl) (execute_idle (.inr ⟨true,rfl⟩) m i x)
  · exact withdraw_quiet hx ht
  · exact withdraw_quiet hx ht
  · rename_i hstage
    cases ht
    exact rest_quiet hx (by rw [hstage]; rfl) (execute_idle (.inr ⟨true,rfl⟩) m i x)
  · rename_i hstage
    cases ht
    exact release_quiet hx (by rw [hstage]; rfl) (execute_idle (.inr ⟨true,rfl⟩) _ i _)
  · rename_i hstage
    cases ht
    exact release_quiet hx (by rw [hstage]; rfl) (execute_idle (.inr ⟨true,rfl⟩) _ i _)
  · rename_i start hstage
    cases ht
    exact .keep true hx (by rw [hstage]; rfl) rfl rfl nofun
  · rename_i slotAcquired hstage
    cases ht
    exact finish_quiet hx hstage
  · cases ht

theorem advance_effects {a : Act κ} (hx : m.executions i=some x) (ht : m.advance i x a=some t) :
    Relation.ReflTransGen Quiet m t∨∃seen cwd,Starts m t i x seen cwd := by
  unfold Manager.advance at ht
  split at ht
  · exact .inl (refreshed_quiet hx ht)
  · split at ht
    · rename_i hstage
      cases ht
      exact .inl (.single (.call hx hstage))
    · cases ht
  · split at ht
    · rename_i hstage
      split at ht
      · rename_i hholds
        cases ht
        unfold Manager.callHolds at hholds
        split at hholds
        · rename_i c hc
          exact .inl (grant_quiet _ hx hstage hc (of_decide_eq_true hholds))
        · cases hholds
      · cases ht
    · cases ht
  · exact .inl (.single (withdraw_quiet hx ht))
  · split at ht
    · rename_i cancelled hstage
      have hidle : x.stage.idle=true := by rw [hstage]; rfl
      split at ht
      · cases ht
        split
        · exact .inl (.single (rest_quiet hx hidle (execute_idle (.inr ⟨true,rfl⟩) m i x)))
        · exact .inl (.single (rest_quiet hx hidle (request_idle m i x)))
      · cases ht
    · cases ht
  · split at ht
    · rename_i seen hstage
      cases ht
      rcases check_effects _ hx hstage with hquiet | ⟨cwd,hstarts⟩
      · exact .inl (.single hquiet)
      · exact .inr ⟨seen,cwd,hstarts⟩
    · cases ht
  · split at ht
    · rename_i start hstage
      cases ht
      exact .inl (.single (release_quiet hx (by rw [hstage]; rfl)
        ⟨x.cancelRequested,.ended,rfl,rfl⟩))
    · cases ht
  · split at ht
    · rename_i slotAcquired hstage
      cases ht
      exact .inl (.single (finish_quiet hx hstage))
    · cases ht
  · exact .inl (.single (cancelled_quiet hx ht))
  · cases ht
    exact .inl (.single (.mark true hx))
  · cases ht

theorem step_effects {a : Act κ} (ht : m.step a=some t) :
    Relation.ReflTransGen Quiet m t∨∃i x seen cwd,Starts m t i x seen cwd := by
  unfold Manager.step at ht
  split at ht
  · rename_i label snapshot
    cases ht
    refine .inl (.single ?_)
    cases snapshot with
    | absent => exact .enter (y:=⟨label,false,none,0,0,.calling⟩) rfl rfl rfl
    | unreadable => exact .enter (y:=⟨label,false,none,0,0,.ended⟩) rfl rfl rfl
    | generation config revision =>
      exact .enter (y:=⟨label,false,none,0,0,.refreshing config revision⟩) rfl rfl rfl
  · rename_i c
    obtain ⟨sem,hs,rfl⟩ := Option.map_eq_some_iff.mp ht
    exact .inl (.single (.resume c hs))
  · rename_i config revision outcome
    split at ht
    · rename_i changed u hu
      cases ht
      exact .inl (.single (.policy config revision outcome hu))
    · cases ht
      exact .inl .refl
  · cases ht
    exact .inl (.single (.lifecycle _ _ _))
  · obtain ⟨i,-,hrest⟩ := Option.bind_eq_some_iff.mp ht
    obtain ⟨x,hx,hadvance⟩ := Option.bind_eq_some_iff.mp hrest
    rcases advance_effects hx hadvance with hquiet | ⟨seen,cwd,hstarts⟩
    · exact .inl hquiet
    · exact .inr ⟨i,x,seen,cwd,hstarts⟩

end

theorem seen_idle (h : stage.idle=true) : Seen m stage := by
  rintro r rfl
  cases h

structure Coherent (m : Manager κ) : Prop where
  runner : m.runner=.of m.ownsRunner m.config
  capacity : m.globalSem.capacity=m.config.maxParallelJobs
  seen : ∀i x,m.executions i=some x → Seen m x.stage

theorem Coherent.put (h : Coherent m) (hcapacity : sem.capacity=m.globalSem.capacity) (i : Nat)
    (hy : Seen m y.stage) : Coherent ({m with globalSem := sem}.put i y) where
  runner := h.runner
  capacity := hcapacity.trans h.capacity
  seen j z hz := by
    by_cases hji : j=i
    · rw [hji,put_self,Option.some.injEq] at hz
      exact hz ▸ hy
    · rw [put_other hji] at hz
      exact h.seen j z hz

theorem Coherent.reconfigured [DecidableEq κ] (h : Coherent m)
    (ht : m.reconfigure config revision outcome=.ok (changed,t)) : Coherent t := by
  have hexecutions := reconfigure_executions ht
  have hrevision := (reconfigure_revision ht).1
  have hseen : ∀i x,t.executions i=some x → Seen t x.stage := by
    intro i x hx r hr
    rw [hexecutions] at hx
    obtain ⟨current,hcurrent,hle⟩ := h.seen i x hx r hr
    obtain ⟨later,hlater,hless⟩ := hrevision current hcurrent
    exact ⟨later,hlater,Nat.le_trans hle hless⟩
  refine ⟨?_,?_,hseen⟩
  all_goals
    unfold Manager.reconfigure at ht
    split at ht
    · cases ht
    split at ht
    · cases ht
      first
      | exact h.runner
      | exact h.capacity
    split at ht
    · cases ht
    dsimp only at ht
    split at ht
    · cases ht
      first
      | exact h.runner
      | exact h.capacity
  · cases outcome with
    | refused => cases ht
    | failed => cases ht
    | path cwd =>
      cases ht
      have hbefore := h.runner
      unfold CodexRunner.of at hbefore ⊢
      dsimp only
      split
      · rfl
      · rename_i hgiven
        rw [if_neg hgiven] at hbefore
        exact hbefore
  · cases outcome with
    | refused => cases ht
    | failed => cases ht
    | path cwd =>
      cases ht
      exact resize_capacity _ _

theorem Quiet.coherent [DecidableEq κ] (hq : Quiet m t) (h : Coherent m) : Coherent t := by
  cases hq with
  | lifecycle => exact ⟨h.runner,h.capacity,h.seen⟩
  | policy config revision outcome ht => exact h.reconfigured ht
  | resume c hs => exact ⟨h.runner,(resume_alike hs).2.1.trans h.capacity,h.seen⟩
  | enter hidle hcall heven =>
    have hnext : Coherent {m with next := m.next+1} := ⟨h.runner,h.capacity,h.seen⟩
    exact hnext.put rfl _ (seen_idle hidle)
  | mark asked hx =>
    rename_i i x
    exact h.put (y:={x with cancelRequested := asked}) rfl i (h.seen i x hx)
  | rest hx hidle hnow hcall hacquired hreleased => exact h.put rfl _ (seen_idle hnow)
  | call hx hstage => exact h.put (acquire_capacity _) _ nofun
  | withdraw hx hstage hc hs hidle => exact h.put (cancel_dead hs).2.2.1 _ (seen_idle hidle)
  | take hx hstage hc hheld howns hruns hseen => exact h.put rfl _ hseen
  | keep asked hx hbefore howns hruns hseen => exact h.put rfl _ hseen
  | release asked hx howns hidle => exact h.put (giveBack_capacity _ _) _ (seen_idle hidle)

theorem Quiet.runs [DecidableEq κ] (hq : Quiet m t) {start : JobStart κ} (ht : t.executions i=some y)
    (hy : y.stage=.running start) : ∃x,m.executions i=some x∧x.stage=.running start := by
  have hput : ∀(u : Manager κ) j z,u.executions=m.executions → z.stage.runs=false →
      (u.put j z).executions i=some y → ∃x,m.executions i=some x∧x.stage=.running start := by
    intro u j z hu hz hi
    by_cases hij : i=j
    · rw [hij,put_self,Option.some.injEq] at hi
      rw [hi,hy] at hz
      cases hz
    · rw [put_other hij,hu] at hi
      exact ⟨y,hi,hy⟩
  cases hq with
  | lifecycle => exact ⟨y,ht,hy⟩
  | policy config revision outcome hu => exact ⟨y,reconfigure_executions hu ▸ ht,hy⟩
  | resume c hs => exact ⟨y,ht,hy⟩
  | enter hidle hcall heven => exact hput _ _ _ rfl (idle_runs hidle) ht
  | mark asked hx =>
    rename_i j x
    by_cases hij : i=j
    · rw [hij,put_self,Option.some.injEq] at ht
      subst y
      exact ⟨x,hij ▸ hx,hy⟩
    · rw [put_other hij] at ht
      exact ⟨y,ht,hy⟩
  | rest hx hidle hnow hcall hacquired hreleased => exact hput _ _ _ rfl (idle_runs hnow) ht
  | call hx hstage => exact hput _ _ _ rfl rfl ht
  | withdraw hx hstage hc hs hidle => exact hput _ _ _ rfl (idle_runs hidle) ht
  | take hx hstage hc hheld howns hruns hseen => exact hput _ _ _ rfl hruns ht
  | keep asked hx hbefore howns hruns hseen => exact hput _ _ _ rfl hruns ht
  | release asked hx howns hidle => exact hput _ _ _ rfl (idle_runs hidle) ht

theorem Starts.coherent {cwd : String} (hs : Starts m t i x seen cwd)
    (h : Coherent m) : Coherent t := by
  rw [hs.result]
  exact h.put rfl _ nofun

theorem step_inv [DecidableEq κ] {a : Act κ} (ht : m.step a=some t) (h : Inv m∧Coherent m) :
    Inv t∧Coherent t := by
  rcases step_effects ht with hquiet | ⟨i,x,seen,cwd,hstarts⟩
  · clear ht
    induction hquiet with
    | refl => exact h
    | tail _ hlast ih => exact ⟨hlast.inv ih.1,hlast.coherent ih.2⟩
  · exact ⟨hstarts.inv h.1,hstarts.coherent h.2⟩

def Fresh (m : Manager κ) : Prop := ∃config ownsRunner revision,m=.new config ownsRunner revision

/-- Where the permits are: an execution has given back every permit it took but the one it holds, a
permit that is held is the one of just one execution, and the semaphore's own accounts are right, so
that `release` never raises. -/
structure Permitted (m : Manager κ) : Prop where
  once : ∀i x,m.executions i=some x → x.acquired=x.released+x.stage.owns.toNat
  returned : ∀i x,m.executions i=some x → x.stage=.ended → x.acquired=x.released
  held : ∀i x,m.executions i=some x → x.stage.owns=true →
    ∃c,x.call=some c∧m.globalSem.calls c=some .holding
  owner : ∀c,m.globalSem.calls c=some .holding → ∃!i,∃x,m.executions i=some x∧x.call=some c∧
    (x.stage.owns=true∨x.stage=.waiting)
  serves : Serves m.globalSem

theorem Inv.permitted (h : Inv m) : Permitted m where
  once i x hx := (h.fits i x hx).counted
  returned i x hx hended := (h.fits i x hx).even (by rw [hended]; rfl)
  held i x hx howns := h.holding hx howns
  owner c hheld := by
    have hlive : live (m.globalSem.calls c)=true := by rw [hheld]; rfl
    obtain ⟨i,x,hx,hc⟩ := h.owned c hlive
    refine ⟨i,⟨x,hx,hc,?_⟩,fun j hj => ?_⟩
    · cases howns : x.stage.owns with
      | true => exact .inl rfl
      | false =>
        refine .inr ?_
        cases hwaits : x.stage.waits with
        | true =>
          cases hstage : x.stage with
          | waiting => rfl
          | refreshing => rw [hstage] at hwaits; cases hwaits
          | calling => rw [hstage] at hwaits; cases hwaits
          | abandoning => rw [hstage] at hwaits; cases hwaits
          | confirming => rw [hstage] at hwaits; cases hwaits
          | checking => rw [hstage] at hwaits; cases hwaits
          | running => rw [hstage] at hwaits; cases hwaits
          | settling => rw [hstage] at hwaits; cases hwaits
          | ended => rw [hstage] at hwaits; cases hwaits
        | false =>
          have hidle : x.stage.idle=true := by rw [Stage.idle,howns,hwaits]; rfl
          rw [(h.fits i x hx).idle hidle c hc] at hlive
          cases hlive
    · obtain ⟨y,hy,hyc,-⟩ := hj
      exact h.distinct j i y x c hy hx hyc hc
  serves := h.sound.serves

end

end XiaoQing.Codex.Permits
