import XiaoQing.Execution.ProcessTree

namespace XiaoQing.Execution.ProcessTree

open Framework

section

variable {gbk : List UInt8 → Option Text} {s t : ProcessRun}

/-! Decoding -/

/-- The `timed_out` that the run goes on with. -/
def Stage.pending : Stage → Option Bool
  | .stopping timedOut => some timedOut
  | .draining _ timedOut => some timedOut
  | .reaping timedOut => some timedOut
  | _ => none

def Stage.outcome : Stage → Option Outcome
  | .ending out => some out
  | .closing out => some out
  | .left out => some out
  | _ => none

/-- The run is in its `try` statement, or still before it. -/
def Stage.before : Stage → Bool
  | .unspawned => false
  | g => g.outcome.isNone

/-- What a step of the run, of its readers or of the process makes of the state. -/
inductive Moves (gbk : List UInt8 → Option Text) (s : ProcessRun) : ProcessRun → Prop
  | starts (h : s.stage=.spawning) : Moves gbk s {s with started := true}
  | writes (p : Stream) (bytes : List UInt8) :
    Moves gbk s (s.setOutput p {s.outputs p with written := (s.outputs p).written++bytes})
  | reads (p : Stream) (n : Nat) (hpos : 0 < n) (hn : n≤(s.outputs p).written.length-(s.outputs p).taken) :
    Moves gbk s (s.readChunk p (((s.outputs p).written.drop (s.outputs p).taken).take n))
  | ends (p : Stream) : Moves gbk s (s.setOutput p {s.outputs p with ended := true})
  | exits (code : Int) : Moves gbk s {s with exitCode := some code}
  | seesExit (h : s.exitCode.isSome=true) : Moves gbk s {s with waitDone := true}
  | seesOverflow (h : s.overflow=true) : Moves gbk s {s with overflowDone := true}
  | kills : Moves gbk s s.killDirectly
  | stays : Moves gbk s s
  /-- On to a stage before the `finally` block, with or without a `terminate`. -/
  | goes (u : ProcessRun) (g : Stage) (hu : u=s∨u=s.terminate) (hg : g.before=true)
    (hp : g.pending=some false → s.stage.pending=some false∨s.waitDone=true∨s.overflowDone=true) :
    Moves gbk s (u.goTo g)
  | finishes (timedOut : Bool) (h : s.stage.pending=some timedOut) : Moves gbk s (s.finish gbk timedOut)
  | breaks (out : Outcome) (h : out=.cancelled∨out=.raised) : Moves gbk s (s.enterFinally out)
  | sweeps (out : Outcome) (h : s.stage=.ending out) : Moves gbk s (s.sweepPosixGroup.goTo (.closing out))
  | leaves (out : Outcome) (h : s.stage.outcome=some out) (out' : Outcome)
    (hout : out'=out∨out'=.cancelled∨out'=.raised) : Moves gbk s (s.goTo (.left out'))
  /-- `_spawn` does not return. -/
  | fails (u : ProcessRun) (hu : u=s∨u=s.kill .job) : Moves gbk s (u.killDirectly.goTo .unspawned)
  | unstarted (h : s.started=false) : Moves gbk s (s.goTo .unspawned)

structure Counted (s : ProcessRun) : Prop where
  taken : ∀p,(s.outputs p).taken≤(s.outputs p).written.length
  captured : s.captured=min s.budget s.seen
  kept : s.captured=(s.kept .stdout).length+(s.kept .stderr).length
  overflow : s.overflow=true ↔ s.budget < s.seen
  /-- Up to the budget all that was read is kept. -/
  whole : s.seen ≤ s.budget → ∀p,s.kept p=(s.outputs p).written.take (s.outputs p).taken
  beginning : ∀p,s.kept p<+:(s.outputs p).written

structure SameOutput (s t : ProcessRun) : Prop where
  windows : t.windows=s.windows
  budget : t.budget=s.budget
  captured : t.captured=s.captured
  overflow : t.overflow=s.overflow
  outputs : t.outputs=s.outputs

theorem SameOutput.trans {u : ProcessRun} (h : SameOutput s t) (h' : SameOutput t u) : SameOutput s u :=
  ⟨h'.windows.trans h.windows,h'.budget.trans h.budget,h'.captured.trans h.captured,
    h'.overflow.trans h.overflow,h'.outputs.trans h.outputs⟩

theorem Counted.same (h : Counted s) (hs : SameOutput s t) : Counted t := by
  have hseen : t.seen=s.seen := by
    unfold ProcessRun.seen
    rw [hs.outputs]
  have hkept : t.kept=s.kept := by
    unfold ProcessRun.kept
    rw [hs.outputs]
  refine ⟨?_,?_,?_,?_,?_,?_⟩
  · rw [hs.outputs]
    exact h.taken
  · rw [hs.captured,hs.budget,hseen]
    exact h.captured
  · rw [hs.captured,hkept]
    exact h.kept
  · rw [hs.overflow,hs.budget,hseen]
    exact h.overflow
  · rw [hseen,hs.budget,hkept,hs.outputs]
    exact h.whole
  · rw [hkept,hs.outputs]
    exact h.beginning

@[simp] theorem setOutput_outputs (s : ProcessRun) (p q : Stream) (o : Output) :
    (s.setOutput p o).outputs q=if q=p then o else s.outputs q := by
  unfold ProcessRun.setOutput
  dsimp only
  rw [Function.update_apply]

theorem seen_of_taken (h : ∀p,(t.outputs p).taken=(s.outputs p).taken) : t.seen=s.seen := by
  unfold ProcessRun.seen
  rw [h,h]

theorem Counted.write (h : Counted s) (p : Stream) (bytes : List UInt8) :
    Counted (s.setOutput p {s.outputs p with written := (s.outputs p).written++bytes}) := by
  let u := s.setOutput p {s.outputs p with written := (s.outputs p).written++bytes}
  have htaken : ∀q,(u.outputs q).taken=(s.outputs q).taken := by
    intro q
    rw [setOutput_outputs]
    split_ifs with hq
    · rw [hq]
    · rfl
  have hkept : ∀q,u.kept q=s.kept q := by
    intro q
    unfold ProcessRun.kept
    rw [setOutput_outputs]
    split_ifs with hq
    · rw [hq]
      rfl
    · rfl
  have hwritten : ∀q,(s.outputs q).written<+:(u.outputs q).written := by
    intro q
    rw [setOutput_outputs]
    split_ifs with hq
    · rw [hq]
      exact List.prefix_append _ _
    · exact List.prefix_refl _
  have hseen : u.seen=s.seen := seen_of_taken htaken
  refine ⟨fun q => ?_,?_,?_,?_,fun hle q => ?_,fun q => ?_⟩
  · rw [htaken]
    exact (h.taken q).trans (hwritten q).length_le
  · rw [hseen]
    exact h.captured
  · rw [hkept,hkept]
    exact h.kept
  · rw [hseen]
    exact h.overflow
  · rw [hseen] at hle
    rw [hkept,htaken,h.whole hle]
    obtain ⟨more,hmore⟩ := hwritten q
    rw [← hmore,List.take_append_of_le_length (h.taken q)]
  · rw [hkept]
    exact (h.beginning q).trans (hwritten q)

theorem kept_readChunk (s : ProcessRun) (p q : Stream) (chunk : List UInt8) :
    (s.readChunk p chunk).kept q=if q=p then s.kept p++chunk.take (s.budget-s.captured) else s.kept q := by
  unfold ProcessRun.kept ProcessRun.readChunk
  dsimp only
  rw [setOutput_outputs]
  split_ifs with hq hpos
  · unfold Output.kept
    rw [List.flatten_append,List.flatten_singleton]
  · have hzero : s.budget-s.captured=0 := by omega
    rw [hzero,List.take_zero,List.append_nil]
    rfl
  · rfl

theorem outputs_readChunk (s : ProcessRun) (p q : Stream) (chunk : List UInt8) :
    ((s.readChunk p chunk).outputs q).written=(s.outputs q).written∧
      ((s.readChunk p chunk).outputs q).taken=
        if q=p then (s.outputs p).taken+chunk.length else (s.outputs q).taken := by
  unfold ProcessRun.readChunk
  dsimp only
  rw [setOutput_outputs]
  by_cases hq : q=p
  · rw [if_pos hq,if_pos hq,hq]
    exact ⟨rfl,rfl⟩
  · rw [if_neg hq,if_neg hq]
    exact ⟨rfl,rfl⟩

theorem seen_readChunk (s : ProcessRun) (p : Stream) (chunk : List UInt8) :
    (s.readChunk p chunk).seen=s.seen+chunk.length := by
  unfold ProcessRun.seen
  rw [(outputs_readChunk s p .stdout chunk).2,(outputs_readChunk s p .stderr chunk).2]
  cases p with
  | stdout =>
    rw [if_pos rfl,if_neg (by decide)]
    omega
  | stderr =>
    rw [if_pos rfl,if_neg (by decide)]
    omega

theorem Counted.read (h : Counted s) (p : Stream) {n : Nat}
    (hn : n≤(s.outputs p).written.length-(s.outputs p).taken) :
    Counted (s.readChunk p (((s.outputs p).written.drop (s.outputs p).taken).take n)) := by
  generalize hchunk : ((s.outputs p).written.drop (s.outputs p).taken).take n=chunk
  have hlength : chunk.length=n := by
    rw [← hchunk,List.length_take,List.length_drop]
    omega
  have hcaptured := h.captured
  have hover : (s.readChunk p chunk).overflow=(s.overflow||decide (s.budget-s.captured < chunk.length)) := rfl
  have hcount : (s.readChunk p chunk).captured=s.captured+min chunk.length (s.budget-s.captured) := rfl
  have hbudget : (s.readChunk p chunk).budget=s.budget := rfl
  refine ⟨fun q => ?_,?_,?_,?_,fun hle q => ?_,fun q => ?_⟩
  · rw [(outputs_readChunk s p q chunk).1,(outputs_readChunk s p q chunk).2]
    have htaken := h.taken p
    split_ifs with hq
    · rw [hq]
      omega
    · exact h.taken q
  · rw [hcount,seen_readChunk,hbudget]
    omega
  · have hkept := h.kept
    rw [hcount,kept_readChunk,kept_readChunk]
    cases p with
    | stdout =>
      rw [if_pos rfl,if_neg (by decide),List.length_append,List.length_take]
      omega
    | stderr =>
      rw [if_pos rfl,if_neg (by decide),List.length_append,List.length_take]
      omega
  · have hbefore := h.overflow
    rw [hover,seen_readChunk,hbudget,Bool.or_eq_true,decide_eq_true_eq,hbefore]
    omega
  · rw [seen_readChunk,hbudget] at hle
    have hwhole := h.whole (by omega)
    rw [kept_readChunk,(outputs_readChunk s p q chunk).1,(outputs_readChunk s p q chunk).2]
    split_ifs with hq
    · have hall : chunk.take (s.budget-s.captured)=chunk := List.take_of_length_le (by omega)
      rw [hq,hwhole,hall,hlength,← hchunk,List.take_add]
    · exact hwhole q
  · rw [kept_readChunk,(outputs_readChunk s p q chunk).1]
    split_ifs with hq
    · rw [hq]
      by_cases hle : s.seen ≤ s.budget
      · have hmore : chunk.take (s.budget-s.captured)<+:(s.outputs p).written.drop (s.outputs p).taken := by
          rw [← hchunk]
          exact (List.take_prefix _ _).trans (List.take_prefix _ _)
        have hboth := (List.prefix_append_right_inj ((s.outputs p).written.take (s.outputs p).taken)).mpr hmore
        rw [List.take_append_drop] at hboth
        rw [h.whole hle]
        exact hboth
      · have hzero : s.budget-s.captured=0 := by omega
        rw [hzero,List.take_zero,List.append_nil]
        exact h.beginning p
    · exact h.beginning q

/-! What holds in every run -/

structure Grows (s t : ProcessRun) : Prop where
  windows : t.windows=s.windows
  budget : t.budget=s.budget
  kills : s.kills⊆t.kills
  written : ∀p,(s.outputs p).written<+:(t.outputs p).written
  seen : s.seen≤t.seen
  exited : s.exitCode.isSome=true → t.exitCode.isSome=true
  overflow : s.overflow=true → t.overflow=true

theorem Grows.trans {u : ProcessRun} (h : Grows s t) (h' : Grows t u) : Grows s u :=
  ⟨h'.windows.trans h.windows,h'.budget.trans h.budget,fun _ hk => h'.kills (h.kills hk),
    fun p => (h.written p).trans (h'.written p),h.seen.trans h'.seen,fun he => h'.exited (h.exited he),
    fun ho => h'.overflow (h.overflow ho)⟩

def TreeTold (s : ProcessRun) : Prop :=
  (s.windows=true → Kill.job∈s.kills)∧(s.windows=false → Kill.group∈s.kills)

theorem TreeTold.mono (h : TreeTold s) (hg : Grows s t) : TreeTold t := by
  refine ⟨fun hw => hg.kills (h.1 ?_),fun hw => hg.kills (h.2 ?_)⟩
  · exact hg.windows.symm.trans hw
  · exact hg.windows.symm.trans hw

structure Faithful (gbk : List UInt8 → Option Text) (s : ProcessRun) (r : Report) : Prop where
  within : (r.outputs .stdout).length+(r.outputs .stderr).length ≤ s.budget
  kept : ∀p,r.outputs p<+:(s.outputs p).written
  seen : r.seen ≤ s.seen
  limited : r.result.outputLimited=true ↔ s.budget < r.seen
  exited : r.result.exitCode.isSome=true ↔ r.result.timedOut=false∧r.result.outputLimited=false
  stdout : r.result.stdout=smartDecode s.windows gbk (r.outputs .stdout)
  stderr : r.result.stderr=smartDecode s.windows gbk (r.outputs .stderr)

theorem Faithful.mono {r : Report} (h : Faithful gbk s r) (hg : Grows s t) : Faithful gbk t r := by
  refine ⟨?_,fun p => (h.kept p).trans (hg.written p),h.seen.trans hg.seen,?_,h.exited,?_,?_⟩
  · rw [hg.budget]
    exact h.within
  · rw [hg.budget]
    exact h.limited
  · rw [hg.windows]
    exact h.stdout
  · rw [hg.windows]
    exact h.stderr

theorem Counted.within (h : Counted s) : (s.kept .stdout).length+(s.kept .stderr).length ≤ s.budget := by
  rw [← h.kept,h.captured]
  exact Nat.min_le_left _ _

theorem Counted.report {timedOut : Bool} (h : Counted s)
    (hpending : timedOut=false → s.overflow=true∨s.exitCode.isSome=true) :
    Faithful gbk s (s.report gbk timedOut) := by
  refine ⟨h.within,h.beginning,Nat.le_refl _,h.overflow,?_,rfl,rfl⟩
  change (if timedOut||s.overflow then none else s.exitCode).isSome=true ↔ timedOut=false∧s.overflow=false
  cases htime : timedOut with
  | true =>
    constructor
    · intro hn
      cases hn
    · intro hn
      cases hn.1
  | false =>
    cases hover : s.overflow with
    | true =>
      constructor
      · intro hn
        cases hn
      · intro hn
        cases hn.2
    | false =>
      have hexit : s.exitCode.isSome=true := by
        rcases hpending htime with ho | he
        · cases hover.symm.trans ho
        · exact he
      exact ⟨fun _ => ⟨rfl,rfl⟩,fun _ => hexit⟩

structure Sound (gbk : List UInt8 → Option Text) (s : ProcessRun) : Prop where
  counted : Counted s
  wait : s.waitDone=true → s.exitCode.isSome=true
  overran : s.overflowDone=true → s.overflow=true
  /-- Without a timeout the run goes on because of an exit or of an overflow. -/
  pending : s.stage.pending=some false → s.overflow=true∨s.exitCode.isSome=true
  told : ∀out,s.stage.outcome=some out → TreeTold s
  unspawned : s.stage=.unspawned → s.started=true → Kill.root∈s.kills∨s.exitCode.isSome=true
  report : ∀r,s.stage.outcome=some (.returned r) → Faithful gbk s r

theorem Sound.pending_mono (h : Sound gbk s) (hg : Grows s t) (hstage : t.stage=s.stage)
    (hp : t.stage.pending=some false) : t.overflow=true∨t.exitCode.isSome=true := by
  rw [hstage] at hp
  rcases h.pending hp with ho | he
  · exact .inl (hg.overflow ho)
  · exact .inr (hg.exited he)

theorem Sound.same (h : Sound gbk s) (hg : Grows s t) (hcounted : Counted t) (hstage : t.stage=s.stage)
    (hstarted : s.stage=.unspawned → t.started=s.started)
    (hwait : t.waitDone=true → t.exitCode.isSome=true) (hover : t.overflowDone=true → t.overflow=true) :
    Sound gbk t := by
  refine ⟨hcounted,hwait,hover,h.pending_mono hg hstage,fun out hout => ?_,fun hu hs => ?_,fun r hr => ?_⟩
  · rw [hstage] at hout
    exact (h.told out hout).mono hg
  · rw [hstage] at hu
    rcases h.unspawned hu (hstarted hu ▸ hs) with hk | he
    · exact .inl (hg.kills hk)
    · exact .inr (hg.exited he)
  · rw [hstage] at hr
    exact (h.report r hr).mono hg

theorem Sound.ends (h : Sound gbk s) (hg : Grows s t) (hs : SameOutput s t) {out : Outcome}
    (hstage : t.stage.outcome=some out) (hwait : t.waitDone=s.waitDone) (hover : t.overflowDone=s.overflowDone)
    (htold : TreeTold t) (hreport : ∀r,out=.returned r → Faithful gbk t r) : Sound gbk t := by
  refine ⟨h.counted.same hs,fun hw => hg.exited (h.wait (hwait ▸ hw)),fun ho => hg.overflow (h.overran (hover ▸ ho)),
    fun hp => ?_,fun _ _ => htold,fun hu => ?_,fun r hr => hreport r ?_⟩
  · cases hst : t.stage with
    | ending out | closing out | left out =>
      rw [hst] at hp
      cases hp
    | _ =>
      rw [hst] at hstage
      cases hstage
  · rw [hu] at hstage
    cases hstage
  · rw [hr] at hstage
    exact (Option.some.inj hstage).symm

theorem Sound.fails (h : Sound gbk s) (hg : Grows s t) (hs : SameOutput s t) (hwait : t.waitDone=s.waitDone)
    (hover : t.overflowDone=s.overflowDone) (hstage : t.stage=.unspawned)
    (htold : t.started=true → Kill.root∈t.kills∨t.exitCode.isSome=true) : Sound gbk t := by
  refine ⟨h.counted.same hs,fun hw => hg.exited (h.wait (hwait ▸ hw)),fun ho => hg.overflow (h.overran (hover ▸ ho)),
    fun hp => ?_,fun out hout => ?_,fun _ => htold,fun r hr => ?_⟩
  · rw [hstage] at hp
    cases hp
  · rw [hstage] at hout
    cases hout
  · rw [hstage] at hr
    cases hr

theorem Starts.sound (h : Starts s) : Sound gbk s := by
  obtain ⟨hstage,hstarted,hexit,hcaptured,hover,hwait,hoverDone,hout⟩ := h
  have hseen : s.seen=0 := by
    unfold ProcessRun.seen
    rw [hout,hout]
    rfl
  have hkept : ∀p,s.kept p=[] := by
    intro p
    unfold ProcessRun.kept
    rw [hout]
    rfl
  refine ⟨⟨fun p => ?_,?_,?_,?_,fun _ p => ?_,fun p => ?_⟩,fun hw => ?_,fun ho => ?_,fun hp => ?_,
    fun out ho => ?_,fun hu => ?_,fun r hr => ?_⟩
  · rw [hout]
    exact Nat.le_refl 0
  · rw [hcaptured,hseen,Nat.min_zero]
  · rw [hcaptured,hkept,hkept]
    rfl
  · rw [hover,hseen]
    simp
  · rw [hkept,hout]
    rfl
  · rw [hkept]
    exact List.nil_prefix
  · cases hwait.symm.trans hw
  · cases hoverDone.symm.trans ho
  · rw [hstage] at hp
    cases hp
  · rw [hstage] at ho
    cases ho
  · cases hstage.symm.trans hu
  · rw [hstage] at hr
    cases hr

end

end XiaoQing.Execution.ProcessTree
