import Mathlib.Algebra.Field.Rat
import Mathlib.Algebra.Order.Field.Basic
import Mathlib.Algebra.Order.Ring.Rat
import XiaoQing.Framework.Gather
import XiaoQing.Framework.Keyed

namespace XiaoQing.Monitoring

open Framework OrderedDict

/-- `min_time` is `none` while it is infinite. -/
structure ExecutionStats (τ : Type) where
  totalCalls : Nat
  totalTime : τ
  minTime : Option τ
  maxTime : τ
  slowCalls : Nat
  errors : Nat
  cancelled : Nat

/-- The arguments of `record_plugin_execution`. -/
structure Call (τ : Type) where
  pluginName : String
  commandName : String
  duration : τ
  isError : Bool
  isCancelled : Bool

structure MetricsCollector (τ : Type) where
  slowThreshold : τ
  pluginStats : OrderedDict String (ExecutionStats τ)
  commandStats : OrderedDict String (ExecutionStats τ)
  globalStats : ExecutionStats τ

section

variable {τ : Type}

namespace Call

def command (c : Call τ) : String := c.pluginName++"."++c.commandName

def failed (c : Call τ) : Bool := !c.isCancelled && c.isError

end Call

variable [LinearOrder τ] [Zero τ] [Add τ]

namespace ExecutionStats

def new : ExecutionStats τ := ⟨0,0,none,0,0,0,0⟩

def record (slowThreshold : τ) (s : ExecutionStats τ) (c : Call τ) : ExecutionStats τ where
  totalCalls := s.totalCalls+1
  totalTime := s.totalTime+c.duration
  minTime := some (s.minTime.elim c.duration (min · c.duration))
  maxTime := max s.maxTime c.duration
  slowCalls := if slowThreshold<c.duration then s.slowCalls+1 else s.slowCalls
  -- an error of a cancelled call counts as the cancellation alone
  errors := if c.failed then s.errors+1 else s.errors
  cancelled := if c.isCancelled then s.cancelled+1 else s.cancelled

omit [LinearOrder τ] [Zero τ] [Add τ] in
def successRate (s : ExecutionStats τ) : Rat :=
  if s.totalCalls=0 then 1 else (s.totalCalls-s.errors-s.cancelled)/s.totalCalls

end ExecutionStats

namespace MetricsCollector

def new (slowThreshold : τ) : MetricsCollector τ := ⟨slowThreshold,[],[],.new⟩

def recordPluginExecution (m : MetricsCollector τ) (c : Call τ) : MetricsCollector τ :=
  {m with
    pluginStats := gather Call.pluginName (.record m.slowThreshold) .new m.pluginStats c
    commandStats := gather Call.command (.record m.slowThreshold) .new m.commandStats c
    globalStats := m.globalStats.record m.slowThreshold c}

end MetricsCollector

/-- What statistics say of the calls they count. -/
structure Describes (slowThreshold : τ) (cs : List (Call τ)) (s : ExecutionStats τ) : Prop where
  calls : s.totalCalls=cs.length
  time : s.totalTime=cs.foldl (fun t c => t+c.duration) 0
  shortest : ∀t∈s.minTime,(∃c∈cs,c.duration=t)∧∀c∈cs,t≤c.duration
  unset : s.minTime=none↔cs=[]
  longest : (s.maxTime=0∨∃c∈cs,c.duration=s.maxTime)∧0 ≤ s.maxTime∧∀c∈cs,c.duration ≤ s.maxTime
  slow : s.slowCalls=(cs.filter fun c => slowThreshold<c.duration).length
  errors : s.errors=(cs.filter Call.failed).length
  cancelled : s.cancelled=(cs.filter Call.isCancelled).length

/-- Statistics per key: each describes the calls of its key, and together they count what the calls in all
come to. -/
structure Tallies (slowThreshold : τ) (key : Call τ → String) (cs : List (Call τ)) (all : ExecutionStats τ)
    (stats : OrderedDict String (ExecutionStats τ)) : Prop where
  nodup : (stats.map Prod.fst).Nodup
  named : ∀k,k∈stats.map Prod.fst↔∃c∈cs,key c=k
  each : ∀e∈stats,Describes slowThreshold (cs.filter fun c => key c=e.1) e.2
  calls : (stats.map fun e => e.2.totalCalls).sum=all.totalCalls
  slow : (stats.map fun e => e.2.slowCalls).sum=all.slowCalls
  errors : (stats.map fun e => e.2.errors).sum=all.errors
  cancelled : (stats.map fun e => e.2.cancelled).sum=all.cancelled

variable {slowThreshold : τ} {cs : List (Call τ)} {s : ExecutionStats τ}

namespace Describes

theorem new (slowThreshold : τ) : Describes slowThreshold [] (.new : ExecutionStats τ) :=
  ⟨rfl,rfl,nofun,⟨fun _ => rfl,fun _ => rfl⟩,⟨.inl rfl,le_rfl,nofun⟩,rfl,rfl,rfl⟩

theorem record (h : Describes slowThreshold cs s) (c : Call τ) :
    Describes slowThreshold (cs++[c]) (s.record slowThreshold c) := by
  obtain ⟨hcalls,htime,hshort,hunset,⟨hreached,hpos,hlong⟩,hslow,herrors,hcancelled⟩ := h
  refine ⟨?_,?_,?_,?_,⟨?_,?_,?_⟩,?_,?_,?_⟩
  · simp [ExecutionStats.record,hcalls]
  · simp [ExecutionStats.record,htime]
  · intro t ht
    cases Option.mem_some_iff.mp ht
    cases hmin : s.minTime with
    | none =>
      cases hunset.mp hmin
      exact ⟨⟨c,by simp,rfl⟩,by simp⟩
    | some t =>
      obtain ⟨⟨b,hb,hbt⟩,hle⟩ := hshort t hmin
      rw [Option.elim_some]
      refine ⟨?_,fun x hx => ?_⟩
      · rcases min_choice t c.duration with hm | hm
        · exact ⟨b,List.mem_append_left _ hb,hbt.trans hm.symm⟩
        · exact ⟨c,by simp,hm.symm⟩
      · rcases List.mem_append.mp hx with hx | hx
        · exact (min_le_left _ _).trans (hle x hx)
        · cases List.mem_singleton.mp hx
          exact min_le_right _ _
  · simp [ExecutionStats.record]
  · rcases max_choice s.maxTime c.duration with hm | hm
    · rw [show (s.record slowThreshold c).maxTime=s.maxTime from hm]
      exact hreached.imp_right fun ⟨b,hb,hbt⟩ => ⟨b,List.mem_append_left _ hb,hbt⟩
    · exact .inr ⟨c,by simp,hm.symm⟩
  · exact hpos.trans (le_max_left _ _)
  · intro x hx
    rcases List.mem_append.mp hx with hx | hx
    · exact (hlong x hx).trans (le_max_left _ _)
    · cases List.mem_singleton.mp hx
      exact le_max_right _ _
  · simp only [ExecutionStats.record,List.filter_append,List.length_append,hslow]
    split_ifs with h <;> simp [h]
  · simp only [ExecutionStats.record,List.filter_append,List.length_append,herrors]
    split_ifs with h <;> simp [h]
  · simp only [ExecutionStats.record,List.filter_append,List.length_append,hcancelled]
    split_ifs with h <;> simp [h]

theorem run (slowThreshold : τ) (cs : List (Call τ)) :
    Describes slowThreshold cs (cs.foldl (.record slowThreshold) .new) := by
  induction cs using List.reverseRecOn with
  | nil => exact new slowThreshold
  | append_singleton cs c ih =>
    rw [List.foldl_append]
    exact ih.record c

/-- No call is counted both as an error and as cancelled. -/
theorem apart (h : Describes slowThreshold cs s) : s.errors+s.cancelled ≤ s.totalCalls := by
  rw [h.errors,h.cancelled,h.calls]
  have hsub : (cs.filter Call.failed).length≤(cs.filter fun c => !c.isCancelled).length := by
    rw [← List.countP_eq_length_filter,← List.countP_eq_length_filter]
    apply List.countP_mono_left
    intro c _ hc
    exact (Bool.and_eq_true_iff.mp hc).1
  have hall := List.length_eq_length_filter_add (l:=cs) Call.isCancelled
  omega

theorem successRate (h : Describes slowThreshold cs s) : 0 ≤ s.successRate∧s.successRate≤1 := by
  unfold ExecutionStats.successRate
  split_ifs with hzero
  · exact ⟨zero_le_one,le_rfl⟩
  · have hpos : (0 : Rat) < s.totalCalls := by exact_mod_cast Nat.pos_of_ne_zero hzero
    have hle : (s.errors : Rat)+s.cancelled ≤ s.totalCalls := by exact_mod_cast h.apart
    rw [sub_sub]
    constructor
    · exact div_nonneg (sub_nonneg.mpr hle) hpos.le
    · rw [div_le_one hpos]
      exact sub_le_self _ (add_nonneg (Nat.cast_nonneg _) (Nat.cast_nonneg _))

end Describes

/-! The counts of all keys -/

section

variable (slowThreshold : τ) (key : Call τ → String) (cs : List (Call τ))

def gathered : OrderedDict String (ExecutionStats τ) :=
  cs.foldl (gather key (.record slowThreshold) .new) []

theorem gathered_nodup : ((gathered slowThreshold key cs).map Prod.fst).Nodup := nodup_gathered key _ _ cs

/-- A count that each call adds to is, over all keys, that of all calls. -/
theorem sum_count {w : ExecutionStats τ → Nat} {g : Call τ → Nat} (h0 : w .new=0)
    (hw : ∀s c,w (s.record slowThreshold c)=w s+g c) :
    ((gathered slowThreshold key cs).map fun e => w e.2).sum=w (cs.foldl (.record slowThreshold) .new) := by
  rw [gathered,sum_gathered h0 hw]
  induction cs using List.reverseRecOn with
  | nil => exact h0.symm
  | append_singleton cs c ih =>
    rw [List.foldl_append,List.map_append,List.sum_append,ih,List.foldl_cons,List.foldl_nil,hw]
    rfl

theorem tallies_gathered :
    Tallies slowThreshold key cs (cs.foldl (.record slowThreshold) .new) (gathered slowThreshold key cs) := by
  have hcount : ∀(p : Prop) [Decidable p] (n : Nat),(if p then n+1 else n)=n+if p then 1 else 0 := by
    intro p _ n
    split_ifs <;> rfl
  refine ⟨gathered_nodup slowThreshold key cs,fun k => ?_,fun e he => ?_,?_,?_,?_,?_⟩
  · rw [← get?_isSome]
    exact isSome_gathered cs
  · have hvalue : ((gathered slowThreshold key cs).get? e.1).getD .new=_ := getD_gathered cs
    rw [get?_of_mem (gathered_nodup slowThreshold key cs) he,Option.getD_some] at hvalue
    rw [hvalue]
    exact Describes.run slowThreshold _
  · exact sum_count slowThreshold key cs (g:=fun _ => 1) rfl fun _ _ => rfl
  · exact sum_count slowThreshold key cs rfl fun _ _ => hcount _ _
  · exact sum_count slowThreshold key cs rfl fun _ _ => hcount _ _
  · exact sum_count slowThreshold key cs rfl fun _ _ => hcount _ _

theorem collected :
    cs.foldl .recordPluginExecution (.new slowThreshold)=
      (⟨slowThreshold,gathered slowThreshold Call.pluginName cs,gathered slowThreshold Call.command cs,
        cs.foldl (.record slowThreshold) .new⟩ : MetricsCollector τ) := by
  induction cs using List.reverseRecOn with
  | nil => rfl
  | append_singleton cs c ih =>
    rw [List.foldl_append,List.foldl_cons,List.foldl_nil,ih]
    simp [MetricsCollector.recordPluginExecution,gathered,List.foldl_append]

end

theorem Tallies.counted {key : Call τ → String} {all : ExecutionStats τ}
    {stats : OrderedDict String (ExecutionStats τ)} {e : String×ExecutionStats τ}
    (h : Tallies slowThreshold key cs all stats) (he : e∈stats) : 0<e.2.totalCalls := by
  obtain ⟨c,hc,hk⟩ := (h.named e.1).mp (List.mem_map_of_mem he)
  rw [(h.each e he).calls]
  exact List.length_pos_of_mem (List.mem_filter.mpr ⟨hc,decide_eq_true hk⟩)

/-- After any calls the statistics per plugin, per command and in all describe them, and agree. -/
theorem statistics_describe_calls (slowThreshold : τ) (cs : List (Call τ)) :
    let m : MetricsCollector τ := cs.foldl .recordPluginExecution (.new slowThreshold)
    Describes slowThreshold cs m.globalStats∧
      Tallies slowThreshold Call.pluginName cs m.globalStats m.pluginStats∧
      Tallies slowThreshold Call.command cs m.globalStats m.commandStats∧
      ∀s,s=m.globalStats∨s∈m.pluginStats.map Prod.snd∨s∈m.commandStats.map Prod.snd →
        0 ≤ s.successRate∧s.successRate≤1 := by
  intro m
  have hm : m=_ := collected slowThreshold cs
  rw [hm]
  have hall := Describes.run slowThreshold cs
  have hplugins := tallies_gathered slowThreshold Call.pluginName cs
  have hcommands := tallies_gathered slowThreshold Call.command cs
  refine ⟨hall,hplugins,hcommands,fun s hs => ?_⟩
  rcases hs with rfl | hs | hs
  · exact hall.successRate
  · obtain ⟨e,he,rfl⟩ := List.mem_map.mp hs
    exact (hplugins.each e he).successRate
  · obtain ⟨e,he,rfl⟩ := List.mem_map.mp hs
    exact (hcommands.each e he).successRate

end

end XiaoQing.Monitoring
