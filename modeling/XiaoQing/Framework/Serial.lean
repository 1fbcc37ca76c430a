import Mathlib.Data.List.Basic

namespace XiaoQing.Framework

variable {σ ι ρ : Type*}

/-- Executed one after the other from `s`, the logged operations give the logged results and end
in the last state. -/
def Replays (spec : σ → ι → σ × ρ) : σ → List (ι × ρ) → σ → Prop
  | s,[],t => s=t
  | s,(i,r)::log,t => (spec s i).2=r ∧ Replays spec (spec s i).1 log t

/-- A position in a log with one more entry: the new entry, or a position of the old log. -/
theorem log_split {α : Type*} {log before after : List α} {new a : α}
    (h : log++[new]=before++a::after) :
    (before=log ∧ a=new ∧ after=[]) ∨ ∃rest,after=rest++[new] ∧ log=before++a::rest := by
  rcases List.eq_nil_or_concat after with rfl | ⟨rest,b,rfl⟩
  · obtain ⟨rfl,hb⟩ := List.append_inj' h rfl
    cases hb
    exact .inl ⟨rfl,rfl,rfl⟩
  · rw [List.concat_eq_append,← List.cons_append,← List.append_assoc] at h
    obtain ⟨rfl,hb⟩ := List.append_inj' h rfl
    cases hb
    exact .inr ⟨rest,by rw [List.concat_eq_append],rfl⟩

variable {spec : σ → ι → σ × ρ} {s t u : σ} {i : ι} {r : ρ}

theorem replays_append {log log' : List (ι × ρ)} :
    Replays spec s (log++log') u ↔ ∃t,Replays spec s log t ∧ Replays spec t log' u := by
  induction log generalizing s with
  | nil => simp [Replays]
  | cons e log ih =>
    obtain ⟨i,r⟩ := e
    simp only [List.cons_append,Replays,ih]
    constructor
    · rintro ⟨hr,t,ht,hu⟩
      exact ⟨t,⟨hr,ht⟩,hu⟩
    · rintro ⟨t,⟨hr,ht⟩,hu⟩
      exact ⟨hr,t,ht,hu⟩

/-- One more operation, carried out on the state the log has led to. -/
theorem Replays.snoc {log : List (ι × ρ)} (h : Replays spec s log t) (hstep : spec t i=(u,r)) :
    Replays spec s (log++[(i,r)]) u := by
  rw [replays_append]
  refine ⟨t,h,?_⟩
  simp [Replays,hstep]

/-- What holds of every single operation holds of each logged one. -/
theorem Replays.entry {log : List (ι × ρ)} {P : σ → ι → ρ → σ → Prop}
    (hP : ∀s i,P s i (spec s i).2 (spec s i).1) (h : Replays spec s log t)
    {before after : List (ι × ρ)} (hlog : log=before++(i,r)::after) :
    ∃x y,Replays spec s before x ∧ P x i r y ∧ Replays spec y after t := by
  rw [hlog,replays_append] at h
  obtain ⟨x,hbefore,hr,hafter⟩ := h
  exact ⟨x,_,hbefore,hr ▸ hP x i,hafter⟩

end XiaoQing.Framework
