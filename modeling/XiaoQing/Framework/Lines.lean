import Mathlib.Data.List.TakeWhile
import Mathlib.Tactic.Common

namespace XiaoQing.Framework

variable {α : Type*} [DecidableEq α]

/-- What comes before the first separator and what comes after it. -/
def cutLine (sep : α) (t : List α) : Option (List α × List α) :=
  match t.dropWhile (fun a => decide (a≠sep)) with
  | [] => none
  | _::rest => some (t.takeWhile (fun a => decide (a≠sep)),rest)

/-- The lines that a separator ends, and what comes after the last one. -/
def cutLines (sep : α) : List α → List (List α) × List α
  | [] => ([],[])
  | a::t =>
    if a=sep then ([]::(cutLines sep t).1,(cutLines sep t).2)
    else
      match (cutLines sep t).1 with
      | [] => ([],a::(cutLines sep t).2)
      | l::ls => ((a::l)::ls,(cutLines sep t).2)

/-- All the lines of a text, the one after the last separator included. -/
def allLines (sep : α) (t : List α) : List (List α) := (cutLines sep t).1++[(cutLines sep t).2]

section

variable {s : α} {l t rest : List α}

theorem cutLine_none (h : s∉t) : cutLine s t=none := by
  have hdrop : t.dropWhile (fun a => decide (a≠s))=[] := by
    rw [List.dropWhile_eq_nil_iff]
    intro a ha
    have hne : a≠s := fun he => h (he ▸ ha)
    simpa using hne
  unfold cutLine
  rw [hdrop]

theorem cutLine_some (h : s∉l) : cutLine s (l++s::rest)=some (l,rest) := by
  have hpos : ∀a∈l,decide (a≠s)=true := by
    intro a ha
    have hne : a≠s := fun he => h (he ▸ ha)
    simpa using hne
  have hdrop : (l++s::rest).dropWhile (fun a => decide (a≠s))=s::rest := by
    rw [List.dropWhile_append_of_pos hpos]
    simp
  have htake : (l++s::rest).takeWhile (fun a => decide (a≠s))=l := by
    rw [List.takeWhile_append_of_pos hpos]
    simp
  unfold cutLine
  rw [hdrop,htake]

theorem cutLine_shape (t : List α) : s∉t ∨ ∃l rest,t=l++s::rest ∧ s∉l := by
  by_cases hmem : s∈t
  · obtain ⟨l,rest,rfl,hl⟩ := List.eq_append_cons_of_mem hmem
    exact .inr ⟨l,rest,rfl,hl⟩
  · exact .inl hmem

theorem cutLines_none (h : s∉t) : cutLines s t=([],t) := by
  induction t with
  | nil => rfl
  | cons a t ih =>
    have ha : a≠s := fun he => h (he ▸ List.mem_cons_self)
    rw [cutLines,if_neg ha,ih fun hm => h (List.mem_cons_of_mem a hm)]

theorem cutLines_some (h : s∉l) :
    cutLines s (l++s::rest)=(l::(cutLines s rest).1,(cutLines s rest).2) := by
  induction l with
  | nil => simp [cutLines]
  | cons a l ih =>
    have ha : a≠s := fun he => h (he ▸ List.mem_cons_self)
    rw [List.cons_append,cutLines,if_neg ha,ih fun hm => h (List.mem_cons_of_mem a hm)]

theorem lines_induction (s : α) {P : List α → Prop} (htail : ∀t,s∉t → P t)
    (hline : ∀l rest,s∉l → P rest → P (l++s::rest)) (t : List α) : P t := by
  induction hn : t.length using Nat.strongRecOn generalizing t with
  | ind n ih =>
    rcases cutLine_shape (s:=s) t with h | ⟨l,rest,rfl,hl⟩
    · exact htail t h
    · refine hline l rest hl (ih rest.length ?_ rest rfl)
      rw [← hn,List.length_append,List.length_cons]
      omega

theorem not_mem_tail (t : List α) : s∉(cutLines s t).2 := by
  induction t using lines_induction s with
  | htail t h => rwa [cutLines_none h]
  | hline l rest hl ih => rwa [cutLines_some hl]

/-- What comes later goes on where the last line was left. -/
theorem cutLines_append (t u : List α) : cutLines s (t++u)=
    ((cutLines s t).1++(cutLines s ((cutLines s t).2++u)).1,(cutLines s ((cutLines s t).2++u)).2) := by
  induction t using lines_induction s with
  | htail t h =>
    rw [cutLines_none h]
    rfl
  | hline l rest hl ih =>
    rw [List.append_assoc,List.cons_append,cutLines_some hl,cutLines_some hl,ih]
    rfl

theorem allLines_none (h : s∉t) : allLines s t=[t] := by
  rw [allLines,cutLines_none h]
  rfl

theorem allLines_some (h : s∉l) : allLines s (l++s::rest)=l::allLines s rest := by
  rw [allLines,cutLines_some h]
  rfl

theorem allLines_append (t u : List α) :
    allLines s (t++u)=(cutLines s t).1++allLines s ((cutLines s t).2++u) := by
  rw [allLines,cutLines_append,allLines,List.append_assoc]

/-- The lines of a text and their separators are all of it. -/
theorem cutLines_flatten (t : List α) :
    ((cutLines s t).1.map (·++[s])).flatten++(cutLines s t).2=t := by
  induction t using lines_induction s with
  | htail t h =>
    rw [cutLines_none h]
    rfl
  | hline l rest hl ih =>
    rw [cutLines_some hl]
    simp only [List.map_cons,List.flatten_cons,List.append_assoc,List.cons_append,List.nil_append]
    rw [ih]

/-- The first of the lines that a separator ends are the lines of a beginning of the text. -/
theorem cutLines_split {ls ms : List (List α)} (h : (cutLines s t).1=ls++ms) :
    ∃q r,t=q++r ∧ cutLines s q=(ls,[]) ∧ (ls≠[] → q.getLast?=some s) := by
  induction ls generalizing t with
  | nil => exact ⟨[],t,rfl,rfl,fun hne => absurd rfl hne⟩
  | cons l ls ih =>
    rcases cutLine_shape (s:=s) t with hnone | ⟨l',rest,rfl,hl⟩
    · rw [cutLines_none hnone] at h
      cases h
    · rw [cutLines_some hl] at h
      obtain ⟨rfl,hrest⟩ := List.cons.inj h
      obtain ⟨q,r,rfl,hq,hlast⟩ := ih hrest
      refine ⟨l'++s::q,r,?_,?_,fun _ => ?_⟩
      · rw [List.append_assoc,List.cons_append]
      · rw [cutLines_some hl,hq]
      · cases ls with
        | nil =>
          have hnil : q=[] := by
            cases q with
            | nil => rfl
            | cons a q =>
              have hflat := cutLines_flatten (s:=s) (a::q)
              rw [hq] at hflat
              cases hflat
          rw [hnil,List.getLast?_append]
          rfl
        | cons k ls =>
          have hlast := hlast (List.cons_ne_nil k ls)
          have hne : q≠[] := by
            rintro rfl
            cases hlast
          rw [List.getLast?_append,List.getLast?_cons_of_ne_nil hne,hlast]
          rfl

/-- A line that is begun is part of the line that goes on with it. -/
theorem line_grows (h : s∉t) (u : List α) : ∃l∈allLines s (t++u),t.length≤l.length := by
  rcases cutLine_shape (s:=s) u with hnone | ⟨l,rest,rfl,hl⟩
  · refine ⟨t++u,?_,?_⟩
    · have hmem : s∉t++u := fun hm => (List.mem_append.mp hm).elim h hnone
      rw [allLines_none hmem]
      exact List.mem_singleton_self _
    · rw [List.length_append]
      exact Nat.le_add_right _ _
  · refine ⟨t++l,?_,?_⟩
    · have hmem : s∉t++l := fun hm => (List.mem_append.mp hm).elim h hl
      rw [← List.append_assoc,allLines_some hmem]
      exact List.mem_cons_self
    · rw [List.length_append]
      exact Nat.le_add_right _ _

end

end XiaoQing.Framework
