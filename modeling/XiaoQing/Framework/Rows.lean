import Mathlib.Algebra.BigOperators.Group.List.Basic
import Mathlib.Algebra.Ring.Int.Defs
import Mathlib.Data.List.Nodup
import Mathlib.Tactic.Common

namespace XiaoQing.Framework

section

/-! A table of rows found by a key. -/

variable {ρ κ : Type*} [DecidableEq κ] (key : ρ → κ)

def row (rows : List ρ) (k : κ) : Option ρ := rows.find? (fun r => key r=k)

/-- `UPDATE … SET … WHERE …`. -/
def updateWhere (p : ρ → Bool) (f : ρ → ρ) (rows : List ρ) : List ρ :=
  rows.map (fun r => if p r then f r else r)

/-- `INSERT … ON CONFLICT (key) DO UPDATE SET … WHERE …`. -/
def upsert (new : ρ) (p : ρ → Bool) (f : ρ → ρ) (rows : List ρ) : List ρ :=
  if (row key rows (key new)).isSome then
    updateWhere (fun r => decide (key r=key new) && p r) f rows
  else rows++[new]

section

variable {key} {rows : List ρ} {r new : ρ} {k : κ} {p : ρ → Bool} {f : ρ → ρ}

theorem row_key (h : row key rows k=some r) : key r=k :=
  of_decide_eq_true (List.find?_some (p:=fun r => decide (key r=k)) h)

theorem mem_of_row (h : row key rows k=some r) : r∈rows := List.mem_of_find?_eq_some h

theorem row_updateWhere (hf : ∀r,key (f r)=key r) :
    row key (updateWhere p f rows) k=(row key rows k).map (fun r => if p r then f r else r) := by
  have hkey : ∀r,key (if p r then f r else r)=key r := by
    intro r
    split
    · exact hf r
    · rfl
  unfold row updateWhere
  rw [List.find?_map]
  congr 2
  funext r
  simp only [Function.comp,hkey]

/-- An update may be taken to leave the rows that it does not select. -/
theorem updateWhere_guard : updateWhere p f rows=updateWhere p (fun r => if p r then f r else r) rows := by
  unfold updateWhere
  exact List.map_congr_left (fun r _ => by by_cases h : p r <;> simp [h])

theorem row_updateWhere_of (hf : ∀r,p r → key (f r)=key r) :
    row key (updateWhere p f rows) k=(row key rows k).map (fun r => if p r then f r else r) := by
  rw [updateWhere_guard,row_updateWhere (fun r => by by_cases h : p r <;> simp [h,hf])]
  exact congrArg (Option.map · _) (funext (fun r => by by_cases h : p r <;> simp [h]))

theorem row_updateWhere_eq_none (hf : ∀r,key (f r)=key r) :
    row key (updateWhere p f rows) k=none ↔ row key rows k=none := by
  rw [row_updateWhere hf,Option.map_eq_none_iff]

theorem row_append : row key (rows++[new]) k=
    (row key rows k).or (if key new=k then some new else none) := by
  unfold row
  rw [List.find?_append]
  by_cases h : key new=k <;> simp [h]

/-- An update leaves the rows of other keys alone. -/
theorem row_updateWhere_of_ne (hf : ∀r,key (f r)=key r) (hp : ∀r,p r → key r≠k) :
    row key (updateWhere p f rows) k=row key rows k := by
  rw [row_updateWhere hf]
  cases h : row key rows k with
  | none => rfl
  | some r =>
    rw [Option.map_some,if_neg (fun hr => hp r hr (row_key h))]

theorem updateWhere_eq_self (h : ∀r∈rows,p r=false) : updateWhere p f rows=rows := by
  unfold updateWhere
  conv_rhs => rw [←List.map_id rows]
  refine List.map_congr_left (fun r hr => ?_)
  rw [h r hr]
  rfl

theorem upsert_of_none (h : row key rows (key new)=none) : upsert key new p f rows=rows++[new] :=
  if_neg (by rw [h]; exact Bool.false_ne_true)

theorem upsert_of_some (h : row key rows (key new)=some r) : upsert key new p f rows=
    updateWhere (fun r => decide (key r=key new) && p r) f rows :=
  if_pos (by rw [h]; rfl)

theorem row_upsert_of_ne (hf : ∀r,key (f r)=key r) (h : key new≠k) :
    row key (upsert key new p f rows) k=row key rows k := by
  unfold upsert
  split
  · refine row_updateWhere_of_ne hf (fun r hr he => h ?_)
    rw [Bool.and_eq_true,decide_eq_true_iff] at hr
    rw [←hr.1,he]
  · rw [row_append,if_neg h,Option.or_none]

theorem row_upsert_self (hf : ∀r,key (f r)=key r) :
    row key (upsert key new p f rows) (key new)=
      some (((row key rows (key new)).map (fun r => if p r then f r else r)).getD new) := by
  unfold upsert
  cases h : row key rows (key new) with
  | none =>
    simp only [Option.isSome_none,Bool.false_eq_true,if_false]
    rw [row_append,h]
    simp
  | some r =>
    simp only [Option.isSome_some,if_true]
    rw [row_updateWhere hf,h]
    simp [row_key h]

def UniqueKeys (key : ρ → κ) (rows : List ρ) : Prop := (rows.map key).Nodup

omit [DecidableEq κ] in
theorem UniqueKeys.updateWhere (h : UniqueKeys key rows) (hf : ∀r,key (f r)=key r) :
    UniqueKeys key (updateWhere p f rows) := by
  unfold UniqueKeys Framework.updateWhere
  have hmap : (rows.map (fun r => if p r then f r else r)).map key=rows.map key := by
    rw [List.map_map]
    refine List.map_congr_left (fun r _ => ?_)
    simp only [Function.comp]
    split
    · exact hf r
    · rfl
  rw [hmap]
  exact h

theorem row_eq_none (h : row key rows k=none) : ∀r∈rows,key r≠k := by
  intro r hr he
  have := List.find?_eq_none.mp h r hr
  simp [he] at this

omit [DecidableEq κ] in
theorem UniqueKeys.append (h : UniqueKeys key rows) (hnew : ∀r∈rows,key r≠key new) :
    UniqueKeys key (rows++[new]) := by
  unfold UniqueKeys at h ⊢
  rw [List.map_append,List.map_singleton,List.nodup_append]
  refine ⟨h,List.nodup_singleton _,?_⟩
  intro k hk j hj
  obtain ⟨r,hr,rfl⟩ := List.mem_map.mp hk
  rw [List.mem_singleton.mp hj]
  exact hnew r hr

theorem UniqueKeys.upsert (h : UniqueKeys key rows) (hf : ∀r,key (f r)=key r) :
    UniqueKeys key (upsert key new p f rows) := by
  unfold Framework.upsert
  split
  · exact h.updateWhere hf
  · rename_i hnone
    exact h.append (row_eq_none (by simpa using hnone))

/-- With unique keys every row is the row of its key. -/
theorem UniqueKeys.row_of_mem (h : UniqueKeys key rows) (hr : r∈rows) : row key rows (key r)=some r := by
  induction rows with
  | nil => cases hr
  | cons a rows ih =>
    unfold UniqueKeys at h
    rw [List.map_cons,List.nodup_cons] at h
    unfold row
    rcases List.mem_cons.mp hr with rfl | hr
    · rw [List.find?_cons_of_pos (by simp)]
    · have hne : key a≠key r := by
        intro he
        exact h.1 (he ▸ List.mem_map_of_mem hr)
      rw [List.find?_cons_of_neg (by simpa using hne)]
      exact ih h.2 hr

/-- A condition on one key counts no row or that key's. -/
theorem UniqueKeys.countP_eq_one (h : UniqueKeys key rows) (hp : ∀r,p r → key r=k) :
    rows.countP p=1 ↔ ∃r,row key rows k=some r ∧ p r := by
  have hcount : rows.countP p=if (row key rows k).any p then 1 else 0 := by
    induction rows with
    | nil => rfl
    | cons a rows ih =>
      unfold UniqueKeys at h
      rw [List.map_cons,List.nodup_cons] at h
      have hrest := ih h.2
      unfold row at hrest ⊢
      by_cases ha : key a=k
      · have hnone : rows.countP p=0 := by
          rw [List.countP_eq_zero]
          intro r hr hpr
          exact h.1 (by rw [ha,←hp r hpr]; exact List.mem_map_of_mem hr)
        rw [List.find?_cons_of_pos (by simpa using ha),List.countP_cons,hnone]
        simp
      · have hpa : p a=false := by
          rw [Bool.eq_false_iff]
          exact fun hpa => ha (hp a hpa)
        rw [List.find?_cons_of_neg (by simpa using ha),List.countP_cons,hpa,hrest]
        simp
  rw [hcount]
  cases row key rows k <;> simp

theorem UniqueKeys.of_countP_ne_one (h : UniqueKeys key rows) (hp : ∀r,p r → key r=k)
    (hcount : rows.countP p≠1) : ∀r∈rows,p r=false := by
  intro r hr
  rw [Bool.eq_false_iff]
  intro hpr
  have hk := hp r hpr
  exact hcount ((h.countP_eq_one hp).mpr ⟨r,hk ▸ h.row_of_mem hr,hpr⟩)

/-- Rows that a selection passes by, before and after the update, do not show in it. -/
theorem filter_updateWhere_of_not {g : ρ → Bool}
    (h : ∀r∈rows,p r → g r=false ∧ g (f r)=false) :
    (updateWhere p f rows).filter g=rows.filter g := by
  unfold updateWhere
  induction rows with
  | nil => rfl
  | cons a rows ih =>
    have hrest := ih (fun r hr => h r (List.mem_cons_of_mem a hr))
    rw [List.map_cons,List.filter_cons,List.filter_cons,hrest]
    by_cases hp : p a=true
    · obtain ⟨hbefore,hafter⟩ := h a (by simp) hp
      simp [hp,hbefore,hafter]
    · simp [hp]

theorem find?_updateWhere_of_not {g : ρ → Bool}
    (h : ∀r∈rows,p r → g r=false ∧ g (f r)=false) :
    (updateWhere p f rows).find? g=rows.find? g := by
  rw [←List.head?_filter,←List.head?_filter,filter_updateWhere_of_not h]

theorem row_filter_ne {j : κ} (h : j≠k) : row key (rows.filter (fun r => key r≠k)) j=row key rows j := by
  unfold row
  rw [List.find?_filter]
  congr 1
  funext r
  by_cases hr : key r=j
  · have hk : key r≠k := by rw [hr]; exact h
    simp [hr,h]
  · simp [hr]

theorem row_filter_self : row key (rows.filter (fun r => key r≠k)) k=none := by
  refine List.find?_eq_none.mpr (fun r hr => ?_)
  have hk := (List.mem_filter.mp hr).2
  simpa using hk

theorem mem_upsert_cases (h : r∈upsert key new p f rows) :
    r∈rows ∨ r=new ∨ ∃a∈rows,key a=key new ∧ p a=true ∧ r=f a := by
  unfold upsert at h
  split at h
  · obtain ⟨a,ha,rfl⟩ := List.mem_map.mp h
    split
    · rename_i hp
      rw [Bool.and_eq_true,decide_eq_true_iff] at hp
      exact .inr (.inr ⟨a,ha,hp.1,hp.2,rfl⟩)
    · exact .inl ha
  · rcases List.mem_append.mp h with h | h
    · exact .inl h
    · exact .inr (.inl (List.mem_singleton.mp h))

theorem mem_upsert (hf : ∀r,key (f r)=key r) (h : r∈upsert key new p f rows) :
    r∈rows ∨ key r=key new := by
  rcases mem_upsert_cases h with h | rfl | ⟨a,_,hk,_,rfl⟩
  · exact .inl h
  · exact .inr rfl
  · exact .inr ((hf a).trans hk)

theorem mem_upsert_of_ne (hr : r∈rows) (h : key r≠key new) : r∈upsert key new p f rows := by
  unfold upsert
  split
  · refine List.mem_map.mpr ⟨r,hr,?_⟩
    rw [if_neg]
    simp [h]
  · exact List.mem_append_left _ hr

/-- An upsert adds its own key to the keys of the table. -/
theorem mem_keys_upsert (hf : ∀r,key (f r)=key r) :
    k∈(upsert key new p f rows).map key ↔ k∈rows.map key ∨ k=key new := by
  unfold upsert
  split
  · rename_i hsome
    obtain ⟨a,ha⟩ := Option.isSome_iff_exists.mp hsome
    have hkeys : (updateWhere (fun r => decide (key r=key new) && p r) f rows).map key=rows.map key := by
      unfold updateWhere
      rw [List.map_map]
      refine List.map_congr_left (fun r _ => ?_)
      simp only [Function.comp]
      split
      · exact hf r
      · rfl
    rw [hkeys]
    refine ⟨.inl,?_⟩
    rintro (h | rfl)
    · exact h
    · exact List.mem_map.mpr ⟨a,mem_of_row ha,row_key ha⟩
  · simp [eq_comm]

theorem mem_updateWhere {r : ρ} (h : r∈updateWhere p f rows) :
    ∃a∈rows,r=if p a then f a else a := by
  obtain ⟨a,ha,he⟩ := List.mem_map.mp h
  exact ⟨a,ha,he.symm⟩

/-- The row of a unique key is the only one that a filter by it keeps. -/
theorem UniqueKeys.filter_key (h : UniqueKeys key rows) (k : κ) :
    rows.filter (fun r => key r=k)=(row key rows k).toList := by
  unfold UniqueKeys at h
  induction rows with
  | nil => rfl
  | cons r rows ih =>
    obtain ⟨hnew,hrest⟩ := List.nodup_cons.mp h
    by_cases hr : key r=k
    · have hnone : rows.filter (fun r => key r=k)=[] := by
        refine List.filter_eq_nil_iff.mpr (fun s hs hk => hnew (List.mem_map.mpr ⟨s,hs,?_⟩))
        rw [of_decide_eq_true hk,hr]
      simp [row,hr,hnone]
    · rw [List.filter_cons_of_neg (by simpa using hr),ih hrest]
      simp [row,hr]

end

end

section

variable {ρ κ : Type*} [DecidableEq κ] {key : ρ → κ} {rows : List ρ}

theorem sum_updateWhere {p : ρ → Bool} {f : ρ → ρ} (φ : ρ → Int) :
    ((updateWhere p f rows).map φ).sum=(rows.map (fun r => if p r then φ (f r) else φ r)).sum := by
  unfold updateWhere
  rw [List.map_map]
  exact congrArg List.sum (List.map_congr_left (fun r _ => by by_cases h : p r <;> simp [h]))

theorem UniqueKeys.sum_change (h : UniqueKeys key rows) {k : κ} {r : ρ} (hr : row key rows k=some r)
    (φ ψ : ρ → Int) : (rows.map (fun r => if key r=k then ψ r else φ r)).sum=(rows.map φ).sum+(ψ r-φ r) := by
  induction rows with
  | nil => cases hr
  | cons a rows ih =>
    unfold UniqueKeys at h
    obtain ⟨hnew,hrest⟩ := List.nodup_cons.mp h
    unfold row at hr
    by_cases ha : key a=k
    · have he : a=r := by simpa [ha] using hr
      subst he
      have hothers : rows.map (fun r => if key r=k then ψ r else φ r)=rows.map φ := by
        refine List.map_congr_left (fun b hb => if_neg (fun hk => hnew ?_))
        rw [ha,← hk]
        exact List.mem_map_of_mem hb
      rw [List.map_cons,List.map_cons,List.sum_cons,List.sum_cons,hothers,if_pos ha]
      omega
    · have hrow : row key rows k=some r := by
        unfold row
        simpa [ha] using hr
      rw [List.map_cons,List.map_cons,List.sum_cons,List.sum_cons,ih hrest hrow,if_neg ha]
      omega

/-- A sum over the rows of some keys is the sum, by these keys, of the sums of their rows. -/
theorem sum_by_key {keys : List κ} (hk : keys.Nodup) (w : ρ → Int) :
    (keys.map (fun k => ((rows.filter (fun r => key r=k)).map w).sum)).sum=
      ((rows.filter (fun r => key r∈keys)).map w).sum := by
  induction keys with
  | nil => simp
  | cons k keys ih =>
    obtain ⟨hnew,hrest⟩ := List.nodup_cons.mp hk
    rw [List.map_cons,List.sum_cons,ih hrest]
    clear ih
    induction rows with
    | nil => rfl
    | cons r rows ih =>
      simp only [List.mem_cons,Bool.decide_or] at ih ⊢
      by_cases hr : key r=k
      · have hout : k∉keys := hnew
        simp [hr,hout,← ih,add_assoc]
      · by_cases hin : key r∈keys <;> simp [hr,hin,← ih,add_left_comm]

theorem UniqueKeys.sum_by_key (h : UniqueKeys key rows) {keys : List κ} (hk : keys.Nodup) (w : ρ → Int) :
    (keys.map (fun k => ((row key rows k).map w).getD 0)).sum=
      ((rows.filter (fun r => key r∈keys)).map w).sum := by
  rw [← Framework.sum_by_key hk w]
  refine congrArg List.sum (List.map_congr_left (fun k _ => ?_))
  rw [h.filter_key]
  cases row key rows k <;> simp

end

end XiaoQing.Framework
