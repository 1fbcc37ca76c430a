import Mathlib.Data.List.Nodup
import Mathlib.Data.List.Perm.Basic
import Mathlib.Data.List.Sort
import Mathlib.Data.Prod.Lex
import Mathlib.Order.Basic
import Mathlib.Tactic.Common

namespace XiaoQing.Framework

section

variable {α κ : Type*} [LinearOrder κ] {key : α → κ} {p : α → Bool} {l l' : List α} {a b : α}

/-- The highest key first; elements of one key keep their order. -/
def rank (key : α → κ) (l : List α) : List α := l.insertionSort (fun a b => key b≤key a)

@[simp] theorem mem_rank : a∈rank key l ↔ a∈l := List.mem_insertionSort _

theorem rank_sorted (key : α → κ) (l : List α) :
    (rank key l).Pairwise (fun a b => key b≤key a) := by
  have htotal : Std.Total (fun a b : α => key b≤key a) := ⟨fun a b => le_total (key b) (key a)⟩
  have htrans : IsTrans α (fun a b => key b≤key a) := ⟨fun _ _ _ hab hbc => le_trans hbc hab⟩
  exact List.pairwise_insertionSort _ l

/-- The first hit of a ranked list has the highest key of all hits. -/
theorem find?_rank (h : (rank key l).find? p=some a) :
    a∈l ∧ p a=true ∧ ∀b∈l,p b=true → key b≤key a := by
  obtain ⟨ha,before,after,hsplit,hmiss⟩ := List.find?_eq_some_iff_append.mp h
  have hmem : a∈rank key l := List.mem_of_find?_eq_some h
  refine ⟨mem_rank.mp hmem,ha,?_⟩
  intro b hb hpb
  have hb' : b∈before++a::after := hsplit ▸ mem_rank.mpr hb
  have hsorted := rank_sorted key l
  rw [hsplit] at hsorted
  cases List.mem_append.mp hb' with
  | inl hbefore =>
    have hx := hmiss b hbefore
    rw [hpb] at hx
    cases hx
  | inr hrest =>
    cases List.mem_cons.mp hrest with
    | inl he => rw [he]
    | inr hafter =>
      have htail := (List.pairwise_append.mp hsorted).2.1
      exact (List.pairwise_cons.mp htail).1 b hafter

theorem find?_rank_none (h : (rank key l).find? p=none) : ∀b∈l,p b=false := by
  intro b hb
  simpa using List.find?_eq_none.mp h b (mem_rank.mpr hb)

/-- Where the hits of one key are one, the first hit depends on the elements alone. -/
theorem find?_rank_congr (hl : ∀x,x∈l ↔ x∈l')
    (hu : ∀a∈l,∀b∈l,p a=true → p b=true → key a=key b → a=b) :
    (rank key l).find? p=(rank key l').find? p := by
  cases h : (rank key l).find? p with
  | none =>
    symm
    rw [List.find?_eq_none]
    intro b hb
    have hmiss := find?_rank_none h b ((hl b).mpr (mem_rank.mp hb))
    simp [hmiss]
  | some a =>
    obtain ⟨ha,hpa,hmax⟩ := find?_rank h
    cases h' : (rank key l').find? p with
    | none =>
      have hmiss := find?_rank_none h' a ((hl a).mp ha)
      rw [hpa] at hmiss
      cases hmiss
    | some b =>
      obtain ⟨hb,hpb,hmax'⟩ := find?_rank h'
      have hb' := (hl b).mpr hb
      have hkey : key a=key b :=
        le_antisymm (hmax' a ((hl a).mp ha) hpa) (hmax b hb' hpb)
      rw [hu a ha b hb' hpa hpb hkey]

end

section

variable {α κ : Type*}

section

variable [DecidableEq κ] {key : α → κ} {seen : List κ} {l r : List α} {a : α}

/-- The first element of every key that is not `seen` yet. -/
def distinct (key : α → κ) : List κ → List α → List α
  | _,[] => []
  | seen,a::l => if key a∈seen then distinct key seen l else a::distinct key (key a::seen) l

theorem distinct_sublist (key : α → κ) (seen : List κ) (l : List α) : (distinct key seen l).Sublist l := by
  induction l generalizing seen with
  | nil => exact .slnil
  | cons b l ih =>
    unfold distinct
    split_ifs
    · exact (ih seen).cons b
    · exact (ih _).cons_cons b

theorem mem_of_mem_distinct (h : a∈distinct key seen l) : a∈l := (distinct_sublist _ _ _).subset h

theorem distinct_nodup (key : α → κ) (seen : List κ) (l : List α) :
    ((distinct key seen l).map key).Nodup∧∀a∈distinct key seen l,key a∉seen := by
  induction l generalizing seen with
  | nil => exact ⟨List.nodup_nil,nofun⟩
  | cons b l ih =>
    unfold distinct
    split_ifs with hb
    · exact ih seen
    · obtain ⟨hn,hs⟩ := ih (key b::seen)
      refine ⟨List.nodup_cons.mpr ⟨fun hm => ?_,hn⟩,fun a ha => ?_⟩
      · obtain ⟨a,ha,hk⟩ := List.mem_map.mp hm
        exact hs a ha (by rw [hk]; exact .head _)
      · cases ha with
        | head => exact hb
        | tail _ ha => exact fun hm => hs a ha (.tail _ hm)

theorem distinct_covers (h : a∈l) : key a∈seen∨∃b∈distinct key seen l,key b=key a := by
  induction l generalizing seen with
  | nil => cases h
  | cons b l ih =>
    unfold distinct
    split_ifs with hb
    · cases h with
      | head => exact .inl hb
      | tail _ h => exact ih h
    · cases h with
      | head => exact .inr ⟨a,.head _,rfl⟩
      | tail _ h =>
        rcases (ih h : key a∈key b::seen∨_) with hs | ⟨c,hc,hk⟩
        · rcases List.mem_cons.mp hs with he | hs
          · exact .inr ⟨b,.head _,he.symm⟩
          · exact .inl hs
        · exact .inr ⟨c,.tail _ hc,hk⟩

theorem distinct_of_nodup (hn : (l.map key).Nodup) (hs : ∀a∈l,key a∉seen) : distinct key seen l=l := by
  induction l generalizing seen with
  | nil => rfl
  | cons b l ih =>
    obtain ⟨hb,hn⟩ := List.nodup_cons.mp hn
    unfold distinct
    rw [if_neg (hs b (.head _)),ih hn]
    intro a ha hm
    rcases List.mem_cons.mp hm with he | hm
    · exact hb (he ▸ List.mem_map_of_mem ha)
    · exact hs a (.tail _ ha) hm

theorem distinct_append_old (h : ∀a∈r,key a∈seen∨∃b∈l,key b=key a) :
    distinct key seen (l++r)=distinct key seen l := by
  induction l generalizing seen with
  | nil =>
    simp only [List.nil_append]
    induction r with
    | nil => rfl
    | cons b r ih =>
      have hb : key b∈seen := by
        rcases h b (.head _) with hb | ⟨c,hc,-⟩
        · exact hb
        · cases hc
      unfold distinct
      rw [if_pos hb]
      exact ih fun a ha => h a (.tail _ ha)
  | cons b l ih =>
    simp only [List.cons_append]
    unfold distinct
    split_ifs with hb
    · refine ih fun a ha => ?_
      rcases h a ha with hs | ⟨c,hc,hk⟩
      · exact .inl hs
      · cases hc with
        | head => exact .inl (hk ▸ hb)
        | tail _ hc => exact .inr ⟨c,hc,hk⟩
    · congr 1
      refine ih fun a ha => ?_
      rcases h a ha with hs | ⟨c,hc,hk⟩
      · exact .inl (.tail _ hs)
      · cases hc with
        | head => exact .inl (hk ▸ .head _)
        | tail _ hc => exact .inr ⟨c,hc,hk⟩

end

section

variable {n : Nat} {l r : List α} {a : α}

/-- The last `n` elements. -/
def latest (n : Nat) (l : List α) : List α := l.drop (l.length-n)

theorem latest_suffix (n : Nat) (l : List α) : latest n l <:+ l := List.drop_suffix _ _

theorem length_latest (n : Nat) (l : List α) : (latest n l).length=min n l.length := by
  unfold latest
  rw [List.length_drop]
  omega

theorem latest_of_le (h : l.length≤n) : latest n l=l := by
  unfold latest
  rw [Nat.sub_eq_zero_of_le h,List.drop_zero]

/-- What was pushed out stays out, and pushes nothing else out. -/
theorem latest_latest_append (n : Nat) (l r : List α) : latest n (latest n l++r)=latest n (l++r) := by
  unfold latest
  rw [← List.drop_append_of_le_length (Nat.sub_le _ _),List.drop_drop]
  simp only [List.length_append,List.length_drop]
  congr 1
  omega

theorem latest_append_of_le (h : n≤r.length) : latest n (l++r)=latest n r := by
  unfold latest
  have hskip : (l++r).length-n=l.length+(r.length-n) := by
    rw [List.length_append]
    omega
  rw [hskip,← List.drop_drop,List.drop_left]

theorem latest_append_latest (n : Nat) (l r : List α) : latest n (l++latest n r)=latest n (l++r) := by
  by_cases h : r.length≤n
  · rw [latest_of_le h]
  · have hlong : n≤(latest n r).length := by
      rw [length_latest]
      omega
    rw [latest_append_of_le hlong,latest_append_of_le (by omega)]
    have htwice := latest_latest_append n r []
    rw [List.append_nil,List.append_nil] at htwice
    exact htwice

theorem mem_latest_append (h : r.length<n) : a∈latest n (l++a::r) := by
  have hs : a::r <:+ latest n (l++a::r) := by
    unfold latest
    rw [List.drop_append_of_le_length (by simp only [List.length_append,List.length_cons]; omega)]
    exact List.suffix_append _ _
  exact hs.subset (.head _)

end

section

variable [LinearOrder κ] {key : α → κ} {l : List α}

/-- `list.sort(key=…)`: ascending, and elements of one key keep their order. -/
def arrange (key : α → κ) (l : List α) : List α := l.mergeSort fun a b => key a≤key b

theorem arrange_perm (key : α → κ) (l : List α) : (arrange key l).Perm l := List.mergeSort_perm _ _

theorem arrange_sorted (key : α → κ) (l : List α) : (arrange key l).Pairwise fun a b => key a≤key b := by
  have h := @List.pairwise_mergeSort _ (fun a b => decide (key a≤key b))
    (fun a b c hab hbc => by simpa using le_trans (of_decide_eq_true hab) (of_decide_eq_true hbc))
    (fun a b => by simpa using le_total (key a) (key b)) l
  exact h.imp of_decide_eq_true

theorem arrange_of_sorted (h : l.Pairwise fun a b => key a≤key b) : arrange key l=l :=
  List.mergeSort_of_pairwise (h.imp decide_eq_true)

end

end

end XiaoQing.Framework
