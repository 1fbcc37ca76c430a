import XiaoQing.Framework.Dict
import Mathlib.Data.List.Induction

/-! The three-way merge of dictionaries: what is stored, what a copy began with and what it has become -/

namespace XiaoQing.Framework.OrderedDict

variable {κ β : Type*} [DecidableEq κ]

/-- The entries of a list under a key of theirs; of two with one key the later stays. -/
def ofItems (key : β → κ) (items : List β) : OrderedDict κ β :=
  items.foldl (fun d r => d.assign (key r) r) []

/-- The desired entries are merged into the stored ones; one that the copy began with and that is stored
no more is left out. -/
def mergeInto (f : Option β → Option β → β → β) (latest baseline desired : OrderedDict κ β) :
    OrderedDict κ β :=
  desired.foldl (fun merged e =>
    if (baseline.get? e.1).isSome && (latest.get? e.1).isNone then merged
    else merged.assign e.1 (f (latest.get? e.1) (baseline.get? e.1) e.2)) latest

def mergeAll (f : Option β → Option β → β → β) (latest baseline desired : OrderedDict κ β) :
    OrderedDict κ β :=
  (mergeInto f latest baseline desired).discard fun k =>
    (baseline.get? k).isSome && (desired.get? k).isNone

/-- The keys in the order of the result: what others have added, then the copy's. -/
def mergeOrder (latest baseline desired : OrderedDict κ β) : List κ :=
  (latest.map Prod.fst).filter (fun k => (baseline.get? k).isNone && (desired.get? k).isNone)++
    desired.map Prod.fst

def mergeValues (f : Option β → Option β → β → β) (latest baseline desired : OrderedDict κ β) : List β :=
  (mergeOrder latest baseline desired).filterMap (mergeAll f latest baseline desired).get?

variable {d latest baseline desired : OrderedDict κ β} {j k : κ} {v : β}
  {f : Option β → Option β → β → β} {key : β → κ} {items : List β}

theorem get?_eq_none : d.get? k=none↔k∉d.map Prod.fst := by
  rw [← get?_isSome,Option.not_isSome_iff_eq_none]

theorem get?_of_mem (hd : (d.map Prod.fst).Nodup) (h : (k,v)∈d) : d.get? k=some v := by
  obtain ⟨w,hw⟩ := Option.isSome_iff_exists.mp (get?_isSome.mpr (List.mem_map_of_mem (f:=Prod.fst) h))
  have hin := mem_of_get? hw
  have heq : (k,w)=(k,v) := List.inj_on_of_nodup_map hd hin h rfl
  rw [hw]
  exact congrArg some (congrArg Prod.snd heq)

theorem keys_assign : (d.assign k v).map Prod.fst=
    if k∈d.map Prod.fst then d.map Prod.fst else d.map Prod.fst++[k] := by
  unfold assign
  by_cases hk : k∈d.map Prod.fst
  · rw [if_pos hk,if_pos (get?_isSome.mpr hk),List.map_map]
    apply List.map_congr_left
    intro e _
    by_cases he : e.1=k
    · simp [he]
    · simp [he]
  · rw [if_neg hk,if_neg (fun h => hk (get?_isSome.mp h)),List.map_append]
    rfl

theorem nodup_assign (h : (d.map Prod.fst).Nodup) : ((d.assign k v).map Prod.fst).Nodup := by
  rw [keys_assign]
  split_ifs with hk
  · exact h
  · exact List.Nodup.append h (List.nodup_singleton k) (by simpa using hk)

theorem ofItems_nodup : ((ofItems key items).map Prod.fst).Nodup := by
  unfold ofItems
  induction items using List.reverseRecOn with
  | nil => exact List.nodup_nil
  | append_singleton items r ih =>
    rw [List.foldl_concat]
    exact nodup_assign ih

/-- Items whose keys are all different stand in the dictionary as they come. -/
theorem ofItems_eq (h : (items.map key).Nodup) : ofItems key items=items.map fun r => (key r,r) := by
  unfold ofItems
  induction items using List.reverseRecOn with
  | nil => rfl
  | append_singleton items r ih =>
    rw [List.map_append,List.nodup_append] at h
    have hnew : key r∉items.map key := fun hmem => h.2.2 _ hmem _ (List.mem_singleton_self _) rfl
    rw [List.foldl_concat,ih h.1]
    have hnone : get? (items.map fun r => (key r,r)) (key r)=none := by
      rw [get?_eq_none,List.map_map]
      exact hnew
    unfold assign
    rw [hnone]
    simp

theorem mem_assign {e : κ×β} (h : e∈d.assign k v) : e=(k,v)∨e∈d := by
  unfold assign at h
  split_ifs at h
  · obtain ⟨old,hold,rfl⟩ := List.mem_map.mp h
    split_ifs
    · exact .inl rfl
    · exact .inr hold
  · rcases List.mem_append.mp h with hold | hnew
    · exact .inr hold
    · exact .inl (List.mem_singleton.mp hnew)

theorem mem_ofItems {e : κ×β} (h : e∈ofItems key items) : e.2∈items∧e.1=key e.2 := by
  unfold ofItems at h
  induction items using List.reverseRecOn with
  | nil => cases h
  | append_singleton items r ih =>
    rw [List.foldl_concat] at h
    rcases mem_assign h with rfl | hold
    · exact ⟨List.mem_append_right _ (List.mem_singleton_self r),rfl⟩
    · exact ⟨List.mem_append_left _ (ih hold).1,(ih hold).2⟩

/-! The merge, key by key -/

theorem get?_mergeInto (hd : (desired.map Prod.fst).Nodup) :
    (mergeInto f latest baseline desired).get? k=
      match desired.get? k with
      | none => latest.get? k
      | some v =>
        if (baseline.get? k).isSome && (latest.get? k).isNone then none
        else some (f (latest.get? k) (baseline.get? k) v) := by
  unfold mergeInto
  induction desired using List.reverseRecOn with
  | nil => rfl
  | append_singleton desired e ih =>
    rw [List.map_append,List.nodup_append] at hd
    have hnew : e.1∉desired.map Prod.fst := fun hmem => hd.2.2 _ hmem _ (List.mem_singleton_self _) rfl
    have hold := ih hd.1
    rw [List.foldl_concat,get?_append]
    by_cases hk : e.1=k
    · subst hk
      have hone : get? [e] e.1=some e.2 := by
        rw [get?_cons,if_pos rfl]
      rw [get?_eq_none.mpr hnew] at hold ⊢
      rw [Option.none_or,hone]
      dsimp only at hold ⊢
      split_ifs with hskip
      · rw [hold]
        rw [Bool.and_eq_true] at hskip
        exact Option.isNone_iff_eq_none.mp hskip.2
      · exact get?_assign_self
    · have hone : get? [e] k=none := by
        rw [get?_cons,if_neg hk]
        rfl
      rw [hone,Option.or_none,← hold]
      split_ifs
      · rfl
      · exact get?_assign_ne (Ne.symm hk)

theorem get?_mergeAll (hd : (desired.map Prod.fst).Nodup) :
    (mergeAll f latest baseline desired).get? k=
      match desired.get? k with
      | none => if (baseline.get? k).isSome then none else latest.get? k
      | some v =>
        if (baseline.get? k).isSome && (latest.get? k).isNone then none
        else some (f (latest.get? k) (baseline.get? k) v) := by
  unfold mergeAll
  rw [get?_discard,get?_mergeInto hd]
  cases desired.get? k with
  | none => simp
  | some v => simp

/-- Every key of the merge has its place in the order. -/
theorem mem_mergeOrder (hd : (desired.map Prod.fst).Nodup)
    (h : ((mergeAll f latest baseline desired).get? k).isSome=true) :
    k∈mergeOrder latest baseline desired := by
  unfold mergeOrder
  rw [get?_mergeAll hd] at h
  rw [List.mem_append,List.mem_filter]
  cases hk : desired.get? k with
  | some v => exact .inr (get?_isSome.mp (by rw [hk]; rfl))
  | none =>
    rw [hk] at h
    dsimp only at h
    split_ifs at h with hb
    · cases h
    · refine .inl ⟨get?_isSome.mp h,?_⟩
      simpa using hb

theorem nodup_mergeOrder (hl : (latest.map Prod.fst).Nodup) (hd : (desired.map Prod.fst).Nodup) :
    (mergeOrder latest baseline desired).Nodup := by
  unfold mergeOrder
  refine List.Nodup.append (hl.filter _) hd ?_
  intro k hk hin
  have hnone := (List.mem_filter.mp hk).2
  rw [Bool.and_eq_true,Option.isNone_iff_eq_none,Option.isNone_iff_eq_none,get?_eq_none,
    get?_eq_none] at hnone
  exact hnone.2 hin

theorem mem_mergeValues : v∈mergeValues f latest baseline desired↔
    ∃k∈mergeOrder latest baseline desired,(mergeAll f latest baseline desired).get? k=some v :=
  List.mem_filterMap

theorem map_key_mergeValues
    (hkey : ∀k v,(mergeAll f latest baseline desired).get? k=some v → key v=k) :
    (mergeValues f latest baseline desired).map key=(mergeOrder latest baseline desired).filter
      fun k => ((mergeAll f latest baseline desired).get? k).isSome := by
  unfold mergeValues
  generalize mergeOrder latest baseline desired=order
  induction order with
  | nil => rfl
  | cons k order ih =>
    rw [List.filterMap_cons,List.filter_cons]
    cases hv : (mergeAll f latest baseline desired).get? k with
    | none => simpa using ih
    | some v =>
      rw [List.map_cons,hkey k v hv]
      simpa using ih

/-- Where every value has the key it stands under, the result is the dictionary of the merge. -/
theorem get?_ofItems_mergeValues (hl : (latest.map Prod.fst).Nodup) (hd : (desired.map Prod.fst).Nodup)
    (hkey : ∀k v,(mergeAll f latest baseline desired).get? k=some v → key v=k) :
    ((mergeValues f latest baseline desired).map key).Nodup∧
      ∀k,(ofItems key (mergeValues f latest baseline desired)).get? k=
        (mergeAll f latest baseline desired).get? k := by
  have hkeys := map_key_mergeValues hkey
  have hnodup : ((mergeValues f latest baseline desired).map key).Nodup := by
    rw [hkeys]
    exact (nodup_mergeOrder hl hd).filter _
  refine ⟨hnodup,fun k => ?_⟩
  rw [ofItems_eq hnodup]
  have hpairs : (((mergeValues f latest baseline desired).map fun r => (key r,r)).map Prod.fst).Nodup := by
    rw [List.map_map]
    exact hnodup
  cases hv : (mergeAll f latest baseline desired).get? k with
  | none =>
    rw [get?_eq_none,List.map_map]
    intro hmem
    have hmem' : k∈(mergeValues f latest baseline desired).map key := hmem
    rw [hkeys,List.mem_filter,hv] at hmem'
    cases hmem'.2
  | some v =>
    apply get?_of_mem hpairs
    refine List.mem_map.mpr ⟨v,?_,by rw [hkey k v hv]⟩
    exact mem_mergeValues.mpr ⟨k,mem_mergeOrder hd (by rw [hv]; rfl),hv⟩

end XiaoQing.Framework.OrderedDict
