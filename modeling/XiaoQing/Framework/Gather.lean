import XiaoQing.Framework.ThreeWay

/-! Dictionaries whose value at a key is made of the elements of that key -/

namespace XiaoQing.Framework.OrderedDict

variable {α κ β : Type*} [DecidableEq κ] {key : α → κ} {f : β → α → β} {init : β}
  {d : OrderedDict κ β} {a : α} {k : κ} {v : β} {w : β → Nat} {g : α → Nat}

/-- `d[key] = f(d[key], a)`, where a missing value is `init`. -/
def gather (key : α → κ) (f : β → α → β) (init : β) (d : OrderedDict κ β) (a : α) : OrderedDict κ β :=
  d.assign (key a) (f ((d.get? (key a)).getD init) a)

theorem get?_gather : (gather key f init d a).get? k=
    if key a=k then some (f ((d.get? k).getD init) a) else d.get? k := by
  unfold gather
  split_ifs with h
  · subst h
    exact get?_assign_self
  · exact get?_assign_ne (Ne.symm h)

theorem isSome_gathered (l : List α) :
    ((l.foldl (gather key f init) []).get? k).isSome=true↔∃a∈l,key a=k := by
  induction l using List.reverseRecOn with
  | nil => simp [get?]
  | append_singleton l a ih =>
    rw [List.foldl_append,List.foldl_cons,List.foldl_nil,get?_gather]
    split_ifs with hkey
    · exact ⟨fun _ => ⟨a,by simp,hkey⟩,fun _ => rfl⟩
    · rw [ih]
      constructor
      · intro h
        obtain ⟨b,hb,hk⟩ := h
        exact ⟨b,List.mem_append_left _ hb,hk⟩
      · intro h
        obtain ⟨b,hb,hk⟩ := h
        rcases List.mem_append.mp hb with hb | hb
        · exact ⟨b,hb,hk⟩
        · exact absurd (List.mem_singleton.mp hb ▸ hk) hkey

/-- The value of a key is what the elements of that key make, in their order. -/
theorem getD_gathered (l : List α) : ((l.foldl (gather key f init) []).get? k).getD init=
    (l.filter (fun a => key a=k)).foldl f init := by
  induction l using List.reverseRecOn with
  | nil => rfl
  | append_singleton l a ih =>
    rw [List.foldl_append,List.foldl_cons,List.foldl_nil,get?_gather,List.filter_append,List.foldl_append,
      ← ih]
    by_cases h : key a=k
    · simp [h]
    · simp [h]

theorem nodup_gathered (key : α → κ) (f : β → α → β) (init : β) (l : List α) :
    ((l.foldl (gather key f init) []).map Prod.fst).Nodup := by
  induction l using List.reverseRecOn with
  | nil => exact List.nodup_nil
  | append_singleton l a ih =>
    rw [List.foldl_append]
    exact nodup_assign ih

theorem sum_assign (hd : (d.map Prod.fst).Nodup) :
    ((d.assign k v).map (fun e => w e.2)).sum+(d.get? k).elim 0 w=(d.map (fun e => w e.2)).sum+w v := by
  unfold assign
  split_ifs with h
  · induction d with
    | nil => cases h
    | cons e d ih =>
      obtain ⟨hnew,hd⟩ := List.nodup_cons.mp hd
      rw [get?_cons] at h ⊢
      by_cases he : e.1=k
      · have hrest : (d.map fun e => if e.1=k then (k,v) else e)=d := by
          conv_rhs => rw [← List.map_id d]
          apply List.map_congr_left
          intro b hb
          rw [if_neg (fun hk : b.1=k => hnew (he.trans hk.symm ▸ List.mem_map_of_mem hb))]
          rfl
        simp only [List.map_cons,if_pos he,hrest,List.sum_cons,Option.elim_some]
        omega
      · rw [if_neg he] at h
        have hsum := ih hd h
        simp only [List.map_cons,if_neg he,List.sum_cons]
        omega
  · rw [Option.not_isSome_iff_eq_none.mp h]
    simp

/-- A measure that every element adds to is, over all values, the sum of what the elements add. -/
theorem sum_gathered (h0 : w init=0) (hw : ∀v a,w (f v a)=w v+g a) (l : List α) :
    ((l.foldl (gather key f init) []).map (fun e => w e.2)).sum=(l.map g).sum := by
  induction l using List.reverseRecOn with
  | nil => rfl
  | append_singleton l a ih =>
    rw [List.foldl_append,List.map_append,List.sum_append,← ih,List.foldl_cons,List.foldl_nil]
    generalize hd : l.foldl (gather key f init) []=d
    have hnodup : (d.map Prod.fst).Nodup := hd ▸ nodup_gathered key f init l
    have hsum := sum_assign (k:=key a) (v:=f ((d.get? (key a)).getD init) a) (w:=w) hnodup
    have hold : ∀o : Option β,o.elim 0 w=w (o.getD init) := fun o => by
      cases o with
      | none => exact h0.symm
      | some v => rfl
    rw [hw,hold] at hsum
    unfold gather
    simp only [List.map_cons,List.map_nil,List.sum_cons,List.sum_nil]
    omega

end XiaoQing.Framework.OrderedDict
