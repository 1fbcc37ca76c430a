import Mathlib.Data.List.AList
import Mathlib.Data.List.Basic
import Mathlib.Data.List.Nodup
import Mathlib.Data.List.Zip
import Mathlib.Tactic.Common
import Mathlib.Algebra.GroupWithZero.Nat

namespace XiaoQing.Framework

section

variable {κ β : Type*} [DecidableEq κ]

/-- A dictionary read with a default for missing keys. -/
def lookupD (m : AList (fun _ : κ => β)) (k : κ) (d : β) : β := (m.lookup k).getD d

def total (f : β → Nat) (m : AList (fun _ : κ => β)) : Nat := (m.entries.map (fun e => f e.2)).sum

variable {m : AList (fun _ : κ => β)} {k j : κ} {d v : β} {f : β → Nat}

@[simp] theorem lookupD_empty : lookupD (∅ : AList (fun _ : κ => β)) k d=d := by
  simp [lookupD]

@[simp] theorem lookupD_insert_self : lookupD (m.insert k v) k d=v := by
  simp [lookupD]

theorem lookupD_insert_ne (h : j≠k) : lookupD (m.insert k v) j d=lookupD m j d := by
  simp [lookupD,h]

@[simp] theorem lookupD_erase_self : lookupD (m.erase k) k d=d := by
  simp [lookupD]

theorem lookupD_erase_ne (h : j≠k) : lookupD (m.erase k) j d=lookupD m j d := by
  rw [lookupD,AList.lookup_erase_ne h,lookupD]

/-- Erasing a key that reads as the default cannot be seen. -/
theorem lookupD_erase_default (h : lookupD m k d=d) : lookupD (m.erase k) j d=lookupD m j d := by
  by_cases hj : j=k
  · subst j; rw [lookupD_erase_self,h]
  · exact lookupD_erase_ne hj

theorem sum_kerase (f : β → Nat) (l : List (Sigma (fun _ : κ => β))) (k : κ) :
    ((l.kerase k).map (fun e => f e.2)).sum+((l.dlookup k).elim 0 f)=
      (l.map (fun e => f e.2)).sum := by
  induction l with
  | nil => simp
  | cons e l ih =>
    obtain ⟨j,v⟩ := e
    by_cases hj : k=j
    · subst j
      have he : List.kerase k (⟨k,v⟩::l)=l := List.kerase_cons_eq rfl
      have hl : List.dlookup k (⟨k,v⟩::l)=some v := List.dlookup_cons_eq l k v
      rw [he,hl]
      simp only [List.map_cons,List.sum_cons,Option.elim_some]
      omega
    · rw [List.kerase_cons_ne hj,List.dlookup_cons_ne _ _ hj]
      simp only [List.map_cons,List.sum_cons]
      omega

theorem elim_lookup (hd : f d=0) : (List.dlookup k m.entries).elim 0 f=f (lookupD m k d) := by
  unfold lookupD AList.lookup
  cases List.dlookup k m.entries with
  | none => simp [hd]
  | some v => rfl

omit [DecidableEq κ] in
@[simp] theorem total_empty : total f (∅ : AList (fun _ : κ => β))=0 := rfl

/-- Removing a key takes its weight out of the total. -/
theorem total_erase (hd : f d=0) : total f (m.erase k)+f (lookupD m k d)=total f m := by
  have h := sum_kerase f m.entries k
  rw [elim_lookup hd] at h
  exact h

/-- Writing a key replaces its weight in the total. -/
theorem total_insert (hd : f d=0) : total f (m.insert k v)+f (lookupD m k d)=total f m+f v := by
  have h := total_erase (m := m) (k := k) hd
  have hi : total f (m.insert k v)=f v+total f (m.erase k) := by
    simp only [total,AList.entries_insert,List.map_cons,List.sum_cons]
    rfl
  omega

end

section

variable {κ β : Type*} [DecidableEq κ]

/-- A dictionary that keeps the order in which its keys came. -/
abbrev OrderedDict (κ β : Type*) := List (κ×β)

namespace OrderedDict

def get? (d : OrderedDict κ β) (k : κ) : Option β := (d.find? fun e => e.1=k).map Prod.snd

def assign (d : OrderedDict κ β) (k : κ) (v : β) : OrderedDict κ β :=
  if (d.get? k).isSome then d.map fun e => if e.1=k then (k,v) else e else d++[(k,v)]

def discard (d : OrderedDict κ β) (p : κ → Bool) : OrderedDict κ β := d.filter fun e => !p e.1

variable {d : OrderedDict κ β} {j k : κ} {v : β} {e : κ×β} {p : κ → Bool}

theorem get?_cons (e : κ×β) (d : OrderedDict κ β) (k : κ) :
    get? (e::d) k=if e.1=k then some e.2 else d.get? k := by
  unfold get?
  rw [List.find?_cons]
  split_ifs with h
  · simp [h]
  · simp [h]

theorem mem_of_get? (h : d.get? k=some v) : (k,v)∈d := by
  obtain ⟨e,he,rfl⟩ := Option.map_eq_some_iff.mp h
  have hkey := List.find?_some he
  have hk : e.1=k := of_decide_eq_true hkey
  rw [← hk]
  exact List.mem_of_find?_eq_some he

theorem get?_isSome : (d.get? k).isSome=true↔k∈d.map Prod.fst := by
  unfold get?
  rw [Option.isSome_map,List.find?_isSome,List.mem_map]
  constructor
  · rintro ⟨e,he,hk⟩
    exact ⟨e,he,of_decide_eq_true hk⟩
  · rintro ⟨e,he,hk⟩
    exact ⟨e,he,decide_eq_true hk⟩

theorem get?_append (c d : OrderedDict κ β) (k : κ) : get? (c++d) k=(c.get? k).or (d.get? k) := by
  induction c with
  | nil => rfl
  | cons e c ih =>
    rw [List.cons_append,get?_cons,get?_cons,ih]
    split_ifs
    · rfl
    · rfl

theorem get?_replace (k : κ) (v : β) (d : OrderedDict κ β) (j : κ) :
    get? (d.map fun e => if e.1=k then (k,v) else e) j=
      if j=k then (d.get? k).map fun _ => v else d.get? j := by
  induction d with
  | nil =>
    split_ifs
    · rfl
    · rfl
  | cons e d ih =>
    rw [List.map_cons,get?_cons,get?_cons,get?_cons,ih]
    by_cases he : e.1=k
    · by_cases hj : j=k
      · simp [he,hj]
      · simp [he,hj,Ne.symm hj]
    · by_cases hj : j=k
      · simp [he,hj]
      · simp [he,hj]

theorem get?_assign_self : (d.assign k v).get? k=some v := by
  unfold assign
  split_ifs with h
  · obtain ⟨w,hw⟩ := Option.isSome_iff_exists.mp h
    rw [get?_replace,if_pos rfl,hw]
    rfl
  · have hnone : d.get? k=none := Option.not_isSome_iff_eq_none.mp h
    rw [get?_append,hnone,get?_cons,if_pos rfl]
    rfl

theorem get?_assign_ne (h : j≠k) : (d.assign k v).get? j=d.get? j := by
  unfold assign
  split_ifs
  · rw [get?_replace,if_neg h]
  · rw [get?_append,get?_cons,if_neg (Ne.symm h)]
    exact Option.or_none

theorem get?_discard : (d.discard p).get? k=if p k then none else d.get? k := by
  unfold discard
  induction d with
  | nil =>
    split_ifs
    · rfl
    · rfl
  | cons e d ih =>
    by_cases hp : p e.1=true
    · rw [List.filter_cons_of_neg (by simp [hp]),ih,get?_cons]
      by_cases he : e.1=k
      · rw [he] at hp
        rw [if_pos hp,if_pos hp]
      · rw [if_neg he]
    · rw [List.filter_cons_of_pos (by simp [hp]),get?_cons,get?_cons,ih]
      by_cases he : e.1=k
      · rw [he] at hp
        rw [if_pos he,if_neg hp,if_pos he]
      · rw [if_neg he,if_neg he]

end OrderedDict

end

section

variable {α κ : Type*} [DecidableEq κ] {key : α → κ} {l p : List α} {d : OrderedDict κ Nat} {a : α} {k : κ}
  {i : Nat}

/-- A dictionary of positions: a key is found exactly where it stands in the list. -/
def Exact (key : α → κ) (l : List α) (d : OrderedDict κ Nat) : Prop :=
  ∀k i,d.get? k=some i↔∃a,l[i]?=some a∧key a=k

/-- `{key(a): i for i, a in enumerate(l)}` -/
def positions (key : α → κ) (l : List α) : OrderedDict κ Nat :=
  l.zipIdx.foldl (fun d e => d.assign (key e.1) e.2) []

theorem Exact.nil (key : α → κ) : Exact key [] [] := by
  intro k i
  constructor
  · intro h
    cases h
  · rintro ⟨a,ha,-⟩
    cases ha

theorem Exact.get? (h : Exact key l d) (hi : l[i]?=some a) : d.get? (key a)=some i :=
  (h _ _).mpr ⟨a,hi,rfl⟩

theorem Exact.nodup (h : Exact key l d) : (l.map key).Nodup := by
  rw [List.nodup_iff_getElem?_ne_getElem?]
  intro i j hij hj hsame
  rw [List.length_map] at hj
  have hi : i<l.length := by omega
  rw [List.getElem?_map,List.getElem?_map,List.getElem?_eq_getElem hi,List.getElem?_eq_getElem hj,
    Option.map_some,Option.map_some,Option.some.injEq] at hsame
  have hati := h.get? (List.getElem?_eq_getElem hi)
  have hatj := h.get? (List.getElem?_eq_getElem hj)
  rw [hsame,hatj,Option.some.injEq] at hati
  omega

theorem Exact.absent (h : Exact key l d) (hk : d.get? k=none) : ∀a∈l,key a≠k := by
  rintro a ha rfl
  obtain ⟨i,hi⟩ := List.mem_iff_getElem?.mp ha
  rw [h.get? hi] at hk
  cases hk

theorem Exact.snoc (h : Exact key l d) (ha : ∀b∈l,key b≠key a) :
    Exact key (l++[a]) (d.assign (key a) l.length) := by
  intro k i
  by_cases hk : k=key a
  · subst hk
    rw [OrderedDict.get?_assign_self,Option.some.injEq]
    constructor
    · rintro rfl
      exact ⟨a,List.getElem?_concat_length,rfl⟩
    · rintro ⟨b,hb,hkey⟩
      by_contra hne
      rcases Nat.lt_trichotomy i l.length with hi | hi | hi
      · rw [List.getElem?_append_left hi] at hb
        exact ha b (List.mem_of_getElem? hb) hkey
      · exact hne hi.symm
      · rw [List.getElem?_eq_none (by simp; omega)] at hb
        cases hb
  · rw [OrderedDict.get?_assign_ne hk,h]
    constructor
    · rintro ⟨b,hb,hkey⟩
      obtain ⟨hi,-⟩ := List.getElem?_eq_some_iff.mp hb
      exact ⟨b,by rw [List.getElem?_append_left hi,hb],hkey⟩
    · rintro ⟨b,hb,hkey⟩
      rcases Nat.lt_trichotomy i l.length with hi | rfl | hi
      · rw [List.getElem?_append_left hi] at hb
        exact ⟨b,hb,hkey⟩
      · rw [List.getElem?_concat_length,Option.some.injEq] at hb
        rw [hb] at hk
        exact absurd hkey.symm hk
      · rw [List.getElem?_eq_none (by simp; omega)] at hb
        cases hb

theorem Exact.set (h : Exact key l d) (ha : d.get? (key a)=some i) : Exact key (l.set i a) d := by
  obtain ⟨b,hb,hkey⟩ := (h _ _).mp ha
  obtain ⟨hi,-⟩ := List.getElem?_eq_some_iff.mp hb
  intro k j
  rw [h]
  by_cases hj : i=j
  · subst hj
    rw [List.getElem?_set_self hi,hb]
    constructor
    · rintro ⟨c,hc,rfl⟩
      cases hc
      exact ⟨a,rfl,hkey.symm⟩
    · rintro ⟨c,hc,rfl⟩
      cases hc
      exact ⟨b,rfl,hkey⟩
  · rw [List.getElem?_set_ne hj]

theorem foldl_exact (h : Exact key p d) (hn : ((p++l).map key).Nodup) :
    Exact key (p++l) ((l.zipIdx p.length).foldl (fun d e => d.assign (key e.1) e.2) d) := by
  induction l generalizing p d with
  | nil =>
    rw [List.append_nil]
    exact h
  | cons a l ih =>
    rw [List.zipIdx_cons,List.foldl_cons]
    have hsplit : p++a::l=(p++[a])++l := by simp
    rw [hsplit] at hn ⊢
    have hfirst := hn
    rw [List.map_append,List.nodup_append] at hfirst
    have hnew : ∀b∈p,key b≠key a := by
      have hpa := hfirst.1
      rw [List.map_append,List.nodup_append] at hpa
      intro b hb
      exact hpa.2.2 _ (List.mem_map_of_mem hb) _ (List.mem_singleton.mpr rfl)
    have hrest := ih (h.snoc hnew) hn
    rw [List.length_append,List.length_singleton] at hrest
    exact hrest

theorem positions_exact (hn : (l.map key).Nodup) : Exact key l (positions key l) := by
  have h := foldl_exact (Exact.nil key) (p:=[]) (l:=l) hn
  exact h

end

end XiaoQing.Framework
