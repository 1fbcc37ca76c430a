import Mathlib.Data.List.Nodup
import Mathlib.Data.List.TakeDrop
import Mathlib.Tactic.Common

/-! Reading a list by pages while it changes: an element stands at one place in each of the lists read -/

namespace XiaoQing.Framework.Pages

/-- How often a page holds the element; `places` are its places in the lists as they are read. -/
def shown (size : Nat) : Nat → List Nat → Nat
  | _,[] => 0
  | offset,a::places => (if offset ≤ a∧a<offset+size then 1 else 0)+shown size (offset+size) places

/-- How often the element gets from the places to be read to those that are read, between two pages. -/
def skipped (size : Nat) : Nat → List Nat → Nat
  | offset,a::b::places =>
    (if offset+size ≤ a∧b<offset+size then 1 else 0)+skipped size (offset+size) (b::places)
  | _,_ => 0

/-- How often it gets back from the places that are read. -/
def returned (size : Nat) : Nat → List Nat → Nat
  | offset,a::b::places =>
    (if a<offset+size∧offset+size ≤ b then 1 else 0)+returned size (offset+size) (b::places)
  | _,_ => 0

variable {size offset : Nat}

theorem page_part (size offset a : Nat) :
    (if offset ≤ a∧a<offset+size then 1 else 0)+(if a<offset then 1 else 0)=
      if a<offset+size then 1 else 0 := by
  split_ifs
  all_goals omega

theorem crossing_part (offset a b : Nat) :
    (if offset ≤ a∧b<offset then 1 else 0)+(if a<offset then 1 else 0)=
      (if b<offset then 1 else 0)+(if a<offset∧offset ≤ b then 1 else 0) := by
  split_ifs
  all_goals omega

/-- The pages hold the element once, once more for each return and once less for each skip. -/
theorem shown_balance (size offset a : Nat) (places : List Nat)
    (hlast : ∀b,(a::places).getLast?=some b → b<offset+size*(places.length+1)) :
    shown size offset (a::places)+skipped size offset (a::places)+(if a<offset then 1 else 0)=
      1+returned size offset (a::places) := by
  have hpage := page_part size offset a
  induction places generalizing a offset with
  | nil =>
    have hin := hlast a rfl
    rw [List.length_nil,Nat.zero_add,Nat.mul_one] at hin
    rw [if_pos hin] at hpage
    change (if offset ≤ a∧a<offset+size then 1 else 0)+0+0+(if a<offset then 1 else 0)=1+0
    rw [Nat.add_zero,Nat.add_zero,hpage]
  | cons b places ih =>
    have hrest := ih (offset+size) b (by
      intro c hc
      have hbound := hlast c (by rw [List.getLast?_cons_cons]; exact hc)
      rw [List.length_cons,Nat.mul_add size (places.length+1) 1,Nat.mul_one] at hbound
      omega) (page_part size (offset+size) b)
    have hcross := crossing_part (offset+size) a b
    change (if offset ≤ a∧a<offset+size then 1 else 0)+shown size (offset+size) (b::places)+
      ((if offset+size ≤ a∧b<offset+size then 1 else 0)+skipped size (offset+size) (b::places))+
      (if a<offset then 1 else 0)=
      1+((if a<offset+size∧offset+size ≤ b then 1 else 0)+returned size (offset+size) (b::places))
    omega

theorem shown_once_iff {a : Nat} {places : List Nat}
    (hlast : ∀b,(a::places).getLast?=some b → b < size*(places.length+1)) :
    shown size 0 (a::places)=1↔returned size 0 (a::places)=skipped size 0 (a::places) := by
  have h := shown_balance size 0 a places (by rwa [Nat.zero_add])
  rw [if_neg (Nat.not_lt_zero a)] at h
  omega

/-- Where the element keeps its place, there is neither. -/
theorem still_replicate (size offset a n : Nat) :
    skipped size offset (List.replicate n a)=0∧returned size offset (List.replicate n a)=0 := by
  induction n generalizing offset with
  | zero => exact ⟨rfl,rfl⟩
  | succ n ih =>
    cases n with
    | zero => exact ⟨rfl,rfl⟩
    | succ n =>
      have hnot : ¬(offset+size ≤ a∧a<offset+size) := by omega
      have hnot' : ¬(a<offset+size∧offset+size ≤ a) := by omega
      obtain ⟨hs,hr⟩ := ih (offset+size)
      rw [List.replicate_succ] at hs hr
      rw [List.replicate_succ,List.replicate_succ]
      unfold skipped returned
      rw [if_neg hnot,if_neg hnot',hs,hr]
      exact ⟨rfl,rfl⟩

theorem count_page {α : Type*} [BEq α] [LawfulBEq α] {l : List α} {x : α} (hn : l.Nodup) (hx : x∈l) :
    ((l.drop offset).take size).count x=if offset ≤ l.idxOf x∧l.idxOf x<offset+size then 1 else 0 := by
  have hpage : (l.drop offset).take size=(l.take (offset+size)).drop offset := by
    rw [List.drop_take,Nat.add_sub_cancel_left]
  have hsub : ((l.drop offset).take size).Nodup :=
    hn.sublist ((List.take_sublist _ _).trans (List.drop_sublist _ _))
  have hmem : x∈(l.drop offset).take size↔offset ≤ l.idxOf x∧l.idxOf x<offset+size := by
    have htake : x∈l.take (offset+size)↔l.idxOf x<offset+size := List.mem_take_iff_idxOf_lt hx
    have hfront : x∈l.take offset↔l.idxOf x<offset := List.mem_take_iff_idxOf_lt hx
    have hparts : l.take (offset+size)=l.take offset++(l.take (offset+size)).drop offset := by
      have hsplit := (List.take_append_drop offset (l.take (offset+size))).symm
      rwa [List.take_take,Nat.min_eq_left (Nat.le_add_right offset size)] at hsplit
    have hdisjoint : List.Disjoint (l.take offset) ((l.take (offset+size)).drop offset) := by
      have hnodup := hn.sublist (List.take_sublist (offset+size) l)
      rw [hparts] at hnodup
      exact List.disjoint_of_nodup_append hnodup
    rw [hpage]
    constructor
    · intro h
      refine ⟨?_,htake.mp (List.mem_of_mem_drop h)⟩
      by_contra hlt
      exact hdisjoint (hfront.mpr (by omega)) h
    · rintro ⟨hle,hlt⟩
      have hin := htake.mpr hlt
      rw [hparts] at hin
      rcases List.mem_append.mp hin with hold | hnew
      · have := hfront.mp hold
        omega
      · exact hnew
  rw [hsub.count]
  simp only [hmem]

end XiaoQing.Framework.Pages
