import XiaoQing.Chat.PartTokens
import XiaoQing.Chat.PartRoundTrip

namespace XiaoQing.Chat.Parts

section

open Commands

variable {h : KeyHash} {x y : MediaItem} {t : Text} {l acc : List Text} {items : List MediaItem}

structure Cleaned (l : List Text) : Prop where
  stripped : ∀t∈l,strip t=t
  shown : ∀t∈l,t≠[]
  once : l.Nodup

theorem Cleaned.nil : Cleaned [] := ⟨nofun,nofun,List.nodup_nil⟩

theorem cleanFrom_eq (hs : ∀t∈l,strip t=t) (hn : ∀t∈l,t≠[]) (ho : (acc++l).Nodup) :
    l.foldl (fun cleaned item =>
      if strip item≠[]∧strip item∉cleaned then cleaned++[strip item] else cleaned) acc=acc++l := by
  induction l generalizing acc with
  | nil => exact (List.append_nil _).symm
  | cons t l ih =>
    have ht := hs t (List.mem_cons_self ..)
    have hnew : t∉acc := by
      intro hin
      rw [List.nodup_append] at ho
      exact ho.2.2 t hin t (List.mem_cons_self ..) rfl
    rw [List.foldl_cons,ht,if_pos ⟨hn t (List.mem_cons_self ..),hnew⟩,
      ih (fun s hs' => hs s (List.mem_cons_of_mem _ hs')) (fun s hs' => hn s (List.mem_cons_of_mem _ hs'))]
    · simp
    · simpa using ho

theorem Cleaned.clean (hl : Cleaned l) : cleanTextList l=l := cleanFrom_eq hl.stripped hl.shown hl.once

theorem Cleaned.tags (hl : Cleaned l) : (l.map strip).filter (· ≠ [])=l := by
  have hmap : l.map strip=l := by
    conv_rhs => rw [← List.map_id l]
    exact List.map_congr_left hl.stripped
  rw [hmap,List.filter_eq_self]
  intro t ht
  exact decide_eq_true (hl.shown t ht)

structure Kept (h : KeyHash) (x : MediaItem) : Prop where
  part : normalizeMediaPart x=some x
  ref : normalizeMediaRef h x=x
  compact : compactMediaItem x=x
  some : x≠{}

end

section

open Commands Framework

variable {N : Numerals} {h : KeyHash} {store : Option Registry} {t : Text} {j k : Nat}
  {ts cs marks : List Text} {parts : List Part} {x y : MediaItem} {items : List MediaItem}

/-! Lists of items -/

def keptItems (h : KeyHash) (items : List MediaItem) : List MediaItem :=
  items.map fun x => compactMediaItem (normalizeMediaRef h x)

def MarkersFirst (marks : List Text) : Prop :=
  marks.head?≠some []∧marks.Pairwise fun a b => b≠[] → a≠[]

def ownMarker (j : Nat) (marks : List Text) (i : Nat) : Option (Nat × Text) :=
  marks[i]?.bind fun m => if m≠[] then some (j+i,m) else none

end

end XiaoQing.Chat.Parts
