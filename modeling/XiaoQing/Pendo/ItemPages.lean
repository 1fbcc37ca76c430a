import XiaoQing.Framework.Pages
import XiaoQing.Commands.CommandRouter
import Mathlib.Data.List.Sort

namespace XiaoQing.Pendo.ItemPages

open Framework Pages Commands

/-- A row of `items`; `cells` are the columns that the filters, the order and the decoding read. -/
structure ItemRow (γ : Type) where
  id : Text
  owner : Text
  deleted : Bool
  cells : γ
  deriving DecidableEq

/-- What a page query sees: the rows in the order in which the engine scans them, and the zone of the
owner. -/
structure Store (γ ζ : Type) where
  rows : List (ItemRow γ)
  zone : ζ
  unique : (rows.map ItemRow.id).Nodup

/-- The filters of a call: the conditions that `_apply_filters` and `_apply_list_only_filters` make of
them, and the field and the direction of `_resolve_item_sort`. -/
structure ItemFilters (γ ζ κ : Type) where
  conditions : ζ → γ → Bool
  sortField : ζ → γ → κ
  descending : Bool

/-- An item; `fields` are the rest of what `_row_to_item` makes of a row. -/
structure ReadItem (ι : Type) where
  id : Text
  fields : ι
  deriving DecidableEq

section

variable {γ ζ κ ι : Type} [LinearOrder κ]

/-- `_row_to_item`, nothing for a row that cannot be decoded. -/
def rowToItem (decode : γ → Option ι) (r : ItemRow γ) : Option (ReadItem ι) :=
  (decode r.cells).map fun fields => ⟨r.id,fields⟩

def itemListConditions (filters : ItemFilters γ ζ κ) (owner : Text) (zone : ζ) (r : ItemRow γ) : Bool :=
  decide (r.owner=owner) && !r.deleted && filters.conditions zone r.cells

/-- `ORDER BY`; rows that are equal in the field stand as they are scanned. -/
def inOrder (filters : ItemFilters γ ζ κ) (sortZone : ζ) (r q : ItemRow γ) : Prop :=
  if filters.descending then filters.sortField sortZone q.cells ≤ filters.sortField sortZone r.cells
  else filters.sortField sortZone r.cells ≤ filters.sortField sortZone q.cells

instance (filters : ItemFilters γ ζ κ) (sortZone : ζ) : DecidableRel (inOrder filters sortZone) := by
  unfold inOrder
  infer_instance

def Store.listed (filters : ItemFilters γ ζ κ) (owner : Text) (sortZone : ζ) (s : Store γ ζ) :
    List (ItemRow γ) :=
  (s.rows.filter (itemListConditions filters owner s.zone)).insertionSort (inOrder filters sortZone)

/-- `_read_items_page`: the items of a page and the number of its rows. -/
def readItemsPage (filters : ItemFilters γ ζ κ) (decode : γ → Option ι) (owner : Text) (sortZone : ζ)
    (limit offset : Nat) (s : Store γ ζ) : List (ReadItem ι) × Nat :=
  let rows := ((s.listed filters owner sortZone).drop offset).take limit
  (rows.filterMap (rowToItem decode),rows.length)

/-- The loop of `get_all_items` over what its page queries see; nothing while it goes on. -/
def readAll (filters : ItemFilters γ ζ κ) (decode : γ → Option ι) (owner : Text) (sortZone : ζ)
    (pageSize : Nat) : Nat → List (ReadItem ι) → List (Store γ ζ) → Option (List (ReadItem ι))
  | _,_,[] => none
  | offset,results,s::later =>
    let page := readItemsPage filters decode owner sortZone pageSize offset s
    if page.2<pageSize then if later.isEmpty then some (results++page.1) else none
    else readAll filters decode owner sortZone pageSize (offset+page.2) (results++page.1) later

/-- `get_all_items`; nothing where it raises or has not come to its end. -/
def getAllItems (filters : ItemFilters γ ζ κ) (decode : γ → Option ι) (owner : Text) (sortZone : ζ)
    (pageSize : Nat) (stores : List (Store γ ζ)) : Option (List (ReadItem ι)) :=
  if pageSize=0 then none else readAll filters decode owner sortZone pageSize 0 [] stores

def Store.Holds (filters : ItemFilters γ ζ κ) (decode : γ → Option ι) (owner : Text) (s : Store γ ζ)
    (id : Text) : Prop :=
  ∃r∈s.rows,r.id=id∧itemListConditions filters owner s.zone r=true∧(decode r.cells).isSome=true

def Store.place (filters : ItemFilters γ ζ κ) (owner : Text) (sortZone : ζ) (id : Text) (s : Store γ ζ) :
    Nat :=
  ((s.listed filters owner sortZone).map ItemRow.id).idxOf id

variable {filters : ItemFilters γ ζ κ} {decode : γ → Option ι} {owner id : Text} {sortZone : ζ}
  {pageSize offset : Nat} {stores : List (Store γ ζ)} {s : Store γ ζ}
  {results items : List (ReadItem ι)}

theorem mem_listed {r : ItemRow γ} : r∈s.listed filters owner sortZone↔
    r∈s.rows∧itemListConditions filters owner s.zone r=true := by
  unfold Store.listed
  rw [List.mem_insertionSort,List.mem_filter]

theorem listed_nodup : ((s.listed filters owner sortZone).map ItemRow.id).Nodup := by
  have hperm := (List.perm_insertionSort (inOrder filters sortZone)
    (s.rows.filter (itemListConditions filters owner s.zone))).map ItemRow.id
  exact hperm.nodup_iff.mpr (s.unique.sublist (List.filter_sublist.map ItemRow.id))

theorem count_decoded (rows : List (ItemRow γ))
    (h : ∀r∈rows,r.id=id → (decode r.cells).isSome=true) :
    ((rows.filterMap (rowToItem decode)).map ReadItem.id).count id=(rows.map ItemRow.id).count id := by
  induction rows with
  | nil => rfl
  | cons r rows ih =>
    have hrest := ih fun q hq => h q (List.mem_cons_of_mem r hq)
    rw [List.map_cons,List.count_cons,← hrest,List.filterMap_cons]
    unfold rowToItem
    cases hd : decode r.cells with
    | none =>
      have hne : ¬r.id=id := by
        intro hid
        have hsome := h r List.mem_cons_self hid
        rw [hd] at hsome
        cases hsome
      simp [hne]
    | some fields => simp [List.count_cons]

theorem count_readItemsPage (sortZone : ζ) (pageSize offset : Nat)
    (h : s.Holds filters decode owner id) :
    ((readItemsPage filters decode owner sortZone pageSize offset s).1.map ReadItem.id).count id=
      if offset ≤ s.place filters owner sortZone id∧s.place filters owner sortZone id<offset+pageSize
      then 1 else 0 := by
  obtain ⟨r,hr,rfl,hcond,hdecode⟩ := h
  have hin : r.id∈(s.listed filters owner sortZone).map ItemRow.id :=
    List.mem_map_of_mem (mem_listed.mpr ⟨hr,hcond⟩)
  unfold readItemsPage
  dsimp only
  rw [count_decoded,List.map_take,List.map_drop]
  · exact count_page listed_nodup hin
  · intro q hq hid
    have hq' := (mem_listed.mp (List.mem_of_mem_drop (List.mem_of_mem_take hq))).1
    rw [List.inj_on_of_nodup_map s.unique hq' hr hid]
    exact hdecode

theorem place_lt_of_short (h : s.Holds filters decode owner id)
    (hshort : (readItemsPage filters decode owner sortZone pageSize offset s).2<pageSize) :
    s.place filters owner sortZone id<offset+pageSize := by
  obtain ⟨r,hr,rfl,hcond,-⟩ := h
  have hin : r.id∈(s.listed filters owner sortZone).map ItemRow.id :=
    List.mem_map_of_mem (mem_listed.mpr ⟨hr,hcond⟩)
  have hplace := List.idxOf_lt_length_iff.mpr hin
  unfold readItemsPage at hshort
  dsimp only at hshort
  rw [List.length_take,List.length_drop] at hshort
  rw [List.length_map] at hplace
  unfold Store.place
  omega

theorem full_page (h : ¬(readItemsPage filters decode owner sortZone pageSize offset s).2<pageSize) :
    (readItemsPage filters decode owner sortZone pageSize offset s).2=pageSize := by
  unfold readItemsPage at h ⊢
  dsimp only at h ⊢
  have hle := List.length_take_le pageSize ((s.listed filters owner sortZone).drop offset)
  omega

theorem readAll_count (hrun : readAll filters decode owner sortZone pageSize offset results stores=some items)
    (h : ∀s∈stores,s.Holds filters decode owner id) :
    (items.map ReadItem.id).count id=(results.map ReadItem.id).count id+
        shown pageSize offset (stores.map (Store.place filters owner sortZone id))∧
      ∃a places,stores.map (Store.place filters owner sortZone id)=a::places∧
        ∀b,(a::places).getLast?=some b → b<offset+pageSize*(places.length+1) := by
  induction stores generalizing offset results with
  | nil => cases hrun
  | cons s later ih =>
    have hs := h s List.mem_cons_self
    unfold readAll at hrun
    dsimp only at hrun
    have hpage := count_readItemsPage sortZone pageSize offset hs
    split_ifs at hrun with hshort hend
    · cases hrun
      cases List.isEmpty_iff.mp hend
      refine ⟨?_,_,[],rfl,?_⟩
      · rw [List.map_append,List.count_append,hpage]
        rfl
      · intro b hb
        cases hb
        rw [List.length_nil,Nat.zero_add,Nat.mul_one]
        exact place_lt_of_short hs hshort
    · rw [full_page hshort] at hrun
      obtain ⟨hcount,a,places,hplaces,hlast⟩ := ih hrun fun t ht => h t (List.mem_cons_of_mem s ht)
      refine ⟨?_,s.place filters owner sortZone id,a::places,?_,?_⟩
      · rw [hcount,List.map_append,List.count_append,hpage,Nat.add_assoc]
        rfl
      · rw [← hplaces]
        rfl
      · intro b hb
        rw [List.getLast?_cons_cons] at hb
        have hbound := hlast b hb
        rw [List.length_cons,Nat.mul_add pageSize (places.length+1) 1,Nat.mul_one]
        omega

/-- Whatever is committed between the pages of a call: every item that it holds throughout is in the
result once, if and only if each of them returns from the pages read as often as it skips the one to be
read. -/
theorem all_items_once_iff (filters : ItemFilters γ ζ κ) (decode : γ → Option ι) (owner : Text)
    (sortZone : ζ) (pageSize : Nat) (stores : List (Store γ ζ)) (items : List (ReadItem ι))
    (hrun : getAllItems filters decode owner sortZone pageSize stores=some items) :
    (∀id,(∀s∈stores,s.Holds filters decode owner id) → (items.map ReadItem.id).count id=1)↔
      ∀id,(∀s∈stores,s.Holds filters decode owner id) →
        returned pageSize 0 (stores.map (Store.place filters owner sortZone id))=
          skipped pageSize 0 (stores.map (Store.place filters owner sortZone id)) := by
  unfold getAllItems at hrun
  split_ifs at hrun
  apply forall_congr'
  intro id
  apply imp_congr_right
  intro h
  obtain ⟨hcount,a,places,hplaces,hlast⟩ := readAll_count hrun h
  rw [List.map_nil,List.count_nil,Nat.zero_add] at hcount
  rw [hcount,hplaces]
  apply shown_once_iff
  intro b hb
  have hbound := hlast b hb
  rwa [Nat.zero_add] at hbound

end

/-- Three notes in the order of their ids; then the first one is deleted. -/
def note (id : Char) (deleted : Bool) (created : Nat) : ItemRow Nat := ⟨[id],['u'],deleted,created⟩

def notes (deleted : Bool) : Store Nat Unit :=
  ⟨[note 'a' deleted 3,note 'b' false 2,note 'c' false 1],(),by cases deleted <;> decide⟩

def newestFirst : ItemFilters Nat Unit Nat := ⟨fun _ _ => true,fun _ created => created,true⟩

theorem all_items_once_example :
    ([⟨['a'],3⟩,⟨['b'],2⟩,⟨['c'],1⟩].map ReadItem.id).count ['c']=1 :=
  (all_items_once_iff newestFirst some ['u'] () 2 [notes false,notes false]
    [⟨['a'],3⟩,⟨['b'],2⟩,⟨['c'],1⟩] (by decide)).mpr
    (fun _ _ => by
      obtain ⟨hskip,hreturn⟩ := still_replicate 2 0 ((notes false).place newestFirst ['u'] () _) 2
      exact hreturn.trans hskip.symm) ['c']
    (fun s hs => by
      rw [List.eq_of_mem_replicate (n:=2) hs]
      exact ⟨note 'c' false 1,by decide,rfl,rfl,rfl⟩)

/-- A note that is there throughout is not read: one before it is deleted between the pages. -/
theorem deleted_item_hides_another :
    ¬∀id,(∀s∈[notes false,notes true],s.Holds newestFirst some ['u'] id) →
      ∀items,getAllItems newestFirst some ['u'] () 2 [notes false,notes true]=some items →
        (items.map ReadItem.id).count id=1 := by
  intro h
  have hrun : getAllItems newestFirst some ['u'] () 2 [notes false,notes true]=
      some [⟨['a'],3⟩,⟨['b'],2⟩] := by decide
  have hc := h ['c'] (by
    intro s hs
    rcases List.mem_cons.mp hs with rfl | hs
    · exact ⟨note 'c' false 1,by decide,rfl,rfl,rfl⟩
    · rw [List.mem_singleton.mp hs]
      exact ⟨note 'c' false 1,by decide,rfl,rfl,rfl⟩) _ hrun
  exact absurd hc (by decide)

end XiaoQing.Pendo.ItemPages
