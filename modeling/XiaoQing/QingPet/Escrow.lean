import XiaoQing.Framework.Rows
import XiaoQing.QingPet.Frames

namespace XiaoQing.QingPet

open Framework Tx Commands

def Listing.escrow (l : Listing) (group : Int) (item : Text) : Int :=
  if l.status=.active ∧ l.group=group ∧ l.item=item then l.amount else 0

namespace Db

def stock (db : Db) (group : Int) (item : Text) : Int :=
  (db.inventories.map (fun r => if r.who.group=group then r.items item else 0)).sum

def escrow (db : Db) (group : Int) (item : Text) : Int :=
  (db.listings.map (fun l => l.escrow group item)).sum

def held (db : Db) (group : Int) (item : Text) : Int := db.stock group item+db.escrow group item

/-- What `_save_inventory_items` leaves. -/
def saved (db : Db) (who : Who) (items : Items) : Db :=
  {db with
    inventories := upsert Inventory.who ⟨who,items,0⟩ (fun _ => true)
      (fun r => {r with items := items,version := r.version+1}) db.inventories}

end Db

abbrev Put := Who × Items

def single (item : Text) (n : Int) : Items := fun x => if x=item then n else 0

def given (puts : List Put) (who : Who) (item : Text) : Int :=
  (puts.map (fun p => if p.1=who then p.2 item else 0)).sum

def gained (puts : List Put) (group : Int) (item : Text) : Int :=
  (puts.map (fun p => if p.1.group=group then p.2 item else 0)).sum

/-- The bags are consistent: one row a user, no negative count, and a bound on the listings' ids. -/
structure Stocked (db : Db) : Prop where
  bags : UniqueKeys Inventory.who db.inventories
  counts : ∀who item,0≤db.items who item
  listings : UniqueKeys Listing.id db.listings
  ids : ∀l∈db.listings,l.id < db.nextListing
  amounts : ∀l∈db.listings,0 < l.amount

/-- The bags of `t` are those of `s` with some changes; nobody's count is negative. -/
structure Moved (s : Db) (puts : List Put) (t : Db) : Prop where
  bags : UniqueKeys Inventory.who t.inventories
  counts : ∀who item,0≤t.items who item
  items : ∀who item,t.items who item=s.items who item+given puts who item
  stock : ∀group item,t.stock group item=s.stock group item+gained puts group item

namespace Moved

variable {s t u : Db} {puts : List Put} {who : Who} {item : Text} {n : Int}

theorem refl (h : Stocked s) : Moved s [] s :=
  ⟨h.bags,h.counts,fun _ _ => by simp [given],fun _ _ => by simp [gained]⟩

theorem congr (h : Moved s puts t) (he : u.inventories=t.inventories) : Moved s puts u := by
  obtain ⟨hbags,hcounts,hitems,hstock⟩ := h
  constructor <;> simpa only [Db.items,Db.stock,he]

theorem items_saved (db : Db) (who : Who) (items : Items) (w : Who) :
    (db.saved who items).items w=if w=who then items else db.items w := by
  have hkey : ∀r : Inventory,Inventory.who {r with items := items,version := r.version+1}=r.who :=
    fun _ => rfl
  unfold Db.items Db.saved
  by_cases hw : w=who
  · subst hw
    rw [if_pos rfl]
    dsimp only
    rw [show w=Inventory.who ⟨w,items,0⟩ from rfl,row_upsert_self hkey]
    cases row Inventory.who db.inventories w <;> rfl
  · rw [if_neg hw]
    dsimp only
    rw [row_upsert_of_ne hkey (fun he => hw he.symm)]

theorem stock_saved {db : Db} (hk : UniqueKeys Inventory.who db.inventories) (who : Who) (items : Items)
    (group : Int) (x : Text) : (db.saved who items).stock group x=
      db.stock group x+if who.group=group then items x-db.items who x else 0 := by
  unfold Db.stock Db.saved Db.items
  cases hr : row Inventory.who db.inventories who with
  | none =>
    rw [upsert_of_none hr,List.map_append,List.sum_append]
    simp [Items.empty]
  | some r =>
    dsimp only
    rw [upsert_of_some hr,sum_updateWhere]
    have hchange := hk.sum_change hr (fun r => if r.who.group=group then r.items x else 0)
      (fun r => if r.who.group=group then items x else 0)
    have hwho : r.who=who := row_key hr
    simp only [Bool.and_true,decide_eq_true_eq,Option.map_some,Option.getD_some]
    rw [hchange,hwho]
    split <;> omega

theorem save {items : Items} (h : Moved s puts t) (hpos : ∀x,0 ≤ items x) :
    Moved s (puts++[(who,fun x => items x-t.items who x)]) (t.saved who items) := by
  refine ⟨h.bags.upsert (fun _ => rfl),fun w x => ?_,fun w x => ?_,fun group x => ?_⟩
  · rw [items_saved]
    split
    · exact hpos x
    · exact h.counts w x
  · have hold := h.items w x
    rw [items_saved]
    unfold given at hold ⊢
    rw [List.map_append,List.sum_append]
    by_cases hw : w=who
    · subst hw
      simp only [if_true,List.map_cons,List.map_nil,List.sum_cons,List.sum_nil]
      omega
    · simp only [if_neg hw,if_neg (Ne.symm hw),List.map_cons,List.map_nil,List.sum_cons,List.sum_nil]
      omega
  · have hold := h.stock group x
    rw [stock_saved h.bags]
    unfold gained at hold ⊢
    rw [List.map_append,List.sum_append]
    simp only [List.map_cons,List.map_nil,List.sum_cons,List.sum_nil]
    omega

end Moved

/-! Listings that close -/

/-- The listings that leave the active ones: in `t` their status is not active. -/
def closings (s t : Db) : List Listing :=
  s.listings.filter (fun l => l.status=.active && (t.listing l.id).any (fun l' => l'.status≠.active))

/-- The listings `done` close with a status. -/
def Db.closed (db : Db) (done : List Listing) (status : ListingStatus) : List Listing :=
  updateWhere (fun l => decide (l.id∈done.map Listing.id)) (fun l => {l with status := status}) db.listings

/-- What closes: active listings in the order of the table, with a status that is not active; the rest
    stay, and others may open. -/
structure Closes (s : Db) (done : List Listing) (status : ListingStatus) (opened : List Listing) (t : Db) :
    Prop where
  sub : done.Sublist s.listings
  active : ∀l∈done,l.status=.active
  inactive : status≠.active
  listings : t.listings=s.closed done status++opened
  fresh : ∀l∈opened,s.nextListing≤l.id ∧ l.id < t.nextListing ∧ 0 < l.amount
  distinct : (opened.map Listing.id).Nodup
  next : s.nextListing≤t.nextListing

section

variable {s t : Db} {done opened : List Listing} {status : ListingStatus}

theorem filter_of_sublist {rows l : List Listing} (h : UniqueKeys Listing.id rows) (hl : l.Sublist rows) :
    rows.filter (fun r => decide (r.id∈l.map Listing.id))=l := by
  induction hl with
  | slnil => rfl
  | cons a hsub ih =>
    unfold UniqueKeys at h
    obtain ⟨hnew,hrest⟩ := List.nodup_cons.mp h
    have hout := fun hm => hnew ((hsub.map Listing.id).subset hm)
    rw [List.filter_cons,if_neg (fun hm => hout (of_decide_eq_true hm)),ih hrest]
  | cons_cons a hsub ih =>
    unfold UniqueKeys at h
    obtain ⟨hnew,hrest⟩ := List.nodup_cons.mp h
    rw [List.filter_cons_of_pos (by simp)]
    refine congrArg (a::·) (Eq.trans ?_ (ih hrest))
    refine List.filter_congr (fun r hr => ?_)
    have hne : r.id≠a.id := fun he => hnew (he ▸ List.mem_map_of_mem hr)
    simp [hne]

theorem closed_key : ∀l : Listing,Listing.id {l with status := status}=l.id := fun _ => rfl

theorem Closes.row_of_mem (h : Closes s done status opened t) (hs : Stocked s) {l : Listing}
    (hl : l∈s.listings) :
    t.listing l.id=some (if l.id∈done.map Listing.id then {l with status := status} else l) := by
  unfold Db.listing
  rw [h.listings,Db.closed]
  unfold row
  rw [List.find?_append]
  change (row Listing.id (updateWhere _ _ s.listings) l.id).or _=_
  rw [row_updateWhere closed_key,hs.listings.row_of_mem hl]
  simp only [Option.map_some,Option.some_or,decide_eq_true_eq]

theorem Closes.closings (h : Closes s done status opened t) (hs : Stocked s) : closings s t=done := by
  refine Eq.trans ?_ (filter_of_sublist hs.listings h.sub)
  refine List.filter_congr (fun l hl => ?_)
  rw [h.row_of_mem hs hl]
  by_cases hd : l.id∈done.map Listing.id
  · obtain ⟨m,hm,he⟩ := List.mem_map.mp hd
    have hml : m=l := by
      have hrow := hs.listings.row_of_mem (h.sub.subset hm)
      rw [he,hs.listings.row_of_mem hl] at hrow
      exact (Option.some.inj hrow).symm
    subst hml
    simp [hd,h.active m hm,h.inactive]
  · simp [hd]

theorem Closes.escrow (h : Closes s done status opened t) (hs : Stocked s) (group : Int) (item : Text) :
    t.escrow group item+(done.map (fun l => l.escrow group item)).sum=
      s.escrow group item+(opened.map (fun l => l.escrow group item)).sum := by
  unfold Db.escrow
  rw [h.listings,List.map_append,List.sum_append,Db.closed,sum_updateWhere]
  have hsplit : ∀rows : List Listing,
      (rows.map (fun l => if decide (l.id∈done.map Listing.id)=true
        then ({l with status := status} : Listing).escrow group item else l.escrow group item)).sum+
      ((rows.filter (fun l => decide (l.id∈done.map Listing.id))).map (fun l => l.escrow group item)).sum=
      (rows.map (fun l => l.escrow group item)).sum := by
    intro rows
    induction rows with
    | nil => rfl
    | cons l rows ih =>
      have hzero : ({l with status := status} : Listing).escrow group item=0 :=
        if_neg (fun hc => h.inactive hc.1)
      by_cases hd : l.id∈done.map Listing.id
      · rw [List.filter_cons,if_pos (decide_eq_true hd)]
        simp only [List.map_cons,List.sum_cons,hd,decide_true,if_true,hzero]
        omega
      · rw [List.filter_cons,if_neg (fun hm => hd (of_decide_eq_true hm))]
        simp only [List.map_cons,List.sum_cons,hd,decide_false,Bool.false_eq_true,if_false]
        omega
  have hrows := hsplit s.listings
  rw [filter_of_sublist hs.listings h.sub] at hrows
  omega

theorem Closes.settled (h : Closes s done status opened t) (hs : Stocked s) {l : Listing}
    (hl : l∈s.listings) (hn : l.status≠.active) : t.listing l.id=some l := by
  rw [h.row_of_mem hs hl,if_neg]
  intro hd
  obtain ⟨m,hm,he⟩ := List.mem_map.mp hd
  have hrow := hs.listings.row_of_mem (h.sub.subset hm)
  rw [he,hs.listings.row_of_mem hl] at hrow
  exact hn (Option.some.inj hrow ▸ h.active m hm)

theorem Moved.stocked {puts : List Put} (hm : Moved s puts t) (hc : Closes s done status opened t)
    (hs : Stocked s) : Stocked t := by
  have hclosed : ∀l∈s.closed done status,∃l'∈s.listings,l.id=l'.id ∧ l.amount=l'.amount := by
    intro l hl
    obtain ⟨l',hl',rfl⟩ := mem_updateWhere hl
    refine ⟨l',hl',?_⟩
    split <;> exact ⟨rfl,rfl⟩
  refine ⟨hm.bags,hm.counts,?_,fun l hl => ?_,fun l hl => ?_⟩
  · rw [hc.listings]
    unfold UniqueKeys
    rw [List.map_append]
    refine List.nodup_append.mpr ⟨hs.listings.updateWhere closed_key,hc.distinct,?_⟩
    rintro _ ha _ hb rfl
    obtain ⟨l,hl,rfl⟩ := List.mem_map.mp ha
    obtain ⟨l',hl',he,_⟩ := hclosed l hl
    obtain ⟨o,ho,hoe⟩ := List.mem_map.mp hb
    have hlt := hs.ids l' hl'
    have hge := (hc.fresh o ho).1
    omega
  · rw [hc.listings] at hl
    rcases List.mem_append.mp hl with hl | hl
    · obtain ⟨l',hl',he,_⟩ := hclosed l hl
      have hlt := hs.ids l' hl'
      have hnext := hc.next
      omega
    · exact (hc.fresh l hl).2.1
  · rw [hc.listings] at hl
    rcases List.mem_append.mp hl with hl | hl
    · obtain ⟨l',hl',_,he⟩ := hclosed l hl
      exact he ▸ hs.amounts l' hl'
    · exact (hc.fresh l hl).2.2

end

end XiaoQing.QingPet
