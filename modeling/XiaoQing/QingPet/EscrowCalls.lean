import Mathlib.Algebra.Order.BigOperators.Group.List
import XiaoQing.QingPet.Escrow

namespace XiaoQing.QingPet

open Framework Tx Commands

section Trades

variable {s t u : Db} {done : List Listing} {status : ListingStatus} {l : Listing} {now : Nat}

theorem Closes.refl (hs : status≠.active) : Closes s [] status [] s := by
  refine ⟨List.nil_sublist _,(fun _ h => nomatch h),hs,?_,(fun _ h => by cases h),List.nodup_nil,le_rfl⟩
  rw [List.append_nil,Db.closed,updateWhere_eq_self]
  exact fun _ _ => rfl

variable {p : Listing → Bool}

theorem claimListing_closes {taken : Bool} (hs : Stocked s)
    (hc : Closes s done status [] u) (hsub : (done++[l]).Sublist s.listings) (hactive : l.status=.active)
    (hp : p l=true) (h : (Act.claimListing l.id p status).run u=.ok (taken,t)) :
    taken=true ∧ Closes s (done++[l]) status [] t ∧ t.inventories=u.inventories := by
  obtain ⟨n,s1,hread,h1⟩ := bind_ok h
  cases read_ok hread
  obtain ⟨_,s2,hwrite,hpure⟩ := bind_ok h1
  cases write_ok hwrite
  have hl : l∈s.listings := hsub.subset (by simp)
  have hids : ((done++[l]).map Listing.id).Nodup := List.Nodup.sublist (hsub.map _) hs.listings
  have hnew : l.id∉done.map Listing.id := by
    intro hm
    rw [List.map_append,List.nodup_append] at hids
    exact hids.2.2 _ hm _ (by simp) rfl
  have hlistings : u.listings=s.closed done status := by rw [hc.listings,List.append_nil]
  have hunique : UniqueKeys Listing.id u.listings := by
    rw [hlistings]
    exact hs.listings.updateWhere closed_key
  have hrow : row Listing.id u.listings l.id=some l := by
    have hr := hc.row_of_mem hs hl
    rwa [if_neg hnew] at hr
  have hcount : u.listings.countP (fun r => decide (r.id=l.id) && decide (r.status=.active) && p r)=1 :=
    (hunique.countP_eq_one (k:=l.id) (fun r hr => by simp_all)).mpr ⟨l,hrow,by simp [hactive,hp]⟩
  have htaken := congrArg Prod.fst (pure_ok hpure)
  have ht : t=_ := congrArg Prod.snd (pure_ok hpure)
  refine ⟨htaken.trans (decide_eq_true hcount),?_,by rw [ht]⟩
  refine ⟨hsub,fun m hm => ?_,hc.inactive,?_,(fun _ h => by cases h),List.nodup_nil,?_⟩
  · rcases List.mem_append.mp hm with hm | hm
    · exact hc.active m hm
    · cases List.mem_singleton.mp hm
      exact hactive
  · rw [ht,List.append_nil]
    change updateWhere _ _ u.listings=_
    rw [hlistings]
    unfold Db.closed updateWhere
    rw [List.map_map]
    refine List.map_congr_left (fun r hr => ?_)
    by_cases hd : r.id∈done.map Listing.id
    · have hd' : r.id∈(done++[l]).map Listing.id := by
        rw [List.map_append]
        exact List.mem_append_left _ hd
      simp only [Function.comp,decide_eq_true hd,decide_eq_true hd',if_true]
      rw [if_neg]
      simp [hc.inactive]
    · by_cases he : r.id=l.id
      · have hrl : r=l := by
          have hl' := hs.listings.row_of_mem hr
          rw [he,hs.listings.row_of_mem hl] at hl'
          exact (Option.some.inj hl').symm
        subst hrl
        have hd' : r.id∈(done++[r]).map Listing.id := by simp
        simp only [Function.comp,decide_eq_false hd,decide_eq_true hd',if_true,Bool.false_eq_true,if_false]
        rw [if_pos (by simp [hactive,hp])]
      · have hd' : r.id∉(done++[l]).map Listing.id := by
          rw [List.map_append,List.mem_append,not_or]
          exact ⟨hd,by simpa using he⟩
        simp only [Function.comp,decide_eq_false hd,decide_eq_false hd',Bool.false_eq_true,if_false]
        rw [if_neg (by simp [he])]
  · rw [ht]
    exact hc.next

theorem Moved.add {puts : List Put} {who : Who} {item : Text} {n : Int} (h : Moved s puts u)
    (hn : 0≤u.items who item+n) :
    Moved s (puts++[(who,single item n)]) (u.saved who ((u.items who).add item n)) := by
  have hput : (fun x => ((u.items who).add item n) x-u.items who x)=single item n := by
    funext x
    unfold Items.add single
    split <;> omega
  have hpos : ∀x,0≤((u.items who).add item n) x := by
    intro x
    unfold Items.add
    split
    · rename_i hx
      exact hx ▸ hn
    · exact h.counts who x
  have hsave : Moved s (puts++[(who,fun x => ((u.items who).add item n) x-u.items who x)]) _ :=
    h.save hpos
  rwa [hput] at hsave

theorem giveItems_ok {who : Who} {item : Text} {n : Int} {a : Unit}
    (h : (Act.giveItems who item n).run s=.ok (a,t)) : t=s.saved who ((s.items who).add item n) := by
  obtain ⟨items,s1,hread,hsave⟩ := bind_ok h
  cases read_ok hread
  exact congrArg Prod.snd (write_ok hsave)

def refund (l : Listing) : Put := (⟨l.seller,l.group⟩,single l.item l.amount)

theorem expireTradeListing_closes {b : Bool} (hs : Stocked s) (hc : Closes s done .expired [] u)
    (hm : Moved s (done.map refund) u) (hsub : (done++[l]).Sublist s.listings) (hactive : l.status=.active)
    (hdue : l.expiresAt≤now) (h : (Act.expireTradeListing now l).run u=.ok (b,t)) :
    b=true ∧ Closes s (done++[l]) .expired [] t ∧ Moved s ((done++[l]).map refund) t := by
  obtain ⟨taken,s1,hclaim,h1⟩ := bind_ok h
  obtain ⟨htaken,hc1,hbags⟩ := claimListing_closes hs hc hsub hactive (by simpa using hdue) hclaim
  rw [htaken] at h1
  obtain ⟨_,s2,hgive,h2⟩ := bind_ok h1
  have hs2 := giveItems_ok hgive
  obtain ⟨_,s3,hentry,hpure⟩ := bind_ok h2
  have hledger : Db.Within [.ledger] s2 s3 := (insertEntry_only (by decide)).run hentry
  have hb := congrArg Prod.fst (pure_ok hpure)
  have ht : t=s3 := congrArg Prod.snd (pure_ok hpure)
  have hamount : 0 ≤ s1.items ⟨l.seller,l.group⟩ l.item+l.amount := by
    have hpos := (hm.congr hbags).counts ⟨l.seller,l.group⟩ l.item
    have hlpos := hs.amounts l (hsub.subset (by simp))
    omega
  have hgiven := (hm.congr hbags).add hamount
  rw [← hs2] at hgiven
  refine ⟨hb,?_,?_⟩
  · have hlist : t.listings=s1.listings ∧ t.nextListing=s1.nextListing := by
      rw [ht,(hledger .listings (by decide)).1,(hledger .listings (by decide)).2,hs2]
      exact ⟨rfl,rfl⟩
    exact ⟨hc1.sub,hc1.active,hc1.inactive,hlist.1.trans hc1.listings,(fun _ h => nomatch h),
      List.nodup_nil,hlist.2 ▸ hc1.next⟩
  · rw [List.map_append]
    exact hgiven.congr (by rw [ht,show s3.inventories=s2.inventories from hledger .inventories (by decide)])

theorem settleExpired_closes {rest : List Listing} {a : Unit} (hs : Stocked s)
    (hc : Closes s done .expired [] u) (hm : Moved s (done.map refund) u)
    (hsub : (done++rest).Sublist s.listings)
    (hdue : ∀l∈rest,l.status=.active ∧ l.expiresAt≤now)
    (h : (rest.forM (fun l => do discard (Act.expireTradeListing now l))).run u=.ok (a,t)) :
    Closes s (done++rest) .expired [] t ∧ Moved s ((done++rest).map refund) t := by
  induction rest generalizing done u with
  | nil =>
    cases pure_ok h
    rw [List.append_nil]
    exact ⟨hc,hm⟩
  | cons l rest ih =>
    obtain ⟨_,u1,hexpire,hrest⟩ := bind_ok h
    obtain ⟨b,hexpire⟩ := discard_ok hexpire
    have hassoc : done++l::rest=(done++[l])++rest := by simp
    rw [hassoc] at hsub ⊢
    obtain ⟨hactive,hexpired⟩ := hdue l (by simp)
    obtain ⟨_,hc1,hm1⟩ := expireTradeListing_closes hs hc hm
      ((List.sublist_append_left _ _).trans hsub) hactive hexpired hexpire
    exact ih hc1 hm1 hsub (fun m hm => hdue m (List.mem_cons_of_mem l hm)) hrest

structure Trading (s : Db) (done : List Listing) (status : ListingStatus) (opened : List Listing)
    (puts : List Put) (t : Db) : Prop where
  closes : Closes s done status opened t
  moved : Moved s puts t

section

variable {opened : List Listing} {puts : List Put} {who : Who} {items : Items} {item : Text} {n : Int}

theorem Trading.refl (hs : Stocked s) (hn : status≠.active) : Trading s [] status [] [] s :=
  ⟨Closes.refl hn,Moved.refl hs⟩

theorem Closes.congr (h : Closes s done status opened t) (hl : u.listings=t.listings)
    (hn : u.nextListing=t.nextListing) : Closes s done status opened u :=
  ⟨h.sub,h.active,h.inactive,hl.trans h.listings,hn ▸ h.fresh,h.distinct,hn ▸ h.next⟩

theorem Trading.within {ts : List Table} (h : Trading s done status opened puts t) (hw : Db.Within ts t u)
    (hb : .inventories∉ts) (hl : .listings∉ts) : Trading s done status opened puts u :=
  ⟨h.closes.congr (hw .listings hl).1 (hw .listings hl).2,h.moved.congr (hw .inventories hb)⟩

theorem Only.trading (ts : List Table) {α : Type} {m : Act α} (hm : Only ts m) (hb : .inventories∉ts)
    (hl : .listings∉ts) : Keeps (Trading s done status opened puts) m :=
  fun _ _ _ h hr => h.within (hm.run hr) hb hl

theorem saveInventoryItems_trading :
    Ensures (fun u => Trading s done status opened puts u ∧ 0≤u.items who item+n ∧ items=u.items who)
      (Act.saveInventoryItems who (items.add item n))
      (fun _ => Trading s done status opened (puts++[(who,single item n)])) := by
  refine ensures_write (fun u ⟨h,hn,he⟩ => ?_)
  subst he
  exact ⟨h.closes.congr rfl rfl,h.moved.add hn⟩

theorem Only.bag (ts : List Table) {α : Type} {m : Act α} (hm : Only ts m) (hb : .inventories∉ts)
    (hl : .listings∉ts) :
    Keeps (fun u => Trading s done status opened puts u ∧ items=u.items who) m := by
  intro u a v ⟨h,he⟩ hr
  have hw := hm.run hr
  refine ⟨h.within hw hb hl,he.trans ?_⟩
  unfold Db.items
  rw [show v.inventories=u.inventories from hw .inventories hb]

theorem purchaseItem_trading {amount cost : Int} :
    Ensures (Trading s done status opened puts) (Act.purchaseItem who item amount cost)
      (fun _ => Trading s done status opened (puts++[(who,single item amount)])) := by
  refine Ensures.bind ensures_require (fun _ => Ensures.of_fact (fun hchecked => ?_))
  have hamount : 0 < amount := by simp_all
  refine Ensures.bind keeps_read (fun _ => Ensures.bind keeps_require (fun _ => Ensures.bind
    (Only.trading [.users] (payUser_only (by decide)) (by decide) (by decide)) (fun _ => ?_)))
  refine Ensures.bind ensures_read (fun items => Ensures.bind (Ensures.strengthen
    saveInventoryItems_trading (fun u ⟨h,he⟩ => ⟨h,?_,he⟩)) (fun _ => ?_))
  · have hpos := h.moved.counts who item
    omega
  · exact Only.trading [.ledger] (recordAssetDelta_only (by decide)) (by decide) (by decide)

theorem useAccelerationCard_trading {pet : Nat} {gain : Int} :
    Ensures (Trading s done status opened puts) (Act.useAccelerationCard now who pet gain)
      (fun _ => Trading s done status opened (puts++[(who,single accelerationCard (-1))])) := by
  refine Ensures.bind keeps_require (fun _ => Ensures.bind keeps_read (fun _ => Ensures.bind keeps_fetch
    (fun p => Ensures.bind ensures_read (fun items => Ensures.bind ensures_require (fun _ =>
      Ensures.of_fact (fun hchecked => ?_))))))
  have hcard : 0 < items accelerationCard := of_decide_eq_true hchecked
  refine Ensures.bind (Only.bag [.pets] (updatePets_only (by decide)) (by decide) (by decide)) (fun _ => ?_)
  refine Ensures.strengthen saveInventoryItems_trading (fun u ⟨h,he⟩ => ⟨h,?_,he⟩)
  rw [← he]
  omega

theorem treatPet_trading {pet : Nat} {health clean limit : Int} {seconds : Nat} :
    Ensures (Trading s done status opened puts)
      (Act.treatPet now who pet item health clean limit seconds)
      (fun _ => Trading s done status opened (puts++[(who,single item (-1))])) := by
  refine Ensures.bind keeps_require (fun _ => Ensures.bind keeps_require (fun _ => Ensures.bind keeps_read
    (fun _ => Ensures.bind keeps_fetch (fun p => Ensures.bind ensures_read (fun items =>
      Ensures.bind ensures_require (fun _ => Ensures.of_fact (fun hchecked => ?_)))))))
  have hcount : 0 < items item := of_decide_eq_true hchecked
  refine Ensures.bind (Only.bag [.quotas] (claimActionQuota_only (by decide)) (by decide) (by decide))
    (fun claim => ?_)
  rcases claim with (_ | w) | _
  · exact ensures_throw
  · exact ensures_throw
  refine Ensures.bind (Only.bag [.pets] (updatePets_only (by decide)) (by decide) (by decide)) (fun _ => ?_)
  refine Ensures.strengthen saveInventoryItems_trading (fun u ⟨h,he⟩ => ⟨h,?_,he⟩)
  rw [← he]
  omega

theorem giftItem_trading {giver receiver : Text} {group amount gain limit : Int} {seconds : Nat} :
    Ensures (Trading s done status opened puts)
      (Act.giftItem now giver receiver group item amount gain limit seconds)
      (fun _ => Trading s done status opened (puts++[(⟨giver,group⟩,single item (-amount))]++
        [(⟨receiver,group⟩,single item amount)])) := by
  refine Ensures.bind ensures_require (fun _ => Ensures.of_fact (fun hother => ?_))
  refine Ensures.bind ensures_require (fun _ => Ensures.of_fact (fun hchecked => ?_))
  have hamount : 0 < amount := by simp_all
  have hne : (⟨receiver,group⟩ : Who)≠⟨giver,group⟩ := by
    intro he
    exact of_decide_eq_true hother (congrArg Who.user he).symm
  refine Ensures.bind keeps_require (fun _ => Ensures.bind keeps_require (fun _ => Ensures.bind keeps_read
    (fun _ => Ensures.bind keeps_fetch (fun sender => Ensures.bind keeps_read (fun _ => Ensures.bind
      keeps_require (fun _ => Ensures.bind keeps_require (fun _ => Ensures.bind keeps_require
        (fun _ => ?_))))))))
  refine Ensures.bind ensures_read (fun senderItems => Ensures.bind ensures_require (fun _ =>
    Ensures.of_fact (fun henough => ?_)))
  have henough := of_decide_eq_true henough
  refine Ensures.bind ensures_read (fun receiverItems => ?_)
  refine Ensures.bind (R:=fun _ u => Trading s done status opened
    (puts++[(⟨giver,group⟩,single item (-amount))]) u ∧ receiverItems=u.items ⟨receiver,group⟩) ?_ (fun _ => ?_)
  · refine ensures_write (fun u ⟨⟨h,hsender⟩,hreceiver⟩ => ?_)
    subst hsender
    refine ⟨⟨h.closes.congr rfl rfl,h.moved.add (by omega)⟩,hreceiver.trans ?_⟩
    exact ((Moved.items_saved u _ _ _).trans (if_neg hne)).symm
  refine Ensures.bind (Ensures.strengthen saveInventoryItems_trading (fun u ⟨h,he⟩ => ⟨h,?_,he⟩))
    (fun _ => ?_)
  · have hpos := h.moved.counts ⟨receiver,group⟩ item
    omega
  · exact Keeps.bind (Only.trading [.users] (payUser_only (by decide)) (by decide) (by decide)) (fun _ =>
      Only.trading [.users] (payUser_only (by decide)) (by decide) (by decide))

/-! The commit of drafts -/

def PetAction.supplied (a : PetAction) : Items := fun x =>
  (if a.consume=some x then -1 else 0)+(a.grants.map (fun g => if 0 < g.2 ∧ g.1=x then g.2 else 0)).sum

def draftDelta (items : Draft Items) (names : List Text) : Items := fun x =>
  match items.base with
  | none => 0
  | some base => if x∈names then items.new x-base x else 0

theorem grantItems_apply (grants : List (Text × Int)) (items : Items) (x : Text) :
    Act.grantItems grants items x=
      items x+(grants.map (fun g => if 0 < g.2 ∧ g.1=x then g.2 else 0)).sum := by
  induction grants generalizing items with
  | nil => simp [Act.grantItems]
  | cons g grants ih =>
    have hstep : Act.grantItems (g::grants) items=
        Act.grantItems grants (if 0 < g.2 then items.add g.1 g.2 else items) := rfl
    rw [hstep,ih,List.map_cons,List.sum_cons]
    by_cases hpos : 0 < g.2
    · by_cases hx : g.1=x
      · subst hx
        simp only [hpos,if_true,Items.add_self,and_self]
        omega
      · simp only [hpos,if_true,Items.add_of_ne (Ne.symm hx),hx,and_false,if_false]
        omega
    · simp only [hpos,if_false,false_and]
      omega

def Saves (u : Db) (who : Who) (delta : Items) : Option Items → Prop
  | none => delta=fun _ => 0
  | some items => ∀x,items x=u.items who x+delta x ∧ 0 ≤ items x

theorem Moved.nothing (h : Moved s puts t) (who : Who) : Moved s (puts++[(who,fun _ => 0)]) t := by
  refine ⟨h.bags,h.counts,fun w x => ?_,fun g x => ?_⟩
  · simpa [given] using h.items w x
  · simpa [gained] using h.stock g x

variable {saved : Option Items}

theorem saves_trading {delta : Items} :
    Ensures (fun u => Trading s done status opened puts u ∧ Saves u who delta saved)
      (saved.forM (Act.saveInventoryItems who))
      (fun _ => Trading s done status opened (puts++[(who,delta)])) := by
  cases saved with
  | none =>
    refine ensures_pure (fun u ⟨h,hnone⟩ => ?_)
    cases show delta=_ from hnone
    exact ⟨h.closes,h.moved.nothing who⟩
  | some items =>
    refine ensures_write (fun u ⟨h,hsome⟩ => ⟨h.closes.congr rfl rfl,?_⟩)
    have hdelta : delta=fun x => items x-u.items who x := by
      funext x
      have hx := (hsome x).1
      omega
    rw [hdelta]
    exact h.moved.save (fun x => (hsome x).2)

theorem Only.saves (ts : List Table) {α : Type} {m : Act α} {delta : Items}
    (hm : Only ts m) (hb : .inventories∉ts) (hl : .listings∉ts) :
    Keeps (fun u => Trading s done status opened puts u ∧ Saves u who delta saved) m := by
  intro u a v ⟨h,hsaves⟩ hr
  have hw := hm.run hr
  refine ⟨h.within hw hb hl,?_⟩
  have hbag : v.items who=u.items who := by
    unfold Db.items
    rw [show v.inventories=u.inventories from hw .inventories hb]
  cases saved with
  | none => exact hsaves
  | some items =>
    intro x
    rw [hbag]
    exact hsaves x

theorem settleAction_saves {a : PetAction} {latest : User} :
    Ensures (Trading s done status opened puts) (Act.settleAction now a latest)
      (fun r u => Trading s done status opened puts u ∧ Saves u latest.who a.supplied r.2.1) := by
  refine Ensures.bind keeps_require (fun _ => Ensures.bind keeps_require (fun _ => Ensures.bind ensures_read
    (fun items => Ensures.bind ensures_require (fun _ => Ensures.of_fact (fun hconsume => ?_)))))
  dsimp only
  refine Ensures.bind (Only.bag [.quotas] (claimActionQuota_only (by decide)) (by decide) (by decide))
    (fun claim => ?_)
  rcases claim with (_ | w) | _
  · exact ensures_throw
  · exact ensures_throw
  refine ensures_pure (fun u ⟨h,he⟩ => ⟨h,?_⟩)
  subst he
  have hgrants : ∀x,0≤(a.grants.map (fun g => if 0 < g.2 ∧ g.1=x then g.2 else 0)).sum := by
    intro x
    refine List.sum_nonneg (fun n hn => ?_)
    obtain ⟨g,_,rfl⟩ := List.mem_map.mp hn
    split <;> omega
  dsimp only
  split
  · intro x
    have hpos := h.moved.counts latest.who x
    have hgrant := hgrants x
    rw [grantItems_apply]
    unfold PetAction.supplied
    cases hc : a.consume with
    | none => exact ⟨by simp,by dsimp only; omega⟩
    | some y =>
      rw [hc] at hconsume
      have hy : 0 < u.items latest.who y := of_decide_eq_true hconsume
      by_cases hx : x=y
      · subst hx
        simp only [Items.add_self,if_true]
        omega
      · simp only [Items.add_of_ne hx,Option.some.injEq,Ne.symm hx,if_false]
        omega
  · rename_i hnone
    simp only [Bool.or_eq_true,not_or,Bool.not_eq_true,Option.isSome_eq_false_iff,Option.isNone_iff_eq_none,
      Bool.not_eq_false',List.isEmpty_iff] at hnone
    funext x
    simp [PetAction.supplied,hnone.1,hnone.2]

theorem savedBag_saves {bag : Option (Draft Items × List Text)} {latest : User}
    (hread : ∀b,bag=some b → b.1.base.isSome) (hsaved : saved=none) :
    Ensures (Trading s done status opened puts) (Act.savedBag bag none saved latest)
      (fun r u => Trading s done status opened puts u ∧
        Saves u latest.who (match bag with | some b => draftDelta b.1 b.2 | none => fun _ => 0) r) := by
  cases bag with
  | none => exact ensures_pure (fun u h => ⟨h,by rw [hsaved]; rfl⟩)
  | some b =>
    obtain ⟨items,names⟩ := b
    obtain ⟨base,hbase⟩ := Option.isSome_iff_exists.mp (hread _ rfl)
    dsimp only at hbase
    refine Ensures.bind ensures_read (fun stored => Ensures.bind ensures_require (fun _ =>
      Ensures.of_fact (fun henough => ensures_pure (fun u ⟨h,he⟩ => ⟨h,fun x => ?_⟩))))
    have hpos := h.moved.counts latest.who x
    rw [← he] at hpos ⊢
    simp only [Act.mergedItems,draftDelta,hbase]
    by_cases hx : x∈names
    · rw [if_pos hx,if_pos hx]
      have hshort : items.new x-base x < 0 → 0 ≤ stored x+(items.new x-base x) := by
        intro hneg
        by_contra hlow
        refine absurd henough ?_
        rw [Bool.not_eq_true',Bool.not_eq_false]
        unfold Act.shortfall
        rw [hbase]
        refine List.any_eq_true.mpr ⟨x,hx,?_⟩
        simp only [Bool.and_eq_true,decide_eq_true_eq]
        exact ⟨hneg,by omega⟩
      unfold Items.mergeCount addDelta
      split <;> omega
    · rw [if_neg hx,if_neg hx]
      omega

def committed (bag : Option (Draft Items × List Text)) (action : Option PetAction) : Items :=
  match action,bag with
  | some a,_ => a.supplied
  | none,some (items,names) => draftDelta items names
  | none,none => fun _ => 0

theorem commitPetAndUser_trading {pet : Draft Pet} {user : Draft User}
    {bag : Option (Draft Items × List Text)} {task groupTask : Option Action} {action : Option PetAction}
    (hread : ∀b,bag=some b → b.1.base.isSome) :
    Ensures (Trading s done status opened puts)
      (Act.commitPetAndUser now pet user bag task groupTask action)
      (fun _ => Trading s done status opened (puts++[(user.new.who,committed bag action)])) := by
  refine Ensures.bind keeps_read (fun _ => Ensures.bind keeps_fetch (fun latest => ?_))
  cases hconflict : pet.new.conflictsWith pet.base latest with
  | some c => exact ensures_throw
  | none =>
    refine Ensures.bind ensures_read (fun o => Ensures.bind ensures_fetch (fun latestUser => ?_))
    have hwho : ∀u,(Trading s done status opened puts u ∧ o=u.user user.new.who) ∧ o=some latestUser →
        Trading s done status opened puts u ∧ latestUser.who=user.new.who := by
      rintro u ⟨⟨h,ho⟩,hsome⟩
      exact ⟨h,row_key (ho.symm.trans hsome)⟩
    refine Ensures.strengthen (Ensures.of_fact (fun hwho => ?_)) hwho
    rw [← hwho]
    refine Ensures.bind (R:=fun r u => Trading s done status opened puts u ∧
      action.elim (r.2.1=none) (fun a => Saves u latestUser.who a.supplied r.2.1)) ?_
      (fun settled => ?_)
    · cases action with
      | some a => exact settleAction_saves
      | none => exact ensures_pure (fun u h => ⟨h,rfl⟩)
    refine Ensures.bind (R:=fun r u => Trading s done status opened puts u ∧
      Saves u latestUser.who (committed bag action) r) ?_ (fun saved => ?_)
    · cases action with
      | some a => cases bag <;> exact ensures_pure (fun u h => h)
      | none =>
        refine Ensures.of_fact (fun hnone => (savedBag_saves hread hnone).weaken (fun r u h => ?_))
        cases bag <;> exact h
    refine Ensures.bind (Only.saves [.pets] (updatePets_only (by decide)) (by decide) (by decide)) (fun _ => ?_)
    refine Ensures.bind (Only.saves [.users] (writeUser_only (by decide)) (by decide) (by decide)) (fun _ => ?_)
    refine Ensures.bind (Only.saves [.ledger] (recordAssetDelta_only (by decide)) (by decide) (by decide)) (fun _ => ?_)
    refine Ensures.bind saves_trading (fun _ => ?_)
    refine Keeps.bind (Only.trading [.tasks] (Only.optionForM (fun _ => incrementTask_only (by decide)))
      (by decide) (by decide)) (fun _ => ?_)
    refine Keeps.bind (Only.trading [.groupTasks] (Only.optionForM (fun _ => advanceGroupTask_only (by decide)))
      (by decide) (by decide)) (fun _ => ?_)
    exact Keeps.bind (Only.trading [.activities] (Only.optionForM (fun _ => advanceActivities_only (by decide)))
      (by decide) (by decide)) (fun _ => keeps_pure)

/-! The listings -/

theorem Closes.open (h : Closes s done status [] t) {o : Listing} (ho : 0 < o.amount) :
    Closes s done status [{o with id := t.nextListing}]
      {t with listings := t.listings++[{o with id := t.nextListing}],nextListing := t.nextListing+1} := by
  refine ⟨h.sub,h.active,h.inactive,?_,fun l hl => ?_,List.nodup_singleton _,h.next.trans (Nat.le_succ _)⟩
  · dsimp only
    rw [h.listings,List.append_nil]
  · cases List.mem_singleton.mp hl
    exact ⟨h.next,Nat.lt_succ_self _,ho⟩

theorem createTradeListing_trading {amount price : Int} {hours limit : Nat} :
    Ensures (Trading s done status [] puts) (Act.createTradeListing now who item amount price hours limit)
      (fun _ t => 0 < amount ∧ ∃id,Trading s done status
        [⟨id,who.user,who.group,item,amount,price,now+hours*3600*second,.active⟩]
        (puts++[(who,single item (-amount))]) t) := by
  refine Ensures.bind ensures_require (fun _ => Ensures.of_fact (fun hchecked => ?_))
  have hamount : 0 < amount := by
    simp only [Bool.and_eq_true,decide_eq_true_eq] at hchecked
    exact hchecked.1.1.1
  refine Ensures.bind keeps_require (fun _ => Ensures.bind keeps_read (fun _ => Ensures.bind keeps_require
    (fun _ => Ensures.bind ensures_read (fun items => Ensures.bind ensures_require (fun _ =>
      Ensures.of_fact (fun henough => ?_))))))
  have henough := of_decide_eq_true henough
  refine Ensures.bind (Ensures.strengthen saveInventoryItems_trading (fun u ⟨h,he⟩ => ⟨h,?_,he⟩))
    (fun _ => ensures_write (fun u h => ⟨hamount,u.nextListing,h.closes.open (o:=
      ⟨0,who.user,who.group,item,amount,price,now+hours*3600*second,.active⟩) hamount,
      h.moved.congr rfl⟩))
  rw [← he]
  omega

theorem giveItems_trading :
    Ensures (fun u => Trading s done status opened puts u ∧ 0≤n) (Act.giveItems who item n)
      (fun _ => Trading s done status opened (puts++[(who,single item n)])) := by
  refine Ensures.of_fact (fun hn => Ensures.bind ensures_read (fun items => Ensures.strengthen
    saveInventoryItems_trading (fun u ⟨h,he⟩ => ⟨h,?_,he⟩)))
  have hpos := h.moved.counts who item
  omega

theorem listing_fetched {id : Nat} (h : (s.listing id).filter p=some l) :
    l∈s.listings ∧ l.id=id ∧ p l=true := by
  obtain ⟨hrow,hp⟩ := Option.filter_eq_some_iff.mp h
  exact ⟨mem_of_row hrow,row_key hrow,hp⟩

theorem expireTradeListing_trading {b : Bool} (hs : Stocked s) (hl : l∈s.listings) (hactive : l.status=.active)
    (hdue : l.expiresAt≤now) (h : (Act.expireTradeListing now l).run s=.ok (b,t)) :
    Trading s [l] .expired [] [refund l] t := by
  obtain ⟨_,hc,hm⟩ := expireTradeListing_closes hs (Closes.refl (by decide)) (Moved.refl hs)
    (List.singleton_sublist.mpr hl) hactive hdue h
  exact ⟨hc,hm⟩

theorem claim_trading {taken : Bool} (hs : Stocked s) (hl : l∈s.listings)
    (hactive : l.status=.active) (hn : status≠.active) (hp : p l=true)
    (h : (Act.claimListing l.id p status).run s=.ok (taken,t)) : Trading s [l] status [] [] t := by
  obtain ⟨_,hc,hbags⟩ := claimListing_closes hs (Closes.refl hn) (List.singleton_sublist.mpr hl) hactive hp h
  exact ⟨hc,(Moved.refl hs).congr hbags⟩

theorem cancelTradeListing_trading {id : Nat} {seller : Text} {group : Int} {b : Bool} (hs : Stocked s)
    (h : (Act.cancelTradeListing now id seller group).run s=.ok (b,t)) :
    ∃l∈s.listings,l.id=id ∧ (b=false ↔ l.expiresAt≤now) ∧
      Trading s [l] (if b then .cancelled else .expired) [] [refund l] t := by
  obtain ⟨o,s1,hread,h1⟩ := bind_ok h
  cases read_ok hread
  obtain ⟨l,s2,hfetch,h2⟩ := bind_ok h1
  obtain ⟨hfound,hs2⟩ := fetch_ok hfetch
  dsimp only at hs2
  subst hs2
  obtain ⟨hl,hid,hp⟩ := listing_fetched hfound
  simp only [Bool.and_eq_true,decide_eq_true_eq] at hp
  obtain ⟨⟨hgroup,hactive⟩,hseller⟩ := hp
  refine ⟨l,hl,hid,?_⟩
  split at h2
  · rename_i hdue
    obtain ⟨_,s3,hexpire,h3⟩ := bind_ok h2
    obtain ⟨_,s4,hcheck,hpure⟩ := bind_ok h3
    cases (require_ok hcheck).2
    cases pure_ok hpure
    exact ⟨iff_of_true rfl hdue,expireTradeListing_trading hs hl hactive hdue hexpire⟩
  · rename_i hlive
    obtain ⟨taken,s3,hclaim,h3⟩ := bind_ok h2
    rw [← hid] at hclaim
    have hclaimed := claim_trading hs hl hactive (by decide) (by simp [hgroup]; omega) hclaim
    obtain ⟨_,s4,hcheck,h4⟩ := bind_ok h3
    cases (require_ok hcheck).2
    obtain ⟨_,s5,hgive,hpure⟩ := bind_ok h4
    cases pure_ok hpure
    have hamount := hs.amounts l hl
    have hgiven := giveItems_trading _ _ _ ⟨hclaimed,by omega⟩ hgive
    refine ⟨iff_of_false (by simp) hlive,?_⟩
    rw [← hseller] at hgiven
    exact hgiven

theorem purchaseTradeListing_trading {id : Nat} {buyer : Text} {group : Int} {taxOf : Int → Int} {b : Bool}
    (hs : Stocked s) (h : (Act.purchaseTradeListing now id buyer group taxOf).run s=.ok (b,t)) :
    ∃l∈s.listings,l.id=id ∧ l.group=group ∧ (b=false ↔ l.expiresAt≤now) ∧
      Trading s [l] (if b then .purchased else .expired) []
        [if b then (⟨buyer,group⟩,single l.item l.amount) else refund l] t := by
  obtain ⟨o,s1,hread,h1⟩ := bind_ok h
  cases read_ok hread
  obtain ⟨l,s2,hfetch,h2⟩ := bind_ok h1
  obtain ⟨hfound,hs2⟩ := fetch_ok hfetch
  dsimp only at hs2
  subst hs2
  obtain ⟨hl,hid,hp⟩ := listing_fetched hfound
  have hactive : l.status=.active := of_decide_eq_true hp
  obtain ⟨_,s3,hcheck,h3⟩ := bind_ok h2
  obtain ⟨hgroup,hs3⟩ := require_ok hcheck
  cases hs3
  have hgroup : l.group=group := of_decide_eq_true hgroup
  refine ⟨l,hl,hid,hgroup,?_⟩
  split at h3
  · rename_i hdue
    obtain ⟨_,s4,hexpire,h4⟩ := bind_ok h3
    obtain ⟨_,s5,hexpired,hpure⟩ := bind_ok h4
    cases (require_ok hexpired).2
    cases pure_ok hpure
    exact ⟨iff_of_true rfl hdue,expireTradeListing_trading hs hl hactive hdue hexpire⟩
  · rename_i hlive
    obtain ⟨_,s4,hself,h4⟩ := bind_ok h3
    cases (require_ok hself).2
    obtain ⟨o',s5,hread',h5⟩ := bind_ok h4
    cases read_ok hread'
    obtain ⟨u,s6,hfetch',h6⟩ := bind_ok h5
    obtain ⟨_,hs6⟩ := fetch_ok hfetch'
    dsimp only at hs6
    subst hs6
    obtain ⟨_,s7,hcoins,h7⟩ := bind_ok h6
    cases (require_ok hcoins).2
    obtain ⟨taken,s8,hclaim,h8⟩ := bind_ok h7
    rw [← hid] at hclaim
    have hclaimed := claim_trading hs hl hactive (by decide) (by simp [hgroup]; omega) hclaim
    have hamount := hs.amounts l hl
    -- after the claim, all but the delivery is paid and recorded elsewhere
    obtain ⟨hb,hbought⟩ := Ensures.run (Q:=fun b t => b=true ∧
        Trading s6 [l] .purchased [] [(⟨buyer,group⟩,single l.item l.amount)] t) h8 hclaimed (by
      refine Ensures.bind keeps_require (fun _ => ?_)
      refine Ensures.bind (Only.trading [.users] (payUser_only (by decide)) (by decide) (by decide)) (fun _ => ?_)
      refine Ensures.bind (Only.trading [.users] (payUser_only (by decide)) (by decide) (by decide)) (fun _ => ?_)
      refine Ensures.bind keeps_read (fun _ => Ensures.bind keeps_require (fun _ => ?_))
      refine Ensures.bind (Only.trading [.ledger] (recordAssetDelta_only (by decide)) (by decide) (by decide)) (fun _ => ?_)
      refine Ensures.bind (Only.trading [.ledger] (recordAssetDelta_only (by decide)) (by decide) (by decide)) (fun _ => ?_)
      refine Ensures.bind (Ensures.strengthen giveItems_trading (fun v hv => ⟨hv,by omega⟩)) (fun _ => ?_)
      exact ensures_pure (fun v hv => ⟨rfl,hv⟩))
    subst hb
    exact ⟨iff_of_false (by simp) hlive,hbought⟩

theorem settleExpiredTradeListings_trading {group : Option Int} {a : Unit} (hs : Stocked s)
    (h : (Act.settleExpiredTradeListings now group).run s=.ok (a,t)) :
    ∃done,Trading s done .expired [] (done.map refund) t := by
  obtain ⟨due,s1,hread,h1⟩ := bind_ok h
  cases read_ok hread
  obtain ⟨hc,hm⟩ := settleExpired_closes hs (Closes.refl (by decide)) (Moved.refl hs)
    List.filter_sublist (fun l hl => by simpa using And.left (by simpa using (List.mem_filter.mp hl).2)) h1
  exact ⟨_,hc,hm⟩

end

end Trades

end XiaoQing.QingPet
