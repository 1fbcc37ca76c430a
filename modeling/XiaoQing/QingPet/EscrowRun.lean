import XiaoQing.QingPet.Economy
import XiaoQing.QingPet.EscrowCalls

namespace XiaoQing.QingPet

open Framework Tx Commands

namespace Call

def bag : Call → Option (Draft Items × List Text)
  | commitPetAndUser _ _ bag _ _ _ => bag
  | _ => none

def Packed (c : Call) : Prop := ∀b,c.bag=some b → b.1.base.isSome

/-- What a call changes in the bags, but for the listings that it closes. -/
def own : Call → List Put
  | commitPetAndUser _ user bag _ _ action => [(user.new.who,committed bag action)]
  | purchaseItem who item amount _ => [(who,single item amount)]
  | useAccelerationCard who _ _ => [(who,single accelerationCard (-1))]
  | giftItem giver receiver group item amount _ _ _ =>
    [(⟨giver,group⟩,single item (-amount)),(⟨receiver,group⟩,single item amount)]
  | createTradeListing seller item amount _ _ _ => [(seller,single item (-amount))]
  | treatPet who _ item _ _ _ _ => [(who,single item (-1))]
  | _ => []

def supply : Call → List Put
  | giftItem _ _ _ _ _ _ _ _ => []
  | createTradeListing _ _ _ _ _ _ => []
  | c => c.own

def party (c : Call) (status : ListingStatus) (l : Listing) : Who :=
  match c,status with
  | purchaseTradeListing _ buyer _ _,.purchased => ⟨buyer,l.group⟩
  | _,_ => ⟨l.seller,l.group⟩

end Call

structure Delivery where
  listing : Listing
  status : ListingStatus
  party : Who

def Delivery.put (d : Delivery) : Put := (d.party,single d.listing.item d.listing.amount)

/-- The deliveries of a call that led from `s` to `t`. -/
def deliveries (c : Call) (s t : Db) : List Delivery :=
  (closings s t).map (fun l =>
    let status := ((t.listing l.id).map Listing.status).getD .active
    ⟨l,status,c.party status l⟩)

/-- The tables, with what the calls changed in the bags, what they supplied, and the deliveries. -/
structure Trade where
  db : Db
  own : List Put
  supplied : List Put
  delivered : List Delivery

def Trade.empty : Trade := ⟨Db.empty,[],[],[]⟩

/-- A step of the service, as `serve`; a call that ends in an error changes nothing. -/
def trade (s : Trade) (a : Nat × Call) : Option Trade :=
  match transact (a.2.run a.1) s.db with
  | (.error _,db) => some {s with db := db}
  | (.ok _,db) =>
    some ⟨db,s.own++a.2.own,s.supplied++a.2.supply,s.delivered++deliveries a.2 s.db db⟩

section

variable {s t : Db} {c : Call} {now : Nat} {done opened : List Listing} {status : ListingStatus}

theorem given_append (p q : List Put) (who : Who) (item : Text) :
    given (p++q) who item=given p who item+given q who item := by
  unfold given
  rw [List.map_append,List.sum_append]

theorem gained_append (p q : List Put) (group : Int) (item : Text) :
    gained (p++q) group item=gained p group item+gained q group item := by
  unfold gained
  rw [List.map_append,List.sum_append]

structure Trades (c : Call) (s : Db) (done : List Listing) (status : ListingStatus) (opened : List Listing)
    (t : Db) : Prop where
  trading : Trading s done status opened
    (c.own++done.map (fun l => (c.party status l,single l.item l.amount))) t
  opens : ∀l∈opened,l.status=.active
  supply : ∀group item,gained c.own group item+(opened.map (fun l => l.escrow group item)).sum=
    gained c.supply group item

theorem Trades.plain (hsupply : c.supply=c.own) (h : Trading s [] .expired [] c.own t) :
    Trades c s [] .expired [] t := by
  refine ⟨?_,(fun _ h => nomatch h),fun group item => ?_⟩
  · simpa using h
  · rw [hsupply]
    simp

theorem Trades.closing (hown : c.own=[]) (hsupply : c.supply=[])
    (h : Trading s done status [] (done.map (fun l => (c.party status l,single l.item l.amount))) t) :
    Trades c s done status [] t := by
  refine ⟨?_,(fun _ h => nomatch h),fun group item => ?_⟩
  · rw [hown]
    exact h
  · rw [hown,hsupply]
    simp

theorem Call.trades_of_tables {a : Unit} (hs : Stocked s) (hb : .inventories∉c.tables)
    (hl : .listings∉c.tables) (hown : c.own=[]) (hsupply : c.supply=[]) (h : (c.run now).run s=.ok (a,t)) :
    Trades c s [] .expired [] t :=
  .closing hown hsupply ((Trading.refl hs (by decide)).within ((run_only c).run h) hb hl)

theorem Call.run_trades {a : Unit} (hs : Stocked s) (hc : c.Packed) (h : (c.run now).run s=.ok (a,t)) :
    ∃done status opened,Trades c s done status opened t := by
  have hrefl : Trading s [] .expired [] [] s := Trading.refl hs (by decide)
  cases c with
  | commitPetAndUser pet user bag task groupTask action =>
    obtain ⟨n,hrun⟩ := discard_ok h
    exact ⟨[],.expired,[],.plain rfl (commitPetAndUser_trading hc _ _ _ hrefl hrun)⟩
  | purchaseItem who item amount cost =>
    exact ⟨[],.expired,[],.plain rfl (purchaseItem_trading _ _ _ hrefl h)⟩
  | useAccelerationCard who pet gain =>
    exact ⟨[],.expired,[],.plain rfl (useAccelerationCard_trading _ _ _ hrefl h)⟩
  | treatPet who pet item health clean limit seconds =>
    exact ⟨[],.expired,[],.plain rfl (treatPet_trading _ _ _ hrefl h)⟩
  | giftItem giver receiver group item amount gain limit seconds =>
    refine ⟨[],.expired,[],⟨?_,(fun _ h => nomatch h),fun g x => ?_⟩⟩
    · simpa [Call.own] using giftItem_trading _ _ _ hrefl h
    · simp only [gained,Call.own,Call.supply,single,List.map_cons,List.map_nil,List.sum_cons,List.sum_nil]
      by_cases hg : group=g <;> by_cases hx : x=item <;> simp [hg,hx]
  | createTradeListing seller item amount price hours limit =>
    obtain ⟨_,id,htrading⟩ := createTradeListing_trading _ _ _ hrefl h
    refine ⟨[],.expired,_,⟨by simpa [Call.own] using htrading,fun l hl => ?_,fun g x => ?_⟩⟩
    · cases List.mem_singleton.mp hl
      rfl
    · simp only [gained,Call.own,Call.supply,single,Listing.escrow,List.map_cons,List.map_nil,List.sum_cons,
        List.sum_nil,true_and]
      by_cases hg : seller.group=g <;> by_cases hx : item=x <;> simp [hg,hx,eq_comm (a:=x)]
  | cancelTradeListing id seller group =>
    obtain ⟨b,hrun⟩ := discard_ok h
    obtain ⟨l,_,_,_,htrading⟩ := cancelTradeListing_trading hs hrun
    exact ⟨[l],_,[],.closing rfl rfl htrading⟩
  | purchaseTradeListing id buyer group taxOf =>
    obtain ⟨b,hrun⟩ := discard_ok h
    obtain ⟨l,_,_,hgroup,_,htrading⟩ := purchaseTradeListing_trading hs hrun
    refine ⟨[l],if b then .purchased else .expired,[],.closing rfl rfl ?_⟩
    cases b with
    | true =>
      rw [← hgroup] at htrading
      exact htrading
    | false => exact htrading
  | settleExpiredTradeListings group =>
    obtain ⟨done,htrading⟩ := settleExpiredTradeListings_trading hs h
    exact ⟨done,.expired,[],.closing rfl rfl htrading⟩
  | _ =>
    exact ⟨[],.expired,[],trades_of_tables hs (by simp [Call.tables]) (by simp [Call.tables]) rfl rfl h⟩

theorem Call.party_group (c : Call) (status : ListingStatus) (l : Listing) :
    (c.party status l).group=l.group := by
  unfold Call.party
  split <;> rfl

theorem gained_done (hactive : ∀l∈done,l.status=.active) (group : Int) (item : Text) :
    gained (done.map (fun l => (c.party status l,single l.item l.amount))) group item=
      (done.map (fun l => l.escrow group item)).sum := by
  unfold gained
  rw [List.map_map]
  refine congrArg List.sum (List.map_congr_left (fun l hl => ?_))
  simp only [Function.comp,c.party_group,single,Listing.escrow,hactive l hl,true_and]
  by_cases hg : l.group=group <;> by_cases hx : l.item=item <;> simp [hg,hx,eq_comm (a:=item)]

namespace Trades

theorem stocked (h : Trades c s done status opened t) (hs : Stocked s) : Stocked t :=
  h.trading.moved.stocked h.trading.closes hs

theorem held (h : Trades c s done status opened t) (hs : Stocked s) (group : Int) (item : Text) :
    t.held group item=s.held group item+gained c.supply group item := by
  have hstock := h.trading.moved.stock group item
  have hescrow := h.trading.closes.escrow hs group item
  have hsupply := h.supply group item
  rw [gained_append,gained_done h.trading.closes.active] at hstock
  unfold Db.held
  omega

theorem deliveries (h : Trades c s done status opened t) (hs : Stocked s) :
    deliveries c s t=done.map (fun l => ⟨l,status,c.party status l⟩) := by
  unfold QingPet.deliveries
  rw [h.trading.closes.closings hs]
  refine List.map_congr_left (fun l hl => ?_)
  rw [h.trading.closes.row_of_mem hs (h.trading.closes.sub.subset hl),if_pos (List.mem_map_of_mem hl)]
  rfl

end Trades

end

/-- The state of a run: the bags add up to what the calls changed and the deliveries gave, and every
    listing that is not active was delivered once. -/
structure Kept (s : Trade) : Prop where
  stocked : Stocked s.db
  even : Even s.db
  held : ∀group item,s.db.held group item=gained s.supplied group item
  items : ∀who item,s.db.items who item=given (s.own++s.delivered.map Delivery.put) who item
  once : (s.delivered.map (fun d => d.listing.id)).Nodup
  rows : ∀d∈s.delivered,d.listing.status=.active ∧ d.status≠.active ∧
    s.db.listing d.listing.id=some {d.listing with status := d.status}
  sellers : ∀d∈s.delivered,d.status≠.purchased → d.party=⟨d.listing.seller,d.listing.group⟩
  closed : ∀l∈s.db.listings,l.status≠.active → ∃d∈s.delivered,d.listing.id=l.id

namespace Kept

variable {s s' : Trade} {a : Nat × Call}

theorem empty : Kept Trade.empty := by
  refine ⟨⟨List.nodup_nil,fun _ _ => le_rfl,List.nodup_nil,(fun _ h => nomatch h),fun _ h => nomatch h⟩,
    Even.empty,fun _ _ => rfl,fun _ _ => rfl,List.nodup_nil,(fun _ h => nomatch h),(fun _ h => nomatch h),
    fun _ h => nomatch h⟩

theorem committed {c : Call} {db : Db} {done opened : List Listing} {status : ListingStatus} (h : Kept s)
    (he : Even db) (ht : Trades c s.db done status opened db) :
    Kept ⟨db,s.own++c.own,s.supplied++c.supply,s.delivered++deliveries c s.db db⟩ := by
  have hcloses := ht.trading.closes
  have hnew := ht.deliveries h.stocked
  have hids : (deliveries c s.db db).map (fun d => d.listing.id)=done.map Listing.id := by
    rw [hnew,List.map_map]
    rfl
  have hputs : (deliveries c s.db db).map Delivery.put=
      done.map (fun l => (c.party status l,single l.item l.amount)) := by
    rw [hnew,List.map_map]
    rfl
  constructor
  · exact ht.stocked h.stocked
  · exact he
  · intro group item
    rw [gained_append,← h.held group item]
    exact ht.held h.stocked group item
  · intro who item
    have hold := h.items who item
    have hmoved := ht.trading.moved.items who item
    simp only [List.map_append,given_append,hputs] at hold hmoved ⊢
    omega
  · rw [List.map_append,hids]
    refine List.nodup_append.mpr ⟨h.once,List.Nodup.sublist (hcloses.sub.map _) h.stocked.listings,?_⟩
    intro x hold y hnow hxy
    obtain ⟨d,hd,hdx⟩ := List.mem_map.mp hold
    obtain ⟨l,hl,hly⟩ := List.mem_map.mp hnow
    obtain ⟨_,hstatus,hrow⟩ := h.rows d hd
    have hid : d.listing.id=l.id := (hdx.trans hxy).trans hly.symm
    rw [hid] at hrow
    have hactive := h.stocked.listings.row_of_mem (hcloses.sub.subset hl)
    have hsame := Option.some.inj (hactive.symm.trans hrow)
    exact hstatus ((congrArg Listing.status hsame).symm.trans (hcloses.active l hl))
  · intro d hd
    rcases List.mem_append.mp hd with hd | hd
    · obtain ⟨hactive,hstatus,hrow⟩ := h.rows d hd
      refine ⟨hactive,hstatus,?_⟩
      have hsettled := hcloses.settled h.stocked (mem_of_row hrow) hstatus
      exact hsettled
    · rw [hnew] at hd
      obtain ⟨l,hl,rfl⟩ := List.mem_map.mp hd
      refine ⟨hcloses.active l hl,hcloses.inactive,?_⟩
      exact (hcloses.row_of_mem h.stocked (hcloses.sub.subset hl)).trans
        (by rw [if_pos (List.mem_map_of_mem hl)])
  · intro d hd hstatus
    rcases List.mem_append.mp hd with hd | hd
    · exact h.sellers d hd hstatus
    · rw [hnew] at hd
      obtain ⟨l,hl,rfl⟩ := List.mem_map.mp hd
      unfold Call.party
      split
      · exact absurd rfl hstatus
      · rfl
  · intro l hl hstatus
    dsimp only at hl
    rw [hcloses.listings] at hl
    rcases List.mem_append.mp hl with hl | hl
    · obtain ⟨l',hl',rfl⟩ := mem_updateWhere hl
      by_cases hd : l'.id∈done.map Listing.id
      · obtain ⟨m,hm,he⟩ := List.mem_map.mp hd
        refine ⟨⟨m,status,c.party status m⟩,List.mem_append_right _ ?_,?_⟩
        · rw [hnew]
          exact List.mem_map_of_mem hm
        · rw [if_pos (decide_eq_true hd)]
          exact he
      · rw [if_neg (fun ht => hd (of_decide_eq_true ht))] at hstatus ⊢
        obtain ⟨d,hd',he⟩ := h.closed l' hl' hstatus
        exact ⟨d,List.mem_append_left _ hd',he⟩
    · exact absurd (ht.opens l hl) hstatus

theorem step (h : Kept s) (hearned : a.2.Earned) (hpacked : a.2.Packed) (hs : trade s a=some s') :
    Kept s' := by
  have heven : Even (a.2.after a.1 s.db) := h.even.call hearned
  unfold trade at hs
  unfold Call.after at heven
  rcases transact_cases (a.2.run a.1) s.db with ⟨u,db,hrun,ht⟩ | ⟨e,ht⟩
  · rw [ht] at hs heven
    cases hs
    obtain ⟨done,status,opened,htrades⟩ := Call.run_trades h.stocked hpacked hrun
    exact h.committed heven htrades
  · rw [ht] at hs
    cases hs
    exact h

end Kept

/-- In every run of the service: what a group holds of an item, in bags and in active listings, is
    what was bought, granted and consumed; a listing that is not active was delivered once, to one
    party; counts and coins are never negative; and a call that is refused changes nothing, but that a
    cancel or a purchase of a listing that has expired gives it back to its seller. -/
theorem items_conserved (s : Trade)
    (h : Reach trade (fun _ a => a.2.Earned ∧ a.2.Packed) (·=Trade.empty) s) :
    (∀group item,s.db.held group item=gained s.supplied group item) ∧
    (∀who item,s.db.items who item=given (s.own++s.delivered.map Delivery.put) who item) ∧
    (s.delivered.map (fun d => d.listing.id)).Nodup ∧
    (∀d∈s.delivered,d.listing.status=.active ∧ d.status≠.active ∧
      s.db.listing d.listing.id=some {d.listing with status := d.status} ∧
      (d.status≠.purchased → d.party=⟨d.listing.seller,d.listing.group⟩)) ∧
    (∀l∈s.db.listings,l.status≠.active → ∃d∈s.delivered,d.listing.id=l.id) ∧
    (∀who item,0 ≤ s.db.items who item) ∧ (∀who u,s.db.user who=some u → 0≤u.coins) ∧
    (∀now (c : Call) e,(transact (c.run now) s.db).1=.error e → c.after now s.db=s.db) ∧
    (∀now id seller group t,(Act.cancelTradeListing now id seller group).run s.db=.ok (false,t) →
      ∃l∈s.db.listings,l.id=id ∧ l.expiresAt≤now ∧ Trading s.db [l] .expired [] [refund l] t) ∧
    ∀now id buyer group taxOf t,
      (Act.purchaseTradeListing now id buyer group taxOf).run s.db=.ok (false,t) →
      ∃l∈s.db.listings,l.id=id ∧ l.expiresAt≤now ∧ Trading s.db [l] .expired [] [refund l] t := by
  have hkept : Kept s := h.invariant (fun _ h0 => h0 ▸ Kept.empty)
    (fun _ _ _ hk hc hs => hk.step hc.1 hc.2 hs)
  refine ⟨hkept.held,hkept.items,hkept.once,fun d hd => ?_,hkept.closed,hkept.stocked.counts,
    fun who u hu => ?_,fun now c e he => transact_error he,fun now id seller group t hr => ?_,
    fun now id buyer group taxOf t hr => ?_⟩
  · obtain ⟨hactive,hstatus,hrow⟩ := hkept.rows d hd
    exact ⟨hactive,hstatus,hrow,hkept.sellers d hd⟩
  · obtain ⟨books,hb⟩ := hkept.even.books
    have hpos := (hb.coins who).1
    rwa [Db.coinsOf,hu] at hpos
  · obtain ⟨l,hl,hid,hdue,htrading⟩ := cancelTradeListing_trading hkept.stocked hr
    exact ⟨l,hl,hid,hdue.mp rfl,htrading⟩
  · obtain ⟨l,hl,hid,_,hdue,htrading⟩ := purchaseTradeListing_trading hkept.stocked hr
    exact ⟨l,hl,hid,hdue.mp rfl,htrading⟩

def offering : List (Nat × Call) :=
  [(0,.createUser owner),(0,.purchaseItem owner "cake".toList 2 20),
    (0,.createTradeListing owner "cake".toList 1 5 1 3)]

theorem items_conserved_example :
    ∃s,execute trade Trade.empty offering=some s ∧ s.db.items owner "cake".toList=1 ∧
      s.db.held 7 "cake".toList=2 ∧ ∀group item,s.db.held group item=gained s.supplied group item := by
  have hrun : (execute trade Trade.empty offering).any (fun s =>
      decide (s.db.items owner "cake".toList=1 ∧ s.db.held 7 "cake".toList=2))=true := by
    decide
  obtain ⟨s,hs,hq⟩ := (Option.any_eq_true _ _).mp hrun
  obtain ⟨hcount,hheld⟩ := of_decide_eq_true hq
  refine ⟨s,hs,hcount,hheld,(items_conserved s (.execute offering (fun a ha _ => ?_) (.start rfl) hs)).1⟩
  simp only [offering,List.mem_cons,List.not_mem_nil,or_false] at ha
  rcases ha with rfl | rfl | rfl <;> exact ⟨(fun _ hu => nomatch hu),fun _ hb => nomatch hb⟩

/-- A cancel of a listing that has expired answers that it did not cancel, and changes the bag. -/
theorem refused_cancel_refunds :
    ∃s t,execute trade Trade.empty offering=some s ∧
      (Act.cancelTradeListing (3600*second) 1 owner.user 7).run s.db=.ok (false,t) ∧
      s.db.items owner "cake".toList=1 ∧ t.items owner "cake".toList=2 := by
  have hrun : (execute trade Trade.empty offering).any (fun s : Trade =>
      match (Act.cancelTradeListing (3600*second) 1 owner.user 7).run s.db with
      | .ok (b,t) => !b && decide ((s.db.items owner "cake".toList : Int)=1) &&
        decide ((t.items owner "cake".toList : Int)=2)
      | .error _ => false)=true := by
    decide
  obtain ⟨s,hs,hq⟩ := (Option.any_eq_true _ _).mp hrun
  cases hcancel : (Act.cancelTradeListing (3600*second) 1 owner.user 7).run s.db with
  | error e =>
    rw [hcancel] at hq
    cases hq
  | ok r =>
    rw [hcancel] at hq
    obtain ⟨b,t⟩ := r
    simp only [Bool.and_eq_true,Bool.not_eq_true',decide_eq_true_eq] at hq
    obtain ⟨⟨hb,hcount⟩,hback⟩ := hq
    subst hb
    exact ⟨s,t,hs,hcancel,hcount,hback⟩

end XiaoQing.QingPet
