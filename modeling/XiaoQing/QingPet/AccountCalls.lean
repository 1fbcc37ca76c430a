import XiaoQing.QingPet.Accounts

namespace XiaoQing.QingPet

open Framework Tx Commands

def Draft.Earned (user : Draft User) : Prop :=
  match user.base with
  | none => user.new.todayCoins≤dailyCoinLimit
  | some base => user.new.todayCoins=base.todayCoins

section

variable {ws : List Who} {g h : Who → Int} {who : Who} {u latest : User} {now : Nat}

theorem Only.knownUser (ts : List Table) {α : Type} {m : Act α} (hm : Only ts m) (hu : .users∉ts)
    (hl : .ledger∉ts) : Keeps (fun db => Known ws g h db ∧ db.user who=some u) m := by
  intro s a t hs hr
  have hw := hm.run hr
  refine ⟨Only.known ts hm hu hl s a t hs.1 hr,?_⟩
  rw [Db.user,show t.users=s.users from hw .users hu]
  exact hs.2

theorem Known.limit {db : Db} (hk : Known ws g h db) (hu : db.user who=some u) :
    u.todayCoins≤dailyCoinLimit := by
  have hle := (hk.1.today who).1
  rwa [Db.todayOf,hu] at hle

variable {user : Draft User}

theorem mergedOnto_row (hd : user.Earned) (hwho : user.new.who=latest.who)
    (hlimit : latest.todayCoins≤dailyCoinLimit) :
    (user.new.mergedOnto user.base latest).who=latest.who ∧
    (user.new.mergedOnto user.base latest).version=latest.version ∧
    (user.new.mergedOnto user.base latest).todayCoins≤dailyCoinLimit ∧
    (user.base.isSome → (user.new.mergedOnto user.base latest).todayCoins=latest.todayCoins) := by
  unfold Draft.Earned at hd
  unfold User.mergedOnto
  cases hb : user.base with
  | none =>
    rw [hb] at hd
    exact ⟨hwho,rfl,hd,nofun⟩
  | some base =>
    rw [hb] at hd
    have htoday : addDelta base.todayCoins user.new.todayCoins latest.todayCoins=latest.todayCoins := by
      unfold addDelta
      omega
    exact ⟨rfl,rfl,htoday.le.trans hlimit,fun _ => htoday⟩

theorem Books.open {db : Db} (hb : Books g h db) (hnone : db.user who=none) :
    Books g h {db with
      users := db.users++[User.fresh who now]
      ledger := db.ledger++[Entry.opening who]} := by
  have huser : ∀w,row User.who (db.users++[User.fresh who now]) w=
      if w=who then some (User.fresh who now) else db.user w := by
    intro w
    rw [row_append]
    by_cases hw : w=who
    · subst hw
      rw [show row User.who db.users w=none from hnone]
      simp [User.fresh]
    · rw [if_neg hw,if_neg (fun he => hw he.symm),Option.or_none]
      rfl
  have hentries : ∀w,(db.ledger++[Entry.opening who]).filter (Entry.ofCoins w)=
      db.coinEntries w++if w=who then [Entry.opening who] else [] := by
    intro w
    rw [List.filter_append]
    by_cases hw : w=who
    · simp [Entry.ofCoins,Entry.opening,hw,Db.coinEntries]
    · simp [Entry.ofCoins,Entry.opening,hw,eq_comm (a:=who),Db.coinEntries]
  have hempty := hb.closed who hnone
  refine ⟨hb.keys.append (fun r hr => row_eq_none hnone r hr),fun w hw => ?_,fun w hw => ?_,fun w => ?_,
    fun w => ?_⟩
  · unfold Db.coinEntries
    rw [hentries]
    by_cases he : w=who
    · subst he
      rw [if_pos rfl,hempty]
      exact ⟨[],rfl⟩
    · rw [if_neg he,List.append_nil]
      unfold Db.user at hw
      rw [huser,if_neg he] at hw
      exact hb.opened w hw
  · unfold Db.user at hw
    rw [huser] at hw
    by_cases he : w=who
    · rw [if_pos he] at hw
      cases hw
    · rw [if_neg he] at hw
      unfold Db.coinEntries
      rw [hentries,if_neg he,List.append_nil]
      exact hb.closed w hw
  · have hold := hb.coins w
    unfold Db.coinsOf Db.coinSum Db.coinEntries Db.user
    rw [huser,hentries]
    by_cases he : w=who
    · subst he
      unfold Db.coinsOf Db.coinSum at hold
      rw [hnone,hempty] at hold
      rw [if_pos rfl,if_pos rfl,hempty]
      have hg : g w=0 := by simpa using hold.2.symm
      rw [hg]
      exact ⟨by simp [User.fresh],rfl⟩
    · rw [if_neg he,if_neg he,List.append_nil]
      exact hold
  · have hold := hb.today w
    unfold Db.todayOf Db.creditSum Db.coinEntries Db.user
    rw [huser,hentries]
    by_cases he : w=who
    · subst he
      unfold Db.todayOf Db.creditSum at hold
      rw [hnone,hempty] at hold
      rw [if_pos rfl,if_pos rfl,hempty]
      have hh : h w=0 := by simpa using hold.2.symm
      rw [hh]
      exact ⟨by simp [User.fresh,dailyCoinLimit],rfl⟩
    · rw [if_neg he,if_neg he,List.append_nil]
      exact hold

theorem createUser_books : Keeps (Books g h) (Act.createUser now who) := by
  intro s a t hs hr
  obtain ⟨o,s',hread,hrest⟩ := bind_ok hr
  cases read_ok hread
  dsimp only at hrest
  split at hrest
  · cases pure_ok hrest
    exact hs
  rename_i hsome
  have hnone : s.user who=none := by simpa using hsome
  obtain ⟨_,s'',hinsert,hrest⟩ := bind_ok hrest
  obtain ⟨_,s3,hrecord,hpure⟩ := bind_ok hrest
  cases pure_ok hpure
  have hins := attempt_ok hinsert
  have hsolvent : Db.solvent (User.fresh who now)=true := by simp [Db.solvent,User.fresh]
  rw [if_pos hsolvent] at hins
  cases hins
  have hentry := attempt_ok (f:=fun db : Db =>
    if (Entry.opening who).reference.isSome && db.ledger.any (fun f => f.asset=.coins &&
      f.reference=(Entry.opening who).reference) then none
    else some {db with ledger := db.ledger++[Entry.opening who]}) hrecord
  dsimp only at hentry
  split at hentry
  · cases hentry
  · cases hentry
    exact hs.open hnone

theorem giveItems_known {item : Text} {amount : Int} :
    Keeps (Known ws g h) (Act.giveItems who item amount) :=
  Only.known [.inventories] (giveItems_only (by decide)) (by decide) (by decide)

theorem expireTradeListing_known {l : Listing} : Keeps (Known ws g h) (Act.expireTradeListing now l) := by
  refine Keeps.bind (Only.known [.listings] (claimListing_only (by decide)) (by decide) (by decide))
    (fun taken => ensures_ite (fun _ => ?_) (fun _ => keeps_pure))
  refine Keeps.bind giveItems_known (fun _ => Keeps.bind ?_ (fun _ => keeps_pure))
  refine (insertEntry_known ?_).weaken (fun _ db hk => ?_)
  · exact fun hc => nomatch hc
  · simpa using hk

variable {group : Int}

theorem cancelTradeListing_known {id : Nat} {seller : Text} :
    Keeps (Known ws g h) (Act.cancelTradeListing now id seller group) := by
  refine Keeps.bind keeps_read (fun _ => Keeps.bind keeps_fetch (fun l => ensures_ite (fun _ => ?_)
    (fun _ => ?_)))
  · exact Keeps.bind expireTradeListing_known (fun _ => Keeps.bind keeps_require (fun _ => keeps_pure))
  · refine Keeps.bind (Only.known [.listings] (claimListing_only (by decide)) (by decide)
      (by decide)) (fun _ => Keeps.bind keeps_require (fun _ => ?_))
    exact Keeps.bind giveItems_known (fun _ => keeps_pure)

theorem settleExpiredTradeListings_known {group : Option Int} :
    Keeps (Known ws g h) (Act.settleExpiredTradeListings now group) :=
  Keeps.bind keeps_read (fun _ => keeps_forM _ (fun _ _ =>
    Keeps.bind expireTradeListing_known (fun _ => keeps_pure)))

theorem purchaseTradeListing_known {id : Nat} {buyer : Text} {taxOf : Int → Int} :
    Keeps (Known ws g h) (Act.purchaseTradeListing now id buyer group taxOf) := by
  refine Keeps.bind keeps_read (fun _ => Keeps.bind keeps_fetch (fun l => Keeps.bind keeps_require
    (fun _ => ensures_ite (fun _ => ?_) (fun _ => ?_))))
  · exact Keeps.bind expireTradeListing_known (fun _ => Keeps.bind keeps_require (fun _ => keeps_pure))
  generalize hproceeds : max 0 (l.price-taxOf l.price)=proceeds
  refine Keeps.bind keeps_require (fun _ => fetchUser_known (fun u => ?_))
  refine Ensures.strengthen (P:=Known (⟨buyer,group⟩::ws) g h) ?_ (fun db hk => hk.1)
  refine Ensures.bind keeps_require (fun _ => ?_)
  refine Ensures.bind (Only.known [.listings] (claimListing_only (by decide)) (by decide)
    (by decide)) (fun taken => Ensures.bind keeps_require (fun _ => ?_))
  refine Ensures.bind (payUser_mem (d:=-l.price) (by simp) (fun v => ⟨rfl,Int.sub_eq_add_neg,rfl⟩))
    (fun _ => ?_)
  refine Ensures.bind (payUser_known (d:=proceeds) (fun v => ⟨rfl,rfl,rfl⟩)) (fun _ => ?_)
  refine Ensures.bind ensures_read (fun other => Ensures.bind ensures_require (fun _ => ?_))
  refine Ensures.strengthen
    (P:=Known (⟨l.seller,group⟩::⟨buyer,group⟩::ws)
      (shift (shift g ⟨buyer,group⟩ (-l.price)) ⟨l.seller,group⟩ proceeds) h) ?_
    (fun db ⟨⟨hk,hother⟩,hsome⟩ => hk (by rw [← hother]; exact hsome))
  rw [shift_comm]
  refine Ensures.bind (recordCoins_known (by simp) (by decide)) (fun _ => ?_)
  refine Ensures.bind (recordCoins_known (by simp) (by decide)) (fun _ => ?_)
  refine Ensures.bind giveItems_known (fun _ => ensures_pure (fun db hk => ?_))
  exact hk.mono (fun w hw => List.mem_cons_of_mem _ (List.mem_cons_of_mem _ hw))

theorem purchaseItem_known {item : Text} {amount cost : Int} :
    Keeps (Known ws g h) (Act.purchaseItem who item amount cost) := by
  refine Keeps.bind keeps_require (fun _ => Ensures.bind ensures_read (fun o => Ensures.bind ensures_require
    (fun _ => ?_)))
  refine Ensures.strengthen (P:=Known (who::ws) g h) ?_ (fun db ⟨⟨hk,ho⟩,hpaid⟩ => ⟨hk.1,fun w hw => ?_⟩)
  · refine Ensures.bind (payUser_mem (d:=-cost) (by simp) (fun v => ⟨rfl,Int.sub_eq_add_neg,rfl⟩))
      (fun _ => ?_)
    refine Ensures.bind keeps_read (fun items => Ensures.bind (Only.known [.inventories] (saveInventoryItems_only (by decide)) (by decide) (by decide)) (fun _ => ?_))
    exact (recordCoins_known (by simp) (by decide)).weaken
      (fun _ db hk => hk.mono (fun w hw => List.mem_cons_of_mem _ hw))
  · rcases List.mem_cons.mp hw with rfl | hw
    · rw [← ho]
      exact Option.isSome_of_any hpaid
    · exact hk.2 w hw

theorem purchaseDress_known {dress : Text} {friendship : Bool} {price : Int} :
    Keeps (Known ws g h) (Act.purchaseDress who dress friendship price) := by
  refine Keeps.bind keeps_require (fun _ => Keeps.bind keeps_require (fun _ => Keeps.bind keeps_read
    (fun _ => Keeps.bind keeps_require (fun _ => ?_))))
  refine Ensures.bind ensures_read (fun o => Ensures.bind ensures_require (fun _ => ?_))
  refine Ensures.strengthen (P:=Known (who::ws) g h) ?_ (fun db ⟨⟨hk,ho⟩,hpaid⟩ => ⟨hk.1,fun w hw => ?_⟩)
  · cases friendship with
    | true =>
      refine Ensures.bind (payUser_keep (fun v => ⟨rfl,rfl,rfl⟩) (by simp)) (fun _ => ?_)
      refine Ensures.bind (Only.known [.dresses] (dresses_only (by decide)) (by decide) (by decide)) (fun _ => ?_)
      exact (recordOther_known (by decide)).weaken
        (fun _ db hk => hk.mono (fun w hw => List.mem_cons_of_mem _ hw))
    | false =>
      refine Ensures.bind (payUser_mem (d:=-price) (by simp) (fun v => ⟨rfl,Int.sub_eq_add_neg,rfl⟩))
        (fun _ => ?_)
      refine Ensures.bind (Only.known [.dresses] (dresses_only (by decide)) (by decide) (by decide)) (fun _ => ?_)
      exact (recordCoins_known (by simp) (by decide)).weaken
        (fun _ db hk => hk.mono (fun w hw => List.mem_cons_of_mem _ hw))
  · rcases List.mem_cons.mp hw with rfl | hw
    · rw [← ho]
      exact Option.isSome_of_any hpaid
    · exact hk.2 w hw

theorem giftItem_known {giver receiver : Text} {item : Text} {amount gain limit : Int}
    {seconds : Nat} :
    Keeps (Known ws g h) (Act.giftItem now giver receiver group item amount gain limit seconds) := by
  refine Keeps.bind keeps_require (fun _ => Keeps.bind keeps_require (fun _ => Keeps.bind keeps_require
    (fun _ => Keeps.bind keeps_require (fun _ => fetchUser_known (fun sender => ?_)))))
  refine Ensures.strengthen (P:=Known (⟨giver,group⟩::ws) g h) ?_ (fun db hk => hk.1)
  refine Ensures.bind ensures_read (fun other => Ensures.bind ensures_require (fun _ => ?_))
  refine Ensures.strengthen (P:=Known (⟨receiver,group⟩::⟨giver,group⟩::ws) g h) ?_
    (fun db ⟨⟨hk,ho⟩,hsome⟩ => ⟨hk.1,fun w hw => ?_⟩)
  · have hsave : ∀w (items : Items),Only [.inventories] (Act.saveInventoryItems w items) :=
      fun w items => saveInventoryItems_only (by decide)
    refine Ensures.bind keeps_require (fun _ => Ensures.bind keeps_require (fun _ => Ensures.bind keeps_read
      (fun _ => Ensures.bind keeps_require (fun _ => Ensures.bind keeps_read (fun _ => ?_)))))
    refine Ensures.bind (Only.known _ (hsave _ _) (by decide) (by decide)) (fun _ => ?_)
    refine Ensures.bind (Only.known _ (hsave _ _) (by decide) (by decide)) (fun _ => ?_)
    refine Ensures.bind (payUser_keep (fun v => ⟨rfl,rfl,rfl⟩) (by simp)) (fun _ => ?_)
    refine Ensures.weaken (R:=fun _ => Known (⟨receiver,group⟩::⟨giver,group⟩::ws) g h) ?_
      (fun _ db hk => hk.mono (fun w hw => List.mem_cons_of_mem _ (List.mem_cons_of_mem _ hw)))
    exact payUser_keep (fun v => ⟨rfl,rfl,rfl⟩) (by simp)
  · rcases List.mem_cons.mp hw with rfl | hw
    · rw [← ho]
      exact hsome
    · exact hk.2 w hw

theorem resetPet_known : Keeps (Known ws g h) (Act.resetPet now who) := by
  refine Keeps.bind keeps_read (fun _ => Keeps.bind keeps_read (fun _ => Keeps.bind keeps_require
    (fun _ => Keeps.bind (Only.known [.pets] (updatePets_only (by decide)) (by decide)
      (by decide)) (fun _ => ?_))))
  exact touchUser_known (fun _ => ⟨rfl,rfl,rfl⟩)

theorem setBan_known {days : Option Nat} : Keeps (Known ws g h) (Act.setBan now who days) :=
  Keeps.bind keeps_require (fun _ => Keeps.bind keeps_read (fun _ => Keeps.bind keeps_require
    (fun _ => touchUser_known (fun _ => ⟨rfl,rfl,rfl⟩))))

theorem leaveMessage_known {sender receiver : Text} {group limit : Int} :
    Keeps (Known ws g h) (Act.leaveMessage now sender receiver group limit) :=
  Keeps.bind keeps_require (fun _ => Keeps.bind keeps_read (fun _ => Keeps.bind keeps_fetch (fun _ =>
    Keeps.bind keeps_read (fun _ => Keeps.bind keeps_require (fun _ => Keeps.bind keeps_read (fun _ =>
      Keeps.bind keeps_require (fun _ => Keeps.bind keeps_require (fun _ =>
        touchUser_known (fun _ => ⟨rfl,rfl,rfl⟩)))))))))

theorem settleMinigame_known {c : MinigameCall} : Keeps (Known ws g h) (Act.settleMinigame now c) := by
  refine Keeps.bind keeps_require (fun _ => Keeps.bind keeps_require (fun _ => Keeps.bind keeps_read
    (fun prior => ?_)))
  cases prior with
  | some prior => exact Keeps.bind keeps_require (fun _ => keeps_pure)
  | none =>
    refine Keeps.bind keeps_read (fun _ => Keeps.bind keeps_require (fun _ => Keeps.bind keeps_read
      (fun _ => Keeps.bind keeps_fetch (fun p => Keeps.bind keeps_require (fun _ => Keeps.bind ?_
        (fun other => ?_))))))
    · exact ensures_ite (fun _ => keeps_pure) (fun _ => Keeps.bind keeps_read (fun _ => Keeps.bind
        keeps_require (fun _ => Keeps.bind keeps_read (fun _ => Keeps.bind keeps_fetch (fun _ =>
          Keeps.bind keeps_require (fun _ => keeps_pure))))))
    refine Keeps.bind keeps_require (fun _ => Keeps.bind keeps_read (fun _ => Keeps.bind keeps_require
      (fun _ => Keeps.bind ?_ (fun _ => keeps_pure))))
    refine Keeps.bind keeps_require (fun _ => Keeps.bind (Only.known [.cooldowns] (cooldowns_only (by decide)) (by decide) (by decide))
      (fun _ => Keeps.bind (creditCoins_known (by decide)) (fun _ => ?_)))
    refine Keeps.bind (Only.known [.pets] (updatePets_only (by decide)) (by decide) (by decide))
      (fun _ => ?_)
    exact Keeps.bind (Only.known [.minigames] (minigames_only (by decide)) (by decide) (by decide)) (fun _ => keeps_pure)

theorem visitPet_known {c : VisitCall} : Keeps (Known ws g h) (Act.visitPet now c) := by
  refine Keeps.bind keeps_require (fun _ => Keeps.bind keeps_require (fun _ => Keeps.bind keeps_read
    (fun prior => ?_)))
  cases prior with
  | some prior => exact Keeps.bind keeps_require (fun _ => keeps_pure)
  | none =>
    refine Keeps.bind keeps_read (fun _ => Keeps.bind keeps_fetch (fun _ => Keeps.bind keeps_read (fun _ =>
      Keeps.bind keeps_require (fun _ => Keeps.bind keeps_read (fun _ => Keeps.bind keeps_fetch (fun p =>
        Keeps.bind keeps_require (fun _ => Keeps.bind keeps_require (fun _ => Keeps.bind keeps_require
          (fun _ => Keeps.bind (Only.known [.quotas] (claimActionQuota_only (by decide))
            (by decide) (by decide)) (fun q => ?_))))))))))
    rcases q with (_ | w) | _
    · exact keeps_throw
    · exact keeps_throw
    refine Keeps.bind ?_ (fun _ => keeps_pure)
    refine Keeps.bind (touchUser_known (fun _ => ⟨rfl,rfl,rfl⟩)) (fun _ => Keeps.bind (Only.known [.pets] (updatePets_only (by decide)) (by decide) (by decide)) (fun _ => ?_))
    refine Keeps.bind (creditCoins_known (by decide)) (fun _ => Keeps.bind (creditCoins_known (by decide))
      (fun _ => ?_))
    refine Keeps.bind (Only.known [.tasks] (incrementTask_only (by decide)) (by decide) (by decide))
      (fun _ => ?_)
    exact Keeps.bind (Only.known [.visits] (visits_only (by decide)) (by decide) (by decide)) (fun _ => keeps_pure)

theorem claimTaskReward_known {task : Action} :
    Keeps (Known ws g h) (Act.claimTaskReward now who task) := by
  exact Keeps.bind keeps_read (fun _ => Keeps.bind keeps_fetch (fun t => Keeps.bind
    (Only.known [.tasks] (tasks_only (by decide)) (by decide) (by decide)) (fun _ => creditCoins_known (by decide))))

theorem claimGroupTaskReward_known {task : Action} :
    Keeps (Known ws g h) (Act.claimGroupTaskReward now who task) := by
  exact Keeps.bind keeps_read (fun _ => Keeps.bind keeps_fetch (fun t => Keeps.bind keeps_read (fun _ =>
    Keeps.bind keeps_require (fun _ => Keeps.bind (Only.known [.groupClaims] (groupClaims_only (by decide)) (by decide) (by decide))
      (fun _ => creditCoins_known (by decide))))))

theorem claimActivityReward_known {id : Nat} :
    Keeps (Known ws g h) (Act.claimActivityReward id who) := by
  exact Keeps.bind keeps_read (fun _ => Keeps.bind keeps_fetch (fun t => Keeps.bind keeps_read (fun _ =>
    Keeps.bind keeps_require (fun _ => Keeps.bind (Only.known [.activityClaims] (activityClaims_only (by decide)) (by decide) (by decide))
      (fun _ => creditCoins_known (by decide))))))

theorem grantTitle_known {title : Text} {days : Nat} :
    Keeps (Known ws g h) (Act.grantTitle now who title days) := by
  refine Keeps.bind keeps_read (fun u => ?_)
  cases u with
  | none => exact keeps_pure
  | some u =>
    refine Keeps.bind (keeps_onlyIf (touchUser_known (fun _ => ⟨rfl,rfl,rfl⟩))) (fun _ => ?_)
    exact Keeps.bind (Only.known [.titleExpiries] (titleExpiries_only (by decide)) (by decide) (by decide)) (fun _ => keeps_pure)

theorem rewardWinners_known {rewards : List Int} {reason : String}
    {reference : Nat → Text → Reference} {title : Text} {place : Nat} {winners : List Text}
    (hr : reason∈creditReasons) : Keeps (Known ws g h)
      (Act.rewardWinners now group rewards reason reference title place winners) := by
  induction winners generalizing place with
  | nil => exact keeps_pure
  | cons user rest ih =>
    refine Keeps.bind (Keeps.bind (creditCoins_known hr) (fun _ => keeps_pure)) (fun _ => ?_)
    exact Keeps.bind (keeps_onlyIf (Keeps.bind grantTitle_known (fun _ => keeps_pure))) (fun _ => ih)

theorem settlePetShow_known {force : Bool} :
    Keeps (Known ws g h) (Act.settlePetShow now group force) := by
  exact Keeps.bind keeps_read (fun _ => Keeps.bind keeps_fetch (fun s => Keeps.bind keeps_read (fun _ =>
    Keeps.bind (rewardWinners_known (by decide)) (fun _ => Only.known [.shows] (shows_only (by decide)) (by decide) (by decide)))))

theorem runJob_known {job period : Text} {effects : Act Unit} (he : Keeps (Known ws g h) effects) :
    Keeps (Known ws g h) (Act.runJob now job period effects) :=
  Keeps.bind (Only.known _ claimSchedulerRun_only (by decide) (by decide)) (fun _ =>
    Keeps.bind keeps_require (fun _ => Keeps.bind he (fun _ =>
      Keeps.bind (Only.known _ completeSchedulerRun_only (by decide) (by decide)) (fun _ => keeps_require))))

theorem settleWeeklyActivity_known {period : Text} :
    Keeps (Known ws g h) (Act.settleWeeklyActivity now period group) :=
  runJob_known (Keeps.bind keeps_read (fun _ => rewardWinners_known (by decide)))

theorem cleanupExpiredTitles_known : Keeps (Known ws g h) (Act.cleanupExpiredTitles now) := by
  refine keeps_write (fun db hk => ?_)
  generalize db.titleExpiries.filter (fun e => e.expiresAt≤now)=expired
  have hfold : Known ws g h (expired.foldl (fun db e =>
      db.touchUsers (fun u => u.who=e.who && decide (e.title∈u.titles))
        (fun u => {u with titles := u.titles.erase e.title})) db) := by
    induction expired generalizing db with
    | nil => exact hk
    | cons e l ih => exact ih _ (hk.touch (fun _ => ⟨rfl,rfl,rfl⟩))
  exact ⟨hfold.1.congr rfl rfl,hfold.2⟩

def Drafted (user : Draft User) (g h : Who → Int) (db : Db) : Prop :=
  ∃h',(user.base.isSome → h'=h) ∧ Books g h' db

theorem updateUser_drafted (hd : user.Earned) :
    Ensures (Books g h) (Act.updateUser user) (fun _ => Drafted user g h) := by
  refine Ensures.strengthen (P:=Known [] g h) (fetchUser_known (fun latest => ?_)) (fun _ => known_nil.mpr)
  refine fun s a t hs hr => ?_
  obtain ⟨hk,hu⟩ := hs
  have hwho : latest.who=user.new.who := row_key hu
  obtain ⟨hrow,hversion,hlimit,htoday⟩ := mergedOnto_row hd hwho.symm (hk.limit hu)
  generalize user.new.mergedOnto user.base latest=merged at *
  obtain ⟨_,s1,hwrite,hrest⟩ := bind_ok hr
  obtain ⟨hk1,hcoins⟩ := writeUser_known hrow hversion hlimit s _ s1 ⟨hk,hwho ▸ hu⟩ hwrite
  obtain ⟨o,s2,hread,hrest⟩ := bind_ok hrest
  cases read_ok hread
  obtain ⟨stored,s3,hfetch,hrecord⟩ := bind_ok hrest
  obtain ⟨hstored,hs3⟩ := fetch_ok hfetch
  dsimp only at hstored hs3
  subst hs3
  rw [hrow] at hstored hrecord
  rw [hstored] at hcoins
  have hdelta : stored.coins-latest.coins=merged.coins-latest.coins := by
    rw [Option.some.inj hcoins]
  rw [hdelta] at hrecord
  have hmem : latest.who∈[user.new.who] := by simp [hwho]
  have hk2 := recordCoins_known hmem (by decide) s3 a t hk1 hrecord
  refine ⟨_,fun hbase => ?_,hk2.1⟩
  rw [htoday hbase,sub_self,shift_zero]

structure Gains (user : Draft User) (action : Option PetAction) (latest u : User) : Prop where
  who : u.who=latest.who
  version : u.version=latest.version
  limit : u.todayCoins≤dailyCoinLimit
  kept : action.isNone → user.base.isSome → u.todayCoins=latest.todayCoins
  grant : action.isSome → u.coins-latest.coins=u.todayCoins-latest.todayCoins

theorem settledUser_gains {a : PetAction} {granted : Int}
    (hlimit : latest.todayCoins≤dailyCoinLimit)
    (hg : granted ≤ max 0 (dailyCoinLimit-latest.todayCoins)) :
    Gains user (some a) latest (Act.settledUser now a latest granted) := by
  have hfields : (Act.settledUser now a latest granted).who=latest.who ∧
      (Act.settledUser now a latest granted).version=latest.version ∧
      (Act.settledUser now a latest granted).coins=latest.coins+granted ∧
      (Act.settledUser now a latest granted).todayCoins=latest.todayCoins+granted := by
    unfold Act.settledUser
    split <;> exact ⟨rfl,rfl,rfl,rfl⟩
  obtain ⟨hwho,hversion,hcoins,htoday⟩ := hfields
  refine ⟨hwho,hversion,?_,nofun,fun _ => ?_⟩
  · rw [htoday]
    omega
  · rw [hcoins,htoday]
    omega

abbrev Latest (g h : Who → Int) (latest : User) (db : Db) : Prop :=
  Known [latest.who] g h db ∧ db.user latest.who=some latest

variable {action : Option PetAction}

theorem settledOrMerged_gains (hd : user.Earned)
    (hwho : user.new.who=latest.who) :
    Ensures (Latest g h latest) (Act.settledOrMerged now user action latest)
      (fun r db => Latest g h latest db ∧ Gains user action latest r.1) := by
  cases action with
  | none =>
    refine ensures_pure (fun db hk => ⟨hk,?_⟩)
    obtain ⟨hrow,hversion,hlimit,htoday⟩ := mergedOnto_row hd hwho (hk.1.limit hk.2)
    exact ⟨hrow,hversion,hlimit,fun _ => htoday,nofun⟩
  | some a =>
    refine Ensures.bind keeps_require (fun _ => Ensures.bind keeps_require (fun _ => Ensures.bind keeps_read
      (fun items => Ensures.bind keeps_require (fun _ => ?_))))
    refine Ensures.bind (Only.knownUser [.quotas] (claimActionQuota_only (by decide)) (by decide)
      (by decide)) (fun q => ?_)
    rcases q with (_ | w) | _
    · exact ensures_throw
    · exact ensures_throw
    · refine ensures_pure (fun db hk => ⟨hk,settledUser_gains (hk.1.limit hk.2) ?_⟩)
      exact min_le_right _ _

theorem recordGains_drafted {u : User}
    (hg : Gains user action latest u) :
    Ensures (Known [latest.who] (shift g latest.who (u.coins-latest.coins))
        (shift h latest.who (u.todayCoins-latest.todayCoins)))
      (Act.recordAssetDelta u.who .coins (u.coins-latest.coins)
        (if action.isSome then "pet_action" else "pet_state_update") none)
      (fun _ => Drafted user g h) := by
  rw [hg.who]
  have hmem : latest.who∈[latest.who] := by simp
  cases action with
  | none =>
    refine (recordCoins_known hmem (by decide)).weaken (fun _ db hk => ⟨_,fun hb => ?_,hk.1⟩)
    rw [hg.kept rfl hb,sub_self,shift_zero]
  | some a =>
    rw [← hg.grant rfl]
    refine Ensures.weaken (R:=fun _ => Known [latest.who] g h) ?_ (fun _ db hk => ⟨h,fun _ => rfl,hk.1⟩)
    refine ensures_ite (fun hd => ensures_pure (fun db hk => ?_)) (fun _ =>
      recordCredit_known hmem (by simp [creditReasons]))
    rwa [hd,shift_zero,shift_zero] at hk

theorem Only.drafted (ts : List Table) {m : Act Unit} (hm : Only ts m)
    (hu : .users∉ts) (hl : .ledger∉ts) : Keeps (Drafted user g h) m := by
  intro s a t hs hr
  obtain ⟨h',hsame,hb⟩ := hs
  exact ⟨h',hsame,Books.keeps hm hu hl s a t hb hr⟩

theorem commitPetAndUser_drafted {pet : Draft Pet}
    {bag : Option (Draft Items × List Text)} {task groupTask : Option Action} (hd : user.Earned) :
    Ensures (Books g h) (Act.commitPetAndUser now pet user bag task groupTask action)
      (fun _ => Drafted user g h) := by
  refine Ensures.strengthen (P:=Known [] g h) ?_ (fun _ => known_nil.mpr)
  refine Ensures.bind keeps_read (fun _ => Ensures.bind keeps_fetch (fun pet' => ?_))
  cases pet.new.conflictsWith pet.base pet' with
  | some c => exact ensures_throw
  | none =>
    refine fetchUser_known (fun latest => ?_)
    refine Ensures.strengthen (P:=fun db => Latest g h latest db ∧ latest.who=user.new.who)
      (Ensures.of_fact (fun hwho => ?_)) (fun db hk => ?_)
    · refine Ensures.bind (settledOrMerged_gains hd hwho.symm) (fun r => Ensures.of_fact (fun hg => ?_))
      refine Ensures.bind (Only.knownUser [] savedBag_only (by decide) (by decide)) (fun saved => ?_)
      refine Ensures.bind (Only.knownUser [.pets] (updatePets_only (by decide)) (by decide) (by decide))
        (fun _ => ?_)
      refine Ensures.bind ((writeUser_known hg.who hg.version hg.limit).weaken (fun _ db hk => hk.1))
        (fun _ => Ensures.bind (recordGains_drafted hg) (fun _ => ?_))
      refine Keeps.bind (keeps_optionForM saved (fun _ _ => Only.drafted [.inventories]
        (saveInventoryItems_only (by decide)) (by decide) (by decide))) (fun _ => ?_)
      refine Keeps.bind (keeps_optionForM task (fun _ _ => Only.drafted [.tasks]
        (incrementTask_only (by decide)) (by decide) (by decide))) (fun _ => ?_)
      refine Keeps.bind (keeps_optionForM groupTask (fun _ _ => Only.drafted [.groupTasks]
        (advanceGroupTask_only (by decide)) (by decide) (by decide))) (fun _ => ?_)
      exact Keeps.bind (keeps_optionForM action (fun _ _ => Only.drafted [.activities]
        (advanceActivities_only (by decide)) (by decide) (by decide))) (fun _ => keeps_pure)
    · have hwho : latest.who=user.new.who := row_key hk.2
      exact ⟨⟨by rw [hwho]; exact hk.1,by rw [hwho]; exact hk.2⟩,hwho⟩

def renew (h : Who → Int) (db : Db) (group : Int) : Who → Int :=
  fun who => if who.group=group then -db.creditSum who else h who

theorem Books.reset {db : Db} (hb : Books g h db) :
    Books g (renew h db group) (db.touchUsers (fun u => u.who.group=group)
      (fun u => {u with todayCoins := 0,today := fun _ => 0})) := by
  refine hb.write (fun v _ => rfl) (fun w v hv _ => ?_) (fun w v hv hp => ?_) (fun w hn => ⟨rfl,?_⟩)
  · have hpos := (hb.coins w).1
    rw [Db.coinsOf,hv] at hpos
    exact ⟨hpos,by simp [Db.bumped]⟩
  · have hw : w.group=group := by simpa [row_key hv] using hp
    have hsum := (hb.today w).2
    rw [Db.todayOf,hv] at hsum
    simp only [Option.map_some,Option.getD_some] at hsum
    refine ⟨by simp [Db.bumped,dailyCoinLimit],?_⟩
    rw [renew,if_pos hw]
    change 0=_
    omega
  · unfold renew
    split
    · rename_i hw
      have hnone : db.user w=none := by
        cases hv : db.user w with
        | none => rfl
        | some v => simpa [row_key hv,hw] using hn v hv
      have hsum := (hb.today w).2
      rw [Db.todayOf,hnone] at hsum
      simp only [Option.map_none,Option.getD_none] at hsum
      omega
    · rfl

theorem resetDay_books {group days : Int} :
    Ensures (Books g h) (Act.resetDay group days) (fun _ db => Books g (renew h db group) db) := by
  intro s a t hb hr
  obtain ⟨_,s1,hwrite,hpets⟩ := bind_ok hr
  cases write_ok hwrite
  cases write_ok hpets
  exact hb.reset.congr rfl rfl

theorem runDailyReset_books {period : Text} {group days : Int} :
    Ensures (Books g h) (Act.runDailyReset now period group days)
      (fun _ db => Books g (renew h db group) db) := by
  refine Ensures.bind (Books.keeps claimSchedulerRun_only (by decide) (by decide)) (fun _ =>
    Ensures.bind keeps_require (fun _ => Ensures.bind resetDay_books (fun _ => ?_)))
  intro s a t hb hr
  have hruns : Only [.runs] (Act.completeSchedulerRun Act.dailyResetJob period >>= fun completed =>
      Tx.require completed .raised) := completeSchedulerRun_only.bind (fun _ => Only.require)
  have hw := hruns.run hr
  have hrenew : renew h t group=renew h s group := by
    unfold renew Db.creditSum Db.coinEntries
    rw [show t.ledger=s.ledger from hw .ledger (by decide)]
  rw [hrenew]
  exact hb.congr (hw .users (by decide)) (hw .ledger (by decide))

end

namespace Call

def userDraft : Call → Option (Draft User)
  | updateUser user => some user
  | commitPetAndUser _ user _ _ _ _ => some user
  | _ => none

def Earned (c : Call) : Prop := ∀user,c.userDraft=some user → user.Earned

def Read (c : Call) : Prop := ∀user,c.userDraft=some user → user.base.isSome

theorem served_of_draftless {c : Call} (hd : c.userDraft=none) : c.Earned ∧ c.Read :=
  ⟨(fun _ hu => by cases hd.symm.trans hu),fun _ hu => by cases hd.symm.trans hu⟩

def isReset : Call → Bool
  | runDailyReset _ _ _ => true
  | _ => false

variable {g h : Who → Int} {now : Nat}

theorem run_books_of_tables {c : Call} (hu : .users∉c.tables) (hl : .ledger∉c.tables) :
    Keeps (Books g h) (c.run now) := Books.keeps (run_only c) hu hl

theorem run_books_plain {c : Call} (hd : c.userDraft=none) (hr : c.isReset=false) :
    Keeps (Books g h) (c.run now) := by
  have hof : ∀{m : Act Unit},Keeps (Known [] g h) m → Keeps (Books g h) m := fun hm =>
    (hm.strengthen (fun _ => known_nil.mpr)).weaken (fun _ _ => known_nil.mp)
  cases c with
  | createUser who => exact Keeps.bind createUser_books (fun _ => keeps_pure)
  | resetPet who => exact hof resetPet_known
  | setBan who days => exact hof setBan_known
  | updateUser user => cases hd
  | commitPetAndUser pet user bag task groupTask action => cases hd
  | purchaseItem who item amount cost => exact hof purchaseItem_known
  | giftItem giver receiver group item amount gain limit seconds => exact hof giftItem_known
  | cancelTradeListing id seller group =>
    exact hof (Keeps.bind cancelTradeListing_known (fun _ => keeps_pure))
  | purchaseTradeListing id buyer group taxOf =>
    exact hof (Keeps.bind purchaseTradeListing_known (fun _ => keeps_pure))
  | settleExpiredTradeListings group => exact hof settleExpiredTradeListings_known
  | purchaseDress who dress friendship price => exact hof purchaseDress_known
  | leaveMessage sender receiver group limit => exact hof leaveMessage_known
  | settleMinigame c => exact hof (Keeps.bind settleMinigame_known (fun _ => keeps_pure))
  | visitPet c => exact hof (Keeps.bind visitPet_known (fun _ => keeps_pure))
  | claimTaskReward who task => exact hof (Keeps.bind claimTaskReward_known (fun _ => keeps_pure))
  | claimGroupTaskReward who task =>
    exact hof (Keeps.bind claimGroupTaskReward_known (fun _ => keeps_pure))
  | claimActivityReward id who =>
    exact hof (Keeps.bind claimActivityReward_known (fun _ => keeps_pure))
  | settlePetShow group force => exact hof settlePetShow_known
  | runDailyReset period group days => cases hr
  | settleWeeklyActivity period group => exact hof settleWeeklyActivity_known
  | cleanupExpiredTitles => exact hof cleanupExpiredTitles_known
  | _ => exact run_books_of_tables (by simp [tables]) (by simp [tables])

theorem run_books {c : Call} (hc : c.Earned) (hr : c.isReset=false) :
    Ensures (Books g h) (c.run now) (fun _ db => ∃h',(c.Read → h'=h) ∧ Books g h' db) := by
  cases hd : c.userDraft with
  | none => exact (run_books_plain hd hr).weaken (fun _ _ hb => ⟨h,fun _ => rfl,hb⟩)
  | some user =>
    have hearned := hc user hd
    have hweaken : ∀db,Drafted user g h db → ∃h',(c.Read → h'=h) ∧ Books g h' db :=
      fun db ⟨h',hsame,hb⟩ => ⟨h',fun hread => hsame (hread user hd),hb⟩
    cases c with
    | updateUser u =>
      cases hd
      exact (updateUser_drafted hearned).weaken (fun _ => hweaken)
    | commitPetAndUser pet u bag task groupTask action =>
      cases hd
      exact (Ensures.bind (commitPetAndUser_drafted hearned) (fun _ => keeps_pure)).weaken
        (fun _ => hweaken)
    | _ => cases hd

end Call

end XiaoQing.QingPet
