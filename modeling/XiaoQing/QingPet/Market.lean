import XiaoQing.QingPet.Database

namespace XiaoQing.QingPet

section

open Framework Tx Commands

inductive ItemType where
  | food
  | toy
  | medicine
  | acceleration
  | trusteeship
  deriving DecidableEq

/-- `DEFAULT_ITEMS`, with the types. -/
def defaultItems : List (Text × ItemType) :=
  [("apple".toList,.food),("cake".toList,.food),("meat".toList,.food),("ball".toList,.toy),
    ("medicine".toList,.medicine),("rare_medicine".toList,.medicine),
    ("acceleration_card".toList,.acceleration),("trusteeship_coupon".toList,.trusteeship)]

def itemType (item : Text) : Option ItemType := (defaultItems.find? (fun e => e.1=item)).map Prod.snd

def accelerationCard : Text := "acceleration_card".toList

namespace Act

/-- `purchase_item_atomic`. -/
def purchaseItem (who : Who) (item : Text) (amount totalCost : Int) : Act Unit := do
  check (decide (0 < amount) && (itemType item).isSome && decide (0≤totalCost)) ""
  let u ← userRow who
  check (u.any (fun u => totalCost≤u.coins)) ""
  payUser who (fun u => {u with coins := u.coins-totalCost})
  let items ← loadInventoryItems who
  saveInventoryItems who (items.add item amount)
  recordAssetDelta who .coins (-totalCost) "item_purchase" none

/-- `use_acceleration_card_atomic`. -/
def useAccelerationCard (now : Nat) (who : Who) (pet : Nat) (expGain : Int) : Act Unit := do
  check (decide (0 < expGain)) ""
  let p ← fetch ((← read (fun db => db.petById pet)).filter (fun p => p.who=who)) (.refused "")
  let items ← loadInventoryItems who
  check (decide (0 < items accelerationCard)) ""
  updatePets (fun r => r.id=pet && r.who=who && r.version=p.version)
    (fun r => {r with experience := r.experience+expGain,lastUpdate := now})
  saveInventoryItems who (items.add accelerationCard (-1))

/-- `gift_item_atomic`. -/
def giftItem (now : Nat) (giver receiver : Text) (group : Int) (item : Text)
    (amount friendshipGain dailyLimit : Int) (cooldownSeconds : Nat) : Act Unit := do
  check (giver≠receiver) "不能给自己送礼物"
  check (decide (0 < amount) && decide (amount≤99)) "礼物数量必须是1到99的整数"
  check (itemType item).isSome "道具不存在或不可赠送"
  check (decide (0≤friendshipGain) && decide (0 < dailyLimit)) "送礼参数无效"
  let sender ← fetch (← userRow ⟨giver,group⟩) (.refused "用户不存在")
  let other ← userRow ⟨receiver,group⟩
  check other.isSome "用户不存在"
  check (decide (sender.today .gift < dailyLimit)) "今日送礼次数已达上限"
  check (sender.lastGift.all (fun t => cooldownSeconds*second+t≤now)) "送礼冷却中，请等待"
  let senderItems ← loadInventoryItems ⟨giver,group⟩
  check (decide (amount ≤ senderItems item)) "背包中没有足够的道具"
  let receiverItems ← loadInventoryItems ⟨receiver,group⟩
  saveInventoryItems ⟨giver,group⟩ (senderItems.add item (-amount))
  saveInventoryItems ⟨receiver,group⟩ (receiverItems.add item amount)
  payUser ⟨giver,group⟩ (fun u =>
    {u.incrementAction .gift 1 with friendship := u.friendship+friendshipGain,lastGift := some now})
  payUser ⟨receiver,group⟩ (fun u => {u with friendship := u.friendship+friendshipGain})

def activeListings (now : Nat) (seller : Who) (db : Db) : Nat :=
  db.listings.countP (fun l => l.seller=seller.user && l.group=seller.group && l.status=.active &&
    decide (now < l.expiresAt))

/-- `create_trade_listing_atomic`. -/
def createTradeListing (now : Nat) (seller : Who) (item : Text) (amount price : Int)
    (expireHours maxListings : Nat) : Act Unit := do
  check (decide (0 < amount) && decide (0 < price) && decide (0 < expireHours) &&
    decide (0 < maxListings)) ""
  check (itemType item).isSome ""
  let count ← read (activeListings now seller)
  check (decide (count < maxListings)) ""
  let items ← loadInventoryItems seller
  check (decide (amount ≤ items item)) ""
  saveInventoryItems seller (items.add item (-amount))
  write (fun db =>
    {db with
      listings := db.listings++[⟨db.nextListing,seller.user,seller.group,item,amount,price,
        now+expireHours*3600*second,.active⟩]
      nextListing := db.nextListing+1})

/-- A claim of an active listing that `p` selects; whether it was taken. -/
def claimListing (id : Nat) (p : Listing → Bool) (status : ListingStatus) : Act Bool := do
  let selected := fun l : Listing => l.id=id && l.status=.active && p l
  let taken ← read (fun db => db.listings.countP selected)
  write (fun db =>
    {db with listings := updateWhere selected (fun l => {l with status := status}) db.listings})
  pure (taken=1)

/-- What `_expire_trade_listing_in_transaction` and the others give back. -/
def giveItems (who : Who) (item : Text) (amount : Int) : Act Unit := do
  let items ← loadInventoryItems who
  saveInventoryItems who (items.add item amount)

/-- `_expire_trade_listing_in_transaction`. -/
def expireTradeListing (now : Nat) (l : Listing) : Act Bool := do
  let taken ← claimListing l.id (fun r => r.expiresAt≤now) .expired
  if taken then
    giveItems ⟨l.seller,l.group⟩ l.item l.amount
    insertEntry ⟨⟨l.seller,l.group⟩,.item,l.amount,"trade_expiry_refund",some (.refund l.id)⟩
    pure true
  else pure false

def settleExpiredTradeListings (now : Nat) (group : Option Int) : Act Unit := do
  let due ← read (fun db => db.listings.filter (fun l => l.status=.active &&
    decide (l.expiresAt≤now) && group.all (·=l.group)))
  due.forM (fun l => do discard (expireTradeListing now l))

/-- `cancel_trade_listing`; it answers whether it cancelled. -/
def cancelTradeListing (now id : Nat) (seller : Text) (group : Int) : Act Bool := do
  let l ← fetch ((← read (fun db => db.listing id)).filter (fun l =>
    l.group=group && l.status=.active && l.seller=seller)) (.refused "")
  if l.expiresAt≤now then
    let expired ← expireTradeListing now l
    check expired ""
    pure false
  else
    let taken ← claimListing id (fun r => r.group=group && decide (now < r.expiresAt)) .cancelled
    check taken ""
    giveItems ⟨seller,l.group⟩ l.item l.amount
    pure true

/-- `purchase_trade_listing`; it answers whether it bought. -/
def purchaseTradeListing (now id : Nat) (buyer : Text) (group : Int) (taxOf : Int → Int) :
    Act Bool := do
  let l ← fetch ((← read (fun db => db.listing id)).filter (fun l => l.status=.active))
    (.refused "订单不存在或已过期")
  check (l.group=group) "该订单不属于本群"
  if l.expiresAt≤now then
    let expired ← expireTradeListing now l
    check expired "订单已过期，道具已退还"
    pure false
  else
    check (l.seller≠buyer) "不能购买自己的挂单"
    let u ← fetch (← userRow ⟨buyer,group⟩) (.refused "用户不存在")
    let proceeds := max 0 (l.price-taxOf l.price)
    check (decide (l.price≤u.coins)) "金币不足"
    let taken ← claimListing id (fun r => r.group=group && decide (now < r.expiresAt)) .purchased
    check taken "订单不存在或已过期"
    payUser ⟨buyer,group⟩ (fun u => {u with coins := u.coins-l.price})
    payUser ⟨l.seller,group⟩ (fun u => {u with coins := u.coins+proceeds})
    let other ← userRow ⟨l.seller,group⟩
    require other.isSome .raised
    recordAssetDelta ⟨buyer,group⟩ .coins (-l.price) "trade_purchase" (some (.buyer id))
    recordAssetDelta ⟨l.seller,group⟩ .coins proceeds "trade_purchase" (some (.seller id))
    giveItems ⟨buyer,group⟩ l.item l.amount
    pure true

/-- `treat_pet_atomic`. -/
def treatPet (now : Nat) (who : Who) (pet : Nat) (item : Text) (healthGain cleanGain dailyLimit : Int)
    (cooldownSeconds : Nat) : Act Unit := do
  check (itemType item=some .medicine) "该道具不是药品"
  check (decide (0≤healthGain) && decide (0≤cleanGain) && decide (0 < dailyLimit)) "治疗参数无效"
  let p ← fetch ((← read (fun db => db.petById pet)).filter (fun p => p.who=who))
    (.refused "宠物不存在")
  let items ← loadInventoryItems who
  check (decide (0 < items item)) "背包中没有该药品"
  match ← claimActionQuota now who .treat dailyLimit cooldownSeconds with
  | .error none => refuse "今日治疗次数已达上限"
  | .error (some _) => refuse "治疗冷却中"
  | .ok () =>
    let health := min 100 (p.stat .health+healthGain)
    updatePets (fun r => r.id=pet && r.version=p.version) (fun r =>
      {r with
        stat := fun s =>
          if s=.health then health
          else if s=.clean then min 100 (p.stat .clean+cleanGain)
          else r.stat s
        status := if 50≤health then .normal else p.status
        statusExpire := if 50≤health then none else p.statusExpire
        lastUpdate := now})
    saveInventoryItems who (items.add item (-1))

end Act

end

section

open Framework Tx Commands

/-- A model that was read, with what was read; `base` is none where it was not. -/
structure Draft (α : Type) where
  base : Option α
  new : α

/-- What `commit_pet_action` adds to the commit. -/
structure PetAction where
  action : Action
  dailyLimit : Int
  cooldownSeconds : Nat
  requestedCoins : Int
  consume : Option Text
  grants : List (Text × Int)
  freeFeed : Int
  freeFeedLimit : Int

def dailyTaskTemplates : List (Action × Int × Int) :=
  [(.feed,3,30),(.clean,2,20),(.play,3,25),(.visit,2,20)]

/-- `GROUP_TASK_TEMPLATES`; a group task is for one action. -/
def groupTaskTemplates : List (Action × Int × Int) :=
  [(.feed,50,20),(.clean,30,15),(.explore,20,30)]

def Action.text : Action → Text
  | .feed => "feed".toList
  | .clean => "clean".toList
  | .play => "play".toList
  | .train => "train".toList
  | .explore => "explore".toList
  | .visit => "visit".toList
  | .gift => "gift".toList
  | .freeFeed => "free_feed".toList
  | .message => "message".toList
  | .treat => "treat".toList

namespace Act

def taskKey (t : Task) : Who × Action × Nat := (t.who,t.task,t.date)

def groupTaskKey (t : GroupTask) : Int × Action × Nat := (t.group,t.task,t.date)

/-- `_ensure_daily_task_templates`. -/
def ensureDailyTasks (who : Who) (date : Nat) : Act Unit :=
  write (fun db =>
    {db with
      tasks := dailyTaskTemplates.foldl (fun tasks (task,target,reward) =>
        upsert taskKey ⟨who,task,date,target,0,reward,false⟩ (fun _ => false) id tasks) db.tasks})

/-- `_ensure_group_task_templates`. -/
def ensureGroupTasks (group : Int) (date : Nat) : Act Unit :=
  write (fun db =>
    {db with
      groupTasks := groupTaskTemplates.foldl (fun tasks (task,target,reward) =>
        upsert groupTaskKey ⟨group,task,date,target,0,reward,false⟩ (fun _ => false) id tasks)
          db.groupTasks})

/-- `_increment_task_in_transaction`, by one. -/
def incrementTask (who : Who) (task : Action) (date : Nat) : Act Unit := do
  ensureDailyTasks who date
  let found ← read (fun db => row taskKey db.tasks (who,task,date))
  require found.isSome .raised
  write (fun db =>
    {db with
      tasks := updateWhere (fun t => taskKey t=(who,task,date))
        (fun t => {t with current := min (t.current+1) t.target}) db.tasks})

def advanceGroupTask (group : Int) (task : Action) (date : Nat) : Act Unit := do
  ensureGroupTasks group date
  write (fun db =>
    {db with
      groupTasks := updateWhere (fun t => groupTaskKey t=(group,task,date) && !t.completed)
        (fun t => {t with
          current := min (t.current+1) t.target
          completed := decide (t.target≤t.current+1) || t.completed}) db.groupTasks})

/-- `_advance_activities_in_transaction`, by one. -/
def advanceActivities (now : Nat) (group : Int) (action : Action) : Act Unit :=
  write (fun db =>
    if db.activityOn group then
      {db with
        activities := updateWhere (fun a => a.group=group && a.action=action.text && a.active &&
            a.endTime.all (now < ·))
          (fun a => {a with current := min (a.current+1) a.target}) db.activities}
    else db)

def shortfall (items : Draft Items) (latest : Items) (names : List Text) : Bool :=
  items.base.any (fun base => names.any (fun x =>
    let delta := items.new x-base x
    decide (delta < 0) && decide (latest x+delta < 0)))

/-- `Inventory.merged_onto`; `names` are the names in the two bags. -/
def mergedItems (items : Draft Items) (latest : Items) (names : List Text) : Items :=
  match items.base with
  | none => items.new
  | some base => fun x =>
    if x∈names then Items.mergeCount (base x) (items.new x) (latest x) else latest x

def conflictText : Conflict → String
  | .state => "state"
  | .staleStage => "stale_stage"
  | .energy => "energy"

/-- What the quota's branch of `_commit_pet_and_user` makes of the latest user. -/
def settledUser (now : Nat) (a : PetAction) (u : User) (granted : Int) : User :=
  let earned := {u with coins := u.coins+granted,todayCoins := u.todayCoins+granted}
  let counted := earned.incrementAction a.action 1
  let fed := if a.freeFeed≠0 then counted.incrementAction .freeFeed a.freeFeed else counted
  {fed with lastActive := now}

def grantItems (grants : List (Text × Int)) (items : Items) : Items :=
  grants.foldl (fun items (x,n) => if 0 < n then items.add x n else items) items

def settleAction (now : Nat) (a : PetAction) (latest : User) : Act (User × Option Items × Int) := do
  check (decide (latest.today a.action < max 0 a.dailyLimit)) "daily_limit"
  check (decide (a.freeFeed=0) || decide (latest.today .freeFeed < max 0 a.freeFeedLimit))
    "free_feed_limit"
  let items ← loadInventoryItems latest.who
  check (a.consume.all (fun x => 0 < items x)) "inventory"
  let consumed := match a.consume with
    | none => items
    | some x => items.add x (-1)
  match ← claimActionQuota now latest.who a.action a.dailyLimit a.cooldownSeconds with
  | .error none => refuse "daily_limit"
  | .error (some _) => refuse "cooldown"
  | .ok () =>
    let granted := min (max 0 a.requestedCoins) (max 0 (dailyCoinLimit-latest.todayCoins))
    let saved := if a.consume.isSome || !a.grants.isEmpty then some (grantItems a.grants consumed)
      else none
    pure (settledUser now a latest granted,saved,granted)

def settledOrMerged (now : Nat) (user : Draft User) (action : Option PetAction) (latest : User) :
    Act (User × Option Items × Int) :=
  match action with
  | some a => settleAction now a latest
  | none => pure (user.new.mergedOnto user.base latest,none,0)

def savedBag (bag : Option (Draft Items × List Text)) (action : Option PetAction)
    (saved : Option Items) (latest : User) : Act (Option Items) :=
  match bag,action with
  | some (items,names),none => do
    let latestItems ← loadInventoryItems latest.who
    check (!shortfall items latestItems names) "inventory"
    pure (some (mergedItems items latestItems names))
  | _,_ => pure saved

/-- `_commit_pet_and_user`; `bag` is the inventory's draft with the names it has. -/
def commitPetAndUser (now : Nat) (pet : Draft Pet) (user : Draft User)
    (bag : Option (Draft Items × List Text)) (task groupTask : Option Action)
    (action : Option PetAction) : Act Int := do
  let latest ← fetch ((← read (fun db => db.petById pet.new.id)).filter (fun p => p.who=pet.new.who))
    (.refused "missing_pet")
  match pet.new.conflictsWith pet.base latest with
  | some c => refuse (conflictText c)
  | none =>
    let latestUser ← fetch (← userRow user.new.who) (.refused "missing_user")
    let settled ← settledOrMerged now user action latestUser
    let saved ← savedBag bag action settled.2.1 latestUser
    writePet (pet.new.mergedOnto pet.base latest)
    writeUser settled.1
    recordAssetDelta settled.1.who .coins (settled.1.coins-latestUser.coins)
      (if action.isSome then "pet_action" else "pet_state_update") none
    saved.forM (saveInventoryItems latestUser.who)
    task.forM (fun task => incrementTask latestUser.who task (businessDate now))
    groupTask.forM (fun task => advanceGroupTask latestUser.who.group task (businessDate now))
    action.forM (fun a => advanceActivities now latestUser.who.group a.action)
    pure settled.2.2

def updatePet (pet : Draft Pet) : Act Unit := do
  let latest ← fetch ((← read (fun db => db.petById pet.new.id)).filter (fun p => p.who=pet.new.who))
    (.refused "")
  check (pet.new.conflictsWith pet.base latest).isNone ""
  writePet (pet.new.mergedOnto pet.base latest)

def updateUser (user : Draft User) : Act Unit := do
  let latest ← fetch (← userRow user.new.who) (.refused "")
  let merged := user.new.mergedOnto user.base latest
  writeUser merged
  let stored ← fetch (← userRow merged.who) .raised
  recordAssetDelta merged.who .coins (stored.coins-latest.coins) "user_update" none

end Act

end

end XiaoQing.QingPet
