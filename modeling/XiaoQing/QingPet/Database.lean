import Mathlib.Data.List.Basic
import Mathlib.Tactic.Common
import XiaoQing.Commands.CommandRouter
import XiaoQing.Framework.Rows
import XiaoQing.Framework.Transaction

namespace XiaoQing.QingPet

section

open Commands

structure Who where
  user : Text
  group : Int
  deriving DecidableEq

/-- The actions that counters, quotas and tasks name. -/
inductive Action where
  | feed
  | clean
  | play
  | train
  | explore
  | visit
  | gift
  | freeFeed
  | message
  | treat
  deriving DecidableEq

/-- A row of `users`; a time is in microseconds. -/
@[ext] structure User where
  who : Who
  coins : Int
  friendship : Int
  todayCoins : Int
  today : Action → Int
  total : Action → Int
  titles : List Text
  lastVisit : Option Nat
  lastGift : Option Nat
  trusteeUntil : Option Nat
  banned : Bool
  banUntil : Option Nat
  lastActive : Nat
  version : Nat

inductive Stage where
  | egg
  | young
  | growth
  | mature
  | old
  deriving DecidableEq

inductive Status where
  | normal
  | sick
  | sleeping
  | traveling
  | dead
  deriving DecidableEq

inductive Stat where
  | hunger
  | mood
  | clean
  | energy
  | health
  deriving DecidableEq

inductive Slot where
  | hat
  | clothes
  | accessory
  | background

/-- A row of `pets`; the remainders of the decay are the stored JSON. -/
@[ext] structure Pet where
  id : Nat
  who : Who
  name : Text
  stage : Stage
  form : Text
  stat : Stat → Int
  age : Int
  experience : Int
  intimacy : Int
  personality : Text
  favoriteFood : Option Text
  status : Status
  statusExpire : Option Nat
  dress : Slot → Option Text
  lastUpdate : Nat
  decayRemainders : Text
  last : Action → Option Nat
  likes : Int
  version : Nat

abbrev Items := Text → Int

/-- A row of `inventories`. -/
@[ext] structure Inventory where
  who : Who
  items : Items
  version : Nat

def maxStat : Int := 100

/-! Merging a stale snapshot -/

def latestOf {α : Type} [DecidableEq α] (original desired latest : α) : α :=
  if desired=original then latest else desired

def addDelta (original desired latest : Int) : Int := latest+desired-original

def clampStat (n : Int) : Int := min maxStat (max 0 n)

namespace User

/-- The `titles` of `merged_onto`. -/
def mergeTitles (original desired latest : List Text) : List Text :=
  (desired.filter (·∉original)).foldl (fun titles t => if t∈titles then titles else titles++[t])
    (latest.filter (fun t => !decide (t∈original ∧ t∉desired)))

/-- `User.merged_onto`; `base` is what was read, where the model was. -/
def mergedOnto (base : Option User) (u latest : User) : User :=
  match base with
  | none => {u with version := latest.version}
  | some b =>
    {latest with
      coins := addDelta b.coins u.coins latest.coins
      friendship := addDelta b.friendship u.friendship latest.friendship
      todayCoins := addDelta b.todayCoins u.todayCoins latest.todayCoins
      today := fun a => addDelta (b.today a) (u.today a) (latest.today a)
      total := fun a => addDelta (b.total a) (u.total a) (latest.total a)
      titles := if u.titles=b.titles then latest.titles
        else mergeTitles b.titles u.titles latest.titles
      lastVisit := latestOf b.lastVisit u.lastVisit latest.lastVisit
      lastGift := latestOf b.lastGift u.lastGift latest.lastGift
      trusteeUntil := latestOf b.trusteeUntil u.trusteeUntil latest.trusteeUntil
      banned := latestOf b.banned u.banned latest.banned
      banUntil := latestOf b.banUntil u.banUntil latest.banUntil
      lastActive := latestOf b.lastActive u.lastActive latest.lastActive}

def incrementAction (a : Action) (n : Int) (u : User) : User :=
  {u with
    today := fun b => if b=a then u.today b+n else u.today b
    total := fun b => if b=a then u.total b+n else u.total b}

/-- A user as `get_or_create_user` makes one. -/
def fresh (who : Who) (now : Nat) : User :=
  ⟨who,100,0,0,fun _ => 0,fun _ => 0,[],none,none,none,false,none,now,0⟩

end User

/-- Why `conflicts_with` refuses. -/
inductive Conflict where
  | state
  | staleStage
  | energy

namespace Pet

def conflictsWith (base : Option Pet) (p latest : Pet) : Option Conflict :=
  match base with
  | none => none
  | some b =>
    let energyDelta := p.stat .energy-b.stat .energy
    if p.lastUpdate≠b.lastUpdate ∧ latest.lastUpdate≠b.lastUpdate then some .state
    else if p.stage≠b.stage ∧ latest.stage≠b.stage then some .staleStage
    else if energyDelta < 0 ∧ latest.stat .energy+energyDelta < 0 then some .energy
    else none

def mergeStat (original desired latest : Int) : Int :=
  if desired=original then latest else clampStat (addDelta original desired latest)

def mergedOnto (base : Option Pet) (p latest : Pet) : Pet :=
  match base with
  | none => {p with version := latest.version}
  | some b =>
    {latest with
      name := latestOf b.name p.name latest.name
      stage := latestOf b.stage p.stage latest.stage
      form := latestOf b.form p.form latest.form
      stat := fun s => mergeStat (b.stat s) (p.stat s) (latest.stat s)
      age := addDelta b.age p.age latest.age
      experience := addDelta b.experience p.experience latest.experience
      intimacy := addDelta b.intimacy p.intimacy latest.intimacy
      personality := latestOf b.personality p.personality latest.personality
      favoriteFood := latestOf b.favoriteFood p.favoriteFood latest.favoriteFood
      status := latestOf b.status p.status latest.status
      statusExpire := latestOf b.statusExpire p.statusExpire latest.statusExpire
      dress := fun d => latestOf (b.dress d) (p.dress d) (latest.dress d)
      lastUpdate := latestOf b.lastUpdate p.lastUpdate latest.lastUpdate
      decayRemainders := latestOf b.decayRemainders p.decayRemainders latest.decayRemainders
      last := fun a => latestOf (b.last a) (p.last a) (latest.last a)
      likes := addDelta b.likes p.likes latest.likes}

/-- `update_stat`, within its default bounds. -/
def updateStat (s : Stat) (delta : Int) (p : Pet) : Pet :=
  {p with stat := fun t => if t=s then clampStat (p.stat t+delta) else p.stat t}

def canInteract (p : Pet) : Bool := p.status=.normal

/-- The egg of `adopt_pet`; its id is of the table. -/
def adopted (who : Who) (name personality : Text) (now : Nat) : Pet :=
  ⟨0,who,name,.egg,"普通".toList,fun _ => 100,0,0,0,personality,none,.normal,none,fun _ => none,now,
    "{}".toList,fun _ => none,0,0⟩

end Pet

namespace Items

def empty : Items := fun _ => 0

/-- `items[item] = items.get(item, 0) + n`; a count that falls to none is dropped. -/
def add (items : Items) (item : Text) (n : Int) : Items :=
  fun x => if x=item then items x+n else items x

theorem add_self (items : Items) (item : Text) (n : Int) : items.add item n item=items item+n :=
  if_pos rfl

theorem add_of_ne {items : Items} {item x : Text} {n : Int} (h : x≠item) :
    items.add item n x=items x := if_neg h

/-- `Inventory.merged_onto` at one name, where there is a base. -/
def mergeCount (original desired latest : Int) : Int :=
  if desired=original then latest else max 0 (addDelta original desired latest)

end Items

end

section

open Framework Tx Commands

/-- What ends a transaction: a refusal, a constraint of the schema, or another exception. -/
inductive Failure where
  | refused (reason : String)
  | integrity
  | raised

inductive ListingStatus where
  | active
  | purchased
  | cancelled
  | expired
  deriving DecidableEq

/-- A row of `trade_listings`. -/
structure Listing where
  id : Nat
  seller : Text
  group : Int
  item : Text
  amount : Int
  price : Int
  expiresAt : Nat
  status : ListingStatus

inductive Asset where
  | coins
  | friendship
  | item
  deriving DecidableEq

/-- The formats of `reference_id`, each with what it is made of. -/
inductive Reference where
  | opening (who : Who)
  | minigame (id : Text)
  | visitor (id : Text)
  | target (id : Text)
  | buyer (listing : Nat)
  | seller (listing : Nat)
  | refund (listing : Nat)
  | petShow (id place : Nat) (user : Text)
  | weekly (period : Text) (place : Nat) (user : Text)
  | dailyTask (date : Nat) (task : Action) (who : Who)
  | groupTask (date : Nat) (task : Action) (who : Who)
  | activity (id : Nat) (user : Text)
  deriving DecidableEq

/-- A row of `asset_ledger`. -/
structure Entry where
  who : Who
  asset : Asset
  delta : Int
  reason : String
  reference : Option Reference

/-- A row of `asset_reconciliation_checkpoints` for coins. -/
structure Checkpoint where
  group : Int
  balance : Int
  ledgerTotal : Int

/-- A row of `action_quotas`. -/
structure Quota where
  who : Who
  action : Action
  date : Nat
  count : Int
  availableAt : Nat

/-- A row of `minigame_cooldowns`. -/
structure Cooldown where
  who : Who
  game : Text
  availableAt : Nat

/-- A row of `minigame_settlements`; the payload is its JSON. -/
structure Minigame where
  reference : Text
  who : Who
  game : Text
  opponent : Text
  petName : Text
  opponentPetName : Text
  coinGrant : Int
  experienceGrant : Int
  energyCost : Int
  payload : Text

/-- A row of `visit_settlements`. -/
structure Visit where
  reference : Text
  visitor : Text
  target : Text
  group : Int
  petName : Text
  visitorGrant : Int
  targetGrant : Int
  intimacyGrant : Int

/-- A row of `daily_likes`. -/
structure Like where
  user : Text
  target : Text
  group : Int
  date : Nat
  count : Int

/-- A row of `tasks`. -/
structure Task where
  who : Who
  task : Action
  date : Nat
  target : Int
  current : Int
  reward : Int
  claimed : Bool

/-- A row of `group_tasks`. -/
structure GroupTask where
  group : Int
  task : Action
  date : Nat
  target : Int
  current : Int
  reward : Int
  completed : Bool

/-- A row of `activities`. -/
structure Activity where
  id : Nat
  group : Int
  action : Text
  target : Int
  current : Int
  reward : Int
  endTime : Option Nat
  active : Bool

/-- A row of `pet_shows`. -/
structure PetShow where
  id : Nat
  group : Int
  startTime : Nat
  endTime : Nat
  active : Bool
  settled : Bool

/-- A row of `pet_show_votes`. -/
structure Vote where
  petShow : Nat
  voter : Text
  pet : Text

/-- A row of `title_expiry`. -/
structure TitleExpiry where
  who : Who
  title : Text
  expiresAt : Nat

/-- A row of `scheduler_runs`; `lease` is none where it is NULL. -/
structure JobRun where
  job : Text
  period : Text
  completed : Bool
  lease : Option Nat

/-- The tables; `activityOn` is what the configuration of a group lets activities advance. -/
structure Db where
  users : List User
  pets : List Pet
  nextPet : Nat
  inventories : List Inventory
  listings : List Listing
  nextListing : Nat
  ledger : List Entry
  checkpoints : List Checkpoint
  quotas : List Quota
  dresses : List (Who × Text)
  cooldowns : List Cooldown
  minigames : List Minigame
  visits : List Visit
  likes : List Like
  tasks : List Task
  groupTasks : List GroupTask
  groupClaims : List (Int × Action × Nat × Text)
  activities : List Activity
  nextActivity : Nat
  activityClaims : List (Nat × Text)
  shows : List PetShow
  nextShow : Nat
  votes : List Vote
  titleExpiries : List TitleExpiry
  runs : List JobRun
  activityOn : Int → Bool

def Db.empty : Db :=
  ⟨[],[],1,[],[],1,[],[],[],[],[],[],[],[],[],[],[],[],1,[],[],1,[],[],[],fun _ => false⟩

abbrev Act : Type → Type := Tx Db Failure

def second : Nat := 1000000

/-- `business_date`: the day in Shanghai. -/
def businessDate (now : Nat) : Nat := (now/second+28800)/86400

def dailyCoinLimit : Int := 500

namespace Db

def user (db : Db) (who : Who) : Option User := row User.who db.users who

def petOf (db : Db) (who : Who) : Option Pet := row Pet.who db.pets who

def petById (db : Db) (id : Nat) : Option Pet := row Pet.id db.pets id

/-- `_load_inventory_items`. -/
def items (db : Db) (who : Who) : Items :=
  ((row Inventory.who db.inventories who).map Inventory.items).getD Items.empty

def listing (db : Db) (id : Nat) : Option Listing := row Listing.id db.listings id

/-! `UPDATE users` -/

def solvent (u : User) : Bool := 0≤u.coins && 0≤u.friendship

/-- `trg_users_daily_coin_cap`. -/
def capped (u : User) : User :=
  if dailyCoinLimit < u.todayCoins then
    {u with coins := max 0 (u.coins-(u.todayCoins-dailyCoinLimit)),todayCoins := dailyCoinLimit}
  else u

def bumped (f : User → User) (u : User) : User := {f u with version := u.version+1}

def touchUsers (db : Db) (p : User → Bool) (f : User → User) : Db :=
  {db with users := updateWhere p (bumped f) db.users}

def payUsers (db : Db) (p : User → Bool) (f : User → User) : Option Db :=
  if db.users.all (fun u => !p u || solvent (f u)) then
    some {db with users := updateWhere p (bumped f) db.users}
  else none

def earnUsers (db : Db) (p : User → Bool) (f : User → User) : Option Db :=
  if db.users.all (fun u => !p u || solvent (f u)) then
    some {db with users := updateWhere p (fun u => capped (bumped f u)) db.users}
  else none

end Db

namespace Act

open Db

def userRow (who : Who) : Act (Option User) := read (fun db => db.user who)

def petRow (who : Who) : Act (Option Pet) := read (fun db => db.petOf who)

def refuse {α : Type} (reason : String) : Act α := throw (.refused reason)

def check (c : Bool) (reason : String) : Act Unit := require c (.refused reason)

/-! Inventories and the ledger -/

def loadInventoryItems (who : Who) : Act Items := read (fun db => db.items who)

def saveInventoryItems (who : Who) (items : Items) : Act Unit :=
  write (fun db =>
    {db with
      inventories := upsert Inventory.who ⟨who,items,0⟩ (fun _ => true)
        (fun r => {r with items := items,version := r.version+1}) db.inventories})

/-- `INSERT INTO asset_ledger`. -/
def insertEntry (e : Entry) : Act Unit :=
  attempt (fun db =>
    if e.reference.isSome && db.ledger.any (fun f => f.asset=e.asset && f.reference=e.reference) then none
    else some {db with ledger := db.ledger++[e]}) .integrity

def recordAssetDelta (who : Who) (asset : Asset) (delta : Int) (reason : String)
    (reference : Option Reference) : Act Unit :=
  if delta=0 then pure () else insertEntry ⟨who,asset,delta,reason,reference⟩

/-! Users -/

def touchUser (who : Who) (f : User → User) : Act Unit :=
  write (fun db => db.touchUsers (fun u => u.who=who) f)

def payUser (who : Who) (f : User → User) : Act Unit :=
  attempt (fun db => db.payUsers (fun u => u.who=who) f) .integrity

def earnUser (who : Who) (f : User → User) : Act Unit :=
  attempt (fun db => db.earnUsers (fun u => u.who=who) f) .integrity

/-- `_credit_coins_in_transaction`. -/
def creditCoins (who : Who) (amount : Int) (reason : String) (reference : Reference)
    (dailyLimit : Int) (recordZero : Bool) : Act Int := do
  let u ← fetch (← userRow who) .raised
  let grant := min (max 0 amount) (max 0 (dailyLimit-u.todayCoins))
  onlyIf (grant≠0)
    (earnUser who (fun u => {u with coins := u.coins+grant,todayCoins := u.todayCoins+grant}))
  onlyIf (grant≠0 || recordZero) (insertEntry ⟨who,.coins,grant,reason,some reference⟩)
  pure grant

/-- `_write_user_in_transaction`, of the row that was read. -/
def writeUser (u : User) : Act Unit :=
  attempt (fun db => db.earnUsers (fun r => r.who=u.who && r.version=u.version) (fun _ => u)) .integrity

/-! Pets -/

/-- `UPDATE pets … version = version + 1`. -/
def updatePets (p : Pet → Bool) (f : Pet → Pet) : Act Unit :=
  write (fun db => {db with pets := updateWhere p (fun r => {f r with version := r.version+1}) db.pets})

/-- `_write_pet_in_transaction`, of the row that was read. -/
def writePet (p : Pet) : Act Unit := updatePets (fun r => r.id=p.id && r.version=p.version) (fun _ => p)

/-! Quotas -/

def quotaKey (q : Quota) : Who × Action × Nat := (q.who,q.action,q.date)

/-- `_claim_action_quota_in_transaction`; the seconds to wait, none where the limit is reached. -/
def claimActionQuota (now : Nat) (who : Who) (action : Action) (dailyLimit : Int)
    (cooldownSeconds : Nat) : Act (Except (Option Nat) Unit) := do
  let key := (who,action,businessDate now)
  let quota ← read (fun db => row quotaKey db.quotas key)
  if max 0 dailyLimit≤(quota.map Quota.count).getD 0 then pure (.error none)
  else
    let availableAt := (quota.map Quota.availableAt).getD 0
    if now < availableAt then pure (.error (some (max 1 ((availableAt-now)/second))))
    else
      write (fun db =>
        {db with
          quotas := upsert quotaKey ⟨who,action,businessDate now,1,now+cooldownSeconds*second⟩
            (fun _ => true)
            (fun q => {q with count := q.count+1,availableAt := now+cooldownSeconds*second}) db.quotas})
      pure (.ok ())

end Act

end

end XiaoQing.QingPet
