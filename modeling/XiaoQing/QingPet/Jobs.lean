import XiaoQing.QingPet.Market
import Mathlib.Data.Char
import Mathlib.Data.List.Lex

namespace XiaoQing.QingPet

section

open Framework Tx Commands

/-- `MinigameOutcome`. -/
structure Outcome where
  requestedCoins : Int
  experience : Int
  energyCost : Int
  payload : Text

/-- A call of `settle_minigame_atomic`; `outcome` is what its factory draws. -/
structure MinigameCall where
  who : Who
  game : Text
  reference : Text
  cooldownSeconds : Nat
  opponent : Text
  minimumEnergy : Int
  outcome : Pet → Option Pet → Outcome

/-- A call of `visit_pet_atomic`. -/
structure VisitCall where
  visitor : Text
  target : Text
  group : Int
  coinReward : Int
  dailyVisitLimit : Int
  cooldownSeconds : Nat
  reference : Text

/-- What a settlement answers: its row, and whether it was settled before. -/
structure Settled (α : Type) where
  row : α
  duplicate : Bool

def blankText (t : Text) : Bool := t.all Char.isWhitespace

/-- `_WEEKLY_RANKING_REWARDS`. -/
def weeklyRewards : List Int := [100,50,30]

/-- The rewards of `PET_SHOW_CONFIG`. -/
def showRewards : List Int := [200,100,50]

namespace Act

def cooldownKey (c : Cooldown) : Who × Text := (c.who,c.game)

def opponentPet (opponent : Text) (group : Int) : Act (Option Pet) := do
  if opponent=[] then pure none
  else
    let u ← userRow ⟨opponent,group⟩
    check u.isSome "对方的宠物无法参赛"
    let p ← fetch (← petRow ⟨opponent,group⟩) (.refused "对方的宠物无法参赛")
    check p.canInteract "对方的宠物无法参赛"
    pure (some p)

def sameMinigame (c : MinigameCall) (m : Minigame) : Bool :=
  m.who=c.who && m.game=c.game && m.opponent=c.opponent

/-- The part of `settle_minigame_atomic` that writes. -/
def settleFresh (now : Nat) (c : MinigameCall) (p : Pet) (other : Option Pet) : Act Minigame := do
  let o := c.outcome p other
  let experience := max 0 o.experience
  let energy := max 0 o.energyCost
  check (decide (energy≤p.stat .energy)) "你的宠物精力不足"
  write (fun db =>
    {db with
      cooldowns := upsert cooldownKey ⟨c.who,c.game,now+c.cooldownSeconds*second⟩ (fun _ => true)
        (fun r => {r with availableAt := now+c.cooldownSeconds*second}) db.cooldowns})
  let coins ← creditCoins c.who (max 0 o.requestedCoins) "minigame" (.minigame c.reference)
    dailyCoinLimit true
  updatePets (fun r => r.id=p.id && decide (energy≤r.stat .energy)) (fun r =>
    {r with
      experience := r.experience+experience
      stat := fun s => if s=.energy then r.stat s-energy else r.stat s})
  let m : Minigame := ⟨c.reference,c.who,c.game,c.opponent,p.name,
    (other.map Pet.name).getD [],coins,experience,energy,o.payload⟩
  write (fun db => {db with minigames := db.minigames++[m]})
  pure m

/-- `settle_minigame_atomic`. -/
def settleMinigame (now : Nat) (c : MinigameCall) : Act (Settled Minigame) := do
  check (!blankText c.reference) "小游戏请求标识不能为空"
  check (c.opponent=[] || c.opponent≠c.who.user) "不能和自己的宠物进行对战"
  match ← read (fun db => row Minigame.reference db.minigames c.reference) with
  | some prior =>
    check (sameMinigame c prior) "小游戏请求标识冲突"
    pure ⟨prior,true⟩
  | none =>
    let u ← userRow c.who
    check u.isSome "用户不存在"
    let p ← fetch (← petRow c.who) (.refused "你还没有宠物")
    check p.canInteract "宠物现在无法互动"
    let other ← opponentPet c.opponent c.who.group
    check (decide (max 0 c.minimumEnergy≤p.stat .energy)) "你的宠物精力不足"
    let cooldown ← read (fun db => row cooldownKey db.cooldowns (c.who,c.game))
    check (cooldown.all (fun r => r.availableAt≤now)) "小游戏冷却中"
    let m ← settleFresh now c p other
    pure ⟨m,false⟩

def sameVisit (c : VisitCall) (v : Visit) : Bool :=
  v.visitor=c.visitor && v.target=c.target && v.group=c.group

/-- The part of `visit_pet_atomic` that writes. -/
def visitFresh (now : Nat) (c : VisitCall) (p : Pet) : Act Visit := do
  let visitor : Who := ⟨c.visitor,c.group⟩
  let target : Who := ⟨c.target,c.group⟩
  touchUser visitor (fun u =>
    {u.incrementAction .visit 1 with lastVisit := some now,lastActive := now})
  updatePets (fun r => r.id=p.id) (fun r => {r with intimacy := r.intimacy+1})
  let visitorGrant ← creditCoins visitor c.coinReward "pet_visit_visitor" (.visitor c.reference)
    dailyCoinLimit true
  let targetGrant ← creditCoins target c.coinReward "pet_visit_target" (.target c.reference)
    dailyCoinLimit true
  incrementTask visitor .visit (businessDate now)
  let v : Visit := ⟨c.reference,c.visitor,c.target,c.group,p.name,visitorGrant,targetGrant,1⟩
  write (fun db => {db with visits := db.visits++[v]})
  pure v

/-- `visit_pet_atomic`. -/
def visitPet (now : Nat) (c : VisitCall) : Act (Settled Visit) := do
  check (c.visitor≠c.target) "不能访问自己的宠物"
  check (c.reference≠[]) "访问请求缺少唯一标识"
  match ← read (fun db => row Visit.reference db.visits c.reference) with
  | some prior =>
    check (sameVisit c prior) "访问请求标识冲突"
    pure ⟨prior,true⟩
  | none =>
    let visitor ← fetch (← userRow ⟨c.visitor,c.group⟩) (.refused "访客用户不存在")
    let target ← userRow ⟨c.target,c.group⟩
    check target.isSome "目标用户不存在"
    let p ← fetch (← petRow ⟨c.target,c.group⟩) (.refused "目标宠物不存在")
    check p.canInteract "该宠物现在无法互动"
    check (decide (visitor.today .visit < c.dailyVisitLimit)) "今日访问次数已达上限"
    check (visitor.lastVisit.all (fun t => c.cooldownSeconds*second+t≤now)) "访问冷却中"
    match ← claimActionQuota now ⟨c.visitor,c.group⟩ .visit c.dailyVisitLimit c.cooldownSeconds with
    | .error none => refuse "今日访问次数已达上限"
    | .error (some _) => refuse "访问冷却中"
    | .ok () =>
      let v ← visitFresh now c p
      pure ⟨v,false⟩

/-! Other rewards -/

def claimTaskReward (now : Nat) (who : Who) (task : Action) : Act Int := do
  let date := businessDate now
  let selected := fun t : Task => taskKey t=(who,task,date) && !t.claimed
  let t ← fetch ((← read (fun db => row taskKey db.tasks (who,task,date))).filter (fun t =>
    !t.claimed && decide (t.target≤t.current))) (.refused "")
  write (fun db => {db with tasks := updateWhere selected (fun t => {t with claimed := true}) db.tasks})
  creditCoins who t.reward "daily_task" (.dailyTask date task who) dailyCoinLimit true

def claimGroupTaskReward (now : Nat) (who : Who) (task : Action) : Act Int := do
  let date := businessDate now
  let t ← fetch ((← read (fun db => row groupTaskKey db.groupTasks (who.group,task,date))).filter
    (fun t => t.completed || decide (t.target≤t.current))) (.refused "")
  let claimed ← read (fun db => db.groupClaims.contains (who.group,task,date,who.user))
  check (!claimed) ""
  write (fun db => {db with groupClaims := db.groupClaims++[(who.group,task,date,who.user)]})
  creditCoins who t.reward "group_task" (.groupTask date task who) dailyCoinLimit true

def claimActivityReward (id : Nat) (who : Who) : Act Int := do
  let a ← fetch ((← read (fun db => row Activity.id db.activities id)).filter (fun a =>
    a.group=who.group && decide (a.target≤a.current))) (.refused "")
  let claimed ← read (fun db => db.activityClaims.contains (id,who.user))
  check (!claimed) ""
  write (fun db => {db with activityClaims := db.activityClaims++[(id,who.user)]})
  creditCoins who a.reward "activity" (.activity id who.user) dailyCoinLimit true

/-- `_grant_temporary_title_in_transaction`. -/
def grantTitle (now : Nat) (who : Who) (title : Text) (days : Nat) : Act Bool := do
  match ← userRow who with
  | none => pure false
  | some u =>
    onlyIf (title∉u.titles) (touchUser who (fun u => {u with titles := u.titles++[title]}))
    write (fun db =>
      {db with
        titleExpiries := upsert (fun e : TitleExpiry => (e.who,e.title))
          ⟨who,title,now+days*86400*second⟩ (fun _ => true)
          (fun e => {e with expiresAt := now+days*86400*second}) db.titleExpiries})
    pure true

end Act

end

section

open Framework Tx Commands

/-- What `get_group_economy_snapshot` answers of the coins. -/
inductive Reconciliation where
  | baselineCreated (balance : Int)
  | consistent (balance expected : Int)
  | mismatch (balance expected difference : Int)

/-- `TITLES` that expire, with their days. -/
def championTitle : Text := "展示会冠军".toList

def weeklyTitle : Text := "本周之星".toList

def titleDays : Nat := 7

namespace Db

def hasPet (db : Db) (who : Who) : Bool := (db.petOf who).isSome

/-- The first of a ranking: the higher score first, then the lower user. -/
def ranked (entries : List (Text × Int)) (n : Nat) : List Text :=
  ((entries.mergeSort (fun a b => decide (b.2 < a.2) || (decide (a.2=b.2) && decide (a.1≤b.1)))).take n
    ).map Prod.fst

def careScore (p : Pet) : Int :=
  p.stat .hunger+p.stat .mood+p.stat .clean+p.stat .energy+p.stat .health

def weeklyWinners (db : Db) (group : Int) : List Text :=
  ranked ((db.pets.filter (fun p => p.who.group=group)).map (fun p => (p.who.user,careScore p))) 3

/-- The winners of a show: the pets with most votes that are still there. -/
def showWinners (db : Db) (petShow : Nat) (group : Int) : List Text :=
  let votes := (db.votes.filter (fun v => v.petShow=petShow)).map Vote.pet
  let present := votes.dedup.filter (fun u => db.hasPet ⟨u,group⟩ && (db.user ⟨u,group⟩).isSome)
  ranked (present.map (fun u => (u,(votes.count u : Int)))) 3

def totalCoins (db : Db) (group : Int) : Int :=
  ((db.users.filter (fun u => u.who.group=group && db.hasPet u.who)).map User.coins).sum

def ledgerTotal (db : Db) (group : Int) : Int :=
  ((db.ledger.filter (fun e => e.who.group=group && e.asset=.coins && db.hasPet e.who)).map
    Entry.delta).sum

end Db

namespace Act

/-- `create_user`, of the user that `get_or_create_user` makes; whether it was created. -/
def createUser (now : Nat) (who : Who) : Act Bool := do
  if (← userRow who).isSome then pure false
  else
    let u := User.fresh who now
    attempt (fun db => if Db.solvent u then some {db with users := db.users++[u]} else none) .integrity
    recordAssetDelta who .coins u.coins "account_opening" (some (.opening who))
    pure true

/-- `create_pet`; a user has one in a group. -/
def createPet (p : Pet) : Act Unit :=
  attempt (fun db =>
    if db.hasPet p.who then none
    else some {db with
      pets := db.pets++[{p with id := db.nextPet,likes := 0,version := 0}]
      nextPet := db.nextPet+1}) .integrity

/-- `admin_delete_pet_atomic`. -/
def deletePet (who : Who) : Act Unit := do
  let p ← petRow who
  check p.isSome ""
  write (fun db => {db with pets := db.pets.filter (fun r => r.who≠who)})

/-- `admin_reset_user_pet_atomic`. -/
def resetPet (now : Nat) (who : Who) : Act Unit := do
  let p ← petRow who
  let u ← userRow who
  check (p.isSome && u.isSome) ""
  updatePets (fun r => r.who=who) (fun r =>
    {r with
      stat := fun _ => 100
      stage := .egg
      experience := 0
      intimacy := 0
      age := 0
      status := .normal
      statusExpire := none
      lastUpdate := now
      last := fun _ => none})
  touchUser who (fun u => {u with lastVisit := none,lastGift := none})

/-- `purchase_dress_atomic`. -/
def purchaseDress (who : Who) (dress : Text) (friendship : Bool) (price : Int) : Act Unit := do
  check (dress≠[]) "装扮参数无效"
  check (decide (0≤price)) "装扮价格无效"
  let owned ← read (fun db => db.dresses.contains (who,dress))
  check (!owned) "你已经拥有该装扮"
  let u ← userRow who
  check (u.any (fun u => price ≤ if friendship then u.friendship else u.coins)) "余额不足"
  payUser who (fun u =>
    if friendship then {u with friendship := u.friendship-price} else {u with coins := u.coins-price})
  write (fun db => {db with dresses := db.dresses++[(who,dress)]})
  recordAssetDelta who (if friendship then .friendship else .coins) (-price) "dress_purchase" none

def rewardWinners (now : Nat) (group : Int) (rewards : List Int) (reason : String)
    (reference : Nat → Text → Reference) (title : Text) : Nat → List Text → Act Unit
  | _,[] => pure ()
  | place,user::rest => do
    discard (creditCoins ⟨user,group⟩ ((rewards[place]?).getD 0) reason (reference place user)
      dailyCoinLimit false)
    onlyIf (place=0) (discard (grantTitle now ⟨user,group⟩ title titleDays))
    rewardWinners now group rewards reason reference title (place+1) rest

/-- `settle_pet_show_atomic`. -/
def settlePetShow (now : Nat) (group : Int) (force : Bool) : Act Unit := do
  let due ← read (fun db => db.shows.reverse.find? (fun s =>
    s.group=group && s.active && (force || decide (s.endTime≤now))))
  let s ← fetch due (.refused "")
  let winners ← read (fun db => db.showWinners s.id group)
  rewardWinners now group showRewards "pet_show" (.petShow s.id) championTitle 0 winners
  write (fun db =>
    {db with
      shows := updateWhere (fun r => r.id=s.id && r.active)
        (fun r => {r with active := false,settled := true}) db.shows})

/-- The second transaction of `create_pet_show`. -/
def createPetShow (now : Nat) (group : Int) (durationHours : Nat) : Act Unit := do
  check (decide (0 < durationHours)) ""
  let existing ← read (fun db => db.shows.any (fun s => s.group=group && s.active))
  check (!existing) ""
  write (fun db =>
    {db with
      shows := db.shows++[⟨db.nextShow,group,now,now+durationHours*3600*second,true,false⟩]
      nextShow := db.nextShow+1})

/-- `vote_pet_show_atomic`. -/
def votePetShow (now petShow : Nat) (voter pet : Text) (maxVotes : Nat) : Act Unit := do
  check (decide (0 < maxVotes) && decide (voter≠pet)) ""
  let s ← fetch ((← read (fun db => row PetShow.id db.shows petShow)).filter (fun s =>
    s.active && decide (s.startTime≤now) && decide (now < s.endTime))) (.refused "")
  let u ← userRow ⟨voter,s.group⟩
  let p ← petRow ⟨pet,s.group⟩
  check (u.isSome && p.isSome) ""
  let count ← read (fun db => db.votes.countP (fun v => v.petShow=petShow && v.voter=voter))
  check (decide (count < maxVotes)) ""
  write (fun db => {db with votes := db.votes++[⟨petShow,voter,pet⟩]})

def createActivity (now : Nat) (group : Int) (action : Text) (target reward : Int)
    (durationHours : Nat) : Act Unit := do
  check (action≠[] && decide (0 < target) && decide (0≤reward) && decide (0 < durationHours)) ""
  write (fun db =>
    {db with
      activities := db.activities++[⟨db.nextActivity,group,action,target,0,reward,
        some (now+durationHours*3600*second),true⟩]
      nextActivity := db.nextActivity+1})

/-- The tables of `get_or_create_daily_tasks`. -/
def getOrCreateDailyTasks (now : Nat) (who : Who) : Act Unit := ensureDailyTasks who (businessDate now)

/-- The tables of `get_or_create_group_tasks`. -/
def getOrCreateGroupTasks (now : Nat) (group : Int) : Act Unit :=
  ensureGroupTasks group (businessDate now)

/-! Scheduled jobs -/

def runKey (r : JobRun) : Text × Text := (r.job,r.period)

/-- `_claim_scheduler_run_in_transaction`. -/
def claimSchedulerRun (now : Nat) (job period : Text) (leaseSeconds : Nat) : Act Bool := do
  let lease := now+max 1 leaseSeconds*second
  match ← read (fun db => row runKey db.runs (job,period)) with
  | none =>
    write (fun db => {db with runs := db.runs++[⟨job,period,false,some lease⟩]})
    pure true
  | some r =>
    if r.completed then pure false
    else if r.lease.any (now < ·) then pure false
    else
      write (fun db =>
        {db with
          runs := updateWhere (fun r => runKey r=(job,period) && !r.completed)
            (fun r => {r with lease := some lease}) db.runs})
      pure true

/-- `_complete_scheduler_run_in_transaction`. -/
def completeSchedulerRun (job period : Text) : Act Bool := do
  let selected := fun r : JobRun => runKey r=(job,period) && !r.completed
  let n ← read (fun db => db.runs.countP selected)
  write (fun db =>
    {db with runs := updateWhere selected (fun r => {r with completed := true,lease := none}) db.runs})
  pure (n=1)

def dailyResetJob : Text := "qingpet_daily_reset".toList

def weeklyActivityJob : Text := "qingpet_weekly_activity".toList

def resetDay (group : Int) (ageDays : Int) : Act Unit := do
  write (fun db => db.touchUsers (fun u => u.who.group=group)
    (fun u => {u with todayCoins := 0,today := fun _ => 0}))
  updatePets (fun p => p.who.group=group) (fun p => {p with age := p.age+max 1 ageDays})

def settleWeek (now : Nat) (group : Int) (period : Text) : Act Unit := do
  let winners ← read (fun db => db.weeklyWinners group)
  rewardWinners now group weeklyRewards "weekly_ranking" (.weekly period) weeklyTitle 0 winners

/-- A job's transaction: the claim of its period, its effects, and the completion. -/
def runJob (now : Nat) (job period : Text) (effects : Act Unit) : Act Unit := do
  let claimed ← claimSchedulerRun now job period 300
  check claimed ""
  effects
  let completed ← completeSchedulerRun job period
  require completed .raised

/-- `run_daily_reset_atomic`. -/
def runDailyReset (now : Nat) (period : Text) (group ageDays : Int) : Act Unit :=
  runJob now dailyResetJob period (resetDay group ageDays)

/-- `settle_weekly_activity_atomic`. -/
def settleWeeklyActivity (now : Nat) (period : Text) (group : Int) : Act Unit :=
  runJob now weeklyActivityJob period (settleWeek now group period)

def cleanupExpiredTitles (now : Nat) : Act Unit :=
  write (fun db =>
    let expired := db.titleExpiries.filter (fun e => e.expiresAt≤now)
    {expired.foldl (fun db e =>
        db.touchUsers (fun u => u.who=e.who && decide (e.title∈u.titles))
          (fun u => {u with titles := u.titles.erase e.title})) db with
      titleExpiries := db.titleExpiries.filter (fun e => now < e.expiresAt)})

/-- The coins of `get_group_economy_snapshot`. -/
def economySnapshot (group : Int) : Act Reconciliation := do
  let balance ← read (fun db => db.totalCoins group)
  let total ← read (fun db => db.ledgerTotal group)
  match ← read (fun db => row Checkpoint.group db.checkpoints group) with
  | none =>
    write (fun db => {db with checkpoints := db.checkpoints++[⟨group,balance,total⟩]})
    pure (.baselineCreated balance)
  | some c =>
    let expected := c.balance+(total-c.ledgerTotal)
    if balance-expected=0 then
      write (fun db =>
        {db with
          checkpoints := updateWhere (fun c => c.group=group)
            (fun c => {c with balance := balance,ledgerTotal := total}) db.checkpoints})
      pure (.consistent balance expected)
    else pure (.mismatch balance expected (balance-expected))

end Act

end

section

open Framework Tx Commands

namespace Act

def likeKey (l : Like) : Text × Text × Int × Nat := (l.user,l.target,l.group,l.date)

/-- `like_pet_atomic`. -/
def likePet (now : Nat) (user target : Text) (group dailyLimit : Int) : Act Unit := do
  check (decide (user≠target) && decide (0 < dailyLimit)) ""
  let date := businessDate now
  let given ← read (fun db => row likeKey db.likes (user,target,group,date))
  check (given.all (fun l => l.count < dailyLimit)) ""
  let p ← petRow ⟨target,group⟩
  check p.isSome ""
  updatePets (fun r => r.who=⟨target,group⟩)
    (fun r => {r with likes := r.likes+1,intimacy := r.intimacy+1})
  write (fun db =>
    {db with
      likes := upsert likeKey ⟨user,target,group,date,1⟩ (fun _ => true)
        (fun l => {l with count := l.count+1}) db.likes})

/-- `leave_message_atomic`, less the message's text. -/
def leaveMessage (now : Nat) (sender receiver : Text) (group dailyLimit : Int) : Act Unit := do
  check (sender≠receiver) "不能给自己留言"
  let u ← fetch (← userRow ⟨sender,group⟩) (.refused "留言用户不存在")
  let other ← userRow ⟨receiver,group⟩
  check other.isSome "目标用户不存在"
  let p ← petRow ⟨receiver,group⟩
  check p.isSome "该用户没有宠物"
  check (decide (u.today .message < max 0 dailyLimit)) "今日留言次数已达上限"
  touchUser ⟨sender,group⟩ (fun u => {u.incrementAction .message 1 with lastActive := now})

/-- `admin_set_ban_atomic`. -/
def setBan (now : Nat) (who : Who) (days : Option Nat) : Act Unit := do
  check (days.all (0 < ·)) ""
  let u ← userRow who
  check u.isSome ""
  touchUser who (fun u =>
    {u with banned := days.isSome,banUntil := days.map (fun d => now+d*86400*second)})

/-- `update_group_config`, of what the activities read. -/
def updateGroupConfig (group : Int) (on : Bool) : Act Unit :=
  write (fun db => {db with activityOn := fun g => if g=group then on else db.activityOn g})

end Act

/-- The transactions of the service, with what its callers hand in. -/
inductive Call where
  | createUser (who : Who)
  | createPet (p : Pet)
  | deletePet (who : Who)
  | resetPet (who : Who)
  | setBan (who : Who) (days : Option Nat)
  | updateGroupConfig (group : Int) (on : Bool)
  | updatePet (pet : Draft Pet)
  | updateUser (user : Draft User)
  | commitPetAndUser (pet : Draft Pet) (user : Draft User) (bag : Option (Draft Items × List Text))
      (task groupTask : Option Action) (action : Option PetAction)
  | purchaseItem (who : Who) (item : Text) (amount totalCost : Int)
  | useAccelerationCard (who : Who) (pet : Nat) (expGain : Int)
  | giftItem (giver receiver : Text) (group : Int) (item : Text)
      (amount friendshipGain dailyLimit : Int) (cooldownSeconds : Nat)
  | createTradeListing (seller : Who) (item : Text) (amount price : Int)
      (expireHours maxListings : Nat)
  | cancelTradeListing (id : Nat) (seller : Text) (group : Int)
  | purchaseTradeListing (id : Nat) (buyer : Text) (group : Int) (taxOf : Int → Int)
  | settleExpiredTradeListings (group : Option Int)
  | treatPet (who : Who) (pet : Nat) (item : Text) (healthGain cleanGain dailyLimit : Int)
      (cooldownSeconds : Nat)
  | purchaseDress (who : Who) (dress : Text) (friendship : Bool) (price : Int)
  | likePet (user target : Text) (group dailyLimit : Int)
  | leaveMessage (sender receiver : Text) (group dailyLimit : Int)
  | settleMinigame (c : MinigameCall)
  | visitPet (c : VisitCall)
  | claimTaskReward (who : Who) (task : Action)
  | claimGroupTaskReward (who : Who) (task : Action)
  | claimActivityReward (id : Nat) (who : Who)
  | createActivity (group : Int) (action : Text) (target reward : Int) (durationHours : Nat)
  | getOrCreateDailyTasks (who : Who)
  | getOrCreateGroupTasks (group : Int)
  | createPetShow (group : Int) (durationHours : Nat)
  | votePetShow (petShow : Nat) (voter pet : Text) (maxVotes : Nat)
  | settlePetShow (group : Int) (force : Bool)
  | runDailyReset (period : Text) (group ageDays : Int)
  | settleWeeklyActivity (period : Text) (group : Int)
  | cleanupExpiredTitles
  | economySnapshot (group : Int)

namespace Call

open Act

def run (now : Nat) : Call → Act Unit
  | createUser who => discard (Act.createUser now who)
  | createPet p => Act.createPet p
  | deletePet who => Act.deletePet who
  | resetPet who => Act.resetPet now who
  | setBan who days => Act.setBan now who days
  | updateGroupConfig group on => Act.updateGroupConfig group on
  | updatePet pet => Act.updatePet pet
  | updateUser user => Act.updateUser user
  | commitPetAndUser pet user bag task groupTask action =>
    discard (Act.commitPetAndUser now pet user bag task groupTask action)
  | purchaseItem who item amount totalCost => Act.purchaseItem who item amount totalCost
  | useAccelerationCard who pet expGain => Act.useAccelerationCard now who pet expGain
  | giftItem giver receiver group item amount friendshipGain dailyLimit cooldownSeconds =>
    Act.giftItem now giver receiver group item amount friendshipGain dailyLimit cooldownSeconds
  | createTradeListing seller item amount price expireHours maxListings =>
    Act.createTradeListing now seller item amount price expireHours maxListings
  | cancelTradeListing id seller group => discard (Act.cancelTradeListing now id seller group)
  | purchaseTradeListing id buyer group taxOf =>
    discard (Act.purchaseTradeListing now id buyer group taxOf)
  | settleExpiredTradeListings group => Act.settleExpiredTradeListings now group
  | treatPet who pet item healthGain cleanGain dailyLimit cooldownSeconds =>
    Act.treatPet now who pet item healthGain cleanGain dailyLimit cooldownSeconds
  | purchaseDress who dress friendship price => Act.purchaseDress who dress friendship price
  | likePet user target group dailyLimit => Act.likePet now user target group dailyLimit
  | leaveMessage sender receiver group dailyLimit =>
    Act.leaveMessage now sender receiver group dailyLimit
  | settleMinigame c => discard (Act.settleMinigame now c)
  | visitPet c => discard (Act.visitPet now c)
  | claimTaskReward who task => discard (Act.claimTaskReward now who task)
  | claimGroupTaskReward who task => discard (Act.claimGroupTaskReward now who task)
  | claimActivityReward id who => discard (Act.claimActivityReward id who)
  | createActivity group action target reward durationHours =>
    Act.createActivity now group action target reward durationHours
  | getOrCreateDailyTasks who => Act.getOrCreateDailyTasks now who
  | getOrCreateGroupTasks group => Act.getOrCreateGroupTasks now group
  | createPetShow group durationHours => Act.createPetShow now group durationHours
  | votePetShow petShow voter pet maxVotes => Act.votePetShow now petShow voter pet maxVotes
  | settlePetShow group force => Act.settlePetShow now group force
  | runDailyReset period group ageDays => Act.runDailyReset now period group ageDays
  | settleWeeklyActivity period group => Act.settleWeeklyActivity now period group
  | cleanupExpiredTitles => Act.cleanupExpiredTitles now
  | economySnapshot group => discard (Act.economySnapshot group)

def after (now : Nat) (c : Call) (db : Db) : Db := (transact (c.run now) db).2

def isJob : Call → Bool
  | runDailyReset _ _ _ => true
  | settleWeeklyActivity _ _ => true
  | _ => false

end Call

end

end XiaoQing.QingPet
