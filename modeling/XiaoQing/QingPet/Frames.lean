import XiaoQing.QingPet.Jobs

namespace XiaoQing.QingPet

open Framework Tx Commands

/-- The tables, each with its counter. -/
inductive Table where
  | users
  | pets
  | inventories
  | listings
  | ledger
  | checkpoints
  | quotas
  | dresses
  | cooldowns
  | minigames
  | visits
  | likes
  | tasks
  | groupTasks
  | groupClaims
  | activities
  | activityClaims
  | shows
  | votes
  | titleExpiries
  | runs
  | configs
  deriving DecidableEq

def Db.Agree (s t : Db) : Table → Prop
  | .users => t.users=s.users
  | .pets => t.pets=s.pets ∧ t.nextPet=s.nextPet
  | .inventories => t.inventories=s.inventories
  | .listings => t.listings=s.listings ∧ t.nextListing=s.nextListing
  | .ledger => t.ledger=s.ledger
  | .checkpoints => t.checkpoints=s.checkpoints
  | .quotas => t.quotas=s.quotas
  | .dresses => t.dresses=s.dresses
  | .cooldowns => t.cooldowns=s.cooldowns
  | .minigames => t.minigames=s.minigames
  | .visits => t.visits=s.visits
  | .likes => t.likes=s.likes
  | .tasks => t.tasks=s.tasks
  | .groupTasks => t.groupTasks=s.groupTasks
  | .groupClaims => t.groupClaims=s.groupClaims
  | .activities => t.activities=s.activities ∧ t.nextActivity=s.nextActivity
  | .activityClaims => t.activityClaims=s.activityClaims
  | .shows => t.shows=s.shows ∧ t.nextShow=s.nextShow
  | .votes => t.votes=s.votes
  | .titleExpiries => t.titleExpiries=s.titleExpiries
  | .runs => t.runs=s.runs
  | .configs => t.activityOn=s.activityOn

def Db.Within (ts : List Table) (s t : Db) : Prop := ∀x,x∉ts → s.Agree t x

theorem Db.within_refl (ts : List Table) (s : Db) : Db.Within ts s s := by
  intro x _
  cases x <;> simp [Db.Agree]

def Only (ts : List Table) {α : Type} (m : Act α) : Prop := ∀s,Keeps (Db.Within ts s) m

namespace Only

variable {ts : List Table} {α β : Type} {m : Act α} {k : α → Act β}

theorem run (h : Only ts m) {s t : Db} {a : α} (hr : m.run s=.ok (a,t)) : Db.Within ts s t :=
  h s s a t (Db.within_refl ts s) hr

theorem bind (h : Only ts m) (hk : ∀a,Only ts (k a)) : Only ts (m >>= k) :=
  fun s => (h s).bind (fun a => hk a s)

theorem pure {a : α} : Only ts (Pure.pure a : Act α) := fun _ => keeps_pure

variable {e : Failure}

theorem throw : Only ts (MonadExcept.throw e : Act α) := fun _ => keeps_throw

theorem read {f : Db → α} : Only ts (Tx.read f : Act α) := fun _ => keeps_read

theorem require {c : Bool} : Only ts (Tx.require c e) := fun _ => keeps_require

theorem fetch {o : Option α} : Only ts (Tx.fetch o e) := fun _ => keeps_fetch

theorem onlyIf {c : Bool} {m : Act Unit} (h : Only ts m) : Only ts (Tx.onlyIf c m) :=
  fun s => keeps_onlyIf (h s)

theorem ite {c : Prop} {_ : Decidable c} {m' : Act α} (h : Only ts m) (h' : Only ts m') :
    Only ts (if c then m else m') :=
  fun s => ensures_ite (fun _ => h s) (fun _ => h' s)

theorem forM {γ : Type} {g : γ → Act Unit} {l : List γ} (h : ∀c,Only ts (g c)) :
    Only ts (l.forM g) :=
  fun s => keeps_forM l (fun c _ => h c s)

theorem optionForM {γ : Type} {g : γ → Act Unit} {o : Option γ} (h : ∀c,Only ts (g c)) :
    Only ts (o.forM g) :=
  fun s => keeps_optionForM o (fun c _ => h c s)

theorem discard (h : Only ts m) : Only ts (Functor.discard m) := h.bind (fun _ => Only.pure)

theorem mono {us : List Table} (h : Only us m) (hs : us⊆ts) : Only ts m := by
  refine fun s t a u ht hr x hx => ?_
  have hs' := h.run hr x (fun hu => hx (hs hu))
  have ht' := ht x hx
  cases x <;> simp_all [Db.Agree]

theorem write {f : Db → Db} (h : ∀s,Db.Within ts s (f s)) : Only ts (Tx.write f : Act Unit) := by
  refine fun s => keeps_write (fun t ht x hx => ?_)
  have hs := ht x hx
  have hf := h t x hx
  cases x <;> simp_all [Db.Agree]

theorem attempt {f : Db → Option Db} (h : ∀s t,f s=some t → Db.Within ts s t) :
    Only ts (Tx.attempt f e : Act Unit) := by
  refine fun s => ensures_attempt (fun t u ht hu x hx => ?_)
  have hs := ht x hx
  have hf := h t u hu x hx
  cases x <;> simp_all [Db.Agree]

theorem transact (h : Only ts m) (s : Db) : s.Within ts (Tx.transact m s).2 :=
  (h s).transact (Db.within_refl ts s)

end Only

section Writes

variable {ts : List Table} {now : Nat} {who : Who} {f : User → User}

variable {reason : String}

theorem check_only {c : Bool} : Only ts (Act.check c reason) := Only.require

theorem userRow_only : Only ts (Act.userRow who) := Only.read

theorem petRow_only : Only ts (Act.petRow who) := Only.read

theorem refuse_only {α : Type} : Only ts (Act.refuse reason : Act α) := Only.throw

theorem loadInventoryItems_only : Only ts (Act.loadInventoryItems who) := Only.read

theorem payUsers_users {db db' : Db} {p : User → Bool} (h : db.payUsers p f=some db') :
    db'={db with users := updateWhere p (Db.bumped f) db.users} := by
  unfold Db.payUsers at h
  split at h
  · cases h
    rfl
  · cases h

theorem earnUsers_users {db db' : Db} {p : User → Bool} (h : db.earnUsers p f=some db') :
    db'={db with users := updateWhere p (fun u => Db.capped (Db.bumped f u)) db.users} := by
  unfold Db.earnUsers at h
  split at h
  · cases h
    rfl
  · cases h

theorem within_users (h : .users∈ts) (db : Db) (us : List User) :
    Db.Within ts db {db with users := us} := by
  intro x hx
  cases x <;> first | exact absurd h hx | exact rfl | exact ⟨rfl,rfl⟩

theorem payUser_only (h : .users∈ts) : Only ts (Act.payUser who f) :=
  Only.attempt (fun db _ hs => payUsers_users hs ▸ within_users h db _)

theorem earnUser_only (h : .users∈ts) : Only ts (Act.earnUser who f) :=
  Only.attempt (fun db _ hs => earnUsers_users hs ▸ within_users h db _)

theorem writeUser_only {u : User} (h : .users∈ts) : Only ts (Act.writeUser u) :=
  Only.attempt (fun db _ hs => earnUsers_users hs ▸ within_users h db _)

theorem touchUser_only (h : .users∈ts) : Only ts (Act.touchUser who f) :=
  Only.write (fun db => within_users h db _)

theorem within_ledger (h : .ledger∈ts) (db : Db) (es : List Entry) :
    Db.Within ts db {db with ledger := es} := by
  intro x hx
  cases x <;> first | exact absurd h hx | exact rfl | exact ⟨rfl,rfl⟩

theorem insertEntry_only {e : Entry} (h : .ledger∈ts) : Only ts (Act.insertEntry e) := by
  refine Only.attempt (fun db db' hs => ?_)
  split at hs
  · cases hs
  · cases hs
    exact within_ledger h db _

theorem recordAssetDelta_only {asset : Asset} {delta : Int}
    {reference : Option Reference} (h : .ledger∈ts) :
    Only ts (Act.recordAssetDelta who asset delta reason reference) :=
  Only.ite Only.pure (insertEntry_only h)

theorem within_inventories (h : .inventories∈ts) (db : Db) (is : List Inventory) :
    Db.Within ts db {db with inventories := is} := by
  intro x hx
  cases x <;> first | exact absurd h hx | exact rfl | exact ⟨rfl,rfl⟩

theorem saveInventoryItems_only {items : Items} (h : .inventories∈ts) :
    Only ts (Act.saveInventoryItems who items) :=
  Only.write (fun db => within_inventories h db _)

theorem giveItems_only {item : Text} {amount : Int} (h : .inventories∈ts) :
    Only ts (Act.giveItems who item amount) :=
  loadInventoryItems_only.bind (fun _ => saveInventoryItems_only h)

theorem updatePets_only {p : Pet → Bool} {g : Pet → Pet} (h : .pets∈ts) :
    Only ts (Act.updatePets p g) := by
  refine Only.write (fun db x hx => ?_)
  cases x <;> first | exact absurd h hx | exact rfl | exact ⟨rfl,rfl⟩

/-! A write of one table -/

theorem quotas_only {f : Db → List Quota} (h : .quotas∈ts) :
    Only ts (Tx.write (fun db : Db => {db with quotas := f db}) : Act Unit) := by
  refine Only.write (fun db x hx => ?_)
  cases x <;> first | exact absurd h hx | exact rfl | exact ⟨rfl,rfl⟩

theorem dresses_only {f : Db → List (Who × Text)} (h : .dresses∈ts) :
    Only ts (Tx.write (fun db : Db => {db with dresses := f db}) : Act Unit) := by
  refine Only.write (fun db x hx => ?_)
  cases x <;> first | exact absurd h hx | exact rfl | exact ⟨rfl,rfl⟩

theorem cooldowns_only {f : Db → List Cooldown} (h : .cooldowns∈ts) :
    Only ts (Tx.write (fun db : Db => {db with cooldowns := f db}) : Act Unit) := by
  refine Only.write (fun db x hx => ?_)
  cases x <;> first | exact absurd h hx | exact rfl | exact ⟨rfl,rfl⟩

theorem minigames_only {f : Db → List Minigame} (h : .minigames∈ts) :
    Only ts (Tx.write (fun db : Db => {db with minigames := f db}) : Act Unit) := by
  refine Only.write (fun db x hx => ?_)
  cases x <;> first | exact absurd h hx | exact rfl | exact ⟨rfl,rfl⟩

theorem visits_only {f : Db → List Visit} (h : .visits∈ts) :
    Only ts (Tx.write (fun db : Db => {db with visits := f db}) : Act Unit) := by
  refine Only.write (fun db x hx => ?_)
  cases x <;> first | exact absurd h hx | exact rfl | exact ⟨rfl,rfl⟩

theorem likes_only {f : Db → List Like} (h : .likes∈ts) :
    Only ts (Tx.write (fun db : Db => {db with likes := f db}) : Act Unit) := by
  refine Only.write (fun db x hx => ?_)
  cases x <;> first | exact absurd h hx | exact rfl | exact ⟨rfl,rfl⟩

theorem tasks_only {f : Db → List Task} (h : .tasks∈ts) :
    Only ts (Tx.write (fun db : Db => {db with tasks := f db}) : Act Unit) := by
  refine Only.write (fun db x hx => ?_)
  cases x <;> first | exact absurd h hx | exact rfl | exact ⟨rfl,rfl⟩

theorem groupTasks_only {f : Db → List GroupTask} (h : .groupTasks∈ts) :
    Only ts (Tx.write (fun db : Db => {db with groupTasks := f db}) : Act Unit) := by
  refine Only.write (fun db x hx => ?_)
  cases x <;> first | exact absurd h hx | exact rfl | exact ⟨rfl,rfl⟩

theorem groupClaims_only {f : Db → List (Int × Action × Nat × Text)} (h : .groupClaims∈ts) :
    Only ts (Tx.write (fun db : Db => {db with groupClaims := f db}) : Act Unit) := by
  refine Only.write (fun db x hx => ?_)
  cases x <;> first | exact absurd h hx | exact rfl | exact ⟨rfl,rfl⟩

theorem activityClaims_only {f : Db → List (Nat × Text)} (h : .activityClaims∈ts) :
    Only ts (Tx.write (fun db : Db => {db with activityClaims := f db}) : Act Unit) := by
  refine Only.write (fun db x hx => ?_)
  cases x <;> first | exact absurd h hx | exact rfl | exact ⟨rfl,rfl⟩

theorem votes_only {f : Db → List Vote} (h : .votes∈ts) :
    Only ts (Tx.write (fun db : Db => {db with votes := f db}) : Act Unit) := by
  refine Only.write (fun db x hx => ?_)
  cases x <;> first | exact absurd h hx | exact rfl | exact ⟨rfl,rfl⟩

theorem titleExpiries_only {f : Db → List TitleExpiry} (h : .titleExpiries∈ts) :
    Only ts (Tx.write (fun db : Db => {db with titleExpiries := f db}) : Act Unit) := by
  refine Only.write (fun db x hx => ?_)
  cases x <;> first | exact absurd h hx | exact rfl | exact ⟨rfl,rfl⟩

theorem checkpoints_only {f : Db → List Checkpoint} (h : .checkpoints∈ts) :
    Only ts (Tx.write (fun db : Db => {db with checkpoints := f db}) : Act Unit) := by
  refine Only.write (fun db x hx => ?_)
  cases x <;> first | exact absurd h hx | exact rfl | exact ⟨rfl,rfl⟩

theorem shows_only {f : Db → List PetShow} (h : .shows∈ts) :
    Only ts (Tx.write (fun db : Db => {db with shows := f db}) : Act Unit) := by
  refine Only.write (fun db x hx => ?_)
  cases x <;> first | exact absurd h hx | exact rfl | exact ⟨rfl,rfl⟩

theorem claimActionQuota_only {action : Action} {limit : Int} {seconds : Nat} (h : .quotas∈ts) :
    Only ts (Act.claimActionQuota now who action limit seconds) := by
  refine Only.read.bind (fun _ => Only.ite Only.pure (Only.ite Only.pure ?_))
  exact Only.bind (quotas_only h) (fun _ => Only.pure)

theorem creditCoins_only {amount limit : Int} {reference : Reference} {zero : Bool}
    (hu : .users∈ts) (hl : .ledger∈ts) :
    Only ts (Act.creditCoins who amount reason reference limit zero) := by
  refine userRow_only.bind (fun _ => Only.fetch.bind (fun u => ?_))
  refine (Only.onlyIf (earnUser_only hu)).bind (fun _ => ?_)
  exact (Only.onlyIf (insertEntry_only hl)).bind (fun _ => Only.pure)

theorem within_listings (h : .listings∈ts) (db : Db) (ls : List Listing) (n : Nat) :
    Db.Within ts db {db with listings := ls,nextListing := n} := by
  intro x hx
  cases x <;> first | exact absurd h hx | exact rfl | exact ⟨rfl,rfl⟩

theorem claimListing_only {id : Nat} {p : Listing → Bool} {status : ListingStatus}
    (h : .listings∈ts) : Only ts (Act.claimListing id p status) :=
  Only.read.bind (fun _ => (Only.write (fun db => within_listings h db _ db.nextListing)).bind
    (fun _ => Only.pure))

theorem expireTradeListing_only {l : Listing} (hl : .listings∈ts) (hi : .inventories∈ts)
    (he : .ledger∈ts) : Only ts (Act.expireTradeListing now l) := by
  refine (claimListing_only hl).bind (fun _ => Only.ite ?_ Only.pure)
  exact (giveItems_only hi).bind (fun _ => (insertEntry_only he).bind (fun _ => Only.pure))

theorem grantTitle_only {title : Text} {days : Nat} (hu : .users∈ts) (ht : .titleExpiries∈ts) :
    Only ts (Act.grantTitle now who title days) := by
  refine userRow_only.bind (fun u => ?_)
  cases u with
  | none => exact Only.pure
  | some u =>
    refine (Only.onlyIf (touchUser_only hu)).bind (fun _ => ?_)
    exact Only.bind (titleExpiries_only ht) (fun _ => Only.pure)

theorem rewardWinners_only {group : Int} {rewards : List Int}
    {reference : Nat → Text → Reference} {title : Text} {place : Nat} {winners : List Text}
    (hu : .users∈ts) (hl : .ledger∈ts) (ht : .titleExpiries∈ts) :
    Only ts (Act.rewardWinners now group rewards reason reference title place winners) := by
  induction winners generalizing place with
  | nil => exact Only.pure
  | cons user rest ih =>
    refine (creditCoins_only hu hl).discard.bind (fun _ => ?_)
    exact (Only.onlyIf (grantTitle_only hu ht).discard).bind (fun _ => ih)

variable {date : Nat}

theorem ensureDailyTasks_only (h : .tasks∈ts) : Only ts (Act.ensureDailyTasks who date) := by
  exact tasks_only h

theorem incrementTask_only {task : Action} (h : .tasks∈ts) :
    Only ts (Act.incrementTask who task date) := by
  refine (ensureDailyTasks_only h).bind (fun _ => Only.read.bind (fun _ => Only.require.bind (fun _ => ?_)))
  exact tasks_only h

theorem ensureGroupTasks_only {group : Int} (h : .groupTasks∈ts) :
    Only ts (Act.ensureGroupTasks group date) := by
  exact groupTasks_only h

theorem advanceGroupTask_only {group : Int} {task : Action} (h : .groupTasks∈ts) :
    Only ts (Act.advanceGroupTask group task date) := by
  exact (ensureGroupTasks_only h).bind (fun _ => groupTasks_only h)

theorem advanceActivities_only {group : Int} {action : Action} (h : .activities∈ts) :
    Only ts (Act.advanceActivities now group action) := by
  refine Only.write (fun db x hx => ?_)
  split <;> cases x <;> first | exact absurd h hx | exact rfl | exact ⟨rfl,rfl⟩

theorem settleAction_only {a : PetAction} {latest : User} (h : .quotas∈ts) :
    Only ts (Act.settleAction now a latest) := by
  refine check_only.bind (fun _ => check_only.bind (fun _ => loadInventoryItems_only.bind (fun items => ?_)))
  refine check_only.bind (fun _ => (claimActionQuota_only h).bind (fun q => ?_))
  rcases q with (_ | w) | _
  · exact refuse_only
  · exact refuse_only
  · exact Only.pure

theorem settledOrMerged_only {user : Draft User} {action : Option PetAction} {latest : User}
    (h : .quotas∈ts) : Only ts (Act.settledOrMerged now user action latest) := by
  cases action with
  | some a => exact settleAction_only h
  | none => exact Only.pure

theorem savedBag_only {bag : Option (Draft Items × List Text)} {action : Option PetAction}
    {saved : Option Items} {latest : User} : Only ts (Act.savedBag bag action saved latest) := by
  unfold Act.savedBag
  split
  · exact loadInventoryItems_only.bind (fun _ => check_only.bind (fun _ => Only.pure))
  · exact Only.pure

end Writes

namespace Call

def tables : Call → List Table
  | createUser _ => [.users,.ledger]
  | createPet _ => [.pets]
  | deletePet _ => [.pets]
  | resetPet _ => [.pets,.users]
  | setBan _ _ => [.users]
  | updateGroupConfig _ _ => [.configs]
  | updatePet _ => [.pets]
  | updateUser _ => [.users,.ledger]
  | commitPetAndUser _ _ _ _ _ _ =>
    [.quotas,.pets,.users,.ledger,.inventories,.tasks,.groupTasks,.activities]
  | purchaseItem _ _ _ _ => [.users,.inventories,.ledger]
  | useAccelerationCard _ _ _ => [.pets,.inventories]
  | giftItem _ _ _ _ _ _ _ _ => [.inventories,.users]
  | createTradeListing _ _ _ _ _ _ => [.inventories,.listings]
  | cancelTradeListing _ _ _ => [.listings,.inventories,.ledger]
  | purchaseTradeListing _ _ _ _ => [.listings,.inventories,.ledger,.users]
  | settleExpiredTradeListings _ => [.listings,.inventories,.ledger]
  | treatPet _ _ _ _ _ _ _ => [.quotas,.pets,.inventories]
  | purchaseDress _ _ _ _ => [.users,.dresses,.ledger]
  | likePet _ _ _ _ => [.pets,.likes]
  | leaveMessage _ _ _ _ => [.users]
  | settleMinigame _ => [.cooldowns,.users,.ledger,.pets,.minigames]
  | visitPet _ => [.quotas,.users,.pets,.ledger,.tasks,.visits]
  | claimTaskReward _ _ => [.tasks,.users,.ledger]
  | claimGroupTaskReward _ _ => [.groupClaims,.users,.ledger]
  | claimActivityReward _ _ => [.activityClaims,.users,.ledger]
  | createActivity _ _ _ _ _ => [.activities]
  | getOrCreateDailyTasks _ => [.tasks]
  | getOrCreateGroupTasks _ => [.groupTasks]
  | createPetShow _ _ => [.shows]
  | votePetShow _ _ _ _ => [.votes]
  | settlePetShow _ _ => [.users,.ledger,.titleExpiries,.shows]
  | runDailyReset _ _ _ => [.runs,.users,.pets]
  | settleWeeklyActivity _ _ => [.runs,.users,.ledger,.titleExpiries]
  | cleanupExpiredTitles => [.users,.titleExpiries]
  | economySnapshot _ => [.checkpoints]

end Call

section Calls

variable {now : Nat} {who : Who}

theorem createUser_only : Only [.users,.ledger] (Act.createUser now who) := by
  refine userRow_only.bind (fun _ => Only.ite Only.pure (Only.bind (Only.attempt ?_) (fun _ => ?_)))
  · intro db db' hs
    split at hs
    · cases hs
      exact within_users (by decide) db _
    · cases hs
  · exact (recordAssetDelta_only (by decide)).bind (fun _ => Only.pure)

theorem createPet_only {p : Pet} : Only [.pets] (Act.createPet p) := by
  refine Only.attempt (fun db db' hs x hx => ?_)
  split at hs
  · cases hs
  · cases hs
    cases x <;> first | exact absurd (by decide) hx | exact rfl | exact ⟨rfl,rfl⟩

theorem deletePet_only : Only [.pets] (Act.deletePet who) := by
  refine petRow_only.bind (fun _ => check_only.bind (fun _ => Only.write (fun db x hx => ?_)))
  cases x <;> first | exact absurd (by decide) hx | exact rfl | exact ⟨rfl,rfl⟩

theorem resetPet_only : Only [.pets,.users] (Act.resetPet now who) :=
  petRow_only.bind (fun _ => userRow_only.bind (fun _ => check_only.bind (fun _ =>
    (updatePets_only (by decide)).bind (fun _ => touchUser_only (by decide)))))

theorem setBan_only {days : Option Nat} : Only [.users] (Act.setBan now who days) :=
  check_only.bind (fun _ => userRow_only.bind (fun _ => check_only.bind (fun _ =>
    touchUser_only (by decide))))

variable {group : Int}

theorem updateGroupConfig_only {b : Bool} :
    Only [.configs] (Act.updateGroupConfig group b) := by
  refine Only.write (fun db x hx => ?_)
  cases x <;> first | exact absurd (by decide) hx | exact rfl | exact ⟨rfl,rfl⟩

theorem updatePet_only {pet : Draft Pet} : Only [.pets] (Act.updatePet pet) :=
  Only.read.bind (fun _ => Only.fetch.bind (fun _ => check_only.bind (fun _ =>
    updatePets_only (by decide))))

theorem updateUser_only {user : Draft User} : Only [.users,.ledger] (Act.updateUser user) :=
  userRow_only.bind (fun _ => Only.fetch.bind (fun _ => (writeUser_only (by decide)).bind (fun _ =>
    userRow_only.bind (fun _ => Only.fetch.bind (fun _ => recordAssetDelta_only (by decide))))))

theorem commitPetAndUser_only {pet : Draft Pet} {user : Draft User}
    {bag : Option (Draft Items × List Text)} {task groupTask : Option Action}
    {action : Option PetAction} :
    Only [.quotas,.pets,.users,.ledger,.inventories,.tasks,.groupTasks,.activities]
      (Act.commitPetAndUser now pet user bag task groupTask action) := by
  refine Only.read.bind (fun _ => Only.fetch.bind (fun latest => ?_))
  cases pet.new.conflictsWith pet.base latest with
  | some c => exact refuse_only
  | none =>
    refine userRow_only.bind (fun _ => Only.fetch.bind (fun latestUser =>
      (settledOrMerged_only (by decide)).bind (fun _ => ?_)))
    refine savedBag_only.bind (fun _ => (updatePets_only (by decide)).bind (fun _ => ?_))
    refine (writeUser_only (by decide)).bind (fun _ => (recordAssetDelta_only (by decide)).bind (fun _ => ?_))
    refine (Only.optionForM (fun _ => saveInventoryItems_only (by decide))).bind (fun _ => ?_)
    refine (Only.optionForM (fun _ => incrementTask_only (by decide))).bind (fun _ => ?_)
    refine (Only.optionForM (fun _ => advanceGroupTask_only (by decide))).bind (fun _ => ?_)
    exact (Only.optionForM (fun _ => advanceActivities_only (by decide))).bind (fun _ => Only.pure)

variable {item : Text}

theorem purchaseItem_only {amount cost : Int} :
    Only [.users,.inventories,.ledger] (Act.purchaseItem who item amount cost) :=
  check_only.bind (fun _ => userRow_only.bind (fun _ => check_only.bind (fun _ =>
    (payUser_only (by decide)).bind (fun _ => loadInventoryItems_only.bind (fun _ =>
      (saveInventoryItems_only (by decide)).bind (fun _ => recordAssetDelta_only (by decide)))))))

theorem useAccelerationCard_only {pet : Nat} {gain : Int} :
    Only [.pets,.inventories] (Act.useAccelerationCard now who pet gain) :=
  check_only.bind (fun _ => Only.read.bind (fun _ => Only.fetch.bind (fun _ =>
    loadInventoryItems_only.bind (fun _ => check_only.bind (fun _ =>
      (updatePets_only (by decide)).bind (fun _ => saveInventoryItems_only (by decide)))))))

theorem giftItem_only {giver receiver : Text} {amount gain limit : Int}
    {seconds : Nat} : Only [.inventories,.users]
      (Act.giftItem now giver receiver group item amount gain limit seconds) := by
  refine check_only.bind (fun _ => check_only.bind (fun _ => check_only.bind (fun _ =>
    check_only.bind (fun _ => userRow_only.bind (fun _ => Only.fetch.bind (fun _ => ?_))))))
  refine userRow_only.bind (fun _ => check_only.bind (fun _ => check_only.bind (fun _ =>
    check_only.bind (fun _ => loadInventoryItems_only.bind (fun _ => check_only.bind (fun _ => ?_))))))
  exact loadInventoryItems_only.bind (fun _ => (saveInventoryItems_only (by decide)).bind (fun _ =>
    (saveInventoryItems_only (by decide)).bind (fun _ => (payUser_only (by decide)).bind (fun _ =>
      payUser_only (by decide)))))

theorem createTradeListing_only {amount price : Int} {hours limit : Nat} :
    Only [.inventories,.listings] (Act.createTradeListing now who item amount price hours limit) :=
  check_only.bind (fun _ => check_only.bind (fun _ => Only.read.bind (fun _ => check_only.bind (fun _ =>
    loadInventoryItems_only.bind (fun _ => check_only.bind (fun _ =>
      (saveInventoryItems_only (by decide)).bind (fun _ =>
        Only.write (fun db => within_listings (by decide) db _ _))))))))

theorem cancelTradeListing_only {id : Nat} {seller : Text} :
    Only [.listings,.inventories,.ledger] (Act.cancelTradeListing now id seller group) := by
  refine Only.read.bind (fun _ => Only.fetch.bind (fun l => Only.ite ?_ ?_))
  · exact (expireTradeListing_only (by decide) (by decide) (by decide)).bind (fun _ =>
      check_only.bind (fun _ => Only.pure))
  · exact (claimListing_only (by decide)).bind (fun _ => check_only.bind (fun _ =>
      (giveItems_only (by decide)).bind (fun _ => Only.pure)))

theorem purchaseTradeListing_only {id : Nat} {buyer : Text} {taxOf : Int → Int} :
    Only [.listings,.inventories,.ledger,.users]
      (Act.purchaseTradeListing now id buyer group taxOf) := by
  refine Only.read.bind (fun _ => Only.fetch.bind (fun l => check_only.bind (fun _ => Only.ite ?_ ?_)))
  · exact (expireTradeListing_only (by decide) (by decide) (by decide)).bind (fun _ =>
      check_only.bind (fun _ => Only.pure))
  refine check_only.bind (fun _ => userRow_only.bind (fun _ => Only.fetch.bind (fun u => check_only.bind
    (fun _ => (claimListing_only (by decide)).bind (fun _ => check_only.bind (fun _ => ?_))))))
  refine (payUser_only (by decide)).bind (fun _ => (payUser_only (by decide)).bind (fun _ =>
    userRow_only.bind (fun _ => Only.require.bind (fun _ => ?_))))
  exact (recordAssetDelta_only (by decide)).bind (fun _ => (recordAssetDelta_only (by decide)).bind
    (fun _ => (giveItems_only (by decide)).bind (fun _ => Only.pure)))

theorem settleExpiredTradeListings_only {group : Option Int} :
    Only [.listings,.inventories,.ledger] (Act.settleExpiredTradeListings now group) :=
  Only.read.bind (fun _ => Only.forM (fun _ =>
    (expireTradeListing_only (by decide) (by decide) (by decide)).discard))

theorem treatPet_only {pet : Nat} {health clean limit : Int} {seconds : Nat} :
    Only [.quotas,.pets,.inventories]
      (Act.treatPet now who pet item health clean limit seconds) := by
  refine check_only.bind (fun _ => check_only.bind (fun _ => Only.read.bind (fun _ => Only.fetch.bind
    (fun p => loadInventoryItems_only.bind (fun items => check_only.bind (fun _ => ?_))))))
  refine (claimActionQuota_only (by decide)).bind (fun q => ?_)
  rcases q with (_ | w) | _
  · exact refuse_only
  · exact refuse_only
  · exact (updatePets_only (by decide)).bind (fun _ => saveInventoryItems_only (by decide))

theorem purchaseDress_only {dress : Text} {friendship : Bool} {price : Int} :
    Only [.users,.dresses,.ledger] (Act.purchaseDress who dress friendship price) := by
  refine check_only.bind (fun _ => check_only.bind (fun _ => Only.read.bind (fun _ => check_only.bind
    (fun _ => userRow_only.bind (fun _ => check_only.bind (fun _ => ?_))))))
  exact (payUser_only (by decide)).bind (fun _ => Only.bind (dresses_only (by decide))
    (fun _ => recordAssetDelta_only (by decide)))

theorem likePet_only {user target : Text} {group limit : Int} :
    Only [.pets,.likes] (Act.likePet now user target group limit) := by
  exact check_only.bind (fun _ => Only.read.bind (fun _ => check_only.bind (fun _ => petRow_only.bind
    (fun _ => check_only.bind (fun _ => (updatePets_only (by decide)).bind (fun _ =>
      likes_only (by decide)))))))

theorem leaveMessage_only {sender receiver : Text} {group limit : Int} :
    Only [.users] (Act.leaveMessage now sender receiver group limit) :=
  check_only.bind (fun _ => userRow_only.bind (fun _ => Only.fetch.bind (fun _ => userRow_only.bind
    (fun _ => check_only.bind (fun _ => petRow_only.bind (fun _ => check_only.bind (fun _ =>
      check_only.bind (fun _ => touchUser_only (by decide)))))))))

theorem opponentPet_only {ts : List Table} {opponent : Text} :
    Only ts (Act.opponentPet opponent group) :=
  Only.ite Only.pure (userRow_only.bind (fun _ => check_only.bind (fun _ =>
    petRow_only.bind (fun _ => Only.fetch.bind (fun _ => check_only.bind (fun _ => Only.pure))))))

theorem settleMinigame_only {c : MinigameCall} :
    Only [.cooldowns,.users,.ledger,.pets,.minigames] (Act.settleMinigame now c) := by
  refine check_only.bind (fun _ => check_only.bind (fun _ => Only.read.bind (fun prior => ?_)))
  cases prior with
  | some prior => exact check_only.bind (fun _ => Only.pure)
  | none =>
    refine userRow_only.bind (fun _ => check_only.bind (fun _ => petRow_only.bind (fun _ =>
      Only.fetch.bind (fun p => check_only.bind (fun _ => opponentPet_only.bind (fun other => ?_))))))
    refine check_only.bind (fun _ => Only.read.bind (fun _ => check_only.bind (fun _ =>
      Only.bind ?_ (fun _ => Only.pure))))
    exact check_only.bind (fun _ => (cooldowns_only (by decide)).bind (fun _ =>
      (creditCoins_only (by decide) (by decide)).bind (fun _ => (updatePets_only (by decide)).bind
        (fun _ => (minigames_only (by decide)).bind (fun _ => Only.pure)))))

theorem visitPet_only {c : VisitCall} :
    Only [.quotas,.users,.pets,.ledger,.tasks,.visits] (Act.visitPet now c) := by
  refine check_only.bind (fun _ => check_only.bind (fun _ => Only.read.bind (fun prior => ?_)))
  cases prior with
  | some prior => exact check_only.bind (fun _ => Only.pure)
  | none =>
    refine userRow_only.bind (fun _ => Only.fetch.bind (fun _ => userRow_only.bind (fun _ =>
      check_only.bind (fun _ => petRow_only.bind (fun _ => Only.fetch.bind (fun p => check_only.bind
        (fun _ => check_only.bind (fun _ => check_only.bind (fun _ => ?_)))))))))
    refine (claimActionQuota_only (by decide)).bind (fun q => ?_)
    rcases q with (_ | w) | _
    · exact refuse_only
    · exact refuse_only
    refine Only.bind ?_ (fun _ => Only.pure)
    exact (touchUser_only (by decide)).bind (fun _ => (updatePets_only (by decide)).bind (fun _ =>
      (creditCoins_only (by decide) (by decide)).bind (fun _ =>
        (creditCoins_only (by decide) (by decide)).bind (fun _ => (incrementTask_only (by decide)).bind
          (fun _ => (visits_only (by decide)).bind (fun _ => Only.pure))))))

theorem claimTaskReward_only {task : Action} :
    Only [.tasks,.users,.ledger] (Act.claimTaskReward now who task) := by
  exact Only.read.bind (fun _ => Only.fetch.bind (fun t => Only.bind (tasks_only (by decide))
    (fun _ => creditCoins_only (by decide) (by decide))))

theorem claimGroupTaskReward_only {task : Action} :
    Only [.groupClaims,.users,.ledger] (Act.claimGroupTaskReward now who task) := by
  exact Only.read.bind (fun _ => Only.fetch.bind (fun t => Only.read.bind (fun _ => check_only.bind
    (fun _ => Only.bind (groupClaims_only (by decide))
      (fun _ => creditCoins_only (by decide) (by decide))))))

theorem claimActivityReward_only {id : Nat} :
    Only [.activityClaims,.users,.ledger] (Act.claimActivityReward id who) := by
  exact Only.read.bind (fun _ => Only.fetch.bind (fun t => Only.read.bind (fun _ => check_only.bind
    (fun _ => Only.bind (activityClaims_only (by decide))
      (fun _ => creditCoins_only (by decide) (by decide))))))

theorem createActivity_only {action : Text} {target reward : Int} {hours : Nat} :
    Only [.activities] (Act.createActivity now group action target reward hours) := by
  refine check_only.bind (fun _ => Only.write (fun db x hx => ?_))
  cases x <;> first | exact absurd (by decide) hx | exact rfl | exact ⟨rfl,rfl⟩

theorem createPetShow_only {hours : Nat} :
    Only [.shows] (Act.createPetShow now group hours) := by
  refine check_only.bind (fun _ => Only.read.bind (fun _ => check_only.bind (fun _ =>
    Only.write (fun db x hx => ?_))))
  cases x <;> first | exact absurd (by decide) hx | exact rfl | exact ⟨rfl,rfl⟩

theorem votePetShow_only {petShow : Nat} {voter pet : Text} {limit : Nat} :
    Only [.votes] (Act.votePetShow now petShow voter pet limit) := by
  exact check_only.bind (fun _ => Only.read.bind (fun _ => Only.fetch.bind (fun s => userRow_only.bind
    (fun _ => petRow_only.bind (fun _ => check_only.bind (fun _ => Only.read.bind (fun _ =>
      check_only.bind (fun _ => votes_only (by decide)))))))))

theorem settlePetShow_only {force : Bool} :
    Only [.users,.ledger,.titleExpiries,.shows] (Act.settlePetShow now group force) :=
  Only.read.bind (fun _ => Only.fetch.bind (fun s => Only.read.bind (fun _ =>
    (rewardWinners_only (by decide) (by decide) (by decide)).bind (fun _ => shows_only (by decide)))))

theorem within_runs {ts : List Table} (h : .runs∈ts) (db : Db) (rs : List JobRun) :
    Db.Within ts db {db with runs := rs} := by
  intro x hx
  cases x <;> first | exact absurd h hx | exact rfl | exact ⟨rfl,rfl⟩

variable {job period : Text}

theorem claimSchedulerRun_only {seconds : Nat} :
    Only [.runs] (Act.claimSchedulerRun now job period seconds) := by
  refine Only.read.bind (fun r => ?_)
  cases r with
  | none => exact (Only.write (fun db => within_runs (by decide) db _)).bind (fun _ => Only.pure)
  | some r =>
    refine Only.ite Only.pure (Only.ite Only.pure ?_)
    exact (Only.write (fun db => within_runs (by decide) db _)).bind (fun _ => Only.pure)

theorem completeSchedulerRun_only :
    Only [.runs] (Act.completeSchedulerRun job period) :=
  Only.read.bind (fun _ => (Only.write (fun db => within_runs (by decide) db _)).bind
    (fun _ => Only.pure))

theorem resetDay_only {group days : Int} : Only [.users,.pets] (Act.resetDay group days) :=
  (Only.write (fun db => within_users (by decide) db _)).bind (fun _ => updatePets_only (by decide))

theorem settleWeek_only {period : Text} :
    Only [.users,.ledger,.titleExpiries] (Act.settleWeek now group period) :=
  Only.read.bind (fun _ => rewardWinners_only (by decide) (by decide) (by decide))

theorem runJob_only {ts : List Table} {effects : Act Unit} (h : Only ts effects) :
    Only (.runs::ts) (Act.runJob now job period effects) :=
  (claimSchedulerRun_only.mono (by simp)).bind (fun _ => check_only.bind (fun _ =>
    (h.mono (by simp)).bind (fun _ => (completeSchedulerRun_only.mono (by simp)).bind
      (fun _ => Only.require))))

theorem touchUsers_titles (db : Db) (l : List TitleExpiry) :
    ∃us,l.foldl (fun db e => db.touchUsers (fun u => u.who=e.who && decide (e.title∈u.titles))
      (fun u => {u with titles := u.titles.erase e.title})) db={db with users := us} := by
  induction l generalizing db with
  | nil => exact ⟨db.users,rfl⟩
  | cons e l ih => exact ih _

theorem cleanupExpiredTitles_only : Only [.users,.titleExpiries] (Act.cleanupExpiredTitles now) := by
  refine Only.write (fun db x hx => ?_)
  obtain ⟨us,hus⟩ := touchUsers_titles db (db.titleExpiries.filter (fun e => e.expiresAt≤now))
  dsimp only
  rw [hus]
  cases x <;> first | exact absurd (by decide) hx | exact rfl | exact ⟨rfl,rfl⟩

theorem economySnapshot_only : Only [.checkpoints] (Act.economySnapshot group) := by
  refine Only.read.bind (fun balance => Only.read.bind (fun total => Only.read.bind (fun c => ?_)))
  cases c with
  | none => exact (checkpoints_only (by decide)).bind (fun _ => Only.pure)
  | some c => exact Only.ite ((checkpoints_only (by decide)).bind (fun _ => Only.pure)) Only.pure

theorem Call.run_only (c : Call) : Only c.tables (c.run now) := by
  cases c with
  | createUser who => exact createUser_only.discard
  | createPet p => exact createPet_only
  | deletePet who => exact deletePet_only
  | resetPet who => exact resetPet_only
  | setBan who days => exact setBan_only
  | updateGroupConfig group b => exact updateGroupConfig_only
  | updatePet pet => exact updatePet_only
  | updateUser user => exact updateUser_only
  | commitPetAndUser pet user bag task groupTask action => exact commitPetAndUser_only.discard
  | purchaseItem who item amount cost => exact purchaseItem_only
  | useAccelerationCard who pet gain => exact useAccelerationCard_only
  | giftItem giver receiver group item amount gain limit seconds => exact giftItem_only
  | createTradeListing seller item amount price hours limit => exact createTradeListing_only
  | cancelTradeListing id seller group => exact cancelTradeListing_only.discard
  | purchaseTradeListing id buyer group taxOf => exact purchaseTradeListing_only.discard
  | settleExpiredTradeListings group => exact settleExpiredTradeListings_only
  | treatPet who pet item health clean limit seconds => exact treatPet_only
  | purchaseDress who dress friendship price => exact purchaseDress_only
  | likePet user target group limit => exact likePet_only
  | leaveMessage sender receiver group limit => exact leaveMessage_only
  | settleMinigame c => exact settleMinigame_only.discard
  | visitPet c => exact visitPet_only.discard
  | claimTaskReward who task => exact claimTaskReward_only.discard
  | claimGroupTaskReward who task => exact claimGroupTaskReward_only.discard
  | claimActivityReward id who => exact claimActivityReward_only.discard
  | createActivity group action target reward hours => exact createActivity_only
  | getOrCreateDailyTasks who => exact ensureDailyTasks_only (List.mem_singleton_self _)
  | getOrCreateGroupTasks group => exact ensureGroupTasks_only (List.mem_singleton_self _)
  | createPetShow group hours => exact createPetShow_only
  | votePetShow petShow voter pet limit => exact votePetShow_only
  | settlePetShow group force => exact settlePetShow_only
  | runDailyReset period group days => exact runJob_only resetDay_only
  | settleWeeklyActivity period group => exact runJob_only settleWeek_only
  | cleanupExpiredTitles => exact cleanupExpiredTitles_only
  | economySnapshot group => exact economySnapshot_only.discard

theorem Call.after_within (now : Nat) (c : Call) (db : Db) : Db.Within c.tables db (c.after now db) :=
  (run_only c).transact db

end Calls

end XiaoQing.QingPet
