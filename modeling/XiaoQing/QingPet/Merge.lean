import XiaoQing.QingPet.Frames
import XiaoQing.QingPet.AccountCalls

namespace XiaoQing.QingPet

section

open Framework Tx Commands

def Pet.Fit (p : Pet) : Prop := ∀s,0≤p.stat s ∧ p.stat s ≤ maxStat

def Db.Fit (db : Db) : Prop := ∀p∈db.pets,p.Fit

namespace Call

def petDraft : Call → Option (Draft Pet)
  | updatePet pet => some pet
  | commitPetAndUser pet _ _ _ _ _ => some pet
  | _ => none

def Fit (c : Call) : Prop :=
  (∀d,c.petDraft=some d → d.base.isSome) ∧ ∀p,c=createPet p → p.Fit

end Call

section

variable {now : Nat} {who : Who}

theorem clampStat_bounds (n : Int) : 0≤clampStat n ∧ clampStat n ≤ maxStat := by
  unfold clampStat maxStat
  omega

theorem Pet.Fit.merged {p latest : Pet} {base : Option Pet} (h : latest.Fit) (hb : base.isSome) :
    (p.mergedOnto base latest).Fit := by
  obtain ⟨b,rfl⟩ := Option.isSome_iff_exists.mp hb
  intro s
  unfold Pet.mergedOnto Pet.mergeStat
  dsimp only
  split
  · exact h s
  · exact clampStat_bounds _

theorem Only.fit (ts : List Table) {α : Type} {m : Act α} (hm : Only ts m) (hp : .pets∉ts) :
    Keeps Db.Fit m := by
  intro s a t hs hr
  have hw := hm.run hr .pets hp
  exact fun p h => hs p (hw.1 ▸ h)

theorem updatePets_fit {p : Pet → Bool} {f : Pet → Pet} (h : ∀r : Pet,p r=true → r.Fit → (f r).Fit) :
    Keeps Db.Fit (Act.updatePets p f) := by
  refine keeps_write (fun db hdb q hq => ?_)
  obtain ⟨r,hr,rfl⟩ := mem_updateWhere hq
  split
  · exact h r ‹_› (hdb r hr)
  · exact hdb r hr

theorem Db.Fit.pet {db : Db} (h : db.Fit) {id : Nat} {p : Pet → Bool} {r : Pet}
    (hr : (db.petById id).filter p=some r) : r.Fit :=
  h r (mem_of_row (Option.filter_eq_some_iff.mp hr).1)

theorem createPet_fit {p : Pet} (hp : p.Fit) : Keeps Db.Fit (Act.createPet p) := by
  refine ensures_attempt (fun db db' hdb hs => ?_)
  split at hs
  · cases hs
  · cases hs
    intro q hq
    rcases List.mem_append.mp hq with hq | hq
    · exact hdb q hq
    · cases List.mem_singleton.mp hq
      exact hp

theorem deletePet_fit : Keeps Db.Fit (Act.deletePet who) :=
  Keeps.bind keeps_read (fun _ => Keeps.bind keeps_require (fun _ =>
    keeps_write (fun _ hdb p hp => hdb p (List.mem_filter.mp hp).1)))

theorem resetPet_fit : Keeps Db.Fit (Act.resetPet now who) := by
  refine Keeps.bind keeps_read (fun _ => Keeps.bind keeps_read (fun _ => Keeps.bind keeps_require (fun _ =>
    Keeps.bind (updatePets_fit (fun r _ _ s => ?_)) (fun _ => Only.fit [.users] (touchUser_only (by decide))
      (by decide)))))
  exact ⟨by simp,le_rfl⟩

theorem updatePet_fit {pet : Draft Pet} (hb : pet.base.isSome) : Keeps Db.Fit (Act.updatePet pet) := by
  refine Ensures.bind ensures_read (fun o => Ensures.bind ensures_fetch (fun latest => ?_))
  refine Ensures.strengthen (P:=fun db => db.Fit ∧ latest.Fit) (Ensures.of_fact (fun hlatest => ?_))
    (fun db ⟨⟨hdb,ho⟩,hf⟩ => ⟨hdb,hdb.pet (ho ▸ hf)⟩)
  exact Keeps.bind keeps_require (fun _ => updatePets_fit (fun _ _ _ => hlatest.merged hb))

theorem commitPetAndUser_fit {pet : Draft Pet} {user : Draft User} {bag : Option (Draft Items × List Text)}
    {task groupTask : Option Action} {action : Option PetAction} (hb : pet.base.isSome) :
    Keeps Db.Fit (Act.commitPetAndUser now pet user bag task groupTask action) := by
  refine Ensures.bind ensures_read (fun o => Ensures.bind ensures_fetch (fun latest => ?_))
  refine Ensures.strengthen (P:=fun db => db.Fit ∧ latest.Fit) (Ensures.of_fact (fun hlatest => ?_))
    (fun db ⟨⟨hdb,ho⟩,hf⟩ => ⟨hdb,hdb.pet (ho ▸ hf)⟩)
  cases pet.new.conflictsWith pet.base latest with
  | some c => exact ensures_throw
  | none =>
    refine Keeps.bind keeps_read (fun _ => Keeps.bind keeps_fetch (fun latestUser => ?_))
    refine Keeps.bind (Only.fit [.quotas] (settledOrMerged_only (by decide)) (by decide)) (fun settled => ?_)
    refine Keeps.bind (Only.fit [] savedBag_only (by decide)) (fun saved => ?_)
    refine Keeps.bind (updatePets_fit (fun _ _ _ => hlatest.merged hb)) (fun _ => ?_)
    refine Keeps.bind (Only.fit [.users] (writeUser_only (by decide)) (by decide)) (fun _ => ?_)
    refine Keeps.bind (Only.fit [.ledger] (recordAssetDelta_only (by decide)) (by decide)) (fun _ => ?_)
    refine Keeps.bind (Only.fit [.inventories] (Only.optionForM (fun _ =>
      saveInventoryItems_only (by decide))) (by decide)) (fun _ => ?_)
    refine Keeps.bind (Only.fit [.tasks] (Only.optionForM (fun _ => incrementTask_only (by decide)))
      (by decide)) (fun _ => ?_)
    refine Keeps.bind (Only.fit [.groupTasks] (Only.optionForM (fun _ =>
      advanceGroupTask_only (by decide))) (by decide)) (fun _ => ?_)
    exact Keeps.bind (Only.fit [.activities] (Only.optionForM (fun _ =>
      advanceActivities_only (by decide))) (by decide)) (fun _ => keeps_pure)

theorem useAccelerationCard_fit {pet : Nat} {gain : Int} :
    Keeps Db.Fit (Act.useAccelerationCard now who pet gain) :=
  Keeps.bind keeps_require (fun _ => Keeps.bind keeps_read (fun _ => Keeps.bind keeps_fetch (fun _ =>
    Keeps.bind keeps_read (fun _ => Keeps.bind keeps_require (fun _ =>
      Keeps.bind (updatePets_fit (fun _ _ hr => hr)) (fun _ =>
        Only.fit [.inventories] (saveInventoryItems_only (by decide)) (by decide)))))))

theorem treatPet_fit {pet : Nat} {item : Text} {health clean limit : Int} {seconds : Nat} :
    Keeps Db.Fit (Act.treatPet now who pet item health clean limit seconds) := by
  refine Keeps.bind keeps_require (fun _ => Ensures.bind ensures_require (fun _ =>
    Ensures.of_fact (fun hgains => ?_)))
  simp only [Bool.and_eq_true,decide_eq_true_eq] at hgains
  obtain ⟨⟨hhealth,hclean⟩,_⟩ := hgains
  refine Ensures.bind ensures_read (fun o => Ensures.bind ensures_fetch (fun p => ?_))
  refine Ensures.strengthen (P:=fun db => db.Fit ∧ p.Fit) (Ensures.of_fact (fun hp => ?_))
    (fun db ⟨⟨hdb,ho⟩,hf⟩ => ⟨hdb,hdb.pet (ho ▸ hf)⟩)
  refine Keeps.bind keeps_read (fun items => Keeps.bind keeps_require (fun _ => Keeps.bind
    (Only.fit [.quotas] (claimActionQuota_only (by decide)) (by decide)) (fun claim => ?_)))
  rcases claim with (_ | w) | _
  · exact ensures_throw
  · exact ensures_throw
  refine Keeps.bind (updatePets_fit (fun r _ hr s => ?_)) (fun _ =>
    Only.fit [.inventories] (saveInventoryItems_only (by decide)) (by decide))
  have hp1 := hp .health
  have hp2 := hp .clean
  have hr1 := hr s
  unfold maxStat at hp1 hp2 hr1 ⊢
  dsimp only
  split
  · omega
  · split <;> omega

theorem likePet_fit {user target : Text} {group limit : Int} :
    Keeps Db.Fit (Act.likePet now user target group limit) :=
  Keeps.bind keeps_require (fun _ => Keeps.bind keeps_read (fun _ => Keeps.bind keeps_require (fun _ =>
    Keeps.bind keeps_read (fun _ => Keeps.bind keeps_require (fun _ =>
      Keeps.bind (updatePets_fit (fun _ _ hr => hr)) (fun _ =>
        Only.fit [.likes] (likes_only (by decide)) (by decide)))))))

theorem settleMinigame_fit {c : MinigameCall} : Keeps Db.Fit (Act.settleMinigame now c) := by
  refine Keeps.bind keeps_require (fun _ => Keeps.bind keeps_require (fun _ => Keeps.bind keeps_read
    (fun prior => ?_)))
  cases prior with
  | some prior => exact Keeps.bind keeps_require (fun _ => keeps_pure)
  | none =>
    refine Keeps.bind keeps_read (fun _ => Keeps.bind keeps_require (fun _ => Keeps.bind keeps_read
      (fun _ => Keeps.bind keeps_fetch (fun p => Keeps.bind keeps_require (fun _ => Keeps.bind
        (Only.fit [] opponentPet_only (by decide)) (fun other => ?_))))))
    refine Keeps.bind keeps_require (fun _ => Keeps.bind keeps_read (fun _ => Keeps.bind keeps_require
      (fun _ => Keeps.bind ?_ (fun _ => keeps_pure))))
    refine Keeps.bind keeps_require (fun _ => Keeps.bind
      (Only.fit [.cooldowns] (cooldowns_only (by decide)) (by decide)) (fun _ => Keeps.bind
        (Only.fit [.users,.ledger] (creditCoins_only (by decide) (by decide)) (by decide)) (fun _ => ?_)))
    refine Keeps.bind (updatePets_fit (fun r hsel hr s => ?_)) (fun _ => Keeps.bind
      (Only.fit [.minigames] (minigames_only (by decide)) (by decide)) (fun _ => keeps_pure))
    simp only [Bool.and_eq_true,decide_eq_true_eq] at hsel
    have hbound := hr s
    dsimp only
    split
    · rename_i hs
      subst hs
      omega
    · exact hbound

theorem visitPet_fit {c : VisitCall} : Keeps Db.Fit (Act.visitPet now c) := by
  refine Keeps.bind keeps_require (fun _ => Keeps.bind keeps_require (fun _ => Keeps.bind keeps_read
    (fun prior => ?_)))
  cases prior with
  | some prior => exact Keeps.bind keeps_require (fun _ => keeps_pure)
  | none =>
    refine Keeps.bind keeps_read (fun _ => Keeps.bind keeps_fetch (fun _ => Keeps.bind keeps_read (fun _ =>
      Keeps.bind keeps_require (fun _ => Keeps.bind keeps_read (fun _ => Keeps.bind keeps_fetch (fun p =>
        Keeps.bind keeps_require (fun _ => Keeps.bind keeps_require (fun _ => Keeps.bind keeps_require
          (fun _ => Keeps.bind (Only.fit [.quotas] (claimActionQuota_only (by decide)) (by decide))
            (fun claim => ?_))))))))))
    rcases claim with (_ | w) | _
    · exact ensures_throw
    · exact ensures_throw
    refine Keeps.bind ?_ (fun _ => keeps_pure)
    refine Keeps.bind (Only.fit [.users] (touchUser_only (by decide)) (by decide)) (fun _ => Keeps.bind
      (updatePets_fit (fun _ _ hr => hr)) (fun _ => ?_))
    refine Keeps.bind (Only.fit [.users,.ledger] (creditCoins_only (by decide) (by decide)) (by decide))
      (fun _ => Keeps.bind (Only.fit [.users,.ledger] (creditCoins_only (by decide) (by decide)) (by decide))
        (fun _ => ?_))
    exact Keeps.bind (Only.fit [.tasks] (incrementTask_only (by decide)) (by decide)) (fun _ =>
      Keeps.bind (Only.fit [.visits] (visits_only (by decide)) (by decide)) (fun _ => keeps_pure))

theorem runDailyReset_fit {period : Text} {group days : Int} :
    Keeps Db.Fit (Act.runDailyReset now period group days) :=
  Keeps.bind (Only.fit [.runs] claimSchedulerRun_only (by decide)) (fun _ => Keeps.bind keeps_require (fun _ =>
    Keeps.bind (Keeps.bind (Only.fit [.users] (Only.write (fun db => within_users (by decide) db _))
      (by decide)) (fun _ => updatePets_fit (fun _ _ hr => hr))) (fun _ => Keeps.bind
        (Only.fit [.runs] completeSchedulerRun_only (by decide)) (fun _ => keeps_require))))

theorem Call.run_fit {c : Call} (hc : c.Fit) : Keeps Db.Fit (c.run now) := by
  cases c with
  | createPet p => exact createPet_fit (hc.2 p rfl)
  | deletePet who => exact deletePet_fit
  | resetPet who => exact resetPet_fit
  | updatePet pet => exact updatePet_fit (hc.1 pet rfl)
  | commitPetAndUser pet user bag task groupTask action =>
    exact Keeps.bind (commitPetAndUser_fit (hc.1 pet rfl)) (fun _ => keeps_pure)
  | useAccelerationCard who pet gain => exact useAccelerationCard_fit
  | treatPet who pet item health clean limit seconds => exact treatPet_fit
  | likePet user target group limit => exact likePet_fit
  | settleMinigame c => exact Keeps.bind settleMinigame_fit (fun _ => keeps_pure)
  | visitPet c => exact Keeps.bind visitPet_fit (fun _ => keeps_pure)
  | runDailyReset period group days => exact runDailyReset_fit
  | _ => exact Only.fit _ (run_only _) (by simp [tables])

end

end

section

open Framework Tx Commands

def PetAction.granted (a : PetAction) (u : User) : Int :=
  min (max 0 a.requestedCoins) (max 0 (dailyCoinLimit-u.todayCoins))

structure PetAction.Allowed (now : Nat) (a : PetAction) (db : Db) (latest : User) : Prop where
  daily : latest.today a.action < max 0 a.dailyLimit
  freeFeed : a.freeFeed=0 ∨ latest.today .freeFeed < max 0 a.freeFeedLimit
  consume : ∀x,a.consume=some x → 0 < db.items latest.who x
  quota : ∀q,row Act.quotaKey db.quotas (latest.who,a.action,businessDate now)=some q →
    q.count < max 0 a.dailyLimit ∧ q.availableAt≤now

namespace Call

def isMerge : Call → Bool
  | updatePet _ => true
  | updateUser _ => true
  | commitPetAndUser _ _ _ _ _ _ => true
  | _ => false

def quota : Call → Option PetAction
  | commitPetAndUser _ _ _ _ _ action => action
  | _ => none

def onPet (c : Call) (p : Pet) : Pet :=
  match c.petDraft with
  | some d => if p.id=d.new.id then {d.new.mergedOnto d.base p with version := p.version+1} else p
  | none => p

def written (now : Nat) (action : Option PetAction) (d : Draft User) (latest : User) : User :=
  match action with
  | some a => Act.settledUser now a latest (a.granted latest)
  | none => d.new.mergedOnto d.base latest

def onUser (now : Nat) (c : Call) (u : User) : User :=
  match c.userDraft with
  | some d => if u.who=d.new.who then {written now c.quota d u with version := u.version+1} else u
  | none => u

end Call

structure Merged (now : Nat) (c : Call) (s t : Db) : Prop where
  pets : ∀id,t.petById id=(s.petById id).map c.onPet
  users : ∀who,t.user who=(s.user who).map (c.onUser now)
  pet : ∀d,c.petDraft=some d → ∃latest,s.petById d.new.id=some latest ∧ latest.who=d.new.who ∧
    d.new.conflictsWith d.base latest=none
  user : ∀d,c.userDraft=some d → ∃latest,s.user d.new.who=some latest ∧
    0≤(Call.written now c.quota d latest).coins ∧
    ∀a,c.quota=some a → a.Allowed now s latest

section

variable {now : Nat} {s t : Db}

theorem Db.Within.petById {ts : List Table} (h : s.Within ts t) (hp : .pets∉ts) (id : Nat) :
    t.petById id=s.petById id := by
  unfold Db.petById
  rw [(h .pets hp).1]

theorem Db.Within.user {ts : List Table} (h : s.Within ts t) (hu : .users∉ts) (who : Who) :
    t.user who=s.user who := by
  unfold Db.user
  rw [show t.users=s.users from h .users hu]

variable {a : Unit}

theorem writePet_ok {latest : Pet} {base : Option Pet} {p : Pet} (hb : base.isSome)
    (hlatest : s.petById p.id=some latest) (h : (Act.writePet (p.mergedOnto base latest)).run s=.ok (a,t)) :
    ∀id,t.petById id=(s.petById id).map (fun r =>
      if r.id=p.id then {p.mergedOnto base r with version := r.version+1} else r) := by
  intro id
  obtain ⟨b,rfl⟩ := Option.isSome_iff_exists.mp hb
  have hid : latest.id=p.id := row_key hlatest
  have ht := congrArg Prod.snd (write_ok h)
  dsimp only at ht
  unfold Db.petById
  rw [ht]
  dsimp only
  rw [row_updateWhere_of (fun r hr => by simp_all [Pet.mergedOnto])]
  cases hrow : row Pet.id s.pets id with
  | none => rfl
  | some r =>
    have hrid : r.id=id := row_key hrow
    simp only [Option.map_some]
    by_cases he : r.id=p.id
    · have hsame : r=latest := by
        have hr : s.petById p.id=some r := by rw [← he,hrid]; exact hrow
        exact Option.some.inj (hr.symm.trans hlatest)
      subst hsame
      rw [if_pos (by simp [Pet.mergedOnto]),if_pos he]
    · rw [if_neg he,if_neg]
      simp [Pet.mergedOnto,hid,he]

theorem capped_eq_self {u : User} (h : u.todayCoins≤dailyCoinLimit) : Db.capped u=u :=
  if_neg (not_lt.mpr h)

theorem writeUser_ok {latest w : User} (hwho : w.who=latest.who) (hv : w.version=latest.version)
    (hlimit : w.todayCoins≤dailyCoinLimit) (hlatest : s.user latest.who=some latest)
    (h : (Act.writeUser w).run s=.ok (a,t)) :
    0≤w.coins ∧ ∀who,t.user who=(s.user who).map (fun r =>
      if r.who=latest.who then {w with version := r.version+1} else r) := by
  have hs := attempt_ok h
  unfold Db.earnUsers at hs
  split at hs
  · rename_i hsolvent
    cases hs
    refine ⟨?_,fun who => ?_⟩
    · have hmem := List.all_eq_true.mp hsolvent latest (mem_of_row hlatest)
      simp only [hwho,hv,decide_true,Bool.and_self,Bool.not_true,Bool.false_or,Db.solvent,
        Bool.and_eq_true,decide_eq_true_eq] at hmem
      exact hmem.1
    · unfold Db.user
      dsimp only
      have hcap : ∀r : User,Db.capped (Db.bumped (fun _ => w) r)={w with version := r.version+1} :=
        fun r => capped_eq_self hlimit
      rw [row_updateWhere_of (fun r hr => by rw [hcap]; simp_all)]
      cases hrow : row User.who s.users who with
      | none => rfl
      | some r =>
        have hrwho : r.who=who := row_key hrow
        simp only [Option.map_some,hcap]
        by_cases he : r.who=latest.who
        · have hsame : r=latest := by
            have hr : s.user latest.who=some r := by rw [← he,hrwho]; exact hrow
            exact Option.some.inj (hr.symm.trans hlatest)
          subst hsame
          rw [if_pos (by simp [hwho,hv]),if_pos he]
        · rw [if_neg he,if_neg]
          simp [hwho,he]
  · cases hs

theorem claimActionQuota_ok {who : Who} {action : Action} {limit : Int} {seconds : Nat}
    (h : (Act.claimActionQuota now who action limit seconds).run s=.ok (.ok (),t)) :
    ∀q,row Act.quotaKey s.quotas (who,action,businessDate now)=some q →
      q.count < max 0 limit ∧ q.availableAt≤now := by
  intro q hq
  obtain ⟨o,s1,hread,h1⟩ := bind_ok h
  cases read_ok hread
  rw [hq] at h1
  simp only [Option.map_some,Option.getD_some] at h1
  split at h1
  · cases pure_ok h1
  · split at h1
    · cases pure_ok h1
    · omega

theorem settleAction_ok {a : PetAction} {latest : User} {r : User × Option Items × Int}
    (h : (Act.settleAction now a latest).run s=.ok (r,t)) :
    r.1=Act.settledUser now a latest (a.granted latest) ∧ a.Allowed now s latest := by
  obtain ⟨_,s1,hcheck,h1⟩ := bind_ok h
  obtain ⟨hdaily,hs1⟩ := require_ok hcheck
  cases hs1
  obtain ⟨_,s2,hcheck',h2⟩ := bind_ok h1
  obtain ⟨hfree,hs2⟩ := require_ok hcheck'
  cases hs2
  obtain ⟨items,s3,hread,h3⟩ := bind_ok h2
  cases read_ok hread
  obtain ⟨_,s4,hheld,h4⟩ := bind_ok h3
  obtain ⟨hconsume,hs4⟩ := require_ok hheld
  cases hs4
  obtain ⟨claim,s5,hclaim,h5⟩ := bind_ok h4
  rcases claim with (_ | w) | _
  · exact (throw_ok h5).elim
  · exact (throw_ok h5).elim
  have hr := congrArg Prod.fst (pure_ok h5)
  dsimp only at hr
  subst hr
  refine ⟨rfl,of_decide_eq_true hdaily,?_,fun x hx => ?_,claimActionQuota_ok hclaim⟩
  · simpa using hfree
  · rw [hx] at hconsume
    exact of_decide_eq_true hconsume

variable {user : Draft User}

theorem written_row (now : Nat) (action : Option PetAction) {latest : User} (hd : user.Earned)
    (hwho : user.new.who=latest.who) (hlimit : latest.todayCoins≤dailyCoinLimit) :
    (Call.written now action user latest).who=latest.who ∧
    (Call.written now action user latest).version=latest.version ∧
    (Call.written now action user latest).todayCoins≤dailyCoinLimit := by
  cases action with
  | none =>
    obtain ⟨hrow,hversion,htoday,_⟩ := mergedOnto_row hd hwho hlimit
    exact ⟨hrow,hversion,htoday⟩
  | some a =>
    have hgains : Gains user (some a) latest (Call.written now (some a) user latest) :=
      settledUser_gains hlimit (min_le_right _ _)
    exact ⟨hgains.who,hgains.version,hgains.limit⟩

theorem map_onPet_none {c : Call} (hc : c.petDraft=none) (o : Option Pet) : o.map c.onPet=o := by
  unfold Call.onPet
  rw [hc]
  cases o <;> rfl

theorem map_onUser_none {c : Call} (hc : c.userDraft=none) (o : Option User) : o.map (c.onUser now)=o := by
  unfold Call.onUser
  rw [hc]
  cases o <;> rfl

theorem updatePet_merged {pet : Draft Pet} (hb : pet.base.isSome)
    (h : (Act.updatePet pet).run s=.ok (a,t)) : Merged now (.updatePet pet) s t := by
  obtain ⟨o,s1,hread,h1⟩ := bind_ok h
  cases read_ok hread
  obtain ⟨latest,s2,hfetch,h2⟩ := bind_ok h1
  obtain ⟨hfound,hs2⟩ := fetch_ok hfetch
  dsimp only at hs2 hfound
  subst hs2
  obtain ⟨hlatest,hwho⟩ := Option.filter_eq_some_iff.mp hfound
  obtain ⟨_,s3,hcheck,hwrite⟩ := bind_ok h2
  obtain ⟨hconflict,hs3⟩ := require_ok hcheck
  cases hs3
  have husers : s2.Within [.pets] t := updatePet_only.run h
  refine ⟨writePet_ok hb hlatest hwrite,fun who => ?_,fun d hd => ?_,fun d hd => nomatch hd⟩
  · rw [map_onUser_none rfl]
    exact husers.user (by decide) who
  · cases hd
    exact ⟨latest,hlatest,of_decide_eq_true hwho,Option.isNone_iff_eq_none.mp hconflict⟩

theorem writeUser_merged {action : Option PetAction} {latest : User}
    (hd : user.Earned) (hwho : latest.who=user.new.who) (hlimit : latest.todayCoins≤dailyCoinLimit)
    (hlatest : s.user user.new.who=some latest)
    (h : (Act.writeUser (Call.written now action user latest)).run s=.ok (a,t)) :
    0≤(Call.written now action user latest).coins ∧ ∀who,t.user who=(s.user who).map (fun u =>
      if u.who=user.new.who then {Call.written now action user u with version := u.version+1} else u) := by
  obtain ⟨hrow,hversion,htoday⟩ := written_row now action hd hwho.symm hlimit
  obtain ⟨hcoins,husers⟩ := writeUser_ok hrow hversion htoday (hwho ▸ hlatest) h
  refine ⟨hcoins,fun who => (husers who).trans ?_⟩
  cases hu : s.user who with
  | none => rfl
  | some u =>
    have huwho : u.who=who := row_key hu
    simp only [Option.map_some,hwho]
    split
    · rename_i he
      have hsame : u=latest := by
        rw [← he,huwho,hu] at hlatest
        exact Option.some.inj hlatest
      rw [hsame]
    · rfl

theorem updateUser_merged (hd : user.Earned)
    (hlimit : ∀who u,s.user who=some u → u.todayCoins≤dailyCoinLimit)
    (h : (Act.updateUser user).run s=.ok (a,t)) : Merged now (.updateUser user) s t := by
  obtain ⟨o,s1,hread,h1⟩ := bind_ok h
  cases read_ok hread
  obtain ⟨latest,s2,hfetch,h2⟩ := bind_ok h1
  obtain ⟨hlatest,hs2⟩ := fetch_ok hfetch
  dsimp only at hs2 hlatest
  subst hs2
  obtain ⟨_,s3,hwrite,h3⟩ := bind_ok h2
  obtain ⟨hcoins,husers⟩ := writeUser_merged hd (row_key hlatest) (hlimit _ _ hlatest) hlatest
    (show (Act.writeUser (Call.written now none user latest)).run _=_ from hwrite)
  have hrest : s3.Within [.ledger] t := Only.run (userRow_only.bind (fun _ => Only.fetch.bind (fun _ =>
    recordAssetDelta_only (List.mem_singleton_self _)))) h3
  have hpets : s2.Within [.users,.ledger] t := updateUser_only.run h
  refine ⟨fun id => ?_,fun who => ?_,(fun d hd => nomatch hd),fun d hd => ?_⟩
  · rw [map_onPet_none rfl]
    exact hpets.petById (by decide) id
  · exact (hrest.user (by decide) who).trans (husers who)
  · cases hd
    exact ⟨latest,hlatest,hcoins,fun a ha => nomatch ha⟩

theorem commitPetAndUser_merged {pet : Draft Pet}
    {bag : Option (Draft Items × List Text)} {task groupTask : Option Action} {action : Option PetAction}
    {n : Int} (hb : pet.base.isSome) (hd : user.Earned)
    (hlimit : ∀who u,s.user who=some u → u.todayCoins≤dailyCoinLimit)
    (h : (Act.commitPetAndUser now pet user bag task groupTask action).run s=.ok (n,t)) :
    Merged now (.commitPetAndUser pet user bag task groupTask action) s t := by
  obtain ⟨o,s1,hread,h1⟩ := bind_ok h
  cases read_ok hread
  obtain ⟨latest,s2,hfetch,h2⟩ := bind_ok h1
  obtain ⟨hfound,hs2⟩ := fetch_ok hfetch
  dsimp only at hs2 hfound
  subst hs2
  obtain ⟨hlatest,hwho⟩ := Option.filter_eq_some_iff.mp hfound
  cases hconflict : pet.new.conflictsWith pet.base latest with
  | some c =>
    rw [hconflict] at h2
    exact (throw_ok h2).elim
  | none =>
    rw [hconflict] at h2
    obtain ⟨o',s3,hread',h3⟩ := bind_ok h2
    cases read_ok hread'
    obtain ⟨latestUser,s4,hfetch',h4⟩ := bind_ok h3
    obtain ⟨huser,hs4⟩ := fetch_ok hfetch'
    dsimp only at hs4 huser
    subst hs4
    obtain ⟨settled,s5,hsettled,h5⟩ := bind_ok h4
    obtain ⟨saved,s6,hsaved,h6⟩ := bind_ok h5
    obtain ⟨_,s7,hwritePet,h7⟩ := bind_ok h6
    obtain ⟨_,s8,hwriteUser,h8⟩ := bind_ok h7
    have hclaim : s4.Within [.quotas] s5 := (settledOrMerged_only (by simp)).run hsettled
    have hbag : s5.Within [] s6 := savedBag_only.run hsaved
    have hpet : s6.Within [.pets] s7 := (updatePets_only (by simp)).run hwritePet
    have hafter : s8.Within [.ledger,.inventories,.tasks,.groupTasks,.activities] t := Only.run
      ((recordAssetDelta_only (by simp)).bind (fun _ => (Only.optionForM (fun _ =>
        saveInventoryItems_only (by simp))).bind (fun _ => (Only.optionForM (fun _ =>
          incrementTask_only (by simp))).bind (fun _ => (Only.optionForM (fun _ =>
            advanceGroupTask_only (by simp))).bind (fun _ => (Only.optionForM (fun _ =>
              advanceActivities_only (by simp))).bind (fun _ => Only.pure)))))) h8
    have hwrites : s7.Within [.users] s8 := (writeUser_only (by simp)).run hwriteUser
    have hwritten : settled.1=Call.written now action user latestUser ∧
        ∀a,action=some a → a.Allowed now s4 latestUser := by
      cases action with
      | none =>
        cases pure_ok hsettled
        exact ⟨rfl,(fun _ ha => nomatch ha)⟩
      | some a =>
        obtain ⟨he,hallowed⟩ := settleAction_ok hsettled
        exact ⟨he,fun b hb => by cases hb; exact hallowed⟩
    obtain ⟨hwritten,hallowed⟩ := hwritten
    rw [hwritten] at hwriteUser
    have hpets := writePet_ok hb (((hbag.petById (by decide) _).trans (hclaim.petById (by decide) _)).trans hlatest) hwritePet
    have hstored : s7.user user.new.who=some latestUser := by
      rw [hpet.user (by decide),hbag.user (by decide),hclaim.user (by decide)]
      exact huser
    obtain ⟨hcoins,husers⟩ := writeUser_merged hd (row_key huser) (hlimit _ _ huser) hstored hwriteUser
    refine ⟨fun id => ?_,fun who => ?_,fun d hd => ?_,fun d hd => ?_⟩
    · rw [hafter.petById (by decide),hwrites.petById (by decide),hpets id,hbag.petById (by decide),
        hclaim.petById (by decide)]
      rfl
    · rw [hafter.user (by decide),husers who,hpet.user (by decide),hbag.user (by decide),
        hclaim.user (by decide)]
      rfl
    · cases hd
      exact ⟨latest,hlatest,of_decide_eq_true hwho,hconflict⟩
    · cases hd
      exact ⟨latestUser,huser,hcoins,hallowed⟩

theorem Call.run_merged {c : Call} (hm : c.isMerge=true) (hc : c.Earned) (hf : c.Fit)
    (hlimit : ∀who u,s.user who=some u → u.todayCoins≤dailyCoinLimit) (h : (c.run now).run s=.ok (a,t)) :
    Merged now c s t := by
  cases c with
  | updatePet pet => exact updatePet_merged (hf.1 pet rfl) h
  | updateUser user => exact updateUser_merged (hc user rfl) hlimit h
  | commitPetAndUser pet user bag task groupTask action =>
    obtain ⟨n,hrun⟩ := discard_ok h
    exact commitPetAndUser_merged (hf.1 pet rfl) (hc user rfl) hlimit hrun
  | _ => cases hm

end

end

end XiaoQing.QingPet
