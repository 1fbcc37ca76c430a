import Mathlib.Algebra.Ring.Int.Defs
import XiaoQing.QingPet.Frames

namespace XiaoQing.QingPet

open Framework Tx Commands

/-! The ledger of a user -/

def creditReasons : List String :=
  ["minigame","pet_visit_visitor","pet_visit_target","pet_action","daily_task","group_task","activity",
    "pet_show","weekly_ranking"]

namespace Entry

def ofCoins (who : Who) (e : Entry) : Bool := e.who=who && e.asset=.coins

def credits (e : Entry) : Bool := creditReasons.contains e.reason

/-- The entry of `account_opening`. -/
def opening (who : Who) : Entry := ⟨who,.coins,100,"account_opening",some (.opening who)⟩

end Entry

namespace Db

def coinEntries (db : Db) (who : Who) : List Entry := db.ledger.filter (Entry.ofCoins who)

def coinSum (db : Db) (who : Who) : Int := ((db.coinEntries who).map Entry.delta).sum

def creditSum (db : Db) (who : Who) : Int :=
  (((db.coinEntries who).filter Entry.credits).map Entry.delta).sum

def coinsOf (db : Db) (who : Who) : Int := ((db.user who).map User.coins).getD 0

def todayOf (db : Db) (who : Who) : Int := ((db.user who).map User.todayCoins).getD 0

end Db

def shift (g : Who → Int) (who : Who) (d : Int) : Who → Int := fun w => if w=who then g w+d else g w

@[simp] theorem shift_zero (g : Who → Int) (who : Who) : shift g who 0=g := by
  funext w
  unfold shift
  split <;> simp

@[simp] theorem shift_shift (g : Who → Int) (who : Who) (d e : Int) :
    shift (shift g who d) who e=shift g who (d+e) := by
  funext w
  unfold shift
  split <;> omega

theorem shift_comm (g : Who → Int) (who who' : Who) (d e : Int) :
    shift (shift g who d) who' e=shift (shift g who' e) who d := by
  funext w
  unfold shift
  split <;> split <;> omega

/-- The books: balances against the ledger, but for debts `g` and earnings `h` that it does not
    tell. -/
structure Books (g h : Who → Int) (db : Db) : Prop where
  keys : UniqueKeys User.who db.users
  opened : ∀who,(db.user who).isSome → ∃rest,db.coinEntries who=Entry.opening who::rest
  closed : ∀who,db.user who=none → db.coinEntries who=[]
  coins : ∀who,0≤db.coinsOf who ∧ db.coinsOf who=db.coinSum who+g who
  today : ∀who,db.todayOf who≤dailyCoinLimit ∧ db.todayOf who=db.creditSum who+h who

namespace Books

variable {g h : Who → Int} {db : Db} {who : Who} {u : User} {d e : Int} {f : User → User}
  {p : User → Bool}

theorem empty : Books (fun _ => 0) (fun _ => 0) Db.empty :=
  ⟨List.nodup_nil,(fun _ hu => nomatch hu),fun _ _ => rfl,fun _ => ⟨le_rfl,rfl⟩,
    fun _ => ⟨show (0 : Int)≤dailyCoinLimit by decide,rfl⟩⟩

theorem congr {db' : Db} (hb : Books g h db) (hu : db'.users=db.users) (hl : db'.ledger=db.ledger) :
    Books g h db' := by
  obtain ⟨hkeys,hopened,hclosed,hcoins,htoday⟩ := hb
  constructor <;>
    simpa only [Db.user,Db.coinEntries,Db.coinSum,Db.creditSum,Db.coinsOf,Db.todayOf,hu,hl]

theorem keeps {ts : List Table} {α : Type} {m : Act α} (hm : Only ts m) (hu : .users∉ts)
    (hl : .ledger∉ts) : Keeps (Books g h) m := by
  intro s a t hs hr
  have hw := hm.run hr
  exact hs.congr (hw .users hu) (hw .ledger hl)

theorem write_balance {φ : User → Int} {R : Int → Prop} {o : Option User} {sum k k' : Int}
    (hold : R ((o.map φ).getD 0) ∧ (o.map φ).getD 0=sum+k)
    (hrow : ∀v,o=some v → p v → R (φ (f v)) ∧ φ (f v)=φ v+(k'-k))
    (hkeep : (∀v,o=some v → p v=false) → k'=k) :
    R (((o.map (fun v => if p v then f v else v)).map φ).getD 0) ∧
      ((o.map (fun v => if p v then f v else v)).map φ).getD 0=sum+k' := by
  cases o with
  | none =>
    rw [hkeep nofun]
    exact hold
  | some v =>
    simp only [Option.map_some,Option.getD_some] at hold ⊢
    by_cases hv : p v=true
    · obtain ⟨hr,hd⟩ := hrow v rfl hv
      rw [if_pos hv]
      exact ⟨hr,by omega⟩
    · rw [if_neg hv,hkeep (fun w hw => by cases hw; simpa using hv)]
      exact hold

theorem write {g' h' : Who → Int} (hb : Books g h db) (hf : ∀v,p v → (f v).who=v.who)
    (hcoins : ∀who v,db.user who=some v → p v →
      0≤(f v).coins ∧ (f v).coins=v.coins+(g' who-g who))
    (htoday : ∀who v,db.user who=some v → p v →
      (f v).todayCoins≤dailyCoinLimit ∧ (f v).todayCoins=v.todayCoins+(h' who-h who))
    (hkeep : ∀who,(∀v,db.user who=some v → p v=false) → g' who=g who ∧ h' who=h who) :
    Books g' h' {db with users := updateWhere p f db.users} := by
  have huser : ∀who,Db.user {db with users := updateWhere p f db.users} who=
      (db.user who).map (fun v => if p v then f v else v) := fun who => row_updateWhere_of hf
  refine ⟨?_,fun who hw => ?_,fun who hw => ?_,fun who => ?_,fun who => ?_⟩
  · rw [updateWhere_guard]
    exact hb.keys.updateWhere (fun v => by by_cases hv : p v <;> simp [hv,hf])
  · rw [huser,Option.isSome_map] at hw
    exact hb.opened who hw
  · rw [huser,Option.map_eq_none_iff] at hw
    exact hb.closed who hw
  · unfold Db.coinsOf
    rw [huser]
    exact write_balance (R:=(0≤·)) (hb.coins who) (hcoins who) (fun hn => (hkeep who hn).1)
  · unfold Db.todayOf
    rw [huser]
    exact write_balance (R:=(·≤dailyCoinLimit)) (hb.today who) (htoday who)
      (fun hn => (hkeep who hn).2)

theorem post {e : Entry} (hb : Books g h db) (hw : e.asset=.coins → (db.user e.who).isSome) :
    Books (shift g e.who (if e.asset=.coins then -e.delta else 0))
      (shift h e.who (if e.asset=.coins ∧ e.credits then -e.delta else 0))
      {db with ledger := db.ledger++[e]} := by
  have hentries : ∀who,Db.coinEntries {db with ledger := db.ledger++[e]} who=
      db.coinEntries who++if e.who=who ∧ e.asset=.coins then [e] else [] := by
    intro who
    unfold Db.coinEntries
    rw [List.filter_append]
    by_cases he : e.who=who ∧ e.asset=.coins <;> simp [Entry.ofCoins,he]
  refine ⟨hb.keys,fun who hu => ?_,fun who hu => ?_,fun who => ?_,fun who => ?_⟩
  · obtain ⟨rest,hrest⟩ := hb.opened who hu
    rw [hentries,hrest]
    exact ⟨_,rfl⟩
  · have hne : ¬(e.who=who ∧ e.asset=.coins) := by
      rintro ⟨rfl,hc⟩
      have hsome := hw hc
      rw [show db.user e.who=none from hu] at hsome
      cases hsome
    rw [hentries,if_neg hne,List.append_nil]
    exact hb.closed who hu
  · obtain ⟨hpos,hsum⟩ := hb.coins who
    refine ⟨hpos,?_⟩
    change db.coinsOf who=_
    rw [hsum]
    unfold Db.coinSum shift
    rw [hentries]
    by_cases hwho : e.who=who <;> by_cases hc : e.asset=.coins <;>
      simp [hwho,hc,eq_comm (a:=who)] <;> omega
  · obtain ⟨hle,hsum⟩ := hb.today who
    refine ⟨hle,?_⟩
    change db.todayOf who=_
    rw [hsum]
    unfold Db.creditSum shift
    rw [hentries]
    by_cases hwho : e.who=who <;> by_cases hc : e.asset=.coins <;> by_cases hr : e.credits=true <;>
      simp [hwho,hc,hr,eq_comm (a:=who)] <;> omega

end Books

def Known (ws : List Who) (g h : Who → Int) (db : Db) : Prop :=
  Books g h db ∧ ∀w∈ws,(db.user w).isSome

section Known

variable {ws : List Who} {g h : Who → Int} {db : Db} {who : Who} {f : User → User} {d : Int}

theorem known_nil : Known [] g h db ↔ Books g h db := by simp [Known]

theorem Only.known (ts : List Table) {α : Type} {m : Act α} (hm : Only ts m) (hu : .users∉ts)
    (hl : .ledger∉ts) : Keeps (Known ws g h) m := by
  intro s a t hs hr
  have hw := hm.run hr
  refine ⟨hs.1.congr (hw .users hu) (hw .ledger hl),fun w hmem => ?_⟩
  rw [Db.user,show t.users=s.users from hw .users hu]
  exact hs.2 w hmem

theorem Known.mono {ws' : List Who} (hk : Known ws g h db) (hs : ws'⊆ws) : Known ws' g h db :=
  ⟨hk.1,fun w hw => hk.2 w (hs hw)⟩

theorem fetchUser_known {e : Failure} {β : Type} {k : User → Act β} {Q : β → Db → Prop}
    (hk : ∀u,Ensures (fun db => Known (who::ws) g h db ∧ db.user who=some u) (k u) Q) :
    Ensures (Known ws g h) (Act.userRow who >>= fun o => Tx.fetch o e >>= k) Q := by
  refine Ensures.bind ensures_read (fun o => Ensures.bind ensures_fetch (fun u => ?_))
  refine (hk u).strengthen (fun db ⟨⟨hdb,ho⟩,hu⟩ => ?_)
  have huser : db.user who=some u := ho ▸ hu
  refine ⟨⟨hdb.1,fun w hw => ?_⟩,huser⟩
  rcases List.mem_cons.mp hw with rfl | hw
  · simp [huser]
  · exact hdb.2 w hw

theorem user_write_isSome {p : User → Bool} (hf : ∀v,p v → (f v).who=v.who) (w : Who) :
    (Db.user {db with users := updateWhere p f db.users} w).isSome=(db.user w).isSome := by
  unfold Db.user
  rw [row_updateWhere_of hf,Option.isSome_map]

theorem Known.touch {p : User → Bool} (hk : Known ws g h db)
    (hf : ∀v,(f v).who=v.who ∧ (f v).coins=v.coins ∧ (f v).todayCoins=v.todayCoins) :
    Known ws g h (db.touchUsers p f) := by
  refine ⟨?_,fun w hw => ?_⟩
  · refine hk.1.write (fun v _ => (hf v).1) (fun w v hv _ => ?_) (fun w v hv _ => ?_) (fun _ _ => ⟨rfl,rfl⟩)
    · have hpos := (hk.1.coins w).1
      rw [Db.coinsOf,hv] at hpos
      simpa [Db.bumped,(hf v).2.1] using hpos
    · have hle := (hk.1.today w).1
      rw [Db.todayOf,hv] at hle
      simpa [Db.bumped,(hf v).2.2] using hle
  · rw [Db.touchUsers,user_write_isSome (f:=Db.bumped f) (fun v _ => (hf v).1)]
    exact hk.2 w hw

theorem touchUser_known (hf : ∀v,(f v).who=v.who ∧ (f v).coins=v.coins ∧ (f v).todayCoins=v.todayCoins) :
    Keeps (Known ws g h) (Act.touchUser who f) := keeps_write (fun _ hk => hk.touch hf)

theorem solvent_user {p : User → Bool} {u : User} (h : db.users.all (fun u => !p u || Db.solvent (f u))=true)
    (hu : db.user who=some u) (hp : p u=true) : 0≤(f u).coins := by
  have hs := List.all_eq_true.mp h u (mem_of_row hu)
  simp only [hp,Bool.not_true,Bool.false_or,Db.solvent,Bool.and_eq_true,decide_eq_true_eq] at hs
  exact hs.1

theorem payUser_known (hf : ∀v,(f v).who=v.who ∧ (f v).coins=v.coins+d ∧ (f v).todayCoins=v.todayCoins) :
    Ensures (Known ws g h) (Act.payUser who f)
      (fun _ db => (db.user who).isSome → Known (who::ws) (shift g who d) h db) := by
  refine ensures_attempt (fun db db' hk hs hsome => ?_)
  have hdb := payUsers_users hs
  have hwho : ∀v : User,decide (v.who=who)=true → (Db.bumped f v).who=v.who := fun v _ => (hf v).1
  subst hdb
  rw [user_write_isSome hwho] at hsome
  have hsolvent : db.users.all (fun u => !decide (u.who=who) || Db.solvent (f u))=true := by
    by_contra hn
    rw [Db.payUsers,if_neg hn] at hs
    cases hs
  refine ⟨?_,fun w hw => ?_⟩
  · refine hk.1.write hwho (fun w v hv hp => ?_) (fun w v hv hp => ?_) (fun w hn => ⟨?_,rfl⟩)
    · have hw : w=who := (row_key hv).symm.trans (of_decide_eq_true hp)
      refine ⟨solvent_user hsolvent hv hp,?_⟩
      rw [shift,if_pos hw,Db.bumped,(hf v).2.1]
      omega
    · have hle := (hk.1.today w).1
      rw [Db.todayOf,hv] at hle
      simpa [Db.bumped,(hf v).2.2] using hle
    · refine if_neg (fun hw => ?_)
      subst hw
      obtain ⟨v,hv⟩ := Option.isSome_iff_exists.mp hsome
      simpa [row_key hv] using hn v hv
  · rw [user_write_isSome hwho]
    rcases List.mem_cons.mp hw with rfl | hw
    · exact hsome
    · exact hk.2 w hw

theorem payUser_mem (hw : who∈ws) (hf : ∀v,(f v).who=v.who ∧ (f v).coins=v.coins+d ∧
    (f v).todayCoins=v.todayCoins) :
    Ensures (Known ws g h) (Act.payUser who f) (fun _ => Known ws (shift g who d) h) := by
  intro s a t hs hr
  have hk := payUser_known hf s a t hs hr
  have hsome : (t.user who).isSome := by
    have hu : t=_ := payUsers_users (attempt_ok hr)
    rw [hu,user_write_isSome (f:=Db.bumped f) (fun v _ => (hf v).1)]
    exact hs.2 who hw
  exact (hk hsome).mono (fun w hmem => List.mem_cons_of_mem who hmem)

theorem payUser_keep (hf : ∀v,(f v).who=v.who ∧ (f v).coins=v.coins ∧ (f v).todayCoins=v.todayCoins)
    (hw : who∈ws) : Keeps (Known ws g h) (Act.payUser who f) := by
  have hpay := payUser_mem (g:=g) (h:=h) hw (d:=0) (fun v => by simpa using hf v)
  rwa [shift_zero] at hpay

theorem insertEntry_known {e : Entry} (hw : e.asset=.coins → e.who∈ws) :
    Ensures (Known ws g h) (Act.insertEntry e)
      (fun _ => Known ws (shift g e.who (if e.asset=.coins then -e.delta else 0))
        (shift h e.who (if e.asset=.coins ∧ e.credits then -e.delta else 0))) := by
  refine ensures_attempt (fun db db' hk hs => ?_)
  split at hs
  · cases hs
  · cases hs
    exact ⟨hk.1.post (fun hc => hk.2 _ (hw hc)),hk.2⟩

variable {reason : String}

variable {reference : Option Reference}

theorem recordCoins_known (hw : who∈ws)
    (hr : reason∉creditReasons) :
    Ensures (Known ws (shift g who d) h) (Act.recordAssetDelta who .coins d reason reference)
      (fun _ => Known ws g h) := by
  refine ensures_ite (fun hd => ensures_pure (fun db hk => ?_)) (fun _ => ?_)
  · rwa [hd,shift_zero] at hk
  · refine (insertEntry_known (fun _ => hw)).weaken (fun _ db hk => ?_)
    simpa [Entry.credits,hr,Int.add_right_neg] using hk

theorem recordOther_known {asset : Asset}
    (ha : asset≠.coins) : Keeps (Known ws g h) (Act.recordAssetDelta who asset d reason reference) := by
  refine ensures_ite (fun _ => keeps_pure) (fun _ => ?_)
  refine (insertEntry_known (fun hc => absurd hc ha)).weaken (fun _ db hk => ?_)
  simpa [ha] using hk

theorem recordCredit_known (hw : who∈ws)
    (hr : reason∈creditReasons) :
    Ensures (Known ws (shift g who d) (shift h who d)) (Act.insertEntry ⟨who,.coins,d,reason,reference⟩)
      (fun _ => Known ws g h) := by
  refine (insertEntry_known (fun _ => hw)).weaken (fun _ db hk => ?_)
  simpa [Entry.credits,hr,Int.add_right_neg] using hk

theorem earn_known {db' : Db} {u : User} {p : User → Bool} (hk : Known ws g h db)
    (hu : db.user who=some u) (hp : ∀v,p v=true → v.who=who) (hpu : p u=true)
    (hwho : ∀v,p v → (f v).who=v.who) (hlimit : (f u).todayCoins≤dailyCoinLimit)
    (hs : db.earnUsers p f=some db') :
    Known ws (shift g who ((f u).coins-u.coins)) (shift h who ((f u).todayCoins-u.todayCoins)) db' ∧
      db'.user who=some (Db.bumped f u) := by
  have hrow : ∀w v,db.user w=some v → p v=true → w=who ∧ v=u := by
    intro w v hv hpv
    have hw : w=who := (row_key hv).symm.trans (hp v hpv)
    subst hw
    exact ⟨rfl,Option.some.inj (hv.symm.trans hu)⟩
  have hcap : Db.capped (Db.bumped f u)=Db.bumped f u := if_neg (not_lt.mpr hlimit)
  have hsolvent : db.users.all (fun u => !p u || Db.solvent (f u))=true := by
    by_contra hn
    rw [Db.earnUsers,if_neg hn] at hs
    cases hs
  have hcapped : ∀v,(Db.capped v).who=v.who := fun v => by
    unfold Db.capped
    split <;> rfl
  have hwho' : ∀v,p v=true → (Db.capped (Db.bumped f v)).who=v.who :=
    fun v hv => (hcapped _).trans (hwho v hv)
  rw [earnUsers_users hs]
  refine ⟨⟨?_,fun w hw => ?_⟩,?_⟩
  · refine hk.1.write hwho' (fun w v hv hpv => ?_) (fun w v hv hpv => ?_) (fun w hn => ?_)
    · obtain ⟨rfl,rfl⟩ := hrow w v hv hpv
      refine ⟨by rw [hcap]; exact solvent_user hsolvent hu hpu,?_⟩
      rw [hcap,shift,if_pos rfl]
      change (f v).coins=_
      omega
    · obtain ⟨rfl,rfl⟩ := hrow w v hv hpv
      refine ⟨by rw [hcap]; exact hlimit,?_⟩
      rw [hcap,shift,if_pos rfl]
      change (f v).todayCoins=_
      omega
    · have hne : w≠who := by
        rintro rfl
        simpa [hpu] using hn u hu
      exact ⟨if_neg hne,if_neg hne⟩
  · rw [user_write_isSome hwho']
    exact hk.2 w hw
  · unfold Db.user at hu ⊢
    rw [row_updateWhere_of hwho',hu]
    simp [hpu,hcap]

theorem creditCoins_known {amount : Int} {reference : Reference} {zero : Bool}
    (hr : reason∈creditReasons) :
    Keeps (Known ws g h) (Act.creditCoins who amount reason reference dailyCoinLimit zero) := by
  refine fetchUser_known (fun u => ?_)
  generalize hgrant : min (max 0 amount) (max 0 (dailyCoinLimit-u.todayCoins))=grant
  have hearn : Ensures (fun db => Known (who::ws) g h db ∧ db.user who=some u)
      (Act.earnUser who (fun u => {u with coins := u.coins+grant,todayCoins := u.todayCoins+grant}))
      (fun _ => Known (who::ws) (shift g who grant) (shift h who grant)) := by
    refine ensures_attempt (fun db db' hk hs => ?_)
    have hle := (hk.1.1.today who).1
    rw [Db.todayOf,hk.2] at hle
    have hlimit : u.todayCoins+grant≤dailyCoinLimit := by
      simp only [Option.map_some,Option.getD_some] at hle
      omega
    have he := (earn_known (f:=fun u => {u with coins := u.coins+grant,todayCoins := u.todayCoins+grant})
      hk.1 hk.2 (fun v hv => of_decide_eq_true hv)
      (decide_eq_true (row_key hk.2)) (fun _ _ => rfl) hlimit hs).1
    simpa [add_sub_cancel_left] using he
  refine Ensures.bind (R:=fun _ => Known (who::ws) (shift g who grant) (shift h who grant)) ?_ (fun _ => ?_)
  · refine ensures_ite (fun _ => hearn) (fun hzero => ensures_pure (fun db hk => ?_))
    have hz : grant=0 := by simpa using hzero
    rw [hz,shift_zero,shift_zero]
    exact hk.1
  refine Ensures.bind (R:=fun _ => Known (who::ws) g h) ?_ (fun _ => ensures_pure (fun db hk => ?_))
  · refine ensures_ite (fun _ => recordCredit_known (by simp) hr) (fun hzero => ensures_pure (fun db hk => ?_))
    have hz : grant=0 := by
      by_contra hne
      exact hzero (by simp [hne])
    rwa [hz,shift_zero,shift_zero] at hk
  · exact hk.mono (fun w hw => List.mem_cons_of_mem who hw)

theorem writeUser_known {u latest : User} (hwho : u.who=latest.who) (hv : u.version=latest.version)
    (hlimit : u.todayCoins≤dailyCoinLimit) :
    Ensures (fun db => Known ws g h db ∧ db.user latest.who=some latest) (Act.writeUser u)
      (fun _ db => Known ws (shift g latest.who (u.coins-latest.coins))
        (shift h latest.who (u.todayCoins-latest.todayCoins)) db ∧
          (db.user latest.who).map User.coins=some u.coins) := by
  refine ensures_attempt (fun db db' hk hs => ?_)
  have he := earn_known hk.1 hk.2 (fun v hv => by simp_all) (by simp [hwho,hv])
    (fun v hv => by simp_all) hlimit hs
  refine ⟨he.1,?_⟩
  rw [he.2]
  rfl

end Known

end XiaoQing.QingPet
