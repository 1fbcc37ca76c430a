import Mathlib.Data.List.Dedup
import XiaoQing.Framework.Run
import XiaoQing.Framework.Rows
import XiaoQing.QingPet.AccountCalls

namespace XiaoQing.QingPet

open Framework Tx Commands

section

variable {h : Who → Int} {db : Db} {group : Int}

def Db.owners (db : Db) (group : Int) : List Who :=
  (db.ledger.map Entry.who++db.users.map User.who).dedup.filter (fun who => who.group=group && db.hasPet who)

theorem Db.mem_owners {who : Who} : who∈db.owners group ↔
    (who∈db.ledger.map Entry.who ∨ who∈db.users.map User.who) ∧ who.group=group ∧ db.hasPet who := by
  simp only [owners,List.mem_filter,List.mem_dedup,List.mem_append,Bool.and_eq_true,decide_eq_true_eq]

theorem Db.owners_nodup (db : Db) (group : Int) : (db.owners group).Nodup := (List.nodup_dedup _).filter _

theorem Db.ledgerTotal_eq : db.ledgerTotal group=((db.owners group).map db.coinSum).sum := by
  have hsum := @sum_by_key _ _ _ Entry.who (db.ledger.filter (fun e => e.asset=.coins)) _
    (db.owners_nodup group) Entry.delta
  have hinner : ∀who∈db.owners group,
      (((db.ledger.filter (fun e => e.asset=.coins)).filter (fun e => e.who=who)).map Entry.delta).sum=
        db.coinSum who := by
    intro who _
    rw [List.filter_filter]
    rfl
  rw [List.map_congr_left hinner] at hsum
  rw [hsum,List.filter_filter]
  unfold ledgerTotal
  refine congrArg (fun l => (l.map Entry.delta).sum) (List.filter_congr (fun e he => ?_))
  have hmem : e.who∈db.owners group ↔ e.who.group=group ∧ db.hasPet e.who := by
    rw [mem_owners]
    exact and_iff_right (.inl (List.mem_map_of_mem he))
  by_cases hc : e.asset=.coins <;> by_cases hw : e.who∈db.owners group <;>
    simp_all

theorem Db.totalCoins_eq (hk : UniqueKeys User.who db.users) :
    db.totalCoins group=((db.owners group).map db.coinsOf).sum := by
  have hsum := hk.sum_by_key (db.owners_nodup group) User.coins
  refine Eq.trans ?_ hsum.symm
  unfold totalCoins
  refine congrArg (fun l => (l.map User.coins).sum) (List.filter_congr (fun u hu => ?_))
  have hmem : u.who∈db.owners group ↔ u.who.group=group ∧ db.hasPet u.who := by
    rw [mem_owners]
    exact and_iff_right (.inr (List.mem_map_of_mem hu))
  by_cases hw : u.who∈db.owners group <;> simp_all

theorem Books.totalCoins (hb : Books (fun _ => 0) h db) : db.totalCoins group=db.ledgerTotal group := by
  rw [Db.totalCoins_eq hb.keys,Db.ledgerTotal_eq]
  refine congrArg List.sum (List.map_congr_left (fun who _ => ?_))
  simpa using (hb.coins who).2

end

structure Even (db : Db) : Prop where
  books : ∃h,Books (fun _ => 0) h db
  checkpoints : ∀c∈db.checkpoints,c.balance=c.ledgerTotal

theorem Even.empty : Even Db.empty := ⟨⟨_,Books.empty⟩,fun _ hc => nomatch hc⟩

theorem Even.snapshot {db db' : Db} {group : Int} {r : Reconciliation} (he : Even db)
    (hr : (Act.economySnapshot group).run db=.ok (r,db')) :
    (∀c∈db'.checkpoints,c.balance=c.ledgerTotal) ∧
      ((∃b,r=.baselineCreated b) ∨ ∃b,r=.consistent b b) := by
  obtain ⟨h,hb⟩ := he.books
  obtain ⟨balance,s1,hread,hr⟩ := bind_ok hr
  cases read_ok hread
  obtain ⟨total,s2,hread,hr⟩ := bind_ok hr
  cases read_ok hread
  obtain ⟨o,s3,hread,hr⟩ := bind_ok hr
  cases read_ok hread
  have htotal : db.totalCoins group=db.ledgerTotal group := hb.totalCoins
  cases hc : row Checkpoint.group db.checkpoints group with
  | none =>
    rw [hc] at hr
    obtain ⟨_,s4,hwrite,hpure⟩ := bind_ok hr
    cases write_ok hwrite
    cases pure_ok hpure
    refine ⟨fun c hmem => ?_,.inl ⟨_,rfl⟩⟩
    rcases List.mem_append.mp hmem with hmem | hmem
    · exact he.checkpoints c hmem
    · cases List.mem_singleton.mp hmem
      exact htotal
  | some c =>
    rw [hc] at hr
    have hc' := he.checkpoints c (mem_of_row hc)
    dsimp only at hr
    rw [if_pos (by omega)] at hr
    obtain ⟨_,s4,hwrite,hpure⟩ := bind_ok hr
    cases write_ok hwrite
    cases pure_ok hpure
    have hexpected : c.balance+(db.ledgerTotal group-c.ledgerTotal)=db.totalCoins group := by omega
    refine ⟨fun c hmem => ?_,.inr ⟨_,by rw [hexpected]⟩⟩
    obtain ⟨a,ha,rfl⟩ := mem_updateWhere hmem
    split
    · exact htotal
    · exact he.checkpoints a ha

theorem Even.call {db : Db} {now : Nat} {c : Call} (he : Even db) (hc : c.Earned) :
    Even (c.after now db) := by
  unfold Call.after
  rcases transact_cases (c.run now) db with ⟨a,t,hrun,ht⟩ | ⟨e,hrun⟩
  · rw [ht]
    obtain ⟨h,hb⟩ := he.books
    refine ⟨?_,?_⟩
    · by_cases hreset : c.isReset=true
      · cases c with
        | runDailyReset period group days => exact ⟨_,runDailyReset_books db a t hb hrun⟩
        | _ => cases hreset
      · obtain ⟨h',_,hb'⟩ := Call.run_books hc (by simpa using hreset) db a t hb hrun
        exact ⟨h',hb'⟩
    · by_cases hsnap : ∃group,c=.economySnapshot group
      · obtain ⟨group,rfl⟩ := hsnap
        obtain ⟨r,hsnapshot⟩ := discard_ok hrun
        exact (he.snapshot hsnapshot).1
      · have hw := Call.after_within now c db .checkpoints (by
          cases c <;> first | exact absurd ⟨_,rfl⟩ hsnap | simp [Call.tables])
        rw [Call.after,ht] at hw
        exact fun k hk => he.checkpoints k (hw ▸ hk)
  · rw [hrun]
    exact he

theorem Even.limit {db : Db} {who : Who} {u : User} (he : Even db) (hu : db.user who=some u) :
    u.todayCoins≤dailyCoinLimit := by
  obtain ⟨_,hb⟩ := he.books
  have hle := (hb.today who).1
  rwa [Db.todayOf,hu] at hle

def serve (db : Db) (a : Nat × Call) : Option Db := some (a.2.after a.1 db)

theorem Even.reached {db : Db} (h : Reach serve (fun _ a => a.2.Earned) (·=Db.empty) db) : Even db :=
  h.invariant (fun _ h0 => h0 ▸ Even.empty) (fun _ _ _ he hc hs => by cases hs; exact he.call hc)

/-- In every run of the service: a user's coins are the opening balance and the sum of the other
    entries, never below zero, and a snapshot is consistent with the ledger. -/
theorem coin_ledger_reconciles (db : Db)
    (h : Reach serve (fun _ a => a.2.Earned) (·=Db.empty) db) :
    (∀who u,db.user who=some u → 0≤u.coins ∧ ∃rest,
      db.coinEntries who=Entry.opening who::rest ∧
        u.coins=(Entry.opening who).delta+(rest.map Entry.delta).sum) ∧
    ∀group r db',(Act.economySnapshot group).run db=.ok (r,db') →
      (∃b,r=.baselineCreated b) ∨ ∃b,r=.consistent b b := by
  have heven := Even.reached h
  refine ⟨fun who u hu => ?_,fun group r db' hr => (heven.snapshot hr).2⟩
  obtain ⟨h',hb⟩ := heven.books
  obtain ⟨hpos,hsum⟩ := hb.coins who
  obtain ⟨rest,hrest⟩ := hb.opened who (by simp [hu])
  rw [Db.coinsOf,hu] at hpos hsum
  refine ⟨hpos,rest,hrest,?_⟩
  simpa [Db.coinSum,hrest] using hsum

def owner : Who := ⟨['u'],7⟩

def shopping : List (Nat × Call) :=
  [(0,.createUser owner),(0,.createPet (Pet.adopted owner ['p'] [] 0)),(1,.economySnapshot 7),
    (2,.purchaseItem owner "apple".toList 1 10),
    (3,.updateUser ⟨some (User.fresh owner 0),{User.fresh owner 0 with coins := 50}⟩),
    (4,.economySnapshot 7)]

theorem shopping_earned : ∀a∈shopping,a.2.Earned := by
  intro a ha
  simp only [shopping,List.mem_cons,List.not_mem_nil,or_false] at ha
  rcases ha with rfl | rfl | rfl | rfl | rfl | rfl <;> intro user hu <;> cases hu
  rfl

theorem coin_ledger_reconciles_example :
    ∃db,execute serve Db.empty shopping=some db ∧ (db.user owner).map User.coins=some 40 ∧
      ∀r db',(Act.economySnapshot 7).run db=.ok (r,db') →
        (∃b,r=.baselineCreated b) ∨ ∃b,r=.consistent b b := by
  have hrun : (execute serve Db.empty shopping).any (fun db =>
      decide ((db.user owner).map User.coins=some 40))=true := by
    decide
  obtain ⟨db,hdb,hq⟩ := (Option.any_eq_true _ _).mp hrun
  refine ⟨db,hdb,of_decide_eq_true hq,fun r db' hr => ?_⟩
  exact (coin_ledger_reconciles db
    (.execute shopping (fun a ha _ => shopping_earned a ha) (.start rfl) hdb)).2 7 r db' hr

/-- In every run of the service no user earns more in a day than the limit. -/
theorem daily_earnings_limited (db : Db)
    (h : Reach serve (fun _ a => a.2.Earned) (·=Db.empty) db) :
    ∀who u,db.user who=some u → u.todayCoins≤dailyCoinLimit :=
  fun _ _ hu => (Even.reached h).limit hu

theorem daily_earnings_limited_example :
    ∃db,execute serve Db.empty shopping=some db ∧
      ∀who u,db.user who=some u → u.todayCoins≤dailyCoinLimit := by
  have hrun : (execute serve Db.empty shopping).isSome=true := by
    decide
  obtain ⟨db,hdb⟩ := Option.isSome_iff_exists.mp hrun
  exact ⟨db,hdb,daily_earnings_limited db
    (.execute shopping (fun a ha _ => shopping_earned a ha) (.start rfl) hdb)⟩

end XiaoQing.QingPet
