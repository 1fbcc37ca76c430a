import XiaoQing.Framework.Run
import XiaoQing.QingPet.AccountCalls

namespace XiaoQing.QingPet

open Framework Tx Commands

/-! What one settlement does -/

section

variable {s t : Db} {now : Nat} {who : Who} {amount grant : Int} {reason : String}
  {reference : Reference}

theorem insertEntry_ok {e : Entry} {r : Unit × Db} (h : (Act.insertEntry e).run s=.ok r) :
    r.2={s with ledger := s.ledger++[e]} := by
  have hs := attempt_ok h
  split at hs
  · cases hs
  · exact (Option.some.inj hs).symm

theorem creditCoins_ok {limit : Int}
    (h : (Act.creditCoins who amount reason reference limit true).run s=.ok (grant,t)) :
    t.ledger=s.ledger++[⟨who,.coins,grant,reason,some reference⟩] ∧ 0≤grant := by
  obtain ⟨o,s1,hread,h1⟩ := bind_ok h
  cases read_ok hread
  obtain ⟨u,s2,hfetch,h2⟩ := bind_ok h1
  obtain ⟨hu,hs2⟩ := fetch_ok hfetch
  dsimp only at hu hs2
  subst hs2
  obtain ⟨_,s3,hearn,h3⟩ := bind_ok h2
  obtain ⟨_,s4,hinsert,hpure⟩ := bind_ok h3
  have hgrant := congrArg Prod.fst (pure_ok hpure)
  have ht : t=s4 := congrArg Prod.snd (pure_ok hpure)
  dsimp only at hgrant
  rw [← hgrant] at hearn hinsert
  have hledger : s3.ledger=s2.ledger := by
    have hm : Only [.users] (onlyIf (decide (grant≠0)) (Act.earnUser who
        (fun u => {u with coins := u.coins+grant,todayCoins := u.todayCoins+grant}))) :=
      Only.onlyIf (earnUser_only (by decide))
    exact hm.run hearn .ledger (by decide)
  rw [Bool.or_true] at hinsert
  have hs4 : s4=_ := insertEntry_ok hinsert
  rw [ht,hs4,← hledger]
  exact ⟨rfl,by omega⟩

theorem creditCoins_within {limit : Int} {zero : Bool}
    (h : (Act.creditCoins who amount reason reference limit zero).run s=.ok (grant,t)) :
    Db.Within [.users,.ledger] s t := Only.run (creditCoins_only (by decide) (by decide)) h

structure FreshMinigame (c : MinigameCall) (s t : Db) (m : Minigame) : Prop where
  unsettled : row Minigame.reference s.minigames c.reference=none
  reference : m.reference=c.reference
  same : Act.sameMinigame c m=true
  named : blankText m.reference=false
  opponent : m.opponent=[] ∨ m.opponent≠m.who.user
  grants : 0 ≤ m.coinGrant ∧ 0 ≤ m.experienceGrant
  table : t.minigames=s.minigames++[m]
  ledger : t.ledger=s.ledger++[⟨m.who,.coins,m.coinGrant,"minigame",some (.minigame m.reference)⟩]
  pets : ∃p,s.petOf m.who=some p ∧
    t.pets=updateWhere (fun r => r.id=p.id && decide (m.energyCost≤r.stat .energy)) (fun r =>
      {r with
        experience := r.experience+m.experienceGrant
        stat := fun x => if x=.energy then r.stat x-m.energyCost else r.stat x
        version := r.version+1}) s.pets

theorem settleFresh_ok {c : MinigameCall} {p : Pet} {other : Option Pet} {m : Minigame}
    (hnone : row Minigame.reference s.minigames c.reference=none)
    (hnamed : blankText c.reference=false) (hopponent : c.opponent=[] ∨ c.opponent≠c.who.user)
    (hp : s.petOf c.who=some p) (h : (Act.settleFresh now c p other).run s=.ok (m,t)) :
    FreshMinigame c s t m := by
  obtain ⟨_,s1,hcheck,h1⟩ := bind_ok h
  cases (require_ok hcheck).2
  obtain ⟨_,s2,hcool,h2⟩ := bind_ok h1
  cases write_ok hcool
  obtain ⟨coins,s3,hcredit,h3⟩ := bind_ok h2
  obtain ⟨hledger,hpos⟩ := creditCoins_ok hcredit
  have hkept := creditCoins_within hcredit
  obtain ⟨_,s4,hpets,h4⟩ := bind_ok h3
  cases write_ok hpets
  obtain ⟨_,s5,htable,hpure⟩ := bind_ok h4
  cases write_ok htable
  cases pure_ok hpure
  have hsame : Act.sameMinigame c ⟨c.reference,c.who,c.game,c.opponent,p.name,(other.map Pet.name).getD [],
      coins,max 0 (c.outcome p other).experience,max 0 (c.outcome p other).energyCost,
        (c.outcome p other).payload⟩=true := by
    simp [Act.sameMinigame]
  refine ⟨hnone,rfl,hsame,hnamed,hopponent,⟨hpos,le_max_left _ _⟩,?_,hledger,p,hp,?_⟩
  · rw [← show s3.minigames=s.minigames from hkept .minigames (by decide)]
  · rw [← show s3.pets=s.pets from (hkept .pets (by decide)).1]

theorem check_ok {b : Bool} {text : String} {r : Unit × Db} (h : (Act.check b text).run s=.ok r) :
    b=true ∧ r=((),s) := require_ok h

theorem opponentPet_ok {opponent : Text} {group : Int} {o : Option Pet}
    (h : (Act.opponentPet opponent group).run s=.ok (o,t)) : t=s := by
  unfold Act.opponentPet at h
  split at h
  · exact congrArg Prod.snd (pure_ok h)
  obtain ⟨u,s1,hread,h1⟩ := bind_ok h
  cases read_ok hread
  obtain ⟨_,s2,hcheck,h2⟩ := bind_ok h1
  cases (check_ok hcheck).2
  obtain ⟨q,s3,hpet,h3⟩ := bind_ok h2
  cases read_ok hpet
  obtain ⟨p,s4,hfetch,h4⟩ := bind_ok h3
  obtain ⟨_,hs4⟩ := fetch_ok hfetch
  dsimp only at hs4
  subst hs4
  obtain ⟨_,s5,hcan,hpure⟩ := bind_ok h4
  cases (check_ok hcan).2
  exact congrArg Prod.snd (pure_ok hpure)

theorem settleMinigame_ok {c : MinigameCall} {r : Settled Minigame}
    (h : (Act.settleMinigame now c).run s=.ok (r,t)) :
    (r.duplicate=true ∧ t=s ∧ row Minigame.reference s.minigames c.reference=some r.row ∧
      Act.sameMinigame c r.row=true) ∨ (r.duplicate=false ∧ FreshMinigame c s t r.row) := by
  obtain ⟨_,s1,hcheck1,h1⟩ := bind_ok h
  obtain ⟨hnamed,hs1⟩ := check_ok hcheck1
  cases hs1
  obtain ⟨_,s2,hcheck2,h2⟩ := bind_ok h1
  obtain ⟨hopponent,hs2⟩ := check_ok hcheck2
  cases hs2
  obtain ⟨o,s3,hread,h3⟩ := bind_ok h2
  cases read_ok hread
  cases hrow : row Minigame.reference s.minigames c.reference with
  | some prior =>
    rw [hrow] at h3
    obtain ⟨_,s4,hcheck,hpure⟩ := bind_ok h3
    obtain ⟨hsame,hs4⟩ := check_ok hcheck
    cases hs4
    cases pure_ok hpure
    exact .inl ⟨rfl,rfl,rfl,hsame⟩
  | none =>
    rw [hrow] at h3
    obtain ⟨u,s4,hread,h4⟩ := bind_ok h3
    cases read_ok hread
    obtain ⟨_,s5,hcheck,h5⟩ := bind_ok h4
    cases (check_ok hcheck).2
    obtain ⟨q,s6,hpet,h6⟩ := bind_ok h5
    cases read_ok hpet
    obtain ⟨p,s7,hfetch,h7⟩ := bind_ok h6
    obtain ⟨hp,hs7⟩ := fetch_ok hfetch
    dsimp only at hp hs7
    subst hs7
    obtain ⟨_,s8,hcheck,h8⟩ := bind_ok h7
    cases (check_ok hcheck).2
    obtain ⟨other,s9,hother,h9⟩ := bind_ok h8
    cases opponentPet_ok hother
    obtain ⟨_,s10,hcheck,h10⟩ := bind_ok h9
    cases (check_ok hcheck).2
    obtain ⟨cool,s11,hread,h11⟩ := bind_ok h10
    cases read_ok hread
    obtain ⟨_,s12,hcheck,h12⟩ := bind_ok h11
    cases (check_ok hcheck).2
    obtain ⟨m,s13,hfresh,hpure⟩ := bind_ok h12
    cases pure_ok hpure
    exact .inr ⟨rfl,settleFresh_ok hrow (by simpa using hnamed) (by simpa using hopponent) hp hfresh⟩

structure FreshVisit (c : VisitCall) (s t : Db) (v : Visit) : Prop where
  unsettled : row Visit.reference s.visits c.reference=none
  reference : v.reference=c.reference
  same : Act.sameVisit c v=true
  named : v.reference≠[]
  distinct : v.visitor≠v.target
  grants : 0≤v.visitorGrant ∧ 0≤v.targetGrant
  table : t.visits=s.visits++[v]
  ledger : t.ledger=s.ledger++
    [⟨⟨v.visitor,v.group⟩,.coins,v.visitorGrant,"pet_visit_visitor",some (.visitor v.reference)⟩,
      ⟨⟨v.target,v.group⟩,.coins,v.targetGrant,"pet_visit_target",some (.target v.reference)⟩]
  pets : ∃p,s.petOf ⟨v.target,v.group⟩=some p ∧ t.pets=updateWhere (fun r => r.id=p.id) (fun r =>
    {r with intimacy := r.intimacy+v.intimacyGrant,version := r.version+1}) s.pets

variable {v : Visit}

theorem visitFresh_ok {c : VisitCall} {p : Pet}
    (hnone : row Visit.reference s.visits c.reference=none) (hnamed : c.reference≠[])
    (hdistinct : c.visitor≠c.target) (hp : s.petOf ⟨c.target,c.group⟩=some p)
    (h : (Act.visitFresh now c p).run s=.ok (v,t)) : FreshVisit c s t v := by
  obtain ⟨_,s1,htouch,h1⟩ := bind_ok h
  cases write_ok htouch
  obtain ⟨_,s2,hpets,h2⟩ := bind_ok h1
  cases write_ok hpets
  obtain ⟨first,s3,hfirst,h3⟩ := bind_ok h2
  obtain ⟨hledger1,hpos1⟩ := creditCoins_ok hfirst
  have hkept1 := creditCoins_within hfirst
  obtain ⟨second',s4,hsecond,h4⟩ := bind_ok h3
  obtain ⟨hledger2,hpos2⟩ := creditCoins_ok hsecond
  have hkept2 := creditCoins_within hsecond
  obtain ⟨_,s5,htask,h5⟩ := bind_ok h4
  have hkept3 : Db.Within [.tasks] s4 s5 := (incrementTask_only (by decide)).run htask
  obtain ⟨_,s6,htable,hpure⟩ := bind_ok h5
  cases write_ok htable
  cases pure_ok hpure
  have hvisits : s5.visits=s.visits :=
    (hkept3 .visits (by decide)).trans ((hkept2 .visits (by decide)).trans (hkept1 .visits (by decide)))
  have hpets : s5.pets=updateWhere (fun r => r.id=p.id)
      (fun r => {r with intimacy := r.intimacy+1,version := r.version+1}) s.pets :=
    (hkept3 .pets (by decide)).1.trans ((hkept2 .pets (by decide)).1.trans (hkept1 .pets (by decide)).1)
  have hledger : s5.ledger=s4.ledger := hkept3 .ledger (by decide)
  refine ⟨hnone,rfl,by simp [Act.sameVisit],hnamed,hdistinct,⟨hpos1,hpos2⟩,?_,?_,p,hp,hpets⟩
  · rw [← hvisits]
  · change s5.ledger=_
    rw [hledger,hledger2,hledger1,List.append_assoc]
    rfl

theorem FreshVisit.congr {c : VisitCall} {u : Db} (h : FreshVisit c u t v)
    (hl : u.ledger=s.ledger) (hp : u.pets=s.pets) (hv : u.visits=s.visits) : FreshVisit c s t v := by
  obtain ⟨hnone,href,hsame,hnamed,hdistinct,hgrants,htable,hledger,p,hpet,hpets⟩ := h
  rw [hv] at hnone htable
  rw [hl] at hledger
  rw [hp] at hpets
  rw [Db.petOf,hp] at hpet
  exact ⟨hnone,href,hsame,hnamed,hdistinct,hgrants,htable,hledger,p,hpet,hpets⟩

theorem visitPet_ok {c : VisitCall} {r : Settled Visit} (h : (Act.visitPet now c).run s=.ok (r,t)) :
    (r.duplicate=true ∧ t=s ∧ row Visit.reference s.visits c.reference=some r.row ∧
      Act.sameVisit c r.row=true) ∨
    (r.duplicate=false ∧ FreshVisit c s t r.row) := by
  obtain ⟨_,s1,hcheck1,h1⟩ := bind_ok h
  obtain ⟨hdistinct,hs1⟩ := check_ok hcheck1
  cases hs1
  obtain ⟨_,s2,hcheck2,h2⟩ := bind_ok h1
  obtain ⟨hnamed,hs2⟩ := check_ok hcheck2
  cases hs2
  obtain ⟨o,s3,hread,h3⟩ := bind_ok h2
  cases read_ok hread
  cases hrow : row Visit.reference s.visits c.reference with
  | some prior =>
    rw [hrow] at h3
    obtain ⟨_,s4,hcheck,hpure⟩ := bind_ok h3
    obtain ⟨hsame,hs4⟩ := check_ok hcheck
    cases hs4
    cases pure_ok hpure
    exact .inl ⟨rfl,rfl,rfl,hsame⟩
  | none =>
    rw [hrow] at h3
    obtain ⟨a,s4,hread,h4⟩ := bind_ok h3
    cases read_ok hread
    obtain ⟨u,s5,hfetch,h5⟩ := bind_ok h4
    obtain ⟨_,hs5⟩ := fetch_ok hfetch
    dsimp only at hs5
    subst hs5
    obtain ⟨b,s6,hread,h6⟩ := bind_ok h5
    cases read_ok hread
    obtain ⟨_,s7,hcheck,h7⟩ := bind_ok h6
    cases (check_ok hcheck).2
    obtain ⟨q,s8,hpet,h8⟩ := bind_ok h7
    cases read_ok hpet
    obtain ⟨p,s9,hfetch,h9⟩ := bind_ok h8
    obtain ⟨hp,hs9⟩ := fetch_ok hfetch
    dsimp only at hp hs9
    subst hs9
    obtain ⟨_,s10,hcheck,h10⟩ := bind_ok h9
    cases (check_ok hcheck).2
    obtain ⟨_,s11,hcheck,h11⟩ := bind_ok h10
    cases (check_ok hcheck).2
    obtain ⟨_,s12,hcheck,h12⟩ := bind_ok h11
    cases (check_ok hcheck).2
    obtain ⟨quota,s13,hquota,h13⟩ := bind_ok h12
    have hkept : Db.Within [.quotas] _ s13 := (claimActionQuota_only (by decide)).run hquota
    rcases quota with (_ | w) | _
    · exact (throw_ok h13).elim
    · exact (throw_ok h13).elim
    obtain ⟨v,s14,hfresh,hpure⟩ := bind_ok h13
    cases pure_ok hpure
    have hvisits := hkept .visits (by decide)
    have hpets := (hkept .pets (by decide)).1
    have hpet : s13.petOf ⟨c.target,c.group⟩=some p := by
      rw [Db.petOf,hpets]
      exact hp
    have hv : FreshVisit c s13 t v :=
      visitFresh_ok (by rw [hvisits]; exact hrow) (by simpa using hnamed) (by simpa using hdistinct)
        hpet hfresh
    exact .inr ⟨rfl,hv.congr (hkept .ledger (by decide)) hpets hvisits⟩

/-! Repeated calls -/

theorem settleMinigame_repeat {c : MinigameCall} {m : Minigame}
    (hrow : row Minigame.reference s.minigames c.reference=some m) (hnamed : blankText c.reference=false)
    (hopponent : c.opponent=[] ∨ c.opponent≠c.who.user) (hsame : Act.sameMinigame c m=true) :
    transact (Act.settleMinigame now c) s=(.ok ⟨m,true⟩,s) := by
  refine transact_ok ?_
  unfold Act.settleMinigame Act.check
  rw [run_require_bind (by simp [hnamed]),run_require_bind (by simpa using hopponent),run_read_bind,hrow]
  dsimp only
  rw [run_require_bind hsame]
  rfl

theorem settleMinigame_reuse {c : MinigameCall} {m : Minigame}
    (hrow : row Minigame.reference s.minigames c.reference=some m) (hdiff : Act.sameMinigame c m=false) :
    ∃text,transact (Act.settleMinigame now c) s=(.error (.refused text),s) := by
  have hrun : ∃text,(Act.settleMinigame now c).run s=.error (.refused text) := by
    unfold Act.settleMinigame Act.check
    by_cases hnamed : (!blankText c.reference)=true
    · by_cases hopponent : (decide (c.opponent=[]) || decide (c.opponent≠c.who.user))=true
      · rw [run_require_bind hnamed,run_require_bind hopponent,run_read_bind,hrow]
        dsimp only
        rw [run_require_fails hdiff]
        exact ⟨_,rfl⟩
      · rw [run_require_bind hnamed,run_require_fails (by simpa using hopponent)]
        exact ⟨_,rfl⟩
    · rw [run_require_fails (by simpa using hnamed)]
      exact ⟨_,rfl⟩
  obtain ⟨text,hrun⟩ := hrun
  exact ⟨text,by rw [transact,hrun]⟩

theorem visitPet_repeat {c : VisitCall}
    (hrow : row Visit.reference s.visits c.reference=some v) (hnamed : c.reference≠[])
    (hdistinct : c.visitor≠c.target) (hsame : Act.sameVisit c v=true) :
    transact (Act.visitPet now c) s=(.ok ⟨v,true⟩,s) := by
  refine transact_ok ?_
  unfold Act.visitPet Act.check
  rw [run_require_bind (by simpa using hdistinct),run_require_bind (by simpa using hnamed),run_read_bind,
    hrow]
  dsimp only
  rw [run_require_bind hsame]
  rfl

theorem visitPet_reuse {c : VisitCall}
    (hrow : row Visit.reference s.visits c.reference=some v) (hdiff : Act.sameVisit c v=false) :
    ∃text,transact (Act.visitPet now c) s=(.error (.refused text),s) := by
  have hrun : ∃text,(Act.visitPet now c).run s=.error (.refused text) := by
    unfold Act.visitPet Act.check
    by_cases hdistinct : decide (c.visitor≠c.target)=true
    · by_cases hnamed : decide (c.reference≠[])=true
      · rw [run_require_bind hdistinct,run_require_bind hnamed,run_read_bind,hrow]
        dsimp only
        rw [run_require_fails hdiff]
        exact ⟨_,rfl⟩
      · rw [run_require_bind hdistinct,run_require_fails (by simpa using hnamed)]
        exact ⟨_,rfl⟩
    · rw [run_require_fails (by simpa using hdistinct)]
      exact ⟨_,rfl⟩
  obtain ⟨text,hrun⟩ := hrun
  exact ⟨text,by rw [transact,hrun]⟩

end

/-! Runs -/

/-- The tables, with the settlements made in order and the coins credited since the last daily reset. -/
structure Settlements where
  db : Db
  minigames : List Minigame
  visits : List Visit
  earned : Who → Int

namespace Settlements

def start : Settlements := ⟨Db.empty,[],[],fun _ => 0⟩

def settled {α : Type} : Except Failure (Settled α) × Db → List α
  | (.ok ⟨row,false⟩,_) => [row]
  | _ => []

def minigameOf (now : Nat) (db : Db) : Call → List Minigame
  | .settleMinigame c => settled (transact (Act.settleMinigame now c) db)
  | _ => []

def visitOf (now : Nat) (db : Db) : Call → List Visit
  | .visitPet c => settled (transact (Act.visitPet now c) db)
  | _ => []

def resets (now : Nat) (db : Db) (group : Int) (c : Call) : Bool :=
  match c,(transact (c.run now) db).1 with
  | .runDailyReset _ g _,.ok _ => g=group
  | _,_ => false

def step (s : Settlements) : Nat × Call → Option Settlements
  | (now,c) => some
    {db := c.after now s.db
     minigames := s.minigames++minigameOf now s.db c
     visits := s.visits++visitOf now s.db c
     earned := fun who =>
      if resets now s.db who.group c then 0
      else s.earned who+((c.after now s.db).creditSum who-s.db.creditSum who)}

structure Sound (s : Settlements) : Prop where
  books : ∃h,Books (fun _ => 0) h s.db ∧ ∀who,s.earned who=s.db.creditSum who+h who
  minigames : s.db.minigames=s.minigames
  visits : s.db.visits=s.visits
  games : UniqueKeys Minigame.reference s.minigames
  calls : UniqueKeys Visit.reference s.visits
  played : ∀m∈s.minigames,blankText m.reference=false ∧ (m.opponent=[] ∨ m.opponent≠m.who.user)
  visited : ∀v∈s.visits,v.reference≠[] ∧ v.visitor≠v.target

section

variable {now : Nat} {db : Db} {c : Call}

theorem minigameOf_cases (now : Nat) (db : Db) (c : Call) : (minigameOf now db c=[] ∧ (c.after now db).minigames=db.minigames) ∨
    ∃k m,minigameOf now db c=[m] ∧ FreshMinigame k db (c.after now db) m := by
  by_cases hc : ∃k,c=.settleMinigame k
  · obtain ⟨k,rfl⟩ := hc
    have hafter : (Call.settleMinigame k).after now db=(transact (Act.settleMinigame now k) db).2 :=
      transact_discard _ _
    have hof : minigameOf now db (.settleMinigame k)=settled (transact (Act.settleMinigame now k) db) := rfl
    rcases transact_cases (Act.settleMinigame now k) db with ⟨⟨m,dup⟩,t,hrun,ht⟩ | ⟨e,he⟩
    · rw [hafter,hof,ht]
      rcases settleMinigame_ok hrun with ⟨rfl,rfl,_⟩ | ⟨rfl,hfresh⟩
      · exact .inl ⟨rfl,rfl⟩
      · exact .inr ⟨k,m,rfl,hfresh⟩
    · rw [hafter,hof,he]
      exact .inl ⟨rfl,rfl⟩
  · have hw := Call.after_within now c db .minigames (by
      cases c <;> first | exact absurd ⟨_,rfl⟩ hc | simp [Call.tables])
    refine .inl ⟨?_,hw⟩
    cases c <;> first | exact absurd ⟨_,rfl⟩ hc | rfl

theorem visitOf_cases (now : Nat) (db : Db) (c : Call) : (visitOf now db c=[] ∧ (c.after now db).visits=db.visits) ∨
    ∃k v,visitOf now db c=[v] ∧ FreshVisit k db (c.after now db) v := by
  by_cases hc : ∃k,c=.visitPet k
  · obtain ⟨k,rfl⟩ := hc
    have hafter : (Call.visitPet k).after now db=(transact (Act.visitPet now k) db).2 :=
      transact_discard _ _
    have hof : visitOf now db (.visitPet k)=settled (transact (Act.visitPet now k) db) := rfl
    rcases transact_cases (Act.visitPet now k) db with ⟨⟨v,dup⟩,t,hrun,ht⟩ | ⟨e,he⟩
    · rw [hafter,hof,ht]
      rcases visitPet_ok hrun with ⟨rfl,rfl,_⟩ | ⟨rfl,hfresh⟩
      · exact .inl ⟨rfl,rfl⟩
      · exact .inr ⟨k,v,rfl,hfresh⟩
    · rw [hafter,hof,he]
      exact .inl ⟨rfl,rfl⟩
  · have hw := Call.after_within now c db .visits (by
      cases c <;> first | exact absurd ⟨_,rfl⟩ hc | simp [Call.tables])
    refine .inl ⟨?_,hw⟩
    cases c <;> first | exact absurd ⟨_,rfl⟩ hc | rfl

theorem Sound.step_books {s : Settlements} {h : Who → Int} (hb : Books (fun _ => 0) h s.db)
    (he : ∀who,s.earned who=s.db.creditSum who+h who) (hc : c.Earned ∧ c.Read) :
    ∃h',Books (fun _ => 0) h' (c.after now s.db) ∧ ∀who,
      (if resets now s.db who.group c then 0
        else s.earned who+((c.after now s.db).creditSum who-s.db.creditSum who))=
          (c.after now s.db).creditSum who+h' who := by
  rcases transact_cases (c.run now) s.db with ⟨a,t,hrun,ht⟩ | ⟨e,herror⟩
  · have hafter : c.after now s.db=t := by rw [Call.after,ht]
    rw [hafter]
    by_cases hr : c.isReset=true
    · cases c with
      | runDailyReset period group days =>
        refine ⟨_,runDailyReset_books s.db a t hb hrun,fun who => ?_⟩
        have hreset : resets now s.db who.group (.runDailyReset period group days)=
            decide (group=who.group) := by
          unfold resets
          rw [ht]
        have hledger : t.creditSum who=s.db.creditSum who := by
          have hw := Call.after_within now (.runDailyReset period group days) s.db .ledger
            (by simp [Call.tables])
          rw [hafter] at hw
          rw [Db.creditSum,Db.coinEntries,show t.ledger=s.db.ledger from hw]
          rfl
        have hearned := he who
        rw [hreset,renew]
        by_cases hg : who.group=group
        · simp [hg]
        · simp [hg,eq_comm (a:=group)]
          omega
      | _ => cases hr
    · have hnone : ∀group,resets now s.db group c=false := by
        intro group
        unfold resets
        cases c <;> first | rfl | exact absurd rfl hr
      obtain ⟨h',hsame,hb'⟩ := Call.run_books hc.1 (by simpa using hr) s.db a t hb hrun
      rw [hsame hc.2] at hb'
      refine ⟨h,hb',fun who => ?_⟩
      have hearned := he who
      rw [hnone]
      simp only [Bool.false_eq_true,if_false]
      omega
  · have hafter : c.after now s.db=s.db := by rw [Call.after,herror]
    have hnone : ∀group,resets now s.db group c=false := by
      intro group
      unfold resets
      rw [herror]
      cases c <;> rfl
    rw [hafter]
    refine ⟨h,hb,fun who => ?_⟩
    have hearned := he who
    rw [hnone]
    simp only [Bool.false_eq_true,if_false]
    omega

theorem Sound.step_minigames {s : Settlements} (hs : Sound s) (now : Nat) (c : Call) :
    (c.after now s.db).minigames=s.minigames++minigameOf now s.db c ∧
    UniqueKeys Minigame.reference (s.minigames++minigameOf now s.db c) ∧
    ∀m∈s.minigames++minigameOf now s.db c,
      blankText m.reference=false ∧ (m.opponent=[] ∨ m.opponent≠m.who.user) := by
  rcases minigameOf_cases now s.db c with ⟨hnone,hsame⟩ | ⟨k,m,hone,hf⟩
  · rw [hnone,List.append_nil]
    exact ⟨hsame.trans hs.minigames,hs.games,hs.played⟩
  · rw [hone]
    have hunsettled := hf.unsettled
    rw [hs.minigames,← hf.reference] at hunsettled
    refine ⟨by rw [hf.table,hs.minigames],hs.games.append (row_eq_none hunsettled),fun n hn => ?_⟩
    rcases List.mem_append.mp hn with hn | hn
    · exact hs.played n hn
    · cases List.mem_singleton.mp hn
      exact ⟨hf.named,hf.opponent⟩

theorem Sound.step_visits {s : Settlements} (hs : Sound s) (now : Nat) (c : Call) :
    (c.after now s.db).visits=s.visits++visitOf now s.db c ∧
    UniqueKeys Visit.reference (s.visits++visitOf now s.db c) ∧
    ∀v∈s.visits++visitOf now s.db c,v.reference≠[] ∧ v.visitor≠v.target := by
  rcases visitOf_cases now s.db c with ⟨hnone,hsame⟩ | ⟨k,v,hone,hf⟩
  · rw [hnone,List.append_nil]
    exact ⟨hsame.trans hs.visits,hs.calls,hs.visited⟩
  · rw [hone]
    have hunsettled := hf.unsettled
    rw [hs.visits,← hf.reference] at hunsettled
    refine ⟨by rw [hf.table,hs.visits],hs.calls.append (row_eq_none hunsettled),fun n hn => ?_⟩
    rcases List.mem_append.mp hn with hn | hn
    · exact hs.visited n hn
    · cases List.mem_singleton.mp hn
      exact ⟨hf.named,hf.distinct⟩

theorem step_sound {s t : Settlements} (hs : Sound s) (hc : c.Earned ∧ c.Read)
    (hstep : s.step (now,c)=some t) : Sound t := by
  cases hstep
  obtain ⟨h,hb,he⟩ := hs.books
  obtain ⟨hgames,hkeys,hplayed⟩ := hs.step_minigames now c
  obtain ⟨hvisits,hcalls,hvisited⟩ := hs.step_visits now c
  exact ⟨Sound.step_books hb he hc,hgames,hvisits,hkeys,hcalls,hplayed,hvisited⟩

theorem start_sound : Sound start :=
  ⟨⟨_,Books.empty,fun _ => rfl⟩,rfl,rfl,List.nodup_nil,List.nodup_nil,(fun _ h => nomatch h),
    fun _ h => nomatch h⟩

end

/-- The service, its drafts read and with what was earned today left as read. -/
def Served (_ : Settlements) (a : Nat × Call) : Prop := a.2.Earned ∧ a.2.Read

theorem reach_sound {s : Settlements} (h : Reach step Served (·=start) s) : Sound s :=
  h.invariant (fun _ h0 => h0 ▸ start_sound) (fun _ _ _ hs hc hstep => step_sound hs hc hstep)

end Settlements

def Paid (s t : Db) (gain : Who → Int) : Prop := ∀who,t.coinsOf who=s.coinsOf who+gain who

theorem Books.paid {h h' : Who → Int} {s t : Db} {es : List Entry} (hs : Books (fun _ => 0) h s)
    (ht : Books (fun _ => 0) h' t) (hl : t.ledger=s.ledger++es) :
    Paid s t (fun who => ((es.filter (Entry.ofCoins who)).map Entry.delta).sum) := by
  intro who
  rw [(ht.coins who).2,(hs.coins who).2,Db.coinSum,Db.coinEntries,hl,List.filter_append,List.map_append,
    List.sum_append]
  unfold Db.coinSum Db.coinEntries
  dsimp only
  omega

def MinigamePaid (c : MinigameCall) (s t : Db) (m : Minigame) : Prop :=
  FreshMinigame c s t m ∧ Paid s t (fun who => if who=m.who then m.coinGrant else 0)

def VisitPaid (c : VisitCall) (s t : Db) (v : Visit) : Prop :=
  FreshVisit c s t v ∧ Paid s t (fun who =>
    if who=⟨v.visitor,v.group⟩ then v.visitorGrant
    else if who=⟨v.target,v.group⟩ then v.targetGrant else 0)

/-- Calls of one kind settle a reference once: a repeated one answers with the settlement, one of
    other parties is refused, neither has an effect; a first one has the effects of its row; and one
    that fails leaves the tables. -/
structure SettlesOnce {α κ : Type} (rows : List α) (reference : α → Text) (call : κ → Act (Settled α))
    (referenceOf : κ → Text) (same : κ → α → Bool) (effects : κ → Db → Db → α → Prop) (db : Db) :
    Prop where
  once : (rows.map reference).Nodup
  repeated : ∀c,∀m∈rows,reference m=referenceOf c → same c m=true →
    transact (call c) db=(.ok ⟨m,true⟩,db)
  reused : ∀c,∀m∈rows,reference m=referenceOf c → same c m=false →
    ∃text,transact (call c) db=(.error (.refused text),db)
  first : ∀c m t,transact (call c) db=(.ok ⟨m,false⟩,t) → (∀n∈rows,reference n≠reference m) ∧
    effects c db t m
  failed : ∀c e t,transact (call c) db=(.error e,t) → t=db

namespace Settlements

theorem Sound.settles_minigames {s : Settlements} (hs : Sound s) (now : Nat) :
    SettlesOnce s.minigames Minigame.reference (Act.settleMinigame now) MinigameCall.reference
      Act.sameMinigame MinigamePaid s.db := by
  have hrow : ∀c m,m∈s.minigames → m.reference=MinigameCall.reference c →
      row Minigame.reference s.db.minigames c.reference=some m := by
    intro c m hm he
    rw [hs.minigames,← he]
    exact hs.games.row_of_mem hm
  refine ⟨hs.games,fun c m hm he hsame => ?_,fun c m hm he => settleMinigame_reuse (hrow c m hm he),
    fun c m t ht => ?_,fun c e t ht => ?_⟩
  · obtain ⟨hnamed,hopponent⟩ := hs.played m hm
    have hparts : m.who=c.who ∧ m.game=c.game ∧ m.opponent=c.opponent := by
      simpa [Act.sameMinigame,and_assoc] using hsame
    rw [he] at hnamed
    rw [hparts.1,hparts.2.2] at hopponent
    exact settleMinigame_repeat (hrow c m hm he) hnamed hopponent hsame
  · have hrun : (Act.settleMinigame now c).run s.db=.ok (⟨m,false⟩,t) := run_of_transact ht
    have hf : FreshMinigame c s.db t m := by
      rcases settleMinigame_ok hrun with ⟨hdup,_⟩ | ⟨_,hf⟩
      · cases hdup
      · exact hf
    have hunsettled := hf.unsettled
    rw [hs.minigames,← hf.reference] at hunsettled
    obtain ⟨h,hb,_⟩ := hs.books
    have hb' := settleMinigame_known s.db _ t (known_nil.mpr hb) hrun
    refine ⟨row_eq_none hunsettled,hf,fun who => ?_⟩
    rw [hb.paid hb'.1 hf.ledger who]
    by_cases hw : who=m.who <;> simp [Entry.ofCoins,hw,eq_comm (a:=m.who)]
  · have herror := transact_error (m:=Act.settleMinigame now c) (s:=s.db) (by rw [ht])
    rwa [ht] at herror

theorem Sound.settles_visits {s : Settlements} (hs : Sound s) (now : Nat) :
    SettlesOnce s.visits Visit.reference (Act.visitPet now) VisitCall.reference
      Act.sameVisit VisitPaid s.db := by
  have hrow : ∀c v,v∈s.visits → v.reference=VisitCall.reference c →
      row Visit.reference s.db.visits c.reference=some v := by
    intro c v hv he
    rw [hs.visits,← he]
    exact hs.calls.row_of_mem hv
  refine ⟨hs.calls,fun c v hv he hsame => ?_,fun c v hv he => visitPet_reuse (hrow c v hv he),
    fun c v t ht => ?_,fun c e t ht => ?_⟩
  · obtain ⟨hnamed,hdistinct⟩ := hs.visited v hv
    have hparts : v.visitor=c.visitor ∧ v.target=c.target ∧ v.group=c.group := by
      simpa [Act.sameVisit,and_assoc] using hsame
    rw [he] at hnamed
    rw [hparts.1,hparts.2.1] at hdistinct
    exact visitPet_repeat (hrow c v hv he) hnamed hdistinct hsame
  · have hrun : (Act.visitPet now c).run s.db=.ok (⟨v,false⟩,t) := run_of_transact ht
    have hf : FreshVisit c s.db t v := by
      rcases visitPet_ok hrun with ⟨hdup,_⟩ | ⟨_,hf⟩
      · cases hdup
      · exact hf
    have hunsettled := hf.unsettled
    rw [hs.visits,← hf.reference] at hunsettled
    obtain ⟨h,hb,_⟩ := hs.books
    have hb' := visitPet_known s.db _ t (known_nil.mpr hb) hrun
    refine ⟨row_eq_none hunsettled,hf,fun who => ?_⟩
    rw [hb.paid hb'.1 hf.ledger who]
    have hne : (⟨v.visitor,v.group⟩ : Who)≠⟨v.target,v.group⟩ := fun he => hf.distinct (congrArg Who.user he)
    by_cases hv : who=⟨v.visitor,v.group⟩
    · simp [Entry.ofCoins,hv,hf.distinct.symm]
    · by_cases ht : who=⟨v.target,v.group⟩
      · simp [Entry.ofCoins,ht,hf.distinct,hf.distinct.symm]
      · simp [Entry.ofCoins,Ne.symm hv,Ne.symm ht,hv,ht]
  · have herror := transact_error (m:=Act.visitPet now c) (s:=s.db) (by rw [ht])
    rwa [ht] at herror

theorem Sound.earned_le {s : Settlements} (hs : Sound s) (who : Who) : s.earned who≤dailyCoinLimit := by
  obtain ⟨h,hb,he⟩ := hs.books
  obtain ⟨hle,hsum⟩ := hb.today who
  rw [he who,← hsum]
  exact hle

end Settlements

open Settlements in
/-- In every run of the service, the minigames settle a reference once, and so do the visits; the
    settled rows are those of the tables; and the coins credited to a user between two daily resets
    stay within the limit. -/
theorem settlements_once (s : Settlements) (h : Reach step Served (·=start) s) :
    (∀now,SettlesOnce s.minigames Minigame.reference (Act.settleMinigame now) MinigameCall.reference
      Act.sameMinigame MinigamePaid s.db) ∧
    (∀now,SettlesOnce s.visits Visit.reference (Act.visitPet now) VisitCall.reference Act.sameVisit
      VisitPaid s.db) ∧
    s.db.minigames=s.minigames ∧ s.db.visits=s.visits ∧ ∀who,s.earned who≤dailyCoinLimit := by
  have hs := reach_sound h
  exact ⟨hs.settles_minigames,hs.settles_visits,hs.minigames,hs.visits,hs.earned_le⟩

/-! Two players -/

def player (user : Char) : Who := ⟨[user],7⟩

def playing : MinigameCall := ⟨player 'a',"race".toList,['r'],60,[],0,fun _ _ => ⟨10,5,1,[]⟩⟩

def visiting : VisitCall := ⟨['a'],['b'],7,5,3,60,['r']⟩

/-- Two players with pets; a game, its repetition, and a visit under the same reference. -/
def reusedReference : List (Nat × Call) :=
  [(0,.createUser (player 'a')),(0,.createPet (Pet.adopted (player 'a') ['p'] [] 0)),
    (0,.createUser (player 'b')),(0,.createPet (Pet.adopted (player 'b') ['q'] [] 0)),
    (1,.settleMinigame playing),(2,.settleMinigame playing),(3,.visitPet visiting)]

theorem reusedReference_served : ∀a∈reusedReference,∀s,Settlements.Served s a := by
  intro a ha s
  have hnone : reusedReference.all (fun a => a.2.userDraft.isNone)=true := rfl
  exact Call.served_of_draftless (by simpa using List.all_eq_true.mp hnone a ha)

theorem settlements_once_example :
    ∃s : Settlements,execute Settlements.step Settlements.start reusedReference=some s ∧
      s.minigames.map Minigame.coinGrant=[10] ∧ s.earned (player 'a')=15 ∧
      s.earned (player 'a')≤dailyCoinLimit ∧
      ∀m∈s.minigames,m.reference=playing.reference → Act.sameMinigame playing m=true →
        transact (Act.settleMinigame 9 playing) s.db=(.ok ⟨m,true⟩,s.db) := by
  have hrun : (execute Settlements.step Settlements.start reusedReference).any (fun s =>
      decide (s.minigames.map Minigame.coinGrant=[10]) && decide (s.earned (player 'a')=15))=true := by
    decide
  obtain ⟨s,hs,hq⟩ := (Option.any_eq_true _ _).mp hrun
  simp only [Bool.and_eq_true,decide_eq_true_iff] at hq
  have honce := settlements_once s (.execute reusedReference reusedReference_served (.start rfl) hs)
  exact ⟨s,hs,hq.1,hq.2,honce.2.2.2.2 _,(honce.1 9).repeated playing⟩

/-- One reference pays a minigame and a visit. -/
theorem reference_pays_twice :
    ∃s : Settlements,Reach Settlements.step Settlements.Served (·=Settlements.start) s ∧
      ∃m∈s.minigames,∃v∈s.visits,m.reference=v.reference ∧ m.who=⟨v.visitor,v.group⟩ ∧
        0 < m.coinGrant ∧ 0 < v.visitorGrant := by
  have hrun : (execute Settlements.step Settlements.start reusedReference).any (fun s =>
      s.minigames.any (fun m => s.visits.any (fun v => decide (m.reference=v.reference) &&
        decide (m.who=⟨v.visitor,v.group⟩) && decide (0 < m.coinGrant) &&
          decide (0 < v.visitorGrant))))=true := by
    decide
  obtain ⟨s,hs,hq⟩ := (Option.any_eq_true _ _).mp hrun
  simp only [List.any_eq_true,Bool.and_eq_true,decide_eq_true_iff] at hq
  obtain ⟨m,hm,v,hv,⟨⟨href,hwho⟩,hcoins⟩,hvisit⟩ := hq
  exact ⟨s,.execute reusedReference reusedReference_served (.start rfl) hs,m,hm,v,hv,href,hwho,hcoins,hvisit⟩

end XiaoQing.QingPet
