import XiaoQing.QingPet.Decay

namespace XiaoQing.QingPet

section

open Framework

variable {multiplier rate elapsed : ℚ} {trustee : Bool} {c : DecayCall} {s target : DecayingPet}

/-! Writing back what a call made of the stored pet -/

@[simp] theorem latestOf_self {α : Type} [DecidableEq α] (b p : α) : latestOf b p b=p := by
  unfold latestOf
  split_ifs with h
  · exact h.symm
  · rfl

@[simp] theorem addDelta_self (b p : Int) : addDelta b p b=p := by
  unfold addDelta
  omega

theorem clampStat_of_bounds {n : Int} (h : 0≤n∧n ≤ maxStat) : clampStat n=n := by
  unfold clampStat
  omega

theorem mergeStat_self {b p : Int} (h : 0≤p∧p ≤ maxStat) : Pet.mergeStat b p b=p := by
  unfold Pet.mergeStat
  split_ifs with heq
  · exact heq.symm
  · rw [addDelta_self,clampStat_of_bounds h]

structure Pet.From (b p : Pet) : Prop where
  id : p.id=b.id
  who : p.who=b.who
  version : p.version=b.version

theorem mergedOnto_base {b p : Pet} (hfit : p.Fit) (hfrom : Pet.From b p) : p.mergedOnto (some b) b=p := by
  have hstat : (fun s => Pet.mergeStat (b.stat s) (p.stat s) (b.stat s))=p.stat := by
    funext t
    exact mergeStat_self (hfit t)
  unfold Pet.mergedOnto
  dsimp only
  rw [hstat]
  simp only [latestOf_self,addDelta_self,← hfrom.id,← hfrom.who,← hfrom.version]

theorem conflictsWith_base {b p : Pet} (hfit : p.Fit) : p.conflictsWith (some b) b=none := by
  have henergy := (hfit .energy).1
  unfold Pet.conflictsWith
  dsimp only
  rw [if_neg (fun h => h.2 rfl),if_neg (fun h => h.2 rfl),if_neg (by omega)]

theorem persistCandidate_eq (candidate : DecayingPet) (saved : Bool) (alert : Option DecayAlert) (charged : Stat → ℤ)
    (hfit : candidate.pet.Fit) (hfrom : Pet.From target.pet candidate.pet) :
    persistCandidate saved target candidate alert charged=
      if saved then ⟨candidate,alert,charged⟩ else ⟨target,none,fun _ => 0⟩ := by
  have hupdate : candidate.update target target=some candidate := by
    unfold DecayingPet.update
    rw [conflictsWith_base hfit,mergedOnto_base hfit hfrom,latestOf_self]
    rfl
  unfold persistCandidate
  rw [hupdate]
  cases saved with
  | true => rfl
  | false => rfl

/-! One settlement -/

def Remainders.Proper (r : Remainders) : Prop := ∀t,0≤(r t).getD 0∧(r t).getD 0 < 1

theorem decayRate_pos (t : Stat) : 0 < decayRate t := by
  cases t
  all_goals norm_num [decayRate]

theorem minutes_nonneg (d : Nat) : 0 ≤ minutes d := div_nonneg (Nat.cast_nonneg d) (Nat.cast_nonneg minute)

theorem minutes_add (d e : Nat) : minutes (d+e)=minutes d+minutes e := by
  unfold minutes
  rw [Nat.cast_add,add_div]

theorem one_le_minutes {d : Nat} : 1 ≤ minutes d ↔ minute≤d := by
  unfold minutes
  rw [one_le_div (by norm_num [minute]),Nat.cast_le]

theorem loss_nonneg (hr : s.remainders.Proper) (hrate : 0≤rate) (helapsed : 0≤elapsed) (t : Stat) :
    0≤(s.loss rate elapsed t).1 := by
  have hlost : 0≤decayRate t*rate*elapsed := mul_nonneg (mul_nonneg (decayRate_pos t).le hrate) helapsed
  exact (carry_spec (by norm_num [decayTolerance]) (by norm_num [decayTolerance]) (add_nonneg (hr t).1 hlost)).1

theorem loss_le (rate elapsed : ℚ) (hr : s.remainders.Proper) (hrate : 0≤rate) (helapsed : 0≤elapsed) (t : Stat) :
    ((s.loss rate elapsed t).1 : ℚ)≤(s.remainders t).getD 0+decayRate t*rate*elapsed+decayTolerance := by
  have hlost : 0≤decayRate t*rate*elapsed := mul_nonneg (mul_nonneg (decayRate_pos t).le hrate) helapsed
  obtain ⟨-,hrest,-,hexceeds,-⟩ := carry_spec (ε:=decayTolerance) (by norm_num [decayTolerance])
    (by norm_num [decayTolerance]) (add_nonneg (hr t).1 hlost)
  have hpos := hrest.1
  unfold DecayingPet.loss
  linarith

theorem decayed_stat (hfit : s.pet.Fit) (hr : s.remainders.Proper) (hrate : 0≤rate) (helapsed : 0≤elapsed)
    (t : Stat) : (s.decayed rate elapsed).pet.stat t=leftOf (s.pet.stat t) (s.loss rate elapsed t).1 := by
  have hloss := loss_nonneg hr hrate helapsed t
  have hbounds := hfit t
  unfold maxStat at hbounds
  unfold DecayingPet.decayed leftOf clampStat maxStat
  dsimp only
  split_ifs
  · omega
  · omega

theorem decayed_fit (rate elapsed : ℚ) (hfit : s.pet.Fit) : (s.decayed rate elapsed).pet.Fit := by
  intro t
  unfold DecayingPet.decayed
  dsimp only
  split_ifs
  · exact clampStat_bounds _
  · exact hfit t

theorem loss_of_unchanged (hr : s.remainders.Proper) (hrate : 0≤rate) (helapsed : 0≤elapsed) {t : Stat}
    (hnone : (s.loss rate elapsed t).1=0) (hsame : (s.decayed rate elapsed).remainders t=s.remainders t) :
    decayRate t*rate*elapsed=0 := by
  have hlost : 0≤decayRate t*rate*elapsed := mul_nonneg (mul_nonneg (decayRate_pos t).le hrate) helapsed
  have hzero := (carry_spec (by norm_num [decayTolerance]) (by norm_num [decayTolerance])
    (add_nonneg (hr t).1 hlost)).2.2.2.2 hnone
  have hkept : (s.loss rate elapsed t).2=(s.remainders t).getD 0 := by
    rw [← hsame]
    rfl
  unfold DecayingPet.loss at hkept
  linarith

variable {p : Pet}

theorem wakeUp_fit (hfit : p.Fit) : p.wakeUp.Fit := by
  intro t
  unfold Pet.wakeUp Pet.updateStat
  dsimp only
  split_ifs
  · dsimp only
    split_ifs
    · exact clampStat_bounds _
    · exact hfit t
  · exact hfit t

theorem wakeUp_from (p : Pet) : Pet.From p p.wakeUp := by
  unfold Pet.wakeUp
  dsimp only
  split_ifs
  · exact ⟨rfl,rfl,rfl⟩
  · exact ⟨rfl,rfl,rfl⟩

theorem lastUpdate_le_sleepExpiresAt (p : Pet) : p.lastUpdate≤p.sleepExpiresAt := by
  unfold Pet.sleepExpiresAt
  exact le_min (le_max_right _ _) (Nat.le_add_right _ _)

def DecayingPet.awake (s : DecayingPet) : DecayingPet :=
  if s.pet.status=.sleeping then {s with pet := s.pet.wakeUp} else s

theorem awake_of_sleeping (h : s.pet.status=.sleeping) : s.awake={s with pet := s.pet.wakeUp} := if_pos h

theorem awake_of_normal (h : s.pet.status=.normal) : s.awake=s := by
  unfold DecayingPet.awake
  rw [h,if_neg (by decide)]

theorem awake_remainders (s : DecayingPet) : s.awake.remainders=s.remainders := by
  unfold DecayingPet.awake
  split_ifs
  all_goals rfl

theorem awake_fit (h : s.pet.Fit) : s.awake.pet.Fit := by
  unfold DecayingPet.awake
  split_ifs
  · exact wakeUp_fit h
  · exact h

theorem awake_from (s : DecayingPet) : Pet.From s.pet s.awake.pet := by
  unfold DecayingPet.awake
  split_ifs
  · exact wakeUp_from s.pet
  · exact ⟨rfl,rfl,rfl⟩

theorem awake_status (h : s.pet.Calm) : s.awake.pet.status=.normal := by
  rcases h with h | h
  · rw [awake_of_normal h]
    exact h
  · rw [awake_of_sleeping h]
    rfl

theorem awake_repaired (h : s.pet.status=.sleeping) :
    ({s with pet := s.pet.repaired} : DecayingPet).awake=s.awake := by
  have hexpiry : s.pet.repaired.sleepExpiresAt=s.pet.sleepExpiresAt := by
    have hlow := lastUpdate_le_sleepExpiresAt s.pet
    have hhigh : s.pet.sleepExpiresAt ≤ s.pet.lastUpdate+minute := min_le_right _ _
    change min (max s.pet.sleepExpiresAt s.pet.lastUpdate) (s.pet.lastUpdate+minute)=_
    rw [max_eq_left hlow,min_eq_left hhigh]
  rw [awake_of_sleeping h,awake_of_sleeping (s:={s with pet := s.pet.repaired}) h]
  unfold Pet.wakeUp
  rw [hexpiry]
  unfold Pet.repaired
  dsimp only
  split_ifs
  all_goals rfl

/-! What one call does to a pet that stays well -/

/-- The pet as of a settlement at `now`. -/
def DecayingPet.settledAt (s : DecayingPet) (now : Nat) : DecayingPet :=
  ⟨{s.pet with lastUpdate := now},s.remainders⟩

theorem setStat_fit {u : Stat} {n : Int} (h : p.Fit) (hn : 0≤n∧n ≤ maxStat) (t : Stat) :
    0≤(if t=u then n else p.stat t)∧(if t=u then n else p.stat t) ≤ maxStat := by
  split_ifs
  · exact hn
  · exact h t

theorem decayVerdict_cases (woke : Bool) (hfit : p.Fit) :
    (decayVerdict false c woke p).1.Fit∧Pet.From p (decayVerdict false c woke p).1∧
      ((decayVerdict false c woke p).1.status=.sick∨(decayVerdict false c woke p).1.status=.traveling∨
        decayVerdict false c woke p=({p with lastUpdate := c.now},if woke then some .woke else none)) := by
  unfold decayVerdict
  dsimp only
  generalize (if woke=true then some DecayAlert.woke else none)=alert
  by_cases hdirty : p.stat .clean < 30∧c.draw < 1/20
  · rw [if_pos hdirty]
    exact ⟨setStat_fit hfit ⟨by norm_num,by norm_num [maxStat]⟩,⟨rfl,rfl,rfl⟩,.inl rfl⟩
  · rw [if_neg hdirty]
    have hrest : ∀q : Pet,¬(false=true∧q.status=.normal) := fun q h => Bool.false_ne_true h.1
    by_cases hhealth : p.stat .health≤0
    · have hweak : ({p with status := .sick, stat := fun t => if t=.health then 10 else p.stat t} : Pet).Fit :=
        setStat_fit hfit ⟨by norm_num,by norm_num [maxStat]⟩
      rw [if_pos hhealth,if_neg (hrest _)]
      split_ifs
      · exact ⟨hweak,⟨rfl,rfl,rfl⟩,.inr (.inl rfl)⟩
      · exact ⟨hweak,⟨rfl,rfl,rfl⟩,.inl rfl⟩
    · rw [if_neg hhealth,if_neg (hrest _)]
      split_ifs
      · exact ⟨hfit,⟨rfl,rfl,rfl⟩,.inr (.inl rfl)⟩
      · exact ⟨hfit,⟨rfl,rfl,rfl⟩,.inr (.inr rfl)⟩

theorem not_calm (h : p.status=.sick∨p.status=.traveling) : ¬p.Calm := by
  intro hcalm
  rcases h with h | h
  all_goals
    rcases hcalm with hcalm | hcalm
    all_goals cases h.symm.trans hcalm

theorem persistVerdict_calm {woke : Bool} {charged : Stat → ℤ} (hfit : s.pet.Fit) (hfrom : Pet.From target.pet s.pet)
    (hcalm : (persistCandidate c.saved target ⟨(decayVerdict false c woke s.pet).1,s.remainders⟩
      (decayVerdict false c woke s.pet).2 charged).after.pet.Calm) :
    persistCandidate c.saved target ⟨(decayVerdict false c woke s.pet).1,s.remainders⟩
        (decayVerdict false c woke s.pet).2 charged=
      if c.saved then ⟨s.settledAt c.now,if woke then some .woke else none,charged⟩
      else ⟨target,none,fun _ => 0⟩ := by
  obtain ⟨hfit',hfrom',hcases⟩ := decayVerdict_cases (c:=c) woke hfit
  have hboth : Pet.From target.pet (decayVerdict false c woke s.pet).1 :=
    ⟨hfrom'.id.trans hfrom.id,hfrom'.who.trans hfrom.who,hfrom'.version.trans hfrom.version⟩
  rw [persistCandidate_eq _ c.saved _ charged hfit'
    hboth] at hcalm ⊢
  cases hsaved : c.saved with
  | false => rfl
  | true =>
    rw [hsaved] at hcalm
    rcases hcases with hsick | haway | heq
    · exact absurd hcalm (not_calm (.inl hsick))
    · exact absurd hcalm (not_calm (.inr haway))
    · rw [heq]
      rfl

def DecayingPet.settledUntil (s : DecayingPet) : Nat := s.awake.pet.lastUpdate

structure Idle (rate : ℚ) (c : DecayCall) (s : DecayingPet) (r : DecayResult) : Prop where
  awake : r.after.awake=s.awake
  charged : r.charged=fun _ => 0
  fit : r.after.pet.Fit
  asleep : r.after.pet.status=.sleeping → r.after.pet.stat=s.pet.stat∧r.after.pet.lastUpdate=s.pet.lastUpdate
  /-- It is too early, or the time takes nothing. -/
  early : c.saved=true → s.settledUntil+minute≤c.now →
    ∀t,decayRate t*rate*minutes (c.now-s.settledUntil)=0

structure Settles (rate : ℚ) (now : Nat) (s : DecayingPet) (r : DecayResult) : Prop where
  elapsed : s.settledUntil+minute≤now
  after : r.after=(s.awake.decayed rate (minutes (now-s.settledUntil))).settledAt now
  charged : r.charged=fun t => (s.awake.loss rate (minutes (now-s.settledUntil)) t).1

variable {r : DecayResult}

theorem settleAwake_calm (woke : Bool) (hrate : 0≤rate) (hfit : s.pet.Fit) (hwell : s.pet.Calm)
    (hrest : s.remainders.Proper) (hwoke : woke=true ↔ s.pet.status=.sleeping)
    (hr : settleAwake rate false c s s.awake (minutes (c.now-s.settledUntil)) woke=r)
    (hcalm : r.after.pet.Calm) :
    (Idle rate c s r∨Settles rate c.now s r)∧
      (r.after.pet.status=.sleeping ↔ s.pet.status=.sleeping∧c.saved=false) := by
  have hstatus := awake_status hwell
  have hunsaved : r.after=s → r.charged=(fun _ => 0) → (s.pet.status=.sleeping → c.saved=false) →
      (c.saved=true → s.settledUntil+minute≤c.now → ∀t,decayRate t*rate*minutes (c.now-s.settledUntil)=0) →
      (Idle rate c s r∨Settles rate c.now s r)∧
        (r.after.pet.status=.sleeping ↔ s.pet.status=.sleeping∧c.saved=false) := by
    intro hafter hcharged hsaved hearly
    refine ⟨.inl ⟨by rw [hafter],hcharged,by rw [hafter]; exact hfit,fun _ => by rw [hafter]; exact ⟨rfl,rfl⟩,
      hearly⟩,?_⟩
    rw [hafter]
    exact ⟨fun h => ⟨h,hsaved h⟩,fun h => h.1⟩
  have hasleep : woke=false → s.pet.status=.sleeping → c.saved=false := by
    intro hw h
    cases hw.symm.trans (hwoke.mpr h)
  have hnot : c.saved=false → c.saved=true → s.settledUntil+minute≤c.now →
      ∀t,decayRate t*rate*minutes (c.now-s.settledUntil)=0 := by
    intro hf ht
    cases hf.symm.trans ht
  have hlong : ¬(minutes (c.now-s.settledUntil) < 1∧false=false) → s.settledUntil+minute≤c.now := by
    intro hshort
    have hone : 1 ≤ minutes (c.now-s.settledUntil) := not_lt.mp fun h => hshort ⟨h,rfl⟩
    have hdiff := one_le_minutes.mp hone
    unfold minute at hdiff ⊢
    omega
  have hearly : minutes (c.now-s.settledUntil) < 1 → s.settledUntil+minute≤c.now →
      ∀t,decayRate t*rate*minutes (c.now-s.settledUntil)=0 := by
    intro hshort hle
    have hone : 1 ≤ minutes (c.now-s.settledUntil) := one_le_minutes.mpr (by omega)
    exact absurd hshort (not_lt.mpr hone)
  unfold settleAwake at hr
  dsimp only at hr
  split_ifs at hr with hshort hwake hchanged
  · rw [persistCandidate_eq _ c.saved _ _ (awake_fit hfit) (awake_from s)] at hr
    cases hsaved : c.saved with
    | true =>
      rw [hsaved,if_pos rfl] at hr
      subst hr
      refine ⟨.inl ⟨awake_of_normal hstatus,rfl,awake_fit hfit,fun h => ?_,fun _ => hearly hshort.1⟩,
        fun h => ?_,fun h => ?_⟩
      · cases hstatus.symm.trans h
      · cases hstatus.symm.trans h
      · cases h.2
    | false =>
      rw [hsaved,if_neg Bool.false_ne_true] at hr
      subst hr
      exact hsaved ▸ hunsaved rfl rfl (fun _ => hsaved) (hnot hsaved)
  · subst hr
    exact hunsaved rfl rfl (hasleep (Bool.eq_false_iff.mpr hwake)) fun _ => hearly hshort.1
  · have hfit' := decayed_fit rate (minutes (c.now-s.settledUntil)) (awake_fit hfit)
    have hfrom' : Pet.From s.pet (s.awake.decayed rate (minutes (c.now-s.settledUntil))).pet :=
      ⟨(awake_from s).id,(awake_from s).who,(awake_from s).version⟩
    rw [← hr] at hcalm
    rw [persistVerdict_calm hfit' hfrom' hcalm] at hr
    cases hsaved : c.saved with
    | true =>
      rw [hsaved,if_pos rfl] at hr
      subst hr
      refine ⟨.inr ⟨hlong hshort,rfl,rfl⟩,fun h => ?_,fun h => ?_⟩
      · cases hstatus.symm.trans h
      · cases h.2
    | false =>
      rw [hsaved,if_neg Bool.false_ne_true] at hr
      subst hr
      exact hsaved ▸ hunsaved rfl rfl (fun _ => hsaved) (hnot hsaved)
  · subst hr
    rw [Bool.or_eq_true,Bool.or_eq_true,Bool.or_eq_true,not_or,not_or,not_or] at hchanged
    obtain ⟨⟨⟨hw,-⟩,hnone⟩,hsame⟩ := hchanged
    rw [decide_eq_true_eq] at hnone hsame
    have hproper : s.awake.remainders.Proper := by
      rw [awake_remainders]
      exact hrest
    refine hunsaved rfl rfl (hasleep (Bool.eq_false_iff.mpr hw)) fun _ _ t => ?_
    have hzero : (s.awake.loss rate (minutes (c.now-s.settledUntil)) t).1=0 := by
      have hpos := loss_nonneg hproper hrate (minutes_nonneg (c.now-s.settledUntil)) t
      have hle : ¬0 < (s.awake.loss rate (minutes (c.now-s.settledUntil)) t).1 := fun h => hnone ⟨t,h⟩
      omega
    exact loss_of_unchanged hproper hrate (minutes_nonneg _) hzero (congrFun (not_not.mp hsame) t)

theorem applyDecay_calm (hrate : 0 ≤ multiplier*(if trustee then 1/2 else 1)) (hfit : s.pet.Fit)
    (hwell : s.pet.Calm) (hrest : s.remainders.Proper) (hr : applyDecay multiplier trustee false c s=r)
    (hcalm : r.after.pet.Calm) :
    (Idle (multiplier*(if trustee then 1/2 else 1)) c s r∨
        Settles (multiplier*(if trustee then 1/2 else 1)) c.now s r)∧
      (r.after.pet.status=.sleeping ↔ s.pet.status=.sleeping∧¬(c.saved=true∧s.settledUntil≤c.now)) := by
  have hhelp := fun woke => settleAwake_calm (c:=c) (r:=r) woke hrate hfit hwell hrest
  unfold applyDecay at hr
  dsimp only at hr
  generalize multiplier*(if trustee=true then 1/2 else 1)=rate at hr hhelp ⊢
  rcases hwell with hstatus | hstatus
  · have hawake := awake_of_normal hstatus
    have huntil : s.settledUntil=s.pet.lastUpdate := by
      unfold DecayingPet.settledUntil
      rw [hawake]
    have hboth := hhelp false
    rw [hstatus] at hr
    rw [hawake,huntil] at hboth
    obtain ⟨hcases,hsleep⟩ := hboth ⟨fun h => (by cases h),fun h => (by cases hstatus.symm.trans h)⟩ hr hcalm
    refine ⟨hcases,fun h => ?_,fun h => ?_⟩
    · cases hstatus.symm.trans (hsleep.mp h).1
    · cases hstatus.symm.trans h.1
  · have hawake := awake_of_sleeping hstatus
    have huntil : s.settledUntil=s.pet.sleepExpiresAt := by
      unfold DecayingPet.settledUntil
      rw [hawake]
      rfl
    rw [hstatus] at hr
    dsimp only at hr
    split_ifs at hr with hbefore hrepair
    · -- The expiry is repaired, and the pet sleeps on.
      have hasleep : r.after.pet.status=.sleeping∧Idle rate c s r := by
        have hfrom : Pet.From s.pet s.pet.repaired := ⟨rfl,rfl,rfl⟩
        rw [persistCandidate_eq {s with pet := s.pet.repaired} c.saved _ _ hfit hfrom] at hr
        cases hsaved : c.saved with
        | true =>
          rw [hsaved,if_pos rfl] at hr
          subst hr
          exact ⟨hstatus,awake_repaired hstatus,rfl,hfit,fun _ => ⟨rfl,rfl⟩,fun _ h => by omega⟩
        | false =>
          rw [hsaved,if_neg Bool.false_ne_true] at hr
          subst hr
          exact ⟨hstatus,rfl,rfl,hfit,fun _ => ⟨rfl,rfl⟩,fun _ h => by omega⟩
      exact ⟨.inl hasleep.2,fun _ => ⟨hstatus,fun h => by omega⟩,fun _ => hasleep.1⟩
    · subst hr
      exact ⟨.inl ⟨rfl,rfl,hfit,fun _ => ⟨rfl,rfl⟩,fun _ h => by omega⟩,
        fun h => ⟨h,fun h => by omega⟩,fun h => h.1⟩
    · have hboth := hhelp true ⟨fun _ => hstatus,fun _ => rfl⟩
      rw [hawake,huntil] at hboth
      obtain ⟨hcases,hsleep⟩ := hboth hr hcalm
      refine ⟨hcases,fun h => ⟨hstatus,fun hs => ?_⟩,fun h => hsleep.mpr ⟨hstatus,?_⟩⟩
      · cases (hsleep.mp h).2.symm.trans hs.1
      · cases hsaved : c.saved with
        | true => exact absurd ⟨hsaved,huntil.trans_le (not_lt.mp hbefore)⟩ h.2
        | false => rfl

/-! What a run of calls takes from a pet -/

def DecayingPet.owed (s : DecayingPet) (rate : ℚ) (until_ : Nat) (u : Stat) : ℚ :=
  (s.remainders u).getD 0+decayRate u*rate*minutes (until_-s.settledUntil)

/-- What `n` calls have made of the pet `s`. -/
structure RunSettled (rate : ℚ) (n : ℕ) (s t : DecayingPet) (d : Stat → ℤ) : Prop where
  fit : t.pet.Fit
  calm : t.pet.Calm
  since : t.settledUntil=s.settledUntil∨s.settledUntil+minute≤t.settledUntil
  carried : ∀u,Carried decayTolerance n (s.owed rate t.settledUntil u) (d u) ((t.remainders u).getD 0)
  left : ∀u,t.awake.pet.stat u=leftOf (s.awake.pet.stat u) (d u)
  /-- A pet that still sleeps has lost nothing. -/
  asleep : t.pet.status=.sleeping →
    s.pet.status=.sleeping∧t.pet.stat=s.pet.stat∧t.pet.lastUpdate=s.pet.lastUpdate

variable {n : ℕ}

variable {t : DecayingPet}

variable {d : Stat → ℤ}

theorem RunSettled.proper (h : RunSettled rate n s t d) :
    t.remainders.Proper := fun u => (h.carried u).rest

theorem leftOf_zero {stock : ℤ} (h : 0 ≤ stock) : leftOf stock 0=stock := by
  unfold leftOf
  omega

theorem runSettled_start (rate : ℚ) (hfit : s.pet.Fit) (hwell : s.pet.Calm) (hrest : s.remainders.Proper) :
    RunSettled rate 0 s s fun _ => 0 := by
  refine ⟨hfit,hwell,.inl rfl,fun u => ?_,fun u => (leftOf_zero (awake_fit hfit u).1).symm,fun h => ⟨h,rfl,rfl⟩⟩
  have howed : s.owed rate s.settledUntil u=(s.remainders u).getD 0 := by
    unfold DecayingPet.owed minutes
    rw [Nat.sub_self]
    simp
  rw [howed]
  exact Carried.start (hrest u)

theorem RunSettled.idle
    (h : RunSettled rate n s t d) (hidle : Idle rate c t r) (hcalm : r.after.pet.Calm)
    (hsleep : r.after.pet.status=.sleeping → t.pet.status=.sleeping) :
    RunSettled rate (n+1) s r.after fun u => d u+r.charged u := by
  have huntil : r.after.settledUntil=t.settledUntil := by
    unfold DecayingPet.settledUntil
    rw [hidle.awake]
  have hremainders : r.after.remainders=t.remainders := by
    rw [← awake_remainders r.after,hidle.awake,awake_remainders]
  refine ⟨hidle.fit,hcalm,?_,fun u => ?_,fun u => ?_,fun ha => ?_⟩
  · rw [huntil]
    exact h.since
  · rw [huntil,hremainders,hidle.charged,add_zero]
    exact (h.carried u).idle (by norm_num [decayTolerance])
  · rw [hidle.awake,hidle.charged,add_zero]
    exact h.left u
  · obtain ⟨hs,hstat,hupdate⟩ := h.asleep (hsleep ha)
    obtain ⟨hstat',hupdate'⟩ := hidle.asleep ha
    exact ⟨hs,hstat'.trans hstat,hupdate'.trans hupdate⟩

theorem owed_later {a b : Nat} (ha : s.settledUntil≤a) (hab : a≤b) (u : Stat) :
    s.owed rate b u=s.owed rate a u+decayRate u*rate*minutes (b-a) := by
  have hsplit : b-s.settledUntil=(a-s.settledUntil)+(b-a) := by omega
  unfold DecayingPet.owed
  rw [hsplit,minutes_add]
  ring

theorem Settles.parts (h : Settles rate c.now s r) (hrate : 0≤rate) (hfit : s.pet.Fit)
    (hwell : s.pet.Calm) (hrest : s.remainders.Proper) :
    r.after.pet.Fit∧r.after.pet.status=.normal∧r.after.settledUntil=c.now∧∀u,
      (r.charged u,(r.after.remainders u).getD 0)=
        carry decayTolerance ((s.remainders u).getD 0+decayRate u*rate*minutes (c.now-s.settledUntil))∧
      r.after.awake.pet.stat u=leftOf (s.awake.pet.stat u) (r.charged u)∧0≤r.charged u := by
  have hproper : s.awake.remainders.Proper := by
    rw [awake_remainders]
    exact hrest
  have hminutes := minutes_nonneg (c.now-s.settledUntil)
  have hstatus : r.after.pet.status=.normal := by
    rw [h.after]
    exact awake_status hwell
  have hawake := awake_of_normal hstatus
  have huntil : r.after.settledUntil=c.now := by
    unfold DecayingPet.settledUntil
    rw [hawake,h.after]
    rfl
  have hfit' : r.after.pet.Fit := by
    have hdecayed := decayed_fit rate (minutes (c.now-s.settledUntil)) (awake_fit hfit)
    intro u
    rw [h.after]
    exact hdecayed u
  refine ⟨hfit',hstatus,huntil,fun u => ⟨?_,?_,?_⟩⟩
  · rw [h.after,h.charged]
    change s.awake.loss rate (minutes (c.now-s.settledUntil)) u=_
    unfold DecayingPet.loss
    rw [awake_remainders]
  · have hstat := decayed_stat (awake_fit hfit) hproper hrate hminutes u
    rw [hawake,h.after,h.charged]
    exact hstat
  · rw [h.charged]
    exact loss_nonneg hproper hrate hminutes u

theorem RunSettled.settles (hrate : 0≤rate)
    (h : RunSettled rate n s t d) (hsettles : Settles rate c.now t r) :
    RunSettled rate (n+1) s r.after fun u => d u+r.charged u := by
  obtain ⟨hfit,hstatus,huntil,hparts⟩ := hsettles.parts hrate h.fit h.calm h.proper
  have helapsed := hsettles.elapsed
  have hlater : s.settledUntil≤t.settledUntil := by
    rcases h.since with heq | hle
    · exact heq.ge
    · omega
  refine ⟨hfit,.inl hstatus,.inr (by omega),fun u => ?_,fun u => ?_,fun ha => ?_⟩
  · have hx : 0≤decayRate u*rate*minutes (c.now-t.settledUntil) :=
      mul_nonneg (mul_nonneg (decayRate_pos u).le hrate) (minutes_nonneg _)
    have hcharge := (h.carried u).charge (by norm_num [decayTolerance]) (by norm_num [decayTolerance]) hx
    rw [← (hparts u).1] at hcharge
    rw [huntil,owed_later hlater (by omega) u]
    exact hcharge
  · rw [(hparts u).2.1,h.left,leftOf_leftOf (hparts u).2.2]
  · cases hstatus.symm.trans ha

theorem RunSettled.call
    (hrate : 0 ≤ multiplier*(if trustee then 1/2 else 1))
    (h : RunSettled (multiplier*(if trustee then 1/2 else 1)) n s t d)
    (hr : applyDecay multiplier trustee false c t=r) (hcalm : r.after.pet.Calm) :
    RunSettled (multiplier*(if trustee then 1/2 else 1)) (n+1) s r.after fun u => d u+r.charged u := by
  obtain ⟨hcases,hsleep⟩ := applyDecay_calm hrate h.fit h.calm h.proper hr hcalm
  rcases hcases with hidle | hsettles
  · exact h.idle hidle hcalm fun ha => (hsleep.mp ha).1
  · exact h.settles hrate hsettles

theorem RunSettled.all (calls : List DecayCall)
    (hrate : 0 ≤ multiplier*(if trustee then 1/2 else 1))
    (h : RunSettled (multiplier*(if trustee then 1/2 else 1)) n s t d)
    (hcalm : StaysCalm multiplier trustee t calls) :
    RunSettled (multiplier*(if trustee then 1/2 else 1)) (n+calls.length) s
      (settleAll multiplier trustee t calls).1 fun u => d u+(settleAll multiplier trustee t calls).2 u := by
  induction calls generalizing t n d with
  | nil =>
    simp only [settleAll,add_zero,List.length_nil]
    exact h
  | cons c calls ih =>
    obtain ⟨hfirst,hrest⟩ := hcalm
    have hall := ih (h.call hrate rfl hfirst) hrest
    have hn : n+(c::calls).length=n+1+calls.length := by
      rw [List.length_cons]
      omega
    rw [hn]
    simp only [settleAll,← add_assoc]
    exact hall

/-! A pet that is cared for -/

theorem decayVerdict_high {woke : Bool} (h : ∀u,30≤p.stat u) :
    decayVerdict false c woke p=({p with lastUpdate := c.now},if woke then some .woke else none) := by
  have hcare : ¬p.careScore < 3/20 := by
    have hsum : (150 : ℚ)≤((p.stat .hunger+p.stat .mood+p.stat .clean+p.stat .energy+p.stat .health : ℤ) : ℚ) := by
      have hhunger := h .hunger
      have hmood := h .mood
      have hclean := h .clean
      have henergy := h .energy
      have hhealth := h .health
      exact_mod_cast (by omega)
    unfold Pet.careScore maxStat
    push_cast at hsum ⊢
    linarith
  have hclean : ¬(p.stat .clean < 30∧c.draw < 1/20) := fun hd => absurd hd.1 (not_lt.mpr (h .clean))
  have hhealth : ¬p.stat .health≤0 := by
    have hhigh := h .health
    omega
  unfold decayVerdict
  dsimp only
  rw [if_neg hclean,if_neg hhealth,if_neg hcare,if_neg (fun hr => Bool.false_ne_true hr.1)]

theorem persistCandidate_calm {candidate : DecayingPet} {saved : Bool} {alert : Option DecayAlert}
    {charged : Stat → ℤ} (hfit : candidate.pet.Fit) (hfrom : Pet.From target.pet candidate.pet)
    (hcalm : candidate.pet.Calm) (hwell : target.pet.Calm) :
    (persistCandidate saved target candidate alert charged).after.pet.Calm := by
  rw [persistCandidate_eq candidate saved alert charged hfit hfrom]
  cases saved with
  | true => exact hcalm
  | false => exact hwell

theorem settleAwake_high {woke : Bool} (hfit : s.pet.Fit) (hwell : s.pet.Calm)
    (hhigh : ∀u,30≤(s.awake.decayed rate elapsed).pet.stat u) :
    (settleAwake rate false c s s.awake elapsed woke).after.pet.Calm := by
  have hstatus := awake_status hwell
  unfold settleAwake
  dsimp only
  split_ifs
  · exact persistCandidate_calm (awake_fit hfit) (awake_from s) (.inl hstatus) hwell
  · exact hwell
  · rw [decayVerdict_high hhigh]
    have hdecayed := decayed_fit rate elapsed (awake_fit hfit)
    have hfrom := awake_from s
    exact persistCandidate_calm (fun u => hdecayed u) ⟨hfrom.id,hfrom.who,hfrom.version⟩ (.inl hstatus) hwell
  · exact hwell

theorem settleAll_sleeping (calls : List DecayCall)
    (hrate : 0 ≤ multiplier*(if trustee then 1/2 else 1))
    (h : RunSettled (multiplier*(if trustee then 1/2 else 1)) n s t d)
    (hcalm : StaysCalm multiplier trustee t calls) :
    (settleAll multiplier trustee t calls).1.pet.status=.sleeping ↔
      t.pet.status=.sleeping∧∀c∈calls,¬(c.saved=true∧t.settledUntil≤c.now) := by
  induction calls generalizing t n d with
  | nil => exact ⟨fun h => ⟨h,fun c hc => absurd hc List.not_mem_nil⟩,fun h => h.1⟩
  | cons c calls ih =>
    obtain ⟨hfirst,hrest⟩ := hcalm
    obtain ⟨hcases,hsleep⟩ := applyDecay_calm hrate h.fit h.calm h.proper rfl hfirst
    have hih := ih (h.call hrate rfl hfirst) hrest
    have huntil : (applyDecay multiplier trustee false c t).after.pet.status=.sleeping →
        (applyDecay multiplier trustee false c t).after.settledUntil=t.settledUntil := by
      intro hs
      rcases hcases with hidle | hsettles
      · unfold DecayingPet.settledUntil
        rw [hidle.awake]
      · cases (hsettles.parts hrate h.fit h.calm h.proper).2.1.symm.trans hs
    change (settleAll multiplier trustee (applyDecay multiplier trustee false c t).after calls).1.pet.status=.sleeping ↔ _
    rw [hih]
    constructor
    · intro hboth
      obtain ⟨hs,hlater⟩ := hboth
      obtain ⟨hbefore,hnot⟩ := hsleep.mp hs
      refine ⟨hbefore,fun e he => ?_⟩
      rcases List.mem_cons.mp he with rfl | he
      · exact hnot
      · exact huntil hs ▸ hlater e he
    · intro hboth
      have hs := hsleep.mpr ⟨hboth.1,hboth.2 c List.mem_cons_self⟩
      exact ⟨hs,fun e he => (huntil hs).symm ▸ hboth.2 e (List.mem_cons_of_mem c he)⟩

theorem awake_stat_of_le (h : s.settledUntil ≤ s.pet.lastUpdate) : s.awake.pet.stat=s.pet.stat := by
  by_cases hstatus : s.pet.status=.sleeping
  · have hexpiry : s.pet.sleepExpiresAt ≤ s.pet.lastUpdate := by
      unfold DecayingPet.settledUntil at h
      rw [awake_of_sleeping hstatus] at h
      exact h
    have hgain : truncate (2*minutes (s.pet.sleepExpiresAt-s.pet.lastUpdate))=0 := by
      rw [Nat.sub_eq_zero_of_le hexpiry]
      norm_num [minutes,truncate]
    rw [awake_of_sleeping hstatus]
    unfold Pet.wakeUp
    dsimp only
    rw [hgain,if_neg (lt_irrefl 0)]
  · unfold DecayingPet.awake
    rw [if_neg hstatus]

theorem lastUpdate_le_settledUntil (s : DecayingPet) : s.pet.lastUpdate ≤ s.settledUntil := by
  unfold DecayingPet.settledUntil DecayingPet.awake
  split_ifs
  · exact lastUpdate_le_sleepExpiresAt s.pet
  · exact le_rfl

theorem left_close {t one : DecayingPet} {d e : Stat → ℤ} (h : RunSettled rate n s t d)
    (h' : RunSettled rate 1 s one e) (hfit : s.pet.Fit) (hsame : ∀u,s.owed rate t.settledUntil u=s.owed rate one.settledUntil u)
    (u : Stat) : |t.awake.pet.stat u-one.awake.pet.stat u|≤1 := by
  have hcap := (awake_fit hfit u).2
  have hcarried := h.carried u
  have hcarried' := h'.carried u
  rw [← hsame u] at hcarried'
  have hle := hcarried.leftOf_le hcarried' (by norm_num [decayTolerance]) (by norm_num [maxStat] : 0 ≤ maxStat)
    (by norm_num [decayTolerance,maxStat]) hcap
  have hge := hcarried'.leftOf_le hcarried (by norm_num [decayTolerance]) (by norm_num [maxStat] : 0 ≤ maxStat)
    (by norm_num [decayTolerance,maxStat]) hcap
  rw [h.left,h'.left,abs_le]
  constructor
  · omega
  · omega

theorem RunSettled.once {draw : ℚ}
    (hrate : 0 ≤ multiplier*(if trustee then 1/2 else 1)) (hfit : s.pet.Fit) (hwell : s.pet.Calm)
    (hrest : s.remainders.Proper) (h : RunSettled (multiplier*(if trustee then 1/2 else 1)) n s t d)
    (hcalm : (applyDecay multiplier trustee false ⟨t.pet.lastUpdate,draw,true⟩ s).after.pet.Calm) (u : Stat) :
    |t.pet.stat u-(applyDecay multiplier trustee false ⟨t.pet.lastUpdate,draw,true⟩ s).after.pet.stat u|≤1 := by
  have hone := (runSettled_start (multiplier*(if trustee then 1/2 else 1)) hfit hwell hrest).call
    (c:=⟨t.pet.lastUpdate,draw,true⟩) hrate rfl hcalm
  obtain ⟨hcases,hsleep⟩ := applyDecay_calm (c:=⟨t.pet.lastUpdate,draw,true⟩) hrate hfit hwell hrest rfl hcalm
  generalize applyDecay multiplier trustee false ⟨t.pet.lastUpdate,draw,true⟩ s=r at hcalm hone hcases hsleep ⊢
  generalize multiplier*(if trustee=true then 1/2 else 1)=rate at hrate h hone hcases
  rcases h.calm with hstatus | hstatus
  · have hawake := awake_of_normal hstatus
    have huntil : t.settledUntil=t.pet.lastUpdate := by
      unfold DecayingPet.settledUntil
      rw [hawake]
    have hlater : s.settledUntil≤t.pet.lastUpdate := by
      rcases h.since with heq | hle
      · omega
      · omega
    have hstatus' : r.after.pet.status=.normal := by
      rcases hcalm with hn | hs
      · exact hn
      · exact absurd ⟨rfl,hlater⟩ (hsleep.mp hs).2
    have hclose := left_close h hone hfit (fun v => ?_) u
    · rwa [hawake,awake_of_normal hstatus'] at hclose
    · rcases hcases with hidle | hsettles
      · have huntil' : r.after.settledUntil=s.settledUntil := by
          unfold DecayingPet.settledUntil
          rw [hidle.awake]
        rw [huntil',owed_later le_rfl (by omega : s.settledUntil≤t.settledUntil) v]
        rcases h.since with heq | hle
        · rw [heq,Nat.sub_self]
          norm_num [minutes]
        · have hreached : s.settledUntil+minute≤t.pet.lastUpdate := huntil ▸ hle
          have hzero : decayRate v*rate*minutes (t.pet.lastUpdate-s.settledUntil)=0 := hidle.early rfl hreached v
          rw [huntil,hzero,add_zero]
      · rw [(hsettles.parts hrate hfit hwell hrest).2.2.1,huntil]
  · obtain ⟨hs,hstat,hupdate⟩ := h.asleep hstatus
    have hsame : r.after.pet.stat=s.pet.stat := by
      rcases hcases with hidle | hsettles
      · rcases hcalm with hn | hs'
        · have hafter : r.after=s.awake := (awake_of_normal hn).symm.trans hidle.awake
          have hreached : s.settledUntil≤t.pet.lastUpdate := by
            by_contra hlate
            have hstill := hsleep.mpr ⟨hs,fun hboth => hlate hboth.2⟩
            cases hn.symm.trans hstill
          rw [hafter,awake_stat_of_le (hreached.trans hupdate.le)]
        · exact (hidle.asleep hs').1
      · have helapsed := hsettles.elapsed
        have hbefore := lastUpdate_le_settledUntil s
        dsimp only at helapsed
        unfold minute at helapsed
        omega
    rw [hsame,hstat,sub_self,abs_zero]
    exact zero_le_one

structure DecaysOnce (multiplier : ℚ) (trustee : Bool) (s : DecayingPet) (calls : List DecayCall) : Prop where
  /-- The points charged and the remainder are what the awake time up to the last settlement has taken, with
  the remainder at the start, and a tolerance for each call at most. -/
  charged : ∀u,
    let (t,d) := settleAll multiplier trustee s calls
    let taken := s.owed (multiplier*(if trustee then 1/2 else 1)) t.settledUntil u
    taken≤d u+(t.remainders u).getD 0∧d u+(t.remainders u).getD 0≤taken+calls.length*decayTolerance
  rest : (settleAll multiplier trustee s calls).1.remainders.Proper
  /-- What is left of a stat of an awake pet is what the points charged leave. -/
  left : (settleAll multiplier trustee s calls).1.pet.status=.normal → ∀u,
    (settleAll multiplier trustee s calls).1.pet.stat u=
      leftOf (s.awake.pet.stat u) ((settleAll multiplier trustee s calls).2 u)
  /-- One settlement at the last settled time leaves the same, up to a point. -/
  once : ∀draw,
    let t := (settleAll multiplier trustee s calls).1
    let one := applyDecay multiplier trustee false ⟨t.pet.lastUpdate,draw,true⟩ s
    one.after.pet.Calm → ∀u,|t.pet.stat u-one.after.pet.stat u|≤1
  /-- A call within a minute of the last settlement settles nothing. -/
  short : ∀c,
    let t := (settleAll multiplier trustee s calls).1
    let r := applyDecay multiplier trustee false c t
    r.after.pet.Calm → c.now < t.settledUntil+minute → r.after.settledUntil=t.settledUntil∧r.charged=fun _ => 0
  /-- A sleep ends where it was to end, whichever call finds it over. -/
  sleep : s.pet.status=.sleeping → s.settledUntil=s.pet.sleepExpiresAt∧
    ((settleAll multiplier trustee s calls).1.pet.status=.sleeping ↔
      ∀c∈calls,¬(c.saved=true∧s.pet.sleepExpiresAt≤c.now))

/-- However the time is split into calls, decay charges it once. -/
theorem decay_split_free {calls : List DecayCall} (hmultiplier : 0 ≤ multiplier) (hfit : s.pet.Fit)
    (hwell : s.pet.Calm) (hrest : s.remainders.Proper) (hcalm : StaysCalm multiplier trustee s calls) :
    DecaysOnce multiplier trustee s calls := by
  have hrate : 0 ≤ multiplier*(if trustee then 1/2 else 1) := by
    cases trustee with
    | true => exact mul_nonneg hmultiplier (by norm_num)
    | false => exact mul_nonneg hmultiplier (by norm_num)
  have hstart := runSettled_start (multiplier*(if trustee then 1/2 else 1)) hfit hwell hrest
  have hall := hstart.all calls hrate hcalm
  simp only [zero_add] at hall
  refine ⟨fun u => ⟨(hall.carried u).covers,(hall.carried u).exceeds⟩,hall.proper,fun hn u => ?_,
    fun draw hone u => hall.once hrate hfit hwell hrest hone u,fun c hshort hlt => ?_,fun hs => ?_⟩
  · rw [← hall.left,awake_of_normal hn]
  · rcases (applyDecay_calm hrate hall.fit hall.calm hall.proper rfl hshort).1 with hidle | hsettles
    · refine ⟨?_,hidle.charged⟩
      unfold DecayingPet.settledUntil
      rw [hidle.awake]
    · exact absurd hsettles.elapsed (not_le.mpr hlt)
  · have huntil : s.settledUntil=s.pet.sleepExpiresAt := by
      unfold DecayingPet.settledUntil
      rw [awake_of_sleeping hs]
      rfl
    have hsleep := settleAll_sleeping calls hrate hstart hcalm
    rw [huntil] at hsleep
    exact ⟨huntil,hsleep.trans ⟨fun h => h.2,fun h => ⟨hs,h⟩⟩⟩

def restedPet : DecayingPet :=
  ⟨⟨1,⟨[],0⟩,[],.egg,[],fun _ => 90,0,0,0,[],none,.normal,none,fun _ => none,0,[],fun _ => none,0,0⟩,fun _ => none⟩

def twoCalls : List DecayCall := [⟨30000000,1,true⟩,⟨120000000,1,true⟩]

theorem decay_split_free_example : StaysCalm 1 false restedPet twoCalls∧
    (settleAll 1 false restedPet twoCalls).1.remainders.Proper := by
  have hfit : restedPet.pet.Fit := fun _ => ⟨by norm_num [restedPet],by norm_num [restedPet,maxStat]⟩
  have hrest : restedPet.remainders.Proper := fun _ => ⟨by norm_num [restedPet],by norm_num [restedPet]⟩
  have hfirst : applyDecay 1 false false ⟨30000000,1,true⟩ restedPet=⟨restedPet,none,fun _ => 0⟩ := by
    have hshort : minutes (30000000-restedPet.pet.lastUpdate) < 1∧false=false :=
      ⟨by norm_num [minutes,restedPet,minute],rfl⟩
    change settleAwake (1*(if false=true then 1/2 else 1)) false ⟨30000000,1,true⟩ restedPet restedPet
      (minutes (30000000-restedPet.pet.lastUpdate)) false=_
    unfold settleAwake
    rw [if_pos hshort,if_neg Bool.false_ne_true]
  have hsecond : (applyDecay 1 false false ⟨120000000,1,true⟩ restedPet).after.pet.Calm := by
    refine settleAwake_high (s:=restedPet) hfit (.inl rfl) fun u => ?_
    have hminutes : minutes (120000000-restedPet.pet.lastUpdate)=2 := by norm_num [minutes,restedPet,minute]
    have hrate : decayRate u≤4/5 := by
      cases u
      all_goals norm_num [decayRate]
    generalize hrated : (1 : ℚ)*(if false=true then 1/2 else 1)=rate
    have hone : rate=1 := by
      rw [← hrated]
      norm_num
    have hle := loss_le (s:=restedPet) rate 2 hrest (by rw [hone]; norm_num) (by norm_num) u
    have hnone : (restedPet.remainders u).getD 0=0 := rfl
    have hbound : ((restedPet.loss rate 2 u).1 : ℚ) < 2 := by
      rw [hnone,hone] at hle
      norm_num [decayTolerance] at hle
      rw [hone]
      linarith
    have hint : (restedPet.loss rate 2 u).1 < 2 := by exact_mod_cast hbound
    have hstat : (restedPet.decayed rate 2).pet.stat u=leftOf (restedPet.pet.stat u) (restedPet.loss rate 2 u).1 :=
      decayed_stat hfit hrest (by rw [hone]; norm_num) (by norm_num) u
    have hninety : restedPet.pet.stat u=90 := rfl
    rw [hninety] at hstat
    have hhigh : 30≤(restedPet.decayed rate 2).pet.stat u := by
      rw [hstat]
      unfold leftOf
      omega
    rw [← hminutes] at hhigh
    exact hhigh
  have hcalm : StaysCalm 1 false restedPet twoCalls := by
    unfold twoCalls StaysCalm StaysCalm
    dsimp only
    rw [hfirst]
    exact ⟨.inl rfl,hsecond,trivial⟩
  exact ⟨hcalm,(decay_split_free (by norm_num) hfit (.inl rfl) hrest hcalm).rest⟩

end

end XiaoQing.QingPet
