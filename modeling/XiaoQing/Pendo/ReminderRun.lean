import XiaoQing.Pendo.ReminderLog

namespace XiaoQing.Pendo

open Function (update update_of_ne update_self)

open Framework Commands

namespace Reminders

variable {s t : Reminders} {k : ReminderKey} {r : LogRow} {token expected leaseSeconds : Nat}
  {retryAt : Option Nat} {p : LogRow → Bool} {f : LogRow → LogRow}

def ledger (s : Reminders) : Ledger ReminderKey :=
  Ledger.ofRows LogRow.key LogRow.lease s.now s.drawn s.rows s.granted s.ended

structure Sane (repeats : ReminderKey → Nat) (r : LogRow) : Prop where
  claimed : r.state=.claimed ↔ r.claimToken.isSome
  timed : r.claimToken.isSome=r.claimExpiresAt.isSome
  confirmed : r.state=.confirmed ↔ r.confirmedAt.isSome
  counted : r.repeatCount=(if r.sentAt.isSome then 1 else 0)+repeats r.key
  unsent : r.sentAt=none → repeats r.key=0

structure Good (s : Reminders) : Prop where
  unique : UniqueKeys LogRow.key s.rows
  sane : ∀r∈s.rows,Sane s.repeats r
  fresh : ∀k,s.rowOf k=none → s.repeats k=0
  ledger : (ledger s).Sound

variable {repeats : ReminderKey → Nat}

theorem lease_of_sane (h : Sane repeats r) (hc : r.state=.claimed) :
    ∃l,r.lease=some l ∧ r.claimToken=some l.token ∧ r.claimExpiresAt=some l.expires := by
  obtain ⟨token,ht⟩ := Option.isSome_iff_exists.mp (h.claimed.mp hc)
  obtain ⟨expires,he⟩ := Option.isSome_iff_exists.mp (h.timed ▸ h.claimed.mp hc)
  exact ⟨⟨token,expires⟩,by simp [LogRow.lease,ht,he],ht,he⟩

theorem lease_none (h : r.claimToken=none) : r.lease=none := by
  simp [LogRow.lease,h]

theorem token_of_lease {l : Lease} (h : r.lease=some l) :
    r.claimToken=some l.token ∧ r.claimExpiresAt=some l.expires := by
  unfold LogRow.lease at h
  split at h
  · rename_i ht he
    cases h
    exact ⟨ht,he⟩
  · cases h

theorem Sane.congr {repeats repeats' : ReminderKey → Nat} (h : Sane repeats r)
    (he : repeats' r.key=repeats r.key) : Sane repeats' r :=
  ⟨h.claimed,h.timed,h.confirmed,by rw [he]; exact h.counted,fun hs => by rw [he]; exact h.unsent hs⟩

theorem Sane.not_confirmed (h : Sane repeats r)
    (hs : r.state≠.confirmed) : r.confirmedAt=none := by
  cases hc : r.confirmedAt with
  | none => rfl
  | some x => exact absurd (h.confirmed.mpr (by rw [hc]; rfl)) hs

theorem heldBy_iff :
    heldBy k token r ↔ r.key=k ∧ r.state=.claimed ∧ r.claimToken=some token := by
  simp only [heldBy,Bool.and_eq_true,decide_eq_true_eq,and_assoc]

theorem repeatHeldBy_iff : repeatHeldBy k token expected r ↔
    heldBy k token r ∧ r.repeatCount=expected ∧ r.confirmedAt=none := by
  simp only [repeatHeldBy,Bool.and_eq_true,decide_eq_true_eq,and_assoc,Option.isNone_iff_eq_none]

/-! Updates -/

theorem rowOf_clearing (hf : ∀r,(f r).key=r.key) :
    (s.clearing p f).rowOf k=(s.rowOf k).map (fun r => if p r then (f r).unclaimed else r) :=
  row_updateWhere (f:=fun r => (f r).unclaimed) hf

theorem clearing_good (h : Good s) (hf : ∀r,(f r).key=r.key)
    (hsane : ∀r∈s.rows,p r → Sane repeats (f r).unclaimed)
    (hother : ∀r∈s.rows,p r=false → repeats r.key=s.repeats r.key)
    (hfresh : ∀k,s.rowOf k=none → repeats k=0) : Good {s.clearing p f with repeats := repeats} where
  unique := h.unique.updateWhere hf
  sane := by
    intro r hr
    obtain ⟨a,ha,rfl⟩ := mem_updateWhere hr
    split
    · exact hsane a ha ‹_›
    · rename_i hp
      exact (h.sane a ha).congr (hother a ha (by simpa using hp))
  fresh k hk := by
    have hrow : (s.clearing p f).rowOf k=none := hk
    rw [rowOf_clearing hf,Option.map_eq_none_iff] at hrow
    exact hfresh k hrow
  ledger := by
    have hstep : Ledger.Step (ledger s) (ledger (s.clearing p f)) :=
      Ledger.finish_of_update (f:=fun r => (f r).unclaimed) h.unique hf (fun r _ => lease_none rfl)
    exact hstep.sound h.ledger

theorem clearing_keeps (h : Good s) (hf : ∀r,(f r).key=r.key)
    (hsane : ∀r∈s.rows,p r → Sane s.repeats (f r).unclaimed) : Good (s.clearing p f) :=
  clearing_good h hf hsane (fun _ _ _ => rfl) h.fresh

/-! First deliveries and repeats -/

variable {now : Nat}

theorem claimable_free (hs : Sane repeats r)
    (h : r.state≠.claimed ∨ lapsed now r) : ∀l∈r.lease,l.expires ≤ now := by
  intro l hl
  obtain ⟨htoken,htime⟩ := token_of_lease hl
  have hclaimed : r.state=.claimed := by
    rw [hs.claimed,htoken]
    rfl
  rcases h with h | h
  · exact absurd hclaimed h
  · rw [lapsed,htime,Option.all_some,decide_eq_true_iff] at h
    exact h

theorem claimable_iff : claimable now r ↔ r.confirmedAt=none ∧ r.sentAt=none ∧
    attemptDue now r ∧ (r.state≠.claimed ∨ lapsed now r) := by
  simp only [claimable,Bool.and_eq_true,Bool.or_eq_true,Option.isNone_iff_eq_none,
    decide_eq_true_eq,and_assoc]

theorem repeatable_iff : repeatable k expected now r ↔ r.key=k ∧ r.confirmedAt=none ∧
    r.sentAt.isSome ∧ r.repeatCount=expected ∧ attemptDue now r ∧
    (r.state=.sent ∨ (r.state=.claimed ∧ lapsed now r)) := by
  simp only [repeatable,Bool.and_eq_true,Bool.or_eq_true,Option.isNone_iff_eq_none,
    decide_eq_true_eq,and_assoc]

theorem Sane.claim {expires : Nat} (h : Sane repeats r)
    (hc : r.confirmedAt=none) : Sane repeats (LogRow.claim token expires r) :=
  ⟨by simp [LogRow.claim],by simp [LogRow.claim],by simp [LogRow.claim,hc],h.counted,h.unsent⟩

theorem draw_good (h : Good s) : Good {s with drawn := s.drawn+1} :=
  ⟨h.unique,h.sane,h.fresh,Ledger.Step.draw.sound (l:=ledger s) h.ledger⟩

theorem claim_row_good {expires : Nat} (h : Good s)
    (hp : ∀r,p r → r.key=k ∧ r.confirmedAt=none ∧ (r.state≠.claimed ∨ lapsed s.now r))
    (hrow : s.rowOf k=some r) (hpr : p r) :
    Good {s with
      drawn := s.drawn+1
      rows := updateWhere p (LogRow.claim s.drawn expires) s.rows
      granted := (k,⟨s.drawn,expires⟩)::s.granted} where
  unique := h.unique.updateWhere (fun _ => rfl)
  sane := by
    intro a ha
    obtain ⟨b,hb,rfl⟩ := mem_updateWhere ha
    split
    · exact (h.sane b hb).claim (hp b ‹_›).2.1
    · exact h.sane b hb
  fresh j hj := by
    have hkey : ∀r : LogRow,(LogRow.claim s.drawn expires r).key=r.key := fun _ => rfl
    exact h.fresh j ((row_updateWhere_eq_none hkey).mp hj)
  ledger := by
    change (Ledger.ofRows LogRow.key LogRow.lease s.now (s.drawn+1)
      (updateWhere p (LogRow.claim s.drawn expires) s.rows) (_::s.granted) s.ended).Sound
    refine (Ledger.grant_of_update ?_ (fun r hr => (hp r hr).1) hrow hpr ?_ ?_).sound h.ledger
    · exact fun _ => rfl
    · exact claimable_free (h.sane r (mem_of_row hrow)) (hp r hpr).2.2
    · rfl

theorem claim_new_good {expires : Nat} (h : Good s) (hrow : s.rowOf k=none) :
    Good {s with
      drawn := s.drawn+1
      rows := s.rows++[claimedRow k s.drawn expires]
      granted := (k,⟨s.drawn,expires⟩)::s.granted} where
  unique := h.unique.append (row_eq_none hrow)
  sane := by
    intro r hr
    rcases List.mem_append.mp hr with hr | hr
    · exact h.sane r hr
    · rw [List.mem_singleton.mp hr]
      exact ⟨by simp [claimedRow],by simp [claimedRow],by simp [claimedRow],
        by simp [claimedRow,h.fresh k hrow],fun _ => h.fresh k hrow⟩
  fresh j hj := by
    change row LogRow.key (s.rows++[_]) j=none at hj
    rw [row_append] at hj
    exact h.fresh j (Option.or_eq_none_iff.mp hj).1
  ledger := by
    change (Ledger.ofRows LogRow.key LogRow.lease s.now (s.drawn+1)
      (s.rows++[claimedRow k s.drawn expires]) ((LogRow.key (claimedRow k s.drawn expires),_)::_)
      s.ended).Sound
    refine (Ledger.grant_of_append ?_ ?_).sound h.ledger
    · exact hrow
    · rfl

theorem claimReminder_good (h : Good s) : Good (s.claimReminder k leaseSeconds).1 := by
  unfold claimReminder
  split
  · exact h
  · simp only
    split
    · rename_i hfree
      cases hrow : s.rowOf k with
      | none =>
        rw [upsert_of_none (by exact hrow)]
        exact claim_new_good h hrow
      | some r =>
        have hclaim : claimable s.now r := by simpa [hrow] using hfree
        rw [upsert_of_some (by exact hrow)]
        refine claim_row_good h ?_ hrow ?_
        · intro a ha
          rw [Bool.and_eq_true,decide_eq_true_iff] at ha
          have hcl := claimable_iff.mp ha.2
          exact ⟨ha.1,hcl.1,hcl.2.2.2⟩
        · rw [Bool.and_eq_true,decide_eq_true_iff]
          exact ⟨row_key hrow,hclaim⟩
    · exact draw_good h

theorem claimReminderRepeat_good (h : Good s) :
    Good (s.claimReminderRepeat k expected leaseSeconds).1 := by
  unfold claimReminderRepeat
  split
  · exact h
  · simp only
    split
    · rename_i hcount
      obtain ⟨r,hrow,hrepeat⟩ :=
        (h.unique.countP_eq_one (k:=k) (fun r hr => (repeatable_iff.mp hr).1)).mp hcount
      refine claim_row_good h ?_ hrow hrepeat
      intro a ha
      obtain ⟨hk,hc,_,_,_,hs⟩ := repeatable_iff.mp ha
      refine ⟨hk,hc,?_⟩
      rcases hs with hs | hs
      · exact Or.inl (by rw [hs]; simp)
      · exact Or.inr hs.2
    · exact draw_good h

theorem completeReminderClaim_good (h : Good s) : Good (s.completeReminderClaim k token).1 := by
  refine clearing_keeps h (fun _ => rfl) (fun r hr hp => ?_)
  have hs := h.sane r hr
  have hclaimed := (heldBy_iff.mp hp).2.1
  have hopen := hs.not_confirmed (by rw [hclaimed]; simp)
  have hcount : max r.repeatCount 1=1+s.repeats r.key := by
    rw [hs.counted]
    cases hsent : r.sentAt with
    | none => simp [hs.unsent hsent]
    | some x => simp
  exact ⟨by simp [LogRow.unclaimed],rfl,by simp [LogRow.unclaimed,hopen],
    by simp [LogRow.unclaimed,hcount],by simp [LogRow.unclaimed]⟩

theorem releaseReminderClaim_good (h : Good s) :
    Good (s.releaseReminderClaim k token retryAt).1 := by
  refine clearing_keeps h (fun _ => rfl) (fun r hr hp => ?_)
  have hs := h.sane r hr
  have hclaimed := (heldBy_iff.mp hp).2.1
  have hopen := hs.not_confirmed (by rw [hclaimed]; simp)
  exact ⟨by simp [LogRow.unclaimed],rfl,by simp [LogRow.unclaimed,hopen],hs.counted,hs.unsent⟩

theorem sent_of_repeat (hs : Sane repeats r) (he : expected≠0)
    (h : repeatHeldBy k token expected r) : r.sentAt.isSome := by
  obtain ⟨_,hcount,_⟩ := repeatHeldBy_iff.mp h
  cases hsent : r.sentAt with
  | some x => rfl
  | none =>
    have := hs.counted
    rw [hsent,hs.unsent hsent] at this
    simp only [Option.isSome_none,Bool.false_eq_true,if_false] at this
    omega

theorem completeReminderRepeat_good (h : Good s) (he : expected≠0) :
    Good (s.completeReminderRepeat k token expected).1 := by
  have hkey : ∀r,repeatHeldBy k token expected r → r.key=k :=
    fun r hr => (heldBy_iff.mp (repeatHeldBy_iff.mp hr).1).1
  unfold completeReminderRepeat
  simp only
  refine clearing_good h (fun _ => rfl) ?_ ?_ ?_
  · intro r hr hp
    have hs := h.sane r hr
    have hsent := sent_of_repeat hs he hp
    have hdone : decide (s.rows.countP (repeatHeldBy k token expected)=1)=true :=
      decide_eq_true ((h.unique.countP_eq_one hkey).mpr
        ⟨r,hkey r hp ▸ h.unique.row_of_mem hr,hp⟩)
    obtain ⟨_,_,hopen⟩ := repeatHeldBy_iff.mp hp
    have hcount : r.repeatCount+1=1+(s.repeats k+1) := by
      have := hs.counted
      rw [hsent,if_pos rfl,hkey r hp] at this
      omega
    refine ⟨by simp [LogRow.unclaimed],rfl,by simp [LogRow.unclaimed,hopen],?_,?_⟩
    · change r.repeatCount+1=(if r.sentAt.isSome then 1 else 0)+_
      rw [hdone,if_pos rfl,hsent,if_pos rfl]
      change r.repeatCount+1=1+update s.repeats k (s.repeats k+1) r.key
      rw [hkey r hp,update_self,hcount]
    · intro hnone
      change r.sentAt=none at hnone
      rw [hnone] at hsent
      cases hsent
  · intro r hr hp
    split
    · rename_i hdone
      refine update_of_ne ?_ _ _
      intro hk
      obtain ⟨a,ha,hpa⟩ := (h.unique.countP_eq_one hkey).mp (of_decide_eq_true hdone)
      have hsame : a=r := Option.some.inj (ha.symm.trans (hk ▸ h.unique.row_of_mem hr))
      rw [hsame,hp] at hpa
      cases hpa
    · rfl
  · intro j hj
    split
    · rename_i hdone
      obtain ⟨a,ha,_⟩ := (h.unique.countP_eq_one hkey).mp (of_decide_eq_true hdone)
      have hne : j≠k := by
        rintro rfl
        rw [rowOf,ha] at hj
        cases hj
      rw [update_of_ne hne]
      exact h.fresh j hj
    · exact h.fresh j hj

theorem releaseReminderRepeat_good (h : Good s) :
    Good (s.releaseReminderRepeat k token expected retryAt).1 := by
  refine clearing_keeps h (fun _ => rfl) (fun r hr hp => ?_)
  have hs := h.sane r hr
  obtain ⟨_,_,hopen⟩ := repeatHeldBy_iff.mp hp
  exact ⟨by simp [LogRow.unclaimed],rfl,by simp [LogRow.unclaimed,hopen],hs.counted,hs.unsent⟩

/-! Logging, confirming, reopening -/

theorem append_good {new : LogRow} (h : Good s) (hrow : s.rowOf new.key=none)
    (hsane : Sane s.repeats new) (hopen : new.claimToken=none) :
    Good {s with rows := s.rows++[new]} where
  unique := h.unique.append (row_eq_none hrow)
  sane := by
    intro r hr
    rcases List.mem_append.mp hr with hr | hr
    · exact h.sane r hr
    · rw [List.mem_singleton.mp hr]
      exact hsane
  fresh j hj := by
    change row LogRow.key (s.rows++[new]) j=none at hj
    rw [row_append] at hj
    exact h.fresh j (Option.or_eq_none_iff.mp hj).1
  ledger := by
    have hsame : ledger {s with rows := s.rows++[new]}=ledger s := by
      unfold ledger Ledger.ofRows
      rw [Ledger.holderOf_append (lease_none hopen)]
    rw [hsame]
    exact h.ledger

/-- A call of `log_reminder` that meets no confirmed row, and inserts none that was not sent. -/
def ProperLog (s : Reminders) (k : ReminderKey) (sent : Bool) : Prop :=
  if sent then ∀r∈s.rowOf k,r.confirmedAt=none else (s.rowOf k).isSome

theorem logReminder_good {sent : Bool} (h : Good s) (hproper : ProperLog s k sent) :
    Good (s.logReminder k sent) := by
  unfold logReminder ProperLog at *
  cases hrow : s.rowOf k with
  | none =>
    cases sent with
    | false => simp [hrow] at hproper
    | true =>
      refine append_good h hrow ⟨by simp [loggedRow],rfl,by simp [loggedRow],?_,?_⟩ rfl
      · simp [loggedRow,h.fresh k hrow]
      · simp [loggedRow]
  | some r =>
    cases sent with
    | false => exact h
    | true =>
      have hopen : r.confirmedAt=none := by simpa [hrow] using hproper
      have hs := h.sane r (mem_of_row hrow)
      have hk := row_key hrow
      have honly : ∀a∈s.rows,a.key=k → a=r := by
        intro a ha hak
        exact Option.some.inj ((hak ▸ h.unique.row_of_mem ha).symm.trans hrow)
      refine clearing_good h (fun _ => rfl) ?_ ?_ ?_
      · intro a ha hp
        have hsame := honly a ha (of_decide_eq_true hp)
        subst hsame
        refine ⟨by simp [LogRow.unclaimed],rfl,by simp [LogRow.unclaimed,hopen],?_,
          by simp [LogRow.unclaimed]⟩
        change a.repeatCount+1=1+_
        have hcount := hs.counted
        cases hsent : a.sentAt with
        | none =>
          rw [hsent] at hcount
          simp only [Option.isSome_none,Bool.false_eq_true,if_false] at hcount ⊢
          change a.repeatCount+1=1+s.repeats a.key
          omega
        | some x =>
          rw [hsent] at hcount
          simp only [Option.isSome_some,if_true] at hcount ⊢
          change a.repeatCount+1=1+update s.repeats k (s.repeats k+1) a.key
          rw [hk,update_self,hcount,hk]
          omega
      · intro a ha hp
        have hne : a.key≠k := of_decide_eq_false hp
        split
        · exact update_of_ne hne _ _
        · rfl
      · intro j hj
        have hne : j≠k := by
          rintro rfl
          rw [hrow] at hj
          cases hj
        split
        · rw [update_of_ne hne]
          exact h.fresh j hj
        · exact h.fresh j hj

theorem confirm_sane {stamp : Nat} {userAction : Text}
    (h : Sane repeats r) : Sane repeats (LogRow.confirm stamp userAction r).unclaimed :=
  ⟨by simp [LogRow.confirm,LogRow.unclaimed],rfl,by simp [LogRow.confirm,LogRow.unclaimed],
    h.counted,h.unsent⟩

theorem upsertConfirmed_good {stamp : Nat} {userAction : Text} (h : Good s) :
    Good (s.upsertConfirmed k stamp userAction) := by
  unfold upsertConfirmed
  cases hrow : s.rowOf k with
  | none =>
    refine append_good h hrow ⟨by simp [confirmedRow],rfl,by simp [confirmedRow],?_,?_⟩ rfl
    · simp [confirmedRow,h.fresh k hrow]
    · simp [confirmedRow,h.fresh k hrow]
  | some r => exact clearing_keeps h (fun _ => rfl) (fun r hr _ => confirm_sane (h.sane r hr))

theorem confirmWrite_good {c : Confirmation} {view : Option ItemView} (h : Good s) :
    Good (s.confirmWrite c view) := by
  unfold confirmWrite
  split
  · unfold insertConfirmForUnsent
    split
    · split
      · exact h
      · split
        · exact h
        · split
          · exact h
          · exact upsertConfirmed_good h
    · exact h
  · exact clearing_keeps h (fun _ => rfl) (fun r hr _ => confirm_sane (h.sane r hr))

theorem preconfirm_sane (h : Sane repeats r) :
    Sane repeats (LogRow.preconfirm now r).unclaimed :=
  ⟨⟨fun hc => (by cases hc),fun hc => (by cases hc)⟩,rfl,⟨fun _ => rfl,fun _ => rfl⟩,h.counted,
    h.unsent⟩

theorem reopen_sane (h : repeats r.key=0) :
    Sane repeats (LogRow.reopen r).unclaimed :=
  ⟨⟨fun hc => (by cases hc),fun hc => (by cases hc)⟩,rfl,
    ⟨fun hc => (by cases hc),fun hc => (by cases hc)⟩,
    by simp [LogRow.reopen,LogRow.unclaimed,h],fun _ => h⟩

theorem fill_good (h : Good s) : Good {s with
    rows := upsert LogRow.key (pendingRow k) (fun _ => true) (LogRow.fill k.time) s.rows} := by
  cases hrow : s.rowOf k with
  | none =>
    rw [upsert_of_none (by exact hrow)]
    refine append_good h hrow ⟨by simp [pendingRow],rfl,by simp [pendingRow],?_,?_⟩ rfl
    · simp [pendingRow,h.fresh k hrow]
    · simp [pendingRow,h.fresh k hrow]
  | some r =>
    rw [upsert_of_some (by exact hrow)]
    refine ⟨h.unique.updateWhere (fun _ => rfl),?_,?_,?_⟩
    · intro a ha
      obtain ⟨b,hb,rfl⟩ := mem_updateWhere ha
      have hs := h.sane b hb
      split
      · exact ⟨hs.claimed,hs.timed,hs.confirmed,hs.counted,hs.unsent⟩
      · exact hs
    · intro j hj
      have hkey : ∀r : LogRow,(LogRow.fill k.time r).key=r.key := fun _ => rfl
      exact h.fresh j ((row_updateWhere_eq_none hkey).mp hj)
    · unfold ledger Ledger.ofRows
      simp only
      have hkeep : Ledger.holderOf LogRow.key LogRow.lease (updateWhere
          (fun r => decide (r.key=(pendingRow k).key) && true) (LogRow.fill k.time) s.rows)=
          Ledger.holderOf LogRow.key LogRow.lease s.rows :=
        Ledger.holderOf_keep (fun _ => rfl) (fun _ _ _ => rfl)
      rw [hkeep]
      exact h.ledger

theorem setFuture_good {owner : Text} {confirmed : Bool} {view : Option ItemView} (h : Good s) :
    Good (s.setFuture k owner confirmed view) := by
  unfold setFuture
  split
  · exact h
  · split
    · simp only
      have hfill := fill_good (k:=k) h
      split
      · exact clearing_keeps hfill (fun _ => rfl) (fun r hr _ => preconfirm_sane (hfill.sane r hr))
      · refine clearing_good hfill (fun _ => rfl) (fun r hr hp => ?_) (fun r hr hp => ?_) (fun j hj => ?_)
        · have hk : r.key=k := of_decide_eq_true hp
          have hzero : update s.repeats k 0 r.key=0 := by
            rw [hk,update_self]
          exact reopen_sane hzero
        · exact update_of_ne (of_decide_eq_false hp) _ _
        · by_cases hjk : j=k
          · rw [hjk,update_self]
          · rw [update_of_ne hjk]
            exact hfill.fresh j hj
    · exact h

theorem expire_good (h : Good s) : Good s.expire :=
  clearing_keeps h (fun _ => rfl) (fun r hr _ => confirm_sane (h.sane r hr))

end Reminders

end XiaoQing.Pendo
