import XiaoQing.Pendo.ReminderRun

namespace XiaoQing.Pendo

open Framework Commands

namespace Reminders

variable {s t : Reminders} {k : ReminderKey} {r : LogRow} {token expected leaseSeconds : Nat}
  {retryAt : Option Nat} {p : LogRow → Bool} {f : LogRow → LogRow} {call : Nat × Act}

/-- The calls in which `log_reminder` meets no confirmed row and inserts none that was not sent. -/
def Proper (s : Reminders) (call : Nat × Act) : Prop :=
  match call.2 with
  | .log k sent => ProperLog s k sent
  | _ => True

theorem perform_good {a : Act} (h : Good s)
    (hproper : ∀k sent,a=.log k sent → ProperLog s k sent) (hstep : s.perform a=some t) : Good t := by
  cases a with
  | claim k leaseSeconds =>
    cases hstep
    exact claimReminder_good h
  | complete k token =>
    cases hstep
    exact completeReminderClaim_good h
  | release k token retryAt =>
    cases hstep
    exact releaseReminderClaim_good h
  | claimRepeat k expected leaseSeconds =>
    cases hstep
    exact claimReminderRepeat_good h
  | completeRepeat k token expected =>
    simp only [perform] at hstep
    split at hstep
    · cases hstep
    · cases hstep
      exact completeReminderRepeat_good h ‹_›
  | releaseRepeat k token expected retryAt =>
    simp only [perform] at hstep
    split at hstep
    · cases hstep
    · cases hstep
      exact releaseReminderRepeat_good h
  | log k sent =>
    cases hstep
    exact logReminder_good h (hproper k sent rfl)
  | confirmRead item userAction owner remindTime allowFuture view =>
    cases hstep
    exact ⟨h.unique,h.sane,h.fresh,h.ledger⟩
  | confirmWrite i view =>
    obtain ⟨c,_,rfl⟩ := Option.map_eq_some_iff.mp hstep
    exact confirmWrite_good h
  | setFuture k owner confirmed view =>
    cases hstep
    exact setFuture_good h
  | expire =>
    cases hstep
    exact expire_good h

theorem step_good (h : Good s) (hproper : Proper s call) (hstep : s.step call=some t) : Good t := by
  unfold step at hstep
  split at hstep
  · rename_i hnow
    have hpass : Good {s with now := call.1} :=
      ⟨h.unique,h.sane,h.fresh,(Ledger.Step.pass (l:=ledger s) hnow).sound h.ledger⟩
    refine perform_good hpass ?_ hstep
    intro k sent he
    unfold Proper at hproper
    rw [he] at hproper
    exact hproper
  · cases hstep

theorem new_good : Good new where
  unique := List.nodup_nil
  sane := by simp [new]
  fresh _ _ := rfl
  ledger := by
    have hstart : ledger new=Ledger.start := by
      simp only [ledger,Ledger.ofRows,new,Ledger.start,List.not_mem_nil]
      rfl
    rw [hstart]
    exact Ledger.start_sound

theorem run_good (h : Reach step Proper (·=new) s) : Good s := by
  refine h.invariant ?_ (fun s call t hs hproper hstep => step_good hs hproper hstep)
  rintro _ rfl
  exact new_good

/-! What only a reopening undoes -/

structure Follows (r r' : LogRow) : Prop where
  confirmed : r.confirmedAt.isSome → r'.confirmedAt.isSome
  sent : ∀x,r.sentAt=some x → r'.sentAt=some x

theorem Follows.refl (r : LogRow) : Follows r r := ⟨id,fun _ h => h⟩

theorem Follows.trans {a b c : LogRow} (h : Follows a b) (h' : Follows b c) : Follows a c :=
  ⟨fun hc => h'.confirmed (h.confirmed hc),fun x hx => h'.sent x (h.sent x hx)⟩

def Act.Reopens (k : ReminderKey) : Act → Prop
  | .setFuture j _ confirmed _ => j=k ∧ confirmed=false
  | _ => False

def Kept (k : ReminderKey) (s t : Reminders) : Prop :=
  ∀r,s.rowOf k=some r → ∃r',t.rowOf k=some r' ∧ Follows r r'

theorem Kept.refl (k : ReminderKey) (s : Reminders) : Kept k s s :=
  fun r hr => ⟨r,hr,.refl r⟩

theorem Kept.trans {u : Reminders} (h : Kept k s t) (h' : Kept k t u) : Kept k s u := by
  intro r hr
  obtain ⟨r',hr',hfollows⟩ := h r hr
  obtain ⟨r'',hr'',hfollows'⟩ := h' r' hr'
  exact ⟨r'',hr'',hfollows.trans hfollows'⟩

theorem kept_update (ht : t.rows=updateWhere p f s.rows) (hf : ∀r,(f r).key=r.key)
    (hfollows : ∀r,p r → r.key=k → Follows r (f r)) : Kept k s t := by
  intro r hr
  refine ⟨if p r then f r else r,?_,?_⟩
  · unfold rowOf at hr ⊢
    rw [ht,row_updateWhere hf,hr]
    rfl
  · split
    · exact hfollows r ‹_› (row_key hr)
    · exact .refl r

theorem kept_append {new : LogRow} (ht : t.rows=s.rows++[new]) : Kept k s t := by
  intro r hr
  refine ⟨r,?_,.refl r⟩
  unfold rowOf at hr ⊢
  rw [ht,row_append,hr]
  rfl

theorem kept_upsert {new : LogRow} (ht : t.rows=upsert LogRow.key new p f s.rows)
    (hf : ∀r,(f r).key=r.key) (hfollows : ∀r,Follows r (f r)) : Kept k s t := by
  cases hrow : row LogRow.key s.rows new.key with
  | none =>
    rw [upsert_of_none hrow] at ht
    exact kept_append ht
  | some a =>
    rw [upsert_of_some hrow] at ht
    exact kept_update ht hf (fun r _ _ => hfollows r)

theorem confirm_follows {stamp : Nat} {userAction : Text} :
    Follows r (LogRow.confirm stamp userAction r).unclaimed := ⟨fun _ => rfl,fun _ h => h⟩

theorem getD_follows {o : Option Nat} {now x : Nat} (h : o=some x) : some (o.getD now)=some x := by
  rw [h]
  rfl

theorem kept_upsertConfirmed {j : ReminderKey} {stamp : Nat} {userAction : Text} :
    Kept k s (s.upsertConfirmed j stamp userAction) := by
  unfold upsertConfirmed
  split
  · exact kept_append rfl
  · exact kept_update rfl (fun _ => rfl) (fun _ _ _ => confirm_follows)

theorem perform_kept {a : Act} (hopen : ¬a.Reopens k) (hstep : s.perform a=some t) : Kept k s t := by
  cases a with
  | claim j leaseSeconds =>
    cases hstep
    simp only [claimReminder]
    split
    · exact .refl k s
    · split
      · exact kept_upsert rfl (fun _ => rfl) (fun _ => ⟨fun h => h,fun _ h => h⟩)
      · exact fun r hr => ⟨r,hr,.refl r⟩
  | complete j token =>
    cases hstep
    exact kept_update rfl (fun _ => rfl) (fun _ _ _ => ⟨fun h => h,fun _ h => getD_follows h⟩)
  | release j token retryAt =>
    cases hstep
    exact kept_update rfl (fun _ => rfl) (fun _ _ _ => ⟨fun h => h,fun _ h => h⟩)
  | claimRepeat j expected leaseSeconds =>
    cases hstep
    simp only [claimReminderRepeat]
    split
    · exact .refl k s
    · split
      · exact kept_update rfl (fun _ => rfl) (fun _ _ _ => ⟨fun h => h,fun _ h => h⟩)
      · exact fun r hr => ⟨r,hr,.refl r⟩
  | completeRepeat j token expected =>
    simp only [perform] at hstep
    split at hstep
    · cases hstep
    · cases hstep
      exact kept_update rfl (fun _ => rfl) (fun _ _ _ => ⟨fun h => h,fun _ h => h⟩)
  | releaseRepeat j token expected retryAt =>
    simp only [perform] at hstep
    split at hstep
    · cases hstep
    · cases hstep
      exact kept_update rfl (fun _ => rfl) (fun _ _ _ => ⟨fun h => h,fun _ h => h⟩)
  | log j sent =>
    cases hstep
    simp only [logReminder]
    split
    · exact kept_append rfl
    · split
      · exact kept_update rfl (fun _ => rfl) (fun _ _ _ => ⟨fun h => h,fun _ h => getD_follows h⟩)
      · exact .refl k s
  | confirmRead item userAction owner remindTime allowFuture view =>
    cases hstep
    exact fun r hr => ⟨r,hr,.refl r⟩
  | confirmWrite i view =>
    obtain ⟨c,_,rfl⟩ := Option.map_eq_some_iff.mp hstep
    unfold confirmWrite
    split
    · unfold insertConfirmForUnsent
      split
      · split
        · exact .refl k s
        · split
          · exact .refl k s
          · split
            · exact .refl k s
            · exact kept_upsertConfirmed
      · exact .refl k s
    · exact kept_update rfl (fun _ => rfl) (fun _ _ _ => confirm_follows)
  | setFuture j owner confirmed view =>
    cases hstep
    simp only [setFuture]
    split
    · exact .refl k s
    · split
      · have hfill : Kept k s {s with
            rows := upsert LogRow.key (pendingRow j) (fun _ => true) (LogRow.fill j.time) s.rows} :=
          kept_upsert rfl (fun _ => rfl) (fun _ => ⟨fun h => h,fun _ h => h⟩)
        split
        · exact hfill.trans
            (kept_update rfl (fun _ => rfl) (fun _ _ _ => ⟨fun _ => rfl,fun _ h => h⟩))
        · rename_i hconfirmed
          refine hfill.trans (kept_update rfl (fun _ => rfl) (fun r hp hk => ?_))
          have hj : j=k := by
            rw [←hk]
            exact (of_decide_eq_true hp).symm
          exact absurd ⟨hj,by simpa using hconfirmed⟩ hopen
      · exact .refl k s
  | expire =>
    cases hstep
    exact kept_update rfl (fun _ => rfl) (fun _ _ _ => confirm_follows)

abbrev LaterClosed (k : ReminderKey) : Reminders → Reminders → Prop :=
  Relation.ReflTransGen (fun s t =>
    ∃call : Nat × Act,¬call.2.Reopens k ∧ Proper s call ∧ s.step call=some t)

theorem later_kept (h : LaterClosed k s t) : Kept k s t := by
  induction h with
  | refl => exact .refl k _
  | tail _ hstep ih =>
    obtain ⟨call,hopen,_,hcall⟩ := hstep
    refine ih.trans ?_
    unfold step at hcall
    split at hcall
    · have hkept := perform_kept (k:=k) hopen hcall
      exact hkept
    · cases hcall

theorem later_good (h : LaterClosed k s t) (hs : Good s) : Good t := by
  induction h with
  | refl => exact hs
  | tail _ hstep ih =>
    obtain ⟨call,_,hproper,hcall⟩ := hstep
    exact step_good ih hproper hcall

theorem confirmed_not_claimed (hrow : s.rowOf k=some r) (hc : r.confirmedAt.isSome)
    (hunique : UniqueKeys LogRow.key s.rows) :
    (s.claimReminder k leaseSeconds).2=none ∧
      (s.claimReminderRepeat k expected leaseSeconds).2=none := by
  constructor
  · unfold claimReminder
    split
    · rfl
    · have hno : ¬(s.rowOf k).all (claimable s.now)=true := by
        rw [hrow,Option.all_some]
        intro h
        rw [(claimable_iff.mp h).1] at hc
        cases hc
      simp only
      rw [if_neg hno]
  · unfold claimReminderRepeat
    split
    · rfl
    · simp only
      rw [if_neg]
      intro hcount
      obtain ⟨a,ha,hrepeat⟩ :=
        (hunique.countP_eq_one (k:=k) (fun r hr => (repeatable_iff.mp hr).1)).mp hcount
      have hsame : a=r := Option.some.inj (ha.symm.trans hrow)
      rw [hsame] at hrepeat
      rw [(repeatable_iff.mp hrepeat).2.1] at hc
      cases hc

/-! Only the current token settles -/

/-- The token is the one that the reminder is held by now: the last handed out for it, and neither
used nor taken away. -/
def Current (s : Reminders) (k : ReminderKey) (token : Nat) : Prop :=
  ∃l,(ledger s).holder k=some l ∧ l.token=token ∧ (ledger s).last k=some l ∧ token∉s.ended

theorem settles_iff (h : Good s) : s.rows.countP (heldBy k token)=1 ↔ Current s k token := by
  rw [h.unique.countP_eq_one (k:=k) (fun r hr => (heldBy_iff.mp hr).1)]
  constructor
  · rintro ⟨r,hrow,hheld⟩
    obtain ⟨_,hclaimed,htoken⟩ := heldBy_iff.mp hheld
    obtain ⟨l,hl,hlt,_⟩ := lease_of_sane (h.sane r (mem_of_row hrow)) hclaimed
    have hholder : (ledger s).holder k=some l := by
      change Ledger.holderOf _ _ _ _=_
      rw [Ledger.holderOf,hrow]
      exact hl
    have hsame : l.token=token := Option.some.inj (hlt.symm.trans htoken)
    obtain ⟨hlast,hkept⟩ := h.ledger.held_last hholder
    exact ⟨l,hholder,hsame,hlast,hsame ▸ hkept⟩
  · rintro ⟨l,hholder,rfl,_⟩
    obtain ⟨r,hrow,hl⟩ := Option.bind_eq_some_iff.mp hholder
    obtain ⟨htoken,_⟩ := token_of_lease hl
    have hclaimed : r.state=.claimed := by
      rw [(h.sane r (mem_of_row hrow)).claimed,htoken]
      rfl
    exact ⟨r,hrow,heldBy_iff.mpr ⟨row_key hrow,hclaimed,htoken⟩⟩

theorem current_of_repeat (h : Good s) (hcount : s.rows.countP (repeatHeldBy k token expected)=1) :
    Current s k token := by
  have hkey : ∀r,repeatHeldBy k token expected r → r.key=k :=
    fun r hr => (heldBy_iff.mp (repeatHeldBy_iff.mp hr).1).1
  obtain ⟨r,hrow,hheld⟩ := (h.unique.countP_eq_one hkey).mp hcount
  rw [←settles_iff h]
  exact (h.unique.countP_eq_one (k:=k) (fun r hr => (heldBy_iff.mp hr).1)).mpr
    ⟨r,hrow,(repeatHeldBy_iff.mp hheld).1⟩

/-- In every run of any number of workers in which `log_reminder` meets no confirmed row and inserts
none unsent: one live lease for a reminder; only the current token settles; the columns agree;
without a reopening a confirmed reminder is not claimed again and the time of sending stays; the
count is one delivery and its repeats. -/
theorem reminder_leases (h : Reach step Proper (·=new) s) :
    (∀k l l',(ledger s).Live k l → (ledger s).Live k l' → l=l') ∧
    (∀k token,(s.completeReminderClaim k token).2=true ↔ Current s k token) ∧
    (∀k token retryAt,(s.releaseReminderClaim k token retryAt).2=true ↔ Current s k token) ∧
    (∀k token expected,(s.completeReminderRepeat k token expected).2=true → Current s k token) ∧
    (∀k token expected retryAt,(s.releaseReminderRepeat k token expected retryAt).2=true →
      Current s k token) ∧
    (∀r∈s.rows,(r.state=.confirmed ↔ r.confirmedAt.isSome) ∧
      (r.state=.claimed ↔ r.claimToken.isSome)) ∧
    (∀k r t,s.rowOf k=some r → LaterClosed k s t → ∃r',t.rowOf k=some r' ∧ Follows r r' ∧
      (r.confirmedAt.isSome → ∀now leaseSeconds expected,
        (claimReminder {t with now := now} k leaseSeconds).2=none ∧
          (claimReminderRepeat {t with now := now} k expected leaseSeconds).2=none)) ∧
    ∀r∈s.rows,r.repeatCount=(if r.sentAt.isSome then 1 else 0)+s.repeats r.key := by
  have hgood := run_good h
  refine ⟨fun _ _ _ => hgood.ledger.live_unique,fun k token => ?_,fun k token retryAt => ?_,
    fun k token expected hdone => ?_,fun k token expected retryAt hdone => ?_,
    fun r hr => ⟨(hgood.sane r hr).confirmed,(hgood.sane r hr).claimed⟩,?_,
    fun r hr => (hgood.sane r hr).counted⟩
  · rw [←settles_iff hgood]
    exact decide_eq_true_iff
  · rw [←settles_iff hgood]
    exact decide_eq_true_iff
  · exact current_of_repeat hgood (of_decide_eq_true hdone)
  · exact current_of_repeat hgood (of_decide_eq_true hdone)
  · intro k r t hrow hlater
    obtain ⟨r',hrow',hfollows⟩ := later_kept hlater r hrow
    refine ⟨r',hrow',hfollows,fun hc now leaseSeconds expected => ?_⟩
    have hunique : UniqueKeys LogRow.key t.rows := (later_good hlater hgood).unique
    exact confirmed_not_claimed (s:={t with now := now}) hrow' (hfollows.confirmed hc) hunique

def morning : ReminderKey := ⟨"a1b2".toList,100⟩

def morningItem : Option ItemView := some ⟨"1001".toList,true,true,some [⟨true,some 100⟩]⟩

def deliveredTwice : List (Nat × Act) :=
  [(100,.claim morning 120),(101,.complete morning 0),(500,.claimRepeat morning 1 120),
    (502,.completeRepeat morning 1 1),
    (503,.confirmRead morning.item "confirmed".toList none none false morningItem),
    (503,.confirmWrite 0 morningItem)]

theorem reminder_leases_example :
    ∃s,execute step new deliveredTwice=some s ∧
      (∃r∈s.rows,r.sentAt=some 101 ∧ r.confirmedAt=some 503 ∧ r.repeatCount=2) ∧
      ∀r∈s.rows,(r.state=.confirmed ↔ r.confirmedAt.isSome) ∧
        (r.state=.claimed ↔ r.claimToken.isSome) := by
  refine ⟨_,rfl,⟨_,List.mem_cons_self,rfl,rfl,rfl⟩,?_⟩
  have hproper : ∀call∈deliveredTwice,∀u,Proper u call := by
    intro call hcall u
    simp only [deliveredTwice,List.mem_cons,List.not_mem_nil,or_false] at hcall
    rcases hcall with rfl | rfl | rfl | rfl | rfl | rfl <;> trivial
  exact (reminder_leases (Reach.execute deliveredTwice hproper (.start rfl) rfl)).2.2.2.2.2.1

def loggedLate : List (Nat × Act) :=
  [(10,.log morning true),
    (20,.confirmRead morning.item "confirmed".toList none none false morningItem),
    (20,.confirmWrite 0 morningItem),(30,.log morning true)]

/-- It leaves a row that is confirmed and says sent. -/
theorem log_overrides_confirmation :
    ∃s,Reach step Free (·=new) s ∧ ∃r∈s.rows,r.confirmedAt=some 20 ∧ r.state=.sent := by
  refine ⟨_,Reach.execute loggedLate (fun _ _ _ => trivial) (.start rfl) rfl,?_⟩
  exact ⟨_,List.mem_cons_self,rfl,rfl⟩

end Reminders

end XiaoQing.Pendo
