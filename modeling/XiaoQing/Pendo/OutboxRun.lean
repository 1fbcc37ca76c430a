import XiaoQing.Pendo.Outbox

namespace XiaoQing.Pendo

open Framework Commands

namespace Outbox

variable {sha256 : Text → Text} {s t : Outbox} {raw identity : Identity} {token leaseSeconds : Nat}
  {retryAt : Option Nat} {r : OutboxRow}

def ledger (s : Outbox) : Ledger Identity :=
  Ledger.ofRows OutboxRow.identity OutboxRow.lease s.now s.drawn s.rows s.granted s.ended

abbrev rowOf (s : Outbox) (identity : Identity) : Option OutboxRow :=
  row OutboxRow.identity s.rows identity

def Coupled (r : OutboxRow) : Prop :=
  (r.state=.leased ↔ r.claimToken.isSome) ∧ r.claimToken.isSome=r.claimExpiresAt.isSome

structure GoodRows (sha256 : Text → Text) (rows : List OutboxRow) : Prop where
  unique : UniqueKeys OutboxRow.identity rows
  keyed : ∀r∈rows,r.deliveryKey=keyOf sha256 r.identity
  distinct : UniqueKeys OutboxRow.deliveryKey rows
  coupled : ∀r∈rows,Coupled r

structure Good (sha256 : Text → Text) (s : Outbox) : Prop where
  rows : GoodRows sha256 s.rows
  ledger : (ledger s).Sound

theorem lease_of_coupled (h : Coupled r) (hl : r.state=.leased) :
    ∃l,r.lease=some l ∧ r.claimToken=some l.token ∧ r.claimExpiresAt=some l.expires := by
  obtain ⟨token,ht⟩ := Option.isSome_iff_exists.mp (h.1.mp hl)
  obtain ⟨expires,he⟩ := Option.isSome_iff_exists.mp (h.2 ▸ h.1.mp hl)
  exact ⟨⟨token,expires⟩,by simp [OutboxRow.lease,ht,he],ht,he⟩

theorem lease_none (h : r.claimToken=none) : r.lease=none := by
  simp [OutboxRow.lease,h]

theorem token_of_lease {l : Lease} (h : r.lease=some l) : r.claimToken=some l.token := by
  unfold OutboxRow.lease at h
  split at h
  · rename_i ht he
    cases h
    exact ht
  · cases h

variable {now : Nat}

theorem newRow_coupled : Coupled (newRow sha256 identity now) := by
  simp [Coupled,newRow]

theorem claimable_identity (h : claimable identity now r) : r.identity=identity := by
  simp only [claimable,Bool.and_eq_true,decide_eq_true_eq] at h
  exact h.1.1

theorem claimable_free (hc : Coupled r) (h : claimable identity now r) :
    ∀l∈r.lease,l.expires ≤ now := by
  intro l hl
  simp only [claimable,Bool.and_eq_true,Bool.or_eq_true,decide_eq_true_eq] at h
  have hleased : r.state=.leased := by
    rw [hc.1,token_of_lease hl]
    rfl
  obtain ⟨l',hl',_,htime⟩ := lease_of_coupled hc hleased
  have hsame : l=l' := Option.some.inj (hl.symm.trans hl')
  rcases h.2 with (hp | hp) | hp
  · rw [hleased] at hp
    cases hp
  · rw [hleased] at hp
    cases hp
  · rw [htime,Option.all_some,decide_eq_true_iff] at hp
    exact hsame ▸ hp.2

theorem heldBy_iff :
    heldBy identity token r ↔ r.identity=identity ∧ r.state=.leased ∧ r.claimToken=some token := by
  simp only [heldBy,Bool.and_eq_true,decide_eq_true_eq,and_assoc]

/-! One update of the table -/

variable {p : OutboxRow → Bool}

variable {f : OutboxRow → OutboxRow}

theorem GoodRows.update {rows : List OutboxRow}
    (h : GoodRows sha256 rows) (hf : ∀r,(f r).identity=r.identity ∧ (f r).deliveryKey=r.deliveryKey)
    (hcoupled : ∀r,Coupled (f r)) : GoodRows sha256 (updateWhere p f rows) where
  unique := h.unique.updateWhere (fun r => (hf r).1)
  keyed := by
    intro r hr
    obtain ⟨a,ha,rfl⟩ := mem_updateWhere hr
    split
    · rw [(hf a).1,(hf a).2]
      exact h.keyed a ha
    · exact h.keyed a ha
  distinct := h.distinct.updateWhere (fun r => (hf r).2)
  coupled := by
    intro r hr
    obtain ⟨a,ha,rfl⟩ := mem_updateWhere hr
    split
    · exact hcoupled a
    · exact h.coupled a ha

variable {rows rows' : List OutboxRow}

theorem enqueue_ok
    (h : enqueue sha256 identity now rows=some rows') :
    ((row OutboxRow.identity rows identity).isSome ∧ rows'=rows) ∨
      (row OutboxRow.identity rows identity=none ∧
        (∀r∈rows,r.deliveryKey≠keyOf sha256 identity) ∧
        rows'=rows++[newRow sha256 identity now]) := by
  unfold enqueue at h
  split at h
  · rename_i hsome
    exact Or.inl ⟨hsome,(Option.some.inj h).symm⟩
  · rename_i hnone
    split at h
    · cases h
    · rename_i hany
      refine Or.inr ⟨by simpa using hnone,?_,(Option.some.inj h).symm⟩
      intro r hr he
      exact hany (List.any_eq_true.mpr ⟨r,hr,decide_eq_true he⟩)

theorem enqueue_rows
    (h : enqueue sha256 identity now rows=some rows') (hrows : GoodRows sha256 rows) :
    GoodRows sha256 rows' ∧ Ledger.holderOf OutboxRow.identity OutboxRow.lease rows'=
      Ledger.holderOf OutboxRow.identity OutboxRow.lease rows := by
  rcases enqueue_ok h with ⟨_,rfl⟩ | ⟨hnone,hkeys,rfl⟩
  · exact ⟨hrows,rfl⟩
  · refine ⟨⟨hrows.unique.append (row_eq_none hnone),?_,hrows.distinct.append hkeys,?_⟩,
      Ledger.holderOf_append rfl⟩
    · intro r hr
      rcases List.mem_append.mp hr with hr | hr
      · exact hrows.keyed r hr
      · rw [List.mem_singleton.mp hr]
        rfl
    · intro r hr
      rcases List.mem_append.mp hr with hr | hr
      · exact hrows.coupled r hr
      · rw [List.mem_singleton.mp hr]
        exact newRow_coupled

/-! The operations keep the table good and follow the ledger -/

theorem settle_good (h : Good sha256 s)
    (hf : ∀r,(f r).identity=r.identity ∧ (f r).deliveryKey=r.deliveryKey)
    (hclear : ∀r,(f r).state≠.leased ∧ (f r).claimToken=none ∧ (f r).claimExpiresAt=none) :
    Good sha256 {s with
      rows := updateWhere p f s.rows
      ended := Ledger.lostTokens OutboxRow.lease p s.rows++s.ended} where
  rows := by
    refine h.rows.update hf (fun r => ?_)
    obtain ⟨hstate,htoken,htime⟩ := hclear r
    simp [Coupled,hstate,htoken,htime]
  ledger :=
    (Ledger.finish_of_update h.rows.unique (fun r => (hf r).1)
      (fun r _ => lease_none (hclear r).2.1)).sound h.ledger

theorem claim_good (h : Good sha256 s) :
    Good sha256 (claimScheduledDelivery sha256 s raw leaseSeconds).1 := by
  unfold claimScheduledDelivery
  split
  · exact h
  · split
    · exact h
    · rename_i identity _
      have hdraw : (Ledger.ofRows OutboxRow.identity OutboxRow.lease s.now (s.drawn+1) s.rows
          s.granted s.ended).Sound := Ledger.Step.draw.sound h.ledger
      simp only
      split
      · exact ⟨h.rows,hdraw⟩
      · rename_i rows henqueue
        obtain ⟨hrows,hholder⟩ := enqueue_rows henqueue h.rows
        have hledger : Ledger.ofRows OutboxRow.identity OutboxRow.lease s.now s.drawn rows
            s.granted s.ended=ledger s := by
          unfold ledger Ledger.ofRows
          rw [hholder]
        split
        · rename_i hcount
          obtain ⟨r,hrow,hclaim⟩ :=
            (hrows.unique.countP_eq_one (fun r hr => claimable_identity hr)).mp hcount
          refine ⟨hrows.update (fun _ => ⟨rfl,rfl⟩) (fun _ => by simp [Coupled]),?_⟩
          change (Ledger.ofRows OutboxRow.identity OutboxRow.lease s.now (s.drawn+1)
            (updateWhere (claimable identity s.now) _ rows) (_::s.granted) s.ended).Sound
          refine (Ledger.grant_of_update ?_ (fun r hr => claimable_identity hr) hrow hclaim ?_
            ?_).sound (hledger ▸ h.ledger)
          · exact fun _ => rfl
          · exact claimable_free (hrows.coupled r (mem_of_row hrow)) hclaim
          · rfl
        · rename_i hcount
          have hsame := hrows.unique.of_countP_ne_one (fun r hr => claimable_identity hr) hcount
          rw [updateWhere_eq_self hsame]
          refine ⟨hrows,?_⟩
          have hsound := Ledger.Step.draw.sound (hledger ▸ h.ledger)
          exact hsound

theorem complete_good (h : Good sha256 s) :
    Good sha256 (completeScheduledDelivery s raw token).1 := by
  unfold completeScheduledDelivery
  split
  · exact h
  · exact settle_good h (fun _ => ⟨rfl,rfl⟩) (fun _ => by simp)

theorem release_good (h : Good sha256 s) :
    Good sha256 (releaseScheduledDelivery s raw token retryAt).1 := by
  unfold releaseScheduledDelivery
  split
  · exact h
  · exact settle_good h (fun _ => ⟨rfl,rfl⟩) (fun _ => by simp)

theorem step_good {call : Nat × Act} (h : Good sha256 s) (hstep : step sha256 s call=some t) :
    Good sha256 t := by
  unfold step at hstep
  split at hstep
  · rename_i hnow
    cases hstep
    have hpass : Good sha256 {s with now := call.1} :=
      ⟨h.rows,(Ledger.Step.pass (l:=ledger s) hnow).sound h.ledger⟩
    cases call.2 with
    | claim raw leaseSeconds => exact claim_good hpass
    | complete raw token => exact complete_good hpass
    | release raw token retryAt => exact release_good hpass
  · cases hstep

theorem new_good : Good sha256 new where
  rows := ⟨List.nodup_nil,by simp [new],List.nodup_nil,by simp [new]⟩
  ledger := by
    have hstart : ledger new=Ledger.start := by
      simp only [ledger,Ledger.ofRows,new,Ledger.start,List.not_mem_nil]
      rfl
    rw [hstart]
    exact Ledger.start_sound

theorem run_good (h : Reach (step sha256) Free (·=new) s) : Good sha256 s := by
  refine h.invariant ?_ (fun s call t hs _ hstep => step_good hs hstep)
  rintro _ rfl
  exact new_good

/-! A row that is sent stays as it is -/

theorem row_untouched {rows : List OutboxRow}
    (hf : ∀r,(f r).identity=r.identity) (hrow : row OutboxRow.identity rows identity=some r)
    (hp : p r=false) : row OutboxRow.identity (updateWhere p f rows) identity=some r := by
  rw [row_updateWhere hf,hrow,Option.map_some,hp]
  rfl

theorem heldBy_sent (hsent : r.state=.sent) : heldBy raw token r=false := by
  simp [heldBy,hsent]

theorem claimable_sent (hsent : r.state=.sent) : claimable identity now r=false := by
  simp [claimable,hsent]

theorem enqueue_keeps {other : Identity}
    (h : enqueue sha256 identity now rows=some rows')
    (hrow : row OutboxRow.identity rows other=some r) :
    row OutboxRow.identity rows' other=some r := by
  rcases enqueue_ok h with ⟨_,rfl⟩ | ⟨_,_,rfl⟩
  · exact hrow
  · rw [row_append,hrow]
    rfl

theorem perform_sent {a : Act} (hrow : s.rowOf identity=some r) (hsent : r.state=.sent) :
    (perform sha256 s a).rowOf identity=some r := by
  cases a with
  | claim raw leaseSeconds =>
    simp only [perform,claimScheduledDelivery]
    split
    · exact hrow
    · split
      · exact hrow
      · split
        · exact hrow
        · rename_i rows henqueue
          have hkept := enqueue_keeps henqueue hrow
          split <;> exact row_untouched (fun _ => rfl) hkept (claimable_sent hsent)
  | complete raw token =>
    simp only [perform,completeScheduledDelivery]
    split
    · exact hrow
    · exact row_untouched (fun _ => rfl) hrow (heldBy_sent hsent)
  | release raw token retryAt =>
    simp only [perform,releaseScheduledDelivery]
    split
    · exact hrow
    · exact row_untouched (fun _ => rfl) hrow (heldBy_sent hsent)

abbrev Later (sha256 : Text → Text) : Outbox → Outbox → Prop :=
  Relation.ReflTransGen (fun s t => ∃call,step sha256 s call=some t)

theorem later_good (h : Later sha256 s t) (hs : Good sha256 s) : Good sha256 t := by
  induction h with
  | refl => exact hs
  | tail _ hstep ih =>
    obtain ⟨call,hcall⟩ := hstep
    exact step_good ih hcall

theorem later_sent (h : Later sha256 s t) (hrow : s.rowOf identity=some r)
    (hsent : r.state=.sent) : t.rowOf identity=some r := by
  induction h with
  | refl => exact hrow
  | tail _ hstep ih =>
    obtain ⟨call,hcall⟩ := hstep
    unfold step at hcall
    split at hcall
    · cases hcall
      exact perform_sent ih hsent
    · cases hcall

theorem GoodRows.identity_inj {rows : List OutboxRow} {a b : OutboxRow} (h : GoodRows sha256 rows)
    (ha : a∈rows) (hb : b∈rows) (hkey : a.deliveryKey=b.deliveryKey) : a=b :=
  List.inj_on_of_nodup_map h.distinct ha hb hkey

theorem sent_not_claimed (h : GoodRows sha256 s.rows) (hrow : s.rowOf identity=some r)
    (hsent : r.state=.sent) (hkey : scheduledDeliveryKey sha256 raw=some r.deliveryKey)
    (token : Nat) (key : Text) :
    (claimScheduledDelivery sha256 s raw leaseSeconds).2≠.claimed token key := by
  obtain ⟨other,hother,hkeyOf⟩ := Option.map_eq_some_iff.mp hkey
  unfold claimScheduledDelivery
  rw [hother]
  split
  · simp
  · simp only
    split
    · simp
    · rename_i rows henqueue
      rw [if_neg]
      · simp
      · intro hcount
        rcases enqueue_ok henqueue with ⟨_,rfl⟩ | ⟨_,hkeys,_⟩
        · obtain ⟨a,ha,hclaim⟩ :=
            (h.unique.countP_eq_one (fun r hr => claimable_identity hr)).mp hcount
          have hsame : a=r := by
            refine h.identity_inj (mem_of_row ha) (mem_of_row hrow) ?_
            rw [h.keyed a (mem_of_row ha),row_key ha,hkeyOf]
          rw [hsame,claimable_sent hsent] at hclaim
          cases hclaim
        · exact hkeys r (mem_of_row hrow) hkeyOf.symm

/-! Only the current token settles -/

def Current (s : Outbox) (raw : Identity) (token : Nat) : Prop :=
  ∃identity l,scheduledIdentity raw=some identity ∧ (ledger s).holder identity=some l ∧
    l.token=token ∧ (ledger s).last identity=some l ∧ token∉s.ended

theorem settles_iff (h : Good sha256 s) (hraw : scheduledIdentity raw=some identity) :
    s.rows.countP (heldBy identity token)=1 ↔ Current s raw token := by
  rw [h.rows.unique.countP_eq_one (k:=identity) (fun r hr => (heldBy_iff.mp hr).1)]
  constructor
  · rintro ⟨r,hrow,hheld⟩
    obtain ⟨_,hstate,htoken⟩ := heldBy_iff.mp hheld
    obtain ⟨l,hl,hlt,_⟩ := lease_of_coupled (h.rows.coupled r (mem_of_row hrow)) hstate
    have hholder : (ledger s).holder identity=some l := by
      change Ledger.holderOf _ _ _ _=_
      rw [Ledger.holderOf,hrow]
      exact hl
    have hsame : l.token=token := Option.some.inj (hlt.symm.trans htoken)
    obtain ⟨hlast,hkept⟩ := h.ledger.held_last hholder
    exact ⟨identity,l,hraw,hholder,hsame,hlast,hsame ▸ hkept⟩
  · rintro ⟨other,l,hother,hholder,rfl,_⟩
    rw [hraw] at hother
    cases hother
    obtain ⟨r,hrow,hl⟩ := Option.bind_eq_some_iff.mp hholder
    have htoken := token_of_lease hl
    have hstate : r.state=.leased := by
      rw [(h.rows.coupled r (mem_of_row hrow)).1,htoken]
      rfl
    exact ⟨r,hrow,heldBy_iff.mpr ⟨row_key hrow,hstate,htoken⟩⟩

theorem complete_iff (h : Good sha256 s) :
    (completeScheduledDelivery s raw token).2=some true ↔ Current s raw token := by
  unfold completeScheduledDelivery
  split
  · rename_i hnone
    simp [Current,hnone]
  · rename_i identity hraw
    rw [←settles_iff h hraw]
    simp

theorem release_iff (h : Good sha256 s) :
    (releaseScheduledDelivery s raw token retryAt).2=some true ↔ Current s raw token := by
  unfold releaseScheduledDelivery
  split
  · rename_i hnone
    simp [Current,hnone]
  · rename_i identity hraw
    rw [←settles_iff h hraw]
    simp

theorem live_unique {other : Identity} {l l' : Lease} (h : Good sha256 s)
    (hkey : keyOf sha256 identity=keyOf sha256 other) (hl : (ledger s).Live identity l)
    (hl' : (ledger s).Live other l') : identity=other ∧ l=l' := by
  obtain ⟨a,ha,_⟩ := Option.bind_eq_some_iff.mp (h.ledger.live _ _ hl)
  obtain ⟨b,hb,_⟩ := Option.bind_eq_some_iff.mp (h.ledger.live _ _ hl')
  have hsame : a=b := by
    refine h.rows.identity_inj (mem_of_row ha) (mem_of_row hb) ?_
    rw [h.rows.keyed a (mem_of_row ha),h.rows.keyed b (mem_of_row hb),row_key ha,row_key hb,hkey]
  have hidentity : identity=other := by
    rw [←row_key ha,←row_key hb,hsame]
  subst hidentity
  exact ⟨rfl,h.ledger.live_unique hl hl'⟩

/-- In every run of any number of workers: what is sent stays sent and is not claimed again under
any identity with its delivery key; a delivery key has one live lease; a token completes or releases
exactly while it is the current one; the key depends on the stripped identity alone. -/
theorem outbox_delivers_once (h : Reach (step sha256) Free (·=new) s) :
    (∀t,Later sha256 s t → ∀identity r,s.rowOf identity=some r → r.state=.sent →
      t.rowOf identity=some r ∧ ∀raw leaseSeconds now token key,
        scheduledDeliveryKey sha256 raw=some r.deliveryKey →
          (claimScheduledDelivery sha256 {t with now := now} raw leaseSeconds).2≠
            .claimed token key) ∧
    (∀identity other l l',keyOf sha256 identity=keyOf sha256 other →
      (ledger s).Live identity l → (ledger s).Live other l' → identity=other ∧ l=l') ∧
    (∀raw token,(completeScheduledDelivery s raw token).2=some true ↔ Current s raw token) ∧
    (∀raw token retryAt,(releaseScheduledDelivery s raw token retryAt).2=some true ↔
      Current s raw token) ∧
    ∀raw raw' : Identity,strip raw.task=strip raw'.task → strip raw.owner=strip raw'.owner →
      strip raw.period=strip raw'.period →
        scheduledIdentity raw=scheduledIdentity raw' ∧
          scheduledDeliveryKey sha256 raw=scheduledDeliveryKey sha256 raw' := by
  have hgood := run_good h
  refine ⟨?_,fun _ _ _ _ hkey => live_unique hgood hkey,fun _ _ => complete_iff hgood,
    fun _ _ _ => release_iff hgood,?_⟩
  · intro t hlater identity r hrow hsent
    have hlate : t.rowOf identity=some r := later_sent hlater hrow hsent
    refine ⟨hlate,fun raw leaseSeconds now token key hkey => ?_⟩
    have hrows : GoodRows sha256 t.rows := (later_good hlater hgood).rows
    exact sent_not_claimed (s:={t with now := now}) hrows hlate hsent hkey token key
  · intro raw raw' htask howner hperiod
    have hidentity : scheduledIdentity raw=scheduledIdentity raw' := by
      unfold scheduledIdentity
      rw [htask,howner,hperiod]
    exact ⟨hidentity,by rw [scheduledDeliveryKey,hidentity,scheduledDeliveryKey]⟩

def briefingHash (_ : Text) : Text :=
  "c3f2a25abab818899aee01afc36280b050c608cb3575f663e8a33ccbc4467165".toList

def delivered : Outbox :=
  let raw : Identity := ⟨"daily_briefing".toList," 1001".toList,"2030-01-01".toList⟩
  (completeScheduledDelivery (claimScheduledDelivery briefingHash {new with now := 10} raw 120).1 raw 0).1

theorem outbox_delivers_once_example :
    (∃r,delivered.rowOf ⟨"daily_briefing".toList,"1001".toList,"2030-01-01".toList⟩=some r ∧
      r.state=.sent) ∧
    ∀t,Later briefingHash delivered t → ∀identity r,delivered.rowOf identity=some r → r.state=.sent →
      t.rowOf identity=some r ∧ ∀raw leaseSeconds now token key,
        scheduledDeliveryKey briefingHash raw=some r.deliveryKey →
          (claimScheduledDelivery briefingHash {t with now := now} raw leaseSeconds).2≠.claimed token key := by
  let raw : Identity := ⟨"daily_briefing".toList," 1001".toList,"2030-01-01".toList⟩
  have hreach : Reach (step briefingHash) Free (·=new) delivered :=
    .next (10,.complete raw 0) (.next (10,.claim raw 120) (.start rfl) trivial rfl) trivial rfl
  exact ⟨⟨_,rfl,rfl⟩,(outbox_delivers_once hreach).1⟩

end Outbox

end XiaoQing.Pendo
