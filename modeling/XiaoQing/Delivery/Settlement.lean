import XiaoQing.Delivery.SendAction

namespace XiaoQing.Delivery

def PartRun.delivered (p : PartRun) : Bool :=
  match p.result with
  | .returned (some true) _ _ _ => true
  | _ => false

def PartRun.rejected (p : PartRun) : Bool :=
  match p.result with
  | .returned (some false) _ _ _ => true
  | _ => false

def PartRun.possiblyDelivered (p : PartRun) : Bool :=
  match p.result with
  | .returned none _ _ _ => true
  | .raised afterCommit written => afterCommit || written
  | _ => false

def PartRun.writtenUnmarked (p : PartRun) : Bool :=
  match p.result with
  | .raised false true => true
  | _ => false

def PartRun.recordCancelled (p : PartRun) : Bool :=
  match p.result with
  | .returned _ _ c _ => c
  | _ => false

def Proceeds (t : Transport) (i : Nat) : Prop :=
  ¬(0 < i ∧ (t.part i).gapCancelled=true) ∧
    ∃m,(t.part i).result=.returned (some true) m false false

def ConfirmedThrough (t : Transport) (k : Nat) : Prop := ∀i<k,Proceeds t i

/-- Part `k` is handed to the transport and every earlier one was confirmed. -/
def Reached (t : Transport) (k : Nat) : Prop :=
  ConfirmedThrough t k ∧ ¬(0<k ∧ (t.part k).gapCancelled=true)

def AllConfirmed (t : Transport) (n : Nat) (l : Loop) : Prop :=
  l.attempts.length=n ∧ ∀i<n,(t.part i).delivered=true

structure Settles (t : Transport) (n : Nat) (l : Loop) : Prop where
  once : l.receipt.resolved=true ∧ l.receipt.calls.length=1
  commits : l.receipt.calls=[.commit] ↔ AllConfirmed t n l
  rollsBack : l.receipt.calls=[.rollback] → ∀i<l.attempts.length,
    (t.part i).delivered=false ∧ (t.part i).possiblyDelivered=false
  unknown : (∃i<l.attempts.length,(t.part i).delivered=true ∨ (t.part i).possiblyDelivered=true) →
    ¬AllConfirmed t n l → l.receipt.calls=[.unknown]
  stops : ∀calls∈l.attempts,Callback.rollback∉calls

structure SettlesWhen (t : Transport) (n : Nat) (e : Int) : Prop where
  transported : t.capturedBySink=false
  single : e≤1 ∨ ¬(Reached t (n-1) ∧ (t.part (n-1)).delivered=true)
  rejection : ∀k<n,Reached t k → (t.part k).rejected=true →
    k=0 ∧ (n=1 ∨ (t.part 0).recordCancelled=true ∨ (t.part 1).gapCancelled=true)
  unmarked : ∀k<n,Reached t k → (t.part k).writtenUnmarked=true → 0<k

/-- The loop variables after `k` confirmed parts, the receipt still waiting for `total`. -/
structure Prefix (total k : Nat) (l : Loop) : Prop where
  wellFormed : l.receipt.WellFormed
  pending : l.receipt.resolved=false
  delivered : l.receipt.deliveredActions=k
  expected : l.receipt.expectedActions=total
  settled : l.settled=k
  any : l.anyDelivered=decide (0<k)
  attempts : l.attempts=List.replicate k []

variable {t : Transport} {n k total : Nat} {l : Loop}

theorem Prefix.calls (h : Prefix total k l) : l.receipt.calls=[] :=
  (h.wellFormed.pending h.pending).1

theorem startLoop_begins (n : Nat) (hn : 0<n) (e : Int) :
    Prefix (max 1 e.toNat+(n-1)) 0 (startLoop n (.new e)) := by
  by_cases h : 1<n
  · simp only [startLoop,prepareReceipt,h,if_true]
    exact ⟨⟨fun _ => ⟨rfl,rfl,rfl⟩,fun hr => by cases hr⟩,rfl,rfl,rfl,rfl,rfl,rfl⟩
  · have hone : n=1 := by omega
    subst n
    simp only [startLoop,prepareReceipt,Nat.lt_irrefl,if_false]
    exact ⟨⟨fun _ => ⟨rfl,rfl,rfl⟩,fun hr => by cases hr⟩,rfl,rfl,rfl,rfl,rfl,rfl⟩

/-- The attempt of part `k` is logged with the callbacks made so far. -/
def Loop.attempt (l : Loop) : Loop := {l with attempts := l.attempts++[l.receipt.calls]}

theorem sendPart_gap (t : Transport) (l : Loop) (hk : 0<k)
    (hg : (t.part k).gapCancelled=true) : sendPart t k l=(l.onException t false,false) := by
  simp [sendPart,hk,hg]

theorem sendPart_raised (t : Transport) (l : Loop)
    (hg : ¬(0<k ∧ (t.part k).gapCancelled=true)) (a w : Bool)
    (hr : (t.part k).result=.raised a w) :
    sendPart t k l=(l.attempt.onException t a,false) := by
  simp only [sendPart,hg,if_false,hr]
  rfl

theorem sendPart_returned (hc : t.capturedBySink=false) (l : Loop)
    (hg : ¬(0<k ∧ (t.part k).gapCancelled=true)) (s : Option Bool) (m : Option MessageId)
    (c o : Bool) (hr : (t.part k).result=.returned s m c o) :
    sendPart t k l=
      if c=true ∨ (s=some true ∧ o=true) then (l.attempt.onReturn t s m,false)
      else ((l.attempt.onReturn t s m).updateSentAll s,true) := by
  simp only [sendPart,hg,if_false,hr,hc]
  change (if (!false && c)=true then (l.attempt.onReturn t s m,false)
    else if s=some true ∧ (!false)=true ∧ o=true then (l.attempt.onReturn t s m,false)
    else ((l.attempt.onReturn t s m).updateSentAll s,true))=_
  cases c <;> cases o <;> simp

theorem onReturn_receipt (hc : t.capturedBySink=false) (s : Option Bool) (m : Option MessageId)
    (l : Loop) : (l.onReturn t s m).receipt=
      (if s=some true then l.receipt.addMessageId m else l.receipt).record s t.raises := by
  simp [Loop.onReturn,hc]

@[simp] theorem updateSentAll_receipt (s : Option Bool) (l : Loop) :
    (l.updateSentAll s).receipt=l.receipt := rfl

@[simp] theorem updateSentAll_attempts (s : Option Bool) (l : Loop) :
    (l.updateSentAll s).attempts=l.attempts := rfl

@[simp] theorem onReturn_attempts (s : Option Bool) (m : Option MessageId) (l : Loop) :
    (l.onReturn t s m).attempts=l.attempts := by
  unfold Loop.onReturn; split_ifs <;> rfl

@[simp] theorem onException_attempts (a : Bool) (l : Loop) :
    (l.onException t a).attempts=l.attempts := by
  unfold Loop.onException; split_ifs <;> rfl

@[simp] theorem finish_attempts (n : Nat) (l : Loop) :
    (l.finish t n).attempts=l.attempts := by
  unfold Loop.finish; split_ifs <;> rfl

theorem finish_resolved (n : Nat) (l : Loop) (h : l.receipt.resolved=true) :
    (l.finish t n).receipt=l.receipt := by
  unfold Loop.finish
  split_ifs <;> simp [h]

theorem Prefix.confirm (h : Prefix total k l) (hc : t.capturedBySink=false) (hk : k+1<total)
    (m : Option MessageId) : Prefix total (k+1) (l.attempt.onReturn t (some true) m) := by
  have hw := DeliveryReceipt.addMessageId_wellFormed l.receipt m h.wellFormed
  have hp : (l.receipt.addMessageId m).resolved=false := by simpa using h.pending
  have hrec := DeliveryReceipt.record_confirm _ t.raises hw hp
  rw [if_neg (by simp [h.delivered,h.expected]; omega)] at hrec
  obtain ⟨hres,_,hdel,hexp⟩ := hrec
  have hr : (l.attempt.onReturn t (some true) m).receipt=
      (l.receipt.addMessageId m).record (some true) t.raises := by
    rw [onReturn_receipt hc]; rfl
  refine ⟨?_,?_,?_,?_,?_,?_,?_⟩
  · rw [hr]; exact DeliveryReceipt.record_wellFormed _ _ _ hw
  · rw [hr]; exact hres
  · rw [hr,hdel]; simp [h.delivered]
  · rw [hr,hexp]; simp [h.expected]
  · simp [Loop.onReturn,hc,Loop.attempt,h.settled]
  · simp [Loop.onReturn,hc]
  · simp [Loop.attempt,h.attempts,h.calls,List.replicate_succ']

theorem Prefix.complete (h : Prefix total k l) (hc : t.capturedBySink=false) (hk : total≤k+1)
    (m : Option MessageId) :
    (l.attempt.onReturn t (some true) m).receipt.resolved=true ∧
    (l.attempt.onReturn t (some true) m).receipt.calls=[.commit] := by
  have hw := DeliveryReceipt.addMessageId_wellFormed l.receipt m h.wellFormed
  have hp : (l.receipt.addMessageId m).resolved=false := by simpa using h.pending
  have hrec := DeliveryReceipt.record_confirm _ t.raises hw hp
  rw [if_pos (by simpa [h.delivered,h.expected] using hk)] at hrec
  rw [onReturn_receipt hc]
  exact hrec

theorem Prefix.sentAll (h : Prefix total k l) (s : Option Bool) :
    Prefix total k (l.updateSentAll s) :=
  ⟨h.wellFormed,h.pending,h.delivered,h.expected,h.settled,h.any,h.attempts⟩

theorem sendParts_keeps (hc : t.capturedBySink=false) (n : Nat) (r : Loop)
    (h0 : Prefix total 0 r) (k : Nat) (hk : ConfirmedThrough t k) (hkn : k≤n)
    (ht : k<total ∨ k=0) :
    ∃l,Prefix total k l ∧ sendParts t 0 n r=sendParts t k (n-k) l := by
  induction k with
  | zero => exact ⟨r,h0,rfl⟩
  | succ k ih =>
    obtain ⟨l,hl,he⟩ := ih (fun i hi => hk i (by omega)) (by omega) (by omega)
    obtain ⟨hg,m,hm⟩ := hk k (by omega)
    have hs := sendPart_returned hc l hg _ _ _ _ hm
    rw [if_neg (by simp)] at hs
    have hrem : n-k=n-(k+1)+1 := by omega
    refine ⟨_,(hl.confirm hc (by omega) m).sentAll (some true),?_⟩
    rw [he,hrem,sendParts,hs]

theorem sendParts_resolved (t : Transport) (i m : Nat) (l : Loop)
    (h : l.receipt.resolved=true) :
    (sendParts t i m l).1.receipt=l.receipt ∧
    ∃j ≤ m,(sendParts t i m l).1.attempts=l.attempts++List.replicate j l.receipt.calls ∧
      (0 < m → ¬(0 < i ∧ (t.part i).gapCancelled=true) → 0<j) := by
  induction m generalizing i l with
  | zero => exact ⟨rfl,0,Nat.le_refl _,by simp [sendParts],by omega⟩
  | succ m ih =>
    have hexc (a : Bool) (u : Loop) (hu : u.receipt=l.receipt) :
        (u.onException t a).receipt=l.receipt := by
      unfold Loop.onException
      split_ifs <;> simp [hu,h]
    have hret (s : Option Bool) (d : Option MessageId) :
        (l.attempt.onReturn t s d).receipt=l.receipt := by
      unfold Loop.onReturn
      split_ifs
      · rfl
      · change (l.receipt.addMessageId d).record s t.raises=_
        rw [DeliveryReceipt.addMessageId_of_resolved _ _ h,DeliveryReceipt.record_of_resolved _ _ _ h]
      · change l.receipt.record s t.raises=_
        rw [DeliveryReceipt.record_of_resolved _ _ _ h]
    by_cases hg : 0 < i ∧ (t.part i).gapCancelled=true
    · rw [sendParts,sendPart_gap t l hg.1 hg.2]
      exact ⟨hexc _ _ rfl,0,by omega,by simp,fun _ hn => absurd hg hn⟩
    · cases hr : (t.part i).result with
      | raised a w =>
        rw [sendParts,sendPart_raised t l hg a w hr]
        exact ⟨hexc _ _ rfl,1,by omega,by simp [Loop.attempt],fun _ _ => by omega⟩
      | returned s d c o =>
        have hcase : ∃b,sendPart t i l=(l.attempt.onReturn t s d,false) ∨
            (sendPart t i l=((l.attempt.onReturn t s d).updateSentAll b,true)) := by
          simp only [sendPart,hg,if_false,hr]
          split_ifs
          · exact ⟨none,Or.inl rfl⟩
          · exact ⟨none,Or.inl rfl⟩
          · exact ⟨s,Or.inr rfl⟩
        obtain ⟨b,hs|hs⟩ := hcase
        · rw [sendParts,hs]
          exact ⟨hret s d,1,by omega,by simp [Loop.attempt],fun _ _ => by omega⟩
        · rw [sendParts,hs]
          obtain ⟨hrec,j,hj,ha,_⟩ := ih (i+1) ((l.attempt.onReturn t s d).updateSentAll b)
            (by rw [updateSentAll_receipt,hret]; exact h)
          refine ⟨hrec.trans (hret s d),j+1,by omega,?_,fun _ _ => by omega⟩
          rw [ha,updateSentAll_receipt,hret]
          simp [Loop.attempt,List.replicate_succ]

theorem sendAction_loop (t : Transport) (n : Nat) (r : DeliveryReceipt) :
    (sendAction t n r).1=(sendParts t 0 n (startLoop n r)).1.finish t n := rfl

theorem Proceeds.delivered (h : Proceeds t k) : (t.part k).delivered=true := by
  obtain ⟨_,m,hm⟩ := h
  simp [PartRun.delivered,hm]

theorem Proceeds.clean (h : Proceeds t k) : (t.part k).rejected=false ∧
    (t.part k).writtenUnmarked=false ∧ (t.part k).possiblyDelivered=false := by
  obtain ⟨_,m,hm⟩ := h
  simp [PartRun.rejected,PartRun.writtenUnmarked,PartRun.possiblyDelivered,hm]

theorem exists_decisive (t : Transport) (n : Nat) (hn : 0<n) :
    ∃k<n,ConfirmedThrough t k ∧ (k=n-1 ∨ ¬Proceeds t k) := by
  induction n with
  | zero => omega
  | succ n ih =>
    rcases Nat.eq_zero_or_pos n with rfl | hpos
    · exact ⟨0,by omega,fun i hi => by omega,Or.inl rfl⟩
    · obtain ⟨k,hk,hc,hd⟩ := ih hpos
      by_cases hp : Proceeds t k
      · have hlast : k=n-1 := hd.resolve_right (fun h => h hp)
        refine ⟨n,by omega,fun i hi => ?_,Or.inl rfl⟩
        by_cases hik : i<k
        · exact hc i hik
        · have : i=k := by omega
          exact this ▸ hp
      · exact ⟨k,by omega,hc,Or.inr hp⟩

theorem settlesWhen_at (e : Int) (hk : k<n) (hc : ConfirmedThrough t k)
    (hd : k=n-1 ∨ ¬Proceeds t k) : SettlesWhen t n e ↔
      t.capturedBySink=false ∧
      (e≤1 ∨ ¬(k=n-1 ∧ Reached t k ∧ (t.part k).delivered=true)) ∧
      (Reached t k → (t.part k).rejected=true → k=0 ∧
        (n=1 ∨ (t.part 0).recordCancelled=true ∨ (t.part 1).gapCancelled=true)) ∧
      (Reached t k → (t.part k).writtenUnmarked=true → 0<k) := by
  have later (j : Nat) (hj : j<n) (hr : Reached t j) : j≤k := by
    rcases hd with hd | hd
    · omega
    · by_contra hlt
      exact hd (hr.1 k (by omega))
  have lastly (hr : Reached t (n-1)) : k=n-1 := by
    have := later (n-1) (by omega) hr
    omega
  constructor
  · intro h
    refine ⟨h.transported,h.single.imp_right ?_,h.rejection k hk,h.unmarked k hk⟩
    rintro hs ⟨rfl,hr,hv⟩
    exact hs ⟨hr,hv⟩
  · rintro ⟨hb,hs,hrej,hunm⟩
    refine ⟨hb,hs.imp_right ?_,?_,?_⟩
    · rintro hs ⟨hr,hv⟩
      have hl := lastly hr
      exact hs ⟨hl,hl ▸ hr,hl ▸ hv⟩
    · intro j hj hr hx
      rcases Nat.lt_or_ge j k with hlt | hge
      · rw [(hc j hlt).clean.1] at hx
        cases hx
      · have hjk : j=k := Nat.le_antisymm (later j hj hr) hge
        subst j
        exact hrej hr hx
    · intro j hj hr hx
      rcases Nat.lt_or_ge j k with hlt | hge
      · rw [(hc j hlt).clean.2.1] at hx
        cases hx
      · have hjk : j=k := Nat.le_antisymm (later j hj hr) hge
        subst j
        exact hunm hr hx

theorem settles_of_unknown (hr : l.receipt.resolved=true) (hcalls : l.receipt.calls=[.unknown])
    (hall : ¬AllConfirmed t n l) (hstop : ∀calls∈l.attempts,Callback.rollback∉calls) :
    Settles t n l :=
  ⟨⟨hr,by simp [hcalls]⟩,by simp [hcalls,hall],by simp [hcalls],fun _ _ => hcalls,hstop⟩

theorem settles_of_commit (hr : l.receipt.resolved=true) (hcalls : l.receipt.calls=[.commit])
    (hall : AllConfirmed t n l) (hstop : ∀calls∈l.attempts,Callback.rollback∉calls) :
    Settles t n l :=
  ⟨⟨hr,by simp [hcalls]⟩,by simp [hcalls,hall],by simp [hcalls],fun _ h => absurd hall h,hstop⟩

theorem settles_of_rollback (hr : l.receipt.resolved=true) (hcalls : l.receipt.calls=[.rollback])
    (hall : ¬AllConfirmed t n l) (hnone : ∀i<l.attempts.length,
      (t.part i).delivered=false ∧ (t.part i).possiblyDelivered=false)
    (hstop : ∀calls∈l.attempts,Callback.rollback∉calls) : Settles t n l := by
  refine ⟨⟨hr,by simp [hcalls]⟩,by simp [hcalls,hall],fun _ => hnone,?_,hstop⟩
  rintro ⟨i,hi,hd | hp⟩ _
  · rw [(hnone i hi).1] at hd; cases hd
  · rw [(hnone i hi).2] at hp; cases hp

/-- The run up to its decisive part `k`, as all later cases need it. -/
structure Decisive (t : Transport) (n : Nat) (e : Int) (k : Nat) (l : Loop) : Prop where
  transported : t.capturedBySink=false
  lt : k<n
  confirmed : ConfirmedThrough t k
  decisive : k=n-1 ∨ ¬Proceeds t k
  loop : Prefix (max 1 e.toNat+(n-1)) k l
  run : (sendAction t n (.new e)).1=(sendParts t k (n-k-1+1) l).1.finish t n

variable {e : Int}

theorem exists_decisive_run (hc : t.capturedBySink=false) (hn : 0<n) (e : Int) :
    ∃k l,Decisive t n e k l := by
  obtain ⟨k,hk,hconf,hd⟩ := exists_decisive t n hn
  obtain ⟨l,hl,hrun⟩ := sendParts_keeps hc n _ (startLoop_begins n hn e) k hconf
    (by omega) (Or.inl (by omega))
  have hrem : n-k-1+1=n-k := by omega
  exact ⟨k,l,hc,hk,hconf,hd,hl,by rw [sendAction_loop,hrun,hrem]⟩

theorem Decisive.clean_log (h : Decisive t n e k l) :
    ∀calls∈l.attempts,Callback.rollback∉calls := by
  intro calls hm
  rw [h.loop.attempts] at hm
  rw [(List.mem_replicate.mp hm).2]
  simp

theorem Decisive.clean_attempt (h : Decisive t n e k l) :
    ∀calls∈l.attempt.attempts,Callback.rollback∉calls := by
  intro calls hm
  simp only [Loop.attempt,List.mem_append,List.mem_singleton] at hm
  rcases hm with hm | hm
  · exact h.clean_log calls hm
  · rw [hm,h.loop.calls]; simp

theorem Decisive.length (h : Decisive t n e k l) : l.attempts.length=k := by
  rw [h.loop.attempts,List.length_replicate]

theorem Decisive.attempt_length (h : Decisive t n e k l) : l.attempt.attempts.length=k+1 := by
  simp [Loop.attempt,h.length]

theorem Decisive.exception (h : Decisive t n e k l) (u : Loop) (hu : u.receipt=l.receipt)
    (hany : u.anyDelivered=l.anyDelivered) (a : Bool) :
    (u.onException t a).receipt.resolved=true ∧
    (u.onException t a).receipt.calls=(if a=true ∨ 0<k then [.unknown] else [.rollback]) := by
  have hs := DeliveryReceipt.record_settles l.receipt t.raises h.loop.wellFormed h.loop.pending
  have hk := h.loop.any
  simp only [Loop.onException,h.transported,hu,hany,hk]
  cases a <;> rcases Nat.eq_zero_or_pos k with rfl | hpos <;> simp_all

theorem Decisive.gap (h : Decisive t n e k l) (hk : 0<k)
    (hg : (t.part k).gapCancelled=true) :
    Settles t n (sendAction t n (.new e)).1 ↔ SettlesWhen t n e := by
  have hrun := h.run
  rw [sendParts,sendPart_gap t l hk hg] at hrun
  obtain ⟨hres,hcalls⟩ := h.exception l rfl rfl false
  rw [if_pos (Or.inr hk)] at hcalls
  have hfin := finish_resolved (t := t) n _ hres
  have hnot : ¬Reached t k := fun hr => hr.2 ⟨hk,hg⟩
  rw [settlesWhen_at e h.lt h.confirmed h.decisive,hrun]
  refine iff_of_true ?_ ⟨h.transported,Or.inr (fun hx => hnot hx.2.1),
    fun hr => absurd hr hnot,fun hr => absurd hr hnot⟩
  refine settles_of_unknown (by rw [hfin]; exact hres) (by rw [hfin]; exact hcalls) ?_ ?_
  · rintro ⟨hlen,_⟩
    have hlt := h.lt
    simp [h.length] at hlen
    omega
  · simpa using h.clean_log

theorem Decisive.raised (h : Decisive t n e k l)
    (hg : ¬(0<k ∧ (t.part k).gapCancelled=true)) (a w : Bool)
    (hr : (t.part k).result=.raised a w) :
    Settles t n (sendAction t n (.new e)).1 ↔ SettlesWhen t n e := by
  have hrun := h.run
  rw [sendParts,sendPart_raised t l hg a w hr] at hrun
  obtain ⟨hres,hcalls⟩ := h.exception l.attempt rfl rfl a
  have hfin := finish_resolved (t := t) n _ hres
  have hreach : Reached t k := ⟨h.confirmed,hg⟩
  have hdel : (t.part k).delivered=false := by simp [PartRun.delivered,hr]
  have hrej : (t.part k).rejected=false := by simp [PartRun.rejected,hr]
  have hpos : (t.part k).possiblyDelivered=(a || w) := by simp [PartRun.possiblyDelivered,hr]
  have hunm : (t.part k).writtenUnmarked=(!a && w) := by
    simp only [PartRun.writtenUnmarked,hr]; cases a <;> cases w <;> rfl
  have hall : ¬AllConfirmed t n (((l.attempt).onException t a).finish t n) := by
    rintro ⟨_,hx⟩
    have := hx k h.lt
    rw [hdel] at this; cases this
  have hstop : ∀calls∈(((l.attempt).onException t a).finish t n).attempts,
      Callback.rollback∉calls := by simpa using h.clean_attempt
  rw [settlesWhen_at e h.lt h.confirmed h.decisive,hrun]
  simp only [h.transported,hdel,hrej,hunm,hreach,true_and,Bool.false_eq_true,and_false,
    not_false_eq_true,or_true,false_implies,implies_true,forall_const]
  by_cases hu : a=true ∨ 0<k
  · rw [if_pos hu] at hcalls
    refine iff_of_true (settles_of_unknown (by rw [hfin]; exact hres)
      (by rw [hfin]; exact hcalls) hall hstop) (fun hx => ?_)
    rcases hu with rfl | hk
    · cases hx
    · exact hk
  · rw [if_neg hu] at hcalls
    obtain ⟨ha,hk⟩ := not_or.mp hu
    have ha : a=false := by simpa using ha
    have hk : k=0 := by omega
    subst a k
    cases w with
    | false =>
      refine iff_of_true (settles_of_rollback (by rw [hfin]; exact hres)
        (by rw [hfin]; exact hcalls) hall ?_ hstop) (fun hx => by cases hx)
      intro i hi
      have hi0 : i=0 := by simp [h.attempt_length] at hi; exact hi
      subst i
      exact ⟨hdel,by rw [hpos]; rfl⟩
    | true =>
      refine iff_of_false (fun hs => ?_) (fun hx => absurd (hx rfl) (Nat.lt_irrefl 0))
      have := hs.rollsBack (by rw [hfin]; exact hcalls) 0 (by simp [h.attempt_length])
      rw [hpos] at this
      cases this.2

theorem Decisive.resolved_tail (h : Decisive t n e k l)
    (hg : ¬(0<k ∧ (t.part k).gapCancelled=true)) (s : Option Bool) (m : Option MessageId)
    (c o : Bool) (hr : (t.part k).result=.returned s m c o)
    (hres : (l.attempt.onReturn t s m).receipt.resolved=true) :
    (sendAction t n (.new e)).1.receipt=(l.attempt.onReturn t s m).receipt ∧
    ∃j≤n-k-1,(sendAction t n (.new e)).1.attempts=
        l.attempt.attempts++List.replicate j (l.attempt.onReturn t s m).receipt.calls ∧
      (c=true ∨ (s=some true ∧ o=true) → j=0) ∧
      (¬(c=true ∨ (s=some true ∧ o=true)) → k+1<n → (t.part (k+1)).gapCancelled=false → 0<j) ∧
      ((t.part (k+1)).gapCancelled=true → j=0) := by
  have hrun := h.run
  rw [sendParts,sendPart_returned h.transported l hg s m c o hr] at hrun
  by_cases hi : c=true ∨ (s=some true ∧ o=true)
  · rw [if_pos hi] at hrun
    rw [hrun]
    exact ⟨finish_resolved n _ hres,0,by omega,by simp,fun _ => rfl,
      fun hn => absurd hi hn,fun _ => rfl⟩
  · rw [if_neg hi] at hrun
    dsimp only at hrun
    set u := (l.attempt.onReturn t s m).updateSentAll s with hu
    have hures : u.receipt.resolved=true := hres
    obtain ⟨hrec,j,hj,hatt,hpos⟩ := sendParts_resolved t (k+1) (n-k-1) u hures
    rw [hrun]
    refine ⟨(finish_resolved n _ (by rw [hrec]; exact hures)).trans hrec,j,hj,?_,
      fun hx => absurd hx hi,fun _ hlt hgap => hpos (by omega) (by simp [hgap]),?_⟩
    · rw [finish_attempts,hatt,hu]; simp
    · intro hgap
      cases hm : n-k-1 with
      | zero => omega
      | succ d =>
        rw [hm,sendParts,sendPart_gap t u (by omega) hgap] at hatt
        simp only [onException_attempts] at hatt
        have hlen := congrArg List.length hatt
        simp only [List.length_append,List.length_replicate] at hlen
        omega

theorem Decisive.unknown (h : Decisive t n e k l)
    (hg : ¬(0<k ∧ (t.part k).gapCancelled=true)) (m : Option MessageId) (c o : Bool)
    (hr : (t.part k).result=.returned none m c o) :
    Settles t n (sendAction t n (.new e)).1 ↔ SettlesWhen t n e := by
  have hrec : (l.attempt.onReturn t none m).receipt=l.receipt.record none t.raises := by
    rw [onReturn_receipt h.transported]; rfl
  obtain ⟨⟨hres,hcalls⟩,_⟩ := DeliveryReceipt.record_settles l.receipt t.raises
    h.loop.wellFormed h.loop.pending
  rw [←hrec] at hres hcalls
  obtain ⟨hfin,j,_,hatt,_⟩ := h.resolved_tail hg none m c o hr hres
  have hdel : (t.part k).delivered=false := by simp [PartRun.delivered,hr]
  have hrej : (t.part k).rejected=false := by simp [PartRun.rejected,hr]
  have hunm : (t.part k).writtenUnmarked=false := by simp [PartRun.writtenUnmarked,hr]
  rw [settlesWhen_at e h.lt h.confirmed h.decisive]
  refine iff_of_true ?_ ⟨h.transported,Or.inr (fun hx => ?_),fun _ hx => ?_,fun _ hx => ?_⟩
  rotate_left
  · rw [hdel] at hx; cases hx.2.2
  · rw [hrej] at hx; cases hx
  · rw [hunm] at hx; cases hx
  refine settles_of_unknown (by rw [hfin]; exact hres) (by rw [hfin]; exact hcalls) ?_ ?_
  · rintro ⟨_,hx⟩
    have := hx k h.lt
    rw [hdel] at this; cases this
  · intro calls hm
    rw [hatt,List.mem_append,List.mem_replicate] at hm
    rcases hm with hm | ⟨_,rfl⟩
    · exact h.clean_attempt calls hm
    · rw [hcalls]; simp

theorem Decisive.rejected (h : Decisive t n e k l)
    (hg : ¬(0<k ∧ (t.part k).gapCancelled=true)) (m : Option MessageId) (c o : Bool)
    (hr : (t.part k).result=.returned (some false) m c o) :
    Settles t n (sendAction t n (.new e)).1 ↔ SettlesWhen t n e := by
  have hrec : (l.attempt.onReturn t (some false) m).receipt=
      l.receipt.record (some false) t.raises := by
    rw [onReturn_receipt h.transported]; rfl
  obtain ⟨_,hres,hcalls,_⟩ := DeliveryReceipt.record_settles l.receipt t.raises
    h.loop.wellFormed h.loop.pending
  rw [←hrec] at hres hcalls
  obtain ⟨hfin,j,hj,hatt,hleft,hmore,hgap⟩ := h.resolved_tail hg _ m c o hr hres
  have hdel : (t.part k).delivered=false := by simp [PartRun.delivered,hr]
  have hposs : (t.part k).possiblyDelivered=false := by simp [PartRun.possiblyDelivered,hr]
  have hrej : (t.part k).rejected=true := by simp [PartRun.rejected,hr]
  have hunm : (t.part k).writtenUnmarked=false := by simp [PartRun.writtenUnmarked,hr]
  have hreach : Reached t k := ⟨h.confirmed,hg⟩
  have hc : (t.part k).recordCancelled=c := by simp [PartRun.recordCancelled,hr]
  have hroll : (sendAction t n (.new e)).1.receipt.calls=[.rollback] := by rw [hfin]; exact hcalls
  rw [settlesWhen_at e h.lt h.confirmed h.decisive]
  simp only [h.transported,hdel,hrej,hunm,hreach,true_and,Bool.false_eq_true,and_false,
    not_false_eq_true,or_true,false_implies,implies_true,forall_const,and_true]
  constructor
  · intro hs
    have hk0 : k=0 := by
      by_contra hk
      have hlen : 0<l.attempt.attempts.length := by simp [Loop.attempt]
      have hfirst : 0<(sendAction t n (.new e)).1.attempts.length := by
        rw [hatt,List.length_append]
        omega
      have hx := (hs.rollsBack hroll 0 hfirst).1
      rw [(h.confirmed 0 (by omega)).delivered] at hx
      cases hx
    refine ⟨hk0,?_⟩
    subst k
    by_contra hn
    simp only [not_or,Bool.not_eq_true] at hn
    have hpos : 0<j := hmore (by rw [←hc]; simp [hn.2.1]) (by have := h.lt; omega) hn.2.2
    have hmem : [Callback.rollback]∈(sendAction t n (.new e)).1.attempts := by
      rw [hatt,hcalls,List.mem_append,List.mem_replicate]
      exact Or.inr ⟨by omega,rfl⟩
    exact hs.stops _ hmem (by simp)
  · rintro ⟨rfl,hstop⟩
    have hj0 : j=0 := by
      rcases hstop with rfl | hx | hx
      · omega
      · exact hleft (Or.inl (hc ▸ hx))
      · exact hgap hx
    have hatt0 : (sendAction t n (.new e)).1.attempts=l.attempt.attempts := by
      rw [hatt,hj0]; simp
    refine settles_of_rollback (by rw [hfin]; exact hres) hroll ?_ ?_ ?_
    · rintro ⟨_,hx⟩
      have := hx 0 h.lt
      rw [hdel] at this; cases this
    · intro i hi
      rw [hatt0,h.attempt_length] at hi
      have hi0 : i=0 := by omega
      subst i
      exact ⟨hdel,hposs⟩
    · rw [hatt0]; exact h.clean_attempt

theorem Decisive.confirmedPart (h : Decisive t n e k l)
    (hg : ¬(0<k ∧ (t.part k).gapCancelled=true)) (m : Option MessageId) (c o : Bool)
    (hr : (t.part k).result=.returned (some true) m c o) :
    Settles t n (sendAction t n (.new e)).1 ↔ SettlesWhen t n e := by
  have hlt := h.lt
  have hdel : (t.part k).delivered=true := by simp [PartRun.delivered,hr]
  have hrej : (t.part k).rejected=false := by simp [PartRun.rejected,hr]
  have hunm : (t.part k).writtenUnmarked=false := by simp [PartRun.writtenUnmarked,hr]
  have hreach : Reached t k := ⟨h.confirmed,hg⟩
  have hall (i : Nat) (hi : i≤k) : (t.part i).delivered=true := by
    rcases Nat.lt_or_ge i k with hik | hik
    · exact (h.confirmed i hik).delivered
    · have hik : i=k := by omega
      exact hik ▸ hdel
  rw [settlesWhen_at e h.lt h.confirmed h.decisive]
  simp only [h.transported,hdel,hrej,hunm,hreach,true_and,and_true,Bool.false_eq_true,
    false_implies,implies_true]
  by_cases hlast : k=n-1
  · simp only [hlast,not_true_eq_false,or_false]
    by_cases he : e≤1
    · -- the confirmation completes the expected count
      obtain ⟨hres,hcalls⟩ := h.loop.complete h.transported (by omega) m
      obtain ⟨hfin,j,hj,hatt,_⟩ := h.resolved_tail hg _ m c o hr hres
      have hj0 : j=0 := by omega
      have hatt0 : (sendAction t n (.new e)).1.attempts=l.attempt.attempts := by
        rw [hatt,hj0]; simp
      refine iff_of_true (settles_of_commit (by rw [hfin]; exact hres)
        (by rw [hfin]; exact hcalls) ⟨?_,fun i hi => hall i (by omega)⟩ ?_) he
      · rw [hatt0,h.attempt_length]; omega
      · rw [hatt0]; exact h.clean_attempt
    · -- more actions are expected than this one provides, so nothing settles
      have hp := h.loop.confirm h.transported (by omega) m
      have hrun := h.run
      have hrem : n-k-1+1=0+1 := by omega
      rw [hrem,sendParts,sendPart_returned h.transported l hg _ m c o hr] at hrun
      have hopen : (sendAction t n (.new e)).1.receipt.resolved=false := by
        rw [hrun]
        split_ifs
        · simpa [Loop.finish,hp.settled,show ¬k+1<n by omega] using hp.pending
        · have hs : ((l.attempt.onReturn t (some true) m).updateSentAll (some true)).settled=k+1 :=
            hp.settled
          simpa [sendParts,Loop.finish,hs,show ¬k+1<n by omega] using hp.pending
      refine iff_of_false (fun hs => ?_) he
      have := hs.once.1
      rw [hopen] at this; cases this
  · -- an interruption after part `k` leaves later parts unsent
    have hnot := h.decisive.resolve_left hlast
    have hi : c=true ∨ (some true=some true ∧ o=true) := by
      by_contra hi
      refine hnot ⟨hg,m,?_⟩
      have hco : c=false ∧ o=false := by simpa using hi
      rw [hr,hco.1,hco.2]
    have hp := h.loop.confirm h.transported (by omega) m
    have hrun := h.run
    rw [sendParts,sendPart_returned h.transported l hg _ m c o hr,if_pos hi] at hrun
    have hrec : (sendAction t n (.new e)).1.receipt=
        (l.attempt.onReturn t (some true) m).receipt.record none t.raises := by
      rw [hrun]
      simp [Loop.finish,h.transported,hp.settled,hp.any,show k+1<n by omega]
    have hsettle := DeliveryReceipt.record_settles _ t.raises hp.wellFormed hp.pending
    have hatt : (sendAction t n (.new e)).1.attempts=l.attempt.attempts := by rw [hrun]; simp
    refine iff_of_true (settles_of_unknown (by rw [hrec]; exact hsettle.1.1)
      (by rw [hrec]; exact hsettle.1.2) ?_ (by rw [hatt]; exact h.clean_attempt))
      (Or.inr hlast)
    rintro ⟨hlen,_⟩
    rw [hatt,h.attempt_length] at hlen
    omega

theorem onReturn_captured (hc : t.capturedBySink=true) (s : Option Bool) (m : Option MessageId)
    (l : Loop) : (l.onReturn t s m).receipt=l.receipt := by
  simp [Loop.onReturn,hc]

theorem sendParts_captured (hc : t.capturedBySink=true) (i m : Nat) (l : Loop) :
    (sendParts t i m l).1.receipt=l.receipt := by
  induction m generalizing i l with
  | zero => rfl
  | succ m ih =>
    have hone : (sendPart t i l).1.receipt=l.receipt := by
      unfold sendPart
      dsimp only
      split_ifs
      · simp [Loop.onException,hc]
      · cases (t.part i).result with
        | raised a w => simp [Loop.onException,hc]
        | returned s d c o => dsimp only; split_ifs <;> simp [onReturn_captured hc]
    rw [sendParts]
    split
    · rename_i u hu
      rw [hu] at hone
      exact hone
    · rename_i u hu
      rw [hu] at hone
      rw [ih]
      exact hone

/-- For an action split into `n` parts and every sequence of transport outcomes, the
contract holds exactly on the runs `SettlesWhen` describes. -/
theorem sendAction_settles_iff {seg : Type*} (split : List seg → List (List seg))
    (a : Action seg) (t : Transport) (e : Int) :
    Settles t (maybeSplitAction split a).length
      (sendAction t (maybeSplitAction split a).length (.new e)).1 ↔
    SettlesWhen t (maybeSplitAction split a).length e := by
  have hn := maybeSplitAction_pos split a
  generalize (maybeSplitAction split a).length=n at hn ⊢
  cases hc : t.capturedBySink with
  | true =>
    refine iff_of_false (fun hs => ?_) (fun hx => by rw [hx.transported] at hc; cases hc)
    have hopen : (sendAction t n (.new e)).1.receipt=(startLoop n (.new e)).receipt := by
      rw [sendAction_loop]
      simp [Loop.finish,hc,sendParts_captured hc]
    have hr := hs.once.1
    rw [hopen,(startLoop_begins n hn e).pending] at hr
    cases hr
  | false =>
    obtain ⟨k,l,h⟩ := exists_decisive_run hc hn e
    by_cases hg : 0<k ∧ (t.part k).gapCancelled=true
    · exact h.gap hg.1 hg.2
    · cases hr : (t.part k).result with
      | raised x w => exact h.raised hg x w hr
      | returned s m c o =>
        rcases s with _ | _ | _
        · exact h.unknown hg m c o hr
        · exact h.rejected hg m c o hr
        · exact h.confirmedPart hg m c o hr

def refusedTail : Transport :=
  ⟨false,fun _ => false,fun i => ⟨false,.returned (some (i=0)) none false false⟩⟩

def twoChunks : Action Nat := ⟨"send_group_msg",some [0,1]⟩

def chunkEach (message : List Nat) : List (List Nat) := message.map (fun s => [s])

theorem sendAction_rolls_back_delivered :
    (maybeSplitAction chunkEach twoChunks).length=2 ∧
    (sendAction refusedTail 2 (.new 1)).1.receipt.calls=[.rollback] ∧
    (refusedTail.part 0).delivered=true ∧
    ¬Settles refusedTail 2 (sendAction refusedTail 2 (.new 1)).1 := by
  have hroll : (sendAction refusedTail 2 (.new 1)).1.receipt.calls=[.rollback] := by decide
  refine ⟨by simp [maybeSplitAction,twoChunks,chunkEach],hroll,by decide,fun hs => ?_⟩
  have hx := (hs.rollsBack hroll 0 (by decide)).1
  revert hx
  decide

end XiaoQing.Delivery
