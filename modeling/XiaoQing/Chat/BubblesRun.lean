import XiaoQing.Chat.Bubbles

set_option linter.unusedSectionVars false

namespace XiaoQing.Chat.ReplyBubbles

open Function (update update_of_ne update_self)

open Delivery Framework

variable {μ : Type} [DecidableEq μ]

/-- What the transport has reported for bubble `i`. -/
def outcomeOf (s : ReplyBubbles μ) (i : Nat) : Option (Option Bool) :=
  (s.receipts i).bind fun r => if r.resolved then some r.outcome else none

def story (reply : Reply μ) (s : ReplyBubbles μ) : List (BubbleEvent μ) :=
  (if 0 < s.dispatched then [.held] else [])++
    if s.settled then .began (settlement reply s)::
      if s.running.isSome then []
      else .settled (settlement reply s)::if 0 < s.dispatched then [.released] else []
    else []

structure Core (reply : Reply μ) (s : ReplyBubbles μ) : Prop where
  handed : ∀i,(s.receipts i).isSome↔i < s.dispatched
  within : s.dispatched≤reply.batches.length
  outcomes : ∀i,s.outcomes i=s.outcomeOf i
  ids : ∀i r,s.receipts i=some r → r.resolved → s.messageIds i=r.messageIds
  hold : s.hold=decide (0 < s.dispatched)
  settled : s.settled → s.closed∧∀i < s.dispatched,s.outcomes i≠none
  running : ∀w x,s.running=some (w,x) → s.settled∧x=settlement reply s
  events : s.events=story reply s

def Eager (s : ReplyBubbles μ) : Prop :=
  s.closed → (∀i < s.dispatched,s.outcomes i≠none) → s.settled

section

variable {reply : Reply μ} {s t : ReplyBubbles μ} {i : Nat} {w : Runner} {x : Settlement μ}

theorem answered_eq : s.answered=s.dispatched↔∀i < s.dispatched,s.outcomes i≠none := by
  unfold answered
  have h := List.countP_eq_length (l:=List.range s.dispatched) (p:=fun i => (s.outcomes i).isSome)
  rw [List.length_range] at h
  rw [h]
  simp [Option.isSome_iff_ne_none]

theorem answered_le : s.answered ≤ s.dispatched := by
  unfold answered
  have h := List.countP_le_length (l:=List.range s.dispatched) (p:=fun i => (s.outcomes i).isSome)
  rwa [List.length_range] at h

theorem Core.maybeSettle (h : Core reply s) (w : Runner) :
    Core reply (maybeSettle reply s w)∧Eager (maybeSettle reply s w) := by
  unfold ReplyBubbles.maybeSettle
  split_ifs with hc
  · refine ⟨h,fun hcl ha => ?_⟩
    have := answered_eq.mpr ha
    cases hs : s.settled with
    | true => rfl
    | false => simp [hs,hcl,this] at hc
  · simp only [Bool.or_eq_true,Bool.not_eq_true',decide_eq_true_eq,not_or,Bool.not_eq_true,
      Bool.not_eq_false] at hc
    obtain ⟨⟨hns,hcl⟩,hle⟩ := hc
    have hall : ∀i < s.dispatched,s.outcomes i≠none := by
      have hle' := s.answered_le
      exact answered_eq.mp (by omega)
    refine ⟨⟨h.handed,h.within,h.outcomes,h.ids,h.hold,fun _ => ⟨hcl,hall⟩,?_,?_⟩,fun _ _ => rfl⟩
    · rintro w' x' hx
      cases hx
      exact ⟨rfl,rfl⟩
    · have he := h.events
      unfold story at he ⊢
      simp only [hns,Bool.false_eq_true,if_false,List.append_nil] at he
      simp only [he,if_true,Option.isSome_some]
      rfl

theorem Core.not_running (h : Core reply s) (hs : s.settled=false) : s.running=none := by
  cases hr : s.running with
  | none => rfl
  | some p =>
    have := (h.running p.1 p.2 hr).1
    rw [hs] at this
    cases this

theorem Core.close (h : Core reply s) (w : Runner) :
    Core reply (close reply s w)∧Eager (close reply s w) := by
  refine Core.maybeSettle (s:={s with closed := true}) ?_ w
  exact ⟨h.handed,h.within,h.outcomes,h.ids,h.hold,fun hs => ⟨rfl,(h.settled hs).2⟩,h.running,h.events⟩

theorem Core.place (h : Core reply s) (sender : Sender) (closeTask : Bool) :
    Core reply {s with sender := sender,closeTask := closeTask} :=
  ⟨h.handed,h.within,h.outcomes,h.ids,h.hold,h.settled,h.running,h.events⟩

theorem Core.receipt (h : Core reply s) (hc : s.closed=false) (hi : s.dispatched=i)
    (hn : i<reply.batches.length) : Core reply (s.receipt i) := by
  subst hi
  have hns : s.settled=false := by
    cases hs : s.settled with
    | false => rfl
    | true =>
      have := (h.settled hs).1
      rw [hc] at this
      cases this
  have hnew : s.receipts s.dispatched=none := by
    cases hr : s.receipts s.dispatched with
    | none => rfl
    | some r =>
      have := (h.handed s.dispatched).mp (by rw [hr]; rfl)
      omega
  have hmax : (s.receipt s.dispatched).dispatched=s.dispatched+1 := by
    simp [ReplyBubbles.receipt]
  refine ⟨fun j => ?_,by rw [hmax]; omega,fun j => ?_,fun j r hr hres => ?_,?_,fun hs => ?_,?_,?_⟩
  · rw [hmax]
    by_cases hj : j=s.dispatched
    · subst hj
      simp [ReplyBubbles.receipt]
    · have := h.handed j
      simp only [ReplyBubbles.receipt,update_of_ne hj]
      rw [this]
      omega
  · have ho := h.outcomes j
    by_cases hj : j=s.dispatched
    · subst hj
      change s.outcomes s.dispatched=_
      rw [ho]
      simp [outcomeOf,hnew,ReplyBubbles.receipt,DeliveryReceipt.new]
    · change s.outcomes j=_
      rw [ho]
      simp [outcomeOf,ReplyBubbles.receipt,update_of_ne hj]
  · by_cases hj : j=s.dispatched
    · subst hj
      simp only [ReplyBubbles.receipt,update_self,Option.some.injEq] at hr
      subst hr
      cases hres
    · simp only [ReplyBubbles.receipt,update_of_ne hj] at hr
      exact h.ids j r hr hres
  · rw [hmax]
    simp [ReplyBubbles.receipt]
  · have hs : s.settled=true := hs
    rw [hns] at hs
    cases hs
  · rintro w' x' hx
    have hx : s.running=some (w',x') := hx
    rw [h.not_running hns] at hx
    cases hx
  · have he := h.events
    unfold story at he ⊢
    rw [hmax]
    have hns' : (s.receipt s.dispatched).settled=false := hns
    have hh : (s.receipt s.dispatched).events=if s.hold then s.events else s.events++[.held] := rfl
    rw [hh,hns',h.hold,he,hns]
    by_cases h0 : 0 < s.dispatched <;> simp [h0]

theorem Core.touch (h : Core reply s) (f : DeliveryReceipt → DeliveryReceipt)
    (hf : ∀r,(f r).resolved=r.resolved∧(r.resolved → (f r).outcome=r.outcome∧
      (f r).messageIds=r.messageIds)) : Core reply (s.touch i f) := by
  have hout : ∀j,(s.touch i f).outcomeOf j=s.outcomeOf j := by
    intro j
    unfold outcomeOf ReplyBubbles.touch
    by_cases hj : j=i
    · subst hj
      simp only [update_self]
      cases hr : s.receipts j with
      | none => rfl
      | some r =>
        obtain ⟨h1,h2⟩ := hf r
        simp only [Option.map_some,Option.bind_some,h1]
        split_ifs with hres
        · rw [(h2 hres).1]
        · rfl
    · simp [update_of_ne hj]
  refine ⟨fun j => ?_,h.within,fun j => ?_,fun j r hr hres => ?_,h.hold,h.settled,h.running,h.events⟩
  · have := h.handed j
    unfold ReplyBubbles.touch
    by_cases hj : j=i
    · subst hj
      simpa using this
    · simpa [update_of_ne hj] using this
  · rw [hout]
    exact h.outcomes j
  · unfold ReplyBubbles.touch at hr
    by_cases hj : j=i
    · subst hj
      simp only [update_self,Option.map_eq_some_iff] at hr
      obtain ⟨r0,hr0,rfl⟩ := hr
      obtain ⟨h1,h2⟩ := hf r0
      rw [h1] at hres
      rw [(h2 hres).2]
      exact h.ids j r0 hr0 hres
    · simp only [update_of_ne hj] at hr
      exact h.ids j r hr hres

theorem Core.report (h : Core reply s) (he : Eager s) (i : Nat) (d : Option Bool) :
    Core reply (report reply s i d)∧Eager (report reply s i d) := by
  unfold ReplyBubbles.report
  split
  · exact ⟨h,he⟩
  · rename_i r hr
    simp only
    have hlt : i < s.dispatched := (h.handed i).mp (by rw [hr]; rfl)
    have hhanded : ∀r' j,((update s.receipts i (some r')) j).isSome↔j < s.dispatched := by
      intro r' j
      by_cases hj : j=i
      · subst hj
        simpa using hlt
      · rw [update_of_ne hj]
        exact h.handed j
    by_cases hres : r.resolved=true
    · rw [DeliveryReceipt.record_of_resolved r d _ hres]
      simp only [hres,Bool.not_true,Bool.false_and,Bool.false_eq_true,if_false]
      rw [Function.update_eq_self_iff.mpr hr.symm]
      exact ⟨h,he⟩
    · have hres : r.resolved=false := by simpa using hres
      have hnone : s.outcomes i=none := by
        rw [h.outcomes,outcomeOf,hr]
        simp [hres]
      have hns : s.settled=false := by
        cases hs : s.settled with
        | false => rfl
        | true => exact absurd hnone ((h.settled hs).2 i hlt)
      by_cases hres' : (r.record d fun _ => false).resolved=true
      · simp only [hres,hres',Bool.not_false,Bool.and_true,if_true]
        refine Core.maybeSettle (s:={s with
          receipts := update s.receipts i (some (r.record d fun _ => false))
          outcomes := update s.outcomes i (some (r.record d fun _ => false).outcome)
          messageIds := update s.messageIds i (r.record d fun _ => false).messageIds}) ?_ _
        refine ⟨hhanded _,h.within,fun j => ?_,fun j r' hr' hr2 => ?_,h.hold,?_,?_,?_⟩
        · unfold outcomeOf
          by_cases hj : j=i
          · subst hj
            simp [hres']
          · simp only [update_of_ne hj]
            exact h.outcomes j
        · by_cases hj : j=i
          · subst hj
            simp only [update_self,Option.some.injEq] at hr' ⊢
            rw [hr']
          · simp only [update_of_ne hj] at hr' ⊢
            exact h.ids j r' hr' hr2
        · intro hs
          rw [hns] at hs
          cases hs
        · intro w' x' hx
          rw [h.not_running hns] at hx
          cases hx
        · have hev := h.events
          unfold story at hev ⊢
          simpa [hns] using hev
      · simp only [hres,hres',Bool.not_false,Bool.true_and,Bool.false_eq_true,if_false]
        refine ⟨⟨hhanded _,h.within,fun j => ?_,fun j r' hr' hr2 => ?_,h.hold,h.settled,h.running,h.events⟩,he⟩
        · unfold outcomeOf
          by_cases hj : j=i
          · subst hj
            simpa [hres'] using hnone
          · simp only [update_of_ne hj]
            exact h.outcomes j
        · by_cases hj : j=i
          · subst hj
            simp only [update_self,Option.some.injEq] at hr'
            rw [hr'] at hres'
            exact absurd hr2 hres'
          · simp only [update_of_ne hj] at hr'
            exact h.ids j r' hr' hr2

theorem Core.finish (h : Core reply s) (hr : s.running=some (w,x)) : Core reply (s.settleEnds x true) := by
  obtain ⟨hs,rfl⟩ := h.running w x hr
  refine ⟨h.handed,h.within,h.outcomes,h.ids,h.hold,h.settled,?_,?_⟩
  · rintro w' x' hx
    cases hx
  · have he := h.events
    unfold story at he ⊢
    simp only [hs,hr,if_true,Option.isSome_some] at he
    simp only [settleEnds,he,hs,h.hold,if_true,Option.isSome_none,Bool.false_eq_true,if_false]
    by_cases h0 : 0 < s.dispatched <;> simp [h0,settlement,seen]

def SameTurn (s t : ReplyBubbles μ) : Prop :=
  t.sender=s.sender∧t.dispatched=s.dispatched∧t.closed=s.closed∧t.closeTask=s.closeTask

theorem sameTurn_maybeSettle (w : Runner) : SameTurn s (maybeSettle reply s w) := by
  unfold ReplyBubbles.maybeSettle
  split_ifs <;> exact ⟨rfl,rfl,rfl,rfl⟩

theorem sameTurn_report (i : Nat) (d : Option Bool) : SameTurn s (report reply s i d) := by
  unfold ReplyBubbles.report
  split
  · exact ⟨rfl,rfl,rfl,rfl⟩
  · dsimp only
    split_ifs
    · exact sameTurn_maybeSettle .beside
    · exact ⟨rfl,rfl,rfl,rfl⟩

theorem sameTurn_recordSent (i : Nat) (d : Option Bool) : SameTurn s (recordSent reply s i d) := by
  unfold recordSent
  split
  · exact ⟨rfl,rfl,rfl,rfl⟩
  · split_ifs
    · exact sameTurn_report i d
    · exact ⟨rfl,rfl,rfl,rfl⟩

def Place (reply : Reply μ) (s : ReplyBubbles μ) : Prop :=
  match s.sender with
  | .preparing | .dropped => s.dispatched=0∧s.closed=false
  | .between i => s.dispatched=i∧i<last reply∧s.closed=false
  | .sending i | .recording i | .pausing i => s.dispatched=i+1∧i<last reply∧s.closed=false
  | .beforeLast => s.dispatched=last reply∧s.closed=false
  | .closing _ | .ended _ => s.closed=true
  | .raised => s.closed=true∨s.closeTask=true∨s.dispatched=0

theorem Place.same (h : Place reply s) (hst : SameTurn s t) : Place reply t := by
  obtain ⟨h1,h2,h3,h4⟩ := hst
  unfold Place at h ⊢
  rw [h1,h2,h3,h4]
  exact h

theorem Place.closed (hr : s.sender=.raised) (hst : t.sender=s.sender)
    (hc : t.closed=true) : Place reply t := by
  unfold Place
  rw [hst,hr]
  exact .inl hc

structure Inv (reply : Reply μ) (s : ReplyBubbles μ) : Prop where
  core : Core reply s
  eager : Eager s
  place : Place reply s
  task : s.closeTask=true → s.sender=.raised

theorem Inv.no_task (h : Inv reply s) (hne : s.sender≠.raised) : s.closeTask=false := by
  cases hc : s.closeTask with
  | false => rfl
  | true => exact absurd (h.task hc) hne

theorem inv_initial : Inv reply (initial : ReplyBubbles μ) where
  core := by
    refine ⟨fun i => ?_,Nat.zero_le _,fun i => rfl,fun i r hr => ?_,rfl,fun hs => ?_,fun w x hx => ?_,rfl⟩
    · simp [initial]
    · cases hr
    · cases hs
    · cases hx
  eager := fun hc => by cases hc
  place := ⟨rfl,rfl⟩
  task := fun ht => by cases ht

theorem Inv.same (h : Inv reply s) (hst : SameTurn s t) (hc : Core reply t∧Eager t) : Inv reply t :=
  ⟨hc.1,hc.2,h.place.same hst,by rw [hst.1,hst.2.2.2]; exact h.task⟩

theorem Inv.report (h : Inv reply s) (i : Nat) (d : Option Bool) : Inv reply (report reply s i d) :=
  h.same (sameTurn_report i d) (h.core.report h.eager i d)

theorem Inv.recordSent (h : Inv reply s) (i : Nat) (d : Option Bool) :
    Inv reply (recordSent reply s i d) := by
  unfold ReplyBubbles.recordSent
  split
  · exact h
  · split_ifs
    · exact h.report i d
    · exact h

theorem Inv.touch (h : Inv reply s) (f : DeliveryReceipt → DeliveryReceipt)
    (hf : ∀r,(f r).resolved=r.resolved∧(r.resolved → (f r).outcome=r.outcome∧
      (f r).messageIds=r.messageIds)) : Inv reply (s.touch i f) :=
  ⟨h.core.touch f hf,h.eager,h.place,h.task⟩

theorem Inv.closeInline (hc : Core reply s) (ht : s.closeTask=false) (handed : Bool) :
    Inv reply (closeInline reply s handed) := by
  obtain ⟨h1,h2⟩ := hc.close .sender
  obtain ⟨-,-,hclosed,htask⟩ := (sameTurn_maybeSettle .sender : SameTurn _ (ReplyBubbles.maybeSettle reply {s with closed := true} .sender))
  refine ⟨h1.place _ _,h2,?_,fun hct => ?_⟩
  rotate_left
  · have hct : (ReplyBubbles.close reply s .sender).closeTask=true := hct
    rw [ReplyBubbles.close,htask] at hct
    change s.closeTask=true at hct
    rw [ht] at hct
    cases hct
  unfold Place ReplyBubbles.closeInline
  dsimp only
  split <;> split at * <;> first | exact hclosed | simp_all

theorem Inv.raise (hc : Core reply s) (he : Eager s) : Inv reply s.raise :=
  ⟨hc.place _ _,he,.inr (.inl rfl),fun _ => rfl⟩

theorem last_lt (reply : Reply μ) : last reply<reply.batches.length := by
  have := List.length_pos_iff.mpr reply.nonempty
  unfold last
  omega

theorem Inv.handLast (h : Inv reply s) (hd : s.dispatched=last reply) (hc : s.closed=false)
    (ht : s.closeTask=false) : Inv reply (handLast reply s) :=
  Inv.closeInline (h.core.receipt hc hd (last_lt reply)) ht true

theorem Inv.next (h : Inv reply s) (hd : s.dispatched=i+1) (hi : i<last reply) (hc : s.closed=false)
    (ht : s.closeTask=false) : Inv reply (next reply s i) := by
  refine ⟨h.core.place _ _,h.eager,?_,fun hct => absurd (hct.symm.trans ht) (by decide)⟩
  unfold Place ReplyBubbles.next
  by_cases hlt : i+1<last reply
  · simp only [if_pos hlt]
    exact ⟨hd,hlt,hc⟩
  · simp only [if_neg hlt]
    exact ⟨by omega,hc⟩

theorem Inv.finish (h : Inv reply s) (hr : s.running=some (w,x)) : Inv reply (s.settleEnds x true) :=
  ⟨h.core.finish hr,h.eager,h.place,h.task⟩

def Undisturbed (_ : ReplyBubbles μ) (a : BubbleAct) : Prop := ∀cancelled,a≠.interrupt cancelled

theorem Inv.stage (h : Inv reply s) (hne : s.sender≠.raised) {sender : Sender}
    (hp : Place reply {s with sender := sender}) : Inv reply {s with sender := sender} :=
  ⟨h.core.place _ _,h.eager,hp,fun hct => absurd (hct.symm.trans (h.no_task hne)) (by decide)⟩

theorem Inv.proceed (h : Inv reply s) {fresh buildable : Bool}
    (hs : step reply s (.proceed fresh buildable)=some t) : Inv reply t := by
  have hp := h.place
  unfold Place at hp
  dsimp only [step] at hs
  split at hs
  · rename_i hsender
    rw [hsender] at hp
    obtain ⟨hd,hc⟩ := hp
    have hne : s.sender≠.raised := by rw [hsender]; decide
    split_ifs at hs with hf hl <;> cases hs
    · exact h.stage hne ⟨hd,hl,hc⟩
    · exact h.handLast (by omega) hc (h.no_task hne)
    · exact h.stage hne ⟨hd,hc⟩
  · rename_i i hsender
    rw [hsender] at hp
    obtain ⟨hd,hl,hc⟩ := hp
    have ht := h.no_task (by rw [hsender]; exact Sender.noConfusion)
    split_ifs at hs <;> cases hs
    · have hcore := h.core.receipt hc hd (by have := last_lt reply; omega)
      refine ⟨hcore.place _ _,fun hcl => ?_,⟨?_,hl,hc⟩,fun hct => ?_⟩
      · exact absurd (Eq.trans (Eq.symm hcl) hc) (by decide)
      · change max s.dispatched (i+1)=i+1
        omega
      · exact absurd (Eq.trans (Eq.symm hct) ht) (by decide)
    · exact Inv.closeInline h.core ht false
  · rename_i hsender
    rw [hsender] at hp
    obtain ⟨hd,hc⟩ := hp
    have ht := h.no_task (by rw [hsender]; decide)
    split_ifs at hs <;> cases hs
    · exact h.handLast hd hc ht
    · exact Inv.closeInline h.core ht false
  · cases hs

theorem Inv.sent (h : Inv reply s) {outcome : Option Bool} {pause : Bool}
    (hs : step reply s (.sent outcome pause)=some t) : Inv reply t := by
  have hp := h.place
  unfold Place at hp
  dsimp only [step] at hs
  split at hs
  · rename_i i hsender
    rw [hsender] at hp
    obtain ⟨hd,hl,hc⟩ := hp
    have h' := h.recordSent i outcome
    obtain ⟨hs',hd',hc',ht'⟩ := (sameTurn_recordSent i outcome : SameTurn _ (ReplyBubbles.recordSent reply s i outcome))
    rw [← hd'] at hd
    rw [← hc'] at hc
    have hne : (ReplyBubbles.recordSent reply s i outcome).sender≠.raised := by
      rw [hs',hsender]
      exact Sender.noConfusion
    split_ifs at hs <;> cases hs
    · exact h'.stage hne ⟨hd,hl,hc⟩
    · exact h'.next hd hl hc (h'.no_task hne)
    · exact Inv.closeInline h'.core (h'.no_task hne) false
  · cases hs

theorem Inv.fail (h : Inv reply s) (hs : step reply s .fail=some t) : Inv reply t := by
  have hp := h.place
  unfold Place at hp
  dsimp only [step] at hs
  split at hs <;> cases hs <;> rename_i hsender <;> rw [hsender] at hp
  · exact ⟨h.core.place _ _,h.eager,.inr (.inr hp.1),fun _ => rfl⟩
  · exact h.stage (by rw [hsender]; exact Sender.noConfusion) hp
  all_goals exact Inv.raise h.core h.eager

def visible (s : ReplyBubbles μ) : List Nat :=
  (List.range s.dispatched).filter fun i => s.outcomeOf i≠some (some false)

def Reported (s : ReplyBubbles μ) : Prop := ∀i < s.dispatched,s.outcomeOf i≠none

instance (s : ReplyBubbles μ) : Decidable s.Reported := by unfold Reported; infer_instance

structure Faithful (reply : Reply μ) (s : ReplyBubbles μ) (x : Settlement μ) : Prop where
  rollback : x=.rollback↔∀i < s.dispatched,s.outcomeOf i=some (some false)
  messageIds : ∀ps ids,x=.commit ps ids →
    ids=s.visible.flatMap fun i => ((s.receipts i).map (·.messageIds)).getD []
  whole : ∀ps ids,x=.commit ps ids → s.visible=List.range reply.batches.length → ps=wholeReply reply
  part : ∀ps ids,x=.commit ps ids → s.visible≠List.range reply.batches.length →
    content ps=shown (s.visible.map fun i => reply.batches.getD i [])

structure SettlesOnce (reply : Reply μ) (s : ReplyBubbles μ) : Prop where
  order : ∃x,(s.closed → s.Reported → Faithful reply s x)∧
    s.events=(if 0 < s.dispatched then [.held] else [])++
      if s.closed∧s.Reported then
        .began x::if s.running.isSome then [] else .settled x::if 0 < s.dispatched then [.released] else []
      else []
  /-- Once it is closed, no further bubble is handed out. -/
  halted : s.closed → ∀a t,step reply s a=some t → t.closed∧t.dispatched=s.dispatched
  /-- A turn that has left the sending has closed, or a task is about to. -/
  closes : ∀handed,s.sender=.ended handed → s.closed
  raised : s.sender=.raised → s.closed∨s.closeTask∨s.dispatched=0

theorem Place.done (h : Place reply s) (hc : s.closed=true) :
    (∃b,s.sender=.closing b)∨(∃b,s.sender=.ended b)∨s.sender=.raised := by
  unfold Place at h
  cases hsd : s.sender with
  | closing b => exact .inl ⟨b,rfl⟩
  | ended b => exact .inr (.inl ⟨b,rfl⟩)
  | raised => exact .inr (.inr rfl)
  | _ =>
    rw [hsd] at h
    simp [hc] at h

theorem Place.halted (h : Place reply s) (hc : s.closed=true) {a : BubbleAct}
    (hs : step reply s a=some t) : t.closed=true∧t.dispatched=s.dispatched := by
  have hdone := h.done hc
  cases a with
  | proceed fresh buildable => rcases hdone with ⟨b,hb⟩ | ⟨b,hb⟩ | hb <;> simp [step,hb] at hs
  | sent outcome pause => rcases hdone with ⟨b,hb⟩ | ⟨b,hb⟩ | hb <;> simp [step,hb] at hs
  | resume => rcases hdone with ⟨b,hb⟩ | ⟨b,hb⟩ | hb <;> simp [step,hb] at hs
  | recorded => rcases hdone with ⟨b,hb⟩ | ⟨b,hb⟩ | hb <;> simp [step,hb] at hs
  | fail => rcases hdone with ⟨b,hb⟩ | ⟨b,hb⟩ | hb <;> simp [step,hb] at hs
  | closeTask =>
    dsimp only [step] at hs
    split_ifs at hs
    cases hs
    have hst := (sameTurn_maybeSettle .beside : SameTurn _ (ReplyBubbles.maybeSettle reply {s with closed := true} .beside))
    exact ⟨hst.2.2.1,hst.2.1⟩
  | report i d =>
    cases hs
    have hst : SameTurn s (report reply s i d) := sameTurn_report i d
    exact ⟨hst.2.2.1.trans hc,hst.2.1⟩
  | addMessageId i m => cases hs; exact ⟨hc,rfl⟩
  | addExpectedActions i n => cases hs; exact ⟨hc,rfl⟩
  | deferToTransport i => cases hs; exact ⟨hc,rfl⟩
  | finish =>
    dsimp only [step] at hs
    split at hs <;> cases hs <;> exact ⟨hc,rfl⟩
  | interrupt c =>
    dsimp only [step] at hs
    split at hs <;> cases hs
    · split_ifs <;> exact ⟨hc,rfl⟩
    · exact ⟨hc,rfl⟩

end

end XiaoQing.Chat.ReplyBubbles
