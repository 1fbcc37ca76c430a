import XiaoQing.OneBot.ActionClient
import XiaoQing.Delivery.Settlement

namespace XiaoQing.OneBot

open Function (update_of_ne update_self)

open Framework Delivery ActionClient

/-- A response comes from a frame of the generation that committed the request; and a request whose
frame may have been written is reported as its response, or recorded as unknown whatever the other
transports would do. -/
structure ActionOutcome (s : ActionClient) (r : Nat) : Prop where
  resolved : ∀f,(s.requests r).future=.resolved f →
    ∃c,(s.requests r).commit=some c ∧ (c.auth,f)∈s.frames ∧ f.echo=some (.own r)
  reported : ∀exit,(s.requests r).phase=.done exit → (s.requests r).written=true →
    (∃f,exit=.returned (some f) ∧ (s.requests r).future=.resolved f) ∨
    ∀recordCancelled observerRaises rest,recorded (s.requests r).anyDelivered
      (sendSingleAction recordCancelled observerRaises rest true exit)=none

/-- No caller is cancelled in `ws.send` once the frame may have been written, unless a part of the
reply has already been delivered. -/
def SendKept (s : ActionClient) : ActionAct → Prop
  | .cancel r => (s.requests r).phase=.sending → (s.requests r).written=true →
      (s.requests r).anyDelivered=true
  | _ => True

namespace ActionClient

structure RequestInv (s : ActionClient) (r : Nat) : Prop where
  fresh : (s.requests r).phase=.absent ∨ (∃ws auth,(s.requests r).phase=.targeted ws auth) →
    (s.requests r).commit=none ∧ (s.requests r).written=false
  active : (s.requests r).phase=.sending ∨ (s.requests r).phase=.waiting →
    (s.requests r).commit≠none
  pending : s.pendingFutures r=true →
    ∃c,(s.requests r).commit=some c ∧ s.pendingAuthStates r=some c.auth
  resolved : ∀f,(s.requests r).future=.resolved f →
    ∃c,(s.requests r).commit=some c ∧ (c.auth,f)∈s.frames ∧ f.echo=some (.own r)
  refused : (s.requests r).phase=.done (.returned none) → (s.requests r).written=false
  answered : ∀f,(s.requests r).phase=.done (.returned (some f)) →
    (s.requests r).future=.resolved f
  cut : (s.requests r).phase=.done .cancelled → (s.requests r).written=true →
    (s.requests r).anyDelivered=true

structure Calm (s t : ActionClient) (r : Nat) : Prop where
  frames : ∀f∈s.frames,f∈t.frames
  pending : t.pendingFutures r=true →
    s.pendingFutures r=true ∧ t.pendingAuthStates r=s.pendingAuthStates r
  request : ∃future,t.requests r={s.requests r with future := future} ∧
    (future=(s.requests r).future ∨
      (s.requests r).future=.pending ∧ ∀f,future≠.resolved f)

variable {s t u : ActionClient} {r q : Nat}

theorem Calm.refl (s : ActionClient) (r : Nat) : Calm s s r :=
  ⟨fun _ hf => hf,fun hp => ⟨hp,rfl⟩,_,rfl,.inl rfl⟩

theorem Calm.of_frame (hframes : ∀f∈s.frames,f∈t.frames) (hrequests : t.requests=s.requests)
    (hfutures : t.pendingFutures=s.pendingFutures)
    (hauth : t.pendingAuthStates=s.pendingAuthStates) : Calm s t r := by
  refine ⟨hframes,?_,(s.requests r).future,?_,.inl rfl⟩
  · intro hp
    rw [hfutures] at hp
    rw [hauth]
    exact ⟨hp,rfl⟩
  · rw [hrequests]

theorem RequestInv.calm (h : RequestInv s r) (hc : Calm s t r) : RequestInv t r := by
  obtain ⟨future,hrequest,hfuture⟩ := hc.request
  refine ⟨?_,?_,?_,?_,?_,?_,?_⟩
  · simpa only [hrequest] using h.fresh
  · simpa only [hrequest] using h.active
  · intro hp
    obtain ⟨hp,hauth⟩ := hc.pending hp
    simpa only [hrequest,hauth] using h.pending hp
  · intro f hf
    simp only [hrequest] at hf
    rcases hfuture with hsame | ⟨_,hfailed⟩
    · obtain ⟨c,hcommit,hframe,hecho⟩ := h.resolved f (hsame.symm.trans hf)
      exact ⟨c,by simpa only [hrequest] using hcommit,hc.frames _ hframe,hecho⟩
    · exact absurd hf (hfailed f)
  · simpa only [hrequest] using h.refused
  · intro f hf
    simp only [hrequest] at hf ⊢
    have hanswer := h.answered f hf
    rcases hfuture with hsame | ⟨hpending,_⟩
    · rw [hsame,hanswer]
    · rw [hpending] at hanswer
      cases hanswer
  · simpa only [hrequest] using h.cut

theorem failPending_calm (s : ActionClient) (reason : String) (exclude auth : Option Nat) (r : Nat) :
    Calm s (s.failPendingActionFutures reason exclude auth) r := by
  refine ⟨fun _ hf => hf,?_,?_⟩
  · intro hp
    simp only [failPendingActionFutures,Bool.and_eq_true,Bool.not_eq_true'] at hp
    refine ⟨hp.1,?_⟩
    simp only [failPendingActionFutures,hp.2]
    rfl
  · by_cases hf : s.failing auth r=true ∧ exclude≠some r ∧ (s.requests r).future=.pending
    · refine ⟨.failed reason,?_,.inr ⟨hf.2.2,?_⟩⟩
      · simp only [failPendingActionFutures,if_pos hf]
      · intro f h
        cases h
    · exact ⟨_,by simp only [failPendingActionFutures,if_neg hf],.inl rfl⟩

@[simp] theorem dropPending_requests (s : ActionClient) (r : Nat) :
    (s.dropPending r).requests=s.requests := by
  unfold dropPending
  split <;> rfl

@[simp] theorem dropPending_frames (s : ActionClient) (r : Nat) :
    (s.dropPending r).frames=s.frames := by
  unfold dropPending
  split <;> rfl

@[simp] theorem dropPending_listeners (s : ActionClient) (r : Nat) :
    (s.dropPending r).listeners=s.listeners := by
  unfold dropPending
  split <;> rfl

@[simp] theorem dropPending_self (s : ActionClient) (r : Nat) :
    (s.dropPending r).pendingFutures r=false := by
  unfold dropPending
  split
  · simp
  · rename_i hr
    simpa using hr

theorem dropPending_ne (s : ActionClient) (h : q≠r) :
    (s.dropPending r).pendingFutures q=s.pendingFutures q ∧
      (s.dropPending r).pendingAuthStates q=s.pendingAuthStates q := by
  unfold dropPending
  split
  · simp [update_of_ne h]
  · exact ⟨rfl,rfl⟩

theorem setRequest_ne (s : ActionClient) (p : Request) (h : q≠r) : Calm s (s.setRequest r p) q := by
  refine ⟨fun _ hf => hf,fun hp => ⟨hp,rfl⟩,(s.requests q).future,?_,.inl rfl⟩
  simp only [setRequest,update_of_ne h]

theorem Calm.trans (h : Calm s t r) (ht : Calm t u r) : Calm s u r := by
  obtain ⟨future,hrequest,hfuture⟩ := h.request
  obtain ⟨future',hrequest',hfuture'⟩ := ht.request
  refine ⟨fun f hf => ht.frames f (h.frames f hf),?_,future',?_,?_⟩
  · intro hp
    obtain ⟨hp,hauth⟩ := ht.pending hp
    obtain ⟨hp,hauth'⟩ := h.pending hp
    exact ⟨hp,hauth.trans hauth'⟩
  · rw [hrequest',hrequest]
  · rw [hrequest] at hfuture'
    rcases hfuture' with hsame | ⟨hpending,hfailed⟩
    · rw [hsame]
      exact hfuture
    · rcases hfuture with hsame | ⟨hpending',_⟩
      · exact .inr ⟨hsame.symm.trans hpending,hfailed⟩
      · exact .inr ⟨hpending',hfailed⟩

theorem dropPending_calm (s : ActionClient) (h : q≠r) : Calm s (s.dropPending r) q := by
  obtain ⟨hfuture,hauth⟩ := s.dropPending_ne h
  refine ⟨by simp,?_,(s.requests q).future,by simp,.inl rfl⟩
  intro hp
  exact ⟨hfuture.symm.trans hp,hauth⟩

theorem finishRequest_ne (s : ActionClient) (exit : Exit) (h : q≠r) :
    Calm s (s.finishRequest r exit) q :=
  (s.setRequest_ne _ h).trans (dropPending_calm _ h)

theorem finishRequest_inv (exit : Exit) (h : RequestInv s r)
    (hrefused : exit=.returned none → (s.requests r).written=false)
    (hanswered : ∀f,exit=.returned (some f) → (s.requests r).future=.resolved f)
    (hcut : exit=.cancelled → (s.requests r).written=true → (s.requests r).anyDelivered=true) :
    RequestInv (s.finishRequest r exit) r := by
  obtain ⟨future,hfuture,hrequest⟩ : ∃future,(∀f,future=.resolved f ↔
      (s.requests r).future=.resolved f) ∧ (s.finishRequest r exit).requests r=
      {s.requests r with phase := .done exit,future := future} := by
    refine ⟨if (s.requests r).future=.pending then .cancelled else (s.requests r).future,?_,?_⟩
    · intro f
      split
      · rename_i hp
        simp [hp]
      · rfl
    · simp [finishRequest,setRequest]
  refine ⟨?_,?_,?_,?_,?_,?_,?_⟩
  · rw [hrequest]
    rintro (hp | ⟨_,_,hp⟩) <;> cases hp
  · rw [hrequest]
    rintro (hp | hp) <;> cases hp
  · intro hp
    rw [finishRequest,dropPending_self] at hp
    cases hp
  · intro f hf
    rw [hrequest] at hf
    rw [hrequest,finishRequest,dropPending_frames]
    exact h.resolved f ((hfuture f).mp hf)
  · rw [hrequest]
    intro hp
    exact hrefused (by simpa using hp)
  · rw [hrequest]
    intro f hp
    exact (hfuture f).mpr (hanswered f (by simpa using hp))
  · rw [hrequest]
    intro hp
    exact hcut (by simpa using hp)

theorem abandon_calm (s : ActionClient) (commit : Option ActionCommit) (q : Nat) :
    Calm s (s.abandon commit) q := by
  unfold abandon
  split
  · exact .of_frame (fun _ hf => hf) rfl rfl rfl
  · exact .refl s q

theorem sendFailed_calm (s : ActionClient) (h : q≠r) : Calm s (s.sendFailed r) q := by
  refine Calm.trans ?_ (finishRequest_ne _ _ h)
  exact (s.abandon_calm _ q).trans (failPending_calm _ _ _ _ _)

theorem sendFailed_inv (h : RequestInv s r) (hcommit : (s.requests r).commit≠none) :
    RequestInv (s.sendFailed r) r := by
  simp only [sendFailed,if_neg hcommit]
  apply finishRequest_inv
  · apply h.calm
    exact (s.abandon_calm _ r).trans (failPending_calm _ _ _ _ _)
  · intro he
    cases he
  · intro f he
    cases he
  · intro he
    cases he

theorem beginRequest_inv (isOpen anyDelivered : Bool) (h : RequestInv s r)
    (hp : (s.requests r).phase=.absent) : RequestInv (s.beginRequest r isOpen anyDelivered) r := by
  have hfutures : s.pendingFutures r=false := by
    by_contra hf
    obtain ⟨c,hc,_⟩ := h.pending (by simpa using hf)
    rw [(h.fresh (.inl hp)).1] at hc
    cases hc
  obtain ⟨phase,hphase,hbegin⟩ : ∃phase,
      (phase=.done (.returned none) ∨ ∃ws auth,phase=.targeted ws auth) ∧
      s.beginRequest r isOpen anyDelivered=s.setRequest r ⟨phase,.pending,none,false,anyDelivered⟩ := by
    refine ⟨_,?_,rfl⟩
    split
    · exact .inl rfl
    · exact .inr ⟨_,_,rfl⟩
  rw [hbegin]
  refine ⟨?_,?_,?_,?_,?_,?_,?_⟩ <;> simp only [setRequest,update_self]
  · simp
  · rcases hphase with rfl | ⟨ws,auth,rfl⟩ <;> simp
  · simp [hfutures]
  · simp
  · simp
  · rcases hphase with rfl | ⟨ws,auth,rfl⟩ <;> simp
  · simp

theorem commitRequest_ne (s : ActionClient) (ws auth : Nat) (h : q≠r) :
    Calm s (s.commitRequest r ws auth) q := by
  unfold commitRequest
  split
  · exact finishRequest_ne s _ h
  · refine (s.setRequest_ne _ h).trans ⟨fun _ hf => hf,?_,_,rfl,.inl rfl⟩
    simp only [update_of_ne h]
    exact fun hp => ⟨hp,trivial⟩

theorem commitRequest_inv (ws auth : Nat) (h : RequestInv s r)
    (hp : (s.requests r).phase=.targeted ws auth) :
    RequestInv (s.commitRequest r ws auth) r := by
  obtain ⟨hcommit,hwritten⟩ := h.fresh (.inr ⟨ws,auth,hp⟩)
  unfold commitRequest
  split
  · apply finishRequest_inv _ h
    · exact fun _ => hwritten
    · intro f he
      cases he
    · intro he
      cases he
  · refine ⟨?_,?_,?_,?_,?_,?_,?_⟩ <;> simp only [setRequest,update_self]
    · simp
    · simp
    · simp
    · intro f hf
      obtain ⟨c,hc,_⟩ := h.resolved f hf
      rw [hcommit] at hc
      cases hc
    · simp
    · simp
    · simp

theorem resolve_inv (auth : Nat) (frame : Envelope) (h : RequestInv s q)
    (hframe : (auth,frame)∈s.frames) : RequestInv (s.resolveActionResponse auth frame) q := by
  unfold resolveActionResponse
  split
  · exact h
  · split
    · rename_i r hecho
      split
      · rename_i hmatch
        obtain ⟨_,hfuture,hpending,hauth⟩ := hmatch
        by_cases hq : q=r
        · subst hq
          obtain ⟨c,hcommit,hcauth⟩ := h.pending hfuture
          have hc : auth=c.auth := Option.some.inj (hauth.symm.trans hcauth)
          refine ⟨?_,?_,?_,?_,?_,?_,?_⟩ <;> simp only [setRequest,update_self]
          · exact h.fresh
          · exact h.active
          · exact h.pending
          · intro f hf
            cases hf
            exact ⟨c,hcommit,hc ▸ hframe,hecho⟩
          · exact h.refused
          · intro f hf
            have hanswer := h.answered f hf
            rw [hpending] at hanswer
            cases hanswer
          · exact h.cut
        · exact h.calm (s.setRequest_ne _ hq)
      · exact h
    · exact h

structure ActionInv (s : ActionClient) : Prop where
  request : ∀r,RequestInv s r
  resolving : ∀l f,(s.listeners l).phase=.resolving f → ((s.listeners l).auth,f)∈s.frames

theorem ActionInv.change (h : ActionInv s) (hr : RequestInv t r) (hne : ∀q,q≠r → Calm s t q)
    (hlisteners : t.listeners=s.listeners) : ActionInv t := by
  refine ⟨?_,?_⟩
  · intro q
    by_cases hq : q=r
    · exact hq ▸ hr
    · exact (h.request q).calm (hne q hq)
  · intro l f hp
    rw [hlisteners] at hp ⊢
    have hother : r+1≠r := by omega
    exact (hne (r+1) hother).frames _ (h.resolving l f hp)

theorem ActionInv.calm (h : ActionInv s) (hc : ∀q,Calm s t q)
    (hresolving : ∀l f,(t.listeners l).phase=.resolving f →
      (s.listeners l).phase=.resolving f ∧ (t.listeners l).auth=(s.listeners l).auth ∨
      ((t.listeners l).auth,f)∈t.frames) : ActionInv t := by
  refine ⟨fun q => (h.request q).calm (hc q),?_⟩
  intro l f hp
  rcases hresolving l f hp with ⟨hs,hauth⟩ | hframe
  · rw [hauth]
    exact (hc 0).frames _ (h.resolving l f hs)
  · exact hframe

theorem finishRequest_listeners (s : ActionClient) (r : Nat) (exit : Exit) :
    (s.finishRequest r exit).listeners=s.listeners := by
  simp [finishRequest,setRequest]

theorem sendFailed_listeners (s : ActionClient) (r : Nat) :
    (s.sendFailed r).listeners=s.listeners := by
  simp only [sendFailed,finishRequest_listeners,failPendingActionFutures,abandon]
  split <;> rfl

theorem commitRequest_listeners (s : ActionClient) (r ws auth : Nat) :
    (s.commitRequest r ws auth).listeners=s.listeners := by
  unfold commitRequest
  split
  · exact s.finishRequest_listeners r _
  · rfl

theorem setListener_resolving (s : ActionClient) (l : Nat) (phase : ListenPhase)
    (hphase : ∀f,phase≠.resolving f) : ∀k f,((s.setListener l phase).listeners k).phase=.resolving f →
      (s.listeners k).phase=.resolving f ∧
        ((s.setListener l phase).listeners k).auth=(s.listeners k).auth := by
  intro k f hp
  by_cases hk : k=l
  · subst hk
    simp only [setListener,update_self] at hp
    exact absurd hp (hphase f)
  · simp only [setListener,update_of_ne hk] at hp ⊢
    exact ⟨hp,trivial⟩

theorem request_update_inv (p : Request) (h : RequestInv s r) (hcommit : p.commit=(s.requests r).commit)
    (hfuture : p.future=(s.requests r).future) (hphase : p.phase=.sending ∨ p.phase=.waiting)
    (hactive : (s.requests r).commit≠none) : RequestInv (s.setRequest r p) r := by
  refine ⟨?_,?_,?_,?_,?_,?_,?_⟩ <;> simp only [setRequest,update_self]
  · rcases hphase with hp | hp <;> simp [hp]
  · rw [hcommit]
    exact fun _ => hactive
  · rw [hcommit]
    exact h.pending
  · rw [hcommit,hfuture]
    exact h.resolved
  · rcases hphase with hp | hp <;> simp [hp]
  · rcases hphase with hp | hp <;> simp [hp]
  · rcases hphase with hp | hp <;> simp [hp]

theorem resolve_frames (s : ActionClient) (auth : Nat) (frame : Envelope) :
    (s.resolveActionResponse auth frame).frames=s.frames ∧
      (s.resolveActionResponse auth frame).listeners=s.listeners := by
  unfold resolveActionResponse
  split
  · exact ⟨rfl,rfl⟩
  · split
    · split <;> exact ⟨rfl,rfl⟩
    · exact ⟨rfl,rfl⟩

theorem ActionInv.own (h : ActionInv s) {exit : Exit}
    (hrefused : exit=.returned none → (s.requests r).written=false)
    (hanswered : ∀f,exit=.returned (some f) → (s.requests r).future=.resolved f)
    (hcut : exit=.cancelled → (s.requests r).written=true → (s.requests r).anyDelivered=true) :
    ActionInv (s.finishRequest r exit) :=
  h.change (finishRequest_inv exit (h.request r) hrefused hanswered hcut)
    (fun _ hq => finishRequest_ne s exit hq) (s.finishRequest_listeners r exit)

theorem ActionInv.failed (h : ActionInv s)
    (hp : (s.requests r).phase=.sending ∨ (s.requests r).phase=.waiting) :
    ActionInv (s.sendFailed r) :=
  h.change (sendFailed_inv (h.request r) ((h.request r).active hp))
    (fun _ hq => sendFailed_calm s hq) (s.sendFailed_listeners r)

theorem ActionInv.withdraw (h : ActionInv s) (ws : Nat) : ActionInv (s.withdraw ws) := by
  unfold ActionClient.withdraw
  split
  · exact h.calm (fun _ => .of_frame (fun _ hf => hf) rfl rfl rfl) (fun _ _ hp => .inl ⟨hp,rfl⟩)
  · exact h

theorem initial_inv (h : Initial s) : ActionInv s := by
  obtain ⟨_,_,_,_,_,hfutures,_,hrequests,hlisteners⟩ := h
  refine ⟨?_,?_⟩
  · intro r
    refine ⟨?_,?_,?_,?_,?_,?_,?_⟩ <;> simp [hrequests,hfutures]
  · intro l f hp
    rw [hlisteners] at hp
    cases hp

theorem actionStep_inv {a : ActionAct} (h : ActionInv s) (hok : SendKept s a)
    (hs : actionStep s a=some t) : ActionInv t := by
  cases a with simp only [actionStep,Option.ite_none_right_eq_some,Option.some.injEq] at hs
  | request r isOpen anyDelivered =>
    obtain ⟨hp,rfl⟩ := hs
    exact h.change (beginRequest_inv isOpen anyDelivered (h.request r) hp)
      (fun q hq => s.setRequest_ne _ hq) rfl
  | commit r =>
    split at hs
    · rename_i ws auth hp
      cases hs
      exact h.change (commitRequest_inv ws auth (h.request r) hp)
        (fun q hq => s.commitRequest_ne ws auth hq) (s.commitRequest_listeners r ws auth)
    · cases hs
  | write r =>
    obtain ⟨hp,rfl⟩ := hs
    refine h.change ?_ (fun q hq => s.setRequest_ne _ hq) rfl
    exact request_update_inv _ (h.request r) rfl rfl (.inl hp) ((h.request r).active (.inl hp))
  | sent r =>
    obtain ⟨hp,rfl⟩ := hs
    refine h.change ?_ (fun q hq => s.setRequest_ne _ hq) rfl
    exact request_update_inv _ (h.request r) rfl rfl (.inr rfl) ((h.request r).active (.inl hp))
  | sendRaises r timedOut =>
    obtain ⟨hp,rfl⟩ := hs
    split
    · apply h.own <;> simp
    · exact h.failed (.inl hp)
  | wake r =>
    obtain ⟨hp,hs⟩ := hs
    split at hs
    · rename_i response hfuture
      cases hs
      apply h.own
      · simp
      · intro f hf
        cases hf
        exact hfuture
      · simp
    · cases hs
      exact h.failed (.inr hp)
    · cases hs
  | timeout r =>
    obtain ⟨_,rfl⟩ := hs
    apply h.own <;> simp
  | cancel r =>
    split at hs
    · rename_i hp
      cases hs
      apply h.own
      · simp
      · simp
      · exact fun _ => hok hp
    · cases hs
      apply h.own <;> simp
    · cases hs
  | rotate trusted =>
    cases hs
    exact h.calm (fun _ => .of_frame (fun _ hf => hf) rfl rfl rfl) (fun _ _ hp => .inl ⟨hp,rfl⟩)
  | invalidate auth =>
    obtain ⟨_,rfl⟩ := hs
    refine h.calm (fun q => ?_) (fun _ _ hp => .inl ⟨hp,rfl⟩)
    exact (s.failPending_calm _ none (some auth) q).trans (.of_frame (fun _ hf => hf) rfl rfl rfl)
  | connect =>
    obtain ⟨_,rfl⟩ := hs
    refine h.calm (fun _ => .of_frame (fun _ hf => hf) rfl rfl rfl) ?_
    intro l f hp
    by_cases hl : l=s.nextListener
    · subst hl
      simp at hp
    · simp only [update_of_ne hl] at hp ⊢
      exact .inl ⟨hp,trivial⟩
  | accept l =>
    obtain ⟨_,rfl⟩ := hs
    unfold ActionClient.accept
    split
    · refine h.calm (fun _ => .of_frame (fun _ hf => hf) rfl rfl rfl) ?_
      exact fun k f hp => .inl (setListener_resolving s l .reading (by simp) k f hp)
    · refine h.calm (fun _ => .of_frame (fun _ hf => hf) rfl rfl rfl) ?_
      exact fun k f hp => .inl (setListener_resolving s l .done (by simp) k f hp)
  | receive l frame =>
    obtain ⟨_,rfl⟩ := hs
    split
    · refine h.calm (fun _ => .of_frame (fun _ hf => by simp [setListener,hf]) rfl rfl rfl) ?_
      intro k f hp
      by_cases hk : k=l
      · subst hk
        simp only [setListener,update_self,ListenPhase.resolving.injEq] at hp ⊢
        simp [hp]
      · simp only [setListener,update_of_ne hk] at hp ⊢
        exact .inl ⟨hp,trivial⟩
    · refine h.calm (fun _ => .of_frame (fun _ hf => by simp [setListener,hf]) rfl rfl rfl) ?_
      exact fun k f hp => .inl (setListener_resolving _ l .leaving (by simp) k f hp)
  | resolve l =>
    obtain ⟨_,hs⟩ := hs
    split at hs
    · rename_i frame hp
      cases hs
      have hframe := h.resolving l frame hp
      obtain ⟨hframes,hlisteners⟩ := s.resolve_frames (s.listeners l).auth frame
      have hresolved : ActionInv (s.resolveActionResponse (s.listeners l).auth frame) := by
        refine ⟨fun q => resolve_inv _ frame (h.request q) hframe,?_⟩
        rw [hframes,hlisteners]
        exact h.resolving
      refine hresolved.calm (fun _ => .of_frame (fun _ hf => hf) rfl rfl rfl) ?_
      exact fun k f hp => .inl (setListener_resolving _ l .reading (by simp) k f hp)
    · cases hs
  | disconnect l =>
    obtain ⟨_,rfl⟩ := hs
    refine h.calm (fun q => ?_)
      (fun k f hp => .inl (setListener_resolving _ l .closing (by simp) k f hp))
    exact (s.failPending_calm _ none _ q).trans (.of_frame (fun _ hf => hf) rfl rfl rfl)
  | detach l =>
    obtain ⟨_,rfl⟩ := hs
    exact (h.withdraw l).calm (fun _ => .of_frame (fun _ hf => hf) rfl rfl rfl)
      (fun k f hp => .inl (setListener_resolving _ l .done (by simp) k f hp))
  | closed ws =>
    cases hs
    exact h.withdraw ws
  | stop =>
    cases hs
    exact h.calm (fun q => s.failPending_calm _ none none q) (fun _ _ hp => .inl ⟨hp,rfl⟩)

end ActionClient

/-- Along every run whose steps keep clear of a cancellation inside a send, a request is resolved by
its own frame only, and a frame that may have been written is never recorded as unsent. -/
theorem action_outcome (s : ActionClient) (h : Reach actionStep SendKept Initial s) (r : Nat) :
    ActionOutcome s r := by
  have hinv : ActionInv s := h.invariant (fun _ hi => initial_inv hi)
    (fun _ _ _ hi hok hs => actionStep_inv hi hok hs)
  have hr := hinv.request r
  refine ⟨hr.resolved,?_⟩
  intro exit hexit hwritten
  cases exit with
  | returned response =>
    cases response with
    | none =>
      rw [hr.refused hexit] at hwritten
      cases hwritten
    | some f => exact .inl ⟨f,rfl,hr.answered f hexit⟩
  | outcomeUnknown => exact .inr (fun _ _ _ => rfl)
  | cancelledAfterCommit => exact .inr (fun _ _ _ => rfl)
  | cancelled =>
    right
    intro _ _ _
    simp [sendSingleAction,recorded,hr.cut hexit hwritten]

def startClient : ActionClient :=
  ⟨0,true,none,none,fun _ => false,fun _ => none,fun _ => ⟨.absent,.pending,none,false,false⟩,
    fun _ => ⟨0,.connecting⟩,0,[],[]⟩

/-- A rotation between the send and the response leaves the outcome unknown. -/
theorem action_outcome_example :
    ∃s,execute actionStep startClient [.connect,.accept 0,.request 0 true false,.commit 0,.write 0,
        .rotate true,.sent 0,.invalidate 0,.wake 0]=some s ∧
      (s.requests 0).phase=.done .outcomeUnknown ∧ (s.requests 0).written=true ∧
      ActionOutcome s 0 := by
  obtain ⟨s,hs,hphase,hwritten⟩ : ∃s,execute actionStep startClient [.connect,.accept 0,
      .request 0 true false,.commit 0,.write 0,.rotate true,.sent 0,.invalidate 0,.wake 0]=some s ∧
      (s.requests 0).phase=.done .outcomeUnknown ∧ (s.requests 0).written=true :=
    ⟨_,rfl,by decide,by decide⟩
  have hinit : Reach actionStep SendKept Initial startClient :=
    .start ⟨rfl,rfl,rfl,rfl,rfl,fun _ => rfl,fun _ => rfl,fun _ => rfl,fun _ => rfl⟩
  refine ⟨s,hs,hphase,hwritten,action_outcome s (Reach.execute _ ?_ hinit hs) 0⟩
  intro a ha u
  simp only [List.mem_cons,List.not_mem_nil,or_false] at ha
  rcases ha with rfl | rfl | rfl | rfl | rfl | rfl | rfl | rfl | rfl <;> trivial

/-- A caller cancelled while `ws.send` drains a frame already written: the reply is rolled back. -/
theorem cancelled_send_rolls_back :
    ¬∀s,Reach actionStep Free Initial s → ∀r,ActionOutcome s r := by
  intro hall
  obtain ⟨s,hs,hphase,hwritten,hdelivered⟩ : ∃s,execute actionStep startClient [.connect,.accept 0,
      .request 0 true false,.commit 0,.write 0,.cancel 0]=some s ∧
      (s.requests 0).phase=.done .cancelled ∧ (s.requests 0).written=true ∧
      (s.requests 0).anyDelivered=false := ⟨_,rfl,by decide,by decide,by decide⟩
  have hinit : Reach actionStep Free Initial startClient :=
    .start ⟨rfl,rfl,rfl,rfl,rfl,fun _ => rfl,fun _ => rfl,fun _ => rfl,fun _ => rfl⟩
  have houtcome := hall s (Reach.execute _ (fun _ _ _ => trivial) hinit hs) 0
  rcases houtcome.reported .cancelled hphase hwritten with ⟨f,hf,_⟩ | hunknown
  · cases hf
  · have hrecorded := hunknown false false (.raised false true)
    rw [hdelivered] at hrecorded
    exact absurd hrecorded (by decide)

end XiaoQing.OneBot
