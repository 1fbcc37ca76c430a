import XiaoQing.Inbound.Reply

namespace XiaoQing.Inbound

open Framework Delivery Dispatcher

variable {c : Config} {d d' : Dispatcher} {t w : Nat} {x : Worker} {k : Ticket}

/-! Tickets change hands -/

theorem Ticket.Sound.setConsumer (h : k.Sound) (y : Consumer) (hr : ∀l,k.result≠.actions l)
    (hy : k.result=.pending → y=.unclaimed ∨ y=.waiting false) : {k with consumer := y}.Sound := by
  refine ⟨?_,h.idle,h.finished,hy⟩
  cases h.stage with
  | awaited h1 h2 h3 h4 h5 => exact .awaited h1 h2 h3 h4 h5
  | returned l h1 h2 h3 h4 h5 => exact .returned l h1 h2 h3 h4 h5
  | held l h1 h2 h3 h4 => exact absurd h4 (hr l)
  | handed l h1 h2 h3 h4 => exact absurd h4 (hr l)
  | dropped l h1 h2 h3 h4 => exact .dropped l h1 h2 h3 h4 (Or.inl hr)
  | blank l h1 h2 h3 h4 _ h6 => exact .blank l h1 h2 h3 h4 (Or.inl hr) h6

variable {l : List OutAction}

theorem Ticket.Sound.heldOf (h : k.Sound) (hr : k.result=.actions l)
    (hc : k.consumer=.unclaimed ∨ ∃b,k.consumer=.waiting b) :
    k.returned=some l ∧ k.handovers=0 ∧ k.drops=0 ∧ k.operation=.absent ∧
      (k.consumer=.waiting true → receiptsOf l=[]) := by
  cases h.stage with
  | awaited h1 h2 h3 h4 h5 => exact absurd hr (h4 l)
  | returned l' h1 h2 h3 h4 h5 => exact absurd hr (h4 l)
  | held l' h1 h2 h3 h4 h5 h6 =>
    rw [hr] at h4
    cases h4
    refine ⟨h1,h2,h3,h5,fun hw => ?_⟩
    rcases h6 with h6 | h6 | h6
    · rw [hw] at h6; cases h6
    · rw [hw] at h6; cases h6
    · exact h6.2
  | handed l' h1 h2 h3 h4 h5 h6 =>
    rw [h6] at hc
    rcases hc with hc | ⟨b,hc⟩ <;> cases hc
  | dropped l' h1 h2 h3 h4 h5 =>
    rcases h5 with h5 | h5
    · exact absurd hr (h5 l)
    · rw [h5] at hc
      rcases hc with hc | ⟨b,hc⟩ <;> cases hc
  | blank l' h1 h2 h3 h4 h5 =>
    rcases h5 with h5 | h5
    · exact absurd hr (h5 l)
    · rw [h5] at hc
      rcases hc with hc | ⟨b,hc⟩ <;> cases hc

theorem ReplyInv.setTicket (h : ReplyInv d) (hk : t<d.next → k.Sound)
    (hr : k.returned=(d.tickets t).returned) (hd : k.drops=(d.tickets t).drops)
    (ho : k.operation=(d.tickets t).operation) : ReplyInv (d.setTicket t k) := by
  refine h.update ⟨rfl,rfl,rfl⟩ (fun u hu => ?_) (fun u _ => Or.inl ?_) ?_
  · by_cases hut : u=t
    · subst u; rw [setTicket_self]; exact hk hu
    · rw [setTicket_ne _ _ hut]; exact h.tickets u hu
  · by_cases hut : u=t
    · subst u; rw [setTicket_self]; exact ⟨hr,hd⟩
    · rw [setTicket_ne _ _ hut]; exact ⟨rfl,rfl⟩
  · intro x hx u hu
    have hop : ((d.setTicket t k).tickets u).operation=(d.tickets u).operation := by
      by_cases hut : u=t
      · subst u; rw [setTicket_self]; exact ho
      · rw [setTicket_ne _ _ hut]
    rw [hop]
    exact h.workers x hx u hu

theorem ReplyInv.takeResult (h : ReplyInv d) (ht : t<d.next)
    (hc : (d.tickets t).consumer=.unclaimed ∨ (d.tickets t).consumer=.waiting false)
    (hr : (d.tickets t).result≠.pending) : ReplyInv (d.takeResult t) := by
  have hk := h.tickets t ht
  have hopen : (d.tickets t).consumer=.unclaimed ∨ ∃b,(d.tickets t).consumer=.waiting b :=
    hc.imp_right (fun hw => ⟨false,hw⟩)
  unfold Dispatcher.takeResult
  dsimp only
  split
  · rename_i l hl
    obtain ⟨h1,h2,h3,h4,_⟩ := hk.heldOf hl hopen
    refine h.setTicket (fun _ => ⟨.handed l h1 (by simp [h2]) h3 hl h4 rfl,hk.idle,hk.finished,?_⟩)
      rfl rfl rfl
    intro hp
    exact absurd hp hr
  · rename_i hl
    exact h.setTicket (fun _ => hk.setConsumer .ended (fun l => by rw [hl]; simp)
      (fun hp => absurd hp hr)) rfl rfl rfl
  · rename_i hno _
    refine ReplyInv.quiet ?_ (cancel_quiet _ t)
    exact h.setTicket (fun _ => hk.setConsumer .ended hno (fun hp => absurd hp hr)) rfl rfl rfl

theorem ReplyInv.settle (h : ReplyInv d) (ht : t<d.next)
    (hn : d'.next=d.next) (hr : d'.receipts=d.receipts)
    (hset : d'.settlements=if l=[] then d.settlements else d.settlements++[(t,l)])
    (h0 : (d.tickets t).drops=0) (hret : (d'.tickets t).returned=some l)
    (h1 : (d'.tickets t).drops=1) (hother : ∀u,u≠t → d'.tickets u=d.tickets u)
    (hs : (d'.tickets t).Sound) (hw : ∀x∈d'.workers,x.Safe d') : ReplyInv d' := by
  have hsub (p : Nat × List OutAction) (hp : p∈d.settlements) : p∈d'.settlements := by
    rw [hset]
    split_ifs
    · exact hp
    · exact List.mem_append_left _ hp
  have hne (u : Nat) (hu : (d.tickets u).drops=1) : u≠t := fun he => by
    rw [he,h0] at hu; cases hu
  refine ⟨?_,hw,?_,?_,?_⟩
  · intro u hu
    by_cases hut : u=t
    · subst u; exact hs
    · rw [hother u hut]; exact h.tickets u (hn ▸ hu)
  · intro p hp
    have hold : p∈d.settlements ∨ p=(t,l) := by
      rw [hset] at hp
      split_ifs at hp
      · exact Or.inl hp
      · exact (List.mem_append.mp hp).imp_right List.mem_singleton.mp
    rcases hold with hp | rfl
    · obtain ⟨hlt,hp1⟩ := h.tasks p hp
      rw [hn,hother _ (hne _ hp1)]
      exact ⟨hlt,hp1⟩
    · exact ⟨hn.symm ▸ ht,h1⟩
  · intro u r
    rw [hr,hn]
    refine (h.receipts u r).imp_right (fun ⟨hrb,hlt,hu⟩ => ⟨hrb,hlt,?_⟩)
    rw [hother u (hne u hu)]
    exact hu
  · intro u hu l' hl' hu1 r hrl
    rw [hr]
    by_cases hut : u=t
    · subst u
      rw [hret] at hl'
      cases hl'
      refine Or.inr ⟨l,?_,hrl⟩
      have hnil : l≠[] := by rintro rfl; simp [receiptsOf] at hrl
      rw [hset,if_neg hnil]
      simp
    · rw [hother u hut] at hl' hu1
      refine (h.dropped u (hn ▸ hu) l' hl' hu1 r hrl).imp_right ?_
      rintro ⟨rest,hrest,hrr⟩
      exact ⟨rest,hsub _ hrest,hrr⟩

theorem settleDropped_tickets (d : Dispatcher) (t : Nat) (l : List OutAction) :
    (d.settleDropped t l).tickets=
      Function.update d.tickets t {d.tickets t with drops := (d.tickets t).drops+1} := by
  unfold Dispatcher.settleDropped
  dsimp only
  split_ifs <;> rfl

theorem settleDropped_settlements (d : Dispatcher) (t : Nat) (l : List OutAction) :
    (d.settleDropped t l).settlements=
      if l=[] then d.settlements else d.settlements++[(t,l)] := by
  unfold Dispatcher.settleDropped
  dsimp only
  split_ifs <;> rfl

theorem settleDropped_rest (d : Dispatcher) (t : Nat) (l : List OutAction) :
    (d.settleDropped t l).next=d.next ∧ (d.settleDropped t l).receipts=d.receipts ∧
      (d.settleDropped t l).workers=d.workers := by
  unfold Dispatcher.settleDropped
  dsimp only
  split_ifs <;> exact ⟨rfl,rfl,rfl⟩

theorem cancel_settled (h : (d.tickets t).Sound) : ((d.cancel t).tickets t).result≠.pending := by
  unfold Dispatcher.cancel
  dsimp only
  by_cases hf : (d.tickets t).finished
  · rw [if_pos hf]; exact (h.finished hf).2
  rw [if_neg hf]
  have hres := cancelResult_settled (d.tickets t)
  have hself := setTicket_self d t (d.tickets t).cancelResult
  split_ifs
  · split
    · rw [setTicket_self]; exact hres
    · rw [hself]; exact hres
  · rw [(discardLaneIfIdle_same _ _).2.1]
    unfold Dispatcher.removePending
    dsimp only
    rw [hself]
    change ((Dispatcher.setTicket _ t _).tickets t).result≠_
    rw [setTicket_self]
    exact hres
  · rw [hself]; exact hres

theorem ReplyInv.discard (h : ReplyInv d) (ht : t<d.next) (hc : (d.tickets t).consumer=.unclaimed) :
    ReplyInv (d.discard t) := by
  have hq := cancel_quiet d t
  have hi := h.quiet hq
  have hlt : t<(d.cancel t).next := by rw [hq.next]; exact ht
  have hk := hi.tickets t hlt
  have hres := cancel_settled (h.tickets t ht)
  have hcons : ((d.cancel t).tickets t).consumer=.unclaimed := (hq.tickets t).consumer.trans hc
  unfold Dispatcher.discard
  generalize d.cancel t=e at hi hlt hk hres hcons
  dsimp only
  split
  · rename_i l hl
    obtain ⟨h1,h2,h3,h4,_⟩ := hk.heldOf hl (Or.inl hcons)
    set g := e.setTicket t {e.tickets t with consumer := .discarded} with hg
    have hself : g.tickets t={e.tickets t with consumer := .discarded} := setTicket_self e t _
    have hat : (g.settleDropped t l).tickets t={e.tickets t with consumer := .discarded,drops := 1} := by
      rw [settleDropped_tickets,Function.update_self,hself,h3]
    have hne (u : Nat) (hu : u≠t) : (g.settleDropped t l).tickets u=e.tickets u := by
      rw [settleDropped_tickets,Function.update_of_ne hu,hg,setTicket_ne _ _ hu]
    obtain ⟨hnext,hrec,hwork⟩ := settleDropped_rest g t l
    refine hi.settle hlt hnext hrec (settleDropped_settlements g t l) h3 (by rw [hat]; exact h1)
      (by rw [hat]) hne ?_ ?_
    · rw [hat]
      exact ⟨.dropped l h1 h2 rfl h4 (Or.inr rfl),hk.idle,hk.finished,fun hp => absurd hp hres⟩
    · rw [hwork]
      intro x hx u hu
      have hop : ((g.settleDropped t l).tickets u).operation=(e.tickets u).operation := by
        by_cases hut : u=t
        · subst u; rw [hat]
        · rw [hne u hut]
      rw [hop]
      exact hi.workers x hx u hu
  · rename_i hno
    exact hi.setTicket (fun _ => hk.setConsumer .discarded hno (fun hp => absurd hp hres)) rfl rfl rfl

/-! The end of an execution -/

theorem releaseTicket_same (d : Dispatcher) (t : Nat) : SameTasks d (d.releaseTicket t) ∧
    (d.releaseTicket t).tickets=
      Function.update d.tickets t {d.tickets t with operation := .absent,finished := true} := by
  unfold Dispatcher.releaseTicket
  dsimp only
  split_ifs <;> exact ⟨⟨rfl,rfl,rfl⟩,rfl⟩

theorem finishTicket_same (c : Config) (d : Dispatcher) (t : Nat) :
    SameTasks d (d.finishTicket c t) ∧ (d.finishTicket c t).tickets=
      Function.update d.tickets t {d.tickets t with operation := .absent,finished := true} := by
  obtain ⟨hsame,htick⟩ := releaseTicket_same d t
  unfold Dispatcher.finishTicket
  dsimp only
  split_ifs
  · obtain ⟨h1,h2,_⟩ := discardLaneIfIdle_same (d.releaseTicket t) (d.tickets t).key
    exact ⟨hsame.trans h1,h2.trans htick⟩
  · obtain ⟨h1,h2,_⟩ := scheduleLane_same c false (d.releaseTicket t) (d.tickets t).key
    exact ⟨hsame.trans h1,h2.trans htick⟩

theorem Ticket.Sound.finish (h : k.Sound) (hr : k.result≠.pending)
    (ho : ∀l,k.operation=.done (.actions l) → receiptsOf l=[]) :
    {k with operation := .absent,finished := true}.Sound := by
  refine ⟨?_,fun hs => ⟨rfl,(h.idle hs).2⟩,fun _ => ⟨rfl,hr⟩,h.claimed⟩
  cases h.stage with
  | awaited h1 h2 h3 h4 h5 => exact .awaited h1 h2 h3 h4 (fun l => by simp)
  | returned l h1 h2 h3 h4 h5 => exact .blank l h1 h2 h3 rfl (Or.inl h4) (ho l h5)
  | held l h1 h2 h3 h4 h5 h6 => exact .held l h1 h2 h3 h4 rfl h6
  | handed l h1 h2 h3 h4 h5 h6 => exact .handed l h1 h2 h3 h4 rfl h6
  | dropped l h1 h2 h3 h4 h5 => exact .dropped l h1 h2 h3 rfl h5
  | blank l h1 h2 h3 h4 h5 h6 => exact .blank l h1 h2 h3 rfl h5 h6

theorem ReplyInv.safe_of (h : ReplyInv d) (hne : ∀u,u≠t → d'.tickets u=d.tickets u)
    {ws : List Worker} (hw : ∀x∈ws,∀u,x.current=some u → x∈d.workers ∧ u≠t) :
    ∀x∈ws,x.Safe d' := by
  intro x hx u hu
  obtain ⟨hmem,hut⟩ := hw x hx u hu
  rw [hne u hut]
  exact h.workers x hmem u hu

theorem ReplyInv.finish (h : ReplyInv d) (hsame : SameTasks d d')
    (htick : d'.tickets=
      Function.update d.tickets t {d.tickets t with operation := .absent,finished := true})
    (hr : (d.tickets t).result≠.pending)
    (ho : ∀l,(d.tickets t).operation=.done (.actions l) → receiptsOf l=[])
    (hw : ∀x∈d'.workers,∀u,x.current=some u → x∈d.workers ∧ u≠t) : ReplyInv d' := by
  have hat : d'.tickets t={d.tickets t with operation := .absent,finished := true} := by
    rw [htick]; exact Function.update_self _ _ _
  have hne (u : Nat) (hu : u≠t) : d'.tickets u=d.tickets u := by
    rw [htick]; exact Function.update_of_ne hu _ _
  refine h.update hsame (fun u hu => ?_) (fun u _ => Or.inl ?_) (h.safe_of hne hw)
  · by_cases hut : u=t
    · subst u; rw [hat]; exact (h.tickets t hu).finish hr ho
    · rw [hne u hut]; exact h.tickets u hu
  · by_cases hut : u=t
    · subst u; rw [hat]; exact ⟨rfl,rfl⟩
    · rw [hne u hut]; exact ⟨rfl,rfl⟩

theorem Ticket.Sound.returnedOf (h : k.Sound)
    (ho : k.operation=.done (.actions l)) :
    k.returned=some l ∧ k.handovers=0 ∧ k.drops=0 ∧ (∀l',k.result≠.actions l') := by
  cases h.stage with
  | awaited h1 h2 h3 h4 h5 => exact absurd ho (h5 l)
  | returned l' h1 h2 h3 h4 h5 =>
    rw [ho] at h5
    cases h5
    exact ⟨h1,h2,h3,h4⟩
  | held l' h1 h2 h3 h4 h5 => rw [ho] at h5; cases h5
  | handed l' h1 h2 h3 h4 h5 => rw [ho] at h5; cases h5
  | dropped l' h1 h2 h3 h4 h5 => rw [ho] at h4; cases h4
  | blank l' h1 h2 h3 h4 h5 => rw [ho] at h4; cases h4

theorem ReplyInv.hold (h : ReplyInv d) (ht : t<d.next) (hsame : SameTasks d d')
    (ho : (d.tickets t).operation=.done (.actions l)) (hp : (d.tickets t).result=.pending)
    (htick : d'.tickets=Function.update d.tickets t
      {d.tickets t with result := .actions l,operation := .absent,finished := true})
    (hw : ∀x∈d'.workers,∀u,x.current=some u → x∈d.workers ∧ u≠t) : ReplyInv d' := by
  have hk := h.tickets t ht
  obtain ⟨h1,h2,h3,_⟩ := hk.returnedOf ho
  have hat : d'.tickets t=
      {d.tickets t with result := .actions l,operation := .absent,finished := true} := by
    rw [htick]; exact Function.update_self _ _ _
  have hne (u : Nat) (hu : u≠t) : d'.tickets u=d.tickets u := by
    rw [htick]; exact Function.update_of_ne hu _ _
  refine h.update hsame (fun u hu => ?_) (fun u _ => Or.inl ?_) (h.safe_of hne hw)
  · by_cases hut : u=t
    · subst u
      rw [hat]
      refine ⟨.held l h1 h2 h3 rfl rfl ((hk.claimed hp).imp_right Or.inl),?_,?_,?_⟩
      · intro hs; exact ⟨rfl,(hk.idle hs).2⟩
      · intro _; exact ⟨rfl,by simp⟩
      · intro hc; cases hc
    · rw [hne u hut]; exact h.tickets u hu
  · by_cases hut : u=t
    · subst u; rw [hat]; exact ⟨rfl,rfl⟩
    · rw [hne u hut]; exact ⟨rfl,rfl⟩

theorem ReplyInv.drop (h : ReplyInv d) (ht : t<d.next)
    (ho : (d.tickets t).operation=.done (.actions l)) (hp : (d.tickets t).result≠.pending)
    (hn : d'.next=d.next) (hr : d'.receipts=d.receipts)
    (hset : d'.settlements=if l=[] then d.settlements else d.settlements++[(t,l)])
    (htick : d'.tickets=Function.update d.tickets t
      {d.tickets t with drops := (d.tickets t).drops+1,operation := .absent,finished := true})
    (hw : ∀x∈d'.workers,∀u,x.current=some u → x∈d.workers ∧ u≠t) : ReplyInv d' := by
  have hk := h.tickets t ht
  obtain ⟨h1,h2,h3,h4⟩ := hk.returnedOf ho
  have hat : d'.tickets t={d.tickets t with drops := 1,operation := .absent,finished := true} := by
    rw [htick,Function.update_self,h3]
  have hne (u : Nat) (hu : u≠t) : d'.tickets u=d.tickets u := by
    rw [htick]; exact Function.update_of_ne hu _ _
  refine h.settle ht hn hr hset h3 (by rw [hat]; exact h1) (by rw [hat]) hne ?_ (h.safe_of hne hw)
  rw [hat]
  refine ⟨.dropped l h1 h2 rfl rfl (Or.inl h4),?_,?_,hk.claimed⟩
  · intro hs; exact ⟨rfl,(hk.idle hs).2⟩
  · intro _; exact ⟨rfl,hp⟩

theorem setResult_settled (d : Dispatcher) (t : Nat) {r : ResultFuture} (hr : r≠.pending) :
    ((d.setResult t r).tickets t).result≠.pending := by
  unfold Dispatcher.setResult
  dsimp only
  split_ifs with hp
  · rw [setTicket_self]; exact hr
  · exact hp

theorem ReplyInv.finishWith (h : ReplyInv d) {r : ResultFuture} (hr : r=.cancelled ∨ r=.failed)
    (ho : ∀l,(d.tickets t).operation=.done (.actions l) → receiptsOf l=[])
    (hsame : SameTasks ((d.setResult t r).finishTicket c t) d')
    (htick : d'.tickets=((d.setResult t r).finishTicket c t).tickets)
    (hw : ∀x∈d'.workers,∀u,x.current=some u → x∈d.workers ∧ u≠t) : ReplyInv d' := by
  have hq := setResult_quiet d t hr
  obtain ⟨h1,h2⟩ := finishTicket_same c (d.setResult t r) t
  refine (h.quiet hq).finish (h1.trans hsame) (htick.trans h2) ?_ ?_ ?_
  · exact setResult_settled d t (by rcases hr with rfl | rfl <;> simp)
  · intro l hl
    exact ho l (((hq.tickets t).operation_done _).mp hl)
  · rw [setResult_workers]; exact hw

theorem ReplyInv.resumeTicket {o : HandlerOutcome} (h : ReplyInv d) (ht : t<d.next)
    (hx : x.current=some t) (hxs : x.Safe d) (ho : (d.tickets t).operation=.done o)
    (hsame : SameTasks (d.resumeTicket c x t o).1 d')
    (htick : d'.tickets=(d.resumeTicket c x t o).1.tickets)
    (hw : ∀x∈d'.workers,∀u,x.current=some u → x∈d.workers ∧ u≠t) : ReplyInv d' := by
  have hplain (hno : ∀l,o≠.actions l) (l : List OutAction)
      (hl : (d.tickets t).operation=.done (.actions l)) : receiptsOf l=[] := by
    rw [ho] at hl
    cases hl
    exact absurd rfl (hno l)
  unfold Dispatcher.resumeTicket at hsame htick
  by_cases hm : x.mustCancel=true
  · rw [if_pos hm] at hsame htick
    refine h.finishWith (Or.inl rfl) (fun l hl => ?_) hsame htick hw
    obtain ⟨o',ho',hrec⟩ := (hxs t hx).2 hm
    rw [hl] at ho'
    cases ho'
    exact hrec l rfl
  · rw [if_neg hm] at hsame htick
    cases o with
    | cancelled => exact h.finishWith (Or.inl rfl) (hplain (by simp)) hsame htick hw
    | error => exact h.finishWith (Or.inr rfl) (hplain (by simp)) hsame htick hw
    | malformed => exact h.finishWith (Or.inr rfl) (hplain (by simp)) hsame htick hw
    | actions l =>
      dsimp only at hsame htick
      by_cases hp : (d.tickets t).result=.pending
      · rw [if_pos hp] at hsame htick
        have hset : d.setResult t (.actions l)=
            d.setTicket t {d.tickets t with result := .actions l} := by
          unfold Dispatcher.setResult
          dsimp only
          rw [if_pos hp]
        rw [hset] at hsame htick
        obtain ⟨h1,h2⟩ := finishTicket_same c
          (d.setTicket t {d.tickets t with result := .actions l}) t
        have h0 : SameTasks d (d.setTicket t {d.tickets t with result := .actions l}) :=
          ⟨rfl,rfl,rfl⟩
        refine h.hold ht ((h0.trans h1).trans hsame) ho hp ?_ hw
        rw [htick,h2,setTicket_self]
        exact Function.update_idem _ _ _
      · rw [if_neg hp] at hsame htick
        obtain ⟨h1,h2⟩ := finishTicket_same c (d.settleDropped t l) t
        obtain ⟨hnext,hrec,_⟩ := settleDropped_rest d t l
        have hall := h1.trans hsame
        refine h.drop ht ho hp (hall.next.trans hnext) (hall.receipts.trans hrec)
          (hall.settlements.trans (settleDropped_settlements d t l)) ?_ hw
        rw [htick,h2,settleDropped_tickets,Function.update_self]
        exact Function.update_idem _ _ _

/-! The start of an execution -/

theorem markRunning_same (d : Dispatcher) (key : EventKey) (t : Nat) (pending : List Nat) :
    SameTasks d (d.markRunning key t pending) ∧ (d.markRunning key t pending).tickets=
      Function.update d.tickets t {d.tickets t with started := true} :=
  ⟨⟨rfl,rfl,rfl⟩,rfl⟩

theorem Ticket.Sound.fresh (h : k.Sound) (hs : k.started=false) :
    k.returned=none ∧ k.handovers=0 ∧ k.drops=0 ∧ (∀l,k.result≠.actions l) ∧ k.operation=.absent := by
  obtain ⟨ho,hr⟩ := h.idle hs
  cases h.stage with
  | awaited h1 h2 h3 h4 h5 => exact ⟨h1,h2,h3,h4,ho⟩
  | returned l h1 => rw [hr] at h1; cases h1
  | held l h1 => rw [hr] at h1; cases h1
  | handed l h1 => rw [hr] at h1; cases h1
  | dropped l h1 => rw [hr] at h1; cases h1
  | blank l h1 => rw [hr] at h1; cases h1

theorem Ticket.Sound.start (h : k.Sound) (hs : k.started=false) (hf : k.finished=false) :
    {k with started := true}.Sound := by
  obtain ⟨h1,h2,h3,h4,h5⟩ := h.fresh hs
  refine ⟨.awaited h1 h2 h3 h4 (fun l => by simp [h5]),?_,?_,h.claimed⟩
  · intro hc; cases hc
  · intro hc
    change k.finished=true at hc
    rw [hf] at hc; cases hc

theorem ReplyInv.startTicket {pending : List Nat} (h : ReplyInv d) (key : EventKey) (ht : t<d.next)
    (hs : (d.tickets t).started=false) (hf : (d.tickets t).finished=false)
    (hidle : ∀x∈d.workers,x.current≠some t) (hm : x.mustCancel=false) (g : Guard) :
    ReplyInv ((d.markRunning key t pending).executeTicket c w x g t) := by
  have hk := h.tickets t ht
  obtain ⟨h1,h2,h3,h4,h5⟩ := hk.fresh hs
  obtain ⟨hsame,htick⟩ := markRunning_same d key t pending
  set e := d.markRunning key t pending with he
  have hat : e.tickets t={d.tickets t with started := true} := by
    rw [htick]; exact Function.update_self _ _ _
  have hne (u : Nat) (hu : u≠t) : e.tickets u=d.tickets u := by
    rw [htick]; exact Function.update_of_ne hu _ _
  have hw (y : Worker) (hy : y∈e.workers) (u : Nat) (hu : y.current=some u) : y∈d.workers ∧ u≠t := by
    refine ⟨hy,?_⟩
    rintro rfl
    exact hidle y hy hu
  have hinv : ReplyInv e := by
    refine h.update hsame (fun u hu => ?_) (fun u _ => Or.inl ?_) (h.safe_of hne hw)
    · by_cases hut : u=t
      · subst u; rw [hat]; exact hk.start hs hf
      · rw [hne u hut]; exact h.tickets u hu
    · by_cases hut : u=t
      · subst u; rw [hat]; exact ⟨rfl,rfl⟩
      · rw [hne u hut]; exact ⟨rfl,rfl⟩
  unfold Dispatcher.executeTicket
  dsimp only
  split_ifs
  · refine hinv.finishWith (Or.inr rfl) (fun l hl => ?_) (SameTasks.refl _) rfl ?_
    · rw [hat] at hl
      change (d.tickets t).operation=_ at hl
      rw [h5] at hl; cases hl
    · intro y hy
      rw [finishTicket_workers_eq,setResult_workers] at hy
      exact fun u hu => ⟨hy,(hw y hy u hu).2⟩
  · set f := (e.setTicket t {e.tickets t with operation := .running false}).setWorker w
      {x with current := some t} with hfdef
    have hfat : f.tickets t={e.tickets t with operation := .running false} := setTicket_self e t _
    have hfne (u : Nat) (hu : u≠t) : f.tickets u=e.tickets u := setTicket_ne e _ hu
    refine hinv.update ⟨rfl,rfl,rfl⟩ (fun u hu => ?_) (fun u _ => Or.inl ?_) ?_
    · by_cases hut : u=t
      · subst u
        rw [hfat,hat]
        refine ⟨.awaited h1 h2 h3 h4 (fun l => by simp),?_,?_,hk.claimed⟩
        · intro hc; cases hc
        · intro hc
          change (d.tickets t).finished=true at hc
          rw [hf] at hc; cases hc
      · rw [hfne u hut]; exact hinv.tickets u hu
    · by_cases hut : u=t
      · subst u; rw [hfat]; exact ⟨rfl,rfl⟩
      · rw [hfne u hut]; exact ⟨rfl,rfl⟩
    · intro y hy u hu
      rcases List.mem_or_eq_of_mem_set hy with hy | rfl
      · have hut := (hw y hy u hu).2
        rw [hfne u hut]
        exact hinv.workers y hy u hu
      · cases hu
        rw [hfat]
        exact ⟨by simp,fun hc => by
          change x.mustCancel=true at hc
          rw [hm] at hc; cases hc⟩

theorem ReplyInv.workerLoop (h : ReplyInv d) (hl : LaneInv c nowhere none d)
    (hm : x.mustCancel=false) (g : Guard) : ReplyInv (d.workerLoop c w x g) := by
  unfold Dispatcher.workerLoop
  split
  · exact h.quiet (endWorker_quiet d w)
  · exact h.quiet (endWorker_quiet d w)
  · rename_i key rest hkeys
    obtain ⟨lane,hlook⟩ := hl.lookup_queued hkeys
    have hlane : d.laneOf key=lane := by simp [laneOf,hlook]
    dsimp only
    rw [hlook]
    dsimp only
    have hd (lane' : Lane) : ReplyInv (({d with readyKeys := some rest} : Dispatcher).setLane key
        lane') := h.quiet (.of_same ⟨rfl,rfl,rfl⟩ rfl rfl)
    unfold Dispatcher.serveLane
    split
    · rename_i t pending hrun hpend
      have hmem : t∈(d.laneOf key).pending := by
        rw [hlane]
        change lane.pending=_ at hpend
        rw [hpend]; simp
      obtain ⟨hlt,_,hst,hfin⟩ := (hl.lanes.queued key t).mp hmem
      dsimp only
      have he : ReplyInv ((({d with readyKeys := some rest} : Dispatcher).setLane key
          {lane with ready := false}).setLane key {lane with ready := false,pending := pending}) :=
        h.quiet (.of_same ⟨rfl,rfl,rfl⟩ rfl rfl)
      split_ifs with hc
      · exact he.quiet (skipTicket_quiet key hst hc)
      · refine he.startTicket key hlt hst hfin (fun y hy hcur => ?_) hm g
        have hexec : t∈d.executing := List.mem_filterMap.mpr ⟨y,hy,hcur⟩
        have hstart := ((hl.executing t).mp hexec).2.1
        have hst : (d.tickets t).started=false := hst
        rw [hst] at hstart; cases hstart
    · exact (hd _).quiet (discardLaneIfIdle_quiet _ key)

/-! Admission, settlement and cancellation -/

theorem freshTicket_sound (s : Nat) (key : EventKey) (guarded : Bool) :
    (freshTicket s key guarded).Sound :=
  ⟨.awaited rfl rfl rfl (fun _ => by simp [freshTicket]) (fun _ => by simp [freshTicket]),
    (fun _ => ⟨rfl,rfl⟩),(fun h => by cases h),(fun _ => Or.inl rfl)⟩

theorem ReplyInv.push {s : Nat} {key : EventKey} {guarded : Bool} (h : ReplyInv d)
    (hn : d'.next=d.next+1) (hset : d'.settlements=d.settlements) (hr : d'.receipts=d.receipts)
    (htick : d'.tickets=Function.update d.tickets d.next (freshTicket s key guarded))
    (hw : ∀x∈d'.workers,∀u,x.current=some u → x∈d.workers ∧ u<d.next) : ReplyInv d' := by
  have hat : d'.tickets d.next=freshTicket s key guarded := by
    rw [htick]; exact Function.update_self _ _ _
  have hne (u : Nat) (hu : u<d.next) : d'.tickets u=d.tickets u := by
    rw [htick]; exact Function.update_of_ne (by omega) _ _
  refine ⟨?_,?_,?_,?_,?_⟩
  · intro u hu
    by_cases hut : u=d.next
    · subst u; rw [hat]; exact freshTicket_sound s key guarded
    · have hlt : u<d.next := by omega
      rw [hne u hlt]; exact h.tickets u hlt
  · intro x hx u hu
    obtain ⟨hmem,hlt⟩ := hw x hx u hu
    rw [hne u hlt]
    exact h.workers x hmem u hu
  · intro p hp
    rw [hset] at hp
    obtain ⟨hlt,h1⟩ := h.tasks p hp
    rw [hne _ hlt]
    exact ⟨by omega,h1⟩
  · intro u r
    rw [hr]
    refine (h.receipts u r).imp_right (fun ⟨hrb,hlt,h1⟩ => ⟨hrb,by omega,?_⟩)
    rw [hne u hlt]
    exact h1
  · intro u hu l hl h1
    by_cases hut : u=d.next
    · subst u; rw [hat] at hl; cases hl
    · have hlt : u<d.next := by omega
      rw [hne u hlt] at hl h1
      rw [hr,hset]
      exact h.dropped u hlt l hl h1

theorem ReplyInv.enqueue (h : ReplyInv d) (hl : LaneInv c nowhere none d) (p : Payload)
    (guarded : Bool) : ReplyInv (d.enqueue c p guarded) := by
  unfold Dispatcher.enqueue
  dsimp only
  generalize eventKey p (d.sequence+1)=key
  obtain ⟨⟨hn,hset,hrec⟩,htick,hw⟩ := scheduleLane_same c true
    (({d.setTicket d.next (freshTicket (d.sequence+1) key guarded) with
      next := d.next+1
      sequence := d.sequence+1
      inflight := d.inflight+1} : Dispatcher).setLane key
        {d.laneOf key with pending := (d.laneOf key).pending++[d.next]}) key
  refine h.push hn hset hrec htick (fun x hx u hu => ?_)
  rcases hw x hx with hx | rfl
  · have hexec : u∈d.executing := List.mem_filterMap.mpr ⟨x,hx,hu⟩
    exact ⟨hx,((hl.executing u).mp hexec).1⟩
  · cases hu

theorem startOnLoop_quiet (d : Dispatcher) : QuietStep d d.startOnLoop :=
  .of_same ⟨rfl,rfl,rfl⟩ rfl rfl

theorem ReplyInv.operationFinish {b : Bool} (h : ReplyInv d) (o : HandlerOutcome)
    (hr : (d.tickets t).operation=.running b) :
    ReplyInv (d.setTicket t ((d.tickets t).finishOperation o)) := by
  set f := d.setTicket t ((d.tickets t).finishOperation o) with hf
  have hat : f.tickets t=(d.tickets t).finishOperation o := setTicket_self d t _
  have hne (u : Nat) (hu : u≠t) : f.tickets u=d.tickets u := setTicket_ne d _ hu
  have hopen (ht : t<d.next) : (d.tickets t).returned=none ∧ (d.tickets t).handovers=0 ∧
      (d.tickets t).drops=0 ∧ ∀l,(d.tickets t).result≠.actions l := by
    cases (h.tickets t ht).stage with
    | awaited h1 h2 h3 h4 => exact ⟨h1,h2,h3,h4⟩
    | returned l h1 h2 h3 h4 h5 => rw [hr] at h5; cases h5
    | held l h1 h2 h3 h4 h5 => rw [hr] at h5; cases h5
    | handed l h1 h2 h3 h4 h5 => rw [hr] at h5; cases h5
    | dropped l h1 h2 h3 h4 => rw [hr] at h4; cases h4
    | blank l h1 h2 h3 h4 => rw [hr] at h4; cases h4
  refine h.update ⟨rfl,rfl,rfl⟩ (fun u hu => ?_) (fun u hu => ?_) ?_
  · by_cases hut : u=t
    · subst u
      obtain ⟨h1,h2,h3,h4⟩ := hopen hu
      have hk := h.tickets t hu
      rw [hat]
      refine ⟨?_,?_,?_,hk.claimed⟩
      · cases o with
        | actions l => exact .returned l rfl h2 h3 h4 rfl
        | malformed => exact .awaited h1 h2 h3 h4 (fun l => by simp [Ticket.finishOperation])
        | error => exact .awaited h1 h2 h3 h4 (fun l => by simp [Ticket.finishOperation])
        | cancelled => exact .awaited h1 h2 h3 h4 (fun l => by simp [Ticket.finishOperation])
      · intro hs
        have ha := (hk.idle hs).1
        rw [hr] at ha; cases ha
      · intro hs
        have ha := (hk.finished hs).1
        rw [hr] at ha; cases ha
    · rw [hne u hut]; exact h.tickets u hu
  · by_cases hut : u=t
    · subst u
      rw [hat]
      exact Or.inr ⟨(hopen hu).2.2.1,(hopen hu).2.2.1⟩
    · rw [hne u hut]; exact Or.inl ⟨rfl,rfl⟩
  · intro x hx u hu
    obtain ⟨ha,hc⟩ := h.workers x hx u hu
    by_cases hut : u=t
    · subst u
      refine ⟨by rw [hat]; simp [Ticket.finishOperation],fun hm => ?_⟩
      obtain ⟨o',ho',_⟩ := hc hm
      rw [hr] at ho'; cases ho'
    · rw [hne u hut]; exact ⟨ha,hc⟩

theorem ReplyInv.markWaiter (h : ReplyInv d) (ht : t<d.next)
    (hc : (d.tickets t).consumer=.waiting false) (hr : (d.tickets t).result≠.pending)
    (hl : ∀l,(d.tickets t).result=.actions l → receiptsOf l=[]) :
    ReplyInv (d.setTicket t {d.tickets t with consumer := .waiting true}) := by
  have hk := h.tickets t ht
  refine h.setTicket (fun _ => ?_) rfl rfl rfl
  cases hres : (d.tickets t).result with
  | actions l =>
    obtain ⟨h1,h2,h3,h4,_⟩ := hk.heldOf hres (Or.inr ⟨false,hc⟩)
    exact ⟨.held l h1 h2 h3 hres h4 (Or.inr (Or.inr ⟨rfl,hl l hres⟩)),hk.idle,hk.finished,
      fun hp => absurd hp hr⟩
  | pending => exact absurd hres hr
  | failed => exact hk.setConsumer _ (by simp [hres]) (fun hp => absurd hp hr)
  | cancelled => exact hk.setConsumer _ (by simp [hres]) (fun hp => absurd hp hr)

theorem ReplyInv.cancelWaiter (h : ReplyInv d) (ht : t<d.next)
    (hc : (d.tickets t).consumer=.waiting true) (hr : (d.tickets t).result≠.pending) :
    ReplyInv ((d.setTicket t {d.tickets t with consumer := .ended}).cancel t) := by
  have hk := h.tickets t ht
  refine ReplyInv.quiet ?_ (cancel_quiet _ t)
  refine h.setTicket (fun _ => ?_) rfl rfl rfl
  cases hres : (d.tickets t).result with
  | actions l =>
    obtain ⟨h1,h2,h3,h4,h5⟩ := hk.heldOf hres (Or.inr ⟨true,hc⟩)
    exact ⟨.blank l h1 h2 h3 h4 (Or.inr rfl) (h5 hc),hk.idle,hk.finished,fun hp => absurd hp hr⟩
  | pending => exact absurd hres hr
  | failed => exact hk.setConsumer _ (by simp [hres]) (fun hp => absurd hp hr)
  | cancelled => exact hk.setConsumer _ (by simp [hres]) (fun hp => absurd hp hr)

theorem ReplyInv.cancelWorker (h : ReplyInv d) (hw : d.workers[w]?=some x)
    (hl : ∀t l,x.current=some t → (d.tickets t).operation=.done (.actions l) → receiptsOf l=[]) :
    ReplyInv (d.cancelWorker w x) := by
  have hx := h.workers x (List.mem_of_getElem? hw)
  have hmark : ReplyInv (d.setWorker w {x with cancelling := true,mustCancel := true}) ∨
      ∃t,x.current=some t ∧ ∃b,(d.tickets t).operation=.running b := by
    cases hc : x.current with
    | none =>
      refine Or.inl (h.quiet ⟨⟨rfl,rfl,rfl⟩,fun _ => .refl _,fun y hy u hu => ?_⟩)
      rcases List.mem_or_eq_of_mem_set hy with hy | rfl
      · exact ⟨y,hy,hu,fun hm => hm⟩
      · change none=some u at hu
        cases hu
    | some t =>
      cases hop : (d.tickets t).operation with
      | absent => exact absurd hop (hx t hc).1
      | running b => exact Or.inr ⟨t,rfl,b,hop⟩
      | done o =>
        refine Or.inl (h.update ⟨rfl,rfl,rfl⟩ h.tickets (fun _ _ => Or.inl ⟨rfl,rfl⟩) ?_)
        intro y hy u hu
        rcases List.mem_or_eq_of_mem_set hy with hy | rfl
        · exact h.workers y hy u hu
        · change some t=some u at hu
          cases hu
          change (d.tickets t).operation≠_ ∧ (_ → ∃o,(d.tickets t).operation=.done o ∧ _)
          rw [hop]
          exact ⟨by simp,fun _ => ⟨o,rfl,fun l hol => hl t l hc (by rw [hop,hol])⟩⟩
  unfold Dispatcher.cancelWorker
  split
  · rename_i hc
    rcases hmark with hmark | ⟨t,ht,_⟩
    · exact hmark
    · rw [hc] at ht; cases ht
  · rename_i t hc
    dsimp only
    split
    · rename_i b hop
      have hq : QuietStep d (d.setTicket t {d.tickets t with operation := .running true}) :=
        .setTicket ⟨rfl,rfl,rfl,rfl,rfl,Or.inl rfl,Or.inr ⟨b,hop,rfl⟩,Or.inl rfl⟩
      refine (h.quiet hq).quiet ⟨⟨rfl,rfl,rfl⟩,fun _ => .refl _,fun y hy u hu => ?_⟩
      rcases List.mem_or_eq_of_mem_set hy with hy | rfl
      · exact ⟨y,hy,hu,fun hm => hm⟩
      · exact ⟨x,List.mem_of_getElem? hw,hu,fun hm => hm⟩
    · rename_i hno
      rcases hmark with hmark | ⟨t',ht',b,hb⟩
      · exact hmark
      · rw [hc] at ht'
        cases ht'
        exact absurd hb (hno b)

theorem ReplyInv.settleStep {i : Nat} {a : OutAction} {rest : List OutAction} (h : ReplyInv d)
    (hi : d.settlements[i]?=some (t,a::rest)) :
    ReplyInv ((d.settleAction c t a).withSettlement i t rest) := by
  obtain ⟨l₁,l₂,hsplit,hset,_⟩ := split_at hi
  obtain ⟨hlt,h1⟩ := h.tasks (t,a::rest) (List.mem_of_getElem? hi)
  have hold (p : Nat × List OutAction) (hp : p∈d.settlements) (hne : p≠(t,a::rest)) :
      p∈d.settlements.set i (t,rest) := by
    rw [hset]
    rw [hsplit] at hp
    simp only [List.mem_append,List.mem_cons] at hp ⊢
    tauto
  have hnew (p : Nat × List OutAction) (hp : p∈d.settlements.set i (t,rest)) :
      p∈d.settlements ∨ p=(t,rest) := List.mem_or_eq_of_mem_set hp
  have hself : (t,rest)∈d.settlements.set i (t,rest) := by rw [hset]; simp
  have htasks (p : Nat × List OutAction) (hp : p∈d.settlements.set i (t,rest)) :
      p.1<d.next ∧ (d.tickets p.1).drops=1 := by
    rcases hnew p hp with hp | rfl
    · exact h.tasks p hp
    · exact ⟨hlt,h1⟩
  cases ha : a.receipt with
  | none =>
    have hskip : receiptsOf (a::rest)=receiptsOf rest := by simp [receiptsOf,ha]
    have hact : d.settleAction c t a=d := by simp [Dispatcher.settleAction,ha]
    rw [hact]
    refine ⟨h.tickets,h.workers,htasks,h.receipts,?_⟩
    intro u hu l hl hd r hr
    refine (h.dropped u hu l hl hd r hr).imp_right ?_
    rintro ⟨rest',hmem,hrr⟩
    by_cases he : (u,rest')=(t,a::rest)
    · cases he
      exact ⟨rest,hself,hskip ▸ hrr⟩
    · exact ⟨rest',hold _ hmem he,hrr⟩
  | some q =>
    have hcons : receiptsOf (a::rest)=q::receiptsOf rest := by simp [receiptsOf,ha]
    set s := (d.receipts t q).record (some false) c.raises with hs
    have hrolled : RolledBack s := by
      rcases h.receipts t q with ⟨hwf,hres⟩ | ⟨hrb,_⟩
      · obtain ⟨_,h2,h3,h4⟩ := DeliveryReceipt.record_settles _ c.raises hwf hres
        exact ⟨h2,h3,h4⟩
      · rw [hs,DeliveryReceipt.record_of_resolved _ _ _ hrb.1]
        exact hrb
    have hrec (u r : Nat) : (d.settleAction c t a).receipts u r=
        if u=t ∧ r=q then s else d.receipts u r := by
      simp only [Dispatcher.settleAction,ha]
      by_cases hu : u=t
      · subst u
        by_cases hr : r=q
        · subst r; simp [s]
        · simp [hr]
      · simp [hu]
    have hkeep (u r : Nat) (hrb : RolledBack (d.receipts u r)) :
        RolledBack ((d.settleAction c t a).receipts u r) := by
      rw [hrec]
      split_ifs
      · exact hrolled
      · exact hrb
    have hrest : (d.settleAction c t a).next=d.next ∧ (d.settleAction c t a).tickets=d.tickets ∧
        (d.settleAction c t a).workers=d.workers ∧
        (d.settleAction c t a).settlements=d.settlements := by
      simp [Dispatcher.settleAction,ha]
    obtain ⟨hn,htick,hwork,hsett⟩ := hrest
    refine ⟨?_,?_,?_,?_,?_⟩
    · intro u hu
      change ((d.settleAction c t a).tickets u).Sound
      rw [htick]
      exact h.tickets u (hn ▸ hu)
    · intro x hx u hu
      change ((d.settleAction c t a).tickets u).operation≠_ ∧ (_ → ∃o,
        ((d.settleAction c t a).tickets u).operation=.done o ∧ _)
      rw [htick]
      exact h.workers x (hwork ▸ hx) u hu
    · intro p hp
      change p∈(d.settleAction c t a).settlements.set i (t,rest) at hp
      change p.1<(d.settleAction c t a).next ∧ ((d.settleAction c t a).tickets p.1).drops=1
      rw [hsett] at hp
      rw [hn,htick]
      exact htasks p hp
    · intro u r
      change Untouched ((d.settleAction c t a).receipts u r) ∨
        RolledBack ((d.settleAction c t a).receipts u r) ∧ u<(d.settleAction c t a).next ∧
          ((d.settleAction c t a).tickets u).drops=1
      rw [hn,htick,hrec]
      split_ifs with hc
      · rw [hc.1]; exact Or.inr ⟨hrolled,hlt,h1⟩
      · exact h.receipts u r
    · intro u hu l hl hd r hr
      change ((d.settleAction c t a).tickets u).returned=_ at hl
      change ((d.settleAction c t a).tickets u).drops=_ at hd
      change RolledBack ((d.settleAction c t a).receipts u r) ∨ ∃rest',
        (u,rest')∈(d.settleAction c t a).settlements.set i (t,rest) ∧ r∈receiptsOf rest'
      rw [htick] at hl hd
      rw [hsett]
      rcases h.dropped u (hn ▸ hu) l hl hd r hr with hrb | ⟨rest',hmem,hrr⟩
      · exact Or.inl (hkeep u r hrb)
      · by_cases he : (u,rest')=(t,a::rest)
        · cases he
          rw [hcons] at hrr
          rcases List.mem_cons.mp hrr with rfl | hrr
          · exact Or.inl (by rw [hrec,if_pos ⟨rfl,rfl⟩]; exact hrolled)
          · exact Or.inr ⟨rest,hself,hrr⟩
        · exact Or.inr ⟨rest',hold _ hmem he,hrr⟩

theorem ReplyInv.settleEnd {i : Nat} (h : ReplyInv d) (hi : d.settlements[i]?=some (t,[])) :
    ReplyInv {d with settlements := d.settlements.eraseIdx i} := by
  obtain ⟨l₁,l₂,hsplit,_,herase⟩ := split_at hi
  refine ⟨h.tickets,h.workers,?_,h.receipts,?_⟩
  · intro p hp
    exact h.tasks p (List.mem_of_mem_eraseIdx hp)
  · intro u hu l hl hd r hr
    refine (h.dropped u hu l hl hd r hr).imp_right ?_
    rintro ⟨rest,hmem,hrr⟩
    refine ⟨rest,?_,hrr⟩
    change (u,rest)∈d.settlements.eraseIdx i
    rw [herase]
    rw [hsplit] at hmem
    rcases List.mem_append.mp hmem with hm | hm
    · exact List.mem_append_left _ hm
    · rcases List.mem_cons.mp hm with hm | hm
      · cases hm
        simp [receiptsOf] at hrr
      · exact List.mem_append_right _ hm

/-! Runs -/

/-- The cancellations that arrive in the two windows where a reply is lost: a waiter cancelled
after its result was set, a worker cancelled after its operation returned. -/
def Careful (d : Dispatcher) : Act → Prop
  | .waiterCancel t => ∀l,(d.tickets t).result=.actions l → receiptsOf l=[]
  | .workerCancel w => ∀x,d.workers[w]?=some x → ∀t l,x.current=some t →
      (d.tickets t).operation=.done (.actions l) → receiptsOf l=[]
  | _ => True

theorem initial_replyInv (hd : Initial d) : ReplyInv d := by
  refine ⟨?_,?_,?_,fun t r => Or.inl (hd.receipts t r),?_⟩
  · intro t ht; rw [hd.next] at ht; omega
  · intro x hx; rw [hd.workers] at hx; cases hx
  · intro p hp; rw [hd.settlements] at hp; cases hp
  · intro t ht; rw [hd.next] at ht; omega

theorem cancelWorkerAt_executing (d : Dispatcher) (w : Nat) :
    (d.cancelWorkerAt w).executing=d.executing := by
  unfold Dispatcher.cancelWorkerAt
  split
  · rfl
  · rename_i x hw
    unfold Dispatcher.cancelWorker
    split
    · exact jobs_set_same hw rfl
    · dsimp only
      split
      · exact jobs_set_same hw rfl
      · exact jobs_set_same hw rfl

theorem ReplyInv.cancelIdle (h : ReplyInv d) (he : d.executing=[]) (w : Nat) :
    ReplyInv (d.cancelWorkerAt w) := by
  unfold Dispatcher.cancelWorkerAt
  split
  · exact h
  · rename_i x hw
    refine h.cancelWorker hw (fun t l hc _ => ?_)
    have hmem : t∈d.executing := mem_jobs_of_getElem hw hc
    rw [he] at hmem; cases hmem

theorem ReplyInv.cancelAll (l : List Nat) (h : ReplyInv d) (he : d.executing=[]) :
    ReplyInv (l.foldl Dispatcher.cancelWorkerAt d) := by
  induction l generalizing d with
  | nil => exact h
  | cons w l ih => exact ih (h.cancelIdle he w) ((cancelWorkerAt_executing d w).trans he)

theorem LaneInv.executing_nil (hl : LaneInv c nowhere none d) (hi : d.inflight=0) :
    d.executing=[] := by
  rw [List.eq_nil_iff_forall_not_mem]
  intro t ht
  obtain ⟨hlt,_,hf,_⟩ := (hl.executing t).mp ht
  have hpos := Lanes.live_pos (s := d.view) hlt hf
  have hlive := hl.inflight
  omega

theorem ReplyInv.admitEvent {p : Payload} {guarded : Bool} (h : ReplyInv d)
    (hl : LaneInv c nowhere none d) (hd : d.admitEvent c p guarded=some d') : ReplyInv d' := by
  unfold Dispatcher.admitEvent at hd
  by_cases hacc : d.accepting=true
  · rw [if_pos hacc] at hd
    split_ifs at hd
    exact Option.some.inj hd ▸ h.enqueue hl p guarded
  · rw [if_neg hacc] at hd
    split_ifs at hd with hlazy
    have hzero : d.inflight=0 := by
      rw [hl.inflight]
      simp [Lanes.live,Dispatcher.view,hl.dormant hlazy.2.1]
    have hactive : d.stopActive=false := by
      by_contra ha
      have hs := (hl.halted (by simpa using ha)).2
      rw [hlazy.2.2] at hs; cases hs
    exact Option.some.inj hd ▸ (h.quiet (startOnLoop_quiet d)).enqueue
      (hl.startOnLoop hzero hactive) p guarded

theorem step_replyInv (a : Act) (h : ReplyInv d) (hl : LaneInv c nowhere none d)
    (hok : Careful d a) (hs : step c d a=some d') : ReplyInv d' := by
  cases a with simp only [step] at hs
  | admitEvent p guarded => exact h.admitEvent hl hs
  | wait t =>
    split_ifs at hs with hpre hp
    · have hk := h.tickets t hpre.1
      exact Option.some.inj hs ▸ h.setTicket (fun _ => hk.setConsumer (.waiting false)
        (by rw [hp]; simp) (fun _ => Or.inr rfl)) rfl rfl rfl
    · exact Option.some.inj hs ▸ h.takeResult hpre.1 (Or.inl hpre.2) hp
  | waiterCancel t =>
    split_ifs at hs with hpre hp
    · exact Option.some.inj hs ▸ h.quiet (.setTicket
        ⟨rfl,rfl,rfl,rfl,rfl,Or.inr ⟨hp,Or.inl rfl⟩,Or.inl rfl,Or.inl rfl⟩)
    · exact Option.some.inj hs ▸ h.markWaiter hpre.1 hpre.2 hp hok
  | waiterResume t =>
    split at hs
    · rename_i b hb
      split_ifs at hs with hpre hm
      · subst hm
        exact Option.some.inj hs ▸ h.cancelWaiter hpre.1 hb hpre.2
      · have hfalse : b=false := by simpa using hm
        subst hfalse
        exact Option.some.inj hs ▸ h.takeResult hpre.1 (Or.inr hb) hpre.2
    · cases hs
  | discard t =>
    split_ifs at hs with hpre
    exact Option.some.inj hs ▸ h.discard hpre.1 hpre.2
  | cancel t =>
    split_ifs at hs
    exact Option.some.inj hs ▸ h.quiet (cancel_quiet d t)
  | resultCallback t =>
    split_ifs at hs
    exact Option.some.inj hs ▸ h.quiet (cancel_quiet d t)
  | workerLoop w g =>
    split at hs
    · cases hs
    · split_ifs at hs with hx hm
      · exact Option.some.inj hs ▸ h.quiet (endWorker_quiet d w)
      · exact Option.some.inj hs ▸ h.workerLoop hl (by simpa using hm) g
  | workerResume w =>
    split at hs
    · cases hs
    · rename_i x hw
      split at hs
      · cases hs
      · rename_i t hx
        have hexec : t∈d.executing := mem_jobs_of_getElem hw hx
        have hlt := ((hl.executing t).mp hexec).1
        have hsafe := h.workers x (List.mem_of_getElem? hw)
        have hworkers (o : HandlerOutcome) : (d.resumeTicket c x t o).1.workers=d.workers := by
          obtain ⟨e,b,hr,_,hwe⟩ := hl.resumeTicket x t o
          rw [hr]
          exact (finishTicket_workers_eq c e t).trans hwe
        split at hs
        · rename_i o ho
          have hwo := hworkers o
          have hfin (f : Dispatcher) (h1 : SameTasks (d.resumeTicket c x t o).1 f)
              (h2 : f.tickets=(d.resumeTicket c x t o).1.tickets)
              (h3 : ∀y∈f.workers,∀u,y.current=some u → y∈d.workers ∧ u≠t) : ReplyInv f :=
            h.resumeTicket hlt hx hsafe ho h1 h2 h3
          generalize d.resumeTicket c x t o=r at hs hwo hfin
          obtain ⟨e,b⟩ := r
          change e.workers=d.workers at hwo
          cases b with
          | true =>
            refine Option.some.inj hs ▸ hfin _ ⟨rfl,rfl,rfl⟩ rfl (fun y hy u hu => ?_)
            change y∈e.workers.set w _ at hy
            rw [hwo] at hy
            have hj := (jobs_set_drop (y := {x with current := none}) hw hx rfl hl.nodup).2 u
            have hu' := (hj.mp (List.mem_filterMap.mpr ⟨y,hy,hu⟩)).2
            rcases List.mem_or_eq_of_mem_set hy with hy | rfl
            · exact ⟨hy,hu'⟩
            · cases hu
          | false =>
            refine Option.some.inj hs ▸ hfin _ ⟨rfl,rfl,rfl⟩ rfl (fun y hy u hu => ?_)
            change y∈e.workers.eraseIdx w at hy
            rw [hwo] at hy
            have hj := (jobs_erase_drop hw hx hl.nodup).2 u
            exact ⟨List.mem_of_mem_eraseIdx hy,(hj.mp (List.mem_filterMap.mpr ⟨y,hy,hu⟩)).2⟩
        · cases hs
  | workerCancel w =>
    split_ifs at hs
    obtain rfl := Option.some.inj hs
    unfold Dispatcher.cancelWorkerAt
    split
    · exact h
    · rename_i x hw
      exact h.cancelWorker hw (hok x hw)
  | workerDone =>
    have hd : QuietStep d {d with doneCallbacks := d.doneCallbacks-1} :=
      .of_same ⟨rfl,rfl,rfl⟩ rfl rfl
    split_ifs at hs
    · obtain ⟨h1,h2,h3⟩ := ensureWorkers_same c {d with doneCallbacks := d.doneCallbacks-1}
      exact Option.some.inj hs ▸ h.quiet (hd.trans (.of_spawn h1 h2 h3))
    · exact Option.some.inj hs ▸ h.quiet hd
  | operationFinish t o =>
    split at hs
    · rename_i b hb
      split_ifs at hs
      exact Option.some.inj hs ▸ h.operationFinish o hb
    · cases hs
  | settle i =>
    split at hs
    · rename_i t a rest hi
      exact Option.some.inj hs ▸ h.settleStep hi
    · rename_i t hi
      exact Option.some.inj hs ▸ h.settleEnd hi
    · cases hs
  | start =>
    split_ifs at hs
    exact Option.some.inj hs ▸ h.quiet (startOnLoop_quiet d)
  | stop =>
    split_ifs at hs
    · exact Option.some.inj hs ▸ h.quiet (.of_same ⟨rfl,rfl,rfl⟩ rfl rfl)
    · exact Option.some.inj hs ▸ h.quiet (.of_same ⟨rfl,rfl,rfl⟩ rfl rfl)
  | stopTimeout =>
    split_ifs at hs
    exact Option.some.inj hs ▸ h.quiet (forceStop_quiet hl)
  | stopWorkers =>
    split_ifs at hs with hpre
    exact Option.some.inj hs ▸ h.cancelAll _ (hl.executing_nil hpre.2)
  | stopFail =>
    split_ifs at hs
    exact Option.some.inj hs ▸ h.quiet (.of_same ⟨rfl,rfl,rfl⟩ rfl rfl)
  | finalizeStop =>
    split_ifs at hs with hpre
    exact Option.some.inj hs ▸ h.quiet (.of_same ⟨rfl,rfl,rfl⟩ rfl hpre.2.2.symm)

theorem reach_replyInv (h : Reach (step c) Careful Initial d) : ReplyInv d :=
  h.invariant_under (fun _ hd => reach_laneInv hd) (fun _ hd => initial_replyInv hd)
    (fun _ a _ hl hr hok hs => step_replyInv a hr hl hok hs)

/-- What becomes of the action list a handler returned for ticket `t`. -/
structure ReplyGuarantee (d : Dispatcher) (t : Nat) (l : List OutAction) : Prop where
  once : (d.tickets t).handovers+(d.tickets t).drops≤1
  accounted : receiptsOf l≠[] →
    (d.tickets t).handovers=1 ∨ (d.tickets t).drops=1 ∨
    ((d.tickets t).operation=.done (.actions l) ∧ t∈d.executing) ∨
    ((d.tickets t).result=.actions l ∧
      ((d.tickets t).consumer=.unclaimed ∨ (d.tickets t).consumer=.waiting false))
  kept : (d.tickets t).drops=0 → ∀r,Untouched (d.receipts t r)
  settled : (d.tickets t).drops=1 → ∀r∈receiptsOf l,RolledBack (d.receipts t r) ∨
    ∃rest,(t,rest)∈d.settlements ∧ r∈receiptsOf rest

/-- Away from the two windows every reply is handed over once, settled once, or on its way. -/
theorem dispatcher_reply (c : Config) (d : Dispatcher) (h : Reach (step c) Careful Initial d)
    (t : Nat) (ht : t<d.next) (l : List OutAction) (hl : (d.tickets t).returned=some l) :
    ReplyGuarantee d t l := by
  have hinv := reach_replyInv h
  have hlane := reach_laneInv h
  have hk := hinv.tickets t ht
  have hkept (h0 : (d.tickets t).drops=0) (r : Nat) : Untouched (d.receipts t r) := by
    rcases hinv.receipts t r with hu | ⟨_,_,h1⟩
    · exact hu
    · rw [h0] at h1; cases h1
  refine ⟨?_,?_,hkept,hinv.dropped t ht l hl⟩
  · cases hk.stage with
    | awaited h1 h2 h3 => omega
    | returned _ h1 h2 h3 => omega
    | held _ h1 h2 h3 => omega
    | handed _ h1 h2 h3 => omega
    | dropped _ h1 h2 h3 => omega
    | blank _ h1 h2 h3 => omega
  · intro hrec
    cases hk.stage with
    | awaited h1 => rw [h1] at hl; cases hl
    | returned l' h1 h2 h3 h4 h5 =>
      rw [h1] at hl
      cases hl
      refine Or.inr (Or.inr (Or.inl ⟨h5,?_⟩))
      have hs : (d.tickets t).started=true := by
        by_contra hs
        have ha := (hk.idle (by simpa using hs)).1
        rw [h5] at ha; cases ha
      have hf : (d.tickets t).finished=false := by
        by_contra hf
        have ha := (hk.finished (by simpa using hf)).1
        rw [h5] at ha; cases ha
      exact (hlane.executing t).mpr ⟨ht,hs,hf,by simp⟩
    | held l' h1 h2 h3 h4 h5 h6 =>
      rw [h1] at hl
      cases hl
      refine Or.inr (Or.inr (Or.inr ⟨h4,?_⟩))
      rcases h6 with h6 | h6 | ⟨_,h6⟩
      · exact Or.inl h6
      · exact Or.inr h6
      · exact absurd h6 hrec
    | handed l' h1 h2 => exact Or.inl h2
    | dropped l' h1 h2 h3 => exact Or.inr (Or.inl h3)
    | blank l' h1 h2 h3 h4 h5 h6 =>
      rw [h1] at hl
      cases hl
      exact absurd h6 hrec

/-- A handler answers with one receipt and its waiter takes the reply. -/
theorem dispatcher_reply_example :
    ∃d,execute (step ⟨1,4,false,fun _ => false⟩) Dispatcher.new
      [.start,.admitEvent ⟨some 1,none⟩ false,.wait 0,.workerLoop 0 .authorized,
        .operationFinish 0 (.actions [⟨some 0⟩]),.workerResume 0,.waiterResume 0]=some d ∧
      (d.tickets 0).handovers=1 ∧ ReplyGuarantee d 0 [⟨some 0⟩] := by
  obtain ⟨d,hd,hrun⟩ : ∃d,execute (step ⟨1,4,false,fun _ => false⟩) Dispatcher.new
      [.start,.admitEvent ⟨some 1,none⟩ false,.wait 0,.workerLoop 0 .authorized,
        .operationFinish 0 (.actions [⟨some 0⟩]),.workerResume 0,.waiterResume 0]=some d ∧
      0<d.next ∧ (d.tickets 0).returned=some [⟨some 0⟩] ∧ (d.tickets 0).handovers=1 :=
    ⟨_,rfl,by decide,by decide,by decide⟩
  refine ⟨d,hd,hrun.2.2,dispatcher_reply _ d (Reach.execute _ ?_ (.start new_initial) hd) 0 hrun.1 _
    hrun.2.1⟩
  intro a ha s
  simp only [List.mem_cons,List.not_mem_nil,or_false] at ha
  rcases ha with rfl | rfl | rfl | rfl | rfl | rfl | rfl <;> trivial

/-- A waiter cancelled between the end of the handler and its own resumption takes the reply
along: nobody sends it and its receipt stays pending. -/
theorem dispatcher_loses_reply : ¬∀(c : Config) (d : Dispatcher),Reach (step c) Free Initial d →
    ∀t<d.next,∀l,(d.tickets t).returned=some l → ReplyGuarantee d t l := by
  intro hall
  obtain ⟨d,hd,hrun⟩ : ∃d,execute (step ⟨1,4,false,fun _ => false⟩) Dispatcher.new
      [.start,.admitEvent ⟨some 1,none⟩ false,.wait 0,.workerLoop 0 .authorized,
        .operationFinish 0 (.actions [⟨some 0⟩]),.workerResume 0,.waiterCancel 0,
        .waiterResume 0]=some d ∧
      0<d.next ∧ (d.tickets 0).returned=some [⟨some 0⟩] ∧ (d.tickets 0).handovers=0 ∧
      (d.tickets 0).drops=0 ∧ (d.tickets 0).operation=.absent ∧ (d.tickets 0).consumer=.ended :=
    ⟨_,rfl,by decide,by decide,by decide,by decide,by decide,by decide⟩
  obtain ⟨hn,hret,hh,hdr,ho,hc⟩ := hrun
  have hg := hall _ d (Reach.execute _ (fun _ _ _ => trivial) (.start new_initial) hd) 0 hn _ hret
  rcases hg.accounted (by simp [receiptsOf]) with h | h | ⟨h,_⟩ | ⟨_,h | h⟩
  · rw [hh] at h; cases h
  · rw [hdr] at h; cases h
  · rw [ho] at h; cases h
  · rw [hc] at h; cases h
  · rw [hc] at h; cases h

end XiaoQing.Inbound
