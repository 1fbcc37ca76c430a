import XiaoQing.Settings.NotificationRun

set_option linter.unusedSectionVars false

namespace XiaoQing.Settings

open Framework ConfigManager ConfigSystem

variable {V : Type} [DecidableEq V] [EmptyCollection V] {m m' : ConfigManager V}
  {s t : ConfigSystem V} {a : ConfigAct V} {n : ConfigNotification V}

theorem NotifyInv.kept_ordered (h : NotifyInv s) : s.kept.Pairwise (· < ·) :=
  h.ordered.sublist h.kept

/-! Calls -/

theorem CallInv.frame (h : CallInv s) (hcb : t.manager.callbacks=s.manager.callbacks)
    (hnext : t.nextCallback=s.nextCallback)
    (hp : ∀n∈pendingNotifications t.manager,n.callbacks.Nodup)
    (hcon : ∀n left,t.consumer=.delivering n left → s.consumer=.delivering n left)
    (hc : t.claimed=s.claimed) (hcalls : t.calls=s.calls) : CallInv t := by
  constructor
  · rw [hcb]
    exact h.callbacks
  · rw [hcb,hnext]
    exact h.fresh
  · exact hp
  · rw [hc,hcalls]
    exact fun n left hd => h.delivering n left (hcon n left hd)
  · rw [hc,hcalls]
    exact h.claimed
  · rw [hcalls]
    exact h.calls

theorem CallInv.claim (h : CallInv s) (hn : n∈pendingNotifications s.manager)
    (hlater : ∀r∈s.claimed,r<n.revision) (hcb : t.manager.callbacks=s.manager.callbacks)
    (hnext : t.nextCallback=s.nextCallback)
    (hp : ∀x∈pendingNotifications t.manager,x∈pendingNotifications s.manager)
    (hcon : t.consumer=.delivering n n.callbacks) (hc : t.claimed=s.claimed++[n.revision])
    (hcalls : t.calls=s.calls) : CallInv t := by
  constructor
  · rw [hcb]
    exact h.callbacks
  · rw [hcb,hnext]
    exact h.fresh
  · exact fun x hx => h.pending x (hp x hx)
  · intro x left hd
    rw [hcon] at hd
    cases hd
    rw [hc,hcalls]
    exact ⟨by simp,h.pending n hn,fun c _ p hmem _ => hlater p.2 (h.claimed p hmem)⟩
  · rw [hc,hcalls]
    exact fun p hmem => List.mem_append_left _ (h.claimed p hmem)
  · rw [hcalls]
    exact h.calls

theorem CallInv.call {callback : Nat} {left : List Nat} (h : CallInv s)
    (hd : s.consumer=.delivering n (callback::left)) :
    CallInv {s with
      consumer := .delivering n left
      calls := if callback∈s.manager.callbacks
        then s.calls++[(callback,n.revision)] else s.calls} := by
  obtain ⟨hlast,hnodup,hbelow⟩ := h.delivering n (callback::left) hd
  rw [List.nodup_cons] at hnodup
  obtain ⟨hnot,hrest⟩ := hnodup
  have hold : ∀c∈left,∀p∈s.calls,p.1=c → p.2<n.revision :=
    fun c hc => hbelow c (List.mem_cons_of_mem _ hc)
  split
  · constructor
    · exact h.callbacks
    · exact h.fresh
    · exact h.pending
    · intro x left' hd'
      cases hd'
      refine ⟨hlast,hrest,?_⟩
      intro c hc p hp hpc
      rcases List.mem_append.mp hp with hp | hp
      · exact hold c hc p hp hpc
      · rw [List.mem_singleton.mp hp] at hpc
        have hcallback : callback=c := hpc
        rw [←hcallback] at hc
        exact absurd hc hnot
    · intro p hp
      rcases List.mem_append.mp hp with hp | hp
      · exact h.claimed p hp
      · rw [List.mem_singleton.mp hp]
        exact List.mem_of_getLast? hlast
    · rw [List.pairwise_append]
      refine ⟨h.calls,List.pairwise_singleton _ _,?_⟩
      intro p hp q hq hpq
      rw [List.mem_singleton.mp hq] at hpq ⊢
      exact hbelow callback List.mem_cons_self p hp hpq
  · constructor
    · exact h.callbacks
    · exact h.fresh
    · exact h.pending
    · intro x left' hd'
      cases hd'
      exact ⟨hlast,hrest,hold⟩
    · exact h.claimed
    · exact h.calls

theorem callInv_step (h : CallInv s) (hn : NotifyInv s) (ht : Turn s t a) : CallInv t := by
  cases ht with
  | publish notify notification hp hsame _ _ _ _ =>
    apply h.frame hp.callbacks hsame.nextCallback
    · intro x hx
      cases notification with
      | none =>
        obtain ⟨hcur,hqueue⟩ := hp.silent rfl
        rw [pendingNotifications,hcur,hqueue] at hx
        exact h.pending x hx
      | some n =>
        obtain ⟨_,_,_,hcb,henq⟩ := hp.loud n rfl
        have hnew : n.callbacks.Nodup := hcb ▸ h.callbacks
        have hold (y : ConfigNotification V) (hy : y∈s.manager.notificationCurrent.toList ∨
            y∈s.manager.notificationQueue.toList) : y.callbacks.Nodup :=
          h.pending y (List.mem_append.mpr hy)
        by_cases hfree : s.manager.notificationCurrent=none ∧ s.manager.notificationDraining=false
        · obtain ⟨hcur,hqueue⟩ := henq.first hfree.1 hfree.2
          rw [pendingNotifications,hcur,hqueue] at hx
          rcases List.mem_append.mp hx with hx | hx
          · rw [List.mem_singleton.mp hx]
            exact hnew
          · exact hold x (Or.inr hx)
        · obtain ⟨hcur,hqueue⟩ := henq.later hfree
          rw [pendingNotifications,hcur,hqueue] at hx
          rcases List.mem_append.mp hx with hx | hx
          · exact hold x (Or.inl hx)
          · rw [List.mem_singleton.mp hx]
            exact hnew
    · rw [hsame.consumer]
      exact fun _ _ hd => hd
    · exact hsame.claimed
    · exact hsame.calls
  | watch hm hsame _ _ _ =>
    apply h.frame
    · rw [hm]
    · exact hsame.nextCallback
    · rw [hm]
      exact h.pending
    · rw [hsame.consumer]
      exact fun _ _ hd => hd
    · exact hsame.claimed
    · exact hsame.calls
  | subscribe hrest =>
    subst t
    constructor
    · show (s.manager.callbacks++[s.nextCallback]).Nodup
      rw [List.nodup_append]
      refine ⟨h.callbacks,List.pairwise_singleton _ _,?_⟩
      intro c hc d hd
      rw [List.mem_singleton.mp hd]
      exact (h.fresh c hc).ne
    · intro c hc
      show c < s.nextCallback+1
      rcases List.mem_append.mp hc with hc | hc
      · exact (h.fresh c hc).trans (Nat.lt_succ_self _)
      · rw [List.mem_singleton.mp hc]
        exact Nat.lt_succ_self _
    · exact h.pending
    · exact h.delivering
    · exact h.claimed
    · exact h.calls
  | unsubscribe callback hrest =>
    subst t
    constructor
    · exact h.callbacks.erase callback
    · exact fun c hc => h.fresh c (List.mem_of_mem_erase hc)
    · exact h.pending
    · exact h.delivering
    · exact h.claimed
    · exact h.calls
  | running _ _ hrest =>
    subst t
    exact h.frame rfl rfl h.pending (fun _ _ hd => hd) rfl rfl
  | start _ _ hrest =>
    subst t
    exact h.frame rfl rfl h.pending (fun _ _ hd => by cases hd) rfl rfl
  | claimCurrent n hnext hcur hrest =>
    subst t
    have hordered := hn.kept_ordered
    have hmem : n∈pendingNotifications s.manager := by simp [pendingNotifications,hcur]
    refine h.claim hmem ?_ rfl rfl ?_ rfl rfl rfl
    · intro r hr
      rw [List.pairwise_append] at hordered
      exact hordered.2.2 r hr n.revision (List.mem_map.mpr ⟨n,hmem,rfl⟩)
    · intro x hx
      have hx' : x∈s.manager.notificationQueue.toList := by simpa [pendingNotifications] using hx
      exact List.mem_append_right _ hx'
  | claimQueue n hnext hcur hqueue hrest =>
    subst t
    have hordered := hn.kept_ordered
    have hmem : n∈pendingNotifications s.manager := by simp [pendingNotifications,hqueue]
    refine h.claim hmem ?_ rfl rfl ?_ rfl rfl rfl
    · intro r hr
      rw [List.pairwise_append] at hordered
      exact hordered.2.2 r hr n.revision (List.mem_map.mpr ⟨n,hmem,rfl⟩)
    · intro x hx
      simp [pendingNotifications,hcur] at hx
  | drain _ _ _ hrest =>
    subst t
    exact h.frame rfl rfl h.pending (fun _ _ hd => by cases hd) rfl rfl
  | call n callback left hd hrest =>
    subst t
    exact h.call hd
  | complete n hd hrest =>
    subst t
    exact h.frame rfl rfl h.pending (fun _ _ hd' => by cases hd') rfl rfl

/-! Generations -/

theorem Turn.clock (h : Turn s t a) : s.manager.sourceGeneration≤t.manager.sourceGeneration ∧
    (s.manager.sourceGeneration=t.manager.sourceGeneration → t.commits=s.commits) := by
  cases h with
  | publish _ _ hp _ _ _ hc _ => exact ⟨hp.generation,hc⟩
  | watch hm _ _ _ hc => exact ⟨by rw [hm],fun _ => hc⟩
  | subscribe hrest => subst t; exact ⟨le_rfl,fun _ => rfl⟩
  | unsubscribe _ hrest => subst t; exact ⟨le_rfl,fun _ => rfl⟩
  | running _ _ hrest => subst t; exact ⟨le_rfl,fun _ => rfl⟩
  | start _ _ hrest => subst t; exact ⟨le_rfl,fun _ => rfl⟩
  | claimCurrent _ _ _ hrest => subst t; exact ⟨le_rfl,fun _ => rfl⟩
  | claimQueue _ _ _ _ hrest => subst t; exact ⟨le_rfl,fun _ => rfl⟩
  | drain _ _ _ hrest => subst t; exact ⟨le_rfl,fun _ => rfl⟩
  | call _ _ _ _ hrest => subst t; exact ⟨le_rfl,fun _ => rfl⟩
  | complete _ _ hrest => subst t; exact ⟨le_rfl,fun _ => rfl⟩

def Stamped (s t : ConfigSystem V) : Prop := ∀i < t.nextIteration,
  i < s.nextIteration ∧ (t.iterations i).generation=(s.iterations i).generation ∧
    (t.iterations i).since=(s.iterations i).since ∨
  (t.iterations i).generation=t.manager.sourceGeneration ∧ (t.iterations i).since=t.commits ∨
  (t.iterations i).generation=0

theorem stamped_same (hi : t.iterations=s.iterations) (hn : t.nextIteration=s.nextIteration) :
    Stamped s t := by
  intro i hlt
  rw [hn] at hlt
  rw [hi]
  exact Or.inl ⟨hlt,rfl,rfl⟩

theorem stamped_update (i : Nat) (iteration : Iteration V)
    (hi : t.iterations=Function.update s.iterations i iteration) (hn : t.nextIteration=s.nextIteration)
    (hsame : iteration.generation=(s.iterations i).generation ∧
      iteration.since=(s.iterations i).since) : Stamped s t := by
  intro j hlt
  rw [hn] at hlt
  rw [hi]
  by_cases hj : j=i
  · subst j
    rw [Function.update_self]
    exact Or.inl ⟨hlt,hsame⟩
  · rw [Function.update_of_ne hj]
    exact Or.inl ⟨hlt,rfl,rfl⟩

theorem stamped_setIteration (i : Nat) (phase : WatchPhase V) : Stamped s (s.setIteration i phase) :=
  stamped_update i _ rfl rfl ⟨rfl,rfl⟩

theorem stamped_retry (i : Nat) : Stamped s (s.retry i) := by
  simp only [retry]
  split
  · exact stamped_update i _ rfl rfl ⟨rfl,rfl⟩
  · exact stamped_setIteration i _

theorem step_stamped (hs : configStep s a=some t) : Stamped s t := by
  cases configEffect_of_step hs with
  | watchStart =>
    intro i hlt
    have hlt' : i < s.nextIteration+1 := hlt
    by_cases hi : i=s.nextIteration
    · right
      right
      subst i
      simp
    · left
      exact ⟨by omega,by simp [hi],by simp [hi]⟩
  | @watchBegin i =>
    intro j hlt
    by_cases hj : j=i
    · right
      left
      subst j
      simp [beginAttempt]
    · left
      exact ⟨hlt,by simp [beginAttempt,hj],by simp [beginAttempt,hj]⟩
  | watchPhase i phase => exact stamped_setIteration i phase
  | watchRetry i => exact stamped_retry i
  | watchPublish => exact stamped_update _ _ rfl rfl ⟨rfl,rfl⟩
  | watchFail => exact stamped_update _ _ rfl rfl ⟨rfl,rfl⟩
  | mutate =>
    split
    · exact stamped_same rfl rfl
    · exact stamped_same rfl rfl
  | _ => exact stamped_same rfl rfl

theorem stampInv_step (h : StampInv s) (hs : configStep s a=some t) : StampInv t := by
  obtain ⟨hle,hcommits⟩ := (step_turn hs).clock
  have hstamp := step_stamped hs
  have hpos := h.positive
  constructor
  · omega
  · intro i hi
    rcases hstamp i hi with ⟨hold,hgen,_⟩ | ⟨hgen,_⟩ | hgen
    · rw [hgen]
      exact (h.bounded i hold).trans hle
    · exact hgen.le
    · rw [hgen]
      exact Nat.zero_le _
  · intro i hi heq
    rcases hstamp i hi with ⟨hold,hgen,hsince⟩ | ⟨_,hsince⟩ | hgen
    · have hb := h.bounded i hold
      have hsame : s.manager.sourceGeneration=t.manager.sourceGeneration := by omega
      rw [hsince,hcommits hsame]
      apply h.since i hold
      omega
    · exact hsince
    · omega

/-! Every run -/

theorem load_kept (read : SourcePair V) :
    let m := ((ConfigManager.new : ConfigManager V).loadSourcesLocked read false false).1
    m.notificationCurrent=none ∧ m.notificationQueue=none ∧ m.notificationDraining=false ∧
      m.callbacks=[] ∧ 0 < m.sourceGeneration := by
  simp only [loadSourcesLocked]
  generalize (ConfigManager.new : ConfigManager V).prepareConfirmedSecretsLocked read.1 read.2 true=p
  obtain ⟨published,paired⟩ := p
  simp only [applySourceReadsLocked,Bool.false_eq_true,if_false,true_or,not_true_eq_false]
  split
  · exact ⟨rfl,rfl,rfl,rfl,Nat.succ_pos _⟩
  · exact ⟨rfl,rfl,rfl,rfl,Nat.succ_pos _⟩

structure DeliveryInv (s : ConfigSystem V) : Prop where
  notify : NotifyInv s
  calls : CallInv s
  stamps : StampInv s

theorem DeliveryInv.initial (hi : Initial s) : DeliveryInv s := by
  obtain ⟨token,reads,rfl⟩ := hi
  obtain ⟨hcur,hqueue,hdr,hcb,hgen⟩ := load_kept (readStableSources token reads)
  have hm : (ConfigSystem.new token reads).manager=
      ((ConfigManager.new : ConfigManager V).loadSourcesLocked (readStableSources token reads)
        false false).1 := rfl
  have hpending : pendingNotifications (ConfigSystem.new token reads).manager=[] := by
    rw [hm,pendingNotifications,hcur,hqueue]
    rfl
  have hkept : (ConfigSystem.new token reads).kept=[] := by
    simp only [ConfigSystem.kept,waiting,hpending]
    rfl
  constructor
  · constructor
    · exact List.Pairwise.nil
    · intro r hr
      cases hr
    · rw [hkept]
      exact List.nil_sublist _
    · rw [hkept]
      rfl
    · rw [hkept]
      rfl
    · intro _ _
      rw [hm]
      exact hqueue
    · rw [hm,hdr]
      exact iff_of_true rfl rfl
    · rw [hm,hdr]
      exact fun hx => by cases hx
    · simp only [waiting,hpending]
      exact fun hx => absurd rfl hx
    · intro hx
      cases hx
  · constructor
    · rw [hm,hcb]
      exact List.Pairwise.nil
    · rw [hm,hcb]
      intro c hc
      cases hc
    · rw [hpending]
      intro x hx
      cases hx
    · intro x left hd
      cases hd
    · intro p hp
      cases hp
    · exact List.Pairwise.nil
  · constructor
    · rw [hm]
      exact hgen
    · intro i hi
      cases hi
    · intro i hi
      cases hi

theorem reach_deliveryInv (h : Reach configStep Free Initial s) : DeliveryInv s := by
  apply h.invariant (P := DeliveryInv) (fun _ hi => DeliveryInv.initial hi)
  intro s a t hi _ hs
  have ht := step_turn hs
  exact ⟨notifyInv_step hi.notify ht,callInv_step hi.calls hi.notify ht,stampInv_step hi.stamps hs⟩

structure NotificationGuarantee (s : ConfigSystem V) : Prop where
  increasing : s.calls.Pairwise (fun p q => p.1=q.1 → p.2<q.2)
  claimed : s.claimed.Pairwise (· < ·) ∧ ∀p∈s.calls,p.2∈s.claimed
  coalescing : ∀r∈s.queued,r∈s.kept ∨ ∃older∈s.kept,∃newer∈s.kept,older<r ∧ r<newer
  reserved : ∀a t,configStep s a=some t → ∀n,s.manager.notificationCurrent=some n →
    t.manager.notificationCurrent=some n ∨ t.consumer=.delivering n n.callbacks
  delivered : ∀a t,configStep s a=some t → ∀n left,s.consumer=.delivering n left →
    t.consumer=.delivering n left ∨ t.consumer=.delivering n left.tail ∨ left=[] ∧ t.consumer=.next
  drained : ∀t,configStep s .claim=some t → t.consumer=.idle →
    s.claimed.getLast?=s.queued.getLast?
  queued : ∀a t,configStep s a=some t → t.manager.revision≠s.manager.revision →
    t.queued=s.queued++[t.manager.revision] ∨ ∃token reads,a=.reload token reads false
  awake : waiting s.manager≠[] → s.consumer≠.idle ∨ 0 < s.starting
  current : ∀i read t,configStep s (.watchRead i read)=some t → t.manager≠s.manager →
    (s.iterations i).since=s.commits

theorem watchRead_current (h : StampInv s) {i : Nat} {read : SourcePair V}
    (hs : configStep s (.watchRead i read)=some t) (hne : t.manager≠s.manager) :
    (s.iterations i).since=s.commits := by
  have hretry : ∀j,(s.retry j).manager=s.manager := by
    intro j
    simp only [retry]
    split
    · rfl
    · rfl
  cases configEffect_of_step hs with
  | watchPhase => exact absurd rfl hne
  | watchRetry j => exact absurd (hretry j) hne
  | watchPublish hlt hg => exact h.since i hlt hg

theorem Turn.drained (h : Turn s t a) (hidle : t.consumer=.idle) (hbusy : s.consumer≠.idle) :
    s.manager.notificationCurrent=none ∧ s.manager.notificationQueue=none := by
  cases h with
  | publish _ _ _ hsame _ _ _ _ => exact absurd (hsame.consumer.symm.trans hidle) hbusy
  | watch _ hsame _ _ _ => exact absurd (hsame.consumer.symm.trans hidle) hbusy
  | subscribe hrest => subst t; exact absurd hidle hbusy
  | unsubscribe _ hrest => subst t; exact absurd hidle hbusy
  | running _ _ hrest => subst t; exact absurd hidle hbusy
  | start _ _ hrest => subst t; cases hidle
  | claimCurrent _ _ _ hrest => subst t; cases hidle
  | claimQueue _ _ _ _ hrest => subst t; cases hidle
  | drain _ hcur hqueue _ => exact ⟨hcur,hqueue⟩
  | call _ _ _ _ hrest => subst t; cases hidle
  | complete _ _ hrest => subst t; cases hidle

theorem Turn.queued (h : Turn s t a) (hne : t.manager.revision≠s.manager.revision) :
    t.queued=s.queued++[t.manager.revision] ∨ ∃token reads,a=.reload token reads false := by
  cases h with
  | publish notify notification hp _ _ hq _ hsilent =>
    rcases hsilent with hnotify | hsilent
    · left
      cases notification with
      | none => exact absurd (hp.heard hnotify rfl) hne
      | some n =>
        rw [hq,←(hp.loud n rfl).1]
        rfl
    · exact Or.inr hsilent
  | watch hm _ _ _ _ => exact absurd (congrArg ConfigManager.revision hm) hne
  | subscribe hrest => subst t; exact absurd rfl hne
  | unsubscribe _ hrest => subst t; exact absurd rfl hne
  | running _ _ hrest => subst t; exact absurd rfl hne
  | start _ _ hrest => subst t; exact absurd rfl hne
  | claimCurrent _ _ _ hrest => subst t; exact absurd rfl hne
  | claimQueue _ _ _ _ hrest => subst t; exact absurd rfl hne
  | drain _ _ _ hrest => subst t; exact absurd rfl hne
  | call _ _ _ _ hrest => subst t; exact absurd rfl hne
  | complete _ _ hrest => subst t; exact absurd rfl hne

/-- The deliveries follow the publications, whatever the order of publishers and consumer. -/
theorem config_notifications (s : ConfigSystem V) (h : Reach configStep Free Initial s) :
    NotificationGuarantee s := by
  obtain ⟨hn,hc,hst⟩ := reach_deliveryInv h
  have hordered := hn.kept_ordered
  constructor
  · exact hc.calls
  · rw [List.pairwise_append] at hordered
    exact ⟨hordered.1,hc.claimed⟩
  · intro r hr
    by_cases hmem : r∈s.kept
    · exact Or.inl hmem
    · right
      obtain ⟨first,hfirst⟩ : ∃x,s.queued.head?=some x := by
        cases hq : s.queued with
        | nil => rw [hq] at hr; cases hr
        | cons x xs => exact ⟨x,rfl⟩
      obtain ⟨last,hlast⟩ : ∃x,s.queued.getLast?=some x := by
        cases hq : s.queued.getLast? with
        | none => rw [List.getLast?_eq_none_iff.mp hq] at hr; cases hr
        | some x => exact ⟨x,rfl⟩
      have hfirst' : first∈s.kept := List.mem_of_head? (hn.first.trans hfirst)
      have hlast' : last∈s.kept := List.mem_of_getLast? (hn.last.trans hlast)
      refine ⟨first,hfirst',last,hlast',?_,?_⟩
      · obtain ⟨rest,hrest⟩ := List.head?_eq_some_iff.mp hfirst
        have hsorted := hn.ordered
        rw [hrest,List.pairwise_cons] at hsorted
        rw [hrest] at hr
        rcases List.mem_cons.mp hr with hr | hr
        · exact absurd (hr ▸ hfirst') hmem
        · exact hsorted.1 r hr
      · obtain ⟨init,hinit⟩ := List.getLast?_eq_some_iff.mp hlast
        have hsorted := hn.ordered
        rw [hinit,List.pairwise_append] at hsorted
        rw [hinit] at hr
        rcases List.mem_append.mp hr with hr | hr
        · exact hsorted.2.2 r hr last (List.mem_singleton.mpr rfl)
        · exact absurd (List.mem_singleton.mp hr ▸ hlast') hmem
  · intro a t hs n hcur
    cases step_turn hs with
    | publish notify notification hp _ _ _ _ _ =>
      left
      cases notification with
      | none => exact (hp.silent rfl).1.trans hcur
      | some x =>
        have henq := (hp.loud x rfl).2.2.2.2
        exact (henq.later (by simp [hcur])).1.trans hcur
    | watch hm => exact Or.inl (by rw [hm]; exact hcur)
    | subscribe hrest => subst t; exact Or.inl hcur
    | unsubscribe _ hrest => subst t; exact Or.inl hcur
    | running _ _ hrest => subst t; exact Or.inl hcur
    | start _ _ hrest => subst t; exact Or.inl hcur
    | claimCurrent x _ hx hrest =>
      subst t
      rw [hcur] at hx
      cases hx
      exact Or.inr rfl
    | claimQueue _ _ hx _ _ => rw [hcur] at hx; cases hx
    | drain _ hx _ _ => rw [hcur] at hx; cases hx
    | call _ _ _ _ hrest => subst t; exact Or.inl hcur
    | complete _ _ hrest => subst t; exact Or.inl hcur
  · intro a t hs n left hd
    cases step_turn hs with
    | publish _ _ _ hsame _ _ _ _ => exact Or.inl (hsame.consumer.trans hd)
    | watch _ hsame _ _ _ => exact Or.inl (hsame.consumer.trans hd)
    | subscribe hrest => subst t; exact Or.inl hd
    | unsubscribe _ hrest => subst t; exact Or.inl hd
    | running _ _ hrest => subst t; exact Or.inl hd
    | start _ hdr _ =>
      have hidle := hn.idle.mp hdr
      rw [hd] at hidle
      cases hidle
    | claimCurrent _ hnext _ _ => rw [hd] at hnext; cases hnext
    | claimQueue _ hnext _ _ _ => rw [hd] at hnext; cases hnext
    | drain hnext _ _ _ => rw [hd] at hnext; cases hnext
    | call x callback rest hx hrest =>
      subst t
      rw [hd] at hx
      cases hx
      exact Or.inr (Or.inl rfl)
    | complete x hx hrest =>
      subst t
      rw [hd] at hx
      cases hx
      exact Or.inr (Or.inr ⟨rfl,rfl⟩)
  · intro t hs hidle
    have hbusy : s.consumer≠.idle := by
      intro hx
      simp [configStep,hx] at hs
    obtain ⟨hcur,hqueue⟩ := (step_turn hs).drained hidle hbusy
    have hlast := hn.last
    have hempty : waiting s.manager=[] := by simp [waiting,pendingNotifications,hcur,hqueue]
    rw [ConfigSystem.kept,hempty,List.append_nil] at hlast
    exact hlast
  · exact fun a t hs hne => (step_turn hs).queued hne
  · intro hne
    apply (hn.awake hne).imp_left
    intro hdr hidle
    rw [hn.idle.mpr hidle] at hdr
    cases hdr
  · exact fun i read t hs hne => watchRead_current hst hs hne

/-- Three reloads in front of the consumer: it delivers the first and the last. -/
theorem config_notifications_example :
    ∃s,execute configStep (ConfigSystem.new "" (fun _ => (validFile "c0" [0],validFile "s0" [7])))
      [.subscribe,.reload "" (fun _ => (validFile "c1" [1],validFile "s0" [7])) true,
        .reload "" (fun _ => (validFile "c2" [2],validFile "s0" [7])) true,
        .reload "" (fun _ => (validFile "c3" [3],validFile "s0" [7])) true,
        .startConsumer,.claim,.call,.complete,.claim,.call,.complete,.claim]=some s ∧
      s.calls=[(0,1),(0,3)] ∧ NotificationGuarantee s := by
  obtain ⟨s,hs,hcalls⟩ : ∃s,execute configStep
      (ConfigSystem.new "" (fun _ => (validFile "c0" [0],validFile "s0" [7])))
      [.subscribe,.reload "" (fun _ => (validFile "c1" [1],validFile "s0" [7])) true,
        .reload "" (fun _ => (validFile "c2" [2],validFile "s0" [7])) true,
        .reload "" (fun _ => (validFile "c3" [3],validFile "s0" [7])) true,
        .startConsumer,.claim,.call,.complete,.claim,.call,.complete,.claim]=some s ∧
      s.calls=[(0,1),(0,3)] := ⟨_,rfl,by decide⟩
  have hinit : Reach configStep Free Initial
      (ConfigSystem.new "" (fun _ => (validFile "c0" [0],validFile "s0" [7]))) :=
    .start ⟨_,_,rfl⟩
  exact ⟨s,hs,hcalls,config_notifications s (Reach.execute _ (fun _ _ _ => trivial) hinit hs)⟩

/-- A reload without notification is published and not delivered; a watcher that fails publishes after
the reload that came in between; a transaction that writes the same bytes does not stop a watcher
either. -/
theorem config_notifications_gaps :
    (¬∀s t : ConfigSystem (List Nat),Reach configStep Free Initial s → configStep s .claim=some t →
      t.consumer=.idle → s.claimed.getLast?=s.published.getLast?) ∧
    (¬∀s t : ConfigSystem (List Nat),Reach configStep Free Initial s → ∀i,
      configStep s (.watchFail i)=some t → t.manager.revision≠s.manager.revision →
      (s.iterations i).since=s.commits) ∧
    ¬∀s t u : ConfigSystem (List Nat),Reach configStep Free Initial s → ∀current mutation i read,
      (s.manager.commitSecretsMutation current mutation).2.2=none →
      configStep s (.mutate current mutation)=some t → i < s.nextIteration →
      configStep t (.watchRead i read)=some u → u.manager.revision=t.manager.revision := by
  have hinit : Reach configStep Free Initial
      (ConfigSystem.new "" (fun _ => (validFile "c0" [0],validFile "s0" [7]))) :=
    .start ⟨_,_,rfl⟩
  refine ⟨?_,?_,?_⟩
  · intro hall
    obtain ⟨s,t,hs,ht,hidle,hclaimed,hpublished⟩ : ∃s t,execute configStep
        (ConfigSystem.new "" (fun _ => (validFile "c0" [0],validFile "s0" [7])))
        [.reload "" (fun _ => (validFile "c1" [1],validFile "s0" [7])) true,.startConsumer,.claim,
          .reload "" (fun _ => (validFile "c2" [2],validFile "s0" [7])) false,.complete]=some s ∧
        configStep s .claim=some t ∧ t.consumer=.idle ∧ s.claimed=[1] ∧ s.published=[1,2] :=
      ⟨_,_,rfl,rfl,by decide,by decide,by decide⟩
    have hlast := hall s t (Reach.execute _ (fun _ _ _ => trivial) hinit hs) ht hidle
    rw [hclaimed,hpublished] at hlast
    exact absurd hlast (by decide)
  · intro hall
    obtain ⟨s,t,hs,ht,hrevision,hsince,hcommits⟩ : ∃s t,execute configStep
        (ConfigSystem.new "" (fun _ => (validFile "c0" [0],validFile "s0" [7])))
        [.watchStart,.watchBegin 0,
          .reload "" (fun _ => (validFile "c1" [1],validFile "s0" [7])) true,
          .watchRaise 0 "OSError" "read failed"]=some s ∧
        configStep s (.watchFail 0)=some t ∧ t.manager.revision≠s.manager.revision ∧
        (s.iterations 0).since=0 ∧ s.commits=1 := ⟨_,_,rfl,rfl,by decide,by decide,by decide⟩
    have hsame := hall s t (Reach.execute _ (fun _ _ _ => trivial) hinit hs) 0 ht hrevision
    rw [hsince,hcommits] at hsame
    exact absurd hsame (by decide)
  · intro hall
    obtain ⟨s,t,u,hs,hok,ht,hi,hu,hrevision⟩ : ∃s t u,execute configStep
        (ConfigSystem.new "" (fun _ => (validFile "c0" [0],validFile "s0" [7])))
        [.watchStart,.watchBegin 0,.watchRead 0 (validFile "c1" [1],validFile "s0" [7]),
          .watchRead 0 (validFile "c1" [1],validFile "s0" [7])]=some s ∧
        (s.manager.commitSecretsMutation (validFile "s0" [7]) (.written "s0" [7] "s0")).2.2=none ∧
        configStep s (.mutate (validFile "s0" [7]) (.written "s0" [7] "s0"))=some t ∧
        0 < s.nextIteration ∧
        configStep t (.watchRead 0 (validFile "c1" [1],validFile "s0" [7]))=some u ∧
        u.manager.revision≠t.manager.revision :=
      ⟨_,_,_,rfl,by decide,rfl,by decide,rfl,by decide⟩
    exact hrevision (hall s t u (Reach.execute _ (fun _ _ _ => trivial) hinit hs)
      (validFile "s0" [7]) (.written "s0" [7] "s0") 0 _ hok ht hi hu)

end XiaoQing.Settings
