import XiaoQing.Settings.Publication

set_option linter.unusedSectionVars false

namespace XiaoQing.Settings

open Framework ConfigManager ConfigSystem

variable {V : Type} [DecidableEq V] [EmptyCollection V] {m m' : ConfigManager V}
  {s t : ConfigSystem V} {a : ConfigAct V} {n : ConfigNotification V}

/-- The notifications that the consumer has still to claim, in its order. -/
def pendingNotifications (m : ConfigManager V) : List (ConfigNotification V) :=
  m.notificationCurrent.toList++m.notificationQueue.toList

abbrev waiting (m : ConfigManager V) : List Nat := (pendingNotifications m).map (·.revision)

abbrev ConfigSystem.kept (s : ConfigSystem V) : List Nat := s.claimed++waiting s.manager

structure NotifyInv (s : ConfigSystem V) : Prop where
  ordered : s.queued.Pairwise (· < ·)
  bounded : ∀r∈s.queued,r ≤ s.manager.revision
  kept : s.kept.Sublist s.queued
  first : s.kept.head?=s.queued.head?
  last : s.kept.getLast?=s.queued.getLast?
  free : s.manager.notificationDraining=false → s.manager.notificationCurrent=none →
    s.manager.notificationQueue=none
  idle : s.manager.notificationDraining=false ↔ s.consumer=.idle
  begun : s.manager.notificationDraining=true → s.manager.notificationCurrent=none → s.claimed≠[]
  awake : waiting s.manager≠[] → s.manager.notificationDraining=true ∨ 0 < s.starting
  heard : 0 < s.starting → s.queued≠[]

/-- Every notification names a callback once, and every call follows the claims. -/
structure CallInv (s : ConfigSystem V) : Prop where
  callbacks : s.manager.callbacks.Nodup
  fresh : ∀c∈s.manager.callbacks,c < s.nextCallback
  pending : ∀n∈pendingNotifications s.manager,n.callbacks.Nodup
  delivering : ∀n left,s.consumer=.delivering n left →
    s.claimed.getLast?=some n.revision ∧ left.Nodup ∧
      ∀c∈left,∀p∈s.calls,p.1=c → p.2<n.revision
  claimed : ∀p∈s.calls,p.2∈s.claimed
  calls : s.calls.Pairwise (fun p q => p.1=q.1 → p.2<q.2)

/-- No reload and no transaction since an attempt of the current generation. -/
structure StampInv (s : ConfigSystem V) : Prop where
  positive : 0 < s.manager.sourceGeneration
  bounded : ∀i < s.nextIteration,(s.iterations i).generation ≤ s.manager.sourceGeneration
  since : ∀i < s.nextIteration,(s.iterations i).generation=s.manager.sourceGeneration →
    (s.iterations i).since=s.commits

/-! What a step can do -/

structure SameDelivery (s t : ConfigSystem V) : Prop where
  consumer : t.consumer=s.consumer
  claimed : t.claimed=s.claimed
  calls : t.calls=s.calls
  nextCallback : t.nextCallback=s.nextCallback

/-- The act as the notifications see it. -/
inductive Turn (s t : ConfigSystem V) (a : ConfigAct V) : Prop
  | publish (notify : Bool) (notification : Option (ConfigNotification V))
      (publication : Publication s.manager t.manager notify notification)
      (same : SameDelivery s t)
      (starting : t.starting=if notification.isSome then s.starting+1 else s.starting)
      (queued : t.queued=s.queued++(notification.map (·.revision)).toList)
      (commits : s.manager.sourceGeneration=t.manager.sourceGeneration → t.commits=s.commits)
      (silent : notify=true ∨ ∃token reads,a=.reload token reads false)
  | watch (manager : t.manager=s.manager) (same : SameDelivery s t) (starting : t.starting=s.starting)
      (queued : t.queued=s.queued) (commits : t.commits=s.commits)
  | subscribe (rest : t={s with
        manager := {s.manager with callbacks := s.manager.callbacks++[s.nextCallback]}
        nextCallback := s.nextCallback+1})
  | unsubscribe (callback : Nat) (rest : t={s with
        manager := {s.manager with callbacks := s.manager.callbacks.erase callback}})
  | running (pending : 0 < s.starting) (draining : s.manager.notificationDraining=true)
      (rest : t={s with starting := s.starting-1})
  | start (pending : 0 < s.starting) (draining : s.manager.notificationDraining=false)
      (rest : t={s with
        starting := s.starting-1
        manager := {s.manager with notificationDraining := true}
        consumer := .next})
  | claimCurrent (n : ConfigNotification V) (next : s.consumer=.next)
      (current : s.manager.notificationCurrent=some n)
      (rest : t={s with
        manager := {s.manager with notificationCurrent := none}
        consumer := .delivering n n.callbacks
        claimed := s.claimed++[n.revision]})
  | claimQueue (n : ConfigNotification V) (next : s.consumer=.next)
      (current : s.manager.notificationCurrent=none) (queue : s.manager.notificationQueue=some n)
      (rest : t={s with
        manager := {s.manager with notificationQueue := none}
        consumer := .delivering n n.callbacks
        claimed := s.claimed++[n.revision]})
  | drain (next : s.consumer=.next) (current : s.manager.notificationCurrent=none)
      (queue : s.manager.notificationQueue=none)
      (rest : t={s with
        manager := {s.manager with notificationDraining := false},consumer := .idle})
  | call (n : ConfigNotification V) (callback : Nat) (left : List Nat)
      (delivering : s.consumer=.delivering n (callback::left))
      (rest : t={s with
        consumer := .delivering n left
        calls := if callback∈s.manager.callbacks
          then s.calls++[(callback,n.revision)] else s.calls})
  | complete (n : ConfigNotification V) (delivering : s.consumer=.delivering n [])
      (rest : t={s with manager := s.manager.completeNotification n,consumer := .next})

theorem turn_publish {notify : Bool} {notification : Option (ConfigNotification V)}
    (hp : Publication s.manager m notify notification) (ht : t.manager=m) (hsame : SameDelivery s t)
    (hs : t.starting=(s.publish m notification).starting)
    (hq : t.queued=(s.publish m notification).queued)
    (hc : s.manager.sourceGeneration=m.sourceGeneration → t.commits=s.commits)
    (hsilent : notify=true ∨ ∃token reads,a=.reload token reads false) : Turn s t a := by
  apply Turn.publish notify notification
  · rw [ht]
    exact hp
  · exact hsame
  · exact hs
  · rw [hq]
    cases notification with
    | none => simp [publish]
    | some n => simp [publish]
  · rw [ht]
    exact hc
  · exact hsilent

theorem turn_iteration (i : Nat) (iteration : Iteration V) :
    Turn s {s with iterations := Function.update s.iterations i iteration} a :=
  .watch rfl ⟨rfl,rfl,rfl,rfl⟩ rfl rfl rfl

theorem turn_setIteration (i : Nat) (phase : WatchPhase V) : Turn s (s.setIteration i phase) a :=
  turn_iteration i _

theorem turn_retry (i : Nat) : Turn s (s.retry i) a := by
  simp only [retry]
  split
  · exact turn_iteration i _
  · exact turn_setIteration i _

theorem step_turn (hs : configStep s a=some t) : Turn s t a := by
  cases configEffect_of_step hs with
  | @reload token reads notify m notification notice hm =>
    obtain ⟨hp,hlt⟩ := reload_publication s.manager (readStableSources token reads) notify
    have hload : s.manager.loadSourcesLocked (readStableSources token reads) true notify=
        (m,notification) := congrArg (fun r => (r.1,r.2.1)) hm
    rw [hload] at hp hlt
    refine turn_publish hp rfl ⟨rfl,rfl,rfl,rfl⟩ rfl rfl ?_ ?_
    · intro heq
      exact absurd heq (Nat.ne_of_lt hlt)
    · cases notify with
      | true => exact Or.inl rfl
      | false => exact Or.inr ⟨token,reads,rfl⟩
  | @mutate current mutation m notification failure hm =>
    have hp := commit_publication s.manager current mutation
    rw [hm] at hp
    split
    · refine turn_publish hp rfl ⟨rfl,rfl,rfl,rfl⟩ rfl rfl ?_ (Or.inl rfl)
      intro heq
      have hsame : ¬m.secretsSource.signature≠s.manager.secretsSource.signature := by
        intro hne
        exact absurd heq (Nat.ne_of_lt (hp.changed hne))
      exact if_neg hsame
    · exact turn_publish hp rfl ⟨rfl,rfl,rfl,rfl⟩ rfl rfl (fun _ => rfl) (Or.inl rfl)
  | watchStart => exact .watch rfl ⟨rfl,rfl,rfl,rfl⟩ rfl rfl rfl
  | watchBegin => exact turn_iteration _ _
  | watchPhase i phase => exact turn_setIteration i phase
  | watchRetry i => exact turn_retry i
  | @watchPublish i read _ _ _ _ _ _ _ _ hm =>
    have hp := watch_publication s.manager read
    rw [hm] at hp
    exact turn_publish hp rfl ⟨rfl,rfl,rfl,rfl⟩ rfl rfl (fun _ => rfl) (Or.inl rfl)
  | @watchFail i kind message _ _ hm =>
    have hp := failClosed_publication s.manager kind message
    rw [hm] at hp
    exact turn_publish hp rfl ⟨rfl,rfl,rfl,rfl⟩ rfl rfl (fun _ => rfl) (Or.inl rfl)
  | subscribe => exact .subscribe rfl
  | unsubscribe => exact .unsubscribe _ rfl
  | consumerRuns hpos hd => exact .running hpos hd rfl
  | startConsumer hpos hd => exact .start hpos hd rfl
  | claim hnext hm =>
    simp only [nextNotification] at hm
    split at hm
    · rename_i hcurrent
      cases hm
      exact .claimCurrent _ hnext hcurrent rfl
    · rename_i hcurrent
      split at hm
      · rename_i hqueue
        cases hm
        exact .claimQueue _ hnext hcurrent hqueue rfl
      · cases hm
  | drain hnext hm =>
    simp only [nextNotification] at hm
    split at hm
    · cases hm
    · rename_i hcurrent
      split at hm
      · cases hm
      · rename_i hqueue
        cases hm
        exact .drain hnext hcurrent hqueue rfl
  | call hd => exact .call _ _ _ hd rfl
  | complete hd => exact .complete _ hd rfl

/-! Nothing that is kept is lost -/

theorem waiting_eq (h : m'.notificationCurrent=m.notificationCurrent)
    (h' : m'.notificationQueue=m.notificationQueue) : waiting m'=waiting m := by
  simp only [waiting,pendingNotifications,h,h']

theorem NotifyInv.frame (h : NotifyInv s) (hq : t.queued=s.queued) (hc : t.claimed=s.claimed)
    (hr : s.manager.revision≤t.manager.revision)
    (hcur : t.manager.notificationCurrent=s.manager.notificationCurrent)
    (hqueue : t.manager.notificationQueue=s.manager.notificationQueue)
    (hd : t.manager.notificationDraining=s.manager.notificationDraining)
    (hcon : t.consumer=.idle ↔ s.consumer=.idle) (hs : s.starting≤t.starting)
    (hpos : 0 < t.starting → 0 < s.starting) : NotifyInv t := by
  have hw := waiting_eq hcur hqueue
  constructor
  · rw [hq]
    exact h.ordered
  · rw [hq]
    exact fun r hmem => (h.bounded r hmem).trans hr
  · rw [ConfigSystem.kept,hq,hc,hw]
    exact h.kept
  · rw [ConfigSystem.kept,hq,hc,hw]
    exact h.first
  · rw [ConfigSystem.kept,hq,hc,hw]
    exact h.last
  · rw [hd,hcur,hqueue]
    exact h.free
  · rw [hd,hcon]
    exact h.idle
  · rw [hd,hcur,hc]
    exact h.begun
  · rw [hw,hd]
    exact fun hne => (h.awake hne).imp id (fun hx => hx.trans_le hs)
  · rw [hq]
    exact fun hx => h.heard (hpos hx)

theorem NotifyInv.enqueue (h : NotifyInv s) (henq : Enqueued s.manager t.manager n)
    (hlt : s.manager.revision < n.revision) (hr : n.revision≤t.manager.revision)
    (hd : t.manager.notificationDraining=s.manager.notificationDraining)
    (hq : t.queued=s.queued++[n.revision]) (hc : t.claimed=s.claimed) (hcon : t.consumer=s.consumer)
    (hs : t.starting=s.starting+1) : NotifyInv t := by
  have hbelow : ∀r∈s.queued,r<n.revision := fun r hmem => Nat.lt_of_le_of_lt (h.bounded r hmem) hlt
  have hordered : t.queued.Pairwise (· < ·) := by
    rw [hq,List.pairwise_append]
    refine ⟨h.ordered,List.pairwise_singleton _ _,?_⟩
    intro r hmem r' hmem'
    rw [List.mem_singleton.mp hmem']
    exact hbelow r hmem
  have hbounded : ∀r∈t.queued,r≤t.manager.revision := by
    rw [hq]
    intro r hmem
    rcases List.mem_append.mp hmem with hold | hnew
    · exact (hbelow r hold).le.trans hr
    · rw [List.mem_singleton.mp hnew]
      exact hr
  -- what stays in front of the new notification
  have hfront : ∃front,t.kept=front++[n.revision] ∧ front.Sublist s.kept ∧
      (front=[] → s.queued=[]) ∧ (∀x,front.head?=some x → s.kept.head?=some x) := by
    by_cases hfree : s.manager.notificationCurrent=none ∧ s.manager.notificationDraining=false
    · obtain ⟨hcur,hqueue⟩ := henq.first hfree.1 hfree.2
      have hnone := h.free hfree.2 hfree.1
      have hempty : waiting s.manager=[] := by simp [waiting,pendingNotifications,hfree.1,hnone]
      have hkept : s.kept=s.claimed := by rw [ConfigSystem.kept,hempty,List.append_nil]
      refine ⟨s.claimed,?_,?_,?_,?_⟩
      · rw [ConfigSystem.kept,hc]
        simp [waiting,pendingNotifications,hcur,hqueue,hnone]
      · rw [hkept]
      · intro hnil
        have hfirst := h.first
        rw [hkept,hnil] at hfirst
        exact List.head?_eq_none_iff.mp hfirst.symm
      · intro x hx
        rw [hkept]
        exact hx
    · obtain ⟨hcur,hqueue⟩ := henq.later hfree
      have hsplit : s.kept=(s.claimed++s.manager.notificationCurrent.toList.map (·.revision))++
          s.manager.notificationQueue.toList.map (·.revision) := by
        simp [waiting,pendingNotifications]
      have hnonempty : s.claimed++s.manager.notificationCurrent.toList.map (·.revision)≠[] := by
        cases hcurrent : s.manager.notificationCurrent with
        | some x => simp
        | none =>
          have hdraining : s.manager.notificationDraining=true := by
            by_contra hx
            exact hfree ⟨hcurrent,by simpa using hx⟩
          simpa using h.begun hdraining hcurrent
      refine ⟨s.claimed++s.manager.notificationCurrent.toList.map (·.revision),?_,?_,?_,?_⟩
      · rw [ConfigSystem.kept,hc]
        simp [waiting,pendingNotifications,hcur,hqueue]
      · rw [hsplit]
        exact List.sublist_append_left _ _
      · exact fun hnil => absurd hnil hnonempty
      · intro x hx
        rw [hsplit,List.head?_append_of_ne_nil _ hnonempty]
        exact hx
  obtain ⟨front,hkept,hsub,hempty,hhead⟩ := hfront
  constructor
  · exact hordered
  · exact hbounded
  · rw [hkept,hq]
    exact (hsub.trans h.kept).append (List.Sublist.refl _)
  · rw [hkept,hq]
    cases hfront : front with
    | nil => rw [hempty hfront]
    | cons x rest =>
      have hx := hhead x (by rw [hfront]; rfl)
      rw [h.first] at hx
      cases hqueued : s.queued with
      | nil =>
        rw [hqueued] at hx
        cases hx
      | cons y ys =>
        rw [hqueued] at hx
        simpa using hx.symm
  · rw [hkept,hq]
    simp
  · intro hdr hcur
    rw [hd] at hdr
    by_cases hsc : s.manager.notificationCurrent=none
    · rw [(henq.first hsc hdr).1] at hcur
      cases hcur
    · have hlater := (henq.later (fun hx => hsc hx.1)).1
      rw [hlater] at hcur
      exact absurd hcur hsc
  · rw [hd,hcon]
    exact h.idle
  · intro hdr hcur
    rw [hd] at hdr
    have hbusy : ¬(s.manager.notificationCurrent=none ∧ s.manager.notificationDraining=false) := by
      rw [hdr]
      exact fun hx => by cases hx.2
    rw [(henq.later hbusy).1] at hcur
    rw [hc]
    exact h.begun hdr hcur
  · intro _
    right
    omega
  · intro _
    rw [hq]
    simp

theorem NotifyInv.claim (h : NotifyInv s) (hq : t.queued=s.queued) (hk : t.kept=s.kept)
    (hr : t.manager.revision=s.manager.revision)
    (hd : t.manager.notificationDraining=s.manager.notificationDraining) (hcon : s.consumer=.next)
    (hcon' : t.consumer≠.idle) (hc : t.claimed≠[]) : NotifyInv t := by
  have hbusy : s.manager.notificationDraining=true := by
    by_contra hx
    have hidle := h.idle.mp (by simpa using hx)
    rw [hcon] at hidle
    cases hidle
  constructor
  · rw [hq]
    exact h.ordered
  · rw [hq,hr]
    exact h.bounded
  · rw [hk,hq]
    exact h.kept
  · rw [hk,hq]
    exact h.first
  · rw [hk,hq]
    exact h.last
  · rw [hd,hbusy]
    exact fun hx => by cases hx
  · rw [hd,hbusy]
    exact iff_of_false (by simp) hcon'
  · exact fun _ _ => hc
  · rw [hd,hbusy]
    exact fun _ => Or.inl rfl
  · intro _ hx
    have hsub := h.kept
    rw [hq] at hx
    rw [hx,←hk] at hsub
    have hnil := List.sublist_nil.mp hsub
    exact hc (List.append_eq_nil_iff.mp hnil).1

theorem notifyInv_step (h : NotifyInv s) (ht : Turn s t a) : NotifyInv t := by
  cases ht with
  | publish notify notification hp hsame hstart hqueued _ _ =>
    cases notification with
    | none =>
      obtain ⟨hcur,hqueue⟩ := hp.silent rfl
      have hs : t.starting=s.starting := hstart
      apply h.frame
      · rw [hqueued]
        simp
      · exact hsame.claimed
      · exact hp.revision
      · exact hcur
      · exact hqueue
      · exact hp.draining
      · rw [hsame.consumer]
      · exact hs.symm.le
      · rw [hs]
        exact id
    | some n =>
      obtain ⟨hrev,hlt,_,_,henq⟩ := hp.loud n rfl
      exact h.enqueue henq (hrev ▸ hlt) hrev.le hp.draining hqueued hsame.claimed hsame.consumer hstart
  | watch hm hsame hstart hqueued _ =>
    apply h.frame hqueued hsame.claimed
    · rw [hm]
    · rw [hm]
    · rw [hm]
    · rw [hm]
    · rw [hsame.consumer]
    · exact hstart.symm.le
    · rw [hstart]
      exact id
  | subscribe hrest =>
    subst t
    exact h.frame rfl rfl le_rfl rfl rfl rfl Iff.rfl le_rfl id
  | unsubscribe callback hrest =>
    subst t
    exact h.frame rfl rfl le_rfl rfl rfl rfl Iff.rfl le_rfl id
  | running hpos hdraining hrest =>
    subst t
    constructor
    · exact h.ordered
    · exact h.bounded
    · exact h.kept
    · exact h.first
    · exact h.last
    · exact h.free
    · exact h.idle
    · exact h.begun
    · exact fun _ => Or.inl hdraining
    · exact fun _ => h.heard hpos
  | start hpos hdraining hrest =>
    subst t
    constructor
    · exact h.ordered
    · exact h.bounded
    · exact h.kept
    · exact h.first
    · exact h.last
    · exact fun hx => by cases hx
    · exact iff_of_false (by simp) (by simp)
    · intro _ hcur
      have hnone := h.free hdraining hcur
      have hempty : waiting s.manager=[] := by
        have hcur' : s.manager.notificationCurrent=none := hcur
        simp [waiting,pendingNotifications,hcur',hnone]
      have hfirst := h.first
      rw [ConfigSystem.kept,hempty,List.append_nil] at hfirst
      intro hx
      have hclaimed : s.claimed=[] := hx
      rw [hclaimed] at hfirst
      exact h.heard hpos (List.head?_eq_none_iff.mp hfirst.symm)
    · exact fun _ => Or.inl rfl
    · exact fun _ => h.heard hpos
  | claimCurrent n hnext hcur hrest =>
    subst t
    refine h.claim rfl ?_ rfl rfl hnext (by simp) (by simp)
    simp [ConfigSystem.kept,waiting,pendingNotifications,hcur]
  | claimQueue n hnext hcur hqueue hrest =>
    subst t
    refine h.claim rfl ?_ rfl rfl hnext (by simp) (by simp)
    simp [ConfigSystem.kept,waiting,pendingNotifications,hcur,hqueue]
  | drain hnext hcur hqueue hrest =>
    subst t
    have hempty : waiting s.manager=[] := by simp [waiting,pendingNotifications,hcur,hqueue]
    constructor
    · exact h.ordered
    · exact h.bounded
    · exact h.kept
    · exact h.first
    · exact h.last
    · exact fun _ _ => hqueue
    · exact iff_of_true rfl rfl
    · exact fun hx => by cases hx
    · exact fun hx => absurd hempty hx
    · exact h.heard
  | call n callback left hd hrest =>
    subst t
    have hbusy : s.consumer≠.idle := by simp [hd]
    exact h.frame rfl rfl le_rfl rfl rfl rfl (iff_of_false (by simp) hbusy) le_rfl id
  | complete n hd hrest =>
    subst t
    have hbusy : s.consumer≠.idle := by simp [hd]
    exact h.frame rfl rfl le_rfl rfl rfl rfl (iff_of_false (by simp) hbusy) le_rfl id

end XiaoQing.Settings
