import XiaoQing.Settings.ConfigRun

set_option linter.unusedSectionVars false

namespace XiaoQing.Settings

open ConfigManager

variable {V : Type} [DecidableEq V] [EmptyCollection V] {m m' m'' : ConfigManager V}
  {n : ConfigNotification V}

structure Enqueued (m m' : ConfigManager V) (n : ConfigNotification V) : Prop where
  first : m.notificationCurrent=none → m.notificationDraining=false →
    m'.notificationCurrent=some n ∧ m'.notificationQueue=m.notificationQueue
  later : ¬(m.notificationCurrent=none ∧ m.notificationDraining=false) →
    m'.notificationCurrent=m.notificationCurrent ∧ m'.notificationQueue=some n

structure Publication (m m' : ConfigManager V) (notify : Bool)
    (notification : Option (ConfigNotification V)) : Prop where
  callbacks : m'.callbacks=m.callbacks
  draining : m'.notificationDraining=m.notificationDraining
  revision : m.revision ≤ m'.revision
  generation : m.sourceGeneration ≤ m'.sourceGeneration
  changed : m'.secretsSource.signature≠m.secretsSource.signature →
    m.sourceGeneration < m'.sourceGeneration
  silent : notification=none →
    m'.notificationCurrent=m.notificationCurrent ∧ m'.notificationQueue=m.notificationQueue
  heard : notify=true → notification=none → m'.revision=m.revision
  loud : ∀n,notification=some n → n.revision=m'.revision ∧ m.revision < m'.revision ∧
    n.snapshot.revision=n.revision ∧ n.callbacks=m.callbacks ∧ Enqueued m m' n

structure Quiet (m m' : ConfigManager V) : Prop where
  callbacks : m'.callbacks=m.callbacks
  draining : m'.notificationDraining=m.notificationDraining
  revision : m'.revision=m.revision
  generation : m.sourceGeneration ≤ m'.sourceGeneration
  source : m'.secretsSource=m.secretsSource
  current : m'.notificationCurrent=m.notificationCurrent
  queue : m'.notificationQueue=m.notificationQueue

theorem Quiet.publication (h : Quiet m m') (notify : Bool) : Publication m m' notify none := by
  constructor
  · exact h.callbacks
  · exact h.draining
  · exact h.revision.symm.le
  · exact h.generation
  · intro hne
    exact absurd (congrArg SourceRead.signature h.source) hne
  · exact fun _ => ⟨h.current,h.queue⟩
  · exact fun _ _ => h.revision
  · intro n hn
    cases hn

theorem Quiet.trans (h : Quiet m m') (h' : Quiet m' m'') : Quiet m m'' := by
  constructor
  · exact h'.callbacks.trans h.callbacks
  · exact h'.draining.trans h.draining
  · exact h'.revision.trans h.revision
  · exact h.generation.trans h'.generation
  · exact h'.source.trans h.source
  · exact h'.current.trans h.current
  · exact h'.queue.trans h.queue

variable {notification : Option (ConfigNotification V)}

theorem Publication.after {notify : Bool}
    (h : Publication m' m'' notify notification) (hq : Quiet m m') :
    Publication m m'' notify notification := by
  constructor
  · exact h.callbacks.trans hq.callbacks
  · exact h.draining.trans hq.draining
  · rw [←hq.revision]
    exact h.revision
  · exact hq.generation.trans h.generation
  · rw [←hq.source]
    exact fun hne => Nat.lt_of_le_of_lt hq.generation (h.changed hne)
  · rw [←hq.current,←hq.queue]
    exact h.silent
  · rw [←hq.revision]
    exact h.heard
  · intro n hn
    obtain ⟨hrev,hlt,hsnap,hcb,henq⟩ := h.loud n hn
    refine ⟨hrev,hq.revision ▸ hlt,hsnap,hcb.trans hq.callbacks,?_⟩
    constructor
    · rw [←hq.current,←hq.draining,←hq.queue]
      exact henq.first
    · rw [←hq.current,←hq.draining]
      exact henq.later

theorem Publication.before {notify : Bool}
    (h : Publication m m' notify notification) (hq : Quiet m' m'') :
    Publication m m'' notify notification := by
  constructor
  · exact hq.callbacks.trans h.callbacks
  · exact hq.draining.trans h.draining
  · rw [hq.revision]
    exact h.revision
  · exact h.generation.trans hq.generation
  · rw [hq.source]
    exact fun hne => Nat.lt_of_lt_of_le (h.changed hne) hq.generation
  · rw [hq.current,hq.queue]
    exact h.silent
  · rw [hq.revision]
    exact h.heard
  · intro n hn
    obtain ⟨hrev,hlt,hsnap,hcb,henq⟩ := h.loud n hn
    rw [hq.revision]
    refine ⟨hrev,hlt,hsnap,hcb,?_⟩
    constructor
    · rw [hq.current,hq.queue]
      exact henq.first
    · rw [hq.current,hq.queue]
      exact henq.later

theorem quiet_refl (m : ConfigManager V) : Quiet m m := ⟨rfl,rfl,rfl,le_rfl,rfl,rfl,rfl⟩

theorem le_bump (b : Bool) (k : Nat) : k ≤ if b then k+1 else k := by
  cases b with
  | true => exact Nat.le_succ k
  | false => exact Nat.le_refl k

theorem clear_quiet (m : ConfigManager V) (bump : Bool) : Quiet m (m.clearPendingSourcesLocked bump) := by
  exact ⟨rfl,rfl,rfl,le_bump _ _,rfl,rfl,rfl⟩

theorem stage_quiet (m : ConfigManager V) (configRead secretsRead : SourceRead V) :
    Quiet m (m.stageUnconfirmedSecretChangeLocked configRead secretsRead).1 := by
  simp only [stageUnconfirmedSecretChangeLocked]
  split
  · exact quiet_refl m
  · exact ⟨rfl,rfl,rfl,le_bump _ _,rfl,rfl,rfl⟩

theorem notice_quiet (m : ConfigManager V) : Quiet m m.pendingSecretsNoticeLocked.1 := by
  simp only [pendingSecretsNoticeLocked]
  split
  · exact quiet_refl m
  · split
    · split
      · exact quiet_refl m
      · exact ⟨rfl,rfl,rfl,le_rfl,rfl,rfl,rfl⟩
    · exact quiet_refl m

theorem mark_quiet (m : ConfigManager V) (configRead secretsRead : SourceRead V) :
    Quiet m (m.markSourcesPairedLocked configRead secretsRead) := ⟨rfl,rfl,rfl,le_rfl,rfl,rfl,rfl⟩

theorem enqueue_enqueued (m : ConfigManager V) (snapshot : ConfigSnapshot V) :
    Enqueued m (m.enqueueNotificationLocked snapshot).1 (m.enqueueNotificationLocked snapshot).2 := by
  simp only [enqueueNotificationLocked]
  split
  · rename_i hfree
    exact ⟨fun _ _ => ⟨rfl,rfl⟩,fun hno => absurd hfree hno⟩
  · rename_i hbusy
    exact ⟨fun hc hd => absurd ⟨hc,hd⟩ hbusy,fun _ => ⟨rfl,rfl⟩⟩

theorem enqueue_rest (m : ConfigManager V) (snapshot : ConfigSnapshot V) :
    let p := m.enqueueNotificationLocked snapshot
    p.1.callbacks=m.callbacks ∧ p.1.notificationDraining=m.notificationDraining ∧
      p.1.revision=m.revision ∧ p.1.sourceGeneration=m.sourceGeneration ∧
      p.2.revision=snapshot.revision ∧ p.2.snapshot=snapshot ∧ p.2.callbacks=m.callbacks := by
  simp only [enqueueNotificationLocked]
  split
  · exact ⟨rfl,rfl,rfl,rfl,rfl,rfl,rfl⟩
  · exact ⟨rfl,rfl,rfl,rfl,rfl,rfl,rfl⟩

theorem apply_publication (m : ConfigManager V) (configRead secretsRead : SourceRead V)
    (force notify : Bool) :
    let p := m.applySourceReadsLocked configRead secretsRead force true notify
    Publication m p.1 notify p.2.1 ∧ (force=true → m.sourceGeneration < p.1.sourceGeneration) := by
  simp only [applySourceReadsLocked]
  split
  · rename_i hsame
    simp only [not_or,not_not] at hsame
    obtain ⟨hforce,⟨_,hsecrets⟩,_⟩ := hsame
    refine ⟨⟨rfl,rfl,le_rfl,le_rfl,fun hne => absurd hsecrets hne,fun _ => ⟨rfl,rfl⟩,fun _ _ => rfl,?_⟩,
      fun hf => absurd hf hforce⟩
    intro n hn
    cases hn
  · generalize hpublished : m.installSourceReads configRead secretsRead true=published
    have hlt : m.sourceGeneration < published.sourceGeneration := by
      rw [←hpublished]
      exact Nat.lt_succ_self _
    have hrev : published.revision=m.revision+1 := by
      rw [←hpublished]
      rfl
    have hquiet : published.callbacks=m.callbacks ∧
        published.notificationDraining=m.notificationDraining ∧
        published.notificationCurrent=m.notificationCurrent ∧
        published.notificationQueue=m.notificationQueue := by
      rw [←hpublished]
      exact ⟨rfl,rfl,rfl,rfl⟩
    obtain ⟨hcb,hdr,hcur,hqueue⟩ := hquiet
    split
    · obtain ⟨hcb',hdr',hrev',hgen',hnrev,hsnap,hncb⟩ := enqueue_rest published published.snapshotLocked
      have henq := enqueue_enqueued published published.snapshotLocked
      generalize published.enqueueNotificationLocked published.snapshotLocked=enqueued at *
      obtain ⟨m',n⟩ := enqueued
      have hrevision : m.revision < m'.revision := by
        simp only at hrev'
        omega
      have hgeneration : m.sourceGeneration < m'.sourceGeneration := by
        simp only at hgen'
        omega
      refine ⟨⟨hcb'.trans hcb,hdr'.trans hdr,hrevision.le,hgeneration.le,fun _ => hgeneration,?_,?_,?_⟩,
        fun _ => hgeneration⟩
      · intro hn
        cases hn
      · intro _ hn
        cases hn
      · intro n hn
        cases hn
        refine ⟨hnrev.trans hrev'.symm,hrevision,?_,hncb.trans hcb,?_⟩
        · rw [hsnap]
          exact hnrev.symm
        · constructor
          · rw [←hcur,←hdr,←hqueue]
            exact henq.first
          · rw [←hcur,←hdr]
            exact henq.later
    · rename_i hsilent
      have hrevision : m.revision≤published.revision := by omega
      refine ⟨⟨hcb,hdr,hrevision,hlt.le,fun _ => hlt,fun _ => ⟨hcur,hqueue⟩,
        fun hnotify => absurd hnotify hsilent,?_⟩,fun _ => hlt⟩
      intro n hn
      cases hn

theorem reconcile_publication (m : ConfigManager V) (secretsRead : SourceRead V) :
    Publication m (m.reconcileSecrets secretsRead).1 true (m.reconcileSecrets secretsRead).2 := by
  simp only [reconcileSecrets]
  split
  · exact (stage_quiet m m.configSource secretsRead).publication true
  · exact (apply_publication _ _ _ false true).1.after (clear_quiet m true)

theorem mark_if_publication {notify : Bool} {p : Prop}
    [Decidable p] (h : Publication m m' notify notification) (configRead secretsRead : SourceRead V) :
    Publication m (if p then m'.markSourcesPairedLocked configRead secretsRead else m') notify
      notification := by
  split
  · exact h.before (mark_quiet m' configRead secretsRead)
  · exact h

theorem reload_publication (m : ConfigManager V) (read : SourcePair V) (notify : Bool) :
    let p := m.loadSourcesLocked read true notify
    Publication m p.1 notify p.2 ∧ m.sourceGeneration < p.1.sourceGeneration := by
  simp only [loadSourcesLocked]
  obtain ⟨hp,hlt⟩ := apply_publication (m.clearPendingSourcesLocked true) read.1
    (m.prepareConfirmedSecretsLocked read.1 read.2 true).1 true notify
  have hquiet := clear_quiet m true
  have hless := Nat.lt_of_le_of_lt hquiet.generation (hlt rfl)
  split
  · exact ⟨(hp.after hquiet).before (mark_quiet _ _ _),hless⟩
  · exact ⟨(hp.after hquiet).before ⟨rfl,rfl,rfl,le_rfl,rfl,rfl,rfl⟩,hless⟩

theorem commit_publication (m : ConfigManager V) (current : SourceRead V) (mutation : Mutation V) :
    Publication m (m.commitSecretsMutation current mutation).1 true
      (m.commitSecretsMutation current mutation).2.1 := by
  have hcommit (committed : SourceRead V) := mark_if_publication
    (p := (m.prepareConfirmedSecretsLocked m.configSource committed false).2=true)
    (apply_publication m m.configSource
      (m.prepareConfirmedSecretsLocked m.configSource committed false).1 false true).1
    (m.applySourceReadsLocked m.configSource
      (m.prepareConfirmedSecretsLocked m.configSource committed false).1 false true true).1.configSource
    committed
  simp only [commitSecretsMutation]
  split
  · apply Publication.before _ (mark_quiet _ _ _)
    exact (apply_publication _ _ _ false true).1.after (clear_quiet m true)
  · split
    · exact reconcile_publication m current
    · split
      · exact (hcommit _).before (clear_quiet _ true)
      · exact (hcommit _).before (clear_quiet _ true)
      · exact mark_if_publication (reconcile_publication m _) _ _

theorem watch_publication (m : ConfigManager V) (final : SourcePair V) :
    Publication m (m.watchPublish final).1 true (m.watchPublish final).2.1 := by
  simp only [watchPublish]
  split
  · exact ((stage_quiet m final.1 final.2).trans (notice_quiet _)).publication true
  · apply mark_if_publication
    exact (apply_publication _ _ _ false true).1.after (clear_quiet m true)

theorem failClosed_publication (m : ConfigManager V) (kind message : String) :
    Publication m (m.failClosedWatchError kind message).1 true
      (m.failClosedWatchError kind message).2 := by
  simp only [failClosedWatchError]
  exact (apply_publication _ _ _ false true).1.after (clear_quiet m true)

end XiaoQing.Settings
