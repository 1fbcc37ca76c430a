import XiaoQing.Settings.ConfigRun

set_option linter.unusedSectionVars false

namespace XiaoQing.Settings

open ConfigManager

variable {V : Type} [DecidableEq V] [EmptyCollection V] {m m' : ConfigManager V}
  {configRead secretsRead : SourceRead V} {version confirmed : Signature} {known : Signature → Prop}

structure Live (m : ConfigManager V) (version : Signature) : Prop where
  secrets : m.secrets=validValue m.secretsSource ∅
  config : m.configSource.status=.valid → m.configSource.value=some m.config
  version : m.configSource.status=.valid → version=m.configSource.signature

structure Pairing (m : ConfigManager V) (confirmed : Signature) (known : Signature → Prop) :
    Prop where
  secrets : m.secretsSource.status=.valid → m.secretsSource.signature=m.pairedSecretsSignature
  config : m.secretsSource.status=.valid → m.configSource.status=.valid →
    m.configSource.signature=m.pairedConfigSignature
  known : m.pairedSecretsSignature.status=.valid → known m.pairedSecretsSignature
  baseline : m.pairedSecretsSignature.status=.valid → m.pairedConfigSignature.status=.valid →
    m.pairedConfigSignature=confirmed

def Trusted (m : ConfigManager V) (version confirmed : Signature) : Prop :=
  m.secrets≠∅ → version=confirmed

abbrev versionAfter (m : ConfigManager V) (version : Signature) : Signature :=
  if m.configSource.status=.valid then m.configSource.signature else version

structure SameSources (m m' : ConfigManager V) : Prop where
  config : m'.config=m.config
  secrets : m'.secrets=m.secrets
  configSource : m'.configSource=m.configSource
  secretsSource : m'.secretsSource=m.secretsSource
  pairedConfig : m'.pairedConfigSignature=m.pairedConfigSignature
  pairedSecrets : m'.pairedSecretsSignature=m.pairedSecretsSignature

theorem SameSources.trans {m'' : ConfigManager V} (h : SameSources m m') (h' : SameSources m' m'') :
    SameSources m m'' := by
  constructor
  · exact h'.config.trans h.config
  · exact h'.secrets.trans h.secrets
  · exact h'.configSource.trans h.configSource
  · exact h'.secretsSource.trans h.secretsSource
  · exact h'.pairedConfig.trans h.pairedConfig
  · exact h'.pairedSecrets.trans h.pairedSecrets

theorem Live.frame (h : Live m version) (hs : SameSources m m') : Live m' version := by
  apply Live.mk
  · rw [hs.secrets,hs.secretsSource]
    exact h.secrets
  · rw [hs.configSource,hs.config]
    exact h.config
  · rw [hs.configSource]
    exact h.version

theorem Live.after (h : Live m version) : versionAfter m version=version := by
  simp only [versionAfter]
  split
  · rename_i hv
    exact (h.version hv).symm
  · exact Eq.refl version

theorem Pairing.frame (h : Pairing m confirmed known) (hs : SameSources m m') :
    Pairing m' confirmed known := by
  apply Pairing.mk
  · rw [hs.secretsSource,hs.pairedSecrets]
    exact h.secrets
  · rw [hs.secretsSource,hs.configSource,hs.pairedConfig]
    exact h.config
  · rw [hs.pairedSecrets]
    exact h.known
  · rw [hs.pairedSecrets,hs.pairedConfig]
    exact h.baseline

theorem Trusted.frame (h : Trusted m version confirmed) (hs : SameSources m m') :
    Trusted m' version confirmed := by
  rw [Trusted,hs.secrets]
  exact h

/-! Publication -/

structure Published (m m' : ConfigManager V) (configRead secretsRead : SourceRead V) : Prop where
  config : m'.config=validValue configRead m.config
  secrets : m'.secrets=validValue secretsRead ∅
  configSource : m'.configSource=configRead
  secretsSource : m'.secretsSource=secretsRead

theorem validValue_of_valid {r : SourceRead V} (h : r.status=.valid) (v : V) :
    r.value=some (validValue r v) := by
  obtain ⟨x,hx⟩ := Option.isSome_iff_exists.mp (r.wellFormed.mpr h)
  simp [validValue,h,hx]

theorem validValue_of_not_valid {r : SourceRead V} (h : r.status≠.valid) (v : V) :
    validValue r v=v := by
  simp only [validValue]
  split
  · rename_i hv _
    exact absurd hv h
  · exact Eq.refl v

theorem Published.live (h : Published m m' configRead secretsRead) (version : Signature) :
    Live m' (versionAfter m' version) := by
  apply Live.mk
  · rw [h.secrets,h.secretsSource]
  · intro hv
    rw [h.configSource] at hv ⊢
    rw [h.config]
    exact validValue_of_valid hv m.config
  · intro hv
    exact if_pos hv

theorem Published.source (h : Published m m' configRead secretsRead) (hne : m'.secrets≠∅) :
    secretsRead.status=.valid ∧ secretsRead.value≠some ∅ := by
  rw [h.secrets] at hne
  by_cases hv : secretsRead.status=.valid
  · refine ⟨hv,fun hx => hne ?_⟩
    have hval := validValue_of_valid hv ∅
    rw [hx] at hval
    exact (Option.some.inj hval).symm
  · exact absurd (validValue_of_not_valid hv ∅) hne

theorem enqueue_same (m : ConfigManager V) (snapshot : ConfigSnapshot V) :
    SameSources m (m.enqueueNotificationLocked snapshot).1 := by
  simp only [enqueueNotificationLocked]
  split
  · exact ⟨rfl,rfl,rfl,rfl,rfl,rfl⟩
  · exact ⟨rfl,rfl,rfl,rfl,rfl,rfl⟩

theorem apply_published (m : ConfigManager V) (configRead secretsRead : SourceRead V)
    (force bump notify : Bool) :
    let m' := (m.applySourceReadsLocked configRead secretsRead force bump notify).1
    Published m m' configRead secretsRead ∧
      m'.pairedConfigSignature=m.pairedConfigSignature ∧
      m'.pairedSecretsSignature=m.pairedSecretsSignature := by
  simp only [applySourceReadsLocked]
  split
  · rename_i hsame
    simp only [not_or,not_not] at hsame
    obtain ⟨_,_,hconfig,hsecrets⟩ := hsame
    exact ⟨⟨hconfig.symm,hsecrets.symm,rfl,rfl⟩,rfl,rfl⟩
  · split
    · have hs := enqueue_same (m.installSourceReads configRead secretsRead bump)
        (m.installSourceReads configRead secretsRead bump).snapshotLocked
      exact ⟨⟨hs.config,hs.secrets,hs.configSource,hs.secretsSource⟩,hs.pairedConfig,hs.pairedSecrets⟩
    · exact ⟨⟨rfl,rfl,rfl,rfl⟩,rfl,rfl⟩

theorem clear_same (m : ConfigManager V) (bump : Bool) :
    SameSources m (m.clearPendingSourcesLocked bump) := ⟨rfl,rfl,rfl,rfl,rfl,rfl⟩

theorem notice_same (m : ConfigManager V) : SameSources m m.pendingSecretsNoticeLocked.1 := by
  simp only [pendingSecretsNoticeLocked]
  split
  · exact ⟨rfl,rfl,rfl,rfl,rfl,rfl⟩
  · split
    · split
      · exact ⟨rfl,rfl,rfl,rfl,rfl,rfl⟩
      · exact ⟨rfl,rfl,rfl,rfl,rfl,rfl⟩
    · exact ⟨rfl,rfl,rfl,rfl,rfl,rfl⟩

theorem stage_same (m : ConfigManager V) (configRead secretsRead : SourceRead V) :
    SameSources m (m.stageUnconfirmedSecretChangeLocked configRead secretsRead).1 := by
  simp only [stageUnconfirmedSecretChangeLocked]
  split
  · exact ⟨rfl,rfl,rfl,rfl,rfl,rfl⟩
  · exact ⟨rfl,rfl,rfl,rfl,rfl,rfl⟩

theorem Pairing.apply (h : Pairing m confirmed known) (force bump notify : Bool)
    (hsecrets : secretsRead.status=.valid → secretsRead.signature=m.pairedSecretsSignature ∧
      (configRead.status=.valid → configRead.signature=m.pairedConfigSignature)) :
    Pairing (m.applySourceReadsLocked configRead secretsRead force bump notify).1 confirmed known := by
  obtain ⟨hp,hpc,hps⟩ := apply_published m configRead secretsRead force bump notify
  apply Pairing.mk
  · rw [hp.secretsSource,hps]
    exact fun hv => (hsecrets hv).1
  · rw [hp.secretsSource,hp.configSource,hpc]
    exact fun hv => (hsecrets hv).2
  · rw [hps]
    exact h.known
  · rw [hps,hpc]
    exact h.baseline

theorem pairing_mark
    (hs : m.secretsSource.status=.valid → m.secretsSource.signature=secretsRead.signature)
    (hc : m.secretsSource.status=.valid → m.configSource.status=.valid →
      m.configSource.signature=configRead.signature)
    (hk : secretsRead.status=.valid → known secretsRead.signature)
    (hb : secretsRead.status=.valid → configRead.status=.valid → configRead.signature=confirmed) :
    Pairing (m.markSourcesPairedLocked configRead secretsRead) confirmed known :=
  ⟨hs,hc,hk,hb⟩

theorem Live.mark (h : Live m version) :
    Live (m.markSourcesPairedLocked configRead secretsRead) version :=
  ⟨h.secrets,h.config,h.version⟩

/-! The guard -/

theorem guard_of_not_valid (h : secretsRead.status≠.valid) :
    m.guardUnconfirmedSecretsLocked configRead secretsRead=secretsRead := if_pos h

theorem guard_valid
    (h : (m.guardUnconfirmedSecretsLocked configRead secretsRead).status=.valid) :
    m.guardUnconfirmedSecretsLocked configRead secretsRead=secretsRead ∧
      secretsRead.status=.valid ∧ secretsRead.signature=m.pairedSecretsSignature ∧
      (configRead.status=.valid → configRead.signature=m.pairedConfigSignature) := by
  simp only [guardUnconfirmedSecretsLocked] at h ⊢
  split_ifs at h ⊢ with hv hok
  · exact absurd h hv
  · refine ⟨rfl,h,hok.1,fun hc => ?_⟩
    exact hok.2.resolve_left (fun hx => hx hc)

theorem prepare_valid {confirmConfig : Bool}
    (h : (m.prepareConfirmedSecretsLocked configRead secretsRead confirmConfig).1.status=.valid) :
    (m.prepareConfirmedSecretsLocked configRead secretsRead confirmConfig)=(secretsRead,true) ∧
      secretsRead.status=.valid ∧
      (configRead.status=.valid ∧
        (confirmConfig=true ∨ configRead.signature=m.pairedConfigSignature) ∨
      configRead.status≠.valid ∧ secretsRead.signature=m.pairedSecretsSignature) := by
  simp only [prepareConfirmedSecretsLocked] at h ⊢
  split_ifs at h ⊢ with hv hc
  · exact absurd h hv
  · exact ⟨rfl,h,Or.inl hc⟩
  · obtain ⟨hsame,hs,hsig,hcompat⟩ := guard_valid h
    rw [hsame]
    refine ⟨by simp,hs,Or.inr ⟨fun hcv => hc ⟨hcv,Or.inr (hcompat hcv)⟩,hsig⟩⟩

theorem prepare_paired {confirmConfig : Bool}
    (h : (m.prepareConfirmedSecretsLocked configRead secretsRead confirmConfig).2=true) :
    (m.prepareConfirmedSecretsLocked configRead secretsRead confirmConfig).1=secretsRead := by
  simp only [prepareConfirmedSecretsLocked] at h ⊢
  split_ifs at h ⊢
  · rfl
  · rfl
  · simpa using h

theorem prepare_unpaired
    (h : (m.prepareConfirmedSecretsLocked configRead secretsRead true).2=false) :
    (m.prepareConfirmedSecretsLocked configRead secretsRead true).1.status≠.valid ∧
      configRead.status≠.valid := by
  constructor
  · intro hv
    rw [(prepare_valid hv).1] at h
    cases h
  · intro hc
    simp only [prepareConfirmedSecretsLocked] at h
    split_ifs at h with hv hcan
    exact hcan ⟨hc,Or.inl trivial⟩

end XiaoQing.Settings
