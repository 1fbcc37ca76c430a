import XiaoQing.Settings.Pairing

set_option linter.unusedSectionVars false

namespace XiaoQing.Settings

open Framework ConfigManager

variable {V : Type} [DecidableEq V] [EmptyCollection V] {m m' : ConfigManager V}
  {configRead secretsRead current : SourceRead V} {version confirmed : Signature}
  {known : Signature → Prop} {read final : SourcePair V}

/-- Secrets that the guard lets through beside an unusable configuration, while the live one was
never confirmed. -/
def Restores (m : ConfigManager V) (version confirmed : Signature)
    (configRead secretsRead : SourceRead V) : Prop :=
  configRead.status≠.valid ∧ secretsRead.status=.valid ∧
  secretsRead.signature=m.pairedSecretsSignature ∧ secretsRead.value≠some ∅ ∧ version≠confirmed

theorem Published.trusted (hp : Published m m' configRead secretsRead)
    (h : Pairing m confirmed known) (hr : ¬Restores m version confirmed configRead secretsRead)
    (hguard : secretsRead.status=.valid → secretsRead.signature=m.pairedSecretsSignature ∧
      (configRead.status=.valid → configRead.signature=m.pairedConfigSignature)) :
    Trusted m' (versionAfter m' version) confirmed := by
  intro hne
  obtain ⟨hv,hvalue⟩ := hp.source hne
  obtain ⟨hsig,hcompat⟩ := hguard hv
  simp only [versionAfter,hp.configSource]
  split
  · rename_i hc
    have hpaired : m.pairedSecretsSignature.status=.valid := by
      rw [←hsig]
      exact hv
    have hconfig := hcompat hc
    rw [hconfig]
    apply h.baseline hpaired
    rw [←hconfig]
    exact hc
  · rename_i hc
    by_contra hversion
    exact hr ⟨hc,hv,hsig,hvalue,hversion⟩

/-! Initial load and reload -/

abbrev confirmedAfter (m : ConfigManager V) (confirmed : Signature) : Signature :=
  if m.configSource.status=.valid then m.configSource.signature else confirmed

theorem load_published (m : ConfigManager V) (read : SourcePair V) (bump notify : Bool) :
    Published m (m.loadSourcesLocked read bump notify).1 read.1
      (m.prepareConfirmedSecretsLocked read.1 read.2 true).1 := by
  simp only [loadSourcesLocked]
  generalize hprep : m.prepareConfirmedSecretsLocked read.1 read.2 true=prepared
  obtain ⟨published,paired⟩ := prepared
  generalize hcleared : (if bump=true then m.clearPendingSourcesLocked true else m)=cleared
  have hsame : SameSources m cleared := by
    rw [←hcleared]
    split
    · exact clear_same m true
    · exact ⟨rfl,rfl,rfl,rfl,rfl,rfl⟩
  obtain ⟨hp,_,_⟩ := apply_published cleared read.1 published true bump notify
  have hlive : Published m (cleared.applySourceReadsLocked read.1 published true bump notify).1 read.1
      published := by
    refine ⟨?_,hp.secrets,hp.configSource,hp.secretsSource⟩
    rw [hp.config,hsame.config]
  split
  · exact ⟨hlive.config,hlive.secrets,hlive.configSource,hlive.secretsSource⟩
  · exact ⟨hlive.config,hlive.secrets,hlive.configSource,hlive.secretsSource⟩

theorem load_pair (m : ConfigManager V) (read : SourcePair V) (bump notify : Bool) :
    let m' := (m.loadSourcesLocked read bump notify).1
    m'.pairedConfigSignature=read.1.signature ∧
      m'.pairedSecretsSignature=
        if (m.prepareConfirmedSecretsLocked read.1 read.2 true).2 then read.2.signature
        else m.pairedSecretsSignature := by
  simp only [loadSourcesLocked]
  generalize hprep : m.prepareConfirmedSecretsLocked read.1 read.2 true=prepared
  obtain ⟨published,paired⟩ := prepared
  generalize hcleared : (if bump=true then m.clearPendingSourcesLocked true else m)=cleared
  have hsame : SameSources m cleared := by
    rw [←hcleared]
    split
    · exact clear_same m true
    · exact ⟨rfl,rfl,rfl,rfl,rfl,rfl⟩
  obtain ⟨_,_,hps⟩ := apply_published cleared read.1 published true bump notify
  cases paired with
  | true => exact ⟨rfl,rfl⟩
  | false => exact ⟨rfl,hps.trans hsame.pairedSecrets⟩

theorem Pairing.load (h : Pairing m confirmed known) (known' : Signature → Prop)
    (read : SourcePair V) (bump notify : Bool) (hmono : ∀x,known x → known' x)
    (hnew : (m.loadSourcesLocked read bump notify).1.secretsSource.status=.valid →
      known' (m.loadSourcesLocked read bump notify).1.secretsSource.signature) :
    Pairing (m.loadSourcesLocked read bump notify).1
      (confirmedAfter (m.loadSourcesLocked read bump notify).1 confirmed) known' := by
  have hp := load_published m read bump notify
  obtain ⟨hpc,hps⟩ := load_pair m read bump notify
  simp only [confirmedAfter,hp.configSource,hp.secretsSource] at hnew ⊢
  cases hprep : (m.prepareConfirmedSecretsLocked read.1 read.2 true).2 with
  | true =>
    rw [prepare_paired hprep] at hp hnew
    rw [hprep,if_pos rfl] at hps
    apply Pairing.mk
    · rw [hp.secretsSource,hps]
      exact fun _ => Eq.refl _
    · rw [hp.configSource,hpc]
      exact fun _ _ => Eq.refl _
    · rw [hps]
      exact hnew
    · rw [hps,hpc]
      intro _ hc
      exact (if_pos hc).symm
  | false =>
    obtain ⟨hheld,hunusable⟩ := prepare_unpaired hprep
    rw [hprep,if_neg (by simp)] at hps
    apply Pairing.mk
    · rw [hp.secretsSource]
      exact fun hv => absurd hv hheld
    · rw [hp.secretsSource]
      exact fun hv => absurd hv hheld
    · rw [hps]
      exact fun hv => hmono _ (h.known hv)
    · rw [hpc]
      exact fun _ hc => absurd hc hunusable

theorem load_trusted (m : ConfigManager V) (version confirmed : Signature) (read : SourcePair V)
    (bump notify : Bool) (hr : ¬Restores m version confirmed read.1 read.2) :
    let m' := (m.loadSourcesLocked read bump notify).1
    Trusted m' (versionAfter m' version) (confirmedAfter m' confirmed) := by
  intro m' hne
  have hp := load_published m read bump notify
  obtain ⟨hv,hvalue⟩ := hp.source hne
  obtain ⟨hsame,hsv,hwhy⟩ := prepare_valid hv
  rw [hsame] at hvalue
  show (if m'.configSource.status=.valid then m'.configSource.signature else version)=
    if m'.configSource.status=.valid then m'.configSource.signature else confirmed
  have hsource : m'.configSource=read.1 := hp.configSource
  rw [hsource]
  split
  · exact Eq.refl _
  · rename_i hc
    rcases hwhy with ⟨hcv,_⟩ | ⟨_,hsig⟩
    · exact absurd hcv hc
    · by_contra hversion
      exact hr ⟨hc,hsv,hsig,hvalue,hversion⟩

/-! The guarded publications -/

structure Guarded (m m' : ConfigManager V) (secretsRead : SourceRead V) : Prop where
  pairing : ∀confirmed known,Pairing m confirmed known → Pairing m' confirmed known
  live : ∀version,Live m version → Live m' (versionAfter m' version)
  trusted : ∀version confirmed known,Live m version → Pairing m confirmed known →
    Trusted m version confirmed → ¬Restores m version confirmed m'.configSource secretsRead →
    Trusted m' (versionAfter m' version) confirmed

theorem SameSources.guarded (h : SameSources m m') (secretsRead : SourceRead V) :
    Guarded m m' secretsRead := by
  constructor
  · exact fun _ _ hp => hp.frame h
  · intro version hl
    have hl' := hl.frame h
    rw [hl'.after]
    exact hl'
  · intro version _ _ hl _ ht _
    rw [(hl.frame h).after]
    exact ht.frame h

theorem guard_apply (m : ConfigManager V) (configRead secretsRead : SourceRead V) :
    Guarded m ((m.clearPendingSourcesLocked true).applySourceReadsLocked configRead
      ((m.clearPendingSourcesLocked true).guardUnconfirmedSecretsLocked configRead secretsRead)
      false true true).1 secretsRead := by
  set cleared := m.clearPendingSourcesLocked true with hcleared
  have hsame : SameSources m cleared := clear_same m true
  obtain ⟨hp,_,_⟩ := apply_published cleared configRead
    (cleared.guardUnconfirmedSecretsLocked configRead secretsRead) false true true
  have hguard (hv : (cleared.guardUnconfirmedSecretsLocked configRead secretsRead).status=.valid) :
      (cleared.guardUnconfirmedSecretsLocked configRead secretsRead).signature=
        cleared.pairedSecretsSignature ∧
      (configRead.status=.valid → configRead.signature=cleared.pairedConfigSignature) := by
    obtain ⟨heq,_,hsig,hcompat⟩ := guard_valid hv
    rw [heq]
    exact ⟨hsig,hcompat⟩
  constructor
  · intro confirmed known h
    exact (h.frame hsame).apply false true true hguard
  · intro version _
    exact hp.live version
  · intro version confirmed known _ h _ hr
    apply hp.trusted (h.frame hsame) _ hguard
    rintro ⟨hc,hv,hsig,hvalue,hversion⟩
    obtain ⟨heq,_,_,_⟩ := guard_valid hv
    rw [heq] at hsig hvalue hv
    rw [hp.configSource] at hr
    exact hr ⟨hc,hv,hsig,hvalue,hversion⟩

theorem reconcile_guarded (m : ConfigManager V) (secretsRead : SourceRead V) :
    Guarded m (m.reconcileSecrets secretsRead).1 secretsRead := by
  simp only [reconcileSecrets]
  split
  · exact (stage_same m m.configSource secretsRead).guarded secretsRead
  · exact guard_apply m m.configSource secretsRead

theorem reconcile_source (m : ConfigManager V) (secretsRead : SourceRead V) :
    (m.reconcileSecrets secretsRead).1.configSource=m.configSource ∧
      (secretsRead.status≠.valid →
        (m.reconcileSecrets secretsRead).1.secretsSource=secretsRead) := by
  simp only [reconcileSecrets]
  split
  · rename_i hstaged
    refine ⟨(stage_same m m.configSource secretsRead).configSource,fun hv => ?_⟩
    simp only [stageUnconfirmedSecretChangeLocked] at hstaged
    split_ifs at hstaged with hno
    exact absurd (not_not.mp (not_or.mp hno).2).2.1 hv
  · obtain ⟨hp,_,_⟩ := apply_published (m.clearPendingSourcesLocked true) m.configSource
      ((m.clearPendingSourcesLocked true).guardUnconfirmedSecretsLocked m.configSource secretsRead)
      false true true
    refine ⟨hp.configSource,fun hv => ?_⟩
    rw [guard_of_not_valid hv] at hp
    have hg := hp.secretsSource
    rw [guard_of_not_valid hv]
    exact hg

theorem failClosed_guarded (m : ConfigManager V) (kind message : String) :
    ∃unavailable : SourceRead V,unavailable.status≠.valid ∧
      Guarded m (m.failClosedWatchError kind message).1 unavailable := by
  let unavailable : SourceRead V :=
    {status := .unavailable
     etag := "watch-error:"++kind
     error := some ("configuration watcher failed: "++kind++": "++message)}
  have hnot : unavailable.status≠.valid := by simp [unavailable]
  have hg := guard_apply m m.configSource unavailable
  rw [guard_of_not_valid hnot] at hg
  exact ⟨unavailable,hnot,hg⟩

theorem watch_guarded (m : ConfigManager V) (final : SourcePair V) :
    (∀confirmed known,Pairing m confirmed known → Pairing (m.watchPublish final).1 confirmed known) ∧
    (∀version,Live m version →
      Live (m.watchPublish final).1 (versionAfter (m.watchPublish final).1 version)) ∧
    ∀version confirmed known,Live m version → Pairing m confirmed known →
      Trusted m version confirmed → ¬Restores m version confirmed final.1 final.2 →
      Trusted (m.watchPublish final).1 (versionAfter (m.watchPublish final).1 version) confirmed := by
  simp only [watchPublish]
  split
  · have hsame := (stage_same m final.1 final.2).trans (notice_same _)
    have hg := hsame.guarded final.2
    refine ⟨hg.pairing,hg.live,fun version confirmed known hl _ ht _ => ?_⟩
    rw [(hl.frame hsame).after]
    exact ht.frame hsame
  · set cleared := m.clearPendingSourcesLocked true with hcleared
    have hsame : SameSources m cleared := clear_same m true
    have hg := guard_apply m final.1 final.2
    rw [←hcleared] at hg
    obtain ⟨hp,_,_⟩ := apply_published cleared final.1
      (cleared.guardUnconfirmedSecretsLocked final.1 final.2) false true true
    simp only [prepareWatchedSourcesLocked]
    by_cases hv : final.2.status=.valid
    · rw [if_neg (not_not.mpr hv)]
      simp only [decide_eq_true_eq]
      split
      · rename_i hpaired
        obtain ⟨hsource,_,hsig,hcompat⟩ := hpaired
        refine ⟨fun confirmed known h => ?_,fun version hl => (hg.live version hl).mark,
          fun version confirmed known hl h ht hr => ?_⟩
        · apply pairing_mark
          · intro _
            rw [hp.secretsSource,hsource]
          · intro _ _
            rw [hp.configSource]
          · intro _
            rw [hsig]
            apply (h.frame hsame).known
            rw [←hsig]
            exact hv
          · intro _ hc
            have hconfig := hcompat.resolve_left (fun hx => hx hc)
            rw [hconfig]
            apply (h.frame hsame).baseline
            · rw [←hsig]
              exact hv
            · rw [←hconfig]
              exact hc
        · rw [←hp.configSource] at hr
          exact hg.trusted version confirmed known hl h ht hr
      · refine ⟨hg.pairing,hg.live,fun version confirmed known hl h ht hr => ?_⟩
        rw [←hp.configSource] at hr
        exact hg.trusted version confirmed known hl h ht hr
    · rw [if_pos hv]
      rw [guard_of_not_valid hv] at hg hp
      refine ⟨fun confirmed known h => ?_,fun version hl => (hg.live version hl).mark,
        fun version confirmed known hl h ht hr => ?_⟩
      · apply pairing_mark
        · rw [hp.secretsSource]
          exact fun hx => absurd hx hv
        · rw [hp.secretsSource]
          exact fun hx => absurd hx hv
        · exact fun hx => absurd hx hv
        · exact fun hx => absurd hx hv
      · rw [←hp.configSource] at hr
        exact hg.trusted version confirmed known hl h ht hr

/-! Transactions -/

def Mutation.reading (mutation : Mutation V) (current : SourceRead V) : SourceRead V :=
  match mutation with
  | .unchanged => current
  | .written etag value identity =>
    {status := .valid,etag := etag,value := some value,identity := identity,
      wellFormed := SourceRead.valid_wellFormed value}
  | .failed _ observed => observed

/-- What `_commit_secrets_mutation` does with a durable write. -/
def EndsCommit (m m' : ConfigManager V) (committed : SourceRead V) : Prop :=
  let prepared := m.prepareConfirmedSecretsLocked m.configSource committed false
  let applied := (m.applySourceReadsLocked m.configSource prepared.1 false true true).1
  m'=(if prepared.2 then applied.markSourcesPairedLocked applied.configSource committed
    else applied).clearPendingSourcesLocked true

theorem commit_cases (m : ConfigManager V) (current : SourceRead V) (mutation : Mutation V) :
    let m' := (m.commitSecretsMutation current mutation).1
    let failure := (m.commitSecretsMutation current mutation).2.2
    let rejected := ((m.clearPendingSourcesLocked true).applySourceReadsLocked m.configSource current
      false true true).1
    current.status≠.valid ∧ failure≠none ∧
      m'=rejected.markSourcesPairedLocked rejected.configSource current ∨
    current.status=.valid ∧ failure≠none ∧ m'=(m.reconcileSecrets current).1 ∨
    m.secretsSource.status=.valid ∧ failure=none ∧ EndsCommit m m' (mutation.reading current) ∨
    m.secretsSource.status=.valid ∧ failure≠none ∧
      m'=(if (mutation.reading current).status≠.valid
        then (m.reconcileSecrets (mutation.reading current)).1.markSourcesPairedLocked
          (m.reconcileSecrets (mutation.reading current)).1.configSource (mutation.reading current)
        else (m.reconcileSecrets (mutation.reading current)).1) := by
  simp only [commitSecretsMutation]
  split
  · rename_i hbad
    left
    refine ⟨?_,by simp,rfl⟩
    rcases hbad with hbad | hbad
    · exact hbad
    · intro hv
      have hsome := current.wellFormed.mpr hv
      rw [hbad] at hsome
      cases hsome
  · rename_i hgood
    have hvalid : current.status=.valid := by
      by_contra hx
      exact hgood (Or.inl hx)
    right
    split
    · exact Or.inl ⟨hvalid,by simp,rfl⟩
    · rename_i hmatch
      have hsource : m.secretsSource.status=.valid := by
        by_contra hx
        exact hmatch (Or.inl hx)
      right
      cases mutation with
      | unchanged => exact Or.inl ⟨hsource,rfl,rfl⟩
      | written etag value identity => exact Or.inl ⟨hsource,rfl,rfl⟩
      | failed error observed => exact Or.inr ⟨hsource,by simp,rfl⟩

theorem EndsCommit.kept {committed : SourceRead V} (he : EndsCommit m m' committed)
    (h : Pairing m confirmed known) (known' : Signature → Prop) (version : Signature)
    (hsource : m.secretsSource.status=.valid)
    (hmono : ∀x,known x → known' x)
    (hnew : m'.secretsSource.status=.valid → known' m'.secretsSource.signature) :
    Pairing m' confirmed known' ∧ Live m' (versionAfter m' version) ∧
      (¬Restores m version confirmed m.configSource committed →
        Trusted m' (versionAfter m' version) confirmed) := by
  have hpaired : m.pairedSecretsSignature.status=.valid := by
    rw [←h.secrets hsource]
    exact hsource
  generalize hprep : m.prepareConfirmedSecretsLocked m.configSource committed false=prepared at he
  obtain ⟨published,paired⟩ := prepared
  obtain ⟨hp,hpc,hps⟩ := apply_published m m.configSource published false true true
  set applied := (m.applySourceReadsLocked m.configSource published false true true).1 with happlied
  have hsame : SameSources (if paired then applied.markSourcesPairedLocked m.configSource committed
      else applied) m' := by
    have hcleared := clear_same (if paired then
      applied.markSourcesPairedLocked applied.configSource committed else applied) true
    rw [hp.configSource] at hcleared
    rw [he,hprep,hp.configSource]
    exact hcleared
  have hconfig : (m.configSource.status=.valid → m.configSource.signature=m.pairedConfigSignature) →
      m.configSource.status=.valid → m.configSource.signature=confirmed := by
    intro hsig hc
    rw [hsig hc]
    apply h.baseline hpaired
    rw [←hsig hc]
    exact hc
  have hauth (hv : published.status=.valid) : (published,paired)=(committed,true) ∧
      (m.configSource.status=.valid ∧ m.configSource.signature=m.pairedConfigSignature ∨
        m.configSource.status≠.valid ∧ committed.signature=m.pairedSecretsSignature) := by
    have hx : (m.prepareConfirmedSecretsLocked m.configSource committed false).1.status=.valid := by
      rw [hprep]
      exact hv
    obtain ⟨heq,_,hwhy⟩ := prepare_valid hx
    rw [hprep] at heq
    refine ⟨heq,hwhy.imp (fun hc => ⟨hc.1,hc.2.resolve_left (by simp)⟩) id⟩
  have hsources : m'.secretsSource=published ∧ m'.configSource=m.configSource := by
    rw [hsame.secretsSource,hsame.configSource]
    split
    · exact ⟨hp.secretsSource,hp.configSource⟩
    · exact ⟨hp.secretsSource,hp.configSource⟩
  have hpub : Published m m' m.configSource published := by
    refine ⟨?_,?_,hsources.2,hsources.1⟩
    · rw [hsame.config]
      split
      · exact hp.config
      · exact hp.config
    · rw [hsame.secrets]
      split
      · exact hp.secrets
      · exact hp.secrets
  refine ⟨?_,hpub.live version,?_⟩
  · apply Pairing.frame _ hsame
    cases paired with
    | true =>
      have hsame' : published=committed := by
        have hx : (m.prepareConfirmedSecretsLocked m.configSource committed false).1=committed :=
          prepare_paired (by rw [hprep])
        rw [hprep] at hx
        exact hx
      have hsig : committed.status=.valid → m.configSource.status=.valid →
          m.configSource.signature=m.pairedConfigSignature := by
        intro hv hc
        rcases (hauth (hsame' ▸ hv)).2 with ⟨_,hs⟩ | ⟨hno,_⟩
        · exact hs
        · exact absurd hc hno
      rw [hsources.1,hsame'] at hnew
      apply pairing_mark
      · intro _
        rw [hp.secretsSource,hsame']
      · intro _ _
        rw [hp.configSource]
      · exact hnew
      · exact fun hv hc => hconfig (fun _ => hsig hv hc) hc
    | false =>
      have hheld : published.status≠.valid := by
        intro hv
        have hx := (hauth hv).1
        cases hx
      apply Pairing.mk
      · show applied.secretsSource.status=.valid → _
        rw [hp.secretsSource]
        exact fun hv => absurd hv hheld
      · show applied.secretsSource.status=.valid → _
        rw [hp.secretsSource]
        exact fun hv => absurd hv hheld
      · show applied.pairedSecretsSignature.status=.valid → known' applied.pairedSecretsSignature
        rw [hps]
        exact fun hv => hmono _ (h.known hv)
      · show applied.pairedSecretsSignature.status=.valid → applied.pairedConfigSignature.status=.valid →
          applied.pairedConfigSignature=confirmed
        rw [hps,hpc]
        exact h.baseline
  · intro hr hne
    obtain ⟨hv,hvalue⟩ := hpub.source hne
    obtain ⟨heq,hwhy⟩ := hauth hv
    have hpubEq : published=committed := congrArg Prod.fst heq
    simp only [versionAfter,hsources.2]
    split
    · rename_i hc
      rcases hwhy with ⟨_,hs⟩ | ⟨hno,_⟩
      · exact hconfig (fun _ => hs) hc
      · exact absurd hc hno
    · rename_i hc
      rcases hwhy with ⟨hcv,_⟩ | ⟨_,hsig⟩
      · exact absurd hcv hc
      · by_contra hversion
        rw [hpubEq] at hv hvalue
        exact hr ⟨hc,hv,hsig,hvalue,hversion⟩

end XiaoQing.Settings
