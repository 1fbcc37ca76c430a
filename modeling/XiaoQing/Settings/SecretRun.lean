import XiaoQing.Settings.Secrets

set_option linter.unusedSectionVars false

namespace XiaoQing.Settings

open Framework ConfigManager ConfigSystem

variable {V : Type} [DecidableEq V] [EmptyCollection V] {s t : ConfigSystem V} {a : ConfigAct V}

structure SecretInv (s : ConfigSystem V) : Prop where
  live : Live s.manager s.configVersion
  pairing : Pairing s.manager s.confirmedConfig (· ∈ s.confirmedSecrets)

abbrev ConfigSystem.Trusted (s : ConfigSystem V) : Prop :=
  Settings.Trusted s.manager s.configVersion s.confirmedConfig

abbrev ConfigSystem.Restores (s : ConfigSystem V) (configRead secretsRead : SourceRead V) : Prop :=
  Settings.Restores s.manager s.configVersion s.confirmedConfig configRead secretsRead

def ConfigSystem.Publishes (s : ConfigSystem V) (i : Nat) (read : SourcePair V) : Prop :=
  (s.iterations i).generation=s.manager.sourceGeneration ∧
  ∃verified,(s.iterations i).phase=.final verified ∧ signatures verified=signatures read

/-- No step gives the paired secrets back beside an unusable configuration while the live
configuration is not the confirmed one. -/
def Steady (s : ConfigSystem V) : ConfigAct V → Prop
  | .reload token reads _ =>
    ¬s.Restores (readStableSources token reads).1 (readStableSources token reads).2
  | .mutate current mutation =>
    ¬s.Restores s.manager.configSource current ∧
    ¬s.Restores s.manager.configSource (mutation.reading current)
  | .watchRead i read => s.Publishes i read → ¬s.Restores read.1 read.2
  | _ => True

structure StepKeeps (s t : ConfigSystem V) (steady : Prop) : Prop where
  inv : SecretInv t
  trusted : s.Trusted → steady → t.Trusted

variable {steady : Prop}

theorem StepKeeps.frame (h : SecretInv s) (hs : SameSources s.manager t.manager)
    (hv : t.configVersion=s.configVersion) (hc : t.confirmedConfig=s.confirmedConfig)
    (hk : t.confirmedSecrets=s.confirmedSecrets) : StepKeeps s t steady := by
  constructor
  · constructor
    · rw [hv]
      exact h.live.frame hs
    · rw [hc,hk]
      exact h.pairing.frame hs
  · intro ht _
    rw [ConfigSystem.Trusted,hv,hc]
    exact ht.frame hs

variable {m : ConfigManager V}

theorem Guarded.keeps {secretsRead : SourceRead V}
    (hg : Guarded s.manager m secretsRead) (h : SecretInv s) (hm : t.manager=m)
    (hv : t.configVersion=versionAfter m s.configVersion) (hc : t.confirmedConfig=s.confirmedConfig)
    (hk : t.confirmedSecrets=s.confirmedSecrets) :
    StepKeeps s t (¬s.Restores m.configSource secretsRead) := by
  constructor
  · constructor
    · rw [hm,hv]
      exact hg.live _ h.live
    · rw [hm,hc,hk]
      exact hg.pairing _ _ h.pairing
  · intro ht hr
    rw [ConfigSystem.Trusted,hm,hv,hc]
    exact hg.trusted _ _ _ h.live h.pairing ht hr

theorem StepKeeps.weaken {p q : Prop} (h : StepKeeps s t p) (hpq : q → p) : StepKeeps s t q :=
  ⟨h.inv,fun ht hq => h.trusted ht (hpq hq)⟩

theorem confirmLoad_mono {x : Signature} (hx : x∈s.confirmedSecrets) :
    x∈s.confirmLoad.confirmedSecrets := by
  simp only [confirmLoad]
  split
  · exact List.mem_cons_of_mem _ hx
  · exact hx

theorem confirmLoad_new (hv : s.manager.secretsSource.status=.valid) :
    s.manager.secretsSource.signature∈s.confirmLoad.confirmedSecrets := by
  simp only [confirmLoad,if_pos hv]
  exact List.mem_cons_self

theorem confirmCommit_mono {x before : Signature} (hx : x∈s.confirmedSecrets) :
    x∈(s.confirmCommit before).confirmedSecrets := by
  simp only [confirmCommit]
  split
  · exact List.mem_cons_of_mem _ hx
  · exact hx

theorem confirmCommit_new {before : Signature} (hv : s.manager.secretsSource.status=.valid) :
    s.manager.secretsSource.signature∈(s.confirmCommit before).confirmedSecrets := by
  simp only [confirmCommit,if_pos hv]
  exact List.mem_cons_self

theorem reload_keeps (h : SecretInv s) (read : SourcePair V) (notify : Bool) (hm : (s.manager.loadSourcesLocked read true notify).1=m)
    (notification : Option (ConfigNotification V)) (commits : Nat) :
    StepKeeps s {(s.publish m notification).confirmLoad with commits := commits}
      (¬s.Restores read.1 read.2) := by
  have hp := load_published s.manager read true notify
  have hpairing := h.pairing.load (· ∈ (s.publish m notification).confirmLoad.confirmedSecrets)
    read true notify
  have htrusted := load_trusted s.manager s.configVersion s.confirmedConfig read true notify
  simp only [hm] at hp hpairing htrusted
  constructor
  · constructor
    · exact hp.live s.configVersion
    · apply hpairing
      · exact fun x hx => confirmLoad_mono hx
      · exact fun hv => confirmLoad_new (s := s.publish m notification) hv
  · exact fun _ hr => htrusted hr

theorem marked_keeps {base : ConfigManager V} {read : SourceRead V}
    (hno : read.status≠.valid) (hlive : Live base (versionAfter base s.configVersion))
    (hsource : base.secretsSource=read)
    (ht : t.manager=base.markSourcesPairedLocked base.configSource read)
    (hv : t.configVersion=versionAfter base s.configVersion) : StepKeeps s t steady := by
  constructor
  · constructor
    · rw [ht,hv]
      exact hlive.mark
    · rw [ht]
      apply pairing_mark
      · rw [hsource]
        exact fun hx => absurd hx hno
      · rw [hsource]
        exact fun hx => absurd hx hno
      · exact fun hx => absurd hx hno
      · exact fun hx => absurd hx hno
  · intro _ _ hne
    rw [ht] at hne
    have hempty : base.secrets=∅ := by
      rw [hlive.secrets,hsource]
      exact validValue_of_not_valid hno ∅
    exact absurd hempty hne

variable {notification : Option (ConfigNotification V)}

theorem mutate_keeps (h : SecretInv s) (current : SourceRead V) (mutation : Mutation V) {failure : Option String}
    (hm : s.manager.commitSecretsMutation current mutation=(m,notification,failure)) :
    StepKeeps s (if failure=none
      then (s.publish m notification).confirmCommit s.manager.secretsSource.signature
      else s.publish m notification)
      (¬s.Restores s.manager.configSource current ∧
        ¬s.Restores s.manager.configSource (mutation.reading current)) := by
  have hcases := commit_cases s.manager current mutation
  simp only [hm] at hcases
  rcases hcases with ⟨hno,hfail,heq⟩ | ⟨_,hfail,heq⟩ | ⟨hsource,hok,hends⟩ | ⟨_,hfail,heq⟩
  · rw [if_neg hfail]
    obtain ⟨hp,_,_⟩ := apply_published (s.manager.clearPendingSourcesLocked true)
      s.manager.configSource current false true true
    generalize ((s.manager.clearPendingSourcesLocked true).applySourceReadsLocked
      s.manager.configSource current false true true).1=base at hp heq
    apply marked_keeps hno (hp.live s.configVersion) hp.secretsSource
    · exact heq
    · rw [heq]
      rfl
  · rw [if_neg hfail]
    have hg := (reconcile_guarded s.manager current).keeps (t := s.publish m notification) h heq
    have hsource := (reconcile_source s.manager current).1
    rw [←heq] at hg hsource
    rw [hsource] at hg
    exact (hg rfl rfl rfl).weaken (fun hx => hx.1)
  · rw [if_pos hok]
    obtain ⟨hpairing,hlive,htrusted⟩ := hends.kept h.pairing (· ∈ ((s.publish m
      notification).confirmCommit s.manager.secretsSource.signature).confirmedSecrets)
      s.configVersion hsource
      (fun x hx => confirmCommit_mono hx)
      (fun hv => confirmCommit_new (s := s.publish m notification) hv)
    exact ⟨⟨hlive,hpairing⟩,fun _ hr => htrusted hr.2⟩
  · rw [if_neg hfail]
    have hg := reconcile_guarded s.manager (mutation.reading current)
    obtain ⟨hconfig,hsecrets⟩ := reconcile_source s.manager (mutation.reading current)
    generalize (s.manager.reconcileSecrets (mutation.reading current)).1=base at hg hconfig hsecrets heq
    split_ifs at heq with hno
    · apply marked_keeps hno (hg.live _ h.live) (hsecrets hno)
      · exact heq
      · rw [heq]
        rfl
    · rw [←heq] at hg hconfig
      have hk := hg.keeps (t := s.publish m notification) h rfl rfl rfl rfl
      rw [hconfig] at hk
      exact hk.weaken (fun hx => hx.2)

theorem watchPublish_keeps (h : SecretInv s) (i : Nat) (read : SourcePair V) {notice : Option (V × V)}
    (hm : s.manager.watchPublish read=(m,notification,notice)) :
    StepKeeps s ((s.publish m notification).setIteration i .ended) (¬s.Restores read.1 read.2) := by
  obtain ⟨hpairing,hlive,htrusted⟩ := watch_guarded s.manager read
  rw [hm] at hpairing hlive htrusted
  exact ⟨⟨hlive _ h.live,hpairing _ _ h.pairing⟩,
    fun ht hr => htrusted _ _ _ h.live h.pairing ht hr⟩

theorem watchFail_keeps (h : SecretInv s) (i : Nat) (kind message : String)
    (hm : s.manager.failClosedWatchError kind message=(m,notification)) :
    StepKeeps s ((s.publish m notification).setIteration i .ended) True := by
  obtain ⟨unavailable,hnot,hg⟩ := failClosed_guarded s.manager kind message
  rw [hm] at hg
  have hk := hg.keeps (t := (s.publish m notification).setIteration i .ended) h rfl rfl rfl rfl
  apply hk.weaken
  intro _ hr
  exact hnot hr.2.1

theorem sameSources_refl (m : ConfigManager V) : SameSources m m := ⟨rfl,rfl,rfl,rfl,rfl,rfl⟩

theorem next_same (m : ConfigManager V) : SameSources m m.nextNotification.1 := by
  simp only [nextNotification]
  split
  · exact ⟨rfl,rfl,rfl,rfl,rfl,rfl⟩
  · split
    · exact ⟨rfl,rfl,rfl,rfl,rfl,rfl⟩
    · exact ⟨rfl,rfl,rfl,rfl,rfl,rfl⟩

theorem setIteration_keeps (h : SecretInv s) (i : Nat) (phase : WatchPhase V) :
    StepKeeps s (s.setIteration i phase) steady :=
  .frame h (sameSources_refl _) rfl rfl rfl

theorem retry_keeps (h : SecretInv s) (i : Nat) : StepKeeps s (s.retry i) steady := by
  simp only [retry]
  split
  · exact .frame h (sameSources_refl _) rfl rfl rfl
  · exact setIteration_keeps h i _

theorem step_keeps (h : SecretInv s) (hs : configStep s a=some t) : StepKeeps s t (Steady s a) := by
  cases configEffect_of_step hs with
  | @reload token reads notify m notification notice hm =>
    have hload : (s.manager.loadSourcesLocked (readStableSources token reads) true notify).1=m :=
      congrArg (fun r => r.1) hm
    exact reload_keeps h (readStableSources token reads) notify hload _ _
  | mutate hm => exact mutate_keeps h _ _ hm
  | watchPhase i phase => exact setIteration_keeps h i phase
  | watchRetry i => exact retry_keeps h i
  | watchPublish _ hg hp hr hm =>
    have hpublishes : s.Publishes _ _ := ⟨hg,_,hp,hr⟩
    apply (watchPublish_keeps h _ _ hm).weaken
    exact fun hsteady => hsteady hpublishes
  | watchFail hm =>
    apply (watchFail_keeps h _ _ _ hm).weaken
    exact fun _ => trivial
  | claim _ hm | drain _ hm =>
    have hsame := next_same s.manager
    rw [hm] at hsame
    exact .frame h hsame rfl rfl rfl
  | _ => exact .frame h ⟨rfl,rfl,rfl,rfl,rfl,rfl⟩ rfl rfl rfl

theorem secretInv_initial (hi : Initial s) : SecretInv s ∧ s.Trusted := by
  obtain ⟨token,reads,rfl⟩ := hi
  generalize hread : readStableSources token reads=read
  generalize hm : ((ConfigManager.new : ConfigManager V).loadSourcesLocked read false false).1=m
  have hnew : ConfigSystem.new token reads=(ofManager m).confirmLoad := by
    rw [ConfigSystem.new,hread,initialLoad,hm]
  have hpairing : Pairing (ConfigManager.new : ConfigManager V) ⟨.missing,missingEtag,""⟩
      (· ∈ ([] : List Signature)) := by
    apply Pairing.mk
    · intro hv
      cases hv
    · intro hv
      cases hv
    · intro hv
      cases hv
    · intro hv
      cases hv
  have hp := load_published (ConfigManager.new : ConfigManager V) read false false
  have htrusted := load_trusted (ConfigManager.new : ConfigManager V) ⟨.missing,missingEtag,""⟩
    ⟨.missing,missingEtag,""⟩ read false false (fun hr => hr.2.2.2.2 (Eq.refl _))
  have hload := hpairing.load (· ∈ (ofManager m).confirmLoad.confirmedSecrets) read false false
    (fun x hx => by cases hx)
  simp only [hm] at hp htrusted hload
  rw [hnew]
  exact ⟨⟨hp.live _,hload (fun hv => confirmLoad_new (s := ofManager m) hv)⟩,htrusted⟩

theorem reach_secretInv {ok : ConfigSystem V → ConfigAct V → Prop}
    (h : Reach configStep ok Initial s) : SecretInv s :=
  h.invariant (fun _ hi => (secretInv_initial hi).1) (fun _ _ _ hi _ hs => (step_keeps hi hs).inv)

theorem reach_trusted (h : Reach configStep Steady Initial s) : s.Trusted :=
  h.invariant_under (fun _ hr => reach_secretInv hr) (fun _ hi => (secretInv_initial hi).2)
    (fun _ _ _ hi ht hok hs => (step_keeps hi hs).trusted ht hok)

structure SecretsGuarantee (s : ConfigSystem V) : Prop where
  secrets : s.manager.secretsSource.status=.valid →
    s.manager.secretsSource.signature=s.manager.pairedSecretsSignature
  config : s.manager.secretsSource.status=.valid → s.manager.configSource.status=.valid →
    s.manager.configSource.signature=s.manager.pairedConfigSignature
  confirmed : s.manager.secrets≠∅ → s.manager.secretsSource.status=.valid ∧
    s.manager.secretsSource.value=some s.manager.secrets ∧
    s.manager.secretsSource.signature∈s.confirmedSecrets
  paired : s.manager.secrets≠∅ → s.configVersion=s.confirmedConfig
  version : s.manager.configSource.status=.valid →
    s.manager.configSource.value=some s.manager.config ∧
    s.configVersion=s.manager.configSource.signature

/-- Secrets fail closed in every run that never gives them back beside an unusable configuration file
while an unconfirmed configuration is live. -/
theorem secrets_fail_closed (s : ConfigSystem V) (h : Reach configStep Steady Initial s) :
    SecretsGuarantee s := by
  have hinv := reach_secretInv h
  constructor
  · exact hinv.pairing.secrets
  · exact hinv.pairing.config
  · intro hne
    have hlive := hinv.live.secrets
    have hvalid : s.manager.secretsSource.status=.valid := by
      by_contra hx
      rw [validValue_of_not_valid hx] at hlive
      exact hne hlive
    refine ⟨hvalid,?_,?_⟩
    · rw [hlive]
      exact validValue_of_valid hvalid ∅
    · have hsig := hinv.pairing.secrets hvalid
      rw [hsig]
      apply hinv.pairing.known
      rw [←hsig]
      exact hvalid
  · exact reach_trusted h
  · exact fun hv => ⟨hinv.live.config hv,hinv.live.version hv⟩

/-- An edited configuration revokes the secrets, and a reload confirms it. -/
theorem secrets_fail_closed_example :
    ∃s,execute configStep (ConfigSystem.new "" (fun _ => (validFile "c0" [0],validFile "s0" [7])))
      [.watchStart,.watchBegin 0,.watchRead 0 (validFile "c1" [1],validFile "s0" [7]),
        .watchRead 0 (validFile "c1" [1],validFile "s0" [7]),
        .watchRead 0 (validFile "c1" [1],validFile "s0" [7]),
        .reload "" (fun _ => (validFile "c1" [1],validFile "s0" [7])) true]=some s ∧
      s.manager.secrets=[7] ∧ SecretsGuarantee s := by
  obtain ⟨s,hs,hsecrets⟩ : ∃s,execute configStep
      (ConfigSystem.new "" (fun _ => (validFile "c0" [0],validFile "s0" [7])))
      [.watchStart,.watchBegin 0,.watchRead 0 (validFile "c1" [1],validFile "s0" [7]),
        .watchRead 0 (validFile "c1" [1],validFile "s0" [7]),
        .watchRead 0 (validFile "c1" [1],validFile "s0" [7]),
        .reload "" (fun _ => (validFile "c1" [1],validFile "s0" [7])) true]=some s ∧
      s.manager.secrets=[7] := ⟨_,rfl,by decide⟩
  have hinit : Reach configStep Steady Initial
      (ConfigSystem.new "" (fun _ => (validFile "c0" [0],validFile "s0" [7]))) :=
    .start ⟨_,_,rfl⟩
  refine ⟨s,hs,hsecrets,secrets_fail_closed s (Reach.execute _ ?_ hinit hs)⟩
  intro a ha u
  simp only [List.mem_cons,List.not_mem_nil,or_false] at ha
  rcases ha with rfl | rfl | rfl | rfl | rfl | rfl
  · trivial
  · trivial
  · exact fun _ hr => hr.1 (Eq.refl _)
  · exact fun _ hr => hr.1 (Eq.refl _)
  · exact fun _ hr => hr.1 (Eq.refl _)
  · exact fun hr => hr.1 (Eq.refl _)

/-- The configuration is edited, then broken: the watcher gives the secrets back beside the edited
one. -/
theorem watcher_restores_secrets :
    ¬∀s : ConfigSystem (List Nat),Reach configStep Free Initial s → SecretsGuarantee s := by
  intro hall
  obtain ⟨s,hs,hsecrets,hversion,hconfirmed⟩ : ∃s,execute configStep
      (ConfigSystem.new "" (fun _ => (validFile "c0" [0],validFile "s0" [7])))
      [.watchStart,.watchBegin 0,.watchRead 0 (validFile "c1" [1],validFile "s0" [7]),
        .watchRead 0 (validFile "c1" [1],validFile "s0" [7]),
        .watchRead 0 (validFile "c1" [1],validFile "s0" [7]),
        .watchStart,.watchBegin 1,
        .watchRead 1 ({status := .invalid,etag := "c2",identity := "c2"},validFile "s0" [7]),
        .watchRead 1 ({status := .invalid,etag := "c2",identity := "c2"},validFile "s0" [7]),
        .watchRead 1 ({status := .invalid,etag := "c2",identity := "c2"},validFile "s0" [7])]=some s ∧
      s.manager.secrets=[7] ∧ s.configVersion=⟨.valid,"c1","c1"⟩ ∧
      s.confirmedConfig=⟨.valid,"c0","c0"⟩ := ⟨_,rfl,by decide,by decide,by decide⟩
  have hinit : Reach configStep Free Initial
      (ConfigSystem.new "" (fun _ => (validFile "c0" [0],validFile "s0" [7]))) :=
    .start ⟨_,_,rfl⟩
  have hpaired := (hall s (Reach.execute _ (fun _ _ _ => trivial) hinit hs)).paired
  rw [hsecrets,hversion,hconfirmed] at hpaired
  exact absurd (hpaired (by decide)) (by decide)

end XiaoQing.Settings
