import Mathlib.Data.Fin.Tuple.Basic
import Mathlib.Data.List.OfFn
import Mathlib.Tactic.Common

namespace XiaoQing.Settings

inductive ConfigSourceStatus
  | valid
  | missing
  | invalid
  | unavailable
  | inconsistent
  deriving DecidableEq

def ConfigSourceStatus.value : ConfigSourceStatus → String
  | .valid => "valid"
  | .missing => "missing"
  | .invalid => "invalid"
  | .unavailable => "unavailable"
  | .inconsistent => "inconsistent"

structure Signature where
  status : ConfigSourceStatus
  etag : String
  identity : String
  deriving DecidableEq

/-- `_SourceRead`; the stat key only serves the reads themselves. A reading has a value exactly when
it is valid. -/
structure SourceRead (V : Type) where
  status : ConfigSourceStatus
  etag : String
  value : Option V := none
  error : Option String := none
  identity : String := ""
  wellFormed : value.isSome=true ↔ status=.valid := by simp
  deriving DecidableEq

theorem SourceRead.valid_wellFormed {V : Type} (value : V) :
    (some value).isSome=true ↔ ConfigSourceStatus.valid=.valid := by simp

def SourceRead.signature {V : Type} (r : SourceRead V) : Signature := ⟨r.status,r.etag,r.identity⟩

abbrev SourcePair (V : Type) := SourceRead V × SourceRead V

def signatures {V : Type} (p : SourcePair V) : Signature × Signature := (p.1.signature,p.2.signature)

structure ConfigSnapshot (V : Type) where
  config : V
  secrets : V
  revision : Nat
  configStatus : ConfigSourceStatus
  secretsStatus : ConfigSourceStatus
  deriving DecidableEq

structure ConfigNotification (V : Type) where
  revision : Nat
  snapshot : ConfigSnapshot V
  callbacks : List Nat
  deriving DecidableEq

/-- A `ConfigManager`. Trees of settings are values of `V`, the empty tree is `∅`; callbacks are
numbered; `notificationQueue` is the deque of one place. -/
structure ConfigManager (V : Type) where
  config : V
  secrets : V
  configSource : SourceRead V
  secretsSource : SourceRead V
  pairedConfigSignature : Signature
  pairedSecretsSignature : Signature
  pendingSecretsSource : Option (SourceRead V)
  pendingNoticeSignature : Option Signature
  sourceGeneration : Nat
  callbacks : List Nat
  revision : Nat
  notificationCurrent : Option (ConfigNotification V)
  notificationQueue : Option (ConfigNotification V)
  notificationDraining : Bool
  lastNotifiedRevision : Nat

def maxWatchStabilityRetries : Nat := 3

def requiredStableSourceReads : Nat := 3

def maxStableSourceReads : Nat := 6

def missingEtag : String := "missing"

variable {V : Type} [DecidableEq V] [EmptyCollection V]

namespace ConfigManager

/-- `__init__` before `_initial_load`. -/
def new : ConfigManager V where
  config := ∅
  secrets := ∅
  configSource := {status := .missing,etag := missingEtag}
  secretsSource := {status := .missing,etag := missingEtag}
  pairedConfigSignature := ⟨.missing,missingEtag,""⟩
  pairedSecretsSignature := ⟨.missing,missingEtag,""⟩
  pendingSecretsSource := none
  pendingNoticeSignature := none
  sourceGeneration := 0
  callbacks := []
  revision := 0
  notificationCurrent := none
  notificationQueue := none
  notificationDraining := false
  lastNotifiedRevision := 0

def snapshotLocked (m : ConfigManager V) : ConfigSnapshot V :=
  ⟨m.config,m.secrets,m.revision,m.configSource.status,m.secretsSource.status⟩

def enqueueNotificationLocked (m : ConfigManager V) (snapshot : ConfigSnapshot V) :
    ConfigManager V × ConfigNotification V :=
  let notification : ConfigNotification V := ⟨snapshot.revision,snapshot,m.callbacks⟩
  if m.notificationCurrent=none ∧ m.notificationDraining=false then
    ({m with notificationCurrent := some notification},notification)
  else ({m with notificationQueue := some notification},notification)

def markSourcesPairedLocked (m : ConfigManager V) (configRead secretsRead : SourceRead V) :
    ConfigManager V :=
  {m with
    pairedConfigSignature := configRead.signature
    pairedSecretsSignature := secretsRead.signature}

def clearPendingSourcesLocked (m : ConfigManager V) (bumpGeneration : Bool) : ConfigManager V :=
  let hadPendingSource := m.pendingSecretsSource.isSome
  {m with
    pendingSecretsSource := none
    pendingNoticeSignature := none
    sourceGeneration :=
      if hadPendingSource && bumpGeneration then m.sourceGeneration+1 else m.sourceGeneration}

/-- The live secrets and the candidate, of which the callbacks get the changed paths. -/
def pendingSecretsNoticeLocked (m : ConfigManager V) : ConfigManager V × Option (V × V) :=
  match m.pendingSecretsSource with
  | none => (m,none)
  | some secretsRead =>
    match secretsRead.status,secretsRead.value with
    | .valid,some value =>
      if m.pendingNoticeSignature=some secretsRead.signature then (m,none)
      else ({m with pendingNoticeSignature := some secretsRead.signature},some (m.secrets,value))
    | _,_ => (m,none)

/-- Whether the candidate is staged, and whether it is another one than before. -/
def stageUnconfirmedSecretChangeLocked (m : ConfigManager V) (configRead secretsRead : SourceRead V) :
    ConfigManager V × Bool × Bool :=
  let activeGenerationIsTrusted :=
    m.configSource.status=.valid ∧ m.secretsSource.status=.valid ∧
    m.configSource.signature=m.pairedConfigSignature ∧
    m.secretsSource.signature=m.pairedSecretsSignature
  let isSecretsOnlyCandidate :=
    configRead.status=.valid ∧ secretsRead.status=.valid ∧
    configRead.signature=m.configSource.signature ∧
    secretsRead.signature≠m.secretsSource.signature
  if ¬activeGenerationIsTrusted ∨ ¬isSecretsOnlyCandidate then (m,false,false)
  else
    let changed := match m.pendingSecretsSource with
      | none => true
      | some pending => secretsRead.signature≠pending.signature
    ({m with
      pendingSecretsSource := some secretsRead
      sourceGeneration := if changed then m.sourceGeneration+1 else m.sourceGeneration},true,changed)

def guardUnconfirmedSecretsLocked (m : ConfigManager V) (configRead secretsRead : SourceRead V) :
    SourceRead V :=
  if secretsRead.status≠.valid then secretsRead
  else
    let secretIsConfirmed := secretsRead.signature=m.pairedSecretsSignature
    let configIsCompatible :=
      configRead.status≠.valid ∨ configRead.signature=m.pairedConfigSignature
    if secretIsConfirmed ∧ configIsCompatible then secretsRead
    else
      {status := .inconsistent
       etag := "pending:"++configRead.status.value++":"++configRead.etag++":"++secretsRead.etag
       error := some ("external secrets change is pending explicit reload confirmation; "++
         "runtime credentials remain revoked")
       identity := secretsRead.identity}

def prepareConfirmedSecretsLocked (m : ConfigManager V) (configRead secretsRead : SourceRead V)
    (confirmConfig : Bool) : SourceRead V × Bool :=
  if secretsRead.status≠.valid then (secretsRead,true)
  else
    let configCanAuthorizeNewSecrets := configRead.status=.valid ∧
      (confirmConfig=true ∨ configRead.signature=m.pairedConfigSignature)
    if configCanAuthorizeNewSecrets then (secretsRead,true)
    else
      let guarded := m.guardUnconfirmedSecretsLocked configRead secretsRead
      (guarded,guarded=secretsRead)

def replaceSnapshot (m : ConfigManager V) (config secrets : V) : ConfigManager V :=
  {m with config := config,secrets := secrets}

def validValue (r : SourceRead V) (otherwise : V) : V :=
  match r.status,r.value with
  | .valid,some value => value
  | _,_ => otherwise

/-- The part of `_apply_source_reads_locked` that writes. -/
def installSourceReads (m : ConfigManager V) (configRead secretsRead : SourceRead V)
    (bumpRevision : Bool) : ConfigManager V :=
  {m.replaceSnapshot (validValue configRead m.config) (validValue secretsRead ∅) with
    configSource := configRead
    secretsSource := secretsRead
    revision := if bumpRevision then m.revision+1 else m.revision
    sourceGeneration := m.sourceGeneration+1}

def applySourceReadsLocked (m : ConfigManager V) (configRead secretsRead : SourceRead V)
    (force bumpRevision notify : Bool) : ConfigManager V × Option (ConfigNotification V) × Bool :=
  let sourceChanged :=
    configRead.signature≠m.configSource.signature ∨ secretsRead.signature≠m.secretsSource.signature
  let nextConfig := validValue configRead m.config
  let nextSecrets := validValue secretsRead ∅
  let dataChanged := nextConfig≠m.config ∨ nextSecrets≠m.secrets
  if ¬(force=true ∨ sourceChanged ∨ dataChanged) then
    ({m with configSource := configRead,secretsSource := secretsRead},none,false)
  else
    let m := m.installSourceReads configRead secretsRead bumpRevision
    if notify then
      let (m,notification) := m.enqueueNotificationLocked m.snapshotLocked
      (m,some notification,true)
    else (m,none,true)

/-- The loop of `_read_stable_sources` over what is read one after the other. -/
def stableReads (reads : List (SourcePair V)) (previous : Option (Signature × Signature))
    (stableCount : Nat) : Option (SourcePair V) :=
  match reads with
  | [] => none
  | current::reads =>
    let count := if some (signatures current)=previous then stableCount+1 else 1
    if requiredStableSourceReads≤count then some current
    else stableReads reads (some (signatures current)) count

/-- `token` is the digest of the signatures read last. -/
def readStableSources (token : String) (reads : Fin maxStableSourceReads → SourcePair V) :
    SourcePair V :=
  match stableReads (List.ofFn reads) none 0 with
  | some current => current
  | none =>
    let error := "config and secrets did not remain stable long enough for explicit confirmation"
    ({status := .unavailable,etag := "unstable-config:"++token,error := some error},
      {status := .unavailable,etag := "unstable-secrets:"++token,error := some error})

/-- `_load_sources_locked` on the pair that `_read_stable_sources` gives. -/
def loadSourcesLocked (m : ConfigManager V) (read : SourcePair V) (bumpRevision notify : Bool) :
    ConfigManager V × Option (ConfigNotification V) :=
  let (publishedSecrets,paired) := m.prepareConfirmedSecretsLocked read.1 read.2 true
  let m := if bumpRevision then m.clearPendingSourcesLocked true else m
  let (m,notification,_) := m.applySourceReadsLocked read.1 publishedSecrets true bumpRevision notify
  if paired then (m.markSourcesPairedLocked read.1 read.2,notification)
  else ({m with pairedConfigSignature := read.1.signature},notification)

/-- `__init__`. -/
def initialLoad (read : SourcePair V) : ConfigManager V :=
  ((new : ConfigManager V).loadSourcesLocked read false false).1

/-- The manager, the notification and the error of the configuration file, if it is raised. -/
def reload (m : ConfigManager V) (read : SourcePair V) (notify : Bool) :
    ConfigManager V × Option (ConfigNotification V) × Option String :=
  let (m,notification) := m.loadSourcesLocked read true notify
  (m,notification,
    if read.1.status=.invalid ∨ read.1.status=.unavailable then read.1.error else none)

end ConfigManager

/-- What a transaction does: no change, a durable write, or an error, after which the file is read
once more. -/
inductive Mutation (V : Type)
  | unchanged
  | written (etag : String) (value : V) (identity : String)
  | failed (error : String) (observed : SourceRead V)

namespace ConfigManager

def secretSourceError (source : SourceRead V) : String :=
  match source.error with
  | some error => error
  | none => "Refusing to mutate secrets while primary source is "++source.status.value

/-- `_stage_unconfirmed_secret_change_locked`, else `_guard_unconfirmed_secrets_locked` and
`_apply_source_reads_locked`, for a reading nobody asked for. -/
def reconcileSecrets (m : ConfigManager V) (secretsRead : SourceRead V) :
    ConfigManager V × Option (ConfigNotification V) :=
  let (staged,isStaged,_) := m.stageUnconfirmedSecretChangeLocked m.configSource secretsRead
  if isStaged then (staged,none)
  else
    let m := m.clearPendingSourcesLocked true
    let guarded := m.guardUnconfirmedSecretsLocked m.configSource secretsRead
    let (m,notification,_) := m.applySourceReadsLocked m.configSource guarded false true true
    (m,notification)

/-- `_commit_secrets_mutation`; `current` is the file as the transaction finds it. -/
def commitSecretsMutation (m : ConfigManager V) (current : SourceRead V) (mutation : Mutation V) :
    ConfigManager V × Option (ConfigNotification V) × Option String :=
  if current.status≠.valid ∨ current.value=none then
    let m := m.clearPendingSourcesLocked true
    let (m,notification,_) := m.applySourceReadsLocked m.configSource current false true true
    (m.markSourcesPairedLocked m.configSource current,notification,some (secretSourceError current))
  else if m.secretsSource.status≠.valid ∨ current.etag≠m.secretsSource.etag then
    let (m,notification) := m.reconcileSecrets current
    (m,notification,
      some "secrets changed on disk; reload the latest source and retry the mutation")
  else
    let commit (committed : SourceRead V) :=
      let (published,paired) := m.prepareConfirmedSecretsLocked m.configSource committed false
      let (m,notification,_) := m.applySourceReadsLocked m.configSource published false true true
      let m := if paired then m.markSourcesPairedLocked m.configSource committed else m
      (m.clearPendingSourcesLocked true,notification,none)
    match mutation with
    | .unchanged => commit current
    | .written etag value identity =>
      commit {status := .valid,etag := etag,value := some value,identity := identity,
              wellFormed := SourceRead.valid_wellFormed value}
    | .failed error observed =>
      let (m,notification) := m.reconcileSecrets observed
      -- only a valid reading is staged, so the baseline moves in the other branch alone
      (if observed.status≠.valid then m.markSourcesPairedLocked m.configSource observed else m,
        notification,some error)

def prepareWatchedSourcesLocked (m : ConfigManager V) (configRead secretsRead : SourceRead V) :
    SourceRead V × SourceRead V × Bool :=
  if secretsRead.status≠.valid then (configRead,secretsRead,true)
  else
    let guardedSecrets := m.guardUnconfirmedSecretsLocked configRead secretsRead
    (configRead,guardedSecrets,
      guardedSecrets=secretsRead ∧ secretsRead.status=.valid ∧
      secretsRead.signature=m.pairedSecretsSignature ∧
      (configRead.status≠.valid ∨ configRead.signature=m.pairedConfigSignature))

/-- The end of `_watch_reconcile_once`, under the lock: the notification, and what the callbacks of
pending secrets get. -/
def watchPublish (m : ConfigManager V) (final : SourcePair V) :
    ConfigManager V × Option (ConfigNotification V) × Option (V × V) :=
  let (staged,isStaged,_) := m.stageUnconfirmedSecretChangeLocked final.1 final.2
  if isStaged then
    let (m,notice) := staged.pendingSecretsNoticeLocked
    (m,none,notice)
  else
    let m := m.clearPendingSourcesLocked true
    let (configRead,secretsRead,paired) := m.prepareWatchedSourcesLocked final.1 final.2
    let (m,notification,_) := m.applySourceReadsLocked configRead secretsRead false true true
    (if paired then m.markSourcesPairedLocked final.1 final.2 else m,notification,none)

/-- `_fail_closed_watch_error` for an exception of type `kind`. -/
def failClosedWatchError (m : ConfigManager V) (kind message : String) :
    ConfigManager V × Option (ConfigNotification V) :=
  let unavailable : SourceRead V :=
    {status := .unavailable
     etag := "watch-error:"++kind
     error := some ("configuration watcher failed: "++kind++": "++message)}
  let m := m.clearPendingSourcesLocked true
  let (m,notification,_) := m.applySourceReadsLocked m.configSource unavailable false true true
  (m,notification)

def nextNotification (m : ConfigManager V) : ConfigManager V × Option (ConfigNotification V) :=
  match m.notificationCurrent with
  | some notification => ({m with notificationCurrent := none},some notification)
  | none =>
    match m.notificationQueue with
    | some notification => ({m with notificationQueue := none},some notification)
    | none => ({m with notificationDraining := false},none)

def completeNotification (m : ConfigManager V) (notification : ConfigNotification V) :
    ConfigManager V :=
  {m with lastNotifiedRevision := max m.lastNotifiedRevision notification.revision}

end ConfigManager

end XiaoQing.Settings
