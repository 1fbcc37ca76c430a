import XiaoQing.Framework.Run
import XiaoQing.Settings.ConfigManager

namespace XiaoQing.Settings

open Framework ConfigManager

/-- Where a `_watch_reconcile_once` is: in front of an attempt, in one of its three reads, about to
fail closed, or over. -/
inductive WatchPhase (V : Type)
  | attempting
  | candidate
  | verified (candidate : SourcePair V)
  | final (verified : SourcePair V)
  | failing (kind message : String)
  | ended
  deriving DecidableEq

/-- `since` counts the commits before the attempt. -/
structure Iteration (V : Type) where
  attempt : Nat
  generation : Nat
  phase : WatchPhase V
  since : Nat

/-- `_drain_notifications_async` or `_drain_notifications_sync`: not there, in front of
`_next_notification`, or at the callbacks of a notification. -/
inductive ConsumerPhase (V : Type)
  | idle
  | next
  | delivering (notification : ConfigNotification V) (left : List Nat)
  deriving DecidableEq

/-- A manager with its watcher iterations and its consumer. `starting` counts the publishers between
the lock and `_start_notification_consumer`. The rest is history: the version of the live
configuration, the configuration and the secrets that were confirmed, the number of reloads and of
transactions that changed the source, the revisions published, queued and claimed, and the calls of
the callbacks. -/
structure ConfigSystem (V : Type) where
  manager : ConfigManager V
  iterations : Nat → Iteration V
  nextIteration : Nat
  nextCallback : Nat
  starting : Nat
  consumer : ConsumerPhase V
  configVersion : Signature
  confirmedConfig : Signature
  confirmedSecrets : List Signature
  commits : Nat
  published : List Nat
  queued : List Nat
  claimed : List Nat
  calls : List (Nat × Nat)

variable {V : Type} [DecidableEq V] [EmptyCollection V]

namespace ConfigSystem

def setIteration (s : ConfigSystem V) (i : Nat) (phase : WatchPhase V) : ConfigSystem V :=
  {s with iterations := Function.update s.iterations i {s.iterations i with phase := phase}}

/-- The `continue` of an attempt. -/
def nextAttempt (s : ConfigSystem V) (i : Nat) : ConfigSystem V :=
  let iteration := {s.iterations i with attempt := (s.iterations i).attempt+1,phase := .attempting}
  {s with iterations := Function.update s.iterations i iteration}

def beginAttempt (s : ConfigSystem V) (i : Nat) : ConfigSystem V :=
  let iteration := {s.iterations i with
    generation := s.manager.sourceGeneration,phase := .candidate,since := s.commits}
  {s with iterations := Function.update s.iterations i iteration}

def publish (s : ConfigSystem V) (m : ConfigManager V) (notification : Option (ConfigNotification V)) :
    ConfigSystem V :=
  {s with
    manager := m
    starting := if notification.isSome then s.starting+1 else s.starting
    configVersion :=
      if m.configSource.status=.valid then m.configSource.signature else s.configVersion
    published := if m.revision≠s.manager.revision then s.published++[m.revision] else s.published
    queued := match notification with
      | some n => s.queued++[n.revision]
      | none => s.queued}

def confirmLoad (s : ConfigSystem V) : ConfigSystem V :=
  {s with
    confirmedConfig :=
      if s.manager.configSource.status=.valid then s.manager.configSource.signature
      else s.confirmedConfig
    confirmedSecrets :=
      if s.manager.secretsSource.status=.valid
      then s.manager.secretsSource.signature::s.confirmedSecrets else s.confirmedSecrets}

def confirmCommit (s : ConfigSystem V) (before : Signature) : ConfigSystem V :=
  {s with
    confirmedSecrets :=
      if s.manager.secretsSource.status=.valid
      then s.manager.secretsSource.signature::s.confirmedSecrets else s.confirmedSecrets
    commits := if s.manager.secretsSource.signature≠before then s.commits+1 else s.commits}

def ofManager (m : ConfigManager V) : ConfigSystem V where
  manager := m
  iterations := fun _ => ⟨0,0,.ended,0⟩
  nextIteration := 0
  nextCallback := 0
  starting := 0
  consumer := .idle
  configVersion :=
    if m.configSource.status=.valid then m.configSource.signature
    else ⟨.missing,missingEtag,""⟩
  confirmedConfig := ⟨.missing,missingEtag,""⟩
  confirmedSecrets := []
  commits := 0
  published := []
  queued := []
  claimed := []
  calls := []

/-- `ConfigManager.__init__` over what the initial load reads. -/
def new (token : String) (reads : Fin maxStableSourceReads → SourcePair V) : ConfigSystem V :=
  (ofManager (initialLoad (readStableSources token reads))).confirmLoad

/-- An attempt that failed: another one, or the `else` of the loop. -/
def retry (s : ConfigSystem V) (i : Nat) : ConfigSystem V :=
  if (s.iterations i).attempt+1 < maxWatchStabilityRetries then s.nextAttempt i
  else s.setIteration i (.failing "RuntimeError"
    "configuration sources did not stabilize before publication")

end ConfigSystem

open ConfigSystem

inductive ConfigAct (V : Type)
  | reload (token : String) (reads : Fin maxStableSourceReads → SourcePair V) (notify : Bool)
  | mutate (current : SourceRead V) (mutation : Mutation V)
  | watchStart
  | watchBegin (i : Nat)
  | watchRead (i : Nat) (read : SourcePair V)
  | watchRaise (i : Nat) (kind message : String)
  | watchCancel (i : Nat)
  | watchFail (i : Nat)
  | subscribe
  | unsubscribe (callback : Nat)
  | startConsumer
  | claim
  | call
  | complete

/-- One stretch under the lock, or between two of them; `none` when it is not enabled. -/
def configStep (s : ConfigSystem V) : ConfigAct V → Option (ConfigSystem V)
  | .reload token reads notify =>
    let (m,notification,_) := s.manager.reload (readStableSources token reads) notify
    some {(s.publish m notification).confirmLoad with commits := s.commits+1}
  | .mutate current mutation =>
    let (m,notification,failure) := s.manager.commitSecretsMutation current mutation
    let t := s.publish m notification
    some (if failure=none then t.confirmCommit s.manager.secretsSource.signature else t)
  | .watchStart =>
    some {s with
      iterations := Function.update s.iterations s.nextIteration ⟨0,0,.attempting,0⟩
      nextIteration := s.nextIteration+1}
  | .watchBegin i =>
    if i < s.nextIteration ∧ (s.iterations i).phase=.attempting then some (s.beginAttempt i) else none
  | .watchRead i read =>
    if i < s.nextIteration then
      let stale := (s.iterations i).generation≠s.manager.sourceGeneration
      match (s.iterations i).phase with
      | .candidate => some (s.setIteration i (if stale then .ended else .verified read))
      | .verified candidate =>
        if stale then some (s.setIteration i .ended)
        else if signatures candidate≠signatures read then some (s.retry i)
        else some (s.setIteration i (.final read))
      | .final verified =>
        if stale then some (s.setIteration i .ended)
        else if signatures verified≠signatures read then some (s.retry i)
        else
          let (m,notification,_) := s.manager.watchPublish read
          some ((s.publish m notification).setIteration i .ended)
      | _ => none
    else none
  | .watchRaise i kind message =>
    if i < s.nextIteration then
      match (s.iterations i).phase with
      | .candidate => some (s.setIteration i (.failing kind message))
      | .verified _ => some (s.setIteration i (.failing kind message))
      | .final _ => some (s.setIteration i (.failing kind message))
      | _ => none
    else none
  | .watchCancel i =>
    if i < s.nextIteration then
      match (s.iterations i).phase with
      | .candidate => some (s.setIteration i .ended)
      | .verified _ => some (s.setIteration i .ended)
      | .final _ => some (s.setIteration i .ended)
      | _ => none
    else none
  | .watchFail i =>
    if i < s.nextIteration then
      match (s.iterations i).phase with
      | .failing kind message =>
        let (m,notification) := s.manager.failClosedWatchError kind message
        some ((s.publish m notification).setIteration i .ended)
      | _ => none
    else none
  | .subscribe =>
    some {s with
      manager := {s.manager with callbacks := s.manager.callbacks++[s.nextCallback]}
      nextCallback := s.nextCallback+1}
  | .unsubscribe callback =>
    some {s with
      manager := {s.manager with callbacks := s.manager.callbacks.erase callback}}
  | .startConsumer =>
    if 0 < s.starting then
      let s := {s with starting := s.starting-1}
      some (if s.manager.notificationDraining then s
        else {s with manager := {s.manager with notificationDraining := true},consumer := .next})
    else none
  | .claim =>
    match s.consumer with
    | .next =>
      let (m,notification) := s.manager.nextNotification
      some (match notification with
        | some n => {s with
            manager := m,consumer := .delivering n n.callbacks,claimed := s.claimed++[n.revision]}
        | none => {s with manager := m,consumer := .idle})
    | _ => none
  | .call =>
    match s.consumer with
    | .delivering n (callback::left) =>
      some {s with
        consumer := .delivering n left
        calls := if callback∈s.manager.callbacks
          then s.calls++[(callback,n.revision)] else s.calls}
    | _ => none
  | .complete =>
    match s.consumer with
    | .delivering n [] =>
      some {s with manager := s.manager.completeNotification n,consumer := .next}
    | _ => none

/-- What a step does, by the branch it took. -/
inductive ConfigEffect (s : ConfigSystem V) : ConfigAct V → ConfigSystem V → Prop
  | reload {token reads notify m notification notice}
      (hm : s.manager.reload (readStableSources token reads) notify=(m,notification,notice)) :
      ConfigEffect s (.reload token reads notify)
        {(s.publish m notification).confirmLoad with commits := s.commits+1}
  | mutate {current mutation m notification failure}
      (hm : s.manager.commitSecretsMutation current mutation=(m,notification,failure)) :
      ConfigEffect s (.mutate current mutation)
        (if failure=none
          then (s.publish m notification).confirmCommit s.manager.secretsSource.signature
          else s.publish m notification)
  | watchStart : ConfigEffect s .watchStart {s with
      iterations := Function.update s.iterations s.nextIteration ⟨0,0,.attempting,0⟩
      nextIteration := s.nextIteration+1}
  | watchBegin {i} : ConfigEffect s (.watchBegin i) (s.beginAttempt i)
  | watchPhase {a} (i phase) : ConfigEffect s a (s.setIteration i phase)
  | watchRetry {a} (i) : ConfigEffect s a (s.retry i)
  | watchPublish {i read verified m notification notice} (hi : i < s.nextIteration)
      (hg : (s.iterations i).generation=s.manager.sourceGeneration)
      (hp : (s.iterations i).phase=.final verified) (hr : signatures verified=signatures read)
      (hm : s.manager.watchPublish read=(m,notification,notice)) :
      ConfigEffect s (.watchRead i read) ((s.publish m notification).setIteration i .ended)
  | watchFail {i kind message m notification}
      (hm : s.manager.failClosedWatchError kind message=(m,notification)) :
      ConfigEffect s (.watchFail i) ((s.publish m notification).setIteration i .ended)
  | subscribe : ConfigEffect s .subscribe {s with
      manager := {s.manager with callbacks := s.manager.callbacks++[s.nextCallback]}
      nextCallback := s.nextCallback+1}
  | unsubscribe {callback} : ConfigEffect s (.unsubscribe callback) {s with
      manager := {s.manager with callbacks := s.manager.callbacks.erase callback}}
  | consumerRuns (hs : 0 < s.starting) (hd : s.manager.notificationDraining=true) :
      ConfigEffect s .startConsumer {s with starting := s.starting-1}
  | startConsumer (hs : 0 < s.starting) (hd : s.manager.notificationDraining=false) :
      ConfigEffect s .startConsumer {s with
        starting := s.starting-1
        manager := {s.manager with notificationDraining := true}
        consumer := .next}
  | claim {m n} (hc : s.consumer=.next) (hm : s.manager.nextNotification=(m,some n)) :
      ConfigEffect s .claim {s with
        manager := m,consumer := .delivering n n.callbacks,claimed := s.claimed++[n.revision]}
  | drain {m} (hc : s.consumer=.next) (hm : s.manager.nextNotification=(m,none)) :
      ConfigEffect s .claim {s with manager := m,consumer := .idle}
  | call {n callback left} (hc : s.consumer=.delivering n (callback::left)) :
      ConfigEffect s .call {s with
        consumer := .delivering n left
        calls := if callback∈s.manager.callbacks
          then s.calls++[(callback,n.revision)] else s.calls}
  | complete {n} (hc : s.consumer=.delivering n []) :
      ConfigEffect s .complete {s with manager := s.manager.completeNotification n,consumer := .next}

theorem configEffect_of_step {s t : ConfigSystem V} {a : ConfigAct V} (hs : configStep s a=some t) :
    ConfigEffect s a t := by
  cases a with simp only [configStep] at hs
  | reload token reads notify =>
    cases hs
    exact .reload rfl
  | mutate current mutation =>
    cases hs
    exact .mutate rfl
  | watchStart =>
    cases hs
    exact .watchStart
  | watchBegin i =>
    split_ifs at hs
    cases hs
    exact .watchBegin
  | watchRead i read =>
    split at hs
    · rename_i hi
      split at hs
      · cases hs
        exact .watchPhase i _
      · split_ifs at hs
        · cases hs
          exact .watchPhase i _
        · cases hs
          exact .watchRetry i
        · cases hs
          exact .watchPhase i _
      · rename_i verified hphase
        split_ifs at hs with hstale hsame
        · cases hs
          exact .watchPhase i _
        · cases hs
          exact .watchRetry i
        · cases hs
          exact .watchPublish hi (not_not.mp hstale) hphase (not_not.mp hsame) rfl
      · cases hs
    · cases hs
  | watchRaise i kind message | watchCancel i =>
    split at hs
    · split at hs
      · cases hs
        exact .watchPhase i _
      · cases hs
        exact .watchPhase i _
      · cases hs
        exact .watchPhase i _
      · cases hs
    · cases hs
  | watchFail i =>
    split at hs
    · split at hs
      · cases hs
        exact .watchFail rfl
      · cases hs
    · cases hs
  | subscribe =>
    cases hs
    exact .subscribe
  | unsubscribe callback =>
    cases hs
    exact .unsubscribe
  | startConsumer =>
    split at hs
    · rename_i hpos
      cases hs
      split
      · rename_i hd
        exact .consumerRuns hpos hd
      · rename_i hd
        exact .startConsumer hpos (by simpa using hd)
    · cases hs
  | claim =>
    split at hs
    · rename_i hnext
      cases hs
      generalize hm : s.manager.nextNotification=claimed
      obtain ⟨m,notification⟩ := claimed
      cases notification with
      | none => exact .drain hnext hm
      | some n => exact .claim hnext hm
    · cases hs
  | call =>
    split at hs
    · rename_i hd
      cases hs
      exact .call hd
    · cases hs
  | complete =>
    split at hs
    · rename_i hd
      cases hs
      exact .complete hd
    · cases hs

def Initial (s : ConfigSystem V) : Prop := ∃token reads,s=ConfigSystem.new token reads

abbrev validFile {V : Type} (etag : String) (value : V) : SourceRead V :=
  {status := .valid,etag := etag,value := some value,identity := etag,
    wellFormed := SourceRead.valid_wellFormed value}

end XiaoQing.Settings
