import Mathlib.Data.Finset.Filter
import Mathlib.Data.Finset.Insert
import XiaoQing.Framework.Run
import XiaoQing.Framework.Table

namespace XiaoQing.Chat

open Function (update)

inductive LimitExceeded
  | chatInflight
  | chatSuperseded
  | dailyUserCapacity
  | globalInflight
  | userInflight
  | dailyUserCalls
deriving DecidableEq

def LimitExceeded.message : LimitExceeded → String
  | .chatInflight => "chat_inflight"
  | .chatSuperseded => "chat_superseded"
  | .dailyUserCapacity => "daily_user_capacity"
  | .globalInflight => "global_inflight"
  | .userInflight => "user_inflight"
  | .dailyUserCalls => "daily_user_calls"

/-- The arguments of one call of `admit`; a limit of 0 is no limit. -/
structure Admit (κ υ : Type) where
  chat : κ
  user : υ
  maxGlobal : Nat
  maxPerChat : Nat
  maxPerUser : Nat
  maxCallsPerUserPerDay : Nat
  chatWaits : Bool
deriving DecidableEq

/-- Where a call of `admit` stands; `arriving` and `slotted` only between its awaits. -/
inductive Stage
  | arriving
  | waiting
  | slotted
  | settling (hold : Nat)
  | inside
  | refused (why : LimitExceeded)
  | cancelled
  | left
deriving DecidableEq

def Stage.holdsChat : Stage → Bool
  | .slotted => true
  | .settling _ => true
  | .inside => true
  | _ => false

def Stage.runs : Stage → Bool
  | .inside => true
  | _ => false

structure Turn (κ υ : Type) where
  request : Admit κ υ
  stage : Stage
deriving DecidableEq

/-- What is noted when a request enters generation; the counters include it. -/
structure Admission (κ υ : Type) where
  turn : Nat
  request : Admit κ υ
  time : Int
  globalInflight : Nat
  chatInflight : Nat
  chatLimit : Nat
  userInflight : Nat
  unsettled : List Nat

structure LimiterConfig where
  maxTrackedUsers : Nat
  sweepInterval : Int

/-- The limiter's fields; then the calls, the clock and what is noted about the past. A mapping with
default 0 reads its missing keys as 0; `tracked` are the keys of `_user_calls`. -/
structure Limiter (κ υ : Type) where
  globalInflight : Nat
  chatInflight : κ → Nat
  userInflight : υ → Nat
  tracked : Finset υ
  userCalls : υ → List Int
  chatWaiters : κ → Option Nat
  deliveryHolds : κ → Option Nat
  settled : Nat → Bool
  lastSweepAt : Int
  turns : Nat → Option (Turn κ υ)
  next : Nat
  woken : Nat → Bool
  handed : Nat → Option κ
  nextHold : Nat
  expired : Nat → Bool
  now : Int
  chatLimit : κ → Nat
  admissions : List (Admission κ υ)

def day : Int := 86400*1000000

inductive LimiterAct (κ υ : Type)
  | tick (d : Nat)
  | admitCall (q : Admit κ υ)
  | resume (r : Nat) (expired : Bool)
  | settle (r : Nat) (timeout : Bool)
  | leave (r : Nat)
  | cancel (r : Nat)
  | hold (chat : κ)
  | release (h : Nat)

namespace Limiter

variable {κ υ : Type} [DecidableEq κ] [DecidableEq υ]

def initial (now : Int) : Limiter κ υ where
  globalInflight := 0
  chatInflight _ := 0
  userInflight _ := 0
  tracked := ∅
  userCalls _ := []
  chatWaiters _ := none
  deliveryHolds _ := none
  settled _ := false
  lastSweepAt := 0
  turns _ := none
  next := 0
  woken _ := false
  handed _ := none
  nextHold := 0
  expired _ := false
  now := now
  chatLimit _ := 0
  admissions := []

variable (s : Limiter κ υ)

def put (r : Nat) (q : Admit κ υ) (stage : Stage) : Limiter κ υ :=
  {s with turns := update s.turns r (some ⟨q,stage⟩)}

def notifyAll : Limiter κ υ := {s with woken := fun _ => true}

/-- `_decrement`: the entry goes at zero, and stays at zero. -/
def decrement {ι : Type} [DecidableEq ι] (values : ι → Nat) (k : ι) : ι → Nat :=
  update values k (values k-1)

def arrive (q : Admit κ υ) : Limiter κ υ := {s.put s.next q .arriving with next := s.next+1}

def forget (chat : κ) : Limiter κ υ := {s with chatWaiters := update s.chatWaiters chat none}

def supersede (chat : κ) : Limiter κ υ :=
  if s.chatWaiters chat=none then s else (s.forget chat).notifyAll

def enqueue (r : Nat) (q : Admit κ υ) : Limiter κ υ :=
  {s.put r q .waiting with
    chatWaiters := update s.chatWaiters q.chat (some r)
    woken := update s.woken r false}

def grant (r : Nat) (q : Admit κ υ) : Limiter κ υ :=
  {s.put r q .slotted with
    chatInflight := update s.chatInflight q.chat (s.chatInflight q.chat+1)
    chatLimit := update s.chatLimit q.chat q.maxPerChat}

/-- The `finally` of a request that was not admitted. -/
def turnOut (r : Nat) (q : Admit κ υ) (stage : Stage) : Limiter κ υ :=
  ({s with chatInflight := decrement s.chatInflight q.chat}.notifyAll).put r q stage

/-- The `finally` of an admitted request. -/
def finish (r : Nat) (q : Admit κ υ) (stage : Stage) : Limiter κ υ :=
  ({s with globalInflight := s.globalInflight-1
           userInflight := decrement s.userInflight q.user}).turnOut r q stage

def recentCalls (cutoff : Int) (calls : List Int) : List Int := calls.dropWhile (·<cutoff)

def sweepUserCalls : Limiter κ υ :=
  {s with userCalls := fun u => recentCalls (s.now-day) (s.userCalls u)
          tracked := s.tracked.filter fun u => recentCalls (s.now-day) (s.userCalls u)≠[]
          lastSweepAt := s.now}

/-- `setdefault(user_id, deque())`, then the old calls of that user are dropped. -/
def track (u : υ) : Limiter κ υ :=
  {s with tracked := insert u s.tracked
          userCalls := update s.userCalls u
            (recentCalls (s.now-day) (if u∈s.tracked then s.userCalls u else []))}

/-- Replies handed out in the chat that are neither settled nor given up. -/
def unsettled (chat : κ) : List Nat :=
  (List.range s.nextHold).filter fun h => s.handed h=some chat && !s.settled h && !s.expired h

def admitted (r : Nat) (q : Admit κ υ) : Limiter κ υ :=
  {s.put r q .inside with
    globalInflight := s.globalInflight+1
    userInflight := update s.userInflight q.user (s.userInflight q.user+1)
    userCalls := update s.userCalls q.user (s.userCalls q.user++[s.now])
    admissions := s.admissions++[⟨r,q,s.now,s.globalInflight+1,s.chatInflight q.chat,
      s.chatLimit q.chat,s.userInflight q.user+1,s.unsettled q.chat⟩]}

/-- The second locked block of `admit`. -/
def enter (cfg : LimiterConfig) (r : Nat) (q : Admit κ υ) : Limiter κ υ :=
  let s := if max 0 cfg.sweepInterval ≤ s.now-s.lastSweepAt ∨ max 1 cfg.maxTrackedUsers ≤ s.tracked.card
    then s.sweepUserCalls else s
  if q.user∉s.tracked ∧ max 1 cfg.maxTrackedUsers ≤ s.tracked.card then
    s.turnOut r q (.refused .dailyUserCapacity)
  else
    let s := s.track q.user
    if 0<q.maxGlobal ∧ q.maxGlobal ≤ s.globalInflight then s.turnOut r q (.refused .globalInflight)
    else if 0<q.maxPerUser ∧ q.maxPerUser ≤ s.userInflight q.user then
      s.turnOut r q (.refused .userInflight)
    else if 0<q.maxCallsPerUserPerDay ∧ q.maxCallsPerUserPerDay≤(s.userCalls q.user).length then
      s.turnOut r q (.refused .dailyUserCalls)
    else s.admitted r q

/-- `_await_delivery_settled` up to its await. -/
def awaitDeliverySettled (cfg : LimiterConfig) (r : Nat) (q : Admit κ υ) : Limiter κ υ :=
  match s.deliveryHolds q.chat with
  | none => s.enter cfg r q
  | some h => if s.settled h then s.enter cfg r q else s.put r q (.settling h)

def takeSlot (cfg : LimiterConfig) (r : Nat) (q : Admit κ υ) : Limiter κ υ :=
  (s.grant r q).awaitDeliverySettled cfg r q

def giveUp (chat : κ) (h : Nat) : Limiter κ υ :=
  {s with expired := update s.expired h true
          deliveryHolds := if s.deliveryHolds chat=some h
            then update s.deliveryHolds chat none else s.deliveryHolds}

def holdForDelivery (chat : κ) : Limiter κ υ :=
  {s with deliveryHolds := update s.deliveryHolds chat (some s.nextHold)
          handed := update s.handed s.nextHold (some chat)
          nextHold := s.nextHold+1}

def releaseHold (chat : κ) (h : Nat) : Limiter κ υ :=
  {s with settled := update s.settled h true
          deliveryHolds := if s.deliveryHolds chat=some h
            then update s.deliveryHolds chat none else s.deliveryHolds}

/-- Up to the first await of `admit`. -/
def admitCall (cfg : LimiterConfig) (q : Admit κ υ) : Limiter κ υ :=
  let r := s.next
  let s := s.arrive q
  if 0<q.maxPerChat then
    let s := s.supersede q.chat
    if s.chatInflight q.chat<q.maxPerChat then s.takeSlot cfg r q
    else if q.chatWaits then s.enqueue r q
    else s.put r q (.refused .chatInflight)
  else s.takeSlot cfg r q

/-- A waiter runs again: notified, or by its timer; `expired` when its deadline has passed. -/
def resume (cfg : LimiterConfig) (r : Nat) (q : Admit κ υ) (expired : Bool) : Limiter κ υ :=
  if s.chatWaiters q.chat≠some r then s.put r q (.refused .chatSuperseded)
  else if s.chatInflight q.chat<q.maxPerChat then (s.forget q.chat).takeSlot cfg r q
  else if expired then (s.forget q.chat).put r q (.refused .chatInflight)
  else {s with woken := update s.woken r false}

def cancel (r : Nat) (q : Admit κ υ) : Stage → Option (Limiter κ υ)
  | .waiting => some ((if s.chatWaiters q.chat=some r then s.forget q.chat else s).put r q .cancelled)
  | .settling _ => some (s.turnOut r q .cancelled)
  | .inside => some (s.finish r q .cancelled)
  | _ => none

/-- The lock is never held across an await: `wait()` gives it up before it suspends. So every locked
block, and every stretch between two awaits, is one step. -/
def step (cfg : LimiterConfig) : LimiterAct κ υ → Option (Limiter κ υ)
  | .tick d => some {s with now := s.now+d}
  | .admitCall q => some (s.admitCall cfg q)
  | .resume r expired =>
    match s.turns r with
    | some ⟨q,.waiting⟩ => some (s.resume cfg r q expired)
    | _ => none
  | .settle r timeout =>
    match s.turns r with
    | some ⟨q,.settling h⟩ =>
      if s.settled h then some (s.enter cfg r q)
      else if timeout then some ((s.giveUp q.chat h).enter cfg r q)
      else none
    | _ => none
  | .leave r =>
    match s.turns r with
    | some ⟨q,.inside⟩ => some (s.finish r q .left)
    | _ => none
  | .cancel r =>
    match s.turns r with
    | some ⟨q,stage⟩ => s.cancel r q stage
    | none => none
  | .hold chat => some (s.holdForDelivery chat)
  | .release h =>
    match s.handed h with
    | some chat => some (s.releaseHold chat h)
    | none => none

end Limiter

end XiaoQing.Chat
