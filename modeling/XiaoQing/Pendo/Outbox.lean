import XiaoQing.Commands.CommandRouter
import XiaoQing.Framework.Lease
import XiaoQing.Framework.Rows
import XiaoQing.Framework.Run

namespace XiaoQing.Pendo

open Framework Commands

@[ext] structure Identity where
  task : Text
  owner : Text
  period : Text
  deriving DecidableEq

inductive OutboxState where
  | pending
  | leased
  | sent
  | failed
  deriving DecidableEq

/-- A row of `scheduled_delivery_outbox`; times are whole seconds. -/
structure OutboxRow where
  identity : Identity
  deliveryKey : Text
  state : OutboxState
  claimToken : Option Nat
  claimExpiresAt : Option Nat
  nextAttemptAt : Option Nat
  failureCount : Nat
  createdAt : Nat
  updatedAt : Nat
  sentAt : Option Nat

def OutboxRow.lease (r : OutboxRow) : Option Lease :=
  match r.claimToken,r.claimExpiresAt with
  | some token,some expires => some ⟨token,expires⟩
  | _,_ => none

/-- The table, the clock and the source of tokens; besides, the leases that claims have returned and
the tokens that have been used up. -/
structure Outbox where
  now : Nat
  drawn : Nat
  rows : List OutboxRow
  granted : List (Identity × Lease)
  ended : List Nat

namespace Outbox

def new : Outbox := ⟨0,0,[],[],[]⟩

/-- `_scheduled_identity`; `none` where it raises `ValueError`. -/
def scheduledIdentity (raw : Identity) : Option Identity :=
  let identity : Identity := ⟨strip raw.task,strip raw.owner,strip raw.period⟩
  if identity.task.isEmpty || identity.owner.isEmpty || identity.period.isEmpty then none
  else some identity

variable (sha256 : Text → Text)

def keyOf (identity : Identity) : Text :=
  "pendo-".toList++sha256 (identity.task++ '\x00'::identity.owner++ '\x00'::identity.period)

def scheduledDeliveryKey (raw : Identity) : Option Text :=
  (scheduledIdentity raw).map (keyOf sha256)

inductive ClaimReply where
  | invalid
  | integrityError
  | refused
  | claimed (token : Nat) (deliveryKey : Text)

def newRow (identity : Identity) (now : Nat) : OutboxRow :=
  { identity := identity
    deliveryKey := keyOf sha256 identity
    state := .pending
    claimToken := none
    claimExpiresAt := none
    nextAttemptAt := none
    failureCount := 0
    createdAt := now
    updatedAt := now
    sentAt := none }

/-- The insertion of `claim_scheduled_delivery`; a second row with a delivery key is an error. -/
def enqueue (identity : Identity) (now : Nat) (rows : List OutboxRow) : Option (List OutboxRow) :=
  if (row OutboxRow.identity rows identity).isSome then some rows
  else if rows.any (fun r => r.deliveryKey=keyOf sha256 identity) then none
  else some (rows++[newRow sha256 identity now])

def claimable (identity : Identity) (now : Nat) (r : OutboxRow) : Bool :=
  r.identity=identity && r.nextAttemptAt.all (· ≤ now) &&
    (r.state=.pending || r.state=.failed || (r.state=.leased && r.claimExpiresAt.all (· ≤ now)))

def claimScheduledDelivery (s : Outbox) (raw : Identity) (leaseSeconds : Nat) :
    Outbox × ClaimReply :=
  if leaseSeconds=0 then (s,.invalid)
  else
    match scheduledIdentity raw with
    | none => (s,.invalid)
    | some identity =>
      let token := s.drawn
      let drawn := s.drawn+1
      match enqueue sha256 identity s.now s.rows with
      | none => ({s with drawn := drawn},.integrityError)
      | some rows =>
        let expires := s.now+leaseSeconds
        let updated := updateWhere (claimable identity s.now) (fun r => {r with
          state := .leased
          claimToken := some token
          claimExpiresAt := some expires
          updatedAt := s.now}) rows
        if rows.countP (claimable identity s.now)=1 then
          ({s with
            drawn := drawn
            rows := updated
            granted := (identity,⟨token,expires⟩)::s.granted},
            .claimed token (keyOf sha256 identity))
        else ({s with drawn := drawn,rows := updated},.refused)

def heldBy (identity : Identity) (token : Nat) (r : OutboxRow) : Bool :=
  r.identity=identity && r.state=.leased && r.claimToken=some token

/-- `complete_scheduled_delivery`; `none` where it raises. -/
def completeScheduledDelivery (s : Outbox) (raw : Identity) (token : Nat) :
    Outbox × Option Bool :=
  match scheduledIdentity raw with
  | none => (s,none)
  | some identity =>
    ({s with
      rows := updateWhere (heldBy identity token) (fun r => {r with
        state := .sent
        sentAt := some (r.sentAt.getD s.now)
        updatedAt := s.now
        claimToken := none
        claimExpiresAt := none
        nextAttemptAt := none}) s.rows
      ended := Ledger.lostTokens OutboxRow.lease (heldBy identity token) s.rows++s.ended},
      some (decide (s.rows.countP (heldBy identity token)=1)))

/-- `release_scheduled_delivery`; `none` where it raises. -/
def releaseScheduledDelivery (s : Outbox) (raw : Identity) (token : Nat) (retryAt : Option Nat) :
    Outbox × Option Bool :=
  match scheduledIdentity raw with
  | none => (s,none)
  | some identity =>
    ({s with
      rows := updateWhere (heldBy identity token) (fun r => {r with
        state := .failed
        claimToken := none
        claimExpiresAt := none
        nextAttemptAt := retryAt
        failureCount := r.failureCount+1
        updatedAt := s.now}) s.rows
      ended := Ledger.lostTokens OutboxRow.lease (heldBy identity token) s.rows++s.ended},
      some (decide (s.rows.countP (heldBy identity token)=1)))

inductive Act where
  | claim (raw : Identity) (leaseSeconds : Nat)
  | complete (raw : Identity) (token : Nat)
  | release (raw : Identity) (token : Nat) (retryAt : Option Nat)

def perform (s : Outbox) : Act → Outbox
  | .claim raw leaseSeconds => (claimScheduledDelivery sha256 s raw leaseSeconds).1
  | .complete raw token => (completeScheduledDelivery s raw token).1
  | .release raw token retryAt => (releaseScheduledDelivery s raw token retryAt).1

def step (s : Outbox) (call : Nat × Act) : Option Outbox :=
  if s.now ≤ call.1 then some (perform sha256 {s with now := call.1} call.2) else none

end Outbox

end XiaoQing.Pendo
