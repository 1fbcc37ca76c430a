import Mathlib.Data.List.Basic
import Mathlib.Logic.Function.Basic
import Mathlib.Tactic.Common
import XiaoQing.Delivery.SendAction
import XiaoQing.Framework.Run

namespace XiaoQing.Chat

section

/-- One part of a message: text, or a medium of any other kind. -/
inductive Part (μ : Type)
  | text (content : List Char)
  | media (item : μ)
deriving DecidableEq

def lineBreaks : List Char :=
  ['\n', '\r', '\x0b', '\x0c', '\x1c', '\x1d', '\x1e', '\u0085', '\u2028', '\u2029']

/-- `str.splitlines(keepends=True)` with the characters of the current line. -/
def splitLines (line : List Char) : List Char → List (List Char)
  | [] => if line=[] then [] else [line]
  | [c] => [line++[c]]
  | c::d::rest =>
    if c= '\r' ∧ d= '\n' then (line++[c,d])::splitLines [] rest
    else if c∈lineBreaks then (line++[c])::splitLines [] (d::rest)
    else splitLines (line++[c]) (d::rest)

def blankLine : List Char := ['\n', '\n']

section

variable {μ : Type}

def separate (parts : List (Part μ)) : List (Part μ) :=
  match parts.getLast? with
  | none => parts
  | some (.text t) => parts.dropLast++[.text (t++blankLine)]
  | some (.media _) => parts++[.text blankLine]

def addPart (parts : List (Part μ)) (p : Part μ) : List (Part μ) :=
  match p,parts.getLast? with
  | .text s,some (.text t) => parts.dropLast++[.text (t++s)]
  | _,_ => parts++[p]

def addBatch (parts batch : List (Part μ)) : List (Part μ) := batch.foldl addPart (separate parts)

def normalizePart : Part μ → List (Part μ)
  | .text t => (splitLines [] t).map .text
  | .media m => [.media m]

def sentBubbleParts (batches : List (List (Part μ))) : List (Part μ) :=
  (batches.foldl addBatch []).flatMap normalizePart

def Part.content : Part μ → List (Char⊕μ)
  | .text t => t.map .inl
  | .media m => [.inr m]

def content (parts : List (Part μ)) : List (Char⊕μ) := parts.flatMap Part.content

def shown : List (List (Part μ)) → List (Char⊕μ)
  | [] => []
  | []::bs => shown bs
  | b::bs => content b++bs.flatMap fun b => blankLine.map .inl++content b

variable {parts : List (Part μ)}

end

end

section

open Delivery

/-- A generated reply: its parts, and the parts of each bubble it is cut into. -/
structure Reply (μ : Type) where
  parts : List (Part μ)
  batches : List (List (Part μ))
  nonempty : batches≠[]

inductive Settlement (μ : Type)
  | rollback
  | commit (parts : List (Part μ)) (messageIds : List MessageId)
deriving DecidableEq

inductive BubbleEvent (μ : Type)
  | held
  | began (x : Settlement μ)
  | settled (x : Settlement μ)
  | released
deriving DecidableEq

/-- The await at which the turn that sends the bubbles stands. -/
inductive Sender
  | preparing
  | between (i : Nat)
  | sending (i : Nat)
  | recording (i : Nat)
  | pausing (i : Nat)
  | beforeLast
  | closing (handed : Bool)
  | ended (handed : Bool)
  | dropped
  | raised
deriving DecidableEq

/-- Who runs the settlement: the turn itself, in `close()`, or a task beside it. -/
inductive Runner
  | sender
  | beside
deriving DecidableEq

structure ReplyBubbles (μ : Type) where
  dispatched : Nat
  receipts : Nat → Option DeliveryReceipt
  outcomes : Nat → Option (Option Bool)
  messageIds : Nat → List MessageId
  closed : Bool
  settled : Bool
  hold : Bool
  sender : Sender
  running : Option (Runner×Settlement μ)
  closeTask : Bool
  events : List (BubbleEvent μ)

inductive BubbleAct
  | proceed (fresh buildable : Bool)
  | sent (outcome : Option Bool) (pause : Bool)
  | resume
  | recorded
  | fail
  | closeTask
  | report (i : Nat) (delivered : Option Bool)
  | addMessageId (i : Nat) (messageId : Option MessageId)
  | addExpectedActions (i count : Nat)
  | deferToTransport (i : Nat)
  | finish
  | interrupt (cancelled : Bool)

namespace ReplyBubbles

variable {μ : Type} [DecidableEq μ] (reply : Reply μ)

def initial : ReplyBubbles μ where
  dispatched := 0
  receipts _ := none
  outcomes _ := none
  messageIds _ := []
  closed := false
  settled := false
  hold := false
  sender := .preparing
  running := none
  closeTask := false
  events := []

def wholeReply : List (Part μ) := reply.parts.filter fun p =>
  match p with
  | .text _ => true
  | .media m => .media m∈reply.batches.flatten

variable (s : ReplyBubbles μ)

/-- `_seen`: confirmed, or not known to have failed. -/
def seen : List Nat := (List.range s.dispatched).filter fun i => s.outcomes i≠some (some false)

def settlement : Settlement μ :=
  if s.seen=[] then .rollback
  else .commit
    (if s.seen.length=reply.batches.length then wholeReply reply
      else sentBubbleParts (s.seen.map fun i => reply.batches.getD i []))
    (s.seen.flatMap s.messageIds)

/-- `len(self._outcomes)`: only bubbles that were handed out have an outcome. -/
def answered : Nat := (List.range s.dispatched).countP fun i => (s.outcomes i).isSome

def maybeSettle (runner : Runner) : ReplyBubbles μ :=
  if s.settled || !s.closed || s.answered < s.dispatched then s
  else {s with settled := true
               running := some (runner,settlement reply s)
               events := s.events++[.began (settlement reply s)]}

/-- The end of `_settle`, with the `finally` that releases the hold. -/
def settleEnds (x : Settlement μ) (completed : Bool) : ReplyBubbles μ :=
  {s with running := none
          events := s.events++(if completed then [.settled x] else [])++
            if s.hold then [.released] else []}

/-- `receipt(index)` -/
def receipt (i : Nat) : ReplyBubbles μ :=
  {s with hold := true
          events := if s.hold then s.events else s.events++[.held]
          dispatched := max s.dispatched (i+1)
          receipts := Function.update s.receipts i (some (.new 1))}

def close (runner : Runner) : ReplyBubbles μ := maybeSettle reply {s with closed := true} runner

/-- `await bubbles.close()` in the turn: it returns at once unless it has to settle. -/
def closeInline (handed : Bool) : ReplyBubbles μ :=
  let s := close reply s .sender
  {s with sender := match s.running with
    | some (.sender,_) => .closing handed
    | _ => .ended handed}

/-- `record(delivered)` on the receipt of bubble `i`, with its callback. -/
def report (i : Nat) (delivered : Option Bool) : ReplyBubbles μ :=
  match s.receipts i with
  | none => s
  | some r =>
    let r' := r.record delivered fun _ => false
    let s := {s with receipts := Function.update s.receipts i (some r')}
    if !r.resolved && r'.resolved then
      maybeSettle reply {s with outcomes := Function.update s.outcomes i (some r'.outcome)
                                messageIds := Function.update s.messageIds i r'.messageIds} .beside
    else s

def touch (i : Nat) (f : DeliveryReceipt → DeliveryReceipt) : ReplyBubbles μ :=
  {s with receipts := Function.update s.receipts i ((s.receipts i).map f)}

def last : Nat := reply.batches.length-1

def handLast : ReplyBubbles μ := closeInline reply (s.receipt (last reply)) true

def next (i : Nat) : ReplyBubbles μ :=
  {s with sender := if i+1<last reply then .between (i+1) else .beforeLast}

/-- An exception leaves the `try`: the rest of the bubbles is closed in a shielded task. -/
def raise : ReplyBubbles μ := {s with sender := .raised,closeTask := true}

/-- `send_with_receipt` after `send_action` has answered. -/
def recordSent (i : Nat) (outcome : Option Bool) : ReplyBubbles μ :=
  match s.receipts i with
  | none => s
  | some r => if !r.resolved && !r.handoffIsPending then report reply s i outcome else s

def step : BubbleAct → Option (ReplyBubbles μ)
  | .proceed fresh buildable =>
    match s.sender with
    | .preparing =>
      if fresh then
        if 0<last reply then some {s with sender := .between 0} else some (handLast reply s)
      else some {s with sender := .dropped}
    | .between i =>
      if fresh && buildable then some {s.receipt i with sender := .sending i}
      else some (closeInline reply s false)
    | .beforeLast =>
      if fresh then some (handLast reply s) else some (closeInline reply s false)
    | _ => none
  | .sent outcome pause =>
    match s.sender with
    | .sending i =>
      let s := recordSent reply s i outcome
      if outcome=some true then
        some (if pause then {s with sender := .pausing i} else next reply s i)
      else some (closeInline reply s false)
    | _ => none
  | .resume =>
    match s.sender with
    | .pausing i => some (next reply s i)
    | _ => none
  | .recorded =>
    match s.sender with
    | .recording i => some (report reply s i (some false)).raise
    | _ => none
  | .fail =>
    match s.sender with
    | .preparing => some {s with sender := .raised}
    | .sending i => some {s with sender := .recording i}
    | .between _ => some s.raise
    | .recording _ => some s.raise
    | .pausing _ => some s.raise
    | .beforeLast => some s.raise
    | _ => none
  | .closeTask => if s.closeTask then some {close reply s .beside with closeTask := false} else none
  | .report i delivered => some (report reply s i delivered)
  | .addMessageId i messageId => some (s.touch i fun r => r.addMessageId messageId)
  | .addExpectedActions i count => some (s.touch i fun r => r.addExpectedActions count)
  | .deferToTransport i => some (s.touch i DeliveryReceipt.deferToTransport)
  | .finish =>
    match s.running with
    | some (.sender,x) =>
      some {s.settleEnds x true with sender := match s.sender with
        | .closing handed => .ended handed
        | other => other}
    | some (.beside,x) => some (s.settleEnds x true)
    | none => none
  | .interrupt cancelled =>
    match s.running with
    | some (.sender,x) =>
      -- `close()` logs an error, but lets a cancellation through
      some (if cancelled then (s.settleEnds x false).raise
        else {s.settleEnds x false with sender := match s.sender with
          | .closing handed => .ended handed
          | other => other})
    | some (.beside,x) => some (s.settleEnds x false)
    | none => none

end ReplyBubbles

end

end XiaoQing.Chat
