import XiaoQing.Commands.CommandRouter
import XiaoQing.Framework.Effects
import XiaoQing.Framework.Lines
import XiaoQing.Framework.Bytes
import XiaoQing.Json.PlainReads

namespace XiaoQing.Codex

open Framework Json
open Commands (isSpace)

abbrev Bytes := List UInt8

abbrev Codes := List Nat

def codes (t : String) : Codes := t.toList.map Char.toNat

def stripCodes (p : Nat → Bool) (t : Codes) : Codes := (t.dropWhile p).rdropWhile p

def strip (t : Codes) : Codes := stripCodes (fun n => isSpace (Char.ofNat n)) t

structure StdoutConfig where
  maxStdoutBytes : Nat
  maxJsonLineBytes : Nat
  maxFinalOutputBytes : Nat
  maxImageArtifacts : Nat

/-- The interpreter and `os.path.normcase` of the host. -/
structure Host where
  interpreter : Interpreter
  normcase : Codes → Codes

def maxThreadIdChars : Nat := 512

def maxEventCounter : Nat := 2^63-1

def usageKeys : List String := ["input_tokens","cached_input_tokens","output_tokens"]

def imageExtensions : List String := [".png",".jpg",".jpeg",".webp",".gif"]

/-! Reading a parsed event -/

/-- `event.get(key)` -/
def member (ms : List (List Nat × Value)) (key : String) : Option Value :=
  (ms.find? fun m => joinSurrogates m.1=codes key).map Prod.snd

/-- The text of a `str`. -/
def textOf : Value → Option Codes
  | .str us => some (joinSurrogates us)
  | _ => none

/-- The number of an `int` that is not a `bool`. -/
def intOf : Value → Option Int
  | .number false t =>
    let (sign,digits) := matchMinus t
    some (if sign=['-'] then -(digitsValue digits : Int) else digitsValue digits)
  | _ => none

def isQuote (n : Nat) : Bool := n=34 || n=39 || n=96

/-- `str.lower`, as far as it bears on a suffix of these extensions: no other character has one of
their letters as its lower case. -/
def lowerAscii (n : Nat) : Nat := if 65≤n∧n≤90 then n+32 else n

/-- The path that a `str` is, if it looks like one of an image. -/
def imagePath (value : Codes) : Option Codes :=
  let cleaned := strip (stripCodes isQuote (strip value))
  let lowered := cleaned.map lowerAscii
  if cleaned≠[] ∧ cleaned.length≤32768 ∧ ¬cleaned.any (fun n => decide (n < 32)) ∧
      imageExtensions.any (fun ext => (codes ext).isSuffixOf lowered)
  then some cleaned else none

mutual

def extractImagePaths (maxItems depth : Nat) : Value → List Codes
  | .str us => if maxItems=0 ∨ 16 < depth then [] else (imagePath (joinSurrogates us)).toList
  | .arr items => if maxItems=0 ∨ 16 < depth then [] else itemPaths maxItems (depth+1) [] items
  | .obj ms => if maxItems=0 ∨ 16 < depth then [] else memberPaths maxItems (depth+1) [] ms
  | _ => []

def itemPaths (maxItems depth : Nat) (paths : List Codes) : List Value → List Codes
  | [] => paths
  | v::vs =>
    let paths := paths++extractImagePaths (maxItems-paths.length) depth v
    if maxItems≤paths.length then paths else itemPaths maxItems depth paths vs

def memberPaths (maxItems depth : Nat) (paths : List Codes) : List (List Nat × Value) → List Codes
  | [] => paths
  | (_,v)::ms =>
    let paths := paths++extractImagePaths (maxItems-paths.length) depth v
    if maxItems≤paths.length then paths else memberPaths maxItems depth paths ms

end

def validThreadId (value : Option Value) : Option Codes :=
  match value.bind textOf with
  | none => none
  | some text =>
    let cleaned := strip text
    if cleaned=[] ∨ maxThreadIdChars < cleaned.length ∨ cleaned.any (fun n => decide (n < 32))
    then none else some cleaned

def validUsage (value : Option Value) : Option (List (String × Nat)) :=
  match value with
  | some (.obj ms) =>
    let usage := usageKeys.filterMap fun key =>
      match (member ms key).bind intOf with
      | some n => if 0≤n ∧ n ≤ maxEventCounter then some (key,n.toNat) else none
      | none => none
    if usage=[] then none else some usage
  | _ => none

def truncationMarker : Text := "\n...[output truncated]".toList

/-- `str.encode("utf-8", errors="replace")`, by the characters that it encodes. -/
def replaceSurrogates (t : Codes) : Text :=
  t.map fun n => if 0xD800≤n∧n≤0xDFFF then '?' else Char.ofNat n

def truncateUtf8 (value : Codes) (maxBytes : Nat) : Codes :=
  if maxBytes=0 then []
  else
    let encoded := replaceSurrogates value
    if (encoded.map Char.utf8Size).sum ≤ maxBytes then value
    else if maxBytes≤truncationMarker.length then (truncationMarker.take maxBytes).map Char.toNat
    else (takeBytes encoded (maxBytes-truncationMarker.length)++truncationMarker).map Char.toNat

structure ParsedCodexEvent where
  threadId : Option Codes
  message : Option Codes
  usage : Option (List (String × Nat))
  imagePaths : List Codes

def agentMessage (ms : List (List Nat × Value)) (maxMessageBytes : Nat) : Option Codes :=
  match member ms "item" with
  | some (.obj item) =>
    if (member item "type").bind textOf=some (codes "agent_message") then
      match (member item "text").bind textOf with
      | some text => if text=[] then none else some (truncateUtf8 text maxMessageBytes)
      | none => none
    else none
  | _ => none

def parseCodexEvent (event : Value) (maxMessageBytes maxImagePaths : Nat) : Option ParsedCodexEvent :=
  match event with
  | .obj ms =>
    let eventType := (member ms "type").bind textOf
    some {
      threadId := if eventType=some (codes "thread.started")
        then validThreadId (member ms "thread_id") else none
      message := if eventType=some (codes "item.completed")
        then agentMessage ms maxMessageBytes else none
      usage := if eventType=some (codes "turn.completed")
        then validUsage (member ms "usage") else none
      imagePaths := extractImagePaths maxImagePaths 0 event}
  | _ => none

structure EventSummary where
  threadId : Option Codes := none
  lastMessage : Codes := []
  usage : List (String × Nat) := []
  imagePaths : List Codes := []
  seenImagePaths : List Codes := []

namespace EventSummary

def addPath (normcase : Codes → Codes) (s : EventSummary) (path : Codes) : EventSummary :=
  if normcase path∈s.seenImagePaths then s
  else {s with
    seenImagePaths := normcase path::s.seenImagePaths
    imagePaths := s.imagePaths++[path]}

def apply (normcase : Codes → Codes) (s : EventSummary) (event : ParsedCodexEvent) : EventSummary :=
  let s := {s with
    threadId := event.threadId.orElse fun _ => s.threadId
    lastMessage := event.message.getD s.lastMessage
    usage := event.usage.getD s.usage}
  event.imagePaths.foldl (addPath normcase) s

end EventSummary

/-! The accumulator -/

/-- `OutputBudgetExceeded`, and what `json.loads` raises beside it. -/
inductive StdoutError
  | budget (message : String)
  | raised (e : LoadError)

def tailLimit : Nat := 8*1024

/-- `_ByteTail.feed` -/
def feedTail (data chunk : Bytes) : Bytes :=
  if tailLimit≤chunk.length then chunk.drop (chunk.length-tailLimit)
  else
    let data := data++chunk
    if tailLimit < data.length then data.drop (data.length-tailLimit) else data

/-- `bytes.strip` -/
def stripBytes (t : Bytes) : Bytes :=
  let space (b : UInt8) : Bool := b=32 || (decide (9≤b.toNat) && decide (b.toNat≤13))
  (t.dropWhile space).rdropWhile space

structure StdoutAccumulator where
  totalBytes : Nat := 0
  pending : Bytes := []
  tail : Bytes := []
  summary : EventSummary := {}

def newline : UInt8 := 10

variable (host : Host) (config : StdoutConfig)

def lineBudget : StdoutError := .budget s!"stdout JSON line exceeded {config.maxJsonLineBytes} bytes"

def stdoutBudget : StdoutError := .budget s!"stdout exceeded {config.maxStdoutBytes} bytes"

def applyEvent (s : EventSummary) (event : Value) : EventSummary :=
  match parseCodexEvent event config.maxFinalOutputBytes
      (config.maxImageArtifacts*4-s.imagePaths.length) with
  | none => s
  | some parsed => s.apply host.normcase parsed

def consumeLine (s : EventSummary) (rawLine : Bytes) : Except StdoutError EventSummary :=
  if config.maxJsonLineBytes < rawLine.length then .error (lineBudget config)
  else
    let line := stripBytes rawLine
    if line.head?≠some 123 then .ok s
    else
      match plainLoads host.interpreter (decodeReplace 0 line) with
      | .error .decode => .ok s
      | .error e => .error (.raised e)
      | .ok event => .ok (applyEvent host config s event)

theorem cutLine_lt {t l rest : Bytes} (h : cutLine newline t=some (l,rest)) : rest.length < t.length := by
  rcases cutLine_shape (s:=newline) t with hnone | ⟨l',rest',rfl,hl⟩
  · rw [cutLine_none hnone] at h
    cases h
  · rw [cutLine_some hl] at h
    cases h
    rw [List.length_append,List.length_cons]
    omega

/-- The loop of `feed`. -/
def drain (s : EventSummary) (pending : Bytes) : Except StdoutError (Bytes × EventSummary) :=
  match _h : cutLine newline pending with
  | none =>
    if config.maxJsonLineBytes < pending.length then .error (lineBudget config) else .ok (pending,s)
  | some (rawLine,rest) => do
    let s ← consumeLine host config s rawLine
    drain s rest
termination_by pending.length
decreasing_by exact cutLine_lt _h

namespace StdoutAccumulator

def feed (a : StdoutAccumulator) (chunk : Bytes) : Except StdoutError StdoutAccumulator :=
  let total := a.totalBytes+chunk.length
  if config.maxStdoutBytes < total then .error (stdoutBudget config)
  else do
    let drained ← drain host config a.summary (a.pending++chunk)
    .ok ⟨total,drained.1,feedTail a.tail chunk,drained.2⟩

def finish (a : StdoutAccumulator) : Except StdoutError StdoutAccumulator :=
  if a.pending=[] then .ok a
  else do
    let summary ← consumeLine host config a.summary a.pending
    .ok {a with pending := [],summary := summary}

end StdoutAccumulator

/-- `_read_stdout_stream`: every chunk is fed, then the stream ends. -/
def readStdoutStream (chunks : List Bytes) : Except StdoutError StdoutAccumulator := do
  let a ← chunks.foldlM (fun a chunk => a.feed host config chunk) ({} : StdoutAccumulator)
  a.finish host config

/-! What a stream says -/

def lineEvent (rawLine : Bytes) : Option Value :=
  let line := stripBytes rawLine
  if line.head?≠some 123 then none
  else
    match plainLoads host.interpreter (decodeReplace 0 line) with
    | .error _ => none
    | .ok event => some event

/-- The fold of the lines of a stream; one without a usable event is passed over. -/
def summaryOf (stream : Bytes) : EventSummary :=
  (allLines newline stream).foldl
    (fun s line => (lineEvent host line).elim s (applyEvent host config s)) {}

structure Within (stream : Bytes) : Prop where
  total : stream.length≤config.maxStdoutBytes
  lines : ∀line∈allLines newline stream,line.length≤config.maxJsonLineBytes

/-- `json.loads` raises something else than `JSONDecodeError` for the line. -/
def Raises (rawLine : Bytes) : Prop :=
  (stripBytes rawLine).head?=some 123 ∧
    ∃e,e≠.decode ∧ plainLoads host.interpreter (decodeReplace 0 (stripBytes rawLine))=.error e

end XiaoQing.Codex
