import XiaoQing.Chat.History
import XiaoQing.Chat.MediaItems
import XiaoQing.Framework.Scan
import Mathlib.Data.List.Infix

namespace XiaoQing.Chat.Parts

open Commands Framework

/-- A message part; what is no dict, or of no known kind, never gets this far. -/
inductive Part
  | text (t : Text)
  | media (x : MediaItem)

def normalizeMessageParts (parts : List Part) : List Part :=
  parts.filterMap fun
    | .text t => if t≠[] then some (.text t) else none
    | .media x => (normalizeMediaPart x).map .media

/-- The values of the characters that `\d` matches: neither white space nor a bracket is one. -/
structure Numerals extends Decimals where
  plain : ∀c,isSpace c=true ∨ c= '['∨c= ']' → digit c=none

/-! The two patterns -/

def placeholderStart : Text := "[[xc_media_".toList

/-- `_MEDIA_PLACEHOLDER_TEMPLATE` -/
def mediaPlaceholder (index : Nat) : Text :=
  placeholderStart++(Nat.toDigits 10 (max 1 index)++[']',']'])

/-- `MEDIA_PLACEHOLDER_RE` at the start of a text: how much follows the first character. -/
def placeholderAt (N : Numerals) (t : Text) : Option Nat :=
  if placeholderStart.isPrefixOf t then
    let digits := (t.drop 11).takeWhile fun c => (N.digit c).isSome
    if digits≠[]∧[']',']'].isPrefixOf ((t.drop 11).drop digits.length) then some (digits.length+12)
    else none
  else none

/-- `max(0, int(match.group(1)) - 1)` -/
def mediaIndex (N : Numerals) (placeholder : Text) : Nat :=
  (N.numeral ((placeholder.drop 11).dropLast.dropLast)).getD 0-1

/-- `_MEDIA_MARKER_RE` -/
def markerAt (t : Text) : Option Nat :=
  match labelStarts.find? (·.isPrefixOf t) with
  | none => none
  | some start =>
    let body := (t.drop start.length).takeWhile fun c => c≠ ']'∧c≠ '\n'
    if body.length ≤ 1000∧((t.drop start.length).drop body.length).head?=some ']' then
      some (start.length+body.length)
    else none

def hasMatch (m : Text → Option Nat) (t : Text) : Bool := (scan m 0 t).any Sum.isRight

/-! From parts to the stored text -/

/-- A piece of the stored text: of a media part, how many came before it. -/
inductive Chunk
  | text (t : Text)
  | hole (k : Nat)

def Chunk.shown : Chunk → Text
  | .text t => t
  | .hole k => mediaPlaceholder (k+1)

def isNewline (c : Char) : Bool := c= '\n'

def lstripNewlines (t : Text) : Text := t.dropWhile isNewline

def rstripNewlines (t : Text) : Text := t.rdropWhile isNewline

/-- A text after newlines that were held back: of two runs of newlines the longer one stays. -/
def withPending (pending raw : Text) : Text :=
  if pending≠[]∧raw.head?=some '\n' then
    List.replicate (max (pending.length-(lstripNewlines pending).length)
      (raw.length-(lstripNewlines raw).length)) '\n'++lstripNewlines raw
  else pending++raw

/-- The newlines of this text are held back until after the media part that follows. -/
def holdsBack (text : Text) : List Part → Bool
  | .media _::_ => text.getLast?=some '\n' && text.any (!isNewline ·)
  | _ => false

/-- The chunks and the items, with the newlines held back and the number of items so far. -/
def legacyChunks (pending : Text) (k : Nat) : List Part → List Chunk × List MediaItem
  | [] => (if pending=[] then [] else [.text pending],[])
  | .text raw::rest =>
    let text := withPending pending raw
    if holdsBack text rest then
      let stripped := rstripNewlines text
      let after := legacyChunks (text.drop stripped.length) k rest
      (.text stripped::after.1,after.2)
    else
      let after := legacyChunks [] k rest
      (.text text::after.1,after.2)
  | .media x::rest =>
    match normalizeMediaPart x with
    | none => legacyChunks pending k rest
    | some item =>
      let after := legacyChunks pending (k+1) rest
      (.hole k::after.1,item::after.2)

def messagePartsToFullLegacy (parts : List Part) : Text × List MediaItem :=
  let chunks := legacyChunks [] 0 (normalizeMessageParts parts)
  (strip (chunks.1.flatMap Chunk.shown),chunks.2)

def messagePartsToLegacy (h : KeyHash) (parts : List Part) : Text × List MediaItem :=
  let legacy := messagePartsToFullLegacy parts
  (legacy.1,compactMediaItems h legacy.2)

/-! From the stored text to what is shown -/

/-- What stands at a place of the rebuilt text: a character, or at a match the marker of an item, which
is numbered. -/
abbrev Slot := Char ⊕ Option (Nat × Text)

def Slot.shown : Slot → Text
  | .inl c => [c]
  | .inr marker => marker.elim [] Prod.snd

def numbered (k : Nat) : List Text → List (Nat × Text)
  | [] => []
  | marker::rest => if marker≠[] then (k,marker)::numbered (k+1) rest else numbered (k+1) rest

def markerSlots (markers : List (Nat × Text)) : List (Char ⊕ Text) → List Slot
  | [] => []
  | .inl c::rest => .inl c::markerSlots markers rest
  | .inr found::rest =>
    match markers with
    | marker::markers => .inr (some marker)::markerSlots markers rest
    | [] => found.map .inl++markerSlots [] rest

def placeholderSlots (N : Numerals) (markers : List (Nat × Text)) (t : Text) : List Slot :=
  (scan (placeholderAt N) 0 t).map fun
    | .inl c => .inl c
    | .inr found => .inr markers[mediaIndex N found]?

/-- The text with the markers in their places, before those without a place are added. -/
def rebuildSlots (N : Numerals) (markers : List (Nat × Text)) (text : Text) : List Slot :=
  if markers=[] then text.map .inl
  else if hasMatch (placeholderAt N) text then placeholderSlots N markers text
  else markerSlots markers (scan markerAt 0 text)

/-- `marker in rebuilt`, or the marker on a line of its own. -/
def appendMarker (rebuilt marker : Text) : Text :=
  if marker <:+: rebuilt then rebuilt
  else if rebuilt≠[] then strip (rebuilt++('\n'::marker)) else marker

def rebuildMessageContent (N : Numerals) (content : Text) (items : List MediaItem) : Text :=
  let text := strip content
  let markers := numbered 0 (items.map renderMediaMarker)
  if markers=[] then text
  else
    let slots := rebuildSlots N markers text
    if hasMatch (placeholderAt N) text then
      let used := slots.filterMap fun s => s.elim (fun _ => none) (Option.map Prod.fst)
      (markers.filter (·.1∉used)).foldl (fun rebuilt marker => appendMarker rebuilt marker.2)
        (strip (slots.flatMap Slot.shown))
    else
      markers.foldl (fun rebuilt marker => appendMarker rebuilt marker.2)
        (if hasMatch markerAt text then strip (slots.flatMap Slot.shown) else text)

/-- `resolve_message_content` -/
def resolvedItems (h : KeyHash) (store : Option Registry) (items : List MediaItem) :
    List MediaItem :=
  let items := normalizeMediaRefs h items
  let resolved := resolveRegisteredMediaItems h store items
  if resolved≠[] then resolved else items

def resolveMessageContent (N : Numerals) (h : KeyHash) (store : Option Registry)
    (content : Text) (items : List MediaItem) : Text :=
  if normalizeMediaRefs h items=[] then strip content
  else rebuildMessageContent N content (resolvedItems h store items)

def renderMessageParts (N : Numerals) (h : KeyHash) (store : Option Registry)
    (parts : List Part) : Text :=
  let legacy := messagePartsToFullLegacy parts
  if legacy.1=[]∧legacy.2=[] then []
  else resolveMessageContent N h store legacy.1 legacy.2

/-! From the stored text to parts -/

def resolveMediaItems (h : KeyHash) (store : Option Registry) (items : List MediaItem) :
    List MediaItem :=
  resolveRegisteredMediaItems h store (items.filterMap normalizeMediaPart)

/-- `text.replace("\r\n", "\n").replace("\r", "\n")` -/
def plainNewlines : Text → Text
  | [] => []
  | '\r':: '\n'::t => '\n'::plainNewlines t
  | '\r'::t => '\n'::plainNewlines t
  | c::t => c::plainNewlines t

/-- Where `str.splitlines` ends a line, once no carriage return is left. -/
def isLineEnd (c : Char) : Bool :=
  c∈[ '\n', '\x0b', '\x0c', '\x1c', '\x1d', '\x1e', '\u0085', '\u2028', '\u2029']

/-- `splitlines(keepends=True)` -/
def splitLines (line : Text) : Text → List Text
  | [] => if line=[] then [] else [line]
  | c::t => if isLineEnd c then (line++[c])::splitLines [] t else splitLines (line++[c]) t

def buildTextMessageParts (text : Text) : List Part :=
  normalizeMessageParts ((splitLines [] (plainNewlines text)).map .text)

def joinLines (pieces : List Text) : Text := strip (['\n'].intercalate (pieces.filter (· ≠ [])))

def placeholders (n : Nat) : List Text := (List.range n).map fun i => mediaPlaceholder (i+1)

def templateWithFallbackPlaceholders (N : Numerals) (template : Text) (items : List MediaItem) : Text :=
  let normalized := strip template
  let items := items.filterMap normalizeMediaPart
  if items=[] ∨ hasMatch (placeholderAt N) normalized then normalized
  else joinLines (normalized::placeholders items.length)

def textPart (t : Text) : List Part := if t≠[] then [.text t] else []

def mediaPart (x : MediaItem) : List Part := (normalizeMediaPart x).elim [] fun item => [.media item]

def templateParts (N : Numerals) (items : List MediaItem) (text : Text) :
    List (Char ⊕ Text) → List Part
  | [] => textPart text
  | .inl c::rest => templateParts N items (text++[c]) rest
  | .inr found::rest =>
    textPart text++(items[mediaIndex N found]?.elim [] mediaPart++templateParts N items [] rest)

def mediaLines : List MediaItem → List Part
  | [] => []
  | [x] => mediaPart x
  | x::rest => mediaPart x++(.text ['\n']::mediaLines rest)

def trailingParts (parts : List Part) (items : List MediaItem) : List Part :=
  if items=[] then []
  else
    match parts.getLast? with
    | some (.media _) => .text ['\n']::mediaLines items
    | _ => mediaLines items

def buildMessagePartsFromTemplate (N : Numerals) (h : KeyHash) (store : Option Registry)
    (template : Text) (items : List MediaItem) : List Part :=
  let resolved := resolveMediaItems h store items
  let normalized := templateWithFallbackPlaceholders N template resolved
  if normalized=[]∧resolved=[] then []
  else
    let tokens := scan (placeholderAt N) 0 normalized
    let parts := templateParts N resolved [] tokens
    let consumed := tokens.filterMap fun t => t.elim (fun _ => none) (some ∘ mediaIndex N)
    let trailing := (resolved.zipIdx.filter (·.2∉consumed)).map Prod.fst
    normalizeMessageParts (parts++trailingParts parts trailing)

/-- The markers of a text become placeholders in their order, as long as there are items. -/
def compactMarkers (n k : Nat) : List (Char ⊕ Text) → Text
  | [] => []
  | .inl c::rest => c::compactMarkers n k rest
  | .inr found::rest =>
    (if k < n then mediaPlaceholder (k+1) else found)++compactMarkers n (k+1) rest

def compactMessageContent (content : Text) (items : List MediaItem) : Text :=
  let text := strip content
  if items=[] then text
  else if hasMatch markerAt text then
    let tokens := scan markerAt 0 text
    let replaced := min items.length (tokens.filter Sum.isRight).length
    let compacted := strip (compactMarkers items.length 0 tokens)
    let trailing := (placeholders items.length).drop replaced
    if trailing≠[] then joinLines (compacted::trailing) else compacted
  else joinLines (text::placeholders items.length)

def buildMessageParts (N : Numerals) (h : KeyHash) (store : Option Registry)
    (content : Text) (items : List MediaItem) : List Part :=
  let resolved := resolveMediaItems h store items
  if resolved=[] then buildTextMessageParts content
  else if hasMatch (placeholderAt N) content then
    buildMessagePartsFromTemplate N h none content resolved
  else
    buildMessagePartsFromTemplate N h none
      (compactMessageContent (rebuildMessageContent N content resolved) resolved) resolved

end XiaoQing.Chat.Parts
