import Mathlib.Data.List.Dedup
import XiaoQing.Commands.CommandRouter

namespace XiaoQing.Chat.Parts

open Commands

structure MediaItem where
  kind : Text := []
  mediaKey : Text := []
  mediaHash : Text := []
  faceId : Text := []
  marker : Text := []
  description : Text := []
  filePath : Text := []
  label : Text := []
  mode : Text := []
  culturalHint : Text := []
  emotionTags : List Text := []
  aliases : List Text := []
deriving DecidableEq

def imageKind : Text := "image".toList

def emojiKind : Text := "emoji".toList

def faceKind : Text := "qq_face".toList

def mediaKinds : List Text := [imageKind,emojiKind,faceKind]

/-- `hashlib.sha1(…).hexdigest()` and `str.lower`. -/
structure KeyHash where
  sha1 : Text → Text
  lower : Text → Text
  hex : ∀t,∀c∈sha1 t,isSpace c=false

def normalizeMediaPart (x : MediaItem) : Option MediaItem :=
  let tags (l : List Text) := (l.map strip).filter (· ≠ [])
  if strip x.kind∈mediaKinds then
    some
      { kind := strip x.kind
        mediaKey := strip x.mediaKey
        mediaHash := strip x.mediaHash
        faceId := strip x.faceId
        marker := strip x.marker
        description := strip x.description
        filePath := strip x.filePath
        label := strip x.label
        mode := strip x.mode
        culturalHint := strip x.culturalHint
        emotionTags := tags x.emotionTags
        aliases := tags x.aliases }
  else none

def cleanTextList (values : List Text) : List Text :=
  values.foldl (fun cleaned item =>
    if strip item≠[]∧strip item∉cleaned then cleaned++[strip item] else cleaned) []

def stableMediaKey (h : KeyHash) (x : MediaItem) : Text :=
  if strip x.mediaKey≠[] then strip x.mediaKey
  else if strip x.faceId≠[] then "qq_face:".toList++strip x.faceId
  else if strip x.mediaHash≠[] then "media:".toList++strip x.mediaHash
  else if strip x.filePath≠[] then "file:".toList++h.sha1 (h.lower (strip x.filePath))
  else if strip x.marker≠[] then "marker:".toList++h.sha1 (strip x.marker)
  else []

def normalizeMediaRef (h : KeyHash) (x : MediaItem) : MediaItem where
  kind := strip x.kind
  mediaKey := stableMediaKey h x
  mediaHash := strip x.mediaHash
  faceId := strip x.faceId
  marker := strip x.marker
  description := strip x.description
  filePath := strip x.filePath
  label := strip x.label
  mode := strip x.mode
  emotionTags := cleanTextList x.emotionTags
  aliases := cleanTextList x.aliases

def normalizeMediaRefs (h : KeyHash) (items : List MediaItem) : List MediaItem :=
  (items.map (normalizeMediaRef h)).filter (· ≠ {})

/-- What is kept of a reference; a key stands for what the registry knows. -/
def compactMediaItem (x : MediaItem) : MediaItem :=
  let compact : MediaItem :=
    { kind := strip x.kind
      mediaKey := strip x.mediaKey
      mediaHash := strip x.mediaHash
      faceId := strip x.faceId
      marker := strip x.marker
      mode := strip x.mode }
  if compact.mediaKey≠[] then compact
  else
    {compact with
      description := strip x.description
      label := strip x.label
      filePath := strip x.filePath
      emotionTags := cleanTextList x.emotionTags
      aliases := cleanTextList x.aliases}

def compactMediaItems (h : KeyHash) (items : List MediaItem) : List MediaItem :=
  ((normalizeMediaRefs h items).map compactMediaItem).filter (· ≠ {})

/-- The entries of the registry; a key without an entry has an empty one. -/
abbrev Registry := Text → MediaItem

/-- `_resolve_item_locked`: what the registry knows is laid on top of the item. -/
def resolveItem (entries : Registry) (x : MediaItem) : MediaItem :=
  if strip x.mediaKey=[] then x
  else
    let existing := entries (strip x.mediaKey)
    let pick (old new : Text) := if strip new≠[] then strip new else old
    let pickAll (old new : List Text) := if cleanTextList new≠[] then cleanTextList new else old
    {x with
      kind := pick x.kind existing.kind
      mediaHash := pick x.mediaHash existing.mediaHash
      faceId := pick x.faceId existing.faceId
      marker := pick x.marker existing.marker
      description := pick x.description existing.description
      filePath := pick x.filePath existing.filePath
      label := pick x.label existing.label
      emotionTags := pickAll x.emotionTags existing.emotionTags
      aliases := pickAll x.aliases existing.aliases
      mediaKey := strip x.mediaKey}

def resolveRegisteredMediaItems (h : KeyHash) (store : Option Registry) (items : List MediaItem) :
    List MediaItem :=
  match store with
  | none => normalizeMediaRefs h items
  | some entries =>
    let known := (normalizeMediaRefs h items).map fun x => resolveItem entries (normalizeMediaRef h x)
    let resolved := normalizeMediaRefs h known
    if resolved≠[] then resolved else normalizeMediaRefs h items

/-! The text that a model is shown for an item -/

def labelStarts : List Text := ["[图片：".toList,"[表情包：".toList,"[QQ表情：".toList]

def extractMarkerLabel (marker : Text) : Text :=
  let text := strip marker
  match labelStarts.find? (·.isPrefixOf text) with
  | none => []
  | some start =>
    let body := text.drop start.length
    if body.getLast?=some ']'∧body.dropLast≠[]∧ ']'∉body.dropLast then strip body.dropLast else []

def genericMediaLabels : List Text :=
  ["图片","表情","表情包","动画表情","聊天表情包","一张图片","一张表情包","一张聊天表情包",
    "图片内容读取失败","图片内容暂时无法识别","无法读取图片内容"].map String.toList

/-- `re.sub(r"^(QQ表情|表情包|图片)\s*[：:]", "", text)` -/
def withoutLabelStart (text : Text) : Text :=
  match ["QQ表情".toList,"表情包".toList,"图片".toList].find? (·.isPrefixOf text) with
  | none => text
  | some start =>
    match (text.drop start.length).dropWhile isSpace with
    | '：'::rest => rest
    | ':'::rest => rest
    | _ => text

def normalizeMediaLabel (value : Text) : Text :=
  let text := strip value
  let inner := if text.head?=some '['∧text.getLast?=some ']' then strip (text.drop 1).dropLast else text
  (withoutLabelStart inner).filter fun c => !isSpace c

def isGenericMediaLabel (value : Text) : Bool :=
  normalizeMediaLabel value=[] || normalizeMediaLabel value∈genericMediaLabels

def visibleStart : Text := "文字内容是“".toList

/-- The text in `文字内容是“…”`, on one line to the end. -/
def visibleText (t : Text) : Option Text :=
  if visibleStart.isPrefixOf t then
    let body := t.drop visibleStart.length
    if body.getLast?=some '”'∧body.dropLast≠[]∧ '\n'∉body.dropLast then some body.dropLast else none
  else none

/-- `split_visible_text` on a text of at least one character: the shortest start before a comma after
which the rest is visible text. -/
def splitAtComma (before : Text) : Text → Option (Text × Text)
  | [] => none
  | c::t =>
    if c= '\n' then none
    else
      match if c= '，'∧before≠[] then visibleText t else none with
      | some visible => some (before,visible)
      | none => splitAtComma (before++[c]) t

def splitVisibleText (description : Text) : Text × Text :=
  let text := strip description
  match splitAtComma [] text with
  | some (clean,visible) => (strip clean,strip visible)
  | none =>
    match visibleText text with
    | some visible => ([],strip visible)
    | none => (text,[])

def emojiSummaryMarker (label cleanDesc visible : Text) : Text :=
  let label := strip label
  let content := strip cleanDesc
  let speech := strip visible
  let content := if content≠[]∧(isGenericMediaLabel content∨
      normalizeMediaLabel content=normalizeMediaLabel label) then [] else content
  if content=[]∧speech=[] then []
  else
    let pieces := [if label≠[] then label else "一张表情包".toList]++
      (if content≠[] then ["内容：".toList++content] else [])++
      (if speech≠[] then ["写着“".toList++speech++"”".toList] else [])
    "[表情包：".toList++['；'].intercalate pieces++[']']

def firstOf (texts : List Text) : Text := (texts.find? (· ≠ [])).getD []

def renderMediaMarker (x : MediaItem) : Text :=
  let marker := strip x.marker
  let description := strip x.description
  let label := strip x.label
  let emotionTags := cleanTextList x.emotionTags
  let aliases := cleanTextList x.aliases
  if strip x.kind=faceKind then
    let numbered := if strip x.faceId≠[] then "系统表情#".toList++strip x.faceId else []
    let shown := firstOf [label,description,aliases.headD [],extractMarkerLabel marker,numbered]
    if shown≠[] then "[QQ表情：".toList++shown++[']'] else marker
  else if strip x.kind=emojiKind then
    let (cleanDesc,visible) := splitVisibleText description
    let tags := strip (['，'].intercalate (emotionTags.take 2))
    let text := firstOf [tags,extractMarkerLabel marker,cleanDesc,description,"一张表情包".toList]
    firstOf [emojiSummaryMarker text cleanDesc visible,"[表情包：".toList++text++[']']]
  else if strip x.kind=imageKind then
    "[图片：".toList++firstOf [description,extractMarkerLabel marker,"一张图片".toList]++[']']
  else firstOf [marker,description]

end XiaoQing.Chat.Parts
