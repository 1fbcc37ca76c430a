import XiaoQing.Chat.PartItems

namespace XiaoQing.Chat.Parts

open Commands Framework

variable {N : Numerals} {h : KeyHash} {store : Option Registry} {t : Text} {j k : Nat}
  {ts cs marks : List Text} {parts : List Part} {x y : MediaItem} {items : List MediaItem}

def contentTokens (parts : List Part) : List Token :=
  trim ((legacyChunks [] 0 (normalizeMessageParts parts)).1.flatMap Chunk.tokens)

def markers (h : KeyHash) (store : Option Registry) (items : List MediaItem) : List Text :=
  (resolvedItems h store items).map renderMediaMarker

/-- What `rebuild_message_content` puts in every place of the stored text. -/
def shownSlots (N : Numerals) (h : KeyHash) (store : Option Registry) (parts : List Part) :
    List Slot :=
  let legacy := messagePartsToFullLegacy parts
  rebuildSlots N (numbered 0 (markers h store legacy.2)) legacy.1

def ownSlots (h : KeyHash) (store : Option Registry) (parts : List Part) : List Slot :=
  (contentTokens parts).map fun
    | .inl c => .inl c
    | .inr k => .inr (ownMarker 0 (markers h store (mediaItems (normalizeMessageParts parts))) k)

structure Agrees (N : Numerals) (h : KeyHash) (store : Option Registry)
    (parts : List Part) : Prop where
  roundTrip : messagePartsToLegacy h (buildMessageParts N h none (messagePartsToLegacy h parts).1
    (messagePartsToLegacy h parts).2)=messagePartsToLegacy h parts
  items : (messagePartsToLegacy h parts).2=keptItems h (mediaItems (normalizeMessageParts parts))
  slots : shownSlots N h store parts=ownSlots h store parts
  rendered : renderMessageParts N h store parts=strip ((ownSlots h store parts).flatMap Slot.shown)

/-- The stored form says what the parts say: a text without items has no carriage return; with items no
text between them imitates a placeholder, newlines alone do not follow a text before an item, and
the items without a marker come last. -/
def Plain (N : Numerals) (h : KeyHash) (store : Option Registry) (parts : List Part) :
    Prop :=
  let parts := normalizeMessageParts parts
  if mediaItems parts=[] then ∀t∈textRuns parts, '\r'∉strip t
  else (∀t∈textRuns parts,hasMatch (placeholderAt N) t=false)∧settledFrom isSpace [] parts=true∧
    MarkersFirst (markers h store (mediaItems parts))

def Kinded (items : List MediaItem) : Prop := ∀x∈items,strip x.kind≠[]

theorem Kinded.refs (hx : Kinded items) (h : KeyHash) :
    normalizeMediaRefs h items=items.map (normalizeMediaRef h)∧Kinded (items.map (normalizeMediaRef h)) := by
  constructor
  · unfold normalizeMediaRefs
    rw [List.filter_eq_self]
    intro y hy
    obtain ⟨x,hin,rfl⟩ := List.mem_map.mp hy
    rw [decide_eq_true_eq]
    intro hnil
    exact hx x hin (congrArg MediaItem.kind hnil)
  · intro y hy
    obtain ⟨x,hin,rfl⟩ := List.mem_map.mp hy
    change strip (strip x.kind)≠[]
    rw [strip_strip]
    exact hx x hin

theorem resolveItem_kind (entries : Registry) (hx : strip x.kind≠[]) :
    strip (resolveItem entries x).kind≠[] := by
  unfold resolveItem
  split_ifs
  · exact hx
  · dsimp only
    split_ifs with hkind
    · rw [strip_strip]
      exact hkind
    · exact hx

theorem Kinded.resolve (hx : Kinded items) (h : KeyHash) (store : Option Registry) :
    (resolveRegisteredMediaItems h store items).length=items.length := by
  obtain ⟨hrefs,hkinds⟩ := hx.refs h
  unfold resolveRegisteredMediaItems
  cases store with
  | none =>
    dsimp only
    rw [hrefs,List.length_map]
  | some entries =>
    dsimp only
    have hknown : Kinded ((normalizeMediaRefs h items).map fun x =>
        resolveItem entries (normalizeMediaRef h x)) := by
      intro y hy
      obtain ⟨x,hin,rfl⟩ := List.mem_map.mp hy
      rw [hrefs] at hin
      apply resolveItem_kind
      change strip (strip x.kind)≠[]
      rw [strip_strip]
      exact hkinds x hin
    split_ifs
    · rw [(hknown.refs h).1,hrefs,List.length_map,List.length_map,List.length_map]
    · rw [hrefs,List.length_map]

end XiaoQing.Chat.Parts
