import XiaoQing.Commands.CommandRouter
import XiaoQing.Framework.ThreeWay
import Mathlib.Data.Char
import Mathlib.Data.List.Lex
import Mathlib.Data.List.Sort

namespace XiaoQing.Chat.Jargon

open Framework Commands OrderedDict

structure JargonRecord where
  content : Text
  scopeChatId : Text
  meaning : Text
  rawContent : List Text
  chatIdCounts : List (Text × Nat)
  isGlobal : Bool
  count : Nat
  isComplete : Bool
  lastInferenceCount : Nat
  updatedAt : Nat
  usage : Text
  tone : Text
  source : Text

def keyFor (content chatId : Text) : Text :=
  if strip chatId=[] then strip content else strip chatId++Char.ofNat 31::strip content

def recordKey (r : JargonRecord) : Text := keyFor r.content (if r.isGlobal then [] else r.scopeChatId)

def stringList (value : List Text) : List Text := (value.map strip).filter fun t => decide (t≠[])

def chatCountList (value : List (Text × Nat)) : List (Text × Nat) :=
  (value.map fun e => (strip e.1,e.2)).filter fun e => decide (e.1≠[])

/-- What `_read_records` makes of a member of the file; a member that is no record reads as blank. -/
def readRecord (r : JargonRecord) : JargonRecord :=
  {r with
    content := strip r.content,scopeChatId := strip r.scopeChatId,meaning := strip r.meaning,
    rawContent := stringList r.rawContent,chatIdCounts := chatCountList r.chatIdCounts,
    usage := strip r.usage,tone := strip r.tone,source := strip r.source}

def readRecords (file : List JargonRecord) : OrderedDict Text JargonRecord :=
  ofItems recordKey ((file.map readRecord).filter fun r => decide (r.content≠[]))

def countMap (values : List (Text × Nat)) : OrderedDict Text Nat :=
  (chatCountList values).foldl (fun d e => d.assign e.1 e.2) []

def countsLe (a b : Text × Nat) : Prop := b.2<a.2∨a.2=b.2∧a.1 ≤ b.1

instance : DecidableRel countsLe := by
  unfold countsLe
  infer_instance

def sortCounts (counts : List (Text × Nat)) : List (Text × Nat) :=
  ((counts.insertionSort countsLe).filter fun e => decide (0<e.2)).take 30

def mergeCount (baseline counts : OrderedDict Text Nat) (e : Text × Nat) : OrderedDict Text Nat :=
  if (baseline.get? e.1).isSome && (counts.get? e.1).isNone then counts
  else counts.assign e.1
    ((((counts.get? e.1).getD 0 : Nat) : Int)+((e.2 : Int)-((baseline.get? e.1).getD 0 : Nat))).toNat

def mergeCounts (latest baseline desired : List (Text × Nat)) : List (Text × Nat) :=
  sortCounts ((countMap desired).foldl (mergeCount (countMap baseline)) (countMap latest))

/-- `[-n:]`. -/
def lastItems (n : Nat) (l : List Text) : List Text := l.drop (l.length-n)

def addMissing (l : List Text) (t : Text) : List Text := if t∈l then l else l++[t]

def mergeRaw (latest baseline desired : List Text) : List Text :=
  lastItems 20 ((desired.filter fun t => decide (t∉baseline)).foldl addMissing
    (latest.filter fun t => decide ¬(t∈baseline∧t∉desired)))

/-- What is changed against the baseline, where nobody else has changed it. -/
def mergeField {α : Type} [DecidableEq α] (baseline : Option α) (latest desired : α) : α :=
  if some desired≠baseline∧some latest=baseline then desired else latest

def mergeRecord (latest baseline : Option JargonRecord) (desired : JargonRecord) : JargonRecord :=
  match latest with
  | none => desired
  | some latest =>
    {content := mergeField (baseline.map JargonRecord.content) latest.content desired.content,
      scopeChatId := mergeField (baseline.map JargonRecord.scopeChatId) latest.scopeChatId
        desired.scopeChatId,
      meaning := mergeField (some ((baseline.map JargonRecord.meaning).getD [])) latest.meaning
        desired.meaning,
      rawContent := mergeRaw latest.rawContent ((baseline.map JargonRecord.rawContent).getD [])
        desired.rawContent,
      chatIdCounts := mergeCounts latest.chatIdCounts
        ((baseline.map JargonRecord.chatIdCounts).getD []) desired.chatIdCounts,
      isGlobal := mergeField (baseline.map JargonRecord.isGlobal) latest.isGlobal desired.isGlobal,
      count := ((latest.count : Int)+
        ((desired.count : Int)-((baseline.map JargonRecord.count).getD 0 : Nat))).toNat,
      isComplete := latest.isComplete || desired.isComplete,
      lastInferenceCount := max latest.lastInferenceCount desired.lastInferenceCount,
      updatedAt := max latest.updatedAt desired.updatedAt,
      usage := mergeField (baseline.map JargonRecord.usage) latest.usage desired.usage,
      tone := mergeField (baseline.map JargonRecord.tone) latest.tone desired.tone,
      source := mergeField (baseline.map JargonRecord.source) latest.source desired.source}

structure JargonSnapshot where
  records : OrderedDict Text JargonRecord
  baseline : OrderedDict Text JargonRecord

def load (file : List JargonRecord) : JargonSnapshot := ⟨readRecords file,readRecords file⟩

def JargonSnapshot.desired (p : JargonSnapshot) : OrderedDict Text JargonRecord :=
  ofItems recordKey (p.records.map Prod.snd)

/-- `save`: the file that is written. -/
def save (p : JargonSnapshot) (file : List JargonRecord) : List JargonRecord :=
  mergeValues mergeRecord (readRecords file) p.baseline p.desired

/-- The record of `latest` that `clear` keeps, and how. -/
def keepRecord (target : Text) (r : JargonRecord) : Option JargonRecord :=
  if r.isGlobal=false∧r.scopeChatId=target then none
  else if r.isGlobal then
    some {r with chatIdCounts := r.chatIdCounts.filter fun e => decide (strip e.1≠target)}
  else some r

/-- `clear`: the file that is written. -/
def clear (chatId : Text) (file : List JargonRecord) : List JargonRecord :=
  if strip chatId=[] then file
  else (ofItems recordKey
    (((readRecords file).map Prod.snd).filterMap (keepRecord (strip chatId)))).map Prod.snd

/-! What the miner changes in memory -/

def bumpChatCount (counts : List (Text × Nat)) (chatId : Text) : List (Text × Nat) :=
  let out := counts.map fun e => if e.1=chatId then (e.1,e.2+1) else e
  ((if chatId∈counts.map Prod.fst then out else out++[(chatId,1)]).insertionSort countsLe).take 30

/-- `_apply_candidate` on a record: a term seen once more. -/
def observeRecord (chatId context : Text) (now : Nat) (r : JargonRecord) : JargonRecord :=
  {r with
    count := r.count+1,updatedAt := now,chatIdCounts := bumpChatCount r.chatIdCounts chatId,
    rawContent :=
      if context≠[]∧context∉r.rawContent then lastItems 20 (r.rawContent++[context]) else r.rawContent}

/-- The record that `_apply_candidate` makes for a new term. -/
def newRecord (term chatId : Text) (now : Nat) : JargonRecord :=
  ⟨term,chatId,[],[],[],false,0,false,0,now,[],[],[]⟩

def JargonSnapshot.observe (p : JargonSnapshot) (term chatId context : Text) (now : Nat) :
    JargonSnapshot :=
  let r := (p.records.get? (keyFor term chatId)).getD (newRecord term chatId now)
  {p with records := p.records.assign (keyFor term chatId) (observeRecord chatId context now r)}

def setMeaning (meaning : Text) (inferred : Bool) (now : Nat) (r : JargonRecord) : JargonRecord :=
  {r with
    meaning,isComplete := true,updatedAt := now,
    lastInferenceCount := if inferred then r.count else r.lastInferenceCount}

def JargonSnapshot.explain (p : JargonSnapshot) (key meaning : Text) (inferred : Bool) (now : Nat) :
    JargonSnapshot :=
  match p.records.get? key with
  | some r => {p with records := p.records.assign key (setMeaning meaning inferred now r)}
  | none => p

/-! Clean records: what is read of them is what is written -/

structure Clean (r : JargonRecord) : Prop where
  content : strip r.content=r.content∧r.content≠[]
  scope : strip r.scopeChatId=r.scopeChatId
  meaning : strip r.meaning=r.meaning
  raw : ∀t∈r.rawContent,strip t=t∧t≠[]
  counts : ∀e∈r.chatIdCounts,strip e.1=e.1∧e.1≠[]
  usage : strip r.usage=r.usage
  tone : strip r.tone=r.tone
  source : strip r.source=r.source

section

variable {r b d l : JargonRecord} {file : List JargonRecord} {t u : Text} {chat context : Text} {now : Nat}
  {counts : List (Text × Nat)} {key : Text}

theorem map_fixed {α : Type*} {f : α → α} {l : List α} (h : ∀x∈l,f x=x) : l.map f=l :=
  (List.map_congr_left h).trans (List.map_id' l)

theorem stringList_of_clean {value : List Text} (h : ∀t∈value,strip t=t∧t≠[]) : stringList value=value := by
  unfold stringList
  rw [map_fixed fun t ht => (h t ht).1,List.filter_eq_self]
  exact fun t ht => decide_eq_true (h t ht).2

theorem mem_stringList {value : List Text} (h : t∈stringList value) : strip t=t∧t≠[] := by
  obtain ⟨hmem,hne⟩ := List.mem_filter.mp h
  obtain ⟨u,-,rfl⟩ := List.mem_map.mp hmem
  exact ⟨strip_strip u,of_decide_eq_true hne⟩

theorem chatCountList_of_clean (h : ∀e∈counts,strip e.1=e.1∧e.1≠[]) : chatCountList counts=counts := by
  unfold chatCountList
  have hmap : (counts.map fun e => (strip e.1,e.2))=counts :=
    map_fixed fun e he => Prod.ext (h e he).1 rfl
  rw [hmap,List.filter_eq_self]
  exact fun e he => decide_eq_true (h e he).2

variable {e : Text × Nat}

theorem mem_chatCountList (h : e∈chatCountList counts) : strip e.1=e.1∧e.1≠[] := by
  obtain ⟨hmem,hne⟩ := List.mem_filter.mp h
  obtain ⟨a,-,rfl⟩ := List.mem_map.mp hmem
  exact ⟨strip_strip a.1,of_decide_eq_true hne⟩

theorem readRecord_of_clean (h : Clean r) : readRecord r=r := by
  unfold readRecord
  rw [h.content.1,h.scope,h.meaning,h.usage,h.tone,h.source,stringList_of_clean h.raw,
    chatCountList_of_clean h.counts]

theorem clean_readRecord (h : (readRecord r).content≠[]) : Clean (readRecord r) :=
  ⟨⟨strip_strip _,h⟩,strip_strip _,strip_strip _,fun _ => mem_stringList,fun _ => mem_chatCountList,
    strip_strip _,strip_strip _,strip_strip _⟩

structure Keyed (m : OrderedDict Text JargonRecord) : Prop where
  nodup : (m.map Prod.fst).Nodup
  clean : ∀k r,m.get? k=some r → Clean r∧recordKey r=k

theorem keyed_readRecords (file : List JargonRecord) : Keyed (readRecords file) := by
  refine ⟨ofItems_nodup,fun k r h => ?_⟩
  obtain ⟨hmem,hkey⟩ := mem_ofItems (mem_of_get? h)
  obtain ⟨hin,hne⟩ := List.mem_filter.mp hmem
  obtain ⟨q,-,heq⟩ := List.mem_map.mp hin
  dsimp only at heq hkey hne
  subst heq
  exact ⟨clean_readRecord (of_decide_eq_true hne),hkey.symm⟩

theorem ofItems_keyed {m : OrderedDict Text JargonRecord} (h : Keyed m) :
    ofItems recordKey (m.map Prod.snd)=m := by
  have hpair : ∀e∈m,recordKey e.2=e.1 := fun e he => (h.clean e.1 e.2 (get?_of_mem h.nodup he)).2
  have hkeys : (m.map Prod.snd).map recordKey=m.map Prod.fst := by
    rw [List.map_map]
    exact List.map_congr_left hpair
  rw [ofItems_eq (by rw [hkeys]; exact h.nodup),List.map_map]
  exact map_fixed fun e he => Prod.ext (hpair e he) rfl

theorem readRecords_of_clean (hc : ∀r∈file,Clean r) (hn : (file.map recordKey).Nodup) :
    readRecords file=file.map fun r => (recordKey r,r) := by
  unfold readRecords
  rw [map_fixed fun r hr => readRecord_of_clean (hc r hr),List.filter_eq_self.mpr fun r hr => decide_eq_true (hc r hr).content.2,ofItems_eq hn]

/-! Per-chat counts -/

theorem countsLe_trans {a b c : Text × Nat} (hab : countsLe a b) (hbc : countsLe b c) : countsLe a c := by
  unfold countsLe at *
  rcases hab with hab | ⟨hab,hab'⟩
  · rcases hbc with hbc | ⟨hbc,-⟩
    · exact .inl (hbc.trans hab)
    · exact .inl (hbc ▸ hab)
  · rcases hbc with hbc | ⟨hbc,hbc'⟩
    · exact .inl (hab ▸ hbc)
    · exact .inr ⟨hab.trans hbc,le_trans hab' hbc'⟩

theorem countsLe_total (a b : Text × Nat) : countsLe a b∨countsLe b a := by
  unfold countsLe
  rcases Nat.lt_trichotomy a.2 b.2 with h | h | h
  · exact .inr (.inl h)
  · rcases le_total a.1 b.1 with hle | hle
    · exact .inl (.inr ⟨h,hle⟩)
    · exact .inr (.inr ⟨h.symm,hle⟩)
  · exact .inl (.inl h)

structure Ranked (counts : List (Text × Nat)) : Prop where
  nodup : (counts.map Prod.fst).Nodup
  sorted : counts.Pairwise countsLe
  positive : ∀e∈counts,0<e.2
  short : counts.length ≤ 30
  clean : ∀e∈counts,strip e.1=e.1∧e.1≠[]

theorem sortCounts_sorted : (sortCounts counts).Pairwise countsLe := by
  unfold sortCounts
  have htotal : Std.Total countsLe := ⟨countsLe_total⟩
  have htrans : IsTrans (Text × Nat) countsLe := ⟨fun _ _ _ => countsLe_trans⟩
  exact ((List.pairwise_insertionSort countsLe counts).filter _).sublist (List.take_sublist 30 _)

theorem mem_sortCounts (h : e∈sortCounts counts) : e∈counts∧0<e.2 := by
  obtain ⟨hmem,hpos⟩ := List.mem_filter.mp (List.mem_of_mem_take h)
  exact ⟨(List.mem_insertionSort _).mp hmem,of_decide_eq_true hpos⟩

theorem ranked_sortCounts (hn : (counts.map Prod.fst).Nodup)
    (hc : ∀e∈counts,strip e.1=e.1∧e.1≠[]) : Ranked (sortCounts counts) := by
  refine ⟨?_,sortCounts_sorted,fun e he => (mem_sortCounts he).2,?_,fun e he => hc e (mem_sortCounts he).1⟩
  · have hperm := (List.perm_insertionSort countsLe counts).map Prod.fst
    unfold sortCounts
    exact (hperm.nodup_iff.mpr hn).sublist (((List.take_sublist 30 _).trans List.filter_sublist).map _)
  · exact List.length_take_le 30 _

theorem countMap_nodup : ((countMap counts).map Prod.fst).Nodup := by
  unfold countMap
  generalize chatCountList counts=values
  induction values using List.reverseRecOn with
  | nil => exact List.nodup_nil
  | append_singleton values e ih =>
    rw [List.foldl_concat]
    exact nodup_assign ih

theorem mem_countMap (h : e∈countMap counts) : strip e.1=e.1∧e.1≠[] := by
  have hvalues : ∀e∈chatCountList counts,strip e.1=e.1∧e.1≠[] := fun e => mem_chatCountList
  unfold countMap at h
  generalize chatCountList counts=values at h hvalues
  induction values using List.reverseRecOn with
  | nil => cases h
  | append_singleton values a ih =>
    rw [List.foldl_concat] at h
    rcases mem_assign h with rfl | hold
    · exact hvalues a (List.mem_append_right _ (List.mem_singleton_self a))
    · exact ih hold fun e he => hvalues e (List.mem_append_left _ he)

theorem mergeCount_invariant {baseline : OrderedDict Text Nat} {m : OrderedDict Text Nat}
    (hn : (m.map Prod.fst).Nodup) (hc : ∀a∈m,strip a.1=a.1∧a.1≠[]) (he : strip e.1=e.1∧e.1≠[]) :
    ((mergeCount baseline m e).map Prod.fst).Nodup∧∀a∈mergeCount baseline m e,strip a.1=a.1∧a.1≠[] := by
  unfold mergeCount
  split_ifs
  · exact ⟨hn,hc⟩
  · refine ⟨nodup_assign hn,fun a ha => ?_⟩
    rcases mem_assign ha with rfl | hold
    · exact he
    · exact hc a hold

theorem ranked_mergeCounts (latest baseline desired : List (Text × Nat)) :
    Ranked (mergeCounts latest baseline desired) := by
  unfold mergeCounts
  have hdesired : ∀e∈countMap desired,strip e.1=e.1∧e.1≠[] := fun e => mem_countMap
  have hfold : (((countMap desired).foldl (mergeCount (countMap baseline)) (countMap latest)).map
      Prod.fst).Nodup∧∀e∈(countMap desired).foldl (mergeCount (countMap baseline)) (countMap latest),
        strip e.1=e.1∧e.1≠[] := by
    generalize countMap desired=values at hdesired ⊢
    induction values using List.reverseRecOn with
    | nil => exact ⟨countMap_nodup,fun e => mem_countMap⟩
    | append_singleton values a ih =>
      obtain ⟨hn,hc⟩ := ih fun e he => hdesired e (List.mem_append_left _ he)
      rw [List.foldl_concat]
      exact mergeCount_invariant hn hc (hdesired a (List.mem_append_right _ (List.mem_singleton_self a)))
  exact ranked_sortCounts hfold.1 hfold.2

theorem length_lastItems (n : Nat) (l : List Text) : (lastItems n l).length ≤ n := by
  unfold lastItems
  rw [List.length_drop]
  omega

theorem mem_mergeRaw {latest baseline desired : List Text} (h : t∈mergeRaw latest baseline desired) :
    t∈latest∨t∈desired := by
  have hfold : ∀additions l : List Text,t∈additions.foldl addMissing l → t∈l∨t∈additions := by
    intro additions
    induction additions with
    | nil => exact fun l hl => .inl hl
    | cons a additions ih =>
      intro l hl
      rcases ih (addMissing l a) hl with hmem | hmem
      · unfold addMissing at hmem
        split_ifs at hmem
        · exact .inl hmem
        · rcases List.mem_append.mp hmem with hold | hnew
          · exact .inl hold
          · exact .inr (List.mem_singleton.mp hnew ▸ List.mem_cons_self)
      · exact .inr (List.mem_cons_of_mem a hmem)
  rcases hfold _ _ (List.mem_of_mem_drop h) with hold | hnew
  · exact .inl (List.mem_filter.mp hold).1
  · exact .inr (List.mem_filter.mp hnew).1

theorem mergeField_same {α : Type} [DecidableEq α] (latest desired : α) :
    mergeField (some desired) latest desired=latest := if_neg fun h => h.1 rfl

theorem mergeField_none {α : Type} [DecidableEq α] (latest desired : α) :
    mergeField none latest desired=latest := if_neg fun h => by cases h.2

theorem mergeField_of {α : Type} [DecidableEq α] {P : α → Prop} {baseline : Option α} {latest desired : α}
    (hl : P latest) (hd : P desired) : P (mergeField baseline latest desired) := by
  unfold mergeField
  split_ifs
  · exact hd
  · exact hl

structure Same (b r : JargonRecord) : Prop where
  content : r.content=b.content
  scope : r.scopeChatId=b.scopeChatId
  isGlobal : r.isGlobal=b.isGlobal
  usage : r.usage=b.usage
  tone : r.tone=b.tone
  source : r.source=b.source

structure Settled (l r : JargonRecord) : Prop where
  ranked : Ranked l.chatIdCounts
  raw : l.rawContent.length ≤ 20
  complete : r.isComplete=true → l.isComplete=true
  inference : r.lastInferenceCount ≤ l.lastInferenceCount
  updated : r.updatedAt ≤ l.updatedAt

theorem mergeRecord_settled (baseline : Option JargonRecord) :
    Settled (mergeRecord (some l) baseline d) d :=
  ⟨ranked_mergeCounts _ _ _,length_lastItems 20 _,fun h => by
    change (l.isComplete || d.isComplete)=true
    rw [h,Bool.or_true],Nat.le_max_right _ _,Nat.le_max_right _ _⟩

theorem Settled.mergeRecord {q : JargonRecord} (h : Settled l r) (baseline : Option JargonRecord) :
    Settled (mergeRecord (some l) baseline q) r :=
  ⟨ranked_mergeCounts _ _ _,length_lastItems 20 _,fun hr => by
    change (l.isComplete || q.isComplete)=true
    rw [h.complete hr,Bool.true_or],h.inference.trans (Nat.le_max_left _ _),
    h.updated.trans (Nat.le_max_left _ _)⟩

theorem clean_mergeRecord (hl : Clean l) (hd : Clean d) (baseline : Option JargonRecord) :
    Clean (mergeRecord (some l) baseline d) where
  content := mergeField_of (P:=fun t => strip t=t∧t≠[]) hl.content hd.content
  scope := mergeField_of (P:=fun t => strip t=t) hl.scope hd.scope
  meaning := mergeField_of (P:=fun t => strip t=t) hl.meaning hd.meaning
  raw t ht := (mem_mergeRaw ht).elim (hl.raw t) (hd.raw t)
  counts := (ranked_mergeCounts _ _ _).clean
  usage := mergeField_of (P:=fun t => strip t=t) hl.usage hd.usage
  tone := mergeField_of (P:=fun t => strip t=t) hl.tone hd.tone
  source := mergeField_of (P:=fun t => strip t=t) hl.source hd.source

theorem recordKey_mergeRecord (baseline : Option JargonRecord) (h : ∀b∈baseline,Same b d) :
    recordKey (mergeRecord (some l) baseline d)=recordKey l := by
  have hfield : ∀{α : Type} [DecidableEq α] (g : JargonRecord → α),(∀b∈baseline,g d=g b) →
      mergeField (baseline.map g) (g l) (g d)=g l := by
    intro α _ g hg
    cases baseline with
    | none => exact mergeField_none _ _
    | some b =>
      rw [Option.map_some,← hg b rfl]
      exact mergeField_same _ _
  have hcontent : (mergeRecord (some l) baseline d).content=l.content :=
    hfield JargonRecord.content fun b hb => (h b hb).content
  have hscope : (mergeRecord (some l) baseline d).scopeChatId=l.scopeChatId :=
    hfield JargonRecord.scopeChatId fun b hb => (h b hb).scope
  have hglobal : (mergeRecord (some l) baseline d).isGlobal=l.isGlobal :=
    hfield JargonRecord.isGlobal fun b hb => (h b hb).isGlobal
  unfold recordKey
  rw [hcontent,hscope,hglobal]

theorem count_mergeRecord (baseline : Option JargonRecord) {n : Nat}
    (h : d.count=(baseline.map JargonRecord.count).getD 0+n) :
    (mergeRecord (some l) baseline d).count=l.count+n := by
  change ((l.count : Int)+((d.count : Int)-((baseline.map JargonRecord.count).getD 0 : Nat))).toNat=_
  rw [h]
  omega

/-! What is changed in memory -/

theorem mem_bumpChatCount (h : e∈bumpChatCount counts chat) :
    e.1=chat∨e.1∈counts.map Prod.fst := by
  unfold bumpChatCount at h
  have hin := (List.mem_insertionSort _).mp (List.mem_of_mem_take h)
  have hmap : ∀a∈counts.map (fun e => if e.1=chat then (e.1,e.2+1) else e),a.1∈counts.map Prod.fst := by
    intro a ha
    obtain ⟨q,hq,rfl⟩ := List.mem_map.mp ha
    have hkey : q.1∈counts.map Prod.fst := List.mem_map_of_mem hq
    split_ifs
    · exact hkey
    · exact hkey
  split_ifs at hin
  · exact .inr (hmap e hin)
  · rcases List.mem_append.mp hin with hold | hnew
    · exact .inr (hmap e hold)
    · rw [List.mem_singleton.mp hnew]
      exact .inl rfl

theorem clean_bumpChatCount (h : ∀e∈counts,strip e.1=e.1∧e.1≠[]) (hc : strip chat=chat∧chat≠[]) :
    ∀e∈bumpChatCount counts chat,strip e.1=e.1∧e.1≠[] := by
  intro e he
  rcases mem_bumpChatCount he with heq | hin
  · rw [heq]
    exact hc
  · obtain ⟨a,ha,heq⟩ := List.mem_map.mp hin
    rw [← heq]
    exact h a ha

theorem ranked_bumpChatCount (h : Ranked counts) (hc : strip chat=chat∧chat≠[]) :
    Ranked (bumpChatCount counts chat) := by
  have hclean := clean_bumpChatCount h.clean hc
  generalize hout : (if chat∈counts.map Prod.fst then
    counts.map fun e => if e.1=chat then (e.1,e.2+1) else e
    else (counts.map fun e => if e.1=chat then (e.1,e.2+1) else e)++[(chat,1)])=out
  have hkeys : (counts.map fun e => if e.1=chat then (e.1,e.2+1) else e).map Prod.fst=
      counts.map Prod.fst := by
    rw [List.map_map]
    apply List.map_congr_left
    intro e _
    by_cases he : e.1=chat
    · simp [he]
    · simp [he]
  have hnodup : (out.map Prod.fst).Nodup := by
    rw [← hout]
    split_ifs with hin
    · rw [hkeys]
      exact h.nodup
    · rw [List.map_append,hkeys]
      exact h.nodup.append (List.nodup_singleton chat) (by simpa using hin)
  have hpositive : ∀e∈out,0<e.2 := by
    have hold : ∀e∈counts.map (fun e => if e.1=chat then (e.1,e.2+1) else e),0<e.2 := by
      intro e he
      obtain ⟨a,ha,rfl⟩ := List.mem_map.mp he
      split_ifs
      · exact Nat.succ_pos _
      · exact h.positive a ha
    rw [← hout]
    intro e he
    split_ifs at he
    · exact hold e he
    · rcases List.mem_append.mp he with he | he
      · exact hold e he
      · rw [List.mem_singleton.mp he]
        exact Nat.one_pos
  have hsort : bumpChatCount counts chat=(out.insertionSort countsLe).take 30 := by
    rw [← hout]
    rfl
  have htotal : Std.Total countsLe := ⟨countsLe_total⟩
  have htrans : IsTrans (Text × Nat) countsLe := ⟨fun _ _ _ => countsLe_trans⟩
  have hperm := (List.perm_insertionSort countsLe out).map Prod.fst
  rw [hsort] at hclean ⊢
  exact ⟨(hperm.nodup_iff.mpr hnodup).sublist ((List.take_sublist 30 _).map _),
    (List.pairwise_insertionSort countsLe out).sublist (List.take_sublist 30 _),
    fun e he => hpositive e ((List.mem_insertionSort _).mp (List.mem_of_mem_take he)),
    List.length_take_le 30 _,hclean⟩

theorem mem_observed_raw (h : t∈(observeRecord chat context now r).rawContent) :
    t∈r.rawContent∨t=context∧context≠[] := by
  unfold observeRecord at h
  dsimp only at h
  split_ifs at h with hnew
  · rcases List.mem_append.mp (List.mem_of_mem_drop h) with hold | hlast
    · exact .inl hold
    · exact .inr ⟨List.mem_singleton.mp hlast,hnew.1⟩
  · exact .inl h

theorem clean_observeRecord (h : Clean r) (hc : strip chat=chat∧chat≠[])
    (hcontext : strip context=context) : Clean (observeRecord chat context now r) where
  content := h.content
  scope := h.scope
  meaning := h.meaning
  raw t ht := by
    rcases mem_observed_raw ht with hold | ⟨rfl,hne⟩
    · exact h.raw t hold
    · exact ⟨hcontext,hne⟩
  counts := clean_bumpChatCount h.counts hc
  usage := h.usage
  tone := h.tone
  source := h.source

theorem length_observed_raw (h : r.rawContent.length ≤ 20) :
    (observeRecord chat context now r).rawContent.length ≤ 20 := by
  unfold observeRecord
  dsimp only
  split_ifs
  · exact length_lastItems 20 _
  · exact h

theorem clean_newRecord {term : Text} (ht : strip term=term∧term≠[]) (hc : strip chat=chat) :
    Clean (newRecord term chat now) :=
  ⟨ht,hc,rfl,fun _ h => absurd h List.not_mem_nil,fun _ h => absurd h List.not_mem_nil,rfl,rfl,rfl⟩

theorem Ranked.nil : Ranked [] :=
  ⟨List.nodup_nil,List.Pairwise.nil,fun _ h => absurd h List.not_mem_nil,Nat.zero_le _,
    fun _ h => absurd h List.not_mem_nil⟩

end

end XiaoQing.Chat.Jargon
