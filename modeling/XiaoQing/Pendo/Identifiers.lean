import XiaoQing.Commands.CommandRouter
import Mathlib

namespace XiaoQing.Pendo.Identifiers

open Commands

/-- The letter case of Unicode: what `casefold` makes of a character and the ways to write it as a small
or a capital letter. -/
structure LetterCase where
  fold : Char → Text
  forms : Char → List Text
  fold_ne : ∀c,fold c≠[]
  fold_ascii : ∀c,c.toNat<128 → fold c=[c.toLower]
  forms_self : ∀c,[c]∈forms c
  forms_ascii : ∀c,c.toNat<128 → ∀w∈forms c,w=[c]∨w=[c.toLower]∨w=[c.toUpper]

/-- The columns of a row of `items` or `event_collections` that are read. -/
structure Row where
  id : Text
  owner : Text
  deleted : Bool

inductive IdTable
  | items
  | eventCollections

structure Tables where
  rows : IdTable → List Row

inductive Resolution
  | unknown
  | found (id : Text)
  | ambiguous (matched : List Text)
  deriving DecidableEq

/-- `lower` of the engine, and the letters that `COLLATE NOCASE` and `LIKE` take for equal. -/
def lower (t : Text) : Text := t.map Char.toLower

def LetterCase.casefold (L : LetterCase) (t : Text) : Text := t.flatMap L.fold

def publicId (value : Text) : Text :=
  let text := strip value
  if text=[] then []
  else if text.length=32 ∧ text.all Char.isHexDigit=true then lower (text.take 8)
  else text

def isPublicIdReference (value : Text) : Bool :=
  decide ((strip value).length=8) && (strip value).all Char.isHexDigit

def publicIdMatches (L : LetterCase) (storedId reference : Text) : Bool :=
  decide (L.casefold (publicId storedId)=L.casefold (strip reference))

def Tables.liveIds (d : Tables) (table : IdTable) (owner : Text) : List Text :=
  ((d.rows table).filter fun r => decide (r.owner=owner) && !r.deleted).map Row.id

def chosen : List Text → Resolution
  | [] => .unknown
  | [id] => .found id
  | ids => .ambiguous ids

/-- `id = ? COLLATE NOCASE LIMIT 2`. -/
def exactRows (ids : List Text) (query : Text) : List Text :=
  (ids.filter fun id => decide (lower id=lower query)).take 2

/-- `lower(id) LIKE ? ORDER BY id`. -/
def prefixRows (L : LetterCase) (ids : List Text) (query : Text) : List Text :=
  (ids.filter fun id => (lower (L.casefold query)).isPrefixOf (lower id)).insertionSort (· ≤ ·)

def Tables.resolvePublicIdentifier (L : LetterCase) (d : Tables) (table : IdTable)
    (reference owner : Text) : Resolution :=
  let query := strip reference
  if query=[] then .unknown
  else
    let ids := d.liveIds table owner
    match exactRows ids query with
    | [] =>
      if isPublicIdReference query then
        chosen ((prefixRows L ids query).filter fun id => publicIdMatches L id query)
      else .unknown
    | rows => chosen rows

def Tables.resolveItemId (L : LetterCase) (d : Tables) (owner reference : Text) : Resolution :=
  d.resolvePublicIdentifier L .items reference owner

def Tables.resolveEventCollectionId (L : LetterCase) (d : Tables) (owner reference : Text) :
    Resolution :=
  d.resolvePublicIdentifier L .eventCollections reference owner

/-- The record is the answer, or it is among the candidates of an ambiguity. -/
def Resolution.Leads (r : Resolution) (id : Text) : Prop :=
  r=.found id∨∃matched,r=.ambiguous matched∧id∈matched

def LetterCase.Writes (L : LetterCase) : Text → Text → Prop
  | [],u => u=[]
  | c::t,u => ∃w∈L.forms c,∃v,L.Writes t v∧u=w++v

def LetterCase.Plain (L : LetterCase) (t : Text) : Prop :=
  ∀u,L.Writes t u → lower (strip u)=lower t

/-- The eight digits shown for a record are no record's own id, and the record's id begins with them. -/
def Unshadowed (ids : List Text) (id : Text) : Prop :=
  isPublicIdReference (publicId id)=true∧(∀c,id.head?=some c → isSpace c=false)∧
    ∀other∈ids,lower other≠lower (publicId id)

/-- The id is shown as it is, and it is one of the first two that differ from it in ASCII letter case
only. -/
def ShownWhole (L : LetterCase) (ids : List Text) (id : Text) : Prop :=
  id≠[]∧publicId id=id∧L.Plain id∧id∈exactRows ids id

section

variable {L : LetterCase} {ids : List Text} {id query t u : Text} {c : Char}

theorem leads_chosen {l : List Text} : (chosen l).Leads id↔id∈l := by
  unfold Resolution.Leads
  match l with
  | [] => simp [chosen]
  | [a] => simp [chosen,eq_comm]
  | a::b::l => simp [chosen]

theorem resolve_leads (d : Tables) (table : IdTable) (reference owner : Text) :
    (d.resolvePublicIdentifier L table reference owner).Leads id↔
      strip reference≠[]∧(id∈exactRows (d.liveIds table owner) (strip reference)∨
        exactRows (d.liveIds table owner) (strip reference)=[]∧
          isPublicIdReference (strip reference)=true∧
          id∈prefixRows L (d.liveIds table owner) (strip reference)∧
          publicIdMatches L id (strip reference)=true) := by
  have hunknown : ¬Resolution.unknown.Leads id := by
    rintro (h | ⟨_,h,-⟩)
    · cases h
    · cases h
  unfold Tables.resolvePublicIdentifier
  dsimp only
  by_cases hempty : strip reference=[]
  · rw [if_pos hempty]
    simp [hempty,hunknown]
  rw [if_neg hempty]
  cases hrows : exactRows (d.liveIds table owner) (strip reference) with
  | nil =>
    dsimp only
    split_ifs with href
    · rw [leads_chosen,List.mem_filter]
      simp [hempty,href]
    · simp [hunknown,href]
  | cons a rows =>
    dsimp only
    rw [leads_chosen]
    simp [hempty]

/-! Letters and digits of ASCII -/

theorem of_ascii {P : Char → Prop} (h : ∀n,n<128 → P (Char.ofNat n)) (hc : c.toNat<128) : P c := by
  have hc' := h c.toNat hc
  rwa [Char.ofNat_toNat] at hc'

theorem hexDigit_ascii (h : c.isHexDigit=true) : c.toNat<128 := by
  simp only [Char.isHexDigit,Char.isDigit,Bool.or_eq_true,Bool.and_eq_true,decide_eq_true_eq] at h
  rcases h with (⟨-,h⟩ | ⟨-,h⟩) | ⟨-,h⟩
  · exact Nat.lt_of_le_of_lt h (by decide)
  · exact Nat.lt_of_le_of_lt h (by decide)
  · exact Nat.lt_of_le_of_lt h (by decide)

theorem hexDigit_not_space (h : c.isHexDigit=true) : isSpace c=false :=
  of_ascii (P:=fun c => c.isHexDigit=true → isSpace c=false) (by decide) (hexDigit_ascii h) h

theorem ascii_of_lower (h : c.toLower.toNat<128) : c.toNat<128 := by
  by_cases hup : c.isUpper=true
  · simp only [Char.isUpper,decide_eq_true_eq] at hup
    exact Nat.lt_of_le_of_lt hup.2 (by decide)
  · rwa [Char.toLower_eq_of_not_isUpper hup] at h

theorem hexDigit_of_lower {a : Char} (h : c.toLower=a.toLower) (ha : a.isHexDigit=true) :
    c.isHexDigit=true := by
  have hlow : ∀a : Char,a.toNat<128 → a.toLower.toNat<128∧a.toLower.isHexDigit=a.isHexDigit := fun a =>
    of_ascii (P:=fun a => a.toLower.toNat<128∧a.toLower.isHexDigit=a.isHexDigit) (by decide)
  obtain ⟨hascii,hhex⟩ := hlow a (hexDigit_ascii ha)
  have hc : c.toNat<128 := ascii_of_lower (by rw [h]; exact hascii)
  rw [← (hlow c hc).2,h,hhex,ha]

theorem lower_lower (t : Text) : lower (lower t)=lower t := by
  unfold lower
  rw [List.map_map]
  exact List.map_congr_left fun c _ => Char.toLower_toLower_eq_toLower c

theorem lower_length (h : lower t=lower u) : t.length=u.length := by
  have hlen := congrArg List.length h
  unfold lower at hlen
  rwa [List.length_map,List.length_map] at hlen

theorem hex_of_lower (h : lower t=lower u) (hu : u.all Char.isHexDigit=true) :
    t.all Char.isHexDigit=true := by
  rw [List.all_eq_true] at hu ⊢
  intro c hc
  have hin : c.toLower∈lower u := h ▸ List.mem_map_of_mem hc
  obtain ⟨a,ha,heq⟩ := List.mem_map.mp hin
  exact hexDigit_of_lower heq.symm (hu a ha)

theorem strip_hex (h : t.all Char.isHexDigit=true) : strip t=t :=
  strip_of_none fun c hc => hexDigit_not_space (List.all_eq_true.mp h c hc)

theorem casefold_hex (h : t.all Char.isHexDigit=true) : L.casefold t=lower t := by
  induction t with
  | nil => rfl
  | cons c t ih =>
    rw [List.all_cons,Bool.and_eq_true] at h
    change L.fold c++L.casefold t=c.toLower::lower t
    rw [ih h.2,L.fold_ascii c (hexDigit_ascii h.1)]
    rfl

theorem casefold_nil (h : L.casefold t=[]) : t=[] := by
  cases t with
  | nil => rfl
  | cons c t => exact absurd (List.append_eq_nil_iff.mp h).1 (L.fold_ne c)

/-! Texts in any letter case -/

theorem writes_self (L : LetterCase) (t : Text) : L.Writes t t := by
  induction t with
  | nil => rfl
  | cons c t ih => exact ⟨[c],L.forms_self c,t,ih,rfl⟩

theorem writes_ascii (ht : ∀c∈t,c.toNat<128) (h : L.Writes t u) : lower u=lower t := by
  induction t generalizing u with
  | nil =>
    cases h
    rfl
  | cons c t ih =>
    obtain ⟨w,hw,v,hv,rfl⟩ := h
    have hrest := ih (fun c hc => ht c (List.mem_cons_of_mem _ hc)) hv
    have hletter : lower w=[c.toLower] := by
      rcases L.forms_ascii c (ht c List.mem_cons_self) w hw with rfl | rfl | rfl
      · rfl
      · exact congrArg (fun a => [a]) (Char.toLower_toLower_eq_toLower c)
      · exact congrArg (fun a => [a]) (Char.toLower_toUpper_eq_toLower c)
    unfold lower at hletter hrest ⊢
    rw [List.map_append,hletter,hrest]
    rfl

/-! The identifier shown -/

theorem strip_sublist (t : Text) : (strip t).Sublist t :=
  (List.rdropWhile_prefix isSpace _).sublist.trans (List.dropWhile_sublist isSpace)

theorem strip_prefix_of (h : ∀c,t.head?=some c → isSpace c=false) : strip t<+:t := by
  have hdrop : t.dropWhile isSpace=t := by
    cases t with
    | nil => rfl
    | cons c t => exact List.dropWhile_cons_of_neg (by simp [h c rfl])
  unfold strip
  rw [hdrop]
  exact List.rdropWhile_prefix isSpace t

theorem strip_hex_append (ht : t.all Char.isHexDigit=true) (hne : t≠[]) :
    ∃v,strip (t++u)=t++v := by
  obtain ⟨c,s,rfl⟩ := List.exists_cons_of_ne_nil hne
  have hnot : ∀a∈c::s,isSpace a=false := fun a ha => hexDigit_not_space (List.all_eq_true.mp ht a ha)
  have hdrop : (c::s++u).dropWhile isSpace=c::s++u :=
    List.dropWhile_cons_of_neg (by simp [hnot c List.mem_cons_self])
  have hback : (c::s).reverse.dropWhile isSpace=(c::s).reverse := by
    have hkeep := strip_hex ht
    unfold strip at hkeep
    rw [List.dropWhile_cons_of_neg (by simp [hnot c List.mem_cons_self])] at hkeep
    exact List.reverse_eq_iff.mp hkeep
  refine ⟨u.rdropWhile isSpace,?_⟩
  unfold strip
  rw [hdrop]
  unfold List.rdropWhile
  rw [List.reverse_append,List.dropWhile_append]
  split_ifs with hall
  · rw [hback,List.reverse_reverse,List.isEmpty_iff.mp hall]
    simp
  · rw [List.reverse_append,List.reverse_reverse]

theorem publicId_cases (id : Text) :
    (strip id).length=32∧publicId id=lower ((strip id).take 8)∧(publicId id).all Char.isHexDigit=true∨
      publicId id=strip id := by
  unfold publicId
  dsimp only
  split_ifs with hempty hcanon
  · exact .inr hempty.symm
  · refine .inl ⟨hcanon.1,rfl,?_⟩
    have hall : ((strip id).take 8).all Char.isHexDigit=true := by
      rw [List.all_eq_true]
      exact fun c hc => List.all_eq_true.mp hcanon.2 c (List.mem_of_mem_take hc)
    exact hex_of_lower (lower_lower _) hall
  · exact .inr rfl

theorem strip_publicId (id : Text) : strip (publicId id)=publicId id := by
  rcases publicId_cases id with ⟨-,-,hhex⟩ | h
  · exact strip_hex hhex
  · rw [h,strip_strip]

theorem publicId_whole (h : lower id=lower (publicId id)) : publicId id=id := by
  have hlen := lower_length h
  have hle := (strip_sublist id).length_le
  rcases publicId_cases id with ⟨hcanon,heq,-⟩ | heq
  · rw [heq] at hlen
    unfold lower at hlen
    rw [List.length_map,List.length_take] at hlen
    omega
  · rw [heq] at hlen ⊢
    exact (strip_sublist id).eq_of_length hlen.symm

/-! The rows found -/

theorem mem_exactRows (h : id∈exactRows ids query) : id∈ids∧lower id=lower query := by
  have hin := List.mem_filter.mp (List.mem_of_mem_take h)
  exact ⟨hin.1,of_decide_eq_true hin.2⟩

theorem exactRows_nil : exactRows ids query=[]↔∀other∈ids,lower other≠lower query := by
  unfold exactRows
  rw [List.take_eq_nil_iff,or_iff_right (by decide),List.filter_eq_nil_iff]
  simp

theorem exactRows_congr (h : lower query=lower t) : exactRows ids query=exactRows ids t := by
  unfold exactRows
  rw [h]

theorem mem_prefixRows : id∈prefixRows L ids query↔
    id∈ids∧lower (L.casefold query)<+:lower id := by
  unfold prefixRows
  rw [List.mem_insertionSort,List.mem_filter,List.isPrefixOf_iff_prefix]

theorem reference_digits (h : isPublicIdReference query=true) (hq : strip query=query) :
    query.length=8∧query.all Char.isHexDigit=true := by
  unfold isPublicIdReference at h
  rw [hq,Bool.and_eq_true,decide_eq_true_eq] at h
  exact h

theorem prefix_matches (hlen : query.length=8) (hhex : query.all Char.isHexDigit=true) :
    lower (L.casefold query)<+:lower id∧publicIdMatches L id query=true↔
      (∀c,id.head?=some c → isSpace c=false)∧lower (publicId id)=lower query := by
  have hfold : L.casefold query=lower query := casefold_hex hhex
  unfold publicIdMatches
  rw [decide_eq_true_eq,strip_hex hhex,hfold,lower_lower]
  constructor
  · rintro ⟨hpre,hmatch⟩
    obtain ⟨rest,hrest⟩ := hpre
    obtain ⟨a,b,rfl,ha,-⟩ := List.map_eq_append_iff.mp hrest.symm
    have hahex : a.all Char.isHexDigit=true := hex_of_lower ha hhex
    have halen : a.length=8 := (lower_length ha).trans hlen
    have hne : a≠[] := by
      rintro rfl
      cases halen
    constructor
    · intro c hc
      rw [List.head?_append_of_ne_nil _ hne] at hc
      exact hexDigit_not_space (List.all_eq_true.mp hahex c (List.mem_of_head? hc))
    obtain ⟨v,hv⟩ := strip_hex_append (u:=b) hahex hne
    rcases publicId_cases (a++b) with ⟨-,heq,-⟩ | heq
    · rw [heq,hv,List.take_left' halen,lower_lower]
      exact ha
    · rw [heq,hv] at hmatch ⊢
      have hsplit : L.casefold (a++v)=L.casefold a++L.casefold v := List.flatMap_append
      rw [hsplit,casefold_hex hahex] at hmatch
      have hempty : v=[] := by
        apply casefold_nil
        change lower a=lower query at ha
        rw [ha] at hmatch
        exact List.append_right_eq_self.mp hmatch
      rw [hempty,List.append_nil]
      exact ha
  · rintro ⟨hhead,hshown⟩
    have hpub : (publicId id).all Char.isHexDigit=true := hex_of_lower hshown hhex
    refine ⟨?_,(casefold_hex hpub).trans hshown⟩
    rw [← hshown]
    rcases publicId_cases id with ⟨-,heq,-⟩ | heq
    · rw [heq,lower_lower]
      exact ((List.take_prefix 8 _).trans (strip_prefix_of hhead)).map _
    · rw [heq]
      exact (strip_prefix_of hhead).map _

/-- Every way to write the identifier shown for a record leads to the record if and only if it is shown
by eight digits that are no id of their own, or whole and as one of the first two such ids. -/
theorem public_identifier_iff (L : LetterCase) (d : Tables) (table : IdTable) (owner id : Text)
    (h : id∈d.liveIds table owner) :
    (∀reference,L.Writes (publicId id) reference →
      (d.resolvePublicIdentifier L table reference owner).Leads id)↔
      Unshadowed (d.liveIds table owner) id∨ShownWhole L (d.liveIds table owner) id := by
  constructor
  · intro hall
    have hself := (resolve_leads d table _ owner).mp (hall _ (writes_self L _))
    rw [strip_publicId] at hself
    obtain ⟨hne,hexact | ⟨hnone,href,hin,hmatch⟩⟩ := hself
    · have hwhole := publicId_whole (mem_exactRows hexact).2
      rw [hwhole] at hne hexact
      refine .inr ⟨hne,hwhole,?_,hexact⟩
      intro u hu
      rw [hwhole] at hall
      obtain ⟨-,hrow | ⟨-,href,hin,hmatch⟩⟩ := (resolve_leads d table u owner).mp (hall u hu)
      · exact (mem_exactRows hrow).2.symm
      · obtain ⟨hlen,hhex⟩ := reference_digits href (strip_strip u)
        have hsame := ((prefix_matches hlen hhex).mp ⟨(mem_prefixRows.mp hin).2,hmatch⟩).2
        rw [hwhole] at hsame
        exact hsame.symm
    · obtain ⟨hlen,hhex⟩ := reference_digits href (strip_publicId id)
      have hhead := ((prefix_matches hlen hhex).mp ⟨(mem_prefixRows.mp hin).2,hmatch⟩).1
      exact .inl ⟨href,hhead,exactRows_nil.mp hnone⟩
  · rintro (⟨href,hhead,hnone⟩ | ⟨hne,hwhole,hplain,hin⟩) reference hwrites
    · obtain ⟨hlen,hhex⟩ := reference_digits href (strip_publicId id)
      have hlower := writes_ascii
        (fun c hc => hexDigit_ascii (List.all_eq_true.mp hhex c hc)) hwrites
      have hrefhex : reference.all Char.isHexDigit=true := hex_of_lower hlower hhex
      have hreflen : reference.length=8 := (lower_length hlower).trans hlen
      have hstrip : strip reference=reference := strip_hex hrefhex
      obtain ⟨hlike,hmatch⟩ := (prefix_matches (L:=L) hreflen hrefhex).mpr ⟨hhead,hlower.symm⟩
      rw [resolve_leads,hstrip]
      refine ⟨?_,.inr ⟨?_,?_,mem_prefixRows.mpr ⟨h,hlike⟩,hmatch⟩⟩
      · rintro rfl
        cases hreflen
      · rw [exactRows_congr hlower]
        exact exactRows_nil.mpr hnone
      · unfold isPublicIdReference
        rw [hstrip,hreflen,hrefhex]
        rfl
    · rw [hwhole] at hwrites
      have hlower := hplain reference hwrites
      rw [resolve_leads,exactRows_congr hlower]
      refine ⟨?_,.inl hin⟩
      intro hempty
      have hlen := lower_length hlower
      rw [hempty] at hlen
      exact hne (List.length_eq_zero_iff.mp hlen.symm)

end

def asciiCase : LetterCase where
  fold c := [c.toLower]
  forms c := [[c],[c.toLower],[c.toUpper]]
  fold_ne _ := List.cons_ne_nil _ _
  fold_ascii _ _ := rfl
  forms_self _ := List.mem_cons_self
  forms_ascii _ _ w hw := by simpa using hw

def digits : Text := ['d','e','a','d','b','e','e','f']

/-- An item whose id is eight digits, and one whose id begins with them. -/
def shadowedItems : Tables where
  rows
    | .items => [⟨digits,['u'],false⟩,⟨digits++List.replicate 24 '0',['u'],false⟩]
    | .eventCollections => [⟨digits++List.replicate 24 '0',['u'],false⟩]

theorem public_identifier_example :
    (shadowedItems.resolvePublicIdentifier asciiCase .eventCollections
      (publicId (digits++List.replicate 24 '0')) ['u']).Leads (digits++List.replicate 24 '0') :=
  (public_identifier_iff asciiCase shadowedItems .eventCollections ['u'] _ (by simp [Tables.liveIds,
    shadowedItems])).mpr (.inl ⟨by decide,fun c hc => by cases hc; rfl,by decide⟩) _ (writes_self _ _)

/-- The identifier shown for the second item names the first. -/
theorem short_id_names_another : ¬∀reference,
    asciiCase.Writes (publicId (digits++List.replicate 24 '0')) reference →
      (shadowedItems.resolvePublicIdentifier asciiCase .items reference ['u']).Leads
        (digits++List.replicate 24 '0') := by
  intro h
  have hres : shadowedItems.resolvePublicIdentifier asciiCase .items digits ['u']=.found digits := by
    decide
  have hleads := h digits (writes_self asciiCase digits)
  rw [hres] at hleads
  rcases hleads with hfound | ⟨_,hambiguous,-⟩
  · exact absurd hfound (by decide)
  · cases hambiguous

end XiaoQing.Pendo.Identifiers
