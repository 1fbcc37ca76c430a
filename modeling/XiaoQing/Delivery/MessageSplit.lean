import XiaoQing.Commands.CommandRouter
import XiaoQing.Delivery.SendAction

namespace XiaoQing.Delivery

open Commands

/-- A value of a message as Python holds it: text, a dictionary in the order of its keys, or any
other value, which has no method `get`. -/
inductive Datum (β : Type)
  | str (text : Text)
  | dict (fields : List (String × Datum β))
  | other (value : β)

abbrev Fields (β : Type) := List (String × Datum β)

/-- `max_length` after its check. -/
abbrev Limit := {n : Nat // 0 < n}

inductive SplitError
  | maxLength
  | noGet

variable {β : Type}

/-- `fields[key] = value`. -/
def assign (key : String) (value : Datum β) : Fields β → Fields β
  | [] => [(key,value)]
  | (k,v)::rest => if key=k then (key,value)::rest else (k,v)::assign key value rest

/-- `segment.get("type") == "text"`. -/
def isText (fields : Fields β) : Bool :=
  match fields.lookup "type" with
  | some (.str t) => t=['t','e','x','t']
  | _ => false

/-- What a segment adds to the total; `none` where `data` has no `get`. -/
def countedLength : Datum β → Option Nat
  | .dict fields =>
    if isText fields then
      match (fields.lookup "data").getD (.dict []) with
      | .dict data =>
        match data.lookup "text" with
        | some (.str t) => some t.length
        | _ => some 0
      | _ => none
    else some 0
  | _ => some 0

def totalLength : List (Datum β) → Option Nat
  | [] => some 0
  | segment::segs =>
    match countedLength segment with
    | none => none
    | some n => (totalLength segs).map (n+·)

/-- The fields, the data and the text of a segment whose text is divided. -/
def divisible : Datum β → Option (Fields β × Fields β × Text)
  | .dict fields =>
    if isText fields then
      match fields.lookup "data" with
      | some (.dict data) =>
        match data.lookup "text" with
        | some (.str t) => if t.isEmpty then none else some (fields,data,t)
        | _ => none
      | _ => none
    else none
  | _ => none

theorem divisible_iff {segment : Datum β} {fields data : Fields β} {t : Text} :
    divisible segment=some (fields,data,t) ↔ segment=.dict fields∧isText fields=true∧
    fields.lookup "data"=some (.dict data)∧data.lookup "text"=some (.str t)∧t≠[] := by
  constructor
  · intro h
    unfold divisible at h
    split at h
    · split_ifs at h with htext
      split at h
      · rename_i hdata
        split at h
        · rename_i ht
          split_ifs at h with hempty
          cases h
          exact ⟨rfl,htext,hdata,ht,by simpa using hempty⟩
        · cases h
      · cases h
    · cases h
  · rintro ⟨rfl,htext,hdata,ht,hne⟩
    have hempty : ¬t.isEmpty=true := by simpa using hne
    simp only [divisible,htext,hdata,ht,if_true,if_neg hempty]

/-- `{**segment, "data": {**data, "text": piece}}`. -/
def withText (fields data : Fields β) (piece : Text) : Datum β :=
  .dict (assign "data" (.dict (assign "text" (.str piece) data)) fields)

/-- `text.rfind("\n")`. -/
def lastNewline : Text → Option Nat
  | [] => none
  | c::t =>
    match lastNewline t with
    | some i => some (i+1)
    | none => if c = '\n' then some 0 else none

def splitAt (remaining : Text) (available : Nat) : Nat :=
  if remaining.length ≤ available then remaining.length
  else
    match lastNewline (remaining.take available) with
    | some newline => newline+1
    | none => available

/-- `chunks`, `current` and `current_text_length`. -/
structure Splitter (β : Type) where
  chunks : List (List (Datum β))
  current : List (Datum β)
  length : Nat

namespace Splitter

def new : Splitter β := ⟨[],[],0⟩

def flush (s : Splitter β) : Splitter β :=
  ⟨if s.current.isEmpty then s.chunks else s.chunks++[s.current],[],0⟩

def room (n : Limit) (s : Splitter β) : Splitter β := if n.1 ≤ s.length then s.flush else s

def pass (remaining : Text) (s : Splitter β) : Splitter β :=
  if remaining.isEmpty then s else s.flush

def add (segment : Datum β) (length : Nat) (s : Splitter β) : Splitter β :=
  {s with current := s.current++[segment],length := s.length+length}

theorem room_length (n : Limit) (s : Splitter β) : (s.room n).length < n.1 := by
  unfold room
  split
  · exact n.2
  · omega

end Splitter

theorem splitAt_pos {remaining : Text} {available : Nat} (hr : remaining≠[]) (ha : 0 < available) :
    0 < splitAt remaining available := by
  unfold splitAt
  split
  · exact List.length_pos_iff.mpr hr
  · split <;> omega

def splitText (n : Limit) (fields data : Fields β) (s : Splitter β) (remaining : Text) : Splitter β :=
  if h : remaining=[] then s
  else
    let k := splitAt remaining (n.1-(s.room n).length)
    let t := (s.room n).add (withText fields data (remaining.take k)) (remaining.take k).length
    splitText n fields data (t.pass (remaining.drop k)) (remaining.drop k)
  termination_by remaining.length
  decreasing_by
    have hroom := s.room_length n
    have hpos : 0 < splitAt remaining (n.1-(s.room n).length) := splitAt_pos h (by omega)
    have hlen := List.length_pos_iff.mpr h
    rw [List.length_drop]
    omega

def splitSegment (n : Limit) (s : Splitter β) (segment : Datum β) : Splitter β :=
  match divisible segment with
  | none => s.add segment 0
  | some (fields,data,t) => splitText n fields data s t

/-- `split_message_segments` with a limit that passed its check. -/
def splitSegments (n : Limit) (segs : List (Datum β)) : Except SplitError (List (List (Datum β))) :=
  if segs.isEmpty then .ok [segs]
  else
    match totalLength segs with
    | none => .error .noGet
    | some total =>
      if total ≤ n.1 then .ok [segs]
      else
        let s := (segs.foldl (splitSegment n) .new).flush
        .ok (if s.chunks.isEmpty then [segs] else s.chunks)

def splitMessageSegments (segs : List (Datum β)) (maxLength : Int) :
    Except SplitError (List (List (Datum β))) :=
  if h : 0 < maxLength then splitSegments ⟨maxLength.toNat,by omega⟩ segs else .error .maxLength

def maxMessageTextLength : Int := 3000

/-! What a segment carries -/

/-- The unit of a message's content: a segment as it is, or a character together with the segment
around it. -/
inductive Atom (β : Type)
  | whole (segment : Datum β)
  | char (frame : Datum β) (c : Char)

def Atom.asText : Atom β → Option Char
  | .whole _ => none
  | .char _ c => some c

def Atom.asSegment : Atom β → Option (Datum β)
  | .whole segment => some segment
  | .char _ _ => none

def atoms (segment : Datum β) : List (Atom β) :=
  match divisible segment with
  | none => [.whole segment]
  | some (fields,data,t) => t.map (.char (withText fields data []))

def textOf (segment : Datum β) : Text :=
  match divisible segment with
  | none => []
  | some (_,_,t) => t

section

variable {n : Limit} {segment : Datum β} {fields data : Fields β} {t piece remaining : Text}
  {key other : String} {value old : Datum β} {s : Splitter β} {segs more : List (Datum β)} {k m : Nat}

@[simp] theorem lookup_assign_self : (assign key value fields).lookup key=some value := by
  induction fields with
  | nil => simp [assign]
  | cons entry fields ih =>
    obtain ⟨name,held⟩ := entry
    unfold assign
    split_ifs with hk
    · simp
    · have hb : (key==name)=false := by simp [hk]
      rw [List.lookup_cons,hb]
      exact ih

theorem lookup_assign_ne (h : other≠key) :
    (assign key value fields).lookup other=fields.lookup other := by
  have hne : (other==key)=false := by simp [h]
  induction fields with
  | nil => simp [assign,h]
  | cons entry fields ih =>
    obtain ⟨name,held⟩ := entry
    unfold assign
    split_ifs with hk
    · subst name
      simp only [List.lookup_cons,hne]
    · rw [List.lookup_cons,List.lookup_cons,ih]

theorem assign_assign : assign key value (assign key old fields)=assign key value fields := by
  induction fields with
  | nil => simp [assign]
  | cons entry fields ih =>
    obtain ⟨name,held⟩ := entry
    by_cases hk : key=name
    · simp [assign,hk]
    · simp [assign,hk,ih]

theorem isText_withText (h : isText fields=true) : isText (assign "data" value fields)=true := by
  unfold isText
  rw [lookup_assign_ne (by decide)]
  exact h

theorem divisible_withText (h : isText fields=true) (hp : piece≠[]) :
    divisible (withText fields data piece)=
      some (assign "data" (.dict (assign "text" (.str piece) data)) fields,
        assign "text" (.str piece) data,piece) := by
  apply divisible_iff.mpr
  exact ⟨rfl,isText_withText h,lookup_assign_self,lookup_assign_self,hp⟩

theorem countedLength_withText (h : isText fields=true) :
    countedLength (withText fields data piece)=some piece.length := by
  unfold withText countedLength
  simp only [isText_withText h,if_true,lookup_assign_self,Option.getD_some]

theorem countedLength_of_not_divisible (h : divisible segment=none) (hc : countedLength segment=some k) :
    k=0 := by
  by_contra hk
  unfold countedLength at hc
  split at hc
  · rename_i fields
    split_ifs at hc with htext
    · split at hc
      · rename_i data hdata
        split at hc
        · rename_i t ht
          cases hc
          have hfields : fields.lookup "data"=some (.dict data) := by
            cases hl : fields.lookup "data" with
            | none =>
              rw [hl,Option.getD_none] at hdata
              cases hdata
              cases ht
            | some d =>
              rw [hl,Option.getD_some] at hdata
              rw [hdata]
          have hne : t≠[] := fun he => hk (by rw [he]; rfl)
          have hsome := divisible_iff.mpr ⟨rfl,htext,hfields,ht,hne⟩
          rw [h] at hsome
          cases hsome
        · cases hc
          exact hk rfl
      · cases hc
    · cases hc
      exact hk rfl
  · cases hc
    exact hk rfl

theorem totalLength_append (hs : totalLength segs=some k) (hm : totalLength more=some m) :
    totalLength (segs++more)=some (k+m) := by
  induction segs generalizing k with
  | nil =>
    cases hs
    rw [List.nil_append,hm,Nat.zero_add]
  | cons segment segs ih =>
    unfold totalLength at hs
    rw [List.cons_append,totalLength]
    cases hc : countedLength segment with
    | none => simp [hc] at hs
    | some a =>
      simp only [hc,Option.map_eq_some_iff] at hs ⊢
      obtain ⟨b,hb,rfl⟩ := hs
      exact ⟨b+m,ih hb,by omega⟩

theorem totalLength_single (h : countedLength segment=some k) : totalLength [segment]=some k := by
  simp [totalLength,h]

theorem atoms_ne_nil : atoms segment≠[] := by
  unfold atoms
  cases hd : divisible segment with
  | none => exact List.cons_ne_nil _ _
  | some found =>
    obtain ⟨fields,data,t⟩ := found
    simpa using (divisible_iff.mp hd).2.2.2.2

theorem atoms_withText (h : isText fields=true) (hp : piece≠[]) :
    atoms (withText fields data piece)=piece.map (.char (withText fields data [])) := by
  unfold atoms
  rw [divisible_withText h hp]
  simp only [withText,assign_assign]

/-- Every chunk is within the limit, and the length of the open one is kept. -/
structure Tidy (n : Limit) (s : Splitter β) : Prop where
  chunks : ∀c∈s.chunks,∃m≤n.1,totalLength c=some m
  current : totalLength s.current=some s.length
  within : s.length ≤ n.1

def Splitter.all (s : Splitter β) : List (Datum β) := s.chunks.flatten++s.current

theorem Splitter.flush_all : s.flush.all=s.all := by
  unfold all flush
  cases s.current with
  | nil => simp
  | cons segment rest => simp

theorem Splitter.room_all : (s.room n).all=s.all := by
  unfold room
  split
  · exact flush_all
  · rfl

theorem Splitter.pass_all : (s.pass remaining).all=s.all := by
  unfold pass
  split
  · rfl
  · exact flush_all

theorem Splitter.add_all : (s.add segment k).all=s.all++[segment] := by
  simp [all,add]

theorem Tidy.flush (h : Tidy n s) : Tidy n s.flush := by
  refine ⟨fun c hc => ?_,rfl,Nat.zero_le _⟩
  unfold Splitter.flush at hc
  simp only at hc
  split at hc
  · exact h.chunks c hc
  · rcases List.mem_append.mp hc with hold | hnew
    · exact h.chunks c hold
    · rw [List.mem_singleton.mp hnew]
      exact ⟨s.length,h.within,h.current⟩

theorem Tidy.room (h : Tidy n s) : Tidy n (s.room n) := by
  unfold Splitter.room
  split
  · exact h.flush
  · exact h

theorem Tidy.pass (h : Tidy n s) : Tidy n (s.pass remaining) := by
  unfold Splitter.pass
  split
  · exact h
  · exact h.flush

theorem Tidy.add (h : Tidy n s) (hc : countedLength segment=some k) (hk : s.length+k ≤ n.1) :
    Tidy n (s.add segment k) :=
  ⟨h.chunks,totalLength_append h.current (totalLength_single hc),hk⟩

theorem lastNewline_lt (h : lastNewline t=some k) : k < t.length := by
  induction t generalizing k with
  | nil => cases h
  | cons c t ih =>
    unfold lastNewline at h
    split at h
    · rename_i i hi
      cases h
      exact Nat.succ_lt_succ (ih hi)
    · split_ifs at h
      cases h
      exact Nat.succ_pos _

theorem splitAt_le : splitAt remaining k ≤ k := by
  unfold splitAt
  split
  · assumption
  · rename_i hlong
    split
    · rename_i newline hline
      have hlt := lastNewline_lt hline
      rw [List.length_take] at hlt
      omega
    · exact le_rfl

theorem splitText_places (htext : isText fields=true) (h : Tidy n s) :
    Tidy n (splitText n fields data s remaining)∧
      (splitText n fields data s remaining).all.flatMap atoms=
        s.all.flatMap atoms++remaining.map (.char (withText fields data [])) := by
  induction s,remaining using splitText.induct n fields data with
  | case1 s =>
    rw [splitText,dif_pos rfl]
    exact ⟨h,by simp⟩
  | case2 s remaining hr k t ih =>
    have hroom := s.room_length n
    have hpos : 0 < k := splitAt_pos hr (by omega)
    have hle : k≤n.1-(s.room n).length := splitAt_le
    have hlen : (remaining.take k).length≤n.1-(s.room n).length :=
      (List.length_take_le _ _).trans hle
    have hpiece : remaining.take k≠[] := by
      intro hnil
      rcases List.take_eq_nil_iff.mp hnil with hk | hk
      · omega
      · exact hr hk
    have ht : Tidy n t := h.room.add (countedLength_withText htext) (by omega)
    have hall : t.all.flatMap atoms=
        s.all.flatMap atoms++(remaining.take k).map (.char (withText fields data [])) := by
      rw [Splitter.add_all,Splitter.room_all,List.flatMap_append,List.flatMap_singleton,
        atoms_withText htext hpiece]
    obtain ⟨htidy,hcontent⟩ := ih ht.pass
    rw [splitText,dif_neg hr]
    refine ⟨htidy,?_⟩
    rw [Splitter.pass_all,hall,List.append_assoc,← List.map_append,List.take_append_drop] at hcontent
    exact hcontent

theorem splitSegment_places (h : Tidy n s) (hc : countedLength segment=some k) :
    Tidy n (splitSegment n s segment)∧
      (splitSegment n s segment).all.flatMap atoms=s.all.flatMap atoms++atoms segment := by
  unfold splitSegment
  cases hd : divisible segment with
  | none =>
    obtain rfl := countedLength_of_not_divisible hd hc
    refine ⟨h.add hc h.within,?_⟩
    simp only [Splitter.add_all,List.flatMap_append,List.flatMap_singleton]
  | some found =>
    obtain ⟨fields,data,t⟩ := found
    have hatoms : atoms segment=t.map (.char (withText fields data [])) := by
      simp only [atoms,hd]
    rw [hatoms]
    exact splitText_places (divisible_iff.mp hd).2.1 h

theorem splitSegments_fold (hs : totalLength segs=some k) (h : Tidy n s) :
    Tidy n (segs.foldl (splitSegment n) s)∧
      (segs.foldl (splitSegment n) s).all.flatMap atoms=s.all.flatMap atoms++segs.flatMap atoms := by
  induction segs generalizing s k with
  | nil => exact ⟨h,by simp⟩
  | cons segment segs ih =>
    unfold totalLength at hs
    cases hc : countedLength segment with
    | none => simp [hc] at hs
    | some a =>
      simp only [hc,Option.map_eq_some_iff] at hs
      obtain ⟨b,hb,-⟩ := hs
      obtain ⟨hstep,hplaced⟩ := splitSegment_places h hc
      obtain ⟨hrest,hcontent⟩ := ih hb hstep
      refine ⟨hrest,?_⟩
      rw [List.foldl_cons,hcontent,hplaced,List.flatMap_cons,List.append_assoc]

theorem Splitter.chunks_flush : s.flush.chunks.flatten=s.all := by
  have h := s.flush_all
  unfold all at h
  rw [show s.flush.current=[] from rfl,List.append_nil] at h
  exact h

/-! What the content says about texts and other segments -/

theorem atoms_text : (atoms segment).filterMap Atom.asText=textOf segment := by
  unfold atoms textOf
  cases divisible segment with
  | none => rfl
  | some found =>
    obtain ⟨fields,data,t⟩ := found
    simp [List.filterMap_map,Function.comp_def,Atom.asText]

theorem atoms_other :
    (atoms segment).filterMap Atom.asSegment=if (divisible segment).isNone then [segment] else [] := by
  unfold atoms
  cases divisible segment with
  | none => rfl
  | some found =>
    obtain ⟨fields,data,t⟩ := found
    simp [List.filterMap_map,Function.comp_def,Atom.asSegment]

theorem flatMap_textOf : segs.flatMap textOf=(segs.flatMap atoms).filterMap Atom.asText := by
  rw [List.filterMap_flatMap]
  exact List.flatMap_congr fun _ _ => atoms_text.symm

theorem filter_whole :
    segs.filter (fun segment => (divisible segment).isNone)=(segs.flatMap atoms).filterMap Atom.asSegment := by
  rw [List.filterMap_flatMap]
  induction segs with
  | nil => rfl
  | cons segment segs ih =>
    rw [List.filter_cons,List.flatMap_cons,← ih,atoms_other]
    split <;> rfl

end

/-- The chunks are a division of the segments: the same content in the same order, hence the same
text and every other segment once, in pieces that are not divided again. -/
structure Divided (n : Limit) (segs : List (Datum β)) (chunks : List (List (Datum β))) : Prop where
  content : chunks.flatten.flatMap atoms=segs.flatMap atoms
  text : chunks.flatten.flatMap textOf=segs.flatMap textOf
  others : chunks.flatten.filter (fun segment => (divisible segment).isNone)=
    segs.filter fun segment => (divisible segment).isNone
  bounded : ∀c∈chunks,∃m≤n.1,totalLength c=some m
  stable : ∀c∈chunks,splitMessageSegments c n.1=.ok [c]

/-- `data` of a text segment is missing or a dictionary. -/
def ReadableData (segment : Datum β) : Prop :=
  ∀fields,segment=.dict fields → isText fields=true →
    ∀value,fields.lookup "data"=some value → ∃data,value=.dict data

section

variable {n : Limit} {segment : Datum β} {segs : List (Datum β)} {chunks : List (List (Datum β))}
  {k : Nat}

theorem countedLength_some_iff : (∃k,countedLength segment=some k)↔ReadableData segment := by
  constructor
  · rintro ⟨k,hk⟩ fields rfl htext value hvalue
    simp only [countedLength,htext,if_true,hvalue,Option.getD_some] at hk
    cases value with
    | dict data => exact ⟨data,rfl⟩
    | str t => cases hk
    | other v => cases hk
  · intro h
    unfold countedLength
    split
    · rename_i fields
      split_ifs with htext
      · cases hv : fields.lookup "data" with
        | none => exact ⟨0,rfl⟩
        | some value =>
          obtain ⟨data,rfl⟩ := h fields rfl htext value hv
          simp only [Option.getD_some]
          split
          · exact ⟨_,rfl⟩
          · exact ⟨0,rfl⟩
      · exact ⟨0,rfl⟩
    · exact ⟨0,rfl⟩

theorem totalLength_some_iff :
    (∃k,totalLength segs=some k)↔∀segment∈segs,ReadableData segment := by
  induction segs with
  | nil => simp [totalLength]
  | cons segment segs ih =>
    rw [List.forall_mem_cons,← ih,← countedLength_some_iff,totalLength]
    cases countedLength segment with
    | none => simp
    | some k => simp

theorem splitMessageSegments_limit : splitMessageSegments segs n.1=splitSegments n segs := by
  have hn : (0 : Int) < n.1 := by exact_mod_cast n.2
  unfold splitMessageSegments
  rw [dif_pos hn]
  congr 1

theorem splitSegments_of_le (h : totalLength segs=some k) (hk : k≤n.1) :
    splitSegments n segs=.ok [segs] := by
  unfold splitSegments
  split
  · rfl
  · simp only [h,if_pos hk]

theorem Divided.ofContent (hcontent : chunks.flatten.flatMap atoms=segs.flatMap atoms)
    (hbounded : ∀c∈chunks,∃m≤n.1,totalLength c=some m) : Divided n segs chunks where
  content := hcontent
  text := by rw [flatMap_textOf,hcontent,flatMap_textOf]
  others := by rw [filter_whole,hcontent,filter_whole]
  bounded := hbounded
  stable := by
    intro c hc
    obtain ⟨m,hm,htotal⟩ := hbounded c hc
    rw [splitMessageSegments_limit]
    exact splitSegments_of_le htotal hm

theorem splitSegments_divided (h : totalLength segs=some k) :
    ∃chunks,splitSegments n segs=.ok chunks∧Divided n segs chunks := by
  by_cases hk : k≤n.1
  · refine ⟨[segs],splitSegments_of_le h hk,.ofContent (by simp) fun c hc => ?_⟩
    rw [List.mem_singleton.mp hc]
    exact ⟨k,hk,h⟩
  have hne : segs≠[] := by
    rintro rfl
    cases h
    exact hk (Nat.zero_le _)
  have hnew : Tidy n (.new : Splitter β) := ⟨by simp [Splitter.new],rfl,Nat.zero_le _⟩
  obtain ⟨htidy,hcontent⟩ := splitSegments_fold h hnew
  generalize hfold : segs.foldl (splitSegment n) .new=s at htidy hcontent
  have hflat : s.flush.chunks.flatten.flatMap atoms=segs.flatMap atoms := by
    rw [Splitter.chunks_flush,hcontent]
    simp [Splitter.new,Splitter.all]
  have hchunks : s.flush.chunks≠[] := by
    intro hnil
    rw [hnil,List.flatten_nil,List.flatMap_nil] at hflat
    obtain ⟨segment,rest,rfl⟩ := List.exists_cons_of_ne_nil hne
    rw [List.flatMap_cons] at hflat
    exact atoms_ne_nil (List.append_eq_nil_iff.mp hflat.symm).1
  refine ⟨s.flush.chunks,?_,.ofContent hflat htidy.flush.chunks⟩
  unfold splitSegments
  rw [if_neg (by simpa using hne)]
  simp only [h,if_neg hk,hfold,List.isEmpty_iff,if_neg hchunks]

end

/-! Delivery -/

/-- `_maybe_split_action`. -/
def splitAction (a : Action (Datum β)) : Except SplitError (List (Action (Datum β))) :=
  if a.action="send_group_msg" ∨ a.action="send_private_msg" then
    match a.message with
    | none => .ok [a]
    | some message =>
      (splitMessageSegments message maxMessageTextLength).map
        fun chunks => maybeSplitAction (fun _ => chunks) a
  else .ok [a]

/-- `_prepare_action_delivery`: the expanded actions and the receipt they share. -/
def prepareActionDelivery (a : Action (Datum β)) (receipt : Option DeliveryReceipt) :
    Except SplitError (List (Action (Datum β)) × Option DeliveryReceipt) :=
  (splitAction a).map fun actions => (actions,receipt.map (prepareReceipt actions.length))

/-- An action is expanded once: its parts are prepared as they are, and their receipt expects no
more than before. -/
def PreparedOnce (a : Action (Datum β)) (receipt : Option DeliveryReceipt) : Prop :=
  ∃actions next,prepareActionDelivery a receipt=.ok (actions,next)∧
    ∀b∈actions,∀r,prepareActionDelivery b r=.ok ([b],r)

/-- The splitting returns chunks, and these divide the segments; an action with the segments as its
message is expanded once. -/
structure SplitsWell (n : Limit) (segs : List (Datum β)) : Prop where
  divided : ∃chunks,splitMessageSegments segs n.1=.ok chunks∧Divided n segs chunks
  prepared : ∀(a : Action (Datum β)) (receipt : Option DeliveryReceipt),
    a.message=some segs → PreparedOnce a receipt

section

variable {n : Limit} {segs : List (Datum β)} {a : Action (Datum β)} {receipt : Option DeliveryReceipt}

theorem prepareActionDelivery_single (h : splitAction a=.ok [a]) :
    prepareActionDelivery a receipt=.ok ([a],receipt) := by
  have hr : receipt.map (prepareReceipt 1)=receipt := by
    cases receipt with
    | none => rfl
    | some r => rfl
  unfold prepareActionDelivery
  rw [h]
  exact congrArg (fun r => Except.ok ([a],r)) hr

theorem preparedOnce_of_single (h : splitAction a=.ok [a]) : PreparedOnce a receipt := by
  refine ⟨[a],receipt,prepareActionDelivery_single h,fun b hb r => ?_⟩
  rw [List.mem_singleton.mp hb]
  exact prepareActionDelivery_single h

theorem preparedOnce (h : ∀segment∈segs,ReadableData segment) (hm : a.message=some segs) :
    PreparedOnce a receipt := by
  by_cases hname : a.action="send_group_msg"∨a.action="send_private_msg"
  swap
  · exact preparedOnce_of_single (if_neg hname)
  obtain ⟨k,hk⟩ := totalLength_some_iff.mpr h
  obtain ⟨chunks,hsplit,hdivided⟩ := splitSegments_divided (n:=⟨3000,by omega⟩) hk
  have hlimit : splitMessageSegments segs maxMessageTextLength=.ok chunks :=
    splitMessageSegments_limit.trans hsplit
  have haction : splitAction a=.ok (maybeSplitAction (fun _ => chunks) a) := by
    unfold splitAction
    rw [if_pos hname,hm]
    simp only [hlimit]
    rfl
  by_cases hlen : chunks.length ≤ 1
  · apply preparedOnce_of_single
    rw [haction]
    unfold maybeSplitAction
    rw [if_pos hname,hm]
    simp only [if_pos hlen]
  have hparts : maybeSplitAction (fun _ => chunks) a=
      chunks.map fun chunk => {a with message := some chunk} := by
    unfold maybeSplitAction
    rw [if_pos hname,hm]
    simp only [if_neg hlen]
  rw [hparts] at haction
  refine ⟨_,_,by unfold prepareActionDelivery; rw [haction]; rfl,fun b hb r => ?_⟩
  obtain ⟨chunk,hc,rfl⟩ := List.mem_map.mp hb
  have hstable : splitMessageSegments chunk maxMessageTextLength=.ok [chunk] :=
    hdivided.stable chunk hc
  apply prepareActionDelivery_single
  unfold splitAction
  rw [if_pos hname]
  simp only [hstable,Except.map]
  congr 1
  unfold maybeSplitAction
  rw [if_pos hname]
  rfl

/-- The splitting does its work exactly on messages in which the data of every text segment can be
read. -/
theorem split_message_iff (n : Limit) (segs : List (Datum β)) :
    SplitsWell n segs↔∀segment∈segs,ReadableData segment := by
  constructor
  · rintro ⟨⟨chunks,hsplit,-⟩,-⟩
    apply totalLength_some_iff.mp
    rw [splitMessageSegments_limit] at hsplit
    unfold splitSegments at hsplit
    split at hsplit
    · rename_i hempty
      rw [List.isEmpty_iff.mp hempty]
      exact ⟨0,rfl⟩
    · split at hsplit
      · cases hsplit
      · rename_i total htotal
        exact ⟨total,htotal⟩
  · intro h
    obtain ⟨k,hk⟩ := totalLength_some_iff.mpr h
    refine ⟨?_,fun a receipt hm => preparedOnce h hm⟩
    rw [splitMessageSegments_limit]
    exact splitSegments_divided hk

end

/-- A text segment without data, as `null` stands for it, is not attached but raises. -/
theorem null_data_raises : ¬SplitsWell ⟨10,by omega⟩
    [(.dict [("type",.str "text".toList),("data",.other ())] : Datum Unit)] := by
  rintro ⟨⟨chunks,hsplit,-⟩,-⟩
  have hraises : splitMessageSegments
      [(.dict [("type",.str "text".toList),("data",.other ())] : Datum Unit)] 10=.error .noGet := rfl
  rw [show ((10 : Nat) : Int)=10 from rfl,hraises] at hsplit
  cases hsplit

end XiaoQing.Delivery
