import XiaoQing.Json.Loads
import XiaoQing.Json.Accepted

namespace XiaoQing.Json

section

open XiaoQing.Framework

/-- The state of `json.loads` without hooks: the rest of the text, the open containers, and what
comes next. -/
structure Reader where
  text : Text
  frames : List Frame
  mode : Mode

def setMember (k : List Nat) (v : Value) : List (List Nat × Value) → List (List Nat × Value)
  | [] => [(k,v)]
  | m::ms => if joinSurrogates m.1=joinSurrogates k then (m.1,v)::ms else m::setMember k v ms

def Reader.openTurn (interp : Interpreter) (s : Reader) (c : Char) (rest : Text) :
    Reader ⊕ Except LoadError Value :=
  if s.frames.length+1 > interp.recursionLimit then .inr (.error .recursion)
  else if (skipWs rest).head? = some (closer c) then
    .inl {s with text:=(skipWs rest).tail, mode:=.done (emptied c)}
  else if c = '{' then .inl {s with text:=rest, mode:=.key []}
  else .inl {s with text:=rest, frames:=.arr []::s.frames}

def Reader.scalarTurn (interp : Interpreter) (s : Reader) (text : Text) :
    Reader ⊕ Except LoadError Value :=
  match literals.find? (fun l => l.1.isPrefixOf text) with
  | some (w,v) => .inl {s with text:=text.drop w.length, mode:=.done v}
  | none =>
    match constants.find? (fun w => w.isPrefixOf text) with
    | some w => .inl {s with text:=text.drop w.length, mode:=.done (.number true w)}
    | none =>
      match matchNumber text with
      | none => .inr (.error .decode)
      | some (isFloat,t,rest) =>
        if isFloat || intFits interp t then .inl {s with text:=rest, mode:=.done (.number isFloat t)}
        else .inr (.error .digits)

def Reader.valueTurn (interp : Interpreter) (s : Reader) (c : Char) (rest : Text) :
    Reader ⊕ Except LoadError Value :=
  if c = '"' then
    match scanUnits rest with
    | none => .inr (.error .decode)
    | some (us,rest) => .inl {s with text:=rest, mode:=.done (.str us)}
  else if c = '{' ∨ c = '[' then s.openTurn interp c rest
  else s.scalarTurn interp (c::rest)

def Reader.keyTurn (s : Reader) (ms : List (List Nat × Value)) (c : Char) (rest : Text) :
    Reader ⊕ Except LoadError Value :=
  if c = '"' then
    match scanUnits rest with
    | none => .inr (.error .decode)
    | some (k,rest) =>
      if (skipWs rest).head? = some ':' then
        .inl {s with text:=(skipWs rest).tail, frames:=.obj ms k::s.frames, mode:=.value}
      else .inr (.error .decode)
  else .inr (.error .decode)

def Reader.doneTurn (s : Reader) (v : Value) (c : Char) (rest : Text) :
    Reader ⊕ Except LoadError Value :=
  match s.frames with
  | [] => .inr (.error .decode)
  | .arr items::frames =>
    if c = ',' then .inl {s with text:=rest, frames:=.arr (items++[v])::frames, mode:=.value}
    else if c = ']' then .inl {s with text:=rest, frames:=frames, mode:=.done (.arr (items++[v]))}
    else .inr (.error .decode)
  | .obj ms k::frames =>
    if c = ',' then .inl {s with text:=rest, frames:=frames, mode:=.key (setMember k v ms)}
    else if c = '}' then .inl {s with text:=rest, frames:=frames, mode:=.done (.obj (setMember k v ms))}
    else .inr (.error .decode)

def plainStep (interp : Interpreter) (s : Reader) : Reader ⊕ Except LoadError Value :=
  match skipWs s.text,s.mode with
  | [],.done v => if s.frames.isEmpty then .inr (.ok v) else .inr (.error .decode)
  | [],_ => .inr (.error .decode)
  | c::rest,.value => s.valueTurn interp c rest
  | c::rest,.key ms => s.keyTurn ms c rest
  | c::rest,.done v => s.doneTurn v c rest

section

variable {interp : Interpreter} {s t : Reader} {text rest : Text} {c : Char}

theorem tail_lt {d : Char} (h : (skipWs rest).head?=some d) : (skipWs rest).tail.length < rest.length := by
  have hcons := eq_cons_tail h
  have hskip := skipWs_lt hcons
  exact hskip

theorem openTurn_lt (h : s.openTurn interp c rest=.inl t) : t.text.length < rest.length+1 := by
  unfold Reader.openTurn at h
  split_ifs at h with hlimit hclose hobj
  · cases h
    exact Nat.lt_succ_of_lt (tail_lt hclose)
  · cases h
    exact Nat.lt_succ_self _
  · cases h
    exact Nat.lt_succ_self _

theorem find_pos {w : Text} {l : List Text} (hl : ∀w∈l,w≠[])
    (h : l.find? (fun w => w.isPrefixOf text)=some w) : (text.drop w.length).length < text.length := by
  have hstart : w.isPrefixOf text=true := List.find?_some (p:=fun w : Text => w.isPrefixOf text) h
  have hle := (List.isPrefixOf_iff_prefix.1 hstart).length_le
  have hne := List.length_pos_of_ne_nil (hl w (List.mem_of_find?_eq_some h))
  rw [List.length_drop]
  omega

theorem scalarTurn_lt (h : s.scalarTurn interp text=.inl t) : t.text.length < text.length := by
  unfold Reader.scalarTurn at h
  split at h
  · rename_i w v hfind
    cases h
    obtain ⟨hmem,happend⟩ := literals_find hfind
    obtain ⟨⟨c,r,rfl,_⟩,_⟩ := literal_chars hmem
    have hlength := congrArg List.length happend
    simp only [List.length_append,List.length_cons] at hlength ⊢
    omega
  · split at h
    · rename_i w hfind
      cases h
      exact find_pos (by decide) hfind
    · split at h
      · cases h
      · rename_i isFloat n rest hmatch
        split_ifs at h with hfits
        · cases h
          obtain ⟨happend,hnumber⟩ := matchNumber_sound hmatch
          obtain ⟨c,r,rfl,_⟩ := hnumber.start
          rw [happend,List.length_append,List.length_cons]
          dsimp only
          omega

theorem valueTurn_lt (h : s.valueTurn interp c rest=.inl t) : t.text.length < rest.length+1 := by
  unfold Reader.valueTurn at h
  split_ifs at h with hquote hopen
  · split at h
    · cases h
    · rename_i us after hscan
      cases h
      exact Nat.lt_succ_of_lt (scanUnits_length hscan)
  · exact openTurn_lt h
  · exact scalarTurn_lt h

theorem keyTurn_lt {ms : List (List Nat × Value)} (h : s.keyTurn ms c rest=.inl t) :
    t.text.length < rest.length+1 := by
  unfold Reader.keyTurn at h
  split_ifs at h with hquote
  split at h
  · cases h
  · rename_i k after hscan
    split_ifs at h with hcolon
    · cases h
      have htail := tail_lt hcolon
      have hafter := scanUnits_length hscan
      dsimp only
      omega

theorem doneTurn_lt {v : Value} (h : s.doneTurn v c rest=.inl t) : t.text.length < rest.length+1 := by
  unfold Reader.doneTurn at h
  split at h
  · cases h
  · split_ifs at h
    · cases h
      exact Nat.lt_succ_self _
    · cases h
      exact Nat.lt_succ_self _
  · split_ifs at h
    · cases h
      exact Nat.lt_succ_self _
    · cases h
      exact Nat.lt_succ_self _

theorem plainStep_lt (h : plainStep interp s=.inl t) : t.text.length < s.text.length := by
  unfold plainStep at h
  split at h
  · split_ifs at h
  · cases h
  · rename_i c rest htext hmode
    exact Nat.lt_of_lt_of_le (valueTurn_lt h) (skipWs_lt htext)
  · rename_i c rest ms htext hmode
    exact Nat.lt_of_lt_of_le (keyTurn_lt h) (skipWs_lt htext)
  · rename_i c rest v htext hmode
    exact Nat.lt_of_lt_of_le (doneTurn_lt h) (skipWs_lt htext)

end

def plainLoop (interp : Interpreter) (s : Reader) : Except LoadError Value :=
  loop (plainStep interp) (fun s => s.text.length) (fun _ _ h => plainStep_lt h) s

/-- `json.loads(text)` -/
def plainLoads (interp : Interpreter) (text : Text) : Except LoadError Value :=
  plainLoop interp ⟨text,[],.value⟩

section

variable {interp : Interpreter} {s t : Reader} {n : Nat}

theorem plainLoop_step (h : plainStep interp s=.inl t) : plainLoop interp s=plainLoop interp t :=
  loop_inl h

theorem plainLoop_end {r : Except LoadError Value} (h : plainStep interp s=.inr r) :
    plainLoop interp s=r := loop_inr h

theorem plainStep_bracket {frames : List Frame} : plainStep interp ⟨List.replicate (n+1) '[',frames,.value⟩=
    Reader.openTurn interp ⟨List.replicate (n+1) '[',frames,.value⟩ '[' (List.replicate n '[') := by
  have hskip : skipWs (List.replicate (n+1) '[')= '['::List.replicate n '[' := rfl
  unfold plainStep
  rw [hskip]
  dsimp only
  rw [Reader.valueTurn,if_neg (by decide),if_pos (by decide)]

theorem plainLoop_deep {frames : List Frame} (h : interp.recursionLimit ≤ frames.length+n) :
    plainLoop interp ⟨List.replicate (n+1) '[',frames,.value⟩=.error .recursion := by
  induction n generalizing frames with
  | zero => exact plainLoop_end (plainStep_bracket.trans (if_pos (Nat.lt_succ_of_le h)))
  | succ n ih =>
    by_cases hlimit : frames.length+1 > interp.recursionLimit
    · exact plainLoop_end (plainStep_bracket.trans (if_pos hlimit))
    · have hhead : (skipWs (List.replicate (n+1) '[')).head?=some '[' := rfl
      have hstep : plainStep interp ⟨List.replicate (n+1+1) '[',frames,.value⟩=
          .inl ⟨List.replicate (n+1) '[',.arr []::frames,.value⟩ := by
        rw [plainStep_bracket,Reader.openTurn,if_neg hlimit,hhead,if_neg (by decide),if_neg (by decide)]
      rw [plainLoop_step hstep]
      apply ih
      rw [List.length_cons]
      omega

end

end

section

open XiaoQing.Framework

def Decoder.plain (s : Decoder) : Reader := ⟨s.text,s.frames,s.mode⟩

section

variable {interp : Interpreter} {s t : Decoder} {root v : Value} {text rest : Text} {c : Char}

theorem setMember_new {k : List Nat} {ms : List (List Nat × Value)}
    (h : joinSurrogates k∉ms.map (fun m => joinSurrogates m.1)) : setMember k v ms=ms++[(k,v)] := by
  induction ms with
  | nil => rfl
  | cons m ms ih =>
    simp only [List.map_cons,List.mem_cons,not_or] at h
    rw [setMember,if_neg (Ne.symm h.1),ih h.2,List.cons_append]

theorem Value.Clean.of_item {items : List Value} (h : (Value.arr items).Clean interp) (hv : v∈items) :
    v.Clean interp := by
  cases h with
  | arr _ hall => exact hall v hv

theorem Closing.clean {frames : List Frame} (h : Closing frames v text root) (hroot : root.Clean interp) :
    v.Clean interp := by
  induction frames generalizing v text with
  | nil =>
    obtain ⟨-,rfl⟩ := h
    exact hroot
  | cons frame frames ih =>
    cases frame with
    | arr items =>
      obtain ⟨vs,u,rest,-,-,hclosing⟩ := h
      exact (ih hclosing).of_item (by simp)
    | obj ms k =>
      obtain ⟨ms',u,rest,-,-,hclosing⟩ := h
      cases ih hclosing with
      | obj _ _ hall => exact hall (k,v) (by simp)

theorem Closing.new_key {frames : List Frame} {ms : List (List Nat × Value)} {k : List Nat}
    (h : Closing (.obj ms k::frames) v text root) (hroot : root.Clean interp) :
    joinSurrogates k∉ms.map (fun m => joinSurrogates m.1) := by
  obtain ⟨ms',u,rest,-,-,hclosing⟩ := h
  cases hclosing.clean hroot with
  | obj _ hnodup _ =>
    intro hmem
    rw [List.map_append,List.map_cons] at hnodup
    exact (List.nodup_append.1 hnodup).2.2 _ hmem _ (List.mem_cons_self ..) rfl

theorem plainStep_value {s : Reader} (hmode : s.mode=.value) (htext : skipWs s.text=c::rest) :
    plainStep interp s=s.valueTurn interp c rest := by
  rw [plainStep,htext,hmode]

theorem readerTurn_scalar {s : Reader} (hc : c≠ '"') (hobj : c≠ '{') (harr : c≠ '[') :
    s.valueTurn interp c rest=s.scalarTurn interp (c::rest) := by
  unfold Reader.valueTurn
  rw [if_neg hc,if_neg (by simp [hobj,harr])]

theorem Moves.plainStep (h : Moves interp s t) (ht : Continues s root) (hroot : root.Clean interp) :
    plainStep interp s.plain=.inl t.plain := by
  cases h <;> dsimp only [Decoder.plain]
  case str htext hscan =>
    rw [plainStep_value rfl htext,Reader.valueTurn,if_pos rfl,hscan]
  case empty htext hc hclose hdepth =>
    rename_i c
    have hne : c≠ '"' := by
      rintro rfl
      exact absurd hc (by decide)
    rw [plainStep_value rfl htext,Reader.valueTurn,if_neg hne,if_pos (by simpa using hc),Reader.openTurn,
      if_neg (Nat.not_lt.2 hdepth),if_pos (by rw [hclose]; rfl),hclose]
    rfl
  case enterArr htext hopen hdepth =>
    rw [plainStep_value rfl htext,Reader.valueTurn,if_neg (by decide),if_pos (.inr rfl),Reader.openTurn,
      if_neg (Nat.not_lt.2 hdepth),if_neg (c:=_=some (closer '[')) hopen]
    rfl
  case enterObj htext hopen hdepth =>
    rw [plainStep_value rfl htext,Reader.valueTurn,if_neg (by decide),if_pos (.inl rfl),Reader.openTurn,
      if_neg (Nat.not_lt.2 hdepth),if_neg (c:=_=some (closer '{')) hopen]
    rfl
  case literal htext hw =>
    rename_i w rest frames n v
    obtain ⟨⟨c,r,rfl,hc⟩,_⟩ := literal_chars hw
    have hne : c≠ '"' ∧ c≠ '{' ∧ c≠ '[' := by
      refine ⟨?_,?_,?_⟩
      all_goals
        rintro rfl
        exact absurd hc (by decide)
    rw [plainStep_value rfl (htext.trans List.cons_append),readerTurn_scalar hne.1 hne.2.1 hne.2.2,
      ← List.cons_append,Reader.scalarTurn,find_literal hw]
    simp
  case number htext hmatch hfits =>
    rename_i w rest frames n isFloat
    obtain ⟨_,hnumber⟩ := matchNumber_sound hmatch
    obtain ⟨hfind,hnamed⟩ :
        literals.find? (fun l => l.1.isPrefixOf (w++rest))=none ∧
          constants.any (fun l => l.isPrefixOf (w++rest))=false := number_not_named hnumber
    obtain ⟨c,r,rfl,_⟩ := hnumber.start
    have hne : c≠ '"' ∧ c≠ '{' ∧ c≠ '[' := by
      have hchar := hnumber.chars c (.head _)
      refine ⟨?_,?_,?_⟩
      all_goals
        rintro rfl
        exact absurd hchar (by unfold NumberChar; decide)
    have hconst : constants.find? (fun w => w.isPrefixOf (c::r++rest))=none := by
      rw [List.find?_eq_none]
      intro w hw hstart
      have hany : constants.any (fun w => w.isPrefixOf (c::r++rest))=true := List.any_eq_true.2 ⟨w,hw,hstart⟩
      rw [hnamed] at hany
      cases hany
    have hint : (isFloat || intFits interp (c::r))=true := by
      cases isFloat with
      | true => rfl
      | false => simpa [numberFits] using hfits
    rw [plainStep_value rfl (htext.trans List.cons_append),readerTurn_scalar hne.1 hne.2.1 hne.2.2,
      ← List.cons_append,Reader.scalarTurn,hfind]
    dsimp only
    rw [hconst]
    dsimp only
    rw [hmatch]
    dsimp only
    rw [if_pos hint]
  case key htext hscan hcolon =>
    simp only [Json.plainStep,htext,Reader.keyTurn,if_pos,hscan,hcolon,List.head?_cons,
      List.tail_cons]
  case nextItem htext => simp only [Json.plainStep,htext,Reader.doneTurn,if_pos]
  case endItems htext => simp [Json.plainStep,htext,Reader.doneTurn]
  case nextMember htext =>
    have hnew := Closing.new_key (v:=_) ht hroot
    simp only [Json.plainStep,htext,Reader.doneTurn,if_pos,setMember_new hnew]
  case endMembers htext hnodup =>
    have hnew := Closing.new_key (v:=_) ht hroot
    simp [Json.plainStep,htext,Reader.doneTurn,setMember_new hnew]

theorem Ends.plain {b : Loaded} (h : Ends s b) (hb : b.value=.ok root) :
    plainLoop interp s.plain=.ok root := by
  cases h with
  | accept htext =>
    cases hb
    apply plainLoop_end
    rw [Json.plainStep,Decoder.plain,htext]
    rfl
  | stop | number | key => cases hb

theorem decodeLoop_plain (s : Decoder) (hroot : root.Clean interp)
    (h : (decodeLoop interp s).value=.ok root) : plainLoop interp s.plain=.ok root := by
  have hboth := decodeLoop_induction
    (P:=fun s b => b.value=.ok root → Continues s root ∧ plainLoop interp s.plain=.ok root)
    (fun _ _ hends hb => ⟨hends.continues hb,hends.plain hb⟩)
    (fun s t b (hmoves : Moves interp s t) ih hb => by
      obtain ⟨hcont,hplain⟩ := ih hb
      have hs := hmoves.continues hcont
      exact ⟨hs,(plainLoop_step (hmoves.plainStep hs hroot)).trans hplain⟩) s
  exact (hboth h).2

theorem plainLoads_complete (h : IsJson root text) (hclean : root.Clean interp)
    (hdepth : (root.written 0).depth ≤ interp.recursionLimit) : plainLoads interp text=.ok root :=
  decodeLoop_plain _ hclean (loads_complete h hclean hdepth)

end

end

end XiaoQing.Json
