import XiaoQing.Json.Grammar
import XiaoQing.Json.Preflight

namespace XiaoQing.Json

open XiaoQing.Framework

/-- What `json.loads` raises: an error of a hook, `JSONDecodeError`, `RecursionError`, or the
`ValueError` of an integer with too many digits. -/
inductive LoadError
  | hook (e : JsonError)
  | decode
  | recursion
  | digits
deriving DecidableEq

/-- A container that is being read, with what it has; of an object also the last key. -/
inductive Frame
  | arr (items : List Value)
  | obj (members : List (List Nat × Value)) (key : List Nat)

/-- What comes next: a value, a key of an object, or what follows a value. -/
inductive Mode
  | value
  | key (members : List (List Nat × Value))
  | done (v : Value)

/-- The state of the decoder: the rest of the text, the open containers, and the size of what has
been created. -/
structure Decoder where
  text : Text
  frames : List Frame
  mode : Mode
  created : Size

/-- The result of `json.loads`, and the size of what it created. -/
structure Loaded where
  value : Except LoadError Value
  created : Size

def duplicateKey : JsonError := .format "duplicate JSON object key"

def Decoder.fail (s : Decoder) (e : LoadError) : Decoder ⊕ Loaded := .inr ⟨.error e,s.created⟩

def container (depth : Nat) : Size := ⟨1,depth+1,0,0⟩

def emptied (c : Char) : Value := if c = '{' then .obj [] else .arr []

def Decoder.enter (s : Decoder) (c : Char) (rest : Text) : Decoder :=
  if c = '{' then {s with text:=rest, mode:=.key []}
  else {s with text:=rest, frames:=.arr []::s.frames}

def openTurn (interp : Interpreter) (s : Decoder) (c : Char) (rest : Text) : Decoder ⊕ Loaded :=
  if s.frames.length+1 > interp.recursionLimit then s.fail .recursion
  else if (skipWs rest).head? = some (closer c) then
    .inl {s with text:=(skipWs rest).tail, mode:=.done (emptied c),
                 created:=s.created+container s.frames.length}
  else .inl {s.enter c rest with created:=s.created+container s.frames.length}

/-- The literals, the names of the numbers that are not finite, and the numbers. -/
def scalarTurn (interp : Interpreter) (s : Decoder) (text : Text) : Decoder ⊕ Loaded :=
  match literals.find? (fun l => l.1.isPrefixOf text) with
  | some (w,v) =>
    .inl {s with text:=text.drop w.length, mode:=.done v, created:=s.created+ownWritten 0 v}
  | none =>
    if constants.any (fun w => w.isPrefixOf text) then s.fail (.hook nonFinite)
    else
      match matchNumber text with
      | none => s.fail .decode
      | some (isFloat,t,rest) =>
        let created := s.created+ownWritten 0 (.number isFloat t)
        if numberFits interp isFloat t then
          .inl {s with text:=rest, mode:=.done (.number isFloat t), created:=created}
        else .inr ⟨.error (if isFloat then .hook nonFinite else .digits),created⟩

def valueTurn (interp : Interpreter) (s : Decoder) (c : Char) (rest : Text) : Decoder ⊕ Loaded :=
  if c = '"' then
    match scanUnits rest with
    | none => s.fail .decode
    | some (us,rest) =>
      .inl {s with text:=rest, mode:=.done (.str us), created:=s.created+ownWritten 0 (.str us)}
  else if c = '{' ∨ c = '[' then openTurn interp s c rest
  else scalarTurn interp s (c::rest)

def keyTurn (s : Decoder) (ms : List (List Nat × Value)) (c : Char) (rest : Text) :
    Decoder ⊕ Loaded :=
  if c = '"' then
    match scanUnits rest with
    | none => s.fail .decode
    | some (k,rest) =>
      if (skipWs rest).head? = some ':' then
        .inl {s with text:=(skipWs rest).tail, frames:=.obj ms k::s.frames, mode:=.value,
                     created:=s.created+keyWritten k}
      else .inr ⟨.error .decode,s.created+keyWritten k⟩
  else s.fail .decode

def objectPairs (ms : List (List Nat × Value)) : Except LoadError Value :=
  if (ms.map (fun m => joinSurrogates m.1)).Nodup then .ok (.obj ms)
  else .error (.hook duplicateKey)

def doneTurn (s : Decoder) (v : Value) (c : Char) (rest : Text) : Decoder ⊕ Loaded :=
  match s.frames with
  | [] => s.fail .decode
  | .arr items::frames =>
    if c = ',' then
      .inl {s with text:=rest, frames:=.arr (items++[v])::frames, mode:=.value}
    else if c = ']' then
      .inl {s with text:=rest, frames:=frames, mode:=.done (.arr (items++[v]))}
    else s.fail .decode
  | .obj ms k::frames =>
    if c = ',' then .inl {s with text:=rest, frames:=frames, mode:=.key (ms++[(k,v)])}
    else if c = '}' then
      match objectPairs (ms++[(k,v)]) with
      | .ok o => .inl {s with text:=rest, frames:=frames, mode:=.done o}
      | .error e => s.fail e
    else s.fail .decode

def loadStep (interp : Interpreter) (s : Decoder) : Decoder ⊕ Loaded :=
  match skipWs s.text,s.mode with
  | [],.done v => if s.frames.isEmpty then .inr ⟨.ok v,s.created⟩ else s.fail .decode
  | [],_ => s.fail .decode
  | c::rest,.value => valueTurn interp s c rest
  | c::rest,.key ms => keyTurn s ms c rest
  | c::rest,.done v => doneTurn s v c rest

/-- What one step of the decoder does. -/
inductive Moves (interp : Interpreter) : Decoder → Decoder → Prop
  | str {text r rest : Text} {frames : List Frame} {n : Size} {us : List Nat} :
      skipWs text= '"'::r → scanUnits r=some (us,rest) →
      Moves interp ⟨text,frames,.value,n⟩ ⟨rest,frames,.done (.str us),n+ownWritten 0 (.str us)⟩
  | empty {text r rest : Text} {frames : List Frame} {n : Size} {c : Char} :
      skipWs text=c::r → c∈['{','['] → skipWs r=closer c::rest →
      frames.length+1 ≤ interp.recursionLimit →
      Moves interp ⟨text,frames,.value,n⟩
        ⟨rest,frames,.done (emptied c),n+container frames.length⟩
  | enterArr {text r : Text} {frames : List Frame} {n : Size} :
      skipWs text= '['::r → (skipWs r).head?≠some ']' → frames.length+1 ≤ interp.recursionLimit →
      Moves interp ⟨text,frames,.value,n⟩ ⟨r,.arr []::frames,.value,n+container frames.length⟩
  | enterObj {text r : Text} {frames : List Frame} {n : Size} :
      skipWs text= '{'::r → (skipWs r).head?≠some '}' → frames.length+1 ≤ interp.recursionLimit →
      Moves interp ⟨text,frames,.value,n⟩ ⟨r,frames,.key [],n+container frames.length⟩
  | literal {text w rest : Text} {frames : List Frame} {n : Size} {v : Value} :
      skipWs text=w++rest → (w,v)∈literals →
      Moves interp ⟨text,frames,.value,n⟩ ⟨rest,frames,.done v,n+ownWritten 0 v⟩
  | number {text t rest : Text} {frames : List Frame} {n : Size} {isFloat : Bool} :
      skipWs text=t++rest → matchNumber (t++rest)=some (isFloat,t,rest) →
      numberFits interp isFloat t=true →
      Moves interp ⟨text,frames,.value,n⟩
        ⟨rest,frames,.done (.number isFloat t),n+ownWritten 0 (.number isFloat t)⟩
  | key {text r r' rest : Text} {frames : List Frame} {n : Size} {ms : List (List Nat × Value)}
      {k : List Nat} :
      skipWs text= '"'::r → scanUnits r=some (k,r') → skipWs r'= ':'::rest →
      Moves interp ⟨text,frames,.key ms,n⟩ ⟨rest,.obj ms k::frames,.value,n+keyWritten k⟩
  | nextItem {text rest : Text} {frames : List Frame} {n : Size} {items : List Value} {v : Value} :
      skipWs text= ','::rest →
      Moves interp ⟨text,.arr items::frames,.done v,n⟩ ⟨rest,.arr (items++[v])::frames,.value,n⟩
  | endItems {text rest : Text} {frames : List Frame} {n : Size} {items : List Value} {v : Value} :
      skipWs text= ']'::rest →
      Moves interp ⟨text,.arr items::frames,.done v,n⟩ ⟨rest,frames,.done (.arr (items++[v])),n⟩
  | nextMember {text rest : Text} {frames : List Frame} {n : Size} {ms : List (List Nat × Value)}
      {k : List Nat} {v : Value} :
      skipWs text= ','::rest →
      Moves interp ⟨text,.obj ms k::frames,.done v,n⟩ ⟨rest,frames,.key (ms++[(k,v)]),n⟩
  | endMembers {text rest : Text} {frames : List Frame} {n : Size} {ms : List (List Nat × Value)}
      {k : List Nat} {v : Value} :
      skipWs text= '}'::rest → ((ms++[(k,v)]).map (fun m => joinSurrogates m.1)).Nodup →
      Moves interp ⟨text,.obj ms k::frames,.done v,n⟩ ⟨rest,frames,.done (.obj (ms++[(k,v)])),n⟩

/-- How the decoder ends: with its value, stopped where it is, after a number that it does not
convert, or after a key with no colon. -/
inductive Ends : Decoder → Loaded → Prop
  | accept {text : Text} {n : Size} {v : Value} : skipWs text=[] →
      Ends ⟨text,[],.done v,n⟩ ⟨.ok v,n⟩
  | stop {s : Decoder} (e : LoadError) : Ends s ⟨.error e,s.created⟩
  | number {text t rest : Text} {frames : List Frame} {n : Size} {isFloat : Bool}
      (e : LoadError) : skipWs text=t++rest → IsNumber isFloat t →
      Ends ⟨text,frames,.value,n⟩ ⟨.error e,n+ownWritten 0 (.number isFloat t)⟩
  | key {text r rest : Text} {frames : List Frame} {n : Size} {ms : List (List Nat × Value)}
      {k : List Nat} (e : LoadError) : skipWs text= '"'::r → scanUnits r=some (k,rest) →
      Ends ⟨text,frames,.key ms,n⟩ ⟨.error e,n+keyWritten k⟩

def Explained (interp : Interpreter) (s : Decoder) : Decoder ⊕ Loaded → Prop
  | .inl t => Moves interp s t
  | .inr b => Ends s b

section

variable {interp : Interpreter} {text rest : Text} {frames : List Frame} {n : Size} {c : Char}

theorem explained_fail {s : Decoder} (e : LoadError) : Explained interp s (s.fail e) := .stop e

theorem eq_cons_tail {t : Text} {d : Char} (h : t.head?=some d) : t=d::t.tail := by
  cases t with
  | nil => cases h
  | cons e t =>
    cases h
    rfl

theorem openTurn_explained (htext : skipWs text=c::rest) (hc : c= '{' ∨ c= '[') :
    Explained interp ⟨text,frames,.value,n⟩ (openTurn interp ⟨text,frames,.value,n⟩ c rest) := by
  unfold openTurn
  split
  · exact explained_fail _
  rename_i hlimit
  have hdepth : frames.length+1 ≤ interp.recursionLimit := Nat.le_of_not_lt hlimit
  split
  · rename_i hclose
    exact .empty htext (by simpa using hc) (eq_cons_tail hclose) hdepth
  · rename_i hopen
    rcases hc with rfl | rfl
    · exact .enterObj htext hopen hdepth
    · exact .enterArr htext hopen hdepth

theorem literals_find {w : Text} {v : Value}
    (h : literals.find? (fun l => l.1.isPrefixOf text)=some (w,v)) :
    (w,v)∈literals ∧ text=w++text.drop w.length := by
  refine ⟨List.mem_of_find?_eq_some h,?_⟩
  have hbegins : w.isPrefixOf text=true :=
    List.find?_some (p:=fun l : Text × Value => l.1.isPrefixOf text) h
  exact (List.prefix_iff_eq_append.1 (List.isPrefixOf_iff_prefix.1 hbegins)).symm

theorem scalarTurn_explained (htext : skipWs text=c::rest) :
    Explained interp ⟨text,frames,.value,n⟩
      (scalarTurn interp ⟨text,frames,.value,n⟩ (c::rest)) := by
  unfold scalarTurn
  split
  · rename_i w v hfind
    obtain ⟨hmem,happend⟩ := literals_find hfind
    exact .literal (htext.trans happend) hmem
  split
  · exact explained_fail _
  split
  · exact explained_fail _
  rename_i isFloat t after hmatch
  obtain ⟨happend,hnumber⟩ := matchNumber_sound hmatch
  dsimp only
  split
  · rename_i hfits
    exact .number (htext.trans happend) (happend ▸ hmatch) hfits
  · exact Ends.number _ (htext.trans happend) hnumber

theorem valueTurn_explained (htext : skipWs text=c::rest) :
    Explained interp ⟨text,frames,.value,n⟩ (valueTurn interp ⟨text,frames,.value,n⟩ c rest) := by
  unfold valueTurn
  split
  · rename_i hquote
    split
    · exact explained_fail _
    · rename_i us after hscan
      exact .str (hquote ▸ htext) hscan
  split
  · rename_i hc
    exact openTurn_explained htext hc
  · exact scalarTurn_explained htext

theorem keyTurn_explained {ms : List (List Nat × Value)} (htext : skipWs text=c::rest) :
    Explained interp ⟨text,frames,.key ms,n⟩ (keyTurn ⟨text,frames,.key ms,n⟩ ms c rest) := by
  unfold keyTurn
  split
  · rename_i hquote
    split
    · exact explained_fail _
    rename_i k after hscan
    split
    · rename_i hcolon
      exact .key (hquote ▸ htext) hscan (eq_cons_tail hcolon)
    · exact Ends.key _ (hquote ▸ htext) hscan
  · exact explained_fail _

theorem doneTurn_explained {v : Value} (htext : skipWs text=c::rest) :
    Explained interp ⟨text,frames,.done v,n⟩ (doneTurn ⟨text,frames,.done v,n⟩ v c rest) := by
  cases frames with
  | nil => exact explained_fail _
  | cons frame frames =>
    cases frame with
    | arr items =>
      dsimp only [doneTurn]
      split
      · rename_i hc
        exact .nextItem (hc ▸ htext)
      split
      · rename_i hc
        exact .endItems (hc ▸ htext)
      · exact explained_fail _
    | obj ms k =>
      dsimp only [doneTurn]
      split
      · rename_i hc
        exact .nextMember (hc ▸ htext)
      split
      · rename_i hc
        unfold objectPairs
        split
        · rename_i o hpairs
          split at hpairs
          · rename_i hnodup
            cases hpairs
            exact .endMembers (hc ▸ htext) hnodup
          · cases hpairs
        · exact explained_fail _
      · exact explained_fail _

theorem loadStep_explained (s : Decoder) : Explained interp s (loadStep interp s) := by
  obtain ⟨text,frames,mode,n⟩ := s
  unfold loadStep
  dsimp only
  cases htext : skipWs text with
  | nil =>
    cases mode with
    | done v =>
      cases frames with
      | nil => exact Ends.accept htext
      | cons frame frames => exact explained_fail _
    | value => exact explained_fail _
    | key ms => exact explained_fail _
  | cons c rest =>
    cases mode with
    | done v => exact doneTurn_explained htext
    | value => exact valueTurn_explained htext
    | key ms => exact keyTurn_explained htext

theorem loadStep_inl {s t : Decoder} (h : loadStep interp s=.inl t) : Moves interp s t := by
  have hstep : Explained interp s (loadStep interp s) := loadStep_explained s
  rwa [h] at hstep

theorem loadStep_inr {s : Decoder} {b : Loaded} (h : loadStep interp s=.inr b) : Ends s b := by
  have hstep : Explained interp s (loadStep interp s) := loadStep_explained s
  rwa [h] at hstep

theorem find_literal {w : Text} {v : Value} (h : (w,v)∈literals) :
    literals.find? (fun l => l.1.isPrefixOf (w++rest))=some (w,v) := by
  simp only [literals,List.mem_cons,Prod.mk.injEq,List.not_mem_nil,or_false] at h
  rcases h with ⟨rfl,rfl⟩ | ⟨rfl,rfl⟩ | ⟨rfl,rfl⟩ <;> simp [literals]

theorem number_not_named {isFloat : Bool} {t : Text} (h : IsNumber isFloat t) :
    literals.find? (fun l => l.1.isPrefixOf (t++rest))=none ∧
      constants.any (fun w => w.isPrefixOf (t++rest))=false := by
  obtain ⟨c,r,rfl,hstart⟩ := h.start
  have hne : ∀d,isDigit d=true → d≠ 'n' ∧ d≠ 't' ∧ d≠ 'f' ∧ d≠ 'N' ∧ d≠ 'I' ∧ d≠ '-' := by
    intro d hd
    refine ⟨?_,?_,?_,?_,?_,?_⟩
    all_goals
      rintro rfl
      exact absurd hd (by decide)
  rcases hstart with ⟨rfl,d,r,rfl,hd⟩ | hc
  · have hd := hne d hd
    simp [literals,constants,List.isPrefixOf,hd.2.2.2.2.1.symm]
  · have hc := hne c hc
    simp [literals,constants,List.isPrefixOf,hc.1.symm,hc.2.1.symm,hc.2.2.1.symm,hc.2.2.2.1.symm,
      hc.2.2.2.2.1.symm,hc.2.2.2.2.2.symm]

theorem loadStep_value {s : Decoder} (hmode : s.mode=.value) (htext : skipWs s.text=c::rest) :
    loadStep interp s=valueTurn interp s c rest := by
  rw [loadStep,htext,hmode]

theorem valueTurn_scalar {s : Decoder} (hc : c≠ '"') (hobj : c≠ '{') (harr : c≠ '[') :
    valueTurn interp s c rest=scalarTurn interp s (c::rest) := by
  unfold valueTurn
  rw [if_neg hc,if_neg (by simp [hobj,harr])]

theorem Moves.loadStep {s t : Decoder} (h : Moves interp s t) : loadStep interp s=.inl t := by
  cases h with
  | str htext hscan =>
    rw [loadStep_value rfl htext,valueTurn,if_pos rfl,hscan]
  | empty htext hc hclose hdepth =>
    rename_i c
    have hne : c≠ '"' := by
      rintro rfl
      exact absurd hc (by decide)
    rw [loadStep_value rfl htext,valueTurn,if_neg hne,if_pos (by simpa using hc),openTurn,
      if_neg (Nat.not_lt.2 hdepth),if_pos (by rw [hclose]; rfl),hclose]
    rfl
  | enterArr htext hopen hdepth =>
    rw [loadStep_value rfl htext,valueTurn,if_neg (by decide),if_pos (.inr rfl),openTurn,
      if_neg (Nat.not_lt.2 hdepth),if_neg (c:=_=some (closer '[')) hopen]
    rfl
  | enterObj htext hopen hdepth =>
    rw [loadStep_value rfl htext,valueTurn,if_neg (by decide),if_pos (.inl rfl),openTurn,
      if_neg (Nat.not_lt.2 hdepth),if_neg (c:=_=some (closer '{')) hopen]
    rfl
  | literal htext hw =>
    rename_i w rest frames n v
    obtain ⟨⟨c,r,rfl,hc⟩,_⟩ := literal_chars hw
    have hne : c≠ '"' ∧ c≠ '{' ∧ c≠ '[' := by
      refine ⟨?_,?_,?_⟩
      all_goals
        rintro rfl
        exact absurd hc (by decide)
    rw [loadStep_value rfl (htext.trans List.cons_append),valueTurn_scalar hne.1 hne.2.1 hne.2.2,
      ← List.cons_append,scalarTurn,find_literal hw]
    simp
  | number htext hmatch hfits =>
    obtain ⟨_,hnumber⟩ := matchNumber_sound hmatch
    obtain ⟨hfind,hnamed⟩ := number_not_named hnumber
    obtain ⟨c,r,rfl,_⟩ := hnumber.start
    have hne : c≠ '"' ∧ c≠ '{' ∧ c≠ '[' := by
      have hchar := hnumber.chars c (.head _)
      refine ⟨?_,?_,?_⟩
      all_goals
        rintro rfl
        exact absurd hchar (by unfold NumberChar; decide)
    rw [loadStep_value rfl (htext.trans List.cons_append),valueTurn_scalar hne.1 hne.2.1 hne.2.2,
      ← List.cons_append,scalarTurn,hfind]
    dsimp only
    rw [if_neg (by rw [hnamed]; decide),hmatch]
    dsimp only
    rw [if_pos hfits]
  | key htext hscan hcolon =>
    simp only [Json.loadStep,htext,keyTurn,if_pos,hscan,hcolon,List.head?_cons,List.tail_cons]
  | nextItem htext => simp only [Json.loadStep,htext,doneTurn,if_pos]
  | endItems htext => simp [Json.loadStep,htext,doneTurn]
  | nextMember htext => simp only [Json.loadStep,htext,doneTurn,if_pos]
  | endMembers htext hnodup =>
    simp only [Json.loadStep,htext,doneTurn]
    rw [if_neg (by decide),if_pos trivial,objectPairs,if_pos hnodup]

end

section

variable {interp : Interpreter} {s t : Decoder}

theorem skipWs_lt {text rest : Text} {c : Char} (h : skipWs text=c::rest) :
    rest.length < text.length := by
  have hskip := skipWs_length text
  rw [h] at hskip
  exact hskip

theorem Moves.length (h : Moves interp s t) : t.text.length < s.text.length := by
  cases h with
  | str htext hscan => exact (scanUnits_length hscan).trans (skipWs_lt htext)
  | empty htext _ hclose _ => exact (skipWs_lt hclose).trans (skipWs_lt htext)
  | enterArr htext _ _ => exact skipWs_lt htext
  | enterObj htext _ _ => exact skipWs_lt htext
  | literal htext hw =>
    obtain ⟨⟨c,r,rfl,_⟩,_⟩ := literal_chars hw
    have hlt := skipWs_lt (htext.trans List.cons_append)
    rw [List.length_append] at hlt
    dsimp only
    omega
  | number htext hmatch _ =>
    obtain ⟨_,hnumber⟩ := matchNumber_sound hmatch
    obtain ⟨c,r,rfl,_⟩ := hnumber.start
    have hlt := skipWs_lt (htext.trans List.cons_append)
    rw [List.length_append] at hlt
    dsimp only
    omega
  | key htext hscan hcolon =>
    exact (skipWs_lt hcolon).trans ((scanUnits_length hscan).trans (skipWs_lt htext))
  | nextItem htext => exact skipWs_lt htext
  | endItems htext => exact skipWs_lt htext
  | nextMember htext => exact skipWs_lt htext
  | endMembers htext _ => exact skipWs_lt htext

def decodeLoop (interp : Interpreter) (s : Decoder) : Loaded :=
  loop (loadStep interp) (fun s => s.text.length) (fun _ _ h => (loadStep_inl h).length) s

/-- `json.loads`, with the hooks of `parse_bounded_json`. -/
def loads (interp : Interpreter) (text : Text) : Loaded := decodeLoop interp ⟨text,[],.value,0⟩

theorem Moves.decodeLoop (h : Moves interp s t) : decodeLoop interp s=decodeLoop interp t :=
  loop_inl h.loadStep

theorem decodeLoop_induction {P : Decoder → Loaded → Prop} (hends : ∀s b,Ends s b → P s b)
    (hmoves : ∀s t b,Moves interp s t → P t b → P s b) (s : Decoder) :
    P s (Json.decodeLoop interp s) :=
  loop_induction (fun s b hs => hends s b (loadStep_inr hs))
    (fun s t b hs => hmoves s t b (loadStep_inl hs)) s

theorem Moves.created (h : Moves interp s t) : s.created.Le t.created := by
  cases h with
  | str | empty | enterArr | enterObj | literal | number | key => exact Size.le_add _ _
  | nextItem | endItems | nextMember | endMembers => exact Size.Le.refl _

theorem Ends.created {b : Loaded} (h : Ends s b) : s.created.Le b.created := by
  cases h with
  | accept | stop => exact Size.Le.refl _
  | number | key => exact Size.le_add _ _

theorem decodeLoop_created (s : Decoder) : s.created.Le (Json.decodeLoop interp s).created :=
  decodeLoop_induction (P:=fun s b => s.created.Le b.created) (fun _ _ => Ends.created)
    (fun _ _ _ hmoves hle => hmoves.created.trans hle) s

end

end XiaoQing.Json
