import XiaoQing.Framework.Effects
import XiaoQing.Json.PlainReads

namespace XiaoQing.Json

open XiaoQing.Framework

/-- What `json.dumps(…, ensure_ascii=False, indent=2, allow_nan=False).encode("utf-8")` raises:
`RecursionError`, the `ValueError` of a float that is not finite or of an integer with too many digits,
`UnicodeEncodeError`. -/
inductive DumpError
  | recursion
  | nonFinite
  | digits
  | surrogate
deriving DecidableEq

/-- Data in memory: a number has the text of its `__repr__`, and no dict has a key twice. -/
inductive Value.Plain : Value → Prop
  | null : Plain .null
  | bool (b : Bool) : Plain (.bool b)
  | number (isFloat : Bool) (t : Text) : IsNumber isFloat t∨t∈constants → Plain (.number isFloat t)
  | str (us : List Nat) : Plain (.str us)
  | arr (items : List Value) : (∀v∈items,Plain v) → Plain (.arr items)
  | obj (members : List (List Nat × Value)) : (members.map Prod.fst).Nodup → (∀m∈members,Plain m.2) →
      Plain (.obj members)

structure Data where
  value : Value
  plain : value.Plain

def hexChar (n : Nat) : Char := if n < 10 then Char.ofNat (48+n) else Char.ofNat (87+n)

/-- `ESCAPE_DCT`, and the characters that stay. -/
def escapeUnit (u : Nat) : Text :=
  if u = 34 then ['\\', '"']
  else if u = 92 then ['\\','\\']
  else if u = 10 then ['\\','n']
  else if u = 13 then ['\\','r']
  else if u = 9 then ['\\','t']
  else if u = 12 then ['\\','f']
  else if u = 8 then ['\\','b']
  else if u < 32 then ['\\','u','0','0',hexChar (u/16),hexChar (u%16)]
  else [Char.ofNat u]

/-- A string with its quotes; a lone surrogate is refused when the text is encoded. -/
def quote (us : List Nat) : Except DumpError Text :=
  if us.all (fun u => decide u.isValidChar) then .ok ( '"'::(us.flatMap escapeUnit++[ '"']))
  else .error .surrogate

/-- `newline_indent` -/
def newline (level : Nat) : Text := '\n'::List.replicate (2*level) ' '

def dumpNumber (interp : Interpreter) (isFloat : Bool) (t : Text) : Except DumpError Text :=
  if t∈constants ∨ isFloat ∧ !isFinite t then .error .nonFinite
  else if isFloat || intFits interp t then .ok t
  else .error .digits

mutual

def Value.dump (interp : Interpreter) (level : Nat) : Value → Except DumpError Text
  | .null => .ok ['n','u','l','l']
  | .bool true => .ok ['t','r','u','e']
  | .bool false => .ok ['f','a','l','s','e']
  | .number isFloat t => dumpNumber interp isFloat t
  | .str us => quote us
  | .arr items =>
    if level+1 > interp.recursionLimit then .error .recursion
    else (dumpItems interp (level+1) items).map fun t => '['::(t++[']'])
  | .obj members =>
    if level+1 > interp.recursionLimit then .error .recursion
    else (dumpMembers interp (level+1) members).map fun t => '{'::(t++['}'])

def dumpItems (interp : Interpreter) (level : Nat) : List Value → Except DumpError Text
  | [] => .ok []
  | v::vs => do
    let t ← v.dump interp level
    let u ← dumpMoreItems interp level vs
    .ok (newline level++(t++u))

def dumpMoreItems (interp : Interpreter) (level : Nat) : List Value → Except DumpError Text
  | [] => .ok (newline (level-1))
  | v::vs => do
    let t ← v.dump interp level
    let u ← dumpMoreItems interp level vs
    .ok (','::(newline level++(t++u)))

def dumpMembers (interp : Interpreter) (level : Nat) : List (List Nat × Value) → Except DumpError Text
  | [] => .ok []
  | (k,v)::ms => do
    let key ← quote k
    let t ← v.dump interp level
    let u ← dumpMoreMembers interp level ms
    .ok (newline level++(key++(':':: ' '::(t++u))))

def dumpMoreMembers (interp : Interpreter) (level : Nat) :
    List (List Nat × Value) → Except DumpError Text
  | [] => .ok (newline (level-1))
  | (k,v)::ms => do
    let key ← quote k
    let t ← v.dump interp level
    let u ← dumpMoreMembers interp level ms
    .ok (','::(newline level++(key++(':':: ' '::(t++u)))))

end

/-- `json.dumps(value, ensure_ascii=False, indent=2, allow_nan=False)` -/
def dumps (interp : Interpreter) (d : Data) : Except DumpError Text := d.value.dump interp 0

/-! What is written is read again -/

section

variable {interp : Interpreter} {t u : Text} {us k : List Nat} {level : Nat}

theorem hexChar_ok : ∀u < 32,isHex (hexChar (u/16))=true ∧ isHex (hexChar (u%16))=true ∧
    hexValue '0' '0' (hexChar (u/16)) (hexChar (u%16))=u := by
  decide

theorem toNat_ofNat_valid {n : Nat} (h : n.isValidChar) : (Char.ofNat n).toNat=n := by
  rw [Char.ofNat,dif_pos h]
  rfl

theorem ofNat_ne {n : Nat} {c : Char} (h : n.isValidChar) (hc : n≠c.toNat) : Char.ofNat n≠c := by
  intro he
  apply hc
  rw [← he,toNat_ofNat_valid h]

theorem escapeUnit_body {n : Nat} (hn : n.isValidChar) (h : IsBody t us) :
    IsBody (escapeUnit n++t) (n::us) := by
  unfold escapeUnit
  split_ifs with h₁ h₂ h₃ h₄ h₅ h₆ h₇ h₈
  · exact h₁ ▸ .escape '"' 34 rfl h
  · exact h₂ ▸ .escape '\\' 92 rfl h
  · exact h₃ ▸ .escape 'n' 10 rfl h
  · exact h₄ ▸ .escape 'r' 13 rfl h
  · exact h₅ ▸ .escape 't' 9 rfl h
  · exact h₆ ▸ .escape 'f' 12 rfl h
  · exact h₇ ▸ .escape 'b' 8 rfl h
  · obtain ⟨hhigh,hlow,hvalue⟩ := hexChar_ok n h₈
    have hbody := IsBody.unicode (t:=t) '0' '0' (hexChar (n/16)) (hexChar (n%16)) rfl rfl hhigh hlow h
    rwa [hvalue] at hbody
  · have hplain := IsBody.plain (Char.ofNat n) (ofNat_ne hn h₁) (ofNat_ne hn h₂)
      (by rw [toNat_ofNat_valid hn]; omega) h
    rwa [toNat_ofNat_valid hn] at hplain

theorem escapeUnits_body (h : ∀u∈us,u.isValidChar) : IsBody (us.flatMap escapeUnit) us := by
  induction us with
  | nil => exact .nil
  | cons n us ih =>
    rw [List.flatMap_cons]
    exact escapeUnit_body (h n (List.mem_cons_self ..)) (ih fun m hm => h m (List.mem_cons_of_mem n hm))

theorem quote_ok (h : quote us=.ok t) : (∀u∈us,u.isValidChar) ∧ ∃b,IsBody b us ∧ t= '"'::(b++[ '"']) := by
  unfold quote at h
  split_ifs at h with hall
  cases h
  have hvalid : ∀u∈us,u.isValidChar := fun n hn => of_decide_eq_true (List.all_eq_true.1 hall n hn)
  exact ⟨hvalid,_,escapeUnits_body hvalid,rfl⟩

theorem joinSurrogates_valid (h : ∀u∈us,u.isValidChar) : joinSurrogates us=us := by
  fun_induction joinSurrogates us with
  | case1 high low rest hpair ih =>
    have hhigh := h high (List.mem_cons_self ..)
    unfold Nat.isValidChar at hhigh
    omega
  | case2 high low rest hpair ih => rw [ih fun n hn => h n (List.mem_cons_of_mem high hn)]
  | case3 t ht => rfl

theorem newline_ws (level : Nat) : Ws (newline level) := by
  intro c hc
  obtain rfl | hc := List.mem_cons.1 hc
  · rfl
  · rw [(List.mem_replicate.1 hc).2]
    rfl

/-- What is written of a value: its text, which is clean and not nested too deeply. -/
structure Dumped (interp : Interpreter) (level : Nat) (v : Value) (t : Text) : Prop where
  writes : Writes (.value v) t
  clean : v.Clean interp
  depth : (v.written level).depth ≤ interp.recursionLimit

structure DumpedItems (interp : Interpreter) (level : Nat) (vs : List Value) : Prop where
  clean : ∀v∈vs,v.Clean interp
  depth : (tallyItems ownWritten keyWritten level vs).depth ≤ interp.recursionLimit

structure DumpedMembers (interp : Interpreter) (level : Nat) (ms : List (List Nat × Value)) : Prop where
  clean : ∀m∈ms,m.2.Clean interp
  keys : ∀m∈ms,∀u∈m.1,u.isValidChar
  depth : (tallyMembers ownWritten keyWritten level ms).depth ≤ interp.recursionLimit

theorem dumpNumber_ok {isFloat : Bool} {n : Text} (h : dumpNumber interp isFloat n=.ok t)
    (hn : IsNumber isFloat n∨n∈constants) : t=n ∧ IsNumber isFloat n ∧ numberFits interp isFloat n=true := by
  unfold dumpNumber at h
  split_ifs at h with hfinite hfits
  cases h
  simp only [not_or,not_and,Bool.not_eq_true',Bool.not_eq_false] at hfinite
  refine ⟨rfl,hn.resolve_right hfinite.1,?_⟩
  cases isFloat with
  | true => exact hfinite.2 rfl
  | false => simpa [numberFits] using hfits

theorem Dumped.scalar {v : Value} (hw : Writes (.value v) t) (hc : v.Clean interp)
    (hd : (v.written level).depth=0) : Dumped interp level v t :=
  ⟨hw,hc,hd ▸ Nat.zero_le _⟩

theorem DumpedItems.cons {v : Value} {vs : List Value} (hv : Dumped interp level v t)
    (hvs : DumpedItems interp level vs) : DumpedItems interp level (v::vs) := by
  refine ⟨List.forall_mem_cons.2 ⟨hv.clean,hvs.clean⟩,?_⟩
  rw [tallyItems]
  exact Nat.max_le.2 ⟨hv.depth,hvs.depth⟩

theorem DumpedMembers.cons {v : Value} {ms : List (List Nat × Value)} (hk : ∀u∈k,u.isValidChar)
    (hv : Dumped interp level v t) (hms : DumpedMembers interp level ms) :
    DumpedMembers interp level ((k,v)::ms) := by
  refine ⟨List.forall_mem_cons.2 ⟨hv.clean,hms.clean⟩,List.forall_mem_cons.2 ⟨hk,hms.keys⟩,?_⟩
  rw [tallyMembers]
  exact Nat.max_le.2 ⟨Nat.max_le.2 ⟨Nat.zero_le _,hv.depth⟩,hms.depth⟩

theorem DumpedMembers.nodup {ms : List (List Nat × Value)} (h : DumpedMembers interp level ms)
    (hk : (ms.map Prod.fst).Nodup) : (ms.map fun m => joinSurrogates m.1).Nodup := by
  have hsame : (ms.map fun m => joinSurrogates m.1)=ms.map Prod.fst := by
    apply List.map_congr_left
    intro m hm
    exact joinSurrogates_valid (h.keys m hm)
  rwa [hsame]

theorem ok_of_map {f : Text → Text} {x : Except DumpError Text} (h : x.map f=.ok t) :
    ∃b,x=.ok b ∧ t=f b := by
  cases x with
  | error e => cases h
  | ok b =>
    cases h
    exact ⟨b,rfl,rfl⟩

mutual

theorem Value.dump_ok (level : Nat) : ∀(v : Value) (t : Text),v.Plain → v.dump interp level=.ok t →
    Dumped interp level v t
  | .null,_,_,h => by
    cases h
    exact .scalar (.literal (by simp [literals])) .null rfl
  | .bool true,_,_,h => by
    cases h
    exact .scalar (.literal (by simp [literals])) (.bool true) rfl
  | .bool false,_,_,h => by
    cases h
    exact .scalar (.literal (by simp [literals])) (.bool false) rfl
  | .number isFloat n,t,hp,h => by
    cases hp with
    | number _ _ hn =>
      obtain ⟨rfl,hnumber,hfits⟩ := dumpNumber_ok h hn
      exact .scalar (.number hnumber) (.number _ _ hfits) rfl
  | .str us,t,_,h => by
    obtain ⟨-,b,hb,rfl⟩ := quote_ok h
    exact .scalar (.str hb) (.str us) rfl
  | .arr items,t,hp,h => by
    cases hp with
    | arr _ hall =>
      rw [Value.dump] at h
      split_ifs at h with hlimit
      obtain ⟨b,hb,rfl⟩ := ok_of_map h
      obtain ⟨hdone,hwritten⟩ := dumpItems_ok (level+1) items b hall hb
      have hdepth : level+1 ≤ interp.recursionLimit := Nat.le_of_not_lt hlimit
      refine ⟨?_,.arr items hdone.clean,Nat.max_le.2 ⟨hdepth,hdone.depth⟩⟩
      obtain ⟨rfl,rfl⟩ | hw := hwritten
      · exact .emptyArr .nil
      · exact .arr hw
  | .obj members,t,hp,h => by
    cases hp with
    | obj _ hkeys hall =>
      rw [Value.dump] at h
      split_ifs at h with hlimit
      obtain ⟨b,hb,rfl⟩ := ok_of_map h
      obtain ⟨hdone,hwritten⟩ := dumpMembers_ok (level+1) members b hall hb
      have hdepth : level+1 ≤ interp.recursionLimit := Nat.le_of_not_lt hlimit
      refine ⟨?_,.obj members (hdone.nodup hkeys) hdone.clean,Nat.max_le.2 ⟨hdepth,hdone.depth⟩⟩
      obtain ⟨rfl,rfl⟩ | hw := hwritten
      · exact .emptyObj .nil
      · exact .obj hw

theorem dumpItems_ok (level : Nat) : ∀(vs : List Value) (t : Text),(∀v∈vs,v.Plain) →
    dumpItems interp level vs=.ok t → DumpedItems interp level vs ∧
      (vs=[] ∧ t=[] ∨ Writes (.items vs) t)
  | [],t,_,h => by
    cases h
    exact ⟨⟨by simp,Nat.zero_le _⟩,.inl ⟨rfl,rfl⟩⟩
  | v::vs,t,hp,h => by
    rw [dumpItems] at h
    obtain ⟨a,ha,h⟩ := ok_of_bind h
    obtain ⟨b,hb,h⟩ := ok_of_bind h
    cases h
    have hv := v.dump_ok level a (hp v (List.mem_cons_self ..)) ha
    obtain ⟨hvs,hw⟩ := dumpMoreItems_ok level vs b (fun w hw => hp w (List.mem_cons_of_mem v hw)) hb
    exact ⟨.cons hv hvs,.inr (.items (newline_ws level) hv.writes hw)⟩

theorem dumpMoreItems_ok (level : Nat) : ∀(vs : List Value) (t : Text),(∀v∈vs,v.Plain) →
    dumpMoreItems interp level vs=.ok t → DumpedItems interp level vs ∧ Writes (.moreItems vs) t
  | [],t,_,h => by
    cases h
    exact ⟨⟨by simp,Nat.zero_le _⟩,.noItems (newline_ws _)⟩
  | v::vs,t,hp,h => by
    rw [dumpMoreItems] at h
    obtain ⟨a,ha,h⟩ := ok_of_bind h
    obtain ⟨b,hb,h⟩ := ok_of_bind h
    cases h
    have hv := v.dump_ok level a (hp v (List.mem_cons_self ..)) ha
    obtain ⟨hvs,hw⟩ := dumpMoreItems_ok level vs b (fun w hw => hp w (List.mem_cons_of_mem v hw)) hb
    exact ⟨.cons hv hvs,.moreItems .nil (.items (newline_ws level) hv.writes hw)⟩

theorem dumpMembers_ok (level : Nat) : ∀(ms : List (List Nat × Value)) (t : Text),(∀m∈ms,m.2.Plain) →
    dumpMembers interp level ms=.ok t → DumpedMembers interp level ms ∧
      (ms=[] ∧ t=[] ∨ Writes (.members ms) t)
  | [],t,_,h => by
    cases h
    exact ⟨⟨by simp,by simp,Nat.zero_le _⟩,.inl ⟨rfl,rfl⟩⟩
  | (k,v)::ms,t,hp,h => by
    rw [dumpMembers] at h
    obtain ⟨q,hq,h⟩ := ok_of_bind h
    obtain ⟨a,ha,h⟩ := ok_of_bind h
    obtain ⟨b,hb,h⟩ := ok_of_bind h
    cases h
    obtain ⟨hk,body,hbody,rfl⟩ := quote_ok hq
    have hv := v.dump_ok level a (hp (k,v) (List.mem_cons_self ..)) ha
    obtain ⟨hms,hw⟩ := dumpMoreMembers_ok level ms b (fun m hm => hp m (List.mem_cons_of_mem _ hm)) hb
    refine ⟨.cons hk hv hms,.inr ?_⟩
    have hwrites := Writes.members (newline_ws level) hbody .nil (c:=[' ']) (by simp [Ws,isWs]) hv.writes hw
    simpa using hwrites

theorem dumpMoreMembers_ok (level : Nat) : ∀(ms : List (List Nat × Value)) (t : Text),(∀m∈ms,m.2.Plain) →
    dumpMoreMembers interp level ms=.ok t → DumpedMembers interp level ms ∧ Writes (.moreMembers ms) t
  | [],t,_,h => by
    cases h
    exact ⟨⟨by simp,by simp,Nat.zero_le _⟩,.noMembers (newline_ws _)⟩
  | (k,v)::ms,t,hp,h => by
    rw [dumpMoreMembers] at h
    obtain ⟨q,hq,h⟩ := ok_of_bind h
    obtain ⟨a,ha,h⟩ := ok_of_bind h
    obtain ⟨b,hb,h⟩ := ok_of_bind h
    cases h
    obtain ⟨hk,body,hbody,rfl⟩ := quote_ok hq
    have hv := v.dump_ok level a (hp (k,v) (List.mem_cons_self ..)) ha
    obtain ⟨hms,hw⟩ := dumpMoreMembers_ok level ms b (fun m hm => hp m (List.mem_cons_of_mem _ hm)) hb
    refine ⟨.cons hk hv hms,?_⟩
    have hwrites := Writes.moreMembers .nil
      (Writes.members (newline_ws level) hbody .nil (c:=[' ']) (by simp [Ws,isWs]) hv.writes hw)
    simpa using hwrites

end

theorem plainLoads_dumps {d : Data} (h : dumps interp d=.ok t) : plainLoads interp t=.ok d.value := by
  have hd := d.value.dump_ok 0 t d.plain h
  exact plainLoads_complete ⟨[],t,[],.nil,hd.writes,.nil,by simp⟩ hd.clean hd.depth

end

end XiaoQing.Json
