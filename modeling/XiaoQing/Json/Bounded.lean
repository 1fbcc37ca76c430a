import XiaoQing.Json.Agreement

namespace XiaoQing.Json

open XiaoQing.Framework

/-- The state of `_validate_json_value`; the head of the stack is what is popped next. -/
structure Visit where
  stack : List (Value × Nat)
  nodes : Nat
  stringChars : Nat

def visitMembers (limits : JsonLimits) (depth : Nat) :
    List (List Nat × Value) → Visit → Except JsonError Visit
  | [],s => .ok s
  | (k,v)::ms,s => do
    let nodes ← addNode limits s.nodes
    visitMembers limits depth ms
      ⟨(v,depth+1)::s.stack,nodes,s.stringChars+(joinSurrogates k).length⟩

def visitValue (limits : JsonLimits) (depth : Nat) (s : Visit) : Value → Except JsonError Visit
  | .obj ms => visitMembers limits depth ms s
  | .arr items => .ok {s with stack:=(items.map (fun v => (v,depth+1))).reverse++s.stack}
  | .str us => .ok {s with stringChars:=s.stringChars+(joinSurrogates us).length}
  | .number isFloat t => if isFloat && !isFinite t then .error nonFinite else .ok s
  | _ => .ok s

def visit (limits : JsonLimits) (s : Visit) (v : Value) (depth : Nat) : Except JsonError Visit :=
  if depth > limits.maxDepth then .error tooDeep
  else do
    let nodes ← addNode limits s.nodes
    let t ← visitValue limits depth {s with nodes:=nodes} v
    if t.stringChars > limits.maxStringChars then .error stringsTooLarge else pure t

def validateStep (limits : JsonLimits) (s : Visit) : Visit ⊕ Except JsonError Unit :=
  match s.stack with
  | [] => .inr (.ok ())
  | (v,depth)::stack =>
    match visit limits {s with stack:=stack} v depth with
    | .ok t => .inl t
    | .error e => .inr (.error e)

def stackSize : List (Value × Nat) → Size
  | [] => 0
  | (v,depth)::stack => v.parsed depth+stackSize stack

def Visit.total (s : Visit) : Size := ⟨s.nodes,0,s.stringChars,0⟩+stackSize s.stack

section

variable {limits : JsonLimits} {s t : Visit} {depth : Nat}

theorem stackSize_append (a b : List (Value × Nat)) :
    stackSize (a++b)=stackSize a+stackSize b := by
  induction a with
  | nil => exact (zero_add _).symm
  | cons p a ih => simp only [List.cons_append,stackSize,ih,add_assoc]

theorem stackSize_items (items : List Value) :
    stackSize (items.map (fun v => (v,depth))).reverse=tallyItems ownParsed keyParsed depth items := by
  induction items with
  | nil => rfl
  | cons v items ih =>
    simp only [List.map_cons,List.reverse_cons,stackSize_append,ih,tallyItems,stackSize,add_zero]
    exact add_comm _ _

theorem visit_member (k : List Nat) (v : Value) :
    Visit.total ⟨(v,depth)::s.stack,s.nodes+1,s.stringChars+(joinSurrogates k).length⟩=
      s.total+(keyParsed k+v.tally ownParsed keyParsed depth) := by
  simp only [Visit.total,stackSize,Value.parsed]
  ext <;> simp [keyParsed] <;> omega

variable {ms : List (List Nat × Value)}

theorem visitMembers_ok (h : visitMembers limits depth ms s=.ok t) :
    t.total=s.total+tallyMembers ownParsed keyParsed (depth+1) ms ∧ s.nodes≤t.nodes := by
  induction ms generalizing s with
  | nil =>
    cases h
    exact ⟨(add_zero _).symm,Nat.le_refl _⟩
  | cons m ms ih =>
    obtain ⟨k,v⟩ := m
    obtain ⟨nodes,hn,h⟩ := ok_of_bind h
    obtain ⟨rfl,_⟩ := addNode_ok.1 hn
    obtain ⟨htotal,hnodes⟩ := ih h
    refine ⟨?_,(Nat.le_succ _).trans hnodes⟩
    rw [htotal,visit_member,tallyMembers,add_assoc]

theorem visitMembers_limit
    (h : visitMembers limits depth ms s=.ok t) (hs : s.nodes≤limits.maxNodes) :
    t.nodes≤limits.maxNodes := by
  induction ms generalizing s with
  | nil =>
    cases h
    exact hs
  | cons m ms ih =>
    obtain ⟨nodes,hn,h⟩ := ok_of_bind h
    obtain ⟨rfl,hle⟩ := addNode_ok.1 hn
    exact ih h hle

variable {e : JsonError}

theorem bind_error {α β : Type} {x : Except JsonError α} {f : α → Except JsonError β}
    (h : (x>>=f)=.error e) : x=.error e ∨ ∃a,x=.ok a ∧ f a=.error e := by
  cases x with
  | error e =>
    cases h
    exact .inl rfl
  | ok a => exact .inr ⟨a,rfl,h⟩

theorem addNode_error {n : Nat} (h : addNode limits n=.error e) :
    limits.maxNodes < n+1 := by
  unfold addNode at h
  split at h
  · assumption
  · cases h

theorem visitMembers_error
    (h : visitMembers limits depth ms s=.error e) :
    limits.maxNodes < (s.total+tallyMembers ownParsed keyParsed (depth+1) ms).nodes := by
  induction ms generalizing s with
  | nil => cases h
  | cons m ms ih =>
    obtain ⟨k,v⟩ := m
    obtain hn | ⟨nodes,hn,h⟩ := bind_error h
    · have hlt := addNode_error hn
      simp only [Visit.total,tallyMembers,Size.add_nodes,keyParsed]
      omega
    · obtain ⟨rfl,_⟩ := addNode_ok.1 hn
      have hlt := ih h
      rwa [visit_member,add_assoc] at hlt

def popped (s : Visit) (v : Value) (depth : Nat) : Size := s.total+v.parsed depth

theorem total_pop {stack : List (Value × Nat)} {v : Value} (hs : s.stack=(v,depth)::stack) :
    s.total=popped {s with stack:=stack} v depth := by
  rw [Visit.total,hs,popped,Visit.total,stackSize,add_assoc]
  congr 1
  exact add_comm _ _

theorem popped_scalar {v : Value} {k : Nat} (hv : v.parsed depth=⟨1,depth,k,0⟩) :
    popped s v depth=Visit.total ⟨s.stack,s.nodes+1,s.stringChars+k⟩+⟨0,depth,0,0⟩ := by
  rw [popped,hv]
  ext <;> simp [Visit.total] <;> omega

theorem visitValue_ok {v : Value} (h : visitValue limits depth {s with nodes:=s.nodes+1} v=.ok t) :
    popped s v depth=t.total+⟨0,depth,0,0⟩ ∧ s.nodes < t.nodes := by
  cases v with
  | obj ms =>
    obtain ⟨htotal,hnodes⟩ := visitMembers_ok h
    refine ⟨?_,hnodes⟩
    rw [htotal]
    ext <;> simp [popped,Visit.total,Value.parsed,Value.tally,ownParsed] <;> omega
  | arr items =>
    cases h
    refine ⟨?_,Nat.lt_succ_self _⟩
    simp only [Visit.total,stackSize_append,stackSize_items]
    ext <;> simp [popped,Visit.total,Value.parsed,Value.tally,ownParsed] <;> omega
  | str us =>
    cases h
    exact ⟨popped_scalar rfl,Nat.lt_succ_self _⟩
  | number isFloat t =>
    rw [visitValue] at h
    split at h
    · cases h
    · cases h
      exact ⟨popped_scalar (k:=0) rfl,Nat.lt_succ_self _⟩
  | null =>
    cases h
    exact ⟨popped_scalar (k:=0) rfl,Nat.lt_succ_self _⟩
  | bool b =>
    cases h
    exact ⟨popped_scalar (k:=0) rfl,Nat.lt_succ_self _⟩

theorem visitValue_limit {v : Value} (h : visitValue limits depth s v=.ok t)
    (hs : s.nodes≤limits.maxNodes) : t.nodes≤limits.maxNodes := by
  cases v with
  | obj ms => exact visitMembers_limit h hs
  | number isFloat t =>
    rw [visitValue] at h
    split at h
    · cases h
    · cases h
      exact hs
  | null | bool | str | arr =>
    cases h
    exact hs

theorem visit_ok {v : Value} (h : visit limits s v depth=.ok t) : depth≤limits.maxDepth ∧
    popped s v depth=t.total+⟨0,depth,0,0⟩ ∧ s.nodes < t.nodes ∧ t.nodes≤limits.maxNodes ∧
      t.stringChars≤limits.maxStringChars := by
  rw [visit] at h
  split at h
  · cases h
  rename_i hdepth
  obtain ⟨nodes,hn,h⟩ := ok_of_bind h
  obtain ⟨rfl,hle⟩ := addNode_ok.1 hn
  obtain ⟨u,hu,h⟩ := ok_of_bind h
  split at h
  · cases h
  rename_i hchars
  cases h
  obtain ⟨hpopped,hnodes⟩ := visitValue_ok hu
  exact ⟨Nat.le_of_not_lt hdepth,hpopped,hnodes,visitValue_limit hu hle,Nat.le_of_not_lt hchars⟩

/-- The nodes, the depth and the characters of strings are within the limits. -/
def Size.Bounded (limits : JsonLimits) (a : Size) : Prop :=
  a.nodes≤limits.maxNodes ∧ a.depth≤limits.maxDepth ∧ a.chars≤limits.maxStringChars

theorem visitValue_error {interp : Interpreter} {v : Value}
    (hv : v.Clean interp) (h : visitValue limits depth {s with nodes:=s.nodes+1} v=.error e) :
    limits.maxNodes < (popped s v depth).nodes := by
  cases v with
  | obj ms =>
    have hlt := visitMembers_error h
    simp only [Visit.total,Size.add_nodes,popped,Value.parsed,Value.tally,ownParsed] at hlt ⊢
    omega
  | number isFloat t =>
    rw [visitValue] at h
    split at h
    · rename_i hinfinite
      cases hv with
      | number _ _ hfits =>
        cases isFloat with
        | false => cases hinfinite
        | true =>
          have hfinite : isFinite t=true := hfits
          rw [hfinite] at hinfinite
          cases hinfinite
    · cases h
  | null | bool | str | arr => cases h

theorem parsed_own (v : Value) (depth : Nat) :
    1≤(v.parsed depth).nodes ∧ depth≤(v.parsed depth).depth := by
  cases v with
  | arr | obj => exact ⟨Nat.le_add_right _ _,Nat.le_max_left _ _⟩
  | null | bool | number | str => exact ⟨Nat.le_refl _,Nat.le_refl _⟩

theorem visit_error {interp : Interpreter} {v : Value} (hv : v.Clean interp)
    (h : visit limits s v depth=.error e) : ¬(popped s v depth).Bounded limits := by
  rintro ⟨hnodes,hd,hc⟩
  obtain ⟨hone,hdepth⟩ := parsed_own v depth
  rw [visit] at h
  split at h
  · rename_i hdeep
    have hle : depth≤limits.maxDepth := hdepth.trans ((Nat.le_max_right _ _).trans hd)
    omega
  obtain hn | ⟨nodes,hn,h⟩ := bind_error h
  · have hlt := addNode_error hn
    simp only [popped,Visit.total,Size.add_nodes] at hnodes
    omega
  obtain ⟨rfl,_⟩ := addNode_ok.1 hn
  obtain hu | ⟨u,hu,h⟩ := bind_error h
  · exact absurd hnodes (Nat.not_le.2 (visitValue_error hv hu))
  split at h
  · rename_i hchars
    obtain ⟨hpopped,_⟩ := visitValue_ok hu
    rw [hpopped] at hc
    simp only [Visit.total,Size.add_chars] at hc
    omega
  · cases h

theorem validateStep_size (limits : JsonLimits) (s t : Visit) (h : validateStep limits s=.inl t) :
    (stackSize t.stack).nodes < (stackSize s.stack).nodes := by
  rw [validateStep] at h
  split at h
  · cases h
  · rename_i v depth stack hstack
    split at h
    · rename_i u hu
      cases h
      obtain ⟨_,hpopped,hnodes,_⟩ := visit_ok hu
      have htotal := congrArg Size.nodes hpopped
      simp only [popped,Visit.total,Size.add_nodes] at htotal
      dsimp only at hnodes htotal
      rw [hstack]
      simp only [stackSize,Size.add_nodes]
      omega
    · cases h

def validateLoop (limits : JsonLimits) (s : Visit) : Except JsonError Unit :=
  loop (validateStep limits) (fun s => (stackSize s.stack).nodes) (validateStep_size limits) s

def validateJsonValue (limits : JsonLimits) (v : Value) : Except JsonError Unit :=
  validateLoop limits ⟨[(v,1)],0,0⟩

def CleanStack (interp : Interpreter) (stack : List (Value × Nat)) : Prop :=
  ∀p∈stack,p.1.Clean interp

theorem visitMembers_clean {interp : Interpreter}
    (h : visitMembers limits depth ms s=.ok t) (hms : ∀m∈ms,m.2.Clean interp)
    (hs : CleanStack interp s.stack) : CleanStack interp t.stack := by
  induction ms generalizing s with
  | nil =>
    cases h
    exact hs
  | cons m ms ih =>
    obtain ⟨hm,hms⟩ := List.forall_mem_cons.1 hms
    obtain ⟨nodes,_,h⟩ := ok_of_bind h
    exact ih h hms (List.forall_mem_cons.2 ⟨hm,hs⟩)

theorem visitValue_clean {interp : Interpreter} {v : Value} (hv : v.Clean interp)
    (h : visitValue limits depth s v=.ok t) (hs : CleanStack interp s.stack) :
    CleanStack interp t.stack := by
  cases hv with
  | obj ms _ hall => exact visitMembers_clean h hall hs
  | arr items hall =>
    cases h
    intro p hp
    obtain hp | hp := List.mem_append.1 hp
    · obtain ⟨v,hv,rfl⟩ := List.mem_map.1 (List.mem_reverse.1 hp)
      exact hall v hv
    · exact hs p hp
  | number isFloat t _ =>
    rw [visitValue] at h
    split at h
    · cases h
    · cases h
      exact hs
  | null | bool | str =>
    cases h
    exact hs

theorem visit_clean {interp : Interpreter} {v : Value} (hv : v.Clean interp)
    (h : visit limits s v depth=.ok t) (hs : CleanStack interp s.stack) :
    CleanStack interp t.stack := by
  rw [visit] at h
  split at h
  · cases h
  obtain ⟨nodes,_,h⟩ := ok_of_bind h
  obtain ⟨u,hu,h⟩ := ok_of_bind h
  split at h
  · cases h
  · cases h
    exact visitValue_clean hv hu hs

theorem validateLoop_ok {interp : Interpreter} (s : Visit) (hclean : CleanStack interp s.stack)
    (hnodes : s.nodes≤limits.maxNodes) (hchars : s.stringChars≤limits.maxStringChars) :
    validateLoop limits s=.ok () ↔ s.total.Bounded limits := by
  refine loop_induction (h:=validateStep_size limits)
    (P:=fun (s : Visit) (b : Except JsonError Unit) => CleanStack interp s.stack →
      s.nodes≤limits.maxNodes → s.stringChars≤limits.maxStringChars →
        (b=.ok () ↔ s.total.Bounded limits)) ?_ ?_ s hclean hnodes hchars
  · intro s b hs hclean hnodes hchars
    rw [validateStep] at hs
    split at hs
    · rename_i hstack
      cases hs
      refine ⟨fun _ => ?_,fun _ => rfl⟩
      rw [Visit.total,hstack,stackSize,add_zero]
      exact ⟨hnodes,Nat.zero_le _,hchars⟩
    · rename_i v depth stack hstack
      split at hs
      · cases hs
      · rename_i e hvisit
        cases hs
        rw [hstack] at hclean
        have herror := visit_error (List.forall_mem_cons.1 hclean).1 hvisit
        rw [total_pop hstack]
        constructor
        · rintro ⟨⟩
        · intro h
          exact absurd h herror
  · intro s t b hs ih hclean hnodes hchars
    rw [validateStep] at hs
    split at hs
    · cases hs
    · rename_i v depth stack hstack
      split at hs
      · rename_i u hvisit
        cases hs
        rw [hstack] at hclean
        obtain ⟨hv,hrest⟩ := List.forall_mem_cons.1 hclean
        obtain ⟨hdepth,hpopped,_,hnodes',hchars'⟩ := visit_ok hvisit
        rw [ih (visit_clean hv hvisit hrest) hnodes' hchars',total_pop hstack,hpopped]
        simp only [Size.Bounded,Size.add_nodes,Size.add_depth,Size.add_chars,Nat.add_zero,
          Nat.max_le]
        constructor
        · rintro ⟨hn,hd,hc⟩
          exact ⟨hn,⟨hd,hdepth⟩,hc⟩
        · rintro ⟨hn,⟨hd,_⟩,hc⟩
          exact ⟨hn,hd,hc⟩
      · cases hs

theorem validateJsonValue_ok {interp : Interpreter} {v : Value} (hv : v.Clean interp) :
    validateJsonValue limits v=.ok () ↔ (v.parsed 1).Bounded limits := by
  have hstack : CleanStack interp [(v,1)] := by
    intro p hp
    cases List.mem_singleton.1 hp
    exact hv
  have htotal : Visit.total ⟨[(v,1)],0,0⟩=v.parsed 1 := by
    rw [Visit.total,stackSize,stackSize,add_zero]
    exact zero_add _
  rw [validateJsonValue,validateLoop_ok _ hstack (Nat.zero_le _) (Nat.zero_le _),htotal]

end

/-- `body.decode("utf-8-sig")`. -/
def decodeBody (body : ByteArray) : Option Text :=
  (String.fromUTF8? body).map (fun s =>
    if s.toList.head? = some '\uFEFF' then s.toList.tail else s.toList)

def parseBoundedJson (interp : Interpreter) (limits : JsonLimits) (body : ByteArray) :
    Except JsonError Value :=
  if body.size > limits.maxBytes then .error (.limit "JSON response body is too large")
  else
    match decodeBody body with
    | none => .error (.format "JSON response is not valid UTF-8")
    | some text => do
      preflightJson limits text
      match (loads interp text).value with
      | .error (.hook e) => .error e
      | .error _ => .error (.format "invalid JSON response")
      | .ok v => do
        validateJsonValue limits v
        pure v

section

variable {interp : Interpreter} {limits : JsonLimits} {text : Text} {v : Value}

theorem preflight_iff_written (h : (loads interp text).value=.ok v) :
    preflightJson limits text=.ok () ↔ (v.written 0).Fits limits := by
  rw [← loads_created h]
  exact ⟨preflight_bounds_loads,preflight_of_loads h⟩

theorem parseBoundedJson_ok {body : ByteArray} : parseBoundedJson interp limits body=.ok v ↔
    body.size≤limits.maxBytes ∧ ∃text,decodeBody body=some text ∧
      preflightJson limits text=.ok () ∧ (loads interp text).value=.ok v ∧
        validateJsonValue limits v=.ok () := by
  rw [parseBoundedJson]
  split
  · rename_i hsize
    constructor
    · rintro ⟨⟩
    · rintro ⟨hle,_⟩
      omega
  · rename_i hsize
    cases hdecode : decodeBody body with
    | none =>
      constructor
      · rintro ⟨⟩
      · rintro ⟨_,text,⟨⟩,_⟩
    | some text =>
      constructor
      · intro h
        obtain ⟨_,hpreflight,h⟩ := ok_of_bind h
        cases hload : (loads interp text).value with
        | error e =>
          rw [hload] at h
          cases e <;> cases h
        | ok w =>
          rw [hload] at h
          obtain ⟨_,hvalidate,h⟩ := ok_of_bind h
          cases h
          exact ⟨Nat.le_of_not_lt hsize,text,rfl,hpreflight,hload,hvalidate⟩
      · rintro ⟨_,text',htext,hpreflight,hload,hvalidate⟩
        cases htext
        dsimp only
        rw [hpreflight]
        dsimp only [bind,Except.bind]
        rw [hload]
        dsimp only
        rw [hvalidate]
        rfl

/-- The conditions on an accepted body: clean JSON, within every limit. -/
structure Acceptable (interp : Interpreter) (limits : JsonLimits) (body : ByteArray) (v : Value) :
    Prop where
  bytes : body.size≤limits.maxBytes
  json : ∃text,decodeBody body=some text ∧ IsJson v text
  clean : v.Clean interp
  nesting : (v.written 0).depth ≤ interp.recursionLimit
  depth : (v.parsed 1).depth≤limits.maxDepth
  nodes : (v.parsed 1).nodes≤limits.maxNodes
  chars : (v.written 0).chars≤limits.maxStringChars
  longest : (v.written 0).longest≤limits.maxNumberChars

theorem parseBoundedJson_iff {body : ByteArray} :
    parseBoundedJson interp limits body=.ok v ↔ Acceptable interp limits body v := by
  rw [parseBoundedJson_ok]
  constructor
  · rintro ⟨hbytes,text,hdecode,hpreflight,hload,hvalidate⟩
    obtain ⟨hjson,hclean,hnesting⟩ := loads_ok_iff.1 hload
    have hwritten := (preflight_iff_written hload).1 hpreflight
    obtain ⟨hnodes,hdepth,_⟩ := (validateJsonValue_ok hclean).1 hvalidate
    exact ⟨hbytes,⟨text,hdecode,hjson⟩,hclean,hnesting,hdepth,hnodes,hwritten.chars,
      hwritten.longest⟩
  · rintro ⟨hbytes,⟨text,hdecode,hjson⟩,hclean,hnesting,hdepth,hnodes,hchars,hlongest⟩
    have hload := loads_ok_iff.2 ⟨hjson,hclean,hnesting⟩
    have hcompare := v.compares 0
    have hwritten : (v.written 0).Fits limits :=
      ⟨hcompare.nodes.trans_le hnodes,hcompare.lower.trans hdepth,hchars,hlongest⟩
    refine ⟨hbytes,text,hdecode,(preflight_iff_written hload).2 hwritten,hload,?_⟩
    exact (validateJsonValue_ok hclean).2 ⟨hnodes,hdepth,hcompare.chars.trans hchars⟩

end

/-- The preflight bounds what `json.loads` creates for every text; what is accepted is clean JSON
within the limits; both checks count the same nodes, and the depth of the parsed value is that of
its containers or one more. -/
theorem bounded_json (interp : Interpreter) (limits : JsonLimits) :
    (∀text,preflightJson limits text=.ok () →
      (loads interp text).created.depth≤limits.maxDepth ∧
        (loads interp text).created.nodes≤limits.maxNodes) ∧
    (∀body v,parseBoundedJson interp limits body=.ok v ↔ Acceptable interp limits body v) ∧
    ∀text v,(loads interp text).value=.ok v →
      (preflightJson limits text=.ok () ↔ (v.written 0).Fits limits) ∧
      (validateJsonValue limits v=.ok () ↔ (v.parsed 1).Bounded limits) ∧
      (v.written 0).nodes=(v.parsed 1).nodes ∧ (v.written 0).depth≤(v.parsed 1).depth ∧
        (v.parsed 1).depth≤(v.written 0).depth+1 := by
  refine ⟨?_,fun _ _ => parseBoundedJson_iff,?_⟩
  · intro text h
    have hfits : (loads interp text).created.Fits limits := preflight_bounds_loads h
    exact ⟨hfits.depth,hfits.nodes⟩
  · intro text v h
    obtain ⟨_,hclean,_⟩ := loads_ok_iff.1 h
    have hcompare := v.compares 0
    have hupper := hcompare.upper.trans (Nat.max_le.2 ⟨Nat.succ_le_succ (Nat.zero_le _),Nat.le_refl _⟩)
    exact ⟨preflight_iff_written h,validateJsonValue_ok hclean,hcompare.nodes,hcompare.lower,hupper⟩

def oneLevel : JsonLimits := {defaultLimits with maxDepth:=1, depthPos:=Nat.one_pos}

def listOfOne : Value := .arr [.number false ['1']]

theorem listOfOne_written : IsJson listOfOne ['[','1',']'] := by
  have hone : IsNumber false ['1'] :=
    ⟨[],['1'],[],[],rfl,.inl rfl,.inr ⟨'1',[],rfl,by decide,rfl,by simp [Digits]⟩,.inl rfl,.inl rfl,rfl⟩
  exact ⟨[],_,[],.nil,.arr (.items .nil (.number hone) (.noItems .nil)),.nil,rfl⟩

/-- One container and two values are within the limits of the preflight, and not of the
validation. -/
theorem list_passes_and_is_too_deep :
    preflightJson oneLevel ['[','1',']']=.ok () ∧
    (loads ⟨4300,1000⟩ ['[','1',']']).value=.ok listOfOne ∧
    (loads ⟨4300,1000⟩ ['[','1',']']).created.depth=1 ∧
    validateJsonValue oneLevel listOfOne=.error tooDeep ∧
    parseBoundedJson ⟨4300,1000⟩ oneLevel "[1]".toUTF8=.error tooDeep := by
  have hclean : listOfOne.Clean ⟨4300,1000⟩ := by
    refine .arr _ ?_
    intro v hv
    cases List.mem_singleton.1 hv
    exact .number _ _ rfl
  have hload : (loads ⟨4300,1000⟩ ['[','1',']']).value=.ok listOfOne :=
    loads_complete listOfOne_written hclean (by decide)
  have hpreflight : preflightJson oneLevel ['[','1',']']=.ok () :=
    (preflight_iff_written hload).2 ⟨by decide,by decide,by decide,by decide⟩
  have hvalidate : validateJsonValue oneLevel listOfOne=.error tooDeep := by
    have hfirst : validateStep oneLevel ⟨[(listOfOne,1)],0,0⟩=
        .inl ⟨[(.number false ['1'],2)],1,0⟩ := rfl
    rw [validateJsonValue,validateLoop,loop_inl hfirst]
    exact loop_inr rfl
  refine ⟨hpreflight,hload,by rw [loads_created hload]; rfl,hvalidate,?_⟩
  have hdecode : decodeBody "[1]".toUTF8=some ['[','1',']'] := by decide
  rw [parseBoundedJson,if_neg (by decide),hdecode]
  dsimp only
  rw [hpreflight]
  dsimp only [bind,Except.bind]
  rw [hload]
  dsimp only
  rw [hvalidate]

end XiaoQing.Json
