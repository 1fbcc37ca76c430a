import XiaoQing.Json.Accepted

namespace XiaoQing.Json

open XiaoQing.Framework

def Passes (limits : JsonLimits) (s : Scan) : Prop := scanLoop limits s=.ok ()

section

variable {limits : JsonLimits} {c : Char} {text rest a : Text} {stack : List Char} {n k : Nat}

theorem passes_nil : Passes limits ⟨[],[],n,k⟩ := loop_inr rfl

theorem passes_cons : Passes limits ⟨c::rest,stack,n,k⟩ ↔
    ∃t,preflightTurn limits ⟨c::rest,stack,n,k⟩ c rest=.ok t ∧ Passes limits t := by
  unfold Passes
  cases hturn : preflightTurn limits ⟨c::rest,stack,n,k⟩ c rest with
  | ok t =>
    have hstep : scanLoop limits ⟨c::rest,stack,n,k⟩=scanLoop limits t :=
      loop_inl (by simp only [preflightStep,hturn])
    rw [hstep]
    constructor
    · intro h
      exact ⟨t,rfl,h⟩
    · rintro ⟨u,hu,h⟩
      cases hu
      exact h
  | error e =>
    have hstep : scanLoop limits ⟨c::rest,stack,n,k⟩=.error e :=
      loop_inr (by simp only [preflightStep,hturn])
    rw [hstep]
    constructor
    · rintro ⟨⟩
    · rintro ⟨u,⟨⟩,_⟩

theorem passes_skip (hc : c∈[' ','\t','\r','\n',',',':']) :
    Passes limits ⟨c::rest,stack,n,k⟩ ↔ Passes limits ⟨rest,stack,n,k⟩ := by
  rw [passes_cons,preflightTurn,if_pos hc]
  constructor
  · rintro ⟨t,ht,h⟩
    cases ht
    exact h
  · intro h
    exact ⟨_,rfl,h⟩

theorem isWs_skipped (hc : isWs c=true) : c∈[' ','\t','\r','\n',',',':'] := by
  simp only [isWs,Bool.or_eq_true,decide_eq_true_eq] at hc
  rcases hc with ((rfl|rfl)|rfl)|rfl <;> decide

theorem passes_ws (ha : Ws a) :
    Passes limits ⟨a++text,stack,n,k⟩ ↔ Passes limits ⟨text,stack,n,k⟩ := by
  induction a with
  | nil => exact Iff.rfl
  | cons c a ih =>
    obtain ⟨hc,ha⟩ := List.forall_mem_cons.1 ha
    rw [List.cons_append,passes_skip (isWs_skipped hc),ih ha]

theorem passes_skipWs :
    Passes limits ⟨text,stack,n,k⟩ ↔ Passes limits ⟨skipWs text,stack,n,k⟩ := by
  obtain ⟨a,ha,htext⟩ := skipWs_split text
  conv_lhs => rw [htext]
  exact passes_ws ha

theorem passes_open (hc : c∈['{','[']) : Passes limits ⟨c::rest,stack,n,k⟩ ↔
    stack.length+1≤limits.maxDepth ∧ n+1≤limits.maxNodes ∧
      Passes limits ⟨rest,closer c::stack,n+1,k⟩ := by
  have hskip : c∉[' ','\t','\r','\n',',',':'] := by
    simp only [List.mem_cons,List.not_mem_nil,or_false] at hc
    rcases hc with rfl | rfl <;> decide
  rw [passes_cons,preflightTurn,if_neg hskip,if_pos hc,List.length_cons]
  constructor
  · rintro ⟨t,ht,h⟩
    split at ht
    · cases ht
    · rename_i hdepth
      obtain ⟨m,hm,ht⟩ := ok_of_bind ht
      obtain ⟨rfl,hnodes⟩ := addNode_ok.1 hm
      cases ht
      exact ⟨Nat.le_of_not_lt hdepth,hnodes,h⟩
  · rintro ⟨hdepth,hnodes,h⟩
    rw [if_neg (Nat.not_lt.2 hdepth),addNode_ok.2 ⟨rfl,hnodes⟩]
    exact ⟨_,rfl,h⟩

theorem passes_close (hc : c∈['}',']']) :
    Passes limits ⟨c::rest,c::stack,n,k⟩ ↔ Passes limits ⟨rest,stack,n,k⟩ := by
  have hskip : c∉[' ','\t','\r','\n',',',':'] ∧ c∉['{','['] := by
    simp only [List.mem_cons,List.not_mem_nil,or_false] at hc
    rcases hc with rfl | rfl <;> decide
  rw [passes_cons,preflightTurn,if_neg hskip.1,if_neg hskip.2,if_pos hc,if_pos List.head?_cons]
  constructor
  · rintro ⟨t,ht,h⟩
    cases ht
    exact h
  · intro h
    exact ⟨_,rfl,h⟩

theorem passes_string {us : List Nat} (hscan : scanUnits text=some (us,rest))
    (hk : k≤limits.maxStringChars) : Passes limits ⟨'"'::text,stack,n,k⟩ ↔
      n+1≤limits.maxNodes ∧ k+us.length≤limits.maxStringChars ∧
        Passes limits ⟨rest,stack,n+1,k+us.length⟩ := by
  rw [passes_cons,preflightTurn,if_neg (by decide),if_neg (by decide),if_neg (by decide),
    if_pos rfl]
  constructor
  · rintro ⟨t,ht,h⟩
    obtain ⟨m,hm,ht⟩ := ok_of_bind ht
    obtain ⟨rfl,hnodes⟩ := addNode_ok.1 hm
    obtain ⟨r,hr,ht⟩ := ok_of_bind ht
    obtain ⟨us',hus,hlength,hle⟩ := (scanString_ok hk).1 hr
    rw [hscan] at hus
    cases hus
    cases ht
    rw [hlength] at h hle
    exact ⟨hnodes,hle,h⟩
  · rintro ⟨hnodes,hle,h⟩
    rw [addNode_ok.2 ⟨rfl,hnodes⟩]
    have hstring := (scanString_ok hk).2 ⟨us,hscan,rfl,hle⟩
    refine ⟨_,?_,h⟩
    dsimp only [bind,Except.bind]
    rw [hstring]
    rfl

theorem passes_token (hc : StartsToken c) : Passes limits ⟨c::rest,stack,n,k⟩ ↔
    checkToken limits ((c::rest).takeWhile inToken)=.ok () ∧ n+1≤limits.maxNodes ∧
      Passes limits ⟨(c::rest).dropWhile inToken,stack,n+1,k⟩ := by
  obtain ⟨hskip,hopen,hclose,hquote⟩ := hc
  rw [passes_cons,preflightTurn,if_neg hskip,if_neg hopen,if_neg hclose,if_neg hquote]
  constructor
  · rintro ⟨t,ht,h⟩
    obtain ⟨_,htoken,ht⟩ := ok_of_bind ht
    obtain ⟨m,hm,ht⟩ := ok_of_bind ht
    obtain ⟨rfl,hnodes⟩ := addNode_ok.1 hm
    cases ht
    exact ⟨htoken,hnodes,h⟩
  · rintro ⟨htoken,hnodes,h⟩
    dsimp only
    rw [htoken,addNode_ok.2 ⟨rfl,hnodes⟩]
    exact ⟨_,rfl,h⟩

end

def Frame.closer : Frame → Char
  | .arr _ => ']'
  | .obj _ _ => '}'

def Mode.stack : Mode → List Char
  | .key _ => ['}']
  | _ => []

def Decoder.scan (s : Decoder) : Scan :=
  ⟨s.text,s.mode.stack++s.frames.map Frame.closer,s.created.nodes,s.created.chars⟩

section

variable {limits : JsonLimits} {interp : Interpreter} {text rest w : Text} {frames : List Frame}
  {n m : Size}

theorem fits_add (hn : n.Fits limits) : (n+m).Fits limits ↔ n.nodes+m.nodes≤limits.maxNodes ∧
    m.depth≤limits.maxDepth ∧ n.chars+m.chars≤limits.maxStringChars ∧
      m.longest≤limits.maxNumberChars := by
  constructor
  · rintro ⟨hnodes,hdepth,hchars,hlongest⟩
    exact ⟨hnodes,(Nat.le_max_right _ _).trans hdepth,hchars,(Nat.le_max_right _ _).trans hlongest⟩
  · rintro ⟨hnodes,hdepth,hchars,hlongest⟩
    exact ⟨hnodes,Nat.max_le.2 ⟨hn.depth,hdepth⟩,hchars,Nat.max_le.2 ⟨hn.longest,hlongest⟩⟩

structure Scalar (limits : JsonLimits) (w : Text) (v : Value) : Prop where
  start : ∃c r,w=c::r ∧ StartsToken c
  chars : ∀c∈w,c∉delimiters
  size : ∃l,ownWritten 0 v=⟨1,0,0,l⟩
  fits : ∀more,checkToken limits (w++more)=.ok () → (ownWritten 0 v).longest≤limits.maxNumberChars
  check : (ownWritten 0 v).longest≤limits.maxNumberChars → checkToken limits w=.ok ()

variable {v : Value}

theorem Scalar.inside (h : Scalar limits w v) : ∀c∈w,inToken c=true := by
  intro c hc
  simp [inToken,h.chars c hc]

theorem Scalar.fits_of_passes (h : Scalar limits w v) (hn : n.Fits limits)
    (htext : skipWs text=w++rest) {stack : List Char}
    (hpasses : Passes limits ⟨text,stack,n.nodes,n.chars⟩) :
    (n+ownWritten 0 v).Fits limits := by
  obtain ⟨c,r,rfl,hc⟩ := h.start
  obtain ⟨l,hl⟩ := h.size
  rw [passes_skipWs,htext,List.cons_append,passes_token hc] at hpasses
  obtain ⟨hcheck,hnodes,_⟩ := hpasses
  rw [← List.cons_append,List.takeWhile_append_of_pos h.inside] at hcheck
  have hlongest := h.fits _ hcheck
  rw [fits_add hn]
  rw [hl] at hlongest ⊢
  exact ⟨hnodes,Nat.zero_le _,hn.chars,hlongest⟩

theorem Scalar.agrees (h : Scalar limits w v) (hn : n.Fits limits)
    (htext : skipWs text=w++rest) (hrest : Terminated rest) {stack : List Char} :
    Passes limits ⟨text,stack,n.nodes,n.chars⟩ ↔ (n+ownWritten 0 v).Fits limits ∧
      Passes limits ⟨rest,stack,(n+ownWritten 0 v).nodes,(n+ownWritten 0 v).chars⟩ := by
  have hstop : ∀c∈rest.head?,inToken c=false := by
    intro c hc
    simp [inToken,hrest c hc]
  obtain ⟨htake,hdrop⟩ := takeWhile_run h.inside hstop
  obtain ⟨c,r,rfl,hc⟩ := h.start
  obtain ⟨l,hl⟩ := h.size
  have hcheck := h.check
  have hfits := h.fits []
  rw [hl,List.append_nil] at hfits
  rw [hl] at hcheck ⊢
  rw [passes_skipWs,htext,List.cons_append,passes_token hc,← List.cons_append,htake,hdrop,
    fits_add hn]
  constructor
  · rintro ⟨hok,hnodes,hpasses⟩
    exact ⟨⟨hnodes,Nat.zero_le _,hn.chars,hfits hok⟩,hpasses⟩
  · rintro ⟨⟨hnodes,_,_,hlongest⟩,hpasses⟩
    exact ⟨hcheck hlongest,hnodes,hpasses⟩

theorem literal_is_scalar (h : (w,v)∈literals) : Scalar limits w v := by
  obtain ⟨⟨c,r,rfl,hc⟩,hchars⟩ := literal_chars h
  obtain ⟨hsize,_⟩ := literal_size h
  refine ⟨⟨c,r,rfl,?_⟩,hchars,⟨0,hsize⟩,fun _ _ => by rw [hsize]; exact Nat.zero_le _,fun _ => ?_⟩
  · simp only [List.mem_cons,List.not_mem_nil,or_false] at hc
    rcases hc with rfl | rfl | rfl <;> exact ⟨by decide,by decide,by decide,by decide⟩
  · rw [checkToken,if_pos (List.mem_map_of_mem (f:=Prod.fst) h)]

theorem number_start {c : Char} (hc : c= '-' ∨ isDigit c=true) :
    c∈numberStarts ∧ c∉['n','t','f'] ∧ StartsToken c := by
  have hall : numberStarts.all (fun d => d∉['n','t','f'] && d∉[' ','\t','\r','\n',',',':'] &&
    d∉['{','['] && d∉['}',']'] && d≠ '"')=true := by decide
  have hmem : c∈numberStarts := by
    obtain rfl | hc := hc
    · decide
    · simp only [isDigit,Bool.and_eq_true,decide_eq_true_eq] at hc
      have hdigits : ∀i < 58,48 ≤ i → Char.ofNat i∈numberStarts := by decide
      have hc' := hdigits c.toNat (Nat.lt_succ_of_le hc.2) hc.1
      rwa [Char.ofNat_toNat] at hc'
  have hc' := List.all_eq_true.1 hall c hmem
  simp only [Bool.and_eq_true,decide_eq_true_eq] at hc'
  obtain ⟨⟨⟨⟨hletter,hskip⟩,hopen⟩,hclose⟩,hquote⟩ := hc'
  exact ⟨hmem,hletter,hskip,hopen,hclose,hquote⟩

theorem number_is_scalar {isFloat : Bool} (h : IsNumber isFloat w) :
    Scalar limits w (.number isFloat w) := by
  obtain ⟨c,r,rfl,hstart⟩ := h.start
  obtain ⟨hmem,hletter,htoken⟩ := number_start (hstart.imp And.left id)
  have hnamed : ∀more,c::r++more∉literals.map Prod.fst := by
    intro more hw
    obtain ⟨⟨w,v⟩,hl,heq⟩ := List.mem_map.1 hw
    obtain ⟨⟨d,r',hcons,hd⟩,_⟩ := literal_chars hl
    have hsame := heq.symm.trans hcons
    cases hsame
    exact hletter hd
  have hconstant : c::r∉constants := by
    intro hw
    have hany : constants.any (fun w => w.isPrefixOf (c::r++[]))=true :=
      List.any_eq_true.2 ⟨c::r,hw,by simp⟩
    rw [(number_not_named h).2] at hany
    cases hany
  refine ⟨⟨c,r,rfl,htoken⟩,fun d hd => (h.chars d hd).not_delimiter,⟨_,rfl⟩,?_,?_⟩
  · intro more hcheck
    rw [checkToken,if_neg (hnamed more)] at hcheck
    split at hcheck
    · cases hcheck
    split at hcheck
    · cases hcheck
    split at hcheck
    · cases hcheck
    · rename_i hlength
      rw [List.length_append] at hlength
      exact (Nat.le_add_right _ _).trans (Nat.le_of_not_lt hlength)
  · intro hlength
    change (c::r).length≤limits.maxNumberChars at hlength
    have hnamed' := hnamed []
    rw [List.append_nil] at hnamed'
    rw [checkToken,if_neg hnamed',if_neg hconstant,if_neg (by simpa using hmem),
      if_neg (Nat.not_lt.2 hlength)]

theorem decodeLoop_stuck {c : Char} (hc : c∉delimiters) :
    decodeLoop interp ⟨c::rest,frames,.done v,n⟩=⟨.error .decode,n⟩ := by
  refine loop_inr ?_
  have hne : c≠ ',' ∧ c≠ ']' ∧ c≠ '}' := by
    refine ⟨?_,?_,?_⟩
    all_goals
      rintro rfl
      exact hc (by decide)
  rw [loadStep,skipWs_cons (not_ws hc)]
  dsimp only [doneTurn]
  cases frames with
  | nil => rfl
  | cons frame frames =>
    cases frame with
    | arr items =>
      dsimp only
      rw [if_neg hne.1,if_neg hne.2.1]
      rfl
    | obj ms k =>
      dsimp only
      rw [if_neg hne.1,if_neg hne.2.2]
      rfl

end

section

variable {limits : JsonLimits} {interp : Interpreter} {s t : Decoder}

/-- One step of the decoder: the preflight gets as far if what has been created is within the
limits, or the decoder stops next, inside a token that the preflight reads as one. -/
def Agrees (limits : JsonLimits) (interp : Interpreter) (s t : Decoder) : Prop :=
  (Passes limits s.scan ↔ t.created.Fits limits ∧ Passes limits t.scan) ∨
  decodeLoop interp t=⟨.error .decode,t.created⟩ ∧
    (Passes limits s.scan → t.created.Fits limits)

theorem agrees_of_iff (hs : t.created.Fits limits)
    (h : Passes limits s.scan ↔ Passes limits t.scan) : Agrees limits interp s t :=
  .inl (h.trans ⟨fun hp => ⟨hs,hp⟩,And.right⟩)

theorem Scalar.moves_agree {text rest w : Text} {frames : List Frame} {n : Size} {v : Value}
    (h : Scalar limits w v) (hn : n.Fits limits) (htext : skipWs text=w++rest) :
    Agrees limits interp ⟨text,frames,.value,n⟩ ⟨rest,frames,.done v,n+ownWritten 0 v⟩ := by
  by_cases hrest : Terminated rest
  · exact .inl (h.agrees hn htext hrest)
  · right
    have hfits : Passes limits ⟨text,frames.map Frame.closer,n.nodes,n.chars⟩ →
        (n+ownWritten 0 v).Fits limits := h.fits_of_passes hn htext
    cases rest with
    | nil => exact absurd Terminated.nil hrest
    | cons c rest =>
      have hc : c∉delimiters := fun hc => hrest (terminated_cons hc)
      exact ⟨decodeLoop_stuck hc,hfits⟩

theorem passes_string_fits {text r rest : Text} {stack : List Char} {n : Size} {us : List Nat}
    (htext : skipWs text= '"'::r) (hscan : scanUnits r=some (us,rest)) (hn : n.Fits limits) :
    Passes limits ⟨text,stack,n.nodes,n.chars⟩ ↔ (n+keyWritten us).Fits limits ∧
      Passes limits ⟨rest,stack,(n+keyWritten us).nodes,(n+keyWritten us).chars⟩ := by
  rw [passes_skipWs,htext,passes_string hscan hn.chars,fits_add hn]
  constructor
  · rintro ⟨hnodes,hchars,hp⟩
    exact ⟨⟨hnodes,Nat.zero_le _,hchars,Nat.zero_le _⟩,hp⟩
  · rintro ⟨⟨hnodes,_,hchars,_⟩,hp⟩
    exact ⟨hnodes,hchars,hp⟩

theorem passes_open_fits {text r : Text} {c : Char} {frames : List Frame} {n : Size}
    (htext : skipWs text=c::r) (hc : c∈['{','[']) (hn : n.Fits limits) :
    Passes limits ⟨text,frames.map Frame.closer,n.nodes,n.chars⟩ ↔
      (n+container frames.length).Fits limits ∧
        Passes limits ⟨r,closer c::frames.map Frame.closer,(n+container frames.length).nodes,
          (n+container frames.length).chars⟩ := by
  rw [passes_skipWs,htext,passes_open hc,fits_add hn,List.length_map]
  constructor
  · rintro ⟨hdepth,hnodes,hp⟩
    exact ⟨⟨hnodes,hdepth,hn.chars,Nat.zero_le _⟩,hp⟩
  · rintro ⟨⟨hnodes,hdepth,_,_⟩,hp⟩
    exact ⟨hdepth,hnodes,hp⟩

theorem passes_close_text {text rest : Text} {c : Char} {stack : List Char} {n k : Nat}
    (htext : skipWs text=c::rest) (hc : c∈['}',']']) :
    Passes limits ⟨text,c::stack,n,k⟩ ↔ Passes limits ⟨rest,stack,n,k⟩ := by
  rw [passes_skipWs,htext,passes_close hc]

theorem passes_skip_text {text rest : Text} {c : Char} {stack : List Char} {n k : Nat}
    (htext : skipWs text=c::rest) (hc : c∈[' ','\t','\r','\n',',',':']) :
    Passes limits ⟨text,stack,n,k⟩ ↔ Passes limits ⟨rest,stack,n,k⟩ := by
  rw [passes_skipWs,htext,passes_skip hc]

theorem Moves.agrees (h : Moves interp s t) (hs : s.created.Fits limits) :
    Agrees limits interp s t := by
  cases h with
  | str htext hscan => exact .inl (passes_string_fits htext hscan hs)
  | empty htext hc hclose _ =>
    refine .inl ((passes_open_fits htext hc hs).trans (and_congr_right fun _ => ?_))
    refine passes_close_text hclose ?_
    simp only [List.mem_cons,List.not_mem_nil,or_false] at hc
    rcases hc with rfl | rfl <;> decide
  | enterArr htext _ _ => exact .inl (passes_open_fits htext (by decide) hs)
  | enterObj htext _ _ => exact .inl (passes_open_fits htext (by decide) hs)
  | literal htext hw => exact (literal_is_scalar hw).moves_agree hs htext
  | number htext hmatch _ =>
    exact (number_is_scalar (matchNumber_sound hmatch).2).moves_agree hs htext
  | key htext hscan hcolon =>
    exact .inl ((passes_string_fits htext hscan hs).trans
      (and_congr_right fun _ => passes_skip_text hcolon (by decide)))
  | nextItem htext => exact agrees_of_iff hs (passes_skip_text htext (by decide))
  | endItems htext => exact agrees_of_iff hs (passes_close_text (c:= ']') htext (by decide))
  | nextMember htext => exact agrees_of_iff hs (passes_skip_text htext (by decide))
  | endMembers htext _ => exact agrees_of_iff hs (passes_close_text (c:= '}') htext (by decide))

theorem Ends.agrees {b : Loaded} (h : Ends s b) (hs : s.created.Fits limits) :
    (Passes limits s.scan → b.created.Fits limits) ∧
      ∀root,b.value=.ok root → Passes limits s.scan := by
  cases h with
  | accept htext =>
    refine ⟨fun _ => hs,fun _ _ => ?_⟩
    dsimp only [Decoder.scan]
    rw [passes_skipWs,htext]
    exact passes_nil
  | stop => exact ⟨fun _ => hs,fun _ h => by cases h⟩
  | number _ htext hn =>
    exact ⟨fun hp => (number_is_scalar hn).fits_of_passes hs htext hp,fun _ h => by cases h⟩
  | key _ htext hscan =>
    exact ⟨fun hp => ((passes_string_fits htext hscan hs).1 hp).1,fun _ h => by cases h⟩

theorem decodeLoop_agrees (s : Decoder) (hs : s.created.Fits limits) :
    (Passes limits s.scan → (decodeLoop interp s).created.Fits limits) ∧
      ∀root,(decodeLoop interp s).value=.ok root → (decodeLoop interp s).created.Fits limits →
        Passes limits s.scan := by
  refine decodeLoop_induction (P:=fun s b => b=decodeLoop interp s → s.created.Fits limits →
    (Passes limits s.scan → b.created.Fits limits) ∧
      ∀root,b.value=.ok root → b.created.Fits limits → Passes limits s.scan) ?_ ?_ s rfl hs
  · intro s b hends _ hs
    obtain ⟨hfits,hok⟩ := hends.agrees hs
    exact ⟨hfits,fun root hroot _ => hok root hroot⟩
  · intro s t b hmoves ih hb hs
    rw [hmoves.decodeLoop] at hb
    obtain hiff | ⟨hstuck,hfits⟩ := hmoves.agrees hs
    · constructor
      · intro hp
        obtain ⟨ht,hp⟩ := hiff.1 hp
        exact (ih hb ht).1 hp
      · intro root hroot hfinal
        have hle : t.created.Le b.created := hb ▸ decodeLoop_created t
        have ht := hfinal.le hle
        exact hiff.2 ⟨ht,(ih hb ht).2 root hroot hfinal⟩
    · rw [hstuck] at hb
      cases hb
      exact ⟨hfits,fun _ h => by cases h⟩

theorem preflight_bounds_loads {text : Text} (h : preflightJson limits text=.ok ()) :
    (loads interp text).created.Fits limits := by
  refine (decodeLoop_agrees ⟨text,[],.value,0⟩ ?_).1 h
  exact ⟨Nat.zero_le _,Nat.zero_le _,Nat.zero_le _,Nat.zero_le _⟩

theorem preflight_of_loads {text : Text} {root : Value} (h : (loads interp text).value=.ok root)
    (hfits : (loads interp text).created.Fits limits) : preflightJson limits text=.ok () := by
  refine (decodeLoop_agrees ⟨text,[],.value,0⟩ ?_).2 root h hfits
  exact ⟨Nat.zero_le _,Nat.zero_le _,Nat.zero_le _,Nat.zero_le _⟩

end

end XiaoQing.Json
