import XiaoQing.Json.Loads

namespace XiaoQing.Json

open XiaoQing.Framework

/-- What the text must still hold for the open containers to end, around a value that is complete,
in the given root. -/
def Closing : List Frame → Value → Text → Value → Prop
  | [],v,text,root => Ws text ∧ root=v
  | .arr items::frames,v,text,root => ∃vs u rest,Writes (.moreItems vs) u ∧ text=u++ ']'::rest ∧
      Closing frames (.arr (items++v::vs)) rest root
  | .obj ms k::frames,v,text,root => ∃ms' u rest,Writes (.moreMembers ms') u ∧ text=u++ '}'::rest ∧
      Closing frames (.obj (ms++(k,v)::ms')) rest root

def Continues (s : Decoder) (root : Value) : Prop :=
  match s.mode with
  | .done v => Closing s.frames v s.text root
  | .value => ∃a v t rest,Ws a ∧ Writes (.value v) t ∧ s.text=a++(t++rest) ∧
      Closing s.frames v rest root
  | .key ms => ∃ms' t rest,Writes (.members ms') t ∧ s.text=t++ '}'::rest ∧
      Closing s.frames (.obj (ms++ms')) rest root

section

variable {interp : Interpreter} {s t : Decoder} {root : Value}

theorem Ends.continues {b : Loaded} (h : Ends s b) (hb : b.value=.ok root) : Continues s root := by
  cases h with
  | accept htext =>
    cases hb
    exact ⟨skipWs_eq_nil htext,rfl⟩
  | stop | number | key => cases hb

theorem Moves.continues (h : Moves interp s t) (ht : Continues t root) : Continues s root := by
  cases h with
  | str htext hscan =>
    rename_i text r rest frames n us
    obtain ⟨a,ha,happend⟩ := skipWs_split text
    obtain ⟨body,rfl,hbody⟩ := scanUnits_sound hscan
    refine ⟨a,_,_,rest,ha,.str hbody,?_,ht⟩
    rw [happend,htext]
    simp
  | empty htext hc hclose hdepth =>
    rename_i text r rest frames n c
    obtain ⟨a,ha,happend⟩ := skipWs_split text
    obtain ⟨b,hb,hbetween⟩ := skipWs_split r
    rw [htext,hbetween,hclose] at happend
    simp only [List.mem_cons,List.not_mem_nil,or_false] at hc
    rcases hc with rfl | rfl
    · exact ⟨a,_,_,rest,ha,.emptyObj hb,by rw [happend]; simp [closer],ht⟩
    · exact ⟨a,_,_,rest,ha,.emptyArr hb,by rw [happend]; simp [closer],ht⟩
  | enterArr htext hopen hdepth =>
    rename_i text r frames n
    obtain ⟨a,ha,happend⟩ := skipWs_split text
    obtain ⟨b,v,tv,_,hb,hv,rfl,vs,u,rest,hu,rfl,hclosing⟩ := ht
    refine ⟨a,_,_,rest,ha,.arr (.items hb hv hu),?_,hclosing⟩
    rw [happend,htext]
    simp
  | enterObj htext hopen hdepth =>
    rename_i text r frames n
    obtain ⟨a,ha,happend⟩ := skipWs_split text
    obtain ⟨ms,tm,rest,hm,rfl,hclosing⟩ := ht
    refine ⟨a,_,_,rest,ha,.obj hm,?_,hclosing⟩
    rw [happend,htext]
    simp
  | literal htext hw =>
    rename_i text w rest frames n v
    obtain ⟨a,ha,happend⟩ := skipWs_split text
    exact ⟨a,v,w,rest,ha,.literal hw,happend.trans (by rw [htext]),ht⟩
  | number htext hmatch hfits =>
    rename_i text tn rest frames n isFloat
    obtain ⟨a,ha,happend⟩ := skipWs_split text
    obtain ⟨_,hnumber⟩ := matchNumber_sound hmatch
    exact ⟨a,_,tn,rest,ha,.number hnumber,happend.trans (by rw [htext]),ht⟩
  | key htext hscan hcolon =>
    rename_i text r r' rest frames n ms k
    obtain ⟨a,ha,happend⟩ := skipWs_split text
    obtain ⟨body,rfl,hbody⟩ := scanUnits_sound hscan
    obtain ⟨b,hb,hbetween⟩ := skipWs_split r'
    obtain ⟨c,v,tv,_,hc,hv,rfl,ms',u,rest',hu,rfl,hclosing⟩ := ht
    refine ⟨_,_,rest',.members ha hbody hb hc hv hu,?_,hclosing⟩
    rw [happend,htext,hbetween,hcolon]
    simp
  | nextItem htext =>
    rename_i text rest frames n items v
    obtain ⟨a,ha,happend⟩ := skipWs_split text
    obtain ⟨b,w,tw,_,hb,hw,rfl,vs,u,rest',hu,rfl,hclosing⟩ := ht
    refine ⟨_,_,rest',.moreItems ha (.items hb hw hu),?_,?_⟩
    · rw [happend,htext]
      simp
    · simpa using hclosing
  | endItems htext =>
    rename_i text rest frames n items v
    obtain ⟨a,ha,happend⟩ := skipWs_split text
    exact ⟨_,a,rest,.noItems ha,by rw [happend,htext],ht⟩
  | nextMember htext =>
    rename_i text rest frames n ms k v
    obtain ⟨a,ha,happend⟩ := skipWs_split text
    obtain ⟨ms',tm,rest',hm,rfl,hclosing⟩ := ht
    refine ⟨_,_,rest',.moreMembers ha hm,?_,?_⟩
    · rw [happend,htext]
      simp
    · simpa using hclosing
  | endMembers htext hnodup =>
    rename_i text rest frames n ms k v
    obtain ⟨a,ha,happend⟩ := skipWs_split text
    exact ⟨_,a,rest,.noMembers ha,by rw [happend,htext],ht⟩

theorem decodeLoop_sound (s : Decoder) (h : (decodeLoop interp s).value=.ok root) :
    Continues s root :=
  decodeLoop_induction (P:=fun s b => b.value=.ok root → Continues s root)
    (fun _ _ hends hb => hends.continues hb) (fun _ _ _ hmoves ih hb => hmoves.continues (ih hb)) s h

theorem loads_sound {text : Text} (h : (loads interp text).value=.ok root) : IsJson root text := by
  obtain ⟨a,v,t,b,ha,hv,htext,hb,hroot⟩ := decodeLoop_sound _ h
  cases hroot
  exact ⟨a,t,b,ha,hv,hb,htext⟩

end

def framesSize : List Frame → Size
  | [] => 0
  | .arr items::frames => framesSize frames+(container frames.length+
      tallyItems ownWritten keyWritten (frames.length+1) items)
  | .obj ms k::frames => framesSize frames+(container frames.length+
      tallyMembers ownWritten keyWritten (frames.length+1) ms)+keyWritten k

def modeSize (depth : Nat) : Mode → Size
  | .value => 0
  | .key ms => container depth+tallyMembers ownWritten keyWritten (depth+1) ms
  | .done v => v.written depth

def Frame.Clean (interp : Interpreter) : Frame → Prop
  | .arr items => ∀v∈items,v.Clean interp
  | .obj ms _ => ∀m∈ms,m.2.Clean interp

def Mode.Clean (interp : Interpreter) : Mode → Prop
  | .value => True
  | .key ms => ∀m∈ms,m.2.Clean interp
  | .done v => v.Clean interp

structure Built (interp : Interpreter) (s : Decoder) : Prop where
  created : s.created=framesSize s.frames+modeSize s.frames.length s.mode
  frames : ∀f∈s.frames,f.Clean interp
  mode : s.mode.Clean interp
  depth : s.created.depth ≤ interp.recursionLimit

section

variable {interp : Interpreter} {s t : Decoder}

theorem written_arr (depth : Nat) (items : List Value) : (Value.arr items).written depth=
    container depth+tallyItems ownWritten keyWritten (depth+1) items := rfl

theorem written_obj (depth : Nat) (ms : List (List Nat × Value)) : (Value.obj ms).written depth=
    container depth+tallyMembers ownWritten keyWritten (depth+1) ms := rfl

theorem tallyItems_snoc (depth : Nat) (items : List Value) (v : Value) :
    tallyItems ownWritten keyWritten depth (items++[v])=
      tallyItems ownWritten keyWritten depth items+v.written depth := by
  simp [tallyItems_append,tallyItems,Value.written]

theorem tallyMembers_snoc (depth : Nat) (ms : List (List Nat × Value)) (k : List Nat) (v : Value) :
    tallyMembers ownWritten keyWritten depth (ms++[(k,v)])=
      tallyMembers ownWritten keyWritten depth ms+keyWritten k+v.written depth := by
  simp [tallyMembers_append,tallyMembers,Value.written,add_assoc]

theorem literal_size {w : Text} {v : Value} (h : (w,v)∈literals) :
    ownWritten 0 v=⟨1,0,0,0⟩ ∧ ∀depth,v.written depth=ownWritten 0 v := by
  simp only [literals,List.mem_cons,Prod.mk.injEq,List.not_mem_nil,or_false] at h
  rcases h with ⟨_,rfl⟩ | ⟨_,rfl⟩ | ⟨_,rfl⟩ <;> exact ⟨rfl,fun _ => rfl⟩

theorem literal_clean {w : Text} {v : Value} (h : (w,v)∈literals) : v.Clean interp := by
  simp only [literals,List.mem_cons,Prod.mk.injEq,List.not_mem_nil,or_false] at h
  rcases h with ⟨_,rfl⟩ | ⟨_,rfl⟩ | ⟨_,rfl⟩
  · exact .null
  · exact .bool _
  · exact .bool _

theorem forall_mem_snoc {α : Type} {p : α → Prop} {l : List α} {a : α} (hl : ∀b∈l,p b)
    (ha : p a) : ∀b∈l++[a],p b := by
  intro b hb
  obtain hb | hb := List.mem_append.1 hb
  · exact hl b hb
  · exact List.mem_singleton.1 hb ▸ ha

theorem Built.scalar {text rest : Text} {frames : List Frame} {n : Size} {v : Value}
    (h : Built interp ⟨text,frames,.value,n⟩) (hown : v.written frames.length=ownWritten 0 v)
    (hdepth : (ownWritten 0 v).depth=0) (hclean : v.Clean interp) :
    Built interp ⟨rest,frames,.done v,n+ownWritten 0 v⟩ := by
  refine ⟨?_,h.frames,hclean,?_⟩
  · have hcreated := h.created
    simp only [modeSize,add_zero] at hcreated ⊢
    rw [hcreated,hown]
  · rw [Size.add_depth,hdepth]
    exact Nat.max_le.2 ⟨h.depth,Nat.zero_le _⟩

theorem Built.opened {n : Size} {depth : Nat} (h : n.depth ≤ interp.recursionLimit)
    (hdepth : depth+1 ≤ interp.recursionLimit) :
    (n+container depth).depth ≤ interp.recursionLimit := Nat.max_le.2 ⟨h,hdepth⟩

theorem Moves.built (h : Moves interp s t) (hs : Built interp s) : Built interp t := by
  cases h with
  | str _ _ => exact hs.scalar rfl rfl (.str _)
  | empty htext hc _ hdepth =>
    have hcreated := hs.created
    simp only [List.mem_cons,List.not_mem_nil,or_false] at hc
    simp only [modeSize,add_zero] at hcreated
    rcases hc with rfl | rfl
    · refine ⟨?_,hs.frames,.obj [] (by simp) (by simp),Built.opened hs.depth hdepth⟩
      simp [modeSize,emptied,written_obj,tallyMembers,hcreated]
    · refine ⟨?_,hs.frames,.arr [] (by simp),Built.opened hs.depth hdepth⟩
      simp [modeSize,emptied,written_arr,tallyItems,hcreated]
  | enterArr _ _ hdepth =>
    have hcreated := hs.created
    simp only [modeSize,add_zero] at hcreated
    refine ⟨?_,List.forall_mem_cons.2 ⟨by simp [Frame.Clean],hs.frames⟩,trivial,
      Built.opened hs.depth hdepth⟩
    simp [modeSize,framesSize,tallyItems,hcreated]
  | enterObj _ _ hdepth =>
    have hcreated := hs.created
    simp only [modeSize,add_zero] at hcreated
    refine ⟨?_,hs.frames,by simp [Mode.Clean],Built.opened hs.depth hdepth⟩
    simp [modeSize,tallyMembers,hcreated]
  | literal _ hw =>
    obtain ⟨hsize,hown⟩ := literal_size hw
    exact hs.scalar (hown _) (by rw [hsize]) (literal_clean hw)
  | number _ _ hfits => exact hs.scalar rfl rfl (.number _ _ hfits)
  | key _ _ _ =>
    have hcreated := hs.created
    simp only [modeSize] at hcreated
    refine ⟨?_,List.forall_mem_cons.2 ⟨hs.mode,hs.frames⟩,trivial,?_⟩
    · simp [modeSize,framesSize,hcreated]
    · exact Nat.max_le.2 ⟨hs.depth,Nat.zero_le _⟩
  | nextItem _ =>
    obtain ⟨hcreated,hframes,hmode,hdepth⟩ := hs
    obtain ⟨hitems,hframes⟩ := List.forall_mem_cons.1 hframes
    refine ⟨?_,List.forall_mem_cons.2 ⟨forall_mem_snoc hitems hmode,hframes⟩,trivial,hdepth⟩
    dsimp only at hcreated ⊢
    rw [hcreated]
    simp [framesSize,modeSize,tallyItems_snoc,add_assoc]
  | endItems _ =>
    obtain ⟨hcreated,hframes,hmode,hdepth⟩ := hs
    obtain ⟨hitems,hframes⟩ := List.forall_mem_cons.1 hframes
    refine ⟨?_,hframes,.arr _ (forall_mem_snoc hitems hmode),hdepth⟩
    dsimp only at hcreated ⊢
    rw [hcreated]
    simp [framesSize,modeSize,written_arr,tallyItems_snoc,add_assoc]
  | nextMember _ =>
    obtain ⟨hcreated,hframes,hmode,hdepth⟩ := hs
    obtain ⟨hmembers,hframes⟩ := List.forall_mem_cons.1 hframes
    refine ⟨?_,hframes,
      forall_mem_snoc (p:=fun m : List Nat × Value => m.2.Clean interp) hmembers hmode,hdepth⟩
    dsimp only at hcreated ⊢
    rw [hcreated]
    simp [framesSize,modeSize,tallyMembers_snoc,add_assoc]
  | endMembers _ hnodup =>
    obtain ⟨hcreated,hframes,hmode,hdepth⟩ := hs
    obtain ⟨hmembers,hframes⟩ := List.forall_mem_cons.1 hframes
    refine ⟨?_,hframes,
      .obj _ hnodup (forall_mem_snoc (p:=fun m : List Nat × Value => m.2.Clean interp) hmembers
        hmode),hdepth⟩
    dsimp only at hcreated ⊢
    rw [hcreated]
    simp [framesSize,modeSize,written_obj,tallyMembers_snoc,add_assoc]

theorem decodeLoop_built {root : Value} (s : Decoder) (hs : Built interp s)
    (h : (decodeLoop interp s).value=.ok root) :
    root.Clean interp ∧ (decodeLoop interp s).created=root.written 0 ∧
      (root.written 0).depth ≤ interp.recursionLimit := by
  refine decodeLoop_induction (P:=fun s b => Built interp s → b.value=.ok root →
    root.Clean interp ∧ b.created=root.written 0 ∧ (root.written 0).depth ≤ interp.recursionLimit)
    ?_ (fun _ _ _ hmoves ih hs => ih (hmoves.built hs)) s hs h
  intro s b hends hs hb
  cases hends with
  | accept htext =>
    rename_i n v
    cases hb
    obtain ⟨hcreated,_,hmode,hdepth⟩ := hs
    have hsize : n=root.written 0 := hcreated.trans (zero_add _)
    exact ⟨hmode,hsize,hsize ▸ hdepth⟩
  | stop | number | key => cases hb

end

def Reads (interp : Interpreter) : Sym → Text → Prop
  | .value v,t => v.Clean interp → ∀a frames n rest,Ws a → Terminated rest →
      (v.written frames.length).depth ≤ interp.recursionLimit →
      ∃n',Leads (loadStep interp) ⟨a++(t++rest),frames,.value,n⟩ ⟨rest,frames,.done v,n'⟩
  | .items vs,t => (∀v∈vs,v.Clean interp) → ∀frames n rest items,
      (tallyItems ownWritten keyWritten (frames.length+1) vs).depth ≤ interp.recursionLimit →
      ∃n',Leads (loadStep interp) ⟨t++ ']'::rest,.arr items::frames,.value,n⟩
        ⟨rest,frames,.done (.arr (items++vs)),n'⟩
  | .moreItems vs,t => (∀v∈vs,v.Clean interp) → ∀frames n rest items v,
      (tallyItems ownWritten keyWritten (frames.length+1) vs).depth ≤ interp.recursionLimit →
      ∃n',Leads (loadStep interp) ⟨t++ ']'::rest,.arr items::frames,.done v,n⟩
        ⟨rest,frames,.done (.arr (items++v::vs)),n'⟩
  | .members ms,t => (∀m∈ms,m.2.Clean interp) → ∀frames n rest ms₀,
      ((ms₀++ms).map (fun m => joinSurrogates m.1)).Nodup →
      (tallyMembers ownWritten keyWritten (frames.length+1) ms).depth ≤ interp.recursionLimit →
      ∃n',Leads (loadStep interp) ⟨t++ '}'::rest,frames,.key ms₀,n⟩
        ⟨rest,frames,.done (.obj (ms₀++ms)),n'⟩
  | .moreMembers ms,t => (∀m∈ms,m.2.Clean interp) → ∀frames n rest ms₀ k v,
      ((ms₀++(k,v)::ms).map (fun m => joinSurrogates m.1)).Nodup →
      (tallyMembers ownWritten keyWritten (frames.length+1) ms).depth ≤ interp.recursionLimit →
      ∃n',Leads (loadStep interp) ⟨t++ '}'::rest,.obj ms₀ k::frames,.done v,n⟩
        ⟨rest,frames,.done (.obj (ms₀++(k,v)::ms)),n'⟩

section

variable {interp : Interpreter} {t u : Text}

theorem Moves.leads {s t : Decoder} (h : Moves interp s t) : Leads (Json.loadStep interp) s t :=
  Leads.single h.loadStep

theorem not_ws {c : Char} (h : c∉delimiters) : isWs c=false := by
  cases hc : isWs c with
  | false => rfl
  | true => exact absurd (isWs_delimiter hc) h

theorem Writes.skip {a : Text} {v : Value} (h : Writes (.value v) t) (ha : Ws a) (rest : Text) :
    skipWs (a++(t++rest))=t++rest := by
  obtain ⟨c,r,rfl,hc⟩ := h.start
  exact skipWs_append_cons ha (not_ws hc)

theorem items_start {vs : List Value} (h : Writes (.items vs) t) :
    (skipWs (t++u)).head?≠some ']' := by
  cases h with
  | items ha hv _ =>
    simp only [List.append_assoc]
    rw [hv.skip ha _]
    obtain ⟨c,r,rfl,hc⟩ := hv.start
    rintro h
    cases h
    exact hc (by decide)

theorem members_start {ms : List (List Nat × Value)} (h : Writes (.members ms) t) :
    (skipWs (t++u)).head?≠some '}' := by
  cases h with
  | members ha _ _ _ _ _ =>
    simp only [List.append_assoc,List.cons_append]
    rw [skipWs_append_cons ha rfl]
    simp

theorem wrapped (c d : Char) (t rest : Text) : c::(t++[d])++rest=c::(t++d::rest) := by simp

theorem Writes.reads {sym : Sym} {t : Text} (h : Writes sym t) : Reads interp sym t := by
  induction h with
  | literal hw =>
    intro _ a frames n rest ha _ _
    exact ⟨_,(Moves.literal ((Writes.literal hw).skip ha rest) hw).leads⟩
  | number hn =>
    intro hclean a frames n rest ha hrest _
    cases hclean with
    | number _ _ hfits =>
      exact ⟨_,(Moves.number ((Writes.number hn).skip ha rest) (matchNumber_complete hn hrest)
        hfits).leads⟩
  | str hbody =>
    intro _ a frames n rest ha _ _
    have hskip := (Writes.str hbody).skip ha rest
    rw [wrapped] at hskip ⊢
    exact ⟨_,(Moves.str hskip (scanUnits_complete hbody rest)).leads⟩
  | emptyArr hb =>
    intro _ a frames n rest ha _ hdepth
    have hskip := (Writes.emptyArr hb).skip ha rest
    rw [wrapped] at hskip ⊢
    exact ⟨_,(Moves.empty hskip (by decide) (skipWs_append_cons hb rfl)
      ((Nat.le_max_left _ _).trans hdepth)).leads⟩
  | arr hitems ih =>
    intro hclean a frames n rest ha _ hdepth
    have hskip := (Writes.arr hitems).skip ha rest
    rw [wrapped] at hskip ⊢
    cases hclean with
    | arr _ hall =>
      have henter : Moves interp ⟨_,frames,.value,n⟩ _ :=
        .enterArr hskip (items_start hitems) ((Nat.le_max_left _ _).trans hdepth)
      obtain ⟨n',hread⟩ := ih hall frames _ rest [] ((Nat.le_max_right _ _).trans hdepth)
      exact ⟨n',henter.leads.trans hread⟩
  | emptyObj hb =>
    intro _ a frames n rest ha _ hdepth
    have hskip := (Writes.emptyObj hb).skip ha rest
    rw [wrapped] at hskip ⊢
    exact ⟨_,(Moves.empty hskip (by decide) (skipWs_append_cons hb rfl)
      ((Nat.le_max_left _ _).trans hdepth)).leads⟩
  | obj hmembers ih =>
    intro hclean a frames n rest ha _ hdepth
    have hskip := (Writes.obj hmembers).skip ha rest
    rw [wrapped] at hskip ⊢
    cases hclean with
    | obj _ hnodup hall =>
      have henter : Moves interp ⟨_,frames,.value,n⟩ _ :=
        .enterObj hskip (members_start hmembers) ((Nat.le_max_left _ _).trans hdepth)
      obtain ⟨n',hread⟩ := ih hall frames _ rest [] hnodup ((Nat.le_max_right _ _).trans hdepth)
      exact ⟨n',henter.leads.trans hread⟩
  | items ha hv hu ihv ihu =>
    intro hclean frames n rest items hdepth
    obtain ⟨hfirst,hall⟩ := List.forall_mem_cons.1 hclean
    obtain ⟨n₁,hvalue⟩ := ihv hfirst _ (.arr items::frames) n _ ha (moreItems_terminated hu)
      ((Nat.le_max_left _ _).trans hdepth)
    obtain ⟨n₂,hmore⟩ := ihu hall frames n₁ rest items _ ((Nat.le_max_right _ _).trans hdepth)
    refine ⟨n₂,?_⟩
    rw [List.append_assoc,List.append_assoc]
    exact hvalue.trans hmore
  | noItems ha =>
    intro _ frames n rest items v _
    exact ⟨n,(Moves.endItems (skipWs_append_cons ha rfl)).leads⟩
  | moreItems ha _ ih =>
    intro hclean frames n rest items v hdepth
    obtain ⟨n',hread⟩ := ih hclean frames n rest (items++[v]) hdepth
    rw [List.append_assoc] at hread ⊢
    exact ⟨n',(Moves.nextItem (skipWs_append_cons ha rfl)).leads.trans hread⟩
  | members ha hk hb hc hv hu ihv ihu =>
    intro hclean frames n rest ms₀ hnodup hdepth
    rename_i us v ms
    obtain ⟨hfirst,hall⟩ := List.forall_mem_cons.1 hclean
    have hinner := (Nat.le_max_left _ _).trans hdepth
    simp only [List.append_assoc,List.cons_append]
    obtain ⟨n₁,hvalue⟩ := ihv hfirst _ (.obj ms₀ us::frames) (n+keyWritten us) _ hc
      (moreMembers_terminated hu) ((Nat.le_max_right _ _).trans hinner)
    obtain ⟨n₂,hmore⟩ := ihu hall frames n₁ rest ms₀ us v hnodup ((Nat.le_max_right _ _).trans hdepth)
    refine ⟨n₂,Relation.ReflTransGen.trans ?_ (hvalue.trans hmore)⟩
    exact (Moves.key (skipWs_append_cons ha rfl) (scanUnits_complete hk _)
      (skipWs_append_cons hb rfl)).leads
  | noMembers ha =>
    intro _ frames n rest ms₀ k v hnodup _
    exact ⟨n,(Moves.endMembers (skipWs_append_cons ha rfl) hnodup).leads⟩
  | moreMembers ha _ ih =>
    intro hclean frames n rest ms₀ k v hnodup hdepth
    obtain ⟨n',hread⟩ := ih hclean frames n rest (ms₀++[(k,v)])
      (by rwa [List.append_assoc]) hdepth
    rw [List.append_assoc] at hread ⊢
    exact ⟨n',(Moves.nextMember (skipWs_append_cons ha rfl)).leads.trans hread⟩

theorem loads_complete {text : Text} {root : Value} (h : IsJson root text)
    (hclean : root.Clean interp) (hdepth : (root.written 0).depth ≤ interp.recursionLimit) :
    (loads interp text).value=.ok root := by
  obtain ⟨a,t,b,ha,hv,hb,rfl⟩ := h
  have hends : Terminated b := by
    have hb' := hb.terminated Terminated.nil
    rwa [List.append_nil] at hb'
  obtain ⟨n,hread⟩ := hv.reads hclean a [] 0 b ha hends hdepth
  have hlast : loadStep interp ⟨b,[],.done root,n⟩=.inr ⟨.ok root,n⟩ := by
    rw [loadStep,hb.skipWs]
    rfl
  rw [loads,decodeLoop,hread.loop_eq,loop_inr hlast]

theorem initial_built (interp : Interpreter) (text : Text) :
    Built interp ⟨text,[],.value,0⟩ := ⟨rfl,by simp,trivial,Nat.zero_le _⟩

theorem loads_ok_iff {text : Text} {root : Value} :
    (loads interp text).value=.ok root ↔ IsJson root text ∧ root.Clean interp ∧
      (root.written 0).depth ≤ interp.recursionLimit := by
  constructor
  · intro h
    obtain ⟨hclean,_,hdepth⟩ := decodeLoop_built _ (initial_built interp text) h
    exact ⟨loads_sound h,hclean,hdepth⟩
  · rintro ⟨hjson,hclean,hdepth⟩
    exact loads_complete hjson hclean hdepth

theorem loads_created {text : Text} {root : Value} (h : (loads interp text).value=.ok root) :
    (loads interp text).created=root.written 0 :=
  (decodeLoop_built _ (initial_built interp text) h).2.1

end

end XiaoQing.Json
