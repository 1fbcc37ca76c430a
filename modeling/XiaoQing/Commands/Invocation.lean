import XiaoQing.Commands.Catalog
import XiaoQing.Framework.Run

namespace XiaoQing.Commands

section

open Framework CommandCatalogNode

/-- `text.split(maxsplit=1)`: the first word and what follows it, if there is a word. -/
def splitFirst (t : Text) : Option (Text × Text) :=
  let u := t.dropWhile isSpace
  if u.isEmpty then none
  else some (u.takeWhile (!isSpace ·),(u.dropWhile (!isSpace ·)).dropWhile isSpace)

section

variable {t word rest : Text}

theorem splitFirst_suffix (h : splitFirst t=some (word,rest)) : rest <:+ t := by
  unfold splitFirst at h
  simp only at h
  split at h
  · cases h
  · cases h
    exact (List.dropWhile_suffix _).trans ((List.dropWhile_suffix _).trans (List.dropWhile_suffix _))

theorem splitFirst_length (h : splitFirst t=some (word,rest)) : rest.length < t.length := by
  unfold splitFirst at h
  simp only at h
  split at h
  · cases h
  · rename_i hne
    cases h
    have hdrop : (t.dropWhile isSpace).length ≤ t.length := (List.dropWhile_suffix _).length_le
    have hrest : ((t.dropWhile isSpace).dropWhile (!isSpace ·)).length <
        (t.dropWhile isSpace).length := by
      cases hu : t.dropWhile isSpace with
      | nil => exact absurd (List.isEmpty_iff.mpr hu) hne
      | cons c u =>
        have hc : isSpace c=false := by
          have := List.head_dropWhile_not isSpace (l:=t) (by rw [hu]; exact List.cons_ne_nil _ _)
          simpa [hu] using this
        rw [List.dropWhile_cons_of_pos (by rw [hc]; rfl),List.length_cons]
        exact Nat.lt_succ_of_le (List.dropWhile_suffix _).length_le
    have htail := (List.dropWhile_suffix isSpace
      (l:=(t.dropWhile isSpace).dropWhile (!isSpace ·))).length_le
    omega

end

section

variable (casefold : Text → Text)

/-- The token is the node's name or one of its aliases, the case of the letters aside. -/
def CommandCatalogNode.answers (node : CommandCatalogNode) (token : Text) : Bool :=
  casefold token=casefold node.name || node.aliases.any (fun other => casefold token=casefold other)

def CommandCatalogNode.resolveChild (node : CommandCatalogNode) (token : Text) :
    Option CommandCatalogNode :=
  node.children.find? (fun child => child.answers casefold token)

structure CommandInvocation where
  root : CommandCatalogNode
  chain : List CommandCatalogNode
  remainders : List Text

/-- The variables of the loop in `resolve_catalog_invocation`. -/
structure Walk where
  current : CommandCatalogNode
  remaining : Text
  chain : List CommandCatalogNode
  remainders : List Text

def Walk.step (w : Walk) : Walk ⊕ List CommandCatalogNode × List Text :=
  if w.remaining.isEmpty || w.current.children.isEmpty then .inr (w.chain,w.remainders)
  else
    match splitFirst w.remaining with
    | none => .inr (w.chain,w.remainders)
    | some (word,rest) =>
      match w.current.resolveChild casefold word with
      | none => .inr (w.chain,w.remainders)
      | some child =>
        if child.matchMode="exact".toList && !rest.isEmpty then .inr (w.chain,w.remainders)
        else .inl ⟨child,rest,w.chain++[child],w.remainders++[rest]⟩

theorem Walk.step_inl {w v : Walk} (h : w.step casefold=.inl v) :
    ∃word rest child,splitFirst w.remaining=some (word,rest) ∧
      w.current.resolveChild casefold word=some child ∧
      (child.matchMode="exact".toList → rest=[]) ∧
      v=⟨child,rest,w.chain++[child],w.remainders++[rest]⟩ := by
  unfold Walk.step at h
  split at h
  · cases h
  · split at h
    · cases h
    · rename_i word rest hsplit
      split at h
      · cases h
      · rename_i child hchild
        split at h
        · cases h
        · rename_i hexact
          refine ⟨word,rest,child,hsplit,hchild,?_,(Sum.inl.inj h).symm⟩
          intro hmode
          simpa [hmode] using hexact

theorem Walk.step_shorter (w v : Walk) (h : w.step casefold=.inl v) :
    v.remaining.length < w.remaining.length := by
  obtain ⟨word,rest,child,hsplit,_,_,rfl⟩ := Walk.step_inl casefold h
  exact splitFirst_length hsplit

def resolveCatalogInvocation (root : CommandCatalogNode) (args : Text) : CommandInvocation :=
  let remaining := strip args
  let found := loop (Walk.step casefold) (fun w => w.remaining.length) (Walk.step_shorter casefold)
    ⟨root,remaining,[root],[remaining]⟩
  ⟨root,found.1,found.2⟩

/-- The nodes a text names below a node, each with the text after it. -/
inductive Names : CommandCatalogNode → Text → List (CommandCatalogNode × Text) → Prop
  | stop {node text} : Names node text []
  | down {node text word rest before child after path} :
    splitFirst text=some (word,rest) → node.children=before++child::after →
    (∀other∈before,¬other.answers casefold word) → child.answers casefold word →
    (child.matchMode="exact".toList → rest=[]) → Names child rest path →
    Names node text ((child,rest)::path)

variable {casefold}

theorem resolveChild_eq_some {node child : CommandCatalogNode} {word : Text} :
    node.resolveChild casefold word=some child ↔
      ∃before after,node.children=before++child::after ∧
        (∀other∈before,¬other.answers casefold word) ∧ child.answers casefold word := by
  unfold CommandCatalogNode.resolveChild
  rw [List.find?_eq_some_iff_append]
  constructor
  · rintro ⟨hchild,before,after,he,hbefore⟩
    exact ⟨before,after,he,fun o ho => by simpa using hbefore o ho,hchild⟩
  · rintro ⟨before,after,he,hbefore,hchild⟩
    exact ⟨hchild,before,after,he,fun o ho => by simpa using hbefore o ho⟩

theorem Walk.step_inr {w : Walk} {found : List CommandCatalogNode × List Text}
    (h : w.step casefold=.inr found) :
    found=(w.chain,w.remainders) ∧ ∀path,Names casefold w.current w.remaining path → path=[] := by
  have hnames : ∀path,Names casefold w.current w.remaining path → path≠[] →
      ∃v,w.step casefold=.inl v := by
    intro path hpath hne
    cases hpath with
    | stop => exact absurd rfl hne
    | @down _ _ word rest before child after path hsplit hchildren hbefore hchild hexact _ =>
      have hresolve := resolveChild_eq_some.mpr ⟨before,after,hchildren,hbefore,hchild⟩
      have hremaining : w.remaining.isEmpty=false := by
        cases hr : w.remaining with
        | nil => rw [hr] at hsplit; cases hsplit
        | cons => rfl
      have hsome : w.current.children.isEmpty=false := by
        rw [hchildren]
        cases before <;> rfl
      have hgo : (child.matchMode="exact".toList && !rest.isEmpty)=false := by
        by_cases hmode : child.matchMode="exact".toList
        · rw [hexact hmode]
          exact Bool.and_false _
        · rw [decide_eq_false hmode,Bool.false_and]
      refine ⟨⟨child,rest,w.chain++[child],w.remainders++[rest]⟩,?_⟩
      unfold Walk.step
      rw [hremaining,hsome,hsplit]
      simp only [Bool.or_self,Bool.false_eq_true,if_false]
      rw [hresolve]
      simp only [hgo,Bool.false_eq_true,if_false]
  refine ⟨?_,?_⟩
  · unfold Walk.step at h
    repeat' split at h
    all_goals cases h
    all_goals rfl
  · intro path hpath
    by_contra hne
    obtain ⟨v,hv⟩ := hnames path hpath hne
    rw [hv] at h
    cases h

theorem Walk.loop_names (casefold : Text → Text) (w : Walk) :
    ∃path,Names casefold w.current w.remaining path ∧
      (∀other,Names casefold w.current w.remaining other → other <+: path) ∧
      loop (Walk.step casefold) (fun w => w.remaining.length) (Walk.step_shorter casefold) w=
        (w.chain++path.map Prod.fst,w.remainders++path.map Prod.snd) := by
  refine loop_induction (P:=fun w found => ∃path,Names casefold w.current w.remaining path ∧
    (∀other,Names casefold w.current w.remaining other → other <+: path) ∧
    found=(w.chain++path.map Prod.fst,w.remainders++path.map Prod.snd)) ?_ ?_ w
  · intro w found h
    obtain ⟨hfound,hnone⟩ := Walk.step_inr h
    refine ⟨[],.stop,?_,by simpa using hfound⟩
    intro other hother
    simp [hnone other hother]
  · intro w v found h ⟨path,hpath,hlongest,hfound⟩
    obtain ⟨word,rest,child,hsplit,hresolve,hexact,rfl⟩ := Walk.step_inl casefold h
    obtain ⟨before,after,hchildren,hbefore,hchild⟩ := resolveChild_eq_some.mp hresolve
    refine ⟨(child,rest)::path,.down hsplit hchildren hbefore hchild hexact hpath,?_,?_⟩
    · intro other hother
      cases hother with
      | stop => exact List.nil_prefix
      | down hsplit' hchildren' hbefore' hchild' _ hpath' =>
        rw [hsplit] at hsplit'
        cases hsplit'
        have hsame := resolveChild_eq_some.mpr ⟨_,_,hchildren',hbefore',hchild'⟩
        rw [hresolve] at hsame
        cases hsame
        exact List.cons_prefix_cons.mpr ⟨rfl,hlongest _ hpath'⟩
    · rw [hfound]
      simp

variable {text : Text}

variable {node : CommandCatalogNode}

variable {path : List (CommandCatalogNode × Text)}

theorem Names.chain (h : Names casefold node text path) :
    (node::path.map Prod.fst).IsChain Child := by
  induction h with
  | stop => exact List.IsChain.singleton _
  | @down node _ _ _ before child after path _ hchildren _ _ _ _ ih =>
    have hchild : Child node child := by
      rw [Child,hchildren]
      exact List.mem_append_right _ List.mem_cons_self
    exact List.isChain_cons_cons.mpr ⟨hchild,ih⟩

theorem Names.suffixes (h : Names casefold node text path) :
    (text::path.map Prod.snd).IsChain (fun a b => b <:+ a) := by
  induction h with
  | stop => exact List.IsChain.singleton _
  | down hsplit _ _ _ _ _ ih => exact List.isChain_cons_cons.mpr ⟨splitFirst_suffix hsplit,ih⟩

theorem Names.descends (h : Names casefold node text path) :
    ∀d∈path.map Prod.fst,Descends node d := by
  have hpairs := (h.chain.imp (fun a b hab => Relation.ReflTransGen.single hab)).pairwise
    (R:=Descends)
  exact (List.pairwise_cons.mp hpairs).1

structure Finds (casefold : Text → Text) (start : CommandCatalogNode) (text : Text)
    (found : CommandInvocation) (path : List (CommandCatalogNode × Text)) : Prop where
  root : found.root=start
  chain : found.chain=start::path.map Prod.fst
  remainders : found.remainders=text::path.map Prod.snd
  edges : found.chain.IsChain Child
  suffixes : found.remainders.IsChain (fun a b => b <:+ a)
  named : Names casefold start text path
  deepest : ∀other,Names casefold start text other → other <+: path

theorem resolveCatalogInvocation_finds (casefold : Text → Text) (root : CommandCatalogNode)
    (text : Text) :
    ∃path,Finds casefold root (strip text) (resolveCatalogInvocation casefold root text) path := by
  obtain ⟨path,hpath,hlongest,hfound⟩ :=
    Walk.loop_names casefold ⟨root,strip text,[root],[strip text]⟩
  have hchain : (resolveCatalogInvocation casefold root text).chain=root::path.map Prod.fst :=
    congrArg Prod.fst hfound
  have hremainders : (resolveCatalogInvocation casefold root text).remainders=
      strip text::path.map Prod.snd := congrArg Prod.snd hfound
  exact ⟨path,rfl,hchain,hremainders,hchain ▸ hpath.chain,hremainders ▸ hpath.suffixes,hpath,
    hlongest⟩

/-! Access along the way down -/

theorem Finds.above {start : CommandCatalogNode} {found : CommandInvocation} (h : Finds casefold start text found path) :
    ∀node∈found.chain.getLast?,∀a∈found.chain,Descends start a ∧ Descends a node := by
  have hpairs : found.chain.Pairwise Descends :=
    (h.edges.imp (fun _ _ hab => Relation.ReflTransGen.single hab)).pairwise
  intro node hnode a ha
  constructor
  · rw [h.chain] at ha
    rcases List.mem_cons.mp ha with rfl | ha
    · exact .refl
    · exact h.named.descends a ha
  · obtain ⟨before,hbefore⟩ := List.getLast?_eq_some_iff.mp hnode
    rw [hbefore] at ha hpairs
    rcases List.mem_append.mp ha with ha | ha
    · exact (List.pairwise_append.mp hpairs).2.2 a ha node List.mem_cons_self
    · rw [List.mem_singleton.mp ha]

theorem Finds.remainder_suffix {start : CommandCatalogNode}
    {found : CommandInvocation}
    (h : Finds casefold start text found path) : ∀r∈found.remainders,r <:+ text := by
  have htrans : Trans (fun a b : Text => b <:+ a) (fun a b => b <:+ a) (fun a b => b <:+ a) :=
    ⟨fun hab hbc => List.IsSuffix.trans hbc hab⟩
  have hpairs : found.remainders.Pairwise (fun a b => b <:+ a) := h.suffixes.pairwise
  rw [h.remainders] at hpairs ⊢
  intro r hr
  rcases List.mem_cons.mp hr with rfl | hr
  · exact List.suffix_refl _
  · exact (List.pairwise_cons.mp hpairs).1 r hr

/-- A catalog whose commands never ask for less, nor are open in more chats, than those above them,
and in which a text finds the way down that it names. -/
structure Monotone (casefold : Text → Text) (root : CommandCatalogNode) : Prop where
  contexts : ∀a d,Descends root a → Descends a d → d.contexts ⊆ a.contexts
  access : ∀a d,Descends root a → Descends a d → ∀principal isBotAdmin,
    commandAccess d principal isBotAdmin=none → commandAccess a principal isBotAdmin=none
  finds : ∀text,∃path,
    Finds casefold root (strip text) (resolveCatalogInvocation casefold root text) path
  suffixes : ∀text,∀r∈(resolveCatalogInvocation casefold root text).remainders,r <:+ strip text
  granted : ∀text,∀node∈(resolveCatalogInvocation casefold root text).chain.getLast?,
    ∀principal isBotAdmin,commandAccess node principal isBotAdmin=none →
      ∀a∈(resolveCatalogInvocation casefold root text).chain,
        commandAccess a principal isBotAdmin=none

theorem monotone_of_inherits {root : CommandCatalogNode} (h : Inherits root) :
    Monotone casefold root where
  contexts _ _ ha hd := (h.narrows ha hd).contexts
  access _ _ ha hd _ _ := (h.narrows ha hd).access
  finds := resolveCatalogInvocation_finds casefold root
  suffixes text := by
    obtain ⟨path,hpath⟩ := resolveCatalogInvocation_finds casefold root text
    exact hpath.remainder_suffix
  granted text node hnode principal isBotAdmin hgranted a ha := by
    obtain ⟨path,hpath⟩ := resolveCatalogInvocation_finds casefold root text
    obtain ⟨hroot,hbelow⟩ := hpath.above node hnode a ha
    exact (h.narrows hroot hbelow).access hgranted

/-- Every catalog the builder accepts is monotone, whatever it is built below. -/
theorem built_catalog_monotone (casefold : Text → Text) {pluginName : Text}
    {codePath path : List Text} {permission : Permission} {contexts : List ChatContext}
    {root : Bool} {command : CommandManifest} {node : CommandCatalogNode}
    (h : buildCommandCatalogNode pluginName codePath path permission contexts root command=
      .ok node) : Monotone casefold node :=
  monotone_of_inherits (inherits_of_build h)

/-- The catalog of `/choice` as its manifest declares it. -/
def choiceCommand : CommandManifest :=
  { name := "choice".toList
    triggers := ["choice".toList,"决定".toList,"选择".toList,"抽奖".toList]
    aliases := []
    help := "随机选择".toList
    usage := some "/选择 <问题> <选项1> <选项2> [...] [-n 1-10] [-u]".toList
    matchMode := none
    permission := none
    contexts := none
    examples := ["/选择 晚饭 米饭 面条".toList]
    invalidExamples := ["/选择 晚饭 A B -n 0".toList]
    subcommands := [
      { name := "help".toList
        triggers := []
        aliases := ["帮助".toList]
        help := "显示随机选择的参数与抽样规则".toList
        usage := some "/选择 help".toList
        matchMode := some "exact".toList
        permission := none
        contexts := none
        examples := ["/选择 help".toList]
        invalidExamples := ["/选择 help extra".toList]
        subcommands := [] }] }

def lower (t : Text) : Text := t.map Char.toLower

theorem choice_catalog_monotone :
    ∃node,buildRoot "choice".toList choiceCommand=.ok node ∧ Monotone lower node :=
  ⟨_,rfl,built_catalog_monotone lower (show buildRoot "choice".toList choiceCommand=_ from rfl)⟩

/-- The space at the end of a text is gone from all remainders. -/
theorem last_space_is_dropped :
    ∃node,buildRoot "choice".toList choiceCommand=.ok node ∧
      ¬∀r∈(resolveCatalogInvocation lower node "a ".toList).remainders,r <:+ "a ".toList := by
  refine ⟨_,rfl,fun h => ?_⟩
  obtain ⟨path,hpath⟩ := resolveCatalogInvocation_finds lower _ "a ".toList
  have hsuffix := h _ (hpath.remainders ▸ List.mem_cons_self)
  revert hsuffix
  decide

end

end

section

/-! `shlex.split(text, posix=True)` -/

def shlexSpaces : List Char := [' ','\t','\r','\n']

def isQuote (c : Char) : Bool := c = '\'' || c = '"'

/-- The states of the lexer; `escape` remembers the state it goes back to. -/
inductive LexState where
  | blank
  | word
  | quote (mark : Char)
  | escape (back : Option Char)

def LexState.back : Option Char → LexState
  | none => .word
  | some mark => .quote mark

def emit (token : Text) (quoted : Bool) : List Text :=
  if token.isEmpty && !quoted then [] else [token]

/-- `shlex.shlex.read_token`, over the whole text; `none` where it raises `ValueError`. -/
def readTokens : LexState → Text → Bool → Text → Option (List Text)
  | .blank,_,_,[] => some []
  | .word,token,quoted,[] => some (emit token quoted)
  | .quote _,_,_,[] => none
  | .escape _,_,_,[] => none
  | .blank,token,quoted,c::t =>
    if c∈shlexSpaces then readTokens .blank token quoted t
    else if c = '\\' then readTokens (.escape none) token quoted t
    else if isQuote c then readTokens (.quote c) token true t
    else readTokens .word [c] quoted t
  | .word,token,quoted,c::t =>
    if c∈shlexSpaces then (readTokens .blank [] false t).map (emit token quoted++·)
    else if isQuote c then readTokens (.quote c) token true t
    else if c = '\\' then readTokens (.escape none) token quoted t
    else readTokens .word (token++[c]) quoted t
  | .quote mark,token,quoted,c::t =>
    if c=mark then readTokens .word token quoted t
    else if c = '\\' && mark = '"' then readTokens (.escape (some mark)) token quoted t
    else readTokens (.quote mark) (token++[c]) quoted t
  | .escape back,token,quoted,c::t =>
    -- within quotes the backslash stays unless it stands before itself or the quote
    if back.isSome && c≠ '\\' && some c≠back then readTokens (.back back) (token++['\\',c]) quoted t
    else readTokens (.back back) (token++[c]) quoted t

theorem readTokens_word_nil (token : Text) (quoted : Bool) :
    readTokens .word token quoted []=some (emit token quoted) := by
  rw [readTokens]

def shlexSplit (t : Text) : Option (List Text) := readTokens .blank [] false t

def wordsFrom : Text → Text → List Text
  | word,[] => emit word false
  | word,c::t => if isSpace c then emit word false++wordsFrom [] t else wordsFrom (word++[c]) t

/-- `text.split()`. -/
def words (t : Text) : List Text := wordsFrom [] t

/-- `tokenize`, not strict. -/
def tokenize (t : Text) : List Text := (shlexSplit t).getD (words t)

/-! Options -/

def isAsciiLetter (c : Char) : Bool :=
  (decide ('A' ≤ c) && decide (c ≤ 'Z')) || (decide ('a' ≤ c) && decide (c ≤ 'z'))

def isAsciiDigit (c : Char) : Bool := decide ('0' ≤ c) && decide (c ≤ '9')

def isOptionChar (c : Char) : Bool := isAsciiLetter c || isAsciiDigit c || c = '_' || c = '-'

/-- `_LONG_OPTION_PATTERN` after the two dashes; a line break ends no pattern. -/
def isLongOptionBody : Text → Bool
  | [] => false
  | c::t =>
    isAsciiLetter c &&
      match t.dropWhile isOptionChar with
      | [] => true
      | d::value => d = '=' && value.all (· ≠ '\n')

def isOptionToken : Text → Bool
  | ['-',c] => isAsciiLetter c
  | '-':: '-'::body => isLongOptionBody body
  | _ => false

def optionBody : Text → Text
  | '-':: '-'::body => body
  | _::body => body
  | [] => []

def flagValue : Text := "true".toList

/-- `options[key] = value`. -/
def setOption (key value : Text) : List (Text × Text) → List (Text × Text)
  | [] => [(key,value)]
  | (k,v)::rest => if k=key then (key,value)::rest else (k,v)::setOption key value rest

structure ParsedArgs where
  raw : Text
  tokens : List Text
  options : List (Text × Text)

namespace ParsedArgs

def get (p : ParsedArgs) (index : Nat) : Text := p.tokens.getD index []

def first (p : ParsedArgs) : Text := p.get 0

def rest (p : ParsedArgs) (start : Nat) : Text := join ' ' (p.tokens.drop start)

end ParsedArgs

/-- The loop of `parse`: whether options still count, the tokens ahead, and what is found. -/
def parseLoop : Bool → List Text → List Text → List (Text × Text) → List Text × List (Text × Text)
  | _,[],args,options => (args,options)
  | false,token::rest,args,options => parseLoop false rest (args++[token]) options
  | true,token::rest,args,options =>
    if token=['-','-'] then parseLoop false rest args options
    else if isOptionToken token then
      let body := optionBody token
      let key := body.takeWhile (· ≠ '=')
      match body.dropWhile (· ≠ '=') with
      | _::value => parseLoop true rest args (setOption key value options)
      | [] =>
        match rest with
        | [] => (args,setOption key flagValue options)
        | next::later =>
          if next≠['-','-'] && !isOptionToken next then
            parseLoop true later args (setOption key next options)
          else parseLoop true (next::later) args (setOption key flagValue options)
    else parseLoop true rest (args++[token]) options

def parse (raw : Text) : ParsedArgs :=
  let found := parseLoop true (tokenize raw) [] []
  ⟨raw,found.1,found.2⟩

end

end XiaoQing.Commands
