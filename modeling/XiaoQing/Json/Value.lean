import Mathlib.Algebra.Group.Defs
import XiaoQing.Json.Lexical
import Mathlib.Algebra.GroupWithZero.Nat

namespace XiaoQing.Json

/-- `JsonLimits`, with what `__post_init__` checks. -/
structure JsonLimits where
  maxBytes : Nat
  maxDepth : Nat
  maxNodes : Nat
  maxStringChars : Nat
  maxNumberChars : Nat
  bytesPos : 0 < maxBytes
  depthPos : 0 < maxDepth
  nodesPos : 0 < maxNodes
  stringCharsPos : 0 < maxStringChars
  numberCharsPos : 0 < maxNumberChars

def defaultLimits : JsonLimits :=
  ⟨4*1024*1024,32,20000,256000,4096,by decide,by decide,by decide,by decide,by decide⟩

/-- What `json.loads` depends on besides its text: `sys.get_int_max_str_digits()`, where 0 is no
limit, and the number of containers it can nest before `RecursionError`. -/
structure Interpreter where
  maxStrDigits : Nat
  recursionLimit : Nat

/-- A parsed value; a number keeps its text and a string its characters as they were written. -/
inductive Value
  | null
  | bool (b : Bool)
  | number (isFloat : Bool) (lexeme : Text)
  | str (units : List Nat)
  | arr (items : List Value)
  | obj (members : List (List Nat × Value))
deriving Repr

def literals : List (Text × Value) :=
  [(['n','u','l','l'],.null),(['t','r','u','e'],.bool true),(['f','a','l','s','e'],.bool false)]

def constants : List Text :=
  [['N','a','N'],['I','n','f','i','n','i','t','y'],['-','I','n','f','i','n','i','t','y']]

/-- Number of nodes, deepest nesting, characters of strings, and longest number. -/
structure Size where
  nodes : Nat
  depth : Nat
  chars : Nat
  longest : Nat
deriving DecidableEq, Repr

namespace Size

instance : Add Size :=
  ⟨fun a b => ⟨a.nodes+b.nodes,max a.depth b.depth,a.chars+b.chars,max a.longest b.longest⟩⟩

instance : Zero Size := ⟨⟨0,0,0,0⟩⟩

section

variable (a b c : Size)

@[simp] theorem add_nodes : (a+b).nodes=a.nodes+b.nodes := rfl
@[simp] theorem add_depth : (a+b).depth=max a.depth b.depth := rfl
@[simp] theorem add_chars : (a+b).chars=a.chars+b.chars := rfl
@[simp] theorem add_longest : (a+b).longest=max a.longest b.longest := rfl
@[simp] theorem zero_nodes : (0 : Size).nodes=0 := rfl
@[simp] theorem zero_depth : (0 : Size).depth=0 := rfl
@[simp] theorem zero_chars : (0 : Size).chars=0 := rfl
@[simp] theorem zero_longest : (0 : Size).longest=0 := rfl

end

@[ext] theorem ext {a b : Size} (hn : a.nodes=b.nodes) (hd : a.depth=b.depth)
    (hc : a.chars=b.chars) (hl : a.longest=b.longest) : a=b := by
  cases a
  cases b
  cases hn
  cases hd
  cases hc
  cases hl
  rfl

instance : AddCommMonoid Size where
  add_assoc a b c := by ext <;> simp [Nat.add_assoc,Nat.max_assoc]
  zero_add a := by ext <;> simp
  add_zero a := by ext <;> simp
  add_comm a b := by ext <;> simp [Nat.add_comm,Nat.max_comm]
  nsmul := nsmulRec

structure Le (a b : Size) : Prop where
  nodes : a.nodes≤b.nodes
  depth : a.depth≤b.depth
  chars : a.chars≤b.chars
  longest : a.longest≤b.longest

structure Fits (limits : JsonLimits) (a : Size) : Prop where
  nodes : a.nodes≤limits.maxNodes
  depth : a.depth≤limits.maxDepth
  chars : a.chars≤limits.maxStringChars
  longest : a.longest≤limits.maxNumberChars

variable {a b c : Size} {limits : JsonLimits}

theorem Le.refl (a : Size) : Le a a := ⟨Nat.le_refl _,Nat.le_refl _,Nat.le_refl _,Nat.le_refl _⟩

theorem Le.trans (h : Le a b) (h' : Le b c) : Le a c :=
  ⟨h.1.trans h'.1,h.2.trans h'.2,h.3.trans h'.3,h.4.trans h'.4⟩

theorem le_add (a b : Size) : Le a (a+b) :=
  ⟨Nat.le_add_right _ _,Nat.le_max_left _ _,Nat.le_add_right _ _,Nat.le_max_left _ _⟩

theorem Fits.le (h : b.Fits limits) (hle : Le a b) : a.Fits limits :=
  ⟨hle.1.trans h.1,hle.2.trans h.2,hle.3.trans h.3,hle.4.trans h.4⟩

end Size

mutual

/-- The size of a value, from what each value and each key adds at its depth. -/
def Value.tally (own : Nat → Value → Size) (key : List Nat → Size) (depth : Nat) : Value → Size
  | .arr items => own depth (.arr items)+tallyItems own key (depth+1) items
  | .obj members => own depth (.obj members)+tallyMembers own key (depth+1) members
  | v => own depth v

def tallyItems (own : Nat → Value → Size) (key : List Nat → Size) (depth : Nat) :
    List Value → Size
  | [] => 0
  | v::vs => v.tally own key depth+tallyItems own key depth vs

def tallyMembers (own : Nat → Value → Size) (key : List Nat → Size) (depth : Nat) :
    List (List Nat × Value) → Size
  | [] => 0
  | (k,v)::ms => key k+v.tally own key depth+tallyMembers own key depth ms

end

section

variable {own : Nat → Value → Size} {key : List Nat → Size} {depth : Nat}

theorem tallyItems_append (vs ws : List Value) :
    tallyItems own key depth (vs++ws)=tallyItems own key depth vs+tallyItems own key depth ws := by
  induction vs with
  | nil => simp [tallyItems]
  | cons v vs ih => simp [tallyItems,ih,add_assoc]

theorem tallyMembers_append (ms ns : List (List Nat × Value)) :
    tallyMembers own key depth (ms++ns)=
      tallyMembers own key depth ms+tallyMembers own key depth ns := by
  induction ms with
  | nil => simp [tallyMembers]
  | cons m ms ih => simp [tallyMembers,ih,add_assoc]

end

def ownWritten (depth : Nat) : Value → Size
  | .number _ t => ⟨1,0,0,t.length⟩
  | .str us => ⟨1,0,us.length,0⟩
  | .arr _ => ⟨1,depth+1,0,0⟩
  | .obj _ => ⟨1,depth+1,0,0⟩
  | _ => ⟨1,0,0,0⟩

def keyWritten (k : List Nat) : Size := ⟨1,0,k.length,0⟩

/-- The size of a value as its text shows it, in the given number of containers. -/
def Value.written (depth : Nat) (v : Value) : Size := v.tally ownWritten keyWritten depth

/-- What a value adds once it is parsed: every value is one deeper than its container. -/
def ownParsed (depth : Nat) : Value → Size
  | .str us => ⟨1,depth,(joinSurrogates us).length,0⟩
  | _ => ⟨1,depth,0,0⟩

def keyParsed (k : List Nat) : Size := ⟨1,0,(joinSurrogates k).length,0⟩

def Value.parsed (depth : Nat) (v : Value) : Size := v.tally ownParsed keyParsed depth

/-- The two sizes count the same nodes and differ by at most one in their depth. -/
structure Compares (depth : Nat) (written parsed : Size) : Prop where
  nodes : written.nodes=parsed.nodes
  lower : written.depth≤parsed.depth
  upper : parsed.depth ≤ max (depth+1) (written.depth+1)
  chars : parsed.chars≤written.chars
  longest : parsed.longest≤written.longest

theorem Compares.zero (depth : Nat) : Compares depth 0 0 :=
  ⟨rfl,by simp,by simp,by simp,by simp⟩

theorem Compares.add {depth : Nat} {a b c d : Size} (h : Compares depth a b)
    (h' : Compares depth c d) : Compares depth (a+c) (b+d) := by
  obtain ⟨h₁,h₂,h₃,h₄,h₅⟩ := h
  obtain ⟨h₁',h₂',h₃',h₄',h₅'⟩ := h'
  constructor <;> simp only [Size.add_nodes,Size.add_depth,Size.add_chars,Size.add_longest] <;> omega

theorem Compares.key (depth : Nat) (k : List Nat) : Compares depth (keyWritten k) (keyParsed k) :=
  ⟨rfl,Nat.le_refl _,Nat.zero_le _,joinSurrogates_length k,Nat.le_refl _⟩

theorem Compares.container {depth : Nat} {a b : Size} (h : Compares (depth+1) a b) :
    Compares depth (⟨1,depth+1,0,0⟩+a) (⟨1,depth+1,0,0⟩+b) := by
  obtain ⟨h₁,h₂,h₃,h₄,h₅⟩ := h
  constructor <;> simp only [Size.add_nodes,Size.add_depth,Size.add_chars,Size.add_longest] <;> omega

mutual

theorem Value.compares (depth : Nat) : ∀v : Value,
    Compares depth (v.written depth) (v.parsed (depth+1))
  | .null => ⟨rfl,Nat.zero_le _,Nat.le_max_left _ _,Nat.le_refl _,Nat.le_refl _⟩
  | .bool _ => ⟨rfl,Nat.zero_le _,Nat.le_max_left _ _,Nat.le_refl _,Nat.le_refl _⟩
  | .number _ _ => ⟨rfl,Nat.zero_le _,Nat.le_max_left _ _,Nat.le_refl _,Nat.zero_le _⟩
  | .str us => ⟨rfl,Nat.zero_le _,Nat.le_max_left _ _,joinSurrogates_length us,Nat.le_refl _⟩
  | .arr items => (tallyItems_compares (depth+1) items).container
  | .obj members => (tallyMembers_compares (depth+1) members).container

theorem tallyItems_compares (depth : Nat) : ∀vs : List Value,
    Compares depth (tallyItems ownWritten keyWritten depth vs)
      (tallyItems ownParsed keyParsed (depth+1) vs)
  | [] => .zero depth
  | v::vs => (v.compares depth).add (tallyItems_compares depth vs)

theorem tallyMembers_compares (depth : Nat) : ∀ms : List (List Nat × Value),
    Compares depth (tallyMembers ownWritten keyWritten depth ms)
      (tallyMembers ownParsed keyParsed (depth+1) ms)
  | [] => .zero depth
  | (k,v)::ms => ((Compares.key depth k).add (v.compares depth)).add
      (tallyMembers_compares depth ms)

end

def digitsValue (t : Text) : Nat := t.foldl (fun n c => n*10+hexDigit c) 0

def exponentValue : Text → Int
  | [] => 0
  | _::t =>
    let (sign,ds) := matchSign t
    if sign = ['-'] then -(digitsValue ds : Int) else digitsValue ds

/-- `math.isfinite(float(t))`: what is at least halfway from the largest double to the next power
of two rounds to infinity. -/
def isFinite (t : Text) : Bool :=
  let t := (matchMinus t).2
  let after := t.dropWhile isDigit
  let fraction := (matchFraction after).1.drop 1
  let mantissa := digitsValue (t.takeWhile isDigit++fraction)
  let exponent := exponentValue (matchFraction after).2-fraction.length
  if 0≤exponent then decide (mantissa*10^exponent.toNat < 2^1024-2^970)
  else decide (mantissa < (2^1024-2^970)*10^(-exponent).toNat)

/-- `int(t)` does not exceed the limit for the conversion. -/
def intFits (interp : Interpreter) (t : Text) : Bool :=
  interp.maxStrDigits = 0 || decide ((matchMinus t).2.length ≤ interp.maxStrDigits)

def numberFits (interp : Interpreter) (isFloat : Bool) (t : Text) : Bool :=
  if isFloat then isFinite t else intFits interp t

/-- Numbers are finite and converted, and no object has a key twice. -/
inductive Value.Clean (interp : Interpreter) : Value → Prop
  | null : Clean interp .null
  | bool (b : Bool) : Clean interp (.bool b)
  | number (isFloat : Bool) (t : Text) : numberFits interp isFloat t=true →
      Clean interp (.number isFloat t)
  | str (us : List Nat) : Clean interp (.str us)
  | arr (items : List Value) : (∀v∈items,Clean interp v) → Clean interp (.arr items)
  | obj (members : List (List Nat × Value)) :
      (members.map (fun m => joinSurrogates m.1)).Nodup → (∀m∈members,Clean interp m.2) →
      Clean interp (.obj members)

end XiaoQing.Json
