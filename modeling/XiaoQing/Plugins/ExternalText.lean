import XiaoQing.Commands.CommandRouter

namespace XiaoQing.Plugins

open Commands

abbrev CodePoint := Fin 0x110000

abbrev RawText := List CodePoint

def escapeCode : Nat := 0x1B

def between (low high : Nat) (c : CodePoint) : Bool := decide (low≤c.val) && decide (c.val≤high)

/-! `_EXTERNAL_ANSI_PATTERN` -/

/-- What comes up to the end of the last `ESC \` of a text. -/
def lastTerminator : RawText → Option Nat
  | [] => none
  | c::t =>
    match lastTerminator t with
    | some n => some (n+1)
    | none => if c.val=escapeCode∧t.head?.any (fun b => decide (b.val=0x5C)) then some 2 else none

/-- The match of `\x1b\][^\x07]*(?:\x07|\x1b\\)` after its first two characters. -/
def commandLength (t : RawText) : Option Nat :=
  let run := t.takeWhile fun c => decide (c.val≠7)
  if run.length<t.length then some (run.length+1) else lastTerminator run

/-- The match of `\x1b\[[0-?]*[ -\x2f]*[@-~]` after its first two characters. -/
def controlLength (t : RawText) : Option Nat :=
  let parameters := t.takeWhile (between 0x30 0x3F)
  let middle := (t.drop parameters.length).takeWhile (between 0x20 0x2F)
  match t.drop (parameters.length+middle.length) with
  | last::_ => if between 0x40 0x7E last then some (parameters.length+middle.length+1) else none
  | [] => none

def ansiLength : RawText → Option Nat
  | c::b::t =>
    if c.val≠escapeCode then none
    else if b.val=0x5D then (commandLength t).map (·+2)
    else if b.val=0x5B then (controlLength t).map (·+2)
    else none
  | _ => none

/-- `_EXTERNAL_ANSI_PATTERN.sub("", …)`; the number counts the characters of a match still to skip. -/
def removeAnsi : Nat → RawText → RawText
  | _,[] => []
  | n+1,_::t => removeAnsi n t
  | 0,c::t =>
    match ansiLength (c::t) with
    | some n => removeAnsi (n-1) t
    | none => c::removeAnsi 0 t

/-! `_normalize_external_text` -/

/-- `value.replace("\r\n", "\n").replace("\r", "\n")` -/
def unifyLines : RawText → RawText
  | [] => []
  | [c] => [if c.val=13 then 10 else c]
  | c::b::t =>
    if c.val=13∧b.val=10 then 10::unifyLines t
    else (if c.val=13 then 10 else c)::unifyLines (b::t)

/-- `_EXTERNAL_CONTROL_PATTERN` -/
def isExternalControl (c : CodePoint) : Bool :=
  between 0 8 c || between 0x0B 0x0C c || between 0x0E 0x1F c || between 0x7F 0x9F c

def replaceControl (c : CodePoint) : CodePoint := if isExternalControl c then 32 else c

/-- `.encode("utf-8", errors="replace").decode("utf-8")` of one character. -/
def replaceSurrogate (c : CodePoint) : Char := if between 0xD800 0xDFFF c then '?' else Char.ofNat c.val

def normalizeExternalText (value : RawText) (stripAnsi stripSpace : Bool) : Text :=
  let normalized := unifyLines value
  let normalized := if stripAnsi then removeAnsi 0 normalized else normalized
  let normalized := (normalized.map replaceControl).map replaceSurrogate
  if stripSpace then strip normalized else normalized

/-! `_utf8_prefix` -/

/-- `len(value.encode("utf-8"))` -/
def byteLength (t : Text) : Nat := (t.map Char.utf8Size).sum

def utf8PrefixLength (value : Text) (maxBytes low high : Nat) : Nat :=
  if low<high then
    let middle := (low+high+1)/2
    if byteLength (value.take middle) ≤ maxBytes then utf8PrefixLength value maxBytes middle high
    else utf8PrefixLength value maxBytes low (middle-1)
  else low
termination_by high-low

def utf8Prefix (value : Text) (maxBytes : Nat) : Text :=
  if byteLength value ≤ maxBytes then value
  else value.take (utf8PrefixLength value maxBytes 0 value.length)

/-! `bounded_external_text` -/

/-- The values that are told apart; a finite float comes with its `str`. -/
inductive ExternalValue
  | str (text : RawText)
  | int (n : Int)
  | float (text : Option RawText)
  | bool (b : Bool)
  | other

inductive ExternalTextError
  | maxChars
  | maxBytes
  | notStrings
  | intDigits

/-- The digits of an integer that `str` writes at most. -/
def maxStrDigits : Nat := 4300

def codePoint (c : Char) : CodePoint := ⟨c.toNat,by
  have h := c.valid
  rcases h with h | h
  · exact Nat.lt_trans h (by decide)
  · exact h.2⟩

/-- `str(value)`, or `none` for the values that are rejected. -/
def ExternalValue.text : ExternalValue → Except ExternalTextError (Option RawText)
  | .str text => .ok (some text)
  | .int n => if 10^maxStrDigits≤n.natAbs then .error .intDigits else .ok (some ((toString n).toList.map codePoint))
  | .float text => .ok text
  | .bool _ => .ok none
  | .other => .ok none

/-- The normalized text, or the default where a value is rejected or nothing is left of it. -/
def candidateText (text : Option RawText) (fallback : Text) (stripAnsi stripSpace : Bool) : Text :=
  match text with
  | none => fallback
  | some text =>
    let candidate := normalizeExternalText text stripAnsi stripSpace
    if candidate.isEmpty then fallback else candidate

def within (maxChars maxBytes : Nat) (t : Text) : Bool :=
  decide (t.length ≤ maxChars) && decide (byteLength t ≤ maxBytes)

def boundText (candidate fallback : Text) (suffix : RawText) (maxChars maxBytes : Nat) (truncate : Bool) : Text :=
  if within maxChars maxBytes candidate then candidate
  else if !truncate && within maxChars maxBytes fallback then fallback
  else
    let candidate := if truncate then candidate else fallback
    let boundedSuffix := normalizeExternalText suffix true false
    let boundedSuffix := utf8Prefix (boundedSuffix.take maxChars) maxBytes
    utf8Prefix (candidate.take (maxChars-boundedSuffix.length)) (maxBytes-byteLength boundedSuffix)++boundedSuffix

/-- `bounded_external_text`; a budget is `none` where it is no integer, a text where it is no string. -/
def boundedExternalText (value : ExternalValue) (maxChars maxBytes : Option Int)
    (default suffix : Option RawText) (stripAnsi stripSpace truncate : Bool) : Except ExternalTextError Text :=
  if maxChars.all fun n => decide (n≤0) then .error .maxChars
  else if maxBytes.all fun n => decide (n≤0) then .error .maxBytes
  else
    match default,suffix with
    | some default,some suffix => do
      let fallback := normalizeExternalText default stripAnsi stripSpace
      let text ← value.text
      let candidate := candidateText text fallback stripAnsi stripSpace
      .ok (boundText candidate fallback suffix (maxChars.getD 0).toNat (maxBytes.getD 0).toNat truncate)
    | _,_ => .error .notStrings

/-! The budget in bytes -/

section

variable {t l r : Text} {maxBytes maxChars low high : Nat}

end

/-! What normalizing leaves -/

/-- Neither a control character of C0 or C1, but for tab and newline, nor DEL. -/
def Visible (c : Char) : Prop := c.toNat=9∨c.toNat=10∨(32≤c.toNat∧¬(127≤c.toNat∧c.toNat≤159))

section

variable {t : RawText} {c : CodePoint} {n : Nat}

end

structure Bounded (maxChars maxBytes : Int) (input : Option Text) (out : Text) : Prop where
  chars : (out.length : Int) ≤ maxChars
  bytes : (out.utf8Encode.size : Int) ≤ maxBytes
  utf8 : out.utf8Encode.IsValidUTF8
  visible : ∀c∈out,Visible c
  whole : ∀t,input=some t → t≠[] → (t.length : Int) ≤ maxChars → (t.utf8Encode.size : Int) ≤ maxBytes → out=t

end XiaoQing.Plugins
