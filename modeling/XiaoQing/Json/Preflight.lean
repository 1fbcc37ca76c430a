import XiaoQing.Framework.Effects
import XiaoQing.Framework.Run
import XiaoQing.Json.Value

namespace XiaoQing.Json

open XiaoQing.Framework

/-- `ResponseLimitError` and `ResponseFormatError`. -/
inductive JsonError
  | limit (message : String)
  | format (message : String)
deriving DecidableEq, Repr

def tooDeep : JsonError := .limit "JSON response is too deeply nested"
def tooManyNodes : JsonError := .limit "JSON response has too many nodes"
def stringsTooLarge : JsonError := .limit "JSON response strings are too large"
def nonFinite : JsonError := .format "non-finite JSON number is not allowed"

def addNode (limits : JsonLimits) (nodes : Nat) : Except JsonError Nat :=
  if nodes+1 > limits.maxNodes then .error tooManyNodes else .ok (nodes+1)

/-- The letters that may follow a backslash, besides `u`. -/
def escapes : List Char := [ '"','\\','/','b','f','n','r','t']

def scanString (limits : JsonLimits) (chars : Nat) : Text → Except JsonError (Text × Nat)
  | [] => .error (.format "unterminated JSON string")
  | c::rest =>
    if c = '"' then .ok (rest,chars)
    else if c.toNat < 32 then .error (.format "invalid control character in JSON string")
    else if c = '\\' then
      match rest with
      | [] => .error (.format "invalid JSON escape")
      | e::rest =>
        if e = 'u' then
          match rest with
          | h₁::h₂::h₃::h₄::rest =>
            if isHex h₁ && isHex h₂ && isHex h₃ && isHex h₄ then
              if chars+1 > limits.maxStringChars then .error stringsTooLarge
              else scanString limits (chars+1) rest
            else .error (.format "invalid JSON unicode escape")
          | _ => .error (.format "invalid JSON unicode escape")
        else if e∉escapes then .error (.format "invalid JSON escape")
        else if chars+1 > limits.maxStringChars then .error stringsTooLarge
        else scanString limits (chars+1) rest
    else if chars+1 > limits.maxStringChars then .error stringsTooLarge
    else scanString limits (chars+1) rest

def numberStarts : List Char := ['-','0','1','2','3','4','5','6','7','8','9']

def checkToken (limits : JsonLimits) (token : Text) : Except JsonError Unit :=
  if token∈literals.map Prod.fst then .ok ()
  else if token∈constants then .error nonFinite
  else if token.head?.all (· ∉ numberStarts) then .error (.format "invalid JSON token")
  else if token.length > limits.maxNumberChars then .error (.limit "JSON number token is too large")
  else .ok ()

/-- The state of `_preflight_json`: the text from `index` on, and what it counts. -/
structure Scan where
  text : Text
  stack : List Char
  nodes : Nat
  stringChars : Nat
deriving DecidableEq

def closer (c : Char) : Char := if c = '{' then '}' else ']'

def inToken (c : Char) : Bool := decide (c∉delimiters)

def preflightTurn (limits : JsonLimits) (s : Scan) (c : Char) (rest : Text) :
    Except JsonError Scan :=
  if c∈[' ','\t','\r','\n',',',':'] then .ok {s with text:=rest}
  else if c∈['{','['] then
    if (closer c::s.stack).length > limits.maxDepth then .error tooDeep
    else do
      let nodes ← addNode limits s.nodes
      pure {s with text:=rest, stack:=closer c::s.stack, nodes:=nodes}
  else if c∈['}',']'] then
    if s.stack.head? = some c then .ok {s with text:=rest, stack:=s.stack.tail}
    else .error (.format "invalid JSON nesting")
  else if c = '"' then do
    let nodes ← addNode limits s.nodes
    let r ← scanString limits s.stringChars rest
    pure {s with text:=r.1, nodes:=nodes, stringChars:=r.2}
  else do
    let token := (c::rest).takeWhile inToken
    checkToken limits token
    let nodes ← addNode limits s.nodes
    pure {s with text:=(c::rest).dropWhile inToken, nodes:=nodes}

def preflightStep (limits : JsonLimits) (s : Scan) : Scan ⊕ Except JsonError Unit :=
  match s.text with
  | [] => .inr (if s.stack=[] then .ok () else .error (.format "unterminated JSON container"))
  | c::rest =>
    match preflightTurn limits s c rest with
    | .ok t => .inl t
    | .error e => .inr (.error e)

theorem addNode_ok {limits : JsonLimits} {n m : Nat} :
    addNode limits n=.ok m ↔ m=n+1 ∧ n+1≤limits.maxNodes := by
  unfold addNode
  split
  · simp
    omega
  · simp
    omega

theorem mem_escapes {e : Char} : e∈escapes ↔ ∃u,unescape e=some u := by
  unfold unescape escapes
  constructor
  · intro h
    simp only [List.mem_cons,List.not_mem_nil,or_false] at h
    rcases h with rfl | rfl | rfl | rfl | rfl | rfl | rfl | rfl <;> exact ⟨_,rfl⟩
  · rintro ⟨u,hu⟩
    simp only [List.mem_cons,List.not_mem_nil,or_false]
    by_contra hne
    simp only [not_or] at hne
    obtain ⟨h₁,h₂,h₃,h₄,h₅,h₆,h₇,h₈⟩ := hne
    rw [if_neg h₁,if_neg h₂,if_neg h₃,if_neg h₄,if_neg h₅,if_neg h₆,if_neg h₇,if_neg h₈] at hu
    cases hu

section

variable {limits : JsonLimits} {chars n : Nat} {text rest : Text}

/-- What the scan of a string finds, if its characters are within the limit. -/
def Counted (limits : JsonLimits) (chars n : Nat) (text rest : Text) : Prop :=
  ∃us,scanUnits text=some (us,rest) ∧ n=chars+us.length ∧ n≤limits.maxStringChars

theorem not_counted (h : scanUnits text=none) : ¬Counted limits chars n text rest := by
  rintro ⟨us,hus,_⟩
  rw [h] at hus
  cases hus

theorem counted_unit {u : Nat} {after : Text}
    (h : scanUnits text=(scanUnits after).map (fun r => (u::r.1,r.2))) :
    Counted limits chars n text rest ↔
      chars+1≤limits.maxStringChars ∧ Counted limits (chars+1) n after rest := by
  unfold Counted
  rw [h]
  constructor
  · rintro ⟨us,hus,hn,hle⟩
    obtain ⟨r,hr,hr'⟩ := Option.map_eq_some_iff.1 hus
    cases hr'
    simp only [List.length_cons] at hn
    exact ⟨by omega,r.1,hr,by omega,hle⟩
  · rintro ⟨_,us,hus,hn,hle⟩
    exact ⟨u::us,by rw [hus]; rfl,by simp only [List.length_cons]; omega,hle⟩

theorem scanString_ok (hchars : chars≤limits.maxStringChars) :
    scanString limits chars text=.ok (rest,n) ↔ Counted limits chars n text rest := by
  fun_induction scanString limits chars text with
  | case1 => simpa using not_counted rfl
  | case2 chars after =>
    constructor
    · intro h
      cases h
      exact ⟨[],scanUnits_quote,rfl,hchars⟩
    · rintro ⟨us,hus,rfl,_⟩
      rw [scanUnits_quote] at hus
      cases hus
      rfl
  | case3 chars c after hquote hspace => simpa using not_counted (scanUnits_control hquote hspace)
  | case4 => simpa using not_counted rfl
  | case5 chars h₁ h₂ h₃ h₄ after hhex hmany =>
    rw [counted_unit (scanUnits_unicode.trans (if_pos hhex))]
    simp
    omega
  | case6 chars h₁ h₂ h₃ h₄ after hhex hmany _ _ ih =>
    rw [counted_unit (scanUnits_unicode.trans (if_pos hhex)),ih (by omega)]
    exact ⟨fun h => ⟨by omega,h⟩,And.right⟩
  | case7 chars h₁ h₂ h₃ h₄ after hhex =>
    simpa using not_counted (scanUnits_unicode.trans (if_neg hhex))
  | case8 chars after hshort =>
    have hnone : scanUnits ('\\':: 'u'::after)=none := by
      match after,hshort with
      | [],_ => rfl
      | [_],_ => rfl
      | [_,_],_ => rfl
      | [_,_,_],_ => rfl
      | h₁::h₂::h₃::h₄::r,h => exact absurd rfl (h h₁ h₂ h₃ h₄ r)
    simpa using not_counted hnone
  | case9 chars e after hu he =>
    have hnone : unescape e=none := by
      cases h : unescape e with
      | none => rfl
      | some u => exact absurd (mem_escapes.2 ⟨u,h⟩) he
    simpa using not_counted ((scanUnits_escape hu).trans (by rw [hnone]; rfl))
  | case10 chars e after hu he hmany =>
    obtain ⟨u,hescape⟩ := mem_escapes.1 (not_not.1 he)
    rw [counted_unit ((scanUnits_escape hu).trans (by rw [hescape]; rfl))]
    simp
    omega
  | case11 chars e after hu he hmany _ _ ih =>
    obtain ⟨u,hescape⟩ := mem_escapes.1 (not_not.1 he)
    rw [counted_unit ((scanUnits_escape hu).trans (by rw [hescape]; rfl)),ih (by omega)]
    exact ⟨fun h => ⟨by omega,h⟩,And.right⟩
  | case12 chars c after hquote hspace hslash hmany =>
    rw [counted_unit (scanUnits_plain hquote hspace hslash)]
    simp
    omega
  | case13 chars c after hquote hspace hslash hmany ih =>
    rw [counted_unit (scanUnits_plain hquote hspace hslash),ih (by omega)]
    exact ⟨fun h => ⟨by omega,h⟩,And.right⟩

end

theorem scanString_length {limits : JsonLimits} {chars n : Nat} {text rest : Text}
    (h : scanString limits chars text=.ok (rest,n)) : rest.length < text.length := by
  fun_induction scanString limits chars text with
  | case2 chars after =>
    cases h
    exact Nat.lt_succ_self _
  | case6 chars h₁ h₂ h₃ h₄ after _ _ _ _ ih =>
    have hlt := ih h
    simp only [List.length_cons]
    omega
  | case11 chars e after _ _ _ _ _ ih =>
    have hlt := ih h
    simp only [List.length_cons]
    omega
  | case13 chars c after _ _ _ _ ih => exact Nat.lt_succ_of_lt (ih h)
  | case1 | case3 | case4 | case5 | case7 | case8 | case9 | case10 | case12 => cases h

/-- What begins a token: neither space, a bracket, a quote, a comma nor a colon. -/
def StartsToken (c : Char) : Prop :=
  c∉[' ','\t','\r','\n',',',':'] ∧ c∉['{','['] ∧ c∉['}',']'] ∧ c≠ '"'

theorem StartsToken.inToken {c : Char} (h : StartsToken c) : inToken c=true := by
  obtain ⟨hskip,_,hclose,_⟩ := h
  simp only [List.mem_cons,List.not_mem_nil,or_false,not_or] at hskip hclose
  simp only [Json.inToken,delimiters,List.mem_cons,List.not_mem_nil,or_false]
  simp [hskip,hclose]

theorem preflightTurn_length {limits : JsonLimits} {s t : Scan} {c : Char} {rest : Text}
    (h : preflightTurn limits s c rest=.ok t) : t.text.length < (c::rest).length := by
  unfold preflightTurn at h
  split at h
  · cases h
    exact Nat.lt_succ_self _
  rename_i hskip
  split at h
  · split at h
    · cases h
    · obtain ⟨nodes,_,h⟩ := ok_of_bind h
      cases h
      exact Nat.lt_succ_self _
  rename_i hopen
  split at h
  · split at h
    · cases h
      exact Nat.lt_succ_self _
    · cases h
  rename_i hclose
  split at h
  · obtain ⟨nodes,_,h⟩ := ok_of_bind h
    obtain ⟨r,hr,h⟩ := ok_of_bind h
    cases h
    exact Nat.lt_succ_of_lt (scanString_length hr)
  · rename_i hquote
    obtain ⟨_,_,h⟩ := ok_of_bind h
    obtain ⟨nodes,_,h⟩ := ok_of_bind h
    cases h
    have htoken : StartsToken c := ⟨hskip,hopen,hclose,hquote⟩
    dsimp only
    rw [List.dropWhile_cons_of_pos htoken.inToken]
    exact Nat.lt_succ_of_le (List.dropWhile_sublist _).length_le

theorem preflightStep_length (limits : JsonLimits) (s t : Scan)
    (h : preflightStep limits s=.inl t) : t.text.length < s.text.length := by
  unfold preflightStep at h
  split at h
  · cases h
  · rename_i c rest htext
    cases hturn : preflightTurn limits s c rest with
    | error e =>
      rw [hturn] at h
      cases h
    | ok u =>
      rw [hturn] at h
      cases h
      rw [htext]
      exact preflightTurn_length hturn

def scanLoop (limits : JsonLimits) (s : Scan) : Except JsonError Unit :=
  loop (preflightStep limits) (fun s => s.text.length) (preflightStep_length limits) s

def preflightJson (limits : JsonLimits) (text : Text) : Except JsonError Unit :=
  scanLoop limits ⟨text,[],0,0⟩

end XiaoQing.Json
