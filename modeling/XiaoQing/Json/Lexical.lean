import Mathlib.Data.List.TakeWhile
import Mathlib.Tactic.Common

namespace XiaoQing.Json

abbrev Text := List Char

def isWs (c : Char) : Bool := c = ' ' || c = '\t' || c = '\n' || c = '\r'

def skipWs (t : Text) : Text := t.dropWhile isWs

/-- `_JSON_DELIMITERS`. -/
def delimiters : List Char := [' ','\t','\r','\n',',',']','}',':']

/-- `_HEX`. -/
def isHex (c : Char) : Bool :=
  (decide ('0' ≤ c) && decide (c ≤ '9')) || (decide ('a' ≤ c) && decide (c ≤ 'f')) ||
    (decide ('A' ≤ c) && decide (c ≤ 'F'))

def isDigit (c : Char) : Bool := decide ('0' ≤ c) && decide (c ≤ '9')

def hexDigit (c : Char) : Nat :=
  if isDigit c then c.toNat-48 else if 'a' ≤ c then c.toNat-87 else c.toNat-55

def hexValue (a b c d : Char) : Nat :=
  ((hexDigit a*16+hexDigit b)*16+hexDigit c)*16+hexDigit d

def unescape (e : Char) : Option Nat :=
  if e = '"' then some 34
  else if e = '\\' then some 92
  else if e = '/' then some 47
  else if e = 'b' then some 8
  else if e = 'f' then some 12
  else if e = 'n' then some 10
  else if e = 'r' then some 13
  else if e = 't' then some 9
  else none

/-- The characters of a string as it is written, an escape counting as one, up to the closing
quote. -/
def scanUnits : Text → Option (List Nat × Text)
  | [] => none
  | c::rest =>
    if c = '"' then some ([],rest)
    else if c.toNat < 32 then none
    else if c = '\\' then
      match rest with
      | [] => none
      | e::rest =>
        if e = 'u' then
          match rest with
          | h₁::h₂::h₃::h₄::rest =>
            if isHex h₁ && isHex h₂ && isHex h₃ && isHex h₄ then
              (scanUnits rest).map (fun r => (hexValue h₁ h₂ h₃ h₄::r.1,r.2))
            else none
          | _ => none
        else
          match unescape e with
          | none => none
          | some u => (scanUnits rest).map (fun r => (u::r.1,r.2))
    else (scanUnits rest).map (fun r => (c.toNat::r.1,r.2))

theorem scanUnits_quote {rest : Text} : scanUnits ( '"'::rest)=some ([],rest) := by
  rw [scanUnits.eq_def]
  dsimp only
  rw [if_pos rfl]

def joinSurrogates : List Nat → List Nat
  | high::low::rest =>
    if 0xD800≤high ∧ high≤0xDBFF ∧ 0xDC00≤low ∧ low≤0xDFFF
    then (0x10000+(high-0xD800)*0x400+(low-0xDC00))::joinSurrogates rest
    else high::joinSurrogates (low::rest)
  | t => t

theorem joinSurrogates_length (t : List Nat) : (joinSurrogates t).length≤t.length := by
  fun_induction joinSurrogates t with
  | case1 high low rest h ih => simp; omega
  | case2 high low rest h ih => simpa using ih
  | case3 t h => exact Nat.le_refl _

def matchInt : Text → Option (Text × Text)
  | [] => none
  | c::rest =>
    if c = '0' then some ([c],rest)
    else if isDigit c then some (c::rest.takeWhile isDigit,rest.dropWhile isDigit)
    else none

def matchFraction : Text → Text × Text
  | [] => ([],[])
  | c::rest =>
    if c = '.' ∧ rest.takeWhile isDigit≠[] then
      (c::rest.takeWhile isDigit,rest.dropWhile isDigit)
    else ([],c::rest)

def matchSign : Text → Text × Text
  | [] => ([],[])
  | c::rest => if c = '+' ∨ c = '-' then ([c],rest) else ([],c::rest)

def matchExponent : Text → Text × Text
  | [] => ([],[])
  | c::rest =>
    let (sign,after) := matchSign rest
    if (c = 'e' ∨ c = 'E') ∧ after.takeWhile isDigit≠[] then
      (c::sign++after.takeWhile isDigit,after.dropWhile isDigit)
    else ([],c::rest)

def matchMinus : Text → Text × Text
  | [] => ([],[])
  | c::rest => if c = '-' then ([c],rest) else ([],c::rest)

/-- `_match_number_unicode`: whether the number is a float, its text, and the rest. -/
def matchNumber (t : Text) : Option (Bool × Text × Text) :=
  let (sign,t) := matchMinus t
  match matchInt t with
  | none => none
  | some (int,t) =>
    let (fraction,t) := matchFraction t
    let (exponent,t) := matchExponent t
    some (!fraction.isEmpty || !exponent.isEmpty,sign++(int++(fraction++exponent)),t)

/-- The text between the quotes of a string, with its characters. -/
inductive IsBody : Text → List Nat → Prop
  | nil : IsBody [] []
  | plain {t us} (c : Char) : c≠ '"' → c≠ '\\' → 32≤c.toNat → IsBody t us →
      IsBody (c::t) (c.toNat::us)
  | escape {t us} (e : Char) (u : Nat) : unescape e=some u → IsBody t us →
      IsBody ('\\'::e::t) (u::us)
  | unicode {t us} (h₁ h₂ h₃ h₄ : Char) : isHex h₁=true → isHex h₂=true → isHex h₃=true →
      isHex h₄=true → IsBody t us →
      IsBody ('\\':: 'u'::h₁::h₂::h₃::h₄::t) (hexValue h₁ h₂ h₃ h₄::us)

def Digits (t : Text) : Prop := ∀c∈t,isDigit c=true

def IsInt (t : Text) : Prop :=
  t=['0'] ∨ ∃c ds,t=c::ds ∧ c≠ '0' ∧ isDigit c=true ∧ Digits ds

def IsFraction (t : Text) : Prop := t=[] ∨ ∃ds,t= '.'::ds ∧ ds≠[] ∧ Digits ds

def IsExponent (t : Text) : Prop :=
  t=[] ∨ ∃c sign ds,t=c::sign++ds ∧ (c= 'e' ∨ c= 'E') ∧ (sign=[] ∨ sign=['+'] ∨ sign=['-']) ∧
    ds≠[] ∧ Digits ds

def IsNumber (isFloat : Bool) (t : Text) : Prop :=
  ∃sign int fraction exponent,t=sign++(int++(fraction++exponent)) ∧
    (sign=[] ∨ sign=['-']) ∧ IsInt int ∧ IsFraction fraction ∧ IsExponent exponent ∧
    isFloat=(!fraction.isEmpty || !exponent.isEmpty)

def Terminated (rest : Text) : Prop := ∀c∈rest.head?,c∈delimiters

theorem not_u_of_unescape {e : Char} {u : Nat} (h : unescape e=some u) : e≠ 'u' := by
  intro he
  rw [he] at h
  exact absurd (show unescape 'u'=none from by decide) (by rw [h]; simp)

section

variable {c e : Char} {rest : Text}

theorem scanUnits_control (hquote : c≠ '"') (hspace : c.toNat < 32) : scanUnits (c::rest)=none := by
  rw [scanUnits.eq_def]
  dsimp only
  rw [if_neg hquote,if_pos hspace]

theorem scanUnits_plain (hquote : c≠ '"') (hspace : ¬c.toNat < 32) (hslash : c≠ '\\') :
    scanUnits (c::rest)=(scanUnits rest).map (fun r => (c.toNat::r.1,r.2)) := by
  rw [scanUnits.eq_def]
  dsimp only
  rw [if_neg hquote,if_neg hspace,if_neg hslash]

theorem scanUnits_escape (he : e≠ 'u') : scanUnits ('\\'::e::rest)=
    (unescape e).bind (fun u => (scanUnits rest).map (fun r => (u::r.1,r.2))) := by
  rw [scanUnits.eq_def]
  dsimp only
  rw [if_neg (by decide),if_neg (by decide),if_pos rfl,if_neg he]
  cases unescape e <;> rfl

theorem scanUnits_unicode {h₁ h₂ h₃ h₄ : Char} : scanUnits ('\\':: 'u'::h₁::h₂::h₃::h₄::rest)=
    if isHex h₁ && isHex h₂ && isHex h₃ && isHex h₄ then
      (scanUnits rest).map (fun r => (hexValue h₁ h₂ h₃ h₄::r.1,r.2))
    else none := by
  rw [scanUnits.eq_def]
  dsimp only
  rw [if_neg (by decide),if_neg (by decide),if_pos rfl,if_pos rfl]

end

theorem scanUnits_complete {t : Text} {us : List Nat} (h : IsBody t us) (rest : Text) :
    scanUnits (t++ '"'::rest)=some (us,rest) := by
  induction h with
  | nil => exact scanUnits_quote
  | plain c hquote hslash hspace _ ih =>
    rw [List.cons_append,scanUnits_plain hquote (by omega) hslash,ih]
    rfl
  | escape e u hu _ ih =>
    rw [List.cons_append,List.cons_append,scanUnits_escape (not_u_of_unescape hu),hu,ih]
    rfl
  | unicode h₁ h₂ h₃ h₄ hh₁ hh₂ hh₃ hh₄ _ ih =>
    simp only [List.cons_append]
    rw [scanUnits_unicode,if_pos (by simp [*]),ih]
    rfl

theorem scanUnits_sound {text rest : Text} {us : List Nat} (h : scanUnits text=some (us,rest)) :
    ∃t,text=t++ '"'::rest ∧ IsBody t us := by
  fun_induction scanUnits text generalizing us rest with
  | case1 => cases h
  | case2 rest' =>
    cases h
    exact ⟨[],rfl,.nil⟩
  | case3 c rest' hquote hspace => cases h
  | case4 => cases h
  | case5 h₁ h₂ h₃ h₄ rest' hhex _ _ ih =>
    obtain ⟨r,hr,hus⟩ := Option.map_eq_some_iff.1 h
    cases hus
    obtain ⟨t,rfl,ht⟩ := ih hr
    simp only [Bool.and_eq_true] at hhex
    obtain ⟨⟨⟨hh₁,hh₂⟩,hh₃⟩,hh₄⟩ := hhex
    exact ⟨_,rfl,.unicode h₁ h₂ h₃ h₄ hh₁ hh₂ hh₃ hh₄ ht⟩
  | case6 => cases h
  | case7 => cases h
  | case8 => cases h
  | case9 e rest' _ u hu _ _ ih =>
    obtain ⟨r,hr,hus⟩ := Option.map_eq_some_iff.1 h
    cases hus
    obtain ⟨t,rfl,ht⟩ := ih hr
    exact ⟨_,rfl,.escape e u hu ht⟩
  | case10 c rest' hquote hspace hslash ih =>
    obtain ⟨r,hr,hus⟩ := Option.map_eq_some_iff.1 h
    cases hus
    obtain ⟨t,rfl,ht⟩ := ih hr
    exact ⟨_,rfl,.plain c hquote hslash (by omega) ht⟩

section

variable {t rest : Text}

theorem scanUnits_length {us : List Nat} (h : scanUnits t=some (us,rest)) : rest.length < t.length := by
  obtain ⟨u,rfl,_⟩ := scanUnits_sound h
  simp
  omega

def NoDigit (t : Text) : Prop := ∀c∈t.head?,isDigit c=false

def NoFraction (t : Text) : Prop := ∀c∈t.head?,isDigit c=false ∧ c≠ '.'

theorem NoFraction.noDigit (h : NoFraction t) : NoDigit t := fun c hc => (h c hc).1

theorem takeWhile_run {p : Char → Bool} (ht : ∀c∈t,p c=true) (hrest : ∀c∈rest.head?,p c=false) :
    (t++rest).takeWhile p=t ∧ (t++rest).dropWhile p=rest := by
  rw [List.takeWhile_append_of_pos ht,List.dropWhile_append_of_pos ht]
  cases rest with
  | nil => simp
  | cons c rest =>
    have hc : p c=false := hrest c rfl
    simp [hc]

theorem takeWhile_isDigit (t : Text) : Digits (t.takeWhile isDigit) := fun _ hc =>
  List.mem_takeWhile_imp hc

theorem Terminated.ne {c : Char} (h : Terminated (c::rest)) {d : Char} (hd : d∉delimiters) : c≠d := by
  intro hc
  exact hd (hc ▸ h c rfl)

theorem Terminated.noFraction (h : Terminated rest) : NoFraction rest := by
  intro c hc
  have hall : delimiters.all (fun d => !isDigit d && d≠ '.')=true := by decide
  simpa using List.all_eq_true.1 hall c (h c hc)

theorem matchExponent_complete (ht : IsExponent t) (hrest : Terminated rest) :
    matchExponent (t++rest)=(t,rest) ∧ NoFraction (t++rest) := by
  obtain rfl | ⟨c,sign,ds,rfl,hc,hsign,hds,hdigits⟩ := ht
  · refine ⟨?_,hrest.noFraction⟩
    cases rest with
    | nil => rfl
    | cons c rest =>
      have hc : ¬(c= 'e' ∨ c= 'E') := by
        rintro (he|he)
        · exact hrest.ne (by decide) he
        · exact hrest.ne (by decide) he
      simp [matchExponent,hc]
  · have hafter : matchSign (sign++(ds++rest))=(sign,ds++rest) := by
      rcases hsign with rfl | rfl | rfl
      · cases ds with
        | nil => exact absurd rfl hds
        | cons d ds =>
          have hd : isDigit d=true := hdigits d (.head _)
          have hd' : ¬(d= '+' ∨ d= '-') := by
            rintro (he|he)
            · exact absurd hd (by rw [he]; decide)
            · exact absurd hd (by rw [he]; decide)
          simp [matchSign,hd']
      · rfl
      · rfl
    obtain ⟨htake,hdrop⟩ := takeWhile_run hdigits hrest.noFraction.noDigit
    constructor
    · simp only [List.cons_append,List.append_assoc,matchExponent]
      rw [hafter]
      dsimp only
      rw [htake,hdrop,if_pos ⟨hc,hds⟩]
    · intro d hd
      cases hd
      rcases hc with rfl | rfl <;> decide

theorem matchFraction_complete (ht : IsFraction t) (hrest : NoFraction rest) :
    matchFraction (t++rest)=(t,rest) ∧ NoDigit (t++rest) := by
  obtain rfl | ⟨ds,rfl,hds,hdigits⟩ := ht
  · refine ⟨?_,hrest.noDigit⟩
    cases rest with
    | nil => rfl
    | cons c rest =>
      have hc : c≠ '.' := (hrest c rfl).2
      simp [matchFraction,hc]
  · obtain ⟨htake,hdrop⟩ := takeWhile_run hdigits hrest.noDigit
    constructor
    · simp only [List.cons_append,matchFraction]
      rw [htake,hdrop,if_pos ⟨trivial,hds⟩]
    · intro d hd
      cases hd
      rfl

theorem matchInt_complete (ht : IsInt t) (hrest : NoDigit rest) :
    matchInt (t++rest)=some (t,rest) := by
  obtain rfl | ⟨c,ds,rfl,hzero,hc,hdigits⟩ := ht
  · rfl
  · obtain ⟨htake,hdrop⟩ := takeWhile_run hdigits hrest
    simp only [List.cons_append,matchInt]
    rw [if_neg hzero,if_pos hc,htake,hdrop]

theorem IsInt.no_sign (ht : IsInt t) : matchMinus (t++rest)=([],t++rest) := by
  obtain rfl | ⟨c,ds,rfl,_,hc,_⟩ := ht
  · rfl
  · have hminus : c≠ '-' := by
      intro he
      exact absurd hc (by rw [he]; decide)
    simp [matchMinus,hminus]

theorem matchNumber_complete {isFloat : Bool} (ht : IsNumber isFloat t) (hrest : Terminated rest) :
    matchNumber (t++rest)=some (isFloat,t,rest) := by
  obtain ⟨sign,int,fraction,exponent,rfl,hsign,hint,hfraction,hexponent,rfl⟩ := ht
  obtain ⟨hexp,hstops⟩ := matchExponent_complete hexponent hrest
  obtain ⟨hfrac,hdigit⟩ := matchFraction_complete hfraction hstops
  have hmatch := matchInt_complete hint hdigit
  have hminus : matchMinus (sign++(int++(fraction++(exponent++rest))))=
      (sign,int++(fraction++(exponent++rest))) := by
    rcases hsign with rfl | rfl
    · exact hint.no_sign
    · rfl
  simp only [List.append_assoc,matchNumber,hminus,hmatch,hfrac,hexp]

theorem matchExponent_sound (t : Text) :
    t=(matchExponent t).1++(matchExponent t).2 ∧ IsExponent (matchExponent t).1 := by
  cases t with
  | nil => exact ⟨rfl,.inl rfl⟩
  | cons c rest =>
    have hsign : rest=(matchSign rest).1++(matchSign rest).2 ∧
        ((matchSign rest).1=[] ∨ (matchSign rest).1=['+'] ∨ (matchSign rest).1=['-']) := by
      cases rest with
      | nil => exact ⟨rfl,.inl rfl⟩
      | cons d rest =>
        rw [matchSign]
        split
        · rename_i hd
          rcases hd with rfl | rfl
          · exact ⟨rfl,.inr (.inl rfl)⟩
          · exact ⟨rfl,.inr (.inr rfl)⟩
        · exact ⟨rfl,.inl rfl⟩
    dsimp only [matchExponent]
    split
    · rename_i hc
      refine ⟨?_,.inr ⟨c,_,_,rfl,hc.1,hsign.2,hc.2,takeWhile_isDigit _⟩⟩
      simp only [List.cons_append,List.append_assoc,List.takeWhile_append_dropWhile]
      rw [← hsign.1]
    · exact ⟨rfl,.inl rfl⟩

theorem matchFraction_sound (t : Text) :
    t=(matchFraction t).1++(matchFraction t).2 ∧ IsFraction (matchFraction t).1 := by
  cases t with
  | nil => exact ⟨rfl,.inl rfl⟩
  | cons c rest =>
    rw [matchFraction]
    split
    · rename_i hc
      obtain ⟨rfl,hds⟩ := hc
      refine ⟨?_,.inr ⟨_,rfl,hds,takeWhile_isDigit _⟩⟩
      simp [List.takeWhile_append_dropWhile]
    · exact ⟨rfl,.inl rfl⟩

theorem matchInt_sound {int : Text} (h : matchInt t=some (int,rest)) : t=int++rest ∧ IsInt int := by
  cases t with
  | nil => cases h
  | cons c t =>
    rw [matchInt] at h
    split at h
    · rename_i hc
      cases h
      exact ⟨rfl,.inl (by rw [hc])⟩
    · rename_i hzero
      split at h
      · rename_i hc
        cases h
        refine ⟨?_,.inr ⟨c,_,rfl,hzero,hc,takeWhile_isDigit _⟩⟩
        simp [List.takeWhile_append_dropWhile]
      · cases h

theorem matchMinus_sound (t : Text) : t=(matchMinus t).1++(matchMinus t).2 ∧
    ((matchMinus t).1=[] ∨ (matchMinus t).1=['-']) := by
  cases t with
  | nil => exact ⟨rfl,.inl rfl⟩
  | cons c rest =>
    rw [matchMinus]
    split
    · rename_i hc
      exact ⟨rfl,.inr (by rw [hc])⟩
    · exact ⟨rfl,.inl rfl⟩

theorem matchNumber_sound {text : Text} {isFloat : Bool}
    (h : matchNumber text=some (isFloat,t,rest)) : text=t++rest ∧ IsNumber isFloat t := by
  dsimp only [matchNumber] at h
  cases hint : matchInt (matchMinus text).2 with
  | none =>
    rw [hint] at h
    cases h
  | some r =>
    obtain ⟨int,after⟩ := r
    rw [hint] at h
    cases h
    obtain ⟨htext,hsign⟩ := matchMinus_sound text
    obtain ⟨hafter,hisint⟩ := matchInt_sound hint
    obtain ⟨hfraction,hisfraction⟩ := matchFraction_sound after
    obtain ⟨hexponent,hisexponent⟩ := matchExponent_sound (matchFraction after).2
    refine ⟨?_,_,int,_,_,rfl,hsign,hisint,hisfraction,hisexponent,rfl⟩
    simp only [List.append_assoc]
    rw [← hexponent,← hfraction,← hafter]
    exact htext

end

end XiaoQing.Json
