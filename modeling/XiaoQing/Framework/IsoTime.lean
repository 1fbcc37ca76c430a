import Mathlib.Tactic.Common
import Mathlib.Tactic.Ring

/-! The proleptic Gregorian calendar, with the days counted from the first of January of the year 1 -/

namespace XiaoQing.Framework

def isLeap (year : Nat) : Bool := decide (year%4=0) && (decide (year%100≠0) || decide (year%400=0))

def daysBeforeYear (year : Nat) : Nat := (year-1)*365+(year-1)/4-(year-1)/100+(year-1)/400

/-- The days before a month in a year that is not a leap year. -/
def daysBeforeMonthTable : List Nat := [0,0,31,59,90,120,151,181,212,243,273,304,334]

def daysInMonthTable : List Nat := [0,31,28,31,30,31,30,31,31,30,31,30,31]

def daysInMonth (leap : Bool) (month : Nat) : Nat :=
  if month=2 ∧ leap then 29 else daysInMonthTable.getD month 0

def daysBeforeMonth (leap : Bool) (month : Nat) : Nat :=
  daysBeforeMonthTable.getD month 0+(if month>2 ∧ leap then 1 else 0)

/-- A year, a month and a day, each counted from 1. -/
structure Ymd where
  year : Nat
  month : Nat
  day : Nat
  deriving DecidableEq,Repr

/-- The checks of `date(year,month,day)`. -/
def Ymd.Valid (d : Ymd) : Prop :=
  (1≤d.year ∧ d.year≤9999) ∧ (1≤d.month ∧ d.month≤12) ∧ 1≤d.day ∧ d.day≤daysInMonth (isLeap d.year) d.month

instance (d : Ymd) : Decidable d.Valid := by
  unfold Ymd.Valid
  infer_instance

/-- The days before a date; `date.toordinal` is one more. -/
def Ymd.index (d : Ymd) : Nat := daysBeforeYear d.year+daysBeforeMonth (isLeap d.year) d.month+d.day-1

def calendarDays : Nat := 3652059

/-- The month and the day at an offset into a year. -/
def monthDay (leap : Bool) (n : Nat) : Nat × Nat :=
  let month := (n+50)/32
  let preceding := daysBeforeMonth leap month
  if preceding>n then (month-1,n-(preceding-daysInMonth leap (month-1))+1) else (month,n-preceding+1)

/-- `_ord2ymd`, from the days before the date. -/
def ofIndex (n : Nat) : Ymd :=
  let n400 := n/146097
  let n100 := n%146097/36524
  let n4 := n%146097%36524/1461
  let n1 := n%146097%36524%1461/365
  let year := n400*400+1+n100*100+n4*4+n1
  if n1=4 ∨ n100=4 then ⟨year-1,12,31⟩
  else
    let date := monthDay (decide (n1=3) && (decide (n4≠24) || decide (n100=3))) (n%146097%36524%1461%365)
    ⟨year,date.1,date.2⟩

theorem monthDay_spec : ∀leap : Bool,∀n<365,
    (1≤(monthDay leap n).1 ∧ (monthDay leap n).1≤12) ∧
      (1≤(monthDay leap n).2 ∧ (monthDay leap n).2≤daysInMonth leap (monthDay leap n).1) ∧
      daysBeforeMonth leap (monthDay leap n).1+(monthDay leap n).2=n+1 := by
  decide +kernel

theorem daysInMonth_lt : ∀leap : Bool,∀m≤12,daysInMonth leap m<32 := by
  decide

theorem daysBeforeMonth_le : ∀leap : Bool,∀m≤12,
    daysBeforeMonth leap m+daysInMonth leap m≤365+leap.toNat := by
  decide

theorem Ymd.Valid.index_lt {d : Ymd} (h : d.Valid) : d.index<calendarDays := by
  obtain ⟨⟨hfirst,hlast⟩,⟨-,hmonth⟩,-,hday⟩ := h
  have hdays := daysBeforeMonth_le (isLeap d.year) d.month hmonth
  have hleap : d.year=9999 → (isLeap d.year).toNat=0 := by
    intro hyear
    rw [hyear]
    decide
  have hbool := Bool.toNat_le (isLeap d.year)
  unfold Ymd.index daysBeforeYear calendarDays
  by_cases hyear : d.year=9999
  · have hnone := hleap hyear
    omega
  · omega

/-- A day from its place in the four cycles of the calendar. -/
theorem daysBeforeYear_cycles {a b c d : Nat} (hb : b≤3) (hc : c≤24) (hd : d≤3) :
    daysBeforeYear (a*400+1+b*100+c*4+d)=a*146097+b*36524+c*1461+d*365 := by
  unfold daysBeforeYear
  omega

theorem isLeap_cycles {a b c d : Nat} (hb : b≤3) (hc : c≤24) (hd : d≤3) :
    isLeap (a*400+1+b*100+c*4+d)=(decide (d=3) && (decide (c≠24) || decide (b=3))) := by
  unfold isLeap
  rw [Bool.eq_iff_iff]
  simp only [Bool.and_eq_true,Bool.or_eq_true,decide_eq_true_eq]
  omega

theorem lastDay_spec {a b c : Nat} (hb : b≤3) (hc : c≤24) (hleap : c≠24∨b=3)
    (hyear : a*400+1+b*100+c*4+3≤9999) :
    (⟨a*400+1+b*100+c*4+3,12,31⟩ : Ymd).Valid ∧
      (⟨a*400+1+b*100+c*4+3,12,31⟩ : Ymd).index=a*146097+b*36524+c*1461+1460 := by
  have hleap' : isLeap (a*400+1+b*100+c*4+3)=true := by
    rw [isLeap_cycles hb hc (Nat.le_refl 3)]
    simpa using hleap
  have hdays := daysBeforeYear_cycles (a:=a) hb hc (Nat.le_refl 3)
  have hdecember : daysInMonth true 12=31 ∧ daysBeforeMonth true 12=335 := by decide
  constructor
  · refine ⟨⟨?_,hyear⟩,⟨?_,?_⟩,?_,?_⟩
    · change 1≤a*400+1+b*100+c*4+3
      omega
    · exact (show 1≤12 by decide)
    · exact Nat.le_refl 12
    · exact (show 1≤31 by decide)
    · have hlast : 31≤daysInMonth true 12 := Nat.le_of_eq hdecember.1.symm
      simpa only [hleap'] using hlast
  · unfold Ymd.index
    rw [hleap',hdays,hdecember.2]
    dsimp only
    omega

/-- What `_ord2ymd` answers is a date, and `_ymd2ord` takes it back. -/
theorem ofIndex_spec {n : Nat} (h : n<calendarDays) : (ofIndex n).Valid ∧ (ofIndex n).index=n := by
  unfold calendarDays at h
  unfold ofIndex
  generalize ha : n/146097=a
  generalize hb : n%146097/36524=b
  generalize hc : n%146097%36524/1461=c
  generalize hd : n%146097%36524%1461/365=d
  generalize he : n%146097%36524%1461%365=e
  have hn : n=a*146097+b*36524+c*1461+d*365+e := by omega
  have hc' : c≤24 := by omega
  have he' : e<365 := by omega
  dsimp only
  split_ifs with hlast
  · by_cases hb4 : b=4
    · have hyear : a*400+1+b*100+c*4+d-1=a*400+1+3*100+24*4+3 := by omega
      obtain ⟨hvalid,hindex⟩ := lastDay_spec (a:=a) (b:=3) (c:=24) (by omega) (by omega) (.inr rfl) (by omega)
      rw [hyear]
      exact ⟨hvalid,hindex.trans (by omega)⟩
    · have hd4 : d=4 := hlast.resolve_right hb4
      have hyear : a*400+1+b*100+c*4+d-1=a*400+1+b*100+c*4+3 := by omega
      obtain ⟨hvalid,hindex⟩ := lastDay_spec (a:=a) (b:=b) (c:=c) (by omega) hc' (by omega) (by omega)
      rw [hyear]
      exact ⟨hvalid,hindex.trans (by omega)⟩
  · obtain ⟨hd4,hb4⟩ := not_or.mp hlast
    have hb' : b≤3 := by omega
    have hd' : d≤3 := by omega
    have hdays := daysBeforeYear_cycles (a:=a) hb' hc' hd'
    have hleap := isLeap_cycles (a:=a) hb' hc' hd'
    rw [← hleap]
    obtain ⟨hmonth,hday,hsum⟩ := monthDay_spec (isLeap (a*400+1+b*100+c*4+d)) e he'
    refine ⟨⟨⟨?_,?_⟩,hmonth,hday⟩,?_⟩
    · change 1≤a*400+1+b*100+c*4+d
      omega
    · change a*400+1+b*100+c*4+d≤9999
      omega
    · change daysBeforeYear _+daysBeforeMonth _ _+_-1=n
      rw [hdays,Nat.add_assoc,hsum]
      omega

end XiaoQing.Framework

/-! `datetime` values, `datetime.isoformat` and `datetime.fromisoformat` -/

namespace XiaoQing.Framework

/-- A distance from UTC in microseconds; `tzinfo.utcoffset` answers only such. -/
structure Offset where
  micros : Int
  bound : -86400000000 < micros ∧ micros<86400000000
  deriving DecidableEq

def Offset.utc : Offset := ⟨0,by decide⟩

/-- The microseconds since the first of January of the year 1 that a `datetime` can stand for. -/
def InRange (w : Int) : Prop := 0≤w ∧ w<calendarDays*86400000000

instance (w : Int) : Decidable (InRange w) := by
  unfold InRange
  infer_instance

/-- A `datetime`: the time it shows, and what its `tzinfo` answers when it has one. -/
structure Datetime where
  wall : Int
  tzinfo : Option (Option Offset)
  inRange : InRange wall
  deriving DecidableEq

def Datetime.utcoffset (d : Datetime) : Option Offset := d.tzinfo.join

structure Clock where
  hour : Nat
  minute : Nat
  second : Nat
  micros : Nat
  deriving DecidableEq,Repr

def Clock.Valid (c : Clock) : Prop := c.hour<24 ∧ c.minute<60 ∧ c.second<60 ∧ c.micros<1000000

instance (c : Clock) : Decidable c.Valid := by
  unfold Clock.Valid
  infer_instance

def Clock.seconds (c : Clock) : Nat := c.hour*3600+c.minute*60+c.second

theorem Clock.Valid.seconds_lt {c : Clock} (h : c.Valid) : c.seconds<86400 := by
  obtain ⟨hhour,hminute,hsecond,-⟩ := h
  unfold Clock.seconds
  omega

/-- The microseconds of a day of the calendar and a time of the day. -/
theorem inRange_of_valid {date : Ymd} {clock : Clock} (h : date.Valid ∧ clock.Valid) :
    InRange ((date.index*86400+clock.seconds)*1000000+clock.micros : Nat) := by
  have hdate := h.1.index_lt
  have hclock := h.2.seconds_lt
  have hmicros := h.2.2.2.2
  unfold InRange
  omega

/-- The checks of `datetime(...)` and the time it stands for. -/
def datetimeOf (date : Ymd) (clock : Clock) (tzinfo : Option (Option Offset)) : Option Datetime :=
  if h : date.Valid ∧ clock.Valid then
    some ⟨((date.index*86400+clock.seconds)*1000000+clock.micros : Nat),tzinfo,inRange_of_valid h⟩
  else none

namespace IsoTime

/-- `%0*d` of a number that is no longer. -/
def pad : Nat → Nat → List Char
  | 0,_ => []
  | k+1,n => Char.ofNat (48+n/10^k%10)::pad k n

/-- `isoformat` of a UTC time, with `timespec="seconds"`. -/
def isoformat (u : Int) : List Char :=
  let seconds := (u/1000000).toNat
  let date := ofIndex (seconds/86400)
  let rest := seconds%86400
  pad 4 date.year++ '-'::pad 2 date.month++ '-'::pad 2 date.day++ 'T'::pad 2 (rest/3600)++
    ':'::pad 2 (rest/60%60)++ ':'::pad 2 (rest%60)++ ['+','0','0',':','0','0']

/-- `parse_digits`. -/
def readDigits : Nat → Nat → List Char → Option (Nat × List Char)
  | 0,v,t => some (v,t)
  | _+1,_,[] => none
  | k+1,v,c::t => if c.isDigit then readDigits k (v*10+(c.toNat-48)) t else none

/-- The end of a text, or the NUL that stands for it. -/
def atEnd : List Char → Bool
  | [] => true
  | c::_ => decide (c=Char.ofNat 0)

/-- The fraction of a second, and whether the text ends behind it. -/
def readFraction (t : List Char) : Option (Nat × Bool) :=
  let n := min 6 t.length
  match readDigits n 0 t with
  | none => none
  | some (v,rest) => some (v*10^(6-n),atEnd (rest.dropWhile Char.isDigit))

/-- The hours, minutes and seconds still to be read, the fraction, and whether the text ends there. -/
def readComponents : Nat → Bool → List Char → Option (List Nat × Nat × Bool)
  | 0,_,t => (readFraction t).map fun p => ([],p)
  | k+1,colons,t =>
    match readDigits 2 0 t with
    | none => none
    | some (v,[]) => some ([v],0,true)
    | some (v,[c]) => some ([v],0,atEnd [c])
    | some (v,c::more) =>
      if colons ∧ c= ':' then (readComponents k colons more).map fun p => (v::p.1,p.2)
      else if c= '.' ∨ c= ',' then (readFraction more).map fun p => ([v],p)
      else if colons then none
      else (readComponents k colons (c::more)).map fun p => (v::p.1,p.2)

/-- `parse_hh_mm_ss_ff`. -/
def readClock (t : List Char) : Option (Clock × Bool) :=
  (readComponents 3 (decide (t[2]?=some ':')) t).map fun p =>
    (⟨p.1.getD 0 0,p.1.getD 1 0,p.1.getD 2 0,p.2.1⟩,p.2.2)

def isZoneSign (c : Char) : Bool := c= '+' || c= '-' || c= 'Z'

/-- `tzinfo_from_isoformat_results`: whole seconds of nothing are UTC. -/
def offsetOf (negative : Bool) (c : Clock) : Option Offset :=
  if c.seconds=0 then some .utc
  else
    let micros : Int := (c.seconds*1000000+c.micros : Nat)
    let signed := if negative then -micros else micros
    if h : -86400000000 < signed ∧ signed<86400000000 then some ⟨signed,h⟩ else none

/-- `parse_isoformat_time`. -/
def readTime (t : List Char) : Option (Clock × Option Offset) :=
  match readClock (t.takeWhile fun c => !isZoneSign c) with
  | none => none
  | some (clock,ended) =>
    match t.dropWhile fun c => !isZoneSign c with
    | [] => if ended then some (clock,none) else none
    | sign::rest =>
      if sign= 'Z' then (if atEnd rest then some (clock,some .utc) else none)
      else
        match readClock rest with
        | some (zone,true) => (offsetOf (decide (sign= '-')) zone).map fun o => (clock,some o)
        | _ => none

/-- `iso_to_ymd`. -/
def ofIsoWeek (year week day : Nat) : Option Ymd :=
  let first := daysBeforeYear year
  let weekday := first%7
  let monday := first-weekday+(if weekday>3 then 7 else 0)
  let long := weekday=3 ∨ (weekday=2 ∧ isLeap year)
  let index := monday+(week-1)*7+(day-1)
  if year=0 ∨ week=0 ∨ week>53 ∨ (week=53 ∧ ¬long) ∨ day=0 ∨ day>7 ∨ index≥calendarDays then none
  else some (ofIndex index)

/-- The dash between two parts of a date that has dashes. -/
def skipDash (dashes : Bool) (t : List Char) : Option (List Char) :=
  if dashes then (match t with | '-'::rest => some rest | _ => none) else some t

/-- `parse_isoformat_date`. -/
def readDate (t : List Char) (length : Nat) : Option Ymd := do
  let (year,rest) ← readDigits 4 0 t
  let dashes := decide (rest.head?=some '-')
  let rest := if dashes then rest.tail else rest
  if rest.head?=some 'W' then
    let (week,rest) ← readDigits 2 0 rest.tail
    if 7+dashes.toNat<length then
      let rest ← skipDash dashes rest
      let (day,_) ← readDigits 1 0 rest
      ofIsoWeek year week day
    else ofIsoWeek year week 1
  else
    let (month,rest) ← readDigits 2 0 rest
    let rest ← skipDash dashes rest
    let (day,_) ← readDigits 2 0 rest
    return ⟨year,month,day⟩

/-- `_find_isoformat_datetime_separator`. -/
def separatorAt (t : List Char) : Nat :=
  if t.length=7 then 7
  else if t[4]?=some '-' then
    if t[5]?=some 'W' then
      if t[8]?=some '-' then (if (t[10]?.map Char.isDigit)=some true then 8 else 10) else 8
    else 10
  else if t[4]?=some 'W' then
    let pos := 7+((t.drop 7).takeWhile Char.isDigit).length
    if pos<9 then pos else if pos%2=0 then 7 else 8
  else 8

/-- `datetime.fromisoformat`; `none` is its `ValueError`. -/
def fromisoformat (t : List Char) : Option Datetime := do
  let date ← readDate t (separatorAt t)
  match t.drop (separatorAt t) with
  | [] => datetimeOf date ⟨0,0,0,0⟩ none
  | _::time => do
    let (clock,zone) ← readTime time
    datetimeOf date clock (zone.map some)

/-! Reading back what `isoformat` writes -/

theorem digit_read : ∀d<10,(Char.ofNat (48+d)).isDigit=true ∧ (Char.ofNat (48+d)).toNat-48=d := by
  decide

theorem readDigits_pad (k v n : Nat) (t : List Char) : readDigits k v (pad k n++t)=some (v*10^k+n%10^k,t) := by
  induction k generalizing v with
  | zero => simp [readDigits,pad,Nat.mod_one]
  | succ k ih =>
    obtain ⟨hdigit,hvalue⟩ := digit_read (n/10^k%10) (Nat.mod_lt _ (by decide))
    have hsum : (v*10+n/10^k%10)*10^k+n%10^k=v*10^(k+1)+n%10^(k+1) := by
      rw [Nat.mod_pow_succ]
      ring
    rw [pad,List.cons_append,readDigits,if_pos hdigit,hvalue,ih,hsum]

theorem readDigits_pad_lt {k n : Nat} (h : n<10^k) (t : List Char) : readDigits k 0 (pad k n++t)=some (n,t) := by
  rw [readDigits_pad,Nat.mod_eq_of_lt h,Nat.zero_mul,Nat.zero_add]

theorem pad_digits (k n : Nat) : ∀c∈pad k n,c.isDigit=true := by
  induction k with
  | zero => simp [pad]
  | succ k ih =>
    intro c hc
    rcases List.mem_cons.mp hc with rfl | hc
    · exact (digit_read _ (Nat.mod_lt _ (by decide))).1
    · exact ih c hc

theorem pad_length (k n : Nat) : (pad k n).length=k := by
  induction k with
  | zero => rfl
  | succ k ih => exact congrArg (·+1) ih

theorem isZoneSign_digit {c : Char} (h : c.isDigit=true) : isZoneSign c=false := by
  have hne : c≠ '+' ∧ c≠ '-' ∧ c≠ 'Z' := by
    refine ⟨?_,?_,?_⟩
    all_goals
      rintro rfl
      exact absurd h (by decide)
  simp [isZoneSign,hne]

theorem readComponents_colon {k n : Nat} {more : List Char} (hn : n<100) (hmore : more≠[]) :
    readComponents (k+1) true (pad 2 n++ ':'::more)=
      (readComponents k true more).map fun p => (n::p.1,p.2) := by
  obtain ⟨c,rest,rfl⟩ := List.exists_cons_of_ne_nil hmore
  rw [readComponents,readDigits_pad_lt (k:=2) hn]
  simp

theorem readComponents_last {k n : Nat} {colons : Bool} (hn : n<100) :
    readComponents (k+1) colons (pad 2 n)=some ([n],0,true) := by
  have hread := readDigits_pad_lt (k:=2) hn []
  rw [List.append_nil] at hread
  unfold readComponents
  rw [hread]

theorem readClock_pad {h m s : Nat} (hh : h<100) (hm : m<100) (hs : s<100) :
    readClock (pad 2 h++ ':'::(pad 2 m++ ':'::pad 2 s))=some (⟨h,m,s,0⟩,true) := by
  have hsep : (pad 2 h++ ':'::(pad 2 m++ ':'::pad 2 s))[2]?=some ':' := by
    rw [List.getElem?_append_right (Nat.le_of_eq (pad_length 2 h)),pad_length]
    rfl
  have hlast : pad 2 s≠[] := List.ne_nil_of_length_pos (by rw [pad_length]; decide)
  unfold readClock
  rw [hsep,decide_eq_true rfl,readComponents_colon hh (by simp),readComponents_colon hm hlast,
    readComponents_last hs]
  rfl

theorem readDate_pad {d : Ymd} (hd : d.Valid) (t : List Char) :
    readDate (pad 4 d.year++ '-'::(pad 2 d.month++ '-'::(pad 2 d.day++t))) 10=some d := by
  obtain ⟨⟨-,hyear⟩,⟨-,hmonth⟩,-,hday⟩ := hd
  have hday' := daysInMonth_lt (isLeap d.year) d.month hmonth
  have hfirst : (pad 2 d.month++ '-'::(pad 2 d.day++t)).head?≠some 'W' := by
    intro hhead
    have hdigit := pad_digits 2 d.month 'W' (List.mem_of_mem_head? (by simpa [pad] using hhead))
    exact absurd hdigit (by decide)
  unfold readDate
  rw [readDigits_pad_lt (by omega)]
  simp only [Option.bind_eq_bind,Option.bind_some,List.head?_cons,decide_true,if_true,List.tail_cons]
  rw [if_neg hfirst,readDigits_pad_lt (by omega)]
  simp only [Option.bind_some,skipDash,if_true]
  rw [readDigits_pad_lt (by omega)]
  rfl

theorem separatorAt_pad (y m n : Nat) (t : List Char) :
    separatorAt (pad 4 y++ '-'::(pad 2 m++ '-'::(pad 2 n++t)))=10 := by
  have hlength : (pad 4 y++ '-'::(pad 2 m++ '-'::(pad 2 n++t))).length≠7 := by
    simp [pad_length]
    omega
  have hdash : (pad 4 y++ '-'::(pad 2 m++ '-'::(pad 2 n++t)))[4]?=some '-' := by
    rw [List.getElem?_append_right (Nat.le_of_eq (pad_length 4 y)),pad_length]
    rfl
  have hmonth : (pad 4 y++ '-'::(pad 2 m++ '-'::(pad 2 n++t)))[5]?≠some 'W' := by
    intro hw
    have hmem : 'W'∈pad 2 m := by
      have hc : some (Char.ofNat (48+m/10^1%10))=some 'W' := hw
      rw [← Option.some.inj hc]
      exact .head _
    exact absurd (pad_digits 2 m 'W' hmem) (by decide)
  unfold separatorAt
  rw [if_neg hlength,if_pos hdash,if_neg hmonth]

theorem readTime_pad {h m s : Nat} (hh : h<100) (hm : m<100) (hs : s<100) :
    readTime (pad 2 h++ ':'::(pad 2 m++ ':'::(pad 2 s++ ['+','0','0',':','0','0'])))=
      some (⟨h,m,s,0⟩,some .utc) := by
  have hplain : ∀c∈pad 2 h++ ':'::(pad 2 m++ ':'::pad 2 s),(!isZoneSign c)=true := by
    intro c hc
    have hcases : c= ':' ∨ c.isDigit=true := by
      simp only [List.mem_append,List.mem_cons] at hc
      rcases hc with hc | hc | hc | hc | hc
      · exact .inr (pad_digits _ _ c hc)
      · exact .inl hc
      · exact .inr (pad_digits _ _ c hc)
      · exact .inl hc
      · exact .inr (pad_digits _ _ c hc)
    rcases hcases with rfl | hdigit
    · decide
    · rw [isZoneSign_digit hdigit]
      rfl
  have htext : pad 2 h++ ':'::(pad 2 m++ ':'::(pad 2 s++ ['+','0','0',':','0','0']))=
      (pad 2 h++ ':'::(pad 2 m++ ':'::pad 2 s))++ ['+','0','0',':','0','0'] := by simp
  unfold readTime
  rw [htext,List.takeWhile_append_of_pos hplain,List.dropWhile_append_of_pos hplain]
  rw [List.takeWhile_cons_of_neg (by decide),List.append_nil,readClock_pad hh hm hs,
    List.dropWhile_cons_of_neg (by decide)]
  have hzone : readClock ['0','0',':','0','0']=some (⟨0,0,0,0⟩,true) := by decide
  dsimp only
  rw [if_neg (by decide),hzone]
  rfl

theorem isoformat_chars (u : Int) : ∀c∈isoformat u,c.isDigit=true ∨ c∈['-','T',':','+'] := by
  have hpad : ∀k n,∀c∈pad k n,c.isDigit=true ∨ c∈['-','T',':','+'] := fun k n c hc => .inl (pad_digits k n c hc)
  unfold isoformat
  dsimp only
  simp only [List.forall_mem_append,List.forall_mem_cons]
  refine ⟨⟨⟨⟨⟨⟨hpad _ _,?_,hpad _ _⟩,?_,hpad _ _⟩,?_,hpad _ _⟩,?_,hpad _ _⟩,?_,hpad _ _⟩,?_⟩
  · decide
  · decide
  · decide
  · decide
  · decide
  · exact ⟨by decide,by decide,by decide,by decide,by decide,by decide,nofun⟩

/-- What `isoformat` writes for an instant is read back as the instant's second, in UTC. -/
theorem fromisoformat_isoformat {u : Int} (hu : InRange u) :
    ∃h : InRange (u/1000000*1000000),
      fromisoformat (isoformat u)=some ⟨u/1000000*1000000,some (some .utc),h⟩ := by
  obtain ⟨hfirst,hlast⟩ := hu
  unfold calendarDays at hlast
  unfold isoformat
  dsimp only
  generalize hsec : (u/1000000).toNat=seconds
  have hu' : u/1000000*1000000=((seconds*1000000 : Nat) : Int) := by omega
  have hindex : seconds/86400<calendarDays := by
    unfold calendarDays
    omega
  obtain ⟨hvalid,hback⟩ := ofIndex_spec hindex
  generalize ofIndex (seconds/86400)=date at hvalid hback ⊢
  have hclock : (⟨seconds%86400/3600,seconds%86400/60%60,seconds%86400%60,0⟩ : Clock).Valid := by
    refine ⟨?_,?_,?_,?_⟩
    all_goals
      dsimp only
      omega
  have hwall : (date.index*86400+(⟨seconds%86400/3600,seconds%86400/60%60,seconds%86400%60,0⟩ : Clock).seconds)*
      1000000+0=seconds*1000000 := by
    rw [hback]
    unfold Clock.seconds
    dsimp only
    omega
  have hrange := inRange_of_valid ⟨hvalid,hclock⟩
  refine ⟨by rwa [hu',← hwall],?_⟩
  simp only [List.append_assoc,List.cons_append]
  have hdrop : ∀t : List Char,(pad 4 date.year++ '-'::(pad 2 date.month++ '-'::(pad 2 date.day++t))).drop 10=t :=
    fun t => rfl
  unfold fromisoformat
  rw [separatorAt_pad,readDate_pad hvalid,hdrop]
  simp only [Option.bind_eq_bind,Option.bind_some]
  rw [readTime_pad (by omega) (by omega) (by omega)]
  simp only [Option.bind_some,Option.map_some]
  unfold datetimeOf
  rw [dif_pos ⟨hvalid,hclock⟩]
  simp only [Option.some.injEq,Datetime.mk.injEq,and_true]
  rw [hu',← hwall]

end IsoTime

end XiaoQing.Framework
