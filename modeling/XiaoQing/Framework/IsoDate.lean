import XiaoQing.Framework.IsoTime
import Mathlib.Data.Char
import Mathlib.Data.List.Lex
import Mathlib.Data.Prod.Lex

/-! Dates of the years 1 to 9999 and their texts, which stand in the order of the dates -/

namespace XiaoQing.Framework

/-- A `date`. -/
def Date := {d : Ymd // d.Valid}

namespace Date

def key (d : Date) : Nat ×ₗ Nat ×ₗ Nat := toLex (d.1.year,toLex (d.1.month,d.1.day))

theorem key_injective : Function.Injective key := by
  intro d e h
  have hyear : d.1.year=e.1.year := congrArg (fun k => (ofLex k).1) h
  have hmonth : d.1.month=e.1.month := congrArg (fun k => (ofLex (ofLex k).2).1) h
  have hday : d.1.day=e.1.day := congrArg (fun k => (ofLex (ofLex k).2).2) h
  apply Subtype.ext
  calc d.1=⟨d.1.year,d.1.month,d.1.day⟩ := rfl
    _=⟨e.1.year,e.1.month,e.1.day⟩ := by rw [hyear,hmonth,hday]

instance : LinearOrder Date := LinearOrder.lift' key key_injective

open IsoTime

/-- `date.isoformat`. -/
def iso (d : Date) : List Char :=
  pad 4 d.1.year++ '-'::(pad 2 d.1.month++ '-'::pad 2 d.1.day)

theorem digit_lt : ∀a<10,∀b<10,(Char.ofNat (48+a)<Char.ofNat (48+b)↔a<b)∧
    (Char.ofNat (48+a)=Char.ofNat (48+b)↔a=b) := by
  decide

/-- Numbers are compared by their leading digits, and then by the rest. -/
theorem leading_lt_iff {a b x y p : Nat} (hx : x<p) (hy : y<p) :
    x+p*a<y+p*b↔a<b∨a=b∧x<y := by
  rcases Nat.lt_trichotomy a b with hlt | rfl | hgt
  · have hmul : p*(a+1) ≤ p*b := Nat.mul_le_mul_left p hlt
    rw [Nat.mul_add,Nat.mul_one] at hmul
    omega
  · simp
  · have hmul : p*(b+1) ≤ p*a := Nat.mul_le_mul_left p hgt
    rw [Nat.mul_add,Nat.mul_one] at hmul
    omega

theorem leading_eq_iff {a b x y p : Nat} (hx : x<p) (hy : y<p) : x+p*a=y+p*b↔a=b∧x=y := by
  constructor
  · intro h
    have hless := leading_lt_iff (a:=a) (b:=b) hx hy
    have hmore := leading_lt_iff (a:=b) (b:=a) hy hx
    omega
  · rintro ⟨rfl,rfl⟩
    rfl

/-- Digits with zeros in front stand in the order of the numbers. -/
theorem pad_append_lt (k n m : Nat) (s t : List Char) :
    pad k n++s<pad k m++t↔n%10^k < m%10^k∨n%10^k=m%10^k∧s<t := by
  induction k with
  | zero => simp [pad,Nat.mod_one]
  | succ k ih =>
    have hdigit := digit_lt (n/10^k%10) (Nat.mod_lt _ (by decide)) (m/10^k%10) (Nat.mod_lt _ (by decide))
    have hpos : 0<10^k := Nat.pow_pos (by decide)
    have hn := Nat.mod_lt n hpos
    have hm := Nat.mod_lt m hpos
    have hsplit : ∀n : Nat,n%10^(k+1)=n%10^k+10^k*(n/10^k%10) := fun n => Nat.mod_pow_succ
    rw [hsplit n,hsplit m,leading_lt_iff hn hm,leading_eq_iff hn hm]
    change Char.ofNat (48+n/10^k%10)::(pad k n++s)<Char.ofNat (48+m/10^k%10)::(pad k m++t)↔_
    rw [List.cons_lt_cons_iff,ih,hdigit.1,hdigit.2]
    tauto

theorem bounds (d : Date) : d.1.year<10^4∧d.1.month<10^2∧d.1.day<10^2 := by
  obtain ⟨⟨-,hyear⟩,⟨-,hmonth⟩,-,hday⟩ := d.2
  have hdays := daysInMonth_lt (isLeap d.1.year) d.1.month hmonth
  omega

theorem iso_lt_iff {d e : Date} : d.iso<e.iso↔d<e := by
  obtain ⟨hy,hm,hn⟩ := bounds d
  obtain ⟨hy',hm',hn'⟩ := bounds e
  have hlast := pad_append_lt 2 d.1.day e.1.day [] []
  rw [List.append_nil,List.append_nil,Nat.mod_eq_of_lt hn,Nat.mod_eq_of_lt hn'] at hlast
  change _↔d.key<e.key
  unfold iso key
  rw [pad_append_lt,List.cons_lt_cons_self,pad_append_lt,List.cons_lt_cons_self,hlast,
    Nat.mod_eq_of_lt hy,Nat.mod_eq_of_lt hy',Nat.mod_eq_of_lt hm,Nat.mod_eq_of_lt hm',
    Prod.Lex.toLex_lt_toLex,Prod.Lex.toLex_lt_toLex]
  simp

theorem iso_le_iff {d e : Date} : d.iso ≤ e.iso↔d ≤ e := by
  rw [← not_lt,← not_lt]
  exact not_congr iso_lt_iff

theorem iso_injective : Function.Injective iso := by
  intro d e h
  apply le_antisymm
  · exact iso_le_iff.mp (h ▸ le_refl d.iso)
  · exact iso_le_iff.mp (h ▸ le_refl d.iso)

theorem iso_length (d : Date) : d.iso.length=10 := by
  unfold iso
  simp [pad_length]

theorem readDate_iso (d : Date) : readDate d.iso 10=some d.1 := by
  have h := readDate_pad d.2 []
  unfold iso
  simpa using h

end Date

end XiaoQing.Framework
