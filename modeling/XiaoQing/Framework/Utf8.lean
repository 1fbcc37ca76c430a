import Mathlib.Data.List.Infix
import XiaoQing.Framework.Bytes

namespace XiaoQing.Framework

section

/-- The reasons of a `UnicodeDecodeError` of UTF-8. -/
inductive Utf8Fault
  | invalidStartByte
  | invalidContinuationByte
  | unexpectedEndOfData
  deriving DecidableEq

/-- `UnicodeDecodeError`: the bytes from `start` on, up to `stop`, are at fault. -/
structure Utf8Error where
  start : Nat
  stop : Nat
  reason : Utf8Fault

/-- The character at the head of a text and the number of bytes it takes after the first one, or what
is wrong there and with how many bytes. -/
def strictHead (b : UInt8) (t : List UInt8) : Except (Utf8Fault × Nat) (Char × Nat) :=
  if b.toNat < 0x80 then .ok (Char.ofNat b.toNat,0)
  else
    match leadByte b.toNat with
    | none => .error (.invalidStartByte,1)
    | some (n,low,high,bits) =>
      let run := continuation low high n t
      if run.length=n then .ok (Char.ofNat (run.foldl (fun c d => c*64+d) bits),n)
      else if run.length=t.length then .error (.unexpectedEndOfData,run.length+1)
      else .error (.invalidContinuationByte,run.length+1)

/-- `bytes.decode("utf-8")` of the bytes from `pos` on; the second number counts the bytes of a character
still to skip. -/
def decodeStrict (pos : Nat) : Nat → List UInt8 → Except Utf8Error (List Char)
  | _,[] => .ok []
  | n+1,_::t => decodeStrict (pos+1) n t
  | 0,b::t =>
    match strictHead b t with
    | .error (reason,k) => .error ⟨pos,pos+k,reason⟩
    | .ok (c,n) => (decodeStrict (pos+1) n t).map (c :: ·)

@[simp] theorem decodeStrict_nil (pos n : Nat) : decodeStrict pos n []=.ok [] := by
  cases n <;> rfl

variable {c : Char}

variable {b : UInt8}

/-- Bytes that go on with a sequence, the first of them within the bounds of its lead. -/
def Continues (low high : Nat) : List UInt8 → Prop
  | [] => True
  | b::t => low≤b.toNat∧b.toNat≤high∧∀d∈t,0x80≤d.toNat∧d.toNat≤0xBF

theorem Continues.tail {low high : Nat} {t : List UInt8} (h : Continues low high (b::t)) :
    Continues 0x80 0xBF t := by
  cases t with
  | nil => trivial
  | cons d t =>
    obtain ⟨hlow,hhigh⟩ := h.2.2 d List.mem_cons_self
    exact ⟨hlow,hhigh,fun e he => h.2.2 e (List.mem_cons_of_mem d he)⟩

theorem Continues.take {low high : Nat} {t : List UInt8} (h : Continues low high t) (k : Nat) :
    Continues low high (t.take k) := by
  cases t with
  | nil => rwa [List.take_nil]
  | cons b t =>
    cases k with
    | zero => trivial
    | succ k => exact ⟨h.1,h.2.1,fun d hd => h.2.2 d (List.mem_of_mem_take hd)⟩

/-- The bits of a byte that goes on with a sequence. -/
def digit (b : UInt8) : Nat := b.toNat-0x80

theorem continuation_append {low high n : Nat} {r t : List UInt8} (h : Continues low high r)
    (hn : r.length=n∨r.length≤n∧t=[]) : continuation low high n (r++t)=r.map digit := by
  induction r generalizing low high n with
  | nil =>
    rcases hn with rfl | ⟨-,rfl⟩
    · cases t <;> rfl
    · cases n <;> rfl
  | cons b r ih =>
    cases n with
    | zero => simp at hn
    | succ n =>
      have hrest : r.length=n∨r.length≤n∧t=[] := by simpa using hn
      rw [List.cons_append,continuation,if_pos ⟨h.1,h.2.1⟩,ih h.tail hrest]
      rfl

structure Layout (c : Char) (b : UInt8) (r : List UInt8) where
  low : Nat
  high : Nat
  bits : Nat
  encoded : String.utf8EncodeChar c=b::r
  long : ¬b.toNat < 0x80
  lead : leadByte b.toNat=some (r.length,low,high,bits)
  continues : Continues low high r
  value : (r.map digit).foldl (fun c d => c*64+d) bits=c.toNat

theorem Layout.head {r : List UInt8} (l : Layout c b r) (t : List UInt8) :
    strictHead b (r++t)=.ok (c,r.length) := by
  unfold strictHead
  rw [if_neg l.long,l.lead]
  dsimp only
  rw [continuation_append l.continues (.inl rfl),List.length_map,if_pos rfl,l.value,Char.ofNat_toNat]

/-- A sequence that is cut is faulted for the end of the data, all of it. -/
theorem Layout.cut {r : List UInt8} (l : Layout c b r) {k : Nat} (hk : k < r.length) :
    strictHead b (r.take k)=.error (.unexpectedEndOfData,k+1) := by
  have hlength : (r.take k).length=k := List.length_take_of_le hk.le
  have hrun := continuation_append (l.continues.take k) (.inr ⟨hlength.trans_le hk.le,rfl⟩)
  rw [List.append_nil] at hrun
  unfold strictHead
  rw [if_neg l.long,l.lead]
  dsimp only
  rw [hrun,List.length_map,hlength,if_neg hk.ne,if_pos rfl]

end

end XiaoQing.Framework
