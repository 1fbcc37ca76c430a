import Mathlib.Data.List.Basic
import Mathlib.Data.List.Induction
import Mathlib.Logic.Function.Iterate
import Mathlib.Tactic.Common
import Mathlib.Algebra.GroupWithZero.Nat
import Mathlib.Algebra.Ring.Int.Defs

namespace XiaoQing.Framework

section

/-! Big-endian numbers -/

/-- `struct.unpack(">…")` -/
def unpackBE (bytes : List UInt8) : Nat := bytes.foldl (fun n b => n*256+b.toNat) 0

def packBE : Nat → Nat → List UInt8
  | 0,_ => []
  | k+1,n => packBE k (n/256)++[UInt8.ofNat n]

@[simp] theorem length_packBE (k n : Nat) : (packBE k n).length=k := by
  induction k generalizing n with
  | zero => rfl
  | succ k ih => rw [packBE,List.length_append,ih,List.length_singleton]

theorem unpackBE_append (bytes : List UInt8) (b : UInt8) : unpackBE (bytes++[b])=unpackBE bytes*256+b.toNat := by
  rw [unpackBE,List.foldl_append]
  rfl

theorem unpackBE_lt (bytes : List UInt8) : unpackBE bytes < 256^bytes.length := by
  induction bytes using List.reverseRecOn with
  | nil => exact Nat.one_pos
  | append_singleton bytes b ih =>
    have hb : b.toNat < 256 := b.toNat_lt
    rw [unpackBE_append,List.length_append,List.length_singleton,Nat.pow_succ]
    omega

theorem unpackBE_packBE (k : Nat) {n : Nat} (h : n < 256^k) : unpackBE (packBE k n)=n := by
  induction k generalizing n with
  | zero =>
    have hn : n=0 := Nat.lt_one_iff.mp h
    subst hn
    rfl
  | succ k ih =>
    have hdiv : n/256 < 256^k := Nat.div_lt_of_lt_mul (by rwa [Nat.mul_comm,← Nat.pow_succ])
    have hlast : (UInt8.ofNat n).toNat=n%256 := UInt8.toNat_ofNat'
    rw [packBE,unpackBE_append,ih hdiv,hlast]
    omega

theorem packBE_unpackBE (bytes : List UInt8) : packBE bytes.length (unpackBE bytes)=bytes := by
  induction bytes using List.reverseRecOn with
  | nil => rfl
  | append_singleton bytes b ih =>
    have hb : b.toNat < 256 := b.toNat_lt
    have hdiv : (unpackBE bytes*256+b.toNat)/256=unpackBE bytes := by omega
    have hlast : UInt8.ofNat (unpackBE bytes*256+b.toNat)=b := by
      refine UInt8.toNat_inj.mp ?_
      rw [UInt8.toNat_ofNat']
      omega
    rw [List.length_append,List.length_singleton,unpackBE_append,packBE,hdiv,hlast,ih]

/-! Little-endian numbers in two's complement -/

/-- `struct.pack("<…")` of a signed number. -/
def packSigned (k : Nat) (x : Int) : List UInt8 := (packBE k (x%256^k).toNat).reverse

/-- `struct.unpack("<…")` of a signed number. -/
def unpackSigned (bytes : List UInt8) : Int :=
  let n := unpackBE bytes.reverse
  if 2*n < 256^bytes.length then n else n-256^bytes.length

/-- The numbers that a signed field of `k` bytes holds. -/
def FitsSigned (k : Nat) (x : Int) : Prop := -256^k≤2*x ∧ 2*x < 256^k

instance (k : Nat) (x : Int) : Decidable (FitsSigned k x) := by
  unfold FitsSigned
  infer_instance

@[simp] theorem length_packSigned (k : Nat) (x : Int) : (packSigned k x).length=k := by
  rw [packSigned,List.length_reverse,length_packBE]

theorem unpackSigned_packSigned {k : Nat} {x : Int} (h : FitsSigned k x) : unpackSigned (packSigned k x)=x := by
  obtain ⟨hlow,hhigh⟩ := h
  have hpos : (0 : Int) < 256^k := Int.pow_pos (by decide)
  have hnonneg := Int.emod_nonneg x (Int.ne_of_gt hpos)
  have hlt := Int.emod_lt_of_pos x hpos
  have hfit : (x%256^k).toNat < 256^k := by
    have hcast : ((256^k : Nat) : Int)=256^k := Int.natCast_pow 256 _
    omega
  have hn : ((x%256^k).toNat : Int)=x%256^k := Int.toNat_of_nonneg hnonneg
  unfold unpackSigned
  rw [length_packSigned,packSigned,List.reverse_reverse,unpackBE_packBE k hfit]
  dsimp only
  have hcast : ((256^k : Nat) : Int)=256^k := Int.natCast_pow 256 _
  split_ifs with hhalf
  · by_cases hx : 0≤x
    · rw [hn,Int.emod_eq_of_lt hx (by omega)]
    · have hmod : x%256^k=x+256^k := by
        rw [← Int.add_emod_right,Int.emod_eq_of_lt (by omega) (by omega)]
      omega
  · by_cases hx : 0≤x
    · have hmod : x%256^k=x := Int.emod_eq_of_lt hx (by omega)
      omega
    · have hmod : x%256^k=x+256^k := by
        rw [← Int.add_emod_right,Int.emod_eq_of_lt (by omega) (by omega)]
      omega

theorem fitsSigned_unpackSigned (bytes : List UInt8) : FitsSigned bytes.length (unpackSigned bytes) := by
  have hlt := unpackBE_lt bytes.reverse
  rw [List.length_reverse] at hlt
  have hcast : ((256^bytes.length : Nat) : Int)=256^bytes.length := Int.natCast_pow 256 _
  unfold FitsSigned unpackSigned
  dsimp only
  split_ifs with hhalf
  · omega
  · omega

theorem packSigned_unpackSigned (bytes : List UInt8) : packSigned bytes.length (unpackSigned bytes)=bytes := by
  have hlt := unpackBE_lt bytes.reverse
  have hback := packBE_unpackBE bytes.reverse
  rw [List.length_reverse] at hlt hback
  have hcast : ((256^bytes.length : Nat) : Int)=256^bytes.length := Int.natCast_pow 256 _
  have hmod : (unpackSigned bytes%256^bytes.length).toNat=unpackBE bytes.reverse := by
    unfold unpackSigned
    dsimp only
    split_ifs with hhalf
    · rw [Int.emod_eq_of_lt (by omega) (by omega)]
      rfl
    · rw [Int.sub_emod_right,Int.emod_eq_of_lt (by omega) (by omega)]
      rfl
  rw [packSigned,hmod,hback,List.reverse_reverse]

/-! CRC-32 with the reflected polynomial -/

def crcPolynomial : BitVec 32 := 0xEDB88320#32

def crcShift (c : BitVec 32) : BitVec 32 := if c.getLsbD 0 then c>>>1^^^crcPolynomial else c>>>1

def crcByte (c : BitVec 32) (b : UInt8) : BitVec 32 := Nat.iterate crcShift 8 (c^^^b.toBitVec.setWidth 32)

/-- `zlib.crc32(bytes, start)` -/
def crc32 (bytes : List UInt8) (start : BitVec 32) : BitVec 32 := ~~~(bytes.foldl crcByte (~~~start))

theorem crc32_append (l r : List UInt8) (start : BitVec 32) : crc32 (l++r) start=crc32 r (crc32 l start) := by
  unfold crc32
  rw [List.foldl_append,BitVec.not_not]

end

section

/-- Of the first byte of a longer sequence: how many bytes follow, the range of the next one, and
the bits it has of the character. -/
def leadByte (b : Nat) : Option (Nat × Nat × Nat × Nat) :=
  if 0xC2≤b∧b≤0xDF then some (1,0x80,0xBF,b-0xC0)
  else if b=0xE0 then some (2,0xA0,0xBF,0)
  else if b=0xED then some (2,0x80,0x9F,0xD)
  else if 0xE1≤b∧b≤0xEF then some (2,0x80,0xBF,b-0xE0)
  else if b=0xF0 then some (3,0x90,0xBF,0)
  else if 0xF1≤b∧b≤0xF3 then some (3,0x80,0xBF,b-0xF0)
  else if b=0xF4 then some (3,0x80,0x8F,4)
  else none

/-- The bits of the bytes that go on with a sequence, so many at most. -/
def continuation (low high : Nat) : Nat → List UInt8 → List Nat
  | n+1,b::t =>
    if low≤b.toNat∧b.toNat≤high then (b.toNat-0x80)::continuation 0x80 0xBF n t else []
  | _,_ => []

/-- The character at the head of a text and the number of bytes it takes after the first one; a
sequence that breaks off is one replacement character. -/
def utf8Head (b : UInt8) (t : List UInt8) : Char × Nat :=
  if b.toNat < 0x80 then (Char.ofNat b.toNat,0)
  else
    match leadByte b.toNat with
    | none => ('\uFFFD',0)
    | some (n,low,high,bits) =>
      let run := continuation low high n t
      if run.length=n then (Char.ofNat (run.foldl (fun c d => c*64+d) bits),n)
      else ('\uFFFD',run.length)

/-- `bytes.decode("utf-8", errors="replace")`; the number counts the bytes of a character still to
skip. -/
def decodeReplace : Nat → List UInt8 → List Char
  | _,[] => []
  | n+1,_::t => decodeReplace n t
  | 0,b::t => (utf8Head b t).1::decodeReplace (utf8Head b t).2 t

/-- The characters that are whole within so many bytes: `encode()[:n].decode(errors="ignore")`. -/
def takeBytes : List Char → Nat → List Char
  | [],_ => []
  | c::t,n => if c.utf8Size≤n then c::takeBytes t (n-c.utf8Size) else []

theorem decodeReplace_ascii {t : List Char} (h : ∀c∈t,c.toNat < 128) :
    decodeReplace 0 (t.map fun c => UInt8.ofNat c.toNat)=t := by
  induction t with
  | nil => rfl
  | cons c t ih =>
    have hc : c.toNat < 128 := h c List.mem_cons_self
    have hbyte : (UInt8.ofNat c.toNat).toNat=c.toNat := by
      rw [UInt8.toNat_ofNat']
      omega
    have hhead : ∀u,utf8Head (UInt8.ofNat c.toNat) u=(c,0) := by
      intro u
      unfold utf8Head
      rw [hbyte,if_pos hc,Char.ofNat_toNat]
    rw [List.map_cons,decodeReplace,hhead,ih fun d hd => h d (List.mem_cons_of_mem c hd)]

/-- `str.encode("utf-8")` of a text without surrogates. -/
def encodeUtf8 (t : List Char) : List UInt8 := t.flatMap String.utf8EncodeChar

/-- `bytes.decode("utf-8")`, without `UnicodeDecodeError`. -/
def decodeUtf8 (b : List UInt8) : Option (List Char) := b.toByteArray.utf8Decode?.map Array.toList

theorem decodeUtf8_encodeUtf8 (t : List Char) : decodeUtf8 (encodeUtf8 t)=some t := by
  change t.utf8Encode.utf8Decode?.map Array.toList=some t
  rw [List.utf8Decode?_utf8Encode]
  rfl

theorem encodeUtf8_of_decodeUtf8 {b : List UInt8} {t : List Char} (h : decodeUtf8 b=some t) :
    encodeUtf8 t=b := by
  obtain ⟨a,ha,rfl⟩ := Option.map_eq_some_iff.mp h
  have hsome : b.toByteArray.utf8Decode?.isSome=true := by rw [ha]; rfl
  have hback := ByteArray.utf8Encode_get_utf8Decode? (h := hsome)
  have hget : b.toByteArray.utf8Decode?.get hsome=a := by simp only [ha,Option.get_some]
  rw [hget] at hback
  exact List.toByteArray_inj.mp hback

theorem zero_mem_utf8EncodeChar (c : Char) : (0 : UInt8)∈String.utf8EncodeChar c ↔ c=Char.ofNat 0 := by
  have hzero : ∀n,(0 : UInt8)=UInt8.ofNat n ↔ n%256=0 := by
    intro n
    rw [← UInt8.toNat_inj,UInt8.toNat_ofNat']
    simp [eq_comm]
  have hlt : c.val.toNat < 1114112 := by
    have hvalid := c.valid
    unfold UInt32.isValidChar Nat.isValidChar at hvalid
    omega
  have hnul : c=Char.ofNat 0 ↔ c.val.toNat=0 := by
    rw [← Char.toNat_inj]
    rfl
  rw [hnul]
  unfold String.utf8EncodeChar
  dsimp only
  split_ifs with hone htwo hthree
  all_goals
    simp only [List.mem_cons,List.not_mem_nil,or_false,hzero]
    omega

theorem zero_mem_encodeUtf8 (t : List Char) : (0 : UInt8)∈encodeUtf8 t ↔ Char.ofNat 0∈t := by
  unfold encodeUtf8
  simp only [List.mem_flatMap,zero_mem_utf8EncodeChar,exists_eq_right]

end

end XiaoQing.Framework
