import Mathlib.Data.List.Infix
import Mathlib.Tactic.Common
import XiaoQing.Framework.Effects

namespace XiaoQing.Http

open Framework

abbrev Bytes := List UInt8

/-- A class of `zlib` decompression objects. `read` is what the bytes fed so far decode to, `stop`
where the compressed stream in them ends; `After z p` says that the object `z` was fed `p` and has
returned all its output. A call that returns less than it may has read all that it was fed. -/
structure Inflater (ζ : Type) where
  start : ζ
  decompress : ζ → Bytes → Nat → Option (Bytes×ζ)
  flush : ζ → Nat → Option (Bytes×ζ)
  eof : ζ → Bool
  unusedData : ζ → Bytes
  unconsumedTail : ζ → Bytes
  valid : Bytes → Bool
  read : Bytes → Bytes
  stop : Bytes → Option Nat
  After : ζ → Bytes → Prop
  valid_nil : valid []=true
  read_nil : read []=[]
  read_append : ∀p c,read p<+:read (p++c)
  after_start : After start []
  decompress_le : ∀z c n out z',decompress z c n=some (out,z') → out.length≤n
  decompress_read : ∀z p c n out z',After z p → decompress z c n=some (out,z') → out.length<n →
    valid (p++c)=true∧read (p++c)=read p++out∧After z' (p++c)
  decompress_valid : ∀z p c n,After z p → valid (p++c)=true → (read (p++c)).length<(read p).length+n →
    ∃out z',decompress z c n=some (out,z')∧out.length<n
  flush_after : ∀z p n,After z p → ∃z',flush z n=some ([],z')∧After z' p
  eof_after : ∀z p,After z p → eof z=(stop p).isSome
  unused_after : ∀z p,After z p → unusedData z=((stop p).map fun k => p.drop k).getD []
  tail_after : ∀z p,After z p → unconsumedTail z=[]

inductive ContentEncoding
  | identity
  | gzip
  | deflate

structure BodyLimits where
  maxWireBytes : Nat
  maxDecodedBytes : Nat
  maxDecompressionRatio : Nat
  ratioGraceBytes : Nat
  chunkBytes : Nat
  positive : 0 < maxWireBytes∧0 < maxDecodedBytes∧0 < maxDecompressionRatio∧0<ratioGraceBytes∧0<chunkBytes

/-- `ResponseLimitError` and `ResponseFormatError`. -/
inductive ResponseError
  | limit (message : String)
  | format (message : String)

/-- `zlib.decompressobj` with the window bits of the two formats. -/
structure Zlib (ζ : Type) where
  gzip : Inflater ζ
  deflate : Inflater ζ

variable {ζ : Type}

def Zlib.decompressobj (Z : Zlib ζ) : ContentEncoding → Option (Inflater ζ)
  | .identity => none
  | .gzip => some Z.gzip
  | .deflate => some Z.deflate

structure BoundedDecoder (ζ : Type) where
  wireBytes : Nat
  decoded : Bytes
  decompressor : Option (Inflater ζ×ζ)

def BodyLimits.permittedByRatio (limits : BodyLimits) (wire : Nat) : Nat :=
  max limits.ratioGraceBytes (wire*limits.maxDecompressionRatio)

/-- `_BoundedDecoder.__init__` -/
def newDecoder (Z : Zlib ζ) (encoding : ContentEncoding) (limits : BodyLimits) (declared : Option Nat) :
    Except ResponseError (BoundedDecoder ζ) :=
  if declared.any fun n => decide (limits.maxWireBytes<n) then .error (.limit "declared response body is too large")
  else if (Z.decompressobj encoding).isNone∧declared.any fun n => decide (limits.maxDecodedBytes<n) then
    .error (.limit "declared decoded body is too large")
  else .ok ⟨0,[],(Z.decompressobj encoding).map fun I => (I,I.start)⟩

namespace BoundedDecoder

variable (limits : BodyLimits) (d : BoundedDecoder ζ)

def append (output : Bytes) : Except ResponseError (BoundedDecoder ζ) :=
  if output.isEmpty then .ok d
  else if limits.maxDecodedBytes<d.decoded.length+output.length then
    .error (.limit "decoded response body is too large")
  else if limits.permittedByRatio d.wireBytes<d.decoded.length+output.length then
    .error (.limit "response decompression ratio is too large")
  else .ok {d with decoded:=d.decoded++output}

def remainingOutputBudget : Except ResponseError Nat :=
  let absoluteRemaining : Int := limits.maxDecodedBytes-d.decoded.length
  let ratioRemaining : Int := limits.permittedByRatio d.wireBytes-d.decoded.length
  let remaining := min absoluteRemaining ratioRemaining
  if remaining<0 then .error (.limit "decoded response body is too large") else .ok remaining.toNat

def inflate (payload : Bytes) : Except ResponseError (Bytes×Option (Inflater ζ×ζ)) :=
  match d.decompressor with
  | none => .ok (payload,none)
  | some (I,z) => do
    let budget ← d.remainingOutputBudget limits
    match I.decompress z payload (budget+1) with
    | some (output,z) => .ok (output,some (I,z))
    | none => .error (.format "invalid compressed response")

def tail : Bytes :=
  match d.decompressor with
  | none => []
  | some (I,z) => I.unconsumedTail z

def received (payload : Bytes) : BoundedDecoder ζ := {d with wireBytes:=d.wireBytes+payload.length}

/-- `feed`; `none` is a chunk of another type than bytes. -/
def feed : Option Bytes → Except ResponseError (BoundedDecoder ζ)
  | none => .error (.format "response stream yielded a non-bytes chunk")
  | some payload =>
    if payload.isEmpty then .ok d
    else
      let d := d.received payload
      if limits.maxWireBytes<d.wireBytes then .error (.limit "response wire body is too large")
      else do
        let inflated ← d.inflate limits payload
        let d ← BoundedDecoder.append limits {d with decompressor:=inflated.2} inflated.1
        if d.tail.isEmpty then .ok d else .error (.limit "decoded response body is too large")

def finish : Except ResponseError Bytes :=
  match d.decompressor with
  | none => .ok d.decoded
  | some (I,z) => do
    let budget ← d.remainingOutputBudget limits
    match I.flush z (budget+1) with
    | none => .error (.format "invalid compressed response")
    | some (output,z) =>
      let d ← BoundedDecoder.append limits {d with decompressor:=some (I,z)} output
      if !I.eof z then .error (.format "truncated compressed response")
      else if !(I.unusedData z).isEmpty∨!(I.unconsumedTail z).isEmpty then
        .error (.format "compressed response has trailing data")
      else .ok d.decoded

end BoundedDecoder

/-- The loop of `decode_limited_chunks`: the decoder after some chunks. -/
def feedAll (Z : Zlib ζ) (encoding : ContentEncoding) (limits : BodyLimits) (declared : Option Nat)
    (chunks : List (Option Bytes)) : Except ResponseError (BoundedDecoder ζ) := do
  let d ← newDecoder Z encoding limits declared
  chunks.foldlM (fun d c => d.feed limits c) d

def decodeLimitedChunks (Z : Zlib ζ) (encoding : ContentEncoding) (limits : BodyLimits)
    (declared : Option Nat) (chunks : List (Option Bytes)) : Except ResponseError (Bytes×Nat) := do
  let d ← feedAll Z encoding limits declared chunks
  let body ← d.finish limits
  .ok (body,d.wireBytes)

/-! What a byte stream decodes to, however it is cut -/

def Zlib.read (Z : Zlib ζ) (encoding : ContentEncoding) (p : Bytes) : Bytes :=
  match Z.decompressobj encoding with
  | none => p
  | some I => I.read p

def Zlib.valid (Z : Zlib ζ) (encoding : ContentEncoding) (p : Bytes) : Bool :=
  match Z.decompressobj encoding with
  | none => true
  | some I => I.valid p

def Zlib.complete (Z : Zlib ζ) (encoding : ContentEncoding) (p : Bytes) : Bool :=
  match Z.decompressobj encoding with
  | none => true
  | some I => (I.stop p).any fun k => decide (p.length≤k)

/-- The bytes received so far, and what they decode to, are within the limits. -/
structure Fits (Z : Zlib ζ) (encoding : ContentEncoding) (limits : BodyLimits) (p : Bytes) : Prop where
  wire : p.length≤limits.maxWireBytes
  valid : Z.valid encoding p=true
  decoded : (Z.read encoding p).length≤limits.maxDecodedBytes
  ratio : (Z.read encoding p).length≤limits.permittedByRatio p.length

/-- The decompression object, if the encoding has one, has been fed `p`. -/
def ObjectAfter (Z : Zlib ζ) (encoding : ContentEncoding) (object : Option (Inflater ζ×ζ)) (p : Bytes) : Prop :=
  match Z.decompressobj encoding with
  | none => object=none
  | some I => ∃z,object=some (I,z)∧I.After z p

/-- The decoder has read `p`. -/
structure Tracks (Z : Zlib ζ) (encoding : ContentEncoding) (limits : BodyLimits) (d : BoundedDecoder ζ)
    (p : Bytes) : Prop where
  wire : d.wireBytes=p.length
  decoded : d.decoded=Z.read encoding p
  object : ObjectAfter Z encoding d.decompressor p
  fits : Fits Z encoding limits p

section

variable {Z : Zlib ζ} {encoding : ContentEncoding} {limits : BodyLimits} {d d' : BoundedDecoder ζ}
  {p c output body : Bytes} {I : Inflater ζ}

theorem read_identity (h : Z.decompressobj encoding=none) : Z.read encoding p=p := by
  rw [Zlib.read,h]

theorem read_object (h : Z.decompressobj encoding=some I) : Z.read encoding p=I.read p := by
  rw [Zlib.read,h]

theorem valid_identity (h : Z.decompressobj encoding=none) : Z.valid encoding p=true := by
  rw [Zlib.valid,h]

theorem valid_object (h : Z.decompressobj encoding=some I) : Z.valid encoding p=I.valid p := by
  rw [Zlib.valid,h]

theorem complete_identity (h : Z.decompressobj encoding=none) : Z.complete encoding p=true := by
  rw [Zlib.complete,h]

theorem complete_object (h : Z.decompressobj encoding=some I) :
    Z.complete encoding p=(I.stop p).any fun k => decide (p.length≤k) := by
  rw [Zlib.complete,h]

variable {object : Option (Inflater ζ×ζ)}

theorem objectAfter_iff : ObjectAfter Z encoding object p ↔
    Z.decompressobj encoding=none∧object=none∨
      ∃I z,Z.decompressobj encoding=some I∧object=some (I,z)∧I.After z p := by
  unfold ObjectAfter
  cases Z.decompressobj encoding with
  | none => simp
  | some I => simp

theorem permitted_mono {n m : Nat} (h : n ≤ m) : limits.permittedByRatio n≤limits.permittedByRatio m := by
  have hmul := Nat.mul_le_mul_right limits.maxDecompressionRatio h
  unfold BodyLimits.permittedByRatio
  omega

theorem append_ok (hdecoded : d.decoded.length+output.length≤limits.maxDecodedBytes)
    (hratio : d.decoded.length+output.length≤limits.permittedByRatio d.wireBytes) :
    d.append limits output=.ok {d with decoded:=d.decoded++output} := by
  unfold BoundedDecoder.append
  split_ifs with hempty hlarge hover
  · rw [List.isEmpty_iff.mp hempty,List.append_nil]
  · omega
  · omega
  · rfl

theorem append_fits (h : d.append limits output=.ok d') (hne : output≠[]) :
    d.decoded.length+output.length≤limits.maxDecodedBytes∧
      d.decoded.length+output.length≤limits.permittedByRatio d.wireBytes := by
  unfold BoundedDecoder.append at h
  split_ifs at h with hempty hlarge hover
  · exact absurd (List.isEmpty_iff.mp hempty) hne
  · exact ⟨Nat.le_of_not_lt hlarge,Nat.le_of_not_lt hover⟩

theorem remainingOutputBudget_ok (hdecoded : d.decoded.length≤limits.maxDecodedBytes)
    (hratio : d.decoded.length≤limits.permittedByRatio d.wireBytes) :
    d.remainingOutputBudget limits=
      .ok (min limits.maxDecodedBytes (limits.permittedByRatio d.wireBytes)-d.decoded.length) := by
  have hle : d.decoded.length ≤ min limits.maxDecodedBytes (limits.permittedByRatio d.wireBytes) :=
    le_min hdecoded hratio
  unfold BoundedDecoder.remainingOutputBudget
  dsimp only
  rw [if_neg (by omega)]
  congr 1
  omega

theorem newDecoder_tracks {declared : Option Nat} (h : newDecoder Z encoding limits declared=.ok d) :
    Tracks Z encoding limits d [] := by
  unfold newDecoder at h
  split_ifs at h
  cases h
  have hread : Z.read encoding []=[] := by
    cases hobject : Z.decompressobj encoding with
    | none => exact read_identity hobject
    | some I => exact (read_object hobject).trans I.read_nil
  have hvalid : Z.valid encoding []=true := by
    cases hobject : Z.decompressobj encoding with
    | none => exact valid_identity hobject
    | some I => exact (valid_object hobject).trans I.valid_nil
  refine ⟨rfl,hread.symm,?_,Nat.zero_le _,hvalid,?_,?_⟩
  · rw [objectAfter_iff]
    cases hobject : Z.decompressobj encoding with
    | none => exact .inl ⟨rfl,rfl⟩
    | some I => exact .inr ⟨I,I.start,rfl,rfl,I.after_start⟩
  · rw [hread]
    exact Nat.zero_le _
  · rw [hread]
    exact Nat.zero_le _

def BoundedDecoder.room (limits : BodyLimits) (d : BoundedDecoder ζ) : Nat :=
  min limits.maxDecodedBytes (limits.permittedByRatio d.wireBytes)

theorem Tracks.decoded_le (h : Tracks Z encoding limits d p) : d.decoded.length≤(d.received c).room limits := by
  have hmono : limits.permittedByRatio p.length≤limits.permittedByRatio (d.received c).wireBytes :=
    permitted_mono (h.wire ▸ Nat.le_add_right _ _)
  have hdecoded := h.fits.decoded
  have hratio := h.fits.ratio
  rw [← h.decoded] at hdecoded hratio
  exact le_min hdecoded (hratio.trans hmono)

theorem Tracks.budget (h : Tracks Z encoding limits d p) :
    (d.received c).remainingOutputBudget limits=.ok ((d.received c).room limits-d.decoded.length) := by
  have hle := h.decoded_le (c:=c)
  exact remainingOutputBudget_ok (hle.trans (min_le_left _ _)) (hle.trans (min_le_right _ _))

theorem inflate_object {z : ζ} (h : Tracks Z encoding limits d p) (hz : d.decompressor=some (I,z)) :
    (d.received c).inflate limits c=
      match I.decompress z c ((d.received c).room limits-d.decoded.length+1) with
      | some (output,z) => .ok (output,some (I,z))
      | none => .error (.format "invalid compressed response") := by
  have hsome : (d.received c).decompressor=some (I,z) := hz
  unfold BoundedDecoder.inflate
  rw [hsome]
  dsimp only
  rw [h.budget]
  rfl

theorem inflate_identity (hz : d.decompressor=none) : (d.received c).inflate limits c=.ok (c,none) := by
  have hnone : (d.received c).decompressor=none := hz
  unfold BoundedDecoder.inflate
  rw [hnone]

theorem inflate_inv (h : Tracks Z encoding limits d p)
    (hinflate : (d.received c).inflate limits c=.ok (output,object)) :
    Z.decompressobj encoding=none∧output=c∧object=none∨
      ∃I z z',Z.decompressobj encoding=some I∧I.After z p∧object=some (I,z')∧
        I.decompress z c ((d.received c).room limits-d.decoded.length+1)=some (output,z') := by
  rcases objectAfter_iff.mp h.object with ⟨hencoding,hz⟩ | ⟨I,z,hencoding,hz,hafter⟩
  · rw [inflate_identity hz] at hinflate
    cases hinflate
    exact .inl ⟨hencoding,rfl,rfl⟩
  · rw [inflate_object h hz] at hinflate
    split at hinflate
    · rename_i out z' hcall
      cases hinflate
      exact .inr ⟨I,z,z',hencoding,hafter,rfl,hcall⟩
    · cases hinflate

theorem inflate_cases (h : Tracks Z encoding limits d p)
    (hinflate : (d.received c).inflate limits c=.ok (output,object)) :
    Z.valid encoding (p++c)=true∧Z.read encoding (p++c)=d.decoded++output∧ObjectAfter Z encoding object (p++c)∨
      (d.received c).room limits<d.decoded.length+output.length := by
  rw [h.decoded,objectAfter_iff]
  rcases inflate_inv h hinflate with ⟨hencoding,rfl,rfl⟩ | ⟨I,z,z',hencoding,hafter,rfl,hcall⟩
  · rw [read_identity hencoding,read_identity hencoding]
    exact .inl ⟨valid_identity hencoding,rfl,.inl ⟨hencoding,rfl⟩⟩
  · have hle := h.decoded_le (c:=c)
    rw [h.decoded] at hle hcall
    rw [read_object hencoding] at hle hcall ⊢
    rw [read_object hencoding]
    by_cases hsmall : output.length<(d.received c).room limits-(I.read p).length+1
    · obtain ⟨hvalid,hread,hafter'⟩ := I.decompress_read z p c _ _ _ hafter hcall hsmall
      exact .inl ⟨(valid_object hencoding).trans hvalid,hread,.inr ⟨I,z',hencoding,rfl,hafter'⟩⟩
    · exact .inr (by omega)

theorem inflate_ok (h : Tracks Z encoding limits d p) (hvalid : Z.valid encoding (p++c)=true)
    (hroom : (Z.read encoding (p++c)).length≤(d.received c).room limits) :
    ∃output object,(d.received c).inflate limits c=.ok (output,object)∧
      d.decoded.length+output.length≤(d.received c).room limits := by
  rcases objectAfter_iff.mp h.object with ⟨hencoding,hz⟩ | ⟨I,z,hencoding,hz,hafter⟩
  · refine ⟨c,none,inflate_identity hz,?_⟩
    rw [read_identity hencoding,List.length_append] at hroom
    rw [h.decoded,read_identity hencoding]
    exact hroom
  · have hdecoded := h.decoded
    have hle := h.decoded_le (c:=c)
    rw [valid_object hencoding] at hvalid
    rw [read_object hencoding] at hroom hdecoded
    have hfew : (I.read (p++c)).length<(I.read p).length+((d.received c).room limits-d.decoded.length+1) := by
      rw [← hdecoded]
      omega
    obtain ⟨out,z',hcall,hsmall⟩ := I.decompress_valid z p c _ hafter hvalid hfew
    refine ⟨out,some (I,z'),?_,by omega⟩
    rw [inflate_object h hz,hcall]

theorem received_wire (h : Tracks Z encoding limits d p) : (d.received c).wireBytes=(p++c).length := by
  rw [List.length_append,← h.wire]
  rfl

theorem tail_after (h : ObjectAfter Z encoding object p) (n : Nat) (l : Bytes) :
    (BoundedDecoder.mk n l object).tail=[] := by
  rcases objectAfter_iff.mp h with ⟨-,rfl⟩ | ⟨I,z,-,rfl,hafter⟩
  · rfl
  · exact I.tail_after z p hafter

theorem feed_ok (h : Tracks Z encoding limits d p) (hfits : Fits Z encoding limits (p++c)) :
    ∃d',d.feed limits (some c)=.ok d'∧Tracks Z encoding limits d' (p++c) := by
  have hwire := received_wire (c:=c) h
  have hroom : (Z.read encoding (p++c)).length≤(d.received c).room limits := by
    have hratio := hfits.ratio
    rw [← hwire] at hratio
    exact le_min hfits.decoded hratio
  unfold BoundedDecoder.feed
  dsimp only
  split_ifs with hempty hlarge
  · refine ⟨d,rfl,?_⟩
    rw [List.isEmpty_iff.mp hempty,List.append_nil]
    exact h
  · rw [hwire] at hlarge
    exact absurd hfits.wire (Nat.not_le.mpr hlarge)
  · obtain ⟨output,object,hinflate,hle⟩ := inflate_ok h hfits.valid hroom
    have hcases := (inflate_cases h hinflate).resolve_right (Nat.not_lt.mpr hle)
    obtain ⟨-,hread,hobject⟩ := hcases
    have happend : BoundedDecoder.append limits {d.received c with decompressor:=object} output=
        .ok ⟨(d.received c).wireBytes,d.decoded++output,object⟩ :=
      append_ok (hle.trans (min_le_left _ _)) (hle.trans (min_le_right _ _))
    refine ⟨⟨(d.received c).wireBytes,d.decoded++output,object⟩,?_,hwire,hread.symm,hobject,hfits⟩
    rw [hinflate]
    change (BoundedDecoder.append limits {d.received c with decompressor:=object} output >>= _)=_
    rw [happend]
    change (if (BoundedDecoder.mk _ _ object).tail.isEmpty=true then _ else _)=_
    rw [tail_after hobject]
    rfl

theorem feed_fits (h : Tracks Z encoding limits d p) (hfeed : d.feed limits (some c)=.ok d') :
    Fits Z encoding limits (p++c) := by
  have hwire := received_wire (c:=c) h
  unfold BoundedDecoder.feed at hfeed
  dsimp only at hfeed
  split_ifs at hfeed with hempty hlarge
  · rw [List.isEmpty_iff.mp hempty,List.append_nil]
    exact h.fits
  · obtain ⟨⟨output,object⟩,hinflate,hfeed⟩ := ok_of_bind hfeed
    obtain ⟨e,happend,-⟩ := ok_of_bind hfeed
    have hle : d.decoded.length+output.length≤(d.received c).room limits := by
      by_cases hnil : output=[]
      · rw [hnil]
        exact h.decoded_le
      · obtain ⟨hdecoded,hratio⟩ := append_fits happend hnil
        exact le_min hdecoded hratio
    obtain ⟨hvalid,hread,-⟩ := (inflate_cases h hinflate).resolve_right (Nat.not_lt.mpr hle)
    have hlen : (Z.read encoding (p++c)).length=d.decoded.length+output.length := by
      rw [hread,List.length_append]
    rw [hwire] at hlarge
    refine ⟨Nat.le_of_not_lt hlarge,hvalid,?_,?_⟩
    · rw [hlen]
      exact hle.trans (min_le_left _ _)
    · rw [hlen,← hwire]
      exact hle.trans (min_le_right _ _)

theorem feed_tracks (h : Tracks Z encoding limits d p) (hfeed : d.feed limits (some c)=.ok d') :
    Tracks Z encoding limits d' (p++c) := by
  obtain ⟨e,he,htracks⟩ := feed_ok h (feed_fits h hfeed)
  rw [hfeed] at he
  cases he
  exact htracks

theorem finish_iff (h : Tracks Z encoding limits d p) :
    d.finish limits=.ok body ↔ Z.complete encoding p=true∧body=Z.read encoding p := by
  rw [← h.decoded]
  unfold BoundedDecoder.finish
  rcases objectAfter_iff.mp h.object with ⟨hencoding,hz⟩ | ⟨I,z,hencoding,hz,hafter⟩
  · rw [hz,complete_identity hencoding]
    dsimp only
    rw [Except.ok.injEq]
    exact ⟨fun he => ⟨rfl,he.symm⟩,fun he => he.2.symm⟩
  · have hdecoded := h.fits.decoded
    have hratio := h.fits.ratio
    rw [← h.decoded] at hdecoded hratio
    rw [← h.wire] at hratio
    obtain ⟨z',hflush,hafter'⟩ := I.flush_after z p (d.room limits-d.decoded.length+1) hafter
    rw [hz,remainingOutputBudget_ok hdecoded hratio,complete_object hencoding]
    change (match I.flush z (d.room limits-d.decoded.length+1) with
      | none => _ | some (output,z) => _)=_ ↔ _
    rw [hflush]
    change (if (!I.eof z')=true then _ else if (!(I.unusedData z').isEmpty)=true∨(!(I.unconsumedTail z').isEmpty)=true
      then _ else (Except.ok d.decoded : Except ResponseError Bytes))=_ ↔ _
    rw [I.eof_after z' p hafter',I.unused_after z' p hafter',I.tail_after z' p hafter']
    cases hstop : I.stop p with
    | none =>
      refine ⟨fun he => ?_,fun he => (nomatch he.1)⟩
      change (if true=true then _ else _)=_ at he
      rw [if_pos rfl] at he
      cases he
    | some k =>
      change (if false=true then _ else if (!(p.drop k).isEmpty)=true∨false=true then _ else _)=_ ↔
        decide (p.length≤k)=true∧_
      rw [if_neg Bool.false_ne_true,decide_eq_true_iff,← List.drop_eq_nil_iff]
      by_cases hnil : p.drop k=[]
      · rw [hnil,if_neg (by decide),Except.ok.injEq]
        exact ⟨fun he => ⟨rfl,he.symm⟩,fun he => he.2.symm⟩
      · have hrest : (!(p.drop k).isEmpty)=true := by
          rw [Bool.not_eq_true',List.isEmpty_eq_false_iff]
          exact hnil
        rw [if_pos (.inl hrest)]
        exact ⟨fun he => (nomatch he),fun he => absurd he.1 hnil⟩

theorem feeds_tracks (chunks : List Bytes) (h : Tracks Z encoding limits d p)
    (hfeeds : (chunks.map some).foldlM (fun d c => d.feed limits c) d=.ok d') :
    Tracks Z encoding limits d' (p++chunks.flatten) := by
  induction chunks generalizing d p with
  | nil =>
    cases hfeeds
    rw [List.flatten_nil,List.append_nil]
    exact h
  | cons c chunks ih =>
    rw [List.map_cons,List.foldlM_cons] at hfeeds
    obtain ⟨e,hfeed,hrest⟩ := ok_of_bind hfeeds
    rw [List.flatten_cons,← List.append_assoc]
    exact ih (feed_tracks h hfeed) hrest

theorem feeds_iff (chunks : List Bytes) (h : Tracks Z encoding limits d p) :
    (∃d',(chunks.map some).foldlM (fun d c => d.feed limits c) d=.ok d') ↔
      ∀l r,chunks=l++r → Fits Z encoding limits (p++l.flatten) := by
  induction chunks generalizing d p with
  | nil =>
    refine ⟨fun _ l r he => ?_,fun _ => ⟨d,rfl⟩⟩
    rw [(List.append_eq_nil_iff.mp he.symm).1,List.flatten_nil,List.append_nil]
    exact h.fits
  | cons c chunks ih =>
    rw [List.map_cons,List.foldlM_cons]
    constructor
    · rintro ⟨d',hfeeds⟩ l r he
      obtain ⟨e,hfeed,hrest⟩ := ok_of_bind hfeeds
      cases l with
      | nil =>
        rw [List.flatten_nil,List.append_nil]
        exact h.fits
      | cons b l =>
        obtain ⟨rfl,rfl⟩ := List.cons.inj he
        rw [List.flatten_cons,← List.append_assoc]
        exact (ih (feed_tracks h hfeed)).mp ⟨d',hrest⟩ l r rfl
    · intro hall
      have hfirst : Fits Z encoding limits (p++c) := by
        have hone := hall [c] chunks rfl
        rwa [List.flatten_cons,List.flatten_nil,List.append_nil] at hone
      obtain ⟨e,hfeed,htracks⟩ := feed_ok h hfirst
      obtain ⟨d',hrest⟩ := (ih htracks).mpr fun l r he => by
        have hlater := hall (c::l) r (congrArg (c::·) he)
        rwa [List.flatten_cons,← List.append_assoc] at hlater
      refine ⟨d',?_⟩
      rw [hfeed]
      exact hrest

end

def DeclaredFits (Z : Zlib ζ) (encoding : ContentEncoding) (limits : BodyLimits) (declared : Option Nat) : Prop :=
  ∀n,declared=some n → n≤limits.maxWireBytes∧
    (Z.decompressobj encoding=none → n≤limits.maxDecodedBytes)

/-- What a chunk may add to what is held within the limits: itself, or one byte of output. -/
def stepBytes (Z : Zlib ζ) (encoding : ContentEncoding) (chunk : Bytes) : Nat :=
  match Z.decompressobj encoding with
  | none => chunk.length
  | some _ => 1

structure BodyBounded (Z : Zlib ζ) (encoding : ContentEncoding) (limits : BodyLimits) (declared : Option Nat) :
    Prop where
  accepts : ∀(chunks : List Bytes) body wire,decodeLimitedChunks Z encoding limits declared (chunks.map some)=.ok (body,wire) ↔
    DeclaredFits Z encoding limits declared∧(∀l r,chunks=l++r → Fits Z encoding limits l.flatten)∧
      Z.complete encoding chunks.flatten=true∧body=Z.read encoding chunks.flatten∧wire=chunks.flatten.length
  within : ∀(chunks : List Bytes) body wire,decodeLimitedChunks Z encoding limits declared (chunks.map some)=.ok (body,wire) →
    wire≤limits.maxWireBytes∧body.length≤limits.maxDecodedBytes∧body.length≤limits.permittedByRatio wire
  same : ∀(chunks chunks' : List Bytes) result result',chunks.flatten=chunks'.flatten →
    decodeLimitedChunks Z encoding limits declared (chunks.map some)=.ok result →
    decodeLimitedChunks Z encoding limits declared (chunks'.map some)=.ok result' → result=result'
  coarser : ∀(groups : List (List Bytes)) result,
    decodeLimitedChunks Z encoding limits declared (groups.flatten.map some)=.ok result →
    decodeLimitedChunks Z encoding limits declared ((groups.map List.flatten).map some)=.ok result
  held : ∀(chunks : List Bytes) d chunk output object,feedAll Z encoding limits declared (chunks.map some)=.ok d →
    d.wireBytes≤limits.maxWireBytes∧d.decoded.length≤limits.maxDecodedBytes∧
      (∀I z,d.decompressor=some (I,z) → I.unconsumedTail z=[]∧(I.unusedData z).length≤limits.maxWireBytes)∧
      ((d.received chunk).inflate limits chunk=.ok (output,object) →
        d.decoded.length+output.length≤limits.maxDecodedBytes+stepBytes Z encoding chunk)

section

variable {Z : Zlib ζ} {encoding : ContentEncoding} {limits : BodyLimits} {declared : Option Nat}

theorem declaredFits_iff : DeclaredFits Z encoding limits declared ↔
    ¬declared.any (fun n => decide (limits.maxWireBytes<n))=true∧
      ¬((Z.decompressobj encoding).isNone=true∧declared.any (fun n => decide (limits.maxDecodedBytes<n))=true) := by
  cases declared with
  | none => simp [DeclaredFits]
  | some n => cases hencoding : Z.decompressobj encoding <;> simp [DeclaredFits,hencoding]

theorem newDecoder_iff : (∃d,newDecoder Z encoding limits declared=.ok d) ↔ DeclaredFits Z encoding limits declared := by
  rw [declaredFits_iff]
  unfold newDecoder
  split_ifs with hwire hdecoded
  · exact ⟨fun ⟨d,hd⟩ => (nomatch hd),fun h => absurd hwire h.1⟩
  · exact ⟨fun ⟨d,hd⟩ => (nomatch hd),fun h => absurd hdecoded h.2⟩
  · exact ⟨fun _ => ⟨hwire,hdecoded⟩,fun _ => ⟨_,rfl⟩⟩

theorem unread_le {d : BoundedDecoder ζ} {p : Bytes} (h : Tracks Z encoding limits d p) {I : Inflater ζ} {z : ζ}
    (hz : d.decompressor=some (I,z)) : I.unconsumedTail z=[]∧(I.unusedData z).length≤limits.maxWireBytes := by
  rcases objectAfter_iff.mp h.object with ⟨-,hnone⟩ | ⟨J,y,-,hsome,hafter⟩
  · rw [hz] at hnone
    cases hnone
  · rw [hz] at hsome
    cases hsome
    refine ⟨I.tail_after z p hafter,?_⟩
    rw [I.unused_after z p hafter]
    cases I.stop p with
    | none => exact Nat.zero_le _
    | some k =>
      have hwire := h.fits.wire
      change (p.drop k).length≤_
      rw [List.length_drop]
      omega

theorem inflate_held {d : BoundedDecoder ζ} {p chunk output : Bytes} {object : Option (Inflater ζ×ζ)}
    (h : Tracks Z encoding limits d p) (hinflate : (d.received chunk).inflate limits chunk=.ok (output,object)) :
    d.decoded.length+output.length≤limits.maxDecodedBytes+stepBytes Z encoding chunk := by
  have hdecoded := h.fits.decoded
  rw [← h.decoded] at hdecoded
  unfold stepBytes
  rcases inflate_inv h hinflate with ⟨hencoding,rfl,-⟩ | ⟨I,z,z',hencoding,-,-,hcall⟩
  · rw [hencoding]
    exact Nat.add_le_add_right hdecoded _
  · have hle := I.decompress_le _ _ _ _ _ hcall
    have hroom := h.decoded_le (c:=chunk)
    have hlimit : (d.received chunk).room limits≤limits.maxDecodedBytes := min_le_left _ _
    rw [hencoding]
    dsimp only
    omega

variable {chunks : List Bytes}

theorem feedAll_tracks {d : BoundedDecoder ζ}
    (h : feedAll Z encoding limits declared (chunks.map some)=.ok d) :
    Tracks Z encoding limits d chunks.flatten := by
  unfold feedAll at h
  obtain ⟨e,hnew,hfeeds⟩ := ok_of_bind h
  exact feeds_tracks chunks (newDecoder_tracks hnew) hfeeds

theorem feedAll_iff : (∃d,feedAll Z encoding limits declared (chunks.map some)=.ok d) ↔
    DeclaredFits Z encoding limits declared∧∀l r,chunks=l++r → Fits Z encoding limits l.flatten := by
  rw [← newDecoder_iff]
  constructor
  · rintro ⟨d,h⟩
    unfold feedAll at h
    obtain ⟨e,hnew,hfeeds⟩ := ok_of_bind h
    exact ⟨⟨e,hnew⟩,(feeds_iff chunks (newDecoder_tracks hnew)).mp ⟨d,hfeeds⟩⟩
  · rintro ⟨⟨e,hnew⟩,hall⟩
    obtain ⟨d,hfeeds⟩ := (feeds_iff chunks (newDecoder_tracks hnew)).mpr hall
    refine ⟨d,?_⟩
    unfold feedAll
    rw [hnew]
    exact hfeeds

theorem decode_iff {body : Bytes} {wire : Nat} :
    decodeLimitedChunks Z encoding limits declared (chunks.map some)=.ok (body,wire) ↔
      DeclaredFits Z encoding limits declared∧(∀l r,chunks=l++r → Fits Z encoding limits l.flatten)∧
        Z.complete encoding chunks.flatten=true∧body=Z.read encoding chunks.flatten∧wire=chunks.flatten.length := by
  rw [← and_assoc,← feedAll_iff]
  unfold decodeLimitedChunks
  constructor
  · intro h
    obtain ⟨d,hfeeds,h⟩ := ok_of_bind h
    obtain ⟨body',hfinish,h⟩ := ok_of_bind h
    cases h
    have htracks := feedAll_tracks hfeeds
    obtain ⟨hcomplete,hbody⟩ := (finish_iff htracks).mp hfinish
    exact ⟨⟨d,hfeeds⟩,hcomplete,hbody,htracks.wire⟩
  · rintro ⟨⟨d,hfeeds⟩,hcomplete,hbody,rfl⟩
    have htracks := feedAll_tracks hfeeds
    rw [hfeeds,← htracks.wire]
    change (d.finish limits >>= _)=_
    rw [(finish_iff htracks).mpr ⟨hcomplete,hbody⟩]
    rfl

end

/-- For every way of cutting a stream into chunks the reader keeps to its limits, and to what the
stream decodes to. -/
theorem bounded_body_decodes (Z : Zlib ζ) (encoding : ContentEncoding) (limits : BodyLimits)
    (declared : Option Nat) : BodyBounded Z encoding limits declared := by
  refine ⟨fun chunks body wire => decode_iff,fun chunks body wire h => ?_,fun chunks chunks' r r' he h h' => ?_,
    fun groups r h => ?_,fun chunks d chunk output object h => ?_⟩
  · obtain ⟨-,hfits,-,rfl,rfl⟩ := decode_iff.mp h
    have hall := hfits chunks [] (List.append_nil _).symm
    exact ⟨hall.wire,hall.decoded,hall.ratio⟩
  · obtain ⟨-,-,-,hbody,hwire⟩ := decode_iff.mp (show decodeLimitedChunks _ _ _ _ _=.ok (r.1,r.2) from h)
    obtain ⟨-,-,-,hbody',hwire'⟩ := decode_iff.mp (show decodeLimitedChunks _ _ _ _ _=.ok (r'.1,r'.2) from h')
    rw [he,← hbody'] at hbody
    rw [he,← hwire'] at hwire
    exact Prod.ext hbody hwire
  · obtain ⟨hdeclared,hfits,hcomplete,hbody,hwire⟩ :=
      decode_iff.mp (show decodeLimitedChunks _ _ _ _ _=.ok (r.1,r.2) from h)
    have hflat : (groups.map List.flatten).flatten=groups.flatten.flatten := List.flatten_flatten.symm
    refine decode_iff.mpr ⟨hdeclared,fun l t he => ?_,hflat ▸ hcomplete,hflat ▸ hbody,hflat ▸ hwire⟩
    obtain ⟨groups₁,groups₂,rfl,rfl,rfl⟩ := List.map_eq_append_iff.mp he
    have hone := hfits groups₁.flatten groups₂.flatten List.flatten_append
    rwa [List.flatten_flatten] at hone
  · have htracks := feedAll_tracks h
    exact ⟨htracks.wire ▸ htracks.fits.wire,htracks.decoded ▸ htracks.fits.decoded,
      fun I z => unread_le htracks,inflate_held htracks⟩

/-! The stream that `zlib` writes for forty equal bytes -/

def runStream : Bytes := [120,156,75,76,36,14,0,0,54,235,15,41]

def runCount (n : Nat) : Nat := if n<4 then 0 else if n<5 then 1 else if n<7 then 2 else 40

def runRead (p : Bytes) : Bytes := List.replicate (runCount p.length) 97

def runValid (p : Bytes) : Bool := p.isPrefixOf runStream || runStream.isPrefixOf p

def runStop (p : Bytes) : Option Nat := if runStream.isPrefixOf p then some runStream.length else none

theorem runRead_append (p c : Bytes) : runRead p<+:runRead (p++c) := by
  have hcount : runCount p.length≤runCount (p++c).length := by
    rw [List.length_append]
    unfold runCount
    split_ifs <;> omega
  refine ⟨List.replicate (runCount (p++c).length-runCount p.length) 97,?_⟩
  rw [runRead,runRead,List.replicate_append_replicate,Nat.add_sub_cancel' hcount]

def runDecompress (z : Option Bytes) (c : Bytes) (n : Nat) : Option (Bytes×Option Bytes) :=
  match z with
  | none => none
  | some p =>
    if runValid (p++c) then
      let rest := (runRead (p++c)).drop (runRead p).length
      if rest.length<n then some (rest,some (p++c)) else some (rest.take n,none)
    else none

theorem runDecompress_read {p c out : Bytes} {z : Option Bytes} {n : Nat}
    (h : runDecompress (some p) c n=some (out,z)) (hn : out.length<n) :
    runValid (p++c)=true∧runRead (p++c)=runRead p++out∧z=some (p++c) := by
  unfold runDecompress at h
  dsimp only at h
  split_ifs at h with hvalid hsmall
  · cases h
    obtain ⟨r,hr⟩ := runRead_append p c
    refine ⟨hvalid,?_,rfl⟩
    rw [← hr,List.drop_left]
  · cases h
    rw [List.length_take] at hn
    omega

def runInflater : Inflater (Option Bytes) where
  start := some []
  decompress := runDecompress
  flush z _ := z.map fun p => ([],some p)
  eof z := z.any fun p => (runStop p).isSome
  unusedData z := ((z.bind runStop).map fun k => (z.getD []).drop k).getD []
  unconsumedTail _ := []
  valid := runValid
  read := runRead
  stop := runStop
  After z p := z=some p
  valid_nil := rfl
  read_nil := rfl
  read_append := runRead_append
  after_start := rfl
  decompress_le z c n out z' h := by
    cases z with
    | none => cases h
    | some p =>
      unfold runDecompress at h
      dsimp only at h
      split_ifs at h with hvalid hsmall
      · cases h
        exact Nat.le_of_lt hsmall
      · cases h
        rw [List.length_take]
        exact Nat.min_le_left _ _
  decompress_read z p c n out z' hz h hn := by
    subst hz
    exact runDecompress_read h hn
  decompress_valid z p c n hz hvalid hfew := by
    subst hz
    have hle := (runRead_append p c).length_le
    have hsmall : ((runRead (p++c)).drop (runRead p).length).length<n := by
      rw [List.length_drop]
      omega
    refine ⟨_,some (p++c),?_,hsmall⟩
    unfold runDecompress
    dsimp only
    rw [if_pos hvalid,if_pos hsmall]
  flush_after z p n hz := ⟨some p,by rw [hz]; rfl,rfl⟩
  eof_after z p hz := by
    rw [hz]
    rfl
  unused_after z p hz := by
    rw [hz]
    rfl
  tail_after z p hz := rfl

def runLimits : BodyLimits := ⟨100,1000,4,1,100,by decide⟩

/-- Whether a body is accepted depends on the chunks: the ratio is checked after each of them. -/
theorem chunks_decide : ∃(Z : Zlib (Option Bytes)) (limits : BodyLimits) (chunks chunks' : List Bytes),
    chunks.flatten=chunks'.flatten∧
      decodeLimitedChunks Z .deflate limits none (chunks.map some)=.ok (List.replicate 40 97,12)∧
      ∀result,decodeLimitedChunks Z .deflate limits none (chunks'.map some)≠.ok result := by
  refine ⟨⟨runInflater,runInflater⟩,runLimits,[runStream],[runStream.take 7,runStream.drop 7],rfl,?_,
    fun result h => ?_⟩
  · refine decode_iff.mpr ⟨fun n hn => (nomatch hn),fun l r he => ?_,rfl,rfl,rfl⟩
    cases l with
    | nil => exact ⟨by decide,rfl,by decide,by decide⟩
    | cons b l =>
      obtain ⟨rfl,hrest⟩ := List.cons.inj he
      obtain ⟨rfl,rfl⟩ := List.append_eq_nil_iff.mp hrest.symm
      exact ⟨by decide,rfl,by decide,by decide⟩
  · obtain ⟨-,hfits,-⟩ := decode_iff.mp (show decodeLimitedChunks _ _ _ _ _=.ok (result.1,result.2) from h)
    have hfirst := (hfits [runStream.take 7] [runStream.drop 7] rfl).ratio
    exact absurd hfirst (by decide)

end XiaoQing.Http
