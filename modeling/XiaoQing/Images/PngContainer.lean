import XiaoQing.Framework.Bytes
import XiaoQing.Framework.Effects

namespace XiaoQing.Images

open Framework

structure ImageValidationError where
  reason : String
  message : String

/-- What ends the check: a rejection, or a read past the end of the payload. -/
inductive ContainerError
  | rejected (e : ImageValidationError)
  | outside

def reject {α : Type} (message : String) : Except ContainerError α :=
  .error (.rejected ⟨"invalid_container",message⟩)

theorem reject_inside {α : Type} (message : String) : (reject message : Except ContainerError α)≠.error .outside :=
  fun h => (nomatch h)

def pngSignature : List UInt8 := [0x89,0x50,0x4E,0x47,0x0D,0x0A,0x1A,0x0A]

def ihdr : List UInt8 := [0x49,0x48,0x44,0x52]

def idat : List UInt8 := [0x49,0x44,0x41,0x54]

def iend : List UInt8 := [0x49,0x45,0x4E,0x44]

def maxPngChunks : Nat := 4096

def isLetter (b : UInt8) : Bool := (65≤b.toNat && b.toNat≤90) || (97≤b.toNat && b.toNat≤122)

/-- `payload[start:stop]`, which must lie in the payload. -/
def slice (payload : List UInt8) (start stop : Nat) : Except ContainerError (List UInt8) :=
  if stop≤payload.length then .ok ((payload.drop start).take (stop-start)) else .error .outside

/-- The part of the loop body that reads a chunk: its type, its data and where it ends. -/
def nextChunk (payload : List UInt8) (offset : Nat) :
    Except ContainerError (List UInt8×List UInt8×Nat) := do
  if payload.length<offset+12 then reject "PNG chunk boundary is invalid"
  else
    let head ← slice payload offset (offset+4)
    let length := unpackBE head
    let stop := offset+12+length
    if payload.length < stop then reject "PNG chunk is truncated"
    else
      let chunkType ← slice payload (offset+4) (offset+8)
      if chunkType.length≠4∨!chunkType.all isLetter then reject "PNG chunk type is invalid"
      else
        let data ← slice payload (offset+8) (offset+8+length)
        let expected ← slice payload (offset+8+length) stop
        if unpackBE expected≠(crc32 data (crc32 chunkType 0)).toNat then reject "PNG chunk CRC is invalid"
        else .ok (chunkType,data,stop)

structure PngChunk where
  type : List UInt8
  data : List UInt8
  typeLength : type.length=4
  letters : type.all isLetter=true
  dataLength : data.length<256^4

def PngChunk.crc (c : PngChunk) : Nat := (crc32 (c.type++c.data) 0).toNat

def PngChunk.bytes (c : PngChunk) : List UInt8 :=
  packBE 4 c.data.length++(c.type++(c.data++packBE 4 c.crc))

@[simp] theorem PngChunk.length_bytes (c : PngChunk) : c.bytes.length=12+c.data.length := by
  simp only [PngChunk.bytes,List.length_append,length_packBE,c.typeLength]
  omega

section

variable {payload t d : List UInt8} {offset stop : Nat} {c : PngChunk}

theorem slice_eq {l m r : List UInt8} (h : payload=l++(m++r)) (hs : offset=l.length)
    (he : stop=offset+m.length) : slice payload offset stop=.ok m := by
  subst hs he h
  have hfit : l.length+m.length≤(l++(m++r)).length := by
    simp only [List.length_append]
    omega
  unfold slice
  rw [if_pos hfit,List.drop_left,Nat.add_sub_cancel_left,List.take_left]

theorem nextChunk_bytes {l r : List UInt8} (h : payload=l++(c.bytes++r)) (hs : offset=l.length) :
    nextChunk payload offset=.ok (c.type,c.data,offset+c.bytes.length) := by
  have hlen : payload.length=offset+(12+c.data.length)+r.length := by
    rw [h,hs]
    simp only [List.length_append,c.length_bytes]
    omega
  have hhead : slice payload offset (offset+4)=.ok (packBE 4 c.data.length) :=
    slice_eq (l:=l) (r:=c.type++(c.data++packBE 4 c.crc)++r) (by rw [h]; simp [PngChunk.bytes]) hs
      (by rw [length_packBE])
  have htype : slice payload (offset+4) (offset+8)=.ok c.type :=
    slice_eq (l:=l++packBE 4 c.data.length) (r:=c.data++packBE 4 c.crc++r)
      (by rw [h]; simp [PngChunk.bytes]) (by rw [List.length_append,length_packBE,hs]) (by rw [c.typeLength])
  have hdata : slice payload (offset+8) (offset+8+c.data.length)=.ok c.data :=
    slice_eq (l:=l++packBE 4 c.data.length++c.type) (r:=packBE 4 c.crc++r)
      (by rw [h]; simp [PngChunk.bytes])
      (by simp only [List.length_append,length_packBE,c.typeLength,hs]) rfl
  have hcrc : slice payload (offset+8+c.data.length) (offset+12+c.data.length)=.ok (packBE 4 c.crc) :=
    slice_eq (l:=l++packBE 4 c.data.length++c.type++c.data) (r:=r)
      (by rw [h]; simp [PngChunk.bytes])
      (by simp only [List.length_append,length_packBE,c.typeLength,hs])
      (by rw [length_packBE]; omega)
  have hcrclt : c.crc<256^4 := (crc32 (c.type++c.data) 0).isLt
  have hsum : (crc32 c.data (crc32 c.type 0)).toNat=c.crc := by rw [← crc32_append,PngChunk.crc]
  unfold nextChunk
  rw [if_neg (by omega),hhead]
  change (if payload.length<offset+12+unpackBE (packBE 4 c.data.length) then _ else _)=_
  rw [unpackBE_packBE 4 c.dataLength,if_neg (by omega),htype]
  change (if c.type.length≠4∨(!c.type.all isLetter)=true then _ else _)=_
  rw [if_neg (by simp [c.typeLength,c.letters]),hdata]
  change (slice payload (offset+8+c.data.length) (offset+12+c.data.length) >>= _)=_
  rw [hcrc]
  change (if unpackBE (packBE 4 c.crc)≠(crc32 c.data (crc32 c.type 0)).toNat then _ else _)=_
  rw [unpackBE_packBE 4 hcrclt,hsum,if_neg (not_not.mpr rfl),c.length_bytes,Nat.add_assoc]

theorem slice_ok (start : Nat) (h : stop≤payload.length) :
    slice payload start stop=.ok ((payload.drop start).take (stop-start)) := if_pos h

theorem nextChunk_ok (h : nextChunk payload offset=.ok (t,d,stop)) :
    ∃c : PngChunk,c.type=t∧c.data=d∧stop=offset+c.bytes.length∧stop≤payload.length∧
      payload.drop offset=c.bytes++payload.drop stop := by
  unfold nextChunk at h
  split_ifs at h with hshort
  · cases h
  have hroom : offset+12≤payload.length := Nat.le_of_not_lt hshort
  obtain ⟨head,hhead,h⟩ := ok_of_bind h
  rw [slice_ok _ (by omega)] at hhead
  dsimp only at h
  split_ifs at h with htrunc
  · cases h
  have hstop : offset+12+unpackBE head≤payload.length := Nat.le_of_not_lt htrunc
  obtain ⟨chunkType,htype,h⟩ := ok_of_bind h
  rw [slice_ok _ (by omega)] at htype
  split_ifs at h with hletters
  · cases h
  obtain ⟨data,hdata,h⟩ := ok_of_bind h
  rw [slice_ok _ (by omega)] at hdata
  obtain ⟨expected,hexpected,h⟩ := ok_of_bind h
  rw [slice_ok _ hstop] at hexpected
  split_ifs at h with hcrc
  · cases h
  cases h
  simp only [Except.ok.injEq] at hhead htype hdata hexpected
  have hheadlen : head.length=4 := by
    rw [← hhead,List.length_take,List.length_drop]
    omega
  have hdatalen : d.length=unpackBE head := by
    rw [← hdata,List.length_take,List.length_drop]
    omega
  have hcrclen : expected.length=4 := by
    rw [← hexpected,List.length_take,List.length_drop]
    omega
  have hbound : d.length<256^4 := by
    have hlt := unpackBE_lt head
    rw [hheadlen] at hlt
    omega
  simp only [not_or,not_not] at hletters
  have hall : t.all isLetter=true := by simpa using hletters.2
  let c : PngChunk := ⟨t,d,hletters.1,hall,hbound⟩
  have hbytes : c.bytes=head++(t++(d++expected)) := by
    have hlength : packBE 4 d.length=head := by
      rw [hdatalen,← hheadlen]
      exact packBE_unpackBE head
    have hsum : packBE 4 c.crc=expected := by
      have hvalue : c.crc=unpackBE expected := by
        rw [not_not.mp hcrc,← crc32_append]
        rfl
      rw [hvalue,← hcrclen]
      exact packBE_unpackBE expected
    change packBE 4 d.length++(t++(d++packBE 4 c.crc))=_
    rw [hlength,hsum]
  refine ⟨c,rfl,rfl,?_,hstop,?_⟩
  · rw [c.length_bytes]
    change _=offset+(12+d.length)
    omega
  · have hsplit : ∀n k : Nat,payload.drop n=(payload.drop n).take k++payload.drop (n+k) := by
      intro n k
      rw [← List.drop_drop,List.take_append_drop]
    have h4 : offset+4-offset=4 := by omega
    have h8 : offset+8-(offset+4)=4 := by omega
    have hlen : offset+8+unpackBE head-(offset+8)=unpackBE head := by omega
    have hend : offset+12+unpackBE head-(offset+8+unpackBE head)=4 := by omega
    rw [h4] at hhead
    rw [h8] at htype
    rw [hlen] at hdata
    rw [hend] at hexpected
    have hlast : offset+8+unpackBE head+4=offset+12+unpackBE head := by omega
    rw [hbytes,hsplit offset 4,hhead,hsplit (offset+4) 4,htype,hsplit (offset+8) (unpackBE head),hdata,
      hsplit (offset+8+unpackBE head) 4,hexpected,hlast]
    simp only [List.append_assoc]

theorem nextChunk_inside : nextChunk payload offset≠.error .outside := by
  unfold nextChunk
  split_ifs with hshort
  · exact reject_inside _
  have hroom : offset+12≤payload.length := Nat.le_of_not_lt hshort
  rw [slice_ok offset (show offset+4≤payload.length by omega)]
  generalize (payload.drop offset).take (offset+4-offset)=head
  change (if payload.length<offset+12+unpackBE head then _ else _)≠_
  split_ifs with htrunc
  · exact reject_inside _
  have hstop : offset+12+unpackBE head≤payload.length := Nat.le_of_not_lt htrunc
  rw [slice_ok (offset+4) (by omega)]
  generalize (payload.drop (offset+4)).take (offset+8-(offset+4))=chunkType
  change (if chunkType.length≠4∨(!chunkType.all isLetter)=true then _ else _)≠_
  split_ifs
  · exact reject_inside _
  rw [slice_ok (offset+8) (by omega),slice_ok (offset+8+unpackBE head) hstop]
  generalize (payload.drop (offset+8)).take _=data
  generalize (payload.drop (offset+8+unpackBE head)).take _=expected
  change (if unpackBE expected≠(crc32 data (crc32 chunkType 0)).toNat then _ else _)≠_
  split_ifs
  · exact reject_inside _
  · exact fun h => (nomatch h)

end

/-! The loop -/

/-- `while offset < len(payload): …`, after `count` chunks. -/
def scan (payload : List UInt8) (offset count : Nat) (seenHeader seenImageData : Bool) :
    Except ContainerError Unit :=
  if offset<payload.length then
    if maxPngChunks≤count then reject "PNG chunk boundary is invalid"
    else
      match hchunk : nextChunk payload offset with
      | .error e => .error e
      | .ok (chunkType,data,stop) =>
        if chunkType=ihdr then
          if seenHeader∨count+1≠1∨data.length≠13 then reject "PNG header placement is invalid"
          else scan payload stop (count+1) true seenImageData
        else if chunkType=idat then
          if !seenHeader then reject "PNG image data precedes its header"
          else scan payload stop (count+1) seenHeader true
        else if chunkType=iend then
          if data≠[]∨!seenHeader∨!seenImageData∨stop≠payload.length then reject "PNG terminator is invalid"
          else .ok ()
        else scan payload stop (count+1) seenHeader seenImageData
  else reject "PNG terminator is missing"
termination_by payload.length-offset
decreasing_by
  all_goals
    obtain ⟨c,-,-,hstop,hle,-⟩ := nextChunk_ok hchunk
    rw [c.length_bytes] at hstop
    omega

def validatePngContainer (payload : List UInt8) : Except ContainerError Unit :=
  if pngSignature.isPrefixOf payload then scan payload pngSignature.length 0 false false
  else reject "PNG signature is invalid"

def chunkBytes (chunks : List PngChunk) : List UInt8 := (chunks.map PngChunk.bytes).flatten

/-- The chunks that the loop accepts after `n` others. -/
def Follows (seenHeader seenImageData : Bool) (n : Nat) : List PngChunk → Prop
  | [] => False
  | c::chunks => n < maxPngChunks∧
    if c.type=ihdr then (seenHeader=false∧n=0∧c.data.length=13)∧Follows true seenImageData (n+1) chunks
    else if c.type=idat then seenHeader=true∧Follows seenHeader true (n+1) chunks
    else if c.type=iend then c.data=[]∧seenHeader=true∧seenImageData=true∧chunks=[]
    else Follows seenHeader seenImageData (n+1) chunks

section

variable {payload : List UInt8} {offset n : Nat} {seenHeader seenImageData : Bool} {chunks : List PngChunk}

theorem drop_chunk {t d : List UInt8} {stop : Nat} (h : nextChunk payload offset=.ok (t,d,stop))
    (hrest : payload.drop stop=chunkBytes chunks) :
    ∃c : PngChunk,c.type=t∧c.data=d∧payload.drop offset=chunkBytes (c::chunks) := by
  obtain ⟨c,htype,hdata,-,-,hdrop⟩ := nextChunk_ok h
  rw [hrest] at hdrop
  exact ⟨c,htype,hdata,hdrop⟩

theorem scan_sound (h : scan payload offset n seenHeader seenImageData=.ok ()) :
    ∃chunks,payload.drop offset=chunkBytes chunks∧Follows seenHeader seenImageData n chunks := by
  fun_induction scan payload offset n seenHeader seenImageData with
  | case1 => cases h
  | case2 => cases h
  | case3 => cases h
  | case4 offset n seenHeader seenImageData _ hcount data stop hplace hchunk ih =>
    obtain ⟨chunks,hrest,hfollows⟩ := ih h
    obtain ⟨c,htype,rfl,hdrop⟩ := drop_chunk hchunk hrest
    simp only [not_or,Bool.not_eq_true,not_not] at hplace
    refine ⟨c::chunks,hdrop,Nat.lt_of_not_le hcount,?_⟩
    rw [if_pos htype]
    exact ⟨⟨hplace.1,by omega,hplace.2.2⟩,hfollows⟩
  | case5 => cases h
  | case6 offset n seenHeader _ _ hcount data stop hseen hchunk hne ih =>
    obtain ⟨chunks,hrest,hfollows⟩ := ih h
    obtain ⟨c,htype,-,hdrop⟩ := drop_chunk hchunk hrest
    refine ⟨c::chunks,hdrop,Nat.lt_of_not_le hcount,?_⟩
    rw [htype,if_neg hne,if_pos rfl]
    exact ⟨by simpa using hseen,hfollows⟩
  | case7 => cases h
  | case8 offset n seenHeader seenImageData _ hcount data stop hend hchunk hne hne' =>
    simp only [not_or,not_not,Bool.not_eq_true',Bool.not_eq_false] at hend
    have hrest : payload.drop stop=chunkBytes [] := by
      rw [hend.2.2.2,List.drop_length]
      rfl
    obtain ⟨c,htype,hdata,hdrop⟩ := drop_chunk hchunk hrest
    refine ⟨[c],hdrop,Nat.lt_of_not_le hcount,?_⟩
    rw [htype,if_neg hne,if_neg hne',if_pos rfl]
    exact ⟨hdata.trans hend.1,hend.2.1,hend.2.2.1,rfl⟩
  | case9 offset n seenHeader seenImageData _ hcount chunkType data stop hchunk hne hne' hne'' ih =>
    obtain ⟨chunks,hrest,hfollows⟩ := ih h
    obtain ⟨c,htype,-,hdrop⟩ := drop_chunk hchunk hrest
    refine ⟨c::chunks,hdrop,Nat.lt_of_not_le hcount,?_⟩
    rw [htype,if_neg hne,if_neg hne',if_neg hne'']
    exact hfollows
  | case10 => cases h

theorem scan_chunk {c : PngChunk} {r : List UInt8} (hdrop : payload.drop offset=c.bytes++r)
    (hcount : n < maxPngChunks) : scan payload offset n seenHeader seenImageData=
      if c.type=ihdr then
        if seenHeader∨n+1≠1∨c.data.length≠13 then reject "PNG header placement is invalid"
        else scan payload (offset+c.bytes.length) (n+1) true seenImageData
      else if c.type=idat then
        if !seenHeader then reject "PNG image data precedes its header"
        else scan payload (offset+c.bytes.length) (n+1) seenHeader true
      else if c.type=iend then
        if c.data≠[]∨!seenHeader∨!seenImageData∨offset+c.bytes.length≠payload.length then
          reject "PNG terminator is invalid"
        else .ok ()
      else scan payload (offset+c.bytes.length) (n+1) seenHeader seenImageData := by
  have hlen : payload.length-offset=12+c.data.length+r.length := by
    rw [← List.length_drop,hdrop,List.length_append,c.length_bytes]
  have hsplit : payload=payload.take offset++(c.bytes++r) := by
    rw [← hdrop,List.take_append_drop]
  have htake : offset=(payload.take offset).length := by
    rw [List.length_take]
    omega
  have hread := nextChunk_bytes hsplit htake
  rw [scan,if_pos (by omega),if_neg (Nat.not_le.mpr hcount)]
  split
  · rename_i e hchunk
    rw [hread] at hchunk
    cases hchunk
  · rename_i chunkType data stop hchunk
    rw [hread] at hchunk
    cases hchunk
    rfl

theorem scan_complete (hdrop : payload.drop offset=chunkBytes chunks)
    (h : Follows seenHeader seenImageData n chunks) : scan payload offset n seenHeader seenImageData=.ok () := by
  induction chunks generalizing offset n seenHeader seenImageData with
  | nil => exact h.elim
  | cons c chunks ih =>
    have hdrop' : payload.drop offset=c.bytes++chunkBytes chunks := hdrop
    have hrest : payload.drop (offset+c.bytes.length)=chunkBytes chunks := by
      rw [← List.drop_drop,hdrop',List.drop_left]
    obtain ⟨hcount,hkind⟩ := h
    rw [scan_chunk hdrop' hcount]
    split_ifs at hkind ⊢ with hihdr hplace hidat hseen hiend hend
    · obtain ⟨⟨rfl,rfl,hdata⟩,-⟩ := hkind
      simp [hdata] at hplace
    · exact ih hrest hkind.2
    · rw [hkind.1] at hseen
      cases hseen
    · exact ih hrest hkind.2
    · obtain ⟨hdata,rfl,rfl,rfl⟩ := hkind
      have hstop : offset+12=payload.length := by
        have hlen := congrArg List.length hdrop
        rw [List.length_drop,chunkBytes,List.map_cons,List.map_nil,List.flatten_cons,List.flatten_nil,
          List.append_nil,c.length_bytes,hdata,List.length_nil] at hlen
        omega
      simp [hdata,hstop] at hend
    · rfl
    · exact ih hrest hkind

theorem scan_inside : scan payload offset n seenHeader seenImageData≠.error .outside := by
  fun_induction scan payload offset n seenHeader seenImageData with
  | case2 _ _ _ _ _ _ e hchunk => exact fun h => nextChunk_inside (Except.error.inj h ▸ hchunk)
  | case4 _ _ _ _ _ _ _ _ _ _ ih => exact ih
  | case6 _ _ _ _ _ _ _ _ _ _ _ ih => exact ih
  | case8 => exact fun h => (nomatch h)
  | case9 _ _ _ _ _ _ _ _ _ _ _ _ _ ih => exact ih
  | case1 | case3 | case5 | case7 | case10 => exact reject_inside _

/-- The chunks after the header: no other header, some image data, an empty terminator at the end. -/
structure Tail (seenImageData : Bool) (n : Nat) (chunks : List PngChunk) : Prop where
  count : n+chunks.length ≤ maxPngChunks
  layout : ∃body last,chunks=body++[last]∧(∀c∈body,c.type≠ihdr∧c.type≠iend)∧last.type=iend∧last.data=[]∧
    (seenImageData=true∨∃c∈body,c.type=idat)

theorem iend_ne : iend≠ihdr∧iend≠idat := by decide

theorem idat_ne : idat≠ihdr∧idat≠iend := by decide

theorem follows_headless (hn : n≠0) : ¬Follows false seenImageData n chunks := by
  induction chunks generalizing n seenImageData with
  | nil => exact id
  | cons c chunks ih =>
    rintro ⟨-,h⟩
    split_ifs at h
    · exact hn h.1.2.1
    · cases h.1
    · cases h.2.1
    · exact ih (Nat.succ_ne_zero n) h

theorem follows_tail (hn : n≠0) : Follows true seenImageData n chunks ↔ Tail seenImageData n chunks := by
  induction chunks generalizing n seenImageData with
  | nil =>
    refine ⟨False.elim,fun h => ?_⟩
    obtain ⟨body,last,he,-⟩ := h.layout
    exact absurd he.symm (by simp)
  | cons c chunks ih =>
    have hrest : ∀d,Follows true d (n+1) chunks ↔ Tail d (n+1) chunks := fun d => ih (Nat.succ_ne_zero n)
    constructor
    · rintro ⟨hcount,h⟩
      split_ifs at h with hihdr hidat hiend
      · cases h.1.1
      · obtain ⟨hlen,body,last,rfl,hbody,hlast,hdata,-⟩ := (hrest true).mp h.2
        refine ⟨by rw [List.length_cons]; omega,c::body,last,rfl,?_,hlast,hdata,
          .inr ⟨c,List.mem_cons_self,hidat⟩⟩
        exact List.forall_mem_cons.mpr ⟨hidat ▸ idat_ne,hbody⟩
      · obtain ⟨hdata,-,rfl,rfl⟩ := h
        exact ⟨hcount,[],c,rfl,fun b hb => absurd hb List.not_mem_nil,hiend,hdata,.inl rfl⟩
      · obtain ⟨hlen,body,last,rfl,hbody,hlast,hdata,himage⟩ := (hrest _).mp h
        refine ⟨by rw [List.length_cons]; omega,c::body,last,rfl,?_,hlast,hdata,?_⟩
        · exact List.forall_mem_cons.mpr ⟨⟨hihdr,hiend⟩,hbody⟩
        · exact himage.imp id fun ⟨b,hb,hidat⟩ => ⟨b,List.mem_cons_of_mem c hb,hidat⟩
    · rintro ⟨hlen,body,last,he,hbody,hlast,hdata,himage⟩
      rw [List.length_cons] at hlen
      refine ⟨by omega,?_⟩
      cases body with
      | nil =>
        obtain ⟨rfl,rfl⟩ := List.cons.inj he
        rw [if_neg (hlast ▸ iend_ne.1),if_neg (hlast ▸ iend_ne.2),if_pos hlast]
        exact ⟨hdata,rfl,himage.resolve_right fun ⟨b,hb,_⟩ => List.not_mem_nil hb,rfl⟩
      | cons b body =>
        obtain ⟨rfl,rfl⟩ := List.cons.inj he
        obtain ⟨⟨hihdr,hiend⟩,hrestbody⟩ := List.forall_mem_cons.mp hbody
        rw [if_neg hihdr]
        split_ifs with hidat
        · exact ⟨rfl,(hrest true).mpr ⟨by omega,body,last,rfl,hrestbody,hlast,hdata,.inl rfl⟩⟩
        · refine (hrest _).mpr ⟨by omega,body,last,rfl,hrestbody,hlast,hdata,himage.imp id ?_⟩
          rintro ⟨b,hb,hb'⟩
          rcases List.mem_cons.mp hb with rfl | hb
          · exact absurd hb' hidat
          · exact ⟨b,hb,hb'⟩

end

structure PngLayout (payload : List UInt8) : Prop where
  layout : ∃header body last,payload=pngSignature++chunkBytes (header::(body++[last]))∧
    header.type=ihdr∧header.data.length=13∧(∀c∈body,c.type≠ihdr∧c.type≠iend)∧(∃c∈body,c.type=idat)∧
    last.type=iend∧last.data=[]∧body.length+2 ≤ maxPngChunks

theorem signature_drop {payload : List UInt8} (h : pngSignature.isPrefixOf payload=true) :
    payload=pngSignature++payload.drop pngSignature.length := by
  obtain ⟨r,rfl⟩ := List.isPrefixOf_iff_prefix.mp h
  rw [List.drop_left]

/-- The check accepts the well-formed containers, and never reads outside the payload. -/
theorem png_container_iff (payload : List UInt8) : (validatePngContainer payload=.ok () ↔ PngLayout payload)∧
    validatePngContainer payload≠.error .outside := by
  refine ⟨⟨fun h => ?_,fun h => ?_⟩,?_⟩
  · unfold validatePngContainer at h
    split_ifs at h with hsignature
    · obtain ⟨chunks,hdrop,hfollows⟩ := scan_sound h
      have hpayload := signature_drop hsignature
      rw [hdrop] at hpayload
      cases chunks with
      | nil => exact hfollows.elim
      | cons header chunks =>
        obtain ⟨-,hkind⟩ := hfollows
        split_ifs at hkind with hihdr
        · obtain ⟨hcount,body,last,rfl,hbody,hlast,hdata,himage⟩ := (follows_tail (by omega)).mp hkind.2
          rw [List.length_append,List.length_singleton] at hcount
          exact ⟨header,body,last,hpayload,hihdr,hkind.1.2.2,hbody,
            himage.resolve_left (Bool.noConfusion),hlast,hdata,by omega⟩
        · cases hkind.1
        · cases hkind.2.1
        · exact absurd hkind (follows_headless (by omega))
    · cases h
  · obtain ⟨header,body,last,rfl,hihdr,hlen,hbody,himage,hlast,hdata,hcount⟩ := h
    have htail : Tail false 1 (body++[last]) :=
      ⟨by rw [List.length_append,List.length_singleton]; omega,body,last,rfl,hbody,hlast,hdata,.inr himage⟩
    have hsignature : pngSignature.isPrefixOf (pngSignature++chunkBytes (header::(body++[last])))=true :=
      List.isPrefixOf_iff_prefix.mpr (List.prefix_append _ _)
    unfold validatePngContainer
    rw [if_pos hsignature]
    refine scan_complete (List.drop_left) ⟨by decide,?_⟩
    rw [if_pos hihdr]
    exact ⟨⟨rfl,rfl,hlen⟩,(follows_tail (by omega)).mpr htail⟩
  · unfold validatePngContainer
    split_ifs
    · exact scan_inside
    · exact reject_inside _

/-- A header for an image of the largest sides that the format can write. -/
def largestHeader : PngChunk := ⟨ihdr,[255,255,255,255,255,255,255,255,8,6,0,0,0],rfl,rfl,by decide⟩

def emptyData : PngChunk := ⟨idat,[],rfl,rfl,by decide⟩

def trailer : PngChunk := ⟨iend,[],rfl,rfl,by decide⟩

/-- The check looks at no dimension, and asks for image data. -/
theorem largest_image_accepted :
    (∃payload,validatePngContainer payload=.ok ()∧unpackBE ((payload.drop 16).take 4)=2^32-1∧
      unpackBE ((payload.drop 20).take 4)=2^32-1)∧
    validatePngContainer (pngSignature++chunkBytes [largestHeader,trailer])≠.ok () := by
  constructor
  · refine ⟨pngSignature++chunkBytes [largestHeader,emptyData,trailer],?_,rfl,rfl⟩
    exact (png_container_iff _).1.mpr ⟨largestHeader,[emptyData],trailer,rfl,rfl,rfl,by decide,
      ⟨emptyData,List.mem_singleton_self _,rfl⟩,rfl,rfl,by decide⟩
  · have hsignature : pngSignature.isPrefixOf (pngSignature++chunkBytes [largestHeader,trailer])=true :=
      List.isPrefixOf_iff_prefix.mpr (List.prefix_append _ _)
    have hfirst : (pngSignature++chunkBytes [largestHeader,trailer]).drop 8=
      largestHeader.bytes++chunkBytes [trailer] := rfl
    have hsecond : (pngSignature++chunkBytes [largestHeader,trailer]).drop (8+largestHeader.bytes.length)=
        trailer.bytes++[] := by
      rw [← List.drop_drop,hfirst,List.drop_left]
      exact (List.append_nil _).trans rfl
    have hheader : scan (pngSignature++chunkBytes [largestHeader,trailer]) 8 0 false false=_ :=
      scan_chunk hfirst (by decide)
    have hend : scan (pngSignature++chunkBytes [largestHeader,trailer]) _ 1 true false=_ :=
      scan_chunk hsecond (by decide)
    intro h
    unfold validatePngContainer at h
    rw [if_pos hsignature] at h
    change scan _ 8 0 false false=_ at h
    rw [hheader,if_pos (show largestHeader.type=ihdr from rfl),if_neg (by decide),hend,
      if_neg (by decide),if_neg (by decide),if_pos (show trailer.type=iend from rfl),if_pos (by simp)] at h
    cases h

end XiaoQing.Images
