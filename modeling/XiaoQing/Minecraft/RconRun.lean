import XiaoQing.Minecraft.RconClient

namespace XiaoQing.Minecraft

open Framework Commands

/-- Packets and the bytes they were read from. -/
inductive Frames : List RconPacket → Bytes → Prop
  | nil : Frames [] []
  | snoc {ps : List RconPacket} {b e : Bytes} {p : RconPacket} (h : Frames ps b) (he : p.encode=.ok e) :
      Frames (ps++[p]) (b++e)

def idOf (n : Nat) : Nat := if n=0 then 0 else (n-1)%2147483647+1

variable {s t : RconClient} {c : Connection} {p : RconPacket} {q r : Served} {header b : Bytes}
  {parts : List Text} {n : Nat}

theorem nextRequestId_idOf (n : Nat) : RconClient.nextRequestId (idOf n)=idOf (n+1) := by
  unfold RconClient.nextRequestId idOf
  rw [if_neg (Nat.succ_ne_zero n),Nat.add_sub_cancel]
  split_ifs with hzero hlast <;> omega

theorem encode_of_decode {body rest : Bytes} (hheader : header.length=4)
    (hbody : body.length=(unpackSigned header).toNat) (h : RconPacket.decode (header++body)=.ok (p,rest)) :
    p.encode=.ok (header++body) := by
  obtain ⟨e,he,hdata⟩ := RconPacket.decode_ok.mp h
  obtain ⟨-,hlong,-,hparts⟩ := RconPacket.encode_ok.mp he
  have hfield : header=packSigned 4 ((10+(encodeUtf8 p.payload).length : Nat) : Int) := by
    have htake := congrArg (List.take 4) hdata
    rw [List.take_left' hheader,hparts] at htake
    simp only [List.append_assoc] at htake
    rwa [List.take_left' (length_packSigned 4 _)] at htake
  have hvalue : unpackSigned header=(10+(encodeUtf8 p.payload).length : Nat) := by
    rw [hfield]
    exact RconPacket.unpack_length hlong
  have hlength : e.length=(header++body).length := by
    rw [List.length_append,hheader,hbody,hvalue,hparts]
    simp
    omega
  have hrest : rest=[] := by
    have hsum := congrArg List.length hdata
    rw [← hlength,List.length_append] at hsum
    exact List.length_eq_zero_iff.mp (by omega)
  rw [hdata,hrest,List.append_nil]
  exact he

/-! The invariant -/

/-- What a client has received is what was read from it in packets, the header of the next one, and what
waits to be read. -/
def Connection.Accounted (c : Connection) (header : Bytes) : Prop :=
  ∃b,Frames c.taken b ∧ c.received=b++header++c.buffer

/-- An answer is the payloads of the packets that its own id was on, which stand in the stream behind what
had been read before. -/
structure Served.Sound (r : Served) : Prop where
  framed : ∃b rest,Frames (r.earlier++r.packets) b ∧ r.stream=b++rest
  own : ∀p∈r.packets,p.requestId=r.requestId ∧ p.packetType=packetResponse
  response : r.response=r.packets.flatMap RconPacket.payload
  limit : utf8Length r.response ≤ maxResponseBytes

structure Served.Before (q r : Served) : Prop where
  number : q.number < r.number
  taken : q.serial=r.serial → q.earlier++q.packets<+:r.earlier

structure Served.Good (requests opened : Nat) (r : Served) : Prop where
  sound : r.Sound
  id : r.requestId=idOf r.number
  number : r.number≤requests
  serial : r.serial≤opened

structure Base (s : RconClient) : Prop where
  numbered : s.requestId=idOf s.requests
  good : ∀r∈s.log,r.Good s.requests s.opened
  before : s.log.Pairwise Served.Before

structure Held (s : RconClient) (c : Connection) (header : Bytes) : Prop where
  serial : c.serial ≤ s.opened
  accounted : c.Accounted header
  taken : ∀r∈s.log,r.serial=c.serial → r.earlier++r.packets<+:c.taken

structure Asking (s : RconClient) (c : Connection) : Prop where
  number : ∀r∈s.log,r.number < s.requests
  mark : s.mark≤c.taken.length
  before : ∀r∈s.log,r.serial=c.serial → (r.earlier++r.packets).length ≤ s.mark

structure Collecting (s : RconClient) (c : Connection) (parts : List Text) (n : Nat) : Prop where
  own : ∀p∈c.taken.drop s.mark,p.requestId=s.requestId ∧ p.packetType=packetResponse
  joined : parts.flatten=(c.taken.drop s.mark).flatMap RconPacket.payload
  bytes : n=utf8Length parts.flatten
  limit : n ≤ maxResponseBytes

def Reading.Fits (s : RconClient) (c : Connection) : Reading → Prop
  | .login => True
  | .loginAgain => True
  | .first => Collecting s c [] 0
  | .more parts n => Collecting s c parts n

def Phase.headerRead : Phase → Bytes
  | .body _ header => header
  | _ => []

def PhaseFits (s : RconClient) : Prop :=
  match s.phase with
  | .idle => True
  | .opening => True
  | .writing login => ∃c,s.connection=some c ∧ Asking s c ∧ (login=false → Collecting s c [] 0)
  | .header r => ∃c,s.connection=some c ∧ Asking s c ∧ r.Fits s c
  | .body r header => header.length=4 ∧ ∃c,s.connection=some c ∧ Asking s c ∧ r.Fits s c
  | .closing r => s.connection=none ∧ r.Good s.requests s.opened ∧ ∀q∈s.log,q.Before r

structure Inv (s : RconClient) : Prop where
  base : Base s
  held : ∀c,s.connection=some c → Held s c s.phase.headerRead
  phase : PhaseFits s

structure Agree (s t : RconClient) : Prop where
  requestId : t.requestId=s.requestId
  requests : t.requests=s.requests
  opened : t.opened=s.opened
  mark : t.mark=s.mark
  log : t.log=s.log

section

variable {d : Connection}

theorem Base.keep (h : Base s) (ha : Agree s t) : Base t := by
  refine ⟨?_,?_,?_⟩
  · rw [ha.requestId,ha.requests]
    exact h.numbered
  · rw [ha.requests,ha.opened,ha.log]
    exact h.good
  · rw [ha.log]
    exact h.before

theorem Held.keep (h : Held s c b) (ha : Agree s t) (hserial : d.serial=c.serial) (htaken : d.taken=c.taken)
    (hacc : d.Accounted header) : Held t d header := by
  refine ⟨?_,hacc,?_⟩
  · rw [hserial,ha.opened]
    exact h.serial
  · rw [ha.log,hserial,htaken]
    exact h.taken

theorem Asking.keep (h : Asking s c) (ha : Agree s t) (hserial : d.serial=c.serial) (htaken : d.taken=c.taken) :
    Asking t d := by
  refine ⟨?_,?_,?_⟩
  · rw [ha.log,ha.requests]
    exact h.number
  · rw [ha.mark,htaken]
    exact h.mark
  · rw [ha.log,ha.mark,hserial]
    exact h.before

theorem Collecting.keep (h : Collecting s c parts n) (ha : Agree s t) (htaken : d.taken=c.taken) :
    Collecting t d parts n := by
  refine ⟨?_,?_,h.bytes,h.limit⟩
  · rw [htaken,ha.mark,ha.requestId]
    exact h.own
  · rw [htaken,ha.mark]
    exact h.joined

theorem Reading.Fits.keep {r : Reading} (h : r.Fits s c) (ha : Agree s t) (htaken : d.taken=c.taken) : r.Fits t d := by
  cases r with
  | login => trivial
  | loginAgain => trivial
  | first => exact Collecting.keep h ha htaken
  | more parts n => exact Collecting.keep h ha htaken

end

theorem inv_new (password : Text) : Inv (.new password) :=
  ⟨⟨rfl,by simp [RconClient.new],.nil⟩,by simp [RconClient.new],trivial⟩

theorem Base.drop (h : Base s) : Inv s.drop :=
  ⟨⟨h.numbered,h.good,h.before⟩,by simp [RconClient.drop],trivial⟩

theorem Base.release (h : Base s) (hc : ∀c,s.connection=some c → Held s c []) : Inv s.release :=
  ⟨⟨h.numbered,h.good,h.before⟩,fun c he => ⟨(hc c he).serial,(hc c he).accounted,(hc c he).taken⟩,trivial⟩

theorem Base.append (h : Base s) (hr : r.Good s.requests s.opened) (hbefore : ∀q∈s.log,q.Before r) :
    Base {s with log := s.log++[r]} := by
  refine ⟨h.numbered,fun q hq => ?_,?_⟩
  · obtain hq | hq := List.mem_append.mp hq
    · exact h.good q hq
    · rw [List.mem_singleton.mp hq]
      exact hr
  · rw [List.pairwise_append]
    exact ⟨h.before,List.pairwise_singleton _ _,fun q hq r' hr' => List.mem_singleton.mp hr' ▸ hbefore q hq⟩

theorem Base.writeRequest (h : Base s) (hc : Held s c []) (login : Bool) (payload : Text) :
    Inv (s.writeRequest c login payload) := by
  have hbase : Base {s with requestId := RconClient.nextRequestId s.requestId, requests := s.requests+1} := by
    refine ⟨?_,fun r hr => ?_,h.before⟩
    · rw [h.numbered]
      exact nextRequestId_idOf s.requests
    · obtain ⟨hsound,hid,hnumber,hserial⟩ := h.good r hr
      exact ⟨hsound,hid,Nat.le_succ_of_le hnumber,hserial⟩
  unfold RconClient.writeRequest
  dsimp only
  split
  · exact hbase.drop
  · rename_i bytes hencode
    refine ⟨⟨hbase.numbered,hbase.good,hbase.before⟩,?_,?_⟩
    · intro c' hc'
      cases hc'
      exact ⟨hc.serial,hc.accounted,hc.taken⟩
    · refine ⟨_,rfl,⟨fun r hr => Nat.lt_succ_of_le (h.good r hr).number,Nat.le_refl _,?_⟩,fun _ => ?_⟩
      · exact fun r hr hserial => (hc.taken r hr hserial).length_le
      · have hnone : c.taken.drop c.taken.length=[] := List.drop_length
        constructor
        · intro p hp
          change p∈c.taken.drop c.taken.length at hp
          rw [hnone] at hp
          cases hp
        · change _=(c.taken.drop c.taken.length).flatMap _
          rw [hnone]
          rfl
        · rfl
        · exact Nat.zero_le _

theorem Collecting.answer (h : Collecting s c parts n) (hbase : Base s) (hc : Held s c []) (hask : Asking s c)
    (truncated : Bool) :
    (s.answer c parts truncated).Good s.requests s.opened ∧
      ∀q∈s.log,q.Before (s.answer c parts truncated) := by
  have hsplit : c.taken.take s.mark++c.taken.drop s.mark=c.taken := List.take_append_drop _ _
  constructor
  · refine ⟨⟨?_,h.own,h.joined,?_⟩,hbase.numbered,Nat.le_refl _,hc.serial⟩
    · obtain ⟨b,hframes,hreceived⟩ := hc.accounted
      refine ⟨b,c.buffer,?_,?_⟩
      · change Frames (c.taken.take s.mark++c.taken.drop s.mark) b
        rwa [hsplit]
      · rwa [List.append_nil] at hreceived
    · change utf8Length parts.flatten ≤ maxResponseBytes
      rw [← h.bytes]
      exact h.limit
  · intro q hq
    refine ⟨hask.number q hq,fun hserial => ?_⟩
    have hbegins := hc.taken q hq hserial
    have hshort := hask.before q hq hserial
    exact List.prefix_take_iff.mpr ⟨hbegins,hshort⟩

theorem Collecting.finish (h : Collecting s c parts n) (hbase : Base s) (hc : Held s c []) (hask : Asking s c)
    (hs : s.connection=some c) : Inv (s.finish c parts) := by
  obtain ⟨hgood,hbefore⟩ := h.answer hbase hc hask false
  apply (hbase.append hgood hbefore).release
  intro c' hc'
  cases hs.symm.trans hc'
  refine ⟨hc.serial,hc.accounted,fun r hr hserial => ?_⟩
  obtain hr | hr := List.mem_append.mp hr
  · exact hc.taken r hr hserial
  · rw [List.mem_singleton.mp hr]
    have hwhole : c.taken.take s.mark++c.taken.drop s.mark=c.taken := List.take_append_drop _ _
    exact hwhole ▸ List.prefix_rfl

structure Next (s : RconClient) (c d : Connection) (p : RconPacket) : Prop where
  taken : d.taken=c.taken++[p]
  held : Held s d []
  mark : s.mark≤c.taken.length
  asking : Asking s d

theorem Next.drop {d : Connection} (h : Next s c d p) : d.taken.drop s.mark=c.taken.drop s.mark++[p] := by
  rw [h.taken,List.drop_append_of_le_length h.mark]

theorem utf8Length_append (t u : Text) : utf8Length (t++u)=utf8Length t+utf8Length u := by
  unfold utf8Length encodeUtf8
  rw [List.flatMap_append,List.length_append]

theorem Collecting.collect {d : Connection} (h : Collecting s c parts n) (hnext : Next s c d p) (hbase : Base s)
    (hid : p.requestId=s.requestId ∧ p.packetType=packetResponse) : Inv (s.collect d parts n p) := by
  unfold RconClient.collect
  dsimp only
  split_ifs with hlimit hmore
  · exact hbase.drop
  all_goals
    have hflat : (parts++[p.payload]).flatten=parts.flatten++p.payload := by simp
    have hown : ∀p'∈d.taken.drop s.mark,p'.requestId=s.requestId ∧ p'.packetType=packetResponse := by
      intro p' hp'
      rw [hnext.drop] at hp'
      obtain hp' | hp' := List.mem_append.mp hp'
      · exact h.own p' hp'
      · rw [List.mem_singleton.mp hp']
        exact hid
    have hjoined : (parts++[p.payload]).flatten=(d.taken.drop s.mark).flatMap RconPacket.payload := by
      rw [hflat,hnext.drop,List.flatMap_append,h.joined]
      simp
    have hbytes : n+utf8Length p.payload=utf8Length (parts++[p.payload]).flatten := by
      rw [hflat,utf8Length_append,h.bytes]
    have hcollecting : Collecting s d (parts++[p.payload]) (n+utf8Length p.payload) :=
      ⟨hown,hjoined,hbytes,Nat.le_of_not_lt hlimit⟩
  · refine ⟨⟨hbase.numbered,hbase.good,hbase.before⟩,fun c' hc' => ?_,_,rfl,?_,?_⟩
    · cases hc'
      exact ⟨hnext.held.serial,hnext.held.accounted,hnext.held.taken⟩
    · exact ⟨hnext.asking.number,hnext.asking.mark,hnext.asking.before⟩
    · exact ⟨hcollecting.own,hcollecting.joined,hcollecting.bytes,hcollecting.limit⟩
  · exact Collecting.finish (s:={s with connection := some d}) ⟨hcollecting.own,hcollecting.joined,
      hcollecting.bytes,hcollecting.limit⟩ ⟨hbase.numbered,hbase.good,hbase.before⟩
      ⟨hnext.held.serial,hnext.held.accounted,hnext.held.taken⟩
      ⟨hnext.asking.number,hnext.asking.mark,hnext.asking.before⟩ rfl

theorem Next.finishLogin {d : Connection} (h : Next s c d p) (hbase : Base s) : Inv (s.finishLogin d p) := by
  unfold RconClient.finishLogin
  dsimp only
  have hbase' : Base {s with connected := true, connection := some d} := ⟨hbase.numbered,hbase.good,hbase.before⟩
  have hheld : Held {s with connected := true, connection := some d} d [] :=
    ⟨h.held.serial,h.held.accounted,h.held.taken⟩
  split_ifs with hrefused
  · exact hbase.drop
  · split
    · apply hbase'.release
      intro c' hc'
      cases hc'
      exact hheld
    · rename_i cmd _
      apply Base.writeRequest
      · exact ⟨hbase.numbered,hbase.good,hbase.before⟩
      · exact ⟨hheld.serial,hheld.accounted,hheld.taken⟩

theorem Collecting.endsEmpty {d : Connection} (h : Collecting s c parts n) (hnext : Next s c d p) (hbase : Base s)
    (hid : p.requestId=s.requestId ∧ p.packetType=packetResponse) (hempty : p.payload=[]) :
    Inv (RconClient.finish {s with connection := some d} d parts) := by
  have hcollecting : Collecting {s with connection := some d} d parts n := by
    refine ⟨fun p' hp' => ?_,?_,h.bytes,h.limit⟩
    · change p'∈d.taken.drop s.mark at hp'
      rw [hnext.drop] at hp'
      obtain hp' | hp' := List.mem_append.mp hp'
      · exact h.own p' hp'
      · rw [List.mem_singleton.mp hp']
        exact hid
    · change _=(d.taken.drop s.mark).flatMap _
      rw [hnext.drop,List.flatMap_append,h.joined]
      simp [hempty]
  exact hcollecting.finish ⟨hbase.numbered,hbase.good,hbase.before⟩
    ⟨hnext.held.serial,hnext.held.accounted,hnext.held.taken⟩
    ⟨hnext.asking.number,hnext.asking.mark,hnext.asking.before⟩ rfl

theorem Next.handle {d : Connection} {r : Reading} (h : Next s c d p) (hbase : Base s) (hr : r.Fits s c) :
    Inv (s.handle d r p) := by
  unfold RconClient.handle
  cases r with
  | login =>
    dsimp only
    split_ifs with hempty
    · refine ⟨⟨hbase.numbered,hbase.good,hbase.before⟩,fun c' hc' => ?_,_,rfl,?_,trivial⟩
      · cases hc'
        exact ⟨h.held.serial,h.held.accounted,h.held.taken⟩
      · exact ⟨h.asking.number,h.asking.mark,h.asking.before⟩
    · exact h.finishLogin hbase
  | loginAgain => exact h.finishLogin hbase
  | first =>
    dsimp only
    split_ifs with hother
    · exact hbase.drop
    · exact Collecting.collect hr h hbase (by simpa using hother)
  | more parts n =>
    dsimp only
    split_ifs with hother hempty
    · exact hbase.drop
    · exact Collecting.endsEmpty hr h hbase (by simpa using hother) hempty
    · exact Collecting.collect hr h hbase (by simpa using hother)

theorem next_of_decode {body rest : Bytes} (hc : Held s c header) (hask : Asking s c) (hheader : header.length=4)
    (hbuffer : (unpackSigned header).toNat≤c.buffer.length)
    (hbody : body=c.buffer.take (unpackSigned header).toNat)
    (hdecode : RconPacket.decode (header++body)=.ok (p,rest)) :
    Next s c {c with buffer := c.buffer.drop (unpackSigned header).toNat, taken := c.taken++[p]} p := by
  have hlength : body.length=(unpackSigned header).toNat := by
    rw [hbody,List.length_take,Nat.min_eq_left hbuffer]
  have hencode := encode_of_decode hheader hlength hdecode
  obtain ⟨b,hframes,hreceived⟩ := hc.accounted
  refine ⟨rfl,⟨hc.serial,⟨_,hframes.snoc hencode,?_⟩,fun r hr hserial => ?_⟩,hask.mark,hask.number,?_,hask.before⟩
  · change c.received=_
    rw [hreceived,List.append_nil,hbody]
    simp only [List.append_assoc,List.take_append_drop]
  · exact (hc.taken r hr hserial).trans (List.prefix_append _ _)
  · change s.mark≤(c.taken++[p]).length
    have hmark := hask.mark
    rw [List.length_append]
    omega

theorem Inv.returns {a : Served} (h : Inv s) (hp : s.phase=.closing a) :
    Inv (RconClient.release {s with log := s.log++[a]}) := by
  have hphase := h.phase
  unfold PhaseFits at hphase
  rw [hp] at hphase
  obtain ⟨hnone,hgood,hbefore⟩ := hphase
  apply (h.base.append hgood hbefore).release
  intro c hc
  cases hnone.symm.trans hc

theorem Inv.proceed (h : Inv s) (ht : s.proceed=some t) : Inv t := by
  have hbase := h.base
  have hheld := h.held
  have hphase := h.phase
  unfold PhaseFits at hphase
  unfold RconClient.proceed at ht
  cases hp : s.phase with
  | idle =>
    rw [hp] at ht
    cases ht
  | opening =>
    rw [hp] at ht
    cases ht
    apply Base.writeRequest
    · exact ⟨hbase.numbered,fun r hr => ⟨(hbase.good r hr).sound,(hbase.good r hr).id,(hbase.good r hr).number,
        Nat.le_succ_of_le (hbase.good r hr).serial⟩,hbase.before⟩
    · refine ⟨Nat.le_refl _,⟨[],.nil,rfl⟩,fun r hr hserial => ?_⟩
      have hle := (hbase.good r hr).serial
      change r.serial=s.opened+1 at hserial
      omega
  | writing login =>
    rw [hp] at ht hphase hheld
    obtain ⟨c,hc,hask,hcollect⟩ := hphase
    rw [hc] at ht
    cases ht
    refine ⟨hbase.keep ⟨rfl,rfl,rfl,rfl,rfl⟩,fun c' hc' => ?_,c,rfl,hask.keep ⟨rfl,rfl,rfl,rfl,rfl⟩ rfl rfl,?_⟩
    · cases hc'
      exact (hheld c hc).keep ⟨rfl,rfl,rfl,rfl,rfl⟩ rfl rfl (hheld c hc).accounted
    · cases login with
      | true => trivial
      | false => exact (hcollect rfl).keep ⟨rfl,rfl,rfl,rfl,rfl⟩ rfl
  | header r =>
    rw [hp] at ht hphase hheld
    obtain ⟨c,hc,hask,hr⟩ := hphase
    rw [hc] at ht
    dsimp only at ht
    split_ifs at ht with hshort hlength
    · cases ht
      exact hbase.drop
    · cases ht
      refine ⟨hbase.keep ⟨rfl,rfl,rfl,rfl,rfl⟩,fun c' hc' => ?_,?_,_,rfl,hask.keep ⟨rfl,rfl,rfl,rfl,rfl⟩ rfl rfl,hr.keep ⟨rfl,rfl,rfl,rfl,rfl⟩ rfl⟩
      · cases hc'
        obtain ⟨b,hframes,hreceived⟩ := (hheld c hc).accounted
        refine (hheld c hc).keep ⟨rfl,rfl,rfl,rfl,rfl⟩ rfl rfl ⟨b,hframes,?_⟩
        rw [hreceived]
        simp [Phase.headerRead]
      · rw [List.length_take]
        omega
  | body r header =>
    rw [hp] at ht hphase hheld
    obtain ⟨hheader,c,hc,hask,hr⟩ := hphase
    rw [hc] at ht
    dsimp only at ht
    split_ifs at ht with hshort
    cases hdecode : RconPacket.decode (header++c.buffer.take (unpackSigned header).toNat) with
    | error e =>
      rw [hdecode] at ht
      cases ht
      exact hbase.drop
    | ok pr =>
      rw [hdecode] at ht
      cases ht
      exact (next_of_decode (hheld c hc) hask hheader (Nat.le_of_not_lt hshort) rfl hdecode).handle hbase hr
  | closing a =>
    rw [hp] at ht
    cases ht
    exact h.returns hp

theorem Inv.timeout (h : Inv s) (ht : s.timeout=some t) : Inv t := by
  have hbase := h.base
  have hphase := h.phase
  unfold PhaseFits at hphase
  unfold RconClient.timeout at ht
  split at ht
  · cases ht
  · rename_i parts n c hp hc
    rw [hp] at hphase
    obtain ⟨c',hc',hask,hcollect⟩ := hphase
    cases hc.symm.trans hc'
    cases ht
    have hheld := h.held c hc
    rw [hp] at hheld
    obtain ⟨hgood,hbefore⟩ := Collecting.answer hcollect hbase hheld hask true
    exact ⟨hbase.keep ⟨rfl,rfl,rfl,rfl,rfl⟩,(fun c' hc' => by cases hc'),rfl,hgood,hbefore⟩
  · rename_i a _ hp
    cases ht
    exact h.returns hp
  · cases ht
    exact hbase.drop

theorem Inv.setConnection {c d : Connection} (h : Inv s) (hc : s.connection=some c) (hserial : d.serial=c.serial)
    (htaken : d.taken=c.taken) (hacc : ∀header,c.Accounted header → d.Accounted header) :
    Inv {s with connection := some d} := by
  refine ⟨h.base.keep ⟨rfl,rfl,rfl,rfl,rfl⟩,fun c' hc' => ?_,?_⟩
  · cases hc'
    exact (h.held c hc).keep ⟨rfl,rfl,rfl,rfl,rfl⟩ hserial htaken (hacc _ (h.held c hc).accounted)
  · have hphase := h.phase
    unfold PhaseFits at hphase ⊢
    dsimp only
    split at hphase
    · trivial
    · trivial
    · obtain ⟨c',hc',hask,hcollect⟩ := hphase
      cases hc.symm.trans hc'
      exact ⟨d,rfl,hask.keep ⟨rfl,rfl,rfl,rfl,rfl⟩ hserial htaken,
        fun hl => (hcollect hl).keep ⟨rfl,rfl,rfl,rfl,rfl⟩ htaken⟩
    · obtain ⟨c',hc',hask,hr⟩ := hphase
      cases hc.symm.trans hc'
      exact ⟨d,rfl,hask.keep ⟨rfl,rfl,rfl,rfl,rfl⟩ hserial htaken,hr.keep ⟨rfl,rfl,rfl,rfl,rfl⟩ htaken⟩
    · obtain ⟨hheader,c',hc',hask,hr⟩ := hphase
      cases hc.symm.trans hc'
      exact ⟨hheader,d,rfl,hask.keep ⟨rfl,rfl,rfl,rfl,rfl⟩ hserial htaken,
        hr.keep ⟨rfl,rfl,rfl,rfl,rfl⟩ htaken⟩
    · cases hphase.1.symm.trans hc

theorem Inv.opens (h : Inv s) (hp : s.phase=.idle) (cmd : Option Text) :
    Inv {s with phase := .opening, command := cmd} := by
  refine ⟨h.base.keep ⟨rfl,rfl,rfl,rfl,rfl⟩,fun c hc => ?_,trivial⟩
  have hheld := h.held c hc
  rw [hp] at hheld
  exact hheld.keep ⟨rfl,rfl,rfl,rfl,rfl⟩ rfl rfl hheld.accounted

theorem Inv.step (h : Inv s) (e : RconEvent) (ht : s.step e=some t) : Inv t := by
  have hbase := h.base
  unfold RconClient.step at ht
  cases e with
  | arrive bytes =>
    obtain ⟨c,hc,rfl⟩ := Option.map_eq_some_iff.mp ht
    apply h.setConnection (d:={c with buffer := c.buffer++bytes, received := c.received++bytes}) hc rfl rfl
    rintro header ⟨b,hframes,hreceived⟩
    refine ⟨b,hframes,?_⟩
    dsimp only
    rw [hreceived,List.append_assoc]
  | lost =>
    obtain ⟨c,hc,rfl⟩ := Option.map_eq_some_iff.mp ht
    exact h.setConnection hc rfl rfl fun header hacc => hacc
  | connect =>
    dsimp only at ht
    split at ht
    · rename_i hp
      cases ht
      split_ifs
      · exact h
      · exact h.opens hp none
    · cases ht
  | disconnect =>
    dsimp only at ht
    split at ht
    · cases ht
      exact hbase.drop
    · cases ht
  | command cmd =>
    dsimp only at ht
    split at ht
    · rename_i hp
      split_ifs at ht with hvalid
      · cases ht
        exact h
      · split at ht
        · rename_i c _ hc
          cases ht
          have hheld := h.held c hc
          rw [hp] at hheld
          unfold RconClient.sendCommand
          apply Base.writeRequest
          · exact hbase.keep ⟨rfl,rfl,rfl,rfl,rfl⟩
          · exact hheld.keep ⟨rfl,rfl,rfl,rfl,rfl⟩ rfl rfl hheld.accounted
        · cases ht
          exact h.opens hp (some cmd)
    · cases ht
  | proceed => exact h.proceed ht
  | timeout => exact h.timeout ht
  | cancel =>
    dsimp only at ht
    split at ht
    · cases ht
    · cases ht
      exact hbase.drop
  | fail =>
    dsimp only at ht
    split at ht
    · cases ht
    · rename_i a hp
      cases ht
      exact h.returns hp
    · cases ht
      exact hbase.drop

theorem Inv.execute {es : List RconEvent} (h : Inv s) (he : Framework.execute RconClient.step s es=some t) :
    Inv t :=
  execute_keeps (fun _ e _ hs ht => hs.step e ht) es h he

/-! Operations that end -/

def Settled (s t : RconClient) : Prop :=
  t.phase=.idle → t.connection≠none → s.command≠none → ∃r,t.log=s.log++[r] ∧ r.truncated=false

theorem settled_drop (s u : RconClient) : Settled s u.drop := fun _ hc => absurd rfl hc

theorem settled_writeRequest (s u : RconClient) (c : Connection) (login : Bool) (payload : Text) :
    Settled s (u.writeRequest c login payload) := by
  unfold RconClient.writeRequest
  dsimp only
  split
  · exact settled_drop s _
  · intro hp
    cases hp

theorem settled_finishLogin (s : RconClient) (c : Connection) (p : RconPacket) : Settled s (s.finishLogin c p) := by
  unfold RconClient.finishLogin
  dsimp only
  split_ifs
  · exact settled_drop s s
  · split
    · rename_i hnone
      exact fun _ _ hcmd => absurd hnone hcmd
    · exact settled_writeRequest s _ c false _

theorem settled_collect (s : RconClient) (c : Connection) (parts : List Text) (n : Nat) (p : RconPacket) :
    Settled s (s.collect c parts n p) := by
  unfold RconClient.collect
  dsimp only
  split_ifs
  · exact settled_drop s s
  · intro hp
    cases hp
  · exact fun _ _ _ => ⟨_,rfl,rfl⟩

theorem settled_handle (s : RconClient) (c : Connection) (r : Reading) (p : RconPacket) :
    Settled s (s.handle c r p) := by
  unfold RconClient.handle
  cases r with
  | login =>
    dsimp only
    split_ifs
    · intro hp
      cases hp
    · exact settled_finishLogin s c p
  | loginAgain => exact settled_finishLogin s c p
  | first =>
    dsimp only
    split_ifs
    · exact settled_drop s s
    · exact settled_collect s c [] 0 p
  | more parts n =>
    dsimp only
    split_ifs
    · exact settled_drop s s
    · exact fun _ _ _ => ⟨_,rfl,rfl⟩
    · exact settled_collect s c parts n p

theorem Inv.settled_returns {a : Served} (h : Inv s) (hp : s.phase=.closing a) :
    Settled s (RconClient.release {s with log := s.log++[a]}) := by
  have hphase := h.phase
  unfold PhaseFits at hphase
  rw [hp] at hphase
  exact fun _ hc => absurd hphase.1 hc

theorem Inv.settled_proceed (h : Inv s) (ht : s.proceed=some t) : Settled s t := by
  unfold RconClient.proceed at ht
  split at ht
  · cases ht
  · cases ht
    exact settled_writeRequest s _ _ true _
  · cases ht
    intro hp
    cases hp
  · dsimp only at ht
    split_ifs at ht
    · cases ht
      exact settled_drop s s
    · cases ht
      intro hp
      cases hp
  · dsimp only at ht
    split_ifs at ht
    split at ht
    · cases ht
      exact settled_drop s s
    · cases ht
      exact settled_handle s _ _ _
  · rename_i hp
    cases ht
    exact h.settled_returns hp
  · cases ht
    exact settled_drop s s

theorem Inv.settled (h : Inv s) (e : RconEvent) (hp : s.phase≠.idle) (ht : s.step e=some t) : Settled s t := by
  unfold RconClient.step at ht
  cases e with
  | arrive bytes =>
    obtain ⟨c,-,rfl⟩ := Option.map_eq_some_iff.mp ht
    exact fun hidle => absurd hidle hp
  | lost =>
    obtain ⟨c,-,rfl⟩ := Option.map_eq_some_iff.mp ht
    exact fun hidle => absurd hidle hp
  | connect | disconnect | command cmd =>
    dsimp only at ht
    split at ht
    · rename_i hidle
      exact absurd hidle hp
    · cases ht
  | proceed => exact h.settled_proceed ht
  | timeout =>
    unfold RconClient.timeout at ht
    dsimp only at ht
    split at ht
    · cases ht
    · cases ht
      intro hp
      cases hp
    · rename_i hp
      cases ht
      exact h.settled_returns hp
    · cases ht
      exact settled_drop s s
  | cancel =>
    dsimp only at ht
    split at ht
    · cases ht
    · cases ht
      exact settled_drop s s
  | fail =>
    dsimp only at ht
    split at ht
    · cases ht
    · rename_i hp
      cases ht
      exact h.settled_returns hp
    · cases ht
      exact settled_drop s s

/-! Every run -/

theorem idOf_ne {m n : Nat} (hm : 0 < m) (hne : m≠n) (hlow : m < n+2147483647) (hhigh : n < m+2147483647) :
    idOf m≠idOf n := by
  unfold idOf
  split_ifs <;> omega

/-- No packet of an answer carries the id of another request, as long as fewer than 2147483647 requests lie
between them. -/
def Served.Isolated (r : Served) : Prop :=
  ∀m,0 < m → m≠r.number → m < r.number+2147483647 → r.number < m+2147483647 →
    ∀p∈r.packets,p.requestId≠(idOf m : Nat)

/-- Packets are read back as they were written and only as they could be written; and on one client, whatever
its peers send and whichever waits run out, fail or are cancelled, the answer of a command is the payloads of
the packets of its own id, within the limit, in the order and the place in which they stand in the stream of
one connection; no packet is part of two answers; a connection that is left open stands between two packets, and
after a command only when it was answered in time. -/
theorem rcon_isolation :
    (∀p : RconPacket,FitsSigned 4 p.requestId → FitsSigned 4 p.packetType → nul∉p.payload →
      10+utf8Length p.payload≤rconMaxPacketBodyBytes →
        ∃e,p.encode=.ok e ∧ ∀rest,RconPacket.decode (e++rest)=.ok (p,rest)) ∧
      (∀data p rest,RconPacket.decode data=.ok (p,rest) ↔ ∃e,p.encode=.ok e ∧ data=e++rest) ∧
      ∀password es s,execute RconClient.step (.new password) es=some s →
        (s.requestId=idOf s.requests ∧
          (∀r∈s.log,r.Sound ∧ r.requestId=idOf r.number ∧ r.number ≤ s.requests ∧ r.Isolated) ∧
          s.log.Pairwise Served.Before) ∧
        (s.phase=.idle → ∀c,s.connection=some c → c.Accounted []) ∧
        ∀e t,s.step e=some t → s.phase≠.idle → Settled s t := by
  refine ⟨fun p hid htype hnul hlong => ?_,fun data p rest => RconPacket.decode_ok,fun password es s hs => ?_⟩
  · have hencode := RconPacket.encode_ok.mpr ⟨hnul,hlong,⟨hid,htype⟩,rfl⟩
    exact ⟨_,hencode,RconPacket.decode_encode hencode⟩
  · have hinv := (inv_new password).execute hs
    refine ⟨⟨hinv.base.numbered,fun r hr => ?_,hinv.base.before⟩,fun hp c hc => ?_,
      fun e t ht hp => hinv.settled e hp ht⟩
    · obtain ⟨hsound,hid,hnumber,-⟩ := hinv.base.good r hr
      refine ⟨hsound,hid,hnumber,fun m hm hne hlow hhigh p hp heq => ?_⟩
      have hown := (hsound.own p hp).1
      rw [heq,hid] at hown
      exact idOf_ne hm hne hlow hhigh (Int.ofNat.inj hown)
    · have hheld := hinv.held c hc
      rw [hp] at hheld
      exact hheld.accounted

theorem rcon_isolation_ok :
    ∃e,(⟨7,0,['o','k']⟩ : RconPacket).encode=.ok e ∧
      RconPacket.decode (e++[1,2])=.ok (⟨7,0,['o','k']⟩,[1,2]) := by
  obtain ⟨e,he,hdecode⟩ := rcon_isolation.1 ⟨7,0,['o','k']⟩ (by decide) (by decide) (by decide) (by decide)
  exact ⟨e,he,hdecode [1,2]⟩

/-! The ids come round -/

/-- A client that has a connection open with nothing to read on it but `b`. -/
structure Ready (s : RconClient) (c : Connection) (b : Bytes) : Prop where
  phase : s.phase=.idle
  connected : s.connected=true
  connection : s.connection=some c
  open' : c.isClosing=false
  buffer : c.buffer=b
  id : s.requestId=idOf s.requests

structure Awaits (s : RconClient) (c : Connection) (b : Bytes) : Prop where
  phase : s.phase=.header .first
  connected : s.connected=true
  connection : s.connection=some c
  open' : c.isClosing=false
  buffer : c.buffer=b
  id : s.requestId=idOf s.requests
  mark : s.mark=c.taken.length

theorem idOf_fits (n : Nat) : FitsSigned 4 (idOf n : Nat) := by
  have hbound : idOf n≤2147483647 := by
    unfold idOf
    split_ifs <;> omega
  unfold FitsSigned
  omega

theorem encode_short (n : Nat) (type : Int) (htype : type∈[0,2,3]) (payload : Text)
    (hpayload : payload∈[[],['x']]) :
    ∃e,(⟨(idOf n : Nat),type,payload⟩ : RconPacket).encode=.ok e := by
  have htypes : ∀type∈[(0 : Int),2,3],FitsSigned 4 type := by decide
  have hpayloads : ∀payload∈[[],['x']],nul∉payload ∧ 10+(encodeUtf8 payload).length≤rconMaxPacketBodyBytes := by
    decide
  exact ⟨_,RconPacket.encode_ok.mpr ⟨(hpayloads payload hpayload).1,(hpayloads payload hpayload).2,
    ⟨idOf_fits n,htypes type htype⟩,rfl⟩⟩

variable {e : Bytes}

theorem header_of_encode (he : p.encode=.ok e) :
    ∃n : Nat,e.length=4+n ∧ unpackSigned (e.take 4)=n ∧ 10≤n ∧ n≤rconMaxPacketBodyBytes := by
  obtain ⟨-,hlong,-,rfl⟩ := RconPacket.encode_ok.mp he
  refine ⟨10+(encodeUtf8 p.payload).length,?_,?_,Nat.le_add_right _ _,hlong⟩
  · simp
    omega
  · simp only [List.append_assoc]
    rw [List.take_left' (length_packSigned 4 _),RconPacket.unpack_length hlong]

theorem reads {c : Connection} {r : Reading} (hp : s.phase=.header r) (hc : s.connection=some c)
    (hb : c.buffer=e) (he : p.encode=.ok e) :
    execute RconClient.step s [.proceed,.proceed]=
      some (RconClient.handle {s with connection := some {c with buffer := e.drop 4}, phase := .body r (e.take 4)}
        {c with buffer := [], taken := c.taken++[p]} r p) := by
  obtain ⟨n,hlength,hvalue,hlow,hhigh⟩ := header_of_encode he
  have hheader : s.step .proceed=
      some {s with connection := some {c with buffer := e.drop 4}, phase := .body r (e.take 4)} := by
    unfold RconClient.step RconClient.proceed
    dsimp only
    rw [hp,hc]
    dsimp only
    rw [hb,if_neg (by omega),hvalue,if_neg (by omega)]
  have hdrop : (e.drop 4).length=n := by
    rw [List.length_drop]
    omega
  have hdecode : RconPacket.decode (e.take 4++(e.drop 4).take n)=.ok (p,[]) := by
    have hback := RconPacket.decode_encode he []
    rwa [List.append_nil,← List.take_append_drop 4 e,← List.take_of_length_le (Nat.le_of_eq hdrop)] at hback
  have hbody : RconClient.step {s with connection := some {c with buffer := e.drop 4}, phase := .body r (e.take 4)}
      .proceed=some (RconClient.handle
        {s with connection := some {c with buffer := e.drop 4}, phase := .body r (e.take 4)}
        {c with buffer := [], taken := c.taken++[p]} r p) := by
    unfold RconClient.step RconClient.proceed
    dsimp only
    rw [hvalue,Int.toNat_natCast,if_neg (by omega),hdecode]
    dsimp only
    rw [List.drop_of_length_le (Nat.le_of_eq hdrop)]
  simp only [execute,hheader,Option.bind_some,hbody]

theorem writeRequest_eq {c : Connection} (login : Bool) {l : Text}
    (he : (⟨RconClient.nextRequestId s.requestId,if login then packetLogin else packetCommand,l⟩ :
      RconPacket).encode=.ok e) :
    s.writeRequest c login l={s with
      requestId := RconClient.nextRequestId s.requestId
      requests := s.requests+1
      mark := c.taken.length
      phase := .writing login
      connection := some {c with written := c.written++e}} := by
  unfold RconClient.writeRequest
  dsimp only
  rw [he]

theorem Ready.ask {c : Connection} (h : Ready s c b) :
    ∃t d,execute RconClient.step s [.command ['x'],.proceed]=some t ∧ Awaits t d b ∧
      t.requests=s.requests+1 ∧ t.log=s.log ∧ d.serial=c.serial := by
  obtain ⟨e,he⟩ := encode_short (s.requests+1) 2 (by simp) ['x'] (by simp)
  rw [← nextRequestId_idOf,← h.id] at he
  have hvalid : ¬validateCommand ['x']≠none := by decide
  have hopen : s.isConnected=true := by
    unfold RconClient.isConnected
    rw [h.connected,h.connection]
    dsimp only
    rw [h.open']
    rfl
  have hwrite := writeRequest_eq (s:={s with command := some ['x']}) (c:=c) false he
  have hcommand : s.step (.command ['x'])=some (s.sendCommand c ['x']) := by
    unfold RconClient.step
    dsimp only
    rw [h.phase]
    dsimp only
    rw [if_neg hvalid,hopen,h.connection]
  unfold RconClient.sendCommand at hcommand
  rw [hwrite] at hcommand
  refine ⟨{s with
    command := some ['x']
    requestId := RconClient.nextRequestId s.requestId
    requests := s.requests+1
    mark := c.taken.length
    phase := .header .first
    connection := some {c with written := c.written++e}},{c with written := c.written++e},?_,
    ⟨rfl,h.connected,rfl,h.open',h.buffer,?_,rfl⟩,rfl,rfl,rfl⟩
  · change (s.step (.command ['x'])).bind (fun u => execute RconClient.step u [.proceed])=_
    rw [hcommand]
    rfl
  · dsimp only
    rw [h.id]
    exact nextRequestId_idOf _

theorem Awaits.answered {c : Connection} (h : Awaits s c e) (he : p.encode=.ok e)
    (hid : p.requestId=s.requestId) (htype : p.packetType=packetResponse) (hpayload : p.payload∈[[],['x']]) :
    ∃t d r,execute RconClient.step s [.proceed,.proceed]=some t ∧ Ready t d [] ∧ t.requests=s.requests ∧
      t.log=s.log++[r] ∧ r.packets=[p] ∧ r.requestId=s.requestId ∧ r.number=s.requests ∧ r.serial=c.serial ∧
      d.serial=c.serial := by
  have hpayloads : ∀payload∈[[],['x']],¬0+utf8Length payload>maxResponseBytes ∧
      mayHaveContinuation payload=false := by decide
  obtain ⟨hshort,hlast⟩ := hpayloads p.payload hpayload
  have hother : ¬(p.requestId≠s.requestId ∨ p.packetType≠packetResponse) := by simp [hid,htype]
  have hread := reads h.phase h.connection h.buffer he
  unfold RconClient.handle RconClient.collect at hread
  dsimp only at hread
  rw [if_neg hother,if_neg hshort,if_neg (by simp [hlast])] at hread
  refine ⟨_,_,_,hread,⟨rfl,h.connected,rfl,h.open',rfl,h.id⟩,rfl,rfl,?_,rfl,rfl,rfl,rfl⟩
  change (c.taken++[p]).drop s.mark=[p]
  rw [h.mark]
  exact List.drop_left

theorem Ready.round {c : Connection} (h : Ready s c []) :
    ∃es t d r,execute RconClient.step s es=some t ∧ Ready t d [] ∧ t.requests=s.requests+1 ∧
      t.log=s.log++[r] ∧ r.requestId=idOf (s.requests+1) ∧ r.number=s.requests+1 ∧ r.serial=c.serial ∧
      d.serial=c.serial := by
  obtain ⟨u,d,hask,hu,hrequests,hlog,hserial⟩ := h.ask
  obtain ⟨e,he⟩ := encode_short u.requests 0 (by simp) [] (by simp)
  have harrive : u.step (.arrive e)=
      some {u with connection := some {d with buffer := d.buffer++e, received := d.received++e}} := by
    unfold RconClient.step
    dsimp only
    rw [hu.connection]
    rfl
  have hready : Awaits {u with connection := some {d with buffer := d.buffer++e, received := d.received++e}}
      {d with buffer := d.buffer++e, received := d.received++e} e := by
    refine ⟨hu.phase,hu.connected,rfl,hu.open',?_,hu.id,hu.mark⟩
    dsimp only
    rw [hu.buffer]
    rfl
  obtain ⟨t,d',r,hanswer,ht,hreq,hlog',-,hid,hnumber,hr,hd⟩ :=
    hready.answered he (by rw [hu.id]) rfl (by simp)
  refine ⟨[.command ['x'],.proceed]++[.arrive e]++[.proceed,.proceed],t,d',r,?_,ht,hreq.trans hrequests,?_,?_,
    hnumber.trans hrequests,hr.trans hserial,hd.trans hserial⟩
  · rw [execute_append,execute_append,hask]
    simp only [execute,harrive,Option.bind_some]
    exact hanswer
  · rw [hlog']
    exact congrArg (·++[r]) hlog
  · rw [hid]
    exact hu.id.trans (congrArg idOf hrequests)

theorem Ready.rounds {c : Connection} (n : Nat) (h : Ready s c []) :
    ∃es t d l,execute RconClient.step s es=some t ∧ Ready t d [] ∧ t.requests=s.requests+n ∧ t.log=s.log++l ∧
      d.serial=c.serial := by
  induction n generalizing s c with
  | zero => exact ⟨[],s,c,[],rfl,h,rfl,(List.append_nil _).symm,rfl⟩
  | succ n ih =>
    obtain ⟨es,t,d,r,hes,ht,hrequests,hlog,-,-,-,hserial⟩ := h.round
    obtain ⟨fs,u,d',l,hfs,hu,hrequests',hlog',hserial'⟩ := ih ht
    refine ⟨es++fs,u,d',[r]++l,?_,hu,?_,?_,hserial'.trans hserial⟩
    · rw [execute_append,hes]
      exact hfs
    · omega
    · rw [hlog',hlog,List.append_assoc]

theorem ready_after_connect :
    ∃es s c,execute RconClient.step (.new ['x']) es=some s ∧ Ready s c [] ∧ s.requests=1 := by
  obtain ⟨e,he⟩ := encode_short 1 3 (by simp) ['x'] (by simp)
  obtain ⟨f,hf⟩ := encode_short 1 2 (by simp) [] (by simp)
  have hfirst : RconClient.nextRequestId 0=1 := by decide
  let s : RconClient := ⟨['x'],0,false,none,.opening,none,0,1,0,[]⟩
  let c : Connection := ⟨1,[],[],false,[],[]⟩
  let u : RconClient := ⟨['x'],1,false,some {c with written := e},.writing true,none,1,1,0,[]⟩
  let d : Connection := {c with written := e, buffer := f, received := f}
  let v : RconClient := {u with connection := some d, phase := .header .login}
  have hconnect : (RconClient.new ['x']).step .connect=some {s with opened := 0} := rfl
  have hwrite : s.writeRequest c true ['x']=u := by
    have hencode := writeRequest_eq (s:=s) (c:=c) (l:=['x']) (e:=e) true (by
      change (⟨(RconClient.nextRequestId 0 : Nat),_,_⟩ : RconPacket).encode=_
      rw [hfirst]
      exact he)
    rw [hencode]
    change (⟨_,RconClient.nextRequestId 0,_,_,_,_,_,_,_,_⟩ : RconClient)=_
    rw [hfirst]
    rfl
  have hopen : RconClient.step {s with opened := 0} .proceed=some u := congrArg some hwrite
  have hsent : execute RconClient.step u [.proceed,.arrive f]=some v := rfl
  have hread := reads (s:=v) (c:=d) (r:=.login) rfl rfl rfl hf
  have hid : idOf 1=1 := by decide
  unfold RconClient.handle RconClient.finishLogin at hread
  dsimp only at hread
  rw [hid,if_neg (by simp [packetResponse]),if_neg (by simp [v,u,packetCommand])] at hread
  let d' : Connection := {d with buffer := [], taken := [⟨1,2,[]⟩]}
  refine ⟨[.connect,.proceed]++([.proceed,.arrive f]++[.proceed,.proceed]),
    ⟨['x'],1,true,some d',.idle,none,1,1,0,[]⟩,d',?_,⟨rfl,rfl,rfl,rfl,rfl,?_⟩,?_⟩
  · rw [execute_append]
    simp only [execute,hconnect,hopen,Option.bind_some]
    change execute RconClient.step u ([.proceed,.arrive f]++[.proceed,.proceed])=_
    rw [execute_append,hsent]
    exact hread
  · exact hid.symm
  · rfl

/-- After 2147483647 more requests on one connection an id comes round: a packet of the id of the first command
that arrives late, before the other command of that id is sent, is taken for the answer of that other one. -/
theorem late_packet_taken :
    ∃es s c q late r t,execute RconClient.step (.new ['x']) es=some s ∧
      (s.phase=.idle ∧ s.connection=some c ∧ late.encode=.ok c.buffer) ∧
      (q∈s.log ∧ q.serial=c.serial ∧ late.requestId=(q.requestId : Int)) ∧
      execute RconClient.step s [.command ['x'],.proceed,.proceed,.proceed]=some t ∧
      t.log=s.log++[r] ∧ r.packets=[late] ∧ r.number≠q.number := by
  obtain ⟨es,s,c,hes,hs,hrequests⟩ := ready_after_connect
  obtain ⟨fs,t,d,q,hfs,ht,hreq,hlog,hid,hnumber,hserial,hd⟩ := hs.round
  obtain ⟨gs,u,d',l,hgs,hu,hreq',hlog',hd'⟩ := ht.rounds 2147483646
  obtain ⟨e,he⟩ := encode_short 2 0 (by simp) ['x'] (by simp)
  have harrive : u.step (.arrive e)=
      some {u with connection := some {d' with buffer := d'.buffer++e, received := d'.received++e}} := by
    unfold RconClient.step
    dsimp only
    rw [hu.connection]
    rfl
  have hready : Ready {u with connection := some {d' with buffer := d'.buffer++e, received := d'.received++e}}
      {d' with buffer := d'.buffer++e, received := d'.received++e} e := by
    refine ⟨hu.phase,hu.connected,rfl,hu.open',?_,hu.id⟩
    dsimp only
    rw [hu.buffer]
    rfl
  obtain ⟨v,d'',hask,hv,hreq'',hlog'',-⟩ := hready.ask
  have hrequests' : v.requests=2147483649 := by
    rw [hreq'']
    change u.requests+1=_
    omega
  have hsame : ((idOf 2 : Nat) : Int)=v.requestId := by
    rw [hv.id,hrequests']
    rfl
  obtain ⟨w,-,r,hanswer,-,-,hlast,hpackets,-,hrnumber,-,-⟩ := hv.answered he hsame rfl (by simp)
  refine ⟨es++(fs++(gs++[.arrive e])),_,_,q,_,r,w,?_,⟨hready.phase,rfl,?_⟩,⟨?_,?_,?_⟩,?_,?_,hpackets,?_⟩
  · rw [execute_append,hes]
    change execute RconClient.step s (fs++(gs++[.arrive e]))=_
    rw [execute_append,hfs]
    change execute RconClient.step t (gs++[.arrive e])=_
    rw [execute_append,hgs]
    change (u.step (.arrive e)).bind _=_
    rw [harrive]
    rfl
  · rw [hready.buffer]
    exact he
  · change q∈u.log
    rw [hlog',hlog]
    simp
  · exact hserial.trans (hd'.trans hd).symm
  · rw [hid,hrequests]
  · change execute RconClient.step _ ([.command ['x'],.proceed]++[.proceed,.proceed])=_
    rw [execute_append,hask]
    exact hanswer
  · rw [hlast,hlog'']
  · rw [hrnumber,hnumber,hrequests',hrequests]
    decide

end XiaoQing.Minecraft
