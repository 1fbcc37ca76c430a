import XiaoQing.Framework.Bytes
import XiaoQing.Commands.CommandRouter
import XiaoQing.Framework.Run

namespace XiaoQing.Minecraft

section

open Framework Commands

abbrev Bytes := List UInt8

def rconMaxChunkUnits : Nat := 4096

def rconMaxPacketBodyBytes : Nat := rconMaxChunkUnits*4+10

def rconMaxOutboundPayloadBytes : Nat := 4096

/-- What the packet functions raise: `RconProtocolError`, or the `struct.error` of a number that does not
fit its field. -/
inductive PacketError where
  | protocol (message : String)
  | struct

structure RconPacket where
  requestId : Int
  packetType : Int
  payload : Text
  deriving DecidableEq

def nul : Char := Char.ofNat 0

namespace RconPacket

def encode (p : RconPacket) : Except PacketError Bytes :=
  if nul∈p.payload then .error (.protocol "RCON payload contains an embedded NUL")
  else
    let payload := encodeUtf8 p.payload
    let length := 10+payload.length
    if length>rconMaxPacketBodyBytes then .error (.protocol "RCON packet exceeds the safety limit")
    else if ¬(FitsSigned 4 p.requestId ∧ FitsSigned 4 p.packetType) then .error .struct
    else .ok (packSigned 4 length++packSigned 4 p.requestId++packSigned 4 p.packetType++payload++[0,0])

def decode (data : Bytes) : Except PacketError (RconPacket × Bytes) :=
  if data.length<4 then .error (.protocol "RCON packet header is incomplete")
  else
    let length := unpackSigned (data.take 4)
    if length<10 ∨ length>rconMaxPacketBodyBytes then
      .error (.protocol ("invalid RCON packet length: "++toString length))
    else
      let packetEnd := 4+length.toNat
      if data.length<packetEnd then .error (.protocol "RCON packet body is incomplete")
      else
        let body := (data.take packetEnd).drop 4
        if body.drop (body.length-2)≠[0,0] then
          .error (.protocol "RCON packet is missing the double-NUL terminator")
        else
          let payload := (body.take (body.length-2)).drop 8
          if (0 : UInt8)∈payload then .error (.protocol "RCON packet contains an embedded NUL")
          else
            match decodeUtf8 payload with
            | none => .error (.protocol "RCON packet payload is not valid UTF-8")
            | some text =>
              .ok (⟨unpackSigned (body.take 4),unpackSigned ((body.drop 4).take 4),text⟩,data.drop packetEnd)

variable {p : RconPacket} {e data rest : Bytes}

theorem encode_ok : p.encode=.ok e ↔
    nul∉p.payload ∧ 10+(encodeUtf8 p.payload).length≤rconMaxPacketBodyBytes ∧
      (FitsSigned 4 p.requestId ∧ FitsSigned 4 p.packetType) ∧
      e=packSigned 4 (10+(encodeUtf8 p.payload).length : Nat)++packSigned 4 p.requestId++
        packSigned 4 p.packetType++encodeUtf8 p.payload++[0,0] := by
  unfold encode
  dsimp only
  split_ifs with hnul hlong hfits
  · simp [hnul]
  · simp [Nat.not_le.mpr hlong]
  · simp [hnul,Nat.le_of_not_lt hlong,hfits,eq_comm]
  · simp [hfits]

theorem unpack_length {n : Nat} (h : n≤rconMaxPacketBodyBytes) : unpackSigned (packSigned 4 (n : Int))=n := by
  unfold rconMaxPacketBodyBytes rconMaxChunkUnits at h
  apply unpackSigned_packSigned
  unfold FitsSigned
  omega

section

variable {length id type payload : Bytes} {text : Text}

theorem decode_parts (hlength : length.length=4) (hid : id.length=4) (htype : type.length=4)
    (hvalue : unpackSigned length=(10+payload.length : Nat)) (hlimit : 10+payload.length≤rconMaxPacketBodyBytes)
    (hplain : (0 : UInt8)∉payload) (htext : decodeUtf8 payload=some text) (rest : Bytes) :
    decode (length++(id++type++payload++[0,0])++rest)=.ok (⟨unpackSigned id,unpackSigned type,text⟩,rest) := by
  have hbody : (id++type++payload++[0,0]).length=10+payload.length := by
    simp [hid,htype]
    omega
  have hwhole : (length++(id++type++payload++[0,0])).length=4+(10+payload.length) := by
    rw [List.length_append,hlength,hbody]
  have hhead : (length++(id++type++payload++[0,0])++rest).take 4=length := by
    rw [List.append_assoc,List.take_left' hlength]
  have hparts : (id++type++payload).length=10+payload.length-2 := by
    simp [hid,htype]
    omega
  have hids : (id++type).length=8 := by rw [List.length_append,hid,htype]
  have hshort : ¬(length++(id++type++payload++[0,0])++rest).length < 4+(10+payload.length) := by
    rw [List.length_append,hwhole]
    omega
  unfold decode
  rw [if_neg (by omega),hhead,hvalue]
  dsimp only
  rw [if_neg (by omega),Int.toNat_natCast,if_neg hshort,List.take_left' hwhole,List.drop_left' hlength,
    List.drop_left' hwhole,hbody,List.drop_left' hparts,if_neg (not_not.mpr rfl),List.take_left' hparts,
    List.drop_left' hids,if_neg hplain,htext]
  dsimp only
  rw [List.append_assoc,List.append_assoc,List.take_left' hid,List.drop_left' hid,List.take_left' htype]

theorem parts_of_decode {p : RconPacket} {data rest : Bytes} (h : decode data=.ok (p,rest)) :
    ∃length id type payload,length.length=4 ∧ id.length=4 ∧ type.length=4 ∧
      unpackSigned length=(10+payload.length : Nat) ∧ 10+payload.length≤rconMaxPacketBodyBytes ∧
      (0 : UInt8)∉payload ∧ decodeUtf8 payload=some p.payload ∧ unpackSigned id=p.requestId ∧
      unpackSigned type=p.packetType ∧ data=length++(id++type++payload++[0,0])++rest := by
  unfold decode at h
  dsimp only at h
  split_ifs at h with hheader hlimit hshort hend hnul
  obtain ⟨hlow,hhigh⟩ := not_or.mp hlimit
  generalize hn : (unpackSigned (data.take 4)).toNat=n at *
  have hvalue : unpackSigned (data.take 4)=(n : Int) := by omega
  generalize hbody : (data.take (4+n)).drop 4=body at *
  have hlen : body.length=n := by
    rw [← hbody,List.length_drop,List.length_take]
    omega
  rw [hlen] at h hend hnul
  cases htext : decodeUtf8 ((body.take (n-2)).drop 8) with
  | none =>
    rw [htext] at h
    cases h
  | some text =>
    rw [htext] at h
    cases h
    have hpayload : ((body.take (n-2)).drop 8).length=n-10 := by
      rw [List.length_drop,List.length_take,hlen]
      omega
    have hids : body.take 4++(body.drop 4).take 4=body.take 8 := by
      rw [← List.take_add]
    have hparts : body.take 4++(body.drop 4).take 4++(body.take (n-2)).drop 8++[0,0]=body := by
      have hfront : (body.take (n-2)).take 8=body.take 8 := by
        rw [List.take_take,Nat.min_eq_left (by omega)]
      rw [hids,← hfront,List.take_append_drop,← not_not.mp hend,List.take_append_drop]
    have hdata : data=data.take 4++body++data.drop (4+n) := by
      have hfront : (data.take (4+n)).take 4=data.take 4 := by
        rw [List.take_take,Nat.min_eq_left (by omega)]
      rw [← hbody,← hfront,List.take_append_drop,List.take_append_drop]
    refine ⟨data.take 4,body.take 4,(body.drop 4).take 4,(body.take (n-2)).drop 8,?_,?_,?_,?_,?_,hnul,htext,
      rfl,rfl,?_⟩
    · rw [List.length_take]
      omega
    · rw [List.length_take]
      omega
    · rw [List.length_take,List.length_drop]
      omega
    · rw [hpayload,hvalue]
      omega
    · rw [hpayload]
      omega
    · rw [hparts]
      exact hdata

end

theorem decode_encode (h : p.encode=.ok e) (rest : Bytes) : decode (e++rest)=.ok (p,rest) := by
  obtain ⟨hnul,hlong,⟨hid,htype⟩,rfl⟩ := encode_ok.mp h
  have hplain : (0 : UInt8)∉encodeUtf8 p.payload := fun hz => hnul ((zero_mem_encodeUtf8 _).mp hz)
  have hdecode := decode_parts (length_packSigned 4 _) (length_packSigned 4 p.requestId)
    (length_packSigned 4 p.packetType) (unpack_length hlong) hlong hplain (decodeUtf8_encodeUtf8 p.payload) rest
  rw [unpackSigned_packSigned hid,unpackSigned_packSigned htype] at hdecode
  simpa only [List.append_assoc] using hdecode

theorem decode_ok : decode data=.ok (p,rest) ↔ ∃e,p.encode=.ok e ∧ data=e++rest := by
  constructor
  · intro h
    obtain ⟨length,id,type,payload,hlength,hid,htype,hvalue,hlimit,hplain,htext,hidv,htypev,hdata⟩ :=
      parts_of_decode h
    have hpayload := encodeUtf8_of_decodeUtf8 htext
    have hfields : packSigned 4 (10+payload.length : Nat)=length ∧ packSigned 4 p.requestId=id ∧
        packSigned 4 p.packetType=type := by
      refine ⟨?_,?_,?_⟩
      · rw [← hvalue,← hlength,packSigned_unpackSigned]
      · rw [← hidv,← hid,packSigned_unpackSigned]
      · rw [← htypev,← htype,packSigned_unpackSigned]
    refine ⟨length++(id++type++payload++[0,0]),encode_ok.mpr ⟨?_,?_,⟨?_,?_⟩,?_⟩,hdata⟩
    · intro hnul
      rw [← hpayload] at hplain
      exact hplain ((zero_mem_encodeUtf8 _).mpr hnul)
    · rwa [hpayload]
    · rw [← hidv,← hid]
      exact fitsSigned_unpackSigned id
    · rw [← htypev,← htype]
      exact fitsSigned_unpackSigned type
    · rw [hpayload,hfields.1,hfields.2.1,hfields.2.2]
      simp only [List.append_assoc]
  · rintro ⟨e,he,rfl⟩
    exact decode_encode he rest

end RconPacket

end

section

open Framework Commands

def maxResponseBytes : Nat := 1024*1024

def packetResponse : Int := 0

def packetCommand : Int := 2

def packetLogin : Int := 3

/-- `len(payload.encode("utf-16-le"))//2`. -/
def javaUnits (payload : Text) : Nat := (payload.map fun c => if c.toNat < 0x10000 then 1 else 2).sum

def utf8Length (payload : Text) : Nat := (encodeUtf8 payload).length

def mayHaveContinuation (payload : Text) : Bool :=
  utf8Length payload=rconMaxChunkUnits || javaUnits payload=rconMaxChunkUnits

/-- `_validate_command`; `none` is a command that may be sent. -/
def validateCommand (cmd : Text) : Option String :=
  if strip cmd=[] then some "RCON 命令不能为空"
  else if nul∈cmd then some "RCON 命令包含不允许的控制字符"
  else if utf8Length cmd>rconMaxOutboundPayloadBytes then some "RCON 命令超过 4096 字节安全上限"
  else none

/-- A reader and its writer. What the peer has sent and which packets were read from it, the client does
not keep. -/
structure Connection where
  serial : Nat
  buffer : Bytes
  written : Bytes
  isClosing : Bool
  received : Bytes
  taken : List RconPacket

/-- What a packet is read for: the answers of the login, the first of a command, or another of its parts. -/
inductive Reading where
  | login
  | loginAgain
  | first
  | more (parts : List Text) (responseBytes : Nat)

/-- A command that returned with success: its request, what had been read from its connection before, the
packets of its answer, and all that had been sent by then. -/
structure Served where
  number : Nat
  requestId : Nat
  serial : Nat
  earlier : List RconPacket
  packets : List RconPacket
  stream : Bytes
  response : Text
  truncated : Bool

/-- Where the operation that holds the lock waits. -/
inductive Phase where
  | idle
  | opening
  | writing (login : Bool)
  | header (r : Reading)
  | body (r : Reading) (header : Bytes)
  | closing (answer : Served)

/-- A client; `command` is the command of the operation that holds the lock, if it is one. The requests, the
connections, the packets read before the command was written and the answers are counted along with it. -/
structure RconClient where
  password : Text
  requestId : Nat
  connected : Bool
  connection : Option Connection
  phase : Phase
  command : Option Text
  requests : Nat
  opened : Nat
  mark : Nat
  log : List Served

def RconClient.new (password : Text) : RconClient := ⟨password,0,false,none,.idle,none,0,0,0,[]⟩

/-- What may happen next: the peer's bytes arrive, its connection is lost, an operation gets the lock, what
it waits for comes about, its time is over, its task is cancelled, or what it waits for fails. -/
inductive RconEvent where
  | arrive (bytes : Bytes)
  | lost
  | connect
  | disconnect
  | command (cmd : Text)
  | proceed
  | timeout
  | cancel
  | fail

namespace RconClient

def isConnected (s : RconClient) : Bool :=
  s.connected && (match s.connection with | some c => !c.isClosing | none => false)

def nextRequestId (requestId : Nat) : Nat := if requestId≥2147483647 then 1 else requestId+1

/-- `_disconnect_locked` and the end of the operation that called it. -/
def drop (s : RconClient) : RconClient :=
  {s with connected := false, connection := none, phase := .idle, command := none}

def release (s : RconClient) : RconClient := {s with phase := .idle, command := none}

/-- A request of `_authenticate` or of `_send_command`: a new id, the packet, and the wait for `drain`. -/
def writeRequest (s : RconClient) (c : Connection) (login : Bool) (payload : Text) : RconClient :=
  let id := nextRequestId s.requestId
  match (⟨id,if login then packetLogin else packetCommand,payload⟩ : RconPacket).encode with
  | .error _ => drop {s with requestId := id, requests := s.requests+1}
  | .ok bytes =>
    {s with
      requestId := id
      requests := s.requests+1
      mark := c.taken.length
      phase := .writing login
      connection := some {c with written := c.written++bytes}}

def sendCommand (s : RconClient) (c : Connection) (cmd : Text) : RconClient :=
  writeRequest {s with command := some cmd} c false cmd

def answer (s : RconClient) (c : Connection) (parts : List Text) (truncated : Bool) : Served :=
  ⟨s.requests,s.requestId,c.serial,c.taken.take s.mark,c.taken.drop s.mark,c.received,parts.flatten,truncated⟩

def finish (s : RconClient) (c : Connection) (parts : List Text) : RconClient :=
  release {s with log := s.log++[s.answer c parts false]}

/-- The end of `_authenticate`: the command that called for the connection follows. -/
def finishLogin (s : RconClient) (c : Connection) (p : RconPacket) : RconClient :=
  if p.requestId=-1 ∨ p.requestId≠s.requestId ∨ p.packetType≠packetCommand ∨ p.payload≠[] then drop s
  else
    let s := {s with connected := true, connection := some c}
    match s.command with
    | none => release s
    | some cmd => sendCommand s c cmd

/-- What `_send_command` does with one more part. -/
def collect (s : RconClient) (c : Connection) (parts : List Text) (responseBytes : Nat) (p : RconPacket) :
    RconClient :=
  let total := responseBytes+utf8Length p.payload
  if total>maxResponseBytes then drop s
  else if mayHaveContinuation p.payload then
    {s with connection := some c, phase := .header (.more (parts++[p.payload]) total)}
  else finish {s with connection := some c} c (parts++[p.payload])

def handle (s : RconClient) (c : Connection) (r : Reading) (p : RconPacket) : RconClient :=
  match r with
  | .login =>
    if p.requestId=s.requestId ∧ p.packetType=packetResponse ∧ p.payload=[] then
      {s with connection := some c, phase := .header .loginAgain}
    else finishLogin s c p
  | .loginAgain => finishLogin s c p
  | .first =>
    if p.requestId≠s.requestId ∨ p.packetType≠packetResponse then drop s else collect s c [] 0 p
  | .more parts responseBytes =>
    if p.requestId≠s.requestId ∨ p.packetType≠packetResponse then drop s
    else if p.payload=[] then finish {s with connection := some c} c parts
    else collect s c parts responseBytes p

def proceed (s : RconClient) : Option RconClient :=
  match s.phase,s.connection with
  | .idle,_ => none
  | .opening,_ =>
    let c : Connection := ⟨s.opened+1,[],[],false,[],[]⟩
    some (writeRequest {s with opened := s.opened+1} c true s.password)
  | .writing login,some _ => some {s with phase := .header (if login then .login else .first)}
  | .header r,some c =>
    if c.buffer.length < 4 then none
    else
      let header := c.buffer.take 4
      let length := unpackSigned header
      if length < 10 ∨ length>rconMaxPacketBodyBytes then some (drop s)
      else some {s with connection := some {c with buffer := c.buffer.drop 4}, phase := .body r header}
  | .body r header,some c =>
    let length := (unpackSigned header).toNat
    if c.buffer.length < length then none
    else
      match RconPacket.decode (header++c.buffer.take length) with
      | .error _ => some (drop s)
      | .ok (p,_) => some (handle s {c with buffer := c.buffer.drop length, taken := c.taken++[p]} r p)
  | .closing answer,_ => some (release {s with log := s.log++[answer]})
  | _,none => some (drop s)

/-- The time of the operation is over. Only the wait for another part of an answer takes it for the end of
the answer, and drops the connection; the wait for its closing goes on to return. -/
def timeout (s : RconClient) : Option RconClient :=
  match s.phase,s.connection with
  | .idle,_ => none
  | .header (.more parts _),some c =>
    some {drop s with phase := .closing (s.answer c parts true)}
  | .closing answer,_ => some (release {s with log := s.log++[answer]})
  | _,_ => some (drop s)

def step (s : RconClient) : RconEvent → Option RconClient
  | .arrive bytes =>
    s.connection.map fun c =>
      {s with connection := some {c with buffer := c.buffer++bytes, received := c.received++bytes}}
  | .lost => s.connection.map fun c => {s with connection := some {c with isClosing := true}}
  | .connect =>
    match s.phase with
    | .idle => some (if s.isConnected then s else {s with phase := .opening, command := none})
    | _ => none
  | .disconnect =>
    match s.phase with
    | .idle => some (drop s)
    | _ => none
  | .command cmd =>
    match s.phase with
    | .idle =>
      if validateCommand cmd≠none then some s
      else
        match s.isConnected,s.connection with
        | true,some c => some (sendCommand s c cmd)
        | _,_ => some {s with phase := .opening, command := some cmd}
    | _ => none
  | .proceed => s.proceed
  | .timeout => s.timeout
  | .cancel =>
    match s.phase with
    | .idle => none
    | _ => some (drop s)
  | .fail =>
    match s.phase with
    | .idle => none
    | .closing answer => some (release {s with log := s.log++[answer]})
    | _ => some (drop s)

end RconClient

end

end XiaoQing.Minecraft
