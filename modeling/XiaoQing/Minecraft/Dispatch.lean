import XiaoQing.Commands.Invocation

namespace XiaoQing.Minecraft

section

open Commands

/-! Text from outside -/

def escapeChar : Char := Char.ofNat 27

def bell : Char := Char.ofNat 7

/-- What comes up to the end of the last `ESC \` of a text. -/
def lastTerminator : Text → Option Nat
  | [] => none
  | c::t =>
    match lastTerminator t with
    | some n => some (n+1)
    | none => if c=escapeChar && t.head?=some '\\' then some 2 else none

def between (low high : Nat) (c : Char) : Bool := decide (low ≤ c.toNat) && decide (c.toNat ≤ high)

/-- The length of the match of `_EXTERNAL_ANSI_PATTERN` at the head of a text. -/
def ansiLength : Text → Option Nat
  | c:: ']'::t =>
    if c=escapeChar then
      let run := t.takeWhile (· ≠ bell)
      if run.length < t.length then some (run.length+3) else (lastTerminator run).map (·+2)
    else none
  | c:: '['::t =>
    if c=escapeChar then
      let parameters := t.takeWhile (between 0x30 0x3F)
      let middle := (t.drop parameters.length).takeWhile (between 0x20 0x2F)
      match t.drop (parameters.length+middle.length) with
      | final::_ =>
        if between 0x40 0x7E final then some (parameters.length+middle.length+3) else none
      | [] => none
    else none
  | _ => none

/-- `_EXTERNAL_ANSI_PATTERN.sub("", …)`; the number counts the characters of a match still to skip. -/
def removeAnsi : Nat → Text → Text
  | _,[] => []
  | n+1,_::t => removeAnsi n t
  | 0,c::t =>
    match ansiLength (c::t) with
    | some n => removeAnsi (n-1) t
    | none => c::removeAnsi 0 t

/-- `_EXTERNAL_CONTROL_PATTERN`. -/
def isExternalControl (c : Char) : Bool :=
  between 0 8 c || between 0x0B 0x0C c || between 0x0E 0x1F c || between 0x7F 0x9F c

/-- `value.replace("\r\n", "\n").replace("\r", "\n")`. -/
def unifyLines : Text → Text
  | [] => []
  | '\r':: '\n'::t => '\n'::unifyLines t
  | c::t => (if c = '\r' then '\n' else c)::unifyLines t

/-- `_normalize_external_text`, stripping both. -/
def normalizeExternalText (value : Text) : Text :=
  strip ((removeAnsi 0 (unifyLines value)).map (fun c => if isExternalControl c then ' ' else c))

def byteLength (t : Text) : Nat := (t.map Char.utf8Size).sum

/-- `_utf8_prefix`: the longest beginning of at most so many bytes. -/
def utf8Prefix : Text → Nat → Text
  | [],_ => []
  | c::t,maxBytes =>
    if c.utf8Size ≤ maxBytes then c::utf8Prefix t (maxBytes-c.utf8Size) else []

/-- `bounded_external_text` of a string, with its default suffix. -/
def boundedExternalText (value : Text) (maxChars maxBytes : Nat) (default : Text) : Text :=
  let normalized := normalizeExternalText value
  let candidate := if normalized.isEmpty then normalizeExternalText default else normalized
  if candidate.length ≤ maxChars && byteLength candidate ≤ maxBytes then candidate
  else
    let suffix := utf8Prefix (['…'].take maxChars) maxBytes
    utf8Prefix (candidate.take (maxChars-suffix.length)) (maxBytes-byteLength suffix)++suffix

def chatText (raw : Text) (maxChars maxBytes : Nat) (default : Text) : Text :=
  boundedExternalText (join ' ' (words raw)) maxChars maxBytes default

def maxChatChars : Nat := 256

def maxChatBytes : Nat := 1024

def maxSenderChars : Nat := 24

def maxSenderBytes : Nat := 96

/-! The message component -/

def hexLetter (n : Nat) : Char := if n < 10 then Char.ofNat (48+n) else Char.ofNat (87+n)

def jsonEscape (c : Char) : Text :=
  if c = '"' then ['\\', '"']
  else if c = '\\' then ['\\','\\']
  else if c = '\n' then ['\\','n']
  else if c = '\r' then ['\\','r']
  else if c = '\t' then ['\\','t']
  else if c.toNat=12 then ['\\','f']
  else if c.toNat=8 then ['\\','b']
  else if c.toNat < 32 then ['\\','u','0','0',hexLetter (c.toNat/16),hexLetter (c.toNat%16)]
  else [c]

/-- `json.dumps` of a string, other than ASCII left as it is. -/
def jsonText (t : Text) : Text := [ '"']++t.flatMap jsonEscape++[ '"']

structure Sender where
  card : Option Text
  nickname : Option Text
  name : Option Text

def senderDisplayName (sender : Option Sender) : Text :=
  match sender with
  | none => []
  | some s =>
    (([s.card,s.nickname,s.name].filterMap (fun value => value.map strip)).find?
      (fun value => !value.isEmpty)).getD []

structure Event where
  groupId : Option Int
  userId : Option Int
  sender : Option Sender

/-- `str(event.get("user_id") or "")`. -/
def Event.userText (event : Event) : Text :=
  match event.userId with
  | none => []
  | some n => if n=0 then [] else (toString n).toList

def chatComponent (event : Event) (message : Text) (whisper : Bool) : Text :=
  let display := senderDisplayName event.sender
  let name := chatText (if display.isEmpty then event.userText else display) maxSenderChars
    maxSenderBytes "QQ 用户".toList
  let body :=
    if whisper then
      "\x7b\"text\":".toList++jsonText ('<'::name++"> 悄悄对你说: ".toList++message)++
        ",\"color\":\"gray\"\x7d".toList
    else "\x7b\"text\":".toList++jsonText ('<'::name++"> ".toList++message)++"\x7d".toList
  "[\"\",\x7b\"text\":\"[QQ] \",\"color\":\"aqua\"\x7d,".toList++body++"]".toList

inductive TargetKind where
  | directChat
  | group
  deriving DecidableEq

structure DeliveryTarget where
  kind : TargetKind
  targetId : Int
  positive : 0 < targetId

instance : DecidableEq DeliveryTarget := fun a b =>
  decidable_of_iff (a.kind=b.kind∧a.targetId=b.targetId) (by cases a; cases b; simp)

end

section

open Commands

/-- The subcommands that do something. -/
inductive Subcommand where
  | connect
  | disconnect
  | status
  | list
  | say
  | tell
  | run
  deriving DecidableEq

/-! The manifest -/

def Subcommand.aliases : Subcommand → List Text
  | .connect => ["连接".toList]
  | .disconnect => ["断开".toList]
  | .status => ["状态".toList]
  | .list => []
  | .say => []
  | .tell => []
  | .run => ["执行".toList]

def Subcommand.name : Subcommand → Text
  | .connect => "connect".toList
  | .disconnect => "disconnect".toList
  | .status => "status".toList
  | .list => "list".toList
  | .say => "say".toList
  | .tell => "tell".toList
  | .run => "run".toList

def Subcommand.exact : Subcommand → Bool
  | .disconnect => true
  | .status => true
  | .list => true
  | _ => false

def Subcommand.needsAdmin : Subcommand → Bool
  | .connect => true
  | .disconnect => true
  | .run => true
  | _ => false

def Subcommand.help : Subcommand → Text
  | .connect => "为本会话连接清单中的服务器配置".toList
  | .disconnect => "断开本会话的服务器连接".toList
  | .status => "查看连接和日志监控状态".toList
  | .list => "查看在线玩家".toList
  | .say => "用自己的 QQ 名字对游戏里所有人说".toList
  | .tell => "悄悄对一名在线玩家说".toList
  | .run => "原样执行一条服务器命令".toList

def Subcommand.usage : Subcommand → Text
  | .connect => "/mc connect <配置名>".toList
  | .disconnect => "/mc disconnect".toList
  | .status => "/mc status".toList
  | .list => "/mc list".toList
  | .say => "/mc say <消息>".toList
  | .tell => "/mc tell <玩家名> <消息>".toList
  | .run => "/mc run <服务器命令>".toList

def Subcommand.sample : Subcommand → Text
  | .connect => "/mc connect default".toList
  | .disconnect => "/mc disconnect".toList
  | .status => "/mc status".toList
  | .list => "/mc list".toList
  | .say => "/mc say 大家好".toList
  | .tell => "/mc tell Steve 你好".toList
  | .run => "/mc run time set day".toList

def Subcommand.invalidSample : Subcommand → Text
  | .connect => "/mc connect".toList
  | .disconnect => "/mc disconnect extra".toList
  | .status => "/mc status extra".toList
  | .list => "/mc list extra".toList
  | .say => "/mc say".toList
  | .tell => "/mc tell Steve".toList
  | .run => "/mc run".toList

def subcommands : List Subcommand := [.connect,.disconnect,.status,.list,.say,.tell,.run]

def Subcommand.node (s : Subcommand) : CommandCatalogNode :=
  { code := "minecraft.mc.".toList++s.name
    plugin := "minecraft".toList
    path := ["mc".toList,s.name]
    name := s.name
    aliases := s.aliases
    helpText := s.help
    usage := s.usage
    matchMode := if s.exact then "exact".toList else "prefix".toList
    permission := if s.needsAdmin then .botAdmin else .everyone
    contexts := [.directChat,.group]
    examples := [s.sample]
    invalidExamples := [s.invalidSample]
    children := [] }

/-- What a handler goes on to do once its own checks have passed: to connect the target to the
server of a profile, to drop its connection, to report on it, or to send a command over it. -/
inductive Operation where
  | connect (profile : Text)
  | disconnect
  | status
  | command (line : Text)
  deriving DecidableEq

inductive Outcome where
  | reply (text : Text)
  | act (subcommand : Subcommand) (operation : Operation) (target : DeliveryTarget)
  deriving DecidableEq

def helpText : Text :=
  ("🎮 Minecraft RCON 插件\n\n所有人：\n/mc say <消息>  用你的 QQ 名字对游戏里所有人说，例如 /mc say 大家好\n".toList ++
    "/mc tell <玩家名> <消息>  悄悄对一名玩家说\n/mc list  查看在线玩家\n".toList ++
    "/mc status  查看本会话的连接和日志监控状态\n/mc help  显示帮助\n\nBot 管理员：\n".toList ++
    "/mc connect <配置名>  为本会话连接本地配置的服务器\n/mc disconnect  断开本会话的连接\n".toList ++
    "/mc run <服务器命令>  原样执行一条服务器命令，例如 /mc run time set day\n\n".toList ++
    "连接属于发起连接的私聊或群。日志监控启用后，玩家聊天、加入和离开等事件会转发到这个私聊或群。".toList)

def connectUsage : Text :=
  ("用法: /mc connect <配置名>\n示例: /mc connect default\n\n".toList ++
    "主机、端口和可选日志路径写在 plugins/minecraft/config.json；密码写在".toList ++
    " config/secrets.json 的 plugins.minecraft.<配置名> 中。".toList)

/-- `text.split(maxsplit=1)[1]`, or nothing where there is no second part. -/
def afterFirst (t : Text) : Text :=
  match splitFirst t with
  | none => []
  | some (_,rest) => rest

/-- `_handle_connect` up to where it reads the profile. -/
def handleConnect (args : Text) (target : DeliveryTarget) : Outcome :=
  let profile := strip args
  if profile.isEmpty then .reply connectUsage else .act .connect (.connect profile) target

/-- `_handle_mc_command`; the text it is given is what it sends. -/
def handleMcCommand (s : Subcommand) (args : Text) (target : DeliveryTarget) : Outcome :=
  let command := strip args
  if command.isEmpty then .reply "❌ 请提供要执行的命令".toList else .act s (.command command) target

def handleSay (args : Text) (event : Event) (target : DeliveryTarget) : Outcome :=
  let message := chatText (afterFirst (strip args)) maxChatChars maxChatBytes []
  if message.isEmpty then .reply "用法: /mc say <消息>".toList
  else handleMcCommand .say ("tellraw @a ".toList++chatComponent event message false) target

/-- `_PLAYER_PATTERN`. -/
def isPlayer (t : Text) : Bool :=
  decide (1 ≤ t.length) && decide (t.length ≤ 16) &&
    t.all (fun c => isAsciiLetter c || isAsciiDigit c || c = '_')

def handleTell (args : Text) (event : Event) (target : DeliveryTarget) : Outcome :=
  let after := afterFirst (strip args)
  let player := ((splitFirst after).map Prod.fst).getD []
  let message := chatText (afterFirst after) maxChatChars maxChatBytes []
  if message.isEmpty || !isPlayer player then
    .reply "用法: /mc tell <玩家名> <消息>（玩家名为 1 至 16 个字母、数字或下划线）".toList
  else
    handleMcCommand .tell ("tellraw ".toList++player++ ' '::chatComponent event message true) target

def withoutArguments (s : Subcommand) (parsed : ParsedArgs) (outcome : Outcome) : Outcome :=
  if parsed.tokens.length≠1 || !parsed.options.isEmpty then .reply ("用法: ".toList++s.usage)
  else outcome

end

end XiaoQing.Minecraft
