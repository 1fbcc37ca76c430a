import XiaoQing.Minecraft.Dispatch
import Mathlib.Data.List.Find

namespace XiaoQing.Minecraft

open Commands CommandCatalogNode

variable {fold : CaseFolding} {args : Text} {event : Event} {s : Subcommand}

def Subcommand.names (s : Subcommand) : List Text := s.name::s.aliases

variable {word : Text}

def handler (args : Text) (event : Event) (target : DeliveryTarget) : Subcommand → Outcome
  | .connect => handleConnect ((parse args).rest 1) target
  | .disconnect => withoutArguments .disconnect (parse args) (.act .disconnect .disconnect target)
  | .status => withoutArguments .status (parse args) (.act .status .status target)
  | .list => withoutArguments .list (parse args) (handleMcCommand .list "list".toList target)
  | .say => handleSay args event target
  | .tell => handleTell args event target
  | .run =>
    if (afterFirst (strip args)).isEmpty then .reply "用法: /mc run <服务器命令>".toList
    else handleMcCommand .run (afterFirst (strip args)) target

def member : PluginPrincipal where
  kind := .user
  userId := some 5
  groupId := some 1
  isBotAdmin := false
  isPrivate := false
  groupRole := .member
  positive := by simp
  userScope := by simp
  noScope := by simp

end XiaoQing.Minecraft
