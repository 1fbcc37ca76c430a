import XiaoQing.Commands.CommandRouter
import Mathlib.Logic.Relation
import Mathlib.Order.Basic

namespace XiaoQing.Commands

inductive Permission where
  | everyone
  | groupAdmin
  | botAdmin
  deriving DecidableEq

namespace Permission

def text : Permission → Text
  | .everyone => "public".toList
  | .groupAdmin => "group_admin".toList
  | .botAdmin => "bot_admin".toList

/-- The permission a manifest writes; `none` for any other text. -/
def ofText (t : Text) : Option Permission :=
  if t=everyone.text then some .everyone
  else if t=groupAdmin.text then some .groupAdmin
  else if t=botAdmin.text then some .botAdmin
  else none

def strength : Permission → Nat
  | .everyone => 0
  | .groupAdmin => 1
  | .botAdmin => 2

instance : LE Permission := ⟨fun p q => p.strength ≤ q.strength⟩

theorem le_def {p q : Permission} : p ≤ q ↔ p.strength ≤ q.strength := Iff.rfl

end Permission

inductive ChatContext where
  | directChat
  | group
  deriving DecidableEq

def ChatContext.text : ChatContext → Text
  | .directChat => "private".toList
  | .group => "group".toList

/-- A command of a manifest with everything the catalog reads of it; `triggers` is read of a top
command, `aliases` of the others. -/
structure CommandManifest where
  name : Text
  triggers : List Text
  aliases : List Text
  help : Text
  usage : Option Text
  matchMode : Option Text
  permission : Option Text
  contexts : Option (List Text)
  examples : List Text
  invalidExamples : List Text
  subcommands : List CommandManifest

structure CommandCatalogNode where
  code : Text
  plugin : Text
  path : List Text
  name : Text
  aliases : List Text
  helpText : Text
  usage : Text
  matchMode : Text
  permission : Permission
  contexts : List ChatContext
  examples : List Text
  invalidExamples : List Text
  children : List CommandCatalogNode

inductive BuildError where
  | noTrigger
  | noUsableContext (plugin code : Text)

def BuildError.message : BuildError → Text
  | .noTrigger => "tuple index out of range".toList
  | .noUsableContext plugin code =>
    "command ".toList++plugin++ '.'::code++" has no usable context".toList

/-- `sep.join(parts)`. -/
def join (sep : Char) (parts : List Text) : Text := (parts.intersperse [sep]).flatten

def effectiveCommandPermission (parent : Permission) (declared : Option Text) : Permission :=
  let permission := (declared.bind Permission.ofText).getD parent
  if .botAdmin∈[parent,permission] then .botAdmin
  else if .groupAdmin∈[parent,permission] then .groupAdmin
  else .everyone

def effectiveContexts (parent : List ChatContext) (declared : Option (List Text)) :
    List ChatContext :=
  match declared with
  | none => parent
  | some allowed => parent.filter (fun value => value.text∈allowed)

/-- What `command.get("usage") or …` gives. -/
def effectiveUsage (path : List Text) (usage : Option Text) : Text :=
  if (usage.getD []).isEmpty then '/'::join ' ' path else usage.getD []

def nodeNames (root : Bool) (name : Text) (triggers aliases : List Text) :
    Except BuildError (Text × List Text) :=
  if root then
    match triggers with
    | [] => .error .noTrigger
    | first::others => .ok (first,others)
  else .ok (name,aliases)

mutual

def buildCommandCatalogNode (pluginName : Text) (parentCodePath parentPath : List Text)
    (parentPermission : Permission) (parentContexts : List ChatContext) (root : Bool) :
    CommandManifest → Except BuildError CommandCatalogNode
  | ⟨codeName,triggers,aliases,help,usage,matchMode,declared,declaredContexts,examples,
      invalidExamples,subcommands⟩ =>
    match nodeNames root codeName triggers aliases with
    | .error e => .error e
    | .ok (name,aliases) =>
      let codePath := parentCodePath++[codeName]
      let path := parentPath++[name]
      let permission := effectiveCommandPermission parentPermission declared
      let contexts := effectiveContexts parentContexts declaredContexts
      if contexts.isEmpty then .error (.noUsableContext pluginName (join '.' codePath))
      else
        match buildChildren pluginName codePath path permission contexts subcommands with
        | .error e => .error e
        | .ok children =>
          .ok {
            code := pluginName++ '.'::join '.' codePath
            plugin := pluginName
            path := path
            name := name
            aliases := aliases
            helpText := help
            usage := effectiveUsage path usage
            matchMode := matchMode.getD "prefix".toList
            permission := permission
            contexts := contexts
            examples := examples
            invalidExamples := invalidExamples
            children := children }

def buildChildren (pluginName : Text) (codePath path : List Text) (permission : Permission)
    (contexts : List ChatContext) :
    List CommandManifest → Except BuildError (List CommandCatalogNode)
  | [] => .ok []
  | child::rest =>
    match buildCommandCatalogNode pluginName codePath path permission contexts false child with
    | .error e => .error e
    | .ok node =>
      match buildChildren pluginName codePath path permission contexts rest with
      | .error e => .error e
      | .ok nodes => .ok (node::nodes)

end

def buildRoot (pluginName : Text) (command : CommandManifest) :
    Except BuildError CommandCatalogNode :=
  buildCommandCatalogNode pluginName [] [] .everyone [.directChat,.group] true command

/-! Access -/

inductive PrincipalKind where
  | user
  | scheduledSystem
  | lifecycle
  deriving DecidableEq

inductive GroupRole where
  | owner
  | admin
  | member
  | unknown
  deriving DecidableEq

/-- `PluginPrincipal` with what `__post_init__` enforces. -/
structure PluginPrincipal where
  kind : PrincipalKind
  userId : Option Nat
  groupId : Option Nat
  isBotAdmin : Bool
  isPrivate : Bool
  groupRole : GroupRole
  positive : (∀n∈userId,0 < n) ∧ ∀n∈groupId,0 < n
  userScope : kind=.user → userId.isSome ∧ (isPrivate → groupId=none) ∧
    (groupId=none → groupRole=.unknown)
  noScope : kind≠.user → userId=none ∧ groupId=none ∧ isBotAdmin=false ∧ isPrivate=false ∧
    groupRole=.unknown

def PluginPrincipal.canManageGroup (principal : PluginPrincipal) (target : Option Nat) : Bool :=
  match target with
  | none => false
  | some target =>
    if principal.kind≠.user || principal.isPrivate || target=0 then false
    else principal.groupId=some target && principal.groupRole∈[.owner,.admin]

def PluginPrincipal.chatContext (principal : PluginPrincipal) : ChatContext :=
  if principal.isPrivate then .directChat else .group

inductive Denial where
  | botAdmin
  | groupAdmin
  | context
  deriving DecidableEq

/-- `command_access`; `none` grants. -/
def commandAccess (node : CommandCatalogNode) (principal : PluginPrincipal)
    (isBotAdmin : Option Bool) : Option Denial :=
  let admin := isBotAdmin.getD principal.isBotAdmin
  if node.permission=.botAdmin && !admin then some .botAdmin
  else if node.permission=.groupAdmin && !(admin || principal.canManageGroup principal.groupId) then
    some .groupAdmin
  else if principal.chatContext∈node.contexts then none
  else some .context

/-- Whom a permission lets through: bot administrators, and those who manage the group. -/
def Permission.Admits (permission : Permission) (admin manages : Bool) : Prop :=
  match permission with
  | .everyone => True
  | .groupAdmin => admin ∨ manages
  | .botAdmin => admin

theorem Permission.Admits.of_le {p q : Permission} {admin manages : Bool} (h : q.Admits admin manages)
    (hle : p ≤ q) : p.Admits admin manages := by
  rw [Permission.le_def] at hle
  cases p with
  | everyone => trivial
  | groupAdmin =>
    cases q with
    | everyone => simp [strength] at hle
    | groupAdmin => exact h
    | botAdmin => exact Or.inl h
  | botAdmin =>
    cases q with
    | everyone => simp [strength] at hle
    | groupAdmin => simp [strength] at hle
    | botAdmin => exact h

variable {node : CommandCatalogNode}

theorem commandAccess_eq_none {principal : PluginPrincipal}
    {isBotAdmin : Option Bool} :
    commandAccess node principal isBotAdmin=none ↔
      node.permission.Admits (isBotAdmin.getD principal.isBotAdmin)
          (principal.canManageGroup principal.groupId) ∧
        principal.chatContext∈node.contexts := by
  unfold commandAccess
  cases node.permission <;> cases isBotAdmin.getD principal.isBotAdmin <;>
    cases principal.canManageGroup principal.groupId <;> simp [Permission.Admits]

/-! What a child inherits -/

section

variable {parent : Permission} {declared : Option Text}

theorem le_effectiveCommandPermission : parent ≤ effectiveCommandPermission parent declared := by
  rw [Permission.le_def]
  unfold effectiveCommandPermission
  generalize (declared.bind Permission.ofText).getD parent = permission
  cases parent <;> cases permission <;> decide

theorem effectiveContexts_subset {contexts : List ChatContext} {declared : Option (List Text)} :
    effectiveContexts contexts declared ⊆ contexts := by
  unfold effectiveContexts
  cases declared with
  | none => exact List.Subset.refl _
  | some allowed => exact List.filter_subset_self _

end

namespace CommandCatalogNode

def Child (a b : CommandCatalogNode) : Prop := b∈a.children

abbrev Descends : CommandCatalogNode → CommandCatalogNode → Prop := Relation.ReflTransGen Child

structure Narrows (a b : CommandCatalogNode) : Prop where
  permission : a.permission ≤ b.permission
  contexts : b.contexts ⊆ a.contexts

theorem Narrows.refl (a : CommandCatalogNode) : Narrows a a :=
  ⟨Nat.le_refl _,List.Subset.refl _⟩

theorem Narrows.trans {a b c : CommandCatalogNode} (h : Narrows a b) (h' : Narrows b c) :
    Narrows a c :=
  ⟨Nat.le_trans h.permission h'.permission,List.Subset.trans h'.contexts h.contexts⟩

theorem Narrows.access {a b : CommandCatalogNode} {principal : PluginPrincipal}
    {isBotAdmin : Option Bool} (h : Narrows a b) (hb : commandAccess b principal isBotAdmin=none) :
    commandAccess a principal isBotAdmin=none := by
  rw [commandAccess_eq_none] at hb ⊢
  exact ⟨hb.1.of_le h.permission,h.contexts hb.2⟩

def Inherits (root : CommandCatalogNode) : Prop :=
  ∀a,Descends root a → ∀b∈a.children,Narrows a b

theorem Inherits.narrows {root a d : CommandCatalogNode} (h : Inherits root) (ha : Descends root a)
    (hd : Descends a d) : Narrows a d := by
  induction hd with
  | refl => exact .refl a
  | tail hab hbc ih => exact ih.trans (h _ (ha.trans hab) _ hbc)

end CommandCatalogNode

/-! What the builder hands down -/

section

open CommandCatalogNode

variable {pluginName : Text} {codePath path : List Text} {permission : Permission}
  {contexts : List ChatContext} {root : Bool}

variable {command : CommandManifest}

theorem buildCommandCatalogNode_ok
    (h : buildCommandCatalogNode pluginName codePath path permission contexts root command=
      .ok node) :
    permission ≤ node.permission ∧ node.contexts ⊆ contexts ∧ node.contexts≠[] ∧
      buildChildren pluginName (codePath++[command.name]) node.path node.permission node.contexts
        command.subcommands=.ok node.children := by
  obtain ⟨name,triggers,aliases,help,usage,matchMode,declared,declaredContexts,examples,
    invalidExamples,subcommands⟩ := command
  rw [buildCommandCatalogNode] at h
  split at h
  · cases h
  · simp only at h
    split at h
    · cases h
    · rename_i hcontexts
      split at h
      · cases h
      · rename_i children hchildren
        cases h
        refine ⟨le_effectiveCommandPermission,effectiveContexts_subset,?_,hchildren⟩
        intro he
        exact hcontexts (List.isEmpty_iff.mpr he)

theorem mem_of_buildChildren {commands : List CommandManifest} {nodes : List CommandCatalogNode}
    (h : buildChildren pluginName codePath path permission contexts commands=.ok nodes) :
    ∀node∈nodes,∃command∈commands,
      buildCommandCatalogNode pluginName codePath path permission contexts false command=
        .ok node := by
  induction commands generalizing nodes with
  | nil =>
    rw [buildChildren] at h
    cases h
    simp
  | cons command rest ih =>
    rw [buildChildren] at h
    split at h
    · cases h
    · rename_i first hfirst
      split at h
      · cases h
      · rename_i others hothers
        cases h
        intro node hnode
        rcases List.mem_cons.mp hnode with rfl | hnode
        · exact ⟨command,List.mem_cons_self,hfirst⟩
        · obtain ⟨c,hc,hbuilt⟩ := ih hothers node hnode
          exact ⟨c,List.mem_cons_of_mem _ hc,hbuilt⟩

theorem Descends.built {a d : CommandCatalogNode} (h : Descends a d)
    (ha : buildCommandCatalogNode pluginName codePath path permission contexts root command=
      .ok a) :
    ∃codePath path permission contexts root command,
      buildCommandCatalogNode pluginName codePath path permission contexts root command=.ok d := by
  induction h with
  | refl => exact ⟨_,_,_,_,_,_,ha⟩
  | tail _ hchild ih =>
    obtain ⟨codePath,path,permission,contexts,root,command,hb⟩ := ih
    obtain ⟨_,_,_,hchildren⟩ := buildCommandCatalogNode_ok hb
    obtain ⟨c,_,hc⟩ := mem_of_buildChildren hchildren _ hchild
    exact ⟨_,_,_,_,_,_,hc⟩

theorem inherits_of_build
    (h : buildCommandCatalogNode pluginName codePath path permission contexts root command=
      .ok node) : Inherits node := by
  intro a ha b hb
  obtain ⟨_,_,_,_,_,_,hbuilt⟩ := Descends.built ha h
  obtain ⟨_,_,_,hchildren⟩ := buildCommandCatalogNode_ok hbuilt
  obtain ⟨_,_,hchild⟩ := mem_of_buildChildren hchildren b hb
  obtain ⟨hpermission,hcontexts,_⟩ := buildCommandCatalogNode_ok hchild
  exact ⟨hpermission,hcontexts⟩

end

end XiaoQing.Commands
