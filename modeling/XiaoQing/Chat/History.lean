import Mathlib.Data.NNRat.Order
import Mathlib.Data.Prod.Lex
import Mathlib.Data.Char
import Mathlib.Data.List.DropRight
import Mathlib.Data.List.Lex
import Mathlib.Data.Rat.Floor
import XiaoQing.Framework.Keyed

namespace XiaoQing.Chat

open Framework

@[irreducible] def maxCachedMessagesPerChat : Nat := 200

/-- A message of the history. The callers record only messages with a role and something to show;
the parts and ids are in the form `__post_init__` gives them. -/
structure StoredMessage (π : Type) where
  role : String
  name : String
  ts : ℚ≥0
  userId : Option Int
  messageId : Option Int
  localId : List Char
  parts : List π
  sourcePlugin : String
  extraMessageIds : List Int
  kept : role≠""∧parts≠[]
  once : extraMessageIds.Nodup
deriving DecidableEq

structure Record (π : Type) where
  role : String
  name : String
  ts : ℚ≥0
  userId : Option Int
  messageId : Option Int
  localId : List Char
  parts : List π
  sourcePlugin : String
  extraMessageIds : List Int
deriving DecidableEq

structure Decimals where
  /-- The value of a character that `\d` matches, in any script. -/
  digit : Char → Option Nat
  ascii : ∀d<10,digit d.digitChar=some d

namespace Decimals

variable (D : Decimals)

def numeralFrom (n : Nat) : List Char → Option Nat
  | [] => some n
  | c::cs => (D.digit c).bind fun d => numeralFrom (10*n+d) cs

/-- `int(text)` where `\d+` matches the whole text. -/
def numeral (cs : List Char) : Option Nat := if cs=[] then none else D.numeralFrom 0 cs

/-- The number in an id that `m\d+` matches. -/
def allocated : List Char → Option Nat
  | 'm'::cs => D.numeral cs
  | _ => none

/-- `$` also matches before a line break at the end. -/
def body (cs : List Char) : List Char := if cs.getLast?=some '\n' then cs.dropLast else cs

def localIdOrder (cs : List Char) : ℕ ×ₗ ℕ ×ₗ List Char :=
  if cs=[] then toLex (0,toLex (0,[]))
  else
    let digits := (body cs).rtakeWhile fun c => (D.digit c).isSome
    match D.numeral digits with
    | none => toLex (1,toLex (0,cs))
    | some n => toLex (1,toLex (n,(body cs).take ((body cs).length-digits.length)))

end Decimals

/-- `f"m{n}"` -/
def localId (n : Nat) : List Char := 'm'::Nat.toDigits 10 n

inductive Identity
  | local (id : List Char)
  | remote (id : Int)
  | fallback (role name : String) (userId : Option Int) (ts : Int) (content : String)
deriving DecidableEq

/-- `round(ts, 6)` in millionths; a tie goes to the even one. -/
def roundTs (ts : ℚ≥0) : Int :=
  let x : ℚ := ts*1000000
  let n := ⌊x⌋
  if x-n<1/2 ∨ (x-n=1/2∧n%2=0) then n else n+1

section

variable {π : Type} (D : Decimals) (content : List π → String)

def messageIdentity (m : StoredMessage π) : Identity :=
  if m.localId≠[] then .local m.localId
  else match m.messageId with
    | some id => .remote id
    | none => .fallback m.role m.name m.userId (roundTs m.ts) (content m.parts)

def orderKey (m : StoredMessage π) : ℚ≥0 ×ₗ ℕ ×ₗ ℕ ×ₗ List Char :=
  toLex (m.ts,D.localIdOrder m.localId)

def mergeHistory (loaded current : List (StoredMessage π)) : List (StoredMessage π) :=
  latest maxCachedMessagesPerChat
    (arrange (orderKey D) (distinct (messageIdentity content) [] (loaded++current)))

def serializeMessage (m : StoredMessage π) : Record π :=
  ⟨m.role,m.name,m.ts,m.userId,m.messageId,m.localId,m.parts,m.sourcePlugin,m.extraMessageIds⟩

variable [DecidableEq π]

/-- One entry in `_load`. -/
def loadMessage (r : Record π) : Option (StoredMessage π) :=
  if h : r.role≠""∧r.parts≠[] then
    some ⟨r.role,r.name,r.ts,r.userId,r.messageId,r.localId,r.parts,r.sourcePlugin,
      distinct id [] r.extraMessageIds,h,by simpa using (distinct_nodup id [] r.extraMessageIds).1⟩
  else none

/-- `_load`, with nothing for a missing file. -/
def load (disk : Option (List (Record π))) : List (StoredMessage π) :=
  (disk.getD []).filterMap loadMessage

def coldLoad (disk : Option (List (Record π))) : List (StoredMessage π) :=
  mergeHistory D content (load disk) []

variable {D} {content} {m : StoredMessage π} {l r h : List (StoredMessage π)}

omit [DecidableEq π] in
theorem loadMessage_serialize (m : StoredMessage π) : loadMessage (serializeMessage m)=some m := by
  have hids : distinct id [] m.extraMessageIds=m.extraMessageIds :=
    distinct_of_nodup (by simpa using m.once) (fun _ _ => List.not_mem_nil)
  unfold loadMessage serializeMessage
  rw [dif_pos m.kept]
  simp only [hids]

theorem load_serialize (h : List (StoredMessage π)) : load (some (h.map serializeMessage))=h := by
  simp [load,List.filterMap_map,loadMessage_serialize]

omit [DecidableEq π]

theorem mergeHistory_sublist : (mergeHistory D content l r).Sublist
    (arrange (orderKey D) (distinct (messageIdentity content) [] (l++r))) :=
  (latest_suffix _ _).sublist

theorem mergeHistory_identities : ((mergeHistory D content l r).map (messageIdentity content)).Nodup := by
  refine (mergeHistory_sublist.map _).nodup ?_
  exact ((arrange_perm _ _).map _).nodup_iff.mpr (distinct_nodup _ _ _).1

theorem mergeHistory_length : (mergeHistory D content l r).length ≤ maxCachedMessagesPerChat := by
  unfold mergeHistory
  rw [length_latest]
  exact min_le_left _ _

theorem mergeHistory_sorted : (mergeHistory D content l r).Pairwise
    fun a b => orderKey D a≤orderKey D b :=
  (arrange_sorted _ _).sublist mergeHistory_sublist

theorem mem_of_mem_mergeHistory (hm : m∈mergeHistory D content l r) : m∈l++r :=
  mem_of_mem_distinct ((arrange_perm _ _).subset (mergeHistory_sublist.subset hm))

theorem mergeHistory_again :
    mergeHistory D content l (mergeHistory D content l [])=mergeHistory D content l [] := by
  have hd : distinct (messageIdentity content) [] (l++mergeHistory D content l [])=
      distinct (messageIdentity content) [] (l++[]) := by
    rw [List.append_nil]
    refine distinct_append_old fun a ha => .inr ⟨a,?_,rfl⟩
    simpa using mem_of_mem_mergeHistory ha
  change latest _ (arrange _ (distinct _ [] (l++mergeHistory D content l [])))=_
  rw [hd]
  rfl

theorem mergeHistory_perm (hn : (h.map (messageIdentity content)).Nodup)
    (hl : h.length ≤ maxCachedMessagesPerChat) : (mergeHistory D content h []).Perm h := by
  unfold mergeHistory
  rw [List.append_nil,distinct_of_nodup hn (by simp),latest_of_le]
  · exact arrange_perm _ _
  · rwa [(arrange_perm _ _).length_eq]

theorem mergeHistory_self (hn : (h.map (messageIdentity content)).Nodup)
    (hl : h.length ≤ maxCachedMessagesPerChat) (hs : h.Pairwise fun a b => orderKey D a≤orderKey D b) :
    mergeHistory D content h h=h := by
  unfold mergeHistory
  rw [distinct_append_old fun a ha => .inr ⟨a,ha,rfl⟩,distinct_of_nodup hn (by simp),
    arrange_of_sorted hs,latest_of_le hl]

theorem coldLoad_length_le [DecidableEq π] {disk : Option (List (Record π))} :
    (coldLoad D content disk).length≤(load disk).length := by
  have h := List.Sublist.length_le (mergeHistory_sublist : (mergeHistory D content (load disk) []).Sublist _)
  rw [(arrange_perm _ _).length_eq,List.append_nil] at h
  exact h.trans (distinct_sublist _ _ _).length_le

theorem coldLoad_covers [DecidableEq π] {disk : Option (List (Record π))}
    (hm : m∈load disk) (hl : (load disk).length ≤ maxCachedMessagesPerChat) :
    ∃m'∈coldLoad D content disk,messageIdentity content m'=messageIdentity content m := by
  have hlen := (distinct_sublist (messageIdentity content) [] (load disk)).length_le
  have hc : messageIdentity content m∈([] : List Identity)∨_ := distinct_covers hm
  rcases hc with hs | ⟨m',hm',hk⟩
  · cases hs
  · refine ⟨m',?_,hk⟩
    unfold coldLoad mergeHistory
    rw [List.append_nil,latest_of_le (by rw [(arrange_perm _ _).length_eq]; omega)]
    exact (arrange_perm _ _).symm.subset hm'

end

section

variable (D : Decimals)

theorem numeralFrom_append (n : Nat) (cs ds : List Char) :
    D.numeralFrom n (cs++ds)=(D.numeralFrom n cs).bind fun k => D.numeralFrom k ds := by
  induction cs generalizing n with
  | nil => rfl
  | cons c cs ih =>
    simp only [List.cons_append,Decimals.numeralFrom]
    cases D.digit c with
    | none => rfl
    | some d => exact ih _

theorem numeralFrom_toDigits (n : Nat) : D.numeralFrom 0 (Nat.toDigits 10 n)=some n := by
  induction n using Nat.strongRecOn with
  | ind n ih =>
    rw [Nat.toDigits_eq_if (by decide)]
    split_ifs with hn
    · simp [Decimals.numeralFrom,D.ascii n hn]
    · rw [numeralFrom_append,ih (n/10) (by omega)]
      simp only [Option.bind_some,Decimals.numeralFrom,D.ascii (n%10) (by omega)]
      congr 1
      omega

theorem allocated_localId (n : Nat) : D.allocated (localId n)=some n := by
  unfold Decimals.allocated localId Decimals.numeral
  simp only [if_neg Nat.toDigits_ne_nil]
  exact numeralFrom_toDigits D n

end

end XiaoQing.Chat
