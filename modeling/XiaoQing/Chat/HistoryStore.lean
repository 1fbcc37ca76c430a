import Mathlib.Logic.Function.Basic
import XiaoQing.Chat.History
import XiaoQing.Framework.Run

namespace XiaoQing.Chat

section

open Framework

/-- A read that found no cached history: the generation it saw, and then what it loaded. -/
inductive Reading (π : Type)
  | looked (generation : Nat)
  | loaded (generation : Nat) (history : List (StoredMessage π))

/-- Who holds the write lock of the chat. -/
inductive Writer (π : Type)
  | idle
  | persisting (snapshot : List (StoredMessage π)) (generation : Nat)
  | written (generation : Nat)
  | clearing

/-- The store, for one chat, with the local ids that were allocated and not yet appended. -/
structure MemoryStore (π : Type) where
  messages : Option (List (StoredMessage π))
  generation : Nat
  tombstone : Bool
  dirty : Bool
  disk : Option (List (Record π))
  writer : Writer π
  readings : Nat → Option (Reading π)
  nextLocalId : Option Nat
  allocating : Option (Reading π)
  pending : List Nat
  /-- What the last step returned, where it ended a read. -/
  answer : Option (List (StoredMessage π))

inductive StoreAct (π : Type)
  | look (i : Nat)
  | load (i : Nat)
  | merge (i : Nat)
  | allocate
  | allocateLoad
  | allocateMerge
  | append (n : Nat) (m : StoredMessage π)
  | evict
  | persist
  | write
  | discard
  | persisted
  | clear
  | delete
deriving DecidableEq

namespace MemoryStore

variable {π : Type} [DecidableEq π] (D : Decimals) (content : List π → String)

def initial (disk : Option (List (Record π))) : MemoryStore π where
  messages := none
  generation := 0
  tombstone := false
  dirty := false
  disk := disk
  writer := .idle
  readings _ := none
  nextLocalId := none
  allocating := none
  pending := []
  answer := none

variable (s : MemoryStore π)

def cached : Option (List (StoredMessage π)) := if s.tombstone then some [] else s.messages

def mergeLoaded (generation : Nat) (loaded : List (StoredMessage π)) : MemoryStore π :=
  if s.generation=generation∧s.tombstone=false then
    {s with messages := some (mergeHistory D content loaded (s.messages.getD []))}
  else s

/-- `max(numbers, default=0)+1` -/
def nextNumber (history : List (StoredMessage π)) : Nat :=
  (history.filterMap fun m => D.allocated m.localId).max?.getD 0+1

def issue (n : Nat) : MemoryStore π :=
  {s with nextLocalId := some (n+1)
          pending := n::s.pending
          allocating := none}

/-- The check that `persist` makes before and after it writes. -/
def current (generation : Nat) : Bool :=
  s.generation=generation && !s.tombstone && s.messages.isSome

def act : StoreAct π → Option (MemoryStore π)
  | .look i =>
    match s.readings i,s.cached with
    | some _,_ => none
    | none,some h => some {s with answer := some h}
    | none,none => some {s with readings := Function.update s.readings i (some (.looked s.generation))}
  | .load i =>
    match s.readings i with
    | some (.looked g) =>
      some {s with readings := Function.update s.readings i (some (.loaded g (Chat.load s.disk)))}
    | _ => none
  | .merge i =>
    match s.readings i with
    | some (.loaded g l) =>
      let s := s.mergeLoaded D content g l
      some {s with readings := Function.update s.readings i none
                   answer := some (s.messages.getD [])}
    | _ => none
  | .allocate =>
    match s.allocating,s.nextLocalId,s.cached with
    | some _,_,_ => none
    | none,some n,_ => some (s.issue n)
    | none,none,some h => some (s.issue (nextNumber D h))
    | none,none,none => some {s with allocating := some (.looked s.generation)}
  | .allocateLoad =>
    match s.allocating with
    | some (.looked g) => some {s with allocating := some (.loaded g (Chat.load s.disk))}
    | _ => none
  | .allocateMerge =>
    match s.allocating with
    | some (.loaded g l) =>
      let s := s.mergeLoaded D content g l
      some (s.issue (nextNumber D (s.messages.getD [])))
    | _ => none
  | .append n m =>
    -- an allocation does not leave the event loop before it has its number
    if s.allocating.isNone∧n∈s.pending∧m.localId=localId n then
      some {s with messages := some (latest maxCachedMessagesPerChat (s.messages.getD []++[m]))
                   generation := s.generation+1
                   tombstone := false
                   dirty := true
                   pending := s.pending.erase n}
    else none
  | .evict =>
    -- the chat lock keeps the counter while a number is out
    if s.allocating.isNone∧s.pending=[] then some {s with nextLocalId := none} else none
  | .persist =>
    match s.writer,s.messages with
    | .idle,some h =>
      if s.tombstone then none
      else some {s with writer := .persisting (latest maxCachedMessagesPerChat h) s.generation}
    | _,_ => none
  | .write =>
    match s.writer with
    | .persisting h g =>
      if s.current g then some {s with disk := some (h.map serializeMessage)
                                       writer := .written g}
      else none
    | _ => none
  | .discard =>
    match s.writer with
    | .persisting _ g => if s.current g then none else some {s with writer := .idle}
    | _ => none
  | .persisted =>
    match s.writer with
    | .written g => some {s with dirty := if s.current g then false else s.dirty
                                 writer := .idle}
    | _ => none
  | .clear =>
    match s.writer with
    | .idle => some {s with messages := none
                            generation := s.generation+1
                            tombstone := true
                            dirty := false
                            writer := .clearing}
    | _ => none
  | .delete =>
    match s.writer with
    | .clearing => some {s with disk := none
                                writer := .idle}
    | _ => none

def step (a : StoreAct π) : Option (MemoryStore π) := {s with answer := none}.act D content a

end MemoryStore

/-- The history of a chat and what is on the disk of it, as its users see them. -/
structure ChatHistory (π : Type) where
  live : List (StoredMessage π)
  stored : List (StoredMessage π)

namespace ChatHistory

variable {π : Type}

def effect (c : ChatHistory π) : StoreAct π → ChatHistory π
  | .append _ m => {c with live := latest maxCachedMessagesPerChat (c.live++[m])}
  | .clear => {c with live := []}
  | .write => {c with stored := c.live}
  | .delete => {c with stored := []}
  | _ => c

def speak (l : List (StoredMessage π)) : StoreAct π → List (StoredMessage π)
  | .append _ m => l++[m]
  | .clear => []
  | _ => l

def spoken (acts : List (StoreAct π)) : List (StoredMessage π) := acts.foldl speak []

end ChatHistory

end

section

open Framework

namespace ChatHistory

variable {π : Type} [DecidableEq π] {c : ChatHistory π} {as bs acts : List (StoreAct π)} {n : Nat}
  {m : StoredMessage π}

omit [DecidableEq π] in
theorem spoken_concat (acts : List (StoreAct π)) (a : StoreAct π) :
    spoken (acts++[a])=speak (spoken acts) a := by
  simp [spoken]

theorem spoken_append (h : .clear∉bs) : spoken (as++bs)=spoken as++spoken bs := by
  induction bs using List.reverseRecOn with
  | nil => simp [spoken]
  | append_singleton bs a ih =>
    simp only [List.mem_append,List.mem_singleton,not_or] at h
    rw [← List.append_assoc,spoken_concat,spoken_concat,ih h.1]
    cases a with
    | append n m => simp [speak]
    | clear => exact absurd rfl h.2
    | _ => rfl

theorem live_eq (hc : c.live.length ≤ maxCachedMessagesPerChat) (acts : List (StoreAct π)) :
    (acts.foldl effect c).live=latest maxCachedMessagesPerChat
      ((if .clear∈acts then [] else c.live)++spoken acts) := by
  induction acts using List.reverseRecOn with
  | nil => simp [spoken,latest_of_le hc]
  | append_singleton acts a ih =>
    rw [List.foldl_concat,spoken_concat]
    cases a with
    | append n m =>
      simp only [effect,speak,ih,List.mem_append,List.mem_singleton,reduceCtorEq,or_false]
      rw [latest_latest_append,List.append_assoc]
    | clear => simp [effect,speak,latest]
    | _ => simpa [effect,speak] using ih

theorem mem_live_of_append (hc : c.live.length ≤ maxCachedMessagesPerChat) (hb : .clear∉bs)
    (hl : (spoken bs).length < maxCachedMessagesPerChat) :
    m∈((as++.append n m::bs).foldl effect c).live := by
  rw [live_eq hc]
  have hs : spoken (as++.append n m::bs)=spoken as++m::spoken bs := by
    have h1 : spoken (.append n m::bs)=m::spoken bs :=
      (spoken_append hb : spoken ([.append n m]++bs)=_)
    rw [spoken_append (by simpa using hb),h1]
  rw [hs,← List.append_assoc]
  exact mem_latest_append hl

theorem mem_spoken (h : m∈spoken acts) : ∃n,.append n m∈acts := by
  induction acts using List.reverseRecOn with
  | nil => cases h
  | append_singleton acts a ih =>
    rw [spoken_concat] at h
    cases a with
    | append k m' =>
      rcases List.mem_append.mp h with h | h
      · obtain ⟨n,hn⟩ := ih h
        exact ⟨n,List.mem_append_left _ hn⟩
      · rw [List.mem_singleton.mp h]
        exact ⟨k,by simp⟩
    | clear => cases h
    | _ =>
      obtain ⟨n,hn⟩ := ih h
      exact ⟨n,List.mem_append_left _ hn⟩

omit [DecidableEq π] in
theorem spoken_of_clear : spoken (as++.clear::bs)=spoken bs := by
  simp [spoken,speak]

theorem mem_live_of_clear (hc : c.live.length ≤ maxCachedMessagesPerChat)
    (h : m∈((as++.clear::bs).foldl effect c).live) : ∃n,.append n m∈bs := by
  rw [live_eq hc,if_pos (by simp),spoken_of_clear] at h
  exact mem_spoken ((latest_suffix _ _).subset h)

theorem mem_stored_of_write {cs : List (StoreAct π)} (hc : c.live.length ≤ maxCachedMessagesPerChat)
    (hb : .clear∉bs++cs) (hd : .delete∉cs)
    (hl : (spoken (bs++cs)).length < maxCachedMessagesPerChat) :
    m∈((as++.append n m::(bs++.write::cs)).foldl effect c).stored := by
  induction cs using List.reverseRecOn with
  | nil =>
    rw [List.append_nil] at hb hl
    have h : m∈((as++.append n m::bs).foldl effect c).live := mem_live_of_append hc hb hl
    rw [show as++.append n m::(bs++[.write])=(as++.append n m::bs)++[.write] by simp,
      List.foldl_concat]
    exact h
  | append_singleton cs a ih =>
    simp only [List.mem_append,List.mem_singleton,not_or] at hb hd
    have hsp : spoken (bs++(cs++[a]))=speak (spoken (bs++cs)) a := by
      rw [← List.append_assoc,spoken_concat]
    have hle : (spoken (bs++cs)).length < maxCachedMessagesPerChat := by
      rw [hsp] at hl
      cases a with
      | append k m' =>
        simp only [speak,List.length_append] at hl
        omega
      | clear => exact absurd rfl hb.2.2
      | _ => exact hl
    have hb' : .clear∉bs++cs := by simp [hb.1,hb.2.1]
    have ih := ih hb' hd.1 hle
    rw [show as++.append n m::(bs++.write::(cs++[a]))=(as++.append n m::(bs++.write::cs))++[a] by simp,
      List.foldl_concat]
    cases a with
    | write =>
      have hsw : spoken (bs++.write::cs)=spoken (bs++cs) := by
        rw [spoken_append (by simp [hb.2.1]),spoken_append hb.2.1]
        congr 1
      have hno : .clear∉bs++.write::cs := by simp [hb.1,hb.2.1]
      exact mem_live_of_append hc hno (by rw [hsw]; exact hle)
    | delete => exact absurd rfl hd.2
    | _ => simpa only [effect] using ih

theorem mem_stored_of_clear (hc : c.live.length ≤ maxCachedMessagesPerChat)
    (hd : .delete∈bs) (h : m∈((as++.clear::bs).foldl effect c).stored) : ∃n,.append n m∈bs := by
  induction bs using List.reverseRecOn with
  | nil => cases hd
  | append_singleton bs a ih =>
    rw [show as++.clear::(bs++[a])=(as++.clear::bs)++[a] by simp,List.foldl_concat] at h
    cases a with
    | delete => cases h
    | write =>
      have h' : m∈((as++.clear::bs).foldl effect c).live := h
      obtain ⟨n,hn⟩ := mem_live_of_clear hc h'
      exact ⟨n,List.mem_append_left _ hn⟩
    | _ =>
      simp only [List.mem_append,List.mem_singleton,reduceCtorEq,or_false] at hd
      simp only [effect] at h
      obtain ⟨n,hn⟩ := ih hd h
      exact ⟨n,List.mem_append_left _ hn⟩

end ChatHistory

end

end XiaoQing.Chat
