import Mathlib.Algebra.Order.BigOperators.Group.List
import Mathlib.Algebra.Order.Group.Nat
import Mathlib.Data.Char
import Mathlib.Data.Prod.Lex
import Mathlib.Data.List.Lex
import XiaoQing.Commands.Invocation
import XiaoQing.Framework.Keyed

namespace XiaoQing.Cache

open Commands Framework

inductive FileKind
  | regular
  | symlink
  | directory
  deriving DecidableEq

/-- What a directory lists under a name; the time of the last change is in nanoseconds. -/
structure CacheFile where
  name : Text
  kind : FileKind
  content : List UInt8
  mtime : Int
  deriving DecidableEq

def CacheFile.size (f : CacheFile) : Nat := f.content.length

/-- `FileCacheLimits`, with what `__post_init__` checks; the time to live is in nanoseconds. -/
structure FileCacheLimits where
  maxEntries : Nat
  maxBytes : Nat
  ttl : Int
  entriesPos : 0 < maxEntries
  bytesPos : 0 < maxBytes
  ttlPos : 0 < ttl

structure CacheDirectory where
  files : List CacheFile
  distinct : (files.map CacheFile.name).Nodup

/-- The files that others delete while an operation runs: before it has seen them, or after. -/
structure Vanishing where
  unseen : Text → Bool
  lost : Text → Bool

inductive CacheError
  | unsafeName
  | isDirectory

def safeName : Text → Bool
  | [] => false
  | c::t =>
    (isAsciiLetter c || isAsciiDigit c) && decide (t.length ≤ 127) &&
      t.all fun d => isAsciiLetter d || isAsciiDigit d || d = '.' || d = '_' || d = '-'

def CacheFile.isEntry (f : CacheFile) : Bool := decide (f.name.head?≠some '.') && f.kind=.regular

namespace CacheDirectory

def entries (d : CacheDirectory) : List CacheFile := d.files.filter CacheFile.isEntry

def filter (d : CacheDirectory) (p : CacheFile → Bool) : CacheDirectory :=
  ⟨d.files.filter p,d.distinct.sublist (List.filter_sublist.map _)⟩

def find (d : CacheDirectory) (name : Text) : Option CacheFile := d.files.find? fun f => f.name=name

/-- `os.utime(path, (now, now))`. -/
def touch (d : CacheDirectory) (name : Text) (now : Int) : CacheDirectory :=
  ⟨d.files.map fun f => if f.name=name then {f with mtime := now} else f,by
    have hnames : (d.files.map fun f => if f.name=name then {f with mtime := now} else f).map
        CacheFile.name=d.files.map CacheFile.name := by
      rw [List.map_map]
      apply List.map_congr_left
      intro f _
      simp only [Function.comp]
      split <;> rfl
    rw [hnames]
    exact d.distinct⟩

/-- `atomic_write_bytes` and the first `utime`; what stands under the name is replaced unless it is a
directory. -/
def write (d : CacheDirectory) (name : Text) (payload : List UInt8) (now : Int) :
    Except CacheError CacheDirectory :=
  if (d.find name).any fun f => f.kind=.directory then .error .isDirectory
  else .ok ⟨d.files.filter (fun f => f.name≠name)++[⟨name,.regular,payload,now⟩],by
    rw [List.map_append,List.nodup_append]
    refine ⟨d.distinct.sublist (List.filter_sublist.map _),List.nodup_singleton _,fun a ha b hb => ?_⟩
    obtain ⟨f,hf,rfl⟩ := List.mem_map.mp ha
    rw [List.map_singleton,List.mem_singleton] at hb
    rw [hb]
    exact of_decide_eq_true (List.mem_filter.mp hf).2⟩

end CacheDirectory

variable (limits : FileCacheLimits)

def expired (now : Int) (f : CacheFile) : Bool := decide (limits.ttl < now-f.mtime)

def sizes (l : List CacheFile) : Nat := (l.map CacheFile.size).sum

def age (f : CacheFile) : Int ×ₗ Text := toLex (f.mtime,f.name)

def evictable (protect : Option Text) (f : CacheFile) : Bool := decide (some f.name≠protect)

/-- The loop of `_prune_unlocked`: the entries that stay and those it deletes. -/
def evict (protect : Option Text) (retained : List CacheFile) (totalBytes : Nat) :
    List CacheFile × List CacheFile :=
  if limits.maxEntries < retained.length ∨ limits.maxBytes < totalBytes then
    match h : retained.find? (evictable protect) with
    | none => (retained,[])
    | some victim =>
      let rest := evict protect (retained.eraseP (evictable protect)) (totalBytes-victim.size)
      (rest.1,victim::rest.2)
  else (retained,[])
  termination_by retained.length
  decreasing_by
    have hmem := List.mem_of_find?_eq_some h
    have hp := List.find?_some h
    have hlen := List.length_eraseP_of_mem hmem hp
    have hpos := List.length_pos_of_mem hmem
    omega

section

variable {limits} {protect : Option Text} {l : List CacheFile} {n : Nat} {f g : CacheFile}

theorem sizes_append (l r : List CacheFile) : sizes (l++r)=sizes l+sizes r := by
  simp [sizes]

theorem sizes_cons (f : CacheFile) (l : List CacheFile) : sizes (f::l)=f.size+sizes l := by
  simp [sizes]

variable {p : CacheFile → Bool}

theorem sizes_eraseP (h : l.find? p=some f) :
    sizes (l.eraseP p)+f.size=sizes l := by
  obtain ⟨hp,l1,l2,rfl,hl1⟩ := List.find?_eq_some_iff_append.mp h
  have hnot : ∀a∈l1,¬p a=true := fun a ha => by simpa using hl1 a ha
  rw [List.eraseP_append_right _ hnot,List.eraseP_cons_of_pos hp,sizes_append,sizes_append,sizes_cons]
  omega

theorem mem_eraseP (h : l.find? p=some f) (hg : g∈l) :
    g=f∨g∈l.eraseP p := by
  obtain ⟨hp,l1,l2,rfl,hl1⟩ := List.find?_eq_some_iff_append.mp h
  have hnot : ∀a∈l1,¬p a=true := fun a ha => by simpa using hl1 a ha
  rw [List.eraseP_append_right _ hnot,List.eraseP_cons_of_pos hp]
  simp only [List.mem_append,List.mem_cons] at hg ⊢
  tauto

theorem find_oldest (hs : l.Pairwise fun a b => age a≤age b)
    (h : l.find? p=some f) (hg : g∈l) (hp : p g=true) : age f≤age g := by
  obtain ⟨hf,l1,l2,rfl,hl1⟩ := List.find?_eq_some_iff_append.mp h
  rcases List.mem_append.mp hg with hleft | hright
  · have hno := hl1 g hleft
    rw [hp] at hno
    cases hno
  · have hrest := (List.pairwise_append.mp hs).2.1
    rcases List.mem_cons.mp hright with rfl | hlater
    · exact le_rfl
    · exact (List.pairwise_cons.mp hrest).1 g hlater

structure Evicted (protect : Option Text) (l : List CacheFile) (r : List CacheFile × List CacheFile) :
    Prop where
  kept : r.1.Sublist l
  splits : ∀f∈l,f∈r.1∨f∈r.2
  gone : ∀f∈r.2,f∈l∧f∉r.1∧evictable protect f=true
  oldest : ∀f∈r.2,∀g∈r.1,evictable protect g=true → age f≤age g

theorem evict_evicted (hs : l.Pairwise fun a b => age a≤age b) (hn : l.Nodup) :
    Evicted protect l (evict limits protect l n) := by
  induction l,n using evict.induct limits protect with
  | case1 l n hover hnone =>
    rw [evict,if_pos hover]
    split
    · exact ⟨List.Sublist.refl _,fun f hf => .inl hf,nofun,nofun⟩
    · rename_i f hf
      rw [hnone] at hf
      cases hf
  | case2 l n hover victim hfind ih =>
    have hsub : (l.eraseP (evictable protect)).Sublist l := List.eraseP_sublist
    obtain ⟨hkept,hsplits,hgone,holdest⟩ := ih (hs.sublist hsub) (hn.sublist hsub)
    have hmem := List.mem_of_find?_eq_some hfind
    have hout : victim∉l.eraseP (evictable protect) := by
      obtain ⟨hp,l1,l2,rfl,hl1⟩ := List.find?_eq_some_iff_append.mp hfind
      have hnot : ∀a∈l1,¬evictable protect a=true := fun a ha => by simpa using hl1 a ha
      rw [List.eraseP_append_right _ hnot,List.eraseP_cons_of_pos hp]
      have hmid := List.nodup_middle.mp hn
      exact (List.nodup_cons.mp hmid).1
    rw [evict,if_pos hover]
    split
    · rename_i hnone
      rw [hfind] at hnone
      cases hnone
    rename_i f hf
    obtain rfl : victim=f := Option.some.inj (hfind.symm.trans hf)
    refine ⟨hkept.trans hsub,fun g hg => ?_,fun g hg => ?_,fun g hg k hk hp => ?_⟩
    · rcases mem_eraseP hfind hg with rfl | hrest
      · exact .inr List.mem_cons_self
      · exact (hsplits g hrest).imp id (List.mem_cons_of_mem _)
    · rcases List.mem_cons.mp hg with rfl | hlater
      · exact ⟨hmem,fun hk => hout (hkept.subset hk),List.find?_some hfind⟩
      · obtain ⟨hl,hout,hp⟩ := hgone g hlater
        exact ⟨hsub.subset hl,hout,hp⟩
    · rcases List.mem_cons.mp hg with rfl | hlater
      · exact find_oldest hs hfind (hsub.subset (hkept.subset hk)) hp
      · exact holdest g hlater k hk hp
  | case3 l n hwithin =>
    rw [evict,if_neg hwithin]
    exact ⟨List.Sublist.refl _,fun f hf => .inl hf,nofun,nofun⟩

theorem evict_within (hsum : n=sizes l)
    (hcount : (l.filter fun f => !evictable protect f).length ≤ limits.maxEntries)
    (hbytes : sizes (l.filter fun f => !evictable protect f) ≤ limits.maxBytes) :
    (evict limits protect l n).1.length ≤ limits.maxEntries∧
      sizes (evict limits protect l n).1 ≤ limits.maxBytes := by
  induction l,n using evict.induct limits protect with
  | case1 l n hover hnone =>
    have hall : l.filter (fun f => !evictable protect f)=l := by
      apply List.filter_eq_self.mpr
      intro f hf
      have hno := List.find?_eq_none.mp hnone f hf
      simpa using hno
    rw [hall] at hcount hbytes
    omega
  | case2 l n hover victim hfind ih =>
    have hrest : (l.eraseP (evictable protect)).filter (fun f => !evictable protect f)=
        l.filter fun f => !evictable protect f := by
      obtain ⟨hp,l1,l2,rfl,hl1⟩ := List.find?_eq_some_iff_append.mp hfind
      have hnot : ∀a∈l1,¬evictable protect a=true := fun a ha => by simpa using hl1 a ha
      rw [List.eraseP_append_right _ hnot,List.eraseP_cons_of_pos hp,List.filter_append,
        List.filter_append,List.filter_cons_of_neg (by simp [hp])]
    rw [evict,if_pos hover]
    split
    · rename_i hnone
      rw [hfind] at hnone
      cases hnone
    rename_i f hf
    obtain rfl : victim=f := Option.some.inj (hfind.symm.trans hf)
    apply ih
    · have := sizes_eraseP hfind
      omega
    · rw [hrest]
      exact hcount
    · rw [hrest]
      exact hbytes
  | case3 l n hwithin =>
    rw [evict,if_neg hwithin]
    push Not at hwithin
    exact ⟨hwithin.1,hsum ▸ hwithin.2⟩

end

/-- `_prune_unlocked`. -/
def prune (now : Int) (protect : Option Text) (v : Vanishing) (d : CacheDirectory) : CacheDirectory :=
  let seen := d.entries.filter fun f => !v.unseen f.name
  let stale := seen.filter fun f => evictable protect f && expired limits now f
  let retained := seen.filter fun f => !(evictable protect f && expired limits now f)
  let victims := (evict limits protect (arrange age retained) (sizes retained)).2
  d.filter fun f => !(stale++victims).contains f && !(v.unseen f.name || v.lost f.name)

/-- `path.is_file()` of a path that is no symbolic link. -/
def CacheDirectory.isFile (d : CacheDirectory) (name : Text) : Bool :=
  (d.find name).any fun f => f.kind=.regular

/-- The loop of `get_any` over the names. -/
def firstFile (d : CacheDirectory) (now : Int) : List Text → Option Text × CacheDirectory
  | [] => (none,d)
  | name::names => if d.isFile name then (some name,d.touch name now) else firstFile d now names

def getAny (names : List Text) (now : Int) (v : Vanishing) (d : CacheDirectory) :
    Except CacheError (Option Text × CacheDirectory) :=
  if names.all safeName then .ok (firstFile (prune limits now none v d) now names)
  else .error .unsafeName

/-- `_store_unlocked`. -/
def store (name : Text) (payload : List UInt8) (now : Int) (v : Vanishing) (d : CacheDirectory) :
    Except CacheError (Option Text × CacheDirectory) :=
  (d.write name payload now).map fun d =>
    let d := prune limits now (some name) v d
    (if d.isFile name then some name else none,d)

def put (name : Text) (payload : List UInt8) (now : Int) (v : Vanishing) (d : CacheDirectory) :
    Except CacheError (Option Text × CacheDirectory) :=
  if safeName name then
    if limits.maxBytes < payload.length then .ok (none,d) else store limits name payload now v d
  else .error .unsafeName

/-- `put_if_absent`; the flag tells a new entry. -/
def putIfAbsent (name : Text) (payload : List UInt8) (now : Int) (v : Vanishing) (d : CacheDirectory) :
    Except CacheError ((Option Text × Bool) × CacheDirectory) :=
  if safeName name then
    if limits.maxBytes < payload.length then .ok ((none,false),d)
    else if d.isFile name then
      .ok ((some name,false),prune limits now (some name) v (d.touch name now))
    else
      (store limits name payload now v d).map fun stored => ((stored.1,stored.1.isSome),stored.2)
  else .error .unsafeName

/-- What the cache may be asked to do, and what others may do to its directory between two calls. -/
inductive CacheAct
  | put (name : Text) (payload : List UInt8) (now : Int) (v : Vanishing)
  | putIfAbsent (name : Text) (payload : List UInt8) (now : Int) (v : Vanishing)
  | getAny (names : List Text) (now : Int) (v : Vanishing)
  | prune (now : Int) (v : Vanishing)
  | change (d : CacheDirectory)

def after (d : CacheDirectory) : CacheAct → CacheDirectory
  | .put name payload now v =>
    match put limits name payload now v d with
    | .ok (_,d) => d
    | .error _ => d
  | .putIfAbsent name payload now v =>
    match putIfAbsent limits name payload now v d with
    | .ok (_,d) => d
    | .error _ => d
  | .getAny names now v =>
    match getAny limits names now v d with
    | .ok (_,d) => d
    | .error _ => d
  | .prune now v => prune limits now none v d
  | .change d => d

/-- Of the entries before, only those are gone that others deleted, that had expired, or that come
before all others kept in the order of eviction, the protected one aside. -/
def RemovesOldest (now : Int) (protect : Option Text) (v : Vanishing) (d d' : CacheDirectory) : Prop :=
  ∀f∈d.entries,f∉d'.entries → v.unseen f.name=true∨v.lost f.name=true∨
    evictable protect f=true∧(expired limits now f=true∨
      ∀g∈d'.entries,evictable protect g=true → age f < age g)

section

variable {limits} {now : Int} {protect : Option Text} {v : Vanishing} {d d' : CacheDirectory}
  {l : List CacheFile} {f g : CacheFile} {name : Text} {payload : List UInt8}

theorem CacheDirectory.nodup (d : CacheDirectory) : d.files.Nodup := d.distinct.of_map _

theorem mem_entries : f∈d.entries ↔ f∈d.files∧f.isEntry=true := List.mem_filter

theorem entries_nodup : d.entries.Nodup := d.nodup.filter _

theorem eq_of_name (hf : f∈d.files) (hg : g∈d.files) (h : f.name=g.name) : f=g :=
  List.inj_on_of_nodup_map d.distinct hf hg h

/-- The entries that the loop of eviction is given, and those that it leaves. -/
def retained (limits : FileCacheLimits) (now : Int) (protect : Option Text) (v : Vanishing)
    (d : CacheDirectory) : List CacheFile :=
  (d.entries.filter fun f => !v.unseen f.name).filter fun f => !(evictable protect f && expired limits now f)

def kept (limits : FileCacheLimits) (now : Int) (protect : Option Text) (v : Vanishing)
    (d : CacheDirectory) : List CacheFile :=
  (evict limits protect (arrange age (retained limits now protect v d))
    (sizes (retained limits now protect v d))).1

theorem mem_retained : f∈retained limits now protect v d ↔
    f∈d.entries∧v.unseen f.name=false∧¬(evictable protect f=true∧expired limits now f=true) := by
  unfold retained
  simp only [List.mem_filter,Bool.not_eq_true',Bool.and_eq_false_iff,not_and_or,and_assoc,
    Bool.not_eq_true]

theorem arranged_nodup : (arrange age (retained limits now protect v d)).Nodup :=
  ((arrange_perm _ _).nodup_iff).mpr ((entries_nodup.filter _).filter _)

theorem prune_evicted : Evicted protect (arrange age (retained limits now protect v d))
    (evict limits protect (arrange age (retained limits now protect v d))
      (sizes (retained limits now protect v d))) :=
  evict_evicted (arrange_sorted _ _) arranged_nodup

theorem kept_subset (h : f∈kept limits now protect v d) : f∈retained limits now protect v d :=
  (arrange_perm _ _).mem_iff.mp (prune_evicted.kept.subset h)

theorem mem_prune : f∈(prune limits now protect v d).entries ↔
    f∈kept limits now protect v d∧v.lost f.name=false := by
  have hev : Evicted protect (arrange age (retained limits now protect v d)) _ := prune_evicted
  rw [mem_entries]
  unfold prune CacheDirectory.filter
  simp only [List.mem_filter,Bool.and_eq_true,Bool.not_eq_true',Bool.or_eq_false_iff,
    List.contains_eq_mem,decide_eq_false_iff_not,List.mem_append,not_or]
  constructor
  · rintro ⟨⟨hf,⟨hstale,hvictim⟩,hunseen,hlost⟩,hentry⟩
    have hmem : f∈d.entries := mem_entries.mpr ⟨hf,hentry⟩
    have hret : f∈retained limits now protect v d := by
      refine mem_retained.mpr ⟨hmem,hunseen,fun hgone => hstale ?_⟩
      exact ⟨⟨hmem,hunseen⟩,hgone⟩
    refine ⟨(hev.splits f ((arrange_perm _ _).mem_iff.mpr hret)).resolve_right fun hv => hvictim ?_,hlost⟩
    exact hv
  · rintro ⟨hkept,hlost⟩
    obtain ⟨hmem,hunseen,hlive⟩ := mem_retained.mp (kept_subset hkept)
    obtain ⟨hf,hentry⟩ := mem_entries.mp hmem
    refine ⟨⟨hf,⟨fun hstale => hlive hstale.2,fun hvictim => ?_⟩,hunseen,hlost⟩,hentry⟩
    exact (hev.gone f hvictim).2.1 hkept

theorem prune_subset (h : f∈(prune limits now protect v d).entries) :
    f∈d.entries∧(evictable protect f=true → expired limits now f=false) := by
  obtain ⟨hmem,-,hlive⟩ := mem_retained.mp (kept_subset (mem_prune.mp h).1)
  exact ⟨hmem,fun hp => by simpa using fun he => hlive ⟨hp,he⟩⟩

theorem age_lt (h : age f≤age g) (hne : f.name≠g.name) : age f < age g := by
  apply lt_of_le_of_ne h
  intro he
  exact hne (Prod.ext_iff.mp (toLex.injective he)).2

theorem prune_removes : RemovesOldest limits now protect v d (prune limits now protect v d) := by
  intro f hf hout
  have hev : Evicted protect (arrange age (retained limits now protect v d)) _ := prune_evicted
  by_cases hunseen : v.unseen f.name=true
  · exact .inl hunseen
  by_cases hlost : v.lost f.name=true
  · exact .inr (.inl hlost)
  refine .inr (.inr ?_)
  by_cases hgone : evictable protect f=true∧expired limits now f=true
  · exact ⟨hgone.1,.inl hgone.2⟩
  have hret : f∈retained limits now protect v d := mem_retained.mpr ⟨hf,by simpa using hunseen,hgone⟩
  have hnot : f∉kept limits now protect v d := fun hk =>
    hout (mem_prune.mpr ⟨hk,by simpa using hlost⟩)
  have hvictim := (hev.splits f ((arrange_perm _ _).mem_iff.mpr hret)).resolve_left hnot
  refine ⟨(hev.gone f hvictim).2.2,.inr fun g hg hp => ?_⟩
  have hkept := (mem_prune.mp hg).1
  apply age_lt (hev.oldest f hvictim g hkept hp)
  intro hname
  have hsame := eq_of_name (mem_entries.mp hf).1 (mem_entries.mp (prune_subset hg).1).1 hname
  exact hout (hsame ▸ hg)

theorem sizes_le_of_subset {r : List CacheFile} (hn : r.Nodup) (h : ∀f∈r,f∈l) :
    r.length ≤ l.length∧sizes r ≤ sizes l := by
  obtain ⟨m,hperm,hsub⟩ := List.subperm_of_subset hn h
  have hlen := hperm.length_eq
  have hsize : sizes m=sizes r := (hperm.map CacheFile.size).sum_eq
  refine ⟨hlen ▸ hsub.length_le,hsize ▸ ?_⟩
  exact (hsub.map CacheFile.size).sum_le_sum fun _ _ => Nat.zero_le _

theorem protected_within (hfit : ∀f∈d.entries,evictable protect f=false → f.size ≤ limits.maxBytes)
    (hl : ∀f∈l,f∈d.entries) (hn : l.Nodup) :
    (l.filter fun f => !evictable protect f).length ≤ limits.maxEntries∧
      sizes (l.filter fun f => !evictable protect f) ≤ limits.maxBytes := by
  have hone : ∀f∈l.filter (fun f => !evictable protect f),∀g∈l.filter (fun f => !evictable protect f),
      f=g := by
    intro f hf g hg
    simp only [List.mem_filter,evictable,Bool.not_eq_true',decide_eq_false_iff_not,not_not] at hf hg
    have hname : f.name=g.name := Option.some.inj (hf.2.trans hg.2.symm)
    exact eq_of_name (mem_entries.mp (hl f hf.1)).1 (mem_entries.mp (hl g hg.1)).1 hname
  have hnf : (l.filter fun f => !evictable protect f).Nodup := hn.filter _
  have hin : ∀f∈l.filter (fun f => !evictable protect f),f.size ≤ limits.maxBytes := by
    intro f hf
    have hf := List.mem_filter.mp hf
    exact hfit f (hl f hf.1) (by simpa using hf.2)
  generalize l.filter (fun f => !evictable protect f)=r at hone hnf hin
  cases r with
  | nil => exact ⟨Nat.zero_le _,Nat.zero_le _⟩
  | cons f r =>
    have hr : r=[] := by
      apply List.eq_nil_iff_forall_not_mem.mpr
      intro g hg
      have he := hone f List.mem_cons_self g (List.mem_cons_of_mem _ hg)
      exact (List.nodup_cons.mp hnf).1 (he ▸ hg)
    subst r
    have hf := hin f List.mem_cons_self
    have hpos := limits.entriesPos
    refine ⟨Nat.succ_le_of_lt hpos,?_⟩
    simpa [sizes] using hf

theorem prune_within (hfit : ∀f∈d.entries,evictable protect f=false → f.size ≤ limits.maxBytes) :
    (prune limits now protect v d).entries.length ≤ limits.maxEntries∧
      sizes (prune limits now protect v d).entries ≤ limits.maxBytes := by
  have hl : ∀f∈arrange age (retained limits now protect v d),f∈d.entries := fun f hf =>
    (mem_retained.mp ((arrange_perm _ _).mem_iff.mp hf)).1
  obtain ⟨hcount,hbytes⟩ := protected_within hfit hl arranged_nodup
  have hsum : sizes (retained limits now protect v d)=
      sizes (arrange age (retained limits now protect v d)) :=
    ((arrange_perm _ _).map CacheFile.size).sum_eq.symm
  have hkept := evict_within hsum hcount hbytes
  have hsub := sizes_le_of_subset (l:=kept limits now protect v d)
    (entries_nodup (d:=prune limits now protect v d)) fun f hf => (mem_prune.mp hf).1
  exact ⟨hsub.1.trans hkept.1,hsub.2.trans hkept.2⟩

theorem isFile_iff : d.isFile name=true ↔ ∃f∈d.files,f.name=name∧f.kind=.regular := by
  unfold CacheDirectory.isFile CacheDirectory.find
  constructor
  · intro h
    obtain ⟨f,hf,hk⟩ := (Option.any_eq_true _ _).mp h
    exact ⟨f,List.mem_of_find?_eq_some hf,by simpa using List.find?_some hf,by simpa using hk⟩
  · rintro ⟨f,hf,hname,hk⟩
    cases hfind : d.files.find? fun f => f.name=name with
    | none => exact absurd hname (by simpa using List.find?_eq_none.mp hfind f hf)
    | some g =>
      have hg := List.mem_of_find?_eq_some hfind
      have hgn : g.name=name := by simpa using List.find?_some hfind
      rw [eq_of_name hg hf (hgn.trans hname.symm)]
      simpa using hk

theorem isEntry_of_safe (hs : safeName f.name=true) (hk : f.kind=.regular) : f.isEntry=true := by
  unfold CacheFile.isEntry
  cases hn : f.name with
  | nil => simp [hk]
  | cons c t =>
    rw [hn] at hs
    unfold safeName at hs
    simp only [Bool.and_eq_true] at hs
    have hc : c≠ '.' := by
      rintro rfl
      exact absurd hs.1.1 (by decide)
    simp [hc,hk]

/-- The entry that a call of `put` writes. -/
def written (name : Text) (payload : List UInt8) (now : Int) : CacheFile := ⟨name,.regular,payload,now⟩

theorem write_mem (h : d.write name payload now=.ok d') :
    written name payload now∈d'.files∧∀f∈d'.files,f.name=name → f=written name payload now := by
  unfold CacheDirectory.write at h
  split at h
  · cases h
  · cases h
    refine ⟨List.mem_append_right _ (List.mem_singleton_self _),fun f hf hname => ?_⟩
    rcases List.mem_append.mp hf with hold | hnew
    · exact absurd hname (by simpa using (List.mem_filter.mp hold).2)
    · exact List.mem_singleton.mp hnew

/-- A successful `put`: the new entry is there, the limits hold, and what went had to go. -/
structure Stored (limits : FileCacheLimits) (name : Text) (payload : List UInt8) (now : Int) (v : Vanishing)
    (d d' : CacheDirectory) : Prop where
  count : d'.entries.length ≤ limits.maxEntries
  bytes : sizes d'.entries ≤ limits.maxBytes
  retained : written name payload now∈d'.entries
  removes : ∃m,d.write name payload now=.ok m∧RemovesOldest limits now (some name) v m d'

theorem store_stored {path : Text} (hs : safeName name=true) (hfit : payload.length ≤ limits.maxBytes)
    (h : store limits name payload now v d=.ok (some path,d')) :
    path=name∧Stored limits name payload now v d d' := by
  unfold store at h
  cases hw : d.write name payload now with
  | error e =>
    rw [hw] at h
    cases h
  | ok m =>
    simp only [hw,Except.map,Except.ok.injEq,Prod.mk.injEq,Option.ite_none_right_eq_some,
      Option.some.injEq] at h
    obtain ⟨⟨hfile,rfl⟩,rfl⟩ := h
    obtain ⟨hmem,honly⟩ := write_mem hw
    have hprotected : ∀f∈m.entries,evictable (some name) f=false → f.size ≤ limits.maxBytes := by
      intro f hf hp
      simp only [evictable,decide_eq_false_iff_not,not_not,Option.some.injEq] at hp
      rw [honly f (mem_entries.mp hf).1 hp]
      exact hfit
    obtain ⟨hcount,hbytes⟩ := prune_within hprotected
    refine ⟨rfl,hcount,hbytes,?_,⟨m,hw,prune_removes⟩⟩
    -- the path is still a file, and the only file of its name is the new one
    obtain ⟨f,hf,hname,hk⟩ := isFile_iff.mp hfile
    have hm : f∈m.files := (List.mem_filter.mp hf).1
    have he := honly f hm hname
    subst f
    exact mem_entries.mpr ⟨hf,isEntry_of_safe hs rfl⟩

theorem put_accepts {m : CacheDirectory} (hs : safeName name=true) (hfit : payload.length ≤ limits.maxBytes)
    (hw : d.write name payload now=.ok m) (hu : v.unseen name=false) (hl : v.lost name=false) :
    ∃d',put limits name payload now v d=.ok (some name,d') := by
  have hmem := (write_mem hw).1
  have hentry : written name payload now∈m.entries := mem_entries.mpr ⟨hmem,isEntry_of_safe hs rfl⟩
  have hstays : written name payload now∈(prune limits now (some name) v m).entries := by
    by_contra hout
    rcases prune_removes _ hentry hout with hgone | hgone | ⟨hp,-⟩
    · exact Bool.false_ne_true (hu.symm.trans hgone)
    · exact Bool.false_ne_true (hl.symm.trans hgone)
    · simp [evictable,written] at hp
  have hfile : (prune limits now (some name) v m).isFile name=true :=
    isFile_iff.mpr ⟨_,(mem_entries.mp hstays).1,rfl,rfl⟩
  refine ⟨prune limits now (some name) v m,?_⟩
  unfold put store
  rw [if_pos hs,if_neg (Nat.not_lt.mpr hfit),hw]
  simp only [Except.map,if_pos hfile]

/-- What `get_any` returns: one of the names, of an entry that had not expired. -/
structure Served (limits : FileCacheLimits) (names : List Text) (now : Int) (path : Text)
    (d d' : CacheDirectory) : Prop where
  asked : path∈names
  live : ∃f∈d.entries,f.name=path∧expired limits now f=false∧{f with mtime := now}∈d'.entries

theorem firstFile_served {names : List Text} {path : Text} (h : firstFile d now names=(some path,d')) :
    path∈names∧d.isFile path=true∧d'=d.touch path now := by
  induction names with
  | nil => cases h
  | cons name names ih =>
    unfold firstFile at h
    split at h
    · rename_i hfile
      cases h
      exact ⟨List.mem_cons_self,hfile,rfl⟩
    · obtain ⟨hmem,hfile,he⟩ := ih h
      exact ⟨List.mem_cons_of_mem _ hmem,hfile,he⟩

theorem firstFile_directory (names : List Text) : (firstFile d now names).2=d∨
    ∃path∈names,(firstFile d now names).2=d.touch path now := by
  induction names with
  | nil => exact .inl rfl
  | cons name names ih =>
    unfold firstFile
    split
    · exact .inr ⟨name,List.mem_cons_self,rfl⟩
    · rcases ih with hsame | ⟨path,hmem,he⟩
      · exact .inl hsame
      · exact .inr ⟨path,List.mem_cons_of_mem _ hmem,he⟩

theorem getAny_served {names : List Text} {path : Text}
    (h : getAny limits names now v d=.ok (some path,d')) : Served limits names now path d d' := by
  unfold getAny at h
  split at h
  · rename_i hsafe
    simp only [Except.ok.injEq] at h
    obtain ⟨hmem,hfile,rfl⟩ := firstFile_served h
    obtain ⟨f,hf,rfl,hk⟩ := isFile_iff.mp hfile
    have hs : safeName f.name=true := List.all_eq_true.mp hsafe _ hmem
    have hentry : f∈(prune limits now none v d).entries := mem_entries.mpr ⟨hf,isEntry_of_safe hs hk⟩
    obtain ⟨hold,hlive⟩ := prune_subset hentry
    refine ⟨hmem,f,hold,rfl,hlive (by simp [evictable]),mem_entries.mpr ⟨?_,isEntry_of_safe hs hk⟩⟩
    exact List.mem_map.mpr ⟨f,hf,if_pos rfl⟩
  · cases h

end

/-- What the cache keeps to in a directory: its answers, and the deletions of `put` and `get_any`. -/
structure Caches (limits : FileCacheLimits) (d : CacheDirectory) : Prop where
  putStored : ∀name payload now v path d',put limits name payload now v d=.ok (some path,d') →
    path=name∧Stored limits name payload now v d d'
  newStored : ∀name payload now v path d',putIfAbsent limits name payload now v d=.ok ((some path,true),d') →
    path=name∧Stored limits name payload now v d d'
  stores : ∀name payload now v m,safeName name=true → payload.length ≤ limits.maxBytes →
    d.write name payload now=.ok m → v.unseen name=false → v.lost name=false →
    ∃d',put limits name payload now v d=.ok (some name,d')
  served : ∀names now v path d',getAny limits names now v d=.ok (some path,d') →
    Served limits names now path d d'
  getPrunes : ∀names now v path d',getAny limits names now v d=.ok (path,d') →
    d'=prune limits now none v d∨∃path,d'=(prune limits now none v d).touch path now
  pruned : ∀now v,RemovesOldest limits now none v d (prune limits now none v d)∧
    (prune limits now none v d).entries.length ≤ limits.maxEntries∧
    sizes (prune limits now none v d).entries ≤ limits.maxBytes

/-- After any sequence of calls, and of changes by others between them, the cache keeps to its
contract. -/
theorem file_cache_keeps (limits : FileCacheLimits) (d : CacheDirectory) (acts : List CacheAct) :
    Caches limits (acts.foldl (after limits) d) := by
  generalize acts.foldl (after limits) d=d
  refine ⟨fun name payload now v path d' h => ?_,fun name payload now v path d' h => ?_,
    fun name payload now v m hs hfit hw hu hl => put_accepts hs hfit hw hu hl,
    fun names now v path d' h => getAny_served h,fun names now v path d' h => ?_,
    fun now v => ⟨prune_removes,prune_within ?_⟩⟩
  · unfold Cache.put at h
    split_ifs at h with hs hlarge
    · cases h
    · exact store_stored hs (Nat.le_of_not_lt hlarge) h
  · unfold putIfAbsent at h
    split_ifs at h with hs hlarge hfile
    · cases h
    · cases h
    · cases hst : store limits name payload now v d with
      | error e =>
        rw [hst] at h
        cases h
      | ok r =>
        obtain ⟨stored,d''⟩ := r
        simp only [hst,Except.map,Except.ok.injEq,Prod.mk.injEq] at h
        obtain ⟨⟨rfl,-⟩,rfl⟩ := h
        exact store_stored hs (Nat.le_of_not_lt hlarge) hst
  · unfold Cache.getAny at h
    split_ifs at h
    simp only [Except.ok.injEq] at h
    have hd : d'=(firstFile (Cache.prune limits now none v d) now names).2 := by rw [h]
    rw [hd]
    exact (firstFile_directory names).imp id fun ⟨path,_,he⟩ => ⟨path,he⟩
  · intro f _ hp
    cases hp

/-- The entry just written stays, and one with a later time goes. -/
theorem newer_entry_goes : ∃(limits : FileCacheLimits) (d d' : CacheDirectory) (f g : CacheFile),
    put limits ['c'] [] 50 ⟨fun _ => false,fun _ => false⟩ d=.ok (some ['c'],d')∧f∈d.entries∧
      f∉d'.entries∧expired limits 50 f=false∧g∈d'.entries∧g.mtime < f.mtime := by
  let limits : FileCacheLimits := ⟨1,10,10,by decide,by decide,by decide⟩
  let f : CacheFile := ⟨['x'],.regular,[],100⟩
  let d : CacheDirectory := ⟨[f],by decide⟩
  have hw : ∃m,d.write ['c'] [] 50=.ok m := ⟨_,rfl⟩
  obtain ⟨m,hm⟩ := hw
  obtain ⟨d',hput⟩ : ∃d',put limits ['c'] [] 50 ⟨fun _ => false,fun _ => false⟩ d=.ok (some ['c'],d') :=
    put_accepts (by decide) (by decide) hm rfl rfl
  have hstored : Stored limits ['c'] [] 50 ⟨fun _ => false,fun _ => false⟩ d d' := by
    unfold put at hput
    rw [if_pos (by decide),if_neg (by decide)] at hput
    exact (store_stored (by decide) (by decide) hput).2
  refine ⟨limits,d,d',f,written ['c'] [] 50,hput,by decide,fun hf => ?_,by decide,hstored.retained,by decide⟩
  have htwo := sizes_le_of_subset (r:=[f,written ['c'] [] 50]) (l:=d'.entries) (by decide) (by
    intro g hg
    rcases List.mem_cons.mp hg with rfl | hg
    · exact hf
    · rw [List.mem_singleton.mp hg]
      exact hstored.retained)
  have hone : d'.entries.length≤1 := hstored.count
  have hlen : [f,written ['c'] [] 50].length=2 := rfl
  omega

end XiaoQing.Cache
