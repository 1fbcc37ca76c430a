import XiaoQing.Chat.HistoryStore

set_option linter.unusedSectionVars false

namespace XiaoQing.Chat.MemoryStore

open Framework

variable {π : Type} [DecidableEq π] (D : Decimals) (content : List π → String)
  (disk : Option (List (Record π)))

def Good (l : List (StoredMessage π)) : Prop :=
  mergeHistory D content l []=coldLoad D content disk∧
    mergeHistory D content l (coldLoad D content disk)=coldLoad D content disk

def Sound (s : MemoryStore π) : Reading π → Prop
  | .looked g => g=0
  | .loaded g l => g=0∧(s.generation=0 → Good D content disk l)

structure Cache (s : MemoryStore π) (c : ChatHistory π) : Prop where
  unchanged : s.generation=0 → s.tombstone=false∧c.live=coldLoad D content disk∧
    (s.messages=none∧s.disk=disk∨s.messages=some (coldLoad D content disk)∧
      (s.disk=disk∨s.disk=some ((coldLoad D content disk).map serializeMessage)))
  changed : s.generation≠0 → s.tombstone=true∧s.messages=none∧c.live=[]∨
    s.tombstone=false∧s.messages=some c.live
  small : c.live.length ≤ maxCachedMessagesPerChat
  distinct : (c.live.map (messageIdentity content)).Nodup
  readings : ∀i x,s.readings i=some x → Sound D content disk s x
  allocating : ∀x,s.allocating=some x → Sound D content disk s x

structure Storage (s : MemoryStore π) (c : ChatHistory π) : Prop where
  stored : (coldLoad D content s.disk).Perm c.stored
  persisting : ∀h g,s.writer=.persisting h g → g ≤ s.generation∧(s.generation=g → h=c.live)
  written : ∀g,s.writer=.written g → g ≤ s.generation∧(s.generation=g → c.stored=c.live)
  clearing : s.writer=.clearing → s.generation≠0∧(s.dirty=false → c.live=[])
  clean : s.dirty=false → s.writer≠.clearing → c.stored.Perm c.live

structure Numbers (s : MemoryStore π) (c : ChatHistory π) : Prop where
  live : ∀n,s.nextLocalId=some n → ∀m∈c.live,∀k,D.allocated m.localId=some k → k<n
  pending : ∀n,s.nextLocalId=some n → ∀k∈s.pending,k<n
  idle : s.nextLocalId=none → s.pending=[]
  busy : s.allocating≠none → s.nextLocalId=none
  fresh : ∀k∈s.pending,∀m∈c.live,D.allocated m.localId≠some k
  once : s.pending.Nodup

structure Inv (s : MemoryStore π) (c : ChatHistory π) : Prop where
  cache : Cache D content disk s c
  storage : Storage D content s c
  numbers : Numbers D s c
  /-- A number is given out only after the history was read. -/
  warm : s.nextLocalId≠none → s.generation≠0∨s.messages≠none

section

variable {D content disk} {s t : MemoryStore π} {c : ChatHistory π} {l h : List (StoredMessage π)}

theorem good_load : Good D content disk (Chat.load disk) := ⟨rfl,mergeHistory_again⟩

theorem good_coldLoad : Good D content disk (coldLoad D content disk) := by
  have hs : mergeHistory D content (coldLoad D content disk) (coldLoad D content disk)=
      coldLoad D content disk :=
    mergeHistory_self mergeHistory_identities mergeHistory_length mergeHistory_sorted
  refine ⟨?_,hs⟩
  unfold mergeHistory at hs ⊢
  rw [List.append_nil]
  rwa [distinct_append_old fun a ha => .inr ⟨a,ha,rfl⟩] at hs

theorem Cache.cached (h : Cache D content disk s c) {l : List (StoredMessage π)}
    (hl : s.cached=some l) : l=c.live := by
  unfold MemoryStore.cached at hl
  by_cases hg : s.generation=0
  · obtain ⟨ht,hb,hm⟩ := h.unchanged hg
    rw [ht] at hl
    rcases hm with ⟨hm,-⟩ | ⟨hm,-⟩ <;> rw [hm] at hl <;> cases hl
    exact hb.symm
  · rcases h.changed hg with ⟨ht,hm,hb⟩ | ⟨ht,hm⟩ <;> rw [ht] at hl
    · cases hl
      exact hb.symm
    · rw [hm] at hl
      cases hl
      rfl

theorem Cache.uncached (h : Cache D content disk s c) (hl : s.cached=none) : s.generation=0 := by
  by_contra hg
  unfold MemoryStore.cached at hl
  rcases h.changed hg with ⟨ht,hm,-⟩ | ⟨ht,hm⟩ <;> rw [ht] at hl
  · cases hl
  · rw [hm] at hl
    cases hl

theorem Cache.warm (h : Cache D content disk s c) (hl : s.cached=some l) :
    s.generation≠0∨s.messages≠none := by
  by_cases hg : s.generation=0
  · refine .inr fun hm => ?_
    unfold MemoryStore.cached at hl
    rw [(h.unchanged hg).1,hm] at hl
    cases hl
  · exact .inl hg

theorem Cache.load (h : Cache D content disk s c) : s.generation=0 → Good D content disk (Chat.load s.disk) := by
  intro hg
  rcases (h.unchanged hg).2.2 with ⟨-,hd⟩ | ⟨-,hd | hd⟩ <;> rw [hd]
  · exact good_load
  · exact good_load
  · rw [load_serialize]
    exact good_coldLoad

theorem Cache.mergeLoaded (h : Cache D content disk s c) {g : Nat}
    (hl : Sound D content disk s (.loaded g l)) :
    Cache D content disk (s.mergeLoaded D content g l) c∧
      (s.mergeLoaded D content g l).messages.getD []=c.live := by
  obtain ⟨rfl,hgood⟩ := hl
  unfold MemoryStore.mergeLoaded
  by_cases hg : s.generation=0
  · obtain ⟨ht,hb,hm⟩ := h.unchanged hg
    obtain ⟨h1,h2⟩ := hgood hg
    have hmerge : mergeHistory D content l (s.messages.getD [])=coldLoad D content disk := by
      rcases hm with ⟨hm,-⟩ | ⟨hm,-⟩ <;> rw [hm]
      · exact h1
      · exact h2
    rw [if_pos ⟨hg,ht⟩,hmerge]
    refine ⟨{h with unchanged := fun _ => ⟨ht,hb,.inr ⟨rfl,?_⟩⟩,
                    changed := fun hne => absurd hg hne},hb.symm⟩
    rcases hm with ⟨-,hd⟩ | ⟨-,hd⟩
    · exact .inl hd
    · exact hd
  · rw [if_neg fun hc => hg hc.1]
    refine ⟨h,?_⟩
    rcases h.changed hg with ⟨-,hm,hb⟩ | ⟨-,hm⟩ <;> rw [hm]
    · exact hb.symm
    · rfl

theorem Sound.change {x : Reading π} (h : Sound D content disk s x) (hg : t.generation≠0) :
    Sound D content disk t x := by
  cases x with
  | looked g => exact h
  | loaded g l => exact ⟨h.1,fun h0 => absurd h0 hg⟩

theorem Storage.same (h : Storage D content s c) (hd : t.disk=s.disk) (hw : t.writer=s.writer)
    (hg : t.generation=s.generation) (hdirty : t.dirty=s.dirty) : Storage D content t c := by
  obtain ⟨h1,h2,h3,h4,h5⟩ := h
  constructor <;> simp only [hd,hw,hg,hdirty] <;> assumption

theorem Numbers.same (h : Numbers D s c) (hn : t.nextLocalId=s.nextLocalId) (hp : t.pending=s.pending)
    (ha : t.allocating=s.allocating) : Numbers D t c := by
  obtain ⟨h1,h2,h3,h4,h5,h6⟩ := h
  constructor <;> simp only [hn,hp,ha] <;> assumption

theorem mergeLoaded_frame (D : Decimals) (content : List π → String) (s : MemoryStore π) (g : Nat)
    (l : List (StoredMessage π)) :
    ∃m,s.mergeLoaded D content g l={s with messages := m}∧(s.messages≠none → m≠none)∧
      (s.generation=g → s.tombstone=false → m≠none) := by
  unfold MemoryStore.mergeLoaded
  split_ifs with hc
  · exact ⟨_,rfl,fun _ => Option.some_ne_none _,fun _ _ => Option.some_ne_none _⟩
  · exact ⟨s.messages,rfl,id,fun hg ht => absurd ⟨hg,ht⟩ hc⟩

theorem Cache.reading (h : Cache D content disk s c) (i : Nat) (x : Reading π)
    (hx : Sound D content disk s x) :
    Cache D content disk {s with readings := Function.update s.readings i (some x)} c where
  __ := h
  readings j y hy := by
    by_cases hj : j=i
    · subst hj
      simp only [Function.update_self,Option.some.injEq] at hy
      exact hy ▸ hx
    · simp only [Function.update_of_ne hj] at hy
      exact h.readings j y hy

theorem Numbers.issue (h : Numbers D s c) {n : Nat} (hl : ∀m∈c.live,∀k,D.allocated m.localId=some k → k<n)
    (hp : ∀k∈s.pending,k<n) : Numbers D (s.issue n) c where
  live k hk m hm j hj := by
    cases hk
    exact Nat.lt_succ_of_lt (hl m hm j hj)
  pending k hk j hj := by
    cases hk
    cases hj with
    | head => exact Nat.lt_succ_self n
    | tail _ hj => exact Nat.lt_succ_of_lt (hp j hj)
  idle hn := by cases hn
  busy hb := absurd rfl hb
  fresh k hk m hm := by
    cases hk with
    | head => exact fun hj => Nat.lt_irrefl _ (hl m hm _ hj)
    | tail _ hk => exact h.fresh k hk m hm
  once := List.nodup_cons.mpr ⟨fun hm => Nat.lt_irrefl _ (hp n hm),h.once⟩

variable {m : StoredMessage π}

theorem lt_nextNumber {k : Nat} (hm : m∈l) (hk : D.allocated m.localId=some k) :
    k<nextNumber D l := by
  unfold nextNumber
  exact Nat.lt_succ_of_le (List.le_max?_getD_of_mem (List.mem_filterMap.mpr ⟨m,hm,hk⟩))

theorem inv_look (h : Inv D content disk s c) {i : Nat} (hs : s.act D content (.look i)=some t) :
    Inv D content disk t c := by
  simp only [MemoryStore.act] at hs
  split at hs
  · cases hs
  · cases hs
    exact ⟨{h.cache with},h.storage.same rfl rfl rfl rfl,h.numbers.same rfl rfl rfl,h.warm⟩
  · rename_i hc
    cases hs
    exact ⟨h.cache.reading i _ (h.cache.uncached hc),h.storage.same rfl rfl rfl rfl,
      h.numbers.same rfl rfl rfl,h.warm⟩

theorem inv_load (h : Inv D content disk s c) {i : Nat} (hs : s.act D content (.load i)=some t) :
    Inv D content disk t c := by
  simp only [MemoryStore.act] at hs
  split at hs
  · rename_i g hr
    cases hs
    have hg : g=0 := h.cache.readings i _ hr
    exact ⟨h.cache.reading i _ ⟨hg,h.cache.load⟩,h.storage.same rfl rfl rfl rfl,
      h.numbers.same rfl rfl rfl,h.warm⟩
  · cases hs

theorem inv_merge (h : Inv D content disk s c) {i : Nat} (hs : s.act D content (.merge i)=some t) :
    Inv D content disk t c := by
  simp only [MemoryStore.act] at hs
  split at hs
  · rename_i g l hr
    cases hs
    obtain ⟨hm,-⟩ := h.cache.mergeLoaded (h.cache.readings i _ hr)
    obtain ⟨m,he,hsome,-⟩ := mergeLoaded_frame D content s g l
    rw [he] at hm ⊢
    refine ⟨{hm with readings := fun j y hy => ?_},h.storage.same rfl rfl rfl rfl,
      h.numbers.same rfl rfl rfl,fun hn => (h.warm hn).imp_right hsome⟩
    by_cases hj : j=i
    · subst hj
      simp at hy
    · simp only [Function.update_of_ne hj] at hy
      exact hm.readings j y hy
  · cases hs

theorem inv_allocate (h : Inv D content disk s c) (hs : s.act D content .allocate=some t) :
    Inv D content disk t c := by
  simp only [MemoryStore.act] at hs
  have hclear {n : Nat} : Cache D content disk (s.issue n) c :=
    {h.cache with allocating := fun x hx => by cases hx}
  split at hs
  · cases hs
  · rename_i n _ hn
    cases hs
    exact ⟨hclear,h.storage.same rfl rfl rfl rfl,
      h.numbers.issue (h.numbers.live n hn) (h.numbers.pending n hn),
      fun _ => h.warm (by rw [hn]; exact Option.some_ne_none _)⟩
  · rename_i l hn hc
    cases hs
    have hl := h.cache.cached hc
    subst hl
    refine ⟨hclear,h.storage.same rfl rfl rfl rfl,
      h.numbers.issue (fun m hm k hk => lt_nextNumber hm hk) fun k hk => ?_,fun _ => h.cache.warm hc⟩
    rw [h.numbers.idle hn] at hk
    cases hk
  · rename_i hn hc
    cases hs
    refine ⟨{h.cache with allocating := fun x hx => ?_},h.storage.same rfl rfl rfl rfl,
      {h.numbers with busy := fun _ => hn},h.warm⟩
    cases hx
    exact h.cache.uncached hc

theorem inv_allocateLoad (h : Inv D content disk s c) (hs : s.act D content .allocateLoad=some t) :
    Inv D content disk t c := by
  simp only [MemoryStore.act] at hs
  split at hs
  · rename_i g ha
    cases hs
    have hg : g=0 := h.cache.allocating _ ha
    refine ⟨{h.cache with allocating := fun x hx => ?_},h.storage.same rfl rfl rfl rfl,
      {h.numbers with busy := fun _ => h.numbers.busy (by rw [ha]; exact Option.some_ne_none _)},h.warm⟩
    cases hx
    exact ⟨hg,h.cache.load⟩
  · cases hs

theorem inv_allocateMerge (h : Inv D content disk s c) (hs : s.act D content .allocateMerge=some t) :
    Inv D content disk t c := by
  simp only [MemoryStore.act] at hs
  split at hs
  · rename_i g l ha
    cases hs
    obtain ⟨hm,hlive⟩ := h.cache.mergeLoaded (h.cache.allocating _ ha)
    obtain ⟨m,he,-,hsome⟩ := mergeLoaded_frame D content s g l
    rw [he] at hm hlive ⊢
    have hn := h.numbers.busy (by rw [ha]; exact Option.some_ne_none _)
    have hnum : Numbers D {s with messages := m} c := h.numbers.same rfl rfl rfl
    rw [hlive]
    refine ⟨{hm with allocating := fun x hx => by cases hx},h.storage.same rfl rfl rfl rfl,
      hnum.issue (fun m hm k hk => lt_nextNumber hm hk) fun k hk => ?_,fun _ => ?_⟩
    · have hk : k∈s.pending := hk
      rw [h.numbers.idle hn] at hk
      cases hk
    · by_cases h0 : s.generation=0
      · have hg : g=0 := (h.cache.allocating _ ha).1
        exact .inr (hsome (h0.trans hg.symm) (h.cache.unchanged h0).1)
      · exact .inl h0
  · cases hs

theorem inv_evict (h : Inv D content disk s c) (hs : s.act D content .evict=some t) :
    Inv D content disk t c := by
  simp only [MemoryStore.act] at hs
  split_ifs at hs with hp
  cases hs
  exact ⟨{h.cache with},h.storage.same rfl rfl rfl rfl,
    {h.numbers with
      live := fun n hn => by cases hn
      pending := fun n hn => by cases hn
      idle := fun _ => hp.2
      busy := fun _ => rfl},fun hn => absurd rfl hn⟩

theorem Cache.messages (h : Cache D content disk s c) (hg : s.generation≠0∨s.messages≠none) :
    s.messages.getD []=c.live := by
  by_cases h0 : s.generation=0
  · obtain ⟨-,hb,⟨hm,-⟩ | ⟨hm,-⟩⟩ := h.unchanged h0
    · exact absurd (hg.resolve_left (fun hne => hne h0)) (fun hne => hne hm)
    · rw [hm,hb]
      rfl
  · rcases h.changed h0 with ⟨-,hm,hb⟩ | ⟨-,hm⟩ <;> rw [hm]
    · exact hb.symm
    · rfl

theorem Cache.change (h : Cache D content disk s c) {c' : ChatHistory π} (hg : t.generation≠0)
    (hr : t.readings=s.readings) (ha : t.allocating=s.allocating)
    (hc : t.tombstone=true∧t.messages=none∧c'.live=[]∨t.tombstone=false∧t.messages=some c'.live)
    (hl : c'.live.length ≤ maxCachedMessagesPerChat)
    (hn : (c'.live.map (messageIdentity content)).Nodup) : Cache D content disk t c' where
  unchanged h0 := absurd h0 hg
  changed _ := hc
  small := hl
  distinct := hn
  readings i x hx := (h.readings i x (hr ▸ hx)).change hg
  allocating x hx := (h.allocating x (ha ▸ hx)).change hg

theorem identities_append {n : Nat} (hn : (c.live.map (messageIdentity content)).Nodup)
    (hm : m.localId=localId n) (hf : ∀m'∈c.live,D.allocated m'.localId≠some n) :
    ((c.live++[m]).map (messageIdentity content)).Nodup := by
  have hid : messageIdentity content m=.local (localId n) := by
    unfold messageIdentity
    rw [if_pos (by rw [hm]; exact List.cons_ne_nil _ _),hm]
  rw [List.map_append,List.nodup_append]
  refine ⟨hn,List.nodup_singleton _,fun x hx y hy => ?_⟩
  obtain ⟨m',hm',rfl⟩ := List.mem_map.mp hx
  simp only [List.map_cons,List.map_nil,List.mem_singleton] at hy
  rw [hy,hid]
  intro he
  unfold messageIdentity at he
  split_ifs at he with hl
  · rw [Identity.local.injEq] at he
    exact hf m' hm' (by rw [he,allocated_localId])
  · cases hi : m'.messageId <;> rw [hi] at he <;> cases he

theorem inv_append (h : Inv D content disk s c) {n : Nat}
    (hs : s.act D content (.append n m)=some t) : Inv D content disk t (c.effect (.append n m)) := by
  simp only [MemoryStore.act] at hs
  split_ifs at hs with hcond
  obtain ⟨hidle,hn,hm⟩ := hcond
  cases hs
  have hnext : s.nextLocalId≠none := by
    intro h0
    rw [h.numbers.idle h0] at hn
    cases hn
  obtain ⟨k,hk⟩ := Option.ne_none_iff_exists'.mp hnext
  have hmessages := h.cache.messages (h.warm hnext)
  have hsub := (latest_suffix maxCachedMessagesPerChat (c.live++[m])).sublist
  have hmem : ∀m'∈latest maxCachedMessagesPerChat (c.live++[m]),m'∈c.live∨m'=m := by
    intro m' hm'
    simpa using hsub.subset hm'
  have hnumber : D.allocated m.localId=some n := by rw [hm,allocated_localId]
  rw [hmessages]
  refine ⟨h.cache.change (Nat.succ_ne_zero _) rfl rfl (.inr ⟨rfl,rfl⟩) ?_ ?_,?_,?_,
    fun _ => .inl (Nat.succ_ne_zero _)⟩
  · simp only [ChatHistory.effect,length_latest]
    exact min_le_left _ _
  · exact (hsub.map _).nodup (identities_append h.cache.distinct hm (h.numbers.fresh n hn))
  · refine ⟨h.storage.stored,fun l g hw => ?_,fun g hw => ?_,
      fun _ => ⟨Nat.succ_ne_zero _,fun h => by cases h⟩,fun h => by cases h⟩
    · have := (h.storage.persisting l g hw).1
      exact ⟨Nat.le_succ_of_le this,fun he => by simp only at he; omega⟩
    · have := (h.storage.written g hw).1
      exact ⟨Nat.le_succ_of_le this,fun he => by simp only at he; omega⟩
  · refine ⟨fun k' hk' m' hm' j hj => ?_,fun k' hk' j hj => ?_,fun h0 => absurd h0 hnext,
      h.numbers.busy,fun j hj m' hm' => ?_,h.numbers.once.erase _⟩
    · rcases hmem m' hm' with hm' | rfl
      · exact h.numbers.live k' hk' m' hm' j hj
      · rw [hnumber,Option.some.injEq] at hj
        exact hj ▸ h.numbers.pending k' hk' n hn
    · exact h.numbers.pending k' hk' j (List.mem_of_mem_erase hj)
    · obtain ⟨hne,hj⟩ := (h.numbers.once.mem_erase_iff).mp hj
      rcases hmem m' hm' with hm' | rfl
      · exact h.numbers.fresh j hj m' hm'
      · rw [hnumber]
        exact fun he => hne (Option.some.inj he).symm

theorem inv_clear (h : Inv D content disk s c) (hs : s.act D content .clear=some t) :
    Inv D content disk t (c.effect .clear) := by
  simp only [MemoryStore.act] at hs
  split at hs
  · cases hs
    refine ⟨h.cache.change (Nat.succ_ne_zero _) rfl rfl (.inl ⟨rfl,rfl,rfl⟩) (Nat.zero_le _) List.nodup_nil,
      ⟨h.storage.stored,nofun,nofun,fun _ => ⟨Nat.succ_ne_zero _,fun _ => rfl⟩,
        fun _ hw => absurd rfl hw⟩,?_,fun _ => .inl (Nat.succ_ne_zero _)⟩
    exact {h.numbers with
      live := fun _ _ _ hm => nomatch hm
      fresh := fun _ _ _ hm => nomatch hm}
  · cases hs

theorem coldLoad_none : coldLoad D content (none : Option (List (Record π)))=[] :=
  (mergeHistory_perm (h:=[]) List.nodup_nil (Nat.zero_le _)).eq_nil

theorem inv_delete (h : Inv D content disk s c) (hs : s.act D content .delete=some t) :
    Inv D content disk t (c.effect .delete) := by
  simp only [MemoryStore.act] at hs
  split at hs
  · rename_i hw
    cases hs
    obtain ⟨hg,hlive⟩ := h.storage.clearing hw
    refine ⟨h.cache.change hg rfl rfl (h.cache.changed hg) h.cache.small h.cache.distinct,
      ⟨?_,nofun,nofun,nofun,fun hd _ => ?_⟩,{h.numbers with},h.warm⟩
    · rw [coldLoad_none]
      exact .refl _
    · rw [show (c.effect .delete).live=c.live from rfl,hlive hd]
      exact .refl _
  · cases hs

theorem inv_persist (h : Inv D content disk s c) (hs : s.act D content .persist=some t) :
    Inv D content disk t c := by
  simp only [MemoryStore.act] at hs
  split at hs
  · rename_i l hw hm
    split_ifs at hs
    cases hs
    have hl : l=c.live := by
      rw [← h.cache.messages (.inr (by rw [hm]; exact Option.some_ne_none _)),hm]
      rfl
    subst hl
    rw [latest_of_le h.cache.small]
    refine ⟨{h.cache with},⟨h.storage.stored,fun l g he => ?_,nofun,nofun,fun hd _ => ?_⟩,
      {h.numbers with},h.warm⟩
    · cases he
      exact ⟨Nat.le_refl _,fun _ => rfl⟩
    · exact h.storage.clean hd (by rw [hw]; exact nofun)
  · cases hs

theorem current_iff {g : Nat} : s.current g=true↔s.generation=g∧s.tombstone=false∧s.messages≠none := by
  simp [current,and_assoc,Option.isSome_iff_ne_none]

theorem inv_write (h : Inv D content disk s c) (hs : s.act D content .write=some t) :
    Inv D content disk t (c.effect .write) := by
  simp only [MemoryStore.act] at hs
  split at hs
  · rename_i l g hw
    split_ifs at hs with hcur
    cases hs
    obtain ⟨hg,ht,hm⟩ := current_iff.mp hcur
    obtain ⟨hle,hl⟩ := h.storage.persisting l g hw
    have hl := hl hg
    subst hl
    refine ⟨{h.cache with unchanged := fun h0 => ?_},⟨?_,nofun,fun g' he => ?_,nofun,fun _ _ => .refl _⟩,
      {h.numbers with},h.warm⟩
    · obtain ⟨h1,h2,h3⟩ := h.cache.unchanged h0
      rcases h3 with ⟨h3,-⟩ | ⟨h3,-⟩
      · exact absurd h3 hm
      · exact ⟨h1,h2,.inr ⟨h3,.inr (by rw [h2])⟩⟩
    · simp only [coldLoad,load_serialize]
      exact mergeHistory_perm h.cache.distinct h.cache.small
    · cases he
      exact ⟨hle,fun _ => rfl⟩
  · cases hs

theorem inv_discard (h : Inv D content disk s c) (hs : s.act D content .discard=some t) :
    Inv D content disk t c := by
  simp only [MemoryStore.act] at hs
  split at hs
  · rename_i l g hw
    split_ifs at hs
    cases hs
    refine ⟨{h.cache with},⟨h.storage.stored,nofun,nofun,nofun,fun hd _ => ?_⟩,{h.numbers with},h.warm⟩
    exact h.storage.clean hd (by rw [hw]; exact nofun)
  · cases hs

theorem inv_persisted (h : Inv D content disk s c) (hs : s.act D content .persisted=some t) :
    Inv D content disk t c := by
  simp only [MemoryStore.act] at hs
  split at hs
  · rename_i g hw
    cases hs
    refine ⟨{h.cache with},⟨h.storage.stored,nofun,nofun,nofun,fun hd _ => ?_⟩,{h.numbers with},h.warm⟩
    split_ifs at hd with hcur
    · rw [(h.storage.written g hw).2 (current_iff.mp hcur).1]
    · exact h.storage.clean hd (by rw [hw]; exact nofun)
  · cases hs

variable {a : StoreAct π}

theorem inv_act (h : Inv D content disk s c) (hs : s.act D content a=some t) :
    Inv D content disk t (c.effect a) := by
  cases a with
  | look i => exact inv_look h hs
  | load i => exact inv_load h hs
  | merge i => exact inv_merge h hs
  | allocate => exact inv_allocate h hs
  | allocateLoad => exact inv_allocateLoad h hs
  | allocateMerge => exact inv_allocateMerge h hs
  | append n m => exact inv_append h hs
  | evict => exact inv_evict h hs
  | persist => exact inv_persist h hs
  | write => exact inv_write h hs
  | discard => exact inv_discard h hs
  | persisted => exact inv_persisted h hs
  | clear => exact inv_clear h hs
  | delete => exact inv_delete h hs

theorem inv_initial : Inv D content disk (initial disk)
    ⟨coldLoad D content disk,coldLoad D content disk⟩ where
  cache := ⟨fun _ => ⟨rfl,rfl,.inl ⟨rfl,rfl⟩⟩,fun h => absurd rfl h,mergeHistory_length,
    mergeHistory_identities,nofun,nofun⟩
  storage := ⟨.refl _,nofun,nofun,nofun,fun _ _ => .refl _⟩
  numbers := ⟨nofun,nofun,fun _ => rfl,fun h => absurd rfl h,nofun,List.nodup_nil⟩
  warm h := absurd rfl h

theorem answer_act (h : Inv D content disk s c) (ha : s.answer=none)
    (hs : s.act D content a=some t) : ∀l,t.answer=some l → l=(c.effect a).live := by
  intro l hl
  cases a with simp only [MemoryStore.act] at hs
  | look i =>
    split at hs <;> cases hs
    · cases hl
      exact h.cache.cached ‹_›
    · exact absurd (hl.symm.trans ha) (Option.some_ne_none _)
  | merge i =>
    split at hs <;> cases hs
    cases hl
    exact (h.cache.mergeLoaded (h.cache.readings i _ ‹_›)).2
  | allocateMerge =>
    split at hs <;> cases hs
    rename_i g l' _
    obtain ⟨m,he,-⟩ := mergeLoaded_frame D content s g l'
    rw [he] at hl
    exact absurd (hl.symm.trans ha) (Option.some_ne_none _)
  | _ =>
    split at hs <;> try split at hs
    all_goals
      cases hs
      try exact absurd (hl.symm.trans ha) (Option.some_ne_none _)

theorem act_writer (hw : s.writer≠.clearing) (ha : a≠.clear)
    (hs : s.act D content a=some t) : t.writer≠.clearing∧a≠.delete := by
  cases a with simp only [MemoryStore.act] at hs
  | merge i =>
    split at hs <;> cases hs
    rename_i g l _
    obtain ⟨m,he,-⟩ := mergeLoaded_frame D content s g l
    rw [he]
    exact ⟨hw,nofun⟩
  | allocateMerge =>
    split at hs <;> cases hs
    rename_i g l _
    obtain ⟨m,he,-⟩ := mergeLoaded_frame D content s g l
    rw [he]
    exact ⟨hw,nofun⟩
  | clear => exact absurd rfl ha
  | delete =>
    cases hs
  | _ =>
    split at hs <;> try split at hs
    all_goals
      cases hs
      try first | exact ⟨hw,nofun⟩ | exact ⟨nofun,nofun⟩

theorem no_delete (hw : s.writer≠.clearing) {acts : List (StoreAct π)} (hc : .clear∉acts)
    (he : execute (step D content) s acts=some t) : .delete∉acts := by
  induction acts generalizing s with
  | nil => exact List.not_mem_nil
  | cons a as ih =>
    simp only [List.mem_cons,not_or] at hc ⊢
    obtain ⟨u,hu,hrest⟩ := Option.bind_eq_some_iff.mp he
    obtain ⟨hw',ha⟩ := act_writer (s:={s with answer := none}) hw (Ne.symm hc.1) hu
    exact ⟨ha.symm,ih hw' hc.2 hrest⟩

end

def history (acts : List (StoreAct π)) : List (StoredMessage π) :=
  (acts.foldl ChatHistory.effect ⟨coldLoad D content disk,coldLoad D content disk⟩).live

structure Kept (acts : List (StoreAct π)) (s : MemoryStore π) : Prop where
  /-- A read returns the history. -/
  read : ∀l,s.answer=some l → l=history D content disk acts
  /-- Without a clear, the history is what was on the disk and then what was said. -/
  loaded : .clear∉acts → history D content disk acts=latest maxCachedMessagesPerChat
    (coldLoad D content disk++ChatHistory.spoken acts)
  covers : .clear∉acts →
    (Chat.load disk).length+(ChatHistory.spoken acts).length ≤ maxCachedMessagesPerChat →
    ∀m∈Chat.load disk,∃m'∈history D content disk acts,messageIdentity content m'=messageIdentity content m
  appended : ∀as n m bs,acts=as++.append n m::bs → .clear∉bs →
    (ChatHistory.spoken bs).length < maxCachedMessagesPerChat → m∈history D content disk acts
  saved : ∀as n m bs cs,acts=as++.append n m::(bs++.write::cs) → .clear∉bs++cs →
    (ChatHistory.spoken (bs++cs)).length < maxCachedMessagesPerChat → m∈coldLoad D content s.disk
  cleared : ∀as bs m,acts=as++.clear::bs → m∈history D content disk acts → ∃n,.append n m∈bs
  erased : ∀as bs m,acts=as++.clear::bs → .delete∈bs → m∈coldLoad D content s.disk →
    ∃n,.append n m∈bs
  /-- What no persist has to write is on the disk. -/
  clean : s.dirty=false → s.writer≠.clearing →
    (coldLoad D content s.disk).Perm (history D content disk acts)
  localIds : ((history D content disk acts).filter (·.localId≠[])).Pairwise (·.localId≠·.localId)

section

variable {D content disk} {s : MemoryStore π} {acts : List (StoreAct π)}

theorem writer_of_write (as : List (StoreAct π)) {bs : List (StoreAct π)}
    (he : execute (step D content) (initial disk) (as++.write::bs)=some s) (hc : .clear∉bs) :
    .delete∉bs := by
  rw [execute_append] at he
  obtain ⟨u,-,he⟩ := Option.bind_eq_some_iff.mp he
  obtain ⟨v,hv,hrest⟩ := Option.bind_eq_some_iff.mp he
  refine no_delete (s:=v) ?_ hc hrest
  simp only [step,MemoryStore.act] at hv
  split at hv
  · split_ifs at hv
    cases hv
    exact nofun
  · cases hv

/-- In every interleaving of reads, loads, appends, persists and clears, the store keeps the
history of the chat. -/
theorem history_kept (he : execute (step D content) (initial disk) acts=some s) :
    Kept D content disk acts s := by
  have hrun := execute_refines (R:=fun s c => Inv D content disk s c∧∀l,s.answer=some l → l=c.live)
    ChatHistory.effect (fun u c a t hu hs => by
      have hi : Inv D content disk {u with answer := none} c :=
        ⟨{hu.1.cache with},hu.1.storage.same rfl rfl rfl rfl,hu.1.numbers.same rfl rfl rfl,hu.1.warm⟩
      exact ⟨inv_act hi hs,answer_act hi rfl hs⟩) acts ⟨inv_initial,nofun⟩ he
  obtain ⟨hinv,hanswer⟩ := hrun
  have hlen : (coldLoad D content disk).length ≤ maxCachedMessagesPerChat := mergeHistory_length
  have hloaded : .clear∉acts → history D content disk acts=latest maxCachedMessagesPerChat
      (coldLoad D content disk++ChatHistory.spoken acts) := by
    intro hc
    unfold history
    rw [ChatHistory.live_eq hlen,if_neg hc]
  refine ⟨hanswer,hloaded,fun hc hl m hm => ?_,?_,?_,?_,?_,fun hd hw => ?_,?_⟩
  · have hle : (coldLoad D content disk).length≤(load disk).length := coldLoad_length_le
    obtain ⟨m',hm',hid⟩ : ∃m'∈coldLoad D content disk,messageIdentity content m'=messageIdentity content m :=
      coldLoad_covers hm (by omega)
    refine ⟨m',?_,hid⟩
    rw [hloaded hc,latest_of_le (by rw [List.length_append]; omega)]
    exact List.mem_append_left _ hm'
  · rintro as n m bs rfl hb hl
    exact ChatHistory.mem_live_of_append hlen hb hl
  · rintro as n m bs cs rfl hb hl
    have hd : .delete∉cs := by
      refine writer_of_write (as++.append n m::bs) (by simpa using he) fun hm => ?_
      exact hb (List.mem_append_right _ hm)
    exact hinv.storage.stored.symm.subset (ChatHistory.mem_stored_of_write hlen hb hd hl)
  · rintro as bs m rfl hm
    exact ChatHistory.mem_live_of_clear hlen hm
  · rintro as bs m rfl hd hm
    exact ChatHistory.mem_stored_of_clear hlen hd (hinv.storage.stored.subset hm)
  · exact hinv.storage.stored.trans (hinv.storage.clean hd hw)
  · have hn := List.pairwise_map.mp hinv.cache.distinct
    refine (hn.filter _).imp_of_mem fun {m m'} hm hm' hne he => ?_
    have h1 : m.localId≠[] := by simpa using (List.mem_filter.mp hm).2
    have h2 : m'.localId≠[] := by simpa using (List.mem_filter.mp hm').2
    refine hne ?_
    unfold messageIdentity
    rw [if_pos h1,if_pos h2,he]

end

def asciiDecimals : Decimals where
  digit c := if c.isDigit then some (c.toNat-48) else none
  ascii := by decide

def hello (n : Nat) : StoredMessage Nat where
  role := "user"
  name := ""
  ts := 0
  userId := none
  messageId := none
  localId := localId n
  parts := [0]
  sourcePlugin := ""
  extraMessageIds := []
  kept := by decide
  once := List.nodup_nil

/-- A load that the first message overtakes, and a reset. -/
theorem history_kept_overtaken : ∃s,execute (step asciiDecimals (fun _ => "")) (initial none)
    [.look 0,.load 0,.allocate,.allocateLoad,.allocateMerge,.append 1 (hello 1),.merge 0,.persist,
      .write,.persisted,.clear,.allocate,.delete,.append 2 (hello 2),.look 1]=some s∧
    Kept asciiDecimals (fun _ => "") none [.look 0,.load 0,.allocate,.allocateLoad,.allocateMerge,
      .append 1 (hello 1),.merge 0,.persist,.write,.persisted,.clear,.allocate,.delete,
      .append 2 (hello 2),.look 1] s := by
  have hrun : (execute (step asciiDecimals (fun _ => "")) (initial none)
    [.look 0,.load 0,.allocate,.allocateLoad,.allocateMerge,.append 1 (hello 1),.merge 0,.persist,
      .write,.persisted,.clear,.allocate,.delete,.append 2 (hello 2),.look 1]).isSome=true := by
    decide +kernel
  obtain ⟨s,hs⟩ := Option.isSome_iff_exists.mp hrun
  exact ⟨s,hs,history_kept hs⟩

end XiaoQing.Chat.MemoryStore
