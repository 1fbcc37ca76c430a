import XiaoQing.Chat.PlannerStates

namespace XiaoQing.Chat.Planner

open Function (update update_eq_self update_of_ne update_self)

open Framework PFCStateStore

section

variable {κ : Type*} {blank : κ} {s t : PFCStateStore κ} {chat : String} {content : κ} {now : Int}
  {turn : Nat} {gone : String → Bool}

structure Turns (s : PFCStateStore κ) : Prop where
  begun : ∀n x,s.snapshots n=some x → n ≤ s.nextTurn
  bounded : ∀chat n,s.committedTurns chat=some n → n ≤ s.nextTurn
  current : ∀n m x,s.committedTurns x.chat=some n → s.snapshots m=some x → n ≤ m → x.age=s.age x.chat
  logged : ∀c∈s.commits,s.snapshots c.turn=some c.snapshot
  below : ∀c∈s.commits,∀n,s.committedTurns c.snapshot.chat=some n → c.turn ≤ n
  ordered : s.commits.Pairwise fun a b => a.snapshot.chat=b.snapshot.chat → a.turn ≤ b.turn

structure Filed (blank : κ) (s : PFCStateStore κ) : Prop where
  clean : ∀chat state,s.cache.get? chat=some state → s.dirty chat=false →
    state.content=s.stored blank chat
  kept : ∀chat,s.dirty chat=true → (s.cache.get? chat).isSome=true

theorem Turns.recache (h : Turns s) (cache : OrderedDict String (ConversationState κ))
    (dirty : String → Bool) (files : String → Option (ConversationState κ)) :
    Turns {s with
      cache := cache
      dirty := dirty
      files := files} :=
  ⟨h.begun,h.bounded,h.current,h.logged,h.below,h.ordered⟩

theorem Turns.drop (h : Turns s) (gone : String → Bool) : Turns (s.drop gone) where
  begun := h.begun
  bounded chat n hn := by
    change (if gone chat=true then none else s.committedTurns chat)=some n at hn
    split_ifs at hn
    exact h.bounded chat n hn
  current n m x hn hm hle := by
    change (if gone x.chat=true then none else s.committedTurns x.chat)=some n at hn
    change x.age=if gone x.chat=true then s.age x.chat+1 else s.age x.chat
    split_ifs at hn ⊢
    exact h.current n m x hn hm hle
  logged := h.logged
  below c hc n hn := by
    change (if gone c.snapshot.chat=true then none else s.committedTurns c.snapshot.chat)=some n at hn
    split_ifs at hn
    exact h.below c hc n hn
  ordered := h.ordered

theorem Turns.get (h : Turns s) (blank : κ) (chat : String) (now : Int) :
    Turns (s.get blank chat now) := by
  unfold PFCStateStore.get
  split_ifs
  · exact h
  · exact (h.recache _ s.dirty s.files).drop _

theorem Turns.beginTurn (h : Turns s) (chat : String) (now : Int) :
    Turns (s.beginTurn blank chat now) := by
  have hg := h.get blank chat now
  unfold PFCStateStore.beginTurn
  generalize s.get blank chat now=u at hg
  dsimp only
  have hfresh : ∀m x,u.snapshots m=some x → m≠u.nextTurn+1 := by
    intro m x hm
    have := hg.begun m x hm
    omega
  refine ⟨?_,?_,?_,?_,?_,hg.ordered⟩ <;> dsimp only
  · intro n x hx
    by_cases hnew : n=u.nextTurn+1
    · exact Nat.le_of_eq hnew
    · rw [update_of_ne hnew] at hx
      exact Nat.le_succ_of_le (hg.begun n x hx)
  · intro other n hn
    by_cases ho : other=chat
    · subst other
      rw [update_self,Option.some.injEq] at hn
      cases hcommitted : u.committedTurns chat with
      | none =>
        rw [hcommitted] at hn
        exact Nat.le_of_eq hn.symm
      | some k =>
        rw [hcommitted] at hn
        have hle := hg.bounded chat k hcommitted
        have hkn : k=n := hn
        omega
    · rw [update_of_ne ho] at hn
      exact Nat.le_succ_of_le (hg.bounded other n hn)
  · intro n m x hn hm hle
    by_cases hnew : m=u.nextTurn+1
    · rw [hnew,update_self,Option.some.injEq] at hm
      exact hm ▸ rfl
    · rw [update_of_ne hnew] at hm
      have hless := hg.begun m x hm
      by_cases ho : x.chat=chat
      · rw [ho,update_self,Option.some.injEq] at hn
        cases hcommitted : u.committedTurns chat with
        | none =>
          rw [hcommitted] at hn
          have hkn : u.nextTurn+1=n := hn
          omega
        | some k =>
          rw [hcommitted] at hn
          have hkn : k=n := hn
          exact hg.current n m x (by rw [ho,hcommitted,hkn]) hm hle
      · rw [update_of_ne ho] at hn
        exact hg.current n m x hn hm hle
  · intro c hc
    have hold := hg.logged c hc
    rw [update_of_ne (hfresh _ _ hold)]
    exact hold
  · intro c hc n hn
    by_cases ho : c.snapshot.chat=chat
    · rw [ho,update_self,Option.some.injEq] at hn
      cases hcommitted : u.committedTurns chat with
      | none =>
        rw [hcommitted] at hn
        have hle := hg.begun _ _ (hg.logged c hc)
        have hkn : u.nextTurn+1=n := hn
        omega
      | some k =>
        rw [hcommitted] at hn
        exact hg.below c hc n (by rw [ho,hcommitted]; exact congrArg some hn)
    · rw [update_of_ne ho] at hn
      exact hg.below c hc n hn

theorem Turns.setState (h : Turns s) (chat : String) (content : κ) (now : Int) :
    Turns (s.setState chat content now) :=
  (h.recache _ _ s.files).drop _

theorem Turns.commit (h : Turns s) {x : Snapshot} (hx : s.snapshots turn=some x) (content : κ)
    (now : Int) : Turns (s.commit turn x content now) := by
  unfold PFCStateStore.commit
  split_ifs with hclaims
  · obtain ⟨least,hleast,hle⟩ := (Option.any_eq_true _ _).mp hclaims
    have hle : least ≤ turn := of_decide_eq_true hle
    have hage : x.age=s.age x.chat := h.current least turn x hleast hx hle
    apply Turns.setState
    refine ⟨h.begun,?_,?_,?_,?_,?_⟩ <;> dsimp only
    · intro other n hn
      by_cases ho : other=x.chat
      · rw [ho,update_self,Option.some.injEq] at hn
        exact hn ▸ h.begun turn x hx
      · rw [update_of_ne ho] at hn
        exact h.bounded other n hn
    · intro n m y hn hm hnm
      by_cases ho : y.chat=x.chat
      · rw [ho,update_self,Option.some.injEq] at hn
        exact h.current least m y (ho ▸ hleast) hm (by omega)
      · rw [update_of_ne ho] at hn
        exact h.current n m y hn hm hnm
    · intro c hc
      rcases List.mem_append.mp hc with hold | hnew
      · exact h.logged c hold
      · rw [List.mem_singleton.mp hnew]
        change s.snapshots turn=some ⟨x.chat,s.age x.chat⟩
        rw [← hage]
        exact hx
    · intro c hc n hn
      rcases List.mem_append.mp hc with hold | hnew
      · by_cases ho : c.snapshot.chat=x.chat
        · rw [ho,update_self,Option.some.injEq] at hn
          have hearlier := h.below c hold least (ho ▸ hleast)
          omega
        · rw [update_of_ne ho] at hn
          exact h.below c hold n hn
      · rw [List.mem_singleton.mp hnew] at hn ⊢
        rw [update_self,Option.some.injEq] at hn
        exact Nat.le_of_eq hn
    · refine List.pairwise_append.mpr ⟨h.ordered,List.pairwise_singleton _ _,fun a ha b hb hab => ?_⟩
      rw [List.mem_singleton.mp hb] at hab ⊢
      exact Nat.le_trans (h.below a ha least (hab ▸ hleast)) hle
  · exact h

theorem Turns.markDirty (h : Turns s) (chat : String) : Turns (s.markDirty chat) := by
  unfold PFCStateStore.markDirty
  split_ifs
  · exact h.recache s.cache _ s.files
  · exact h

theorem Turns.change (h : Turns s) (chat : String) (content : κ) : Turns (s.change chat content) := by
  unfold PFCStateStore.change
  split
  · exact Turns.markDirty (h.recache _ s.dirty s.files) chat
  · exact h

theorem Turns.save (h : Turns s) (chat : String) (now : Int) (written : Bool) :
    Turns (s.save chat now written) := by
  unfold PFCStateStore.save
  split
  · cases written with
    | true => exact (h.recache _ _ _).drop _
    | false => exact h.recache _ s.dirty s.files
  · exact h

theorem Turns.clear (h : Turns s) (chat : String) (deleted : Bool) : Turns (s.clear chat deleted) :=
  (h.drop _).recache _ _ _

theorem drop_cache : (s.drop gone).cache.get? chat=if gone chat then none else s.cache.get? chat :=
  OrderedDict.get?_discard

theorem victim_clean {spared : Option String} (h : chat∈s.victims spared) :
    s.dirty chat=false∧some chat≠spared := by
  obtain ⟨e,he,rfl⟩ := List.mem_map.mp h
  have hcandidate : e∈s.candidates spared := List.mem_of_mem_take he
  unfold candidates at hcandidate
  rw [List.mem_insertionSort,List.mem_filter,Bool.and_eq_true] at hcandidate
  obtain ⟨-,hspared,hdirty⟩ := hcandidate
  refine ⟨?_,of_decide_eq_true hspared⟩
  rw [Bool.not_eq_true'] at hdirty
  exact hdirty

theorem Filed.drop (h : Filed blank s) (hgone : ∀chat,gone chat=true → s.dirty chat=false) :
    Filed blank (s.drop gone) where
  clean chat state hstate hdirty := by
    rw [drop_cache] at hstate
    split_ifs at hstate
    exact h.clean chat state hstate hdirty
  kept chat hdirty := by
    rw [drop_cache]
    split_ifs with hgo
    · have hclean := hgone chat hgo
      have hmarked : s.dirty chat=true := hdirty
      rw [hmarked] at hclean
      cases hclean
    · exact h.kept chat hdirty

theorem Filed.evict (h : Filed blank s) (spared : Option String) : Filed blank (s.evict spared) := by
  apply h.drop
  intro chat hgo
  exact (victim_clean (List.contains_iff_mem.mp hgo)).1

theorem Filed.assign (h : Filed blank s) (chat : String) (state : ConversationState κ) (marked : Bool)
    (file : Option (ConversationState κ))
    (hstate : marked=false → state.content=file.elim blank ConversationState.content) :
    Filed blank {s with
      cache := s.cache.assign chat state
      dirty := update s.dirty chat marked
      files := update s.files chat file} := by
  constructor
  · intro other v hv hdirty
    unfold stored
    dsimp only at hv hdirty ⊢
    by_cases ho : other=chat
    · subst other
      rw [OrderedDict.get?_assign_self,Option.some.injEq] at hv
      rw [update_self] at hdirty ⊢
      exact hv ▸ hstate hdirty
    · rw [OrderedDict.get?_assign_ne ho] at hv
      rw [update_of_ne ho] at hdirty ⊢
      exact h.clean other v hv hdirty
  · intro other hdirty
    dsimp only at hdirty ⊢
    by_cases ho : other=chat
    · subst other
      rw [OrderedDict.get?_assign_self]
      rfl
    · rw [OrderedDict.get?_assign_ne ho]
      rw [update_of_ne ho] at hdirty
      exact h.kept other hdirty

theorem Filed.get (h : Filed blank s) (chat : String) (now : Int) :
    Filed blank (s.get blank chat now) := by
  unfold PFCStateStore.get
  split_ifs with hcached
  · exact h
  · have hdirty : s.dirty chat=false := by
      by_contra hne
      exact hcached (h.kept chat (Bool.not_eq_false _ ▸ hne))
    have hloaded : ((s.files chat).getD ⟨blank,now⟩).content=
        (s.files chat).elim blank ConversationState.content := by
      cases s.files chat <;> rfl
    have hassigned := h.assign chat _ false (s.files chat) fun _ => hloaded
    rw [update_eq_self,← hdirty,update_eq_self] at hassigned
    exact hassigned.evict (some chat)

theorem Filed.beginTurn (h : Filed blank s) (chat : String) (now : Int) :
    Filed blank (s.beginTurn blank chat now) :=
  have hg := h.get chat now
  ⟨hg.clean,hg.kept⟩

theorem Filed.setState (h : Filed blank s) (chat : String) (content : κ) (now : Int) :
    Filed blank (s.setState chat content now) := by
  have hassigned := h.assign chat ⟨content,now⟩ true (s.files chat) nofun
  rw [update_eq_self] at hassigned
  exact hassigned.evict (some chat)

theorem Filed.commit (h : Filed blank s) (x : Snapshot) (content : κ) (now : Int) :
    Filed blank (s.commit turn x content now) := by
  unfold PFCStateStore.commit
  split_ifs
  · apply Filed.setState
    exact ⟨h.clean,h.kept⟩
  · exact h

theorem Filed.markDirty (h : Filed blank s) (chat : String) : Filed blank (s.markDirty chat) := by
  unfold PFCStateStore.markDirty
  split_ifs with hcached
  · constructor
    · intro other state hstate hdirty
      by_cases ho : other=chat
      · simp only [ho,update_self] at hdirty
        cases hdirty
      · simp only [update_of_ne ho] at hdirty
        exact h.clean other state hstate hdirty
    · intro other hdirty
      by_cases ho : other=chat
      · exact ho ▸ hcached
      · simp only [update_of_ne ho] at hdirty
        exact h.kept other hdirty
  · exact h

theorem Filed.change (h : Filed blank s) (chat : String) (content : κ) :
    Filed blank (s.change chat content) := by
  unfold PFCStateStore.change
  split
  · rename_i state hstate
    have hassigned := h.assign chat {state with content := content} true (s.files chat) nofun
    rw [update_eq_self] at hassigned
    unfold PFCStateStore.markDirty
    rw [if_pos (by rw [OrderedDict.get?_assign_self]; rfl)]
    exact hassigned
  · exact h

theorem Filed.save (h : Filed blank s) (chat : String) (now : Int) (written : Bool) :
    Filed blank (s.save chat now written) := by
  unfold PFCStateStore.save
  split
  · rename_i state hstate
    cases written with
    | true =>
      have hassigned := h.assign chat {state with updatedAt := now} false
        (some {state with updatedAt := now}) fun _ => rfl
      exact hassigned.evict none
    | false =>
      have hassigned := h.assign chat {state with updatedAt := now} (s.dirty chat)
        (s.files chat) fun hdirty => h.clean chat state hstate hdirty
      rw [update_eq_self,update_eq_self] at hassigned
      exact hassigned
  · exact h

variable {other : String}

theorem clear_cache {deleted : Bool} :
    (s.clear chat deleted).cache.get? other=if other=chat then none else s.cache.get? other := by
  change (s.drop (· = chat)).cache.get? other=_
  rw [drop_cache]
  simp only [decide_eq_true_eq]

theorem Filed.clear (h : Filed blank s) (chat : String) (deleted : Bool) :
    Filed blank (s.clear chat deleted) where
  clean other state hstate hdirty := by
    rw [clear_cache] at hstate
    split_ifs at hstate with ho
    have hold : s.dirty other=false := by
      change update s.dirty chat false other=false at hdirty
      rw [update_of_ne ho] at hdirty
      exact hdirty
    have hfile : (s.clear chat deleted).files other=s.files other := by
      change (if deleted=true then update s.files chat none else s.files) other=s.files other
      split_ifs
      · exact update_of_ne ho _ _
      · rfl
    unfold stored
    rw [hfile]
    exact h.clean other state hstate hold
  kept other hdirty := by
    change update s.dirty chat false other=true at hdirty
    by_cases ho : other=chat
    · rw [ho,update_self] at hdirty
      cases hdirty
    · rw [update_of_ne ho] at hdirty
      rw [clear_cache,if_neg ho]
      exact h.kept other hdirty

structure Kept (blank : κ) (s t : PFCStateStore κ) (chat : String) (content : κ) : Prop where
  stored : t.stored blank chat=content
  older : s.age chat < t.age chat

variable {state : ConversationState κ}

theorem Turns.outdated (h : Turns s) {x : Snapshot} (hx : s.snapshots turn=some x)
    (hage : x.age≠s.age x.chat) (content : κ) (now : Int) : s.commit turn x content now=s := by
  unfold PFCStateStore.commit
  split_ifs with hclaims
  · obtain ⟨least,hleast,hle⟩ := (Option.any_eq_true _ _).mp hclaims
    exact absurd (h.current least turn x hleast hx (of_decide_eq_true hle)) hage
  · rfl

theorem step_inv (a : StoreAct κ) (h : Turns s∧Filed blank s) (ht : s.step blank a=some t) :
    Turns t∧Filed blank t := by
  cases a with
  | get chat now =>
    cases ht
    exact ⟨h.1.get blank chat now,h.2.get chat now⟩
  | beginTurn chat now =>
    cases ht
    exact ⟨h.1.beginTurn chat now,h.2.beginTurn chat now⟩
  | commit turn content now =>
    obtain ⟨x,hx,rfl⟩ := Option.map_eq_some_iff.mp ht
    exact ⟨h.1.commit hx content now,h.2.commit x content now⟩
  | setState chat content now =>
    cases ht
    exact ⟨h.1.setState chat content now,h.2.setState chat content now⟩
  | change chat content =>
    cases ht
    exact ⟨h.1.change chat content,h.2.change chat content⟩
  | markDirty chat =>
    cases ht
    exact ⟨h.1.markDirty chat,h.2.markDirty chat⟩
  | save chat now written =>
    cases ht
    exact ⟨h.1.save chat now written,h.2.save chat now written⟩
  | clear chat deleted =>
    cases ht
    exact ⟨h.1.clear chat deleted,h.2.clear chat deleted⟩

def Fresh (s : PFCStateStore κ) : Prop := ∃maxCacheSize files,s=.new maxCacheSize files

/-- The turns written back for a chat never go down, each is from after the last clear and the last
eviction of its chat, and a state that has changes to save stays in the cache. -/
structure Monotone (blank : κ) (s : PFCStateStore κ) : Prop where
  ordered : s.commits.Pairwise fun a b => a.snapshot.chat=b.snapshot.chat → a.turn ≤ b.turn
  taken : ∀c∈s.commits,s.snapshots c.turn=some c.snapshot
  outdated : ∀turn x,s.snapshots turn=some x → x.age≠s.age x.chat → ∀content now,
    s.commit turn x content now=s
  unsaved : ∀chat,s.dirty chat=true → (s.cache.get? chat).isSome=true
  leaves : ∀a t,s.step blank a=some t → ∀chat state,s.cache.get? chat=some state →
    t.cache.get? chat=none →
      (∃deleted,a=.clear chat deleted∧s.age chat < t.age chat)∨Kept blank s t chat state.content

end

end XiaoQing.Chat.Planner
