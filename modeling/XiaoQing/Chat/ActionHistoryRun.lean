import XiaoQing.Chat.ActionHistory

namespace XiaoQing.Chat.Actions

open Function (update update_of_ne update_self)

open Framework ActionHistoryStore

section

variable {ρ : Type*}

def ColdLoad.Current (s : ActionHistoryStore ρ) (load : ColdLoad ρ) : Prop :=
  load.clears=s.clearGeneration

/-- The steps that keep every record: what is there to read is read and what is to go is deleted; a
list that was begun without the records of the file is not written, and its load not cancelled, and
no list is written that a load has still to read back. -/
def Careful (s : ActionHistoryStore ρ) : StoreAct ρ → Prop
  | .append _ readable => s.cache=none → s.asyncLoading=false → readable=true∨s.filed=[]
  | .read i readable => s.loads i=some (.reading s.clearGeneration) → s.diskMerged=false →
      readable=true∨s.filed=[]
  | .cancelLoad i => s.behind=true → ∃j load,j≠i∧s.loads j=some load∧load.Current s
  | .persist => s.dirty=true → s.diskMerged=false → s.behind=false∧
      ∀i,s.loads i≠some (.reading s.clearGeneration)
  | .clear deleted => deleted=true∨s.filed=[]
  | _ => True

/-- No record is lost, doubled or back from before a clear: a list with the file's records merged in
is the history, and so is the file when nothing is left to flush. -/
structure Intact (s : ActionHistoryStore ρ) : Prop where
  listed : s.diskMerged=true → s.cache=some (latest maxRecords s.history)
  flushed : s.dirty=false → s.filed=latest maxRecords s.history

structure Base (s : ActionHistoryStore ρ) : Prop where
  busy : s.asyncLoading=true → ∃i load,s.loads i=some load
  begun : ∀i load,s.loads i=some load → load.clears ≤ s.clearGeneration
  writing : ∀payload version,s.flush=.writing payload version → s.cache.isSome=true∧s.dirty=true∧
    version ≤ s.stateVersion∧(version=s.stateVersion → payload=latest maxRecords s.history)∧
    latest maxRecords payload=payload
  written : ∀version,s.flush=.written version → s.cache.isSome=true∧version ≤ s.stateVersion∧
    (version=s.stateVersion → s.filed=latest maxRecords s.history)
  clean : s.dirty=false → s.filed=latest maxRecords s.history

structure Cold (s : ActionHistoryStore ρ) : Prop where
  cache : s.cache=none
  dirty : s.dirty=false
  diskMerged : s.diskMerged=false
  behind : s.behind=false
  flush : s.flush=.idle
  loaded : ∀i records,s.loads i=some (.loaded s.clearGeneration records) → records=s.filed
  young : s.filed≠[] → ∀i load,s.loads i=some load → load.Current s

structure Behind (s : ActionHistoryStore ρ) (records : List ρ) : Prop where
  cache : s.cache=some records
  dirty : s.dirty=true
  diskMerged : s.diskMerged=false
  behind : s.behind=true
  flush : s.flush=.idle
  together : latest maxRecords (s.filed++records)=latest maxRecords s.history
  loaded : ∀i records,s.loads i=some (.loaded s.clearGeneration records) → records=s.filed
  coming : ∃i load,s.loads i=some load∧load.Current s

structure Alone (s : ActionHistoryStore ρ) : Prop where
  cache : s.cache=some (latest maxRecords s.history)
  diskMerged : s.diskMerged=false
  behind : s.behind=false
  loaded : ∀i records,s.loads i=some (.loaded s.clearGeneration records) → records=[]
  unread : ∀i,s.loads i=some (.reading s.clearGeneration) → s.filed=[]∧s.flush=.idle

structure Merged (s : ActionHistoryStore ρ) : Prop where
  cache : s.cache=some (latest maxRecords s.history)
  diskMerged : s.diskMerged=true
  behind : s.behind=false

inductive Mode (s : ActionHistoryStore ρ) : Prop
  | cold (h : Cold s)
  | behind (records : List ρ) (h : Behind s records)
  | alone (h : Alone s)
  | merged (h : Merged s)

structure Inv (s : ActionHistoryStore ρ) : Prop where
  base : Base s
  mode : Mode s

end

section

variable {ρ : Type*} {s t : ActionHistoryStore ρ} {i : Nat} {records payload : List ρ} {record : ρ}
  {readable : Bool}

theorem latest_latest (l : List ρ) : latest maxRecords (latest maxRecords l)=latest maxRecords l := by
  have h := latest_latest_append maxRecords l []
  rw [List.append_nil,List.append_nil] at h
  exact h

theorem latest_nil : latest maxRecords ([] : List ρ)=[] := by
  unfold latest
  exact List.drop_nil

theorem latest_push (l : List ρ) (r : ρ) :
    latest maxRecords (latest maxRecords l++[r])=latest maxRecords (l++[r]) :=
  latest_latest_append maxRecords l [r]

theorem load_filed (h : readable=true∨s.filed=[]) : s.load readable=s.filed := by
  unfold ActionHistoryStore.load
  rcases h with rfl | hnone
  · rfl
  · rw [hnone]
    split_ifs <;> rfl

theorem Base.push (h : Base s) (record : ρ) : Base (s.push record) where
  busy := h.busy
  begun := h.begun
  writing payload version hflush := by
    obtain ⟨-,-,hle,-,hlatest⟩ := h.writing payload version hflush
    exact ⟨rfl,rfl,Nat.le_succ_of_le hle,fun he => absurd he (Nat.ne_of_lt (Nat.lt_succ_of_le hle)),hlatest⟩
  written version hflush := by
    obtain ⟨-,hle,-⟩ := h.written version hflush
    exact ⟨rfl,Nat.le_succ_of_le hle,fun he => absurd he (Nat.ne_of_lt (Nat.lt_succ_of_le hle))⟩
  clean := nofun

theorem Base.reopen (h : Base s) (hidle : s.flush=.idle) (cache : Option (List ρ))
    (diskMerged behind : Bool) : Base {s with
      cache := cache
      diskMerged := diskMerged
      behind := behind} where
  busy := h.busy
  begun := h.begun
  writing payload version hflush := by
    rw [show s.flush=.writing payload version from hflush] at hidle
    cases hidle
  written version hflush := by
    rw [show s.flush=.written version from hflush] at hidle
    cases hidle
  clean := h.clean

theorem Inv.append (h : Inv s) (hcareful : Careful s (.append record readable)) :
    Inv (s.append record readable) := by
  rcases h.mode with hcold | ⟨l,hbehind⟩ | halone | hmerged
  · have hempty : s.filed=latest maxRecords s.history := h.base.clean hcold.dirty
    cases hloading : s.asyncLoading with
    | true =>
      have hopened : s.opened readable={s with
          cache := some []
          behind := !s.filed.isEmpty} := by
        unfold opened
        rw [hcold.cache]
        dsimp only
        rw [if_pos hloading]
      unfold ActionHistoryStore.append
      rw [hopened]
      have hbase := h.base.reopen hcold.flush (some []) s.diskMerged (!s.filed.isEmpty)
      refine ⟨hbase.push record,?_⟩
      by_cases hnone : s.filed=[]
      · refine .alone ⟨?_,hcold.diskMerged,?_,fun j records hj => ?_,fun j hj => ⟨hnone,hcold.flush⟩⟩
        · change some (latest maxRecords ([]++[record]))=some (latest maxRecords (s.history++[record]))
          rw [← latest_push s.history,← hempty,hnone]
        · change (!s.filed.isEmpty)=false
          rw [hnone]
          rfl
        · rw [hcold.loaded j records hj]
          exact hnone
      · obtain ⟨j,load,hj⟩ := h.base.busy hloading
        refine .behind (latest maxRecords ([]++[record])) ⟨rfl,rfl,hcold.diskMerged,?_,hcold.flush,?_,
          hcold.loaded,⟨j,load,hj,hcold.young hnone j load hj⟩⟩
        · change (!s.filed.isEmpty)=true
          rw [List.isEmpty_eq_false_iff.mpr hnone]
          rfl
        · change latest maxRecords (s.filed++latest maxRecords ([]++[record]))=
            latest maxRecords (s.history++[record])
          rw [latest_append_latest,List.nil_append,hempty,latest_push]
    | false =>
      have hopened : s.opened readable={s with
          cache := some s.filed
          diskMerged := true} := by
        unfold opened
        rw [hcold.cache]
        dsimp only
        rw [if_neg (by rw [hloading]; exact Bool.false_ne_true),
          load_filed (hcareful hcold.cache hloading)]
      unfold ActionHistoryStore.append
      rw [hopened]
      have hbase := h.base.reopen hcold.flush (some s.filed) true s.behind
      refine ⟨hbase.push record,.merged ⟨?_,rfl,hcold.behind⟩⟩
      change some (latest maxRecords (s.filed++[record]))=some (latest maxRecords (s.history++[record]))
      rw [hempty,latest_push]
  · have hopened : s.opened readable=s := by
      unfold opened
      rw [hbehind.cache]
    have hcached : (s.push record).cache=some (latest maxRecords (l++[record])) := by
      unfold ActionHistoryStore.push
      rw [hbehind.cache]
      rfl
    unfold ActionHistoryStore.append
    rw [hopened]
    refine ⟨h.base.push record,.behind (latest maxRecords (l++[record])) ⟨hcached,rfl,
      hbehind.diskMerged,hbehind.behind,hbehind.flush,?_,hbehind.loaded,hbehind.coming⟩⟩
    calc latest maxRecords (s.filed++latest maxRecords (l++[record]))
        =latest maxRecords (s.filed++l++[record]) := by rw [latest_append_latest,List.append_assoc]
      _=latest maxRecords (latest maxRecords (s.filed++l)++[record]) := (latest_push _ _).symm
      _=latest maxRecords (s.history++[record]) := by rw [hbehind.together,latest_push]
  · have hopened : s.opened readable=s := by
      unfold opened
      rw [halone.cache]
    have hcached : (s.push record).cache=some (latest maxRecords (latest maxRecords s.history++[record])) := by
      unfold ActionHistoryStore.push
      rw [halone.cache]
      rfl
    unfold ActionHistoryStore.append
    rw [hopened]
    refine ⟨h.base.push record,.alone ⟨?_,halone.diskMerged,halone.behind,halone.loaded,
      halone.unread⟩⟩
    exact hcached.trans (congrArg some (latest_push _ _))
  · have hopened : s.opened readable=s := by
      unfold opened
      rw [hmerged.cache]
    have hcached : (s.push record).cache=some (latest maxRecords (latest maxRecords s.history++[record])) := by
      unfold ActionHistoryStore.push
      rw [hmerged.cache]
      rfl
    unfold ActionHistoryStore.append
    rw [hopened]
    refine ⟨h.base.push record,.merged ⟨?_,hmerged.diskMerged,hmerged.behind⟩⟩
    exact hcached.trans (congrArg some (latest_push _ _))

theorem Base.unload (h : Base s) (i : Nat) : Base {s with
    asyncLoading := false
    loads := update s.loads i none} where
  busy := nofun
  begun j load hj := by
    by_cases hji : j=i
    · rw [hji] at hj
      simp only [update_self] at hj
      cases hj
    · simp only [update_of_ne hji] at hj
      exact h.begun j load hj
  writing := h.writing
  written := h.written
  clean := h.clean

theorem update_of_some {f : Nat → Option (ColdLoad ρ)} {i j : Nat} {load : ColdLoad ρ}
    (h : update f i none j=some load) : j≠i∧f j=some load := by
  by_cases hji : j=i
  · rw [hji,update_self] at h
    cases h
  · rw [update_of_ne hji] at h
    exact ⟨hji,h⟩

theorem Mode.unload (h : Mode s) (i : Nat)
    (hother : s.behind=true → ∃j load,j≠i∧s.loads j=some load∧load.Current s) : Mode {s with
      asyncLoading := false
      loads := update s.loads i none} := by
  rcases h with hcold | ⟨l,hbehind⟩ | halone | hmerged
  · exact .cold ⟨hcold.cache,hcold.dirty,hcold.diskMerged,hcold.behind,hcold.flush,
      fun j records hj => hcold.loaded j records (update_of_some hj).2,
      fun hne j load hj => hcold.young hne j load (update_of_some hj).2⟩
  · obtain ⟨j,load,hji,hj,hcurrent⟩ := hother hbehind.behind
    have hcoming : update s.loads i none j=some load := by
      rw [update_of_ne hji]
      exact hj
    exact .behind l ⟨hbehind.cache,hbehind.dirty,hbehind.diskMerged,hbehind.behind,hbehind.flush,
      hbehind.together,fun k records hk => hbehind.loaded k records (update_of_some hk).2,
      ⟨j,load,hcoming,hcurrent⟩⟩
  · exact .alone ⟨halone.cache,halone.diskMerged,halone.behind,
      fun j records hj => halone.loaded j records (update_of_some hj).2,
      fun j hj => halone.unread j (update_of_some hj).2⟩
  · exact .merged ⟨hmerged.cache,hmerged.diskMerged,hmerged.behind⟩

theorem Inv.look (h : Inv s) (ht : s.look i=some t) : Inv t := by
  unfold ActionHistoryStore.look at ht
  split at ht
  · rename_i hcache hfree
    cases ht
    have hcurrent : ∀j load,update s.loads i (some (.reading s.clearGeneration)) j=some load →
        j=i∧load=.reading s.clearGeneration∨s.loads j=some load := by
      intro j load hj
      by_cases hji : j=i
      · rw [hji,update_self,Option.some.injEq] at hj
        exact .inl ⟨hji,hj.symm⟩
      · rw [update_of_ne hji] at hj
        exact .inr hj
    have hcold : Cold s := by
      rcases h.mode with hcold | ⟨l,hbehind⟩ | halone | hmerged
      · exact hcold
      · rw [hbehind.cache] at hcache
        cases hcache
      · rw [halone.cache] at hcache
        cases hcache
      · rw [hmerged.cache] at hcache
        cases hcache
    refine ⟨⟨fun _ => ⟨i,.reading s.clearGeneration,update_self _ _ _⟩,fun j load hj => ?_,
      h.base.writing,h.base.written,h.base.clean⟩,.cold ⟨hcache,hcold.dirty,hcold.diskMerged,
      hcold.behind,hcold.flush,fun j records hj => ?_,fun hne j load hj => ?_⟩⟩
    · rcases hcurrent j load hj with ⟨-,rfl⟩ | hold
      · exact Nat.le_refl _
      · exact h.base.begun j load hold
    · rcases hcurrent j _ hj with ⟨-,hreading⟩ | hold
      · cases hreading
      · exact hcold.loaded j records hold
    · rcases hcurrent j load hj with ⟨-,rfl⟩ | hold
      · rfl
      · exact hcold.young hne j load hold
  · cases ht
    exact h
  · cases ht

theorem Inv.read (h : Inv s) (hcareful : Careful s (.read i readable)) (ht : s.read i readable=some t) :
    Inv t := by
  unfold ActionHistoryStore.read at ht
  split at ht
  · rename_i clears hi
    cases ht
    -- the other loads are as they were
    have hloads : ∀j load,update s.loads i (some (.loaded clears (s.load readable))) j=
        some load → j=i∧load=.loaded clears (s.load readable)∨j≠i∧s.loads j=some load := by
      intro j load hj
      by_cases hji : j=i
      · rw [hji,update_self,Option.some.injEq] at hj
        exact .inl ⟨hji,hj.symm⟩
      · rw [update_of_ne hji] at hj
        exact .inr ⟨hji,hj⟩
    have hread : clears=s.clearGeneration → s.diskMerged=false → s.load readable=s.filed := by
      rintro rfl hunmerged
      exact load_filed (hcareful hi hunmerged)
    refine ⟨⟨fun _ => ⟨i,_,update_self _ _ _⟩,fun j load hj => ?_,h.base.writing,
      h.base.written,h.base.clean⟩,?_⟩
    · rcases hloads j load hj with ⟨-,rfl⟩ | ⟨-,hold⟩
      · have hle := h.base.begun i _ hi
        exact hle
      · exact h.base.begun j load hold
    rcases h.mode with hcold | ⟨l,hbehind⟩ | halone | hmerged
    · refine .cold ⟨hcold.cache,hcold.dirty,hcold.diskMerged,hcold.behind,hcold.flush,
        fun j records hj => ?_,fun hne j load hj => ?_⟩
      · rcases hloads j _ hj with ⟨-,hnew⟩ | ⟨-,hold⟩
        · injection hnew with hclears hrecords
          exact hrecords.trans (hread hclears.symm hcold.diskMerged)
        · exact hcold.loaded j records hold
      · rcases hloads j load hj with ⟨-,rfl⟩ | ⟨-,hold⟩
        · have hcurrent := hcold.young hne i _ hi
          exact hcurrent
        · exact hcold.young hne j load hold
    · refine .behind l ⟨hbehind.cache,hbehind.dirty,hbehind.diskMerged,hbehind.behind,hbehind.flush,
        hbehind.together,fun j records hj => ?_,?_⟩
      · rcases hloads j _ hj with ⟨-,hnew⟩ | ⟨-,hold⟩
        · injection hnew with hclears hrecords
          exact hrecords.trans (hread hclears.symm hbehind.diskMerged)
        · exact hbehind.loaded j records hold
      · obtain ⟨j,load,hj,hcurrent⟩ := hbehind.coming
        by_cases hji : j=i
        · have hclears : clears=s.clearGeneration := by
            rw [hji,hi,Option.some.injEq] at hj
            subst load
            exact hcurrent
          exact ⟨i,_,update_self _ _ _,hclears⟩
        · refine ⟨j,load,?_,hcurrent⟩
          change update s.loads i _ j=some load
          rw [update_of_ne hji]
          exact hj
    · refine .alone ⟨halone.cache,halone.diskMerged,halone.behind,fun j records hj => ?_,
        fun j hj => ?_⟩
      · rcases hloads j _ hj with ⟨-,hnew⟩ | ⟨-,hold⟩
        · injection hnew with hclears hrecords
          have hempty := (halone.unread i (hclears ▸ hi)).1
          rw [hrecords,hread hclears.symm halone.diskMerged,hempty]
        · exact halone.loaded j records hold
      · rcases hloads j _ hj with ⟨-,hnew⟩ | ⟨-,hold⟩
        · cases hnew
        · exact halone.unread j hold
    · exact .merged ⟨hmerged.cache,hmerged.diskMerged,hmerged.behind⟩
  · cases ht

theorem Inv.merge (h : Inv s) (ht : s.merge i=some t) : Inv t := by
  unfold ActionHistoryStore.merge at ht
  split at ht
  · rename_i clears records hi
    dsimp only at ht
    split_ifs at ht with hfirst
    · obtain ⟨rfl,hunmerged⟩ := hfirst
      cases ht
      have hbase := h.base.unload i
      have hwhole : latest maxRecords (records++s.cache.getD [])=latest maxRecords s.history := by
        rcases h.mode with hcold | ⟨l,hbehind⟩ | halone | hmerged
        · rw [hcold.cache,hcold.loaded i records hi,h.base.clean hcold.dirty,Option.getD_none,
            List.append_nil,latest_latest]
        · rw [hbehind.cache,hbehind.loaded i records hi,Option.getD_some,hbehind.together]
        · rw [halone.cache,halone.loaded i records hi,Option.getD_some,List.nil_append,latest_latest]
        · rw [hmerged.diskMerged] at hunmerged
          cases hunmerged
      refine ⟨⟨hbase.busy,hbase.begun,fun payload version hflush => ?_,fun version hflush => ?_,
        hbase.clean⟩,.merged ⟨congrArg some hwhole,rfl,rfl⟩⟩
      · exact ⟨rfl,(hbase.writing payload version hflush).2⟩
      · exact ⟨rfl,(hbase.written version hflush).2⟩
    · cases ht
      refine ⟨h.base.unload i,h.mode.unload i fun hbehind => ?_⟩
      -- the load that goes is not one that the list waits for
      rcases h.mode with hcold | ⟨l,hpart⟩ | halone | hmerged
      · rw [hcold.behind] at hbehind
        cases hbehind
      · obtain ⟨j,load,hj,hcurrent⟩ := hpart.coming
        refine ⟨j,load,?_,hj,hcurrent⟩
        rintro rfl
        rw [hi,Option.some.injEq] at hj
        subst load
        have hsame : clears=s.clearGeneration := hcurrent
        exact hfirst ⟨hsame.symm,hpart.diskMerged⟩
      · rw [halone.behind] at hbehind
        cases hbehind
      · rw [hmerged.behind] at hbehind
        cases hbehind
  · cases ht

theorem Inv.cancelLoad (h : Inv s) (hcareful : Careful s (.cancelLoad i)) (ht : s.cancelLoad i=some t) :
    Inv t := by
  unfold ActionHistoryStore.cancelLoad at ht
  split at ht
  · cases ht
    exact ⟨h.base.unload i,h.mode.unload i hcareful⟩
  · cases ht

theorem Inv.persist (h : Inv s) (hcareful : Careful s .persist) (ht : s.persist=some t) : Inv t := by
  unfold ActionHistoryStore.persist at ht
  split at ht
  · rename_i hidle
    split_ifs at ht with hdirty
    · cases ht
      have hbase : s.cache=some (latest maxRecords s.history) → Base {s with
          flush := .writing (latest maxRecords (s.cache.getD [])) s.stateVersion} := by
        intro hcache
        refine ⟨h.base.busy,h.base.begun,fun payload version hflush => ?_,nofun,h.base.clean⟩
        cases hflush
        rw [hcache,Option.getD_some,latest_latest]
        exact ⟨rfl,hdirty,Nat.le_refl _,fun _ => rfl,latest_latest _⟩
      rcases h.mode with hcold | ⟨l,hbehind⟩ | halone | hmerged
      · rw [hcold.dirty] at hdirty
        cases hdirty
      · have hwhole := (hcareful hdirty hbehind.diskMerged).1
        rw [hbehind.behind] at hwhole
        cases hwhole
      · refine ⟨hbase halone.cache,.alone ⟨halone.cache,halone.diskMerged,halone.behind,halone.loaded,
          fun j hj => ?_⟩⟩
        exact absurd hj ((hcareful hdirty halone.diskMerged).2 j)
      · exact ⟨hbase hmerged.cache,.merged ⟨hmerged.cache,hmerged.diskMerged,hmerged.behind⟩⟩
    · cases ht
      exact h
  · cases ht

theorem Mode.flushing (h : Mode s) (hflush : s.flush≠.idle) : Alone s∨Merged s := by
  rcases h with hcold | ⟨l,hbehind⟩ | halone | hmerged
  · exact absurd hcold.flush hflush
  · exact absurd hbehind.flush hflush
  · exact .inl halone
  · exact .inr hmerged

theorem Inv.write {done : Bool} (h : Inv s) (ht : s.write done=some t) : Inv t := by
  unfold ActionHistoryStore.write at ht
  split at ht
  · rename_i payload version hflush
    have hbusy : s.flush≠.idle := by rw [hflush]; exact nofun
    obtain ⟨hcached,hdirty,hle,hsame,hlatest⟩ := h.base.writing payload version hflush
    split_ifs at ht with hdone
    · cases ht
      have hfiled : latest maxRecords ((some payload).getD [])=payload := hlatest
      refine ⟨⟨h.base.busy,h.base.begun,nofun,fun v hv => ?_,fun hclean => ?_⟩,?_⟩
      · cases hv
        exact ⟨hcached,hle,fun he => hfiled.trans (hsame he)⟩
      · change s.dirty=false at hclean
        rw [hdirty] at hclean
        cases hclean
      · rcases h.mode.flushing hbusy with halone | hmerged
        · refine .alone ⟨halone.cache,halone.diskMerged,halone.behind,halone.loaded,fun j hj => ?_⟩
          exact absurd (halone.unread j hj).2 hbusy
        · exact .merged ⟨hmerged.cache,hmerged.diskMerged,hmerged.behind⟩
    · cases ht
      refine ⟨⟨h.base.busy,h.base.begun,nofun,nofun,h.base.clean⟩,?_⟩
      rcases h.mode.flushing hbusy with halone | hmerged
      · refine .alone ⟨halone.cache,halone.diskMerged,halone.behind,halone.loaded,fun j hj => ?_⟩
        exact absurd (halone.unread j hj).2 hbusy
      · exact .merged ⟨hmerged.cache,hmerged.diskMerged,hmerged.behind⟩
  · cases ht

theorem Inv.settle (h : Inv s) (ht : s.settle=some t) : Inv t := by
  unfold ActionHistoryStore.settle at ht
  split at ht
  · rename_i version hflush
    have hbusy : s.flush≠.idle := by rw [hflush]; exact nofun
    obtain ⟨hcached,hle,hsame⟩ := h.base.written version hflush
    cases ht
    refine ⟨⟨h.base.busy,h.base.begun,nofun,nofun,fun hclean => ?_⟩,?_⟩
    · change (if s.stateVersion=version then false else s.dirty)=false at hclean
      split_ifs at hclean with hversion
      · exact hsame hversion.symm
      · exact h.base.clean hclean
    · rcases h.mode.flushing hbusy with halone | hmerged
      · refine .alone ⟨halone.cache,halone.diskMerged,halone.behind,halone.loaded,fun j hj => ?_⟩
        exact absurd (halone.unread j hj).2 hbusy
      · exact .merged ⟨hmerged.cache,hmerged.diskMerged,hmerged.behind⟩
  · cases ht

theorem Inv.clear {deleted : Bool} (h : Inv s) (hcareful : Careful s (.clear deleted))
    (ht : s.clear deleted=some t) : Inv t := by
  unfold ActionHistoryStore.clear at ht
  split at ht
  · rename_i hidle
    cases ht
    have hempty : latest maxRecords ((if deleted=true then none else s.file).getD [])=[] := by
      split_ifs with hdeleted
      · exact latest_nil
      · exact hcareful.resolve_left hdeleted
    -- a load that is still under way saw fewer clears
    have hold : ∀i load,s.loads i=some load → load.clears≠s.clearGeneration+1 := by
      intro i load hi
      have hle := h.base.begun i load hi
      omega
    refine ⟨⟨h.base.busy,fun i load hi => Nat.le_succ_of_le (h.base.begun i load hi),?_,?_,
      fun _ => hempty.trans latest_nil.symm⟩,.cold ⟨rfl,rfl,rfl,rfl,hidle,fun i records hi => ?_,fun hne => ?_⟩⟩
    · intro payload version hflush
      rw [show s.flush=.writing payload version from hflush] at hidle
      cases hidle
    · intro version hflush
      rw [show s.flush=.written version from hflush] at hidle
      cases hidle
    · exact absurd rfl (hold i _ hi)
    · exact absurd hempty hne
  · cases ht

theorem step_inv (a : StoreAct ρ) (h : Inv s) (hcareful : Careful s a) (ht : s.step a=some t) :
    Inv t := by
  cases a with
  | append record readable =>
    cases ht
    exact h.append hcareful
  | look i => exact h.look ht
  | read i readable => exact h.read hcareful ht
  | merge i => exact h.merge ht
  | cancelLoad i => exact h.cancelLoad hcareful ht
  | persist => exact h.persist hcareful ht
  | write done => exact h.write ht
  | settle => exact h.settle ht
  | clear deleted => exact h.clear hcareful ht

theorem Inv.intact (h : Inv s) : Intact s where
  listed hmerged := by
    rcases h.mode with hcold | ⟨l,hbehind⟩ | halone | hdone
    · rw [hcold.diskMerged] at hmerged
      cases hmerged
    · rw [hbehind.diskMerged] at hmerged
      cases hmerged
    · exact halone.cache
    · exact hdone.cache
  flushed := h.base.clean

def Fresh (s : ActionHistoryStore ρ) : Prop := ∃file,s=.new file

end

end XiaoQing.Chat.Actions
