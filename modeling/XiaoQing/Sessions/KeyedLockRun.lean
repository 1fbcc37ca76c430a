import XiaoQing.Sessions.KeyedLockPool

namespace XiaoQing.Sessions

open Function (update update_eq_self update_idem update_of_ne update_self)

open Framework AsyncKeyedLockPool

variable {κ : Type}

/-- A row for a call of `hold` that has not done anything yet. -/
def AsyncKeyedLockPool.register (s : AsyncKeyedLockPool κ) (c : HoldCall κ) : AsyncKeyedLockPool κ :=
  {s with
    holds := update s.holds s.nextHold (some {c with stage := .ended})
    nextHold := s.nextHold+1}

def HoldStage.isHeld : HoldStage → Bool
  | .held => true
  | _ => false

def HoldStage.isActive : HoldStage → Bool
  | .ended => false
  | _ => true

def HoldStage.isWaiting : HoldStage → Bool
  | .waiting _ => true
  | _ => false

def uses (e : Nat) : Option (HoldCall κ) → Bool
  | some c => decide (c.entry=e) && c.stage.isActive
  | none => false

def keeps (e : Nat) : Option (HoldCall κ) → Bool
  | some c => decide (c.entry=e) && c.stage.isHeld
  | none => false

/-- An entry counts its calls; its lock is taken exactly while it has an owner, who made all the
calls that hold it. -/
structure EntryOk (s : AsyncKeyedLockPool κ) (e : Nat) : Prop where
  users : (s.entry e).users=tally (uses e) s.holds s.nextHold
  depth : (s.entry e).depth=tally (keeps e) s.holds s.nextHold
  owner : ∀i c,s.holds i=some c → keeps e (some c)=true → (s.entry e).owner=some c.task
  owned : (s.entry e).owner=none ↔ (s.entry e).depth=0
  locked : (s.entry e).lock.locked=true ↔ 0 < (s.entry e).depth
  fair : (s.entry e).lock.Fair
  waiters : ∀i,i∈(s.entry e).lock.ids ↔
    ∃c,s.holds i=some c∧c.entry=e∧c.stage.isWaiting=true

structure PoolOk (s : AsyncKeyedLockPool κ) : Prop where
  entry : ∀e < s.nextEntry,EntryOk s e
  made : ∀i c,s.holds i=some c → i < s.nextHold∧c.entry < s.nextEntry
  faultless : s.failures=0

/-- What holds of the dictionary; `spare` names an entry that has been made for a call to come. -/
structure DictOk (s : AsyncKeyedLockPool κ) (spare : Option Nat) : Prop where
  active : ∀i c,s.holds i=some c → c.stage.isActive=true → (c.key,c.entry)∈s.entries
  used : ∀p∈s.entries,p.2 < s.nextEntry∧(some p.2≠spare → 0 < (s.entry p.2).users)
  keys : (s.entries.map Prod.fst).Nodup
  values : (s.entries.map Prod.snd).Nodup
  small : s.entries.length ≤ s.maxKeys

section

variable {s t : AsyncKeyedLockPool κ} {c : HoldCall κ} {E : KeyEntry} {i j e f : Nat} {st : HoldStage}

theorem EntryOk.same (h : EntryOk s e) (he : t.entry e=s.entry e) (hh : t.holds=s.holds)
    (hn : t.nextHold=s.nextHold) : EntryOk t e := by
  refine ⟨?_,?_,?_,?_,?_,?_,?_⟩
  all_goals rw [he]
  · rw [hh,hn]
    exact h.users
  · rw [hh,hn]
    exact h.depth
  · rw [hh]
    exact h.owner
  · exact h.owned
  · exact h.locked
  · exact h.fair
  · rw [hh]
    exact h.waiters

theorem EntryOk.frame (h : EntryOk s f) (hi : s.holds i=some c) (hf : c.entry≠f) (hlt : i < s.nextHold)
    (hst : t.holds=update s.holds i (some {c with stage := st}))
    (hnext : t.nextHold=s.nextHold) (hentry : t.entry f=s.entry f) : EntryOk t f := by
  have huses : uses f (s.holds i)=false∧uses f (some {c with stage := st})=false := by
    rw [hi]
    simp [uses,hf]
  have hkeeps : keeps f (s.holds i)=false∧keeps f (some {c with stage := st})=false := by
    rw [hi]
    simp [keeps,hf]
  refine ⟨?_,?_,fun j d hj hd => ?_,?_,?_,?_,fun j => ?_⟩
  · have hcount := tally_update (uses f) s.holds s.nextHold i (some {c with stage := st}) hlt
    rw [huses.1,huses.2] at hcount
    rw [hentry,hst,hnext,h.users]
    omega
  · have hcount := tally_update (keeps f) s.holds s.nextHold i (some {c with stage := st}) hlt
    rw [hkeeps.1,hkeeps.2] at hcount
    rw [hentry,hst,hnext,h.depth]
    omega
  · rw [hentry]
    by_cases hji : j=i
    · subst j
      rw [hst,update_self,Option.some.injEq] at hj
      rw [← hj,hkeeps.2] at hd
      cases hd
    · rw [hst,update_of_ne hji] at hj
      exact h.owner j d hj hd
  · rw [hentry]
    exact h.owned
  · rw [hentry]
    exact h.locked
  · rw [hentry]
    exact h.fair
  · rw [hentry,h.waiters j,hst]
    by_cases hji : j=i
    · subst j
      rw [hi,update_self]
      constructor
      · rintro ⟨d,hd,hdf,-⟩
        cases hd
        exact absurd hdf hf
      · rintro ⟨d,hd,hdf,-⟩
        cases hd
        exact absurd hdf hf
    · rw [update_of_ne hji]

structure Moves (s : AsyncKeyedLockPool κ) (i : Nat) (c : HoldCall κ) (st : HoldStage) (E : KeyEntry) :
    Prop where
  users : E.users+c.stage.isActive.toNat=(s.entry c.entry).users+st.isActive.toNat
  depth : E.depth+c.stage.isHeld.toNat=(s.entry c.entry).depth+st.isHeld.toNat
  owner : st.isHeld=true → E.owner=some c.task
  others : ∀j d,j≠i → s.holds j=some d → keeps c.entry (some d)=true → E.owner=some d.task
  owned : E.owner=none ↔ E.depth=0
  locked : E.lock.locked=true ↔ 0 < E.depth
  fair : E.lock.Fair
  waiters : ∀j,j∈E.lock.ids ↔ j=i∧st.isWaiting=true∨j≠i∧j∈(s.entry c.entry).lock.ids

theorem PoolOk.move (h : PoolOk s) (hi : s.holds i=some c) (hm : Moves s i c st E) :
    PoolOk ((s.setStage i c st).setEntry c.entry E) := by
  obtain ⟨hlt,helt⟩ := h.made i c hi
  refine ⟨fun f hf => ?_,fun j d hj => ?_,h.faultless⟩
  · by_cases hfe : f=c.entry
    · subst f
      have hok := h.entry c.entry helt
      have hentry : ((s.setStage i c st).setEntry c.entry E).entry c.entry=E := update_self _ _ _
      have hholds : ((s.setStage i c st).setEntry c.entry E).holds=
          update s.holds i (some {c with stage := st}) := rfl
      refine ⟨?_,?_,fun j d hj hd => ?_,?_,?_,?_,fun j => ?_⟩
      · have hcount := tally_update (uses c.entry) s.holds s.nextHold i (some {c with stage := st}) hlt
        have hbefore := hok.users
        have hmove := hm.users
        rw [hi] at hcount
        simp only [uses,decide_true,Bool.true_and] at hcount
        rw [hentry,hholds]
        change E.users=tally (uses c.entry) _ s.nextHold
        omega
      · have hcount := tally_update (keeps c.entry) s.holds s.nextHold i (some {c with stage := st}) hlt
        have hbefore := hok.depth
        have hmove := hm.depth
        rw [hi] at hcount
        simp only [keeps,decide_true,Bool.true_and] at hcount
        rw [hentry,hholds]
        change E.depth=tally (keeps c.entry) _ s.nextHold
        omega
      · rw [hentry]
        by_cases hji : j=i
        · subst j
          rw [hholds,update_self,Option.some.injEq] at hj
          subst d
          simp only [keeps,decide_true,Bool.true_and] at hd
          exact hm.owner hd
        · rw [hholds,update_of_ne hji] at hj
          exact hm.others j d hji hj hd
      · rw [hentry]
        exact hm.owned
      · rw [hentry]
        exact hm.locked
      · rw [hentry]
        exact hm.fair
      · rw [hentry,hm.waiters j,hholds]
        by_cases hji : j=i
        · subst j
          rw [update_self]
          simp
        · rw [update_of_ne hji]
          simp only [hji,false_and,false_or,ne_eq,not_false_eq_true,true_and]
          exact hok.waiters j
    · exact (h.entry f hf).frame hi (Ne.symm hfe) hlt rfl rfl (update_of_ne hfe _ _)
  · have hd : update s.holds i (some {c with stage := st}) j=some d := hj
    by_cases hji : j=i
    · subst j
      rw [update_self] at hd
      cases hd
      exact ⟨hlt,helt⟩
    · rw [update_of_ne hji] at hd
      exact h.made j d hd

theorem EntryOk.depth_le (h : EntryOk s e) : (s.entry e).depth ≤ (s.entry e).users := by
  rw [h.depth,h.users]
  apply tally_le
  intro i _ hi
  cases hc : s.holds i with
  | none =>
    rw [hc] at hi
    cases hi
  | some d =>
    rw [hc] at hi
    simp only [keeps,uses,Bool.and_eq_true] at hi ⊢
    refine ⟨hi.1,?_⟩
    cases hst : d.stage with
    | held => rfl
    | waiting x => rfl
    | ended =>
      rw [hst] at hi
      cases hi.2

theorem uses_self (hc : c.stage.isActive=true) : uses c.entry (some c)=true := by
  simp [uses,hc]

theorem PoolOk.two_le (h : PoolOk s) {d : HoldCall κ} (hi : s.holds i=some c)
    (hc : c.stage.isActive=true) (hj : s.holds j=some d) (hd : d.stage.isActive=true) (hij : i≠j)
    (he : d.entry=c.entry) : 2 ≤ (s.entry c.entry).users := by
  have hok := h.entry c.entry (h.made i c hi).2
  rw [hok.users]
  apply tally_two _ _ _ i j (h.made i c hi).1 (h.made j d hj).1 hij
  · rw [hi]
    exact uses_self hc
  · rw [hj,← he]
    exact uses_self hd

theorem PoolOk.setEntries (h : PoolOk s) (l : List (κ × Nat)) : PoolOk {s with entries := l} :=
  ⟨fun e he => (h.entry e he).same rfl rfl rfl,h.made,h.faultless⟩

theorem DictOk.withSpare (h : DictOk s none) (e : Nat) : DictOk s (some e) :=
  ⟨h.active,fun p hp => ⟨(h.used p hp).1,fun _ => (h.used p hp).2 (Option.some_ne_none _)⟩,h.keys,
    h.values,h.small⟩

theorem DictOk.move (h : DictOk s (some c.entry)) (hu : 0 < E.users)
    (hact : st.isActive=true → (c.key,c.entry)∈s.entries) :
    DictOk ((s.setStage i c st).setEntry c.entry E) none := by
  refine ⟨fun j d hj hd => ?_,fun p hp => ⟨(h.used p hp).1,fun hne => ?_⟩,h.keys,h.values,h.small⟩
  · have hj : update s.holds i (some {c with stage := st}) j=some d := hj
    by_cases hji : j=i
    · subst j
      rw [update_self] at hj
      cases hj
      exact hact hd
    · rw [update_of_ne hji] at hj
      exact h.active j d hj hd
  · change 0 < (update s.entry c.entry E p.2).users
    by_cases hpe : p.2=c.entry
    · rw [hpe,update_self]
      exact hu
    · rw [update_of_ne hpe]
      exact (h.used p hp).2 (fun he => hpe (Option.some.inj he))

structure Sound (s : AsyncKeyedLockPool κ) : Prop where
  pool : PoolOk s
  dict : DictOk s none

theorem PoolOk.users_pos (h : PoolOk s) (hi : s.holds i=some c) (hc : c.stage.isActive=true) :
    0 < (s.entry c.entry).users := by
  obtain ⟨hlt,helt⟩ := h.made i c hi
  rw [(h.entry c.entry helt).users]
  exact tally_pos _ _ _ i hlt (by rw [hi]; exact uses_self hc)

theorem EntryOk.none_keeps (h : EntryOk s e) (hd : (s.entry e).depth=0) (hlt : i < s.nextHold) :
    keeps e (s.holds i)=false := (tally_eq_zero _ _ _).mp (h.depth.symm.trans hd) i hlt

theorem Sound.rewait (h : Sound s) {x y : Bool} {l : AsyncLock Nat} (hi : s.holds i=some c)
    (hc : c.stage=.waiting x) (hids : l.ids=(s.entry c.entry).lock.ids)
    (hlocked : l.locked=(s.entry c.entry).lock.locked) (hfair : l.Fair) :
    Sound ((s.setStage i c (.waiting y)).setEntry c.entry {s.entry c.entry with lock := l}) := by
  have hok := h.pool.entry c.entry (h.pool.made i c hi).2
  have hact : c.stage.isActive=true := by rw [hc]; rfl
  have hmoves : Moves s i c (.waiting y) {s.entry c.entry with lock := l} := by
    refine ⟨by rw [hc]; rfl,by rw [hc]; rfl,nofun,fun j d _ hj hd => hok.owner j d hj hd,hok.owned,?_,
      hfair,fun j => ?_⟩
    · rw [hlocked]
      exact hok.locked
    · rw [hids]
      by_cases hji : j=i
      · subst j
        have hmem := (hok.waiters i).mpr ⟨c,hi,rfl,by rw [hc]; rfl⟩
        simp [hmem,HoldStage.isWaiting]
      · simp [hji]
  exact ⟨h.pool.move hi hmoves,(h.dict.withSpare _).move (h.pool.users_pos hi hact)
    fun _ => h.dict.active i c hi hact⟩

theorem cancel_sound (h : Sound s) (hs : s.cancel i=some t) : Sound t := by
  unfold AsyncKeyedLockPool.cancel at hs
  split at hs
  · cases hs
  · rename_i c hi
    have hok := h.pool.entry c.entry (h.pool.made i c hi).2
    dsimp only at hs
    split at hs
    · rename_i x hst _
      cases hs
      exact h.rewait hi hst ids_cancel rfl hok.fair.cancel
    · rename_i x p _ hst _
      cases hs
      have hsame := h.rewait (y:=true) hi hst rfl rfl hok.fair
      unfold AsyncKeyedLockPool.setEntry AsyncKeyedLockPool.setStage at hsame
      rw [update_eq_self] at hsame
      exact hsame
    · cases hs

variable [DecidableEq κ] {key : κ}

theorem get_iff (hn : (s.entries.map Prod.fst).Nodup) : s.get key=some e ↔ (key,e)∈s.entries := by
  unfold AsyncKeyedLockPool.get
  constructor
  · intro h
    obtain ⟨p,hp,rfl⟩ := Option.map_eq_some_iff.mp h
    have hk : p.1=key := row_key hp
    rw [← hk]
    exact mem_of_row hp
  · intro h
    have hr : row Prod.fst s.entries key=some (key,e) := UniqueKeys.row_of_mem hn h
    rw [hr]
    rfl

theorem leave_ok (h : PoolOk s) (hd : DictOk s none) (hi : s.holds i=some c)
    (hc : c.stage.isActive=true) (hm : Moves s i c .ended {E with users := E.users-1})
    (ht : t=(s.setStage i c .ended).setEntry c.entry E) : PoolOk (t.leave c)∧DictOk (t.leave c) none := by
  obtain ⟨hlt,helt⟩ := h.made i c hi
  have hE : t.entry c.entry=E := by
    rw [ht]
    exact update_self _ _ _
  have hset : t.setEntry c.entry {E with users := E.users-1}=
      (s.setStage i c .ended).setEntry c.entry {E with users := E.users-1} := by
    rw [ht]
    unfold AsyncKeyedLockPool.setEntry
    simp only [update_idem]
  have hpool := h.move hi hm
  unfold AsyncKeyedLockPool.leave
  simp only [hE,hset]
  generalize hF : ({E with users := E.users-1} : KeyEntry)=F at hpool hm
  have hFu : F.users=E.users-1 := by rw [← hF]
  rw [← hFu]
  by_cases hu : F.users≠0
  · rw [if_pos hu]
    exact ⟨hpool,(hd.withSpare _).move (Nat.pos_of_ne_zero hu) nofun⟩
  rw [if_neg hu]
  have hu0 : F.users=0 := not_not.mp hu
  -- nobody uses the entry, so nobody holds its lock
  have hok := hpool.entry c.entry helt
  have hentry : ((s.setStage i c .ended).setEntry c.entry F).entry c.entry=F := update_self _ _ _
  have hdepth : F.depth=0 := by
    have hle := hok.depth_le
    rw [hentry] at hle
    omega
  have howner : F.owner=none := hm.owned.mpr hdepth
  have hlocked : ¬F.lock.locked=true := fun hl => by
    have := hm.locked.mp hl
    omega
  have hmem := hd.active i c hi hc
  have hget : ((s.setStage i c .ended).setEntry c.entry F).get c.key=some c.entry := (get_iff hd.keys).mpr hmem
  have hEF : E.owner=F.owner∧E.depth=F.depth∧E.lock=F.lock := by
    rw [← hF]
    exact ⟨rfl,rfl,rfl⟩
  rw [hEF.1,hEF.2.1,hEF.2.2,if_neg (by simp [howner,hdepth,hlocked]),if_pos hget]
  refine ⟨hpool.setEntries _,?_⟩
  have hsub : (s.entries.filter fun p => p.1≠c.key).Sublist s.entries := List.filter_sublist
  refine ⟨fun j d hj hact => ?_,fun p hp => ?_,hd.keys.sublist (hsub.map _),hd.values.sublist (hsub.map _),
    hsub.length_le.trans hd.small⟩
  · have hj : update s.holds i (some {c with stage := .ended}) j=some d := hj
    by_cases hji : j=i
    · subst j
      rw [update_self] at hj
      cases hj
      cases hact
    · rw [update_of_ne hji] at hj
      have hold := hd.active j d hj hact
      refine List.mem_filter.mpr ⟨hold,decide_eq_true fun hk => ?_⟩
      -- another call of the key would use the same entry
      have hk : d.key=c.key := hk
      have hsame : d.entry=c.entry := by
        have h1 := (get_iff hd.keys).mpr hold
        have h2 := (get_iff hd.keys).mpr hmem
        rw [hk,h2] at h1
        exact (Option.some.inj h1).symm
      have htwo := h.two_le hi hc hj hact (Ne.symm hji) hsame
      have hmoved := hm.users
      rw [hc] at hmoved
      simp only [HoldStage.isActive,Bool.toNat_true,Bool.toNat_false] at hmoved
      omega
  · obtain ⟨hp,hk⟩ := List.mem_filter.mp hp
    have hk : p.1≠c.key := of_decide_eq_true hk
    refine ⟨(hd.used p hp).1,fun hne => ?_⟩
    change 0 < (update s.entry c.entry F p.2).users
    have hpe : p.2≠c.entry := by
      intro he
      have hpair : p=(c.key,c.entry) := List.inj_on_of_nodup_map hd.values hp hmem he
      exact hk (by rw [hpair])
    rw [update_of_ne hpe]
    exact (hd.used p hp).2 hne

theorem drop_sound (h : Sound s) {x : Bool} (hi : s.holds i=some c) (hst : c.stage=.waiting x) :
    Sound (((s.setStage i c .ended).setEntry c.entry
      {s.entry c.entry with lock := (s.entry c.entry).lock.leave i}).leave c) := by
  have hact : c.stage.isActive=true := by rw [hst]; rfl
  have hok := h.pool.entry c.entry (h.pool.made i c hi).2
  have hpos := h.pool.users_pos hi hact
  have hmoves : Moves s i c .ended {s.entry c.entry with
      lock := (s.entry c.entry).lock.leave i,users := (s.entry c.entry).users-1} := by
    refine ⟨?_,by rw [hst]; rfl,nofun,fun j d _ hj hd => hok.owner j d hj hd,hok.owned,?_,
      hok.fair.leave,fun j => ?_⟩
    · rw [hact]
      exact Nat.sub_add_cancel hpos
    · rw [locked_leave]
      exact hok.locked
    · rw [mem_ids_leave]
      simp [HoldStage.isWaiting,and_comm]
  obtain ⟨hpool,hdict⟩ := leave_ok h.pool h.dict hi hact
    (E:={s.entry c.entry with lock := (s.entry c.entry).lock.leave i}) hmoves rfl
  exact ⟨hpool,hdict⟩

theorem resume_sound (h : Sound s) (hs : s.resume i=some t) : Sound t := by
  unfold AsyncKeyedLockPool.resume at hs
  split at hs
  · cases hs
  · rename_i c hi
    have hok := h.pool.entry c.entry (h.pool.made i c hi).2
    dsimp only at hs
    split at hs
    · rename_i hst hsig
      cases hs
      have hact : c.stage.isActive=true := by rw [hst]; rfl
      obtain ⟨hfair,hfree⟩ := hok.fair.enter hsig
      have hdepth : (s.entry c.entry).depth=0 := by
        by_contra hne
        have hl := hok.locked.mpr (Nat.pos_of_ne_zero hne)
        rw [hfree] at hl
        cases hl
      have hmoves : Moves s i c .held {s.entry c.entry with
          lock := (s.entry c.entry).lock.enter i,owner := some c.task,depth := 1} := by
        refine ⟨by rw [hact]; rfl,by rw [hst,hdepth]; rfl,fun _ => rfl,fun j d _ hj hd => ?_,by simp,
          by simp [AsyncLock.enter,AsyncLock.take],hfair,fun j => ?_⟩
        · have hnone := hok.none_keeps hdepth (h.pool.made j d hj).1
          rw [hj] at hnone
          exact absurd (hnone.symm.trans hd) Bool.false_ne_true
        · rw [mem_ids_enter]
          simp [HoldStage.isWaiting,and_comm]
      exact ⟨h.pool.move hi hmoves,(h.dict.withSpare _).move (h.pool.users_pos hi hact)
        fun _ => h.dict.active i c hi hact⟩
    · rename_i hst _
      cases hs
      exact drop_sound h hi hst
    · rename_i x hst _
      cases hs
      exact drop_sound h hi hst
    · cases hs

theorem exit_sound (h : Sound s) (hs : s.exit i=some t) : Sound t := by
  unfold AsyncKeyedLockPool.exit at hs
  split at hs
  · cases hs
  rename_i c hi
  split_ifs at hs with hheld
  have hst : c.stage=.held := not_not.mp hheld
  have hact : c.stage.isActive=true := by rw [hst]; rfl
  obtain ⟨hlt,helt⟩ := h.pool.made i c hi
  have hok := h.pool.entry c.entry helt
  have hpos := h.pool.users_pos hi hact
  have hkeep : keeps c.entry (some c)=true := by
    simp [keeps,hst,HoldStage.isHeld]
  have hkept : keeps c.entry (s.holds i)=true := by
    rw [hi]
    exact hkeep
  have howner := hok.owner i c hi hkeep
  have hdepth : 0 < (s.entry c.entry).depth := by
    rw [hok.depth]
    exact tally_pos _ _ _ i hlt hkept
  have hnot : i∉(s.entry c.entry).lock.ids := by
    intro hmem
    obtain ⟨d,hd,-,hw⟩ := (hok.waiters i).mp hmem
    rw [hi] at hd
    cases hd
    rw [hst] at hw
    cases hw
  have hwaiters : ∀j,j∈(s.entry c.entry).lock.ids ↔ j=i∧HoldStage.ended.isWaiting=true∨
      j≠i∧j∈(s.entry c.entry).lock.ids := by
    intro j
    by_cases hji : j=i
    · subst j
      simp [hnot,HoldStage.isWaiting]
    · simp [hji]
  have husers : (s.entry c.entry).users-1+c.stage.isActive.toNat=
      (s.entry c.entry).users+HoldStage.ended.isActive.toNat := by
    rw [hact]
    exact Nat.sub_add_cancel hpos
  dsimp only at hs
  rw [if_neg (by
    rintro (hne | hzero)
    · exact hne howner
    · omega)] at hs
  split at hs
  · -- the last of the owner's nested uses gives the lock back
    rename_i hone
    split at hs
    · rename_i hnone
      unfold AsyncLock.release at hnone
      rw [if_pos (hok.locked.mpr hdepth)] at hnone
      cases hnone
    · rename_i l hrelease
      cases hs
      obtain ⟨hfair,hids,hunlocked⟩ := hok.fair.release hrelease
      have hmoves : Moves s i c .ended {s.entry c.entry with
          lock := l,owner := none,depth := 0,users := (s.entry c.entry).users-1} := by
        refine ⟨husers,by rw [hst,hone]; rfl,nofun,fun j d hji hj hd => ?_,by simp,by simp [hunlocked],
          hfair,fun j => ?_⟩
        · have htwo := tally_two (keeps c.entry) s.holds s.nextHold i j hlt (h.pool.made j d hj).1
            (Ne.symm hji) hkept (by rw [hj]; exact hd)
          rw [← hok.depth] at htwo
          omega
        · rw [hids]
          exact hwaiters j
      obtain ⟨hpool,hdict⟩ := leave_ok h.pool h.dict hi hact
        (E:={s.entry c.entry with lock := l,owner := none,depth := 0}) hmoves rfl
      exact ⟨hpool,hdict⟩
  · rename_i hmore
    cases hs
    have hmoves : Moves s i c .ended {s.entry c.entry with
        depth := (s.entry c.entry).depth-1,users := (s.entry c.entry).users-1} := by
      refine ⟨husers,?_,nofun,fun j d _ hj hd => hok.owner j d hj hd,?_,?_,hok.fair,hwaiters⟩
      · rw [hst]
        exact Nat.sub_add_cancel hdepth
      · simp only [howner]
        constructor
        · nofun
        · intro hz
          omega
      · rw [hok.locked]
        simp only
        omega
    obtain ⟨hpool,hdict⟩ := leave_ok h.pool h.dict hi hact
      (E:={s.entry c.entry with depth := (s.entry c.entry).depth-1}) hmoves rfl
    exact ⟨hpool,hdict⟩

omit [DecidableEq κ] in
theorem PoolOk.alloc (h : PoolOk s) (l : List (κ × Nat)) :
    PoolOk {s with
      entries := l
      entry := update s.entry s.nextEntry .new
      nextEntry := s.nextEntry+1} := by
  refine ⟨fun e he => ?_,fun i c hi => ?_,h.faultless⟩
  · by_cases hnew : e=s.nextEntry
    · subst e
      have hother : ∀i c,s.holds i=some c → c.entry≠s.nextEntry := fun i c hi =>
        Nat.ne_of_lt (h.made i c hi).2
      have hself : update s.entry s.nextEntry .new s.nextEntry=KeyEntry.new :=
        update_self _ _ _
      refine ⟨?_,?_,fun i c hi hk => ?_,by simp [KeyEntry.new],by simp [KeyEntry.new,AsyncLock.new],?_,
        fun i => ?_⟩
      · dsimp only
        rw [hself]
        refine ((tally_eq_zero _ _ _).mpr fun i _ => ?_).symm
        cases hc : s.holds i with
        | none => rfl
        | some c => simp [uses,hother i c hc]
      · dsimp only
        rw [hself]
        refine ((tally_eq_zero _ _ _).mpr fun i _ => ?_).symm
        cases hc : s.holds i with
        | none => rfl
        | some c => simp [keeps,hother i c hc]
      · simp [keeps,hother i c hi] at hk
      · dsimp only
        rw [hself]
        exact .new
      · dsimp only
        rw [hself]
        constructor
        · nofun
        · rintro ⟨c,hc,he,-⟩
          exact absurd he (hother i c hc)
    · have hok := h.entry e (by
        have : e < s.nextEntry+1 := he
        omega)
      exact hok.same (update_of_ne hnew _ _) rfl rfl
  · obtain ⟨hlt,helt⟩ := h.made i c hi
    exact ⟨hlt,Nat.lt_succ_of_lt helt⟩

omit [DecidableEq κ] in
theorem PoolOk.register (h : PoolOk s) (he : c.entry < s.nextEntry) :
    PoolOk (s.register c) := by
  have hfresh : s.holds s.nextHold=none := by
    cases hc : s.holds s.nextHold with
    | none => rfl
    | some d => exact absurd (h.made _ d hc).1 (Nat.lt_irrefl _)
  have hrow : ∀i d,update s.holds s.nextHold (some {c with stage := .ended}) i=some d →
      d={c with stage := .ended}∧i=s.nextHold∨s.holds i=some d := by
    intro i d hi
    by_cases hin : i=s.nextHold
    · subst i
      rw [update_self] at hi
      exact .inl ⟨(Option.some.inj hi).symm,rfl⟩
    · rw [update_of_ne hin] at hi
      exact .inr hi
  refine ⟨fun e hlt => ?_,fun i d hi => ?_,h.faultless⟩
  · have hok := h.entry e hlt
    refine ⟨?_,?_,fun i d hi hk => ?_,hok.owned,hok.locked,hok.fair,fun i => ?_⟩
    · have hpush := tally_push (uses e) s.holds s.nextHold (some {c with stage := .ended})
      simp only [uses,HoldStage.isActive,Bool.and_false,Bool.toNat_false] at hpush
      exact hok.users.trans hpush.symm
    · have hpush := tally_push (keeps e) s.holds s.nextHold (some {c with stage := .ended})
      simp only [keeps,HoldStage.isHeld,Bool.and_false,Bool.toNat_false] at hpush
      exact hok.depth.trans hpush.symm
    · rcases hrow i d hi with ⟨rfl,-⟩ | hold
      · simp [keeps,HoldStage.isHeld] at hk
      · exact hok.owner i d hold hk
    · change i∈(s.entry e).lock.ids ↔ _
      rw [hok.waiters i]
      constructor
      · rintro ⟨d,hd,hde,hw⟩
        have hin : i≠s.nextHold := by
          rintro rfl
          rw [hfresh] at hd
          cases hd
        exact ⟨d,(update_of_ne hin _ _).trans hd,hde,hw⟩
      · rintro ⟨d,hd,hde,hw⟩
        rcases hrow i d hd with ⟨rfl,-⟩ | hold
        · cases hw
        · exact ⟨d,hold,hde,hw⟩
  · rcases hrow i d hi with ⟨rfl,rfl⟩ | hold
    · exact ⟨Nat.lt_succ_self _,he⟩
    · obtain ⟨hlt,helt⟩ := h.made i d hold
      exact ⟨Nat.lt_succ_of_lt hlt,helt⟩

omit [DecidableEq κ] in
theorem DictOk.register (h : DictOk s (some e)) : DictOk (s.register c) (some e) := by
  refine ⟨fun i d hi hd => ?_,h.used,h.keys,h.values,h.small⟩
  have hi : update s.holds s.nextHold (some {c with stage := .ended}) i=some d := hi
  by_cases hin : i=s.nextHold
  · subst i
    rw [update_self] at hi
    cases hi
    cases hd
  · rw [update_of_ne hin] at hi
    exact h.active i d hi hd

omit [DecidableEq κ] in
theorem begin_eq : s.begin c E=((s.register c).setStage s.nextHold c c.stage).setEntry c.entry E := by
  simp [AsyncKeyedLockPool.begin,register,setStage,setEntry]

omit [DecidableEq κ] in
theorem begin_sound (h : PoolOk s) (hd : DictOk s (some c.entry)) (hmem : (c.key,c.entry)∈s.entries)
    (hpos : 0 < E.users) (hm : Moves (s.register c) s.nextHold {c with stage := .ended} c.stage E) :
    Sound (s.begin c E) := by
  rw [begin_eq]
  have hself : (s.register c).holds s.nextHold=some {c with stage := .ended} := update_self _ _ _
  have hpool := (h.register (hd.used _ hmem).1).move hself hm
  exact ⟨hpool,hd.register.move hpos fun _ => hmem⟩

omit [DecidableEq κ] in
theorem join_sound (h : PoolOk s) (hd : DictOk s (some e)) (hmem : (key,e)∈s.entries) (task : Nat) :
    Sound (s.join task key e) := by
  have hok := h.entry e (hd.used _ hmem).1
  have hnot : s.nextHold∉(s.entry e).lock.ids := by
    intro hw
    obtain ⟨c,hc,-⟩ := (hok.waiters _).mp hw
    exact absurd (h.made _ c hc).1 (Nat.lt_irrefl _)
  have hold : ∀st j d,j≠s.nextHold → (s.register ⟨task,key,e,st⟩).holds j=some d → s.holds j=some d :=
    fun st j d hj hc => (update_of_ne hj _ _).symm.trans hc
  have hstays : ∀j,j∈(s.entry e).lock.ids ↔
      j=s.nextHold∧HoldStage.held.isWaiting=true∨j≠s.nextHold∧j∈(s.entry e).lock.ids := by
    intro j
    by_cases hj : j=s.nextHold
    · subst j
      simp [hnot,HoldStage.isWaiting]
    · simp [hj]
  unfold AsyncKeyedLockPool.join
  dsimp only
  split_ifs with howner hfree
  · -- a nested use by the owner
    have hne : (s.entry e).depth≠0 := by
      intro hz
      rw [hok.owned.mpr hz] at howner
      cases howner
    refine begin_sound h hd hmem (Nat.succ_pos _) ⟨rfl,rfl,fun _ => howner,fun j d hj hc hk =>
      hok.owner j d (hold _ j d hj hc) hk,?_,?_,hok.fair,hstays⟩
    · rw [howner]
      simp
    · change (s.entry e).lock.locked=true ↔ _
      rw [hok.locked]
      simp only
      omega
  · have hdepth : (s.entry e).depth=0 := by
      by_contra hne
      have hl := hok.locked.mpr (Nat.pos_of_ne_zero hne)
      rw [locked_of_free hfree] at hl
      cases hl
    refine begin_sound h hd hmem (Nat.succ_pos _) ⟨rfl,?_,fun _ => rfl,fun j d hj hc hk => ?_,by simp,
      by simp [AsyncLock.take],hok.fair.take hfree,hstays⟩
    · change 1+0=(s.entry e).depth+1
      rw [hdepth]
    · have hrow := hold _ j d hj hc
      have hnone := hok.none_keeps hdepth (h.made j d hrow).1
      rw [hrow] at hnone
      exact absurd (hnone.symm.trans hk) Bool.false_ne_true
  · have hbusy : (s.entry e).lock.free=false := Bool.eq_false_iff.mpr hfree
    refine begin_sound h hd hmem (Nat.succ_pos _) ⟨rfl,rfl,(fun hx => by cases hx),fun j d hj hc hk =>
      hok.owner j d (hold _ j d hj hc) hk,hok.owned,hok.locked,hok.fair.enqueue hnot hbusy,fun j => ?_⟩
    rw [mem_ids_enqueue]
    by_cases hj : j=s.nextHold
    · simp [hj,HoldStage.isWaiting]
    · change _ ↔ _∨_∧j∈(s.entry e).lock.ids
      simp [hj]

theorem enter_sound (h : Sound s) (task : Nat) (key : κ) (keyLength : Nat) :
    Sound (s.enter task key keyLength) := by
  unfold AsyncKeyedLockPool.enter
  split
  · exact h
  split
  · rename_i e hget
    exact join_sound h.pool (h.dict.withSpare e) ((get_iff h.dict.keys).mp hget) task
  · rename_i hget
    split
    · exact h
    rename_i hfull
    have hnew : ∀p∈s.entries,p.1≠key := row_eq_none (Option.map_eq_none_iff.mp hget)
    refine join_sound (h.pool.alloc _) ⟨fun i c hi hc => ?_,fun p hp => ?_,?_,?_,?_⟩
      (List.mem_append_right _ (List.mem_singleton_self _)) task
    · exact List.mem_append_left _ (h.dict.active i c hi hc)
    · rcases List.mem_append.mp hp with hold | hp
      · obtain ⟨hlt,hpos⟩ := h.dict.used p hold
        refine ⟨Nat.lt_succ_of_lt hlt,fun _ => ?_⟩
        change 0 < (update s.entry s.nextEntry .new p.2).users
        rw [update_of_ne (Nat.ne_of_lt hlt)]
        exact hpos (Option.some_ne_none _)
      · rw [List.mem_singleton.mp hp]
        exact ⟨Nat.lt_succ_self _,fun hne => absurd rfl hne⟩
    · exact UniqueKeys.append h.dict.keys hnew
    · refine UniqueKeys.append h.dict.values fun p hp => ?_
      exact Nat.ne_of_lt (h.dict.used p hp).1
    · rw [List.length_append]
      exact Nat.lt_of_not_le hfull

theorem step_sound (a : PoolAct κ) (h : Sound s) (hs : s.step a=some t) : Sound t := by
  cases a with
  | enter task key keyLength =>
    cases hs
    exact enter_sound h task key keyLength
  | cancel i => exact cancel_sound h hs
  | resume i => exact resume_sound h hs
  | exit i => exact exit_sound h hs

end

def wants [DecidableEq κ] (key : κ) : Option (HoldCall κ) → Bool
  | some c => decide (c.key=key) && c.stage.isActive
  | none => false

def owns [DecidableEq κ] (key : κ) : Option (HoldCall κ) → Bool
  | some c => decide (c.key=key) && c.stage.isHeld
  | none => false

/-- The contract of the pool: a key has one owner, whose nested uses are its depth, an entry is there
while its key is used, no more than the limit, and the release raises nothing. -/
structure Guards [DecidableEq κ] (s : AsyncKeyedLockPool κ) : Prop where
  exclusive : ∀i j c d,s.holds i=some c → s.holds j=some d → c.stage=.held → d.stage=.held →
    c.key=d.key → c.task=d.task
  owner : ∀p∈s.entries,∀task,(s.entry p.2).owner=some task ↔
    ∃i c,s.holds i=some c∧c.key=p.1∧c.stage=.held∧c.task=task
  depth : ∀p∈s.entries,(s.entry p.2).depth=tally (owns p.1) s.holds s.nextHold
  users : ∀p∈s.entries,(s.entry p.2).users=tally (wants p.1) s.holds s.nextHold
  present : ∀key,(∃e,(key,e)∈s.entries) ↔ 0 < tally (wants key) s.holds s.nextHold
  keys : (s.entries.map Prod.fst).Nodup
  bounded : s.entries.length ≤ s.maxKeys
  idle : (∀i c,s.holds i=some c → c.stage=.ended) → s.entries=[]
  awake : ∀p∈s.entries,(s.entry p.2).lock.locked=false →
    ∀w,(s.entry p.2).lock.waiters.head?=some w → w.2≠.pending
  faultless : s.failures=0

def Created (s : AsyncKeyedLockPool κ) : Prop := ∃maxKeys maxKeyLength,s=new maxKeys maxKeyLength

section

variable {s : AsyncKeyedLockPool κ} {p : κ × Nat} {c : HoldCall κ} {i : Nat}

theorem HoldStage.isHeld_iff {st : HoldStage} : st.isHeld=true ↔ st=.held := by
  cases st <;> simp [isHeld]

theorem HoldStage.isActive_of_held {st : HoldStage} (h : st=.held) : st.isActive=true := by
  rw [h]
  rfl

theorem Sound.entry_iff (h : Sound s) (hp : p∈s.entries) (hi : s.holds i=some c)
    (hc : c.stage.isActive=true) : c.entry=p.2 ↔ c.key=p.1 := by
  have hmem := h.dict.active i c hi hc
  constructor
  · intro he
    exact congrArg Prod.fst (List.inj_on_of_nodup_map h.dict.values hmem hp he)
  · intro hk
    exact congrArg Prod.snd (List.inj_on_of_nodup_map h.dict.keys hmem hp hk)

variable [DecidableEq κ]

theorem Sound.wants_eq (h : Sound s) (hp : p∈s.entries) (i : Nat) :
    uses p.2 (s.holds i)=wants p.1 (s.holds i) := by
  cases hi : s.holds i with
  | none => rfl
  | some c =>
    by_cases hc : c.stage.isActive=true
    · simp [uses,wants,h.entry_iff hp hi hc]
    · simp [uses,wants,hc]

theorem Sound.owns_eq (h : Sound s) (hp : p∈s.entries) (i : Nat) :
    keeps p.2 (s.holds i)=owns p.1 (s.holds i) := by
  cases hi : s.holds i with
  | none => rfl
  | some c =>
    by_cases hc : c.stage.isHeld=true
    · simp [keeps,owns,h.entry_iff hp hi (HoldStage.isActive_of_held (HoldStage.isHeld_iff.mp hc))]
    · simp [keeps,owns,hc]

theorem owns_iff {key : κ} : owns key (some c)=true ↔ c.key=key∧c.stage=.held := by
  simp [owns,HoldStage.isHeld_iff]

theorem Sound.guards (h : Sound s) : Guards s := by
  have hok : ∀p∈s.entries,EntryOk s p.2 := fun p hp => h.pool.entry p.2 (h.dict.used p hp).1
  have husers : ∀p∈s.entries,(s.entry p.2).users=tally (wants p.1) s.holds s.nextHold := by
    intro p hp
    rw [(hok p hp).users]
    exact tally_congr_check _ _ _ _ fun i _ => h.wants_eq hp i
  have hdepth : ∀p∈s.entries,(s.entry p.2).depth=tally (owns p.1) s.holds s.nextHold := by
    intro p hp
    rw [(hok p hp).depth]
    exact tally_congr_check _ _ _ _ fun i _ => h.owns_eq hp i
  have howner : ∀p∈s.entries,∀i c,s.holds i=some c → c.key=p.1 → c.stage=.held →
      (s.entry p.2).owner=some c.task := by
    intro p hp i c hi hk hc
    apply (hok p hp).owner i c hi
    rw [← hi,h.owns_eq hp,hi]
    exact owns_iff.mpr ⟨hk,hc⟩
  refine ⟨?_,fun p hp task => ⟨fun ho => ?_,?_⟩,hdepth,husers,fun key => ⟨?_,fun hpos => ?_⟩,h.dict.keys,
    h.dict.small,fun hend => ?_,fun p hp => (hok p hp).fair.awake,h.pool.faultless⟩
  · intro i j c d hi hj hc hd hk
    have hmem := h.dict.active i c hi (HoldStage.isActive_of_held hc)
    have h1 := howner _ hmem i c hi rfl hc
    have h2 := howner _ hmem j d hj hk.symm hd
    exact Option.some.inj (h1.symm.trans h2)
  · -- an owner is one of the calls that the depth counts
    have hne : (s.entry p.2).depth≠0 := by
      intro hz
      rw [(hok p hp).owned.mpr hz] at ho
      cases ho
    rw [hdepth p hp,Ne,tally_eq_zero] at hne
    push Not at hne
    obtain ⟨i,-,hi⟩ := hne
    cases hc : s.holds i with
    | none =>
      rw [hc] at hi
      exact absurd rfl hi
    | some c =>
      rw [hc] at hi
      obtain ⟨hk,hheld⟩ := owns_iff.mp ((Bool.not_eq_false _).mp hi)
      refine ⟨i,c,hc,hk,hheld,?_⟩
      exact Option.some.inj ((howner p hp i c hc hk hheld).symm.trans ho)
  · rintro ⟨i,c,hi,hk,hc,rfl⟩
    exact howner p hp i c hi hk hc
  · rintro ⟨e,he⟩
    rw [← husers (key,e) he]
    exact (h.dict.used (key,e) he).2 (Option.some_ne_none _)
  · have hne : tally (wants key) s.holds s.nextHold≠0 := Nat.ne_of_gt hpos
    rw [Ne,tally_eq_zero] at hne
    push Not at hne
    obtain ⟨i,-,hi⟩ := hne
    cases hc : s.holds i with
    | none =>
      rw [hc] at hi
      exact absurd rfl hi
    | some c =>
      rw [hc] at hi
      simp only [wants,Ne,Bool.not_eq_false,Bool.and_eq_true,decide_eq_true_eq] at hi
      exact ⟨c.entry,hi.1 ▸ h.dict.active i c hc hi.2⟩
  · apply List.eq_nil_iff_forall_not_mem.mpr
    intro p hp
    have hpos := (h.dict.used p hp).2 (Option.some_ne_none _)
    rw [husers p hp] at hpos
    have hzero : tally (wants p.1) s.holds s.nextHold=0 := by
      apply (tally_eq_zero _ _ _).mpr
      intro i _
      cases hc : s.holds i with
      | none => rfl
      | some c => simp [wants,hend i c hc,HoldStage.isActive]
    omega

/-- In every run of the pool its contract holds. -/
theorem keyed_locks_guard (h : Reach AsyncKeyedLockPool.step Free Created s) : Guards s := by
  have hsound : Sound s := by
    apply h.invariant
    · rintro s ⟨maxKeys,maxKeyLength,rfl⟩
      exact ⟨⟨nofun,nofun,rfl⟩,⟨nofun,nofun,.nil,.nil,Nat.zero_le _⟩⟩
    · intro s a t hs _ hstep
      exact step_sound a hs hstep
  exact hsound.guards

end

/-- A task takes a key twice; another one waits, is granted the key, and is cancelled before it
resumes: then the entry is gone. -/
theorem keyed_locks_guard_cancelled : ∃s : AsyncKeyedLockPool Nat,Guards s∧s.entries=[]∧s.nextHold=3 := by
  have hrun : (execute AsyncKeyedLockPool.step (new 1 8 : AsyncKeyedLockPool Nat)
      [.enter 0 7 1,.enter 0 7 1,.enter 1 7 1,.exit 1,.exit 0,.cancel 2,.resume 2]).any
      (fun s => s.entries.isEmpty&&s.nextHold=3)=true := by decide
  obtain ⟨s,hs,hend⟩ := (Option.any_eq_true _ _).mp hrun
  simp only [Bool.and_eq_true,List.isEmpty_iff,decide_eq_true_eq] at hend
  have hreach : Reach AsyncKeyedLockPool.step Free Created s :=
    Reach.execute _ (fun _ _ _ => trivial) (.start ⟨1,8,rfl⟩) hs
  exact ⟨s,keyed_locks_guard hreach,hend⟩

end XiaoQing.Sessions
