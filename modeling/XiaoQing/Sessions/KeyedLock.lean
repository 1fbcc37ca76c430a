import XiaoQing.Framework.Table

namespace XiaoQing.Sessions

open Function (update update_idem update_of_ne update_self)

open Framework

/-- An `_Entry` of the pool. -/
structure LockEntry where
  locked : Bool
  users : Nat
  owner : Option Nat
  depth : Nat

/-- `AsyncKeyedLockPool`; entries are numbered objects, `activeKeys` is the size of the dictionary
and `faults` records the internal errors. -/
structure LockPool (κ : Type) where
  entries : κ → Option Nat
  locks : Nat → LockEntry
  nextLock : Nat
  activeKeys : Nat
  maxKeys : Nat
  maxKeyLength : Nat
  faults : List String

/-- What a task does with the pool: nothing, wait for the lock of a key, or hold it. -/
inductive LockUse (κ : Type)
  | none
  | waiting (key : κ) (entry : Nat)
  | holding (key : κ) (entry : Nat)

variable {κ : Type}

def LockUse.touches (e : Nat) : LockUse κ → Bool
  | .none => false
  | .waiting _ entry => entry=e
  | .holding _ entry => entry=e

namespace LockPool

def setLock (p : LockPool κ) (e : Nat) (entry : LockEntry) : LockPool κ :=
  {p with locks := update p.locks e entry}

def acquire (p : LockPool κ) (t e : Nat) : LockPool κ :=
  p.setLock e {p.locks e with locked := true,owner := some t,depth := 1}

def unlock (p : LockPool κ) (e : Nat) : LockPool κ :=
  p.setLock e {p.locks e with locked := false,owner := .none,depth := 0}

variable [DecidableEq κ]

/-- `hold` up to the lock: the entry, and whether the task owns it already; `none` when the call is
refused. -/
def hold (p : LockPool κ) (keyLength : Nat) (t : Nat) (key : κ) : Option (LockPool κ × Nat × Bool) :=
  if p.maxKeyLength < keyLength then .none
  else
    match p.entries key with
    | some e =>
      let entry := p.locks e
      let reentrant := entry.owner=some t
      let depth := if reentrant then entry.depth+1 else entry.depth
      some (p.setLock e {entry with users := entry.users+1,depth := depth},e,reentrant)
    | .none =>
      if p.maxKeys ≤ p.activeKeys then .none
      else some ({p.setLock p.nextLock ⟨false,1,.none,0⟩ with
        entries := update p.entries key (some p.nextLock)
        nextLock := p.nextLock+1
        activeKeys := p.activeKeys+1},p.nextLock,false)

/-- The end of `hold`: one user less, and an entry nobody uses is dropped. -/
def leave (p : LockPool κ) (key : κ) (e : Nat) : LockPool κ :=
  let entry := {p.locks e with users := (p.locks e).users-1}
  let p := p.setLock e entry
  if entry.users≠0 then p
  else if entry.owner≠.none ∨ entry.depth≠0 ∨ entry.locked then
    {p with faults := "idle keyed lock entry still has an owner"::p.faults}
  else if p.entries key=some e then
    {p with entries := update p.entries key .none,activeKeys := p.activeKeys-1}
  else p

/-- The `finally` of `hold` after the body has run. -/
def release (p : LockPool κ) (t : Nat) (key : κ) (e : Nat) : LockPool κ :=
  let entry := p.locks e
  if entry.owner≠some t ∨ entry.depth=0 then
    {p with faults := "keyed lock released by a non-owner task"::p.faults}
  else if entry.depth=1 then (p.unlock e).leave key e
  else (p.setLock e {entry with depth := entry.depth-1}).leave key e

end LockPool

open LockPool

/-- The users of an entry are counted, and it is locked exactly while one of them holds it. -/
structure PoolInv (p : LockPool κ) (use : Nat → LockUse κ) (n : Nat) : Prop where
  counted : ∀e<p.nextLock,(p.locks e).users=tally (LockUse.touches e) use n
  current : ∀t key e,use t=.waiting key e ∨ use t=.holding key e → t < n ∧ p.entries key=some e
  known : ∀key e,p.entries key=some e → e < p.nextLock
  held : ∀t key e,use t=.holding key e →
    (p.locks e).owner=some t ∧ (p.locks e).depth=1 ∧ (p.locks e).locked=true
  free : ∀e<p.nextLock,(∀t key,use t≠.holding key e) →
    (p.locks e).owner=none ∧ (p.locks e).depth=0 ∧ (p.locks e).locked=false
  faultless : p.faults=[]

section

variable {p q : LockPool κ} {use : Nat → LockUse κ} {n t u e f : Nat} {key : κ}

theorem LockUse.touches_iff {use : LockUse κ} :
    use.touches e=true ↔ ∃key,use=.waiting key e ∨ use=.holding key e := by
  cases use <;> simp [LockUse.touches]

theorem PoolInv.exclusive (h : PoolInv p use n) (ht : use t=.holding key e)
    (hu : use u=.holding key f) : t=u ∧ e=f := by
  have he := (h.current t key e (.inr ht)).2
  have hf := (h.current u key f (.inr hu)).2
  have hef : e=f := Option.some.inj (he.symm.trans hf)
  subst hef
  exact ⟨Option.some.inj ((h.held t key e ht).1.symm.trans (h.held u key e hu).1),rfl⟩

theorem PoolInv.lt_nextLock (h : PoolInv p use n)
    (ht : use t=.waiting key e ∨ use t=.holding key e) : e < p.nextLock :=
  h.known key e (h.current t key e ht).2

theorem PoolInv.not_owner (h : PoolInv p use n) (he : e < p.nextLock)
    (ht : ∀key,use t≠.holding key e) : (p.locks e).owner≠some t := by
  intro howner
  by_cases hheld : ∃u key,use u=.holding key e
  · obtain ⟨u,key,hu⟩ := hheld
    have hut : u=t := Option.some.inj ((h.held u key e hu).1.symm.trans howner)
    exact ht key (hut ▸ hu)
  · push Not at hheld
    rw [(h.free e he hheld).1] at howner
    cases howner

theorem PoolInv.setLock (h : PoolInv p use n) (he : e < p.nextLock) (ht : t < n) {entry : LockEntry}
    {b : LockUse κ} (hother : ∀f,f≠e → (use t).touches f=false ∧ b.touches f=false)
    (husers : entry.users+((use t).touches e).toNat=(p.locks e).users+(b.touches e).toNat)
    (hcurrent : ∀key f,b=.waiting key f ∨ b=.holding key f → p.entries key=some f)
    (hheld : ∀u key,update use t b u=.holding key e →
      entry.owner=some u ∧ entry.depth=1 ∧ entry.locked=true)
    (hfree : (∀u key,update use t b u≠.holding key e) →
      entry.owner=none ∧ entry.depth=0 ∧ entry.locked=false) :
    PoolInv (p.setLock e entry) (update use t b) n := by
  have hsame : ∀f,f≠e → ∀u key,update use t b u=.holding key f ↔ use u=.holding key f := by
    intro f hf u key
    by_cases hu : u=t
    · subst hu
      rw [update_self]
      obtain ⟨hold,hnew⟩ := hother f hf
      constructor
      · rintro rfl
        simp [LockUse.touches] at hnew
      · intro hu
        rw [hu] at hold
        simp [LockUse.touches] at hold
    · rw [update_of_ne hu]
  refine ⟨?_,?_,h.known,?_,?_,h.faultless⟩
  · intro f hf
    have htally := tally_update (LockUse.touches f) use n t b ht
    by_cases hfe : f=e
    · subst hfe
      have hcount := h.counted f hf
      simp only [LockPool.setLock,update_self]
      omega
    · obtain ⟨hold,hnew⟩ := hother f hfe
      rw [hold,hnew] at htally
      simp only [LockPool.setLock,update_of_ne hfe]
      rw [h.counted f hf]
      omega
  · intro u key f hu
    by_cases hut : u=t
    · subst hut
      rw [update_self] at hu
      exact ⟨ht,hcurrent key f hu⟩
    · rw [update_of_ne hut] at hu
      exact h.current u key f hu
  · intro u key f hu
    by_cases hfe : f=e
    · subst hfe
      simp only [LockPool.setLock,update_self]
      exact hheld u key hu
    · simp only [LockPool.setLock,update_of_ne hfe]
      exact h.held u key f ((hsame f hfe u key).mp hu)
  · intro f hf hnone
    by_cases hfe : f=e
    · subst hfe
      simp only [LockPool.setLock,update_self]
      exact hfree hnone
    · simp only [LockPool.setLock,update_of_ne hfe]
      exact h.free f hf (fun u key hu => hnone u key ((hsame f hfe u key).mpr hu))

theorem touches_waiting_ne (hf : f≠e) : (LockUse.waiting key e).touches f=false := by
  simp [LockUse.touches,Ne.symm hf]

theorem touches_holding_ne (hf : f≠e) : (LockUse.holding key e).touches f=false := by
  simp [LockUse.touches,Ne.symm hf]

theorem acquire_inv (h : PoolInv p use n) (ht : use t=.waiting key e)
    (hfree : (p.locks e).locked=false) :
    PoolInv (p.acquire t e) (update use t (.holding key e)) n := by
  have he := h.lt_nextLock (.inl ht)
  obtain ⟨htn,hentry⟩ := h.current t key e (.inl ht)
  apply h.setLock he htn
  · intro f hf
    rw [ht]
    exact ⟨touches_waiting_ne hf,touches_holding_ne hf⟩
  · simp [ht,LockUse.touches]
  · rintro k f (hb | hb)
    · cases hb
    · cases hb
      exact hentry
  · intro u k hu
    by_cases hut : u=t
    · subst hut
      exact ⟨rfl,rfl,rfl⟩
    · rw [update_of_ne hut] at hu
      rw [(h.held u k e hu).2.2] at hfree
      cases hfree
  · intro hnone
    exact absurd (update_self t (LockUse.holding key e) use) (hnone t key)

theorem unlock_inv (h : PoolInv p use n) (ht : use t=.holding key e) :
    PoolInv (p.unlock e) (update use t (.waiting key e)) n := by
  have he := h.lt_nextLock (.inr ht)
  obtain ⟨htn,hentry⟩ := h.current t key e (.inr ht)
  apply h.setLock he htn
  · intro f hf
    rw [ht]
    exact ⟨touches_holding_ne hf,touches_waiting_ne hf⟩
  · simp [ht,LockUse.touches]
  · rintro k f (hb | hb)
    · cases hb
      exact hentry
    · cases hb
  · intro u k hu
    by_cases hut : u=t
    · subst hut
      rw [update_self] at hu
      cases hu
    · rw [update_of_ne hut] at hu
      have hsame := (h.held u k e hu).1.symm.trans (h.held t key e ht).1
      exact absurd (Option.some.inj hsame) hut
  · exact fun _ => ⟨rfl,rfl,rfl⟩

theorem PoolInv.unborn (h : PoolInv p use n) : use n=.none := by
  cases hn : use n with
  | none => rfl
  | waiting k f => exact absurd (h.current n k f (.inl hn)).1 (Nat.lt_irrefl n)
  | holding k f => exact absurd (h.current n k f (.inr hn)).1 (Nat.lt_irrefl n)

theorem PoolInv.grow (h : PoolInv p use n) : PoolInv p use (n+1) := by
  have hnone : ∀f,(use n).touches f=false := by
    intro f
    rw [h.unborn]
    rfl
  refine ⟨?_,?_,h.known,h.held,h.free,h.faultless⟩
  · intro f hf
    rw [tally_succ,hnone f]
    exact h.counted f hf
  · intro u k f hu
    obtain ⟨hun,hk⟩ := h.current u k f hu
    exact ⟨by omega,hk⟩

variable [DecidableEq κ]

theorem hold_inv {keyLength : Nat} {reentrant : Bool} (h : PoolInv p use n) (htn : t < n)
    (ht : use t=.none) (hold : p.hold keyLength t key=some (q,e,reentrant)) :
    reentrant=false ∧ PoolInv q (update use t (.waiting key e)) n := by
  have hnot : ∀k f,use t≠.holding k f := by
    intro k f hk
    rw [ht] at hk
    cases hk
  unfold LockPool.hold at hold
  split at hold
  · cases hold
  · split at hold
    · rename_i f hf
      have hflt := h.known key f hf
      have howner := h.not_owner hflt (fun k => hnot k f)
      simp only [howner,decide_false,if_false] at hold
      cases hold
      refine ⟨rfl,?_⟩
      apply h.setLock hflt htn
      · intro g hg
        rw [ht]
        exact ⟨rfl,touches_waiting_ne hg⟩
      · simp [ht,LockUse.touches]
      · rintro k g (hb | hb)
        · cases hb
          exact hf
        · cases hb
      · intro u k hu
        by_cases hut : u=t
        · subst hut
          rw [update_self] at hu
          cases hu
        · rw [update_of_ne hut] at hu
          exact h.held u k e hu
      · intro hnone
        apply h.free e hflt
        intro u k hu
        by_cases hut : u=t
        · exact hnot k e (hut ▸ hu)
        · exact hnone u k (by rw [update_of_ne hut,hu])
    · rename_i hnew
      split at hold
      · cases hold
      · cases hold
        refine ⟨rfl,?_⟩
        have hfresh : ∀u k g,use u=.waiting k g ∨ use u=.holding k g → g≠p.nextLock ∧ k≠key := by
          intro u k g hu
          have hg := h.lt_nextLock hu
          have hk := (h.current u k g hu).2
          refine ⟨by omega,?_⟩
          rintro rfl
          rw [hnew] at hk
          cases hk
        refine ⟨?_,?_,?_,?_,?_,h.faultless⟩
        · intro f hf
          have htally := tally_update (LockUse.touches f) use n t (.waiting key p.nextLock) htn
          by_cases hfe : f=p.nextLock
          · subst hfe
            have hzero : tally (LockUse.touches p.nextLock) use n=0 := by
              rw [tally_eq_zero]
              intro u _
              by_contra htouch
              obtain ⟨k,hk⟩ := LockUse.touches_iff.mp (by simpa using htouch)
              exact (hfresh u k _ hk).1 rfl
            rw [hzero,ht] at htally
            simp only [LockPool.setLock,update_self]
            simpa [LockUse.touches] using htally.symm
          · rw [ht,touches_waiting_ne hfe] at htally
            simp only [LockPool.setLock,update_of_ne hfe] at hf ⊢
            rw [h.counted f (by omega)]
            simpa [LockUse.touches] using htally.symm
        · intro u k f hu
          by_cases hut : u=t
          · subst hut
            rw [update_self] at hu
            rcases hu with hu | hu
            · cases hu
              exact ⟨htn,by simp⟩
            · cases hu
          · rw [update_of_ne hut] at hu
            obtain ⟨hun,hk⟩ := h.current u k f hu
            exact ⟨hun,by simpa [update_of_ne (hfresh u k f hu).2] using hk⟩
        · intro k f hf
          by_cases hk : k=key
          · subst hk
            simp only [update_self,Option.some.injEq] at hf
            rw [←hf]
            exact Nat.lt_succ_self _
          · have hf : p.entries k=some f := by simpa [update_of_ne hk] using hf
            have hlt := h.known k f hf
            exact Nat.lt_succ_of_lt hlt
        · intro u k f hu
          by_cases hut : u=t
          · subst hut
            rw [update_self] at hu
            cases hu
          · rw [update_of_ne hut] at hu
            simp only [LockPool.setLock,update_of_ne (hfresh u k f (.inr hu)).1]
            exact h.held u k f hu
        · intro f hf hnone
          by_cases hfe : f=p.nextLock
          · subst hfe
            simp [LockPool.setLock]
          · simp only [LockPool.setLock,update_of_ne hfe] at hf ⊢
            apply h.free f (by omega)
            intro u k hu
            by_cases hut : u=t
            · exact hnot k f (hut ▸ hu)
            · exact hnone u k (by rw [update_of_ne hut,hu])

theorem PoolInv.drop (h : PoolInv p use n) (hnone : ∀u,(use u).touches e=false)
    (hentry : p.entries key=some e) (active : Nat) :
    PoolInv {p with entries := update p.entries key none,activeKeys := active} use n := by
  refine ⟨h.counted,?_,?_,h.held,h.free,h.faultless⟩
  · intro u k f hu
    obtain ⟨hun,hk⟩ := h.current u k f hu
    refine ⟨hun,?_⟩
    have hne : k≠key := by
      rintro rfl
      have hfe : f=e := Option.some.inj (hk.symm.trans hentry)
      subst hfe
      have htouch := hnone u
      rw [LockUse.touches_iff.mpr ⟨k,hu⟩] at htouch
      cases htouch
    simpa [update_of_ne hne] using hk
  · intro k f hf
    by_cases hk : k=key
    · subst hk
      simp at hf
    · exact h.known k f (by simpa [update_of_ne hk] using hf)

theorem leave_inv (h : PoolInv p use n) (ht : use t=.waiting key e) :
    PoolInv (p.leave key e) (update use t .none) n := by
  have he := h.lt_nextLock (.inl ht)
  obtain ⟨htn,hentry⟩ := h.current t key e (.inl ht)
  have hcount := h.counted e he
  have htally := tally_update (LockUse.touches e) use n t .none htn
  have htouch : (use t).touches e=true := LockUse.touches_iff.mpr ⟨key,.inl ht⟩
  have hnot : ∀u k,update use t .none u=.holding k e ↔ use u=.holding k e := by
    intro u k
    by_cases hut : u=t
    · subst hut
      rw [update_self,ht]
      simp
    · rw [update_of_ne hut]
  rw [htouch] at htally
  simp only [LockUse.touches,Bool.toNat_true,Bool.toNat_false] at htally
  have hinv : PoolInv (p.setLock e {p.locks e with users := (p.locks e).users-1})
      (update use t .none) n := by
    apply h.setLock he htn
    · intro f hf
      rw [ht]
      exact ⟨touches_waiting_ne hf,rfl⟩
    · rw [htouch]
      simp only [LockUse.touches,Bool.toNat_true,Bool.toNat_false]
      omega
    · rintro k f (hb | hb) <;> cases hb
    · intro u k hu
      exact h.held u k e ((hnot u k).mp hu)
    · intro hnone
      exact h.free e he (fun u k hu => hnone u k ((hnot u k).mpr hu))
  unfold LockPool.leave
  dsimp only
  split
  · exact hinv
  · rename_i hzero
    have hidle : ∀u,(update use t .none u).touches e=false := by
      intro u
      by_contra hu
      obtain ⟨k,hk⟩ := LockUse.touches_iff.mp (by simpa using hu)
      have hun := (hinv.current u k e hk).1
      have hpos := tally_pos (LockUse.touches e) (update use t .none) n u hun
        (by simpa using hu)
      omega
    have hfree := h.free e he (by
      intro u k hu
      have htouched := hidle u
      rw [LockUse.touches_iff.mpr ⟨k,.inr ((hnot u k).mpr hu)⟩] at htouched
      cases htouched)
    rw [if_neg (by simp [hfree])]
    split
    · exact hinv.drop hidle hentry _
    · exact hinv

theorem release_inv (h : PoolInv p use n) (ht : use t=.holding key e) :
    PoolInv (p.release t key e) (update use t .none) n := by
  obtain ⟨howner,hdepth,_⟩ := h.held t key e ht
  unfold LockPool.release
  dsimp only
  rw [if_neg (by simp [howner,hdepth]),if_pos hdepth]
  have hself : update use t (.waiting key e) t=.waiting key e := update_self t _ _
  have hleft := leave_inv (unlock_inv h ht) hself
  rw [update_idem] at hleft
  exact hleft

end

end XiaoQing.Sessions
