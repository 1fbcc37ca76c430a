import XiaoQing.Sessions.StoreSteps

namespace XiaoQing.Sessions

open Framework SessionStore SessionSystem

variable {key : SessionKey}

def TaskPhase.use : TaskPhase → LockUse SessionKey
  | .waiting key e _ _ _ => .waiting key e
  | .transacting key e _ _ _ => .holding key e
  | _ => .none

namespace SessionSystem

def lockUse (s : SessionSystem) (t : Nat) : LockUse SessionKey := (s.tasks t).use

structure SessionInv (s : SessionSystem) : Prop where
  pool : PoolInv s.pool s.lockUse s.nextTask
  wf : StoreWF s.store
  serial : ∀key,Replays (serialStep key) none (s.store.history key) (s.store.view key)
  waiting : ∀t key e reentrant call rest,s.tasks t=.waiting key e reentrant call rest →
    reentrant=false
  transacting : ∀t key e c now cancelled,s.tasks t=.transacting key e c now cancelled →
    c < s.nextTask ∧ ∃tx,s.transactions c=some (key,tx) ∧ TransactionInv s.store key now tx

variable {s : SessionSystem} {t : Nat} {phase : TaskPhase}

theorem lockUse_update (s : SessionSystem) (t : Nat) (phase : TaskPhase) :
    (fun u => (Function.update s.tasks t phase u).use)=Function.update s.lockUse t phase.use := by
  funext u
  by_cases hu : u=t
  · subst hu
    simp
  · simp [lockUse,hu]

def Aside : TaskPhase → Prop
  | .waiting _ _ _ _ _ => False
  | .transacting _ _ _ _ _ => False
  | _ => True

theorem Aside.use (h : Aside phase) : phase.use=.none := by
  cases phase with
  | waiting key e reentrant call rest => exact h.elim
  | transacting key e c now cancelled => exact h.elim
  | _ => rfl

variable {q : LockPool SessionKey}

theorem SessionInv.setTask (h : SessionInv s)
    (hpool : PoolInv q (Function.update s.lockUse t phase.use) s.nextTask)
    (hwaiting : ∀key e reentrant call rest,phase=.waiting key e reentrant call rest →
      reentrant=false)
    (htransacting : ∀key e c now cancelled,phase=.transacting key e c now cancelled →
      c < s.nextTask ∧ ∃tx,s.transactions c=some (key,tx) ∧ TransactionInv s.store key now tx) :
    SessionInv {s.setTask t phase with pool := q} := by
  refine ⟨?_,h.wf,h.serial,?_,?_⟩
  · change PoolInv q (fun u => (Function.update s.tasks t phase u).use) s.nextTask
    rw [lockUse_update]
    exact hpool
  · intro u key e reentrant call rest hu
    by_cases hut : u=t
    · subst hut
      simp only [SessionSystem.setTask,Function.update_self] at hu
      exact hwaiting key e reentrant call rest hu
    · simp only [SessionSystem.setTask,Function.update_of_ne hut] at hu
      exact h.waiting u key e reentrant call rest hu
  · intro u key e c now cancelled hu
    by_cases hut : u=t
    · subst hut
      simp only [SessionSystem.setTask,Function.update_self] at hu
      exact htransacting key e c now cancelled hu
    · simp only [SessionSystem.setTask,Function.update_of_ne hut] at hu
      exact h.transacting u key e c now cancelled hu

theorem SessionInv.aside (h : SessionInv s) (hphase : Aside phase)
    (hpool : PoolInv q (Function.update s.lockUse t .none) s.nextTask) :
    SessionInv {s.setTask t phase with pool := q} := by
  apply h.setTask
  · rw [hphase.use]
    exact hpool
  · rintro key e reentrant call rest rfl
    exact hphase.elim
  · rintro key e c now cancelled rfl
    exact hphase.elim

theorem SessionInv.idle (h : SessionInv s) (hold : Aside (s.tasks t)) (hphase : Aside phase) :
    SessionInv (s.setTask t phase) := by
  have hpool : PoolInv s.pool (Function.update s.lockUse t .none) s.nextTask := by
    have hsame : s.lockUse t=.none := hold.use
    rw [←hsame,Function.update_eq_self]
    exact h.pool
  exact h.aside hphase hpool

theorem SessionInv.hold (h : SessionInv s) (htn : t < s.nextTask) (ht : Aside (s.tasks t))
    (key : SessionKey) (call : Call) (rest : Option (List SessionKey)) :
    SessionInv (s.hold t key call rest) := by
  unfold SessionSystem.hold
  split
  · exact h.idle ht trivial
  · rename_i q e reentrant hhold
    obtain ⟨hreentrant,hpool⟩ := hold_inv h.pool htn ht.use hhold
    apply h.setTask hpool
    · intro k f r c rs hp
      cases hp
      exact hreentrant
    · intro k f c now cancelled hp
      cases hp

theorem SessionInv.logged (h : SessionInv s) {st : SessionStore} {op : SessionOp}
    {result : SessionResult}
    {transactions : Nat → Option (SessionKey × Transaction)}
    (hlogged : Logged key s.store st op result) (hphase : Aside phase)
    (hpool : PoolInv q (Function.update s.lockUse t .none) s.nextTask)
    (hothers : ∀u k e c now cancelled,u≠t → s.tasks u=.transacting k e c now cancelled →
      k≠key ∧ transactions c=s.transactions c) :
    SessionInv {s with
      store := st
      pool := q
      transactions := transactions
      tasks := Function.update s.tasks t phase} := by
  refine ⟨?_,hlogged.step.wf,?_,?_,?_⟩
  · change PoolInv q (fun u => (Function.update s.tasks t phase u).use) s.nextTask
    rw [lockUse_update,hphase.use]
    exact hpool
  · intro k
    by_cases hk : k=key
    · subst hk
      rw [hlogged.history]
      exact (h.serial k).snoc hlogged.serial
    · dsimp only
      rw [hlogged.step.history k hk,hlogged.step.view k hk]
      exact h.serial k
  · intro u k e reentrant call rest hu
    by_cases hut : u=t
    · subst hut
      simp only [Function.update_self] at hu
      subst hu
      exact hphase.elim
    · simp only [Function.update_of_ne hut] at hu
      exact h.waiting u k e reentrant call rest hu
  · intro u k e c now cancelled hu
    by_cases hut : u=t
    · subst hut
      simp only [Function.update_self] at hu
      subst hu
      exact hphase.elim
    · simp only [Function.update_of_ne hut] at hu
      obtain ⟨hkey,hsame⟩ := hothers u k e c now cancelled hut hu
      obtain ⟨hc,tx,htx,hinv⟩ := h.transacting u k e c now cancelled hu
      exact ⟨hc,tx,hsame.trans htx,hinv.frame hlogged.step hkey⟩

theorem aside_after (call : Call) (rest : Option (List SessionKey)) :
    Aside (match rest with
      | none => .idle
      | some keys => .between call keys) := by
  cases rest <;> trivial

theorem SessionInv.register (h : SessionInv s) (tx : SessionKey × Transaction) :
    SessionInv {s.setTask s.nextTask .callback with
      nextTask := s.nextTask+1
      transactions := Function.update s.transactions s.nextTask (some tx)} := by
  have hsame : Function.update s.lockUse s.nextTask .none=s.lockUse := by
    rw [←h.pool.unborn,Function.update_eq_self]
  have hcallback : Aside .callback := trivial
  have hborn : SessionInv (s.setTask s.nextTask .callback) :=
    h.aside hcallback (hsame.symm ▸ h.pool)
  refine ⟨?_,h.wf,h.serial,hborn.waiting,?_⟩
  · exact hborn.pool.grow
  · intro u key e c now cancelled hu
    obtain ⟨hc,tx',htx,hinv⟩ := hborn.transacting u key e c now cancelled hu
    have hc : c < s.nextTask := hc
    refine ⟨Nat.lt_succ_of_lt hc,tx',?_,hinv⟩
    simp only [Function.update_of_ne (Nat.ne_of_lt hc)]
    exact htx

theorem SessionInv.enter (h : SessionInv s) {e : Nat} {call : Call}
    {rest : Option (List SessionKey)} (now touched : Int)
    (ht : s.tasks t=.waiting key e false call rest) (hfree : (s.pool.locks e).locked=false) :
    SessionInv ({s with pool := s.pool.acquire t e}.body t key e now touched call rest) := by
  have huse : s.lockUse t=.waiting key e := by simp [lockUse,ht,TaskPhase.use]
  have hacquired := acquire_inv h.pool huse hfree
  have hself : Function.update s.lockUse t (.holding key e) t=.holding key e :=
    Function.update_self t _ _
  have hreleased := release_inv hacquired hself
  rw [Function.update_idem] at hreleased
  have hothers : ∀u k f c now cancelled,u≠t → s.tasks u=.transacting k f c now cancelled →
      k≠key ∧ s.transactions c=s.transactions c := by
    intro u k f c now' cancelled hut hu
    refine ⟨?_,rfl⟩
    rintro rfl
    have hholds : Function.update s.lockUse t (.holding k e) u=.holding k f := by
      rw [Function.update_of_ne hut]
      simp [lockUse,hu,TaskPhase.use]
    exact hut (hacquired.exclusive hholds (Function.update_self t _ _)).1
  have hlogged : ∀{st op result},Logged key s.store st op result →
      SessionInv ({s with pool := s.pool.acquire t e,store := st}.finish t key e call rest) := by
    intro st op result hlog
    exact h.logged hlog (aside_after call rest) hreleased hothers
  have hperform : call≠.update → SessionInv ({s with
      pool := s.pool.acquire t e
      store := s.store.perform key now touched call}.finish t key e call rest) := by
    intro hcall
    obtain ⟨op,result,hlog⟩ := perform_logged h.wf key now touched hcall
    exact hlogged hlog
  cases call with
  | update =>
    simp only [SessionSystem.body]
    cases hopen : s.store.openUpdate key now with
    | mk st r =>
      rcases openUpdate_spec h.wf key now hopen with ⟨rfl,op,result,hlog⟩ | ⟨o,working,rfl,rfl,htx⟩
      · exact hlogged hlog
      · have hborn := h.register (key,⟨o,⟨some working,false⟩,[],[]⟩)
        have huses : Function.update s.lockUse s.nextTask .none=s.lockUse := by
          rw [←h.pool.unborn,Function.update_eq_self]
        apply hborn.setTask (q := s.pool.acquire t e)
        · change PoolInv _ (Function.update (fun u => (Function.update s.tasks s.nextTask .callback u).use)
            t (.holding key e)) _
          rw [lockUse_update]
          change PoolInv _ (Function.update (Function.update s.lockUse s.nextTask .none) t _) _
          rw [huses]
          exact hacquired.grow
        · intro k f r c rs hp
          cases hp
        · intro k f c now' cancelled hp
          cases hp
          exact ⟨Nat.lt_succ_self _,_,Function.update_self _ _ _,htx⟩
  | create session => exact hperform (by simp)
  | get => exact hperform (by simp)
  | peek => exact hperform (by simp)
  | delete => exact hperform (by simp)
  | existing => exact hperform (by simp)
  | cleanup => exact hperform (by simp)
  | clear plugin => exact hperform (by simp)

theorem SessionInv.settle (h : SessionInv s) {e c : Nat} {now : Int}
    {cancelled : Bool} {owned : SessionKey} {tx : Transaction} (ending : Ending) (committed : Int)
    (ht : s.tasks t=.transacting key e c now cancelled) (htx : s.transactions c=some (owned,tx)) :
    SessionInv (s.endUpdate t key e c now tx ending committed) := by
  obtain ⟨hc,tx',htx',hinv⟩ := h.transacting t key e c now cancelled ht
  rw [htx] at htx'
  cases htx'
  have huse : s.lockUse t=.holding key e := by simp [lockUse,ht,TaskPhase.use]
  have hothers : ∀u k f d now cancelled,u≠t → s.tasks u=.transacting k f d now cancelled →
      k≠key := by
    intro u k f d now' cancelled' hut hu
    rintro rfl
    have hholds : s.lockUse u=.holding k f := by simp [lockUse,hu,TaskPhase.use]
    exact hut (h.pool.exclusive hholds huse).1
  obtain ⟨op,result,hlogged⟩ := closeUpdate_logged h.wf hinv ending committed
  apply h.logged hlogged (aside_after .update none) (release_inv h.pool huse)
  intro u k f d now' cancelled' hut hu
  have hk := hothers u k f d now' cancelled' hut hu
  refine ⟨hk,?_⟩
  have hd : d≠c := by
    rintro rfl
    obtain ⟨_,tx',htx',_⟩ := h.transacting u k f d now' cancelled' hu
    rw [htx] at htx'
    cases htx'
    exact hk rfl
  exact Function.update_of_ne hd _ _

theorem SessionInv.stage (h : SessionInv s) {c : Nat} {owned : SessionKey} {tx : Transaction}
    (htx : s.transactions c=some (owned,tx)) (stage : Stage) :
    SessionInv {s with transactions := Function.update s.transactions c (some (owned,{tx with
      staged := (tx.staged.apply stage).1
      script := tx.script++[stage]
      replies := tx.replies++[(tx.staged.apply stage).2]}))} := by
  refine ⟨h.pool,h.wf,h.serial,h.waiting,?_⟩
  intro u key e d now cancelled hu
  obtain ⟨hd,tx',htx',hinv⟩ := h.transacting u key e d now cancelled hu
  refine ⟨hd,?_⟩
  by_cases hdc : d=c
  · subst hdc
    rw [htx] at htx'
    cases htx'
    refine ⟨_,Function.update_self _ _ _,hinv.stored,hinv.fresh,?_⟩
    obtain ⟨working,hclone,hrun⟩ := hinv.staged
    refine ⟨working,hclone,?_⟩
    rw [run_snoc,hrun]
  · exact ⟨tx',by simpa only [Function.update_of_ne hdc] using htx',hinv⟩

theorem initial_inv (h : Initial s) : SessionInv s := by
  have huse : ∀t,s.lockUse t=.none := by
    intro t
    simp [lockUse,h.tasks,TaskPhase.use]
  refine ⟨⟨?_,?_,?_,?_,?_,h.faults⟩,⟨?_,?_⟩,?_,?_,?_⟩
  · intro e he
    rw [h.nextLock] at he
    cases he
  · intro t key e ht
    rw [huse] at ht
    rcases ht with ht | ht <;> cases ht
  · intro key e he
    rw [h.entries] at he
    cases he
  · intro t key e ht
    rw [huse] at ht
    cases ht
  · intro e he
    rw [h.nextLock] at he
    cases he
  · intro key o ho
    rw [h.sessions] at ho
    cases ho
  · intro key key' o ho
    rw [h.sessions] at ho
    cases ho
  · intro key
    rw [h.history,view_none (h.sessions key)]
    rfl
  · intro t key e reentrant call rest ht
    rw [h.tasks] at ht
    cases ht
  · intro t key e c now cancelled ht
    rw [h.tasks] at ht
    cases ht

end SessionSystem

end XiaoQing.Sessions
