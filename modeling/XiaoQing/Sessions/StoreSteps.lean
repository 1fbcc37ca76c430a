import XiaoQing.Sessions.SessionManager

namespace XiaoQing.Sessions

open Framework

namespace SessionStore

structure StoreWF (s : SessionStore) : Prop where
  known : ∀key o,s.sessions key=some o → o < s.nextObject
  apart : ∀key key' o,s.sessions key=some o → s.sessions key'=some o → key=key'

structure KeyStep (key : SessionKey) (s t : SessionStore) : Prop where
  wf : StoreWF t
  sessions : ∀k,k≠key → t.sessions k=s.sessions k
  view : ∀k,k≠key → t.view k=s.view k
  history : ∀k,k≠key → t.history k=s.history k

structure Logged (key : SessionKey) (s t : SessionStore) (op : SessionOp) (result : SessionResult) :
    Prop where
  step : KeyStep key s t
  history : t.history key=s.history key++[(op,result)]
  serial : serialStep key (s.view key) op=(t.view key,result)

variable {s t u : SessionStore} {key : SessionKey} {o : Nat} {op : SessionOp} {result : SessionResult}
  {now : Int} {tx : Transaction}

theorem KeyStep.refl (h : StoreWF s) (key : SessionKey) : KeyStep key s s :=
  ⟨h,fun _ _ => rfl,fun _ _ => rfl,fun _ _ => rfl⟩

theorem KeyStep.trans (h : KeyStep key s t) (ht : KeyStep key t u) : KeyStep key s u := by
  refine ⟨ht.wf,?_,?_,?_⟩
  · exact fun k hk => (ht.sessions k hk).trans (h.sessions k hk)
  · exact fun k hk => (ht.view k hk).trans (h.view k hk)
  · exact fun k hk => (ht.history k hk).trans (h.history k hk)

theorem setSession_step (h : StoreWF s) (key : SessionKey) : KeyStep key s (s.setSession key none) := by
  have hsessions : ∀k o,(s.setSession key none).sessions k=some o → s.sessions k=some o := by
    intro k o ho
    by_cases hk : k=key
    · subst hk
      simp [setSession] at ho
    · simpa [setSession,Function.update_of_ne hk] using ho
  refine ⟨⟨?_,?_⟩,?_,?_,fun _ _ => rfl⟩
  · exact fun k o ho => h.known k o (hsessions k o ho)
  · exact fun k k' o ho ho' => h.apart k k' o (hsessions k o ho) (hsessions k' o ho')
  · intro k hk
    simp [setSession,Function.update_of_ne hk]
  · intro k hk
    simp [setSession,view,Function.update_of_ne hk]

@[simp] theorem setSession_view (s : SessionStore) (key : SessionKey) :
    (s.setSession key none).view key=none := by
  simp [setSession,view]

theorem put_step (h : StoreWF s) (key : SessionKey) (session : Session) :
    KeyStep key s (s.put key session) := by
  have hsessions : ∀k o,(s.put key session).sessions k=some o →
      (k=key ∧ o=s.nextObject) ∨ (k≠key ∧ s.sessions k=some o) := by
    intro k o ho
    by_cases hk : k=key
    · subst hk
      simp only [put,Function.update_self,Option.some.injEq] at ho
      exact .inl ⟨rfl,ho.symm⟩
    · exact .inr ⟨hk,by simpa [put,Function.update_of_ne hk] using ho⟩
  refine ⟨⟨?_,?_⟩,?_,?_,fun _ _ => rfl⟩
  · intro k o ho
    change o < s.nextObject+1
    rcases hsessions k o ho with ⟨_,rfl⟩ | ⟨_,hold⟩
    · exact Nat.lt_succ_self _
    · exact Nat.lt_succ_of_lt (h.known k o hold)
  · intro k k' o ho ho'
    rcases hsessions k o ho with ⟨hk,rfl⟩ | ⟨_,hold⟩
    · rcases hsessions k' _ ho' with ⟨hk',_⟩ | ⟨_,hold'⟩
      · exact hk.trans hk'.symm
      · exact absurd (h.known k' _ hold') (Nat.lt_irrefl _)
    · rcases hsessions k' o ho' with ⟨_,rfl⟩ | ⟨_,hold'⟩
      · exact absurd (h.known k _ hold) (Nat.lt_irrefl _)
      · exact h.apart k k' o hold hold'
  · intro k hk
    simp [put,Function.update_of_ne hk]
  · intro k hk
    simp only [put,view,Function.update_of_ne hk]
    cases ho : s.sessions k with
    | none => rfl
    | some o =>
      have hne : o≠s.nextObject := Nat.ne_of_lt (h.known k o ho)
      simp [Function.update_of_ne hne]

@[simp] theorem put_view (s : SessionStore) (key : SessionKey) (session : Session) :
    (s.put key session).view key=some session := by
  simp [put,view]

theorem touch_step (h : StoreWF s) (ho : s.sessions key=some o) (session : Session) :
    KeyStep key s (s.touch o session) := by
  refine ⟨⟨h.known,h.apart⟩,fun _ _ => rfl,?_,fun _ _ => rfl⟩
  intro k hk
  simp only [touch,view]
  cases hk' : s.sessions k with
  | none => rfl
  | some o' =>
    have hne : o'≠o := by
      rintro rfl
      exact hk (h.apart k key o' hk' ho)
    simp [Function.update_of_ne hne]

theorem touch_view (ho : s.sessions key=some o) (session : Session) :
    (s.touch o session).view key=some session := by
  simp [touch,view,ho]

theorem log_step (h : StoreWF s) (key : SessionKey) (op : SessionOp) (result : SessionResult) :
    KeyStep key s (s.log key op result) := by
  refine ⟨⟨h.known,h.apart⟩,fun _ _ => rfl,fun _ _ => rfl,?_⟩
  intro k hk
  simp [log,Function.update_of_ne hk]

@[simp] theorem log_view (s : SessionStore) (key k : SessionKey) (op : SessionOp)
    (result : SessionResult) : (s.log key op result).view k=s.view k := rfl

theorem Logged.of_step (hstep : KeyStep key s t) (hhistory : t.history key=s.history key)
    (hserial : serialStep key (s.view key) op=(t.view key,result)) :
    Logged key s (t.log key op result) op result := by
  refine ⟨hstep.trans (log_step hstep.wf key op result),?_,?_⟩
  · simp [log,hhistory]
  · rw [log_view]
    exact hserial

theorem getActiveLocked_spec (h : StoreWF s) (key : SessionKey) (now : Int) {o : Option Nat}
    (hget : s.getActiveLocked key now=(t,o)) :
    KeyStep key s t ∧ t.history=s.history ∧ t.view key=active now (s.view key) ∧
      t.sessions key=o := by
  unfold getActiveLocked at hget
  split at hget
  · rename_i hnone
    cases hget
    refine ⟨KeyStep.refl h key,rfl,?_,hnone⟩
    simp [view,hnone,active]
  · rename_i o hsome
    split at hget
    · rename_i hexpired
      cases hget
      refine ⟨setSession_step h key,rfl,?_,?_⟩
      · rw [setSession_view]
        simp [view,hsome,active,hexpired]
      · simp [setSession]
    · rename_i hfresh
      cases hget
      refine ⟨KeyStep.refl h key,rfl,?_,hsome⟩
      simp [view,hsome,active,hfresh]

theorem getActiveLocked_some (hget : s.getActiveLocked key now=(t,some o)) :
    t=s ∧ s.sessions key=some o ∧ (s.objects o).isExpired now=false := by
  unfold getActiveLocked at hget
  split at hget
  · cases hget
  · rename_i o hsome
    split at hget
    · cases hget
    · rename_i hfresh
      cases hget
      exact ⟨rfl,hsome,by simpa using hfresh⟩

theorem view_eq (ho : s.sessions key=some o) : s.view key=some (s.objects o) := by
  simp [view,ho]

theorem view_none (ho : s.sessions key=none) : s.view key=none := by
  simp [view,ho]

theorem dropLocked_spec (h : StoreWF s) (key : SessionKey) (drop : Session → Bool) {b : Bool}
    (hdrop : s.dropLocked key drop=(t,b)) :
    KeyStep key s t ∧ t.history=s.history ∧ dropped drop (s.view key)=(t.view key,b) := by
  unfold dropLocked at hdrop
  split at hdrop
  · rename_i hnone
    cases hdrop
    refine ⟨KeyStep.refl h key,rfl,?_⟩
    rw [view_none hnone]
    rfl
  · rename_i o hsome
    rw [view_eq hsome]
    split at hdrop
    · rename_i hgone
      cases hdrop
      refine ⟨setSession_step h key,rfl,?_⟩
      simp [dropped,hgone]
    · rename_i hkept
      cases hdrop
      refine ⟨KeyStep.refl h key,rfl,?_⟩
      simp [dropped,hkept,view_eq hsome]

theorem perform_logged (h : StoreWF s) (key : SessionKey) (now touched : Int) {call : Call}
    (hcall : call≠.update) : ∃op result,Logged key s (s.perform key now touched call) op result := by
  cases call with
  | create session =>
    exact ⟨_,_,Logged.of_step (put_step h key session) rfl (by simp [serialStep])⟩
  | get =>
    obtain ⟨⟨t,o⟩,hget⟩ : ∃r,s.getActiveLocked key now=r := ⟨_,rfl⟩
    obtain ⟨hstep,hhistory,hview,ho⟩ := getActiveLocked_spec h key now hget
    simp only [perform,getLocked,hget]
    cases o with
    | none =>
      refine ⟨_,_,Logged.of_step hstep (by rw [hhistory]) ?_⟩
      simp only [serialStep,←hview]
      rw [view_none ho]
    | some o =>
      refine ⟨_,_,Logged.of_step (hstep.trans (touch_step hstep.wf ho _)) (by simp [touch,hhistory]) ?_⟩
      simp only [serialStep,←hview]
      rw [view_eq ho,touch_view ho]
  | peek =>
    obtain ⟨⟨t,o⟩,hget⟩ : ∃r,s.getActiveLocked key now=r := ⟨_,rfl⟩
    obtain ⟨hstep,hhistory,hview,ho⟩ := getActiveLocked_spec h key now hget
    simp only [perform,hget]
    refine ⟨_,_,Logged.of_step hstep (by rw [hhistory]) ?_⟩
    simp only [serialStep,←hview]
    rw [view,ho]
  | delete =>
    obtain ⟨⟨t,b⟩,hdrop⟩ : ∃r,s.dropLocked key (fun _ => true)=r := ⟨_,rfl⟩
    obtain ⟨hstep,hhistory,hdropped⟩ := dropLocked_spec h key _ hdrop
    simp only [perform,hdrop]
    refine ⟨_,_,Logged.of_step hstep (by rw [hhistory]) ?_⟩
    simp only [serialStep,hdropped]
  | existing =>
    obtain ⟨⟨t,o⟩,hget⟩ : ∃r,s.getActiveLocked key now=r := ⟨_,rfl⟩
    obtain ⟨hstep,hhistory,hview,ho⟩ := getActiveLocked_spec h key now hget
    simp only [perform,hget]
    refine ⟨_,_,Logged.of_step hstep (by rw [hhistory]) ?_⟩
    simp only [serialStep,←hview]
    rw [view,ho,Option.isSome_map]
  | update => exact absurd rfl hcall
  | cleanup =>
    obtain ⟨⟨t,b⟩,hdrop⟩ : ∃r,s.dropLocked key (fun session => session.isExpired now)=r := ⟨_,rfl⟩
    obtain ⟨hstep,hhistory,hdropped⟩ := dropLocked_spec h key _ hdrop
    simp only [perform,hdrop]
    refine ⟨_,_,Logged.of_step hstep (by rw [hhistory]) ?_⟩
    simp only [serialStep,hdropped]
  | clear plugin =>
    obtain ⟨⟨t,b⟩,hdrop⟩ : ∃r,s.dropLocked key (fun session => session.pluginName=plugin)=r :=
      ⟨_,rfl⟩
    obtain ⟨hstep,hhistory,hdropped⟩ := dropLocked_spec h key _ hdrop
    simp only [perform,hdrop]
    refine ⟨_,_,Logged.of_step hstep (by rw [hhistory]) ?_⟩
    simp only [serialStep,hdropped]

/-- What holds of the stored session while its transaction runs: it is the one the working copy was
taken from, and the script leads from that copy to the staged view. -/
structure TransactionInv (s : SessionStore) (key : SessionKey) (now : Int) (tx : Transaction) :
    Prop where
  stored : s.sessions key=some tx.original
  fresh : (s.objects tx.original).isExpired now=false
  staged : ∃working,(s.objects tx.original).clone=.ok working ∧
    (Staged.mk (some working) false).run tx.script=(tx.staged,tx.replies)

theorem TransactionInv.view (h : TransactionInv s key now tx) :
    s.view key=some (s.objects tx.original) := view_eq h.stored

theorem TransactionInv.frame {k : SessionKey} {now : Int} {tx : Transaction}
    (h : TransactionInv s k now tx) (hstep : KeyStep key s t) (hk : k≠key) :
    TransactionInv t k now tx := by
  have hsessions : t.sessions k=some tx.original := (hstep.sessions k hk).trans h.stored
  have hobject : t.objects tx.original=s.objects tx.original := by
    have hview := hstep.view k hk
    rw [view_eq hsessions,view_eq h.stored] at hview
    exact Option.some.inj hview
  refine ⟨hsessions,?_,?_⟩
  · rw [hobject]
    exact h.fresh
  · rw [hobject]
    exact h.staged

theorem run_snoc (staged : Staged) (script : List Stage) (a : Stage) :
    staged.run (script++[a])=
      (((staged.run script).1.apply a).1,(staged.run script).2++[((staged.run script).1.apply a).2]) := by
  induction script generalizing staged with
  | nil => simp [Staged.run]
  | cons b script ih => simp [Staged.run,ih]

theorem openUpdate_spec (h : StoreWF s) (key : SessionKey) (now : Int) {r : Option (Nat × Session)}
    (hopen : s.openUpdate key now=(t,r)) :
    (r=none ∧ ∃op result,Logged key s t op result) ∨
    ∃o working,r=some (o,working) ∧ t=s ∧
      TransactionInv s key now ⟨o,⟨some working,false⟩,[],[]⟩ := by
  obtain ⟨⟨v,o⟩,hget⟩ : ∃r,s.getActiveLocked key now=r := ⟨_,rfl⟩
  obtain ⟨hstep,hhistory,hview,ho⟩ := getActiveLocked_spec h key now hget
  unfold openUpdate at hopen
  rw [hget] at hopen
  cases o with
  | none =>
    cases hopen
    refine .inl ⟨rfl,_,_,Logged.of_step hstep (by rw [hhistory]) ?_⟩
    simp only [serialStep,←hview]
    rw [view_none ho]
  | some o =>
    obtain ⟨rfl,hsome,hfresh⟩ := getActiveLocked_some hget
    dsimp only at hopen
    split at hopen
    · rename_i message hclone
      cases hopen
      refine .inl ⟨rfl,_,_,Logged.of_step hstep rfl ?_⟩
      simp only [serialStep,←hview]
      simp only [view_eq ho,hclone]
    · rename_i working hclone
      cases hopen
      exact .inr ⟨o,working,rfl,rfl,hsome,hfresh,working,hclone,rfl⟩

theorem closeUpdate_logged (h : StoreWF s) (htx : TransactionInv s key now tx) (ending : Ending)
    (committed : Int) : ∃op result,
      Logged key s (s.closeUpdate key now tx ending committed) op result := by
  obtain ⟨hstored,hfresh,working,hclone,hrun⟩ := htx
  have hactive : active now (s.view key)=some (s.objects tx.original) := by
    simp [view_eq hstored,active,hfresh]
  have hkeep : KeyStep key s s := .refl h key
  unfold closeUpdate
  cases ending with
  | failed =>
    refine ⟨_,_,Logged.of_step hkeep rfl ?_⟩
    simp only [serialStep,hactive,hclone,hrun]
    rw [view_eq hstored]
  | cancelled =>
    refine ⟨_,_,Logged.of_step hkeep rfl ?_⟩
    simp only [serialStep,hactive,hclone,hrun]
    rw [view_eq hstored]
  | returned =>
    simp only [commit]
    cases hprepare : prepareCommit key (s.objects tx.original) tx.staged committed with
    | error message =>
      refine ⟨_,_,Logged.of_step hkeep rfl ?_⟩
      simp only [serialStep,hactive,hclone,hrun,hprepare]
      rw [view_eq hstored]
    | ok candidate =>
      simp only [hstored,ne_eq,not_true,if_false]
      cases candidate with
      | none =>
        refine ⟨_,_,Logged.of_step (setSession_step h key) rfl ?_⟩
        simp only [serialStep,hactive,hclone,hrun,hprepare,setSession_view]
      | some session =>
        refine ⟨_,_,Logged.of_step (put_step h key session) rfl ?_⟩
        simp only [serialStep,hactive,hclone,hrun,hprepare,put_view]

end SessionStore

end XiaoQing.Sessions
