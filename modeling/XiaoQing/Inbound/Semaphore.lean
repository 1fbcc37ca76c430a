import XiaoQing.Framework.Run
import XiaoQing.Framework.Table

namespace XiaoQing.Inbound

open Function (update update_of_ne update_self)

open Framework

/-- The future on which a call of `acquire` waits. -/
inductive Waiter
  | pending
  | result
  | cancelled
  deriving DecidableEq

/-- A call of `acquire` and what follows it. A waiting task that is cancelled while its future is
done finds the cancellation when it resumes. -/
inductive AcquireCall
  | waiting (waiter : Waiter) (cancelled : Bool)
  | holding
  | ended
  deriving DecidableEq

def AcquireCall.isHolder : Option AcquireCall → Bool
  | some .holding => true
  | _ => false

def AcquireCall.isGranted : Option AcquireCall → Bool
  | some (.waiting .result _) => true
  | _ => false

def AcquireCall.hasPermit (call : Option AcquireCall) : Bool := isHolder call || isGranted call

abbrev Capacity := {n : Nat // 0 < n}

/-- `AdjustableSemaphore` with the calls made so far, numbered as they arrive; `grants` records the
calls that got a permit, in order, and `failures` the errors raised by `release`. -/
structure AdjustableSemaphore where
  capacity : Capacity
  inUse : Nat
  waiters : List Nat
  calls : Nat → Option AcquireCall
  next : Nat
  grants : List Nat
  failures : Nat

inductive SemaphoreAct
  | acquire
  | cancel (i : Nat)
  | resume (i : Nat)
  | abort (i : Nat)
  | release (i : Nat)
  | resize (capacity : Int)

open AcquireCall

namespace AdjustableSemaphore

def new (capacity : Capacity) : AdjustableSemaphore := ⟨capacity,0,[],fun _ => none,0,[],0⟩

variable (s : AdjustableSemaphore) (i : Nat)

def done : Bool :=
  match s.calls i with
  | some (.waiting .pending _) => false
  | _ => true

def put (call : AcquireCall) : AdjustableSemaphore :=
  {s with calls := update s.calls i (some call)}

def grant (call : AcquireCall) : AdjustableSemaphore :=
  {s.put i call with inUse := s.inUse+1,grants := s.grants++[i]}

/-- One turn of the loop in `_wake_waiters`, with the waiter that was taken from the queue. -/
def serve : AdjustableSemaphore :=
  if s.done i then s else s.grant i (.waiting .result false)

/-- The loop of `_wake_waiters` over the waiters ahead. -/
def wake : List Nat → AdjustableSemaphore → AdjustableSemaphore
  | [],s => s
  | i::rest,s =>
    if s.inUse < s.capacity.1 then wake rest ({s with waiters := rest}.serve i) else s

def wakeWaiters : AdjustableSemaphore := wake s.waiters s

def acquire : AdjustableSemaphore :=
  if s.waiters.isEmpty && s.inUse < s.capacity.1 then
    {s.grant s.next .holding with next := s.next+1}
  else
    {s.put s.next (.waiting .pending false) with
      waiters := s.waiters++[s.next]
      next := s.next+1}.wakeWaiters

/-- `task.cancel()` of a task that waits: a pending future is cancelled, otherwise the task is
marked. -/
def cancel : Option AdjustableSemaphore :=
  match s.calls i with
  | some (.waiting .pending c) => some (s.put i (.waiting .cancelled c))
  | some (.waiting w _) => some (s.put i (.waiting w true))
  | _ => none

/-- The `except` branch of `acquire`. -/
def abandon (w : Waiter) : AdjustableSemaphore :=
  let reserved := w=.result
  {s.put i .ended with
    waiters := s.waiters.erase i
    inUse := if reserved then s.inUse-1 else s.inUse}.wakeWaiters

def resume : Option AdjustableSemaphore :=
  match s.calls i with
  | some (.waiting .result false) => some (s.put i .holding)
  | some (.waiting .result true) => some (s.abandon i .result)
  | some (.waiting .cancelled _) => some (s.abandon i .cancelled)
  | _ => none

/-- Any other exception at the `await`, as when the coroutine is closed. -/
def abort : Option AdjustableSemaphore :=
  match s.calls i with
  | some (.waiting w _) => some (s.abandon i w)
  | _ => none

/-- `release` by a holder. -/
def release : Option AdjustableSemaphore :=
  match s.calls i with
  | some .holding =>
    let s := s.put i .ended
    if s.inUse=0 then some {s with failures := s.failures+1}
    else some {s with inUse := s.inUse-1}.wakeWaiters
  | _ => none

theorem toNat_pos {capacity : Int} (h : 0 < capacity) : 0 < capacity.toNat := by omega

/-- `resize`; a capacity that is not positive is refused. -/
def resize (capacity : Int) : AdjustableSemaphore :=
  if h : 0 < capacity then
    if capacity=s.capacity.1 then s
    else
      let t := {s with capacity := ⟨capacity.toNat,toNat_pos h⟩}
      if (s.capacity.1 : Int) < capacity then t.wakeWaiters else t
  else s

def step : SemaphoreAct → Option AdjustableSemaphore
  | .acquire => some s.acquire
  | .cancel i => s.cancel i
  | .resume i => s.resume i
  | .abort i => s.abort i
  | .release i => s.release i
  | .resize capacity => some (s.resize capacity)

end AdjustableSemaphore

open AdjustableSemaphore

structure Books (s : AdjustableSemaphore) : Prop where
  counted : s.inUse=tally hasPermit s.calls s.next
  made : ∀i,s.calls i≠none → i < s.next
  ordered : s.waiters.Pairwise (· < ·)
  queued : ∀i∈s.waiters,∃w c,s.calls i=some (.waiting w c)∧w≠.result
  pending : ∀i c,s.calls i=some (.waiting .pending c) → i∈s.waiters
  recorded : ∀i,hasPermit (s.calls i)=true → i∈s.grants
  known : ∀i∈s.grants,i < s.next
  first : s.grants.Pairwise (· < ·)
  later : ∀i∈s.grants,∀j∈s.waiters,i < j
  faultless : s.failures=0

section

variable {s t : AdjustableSemaphore} {i : Nat} {a b : AcquireCall} {u : Nat} {l q : List Nat}

theorem Books.put (h : Books s) (hi : s.calls i=some a)
    (hu : u+(hasPermit (some a)).toNat=s.inUse+(hasPermit (some b)).toNat)
    (hpermit : hasPermit (some b)=true → hasPermit (some a)=true)
    (hsub : q.Sublist s.waiters)
    (hqueued : i∈q → ∃w c,b=.waiting w c∧w≠.result)
    (hpending : ∀c,b=.waiting .pending c → i∈q)
    (hothers : ∀j∈s.waiters,j≠i → j∈q) :
    Books {s.put i b with waiters := q,inUse := u} where
  counted := by
    have hlt := h.made i (by rw [hi]; exact Option.some_ne_none _)
    have hcount := tally_update hasPermit s.calls s.next i (some b) hlt
    have hbefore := h.counted
    rw [hi] at hcount
    simp only [AdjustableSemaphore.put]
    omega
  made j hj := by
    by_cases hji : j=i
    · subst j
      exact h.made i (by rw [hi]; exact Option.some_ne_none _)
    · simp only [AdjustableSemaphore.put,update_of_ne hji] at hj
      exact h.made j hj
  ordered := h.ordered.sublist hsub
  queued j hj := by
    by_cases hji : j=i
    · subst j
      obtain ⟨w,c,hc,hw⟩ := hqueued hj
      refine ⟨w,c,?_,hw⟩
      simp only [AdjustableSemaphore.put,update_self,hc]
    · simp only [AdjustableSemaphore.put,update_of_ne hji]
      exact h.queued j (hsub.subset hj)
  pending j c hj := by
    by_cases hji : j=i
    · subst j
      simp only [AdjustableSemaphore.put,update_self,Option.some.injEq] at hj
      exact hpending c hj
    · simp only [AdjustableSemaphore.put,update_of_ne hji] at hj
      exact hothers j (h.pending j c hj) hji
  recorded j hj := by
    by_cases hji : j=i
    · subst j
      simp only [AdjustableSemaphore.put,update_self] at hj
      apply h.recorded
      rw [hi]
      exact hpermit hj
    · simp only [AdjustableSemaphore.put,update_of_ne hji] at hj
      exact h.recorded j hj
  known := h.known
  first := h.first
  later j hj k hk := h.later j hj k (hsub.subset hk)
  faultless := h.faultless

theorem Books.serve (h : Books s) (hw : s.waiters=i::q) : Books ({s with waiters := q}.serve i) := by
  have hsorted := h.ordered
  rw [hw] at hsorted
  obtain ⟨hahead,hrest⟩ := List.pairwise_cons.mp hsorted
  have hmem : ∀j∈q,j∈s.waiters := fun j hj => by rw [hw]; exact List.mem_cons_of_mem _ hj
  obtain ⟨w,c,hi,hnot⟩ := h.queued i (by rw [hw]; exact List.mem_cons_self)
  have hlt : i < s.next := h.made i (by rw [hi]; exact Option.some_ne_none _)
  unfold AdjustableSemaphore.serve
  split
  · rename_i hdone
    have hne : ∀c,s.calls i≠some (.waiting .pending c) := by
      intro c hc
      simp only [done,hc] at hdone
      cases hdone
    have hpending : ∀j c,s.calls j=some (.waiting .pending c) → j∈q := by
      intro j c hj
      have hold := h.pending j c hj
      rw [hw] at hold
      rcases List.mem_cons.mp hold with rfl | hlater
      · exact absurd hj (hne c)
      · exact hlater
    exact {h with
      ordered := hrest
      queued := fun j hj => h.queued j (hmem j hj)
      pending := hpending
      later := fun j hj k hk => h.later j hj k (hmem k hk)}
  · rename_i hdone
    have hpend : s.calls i=some (.waiting .pending c) := by
      cases w with
      | pending => exact hi
      | result => exact absurd rfl hnot
      | cancelled =>
        simp only [done,hi] at hdone
        exact absurd trivial hdone
    refine ⟨?_,fun j hj => ?_,hrest,fun j hj => ?_,fun j c hj => ?_,fun j hj => ?_,fun j hj => ?_,?_,
      fun j hj k hk => ?_,h.faultless⟩
    · have hcount := tally_update hasPermit s.calls s.next i (some (.waiting .result false)) hlt
      have hbefore := h.counted
      rw [hpend] at hcount
      simp only [grant,AdjustableSemaphore.put]
      simp only [hasPermit,isHolder,isGranted,Bool.or_false,Bool.or_true,Bool.toNat_false,
        Bool.toNat_true] at hcount
      omega
    · by_cases hji : j=i
      · rw [hji]
        exact hlt
      · simp only [grant,AdjustableSemaphore.put,update_of_ne hji] at hj
        exact h.made j hj
    · have hji : j≠i := (hahead j hj).ne'
      simp only [grant,AdjustableSemaphore.put,update_of_ne hji]
      exact h.queued j (hmem j hj)
    · by_cases hji : j=i
      · subst j
        simp [grant,AdjustableSemaphore.put] at hj
      · simp only [grant,AdjustableSemaphore.put,update_of_ne hji] at hj
        have hold := h.pending j c hj
        rw [hw] at hold
        exact (List.mem_cons.mp hold).resolve_left hji
    · apply List.mem_append.mpr
      by_cases hji : j=i
      · exact .inr (List.mem_singleton.mpr hji)
      · simp only [grant,AdjustableSemaphore.put,update_of_ne hji] at hj
        exact .inl (h.recorded j hj)
    · rcases List.mem_append.mp hj with hold | hnew
      · exact h.known j hold
      · rw [List.mem_singleton.mp hnew]
        exact hlt
    · refine List.pairwise_append.mpr ⟨h.first,List.pairwise_singleton _ _,fun j hj k hk => ?_⟩
      rw [List.mem_singleton.mp hk]
      exact h.later j hj i (by rw [hw]; exact List.mem_cons_self)
    · rcases List.mem_append.mp hj with hold | hnew
      · exact h.later j hold k (hmem k hk)
      · rw [List.mem_singleton.mp hnew]
        exact hahead k hk

def Saturated (s : AdjustableSemaphore) : Prop := s.waiters=[]∨s.capacity.1 ≤ s.inUse

/-- The grants of a step: those before it come first, and a new one is within the capacity. -/
structure Extends (s t : AdjustableSemaphore) : Prop where
  earlier : s.grants<+:t.grants
  within : t.grants≠s.grants → t.inUse ≤ t.capacity.1

theorem Extends.same (h : t.grants=s.grants) : Extends s t :=
  ⟨by rw [h],fun hne => absurd h hne⟩

theorem serve_capacity : (s.serve i).capacity=s.capacity := by
  unfold AdjustableSemaphore.serve
  split <;> rfl

theorem serve_waiters : (s.serve i).waiters=s.waiters := by
  unfold AdjustableSemaphore.serve
  split <;> rfl

theorem serve_grants : (s.serve i).grants=s.grants∧(s.serve i).inUse=s.inUse∨
    (s.serve i).grants=s.grants++[i]∧(s.serve i).inUse=s.inUse+1 := by
  unfold AdjustableSemaphore.serve
  split
  · exact .inl ⟨rfl,rfl⟩
  · exact .inr ⟨rfl,rfl⟩

theorem wake_books (h : Books s) (hl : s.waiters=l) : Books (wake l s)∧Saturated (wake l s) := by
  induction l generalizing s with
  | nil => exact ⟨h,.inl hl⟩
  | cons i rest ih =>
    unfold wake
    split
    · exact ih (h.serve hl) serve_waiters
    · rename_i hfull
      exact ⟨h,.inr (Nat.le_of_not_lt hfull)⟩

theorem wake_grants (l : List Nat) (s : AdjustableSemaphore) : (wake l s).capacity=s.capacity∧
    s.grants<+:(wake l s).grants∧((wake l s).grants=s.grants∧(wake l s).inUse=s.inUse∨
      (wake l s).inUse ≤ s.capacity.1) := by
  induction l generalizing s with
  | nil => exact ⟨rfl,List.prefix_rfl,.inl ⟨rfl,rfl⟩⟩
  | cons i rest ih =>
    unfold wake
    split
    · rename_i hfree
      obtain ⟨hcap,hstarts,hgrants⟩ := ih ({s with waiters := rest}.serve i)
      rw [serve_capacity] at hcap hgrants
      rcases serve_grants (s:={s with waiters := rest}) (i:=i) with ⟨hg,hu⟩ | ⟨hg,hu⟩
      · rw [hg] at hstarts hgrants
        rw [hu] at hgrants
        exact ⟨hcap,hstarts,hgrants⟩
      · refine ⟨hcap,(List.prefix_append _ _).trans (hg ▸ hstarts),.inr ?_⟩
        rcases hgrants with ⟨-,hsame⟩ | hwithin
        · rw [hsame,hu]
          exact hfree
        · exact hwithin
    · exact ⟨rfl,List.prefix_rfl,.inl ⟨rfl,rfl⟩⟩

theorem wakeWaiters_books (h : Books s) : Books s.wakeWaiters∧Saturated s.wakeWaiters :=
  wake_books h rfl

theorem wakeWaiters_extends (hg : t.grants=s.grants) : Extends s t.wakeWaiters := by
  obtain ⟨hcap,hstarts,hgrants⟩ := wake_grants t.waiters t
  refine ⟨hg ▸ hstarts,fun hne => ?_⟩
  rcases hgrants with ⟨hsame,-⟩ | hwithin
  · exact absurd (hsame.trans hg) hne
  · unfold wakeWaiters
    rw [hcap]
    exact hwithin

structure Sound (s : AdjustableSemaphore) : Prop where
  books : Books s
  saturated : Saturated s

theorem Books.sound (h : Books s) : Sound s.wakeWaiters :=
  ⟨(wakeWaiters_books h).1,(wakeWaiters_books h).2⟩

theorem new_sound (capacity : Capacity) : Sound (new capacity) := by
  refine ⟨⟨?_,nofun,.nil,nofun,nofun,nofun,nofun,.nil,nofun,rfl⟩,.inl rfl⟩
  simp [new]

theorem Books.push (h : Books s) (hu : u=s.inUse+(hasPermit (some b)).toNat)
    (hcall : b=.holding∧q=s.grants++[s.next]∧l=s.waiters∧s.waiters=[]∨
      b=.waiting .pending false∧q=s.grants∧l=s.waiters++[s.next]) :
    Books {s.put s.next b with inUse := u,grants := q,waiters := l,next := s.next+1} := by
  have hfresh : s.calls s.next=none := by
    by_contra hne
    exact absurd (h.made s.next hne) (Nat.lt_irrefl _)
  have hnot : ∀i∈s.waiters,i≠s.next := by
    rintro i hi rfl
    obtain ⟨w,c,hc,-⟩ := h.queued _ hi
    rw [hfresh] at hc
    cases hc
  have hlt : ∀i∈s.waiters,i < s.next := by
    intro i hi
    obtain ⟨w,c,hc,-⟩ := h.queued i hi
    exact h.made i (by rw [hc]; exact Option.some_ne_none _)
  have hcount : u=tally hasPermit (update s.calls s.next (some b)) (s.next+1) := by
    rw [tally_push,← h.counted]
    exact hu
  have hmade : ∀i,update s.calls s.next (some b) i≠none → i < s.next+1 := by
    intro i hi
    by_cases his : i=s.next
    · omega
    · rw [update_of_ne his] at hi
      exact Nat.lt_succ_of_lt (h.made i hi)
  rcases hcall with ⟨rfl,rfl,rfl,hempty⟩ | ⟨rfl,rfl,rfl⟩
  · refine ⟨hcount,hmade,h.ordered,fun i hi => ?_,fun i c hi => ?_,fun i hi => ?_,fun i hi => ?_,?_,
      fun i _ j hj => ?_,h.faultless⟩
    · rw [hempty] at hi
      cases hi
    · by_cases his : i=s.next
      · subst i
        simp [AdjustableSemaphore.put] at hi
      · simp only [AdjustableSemaphore.put,update_of_ne his] at hi
        exact h.pending i c hi
    · by_cases his : i=s.next
      · exact List.mem_append.mpr (.inr (List.mem_singleton.mpr his))
      · simp only [AdjustableSemaphore.put,update_of_ne his] at hi
        exact List.mem_append.mpr (.inl (h.recorded i hi))
    · rcases List.mem_append.mp hi with hold | hnew
      · exact Nat.lt_succ_of_lt (h.known i hold)
      · rw [List.mem_singleton.mp hnew]
        exact Nat.lt_succ_self _
    · refine List.pairwise_append.mpr ⟨h.first,List.pairwise_singleton _ _,fun i hi j hj => ?_⟩
      rw [List.mem_singleton.mp hj]
      exact h.known i hi
    · rw [hempty] at hj
      cases hj
  · refine ⟨hcount,hmade,?_,fun i hi => ?_,fun i c hi => ?_,fun i hi => ?_,fun i hi => ?_,h.first,
      fun i hi j hj => ?_,h.faultless⟩
    · refine List.pairwise_append.mpr ⟨h.ordered,List.pairwise_singleton _ _,fun i hi j hj => ?_⟩
      rw [List.mem_singleton.mp hj]
      exact hlt i hi
    · rcases List.mem_append.mp hi with hold | hnew
      · simp only [AdjustableSemaphore.put,update_of_ne (hnot i hold)]
        exact h.queued i hold
      · rw [List.mem_singleton.mp hnew]
        exact ⟨.pending,false,update_self _ _ _,nofun⟩
    · by_cases his : i=s.next
      · exact List.mem_append.mpr (.inr (List.mem_singleton.mpr his))
      · simp only [AdjustableSemaphore.put,update_of_ne his] at hi
        exact List.mem_append.mpr (.inl (h.pending i c hi))
    · by_cases his : i=s.next
      · subst i
        simp [AdjustableSemaphore.put,hasPermit,isHolder,isGranted] at hi
      · simp only [AdjustableSemaphore.put,update_of_ne his] at hi
        exact h.recorded i hi
    · exact Nat.lt_succ_of_lt (h.known i hi)
    · rcases List.mem_append.mp hj with hold | hnew
      · exact h.later i hi j hold
      · rw [List.mem_singleton.mp hnew]
        exact h.known i hi

theorem Sound.acquire (h : Sound s) : Sound s.acquire∧Extends s s.acquire := by
  unfold AdjustableSemaphore.acquire
  split
  · rename_i hfast
    simp only [Bool.and_eq_true,List.isEmpty_iff,decide_eq_true_eq] at hfast
    have hbooks := h.books.push (b:=.holding) rfl (.inl ⟨rfl,rfl,rfl,hfast.1⟩)
    exact ⟨⟨hbooks,.inl hfast.1⟩,⟨List.prefix_append _ _,fun _ => hfast.2⟩⟩
  · have hbooks := h.books.push (b:=.waiting .pending false) rfl (.inr ⟨rfl,rfl,rfl⟩)
    exact ⟨hbooks.sound,wakeWaiters_extends rfl⟩

theorem abandon_sound (h : Sound s) {w : Waiter} {c : Bool} (hi : s.calls i=some (.waiting w c)) :
    Sound (s.abandon i w)∧Extends s (s.abandon i w) := by
  have hnodup : s.waiters.Nodup := h.books.ordered.imp Nat.ne_of_lt
  have hpos : w=.result → 0 < s.inUse := by
    rintro rfl
    rw [h.books.counted]
    exact tally_pos _ _ _ i (h.books.made i (by rw [hi]; exact Option.some_ne_none _)) (by rw [hi]; rfl)
  have hbooks := h.books.put (b:=.ended) (q:=s.waiters.erase i)
    (u:=if w=.result then s.inUse-1 else s.inUse) hi (by
      cases w with
      | pending => rfl
      | cancelled => rfl
      | result =>
        have := hpos rfl
        simp only [if_true,hasPermit,isHolder,isGranted,Bool.or_true,Bool.or_false,Bool.toNat_true,
          Bool.toNat_false]
        omega) nofun List.erase_sublist (fun hmem => absurd hmem (hnodup.not_mem_erase))
    nofun (fun j hj hji => (List.mem_erase_of_ne hji).mpr hj)
  exact ⟨hbooks.sound,wakeWaiters_extends rfl⟩

theorem Sound.mark (h : Sound s) {w v : Waiter} {c d : Bool} (hi : s.calls i=some (.waiting w c))
    (hv : v=.result↔w=.result) (hp : v=.pending → w=.pending) :
    Sound (s.put i (.waiting v d))∧Extends s (s.put i (.waiting v d)) := by
  have hsame : (hasPermit (some (.waiting v d))).toNat=(hasPermit (some (.waiting w c))).toNat := by
    cases v <;> cases w <;> simp_all [hasPermit,isHolder,isGranted]
  have hbooks : Books (s.put i (.waiting v d)) :=
    h.books.put (q:=s.waiters) (u:=s.inUse) hi (by rw [hsame])
      (fun hb => by
        have : (hasPermit (some (.waiting v d))).toNat=1 := by rw [hb]; rfl
        rw [hsame] at this
        cases hw : hasPermit (some (.waiting w c)) with
        | true => rfl
        | false =>
          rw [hw] at this
          cases this)
      (List.Sublist.refl _)
      (fun hmem => by
        obtain ⟨x,y,hx,hnot⟩ := h.books.queued i hmem
        rw [hi] at hx
        cases hx
        exact ⟨v,d,rfl,fun he => hnot (hv.mp he)⟩)
      (fun e he => by
        cases he
        exact h.books.pending i c (by rw [hi,hp rfl]))
      (fun j hj _ => hj)
  exact ⟨⟨hbooks,h.saturated⟩,.same rfl⟩

theorem Books.not_waiting (h : Books s) (hi : hasPermit (s.calls i)=true) : i∉s.waiters := by
  intro hmem
  obtain ⟨w,c,hc,hnot⟩ := h.queued i hmem
  rw [hc] at hi
  cases w with
  | pending => cases hi
  | cancelled => cases hi
  | result => exact hnot rfl

theorem cancel_sound (h : Sound s) (hs : s.cancel i=some t) : Sound t∧Extends s t := by
  unfold AdjustableSemaphore.cancel at hs
  split at hs
  · rename_i c hi
    cases hs
    exact h.mark hi (by simp) nofun
  · rename_i w c _ hi
    cases hs
    exact h.mark hi Iff.rfl id
  · cases hs

theorem resume_sound (h : Sound s) (hs : s.resume i=some t) : Sound t∧Extends s t := by
  unfold AdjustableSemaphore.resume at hs
  split at hs
  · rename_i hi
    cases hs
    have hnot : i∉s.waiters := h.books.not_waiting (by rw [hi]; rfl)
    have hbooks : Books (s.put i .holding) :=
      h.books.put (q:=s.waiters) (u:=s.inUse) hi rfl (fun _ => rfl) (List.Sublist.refl _)
        (fun hmem => absurd hmem hnot) nofun (fun j hj _ => hj)
    exact ⟨⟨hbooks,h.saturated⟩,.same rfl⟩
  · rename_i hi
    cases hs
    exact abandon_sound h hi
  · rename_i c hi
    cases hs
    exact abandon_sound h hi
  · cases hs

theorem abort_sound (h : Sound s) (hs : s.abort i=some t) : Sound t∧Extends s t := by
  unfold AdjustableSemaphore.abort at hs
  split at hs
  · rename_i w c hi
    cases hs
    exact abandon_sound h hi
  · cases hs

theorem release_sound (h : Sound s) (hs : s.release i=some t) : Sound t∧Extends s t := by
  unfold AdjustableSemaphore.release at hs
  split at hs
  · rename_i hi
    have hpermit : hasPermit (s.calls i)=true := by rw [hi]; rfl
    have hlt : i < s.next := h.books.made i (by rw [hi]; exact Option.some_ne_none _)
    have hpos : 0 < s.inUse := by
      rw [h.books.counted]
      exact tally_pos _ _ _ i hlt hpermit
    have hne : (s.put i .ended).inUse≠0 := Nat.ne_of_gt hpos
    simp only [if_neg hne,Option.some.injEq] at hs
    subst t
    have hbooks := h.books.put (b:=.ended) (q:=s.waiters) (u:=s.inUse-1) hi (by
      simp only [hasPermit,isHolder,isGranted,Bool.or_false,Bool.toNat_true,Bool.toNat_false]
      omega) nofun (List.Sublist.refl _) (fun hmem => absurd hmem (h.books.not_waiting hpermit)) nofun
      (fun j hj _ => hj)
    exact ⟨hbooks.sound,wakeWaiters_extends rfl⟩
  · cases hs

theorem resize_sound (h : Sound s) (capacity : Int) :
    Sound (s.resize capacity)∧Extends s (s.resize capacity) := by
  unfold AdjustableSemaphore.resize
  split
  · rename_i hpos
    split
    · exact ⟨h,.same rfl⟩
    · rename_i hne
      have hbooks : Books {s with capacity := ⟨capacity.toNat,toNat_pos hpos⟩} := {h.books with}
      dsimp only
      split
      · exact ⟨hbooks.sound,wakeWaiters_extends rfl⟩
      · -- a smaller capacity frees no permit
        rename_i hless
        refine ⟨⟨hbooks,h.saturated.imp id fun hfull => ?_⟩,.same rfl⟩
        have hsmaller : capacity.toNat ≤ s.capacity.1 := by omega
        exact hsmaller.trans hfull
  · exact ⟨h,.same rfl⟩

theorem step_sound (a : SemaphoreAct) (h : Sound s) (hs : s.step a=some t) : Sound t∧Extends s t := by
  cases a with
  | acquire =>
    cases hs
    exact h.acquire
  | cancel i => exact cancel_sound h hs
  | resume i => exact resume_sound h hs
  | abort i => exact abort_sound h hs
  | release i => exact release_sound h hs
  | resize capacity =>
    cases hs
    exact resize_sound h capacity

end

/-- The semaphore keeps its contract: every permit in use has an owner, nobody waits while a permit
is free, permits are given in the order of the calls, and `release` raises nothing. -/
structure Serves (s : AdjustableSemaphore) : Prop where
  accounted : s.inUse=tally isHolder s.calls s.next+tally isGranted s.calls s.next
  noneFree : ∀i c,s.calls i=some (.waiting .pending c) → s.capacity.1 ≤ s.inUse
  wakeable : ∀i c,s.calls i=some (.waiting .pending c) → i∈s.waiters
  recorded : ∀i,hasPermit (s.calls i)=true → i∈s.grants
  inOrder : s.grants.Pairwise (· < ·)
  notOvertaken : ∀i c,s.calls i=some (.waiting .pending c) → ∀j∈s.grants,j < i
  faultless : s.failures=0

def Initial (s : AdjustableSemaphore) : Prop := ∃capacity,s=new capacity

section

variable {s : AdjustableSemaphore}

theorem Sound.serves (h : Sound s) : Serves s where
  accounted := by
    rw [h.books.counted]
    apply tally_add
    intro call
    unfold hasPermit
    rcases call with _ | ⟨⟨⟩,c⟩ | _ | _ <;> rfl
  noneFree := by
    intro i c hi
    rcases h.saturated with hnil | hfull
    · have hmem := h.books.pending i c hi
      rw [hnil] at hmem
      cases hmem
    · exact hfull
  wakeable := h.books.pending
  recorded := h.books.recorded
  inOrder := h.books.first
  notOvertaken i c hi j hj := h.books.later j hj i (h.books.pending i c hi)
  faultless := h.books.faultless

/-- In every run the contract holds, and no step gives a permit above the capacity in force. -/
theorem semaphore_serves (h : Reach AdjustableSemaphore.step Free Initial s) :
    Serves s∧∀a t,s.step a=some t → Extends s t := by
  have hsound : Sound s := by
    apply h.invariant
    · rintro s ⟨capacity,rfl⟩
      exact new_sound capacity
    · intro s a t hs _ hstep
      exact (step_sound a hs hstep).1
  exact ⟨hsound.serves,fun a t ht => (step_sound a hsound ht).2⟩

end

/-- A waiter is granted, cancelled before it resumes, and its permit goes to the next one. -/
theorem semaphore_serves_cancelled : ∃s,Serves s∧s.grants=[0,1,2]∧s.inUse=1 := by
  have hrun : (execute AdjustableSemaphore.step (new ⟨1,by omega⟩)
      [.acquire,.acquire,.acquire,.release 0,.cancel 1,.resume 1,.resume 2]).any
      (fun s => s.grants=[0,1,2]&&s.inUse=1)=true := by decide
  obtain ⟨s,hs,hend⟩ := (Option.any_eq_true _ _).mp hrun
  simp only [Bool.and_eq_true,decide_eq_true_eq] at hend
  have hreach : Reach AdjustableSemaphore.step Free Initial s :=
    Reach.execute _ (fun _ _ _ => trivial) (.start ⟨⟨1,by omega⟩,rfl⟩) hs
  exact ⟨s,(semaphore_serves hreach).1,hend⟩

end XiaoQing.Inbound
