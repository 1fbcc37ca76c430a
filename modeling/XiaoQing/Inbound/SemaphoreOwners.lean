import XiaoQing.Inbound.Semaphore

namespace XiaoQing.Inbound

def AcquireCall.live : Option AcquireCall → Bool
  | some .holding => true
  | some (.waiting .pending _) => true
  | some (.waiting .result false) => true
  | _ => false

open AcquireCall AdjustableSemaphore

namespace AdjustableSemaphore

/-- `release` as it is written: it asks nobody who the permit belongs to. -/
def bareRelease (s : AdjustableSemaphore) : AdjustableSemaphore :=
  if s.inUse=0 then {s with failures := s.failures+1} else {s with inUse := s.inUse-1}.wakeWaiters

/-- `release` with the call of its owner put down as ended. -/
def giveBack (s : AdjustableSemaphore) (owner : Option Nat) : AdjustableSemaphore :=
  (owner.elim s (s.put · .ended)).bareRelease

def overCapacity (s : AdjustableSemaphore) : Bool := s.capacity.1 < s.inUse

end AdjustableSemaphore

structure Alike (s t : AdjustableSemaphore) (c : Nat) : Prop where
  live : AcquireCall.live (t.calls c)=AcquireCall.live (s.calls c)
  holder : isHolder (s.calls c)=true → isHolder (t.calls c)=true

section

variable {s t u : AdjustableSemaphore} {i c : Nat} {a : AcquireCall}

theorem live_of_holder {call : Option AcquireCall} (h : isHolder call=true) : live call=true := by
  cases call with
  | none => cases h
  | some a =>
    cases a with
    | waiting w d => cases h
    | holding => rfl
    | ended => cases h

theorem Alike.of_calls (h : t.calls c=s.calls c) : Alike s t c := by
  constructor
  · rw [h]
  · intro hheld
    rw [h]
    exact hheld

theorem Alike.after (h : Alike s t c) (k : Alike t u c) : Alike s u c :=
  ⟨k.live.trans h.live,fun hheld => k.holder (h.holder hheld)⟩

theorem put_alike (hne : c≠i) : Alike s (s.put i a) c :=
  .of_calls (Function.update_of_ne hne _ _)

theorem serve_alike (s : AdjustableSemaphore) (i c : Nat) : Alike s (s.serve i) c := by
  unfold AdjustableSemaphore.serve
  split
  · exact .of_calls rfl
  · rename_i hdone
    by_cases hci : c=i
    · subst c
      cases hcall : s.calls i with
      | none => simp [done,hcall] at hdone
      | some call =>
        cases call with
        | holding => simp [done,hcall] at hdone
        | ended => simp [done,hcall] at hdone
        | waiting w d =>
          cases w with
          | pending =>
            constructor
            · simp [AdjustableSemaphore.grant,AdjustableSemaphore.put,hcall,live]
            · intro hheld
              rw [hcall] at hheld
              cases hheld
          | result => simp [done,hcall] at hdone
          | cancelled => simp [done,hcall] at hdone
    · exact .of_calls (Function.update_of_ne hci _ _)

theorem wake_alike (l : List Nat) (s : AdjustableSemaphore) (c : Nat) : Alike s (wake l s) c := by
  induction l generalizing s with
  | nil => exact .of_calls rfl
  | cons i rest ih =>
    unfold wake
    split
    · have htaken : Alike s {s with waiters := rest} c := .of_calls rfl
      have hserved := serve_alike {s with waiters := rest} i c
      exact (htaken.after hserved).after (ih _)
    · exact .of_calls rfl

theorem wakeWaiters_alike (s : AdjustableSemaphore) (c : Nat) : Alike s s.wakeWaiters c :=
  wake_alike s.waiters s c

theorem wake_next (l : List Nat) (s : AdjustableSemaphore) : (wake l s).next=s.next := by
  induction l generalizing s with
  | nil => rfl
  | cons i rest ih =>
    unfold wake
    split
    · rw [ih]
      unfold AdjustableSemaphore.serve
      split <;> rfl
    · rfl

theorem wakeWaiters_capacity (s : AdjustableSemaphore) : s.wakeWaiters.capacity=s.capacity :=
  (wake_grants s.waiters s).1

theorem acquire_next (s : AdjustableSemaphore) : s.acquire.next=s.next+1 := by
  unfold AdjustableSemaphore.acquire
  split
  · rfl
  · exact wake_next _ _

theorem acquire_capacity (s : AdjustableSemaphore) : s.acquire.capacity=s.capacity := by
  unfold AdjustableSemaphore.acquire
  split
  · rfl
  · exact wakeWaiters_capacity _

theorem acquire_alike (s : AdjustableSemaphore) (hne : c≠s.next) : Alike s s.acquire c := by
  unfold AdjustableSemaphore.acquire
  split
  · exact .of_calls (Function.update_of_ne hne _ _)
  · have hput : Alike s {s.put s.next (.waiting .pending false) with
        waiters := s.waiters++[s.next]
        next := s.next+1} c := .of_calls (Function.update_of_ne hne _ _)
    exact hput.after (wakeWaiters_alike _ c)

theorem acquire_live (s : AdjustableSemaphore) : live (s.acquire.calls s.next)=true := by
  unfold AdjustableSemaphore.acquire
  split
  · simp [AdjustableSemaphore.grant,AdjustableSemaphore.put,live]
  · rw [(wakeWaiters_alike _ s.next).live]
    simp [AdjustableSemaphore.put,live]

theorem cancel_dead (hs : s.cancel i=some t) : live (t.calls i)=false∧t.next=s.next∧
    t.capacity=s.capacity∧∀c,c≠i → Alike s t c := by
  unfold AdjustableSemaphore.cancel at hs
  split at hs
  · cases hs
    exact ⟨by simp [AdjustableSemaphore.put,live],rfl,rfl,fun c hc => put_alike hc⟩
  · rename_i w d hpending hi
    cases hs
    refine ⟨?_,rfl,rfl,fun c hc => put_alike hc⟩
    cases w with
    | pending => exact absurd rfl hpending
    | result => simp [AdjustableSemaphore.put,live]
    | cancelled => simp [AdjustableSemaphore.put,live]
  · cases hs

theorem abandon_alike (s : AdjustableSemaphore) (i : Nat) (w : Waiter) (c : Nat)
    (hdead : live (s.calls i)=false) : Alike s (s.abandon i w) c := by
  unfold AdjustableSemaphore.abandon
  refine Alike.after ?_ (wakeWaiters_alike _ c)
  by_cases hci : c=i
  · subst c
    constructor
    · simp only [AdjustableSemaphore.put,Function.update_self,hdead]
      rfl
    · intro hheld
      rw [live_of_holder hheld] at hdead
      cases hdead
  · exact .of_calls (Function.update_of_ne hci _ _)

theorem abandon_next (s : AdjustableSemaphore) (i : Nat) (w : Waiter) :
    (s.abandon i w).next=s.next := wake_next _ _

theorem abandon_capacity (s : AdjustableSemaphore) (i : Nat) (w : Waiter) :
    (s.abandon i w).capacity=s.capacity := wakeWaiters_capacity _

theorem resume_alike (hs : s.resume i=some t) : t.next=s.next∧t.capacity=s.capacity∧
    ∀c,Alike s t c := by
  unfold AdjustableSemaphore.resume at hs
  split at hs
  · rename_i hi
    cases hs
    refine ⟨rfl,rfl,fun c => ?_⟩
    by_cases hci : c=i
    · subst c
      constructor
      · simp [AdjustableSemaphore.put,hi,live]
      · intro _
        simp [AdjustableSemaphore.put,isHolder]
    · exact put_alike hci
  · rename_i hi
    cases hs
    exact ⟨abandon_next _ _ _,abandon_capacity _ _ _,fun c => abandon_alike s i _ c (by rw [hi]; rfl)⟩
  · rename_i hi
    cases hs
    exact ⟨abandon_next _ _ _,abandon_capacity _ _ _,fun c => abandon_alike s i _ c (by rw [hi]; rfl)⟩
  · cases hs

theorem release_giveBack (hi : s.calls i=some .holding) : s.release i=some (s.giveBack (some i)) := by
  have hout : s.giveBack (some i)=(s.put i .ended).bareRelease := rfl
  rw [hout,bareRelease]
  simp only [AdjustableSemaphore.release,hi]
  split <;> rfl

theorem bareRelease_next (s : AdjustableSemaphore) : s.bareRelease.next=s.next := by
  unfold bareRelease
  split
  · rfl
  · exact wake_next _ _

theorem bareRelease_capacity (s : AdjustableSemaphore) : s.bareRelease.capacity=s.capacity := by
  unfold bareRelease
  split
  · rfl
  · exact wakeWaiters_capacity _

theorem bareRelease_alike (s : AdjustableSemaphore) (c : Nat) : Alike s s.bareRelease c := by
  unfold bareRelease
  split
  · exact .of_calls rfl
  · have hless : Alike s {s with inUse := s.inUse-1} c := .of_calls rfl
    exact hless.after (wakeWaiters_alike _ c)

theorem giveBack_next (s : AdjustableSemaphore) (owner : Option Nat) :
    (s.giveBack owner).next=s.next := by
  unfold AdjustableSemaphore.giveBack
  rw [bareRelease_next]
  cases owner <;> rfl

theorem giveBack_capacity (s : AdjustableSemaphore) (owner : Option Nat) :
    (s.giveBack owner).capacity=s.capacity := by
  unfold AdjustableSemaphore.giveBack
  rw [bareRelease_capacity]
  cases owner <;> rfl

theorem giveBack_dead (s : AdjustableSemaphore) (i : Nat) :
    live ((s.giveBack (some i)).calls i)=false∧∀c,c≠i → Alike s (s.giveBack (some i)) c := by
  constructor
  · rw [AdjustableSemaphore.giveBack,(bareRelease_alike _ i).live]
    simp [AdjustableSemaphore.put,live]
  · intro c hc
    exact (put_alike hc).after (bareRelease_alike _ c)

theorem resize_alike (s : AdjustableSemaphore) (capacity : Int) (c : Nat) :
    Alike s (s.resize capacity) c := by
  unfold AdjustableSemaphore.resize
  split
  · split
    · exact .of_calls rfl
    · dsimp only
      split
      · rename_i hpos _ _
        have hsame : Alike s {s with capacity := ⟨capacity.toNat,by omega⟩} c := .of_calls rfl
        exact hsame.after (wakeWaiters_alike _ c)
      · exact .of_calls rfl
  · exact .of_calls rfl

theorem resize_next (s : AdjustableSemaphore) (capacity : Int) : (s.resize capacity).next=s.next := by
  unfold AdjustableSemaphore.resize
  split
  · split
    · rfl
    · dsimp only
      split
      · exact wake_next _ _
      · rfl
  · rfl

theorem resize_capacity (s : AdjustableSemaphore) (capacity : Capacity) :
    (s.resize capacity.1).capacity=capacity := by
  have hpos : (0 : Int) < capacity.1 := by have := capacity.2; omega
  have hnat : (capacity.1 : Int).toNat=capacity.1 := Int.toNat_natCast _
  unfold AdjustableSemaphore.resize
  rw [dif_pos hpos]
  split
  · rename_i hsame
    exact Subtype.ext (by omega)
  · dsimp only
    split
    · rw [wakeWaiters_capacity]
      exact Subtype.ext hnat
    · exact Subtype.ext hnat

end

end XiaoQing.Inbound
