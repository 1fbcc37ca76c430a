import XiaoQing.Gate.ExecutionGate

namespace XiaoQing.Gate

open Framework ExecutionGate

def Call.holds (c : Call) : Bool := c.phase≠.ended && (c.waiterGranted || c.granted)

/-- The books of the slots with the queue `ws`. The call in `limbo` has left its waiter and not gone
on yet. -/
structure SlotInv (limbo : Option Nat) (ws : List Nat) (g : ExecutionGate) : Prop where
  running : g.running=tally Call.holds g.calls g.next
  sorted : ws.Pairwise (· < ·)
  queued : ∀i∈ws,i<g.next ∧ (g.calls i).phase=.waiting ∧ (g.calls i).waiterGranted=false ∧
    limbo≠some i
  kept : ∀i<g.next,limbo≠some i → (g.calls i).phase=.waiting → (g.calls i).ready=.pending → i∈ws
  handed : ∀i<g.next,limbo≠some i → (g.calls i).phase=.waiting →
    (g.calls i).granted=false ∧ ((g.calls i).ready=.granted → (g.calls i).waiterGranted=true)
  owned : ∀i<g.next,(g.calls i).phase≠.waiting → (g.calls i).phase≠.ended →
    (g.calls i).granted=true
  log : g.grantLog.Pairwise (· < ·)
  behind : ∀i∈g.grantLog,i<g.next ∧ ∀w∈ws,i<w
  logged : ∀i<g.next,(g.calls i).holds=true → i∈g.grantLog
  single : g.sequential=true → g.running≤1

def Tight (g : ExecutionGate) : Prop :=
  g.stale=false → g.waiters=[] ∨ (g.capacity : Int)≤g.running

variable {limbo limbo' : Option Nat} {g g' : ExecutionGate} {i k : Nat} {c : Call} {n : Int}
  {ws ws' log : List Nat}

theorem setCall_self (g : ExecutionGate) (i : Nat) (c : Call) : (g.setCall i c).calls i=c :=
  Function.update_self _ _ _

theorem setCall_ne (g : ExecutionGate) (c : Call) (h : k≠i) : (g.setCall i c).calls k=g.calls k :=
  Function.update_of_ne h _ _

theorem SlotInv.nonneg (h : SlotInv limbo ws g) : 0≤g.running := by
  have hr := h.running
  omega

theorem SlotInv.running_pos (h : SlotInv limbo ws g) (hi : i<g.next)
    (hh : (g.calls i).holds=true) : 0<g.running := by
  have ht := tally_pos Call.holds g.calls g.next i hi hh
  have hr := h.running
  omega

theorem SlotInv.not_queued (h : SlotInv limbo ws g)
    (hi : (g.calls i).phase≠.waiting ∨ (g.calls i).waiterGranted=true ∨ limbo=some i) : i∉ws := by
  intro hm
  obtain ⟨_,h1,h2,h3⟩ := h.queued i hm
  cases hi with
  | inl hp => exact hp h1
  | inr hi =>
    cases hi with
    | inl hw => rw [h2] at hw; cases hw
    | inr hl => exact h3 hl

theorem SlotInv.move (h : SlotInv limbo ws g) (hi : i<g.next)
    (hn : n+(g.calls i).holds.toNat=g.running+c.holds.toNat)
    (hsingle : g.sequential=true → n≤1)
    (hlimbo : ∀k,k≠i → (limbo'=some k ↔ limbo=some k))
    (hsub : ws'.Sublist ws) (hstay : ∀k∈ws,k≠i → k∈ws')
    (hq : i∈ws' → c.phase=.waiting ∧ c.waiterGranted=false ∧ limbo'≠some i)
    (hk : limbo'≠some i → c.phase=.waiting → c.ready=.pending → i∈ws')
    (hh : limbo'≠some i → c.phase=.waiting →
      c.granted=false ∧ (c.ready=.granted → c.waiterGranted=true))
    (ho : c.phase≠.waiting → c.phase≠.ended → c.granted=true)
    (hlog : log=g.grantLog ∨ log=g.grantLog++[i] ∧ (∀k∈g.grantLog,k < i) ∧ ∀w∈ws',i<w)
    (hl : c.holds=true → i∈log) :
    SlotInv limbo' ws' {g.setCall i c with running := n,grantLog := log} := by
  have hcall (k : Nat) (hne : k≠i) : (g.setCall i c).calls k=g.calls k := setCall_ne g c hne
  have hself : (g.setCall i c).calls i=c := setCall_self g i c
  have hmem : ∀k∈g.grantLog,k∈log := by
    intro k hk
    cases hlog with
    | inl he => rw [he]; exact hk
    | inr he => rw [he.1]; exact List.mem_append_left _ hk
  apply SlotInv.mk
  · have ht := tally_update Call.holds g.calls g.next i c hi
    have hr := h.running
    show n=(tally Call.holds (Function.update g.calls i c) g.next : Int)
    omega
  · exact h.sorted.sublist hsub
  · intro k hm
    obtain ⟨h1,h2,h3,h4⟩ := h.queued k (hsub.subset hm)
    by_cases hki : k=i
    · subst k
      obtain ⟨q1,q2,q3⟩ := hq hm
      exact ⟨hi,by rw [hself]; exact q1,by rw [hself]; exact q2,q3⟩
    · exact ⟨h1,by rw [hcall k hki]; exact h2,by rw [hcall k hki]; exact h3,
        fun hx => h4 ((hlimbo k hki).mp hx)⟩
  · intro k hlt hx hp hready
    by_cases hki : k=i
    · subst k
      rw [hself] at hp hready
      exact hk hx hp hready
    · rw [hcall k hki] at hp hready
      exact hstay k (h.kept k hlt (fun hy => hx ((hlimbo k hki).mpr hy)) hp hready) hki
  · intro k hlt hx hp
    by_cases hki : k=i
    · subst k
      rw [hself] at hp ⊢
      exact hh hx hp
    · rw [hcall k hki] at hp ⊢
      exact h.handed k hlt (fun hy => hx ((hlimbo k hki).mpr hy)) hp
  · intro k hlt hp he
    by_cases hki : k=i
    · subst k
      rw [hself] at hp he ⊢
      exact ho hp he
    · rw [hcall k hki] at hp he ⊢
      exact h.owned k hlt hp he
  · cases hlog with
    | inl he => rw [he]; exact h.log
    | inr he =>
      rw [he.1,List.pairwise_append]
      exact ⟨h.log,List.pairwise_singleton _ _,fun a ha b hb => by
        rw [List.mem_singleton.mp hb]; exact he.2.1 a ha⟩
  · intro k hm
    have hold : k∈g.grantLog → k<g.next ∧ ∀w∈ws',k<w := fun hk =>
      ⟨(h.behind k hk).1,fun w hw => (h.behind k hk).2 w (hsub.subset hw)⟩
    cases hlog with
    | inl he => exact hold (he ▸ hm)
    | inr he =>
      have hm' : k∈g.grantLog++[i] := he.1 ▸ hm
      cases List.mem_append.mp hm' with
      | inl hk => exact hold hk
      | inr hk => rw [List.mem_singleton.mp hk]; exact ⟨hi,he.2.2⟩
  · intro k hlt hholds
    by_cases hki : k=i
    · subst k
      rw [hself] at hholds
      exact hl hholds
    · rw [hcall k hki] at hholds
      exact hmem k (h.logged k hlt hholds)
  · exact hsingle

theorem SlotInv.write (h : SlotInv limbo ws g) (hi : i<g.next)
    (hn : n+(g.calls i).holds.toNat=g.running+c.holds.toNat)
    (hsingle : g.sequential=true → n≤1)
    (hlimbo : ∀k,k≠i → (limbo'=some k ↔ limbo=some k))
    (hq : i∈ws → c.phase=.waiting ∧ c.waiterGranted=false ∧ limbo'≠some i)
    (hk : limbo'≠some i → c.phase=.waiting → c.ready=.pending → i∈ws)
    (hh : limbo'≠some i → c.phase=.waiting →
      c.granted=false ∧ (c.ready=.granted → c.waiterGranted=true))
    (ho : c.phase≠.waiting → c.phase≠.ended → c.granted=true)
    (hl : c.holds=true → i∈g.grantLog) :
    SlotInv limbo' ws {g.setCall i c with running := n} :=
  h.move hi hn hsingle hlimbo (List.Sublist.refl ws) (fun _ hm _ => hm) hq hk hh ho (Or.inl rfl) hl

theorem SlotInv.frame (h : SlotInv limbo ws g) (hn : g'.next=g.next) (hc : g'.calls=g.calls)
    (hr : g'.running=g.running) (hl : g'.grantLog=g.grantLog) (hs : g'.sequential=g.sequential) :
    SlotInv limbo ws g' := by
  apply SlotInv.mk
  · rw [hr,hc,hn]; exact h.running
  · exact h.sorted
  · rw [hn,hc]; exact h.queued
  · rw [hn,hc]; exact h.kept
  · rw [hn,hc]; exact h.handed
  · rw [hn,hc]; exact h.owned
  · rw [hl]; exact h.log
  · rw [hl,hn]; exact h.behind
  · rw [hn,hc,hl]; exact h.logged
  · rw [hs,hr]; exact h.single

/-! Granting -/

theorem SlotInv.shorten (h : SlotInv limbo (i::ws) g) (hready : (g.calls i).ready≠.pending) :
    SlotInv limbo ws g := by
  apply SlotInv.mk
  · exact h.running
  · exact (List.pairwise_cons.mp h.sorted).2
  · exact fun k hk => h.queued k (List.mem_cons_of_mem i hk)
  · intro k hlt hx hp hr
    cases List.mem_cons.mp (h.kept k hlt hx hp hr) with
    | inl he => subst k; exact absurd hr hready
    | inr hm => exact hm
  · exact h.handed
  · exact h.owned
  · exact h.log
  · exact fun k hk => ⟨(h.behind k hk).1,fun w hw => (h.behind k hk).2 w (List.mem_cons_of_mem i hw)⟩
  · exact h.logged
  · exact h.single

theorem SlotInv.closeWaiter (h : SlotInv limbo ws g) (hi : i∈ws) :
    SlotInv limbo ws (g.closeWaiter i) := by
  obtain ⟨h1,h2,h3,h4⟩ := h.queued i hi
  exact h.write (c := {g.calls i with ready := .closed}) h1 rfl h.single (fun _ _ => Iff.rfl)
    (fun _ => ⟨h2,h3,h4⟩) (fun _ _ hr => by cases hr)
    (fun hx hp => ⟨(h.handed i h1 hx hp).1,fun hr => by cases hr⟩) (h.owned i h1) (h.logged i h1)

theorem SlotInv.queued_free (h : SlotInv limbo ws g) (hi : i∈ws) : (g.calls i).holds=false := by
  obtain ⟨h1,h2,h3,h4⟩ := h.queued i hi
  have hg := (h.handed i h1 h4 h2).1
  simp [Call.holds,h3,hg]

theorem capacity_sequential (g : ExecutionGate) (h : g.sequential=true) : g.capacity=1 := by
  simp [ExecutionGate.capacity,h]

theorem SlotInv.grant (h : SlotInv limbo (i::ws) g) (hb : g.running<g.capacity) :
    SlotInv limbo ws (g.grant i) := by
  obtain ⟨h1,h2,h3,h4⟩ := h.queued i List.mem_cons_self
  obtain ⟨hfirst,hsorted⟩ := List.pairwise_cons.mp h.sorted
  have hnot : i∉ws := fun hm => absurd (hfirst i hm) (by omega)
  have hfree := h.queued_free (i := i) List.mem_cons_self
  apply h.move (c := {g.calls i with ready := .granted,waiterGranted := true}) h1
  · rw [hfree]
    simp [Call.holds,h2]
  · intro hs
    have hcap := capacity_sequential g hs
    omega
  · exact fun _ _ => Iff.rfl
  · exact List.sublist_cons_self i ws
  · intro k hk hne
    exact (List.mem_cons.mp hk).resolve_left hne
  · exact fun hm => absurd hm hnot
  · exact fun _ _ hr => by cases hr
  · exact fun hx hp => ⟨(h.handed i h1 hx hp).1,fun _ => rfl⟩
  · exact h.owned i h1
  · right
    exact ⟨rfl,fun k hk => (h.behind k hk).2 i List.mem_cons_self,hfirst⟩
  · exact fun _ => List.mem_append_right _ (List.mem_singleton.mpr rfl)

theorem SlotInv.grantLoop (h : SlotInv limbo ws g) :
    SlotInv limbo (ExecutionGate.grantLoop ws g).waiters (ExecutionGate.grantLoop ws g) := by
  induction ws generalizing g with
  | nil => exact h.frame rfl rfl rfl rfl rfl
  | cons i rest ih =>
    simp only [ExecutionGate.grantLoop]
    split_ifs with hb hr hc
    · exact ih (h.shorten hr)
    · apply ih
      have hclosed := h.closeWaiter (i := i) List.mem_cons_self
      apply hclosed.shorten
      rw [ExecutionGate.closeWaiter,setCall_self]
      simp
    · exact ih (h.grant hb)
    · exact h.frame rfl rfl rfl rfl rfl

theorem grantLoop_frame (ws : List Nat) (g : ExecutionGate) :
    (grantLoop ws g).next=g.next ∧ (grantLoop ws g).sequential=g.sequential ∧
      (grantLoop ws g).policy=g.policy ∧ (grantLoop ws g).stale=g.stale := by
  induction ws generalizing g with
  | nil => exact ⟨rfl,rfl,rfl,rfl⟩
  | cons i rest ih =>
    simp only [ExecutionGate.grantLoop]
    split_ifs
    · exact ih g
    · exact ih (g.closeWaiter i)
    · exact ih (g.grant i)
    · exact ⟨rfl,rfl,rfl,rfl⟩

theorem grantLoop_tight (ws : List Nat) (g : ExecutionGate) :
    (grantLoop ws g).waiters=[] ∨ ((grantLoop ws g).capacity : Int)≤(grantLoop ws g).running := by
  induction ws generalizing g with
  | nil => exact Or.inl rfl
  | cons i rest ih =>
    simp only [ExecutionGate.grantLoop]
    split_ifs with hb
    · exact ih g
    · exact ih (g.closeWaiter i)
    · exact ih (g.grant i)
    · right
      show (g.capacity : Int)≤g.running
      omega

theorem grantLoop_calls (h : i∉ws) : (grantLoop ws g).calls i=g.calls i := by
  induction ws generalizing g with
  | nil => rfl
  | cons w rest ih =>
    obtain ⟨hne,hrest⟩ := not_or.mp (fun hx => h (List.mem_cons.mpr hx))
    simp only [ExecutionGate.grantLoop]
    split_ifs
    · exact ih hrest
    · rw [ih hrest]; exact setCall_ne g _ hne
    · rw [ih hrest]; exact setCall_ne g _ hne
    · rfl

theorem SlotInv.grantWaiters (h : SlotInv limbo g.waiters g) :
    SlotInv limbo g.grantWaiters.waiters g.grantWaiters :=
  (h.frame rfl rfl rfl rfl rfl : SlotInv limbo g.waiters {g with stale := false}).grantLoop

theorem grantWaiters_tight (g : ExecutionGate) : Tight g.grantWaiters :=
  fun _ => grantLoop_tight _ _

theorem grantWaiters_calls (h : i∉g.waiters) : g.grantWaiters.calls i=g.calls i :=
  grantLoop_calls h

theorem grantWaiters_next (g : ExecutionGate) : g.grantWaiters.next=g.next :=
  (grantLoop_frame _ _).1

/-! Leaving -/

theorem SlotInv.release_running (h : SlotInv limbo ws g) (hi : i<g.next)
    (hh : (g.calls i).holds=true) : g.release.running=g.running-1 := by
  have hpos := h.running_pos hi hh
  show max 0 (g.running-1)=g.running-1
  omega

theorem SlotInv.finishRun (h : SlotInv limbo g.waiters g) (hi : i<g.next)
    (hlimbo : ∀k,k≠i → limbo≠some k) (hout : i∉g.waiters)
    (hholds : (g.calls i).holds=(g.calls i).granted) (r : Result) :
    SlotInv none (g.finishRun i r).waiters (g.finishRun i r) := by
  have hended : ({g.calls i with phase := .ended,result := some r} : Call).holds=false := by
    simp [Call.holds]
  have hwrite (n : Int) (hn : n+(g.calls i).holds.toNat=g.running) :
      SlotInv none g.waiters {g.setCall i {g.calls i with phase := .ended,result := some r} with
        running := n} := by
    apply h.write hi
    · rw [hended]; simpa using hn
    · intro hs
      have hle := h.single hs
      omega
    · exact fun k hk => iff_of_false (by simp) (hlimbo k hk)
    · exact fun hm => absurd hm hout
    · exact fun _ hp => by cases hp
    · exact fun _ hp => by cases hp
    · exact fun _ he => absurd rfl he
    · intro hx
      rw [hended] at hx
      cases hx
  simp only [ExecutionGate.finishRun]
  split_ifs with hg
  · have hrun := h.release_running hi (hholds.trans hg)
    have hw := hwrite (g.running-1) (by rw [hholds,hg]; simp)
    rw [←hrun] at hw
    exact hw.grantWaiters
  · have hw := hwrite g.running (by rw [hholds]; simp [hg])
    exact hw.grantWaiters

theorem finishRun_tight (g : ExecutionGate) (i : Nat) (r : Result) : Tight (g.finishRun i r) :=
  grantWaiters_tight _

theorem SlotInv.removeOrReleaseWaiter (h : SlotInv none g.waiters g) (hi : i<g.next)
    (hp : (g.calls i).phase=.waiting) :
    SlotInv (some i) (g.removeOrReleaseWaiter i).waiters (g.removeOrReleaseWaiter i) := by
  have hg := (h.handed i hi (by simp) hp).1
  simp only [ExecutionGate.removeOrReleaseWaiter]
  split_ifs with hw
  · have hholds : (g.calls i).holds=true := by simp [Call.holds,hp,hw]
    have hrun := h.release_running hi hholds
    have hfree : ({g.calls i with waiterGranted := false} : Call).holds=false := by
      simp [Call.holds,hg]
    have hset : SlotInv (some i) g.waiters {g.setCall i {g.calls i with waiterGranted := false} with
        running := g.running-1} := by
      apply h.write hi
      · rw [hholds,hfree]; simp
      · intro hs
        have hle := h.single hs
        omega
      · exact fun k hk => iff_of_false (by simpa using Ne.symm hk) (by simp)
      · exact fun hm => absurd hm (h.not_queued (Or.inr (Or.inl hw)))
      · exact fun hx => absurd rfl hx
      · exact fun hx => absurd rfl hx
      · exact fun hx => absurd hp hx
      · intro hx
        rw [hfree] at hx
        cases hx
    rw [←hrun] at hset
    exact hset.grantWaiters
  · have hset : SlotInv (some i) (g.waiters.erase i) {g.setCall i (g.calls i) with
        running := g.running} := by
      have hnd : g.waiters.Nodup := h.sorted.imp (fun hlt => Nat.ne_of_lt hlt)
      apply h.move hi rfl h.single
      · exact fun k hk => iff_of_false (by simpa using Ne.symm hk) (by simp)
      · exact List.erase_sublist
      · exact fun k hk hne => (List.mem_erase_of_ne hne).mpr hk
      · exact fun hm => absurd hm hnd.not_mem_erase
      · exact fun hx => absurd rfl hx
      · exact fun hx => absurd rfl hx
      · exact h.owned i hi
      · exact Or.inl rfl
      · exact h.logged i hi
    have hsame : g.setCall i (g.calls i)=g := by
      simp [ExecutionGate.setCall]
    rw [hsame] at hset
    have hqueue : SlotInv (some i) (g.waiters.erase i) {g with waiters := g.waiters.erase i} :=
      hset.frame rfl rfl rfl rfl rfl
    exact hqueue.grantWaiters

theorem SlotInv.removed (h : SlotInv none g.waiters g) (hi : i<g.next)
    (hp : (g.calls i).phase=.waiting) : i∉(g.removeOrReleaseWaiter i).waiters ∧
      ((g.removeOrReleaseWaiter i).calls i).granted=false ∧
      ((g.removeOrReleaseWaiter i).calls i).holds=false := by
  have hg := (h.handed i hi (by simp) hp).1
  have hlimbo := h.removeOrReleaseWaiter hi hp
  refine ⟨hlimbo.not_queued (Or.inr (Or.inr rfl)),?_⟩
  simp only [ExecutionGate.removeOrReleaseWaiter]
  split_ifs with hw
  · have hout : i∉(g.release.setCall i {g.calls i with waiterGranted := false}).waiters :=
      h.not_queued (Or.inr (Or.inl hw))
    rw [grantWaiters_calls hout,setCall_self]
    simp [Call.holds,hg]
  · have hnd : g.waiters.Nodup := h.sorted.imp (fun hlt => Nat.ne_of_lt hlt)
    have hout : i∉({g with waiters := g.waiters.erase i} : ExecutionGate).waiters :=
      hnd.not_mem_erase
    rw [grantWaiters_calls hout]
    show (g.calls i).granted=false ∧ (g.calls i).holds=false
    simp [Call.holds,hg,hw]

theorem removeOrReleaseWaiter_next (g : ExecutionGate) (i : Nat) :
    (g.removeOrReleaseWaiter i).next=g.next := by
  simp only [ExecutionGate.removeOrReleaseWaiter]
  split_ifs
  · exact grantWaiters_next _
  · exact grantWaiters_next _

theorem SlotInv.giveUp (h : SlotInv none g.waiters g) (hi : i<g.next)
    (hp : (g.calls i).phase=.waiting) (r : Result) :
    SlotInv none ((g.removeOrReleaseWaiter i).finishRun i r).waiters
      ((g.removeOrReleaseWaiter i).finishRun i r) := by
  obtain ⟨hout,hg,hholds⟩ := h.removed hi hp
  apply (h.removeOrReleaseWaiter hi hp).finishRun
  · rw [removeOrReleaseWaiter_next]; exact hi
  · exact fun k hk => by simpa using Ne.symm hk
  · exact hout
  · rw [hg,hholds]

end XiaoQing.Gate
