import Mathlib.Data.List.DropRight
import Mathlib.Logic.Relation
import XiaoQing.Chat.Limiter
import XiaoQing.Framework.Serial

set_option linter.unusedSectionVars false

namespace XiaoQing.Chat.Limiter

open Function (update update_of_ne update_self)

open Framework

variable {κ υ : Type} [DecidableEq κ] [DecidableEq υ]

def Ready (s : Limiter κ υ) (r : Nat) (q : Admit κ υ) : Prop :=
  (s.turns r=some ⟨q,.slotted⟩∧∀h,s.deliveryHolds q.chat=some h → s.settled h)∨
    ∃h,s.turns r=some ⟨q,.settling h⟩∧(s.settled h∨s.expired h)

def Unslotted (s : Limiter κ υ) (r : Nat) (q : Admit κ υ) : Prop :=
  s.turns r=some ⟨q,.arriving⟩∨(s.turns r=some ⟨q,.waiting⟩∧s.chatWaiters q.chat≠some r)

/-- What a step is made of; `ok` is asked of a chat in which a reply is handed out. -/
inductive Move (ok : Limiter κ υ → κ → Prop) (s : Limiter κ υ) : Limiter κ υ → Prop
  | tick (d : Nat) : Move ok s {s with now := s.now+d}
  | arrive (q : Admit κ υ) : Move ok s (s.arrive q)
  | supersede {r : Nat} {q : Admit κ υ} (h : s.turns r=some ⟨q,.arriving⟩) (hr : r+1=s.next) :
      Move ok s (s.supersede q.chat)
  | enqueue {r : Nat} {q : Admit κ υ} (h : s.turns r=some ⟨q,.arriving⟩)
      (hw : s.chatWaiters q.chat=none) (hf : q.maxPerChat ≤ s.chatInflight q.chat) :
      Move ok s (s.enqueue r q)
  | wait {r : Nat} {q : Admit κ υ} (h : s.turns r=some ⟨q,.waiting⟩)
      (hw : s.chatWaiters q.chat=some r) (hf : q.maxPerChat ≤ s.chatInflight q.chat) :
      Move ok s {s with woken := update s.woken r false}
  | dequeue {r : Nat} {q : Admit κ υ} (h : s.turns r=some ⟨q,.waiting⟩)
      (hw : s.chatWaiters q.chat=some r) : Move ok s ((s.forget q.chat).put r q .arriving)
  | turnAway {r : Nat} {q : Admit κ υ} (h : s.turns r=some ⟨q,.waiting⟩)
      (hw : s.chatWaiters q.chat≠some r) : Move ok s (s.put r q (.refused .chatSuperseded))
  | drop {r : Nat} {q : Admit κ υ} (h : Unslotted s r q) {stage : Stage}
      (hs : stage=.refused .chatInflight∨stage=.cancelled) : Move ok s (s.put r q stage)
  | grant {r : Nat} {q : Admit κ υ} (h : s.turns r=some ⟨q,.arriving⟩)
      (hf : 0<q.maxPerChat → s.chatInflight q.chat<q.maxPerChat) : Move ok s (s.grant r q)
  | await {r : Nat} {q : Admit κ υ} {h : Nat} (hr : s.turns r=some ⟨q,.slotted⟩)
      (hh : s.deliveryHolds q.chat=some h) (hs : s.settled h=false) :
      Move ok s (s.put r q (.settling h))
  | giveUp {r : Nat} {q : Admit κ υ} {h : Nat} (hr : s.turns r=some ⟨q,.settling h⟩) :
      Move ok s (s.giveUp q.chat h)
  | sweep : Move ok s s.sweepUserCalls
  | track (u : υ) : Move ok s (s.track u)
  | turnOut {r : Nat} {q : Admit κ υ} {st stage : Stage} (h : s.turns r=some ⟨q,st⟩)
      (hh : st.holdsChat) (hr : st.runs=false) (hs : stage.holdsChat=false)
      (hw : stage≠.waiting) (ha : stage≠.refused .chatSuperseded) : Move ok s (s.turnOut r q stage)
  | admitted {r : Nat} {q : Admit κ υ} (h : Ready s r q)
      (hg : 0<q.maxGlobal → s.globalInflight<q.maxGlobal)
      (hu : 0<q.maxPerUser → s.userInflight q.user<q.maxPerUser)
      (hd : 0<q.maxCallsPerUserPerDay → (s.userCalls q.user).length<q.maxCallsPerUserPerDay)
      (hc : s.userCalls q.user=recentCalls (s.now-day) (s.userCalls q.user))
      (ht : q.user∈s.tracked) : Move ok s (s.admitted r q)
  | finish {r : Nat} {q : Admit κ υ} {stage : Stage} (h : s.turns r=some ⟨q,.inside⟩)
      (hs : stage=.left∨stage=.cancelled) : Move ok s (s.finish r q stage)
  | hold {chat : κ} (h : ok s chat) : Move ok s (s.holdForDelivery chat)
  | release {chat : κ} {h : Nat} (hh : s.handed h=some chat) : Move ok s (s.releaseHold chat h)

abbrev Moves (ok : Limiter κ υ → κ → Prop) : Limiter κ υ → Limiter κ υ → Prop :=
  Relation.ReflTransGen (Move ok)

section

variable {ok : Limiter κ υ → κ → Prop} {s t : Limiter κ υ} {cfg : LimiterConfig} {r : Nat}
  {q : Admit κ υ} {a : LimiterAct κ υ}

theorem put_put {y z : Stage} : (s.put r q y).put r q z=s.put r q z := by
  simp [put]

theorem recentCalls_idem {cutoff : Int} {calls : List Int} :
    recentCalls cutoff (recentCalls cutoff calls)=recentCalls cutoff calls := by
  unfold recentCalls
  exact List.dropWhile_idempotent _ _

omit [DecidableEq κ] [DecidableEq υ] in
theorem Ready.holds (h : Ready s r q) : ∃st,s.turns r=some ⟨q,st⟩∧st.holdsChat∧st.runs=false := by
  rcases h with ⟨h,-⟩ | ⟨h,hs,-⟩
  · exact ⟨_,h,rfl,rfl⟩
  · exact ⟨_,hs,rfl,rfl⟩

theorem Ready.turnOut (h : Ready s r q) (why : LimitExceeded) (hw : why≠.chatSuperseded) :
    Moves ok s (s.turnOut r q (.refused why)) := by
  obtain ⟨st,hst,hc,hr⟩ := h.holds
  refine .single (.turnOut hst hc hr rfl (by simp) ?_)
  simpa using hw

theorem Ready.enter (h : Ready s r q) : Moves ok s (s.enter cfg r q) := by
  have hswept : ∀p : Prop,[Decidable p] → Moves ok s (if p then s.sweepUserCalls else s)∧
      Ready (if p then s.sweepUserCalls else s) r q := by
    intro p _
    split_ifs
    · exact ⟨.single .sweep,h⟩
    · exact ⟨.refl,h⟩
  unfold Limiter.enter
  obtain ⟨hm,hr⟩ := hswept (max 0 cfg.sweepInterval ≤ s.now-s.lastSweepAt∨
    max 1 cfg.maxTrackedUsers ≤ s.tracked.card)
  refine hm.trans ?_
  generalize (if max 0 cfg.sweepInterval ≤ s.now-s.lastSweepAt∨
    max 1 cfg.maxTrackedUsers ≤ s.tracked.card then s.sweepUserCalls else s)=t at hr ⊢
  have htr : (t.track q.user).Ready r q := hr
  simp only
  split_ifs with h1 h2 h3 h4
  · exact hr.turnOut _ (by simp)
  · exact .head (.track q.user) (htr.turnOut .globalInflight (by simp))
  · exact .head (.track q.user) (htr.turnOut .userInflight (by simp))
  · exact .head (.track q.user) (htr.turnOut .dailyUserCalls (by simp))
  · refine .head (.track q.user) (.single (.admitted hr ?_ ?_ ?_ ?_ ?_))
    · intro hg
      exact Nat.lt_of_not_le fun hle => h2 ⟨hg,hle⟩
    · intro hg
      exact Nat.lt_of_not_le fun hle => h3 ⟨hg,hle⟩
    · intro hg
      exact Nat.lt_of_not_le fun hle => h4 ⟨hg,hle⟩
    · simp only [track,update_self]
      exact recentCalls_idem.symm
    · exact Finset.mem_insert_self _ _

end

def slotOf (chat : κ) (o : Option (Turn κ υ)) : Bool :=
  o.any fun t => t.stage.holdsChat && t.request.chat=chat

def running (o : Option (Turn κ υ)) : Bool := o.any fun t => t.stage.runs

def runningFor (user : υ) (o : Option (Turn κ υ)) : Bool :=
  o.any fun t => t.stage.runs && t.request.user=user

structure Counts (s : Limiter κ υ) : Prop where
  table : ∀i,s.next ≤ i → s.turns i=none
  globalCount : s.globalInflight=tally running s.turns s.next
  chatCount : ∀c,s.chatInflight c=tally (slotOf c) s.turns s.next
  userCount : ∀u,s.userInflight u=tally (runningFor u) s.turns s.next

section

variable {ok : Limiter κ υ → κ → Prop} {s t : Limiter κ υ} {r : Nat} {q : Admit κ υ} {st : Stage}

theorem Counts.lt (h : Counts s) {x : Turn κ υ} (hr : s.turns r=some x) : r < s.next := by
  by_contra hn
  rw [h.table r (Nat.le_of_not_lt hn)] at hr
  cases hr

theorem Counts.same (h : Counts s) (ht : t.turns=s.turns) (hn : t.next=s.next)
    (hg : t.globalInflight=s.globalInflight) (hc : t.chatInflight=s.chatInflight)
    (hu : t.userInflight=s.userInflight) : Counts t := by
  constructor
  · rw [ht,hn]
    exact h.table
  · rw [ht,hn,hg]
    exact h.globalCount
  · rw [ht,hn,hc]
    exact h.chatCount
  · rw [ht,hn,hu]
    exact h.userCount

theorem Counts.move (h : Counts s) {st' : Stage} (hr : s.turns r=some ⟨q,st⟩)
    (ht : t.turns=update s.turns r (some ⟨q,st'⟩)) (hn : t.next=s.next)
    (hg : t.globalInflight+st.runs.toNat=s.globalInflight+st'.runs.toNat)
    (hc : ∀c,t.chatInflight c+(st.holdsChat && q.chat=c).toNat=
      s.chatInflight c+(st'.holdsChat && q.chat=c).toNat)
    (hu : ∀u,t.userInflight u+(st.runs && q.user=u).toNat=
      s.userInflight u+(st'.runs && q.user=u).toNat) : Counts t := by
  have hlt := h.lt hr
  constructor
  · intro i hi
    rw [hn] at hi
    rw [ht,update_of_ne (by omega)]
    exact h.table i hi
  · have hu := tally_update running s.turns s.next r (some ⟨q,st'⟩) hlt
    have he := h.globalCount
    rw [ht,hn]
    simp only [running,hr,Option.any_some] at hu he ⊢
    omega
  · intro c
    have hu := tally_update (slotOf c) s.turns s.next r (some ⟨q,st'⟩) hlt
    have he := h.chatCount c
    have hc := hc c
    rw [ht,hn]
    simp only [slotOf,hr,Option.any_some] at hu he ⊢
    omega
  · intro u
    have hu' := tally_update (runningFor u) s.turns s.next r (some ⟨q,st'⟩) hlt
    have he := h.userCount u
    have hu := hu u
    rw [ht,hn]
    simp only [runningFor,hr,Option.any_some] at hu' he ⊢
    omega

variable {z : Stage}

theorem Counts.put (h : Counts s) (hr : s.turns r=some ⟨q,st⟩)
    (hc : z.holdsChat=st.holdsChat) (hu : z.runs=st.runs) : Counts (s.put r q z) :=
  h.move hr rfl rfl (by rw [hu]; rfl) (by intro c; rw [hc]; rfl) (by intro u; rw [hu]; rfl)

theorem Counts.chat_pos (h : Counts s) (hr : s.turns r=some ⟨q,st⟩) (hs : st.holdsChat) :
    0 < s.chatInflight q.chat := by
  rw [h.chatCount]
  exact tally_pos _ _ _ r (h.lt hr) (by simp [slotOf,hr,hs])

theorem Counts.running_pos (h : Counts s) (hr : s.turns r=some ⟨q,st⟩) (hs : st.runs) :
    0 < s.globalInflight∧0 < s.userInflight q.user := by
  rw [h.globalCount,h.userCount]
  exact ⟨tally_pos _ _ _ r (h.lt hr) (by simp [running,hr,hs]),
    tally_pos _ _ _ r (h.lt hr) (by simp [runningFor,hr,hs])⟩

theorem add_ite_eq {ι : Type} [DecidableEq ι] (f : ι → Nat) (k i : ι) :
    update f k (f k+1) i=f i+(decide (k=i)).toNat := by
  by_cases h : k=i
  · subst h
    simp
  · simp [h,update_of_ne (Ne.symm h)]

theorem decrement_add {ι : Type} [DecidableEq ι] {f : ι → Nat} {k : ι} (hk : 0<f k) (i : ι) :
    decrement f k i+(decide (k=i)).toNat=f i := by
  unfold decrement
  by_cases h : k=i
  · subst h
    simp only [update_self,decide_true,Bool.toNat_true]
    omega
  · simp [h,update_of_ne (Ne.symm h)]

theorem Move.counts (h : Counts s) (hm : Move ok s t) : Counts t := by
  cases hm with
  | tick d => exact h.same rfl rfl rfl rfl rfl
  | arrive q =>
    have hnew : s.turns s.next=none := h.table _ (Nat.le_refl _)
    refine ⟨fun i hi => ?_,?_,fun c => ?_,fun u => ?_⟩
    · have hi : s.next+1 ≤ i := hi
      change update s.turns s.next _ i=none
      rw [update_of_ne (by omega)]
      exact h.table i (by omega)
    · change s.globalInflight=tally running (update s.turns s.next _) (s.next+1)
      rw [tally_push,h.globalCount]
      rfl
    · change s.chatInflight c=tally (slotOf c) (update s.turns s.next _) (s.next+1)
      rw [tally_push,h.chatCount]
      rfl
    · change s.userInflight u=tally (runningFor u) (update s.turns s.next _) (s.next+1)
      rw [tally_push,h.userCount]
      rfl
  | supersede hr hn =>
    unfold Limiter.supersede
    split_ifs
    · exact h
    · exact h.same rfl rfl rfl rfl rfl
  | enqueue hr hw hf => exact (h.put (z:=.waiting) hr rfl rfl).same rfl rfl rfl rfl rfl
  | wait hr hw hf => exact h.same rfl rfl rfl rfl rfl
  | dequeue hr hw => exact (h.put (z:=.arriving) hr rfl rfl).same rfl rfl rfl rfl rfl
  | turnAway hr hw => exact h.put hr rfl rfl
  | drop hu hs =>
    rcases hu with hr | ⟨hr,-⟩ <;> rcases hs with rfl | rfl <;> exact h.put hr rfl rfl
  | grant hr hf =>
    refine h.move hr rfl rfl rfl (fun c => ?_) (fun u => rfl)
    simp only [Limiter.grant,add_ite_eq]
    rfl
  | await hr hh hs => exact h.put hr rfl rfl
  | giveUp hr => exact h.same rfl rfl rfl rfl rfl
  | sweep => exact h.same rfl rfl rfl rfl rfl
  | track u => exact h.same rfl rfl rfl rfl rfl
  | @turnOut r q st stage hr hh hruns hs hw ha =>
    have hsr : stage.runs=false := by cases stage <;> first | rfl | cases hs
    refine h.move hr rfl rfl ?_ (fun c => ?_) (fun u => ?_)
    · rw [hruns,hsr]
      rfl
    · have hd := decrement_add (h.chat_pos hr hh) c
      rw [hh,hs]
      simpa [Limiter.turnOut,notifyAll,Limiter.put] using hd
    · rw [hruns,hsr]
      rfl
  | @admitted r q hready hg hu hd hc ht =>
    obtain ⟨st,hr,hh,hruns⟩ := hready.holds
    refine h.move hr rfl rfl ?_ (fun c => ?_) (fun u => ?_)
    · rw [hruns]
      rfl
    · rw [hh]
      rfl
    · rw [hruns]
      simp only [Limiter.admitted,add_ite_eq]
      rfl
  | @finish r q stage hr hs =>
    have hs' : stage.holdsChat=false∧stage.runs=false := by rcases hs with rfl | rfl <;> exact ⟨rfl,rfl⟩
    obtain ⟨hg,hu⟩ := h.running_pos hr rfl
    refine h.move hr rfl rfl ?_ (fun c => ?_) (fun u => ?_)
    · rw [hs'.2]
      change s.globalInflight-1+1=s.globalInflight+0
      omega
    · have hd := decrement_add (h.chat_pos hr rfl) c
      rw [hs'.1]
      simpa [Limiter.finish,Limiter.turnOut,notifyAll,Limiter.put,Stage.holdsChat] using hd
    · have hd := decrement_add hu u
      rw [hs'.2]
      simpa [Limiter.finish,Limiter.turnOut,notifyAll,Limiter.put,Stage.runs] using hd
  | hold ho => exact h.same rfl rfl rfl rfl rfl
  | release hh => exact h.same rfl rfl rfl rfl rfl

def Newer (s : Limiter κ υ) (r : Nat) (chat : κ) : Prop :=
  ∃r' x,r<r'∧s.turns r'=some x∧x.request.chat=chat

structure Queue (s : Limiter κ υ) : Prop where
  ticket : ∀c r,s.chatWaiters c=some r → ∃q,s.turns r=some ⟨q,.waiting⟩∧q.chat=c
  passed : ∀r q,s.turns r=some ⟨q,.waiting⟩ → s.chatWaiters q.chat≠some r →
    s.woken r=true∧Newer s r q.chat
  superseded : ∀r q,s.turns r=some ⟨q,.refused .chatSuperseded⟩ → Newer s r q.chat
  full : ∀r q,s.turns r=some ⟨q,.waiting⟩ → s.chatWaiters q.chat=some r → s.woken r=false →
    q.maxPerChat ≤ s.chatInflight q.chat

def Keeps (s t : Limiter κ υ) : Prop :=
  ∀i x,s.turns i=some x → ∃y,t.turns i=some y∧y.request=x.request

theorem Keeps.same (h : t.turns=s.turns) : Keeps s t := fun i x hx => ⟨x,by rw [h,hx],rfl⟩

theorem Keeps.put (hr : s.turns r=some ⟨q,st⟩)
    (h : t.turns=update s.turns r (some ⟨q,z⟩)) : Keeps s t := by
  intro i x hx
  by_cases hi : i=r
  · subst i
    rw [hr,Option.some.injEq] at hx
    exact ⟨⟨q,z⟩,by rw [h,update_self],by rw [← hx]⟩
  · exact ⟨x,by rw [h,update_of_ne hi,hx],rfl⟩

theorem Newer.keep {chat : κ} (hk : Keeps s t) (h : Newer s r chat) : Newer t r chat := by
  obtain ⟨r',x,hlt,hx,hc⟩ := h
  obtain ⟨y,hy,hr⟩ := hk r' x hx
  exact ⟨r',y,hlt,hy,hr ▸ hc⟩

theorem Queue.same (h : Queue s) (ht : t.turns=s.turns) (hw : t.chatWaiters=s.chatWaiters)
    (hwoken : t.woken=s.woken) (hc : t.chatInflight=s.chatInflight) : Queue t := by
  have hk : Keeps s t := .same ht
  constructor
  · rw [ht,hw]
    exact h.ticket
  · rw [ht,hw,hwoken]
    exact fun r q hr hn => ⟨(h.passed r q hr hn).1,(h.passed r q hr hn).2.keep hk⟩
  · rw [ht]
    exact fun r q hr => (h.superseded r q hr).keep hk
  · rw [ht,hw,hwoken,hc]
    exact h.full

theorem Queue.put (h : Queue s) (hr : s.turns r=some ⟨q,st⟩)
    (hst : st=.waiting → s.chatWaiters q.chat≠some r) (hw : z≠.waiting)
    (ha : z=.refused .chatSuperseded → Newer s r q.chat)
    (ht : t.turns=update s.turns r (some ⟨q,z⟩)) (hcw : t.chatWaiters=s.chatWaiters)
    (hwoken : ∀i,s.woken i=true → t.woken i=true)
    (hfull : ∀i x,s.turns i=some ⟨x,.waiting⟩ → s.woken i=false → t.woken i=false →
      s.chatInflight x.chat≤t.chatInflight x.chat) : Queue t := by
  have hk : Keeps s t := .put hr ht
  have hback : ∀i x,t.turns i=some ⟨x,.waiting⟩ → s.turns i=some ⟨x,.waiting⟩ := by
    intro i x hx
    rw [ht] at hx
    by_cases hi : i=r
    · subst i
      rw [update_self,Option.some.injEq,Turn.mk.injEq] at hx
      exact absurd hx.2 hw
    · rwa [update_of_ne hi] at hx
  constructor
  · intro c i hi
    rw [hcw] at hi
    obtain ⟨x,hx,hc⟩ := h.ticket c i hi
    refine ⟨x,?_,hc⟩
    have hir : i≠r := by
      rintro rfl
      rw [hr,Option.some.injEq,Turn.mk.injEq] at hx
      exact hst hx.2 (by rw [hx.1,hc]; exact hi)
    rw [ht,update_of_ne hir]
    exact hx
  · intro i x hx hn
    rw [hcw] at hn
    obtain ⟨h1,h2⟩ := h.passed i x (hback i x hx) hn
    exact ⟨hwoken i h1,h2.keep hk⟩
  · intro i x hx
    rw [ht] at hx
    by_cases hi : i=r
    · subst i
      rw [update_self,Option.some.injEq,Turn.mk.injEq] at hx
      rw [← hx.1]
      exact (ha hx.2).keep hk
    · rw [update_of_ne hi] at hx
      exact (h.superseded i x hx).keep hk
  · intro i x hx hi hwk
    rw [hcw] at hi
    have hs := hback i x hx
    cases hw' : s.woken i with
    | true => rw [hwoken i hw'] at hwk; cases hwk
    | false => exact (h.full i x hs hi hw').trans (hfull i x hs hw' hwk)

theorem Queue.arrive (h : Queue s) (hcn : Counts s) (q : Admit κ υ) : Queue (s.arrive q) := by
  have hnew : s.turns s.next=none := hcn.table _ (Nat.le_refl _)
  have hne : ∀{i x},s.turns i=some x → i≠s.next := by
    rintro i x hx rfl
    rw [hnew] at hx
    cases hx
  have hold : ∀{i x},s.turns i=some x → (s.arrive q).turns i=some x := fun hx =>
    (update_of_ne (hne hx) _ _).trans hx
  have hk : Keeps s (s.arrive q) := fun i x hx => ⟨x,hold hx,rfl⟩
  have hback : ∀i x st,st≠.arriving → (s.arrive q).turns i=some ⟨x,st⟩ → s.turns i=some ⟨x,st⟩ := by
    intro i x st hst hx
    by_cases hi : i=s.next
    · subst i
      simp only [Limiter.arrive,Limiter.put,update_self,Option.some.injEq,Turn.mk.injEq] at hx
      exact absurd hx.2.symm hst
    · simpa only [Limiter.arrive,Limiter.put,update_of_ne hi] using hx
  constructor
  · intro c r hc
    obtain ⟨x,hx,hxc⟩ := h.ticket c r hc
    exact ⟨x,hold hx,hxc⟩
  · intro r x hx hn
    obtain ⟨h1,h2⟩ := h.passed r x (hback r x _ (by simp) hx) hn
    exact ⟨h1,h2.keep hk⟩
  · intro r x hx
    exact (h.superseded r x (hback r x _ (by simp) hx)).keep hk
  · intro r x hx
    exact h.full r x (hback r x _ (by simp) hx)

theorem Queue.supersede (h : Queue s) (hcn : Counts s) (hr : s.turns r=some ⟨q,.arriving⟩)
    (hn : r+1=s.next) : Queue (s.supersede q.chat) := by
  unfold Limiter.supersede
  split_ifs with hnone
  · exact h
  · have hk : Keeps s (s.forget q.chat).notifyAll := .same rfl
    constructor
    · intro c i hi
      by_cases hc : c=q.chat
      · subst c
        simp [notifyAll,forget] at hi
      · simp only [notifyAll,forget,update_of_ne hc] at hi
        exact h.ticket c i hi
    · intro i x hx hn'
      refine ⟨rfl,?_⟩
      by_cases hc : x.chat=q.chat
      · have hir : i≠r := by
          rintro rfl
          have hx : s.turns i=some ⟨x,.waiting⟩ := hx
          rw [hr] at hx
          cases hx
        have hi := hcn.lt (r:=i) hx
        exact ⟨r,⟨q,.arriving⟩,by omega,hr,hc.symm⟩
      · simp only [notifyAll,forget,update_of_ne hc] at hn'
        exact (h.passed i x hx hn').2.keep hk
    · exact fun i x hx => (h.superseded i x hx).keep hk
    · intro i x hx hi hw
      cases hw

theorem Queue.enqueue (h : Queue s) (hr : s.turns r=some ⟨q,.arriving⟩)
    (hw : s.chatWaiters q.chat=none) (hf : q.maxPerChat ≤ s.chatInflight q.chat) :
    Queue (s.enqueue r q) := by
  have ht : (s.enqueue r q).turns=update s.turns r (some ⟨q,.waiting⟩) := rfl
  have hk : Keeps s (s.enqueue r q) := .put hr ht
  have hne : ∀{i x},i≠r → (s.enqueue r q).turns i=some x → s.turns i=some x := by
    intro i x hi hx
    rwa [ht,update_of_ne hi] at hx
  have hself : ∀{x st},(s.enqueue r q).turns r=some ⟨x,st⟩ → x=q∧st=.waiting := by
    intro x st hx
    rw [ht,update_self,Option.some.injEq,Turn.mk.injEq] at hx
    exact ⟨hx.1.symm,hx.2.symm⟩
  constructor
  · intro c i hi
    simp only [Limiter.enqueue] at hi
    by_cases hc : c=q.chat
    · subst c
      rw [update_self,Option.some.injEq] at hi
      subst i
      exact ⟨q,by rw [ht,update_self],rfl⟩
    · rw [update_of_ne hc] at hi
      obtain ⟨x,hx,hxc⟩ := h.ticket c i hi
      have hir : i≠r := by
        rintro rfl
        rw [hr] at hx
        cases hx
      exact ⟨x,by rw [ht,update_of_ne hir,hx],hxc⟩
  · intro i x hx hn
    by_cases hi : i=r
    · subst i
      obtain ⟨rfl,-⟩ := hself hx
      simp [Limiter.enqueue] at hn
    · have hn' : s.chatWaiters x.chat≠some i := by
        intro hs
        by_cases hc : x.chat=q.chat
        · rw [hc,hw] at hs
          cases hs
        · exact hn (by simpa [Limiter.enqueue,update_of_ne hc] using hs)
      obtain ⟨h1,h2⟩ := h.passed i x (hne hi hx) hn'
      exact ⟨by simpa [Limiter.enqueue,update_of_ne hi] using h1,h2.keep hk⟩
  · intro i x hx
    by_cases hi : i=r
    · subst i
      obtain ⟨-,hst⟩ := hself hx
      cases hst
    · exact (h.superseded i x (hne hi hx)).keep hk
  · intro i x hx hi hwk
    by_cases hir : i=r
    · subst i
      obtain ⟨rfl,-⟩ := hself hx
      exact hf
    · have hc : x.chat≠q.chat := by
        intro hc
        simp only [Limiter.enqueue,hc,update_self,Option.some.injEq] at hi
        exact hir hi.symm
      simp only [Limiter.enqueue,update_of_ne hc,update_of_ne hir] at hi hwk
      exact h.full i x (hne hir hx) hi hwk

theorem Queue.wait (h : Queue s) (hr : s.turns r=some ⟨q,.waiting⟩)
    (hw : s.chatWaiters q.chat=some r) (hf : q.maxPerChat ≤ s.chatInflight q.chat) :
    Queue {s with woken := update s.woken r false} := by
  have hk : Keeps s {s with woken := update s.woken r false} := .same rfl
  constructor
  · exact h.ticket
  · intro i x hx hn
    have hir : i≠r := by
      rintro rfl
      have hx : s.turns i=some ⟨x,.waiting⟩ := hx
      rw [hr,Option.some.injEq,Turn.mk.injEq] at hx
      exact hn (hx.1 ▸ hw)
    obtain ⟨h1,h2⟩ := h.passed i x hx hn
    exact ⟨by simpa only [update_of_ne hir] using h1,h2.keep hk⟩
  · exact fun i x hx => (h.superseded i x hx).keep hk
  · intro i x hx hi hwk
    by_cases hir : i=r
    · subst i
      have hx : s.turns r=some ⟨x,.waiting⟩ := hx
      rw [hr,Option.some.injEq,Turn.mk.injEq] at hx
      exact hx.1 ▸ hf
    · simp only [update_of_ne hir] at hwk
      exact h.full i x hx hi hwk

theorem Queue.dequeue (h : Queue s) (hr : s.turns r=some ⟨q,.waiting⟩)
    (hw : s.chatWaiters q.chat=some r) : Queue ((s.forget q.chat).put r q .arriving) := by
  have ht : ((s.forget q.chat).put r q .arriving).turns=
      update s.turns r (some ⟨q,.arriving⟩) := rfl
  have hk : Keeps s ((s.forget q.chat).put r q .arriving) := .put hr ht
  have hback : ∀{i x st},st≠.arriving → ((s.forget q.chat).put r q .arriving).turns i=some ⟨x,st⟩ →
      i≠r∧s.turns i=some ⟨x,st⟩ := by
    intro i x st hst hx
    rw [ht] at hx
    by_cases hi : i=r
    · subst i
      rw [update_self,Option.some.injEq,Turn.mk.injEq] at hx
      exact absurd hx.2.symm hst
    · rw [update_of_ne hi] at hx
      exact ⟨hi,hx⟩
  constructor
  · intro c i hi
    by_cases hc : c=q.chat
    · subst c
      simp [forget,Limiter.put] at hi
    · simp only [forget,Limiter.put,update_of_ne hc] at hi
      obtain ⟨x,hx,hxc⟩ := h.ticket c i hi
      have hir : i≠r := by
        rintro rfl
        rw [hr,Option.some.injEq,Turn.mk.injEq] at hx
        exact hc (by rw [← hxc,hx.1])
      exact ⟨x,by rw [ht,update_of_ne hir,hx],hxc⟩
  · intro i x hx hn
    obtain ⟨hir,hx⟩ := hback (by simp) hx
    have hn' : s.chatWaiters x.chat≠some i := by
      intro hs
      by_cases hc : x.chat=q.chat
      · rw [hc,hw,Option.some.injEq] at hs
        exact hir hs.symm
      · exact hn (by simpa [forget,Limiter.put,update_of_ne hc] using hs)
    obtain ⟨h1,h2⟩ := h.passed i x hx hn'
    exact ⟨h1,h2.keep hk⟩
  · intro i x hx
    exact (h.superseded i x (hback (by simp) hx).2).keep hk
  · intro i x hx hi hwk
    have hc : x.chat≠q.chat := by
      intro hc
      simp [forget,Limiter.put,hc] at hi
    simp only [forget,Limiter.put,update_of_ne hc] at hi
    exact h.full i x (hback (by simp) hx).2 hi hwk

theorem Move.queue (hcn : Counts s) (h : Queue s) (hm : Move ok s t) : Queue t := by
  cases hm with
  | tick d => exact h.same rfl rfl rfl rfl
  | arrive q => exact h.arrive hcn q
  | supersede hr hn => exact h.supersede hcn hr hn
  | enqueue hr hw hf => exact h.enqueue hr hw hf
  | wait hr hw hf => exact h.wait hr hw hf
  | dequeue hr hw => exact h.dequeue hr hw
  | turnAway hr hw =>
    exact h.put hr (fun _ => hw) (by simp) (fun _ => (h.passed _ _ hr hw).2) rfl rfl
      (fun _ hi => hi) (fun _ _ _ _ _ => Nat.le_refl _)
  | drop hu hs =>
    have hne : ∀{st : Stage},st=.refused .chatInflight∨st=.cancelled →
        st≠.waiting∧st≠.refused .chatSuperseded := by
      rintro st (rfl | rfl) <;> simp
    rcases hu with hr | ⟨hr,hw⟩
    · exact h.put hr (by simp) (hne hs).1 (fun he => absurd he (hne hs).2) rfl rfl
        (fun _ hi => hi) (fun _ _ _ _ _ => Nat.le_refl _)
    · exact h.put hr (fun _ => hw) (hne hs).1 (fun he => absurd he (hne hs).2) rfl rfl
        (fun _ hi => hi) (fun _ _ _ _ _ => Nat.le_refl _)
  | @grant r q hr hf =>
    refine h.put (z:=.slotted) hr (by simp) (by simp) (by simp) rfl rfl (fun _ hi => hi) ?_
    intro i x _ _ _
    simp only [Limiter.grant,add_ite_eq]
    exact Nat.le_add_right _ _
  | await hr hh hs =>
    exact h.put hr (by simp) (by simp) (by simp) rfl rfl (fun _ hi => hi)
      (fun _ _ _ _ _ => Nat.le_refl _)
  | giveUp hr => exact h.same rfl rfl rfl rfl
  | sweep => exact h.same rfl rfl rfl rfl
  | track u => exact h.same rfl rfl rfl rfl
  | @turnOut r q st stage hr hh hruns hs hw ha =>
    refine h.put hr ?_ hw (fun he => absurd he ha) rfl rfl (fun _ _ => rfl) ?_
    · rintro rfl
      cases hh
    · intro i x _ _ hwk
      cases hwk
  | @admitted r q hready hg hu hd hc ht =>
    obtain ⟨st,hr,hh,hruns⟩ := hready.holds
    refine h.put (z:=.inside) hr ?_ (by simp) (by simp) rfl rfl (fun _ hi => hi)
      (fun _ _ _ _ _ => Nat.le_refl _)
    rintro rfl
    cases hh
  | @finish r q stage hr hs =>
    refine h.put (z:=stage) hr (by simp) ?_ ?_ rfl rfl (fun _ _ => rfl) ?_
    · rcases hs with rfl | rfl <;> simp
    · rcases hs with rfl | rfl <;> simp
    · intro i x _ _ hwk
      cases hwk
  | hold ho => exact h.same rfl rfl rfl rfl
  | release hh => exact h.same rfl rfl rfl rfl

structure Calls (s : Limiter κ υ) : Prop where
  past : ∀a∈s.admissions,a.time ≤ s.now
  ordered : s.admissions.Pairwise fun a b => a.time≤b.time
  kept : ∀u,∃old,((s.admissions.filter fun a => a.request.user=u).map Admission.time)=old++s.userCalls u∧
    ∀x∈old,x < s.now-day
  untracked : ∀u∉s.tracked,s.userCalls u=[]

/-- Admissions of the user of `a` in the day up to `a`. -/
def inDayBefore (a : Admission κ υ) (log : List (Admission κ υ)) : List (Admission κ υ) :=
  log.filter fun b => b.request.user=a.request.user && a.time-day≤b.time

structure Lawful (s : Limiter κ υ) : Prop where
  limits : ∀a∈s.admissions,(0<a.request.maxGlobal → a.globalInflight≤a.request.maxGlobal)∧
    (0<a.request.maxPerUser → a.userInflight≤a.request.maxPerUser)∧
    (0<a.chatLimit → a.chatInflight≤a.chatLimit)
  chat : ∀c,0 < s.chatLimit c → s.chatInflight c ≤ s.chatLimit c
  daily : ∀pre a post,s.admissions=pre++a::post → 0<a.request.maxCallsPerUserPerDay →
    (inDayBefore a (pre++[a])).length≤a.request.maxCallsPerUserPerDay

theorem Calls.same (h : Calls s) (ha : t.admissions=s.admissions) (hu : t.userCalls=s.userCalls)
    (ht : t.tracked=s.tracked) (hn : s.now≤t.now) : Calls t := by
  constructor
  · rw [ha]
    exact fun a hm => (h.past a hm).trans hn
  · rw [ha]
    exact h.ordered
  · intro u
    obtain ⟨old,he,hold⟩ := h.kept u
    exact ⟨old,by rw [ha,hu]; exact he,fun x hx => by have := hold x hx; omega⟩
  · rw [ht,hu]
    exact h.untracked

theorem Calls.recent (h : Calls s) (u : υ) :
    ∃old,((s.admissions.filter fun a => a.request.user=u).map Admission.time)=
      old++recentCalls (s.now-day) (s.userCalls u)∧∀x∈old,x < s.now-day := by
  obtain ⟨old,he,hold⟩ := h.kept u
  refine ⟨old++(s.userCalls u).takeWhile (· < s.now-day),?_,?_⟩
  · rw [he,List.append_assoc,recentCalls,List.takeWhile_append_dropWhile]
  · intro x hx
    rcases List.mem_append.mp hx with hx | hx
    · exact hold x hx
    · simpa using List.mem_takeWhile_imp hx

theorem Move.calls (h : Calls s) (hm : Move ok s t) : Calls t := by
  cases hm with
  | tick d => exact h.same rfl rfl rfl (by simp)
  | supersede hr hn =>
    unfold Limiter.supersede
    split_ifs
    · exact h
    · exact h.same rfl rfl rfl (le_refl _)
  | sweep =>
    refine ⟨h.past,h.ordered,h.recent,?_⟩
    intro u hu
    change recentCalls (s.now-day) (s.userCalls u)=[]
    by_cases hus : u∈s.tracked
    · by_contra hne
      exact hu (Finset.mem_filter.mpr ⟨hus,hne⟩)
    · rw [h.untracked u hus]
      rfl
  | track u =>
    refine ⟨h.past,h.ordered,fun v => ?_,?_⟩
    · by_cases hv : v=u
      · subst v
        obtain ⟨old,he,hold⟩ := h.recent u
        refine ⟨old,he.trans ?_,hold⟩
        simp only [Limiter.track,update_self]
        by_cases hut : u∈s.tracked
        · rw [if_pos hut]
        · rw [if_neg hut,h.untracked u hut]
      · simp only [Limiter.track,update_of_ne hv]
        exact h.kept v
    · intro v hv
      have hvu : v≠u := fun he => hv (he ▸ Finset.mem_insert_self _ _)
      simp only [Limiter.track,update_of_ne hvu]
      exact h.untracked v fun hm => hv (Finset.mem_insert_of_mem hm)
  | @admitted r q hready hg hu hd hc ht =>
    refine ⟨?_,?_,fun u => ?_,?_⟩
    · intro a ha
      rcases List.mem_append.mp ha with ha | ha
      · exact h.past a ha
      · rw [List.mem_singleton.mp ha]
        exact Int.le_refl _
    · refine List.pairwise_append.mpr ⟨h.ordered,List.pairwise_singleton _ _,?_⟩
      intro a ha b hb
      rw [List.mem_singleton.mp hb]
      exact h.past a ha
    · obtain ⟨old,he,hold⟩ := h.kept u
      refine ⟨old,?_,hold⟩
      simp only [Limiter.admitted,List.filter_append,List.map_append,he]
      by_cases huq : u=q.user
      · subst u
        simp
      · simp [update_of_ne huq,Ne.symm huq]
    · intro v hv
      have hvu : v≠q.user := fun he => hv (he ▸ ht)
      simp only [Limiter.admitted,update_of_ne hvu]
      exact h.untracked v hv
  | _ => exact h.same rfl rfl rfl (Int.le_refl _)

theorem Calls.window (h : Calls s) {u : υ}
    (hc : s.userCalls u=recentCalls (s.now-day) (s.userCalls u)) :
    (s.admissions.filter fun b => b.request.user=u && s.now-day≤b.time).length=
      (s.userCalls u).length := by
  obtain ⟨old,he,hold⟩ := h.kept u
  have hfilter : (s.admissions.filter fun b => b.request.user=u && s.now-day≤b.time)=
      (s.admissions.filter fun a => a.request.user=u).filter fun b => s.now-day≤b.time := by
    rw [List.filter_filter]
    exact List.filter_congr fun a _ => Bool.and_comm _ _
  have hmap : ((s.admissions.filter fun a => a.request.user=u).filter
      fun b => s.now-day≤b.time).map Admission.time=(old++s.userCalls u).filter (s.now-day≤·) := by
    rw [← he,List.filter_map]
    rfl
  have hsorted : (s.userCalls u).Pairwise (·≤·) := by
    have hp : ((s.admissions.filter fun a => a.request.user=u).map Admission.time).Pairwise (·≤·) :=
      List.pairwise_map.mpr (h.ordered.filter _)
    rw [he] at hp
    exact (List.pairwise_append.mp hp).2.1
  have hrecent : ∀x∈s.userCalls u,s.now-day≤x := by
    cases hcs : s.userCalls u with
    | nil => simp
    | cons y ys =>
      rw [hcs] at hc hsorted
      have hy : s.now-day≤y := by
        by_contra hlt
        rw [recentCalls,List.dropWhile_cons,if_pos (decide_eq_true (Int.not_le.mp hlt))] at hc
        have := congrArg List.length hc
        have := List.length_dropWhile_le (fun x => decide (x < s.now-day)) ys
        simp only [List.length_cons] at *
        omega
      intro x hx
      rcases List.mem_cons.mp hx with rfl | hx
      · exact hy
      · exact hy.trans ((List.pairwise_cons.mp hsorted).1 x hx)
  have hold' : old.filter (s.now-day≤·)=[] := by
    rw [List.filter_eq_nil_iff]
    intro x hx
    have hx := hold x hx
    rw [decide_eq_true_eq]
    omega
  have hnew : (s.userCalls u).filter (s.now-day≤·)=s.userCalls u := by
    rw [List.filter_eq_self]
    intro x hx
    simpa using hrecent x hx
  rw [List.filter_append,hold',hnew,List.nil_append] at hmap
  rw [hfilter,← hmap,List.length_map]

theorem Lawful.same (h : Lawful s) (ha : t.admissions=s.admissions) (hl : t.chatLimit=s.chatLimit)
    (hc : ∀c,t.chatInflight c ≤ s.chatInflight c) : Lawful t := by
  constructor
  · rw [ha]
    exact h.limits
  · intro c hp
    rw [hl] at hp ⊢
    exact (hc c).trans (h.chat c hp)
  · rw [ha]
    exact h.daily

theorem decrement_le {ι : Type} [DecidableEq ι] (f : ι → Nat) (k i : ι) : decrement f k i≤f i := by
  unfold decrement
  by_cases h : i=k
  · subst h
    simp
  · rw [update_of_ne h]

theorem Move.lawful (hca : Calls s) (h : Lawful s) (hm : Move ok s t) : Lawful t := by
  cases hm with
  | supersede hr hn =>
    unfold Limiter.supersede
    split_ifs
    · exact h
    · exact h.same rfl rfl fun _ => le_refl _
  | @grant r q hr hf =>
    refine ⟨h.limits,fun c hp => ?_,h.daily⟩
    simp only [Limiter.grant] at hp ⊢
    by_cases hc : c=q.chat
    · subst c
      rw [update_self] at hp ⊢
      rw [update_self]
      exact hf hp
    · rw [update_of_ne hc] at hp ⊢
      rw [update_of_ne hc]
      exact h.chat c hp
  | turnOut hr hh hruns hs hw ha => exact h.same rfl rfl (decrement_le _ _)
  | finish hr hs => exact h.same rfl rfl (decrement_le _ _)
  | @admitted r q hready hg hu hd hc ht =>
    refine ⟨?_,h.chat,?_⟩
    · intro a ha
      rcases List.mem_append.mp ha with ha | ha
      · exact h.limits a ha
      · rw [List.mem_singleton.mp ha]
        exact ⟨hg,hu,h.chat q.chat⟩
    · intro pre a post heq hp
      rcases log_split heq with ⟨rfl,rfl,-⟩ | ⟨rest,-,hlog⟩
      · have hw := hca.window hc
        have hd := hd hp
        unfold inDayBefore
        rw [List.filter_append,List.length_append,hw]
        have hself := List.length_filter_le
          (fun b : Admission κ υ => decide (b.request.user=q.user) && decide (s.now-day≤b.time))
          [⟨r,q,s.now,s.globalInflight+1,s.chatInflight q.chat,s.chatLimit q.chat,
            s.userInflight q.user+1,s.unsettled q.chat⟩]
        rw [List.length_singleton] at hself
        exact (Nat.add_le_add_left hself _).trans (Nat.succ_le_of_lt hd)
      · exact h.daily pre a rest hlog hp
  | _ => exact h.same rfl rfl fun _ => le_refl _

def Apart (s : Limiter κ υ) (chat : κ) : Prop :=
  s.unsettled chat=[]∧∀r q h,s.turns r=some ⟨q,.settling h⟩ → q.chat≠chat

structure Holds (s : Limiter κ υ) : Prop where
  handed : ∀h,s.nextHold≤h → s.handed h=none
  held : ∀h c,s.handed h=some c → s.settled h=false → s.expired h=false → s.deliveryHolds c=some h
  known : ∀c h,s.deliveryHolds c=some h → s.handed h=some c
  awaited : ∀r q h h',s.turns r=some ⟨q,.settling h⟩ → s.handed h'=some q.chat →
    s.settled h'=false → s.expired h'=false → h'=h
  clean : ∀a∈s.admissions,a.unsettled=[]

theorem unsettled_eq_nil {c : κ} : s.unsettled c=[]↔
    ∀h < s.nextHold,s.handed h=some c → s.settled h=false → s.expired h≠false := by
  unfold unsettled
  rw [List.filter_eq_nil_iff]
  simp only [List.mem_range]
  constructor
  · intro h k hk hc hs he
    exact h k hk (by simp [hc,hs,he])
  · intro h k hk hp
    simp only [Bool.and_eq_true,decide_eq_true_eq,Bool.not_eq_true'] at hp
    exact h k hk hp.1.1 hp.1.2 hp.2

theorem Holds.same (h : Holds s) (hh : t.handed=s.handed) (hn : t.nextHold=s.nextHold)
    (hs : t.settled=s.settled) (he : t.expired=s.expired) (hd : t.deliveryHolds=s.deliveryHolds)
    (ha : t.admissions=s.admissions)
    (ht : ∀r q k,t.turns r=some ⟨q,.settling k⟩ → s.turns r=some ⟨q,.settling k⟩) : Holds t := by
  constructor
  · rw [hh,hn]
    exact h.handed
  · rw [hh,hs,he,hd]
    exact h.held
  · rw [hh,hd]
    exact h.known
  · rw [hh,hs,he]
    exact fun r q k k' hr => h.awaited r q k k' (ht r q k hr)
  · rw [ha]
    exact h.clean

theorem settling_put (hst : ∀k,z≠.settling k) {r' k : Nat} {q' : Admit κ υ}
    (h : (s.put r q z).turns r'=some ⟨q',.settling k⟩) : s.turns r'=some ⟨q',.settling k⟩ := by
  unfold Limiter.put at h
  by_cases hr : r'=r
  · subst r'
    simp only [update_self,Option.some.injEq,Turn.mk.injEq] at h
    exact absurd h.2 (hst k)
  · simpa only [update_of_ne hr] using h

theorem Ready.clean (h : Holds s) (hr : Ready s r q) : s.unsettled q.chat=[] := by
  rw [unsettled_eq_nil]
  intro k _ hk hs he
  rcases hr with ⟨-,hnone⟩ | ⟨k',hr,hdone⟩
  · have := hnone k (h.held k _ hk hs he)
    rw [hs] at this
    cases this
  · have := h.awaited r q k' k hr hk hs he
    subst this
    rw [hs,he] at hdone
    rcases hdone with h | h <;> cases h

theorem Holds.close (h : Holds s) {chat : κ} {k : Nat} (hh : t.handed=s.handed)
    (hn : t.nextHold=s.nextHold) (ht : t.turns=s.turns) (ha : t.admissions=s.admissions)
    (hd : t.deliveryHolds=if s.deliveryHolds chat=some k
      then update s.deliveryHolds chat none else s.deliveryHolds)
    (hopen : ∀i,t.settled i=false → t.expired i=false → i≠k∧s.settled i=false∧s.expired i=false) :
    Holds t := by
  constructor
  · rw [hh,hn]
    exact h.handed
  · intro i c hi hs he
    rw [hh] at hi
    obtain ⟨hik,hs,he⟩ := hopen i hs he
    have hheld := h.held i c hi hs he
    rw [hd]
    split_ifs with hc
    · have hcq : c≠chat := by
        rintro rfl
        rw [hheld,Option.some.injEq] at hc
        exact hik hc
      rw [update_of_ne hcq]
      exact hheld
    · exact hheld
  · intro c i hi
    rw [hh]
    rw [hd] at hi
    split_ifs at hi with hc
    · by_cases hcq : c=chat
      · subst c
        simp at hi
      · rw [update_of_ne hcq] at hi
        exact h.known c i hi
    · exact h.known c i hi
  · intro r q k1 k2 hr hk2 hs2 he2
    rw [ht] at hr
    rw [hh] at hk2
    obtain ⟨-,hs2,he2⟩ := hopen k2 hs2 he2
    exact h.awaited r q k1 k2 hr hk2 hs2 he2
  · rw [ha]
    exact h.clean

theorem Holds.giveUp (h : Holds s) (chat : κ) (k : Nat) : Holds (s.giveUp chat k) := by
  refine h.close rfl rfl rfl rfl rfl fun i hs he => ?_
  by_cases hik : i=k
  · subst i
    simp [Limiter.giveUp] at he
  · exact ⟨hik,hs,by simpa [Limiter.giveUp,update_of_ne hik] using he⟩

theorem Holds.releaseHold (h : Holds s) (chat : κ) (k : Nat) : Holds (s.releaseHold chat k) := by
  refine h.close rfl rfl rfl rfl rfl fun i hs he => ?_
  by_cases hik : i=k
  · subst i
    simp [Limiter.releaseHold] at hs
  · exact ⟨hik,by simpa [Limiter.releaseHold,update_of_ne hik] using hs,he⟩

theorem Holds.await {k : Nat} (h : Holds s) (hh : s.deliveryHolds q.chat=some k) :
    Holds (s.put r q (.settling k)) := by
  refine ⟨h.handed,h.held,h.known,?_,h.clean⟩
  intro r' q' k1 k2 hr' hk2 hs2 he2
  by_cases hrr : r'=r
  · subst r'
    simp only [Limiter.put,update_self,Option.some.injEq,Turn.mk.injEq,
      Stage.settling.injEq] at hr'
    obtain ⟨rfl,rfl⟩ := hr'
    have := h.held k2 _ hk2 hs2 he2
    rw [hh,Option.some.injEq] at this
    exact this.symm
  · simp only [Limiter.put,update_of_ne hrr] at hr'
    exact h.awaited r' q' k1 k2 hr' hk2 hs2 he2

theorem Holds.holdForDelivery (h : Holds s) {chat : κ} (ho : Apart s chat) :
    Holds (s.holdForDelivery chat) := by
  have hnew : s.handed s.nextHold=none := h.handed _ (Nat.le_refl _)
  have hback : ∀{i c},(s.holdForDelivery chat).handed i=some c →
      (i=s.nextHold∧c=chat)∨(i≠s.nextHold∧s.handed i=some c) := by
    intro i c hi
    by_cases hin : i=s.nextHold
    · subst i
      simp only [Limiter.holdForDelivery,update_self,Option.some.injEq] at hi
      exact .inl ⟨rfl,hi.symm⟩
    · exact .inr ⟨hin,by simpa [Limiter.holdForDelivery,update_of_ne hin] using hi⟩
  have hlt : ∀{i c},s.handed i=some c → i < s.nextHold := by
    intro i c hi
    by_contra hn
    rw [h.handed i (Nat.le_of_not_lt hn)] at hi
    cases hi
  refine ⟨?_,?_,?_,?_,h.clean⟩
  · intro i hi
    have hi : s.nextHold+1 ≤ i := hi
    have hin : i≠s.nextHold := by omega
    simpa [Limiter.holdForDelivery,update_of_ne hin] using h.handed i (by omega)
  · intro i c hi hs he
    rcases hback hi with ⟨rfl,rfl⟩ | ⟨hin,hold⟩
    · exact update_self _ _ _
    · have hcc : c≠chat := by
        intro hcc
        rw [hcc] at hold
        exact unsettled_eq_nil.mp ho.1 i (hlt hold) hold hs he
      simpa [Limiter.holdForDelivery,update_of_ne hcc] using h.held i c hold hs he
  · intro c i hi
    by_cases hcc : c=chat
    · subst c
      simp only [Limiter.holdForDelivery,update_self,Option.some.injEq] at hi ⊢
      rw [← hi,update_self]
    · simp only [Limiter.holdForDelivery,update_of_ne hcc] at hi ⊢
      have hk := h.known c i hi
      rw [update_of_ne (hlt hk).ne]
      exact hk
  · intro r' q' k1 k2 hr' hk2 hs2 he2
    have hr' : s.turns r'=some ⟨q',.settling k1⟩ := hr'
    rcases hback hk2 with ⟨rfl,hc⟩ | ⟨hin,hk2⟩
    · exact absurd hc (ho.2 r' q' k1 hr')
    · exact h.awaited r' q' k1 k2 hr' hk2 hs2 he2

theorem Move.holds (h : Holds s) (hm : Move Apart s t) : Holds t := by
  cases hm with
  | tick d => exact h.same rfl rfl rfl rfl rfl rfl fun _ _ _ h => h
  | arrive q =>
    exact h.same rfl rfl rfl rfl rfl rfl fun _ _ _ hx => settling_put (z:=.arriving) (by simp) hx
  | supersede hr hn =>
    unfold Limiter.supersede
    split_ifs
    · exact h
    · exact h.same rfl rfl rfl rfl rfl rfl fun _ _ _ h => h
  | enqueue hr hw hf =>
    exact h.same rfl rfl rfl rfl rfl rfl fun _ _ _ hx => settling_put (z:=.waiting) (by simp) hx
  | wait hr hw hf => exact h.same rfl rfl rfl rfl rfl rfl fun _ _ _ h => h
  | dequeue hr hw =>
    exact h.same rfl rfl rfl rfl rfl rfl fun _ _ _ hx => settling_put (by simp) hx
  | turnAway hr hw =>
    exact h.same rfl rfl rfl rfl rfl rfl fun _ _ _ hx => settling_put (by simp) hx
  | drop hu hs =>
    refine h.same rfl rfl rfl rfl rfl rfl fun _ _ _ hx => settling_put ?_ hx
    rcases hs with rfl | rfl <;> simp
  | grant hr hf =>
    exact h.same rfl rfl rfl rfl rfl rfl fun _ _ _ hx => settling_put (z:=.slotted) (by simp) hx
  | await hr hh hs => exact h.await hh
  | giveUp hr => exact h.giveUp _ _
  | sweep => exact h.same rfl rfl rfl rfl rfl rfl fun _ _ _ h => h
  | track u => exact h.same rfl rfl rfl rfl rfl rfl fun _ _ _ h => h
  | turnOut hr hh hruns hs hw ha =>
    refine h.same rfl rfl rfl rfl rfl rfl fun _ _ _ hx => settling_put ?_ hx
    rintro k rfl
    cases hs
  | @admitted r q hready hg hu hd hc ht =>
    refine ⟨h.handed,h.held,h.known,?_,?_⟩
    · intro r' q' k1 k2 hr'
      exact h.awaited r' q' k1 k2 (settling_put (z:=.inside) (by simp) hr')
    · intro a ha
      rcases List.mem_append.mp ha with ha | ha
      · exact h.clean a ha
      · rw [List.mem_singleton.mp ha]
        exact hready.clean h
  | finish hr hs =>
    refine h.same rfl rfl rfl rfl rfl rfl fun _ _ _ hx => settling_put ?_ hx
    rcases hs with rfl | rfl <;> simp
  | hold ho => exact h.holdForDelivery ho
  | release hh => exact h.releaseHold _ _

theorem Moves.invariant {P Q : Limiter κ υ → Prop} (hP : ∀u v,P u → Move ok u v → P v)
    (hQ : ∀u v,P u → Q u → Move ok u v → Q v) (hm : Moves ok s t) (hp : P s) (hq : Q s) : P t∧Q t := by
  induction hm with
  | refl => exact ⟨hp,hq⟩
  | tail _ hm ih => exact ⟨hP _ _ ih.1 hm,hQ _ _ ih.1 ih.2 hm⟩

end

abbrev run (cfg : LimiterConfig) (s : Limiter κ υ) (a : LimiterAct κ υ) : Option (Limiter κ υ) :=
  step s cfg a

structure Sound (cfg : LimiterConfig) (s : Limiter κ υ) : Prop where
  counts : Counts s
  chatHeld : ∀r q st,s.turns r=some ⟨q,st⟩ → st.holdsChat → 0 < s.chatInflight q.chat
  runHeld : ∀r q st,s.turns r=some ⟨q,st⟩ → st.runs → 0 < s.globalInflight∧0 < s.userInflight q.user
  idle : (∀r x,s.turns r=some x → x.stage.holdsChat=false) →
    s.globalInflight=0∧(∀c,s.chatInflight c=0)∧∀u,s.userInflight u=0
  lawful : Lawful s
  queue : Queue s
  handover : ∀r q,s.turns r=some ⟨q,.waiting⟩ → s.chatWaiters q.chat=some r →
    s.chatInflight q.chat<q.maxPerChat → s.woken r=true∧∀expired,∃t st,
      step s cfg (.resume r expired)=some t∧t.turns r=some ⟨q,st⟩∧st≠.waiting∧
        st≠.refused .chatInflight∧st≠.refused .chatSuperseded

section

variable {ok : Limiter κ υ → κ → Prop} {s t : Limiter κ υ} {cfg : LimiterConfig} {r : Nat}
  {q : Admit κ υ} {a : LimiterAct κ υ} {start : Int}

end

end XiaoQing.Chat.Limiter
