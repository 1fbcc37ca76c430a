import Mathlib.Tactic.Common

namespace XiaoQing.Framework

/-- The statements of a transaction over a working copy; an error ends it. -/
abbrev Tx (σ ε : Type) : Type → Type := StateT σ (Except ε)

namespace Tx

variable {σ ε α β : Type}

def read (f : σ → α) : Tx σ ε α := fun s => .ok (f s,s)

def write (f : σ → σ) : Tx σ ε Unit := fun s => .ok ((),f s)

def attempt (f : σ → Option σ) (e : ε) : Tx σ ε Unit := fun s =>
  match f s with
  | some t => .ok ((),t)
  | none => .error e

def require (c : Bool) (e : ε) : Tx σ ε Unit := if c then pure () else throw e

def onlyIf (c : Bool) (m : Tx σ ε Unit) : Tx σ ε Unit := if c then m else pure ()

def fetch (o : Option α) (e : ε) : Tx σ ε α :=
  match o with
  | some a => pure a
  | none => throw e

/-- `BEGIN … COMMIT`, or a rollback where an error ended it. -/
def transact (m : Tx σ ε α) (s : σ) : Except ε α × σ :=
  match m.run s with
  | .ok (a,t) => (.ok a,t)
  | .error e => (.error e,s)

variable {m : Tx σ ε α} {k : α → Tx σ ε β} {s t : σ} {a : α} {b : β} {e : ε} {c : Bool}

theorem transact_ok (h : m.run s=.ok (a,t)) : transact m s=(.ok a,t) := by
  unfold transact
  rw [h]

/-- A transaction that ends in an error leaves the tables as they were. -/
theorem transact_error (h : (transact m s).1=.error e) : (transact m s).2=s := by
  unfold transact at h ⊢
  split at h
  · cases h
  · rfl

theorem transact_cases (m : Tx σ ε α) (s : σ) :
    (∃a t,m.run s=.ok (a,t) ∧ transact m s=(.ok a,t)) ∨
      ∃e,transact m s=(.error e,s) := by
  unfold transact
  cases h : m.run s with
  | ok r => exact .inl ⟨r.1,r.2,rfl,rfl⟩
  | error e => exact .inr ⟨e,rfl⟩

theorem run_of_transact (h : transact m s=(.ok a,t)) : m.run s=.ok (a,t) := by
  rcases transact_cases m s with ⟨b,u,hm,ht⟩ | ⟨e,he⟩
  · cases ht.symm.trans h
    exact hm
  · cases he.symm.trans h

/-! How a run goes on -/

theorem run_bind_of_ok (h : m.run s=.ok (a,t)) : (m >>= k).run s=(k a).run t := by
  rw [StateT.run_bind,h]
  rfl

theorem run_discard (h : m.run s=.ok (a,t)) : (Functor.discard m).run s=.ok ((),t) :=
  run_bind_of_ok (m:=m) (k:=fun _ => (pure () : Tx σ ε Unit)) h

theorem transact_discard (m : Tx σ ε α) (s : σ) :
    (transact (Functor.discard m) s).2=(transact m s).2 := by
  cases h : m.run s with
  | ok r => rw [transact_ok h,transact_ok (run_discard h)]
  | error e =>
    have hd : (Functor.discard m).run s=.error e := by
      change (m >>= fun _ => (pure () : Tx σ ε Unit)).run s=_
      rw [StateT.run_bind,h]
      rfl
    rw [transact,transact,h,hd]

variable {f : σ → α}

theorem run_read_bind : (read f >>= k).run s=(k (f s)).run s := rfl

theorem run_require_bind {k : Unit → Tx σ ε β} (h : c=true) :
    (require c e >>= k).run s=(k ()).run s := by
  subst h
  rfl

theorem run_require_fails {k : Unit → Tx σ ε β} (h : c=false) :
    (require c e >>= k).run s=.error e := by
  subst h
  rfl

/-! What a run that succeeds has done -/

theorem bind_ok {r : β × σ} (h : (m >>= k).run s=.ok r) :
    ∃a t,m.run s=.ok (a,t) ∧ (k a).run t=.ok r := by
  rw [StateT.run_bind] at h
  cases hm : m.run s with
  | error e =>
    rw [hm] at h
    cases h
  | ok p =>
    rw [hm] at h
    exact ⟨p.1,p.2,rfl,h⟩

variable {r : α × σ}

theorem pure_ok (h : (pure a : Tx σ ε α).run s=.ok r) : r=(a,s) := by
  cases h
  rfl

theorem throw_ok (h : (throw e : Tx σ ε α).run s=.ok r) : False := by
  cases h

theorem read_ok (h : (read f : Tx σ ε α).run s=.ok r) : r=(f s,s) := by
  cases h
  rfl

theorem write_ok {f : σ → σ} {r : Unit × σ} (h : (write f : Tx σ ε Unit).run s=.ok r) :
    r=((),f s) := by
  cases h
  rfl

theorem attempt_ok {f : σ → Option σ} {r : Unit × σ} (h : (attempt f e).run s=.ok r) :
    f s=some r.2 := by
  unfold attempt StateT.run at h
  dsimp only at h
  split at h
  · rename_i hf
    cases h
    exact hf
  · cases h

theorem require_ok {r : Unit × σ} (h : (require c e : Tx σ ε Unit).run s=.ok r) :
    c=true ∧ r=((),s) := by
  unfold require at h
  split at h
  · exact ⟨‹_›,pure_ok h⟩
  · exact (throw_ok h).elim

theorem fetch_ok {o : Option α} (h : (fetch o e : Tx σ ε α).run s=.ok r) :
    o=some r.1 ∧ r.2=s := by
  unfold fetch at h
  split at h
  · rw [pure_ok h]
    exact ⟨rfl,rfl⟩
  · exact (throw_ok h).elim

theorem discard_ok {u : Unit} (h : (Functor.discard m).run s=.ok (u,t)) : ∃a,m.run s=.ok (a,t) := by
  obtain ⟨a,v,hm,hp⟩ := bind_ok (m:=m) (k:=fun _ => (pure () : Tx σ ε Unit)) h
  cases pure_ok hp
  exact ⟨a,hm⟩

/-! What a transaction keeps -/

/-- Whatever it answers, a run that succeeds leads from `P` to `Q`. -/
def Ensures (P : σ → Prop) (m : Tx σ ε α) (Q : α → σ → Prop) : Prop :=
  ∀s a t,P s → m.run s=.ok (a,t) → Q a t

abbrev Keeps (P : σ → Prop) (m : Tx σ ε α) : Prop := Ensures P m (fun _ => P)

variable {P : σ → Prop} {Q R : α → σ → Prop} {S : β → σ → Prop}

theorem Ensures.run (hr : m.run s=.ok (a,t)) (hp : P s) (h : Ensures P m Q) : Q a t := h s a t hp hr

theorem ensures_pure (h : ∀s,P s → Q a s) : Ensures P (pure a : Tx σ ε α) Q := by
  intro s b t hp hr
  cases pure_ok hr
  exact h s hp

theorem ensures_throw : Ensures P (throw e : Tx σ ε α) Q := by
  intro s a t _ hr
  exact (throw_ok hr).elim

theorem Ensures.bind (h : Ensures P m R) (hk : ∀a,Ensures (R a) (k a) S) : Ensures P (m >>= k) S := by
  intro s b t hp hr
  obtain ⟨a,u,hm,hrest⟩ := bind_ok hr
  exact hk a u b t (h s a u hp hm) hrest

theorem Ensures.weaken (h : Ensures P m R) (hq : ∀a s,R a s → Q a s) : Ensures P m Q :=
  fun s a t hp hr => hq a t (h s a t hp hr)

theorem Ensures.strengthen {P' : σ → Prop} (h : Ensures P m Q) (hp : ∀s,P' s → P s) :
    Ensures P' m Q :=
  fun s a t hp' hr => h s a t (hp s hp') hr

/-- A fact that does not look at the state is at hand for the whole run. -/
theorem Ensures.of_fact {φ : Prop} (h : φ → Ensures P m Q) : Ensures (fun s => P s ∧ φ) m Q :=
  fun s a t hp hr => h hp.2 s a t hp.1 hr

theorem ensures_read : Ensures P (read f : Tx σ ε α) (fun a s => P s ∧ a=f s) := by
  intro s a t hp hr
  cases read_ok hr
  exact ⟨hp,rfl⟩

theorem ensures_write {f : σ → σ} {Q : Unit → σ → Prop} (h : ∀s,P s → Q () (f s)) :
    Ensures P (write f : Tx σ ε Unit) Q := by
  intro s a t hp hr
  cases write_ok hr
  exact h s hp

theorem ensures_attempt {f : σ → Option σ} {Q : Unit → σ → Prop} (h : ∀s t,P s → f s=some t → Q () t) :
    Ensures P (attempt f e : Tx σ ε Unit) Q := by
  intro s a t hp hr
  exact h s t hp (attempt_ok hr)

theorem ensures_require : Ensures P (require c e : Tx σ ε Unit) (fun _ s => P s ∧ c=true) := by
  intro s a t hp hr
  obtain ⟨hc,he⟩ := require_ok hr
  cases he
  exact ⟨hp,hc⟩

theorem ensures_fetch {o : Option α} :
    Ensures P (fetch o e : Tx σ ε α) (fun a s => P s ∧ o=some a) := by
  intro s a t hp hr
  obtain ⟨ho,he⟩ := fetch_ok hr
  dsimp only at ho he
  exact ⟨he ▸ hp,ho⟩

theorem ensures_ite {d : Prop} {_ : Decidable d} {m' : Tx σ ε α} (h : d → Ensures P m Q)
    (h' : ¬d → Ensures P m' Q) : Ensures P (if d then m else m') Q := by
  split
  · exact h ‹_›
  · exact h' ‹_›

theorem Keeps.bind (h : Keeps P m) (hk : ∀a,Keeps P (k a)) : Keeps P (m >>= k) := Ensures.bind h hk

theorem keeps_pure : Keeps P (pure a : Tx σ ε α) := ensures_pure (fun _ hp => hp)

theorem keeps_throw : Keeps P (throw e : Tx σ ε α) := ensures_throw

theorem keeps_read : Keeps P (read f : Tx σ ε α) := ensures_read.weaken (fun _ _ h => h.1)

theorem keeps_require : Keeps P (require c e : Tx σ ε Unit) :=
  ensures_require.weaken (fun _ _ h => h.1)

theorem keeps_fetch {o : Option α} : Keeps P (fetch o e : Tx σ ε α) :=
  ensures_fetch.weaken (fun _ _ h => h.1)

theorem keeps_write {f : σ → σ} (h : ∀s,P s → P (f s)) : Keeps P (write f : Tx σ ε Unit) :=
  ensures_write h

theorem keeps_onlyIf {m : Tx σ ε Unit} (h : Keeps P m) : Keeps P (onlyIf c m) :=
  ensures_ite (fun _ => h) (fun _ => keeps_pure)

theorem keeps_optionForM {γ : Type} {g : γ → Tx σ ε Unit} (o : Option γ)
    (h : ∀c,o=some c → Keeps P (g c)) : Keeps P (o.forM g) := by
  cases o with
  | none => exact keeps_pure
  | some c => exact h c rfl

theorem keeps_forM {γ : Type} {g : γ → Tx σ ε Unit} (l : List γ) (h : ∀c∈l,Keeps P (g c)) :
    Keeps P (l.forM g) := by
  induction l with
  | nil => exact keeps_pure
  | cons c l ih =>
    show Keeps P (g c >>= fun _ => l.forM g)
    exact (h c (by simp)).bind (fun _ => ih (fun d hd => h d (List.mem_cons_of_mem c hd)))

/-- What a transaction keeps is kept, committed or rolled back. -/
theorem Keeps.transact (h : Keeps P m) (hp : P s) : P (transact m s).2 := by
  rcases transact_cases m s with ⟨a,t,hm,ht⟩ | ⟨e,he⟩
  · rw [ht]
    exact h s a t hp hm
  · rw [he]
    exact hp

end Tx

end XiaoQing.Framework
