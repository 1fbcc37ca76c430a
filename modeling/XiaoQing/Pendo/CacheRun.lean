import XiaoQing.Pendo.CachedReads

namespace XiaoQing.Pendo.Reads

open Function (update_of_ne update_self)

open Framework Commands

variable {β ι ς σ φ : Type} {D : Decoder β ι ς σ φ} {st : Store β ς} {s : St β ι ς σ φ}
  {th : Thread ι σ φ} {q : Query φ} {r : Reading ι σ φ} {k : Frame φ} {key : Text}
  {generation n τ time : Nat} {begun : List Nat} {t u : Tables β ς} {todo : List Invalidation}

/-! ### Keys -/

theorem settingsKey_injective {user other : Text} (h : settingsKey user=settingsKey other) :
    user=other := by
  simp only [settingsKey,join_cons_cons,join_singleton] at h
  simpa using h

theorem settings_or_items (q : Query φ) : (∃user,q=.settings user) ∨ (q.key D).head?=some 'i' := by
  cases q with
  | item id owner => exact .inr (by simp only [Query.key,join_cons_cons]; rfl)
  | items owner filters zone limit offset =>
    exact .inr (by simp only [Query.key,join_cons_cons]; rfl)
  | settings user => exact .inl ⟨user,rfl⟩

theorem head_settingsKey (user : Text) : (settingsKey user).head?=some 's' := by
  simp only [settingsKey,join_cons_cons]
  rfl

theorem eq_settings {user : Text} (h : q.key D=settingsKey user) : q=.settings user := by
  rcases settings_or_items (D:=D) q with ⟨other,rfl⟩ | hi
  · rw [settingsKey_injective h]
  · rw [h,head_settingsKey] at hi
    exact absurd hi (by decide)

theorem items_key_ne {owner user : Text} {filters : φ} {zone : Option Text} {limit offset : Nat} :
    (Query.items owner filters zone limit offset).key D≠settingsKey user := by
  intro h
  cases eq_settings h

/-! ### Stores -/

/-- Commit `c` changed the rows of a read that is kept under the key. -/
def Store.Changes (D : Decoder β ι ς σ φ) (st : Store β ς) (c : Nat) (key : Text) : Prop :=
  ∃q : Query φ,q.key D=key ∧ ¬q.Same (st.tables (c-1)) (st.tables c)

/-- The writer of commit `c` has still to drop the key. -/
def Store.Pending (st : Store β ς) (c : Nat) (key : Text) : Prop :=
  ∃inv∈st.todo c,inv.covers key=true

def Store.Settled (D : Decoder β ι ς σ φ) (st : Store β ς) (key : Text) (n : Nat) : Prop :=
  Framework.Settled st.now (st.Changes D) st.Pending key n

structure Reading.Selected (D : Decoder β ι ς σ φ) (st : Store β ς) (r : Reading ι σ φ) : Prop where
  value : r.value=r.source.select D r.source.zone (st.tables r.readAt)
  known : r.readAt ≤ st.now

/-- No write of `begun` that changed the rows of the read came after commit `n`. -/
def Store.Recent (st : Store β ς) (begun : List Nat) (q : Query φ) (n : Nat) : Prop :=
  ∀c∈begun,¬q.Same (st.tables (c-1)) (st.tables c) → c ≤ n

/-- The value answers a read kept under the same key, and misses none of the writes of `begun`. -/
structure Store.Fresh (D : Decoder β ι ς σ φ) (st : Store β ς) (begun : List Nat) (q : Query φ)
    (r : Reading ι σ φ) : Prop where
  key : r.source.key D=q.key D
  selected : r.Selected D st
  recent : st.Recent begun q r.readAt

/-- The zone that filters were resolved with is that of settings that miss none of the writes. -/
def Store.ZoneRecent (D : Decoder β ι ς σ φ) (st : Store β ς) (begun : List Nat) (zoneAt : Nat)
    (q : Query φ) : Prop :=
  ∀owner filters zone limit offset,q=.items owner filters (some zone) limit offset →
    some zone=zoneOf D ((Query.settings owner : Query φ).select D none (st.tables zoneAt)) ∧
      zoneAt ≤ st.now ∧ st.Recent begun (.settings owner : Query φ) zoneAt

structure Store.Extends (st st' : Store β ς) : Prop where
  now : st.now ≤ st'.now
  tables : ∀c ≤ st.now,st'.tables c=st.tables c

theorem Store.Extends.refl (st : Store β ς) : st.Extends st := ⟨le_refl _,fun _ _ => rfl⟩

theorem Store.extends_commit : st.Extends (st.commit t todo) where
  now := Nat.le_succ _
  tables c hc := update_of_ne (by omega) _ _

theorem Store.extends_progress {c : Nat} : st.Extends (st.progress c todo) :=
  ⟨le_refl _,fun _ _ => rfl⟩

section

variable {st' : Store β ς} (hext : st.Extends st')

include hext

theorem Store.Extends.same {c : Nat} (hc : c ≤ st.now) :
    q.Same (st'.tables (c-1)) (st'.tables c) ↔ q.Same (st.tables (c-1)) (st.tables c) := by
  rw [hext.tables c hc,hext.tables (c-1) (by omega)]

theorem Reading.Selected.extend (h : r.Selected D st) : r.Selected D st' where
  value := by rw [hext.tables _ h.known]; exact h.value
  known := h.known.trans hext.now

theorem Store.Recent.extend (h : st.Recent begun q n) (hbegun : ∀c∈begun,c ≤ st.now) :
    st'.Recent begun q n :=
  fun c hc hchanged => h c hc (fun hsame => hchanged ((hext.same (hbegun c hc)).mpr hsame))

theorem Store.Fresh.extend (h : st.Fresh D begun q r) (hbegun : ∀c∈begun,c ≤ st.now) :
    st'.Fresh D begun q r :=
  ⟨h.key,h.selected.extend hext,h.recent.extend hext hbegun⟩

theorem Store.ZoneRecent.extend {zoneAt : Nat} (h : st.ZoneRecent D begun zoneAt q)
    (hbegun : ∀c∈begun,c ≤ st.now) : st'.ZoneRecent D begun zoneAt q := by
  intro owner filters zone limit offset hq
  obtain ⟨hzone,hnow,hrecent⟩ := h owner filters zone limit offset hq
  exact ⟨by rw [hext.tables _ hnow]; exact hzone,hnow.trans hext.now,hrecent.extend hext hbegun⟩

end

/-! ### Threads -/

def Knows (reads : CacheReads) (key : Text) : Prop :=
  (reads.generations.lookup key).isSome=true ∨ reads.overflowed=true

def Frame.outer : Frame φ → Option (Query φ)
  | .conditions owner clauses zone limit offset => some (.items owner clauses zone limit offset)
  | _ => none

def Frame.Fits (k : Frame φ) (q : Query φ) : Prop :=
  match k with
  | .answer => True
  | .filters owner _ _ _ => q=.settings owner
  | .conditions owner _ _ _ _ => q=.settings owner

def Pc.underway : Pc ι σ φ → List (Query φ)
  | .lookup q k => q::k.outer.toList
  | .fetch q _ k => q::k.outer.toList
  | .store r k => r.source::k.outer.toList
  | _ => []

def Pc.asked : Pc ι σ φ → List (Query φ)
  | .lookup _ k => k.outer.toList
  | .fetch q _ k => q::k.outer.toList
  | .store r k => r.source::k.outer.toList
  | _ => []

def Pc.Fits : Pc ι σ φ → Prop
  | .lookup q k => k.Fits q
  | .fetch q _ k => k.Fits q
  | .store r k => k.Fits r.source
  | _ => True

structure ThreadOk (D : Decoder β ι ς σ φ) (st : Store β ς) (generation : Nat) (th : Thread ι σ φ) :
    Prop where
  begun : ∀c∈th.begun,c ≤ st.now ∧ st.todo c=[]
  stamps : ∀e∈th.reads.generations,e.2 ≤ generation
  fits : th.pc.Fits
  knows : ∀q∈th.pc.asked,Knows th.reads (q.key D)
  zone : ∀q∈th.pc.underway,st.ZoneRecent D th.begun th.zoneAt q
  storing : ∀r k,th.pc=.store r k → r.Selected D st ∧ (∀c∈th.begun,c ≤ r.readAt) ∧
    (th.reads.expected (r.source.key D) generation=some generation →
      st.Settled D (r.source.key D) r.readAt)

structure EntryOk (D : Decoder β ι ς σ φ) (st : Store β ς)
    (e : Text × CacheEntry (Reading ι σ φ)) : Prop where
  key : e.2.value.source.key D=e.1
  selected : e.2.value.Selected D st
  settled : st.Settled D e.1 e.2.value.readAt

structure AnswerOk (D : Decoder β ι ς σ φ) (st : Store β ς) (a : Answer ι σ φ) : Prop where
  begun : ∀c∈a.begun,c ≤ st.now
  fresh : ∃source : Query φ,st.Fresh D a.begun a.query ⟨source,a.value,a.readAt⟩
  zone : st.ZoneRecent D a.begun a.zoneAt a.query

structure Coherent (D : Decoder β ι ς σ φ) (s : St β ι ς σ φ) : Prop where
  unique : UniqueIds s.store.current
  threads : ∀τ,ThreadOk D s.store s.cache.generation (s.threads τ)
  entries : ∀e∈s.cache.entries,EntryOk D s.store e
  answers : ∀a∈s.answers,AnswerOk D s.store a

/-! ### What a thread remembers -/

theorem lookup_without {α : Type} {other : Text} {d : List (Text × α)} (h : other≠key) :
    (without key d).lookup other=d.lookup other := by
  induction d with
  | nil => rfl
  | cons e d ih =>
    unfold without at ih ⊢
    rw [List.filter_cons]
    by_cases he : e.1=key
    · have hne : (other==e.1)=false := by simpa [he] using h
      simp only [he,ne_eq,not_true_eq_false,decide_false,Bool.false_eq_true,if_false]
      rw [ih,List.lookup_cons,hne]
    · simp only [he,ne_eq,not_false_eq_true,decide_true,if_true]
      rw [List.lookup_cons,List.lookup_cons,ih]

variable {reads : CacheReads}

theorem knows_record : Knows (reads.record key generation) key :=
  .inl (by simp [CacheReads.record])

theorem Knows.record {other : Text} (h : Knows reads other) :
    Knows (reads.record key generation) other := by
  by_cases he : other=key
  · subst he
    exact knows_record
  · unfold Knows CacheReads.record
    have hne : (other==key)=false := by simpa using he
    simp only [List.lookup_cons,hne,lookup_without he]
    split
    · exact .inr rfl
    · exact h

theorem Knows.forget {other : Text} (h : Knows reads other) (hne : other≠key) :
    Knows (reads.forget key) other := by
  unfold Knows CacheReads.forget
  simp only [lookup_without hne]
  exact h

theorem expected_ne (hknows : Knows reads key)
    (hstamps : ∀e∈reads.generations,e.2 ≤ generation) :
    reads.expected key (generation+1)≠some (generation+1) := by
  intro h
  unfold CacheReads.expected at h
  cases hfound : reads.generations.lookup key with
  | some g =>
    rw [hfound] at h
    obtain ⟨before,after,heq,_⟩ := List.lookup_eq_some_iff.mp hfound
    have hle := hstamps (key,g) (by simp [heq])
    simp only [Option.some_or,Option.some.injEq] at h
    dsimp only at hle
    omega
  | none =>
    rcases hknows with hsome | hover
    · rw [hfound] at hsome
      cases hsome
    · rw [hfound,hover] at h
      cases h

/-! ### Changes of the store that other threads meet -/

theorem Store.Settled.commit (h : st.Settled D key n)
    (hcovered : ∀q : Query φ,¬q.Same st.current t → Covered D q todo) :
    (st.commit t todo).Settled D key n := by
  have hext : st.Extends (st.commit t todo) := Store.extends_commit
  refine Framework.Settled.commit h ?_ ?_ ?_
  · rintro c hc ⟨q,hq,hchanged⟩
    exact ⟨q,hq,fun hsame => hchanged ((hext.same hc).mpr hsame)⟩
  · rintro c hc ⟨inv,hinv,hcovers⟩
    refine ⟨inv,?_,hcovers⟩
    have htodo : (st.commit t todo).todo c=st.todo c := update_of_ne (by omega) _ _
    rw [htodo]
    exact hinv
  · rintro ⟨q,hq,hchanged⟩
    have hbefore : (st.commit t todo).tables (st.now+1-1)=st.current := hext.tables _ (le_refl _)
    have hafter : (st.commit t todo).tables (st.now+1)=t := update_self _ _ _
    rw [hbefore,hafter] at hchanged
    obtain ⟨inv,hinv,hcovers⟩ := hcovered q hchanged
    refine ⟨inv,?_,hq ▸ hcovers⟩
    have htodo : (st.commit t todo).todo (st.now+1)=todo := update_self _ _ _
    rw [htodo]
    exact hinv

theorem Store.Settled.progress {c : Nat} (h : st.Settled D key n)
    (hrest : ∀inv∈st.todo c,inv.covers key=true → ∃inv∈todo,inv.covers key=true) :
    (st.progress c todo).Settled D key n := by
  refine Framework.Settled.keep h ?_
  rintro c' ⟨inv,hinv,hcovers⟩
  by_cases hc : c'=c
  · subst hc
    have htodo : (st.progress c' todo).todo c'=todo := update_self _ _ _
    obtain ⟨inv,hinv,hcovers⟩ := hrest inv hinv hcovers
    exact ⟨inv,by rw [htodo]; exact hinv,hcovers⟩
  · have htodo : (st.progress c todo).todo c'=st.todo c' := update_of_ne hc _ _
    exact ⟨inv,by rw [htodo]; exact hinv,hcovers⟩

variable {e : Text × CacheEntry (Reading ι σ φ)} {a : Answer ι σ φ} {c : Nat}

theorem EntryOk.commit (h : EntryOk D st e)
    (hcovered : ∀q : Query φ,¬q.Same st.current t → Covered D q todo) :
    EntryOk D (st.commit t todo) e :=
  ⟨h.key,h.selected.extend Store.extends_commit,h.settled.commit hcovered⟩

theorem EntryOk.progress (h : EntryOk D st e)
    (hrest : ∀inv∈st.todo c,inv.covers e.1=true → ∃inv∈todo,inv.covers e.1=true) :
    EntryOk D (st.progress c todo) e :=
  ⟨h.key,h.selected.extend Store.extends_progress,h.settled.progress hrest⟩

theorem AnswerOk.extend {st' : Store β ς} (h : AnswerOk D st a) (hext : st.Extends st') :
    AnswerOk D st' a where
  begun c hc := (h.begun c hc).trans hext.now
  fresh := by
    obtain ⟨source,hfresh⟩ := h.fresh
    exact ⟨source,hfresh.extend hext h.begun⟩
  zone := h.zone.extend hext h.begun

theorem ThreadOk.commit (h : ThreadOk D st generation th)
    (hcovered : ∀q : Query φ,¬q.Same st.current t → Covered D q todo) :
    ThreadOk D (st.commit t todo) generation th where
  begun c hc := by
    obtain ⟨hnow,htodo⟩ := h.begun c hc
    exact ⟨Nat.le_succ_of_le hnow,(update_of_ne (by omega) _ _).trans htodo⟩
  stamps := h.stamps
  fits := h.fits
  knows := h.knows
  zone q hq := (h.zone q hq).extend Store.extends_commit (fun c hc => (h.begun c hc).1)
  storing r k hpc := by
    obtain ⟨hselected,hbegun,hsettled⟩ := h.storing r k hpc
    exact ⟨hselected.extend Store.extends_commit,hbegun,fun he => (hsettled he).commit hcovered⟩

theorem begun_progress (h : ThreadOk D st generation th) (hc : st.todo c≠[]) :
    ∀c'∈th.begun,c' ≤ (st.progress c todo).now ∧ (st.progress c todo).todo c'=[] := by
  intro c' hc'
  obtain ⟨hnow,htodo⟩ := h.begun c' hc'
  refine ⟨hnow,(update_of_ne ?_ _ _).trans htodo⟩
  rintro rfl
  exact hc htodo

theorem ThreadOk.announce (h : ThreadOk D st generation th) (hc : st.todo c≠[]) :
    ThreadOk D (st.progress c todo) (generation+1) th where
  begun := begun_progress h hc
  stamps e he := Nat.le_succ_of_le (h.stamps e he)
  fits := h.fits
  knows := h.knows
  zone q hq := (h.zone q hq).extend Store.extends_progress (fun c hc => (h.begun c hc).1)
  storing r k hpc := by
    obtain ⟨hselected,hbegun,_⟩ := h.storing r k hpc
    have hknows : Knows th.reads (r.source.key D) := h.knows _ (by rw [hpc]; simp [Pc.asked])
    exact ⟨hselected.extend Store.extends_progress,hbegun,
      fun he => absurd he (expected_ne hknows h.stamps)⟩

theorem ThreadOk.progress (h : ThreadOk D st generation th) (hc : st.todo c≠[])
    (hrest : ∀key,∀inv∈st.todo c,inv.covers key=true → ∃inv∈todo,inv.covers key=true) :
    ThreadOk D (st.progress c todo) generation th where
  begun := begun_progress h hc
  stamps := h.stamps
  fits := h.fits
  knows := h.knows
  zone q hq := (h.zone q hq).extend Store.extends_progress (fun c hc => (h.begun c hc).1)
  storing r k hpc := by
    obtain ⟨hselected,hbegun,hsettled⟩ := h.storing r k hpc
    exact ⟨hselected.extend Store.extends_progress,hbegun,
      fun he => (hsettled he).progress (hrest _)⟩

/-! ### Steps of a thread -/

theorem setThread_coherent (h : Coherent D s) (hth : ThreadOk D s.store s.cache.generation th) :
    Coherent D (s.setThread τ th) where
  unique := h.unique
  threads τ' := by
    by_cases hτ : τ'=τ
    · subst hτ
      have hself : (s.setThread τ' th).threads τ'=th := update_self _ _ _
      rw [hself]
      exact hth
    · have hother : (s.setThread τ th).threads τ'=s.threads τ' := update_of_ne hτ _ _
      rw [hother]
      exact h.threads τ'
  entries := h.entries
  answers := h.answers

/-- What a thread is known by while the value of its read is handed on. -/
structure ReadOk (D : Decoder β ι ς σ φ) (st : Store β ς) (generation : Nat) (th : Thread ι σ φ)
    (q : Query φ) (k : Frame φ) : Prop where
  begun : ∀c∈th.begun,c ≤ st.now ∧ st.todo c=[]
  stamps : ∀e∈th.reads.generations,e.2 ≤ generation
  fits : k.Fits q
  knows : ∀x∈k.outer.toList,Knows th.reads (x.key D)
  zone : ∀x∈q::k.outer.toList,st.ZoneRecent D th.begun th.zoneAt x

theorem zoneRecent_settings {owner : Text} {clauses : φ} {limit offset : Nat}
    (h : st.Fresh D begun (.settings owner) r) : st.ZoneRecent D begun r.readAt
      (.items owner clauses (zoneOf D r.value) limit offset) := by
  obtain ⟨source,value,readAt⟩ := r
  obtain ⟨hkey,⟨hvalue,hknown⟩,hrecent⟩ := h
  have hsource : source=.settings owner := eq_settings hkey
  subst hsource
  intro owner' clauses' zone limit' offset' he
  simp only [Query.items.injEq] at he
  obtain ⟨rfl,_,hzone,_,_⟩ := he
  dsimp only at hvalue hknown hrecent hzone
  refine ⟨?_,hknown,hrecent⟩
  rw [←hzone,hvalue]
  rfl

theorem finish_coherent (h : Coherent D s)
    (hth : ReadOk D s.store s.cache.generation th q k) (hr : s.store.Fresh D th.begun q r) :
    Coherent D (s.finish D τ th q r k) := by
  cases k with
  | answer =>
    have hok : ThreadOk D s.store s.cache.generation {th with pc := .idle} :=
      ⟨hth.begun,hth.stamps,trivial,by simp [Pc.asked],by simp [Pc.underway],by simp⟩
    have hidle := setThread_coherent (τ:=τ) h hok
    refine ⟨hidle.unique,hidle.threads,hidle.entries,?_⟩
    intro a ha
    rcases List.mem_cons.mp ha with rfl | ha
    · exact ⟨fun c hc => (hth.begun c hc).1,⟨r.source,hr.key,⟨hr.selected.value,hr.selected.known⟩,
        hr.recent⟩,hth.zone q (by simp)⟩
    · exact h.answers a ha
  | filters owner clauses limit offset =>
    have hq : q=.settings owner := hth.fits
    subst hq
    refine setThread_coherent h ⟨hth.begun,hth.stamps,trivial,by simp [Pc.asked,Frame.outer],?_,by simp⟩
    intro q hq
    simp only [Pc.underway,Frame.outer,Option.toList_none,List.mem_singleton] at hq
    subst hq
    exact zoneRecent_settings hr
  | conditions owner clauses zone limit offset =>
    refine setThread_coherent h ⟨hth.begun,hth.stamps,trivial,?_,?_,by simp⟩
    · intro q hq
      simp only [Pc.asked,Frame.outer,Option.toList_none,List.mem_singleton] at hq
      exact hth.knows q (by simp [Frame.outer,hq])
    · intro q hq
      simp only [Pc.underway,Frame.outer,Option.toList_none,List.mem_singleton] at hq
      exact hth.zone q (by simp [Frame.outer,hq])

theorem zoneRecent_of_zone {zoneAt : Nat} (h : q.zone=none) : st.ZoneRecent D begun zoneAt q := by
  intro owner clauses zone limit offset hq
  subst hq
  cases h

theorem missed_ok (hth : ReadOk D st generation th q k) (hknows : Knows th.reads (q.key D)) :
    ThreadOk D st generation {th with pc := q.missed D k} := by
  have hfetch : ThreadOk D st generation {th with pc := .fetch q none k} := by
    refine ⟨hth.begun,hth.stamps,hth.fits,?_,hth.zone,by simp⟩
    intro q' hq'
    rcases List.mem_cons.mp hq' with rfl | hq'
    · exact hknows
    · exact hth.knows q' hq'
  cases q with
  | item id owner => exact hfetch
  | settings user => exact hfetch
  | items owner clauses zone limit offset =>
    unfold Query.missed
    dsimp only
    split
    · refine ⟨hth.begun,hth.stamps,rfl,?_,?_,by simp⟩
      · intro q hq
        simp only [Pc.asked,Frame.outer,Option.toList_some,List.mem_singleton] at hq
        exact hq ▸ hknows
      · intro q hq
        simp only [Pc.underway,Frame.outer,Option.toList_some,List.mem_cons,List.not_mem_nil,
          or_false] at hq
        rcases hq with rfl | rfl
        · exact zoneRecent_of_zone rfl
        · exact hth.zone _ (by simp)
    · exact hfetch

theorem lookup_coherent (h : Coherent D s) (hpc : (s.threads τ).pc=.lookup q k) :
    Coherent D (s.lookup D τ time q k) := by
  have hthread := h.threads τ
  have hfits := hthread.fits
  have hknows := hthread.knows
  have hzone := hthread.zone
  rw [hpc] at hfits hknows hzone
  have hread : ReadOk D s.store s.cache.generation {s.threads τ with
      reads := (s.threads τ).reads.record (q.key D) s.cache.generation} q k := by
    refine ⟨hthread.begun,?_,hfits,fun q hq => (hknows q hq).record,hzone⟩
    intro e he
    rcases CacheReads.mem_record he with rfl | he
    · exact le_refl _
    · exact hthread.stamps e he
  have hcache : Coherent D {s with cache := (s.cache.get (q.key D) time).1} := by
    refine ⟨h.unique,?_,fun e he => h.entries e (ReadCache.get_sub he),h.answers⟩
    intro τ'
    rw [ReadCache.get_generation]
    exact h.threads τ'
  unfold St.lookup
  dsimp only
  split
  · rename_i r hhit
    obtain ⟨entered,hentry⟩ := ReadCache.get_hit hhit
    have hok := h.entries _ hentry
    refine finish_coherent hcache (by rw [ReadCache.get_generation]; exact hread)
      ⟨hok.key,hok.selected,?_⟩
    intro c hc hchanged
    obtain ⟨hnow,htodo⟩ := hthread.begun c hc
    refine Framework.Settled.announced hok.settled hnow ⟨q,rfl,hchanged⟩ ?_
    rintro ⟨inv,hinv,_⟩
    rw [htodo] at hinv
    cases hinv
  · exact setThread_coherent hcache (by rw [ReadCache.get_generation]; exact missed_ok hread knows_record)

theorem fetch_coherent (h : Coherent D s) {zone : Option Text} (hpc : (s.threads τ).pc=.fetch q zone k)
    (hsame : q.zone=zone) : Coherent D (s.fetch D τ q zone k) := by
  subst hsame
  have hthread := h.threads τ
  have hfits := hthread.fits
  have hknows := hthread.knows
  have hzone := hthread.zone
  rw [hpc] at hfits hknows hzone
  have hselected : Reading.Selected D s.store
      ⟨q,q.select D q.zone s.store.current,s.store.now⟩ := ⟨rfl,le_refl _⟩
  unfold St.fetch
  dsimp only
  split
  · refine setThread_coherent h ⟨hthread.begun,hthread.stamps,hfits,hknows,hzone,?_⟩
    intro r k he
    cases he
    exact ⟨hselected,fun c hc => (hthread.begun c hc).1,fun _ => Framework.Settled.current⟩
  · exact finish_coherent h ⟨hthread.begun,hthread.stamps,hfits,
      fun q hq => hknows q (List.mem_cons_of_mem _ hq),hzone⟩
      ⟨rfl,hselected,fun c hc _ => (hthread.begun c hc).1⟩

theorem keep_coherent (h : Coherent D s) (hpc : (s.threads τ).pc=.store r k) :
    Coherent D (s.keep D τ time r k) := by
  have hthread := h.threads τ
  have hfits := hthread.fits
  have hknows := hthread.knows
  have hzone := hthread.zone
  obtain ⟨hselected,hbegun,hsettled⟩ := hthread.storing r k hpc
  rw [hpc] at hfits hknows hzone
  have hcache : Coherent D {s with
      cache := s.cache.set (s.threads τ).reads (r.source.key D) r time} := by
    refine ⟨h.unique,?_,?_,h.answers⟩
    · intro τ'
      rw [ReadCache.set_generation]
      exact h.threads τ'
    · intro e he
      rcases ReadCache.mem_set he with he | ⟨rfl,hexpected⟩
      · exact h.entries e he
      · exact ⟨rfl,hselected,hsettled hexpected⟩
  refine finish_coherent hcache ⟨hthread.begun,?_,hfits,?_,hzone⟩
    ⟨rfl,hselected,fun c hc _ => hbegun c hc⟩
  · intro e he
    rw [ReadCache.set_generation]
    exact hthread.stamps e (CacheReads.mem_forget he)
  · intro q hq
    refine (hknows q (List.mem_cons_of_mem _ hq)).forget ?_
    cases k with
    | answer => cases hq
    | filters owner clauses limit offset => cases hq
    | conditions owner clauses zone limit offset =>
      have hsource : r.source=.settings owner := hfits
      simp only [Frame.outer,Option.toList_some,List.mem_singleton] at hq
      rw [hq,hsource]
      exact items_key_ne

/-- The owner that is looked up is still the one that the row had when it was written. -/
def ownerKept (st : Store β ς) (id owner : Text) : Bool :=
  decide ((row ItemRow.id st.current.items id).map ItemRow.owner=some owner) && !owner.isEmpty

theorem announce_coherent (h : Coherent D s)
    (howner : ∀id owner rest,s.store.todo c=.ownerOf id owner::rest → ownerKept s.store id owner=true) :
    Coherent D (s.announce τ c) := by
  unfold St.announce
  split
  · have hthread := h.threads τ
    exact setThread_coherent h ⟨hthread.begun,hthread.stamps,trivial,by simp [Pc.asked],
      by simp [Pc.underway],by simp⟩
  · rename_i text rest htodo
    have hne : s.store.todo c≠[] := by rw [htodo]; simp
    refine ⟨h.unique,fun τ' => (h.threads τ').announce hne,?_,
      fun a ha => (h.answers a ha).extend Store.extends_progress⟩
    intro e he
    obtain ⟨he,hkept⟩ := ReadCache.mem_invalidate he
    refine (h.entries e he).progress ?_
    intro inv hinv hcovers
    rw [htodo] at hinv
    rcases List.mem_cons.mp hinv with rfl | hinv
    · rw [Invalidation.covers,hkept] at hcovers
      cases hcovers
    · exact ⟨inv,hinv,hcovers⟩
  · rename_i rest htodo
    have hne : s.store.todo c≠[] := by rw [htodo]; simp
    exact ⟨h.unique,fun τ' => (h.threads τ').announce hne,fun e he => (List.not_mem_nil he).elim,
      fun a ha => (h.answers a ha).extend Store.extends_progress⟩
  · rename_i id owner rest htodo
    have hne : s.store.todo c≠[] := by rw [htodo]; simp
    obtain ⟨hrow,hnonempty⟩ := Bool.and_eq_true_iff.mp (howner id owner rest htodo)
    obtain ⟨r,hr,rfl⟩ := Option.map_eq_some_iff.mp (of_decide_eq_true hrow)
    rw [hr]
    dsimp only
    have hisEmpty : r.owner.isEmpty=false := by simpa using hnonempty
    rw [hisEmpty]
    have hrest : ∀key,∀inv∈s.store.todo c,inv.covers key=true →
        ∃inv∈Invalidation.pattern (itemsPattern r.owner)::rest,inv.covers key=true := by
      intro key inv hinv hcovers
      rw [htodo] at hinv
      rcases List.mem_cons.mp hinv with rfl | hinv
      · exact ⟨_,List.mem_cons_self,hcovers⟩
      · exact ⟨inv,List.mem_cons_of_mem _ hinv,hcovers⟩
    exact ⟨h.unique,fun τ' => (h.threads τ').progress hne hrest,
      fun e he => (h.entries e he).progress (hrest e.1),
      fun a ha => (h.answers a ha).extend Store.extends_progress⟩

/-- The steps in which the filters of a page are resolved with one zone, and a writer finds the owner
of the row it has written. -/
def steady (s : St β ι ς σ φ) : Act β ς φ → Bool
  | .advance τ _ =>
    match (s.threads τ).pc with
    | .fetch q zone _ => decide (q.zone=zone)
    | .writing c =>
      match s.store.todo c with
      | .ownerOf id owner::_ => ownerKept s.store id owner
      | _ => true
    | _ => true
  | _ => true

theorem returned_ok {c : Nat} (h : c∈st.returned) : c ≤ st.now ∧ st.todo c=[] := by
  obtain ⟨hc,htodo⟩ := List.mem_filter.mp h
  exact ⟨Nat.lt_succ_iff.mp (List.mem_range.mp hc),by simpa using htodo⟩

theorem start_spec (D : Decoder β ι ς σ φ) (call : Call φ) :
    (call.start D : Pc ι σ φ).Fits ∧ (call.start D : Pc ι σ φ).asked=[] ∧
      (∀q∈(call.start D : Pc ι σ φ).underway,q.zone=none) ∧
      ∀r k,(call.start D : Pc ι σ φ)≠.store r k := by
  cases call with
  | getItem id owner => simp [Call.start,Pc.Fits,Frame.Fits,Pc.asked,Pc.underway,Frame.outer,Query.zone]
  | getItems owner clauses limit offset =>
    unfold Call.start
    dsimp only
    split
    · simp [Pc.Fits,Pc.asked,Pc.underway]
    · split <;> simp [Pc.Fits,Frame.Fits,Pc.asked,Pc.underway,Frame.outer,Query.zone]
  | getUserSettings user =>
    simp [Call.start,Pc.Fits,Frame.Fits,Pc.asked,Pc.underway,Frame.outer,Query.zone]

theorem step_coherent {act : Act β ς φ} {s' : St β ι ς σ φ} (h : Coherent D s) (hok : steady s act=true)
    (hstep : s.step D act=some s') : Coherent D s' := by
  cases act with
  | read τ call =>
    have hthread := h.threads τ
    simp only [St.step] at hstep
    split at hstep
    · cases hstep
      obtain ⟨hfits,hasked,hzone,hstore⟩ := start_spec D call
      exact setThread_coherent h ⟨fun c hc => returned_ok hc,hthread.stamps,hfits,
        fun q hq => absurd hq (by simp [hasked]),fun q hq => zoneRecent_of_zone (hzone q hq),
        fun r k he => absurd he (hstore r k)⟩
    · cases hstep
  | write τ w =>
    simp only [St.step] at hstep
    split at hstep
    · split at hstep
      · cases hstep
        exact h
      · rename_i t todo hcommit
        cases hstep
        have hcovered : ∀q : Query φ,¬q.Same s.store.current t → Covered D q todo :=
          fun q hq => commit_covers h.unique hcommit hq
        have hcommitted : Coherent D {s with store := s.store.commit t todo} := by
          refine ⟨?_,fun τ' => (h.threads τ').commit hcovered,
            fun e he => (h.entries e he).commit hcovered,
            fun a ha => (h.answers a ha).extend Store.extends_commit⟩
          have hcurrent : (s.store.commit t todo).current=t := update_self _ _ _
          rw [hcurrent]
          exact commit_unique h.unique hcommit
        have hthread := hcommitted.threads τ
        exact setThread_coherent hcommitted ⟨hthread.begun,hthread.stamps,trivial,by simp [Pc.asked],
          by simp [Pc.underway],by simp⟩
    · cases hstep
  | advance τ time =>
    simp only [St.step] at hstep
    simp only [steady] at hok
    split at hstep
    · cases hstep
    · cases hstep
      exact lookup_coherent h ‹_›
    · rename_i q zone k hpc
      cases hstep
      rw [hpc] at hok
      exact fetch_coherent h hpc (of_decide_eq_true hok)
    · cases hstep
      exact keep_coherent h ‹_›
    · rename_i c hpc
      cases hstep
      rw [hpc] at hok
      refine announce_coherent h ?_
      intro id owner rest htodo
      dsimp only at hok
      rw [htodo] at hok
      exact hok

theorem new_coherent (ht : UniqueIds t) : Coherent D (St.new t : St β ι ς σ φ) where
  unique := ht
  threads τ := by
    refine ⟨?_,?_,trivial,?_,?_,?_⟩
    all_goals simp [St.new,CacheReads.new,Pc.asked,Pc.underway]
  entries e he := (List.not_mem_nil he).elim
  answers a ha := (List.not_mem_nil ha).elim

/-- In every run of steady steps every read that a thread has been given misses no write that had
returned when it began, and no entry that a finished writer had to drop is in the cache. -/
theorem cached_reads_fresh (D : Decoder β ι ς σ φ) (t : Tables β ς) (ht : UniqueIds t)
    {s : St β ι ς σ φ} (h : Reach (St.step D) (fun s act => steady s act=true) (· = St.new t) s) :
    (∀a∈s.answers,AnswerOk D s.store a) ∧
      ∀e∈s.cache.entries,∀q : Query φ,q.key D=e.1 → ∀c ≤ s.store.now,
        ¬q.Same (s.store.tables (c-1)) (s.store.tables c) → c ≤ e.2.value.readAt ∨
          ∃inv∈s.store.todo c,inv.covers e.1=true := by
  have hcoherent : Coherent D s := h.invariant (fun _ hinit => hinit ▸ new_coherent ht)
    (fun _ _ _ hs hok hstep => step_coherent hs hok hstep)
  refine ⟨hcoherent.answers,?_⟩
  intro e he q hq c hc hchanged
  by_cases hread : c ≤ e.2.value.readAt
  · exact .inl hread
  · exact .inr ((hcoherent.entries e he).settled c (by omega) hc ⟨q,hq,hchanged⟩)

/-! A database of notes whose bodies are numbers, in which users of zone B see no page. -/

def noteDecoder : Decoder Nat Nat Text Text Bool where
  rowToItem r := some r.body
  usesZone filters := filters
  dumps _ zone := zone.getD []
  page _ zone _ _ _ rows := if zone=some ['B'] then [] else rows
  hydrate := id
  defaults _ := ['A']
  zone := id

def note : ItemRow Nat := ⟨['n'],['u'],['t'],false,0,none,false,7⟩

def notes : Tables Nat Text := ⟨[note],[⟨['u'],['A']⟩],[]⟩

abbrev Notes := St Nat Nat Text Text Bool

def readItems (zoned : Bool) (steps : Nat) : List (Act Nat Text Bool) :=
  .read 0 (.getItems ['u'] zoned 10 0)::List.replicate steps (.advance 0 0)

def readWriteRead : List (Act Nat Text Bool) :=
  readItems false 3++
  [.write 1 (.updateItem ['n'] (some ['u']) none none true (fun r => {r with body := 8})),
    .advance 1 0,.advance 1 0]++
  readItems false 3

theorem cached_reads_fresh_example :
    ∃s : Notes,executeIf (St.step noteDecoder) steady (St.new notes) readWriteRead=some s ∧
      (∃a∈s.answers,a.value=.items [8] ∧ 1∈a.begun) ∧
      ∀a∈s.answers,AnswerOk noteDecoder s.store a := by
  have hrun : (executeIf (St.step noteDecoder) steady (St.new notes : Notes) readWriteRead).any
      (fun s => s.answers.any (fun a => a.value=.items [8] && a.begun.contains 1))=true := by
    decide
  obtain ⟨s,hs,hanswers⟩ := (Option.any_eq_true _ _).mp hrun
  obtain ⟨a,ha,hvalue⟩ := List.any_eq_true.mp hanswers
  simp only [Bool.and_eq_true,decide_eq_true_eq,List.contains_eq_mem] at hvalue
  have hinit : Reach (St.step noteDecoder) (fun s a => steady s a=true) (·=St.new notes)
      (St.new notes) := .start rfl
  have hreach := Reach.executeIf readWriteRead hinit hs
  exact ⟨s,hs,⟨a,ha,hvalue⟩,
    (cached_reads_fresh noteDecoder notes (List.nodup_singleton _) hreach).1⟩

/-- A write without an owner, whose row another thread removes before the owner is looked up. -/
def updateThenPurge : List (Act Nat Text Bool) :=
  readItems false 3++
  [.write 1 (.updateItem ['n'] none none none true (fun r => {r with body := 8})),
    .write 2 (.deleteItem ['n'] ['u'] false id),.advance 1 0,.advance 1 0]++
  readItems false 1

def moveTo (zone : Char) : List (Act Nat Text Bool) :=
  [.write 1 (.updateUserSettings ['u'] (fun _ => [zone])),.advance 1 0,.advance 1 0]

def zoneThereAndBack : List (Act Nat Text Bool) :=
  readItems true 3++moveTo 'B'++List.replicate 6 (.advance 0 0)++moveTo 'A'++readItems true 4

/-- The list from before a write that has returned is read again; and a page that was selected for
zone B is read for zone A, when no write is under way. -/
theorem stale_page_is_read :
    (∃s : Notes,Reach (St.step noteDecoder) Free (· = St.new notes) s ∧
      ∃a∈s.answers,a.query=.items ['u'] false none 10 0 ∧ 1∈a.begun ∧ a.readAt=0 ∧
        (s.store.tables 0).live ['u']≠(s.store.tables 1).live ['u']) ∧
    ∃s : Notes,Reach (St.step noteDecoder) Free (· = St.new notes) s ∧
      ∃a∈s.answers,a.query=.items ['u'] true (some ['A']) 10 0 ∧ s.store.now∈a.begun ∧
        a.value≠a.query.select noteDecoder (some ['A']) s.store.current := by
  have hpurge : (execute (St.step noteDecoder) (St.new notes : Notes) updateThenPurge).any (fun s =>
      s.answers.any (fun a => decide (a.query=.items ['u'] false none 10 0) && a.begun.contains 1 &&
        decide (a.readAt=0)) &&
      decide ((s.store.tables 0).live ['u']≠(s.store.tables 1).live ['u']))=true := by
    decide
  have hzone : (execute (St.step noteDecoder) (St.new notes : Notes) zoneThereAndBack).any (fun s =>
      s.answers.any (fun a => decide (a.query=.items ['u'] true (some ['A']) 10 0) &&
        a.begun.contains s.store.now &&
        decide (a.value≠a.query.select noteDecoder (some ['A']) s.store.current)))=true := by
    decide
  constructor
  · obtain ⟨s,hs,hfound⟩ := (Option.any_eq_true _ _).mp hpurge
    obtain ⟨hanswers,hchanged⟩ := Bool.and_eq_true_iff.mp hfound
    obtain ⟨a,ha,hread⟩ := List.any_eq_true.mp hanswers
    simp only [Bool.and_eq_true,decide_eq_true_eq,List.contains_eq_mem] at hread
    exact ⟨s,Reach.execute updateThenPurge (fun _ _ _ => trivial) (.start rfl) hs,a,ha,
      hread.1.1,hread.1.2,hread.2,of_decide_eq_true hchanged⟩
  · obtain ⟨s,hs,hfound⟩ := (Option.any_eq_true _ _).mp hzone
    obtain ⟨a,ha,hread⟩ := List.any_eq_true.mp hfound
    simp only [Bool.and_eq_true,decide_eq_true_eq,List.contains_eq_mem] at hread
    exact ⟨s,Reach.execute zoneThereAndBack (fun _ _ _ => trivial) (.start rfl) hs,a,ha,
      hread.1.1,hread.1.2,hread.2⟩

end XiaoQing.Pendo.Reads
