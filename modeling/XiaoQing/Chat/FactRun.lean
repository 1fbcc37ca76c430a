import XiaoQing.Chat.FactBatches

namespace XiaoQing.Chat.Facts

open Framework Commands Message

section

variable {digest : Text → String} {s t : Extraction} {p : Position} {m e : Message}

/-- Messages arrive in the order of their times, and two of one time are told apart. -/
def Before (digest : Text → String) (a b : Message) : Prop :=
  ∃q r,a.ts=some q∧b.ts=some r∧0 < q∧q ≤ r∧(q=r → a.identity digest≠b.identity digest)

/-- A message that is appended has a positive time that is not before an earlier one, an identity of
its own among those of that time, and a line that fits into a batch. -/
def Timely (digest : Text → String) (s : Extraction) : Act → Prop
  | .append m => (∃q,m.ts=some q∧0 < q)∧(∀e∈s.log,Before digest e m)∧m.factLine.length ≤ maxChars
  | _ => True

def WithinBudget (batch : List Message) : Prop :=
  (batch.map fun m => m.factLine.length).sum ≤ maxChars∧batch.length ≤ maxItems

theorem select_takes (sel : Selection) (pending : List Message) : ∃k,k ≤ pending.length∧
    select sel pending=⟨sel.batch++(pending.take k).filter hasLine,sel.covered+k⟩∧
    (sel.batch=[] → pending≠[] → 0 < k) := by
  induction pending generalizing sel with
  | nil => exact ⟨0,Nat.le_refl _,by simp [select],fun _ h => absurd rfl h⟩
  | cons m rest ih =>
    by_cases hline : m.hasLine=true
    · by_cases hfull : sel.batch≠[]∧(maxChars < (sel.batch.map fun m => m.factLine.length).sum+
          m.factLine.length∨maxItems ≤ sel.batch.length)
      · refine ⟨0,Nat.zero_le _,?_,fun hempty => absurd hempty hfull.1⟩
        unfold select
        rw [if_pos hline]
        dsimp only
        rw [if_pos hfull]
        simp
      · obtain ⟨k,hk,hselect,-⟩ := ih ⟨sel.batch++[m],sel.covered+1⟩
        refine ⟨k+1,Nat.succ_le_succ hk,?_,fun _ _ => Nat.succ_pos k⟩
        unfold select
        rw [if_pos hline]
        dsimp only
        rw [if_neg hfull,hselect,List.take_succ_cons,List.filter_cons_of_pos hline]
        simp only [List.append_assoc,List.singleton_append,Selection.mk.injEq,true_and]
        omega
    · obtain ⟨k,hk,hselect,-⟩ := ih ⟨sel.batch,sel.covered+1⟩
      refine ⟨k+1,Nat.succ_le_succ hk,?_,fun _ _ => Nat.succ_pos k⟩
      unfold select
      rw [if_neg hline,hselect,List.take_succ_cons,List.filter_cons_of_neg hline]
      simp only [Selection.mk.injEq,true_and]
      omega

theorem select_budget (sel : Selection) (pending : List Message)
    (hfit : ∀m∈pending,m.factLine.length ≤ maxChars) (h : WithinBudget sel.batch) :
    WithinBudget (select sel pending).batch := by
  induction pending generalizing sel with
  | nil => exact h
  | cons m rest ih =>
    have hrest : ∀e∈rest,e.factLine.length ≤ maxChars := fun e he => hfit e (.tail _ he)
    unfold select
    split_ifs with hline
    · dsimp only
      split_ifs with hfull
      · exact h
      · apply ih _ hrest
        have hm := hfit m (.head _)
        unfold WithinBudget
        simp only [List.map_append,List.map_cons,List.map_nil,List.sum_append,List.sum_singleton,
          List.length_append,List.length_singleton]
        by_cases hempty : sel.batch=[]
        · rw [hempty]
          simp only [List.map_nil,List.sum_nil,List.length_nil]
          exact ⟨by omega,by decide⟩
        · have hroom : ¬(maxChars < (sel.batch.map fun m => m.factLine.length).sum+m.factLine.length∨
              maxItems ≤ sel.batch.length) := fun hor => hfull ⟨hempty,hor⟩
          omega
    · exact ih _ hrest h

theorem timestamp_of {q : ℚ} (h : m.ts=some q) (hq : 0 < q) : m.timestamp=q := by
  unfold Message.timestamp
  rw [h]
  exact if_pos hq

theorem unobserved_iff {q : ℚ} (h : m.ts=some q) (hq : 0 < q) : m.isUnobserved digest p=true↔
    p.ts ≤ 0∨p.ts < q∨q=p.ts∧m.identity digest∉p.ids := by
  unfold Message.isUnobserved
  rw [timestamp_of h hq]
  simp only [Bool.or_eq_true,Bool.and_eq_true,decide_eq_true_eq]

/-- The checkpoint after a selection whose last message has the time w. -/
structure Advanced (digest : Text → String) (p : Position) (covered : List Message) (w : ℚ)
    (p' : Position) : Prop where
  ts : p'.ts=w
  ids : ∀x,x∈p'.ids↔(∃e∈covered,e.ts=some w∧e.identity digest=x)∨w=p.ts∧x∈p.ids

/-- The history is what was observed and what was not, in this order: what was is in the batches, and
what was not is in none. -/
structure Front (digest : Text → String) (s : Extraction) (done rest : List Message) : Prop where
  split : s.history=done++rest
  observed : ∀m∈done,m.isUnobserved digest s.position=false
  unobserved : ∀m∈rest,m.isUnobserved digest s.position=true
  placed : ∀m∈done,m.hasLine=true → m∈s.batches.flatten
  free : ∀m∈rest,m∉s.batches.flatten

structure Inv (digest : Text → String) (s : Extraction) : Prop where
  within : s.trimmed ≤ s.log.length
  positive : ∀m∈s.log,∃q,m.ts=some q∧0 < q
  sorted : s.log.Pairwise (Before digest)
  fits : ∀m∈s.log,m.factLine.length ≤ maxChars
  position : s.position.ts ≤ 0∨∃m∈s.log,m.ts=some s.position.ts
  ids : ∀x∈s.position.ids,∃m∈s.log,m.ts=some s.position.ts∧m.identity digest=x
  front : ∃done rest,Front digest s done rest
  once : s.batches.flatten.Nodup
  known : ∀m∈s.batches.flatten,m∈s.log
  budget : ∀b∈s.batches,WithinBudget b

theorem Before.ne {a b : Message} (h : Before digest a b) : a≠b := by
  rintro rfl
  obtain ⟨q,r,hq,hr,-,-,hapart⟩ := h
  rw [hq,Option.some.injEq] at hr
  exact hapart hr rfl

theorem Inv.nodup (h : Inv digest s) : s.log.Nodup := h.sorted.imp fun hab => hab.ne

theorem Inv.history (h : Inv digest s) : s.history.Pairwise (Before digest) :=
  h.sorted.sublist (List.drop_sublist _ _)

variable {done rest : List Message}

theorem Front.pending_eq (h : Front digest s done rest) :
    s.pending digest=rest := by
  unfold Extraction.pending
  rw [h.split,List.filter_append]
  have hdone : done.filter (·.isUnobserved digest s.position)=[] := by
    rw [List.filter_eq_nil_iff]
    intro m hm
    rw [h.observed m hm]
    exact Bool.false_ne_true
  rw [hdone,List.nil_append,List.filter_eq_self]
  exact h.unobserved

theorem Inv.append (h : Inv digest s) (hm : Timely digest s (.append m)) :
    Inv digest {s with log := s.log++[m]} := by
  obtain ⟨⟨q,hq,hpos⟩,hafter,hfit⟩ := hm
  have hmem : ∀{e},e∈s.log++[m] → e∈s.log∨e=m := by
    intro e he
    rcases List.mem_append.mp he with hold | hnew
    · exact .inl hold
    · exact .inr (List.mem_singleton.mp hnew)
  have hnew : m∉s.log := fun hin => (hafter m hin).ne rfl
  obtain ⟨done,rest,hfront⟩ := h.front
  have hunobserved : m.isUnobserved digest s.position=true := by
    rw [unobserved_iff hq hpos]
    rcases h.position with hzero | ⟨e,he,hts⟩
    · exact .inl hzero
    · obtain ⟨r,q',hr,hq',-,hle,hapart⟩ := hafter e he
      rw [hts,Option.some.injEq] at hr
      rw [hq,Option.some.injEq] at hq'
      subst r q'
      rcases lt_or_eq_of_le hle with hlt | heq
      · exact .inr (.inl hlt)
      · refine .inr (.inr ⟨heq.symm,fun hid => ?_⟩)
        obtain ⟨f,hf,hfts,hfid⟩ := h.ids _ hid
        obtain ⟨r,q',hr,hq',-,-,hdiff⟩ := hafter f hf
        rw [hfts,Option.some.injEq] at hr
        rw [hq,Option.some.injEq] at hq'
        subst r q'
        exact hdiff heq hfid
  refine ⟨?_,fun e he => ?_,?_,fun e he => ?_,?_,fun x hx => ?_,⟨done,rest++[m],?_,hfront.observed,
    fun e he => ?_,hfront.placed,fun e he => ?_⟩,h.once,fun e he => List.mem_append_left _ (h.known e he),
    h.budget⟩
  · have hle := h.within
    simp only [List.length_append,List.length_singleton]
    omega
  · rcases hmem he with hold | rfl
    · exact h.positive e hold
    · exact ⟨q,hq,hpos⟩
  · refine List.pairwise_append.mpr ⟨h.sorted,List.pairwise_singleton _ _,fun a ha b hb => ?_⟩
    rw [List.mem_singleton.mp hb]
    exact hafter a ha
  · rcases hmem he with hold | rfl
    · exact h.fits e hold
    · exact hfit
  · exact h.position.imp id fun ⟨e,he,hts⟩ => ⟨e,List.mem_append_left _ he,hts⟩
  · obtain ⟨e,he,hts⟩ := h.ids x hx
    exact ⟨e,List.mem_append_left _ he,hts⟩
  · have hsplit := hfront.split
    unfold Extraction.history at hsplit ⊢
    dsimp only
    rw [List.drop_append_of_le_length h.within,hsplit,List.append_assoc]
  · rcases List.mem_append.mp he with hold | hlast
    · exact hfront.unobserved e hold
    · rw [List.mem_singleton.mp hlast]
      exact hunobserved
  · rcases List.mem_append.mp he with hold | hlast
    · exact hfront.free e hold
    · rw [List.mem_singleton.mp hlast]
      exact fun hin => hnew (h.known m hin)

theorem Inv.trim (h : Inv digest s) (n : Nat) :
    Inv digest {s with trimmed := min (s.trimmed+n) s.log.length} := by
  obtain ⟨done,rest,hfront⟩ := h.front
  have hsplit : s.log.drop (min (s.trimmed+n) s.log.length)=
      done.drop n++rest.drop (n-done.length) := by
    have hold := hfront.split
    unfold Extraction.history at hold
    rw [← List.drop_append,← hold,List.drop_drop]
    by_cases hle : s.trimmed+n ≤ s.log.length
    · rw [Nat.min_eq_left hle]
    · rw [Nat.min_eq_right (by omega),List.drop_length,List.drop_eq_nil_of_le (by omega)]
  exact ⟨Nat.min_le_right _ _,h.positive,h.sorted,h.fits,h.position,h.ids,
    ⟨done.drop n,rest.drop (n-done.length),hsplit,
      fun m hm => hfront.observed m (List.mem_of_mem_drop hm),
      fun m hm => hfront.unobserved m (List.mem_of_mem_drop hm),
      fun m hm => hfront.placed m (List.mem_of_mem_drop hm),
      fun m hm => hfront.free m (List.mem_of_mem_drop hm)⟩,h.once,h.known,h.budget⟩

def Extraction.advance (s : Extraction) (p : Position) (batch : List Message) : Extraction :=
  {s with
    position := p
    batches := if batch=[] then s.batches else s.batches++[batch]}

theorem flatten_advance (batch : List Message) :
    (s.advance p batch).batches.flatten=s.batches.flatten++batch := by
  unfold Extraction.advance
  dsimp only
  split_ifs with hempty
  · rw [hempty,List.append_nil]
  · rw [List.flatten_append,List.flatten_singleton]

theorem Inv.round (h : Inv digest s) (hfront : Front digest s done rest)
    {minMessages : Nat} (henough : ¬rest.length < max 1 minMessages) : ∃k,0 < k∧k ≤ rest.length∧
      ∃w p',0 < w∧(∃last∈rest.take k,last.ts=some w∧∀e∈rest.take k,∀q,e.ts=some q → q ≤ w)∧
        Advanced digest s.position (rest.take k) w p'∧
        s.round digest minMessages true=s.advance p' ((rest.take k).filter hasLine)∧
        WithinBudget ((rest.take k).filter hasLine) := by
  have hrest : rest≠[] := by
    rintro rfl
    exact henough (by rw [List.length_nil]; omega)
  have hlog : ∀e∈rest,e∈s.log := by
    intro e he
    apply List.mem_of_mem_drop (i:=s.trimmed)
    have hsplit := hfront.split
    unfold Extraction.history at hsplit
    rw [hsplit]
    exact List.mem_append_right _ he
  obtain ⟨k,hk,hselect,hpos⟩ := select_takes ⟨[],0⟩ rest
  have hkpos := hpos rfl hrest
  have hbudget := select_budget ⟨[],0⟩ rest (fun e he => h.fits e (hlog e he)) ⟨by decide,by decide⟩
  rw [hselect] at hbudget
  simp only [List.nil_append,Nat.zero_add] at hselect hbudget
  have htaken : rest.take k≠[] := by
    intro hnil
    have hlength := congrArg List.length hnil
    rw [List.length_take,List.length_nil] at hlength
    omega
  -- the last of the covered messages has the latest time
  obtain ⟨front,last,hlast⟩ : ∃front last,rest.take k=front++[last] :=
    ⟨_,_,(List.dropLast_append_getLast htaken).symm⟩
  have hmem : last∈rest.take k := by rw [hlast]; exact List.mem_append_right _ (.head _)
  obtain ⟨w,hw,hwpos⟩ := h.positive last (hlog last (List.mem_of_mem_take hmem))
  have hsorted : (front++[last]).Pairwise (Before digest) := by
    rw [← hlast]
    have hhistory := h.history
    rw [hfront.split] at hhistory
    exact (List.pairwise_append.mp hhistory).2.1.sublist (List.take_sublist _ _)
  have hlatest : ∀e∈rest.take k,∀q,e.ts=some q → q ≤ w := by
    intro e he q hq
    rw [hlast] at he
    rcases List.mem_append.mp he with hearly | hend
    · obtain ⟨a,b,ha,hb,-,hle,-⟩ := (List.pairwise_append.mp hsorted).2.2 e hearly last (.head _)
      rw [hq,Option.some.injEq] at ha
      rw [hw,Option.some.injEq] at hb
      exact ha ▸ hb ▸ hle
    · rw [List.mem_singleton.mp hend,hw,Option.some.injEq] at hq
      exact le_of_eq hq.symm
  let seen := (((rest.take k).filter fun m => m.ts.isSome && m.ts=last.ts).map
    (·.identity digest)).toFinset
  let ids := if last.ts=some s.position.ts then seen∪s.position.ids else seen
  have hseen : ∀x,x∈seen↔∃e∈rest.take k,e.ts=some w∧e.identity digest=x := by
    intro x
    simp only [seen,List.mem_toFinset,List.mem_map,List.mem_filter,Bool.and_eq_true,
      decide_eq_true_eq]
    constructor
    · rintro ⟨e,⟨he,-,hts⟩,hid⟩
      exact ⟨e,he,hts.trans hw,hid⟩
    · rintro ⟨e,he,hts,hid⟩
      exact ⟨e,⟨he,by rw [hts]; rfl,hts.trans hw.symm⟩,hid⟩
  have hids : ∀x,x∈ids↔(∃e∈rest.take k,e.ts=some w∧e.identity digest=x)∨
      w=s.position.ts∧x∈s.position.ids := by
    intro x
    simp only [ids,hw,Option.some.injEq]
    split_ifs with hsame
    · rw [Finset.mem_union,hseen]
      exact or_congr_right ⟨fun hx => ⟨hsame,hx⟩,fun hx => hx.2⟩
    · rw [hseen]
      exact ⟨.inl,fun hor => hor.resolve_right fun hx => hsame hx.1⟩
  have hmoved : ¬(some w=some s.position.ts∧ids=s.position.ids) := by
    rintro ⟨hsame,hfixed⟩
    have hunobserved := hfront.unobserved last (List.mem_of_mem_take hmem)
    rw [unobserved_iff hw hwpos] at hunobserved
    rw [Option.some.injEq] at hsame
    rcases hunobserved with hzero | hless | ⟨-,hnot⟩
    · exact absurd (hsame ▸ hwpos) (not_lt.mpr hzero)
    · exact absurd hless (by rw [hsame]; exact lt_irrefl _)
    · apply hnot
      rw [← hfixed,hids]
      exact .inl ⟨last,hmem,hw,rfl⟩
  have hchosen : selectFactBatch digest s.history s.position=
      ((rest.take k).filter hasLine,some w,ids) := by
    have hpending : s.history.filter (·.isUnobserved digest s.position)=rest := hfront.pending_eq
    unfold selectFactBatch
    rw [hpending]
    dsimp only
    rw [hselect]
    dsimp only
    have hend : (rest.take k).getLast?=some last := by
      rw [hlast]
      exact List.getLast?_concat
    rw [hend]
    exact Prod.ext rfl (Prod.ext hw rfl)
  refine ⟨k,hkpos,hk,w,⟨w,ids⟩,hwpos,⟨last,hmem,hw,hlatest⟩,⟨rfl,hids⟩,?_,hbudget⟩
  unfold Extraction.round
  rw [hfront.pending_eq,if_neg henough,hchosen]
  dsimp only
  rw [if_neg hmoved,if_pos rfl]
  unfold savePosition
  dsimp only
  rw [if_pos hwpos]
  rfl

theorem Inv.advance (h : Inv digest s) (hfront : Front digest s done rest)
    {k : Nat} {w : ℚ} {p' : Position} (hw : 0 < w) (hlast : ∃last∈rest.take k,last.ts=some w)
    (hlatest : ∀e∈rest.take k,∀q,e.ts=some q → q ≤ w)
    (hp : Advanced digest s.position (rest.take k) w p')
    (hbudget : WithinBudget ((rest.take k).filter hasLine)) :
    Inv digest (s.advance p' ((rest.take k).filter hasLine))∧
      Front digest (s.advance p' ((rest.take k).filter hasLine)) (done++rest.take k) (rest.drop k) := by
  have hhistory := h.history
  rw [hfront.split] at hhistory
  obtain ⟨hdone,hrest,hacross⟩ := List.pairwise_append.mp hhistory
  have hlog : ∀e∈done++rest,e∈s.log := by
    intro e he
    rw [← hfront.split] at he
    exact List.mem_of_mem_drop he
  have hwhole : rest.take k++rest.drop k=rest := List.take_append_drop k rest
  have htake : ∀e∈rest.take k,e∈rest := fun e he => List.mem_of_mem_take he
  have hdrop : ∀e∈rest.drop k,e∈rest := fun e he => List.mem_of_mem_drop he
  have hparts := hrest
  rw [← hwhole] at hparts
  obtain ⟨-,-,hafter⟩ := List.pairwise_append.mp hparts
  have hpositive : ∀e∈done++rest,∃q,e.ts=some q∧0 < q := fun e he => h.positive e (hlog e he)
  obtain ⟨last,hlastmem,hlastts⟩ := hlast
  have hold : s.position.ts ≤ w := by
    have hun := hfront.unobserved last (htake last hlastmem)
    rw [unobserved_iff hlastts hw] at hun
    rcases hun with hzero | hless | ⟨hsame,-⟩
    · exact le_trans hzero (le_of_lt hw)
    · exact le_of_lt hless
    · exact le_of_eq hsame.symm
  -- what is covered now, or was before, is observed
  have hobserved : ∀e∈done++rest.take k,e.isUnobserved digest p'=false := by
    intro e he
    rcases List.mem_append.mp he with hearly | hnow
    · obtain ⟨q,hq,hqpos⟩ := hpositive e (List.mem_append_left _ hearly)
      have hbefore := hfront.observed e hearly
      rw [← Bool.not_eq_true,unobserved_iff hq hqpos] at hbefore
      rw [← Bool.not_eq_true,unobserved_iff hq hqpos,hp.ts]
      push Not at hbefore ⊢
      obtain ⟨hposold,hle,hin⟩ := hbefore
      refine ⟨hw,le_trans hle hold,fun hsame => ?_⟩
      have hqold : q=s.position.ts := le_antisymm hle (hsame ▸ hold)
      exact (hp.ids _).mpr (.inr ⟨hsame.symm.trans hqold,hin hqold⟩)
    · obtain ⟨q,hq,hqpos⟩ := hpositive e (List.mem_append_right _ (htake e hnow))
      rw [← Bool.not_eq_true,unobserved_iff hq hqpos,hp.ts]
      push Not
      refine ⟨hw,hlatest e hnow q hq,fun hsame => ?_⟩
      exact (hp.ids _).mpr (.inl ⟨e,hnow,hsame ▸ hq,rfl⟩)
  have hfree : ∀e∈rest.drop k,e.isUnobserved digest p'=true := by
    intro e he
    obtain ⟨q,hq,hqpos⟩ := hpositive e (List.mem_append_right _ (hdrop e he))
    rw [unobserved_iff hq hqpos,hp.ts]
    obtain ⟨a,b,ha,hb,-,hle,-⟩ := hafter last hlastmem e he
    rw [hlastts,Option.some.injEq] at ha
    rw [hq,Option.some.injEq] at hb
    subst a b
    rcases lt_or_eq_of_le hle with hlt | hsame
    · exact .inr (.inl hlt)
    · refine .inr (.inr ⟨hsame.symm,fun hin => ?_⟩)
      rcases (hp.ids _).mp hin with ⟨f,hf,hfts,hfid⟩ | ⟨hwold,hinold⟩
      · obtain ⟨a,b,ha,hb,-,-,hapart⟩ := hafter f hf e he
        rw [hfts,Option.some.injEq] at ha
        rw [hq,Option.some.injEq] at hb
        exact hapart (ha ▸ hb ▸ hsame) hfid
      · have hun := hfront.unobserved e (hdrop e he)
        rw [unobserved_iff hq hqpos] at hun
        rcases hun with hzero | hless | ⟨-,hnot⟩
        · rw [← hwold] at hzero
          exact absurd hw (not_lt.mpr hzero)
        · rw [← hwold,hsame] at hless
          exact absurd hless (lt_irrefl _)
        · exact hnot hinold
  have hnodup : (done++rest).Nodup := hhistory.imp fun hab => hab.ne
  have hapart : ∀e∈rest.take k,e∉rest.drop k := by
    intro e he hin
    exact (hafter e he e hin).ne rfl
  have hfront' : Front digest (s.advance p' ((rest.take k).filter hasLine)) (done++rest.take k)
      (rest.drop k) := by
    refine ⟨?_,hobserved,hfree,fun e he hline => ?_,fun e he hin => ?_⟩
    · change s.history=_
      rw [hfront.split,List.append_assoc,hwhole]
    · rw [flatten_advance]
      rcases List.mem_append.mp he with hearly | hnow
      · exact List.mem_append_left _ (hfront.placed e hearly hline)
      · exact List.mem_append_right _ (List.mem_filter.mpr ⟨hnow,hline⟩)
    · rw [flatten_advance] at hin
      rcases List.mem_append.mp hin with hbefore | hnow
      · exact hfront.free e (hdrop e he) hbefore
      · exact hapart e (List.mem_filter.mp hnow).1 he
  refine ⟨⟨h.within,h.positive,h.sorted,h.fits,.inr ⟨last,?_,?_⟩,fun x hx => ?_,⟨_,_,hfront'⟩,?_,
    fun e he => ?_,fun b hb => ?_⟩,hfront'⟩
  · exact hlog last (List.mem_append_right _ (htake last hlastmem))
  · change last.ts=some p'.ts
    rw [hp.ts]
    exact hlastts
  · change ∃e∈s.log,e.ts=some p'.ts∧e.identity digest=x
    rw [hp.ts]
    rcases (hp.ids x).mp hx with ⟨e,he,hts,hid⟩ | ⟨hwold,hinold⟩
    · exact ⟨e,hlog e (List.mem_append_right _ (htake e he)),hts,hid⟩
    · rw [hwold]
      exact h.ids x hinold
  · rw [flatten_advance]
    refine List.nodup_append.mpr ⟨h.once,?_,fun a ha b hb hab => ?_⟩
    · have hrestnodup : rest.Nodup := (List.nodup_append.mp hnodup).2.1
      exact (hrestnodup.sublist (List.take_sublist _ _)).filter _
    · rw [hab] at ha
      exact hfront.free b (htake b (List.mem_filter.mp hb).1) ha
  · rw [flatten_advance] at he
    rcases List.mem_append.mp he with hbefore | hnow
    · exact h.known e hbefore
    · exact hlog e (List.mem_append_right _ (htake e (List.mem_filter.mp hnow).1))
  · unfold Extraction.advance at hb
    dsimp only at hb
    split_ifs at hb
    · exact h.budget b hb
    · rcases List.mem_append.mp hb with hbefore | hnow
      · exact h.budget b hbefore
      · rw [List.mem_singleton.mp hnow]
        exact hbudget

/-- Every message of the history that has a line and was observed is in exactly one batch, one that
was not is in none, each batch respects the budget, and a round with enough pending messages takes
the first of them, one at least. -/
structure Covers (digest : Text → String) (s : Extraction) : Prop where
  once : s.batches.flatten.Nodup
  observed : ∀m∈s.history,m.hasLine=true →
    (m∈s.batches.flatten↔m.isUnobserved digest s.position=false)
  budget : ∀b∈s.batches,WithinBudget b
  progress : ∀minMessages,¬(s.pending digest).length < max 1 minMessages → ∃k,0 < k∧
    k ≤ (s.pending digest).length∧
    (s.round digest minMessages true).pending digest=(s.pending digest).drop k∧
    (s.round digest minMessages true).batches.flatten=
      s.batches.flatten++((s.pending digest).take k).filter hasLine

theorem Inv.covers (h : Inv digest s) : Covers digest s where
  once := h.once
  observed m hm hline := by
    obtain ⟨done,rest,hfront⟩ := h.front
    rw [hfront.split] at hm
    rcases List.mem_append.mp hm with hdone | hrest
    · exact iff_of_true (hfront.placed m hdone hline) (hfront.observed m hdone)
    · refine iff_of_false (hfront.free m hrest) ?_
      rw [hfront.unobserved m hrest]
      exact Bool.true_eq_false_eq_False
  budget := h.budget
  progress minMessages henough := by
    obtain ⟨done,rest,hfront⟩ := h.front
    rw [hfront.pending_eq] at henough ⊢
    obtain ⟨k,hk,hle,w,p',hw,⟨last,hlast,hts,hlatest⟩,hp,hround,hbudget⟩ := h.round hfront henough
    refine ⟨k,hk,hle,?_⟩
    rw [hround]
    have hadvanced := h.advance hfront hw ⟨last,hlast,hts⟩ hlatest hp hbudget
    exact ⟨hadvanced.2.pending_eq,flatten_advance _⟩

theorem step_inv (a : Act) (h : Inv digest s) (ha : Timely digest s a) (ht : s.step digest a=some t) :
    Inv digest t := by
  cases a with
  | append m =>
    cases ht
    exact h.append ha
  | trim n =>
    cases ht
    exact h.trim n
  | round minMessages saved =>
    cases ht
    obtain ⟨done,rest,hfront⟩ := h.front
    cases saved with
    | true =>
      by_cases henough : rest.length < max 1 minMessages
      · unfold Extraction.round
        rw [hfront.pending_eq,if_pos henough]
        exact h
      · obtain ⟨k,-,-,w,p',hw,⟨last,hlast,hts,hlatest⟩,hp,hround,hbudget⟩ := h.round hfront henough
        rw [hround]
        exact (h.advance hfront hw ⟨last,hlast,hts⟩ hlatest hp hbudget).1
    | false =>
      have hsame : s.round digest minMessages false=s := by
        unfold Extraction.round
        dsimp only
        rw [if_neg Bool.false_ne_true,ite_self,ite_self]
      rw [hsame]
      exact h

theorem facts_covered_once (h : Reach (fun s a => Extraction.step digest s a) (Timely digest)
    (fun s => s=.new) s) : Covers digest s := by
  have hinv : Inv digest s := by
    apply h.invariant
    · rintro s rfl
      exact ⟨Nat.le_refl _,nofun,.nil,nofun,.inl (le_refl _),nofun,⟨[],[],rfl,nofun,nofun,nofun,nofun⟩,
        .nil,nofun,nofun⟩
    · intro s a t hs ha ht
      exact step_inv a hs ha ht
  exact hinv.covers

def punctual (digest : Text → String) (s : Extraction) : Act → Bool
  | .append m =>
    m.ts.any (fun q => 0 < q && s.log.all (fun e => e.ts.any (fun r => 0 < r &&
      (r < q || (r=q && e.identity digest≠m.identity digest))))) && m.factLine.length ≤ maxChars
  | _ => true

theorem punctual_timely (s : Extraction) (a : Act) (h : punctual digest s a=true) :
    Timely digest s a := by
  cases a with
  | append m =>
    unfold punctual at h
    rw [Bool.and_eq_true] at h
    obtain ⟨q,hq,hrest⟩ := (Option.any_eq_true _ _).mp h.1
    rw [Bool.and_eq_true,decide_eq_true_eq,List.all_eq_true] at hrest
    refine ⟨⟨q,hq,hrest.1⟩,fun e he => ?_,of_decide_eq_true h.2⟩
    obtain ⟨r,hr,hbefore⟩ := (Option.any_eq_true _ _).mp (hrest.2 e he)
    simp only [Bool.and_eq_true,Bool.or_eq_true,decide_eq_true_eq] at hbefore
    refine ⟨r,q,hr,hq,hbefore.1,?_,fun hsame => ?_⟩
    · rcases hbefore.2 with hlt | ⟨hsame,-⟩
      · exact le_of_lt hlt
      · exact le_of_eq hsame
    · rcases hbefore.2 with hlt | ⟨-,hapart⟩
      · exact absurd hlt (hsame ▸ lt_irrefl _)
      · exact hapart
  | trim n => trivial
  | round minMessages saved => trivial

end

/-- What a user said; the local id tells the messages of one second apart. -/
def said (ts : ℚ) (localId : String) : Message :=
  ⟨"user","小明".toList,some ts,some 7,none,localId.toList,"我住在杭州".toList,"我住在杭州".toList⟩

def answered (ts : ℚ) (localId : String) : Message :=
  {said ts localId with
    role := "assistant"
    userId := none}

theorem facts_covered_once_tied : ∃s : Extraction,Covers (fun _ => "") s∧
    s.batches=[[said 100 "m1"],[said 100 "m2"]] := by
  have hrun : (executeIf (fun s a => Extraction.step (fun _ => "") s a) (punctual fun _ => "")
      Extraction.new [.append (said 100 "m1"),.round 1 true,.append (said 100 "m2"),.round 1 true]).any
      (fun s => s.batches=[[said 100 "m1"],[said 100 "m2"]])=true := by decide
  obtain ⟨s,hs,hend⟩ := (Option.any_eq_true _ _).mp hrun
  have hstart : Reach (fun s a => Extraction.step (fun _ => "") s a)
      (fun s a => punctual (fun _ => "") s a=true) (fun s => s=Extraction.new) Extraction.new := .start rfl
  have hreach := hstart.executeIf _ hs
  exact ⟨s,facts_covered_once (hreach.weaken punctual_timely),of_decide_eq_true hend⟩

/-- A user's message is followed by one with an earlier time: the checkpoint goes back to that time,
and the next round takes the user's message again. -/
theorem fact_extracted_twice : ¬∀s,Reach (fun s a => Extraction.step (fun _ => "") s a) Free
    (fun s => s=Extraction.new) s → Covers (fun _ => "") s := by
  intro hall
  have hrun : (execute (fun s a => Extraction.step (fun _ => "") s a) Extraction.new
      [.append (said 101 "m1"),.append (answered 100 "m2"),.round 1 true,.round 1 true]).any
      (fun s => s.batches=[[said 101 "m1"],[said 101 "m1"]])=true := by decide
  obtain ⟨s,hs,hend⟩ := (Option.any_eq_true _ _).mp hrun
  have hreach : Reach (fun s a => Extraction.step (fun _ => "") s a) Free
      (fun s => s=Extraction.new) s := Reach.execute _ (fun _ _ _ => trivial) (.start rfl) hs
  have honce := (hall s hreach).once
  rw [of_decide_eq_true hend] at honce
  exact absurd honce (by simp)

end XiaoQing.Chat.Facts
