import XiaoQing.Chat.JargonStore
import XiaoQing.Framework.Run

namespace XiaoQing.Chat.Jargon

open Function (update update_eq_self update_of_ne update_self)

open Framework Commands OrderedDict

/-- A snapshot in memory: how often each term has been seen since it was loaded or saved, and whether it
has been saved and not changed since. -/
structure Copy where
  snapshot : JargonSnapshot
  pending : Text → Nat
  quiet : Bool

/-- The file and the snapshots in memory. `initial` are the counts at the start, `saved` the observations
of the snapshots that were saved, `tally` what is to be stored of them, and `cleared` marks the terms whose
record a clear has removed. -/
structure State where
  file : List JargonRecord
  copies : Nat → Option Copy
  initial : Text → Nat
  saved : Text → Nat
  tally : Text → Nat
  cleared : Text → Bool

inductive Act
  | load (i : Nat)
  | observe (i : Nat) (term chatId context : Text) (now : Nat)
  | explain (i : Nat) (key meaning : Text) (inferred : Bool) (now : Nat)
  | save (i : Nat)
  | saveFails (i : Nat)
  | clear (chatId : Text)

def stored (file : List JargonRecord) (k : Text) : Option JargonRecord := (readRecords file).get? k

def storedCount (file : List JargonRecord) (k : Text) : Nat := ((stored file k).map JargonRecord.count).getD 0

def belongs (chatId : Text) (file : List JargonRecord) (k : Text) : Bool :=
  (stored file k).any fun r => (keepRecord (strip chatId) r).isNone

def skips (p : JargonSnapshot) (file : List JargonRecord) (k : Text) : Bool :=
  (p.baseline.get? k).isSome && (stored file k).isNone

def JargonSnapshot.afterSave (p : JargonSnapshot) : JargonSnapshot := ⟨p.records,p.desired⟩

def Copy.observe (c : Copy) (term chatId context : Text) (now : Nat) : Copy :=
  ⟨c.snapshot.observe term chatId context now,
    update c.pending (keyFor term chatId) (c.pending (keyFor term chatId)+1),false⟩

def State.put (s : State) (i : Nat) (c : Copy) : State :=
  {s with copies := update s.copies i (some c)}

def step (s : State) : Act → Option State
  | .load i =>
    match s.copies i with
    | none => some (s.put i ⟨Jargon.load s.file,fun _ => 0,false⟩)
    | some _ => none
  | .observe i term chatId context now =>
    match s.copies i with
    | some c =>
      if (strip term=term∧term≠[])∧(strip chatId=chatId∧chatId≠[])∧strip context=context then
        some (s.put i (c.observe term chatId context now))
      else none
    | none => none
  | .explain i key meaning inferred now =>
    match s.copies i with
    | some c =>
      if strip meaning=meaning then
        some (s.put i ⟨c.snapshot.explain key meaning inferred now,c.pending,false⟩)
      else none
    | none => none
  | .save i =>
    match s.copies i with
    | some c =>
      some {s.put i ⟨c.snapshot.afterSave,fun _ => 0,true⟩ with
        file := Jargon.save c.snapshot s.file
        saved := fun k => s.saved k+c.pending k
        tally := fun k => if skips c.snapshot s.file k then s.tally k else s.tally k+c.pending k}
    | none => none
  | .saveFails i => if (s.copies i).isSome then some s else none
  | .clear chatId =>
    if strip chatId=[] then some s
    else some {s with
      file := Jargon.clear chatId s.file
      tally := fun k => if belongs chatId s.file k then 0 else s.tally k
      cleared := fun k => s.cleared k || belongs chatId s.file k}

def Starts (s : State) : Prop :=
  s.copies=(fun _ => none)∧s.initial=storedCount s.file∧s.saved=(fun _ => 0)∧s.tally=storedCount s.file∧
    s.cleared=fun _ => false

structure Sound (p : JargonSnapshot) (pending : Text → Nat) : Prop where
  records : Keyed p.records
  baseline : Keyed p.baseline
  old : ∀k b,p.baseline.get? k=some b →
    ∃r,p.records.get? k=some r∧Same b r∧r.count=b.count+pending k
  fresh : ∀k r,p.records.get? k=some r → p.baseline.get? k=none →
    r.count=pending k∧Ranked r.chatIdCounts∧r.rawContent.length ≤ 20
  idle : ∀k,p.records.get? k=none → pending k=0

section

variable {p : JargonSnapshot} {pending : Text → Nat} {file : List JargonRecord} {k : Text}
  {r b l : JargonRecord}

theorem Same.refl (r : JargonRecord) : Same r r := ⟨rfl,rfl,rfl,rfl,rfl,rfl⟩

theorem Keyed.assign {m : OrderedDict Text JargonRecord} (h : Keyed m) (hr : Clean r)
    (hk : recordKey r=k) : Keyed (m.assign k r) := by
  refine ⟨nodup_assign h.nodup,fun j q hq => ?_⟩
  by_cases hj : j=k
  · rw [hj,get?_assign_self] at hq
    cases hq
    exact ⟨hr,hk.trans hj.symm⟩
  · rw [get?_assign_ne hj] at hq
    exact h.clean j q hq

theorem sound_load (file : List JargonRecord) : Sound (load file) fun _ => 0 := by
  refine ⟨keyed_readRecords file,keyed_readRecords file,fun k b hb => ⟨b,hb,Same.refl b,rfl⟩,?_,
    fun _ _ => rfl⟩
  intro k r hr hnone
  cases hr.symm.trans hnone

theorem Sound.desired_eq (h : Sound p pending) : p.desired=p.records := ofItems_keyed h.records

theorem Sound.baseline_none (h : Sound p pending) (hk : p.records.get? k=none) : p.baseline.get? k=none := by
  cases hb : p.baseline.get? k with
  | none => rfl
  | some b =>
    obtain ⟨r,hr,-⟩ := h.old k b hb
    cases hr.symm.trans hk

theorem Sound.afterSave (h : Sound p pending) : Sound p.afterSave fun _ => 0 := by
  unfold JargonSnapshot.afterSave
  rw [h.desired_eq]
  refine ⟨h.records,h.records,fun k b hb => ⟨b,hb,Same.refl b,rfl⟩,?_,fun _ _ => rfl⟩
  intro k r hr hnone
  cases hr.symm.trans hnone

theorem Sound.assign (h : Sound p pending) {n : Nat} (hr : Clean r) (hk : recordKey r=k)
    (hold : ∀q,p.records.get? k=some q → Same q r∧r.count=q.count+n)
    (hnew : p.records.get? k=none → r.count=n)
    (hfresh : p.baseline.get? k=none → Ranked r.chatIdCounts∧r.rawContent.length ≤ 20) :
    Sound ⟨p.records.assign k r,p.baseline⟩ (update pending k (pending k+n)) := by
  refine ⟨h.records.assign hr hk,h.baseline,?_,?_,?_⟩
  · intro j b hb
    obtain ⟨q,hq,hsame,hcount⟩ := h.old j b hb
    by_cases hj : j=k
    · subst hj
      obtain ⟨hqr,hqcount⟩ := hold q hq
      refine ⟨r,get?_assign_self,?_,?_⟩
      · exact ⟨hqr.content.trans hsame.content,hqr.scope.trans hsame.scope,
          hqr.isGlobal.trans hsame.isGlobal,hqr.usage.trans hsame.usage,hqr.tone.trans hsame.tone,
          hqr.source.trans hsame.source⟩
      · rw [update_self]
        omega
    · rw [update_of_ne hj]
      exact ⟨q,by rw [get?_assign_ne hj]; exact hq,hsame,hcount⟩
  · intro j q hq hnone
    by_cases hj : j=k
    · subst hj
      have hqr : r=q := by
        have hself : (p.records.assign j r).get? j=some r := get?_assign_self
        exact Option.some.inj (hself.symm.trans hq)
      rw [← hqr,update_self]
      refine ⟨?_,hfresh hnone⟩
      cases hrec : p.records.get? j with
      | none =>
        rw [h.idle j hrec,Nat.zero_add]
        exact hnew hrec
      | some old =>
        rw [(hold old hrec).2,(h.fresh j old hrec hnone).1]
    · rw [update_of_ne hj]
      dsimp only at hq
      rw [get?_assign_ne hj] at hq
      exact h.fresh j q hq hnone
  · intro j hj
    have hne : j≠k := by
      rintro rfl
      have hself : (p.records.assign j r).get? j=some r := get?_assign_self
      cases hself.symm.trans hj
    rw [update_of_ne hne]
    dsimp only at hj
    rw [get?_assign_ne hne] at hj
    exact h.idle j hj

theorem Sound.observe (h : Sound p pending) {term chatId context : Text} {now : Nat}
    (ht : strip term=term∧term≠[]) (hc : strip chatId=chatId∧chatId≠[]) (hcontext : strip context=context) :
    Sound (p.observe term chatId context now)
      (update pending (keyFor term chatId) (pending (keyFor term chatId)+1)) := by
  unfold JargonSnapshot.observe
  dsimp only
  have hnewkey : recordKey (newRecord term chatId now)=keyFor term chatId := rfl
  cases hrec : p.records.get? (keyFor term chatId) with
  | none =>
    rw [Option.getD_none]
    refine h.assign (clean_observeRecord (clean_newRecord ht hc.1) hc hcontext) hnewkey ?_ (fun _ => rfl) ?_
    · intro q hq
      cases hrec.symm.trans hq
    · intro _
      exact ⟨ranked_bumpChatCount Ranked.nil hc,length_observed_raw (Nat.zero_le _)⟩
  | some q =>
    obtain ⟨hclean,hkey⟩ := h.records.clean _ _ hrec
    rw [Option.getD_some]
    refine h.assign (clean_observeRecord hclean hc hcontext) hkey ?_ ?_ ?_
    · intro q' hq'
      cases hrec.symm.trans hq'
      exact ⟨⟨rfl,rfl,rfl,rfl,rfl,rfl⟩,rfl⟩
    · intro hnone
      cases hrec.symm.trans hnone
    · intro hnone
      obtain ⟨-,hranked,hraw⟩ := h.fresh _ q hrec hnone
      exact ⟨ranked_bumpChatCount hranked hc,length_observed_raw hraw⟩

theorem Sound.explain (h : Sound p pending) {key meaning : Text} {inferred : Bool} {now : Nat}
    (hm : strip meaning=meaning) : Sound (p.explain key meaning inferred now) pending := by
  unfold JargonSnapshot.explain
  cases hrec : p.records.get? key with
  | none => exact h
  | some q =>
    obtain ⟨hclean,hkey⟩ := h.records.clean _ _ hrec
    have hset : Clean (setMeaning meaning inferred now q) := {hclean with meaning := hm}
    have hsound := h.assign (n:=0) hset hkey
      (by
        intro q' hq'
        cases hrec.symm.trans hq'
        exact ⟨⟨rfl,rfl,rfl,rfl,rfl,rfl⟩,rfl⟩)
      (fun hnone => by cases hrec.symm.trans hnone)
      (fun hnone => (h.fresh _ q hrec hnone).2)
    rwa [Nat.add_zero,update_eq_self] at hsound

/-! What a save writes -/

theorem Sound.merged_get? (h : Sound p pending) :
    (mergeAll mergeRecord (readRecords file) p.baseline p.desired).get? k=
      match p.records.get? k with
      | none => stored file k
      | some r =>
        if skips p file k then none else some (mergeRecord (stored file k) (p.baseline.get? k) r) := by
  rw [h.desired_eq,get?_mergeAll h.records.nodup]
  cases hk : p.records.get? k with
  | none =>
    dsimp only
    rw [h.baseline_none hk]
    rfl
  | some r => rfl

theorem Sound.merged_clean (h : Sound p pending) (file : List JargonRecord)
    (hv : (mergeAll mergeRecord (readRecords file) p.baseline p.desired).get? k=some r) :
    Clean r∧recordKey r=k := by
  rw [h.merged_get?] at hv
  cases hk : p.records.get? k with
  | none =>
    rw [hk] at hv
    exact (keyed_readRecords file).clean k r hv
  | some q =>
    obtain ⟨hclean,hkey⟩ := h.records.clean k q hk
    rw [hk] at hv
    dsimp only at hv
    split_ifs at hv
    cases hv
    cases hl : stored file k with
    | none => exact ⟨hclean,hkey⟩
    | some l =>
      obtain ⟨hlclean,hlkey⟩ := (keyed_readRecords file).clean k l hl
      refine ⟨clean_mergeRecord hlclean hclean _,(recordKey_mergeRecord _ ?_).trans hlkey⟩
      intro b hb
      obtain ⟨q',hq',hsame,-⟩ := h.old k b hb
      cases hk.symm.trans hq'
      exact hsame

theorem Sound.save_spec (h : Sound p pending) (file : List JargonRecord) :
    (∀r∈save p file,Clean r)∧((save p file).map recordKey).Nodup∧
      ∀k,stored (save p file) k=
        match p.records.get? k with
        | none => stored file k
        | some r =>
          if skips p file k then none else some (mergeRecord (stored file k) (p.baseline.get? k) r) := by
  have hd : (p.desired.map Prod.fst).Nodup := by
    rw [h.desired_eq]
    exact h.records.nodup
  obtain ⟨hn,hget⟩ := get?_ofItems_mergeValues (keyed_readRecords file).nodup hd
    fun k v hv => (h.merged_clean file hv).2
  have hclean : ∀r∈save p file,Clean r := by
    intro r hr
    obtain ⟨k,-,hk⟩ := mem_mergeValues.mp hr
    exact (h.merged_clean file hk).1
  refine ⟨hclean,hn,fun k => ?_⟩
  rw [← h.merged_get?,← hget]
  unfold stored
  rw [readRecords_of_clean hclean hn]
  exact congrArg (OrderedDict.get? · k) (ofItems_eq hn).symm

/-! What a clear writes -/

theorem keepRecord_some {target : Text} {q : JargonRecord} (h : keepRecord target r=some q) :
    recordKey q=recordKey r∧q.count=r.count∧(Clean r → Clean q)∧∀b,Settled r b → Settled q b := by
  unfold keepRecord at h
  split_ifs at h with hgone hglobal
  · cases h
    refine ⟨rfl,rfl,?_,?_⟩
    · intro hr
      exact {hr with counts := fun e he => hr.counts e (List.mem_filter.mp he).1}
    · intro b hb
      have hsub : List.Sublist (r.chatIdCounts.filter fun e => decide (strip e.1≠target)) r.chatIdCounts :=
        List.filter_sublist
      exact {hb with ranked := ⟨hb.ranked.nodup.sublist (hsub.map _),hb.ranked.sorted.sublist hsub,
        fun e he => hb.ranked.positive e (hsub.subset he),hsub.length_le.trans hb.ranked.short,
        fun e he => hb.ranked.clean e (hsub.subset he)⟩}
  · cases h
    exact ⟨rfl,rfl,id,fun _ hb => hb⟩

theorem stored_clear {chatId : Text} (hchat : strip chatId≠[]) :
    stored (clear chatId file) k=(stored file k).bind (keepRecord (strip chatId)) := by
  have hm := keyed_readRecords file
  generalize hkept : ((readRecords file).map Prod.snd).filterMap (keepRecord (strip chatId))=kept
  have hfrom : ∀q∈kept,∃r,stored file (recordKey q)=some r∧keepRecord (strip chatId) r=some q := by
    intro q hq
    rw [← hkept] at hq
    obtain ⟨r,hr,hkeep⟩ := List.mem_filterMap.mp hq
    obtain ⟨e,he,rfl⟩ := List.mem_map.mp hr
    have hget := get?_of_mem hm.nodup he
    refine ⟨e.2,?_,hkeep⟩
    rw [(keepRecord_some hkeep).1,(hm.clean _ _ hget).2]
    exact hget
  have hclean : ∀q∈kept,Clean q := by
    intro q hq
    obtain ⟨r,hr,hkeep⟩ := hfrom q hq
    exact (keepRecord_some hkeep).2.2.1 (hm.clean _ _ hr).1
  have hkeys : kept.map recordKey=((readRecords file).filterMap fun e =>
      (keepRecord (strip chatId) e.2).map fun _ => e.1) := by
    rw [← hkept,List.filterMap_map,List.map_filterMap]
    apply List.filterMap_congr
    intro e he
    have hget := get?_of_mem hm.nodup he
    dsimp only [Function.comp]
    cases hkeep : keepRecord (strip chatId) e.2 with
    | none => rfl
    | some q =>
      rw [Option.map_some,Option.map_some,(keepRecord_some hkeep).1,(hm.clean _ _ hget).2]
  have hn : (kept.map recordKey).Nodup := by
    rw [hkeys]
    have hsub : List.Sublist ((readRecords file).filterMap fun e =>
        (keepRecord (strip chatId) e.2).map fun _ => e.1) ((readRecords file).map Prod.fst) := by
      generalize readRecords file=m
      induction m with
      | nil => exact List.Sublist.refl _
      | cons e m ih =>
        rw [List.filterMap_cons,List.map_cons]
        cases keepRecord (strip chatId) e.2 with
        | none => exact ih.cons _
        | some q => exact ih.cons_cons _
    exact hm.nodup.sublist hsub
  have hfile : clear chatId file=kept := by
    unfold clear
    rw [if_neg hchat,hkept,ofItems_eq hn,List.map_map]
    exact List.map_id' kept
  rw [hfile]
  unfold stored at hfrom ⊢
  rw [readRecords_of_clean hclean hn]
  have hpairs : ((kept.map fun r => (recordKey r,r)).map Prod.fst).Nodup := by
    rw [List.map_map]
    exact hn
  cases hk : (readRecords file).get? k with
  | none =>
    rw [Option.bind_none,get?_eq_none,List.map_map]
    intro hmem
    obtain ⟨q,hq,hqk⟩ := List.mem_map.mp hmem
    obtain ⟨r,hr,-⟩ := hfrom q hq
    have hqk' : recordKey q=k := hqk
    rw [hqk'] at hr
    cases hr.symm.trans hk
  | some r =>
    rw [Option.bind_some]
    cases hkeep : keepRecord (strip chatId) r with
    | none =>
      rw [get?_eq_none,List.map_map]
      intro hmem
      obtain ⟨q,hq,hqk⟩ := List.mem_map.mp hmem
      obtain ⟨r',hr',hkeep'⟩ := hfrom q hq
      have hqk' : recordKey q=k := hqk
      rw [hqk',hk] at hr'
      cases hr'
      cases hkeep.symm.trans hkeep'
    | some q =>
      apply get?_of_mem hpairs
      have hin : q∈kept := by
        rw [← hkept]
        exact List.mem_filterMap.mpr ⟨r,List.mem_map_of_mem (f:=Prod.snd) (mem_of_get? hk),hkeep⟩
      refine List.mem_map.mpr ⟨q,hin,?_⟩
      rw [(keepRecord_some hkeep).1,(hm.clean k r hk).2]

/-! Every run -/

structure Kept (s : State) : Prop where
  sound : ∀i c,s.copies i=some c → Sound c.snapshot c.pending
  counts : ∀k,storedCount s.file k=s.tally k
  sums : ∀k,s.cleared k=false → s.tally k=s.initial k+s.saved k
  there : ∀i c k,s.copies i=some c → (c.snapshot.baseline.get? k).isSome=true → s.cleared k=false →
    (stored s.file k).isSome=true
  unchanged : ∀i c,s.copies i=some c → c.quiet=true → c.snapshot.records=c.snapshot.baseline
  settled : ∀i c k b l,s.copies i=some c → c.quiet=true → c.snapshot.baseline.get? k=some b →
    s.cleared k=false → stored s.file k=some l → Settled l b

theorem storedCount_save (h : Sound p pending) :
    storedCount (save p file) k=
      if skips p file k then storedCount file k else storedCount file k+pending k := by
  have hspec := h.save_spec file
  unfold storedCount
  rw [hspec.2.2 k]
  cases hk : p.records.get? k with
  | none =>
    have hskip : skips p file k=false := by
      unfold skips
      rw [h.baseline_none hk]
      rfl
    rw [hskip,h.idle k hk]
    rfl
  | some r =>
    dsimp only
    by_cases hskip : skips p file k=true
    · rw [if_pos hskip,if_pos hskip]
      have hnone : stored file k=none := by
        unfold skips at hskip
        rw [Bool.and_eq_true] at hskip
        exact Option.isNone_iff_eq_none.mp hskip.2
      rw [hnone]
    · rw [if_neg hskip,if_neg hskip]
      cases hl : stored file k with
      | none =>
        have hbase : p.baseline.get? k=none := by
          unfold skips at hskip
          rw [hl] at hskip
          simpa using hskip
        change r.count=0+pending k
        rw [(h.fresh k r hk hbase).1,Nat.zero_add]
      | some l =>
        change (mergeRecord (some l) (p.baseline.get? k) r).count=l.count+pending k
        apply count_mergeRecord
        cases hb : p.baseline.get? k with
        | none =>
          change r.count=0+pending k
          rw [(h.fresh k r hk hb).1,Nat.zero_add]
        | some b =>
          obtain ⟨r',hr',-,hcount⟩ := h.old k b hb
          cases hk.symm.trans hr'
          exact hcount

theorem stored_save_isSome (h : Sound p pending) (hk : (stored file k).isSome=true) :
    (stored (save p file) k).isSome=true := by
  rw [(h.save_spec file).2.2 k]
  have hskip : skips p file k=false := by
    unfold skips
    rw [Option.isNone_eq_false_iff.mpr hk,Bool.and_false]
  cases p.records.get? k with
  | none => exact hk
  | some r =>
    dsimp only
    rw [hskip]
    rfl

theorem settled_save (h : Sound p pending) {b l : JargonRecord} (hb : p.records.get? k=some b)
    (hl : stored (save p file) k=some l) : Settled l b := by
  rw [(h.save_spec file).2.2 k,hb] at hl
  dsimp only at hl
  split_ifs at hl with hskip
  cases hl
  cases hs : stored file k with
  | some l => exact mergeRecord_settled _
  | none =>
    have hbase : p.baseline.get? k=none := by
      unfold skips at hskip
      rw [hs] at hskip
      simpa using hskip
    obtain ⟨-,hranked,hraw⟩ := h.fresh k b hb hbase
    exact ⟨hranked,hraw,id,Nat.le_refl _,Nat.le_refl _⟩

theorem Settled.save (h : Sound p pending) (hl : stored file k=some l) (hs : Settled l b) {l' : JargonRecord}
    (hl' : stored (save p file) k=some l') : Settled l' b := by
  rw [(h.save_spec file).2.2 k,hl] at hl'
  cases hr : p.records.get? k with
  | none =>
    rw [hr] at hl'
    cases hl'
    exact hs
  | some r =>
    rw [hr] at hl'
    dsimp only at hl'
    split_ifs at hl'
    cases hl'
    exact hs.mergeRecord _

variable {s : State}

theorem Kept.put (h : Kept s) {i : Nat} {c : Copy} (hsound : Sound c.snapshot c.pending)
    (hthere : ∀k,(c.snapshot.baseline.get? k).isSome=true → s.cleared k=false →
      (stored s.file k).isSome=true) (hquiet : c.quiet=false) : Kept (s.put i c) := by
  have hcases : ∀j d,(s.put i c).copies j=some d → d=c∨s.copies j=some d := by
    intro j d hj
    by_cases hji : j=i
    · subst hji
      have hself : (s.put j c).copies j=some c := update_self _ _ _
      exact .inl (Option.some.inj (hj.symm.trans hself))
    · have hother : (s.put i c).copies j=s.copies j := update_of_ne hji _ _
      exact .inr (hother.symm.trans hj)
  refine ⟨?_,h.counts,h.sums,?_,?_,?_⟩
  · intro j d hj
    rcases hcases j d hj with rfl | hj
    · exact hsound
    · exact h.sound j d hj
  · intro j d k hj hk
    rcases hcases j d hj with rfl | hj
    · exact hthere k hk
    · exact h.there j d k hj hk
  · intro j d hj hd
    rcases hcases j d hj with rfl | hj
    · cases hquiet.symm.trans hd
    · exact h.unchanged j d hj hd
  · intro j d k b l hj hd
    rcases hcases j d hj with rfl | hj
    · cases hquiet.symm.trans hd
    · exact h.settled j d k b l hj hd

theorem Kept.not_skips (h : Kept s) {i : Nat} {c : Copy} (hi : s.copies i=some c)
    (hk : s.cleared k=false) : skips c.snapshot s.file k=false := by
  unfold skips
  cases hb : (c.snapshot.baseline.get? k).isSome with
  | false => rfl
  | true =>
    rw [Option.isNone_eq_false_iff.mpr (h.there i c k hi hb hk)]
    rfl

theorem Kept.save {s t : State} (h : Kept s) {i : Nat} (hstep : step s (.save i)=some t) : Kept t := by
  unfold step at hstep
  dsimp only at hstep
  split at hstep
  · rename_i c hi
    cases hstep
    have hc := h.sound i c hi
    have hcases : ∀j d,(s.put i ⟨c.snapshot.afterSave,fun _ => 0,true⟩).copies j=some d →
        d=⟨c.snapshot.afterSave,fun _ => 0,true⟩∨s.copies j=some d := by
      intro j d hj
      by_cases hji : j=i
      · subst hji
        have hself : (s.put j ⟨c.snapshot.afterSave,fun _ => 0,true⟩).copies j=some _ :=
          update_self _ _ _
        exact .inl (Option.some.inj (hj.symm.trans hself))
      · have hother : (s.put i ⟨c.snapshot.afterSave,fun _ => 0,true⟩).copies j=s.copies j :=
          update_of_ne hji _ _
        exact .inr (hother.symm.trans hj)
    refine ⟨?_,?_,?_,?_,?_,?_⟩
    · intro j d hj
      rcases hcases j d hj with rfl | hj
      · exact hc.afterSave
      · exact h.sound j d hj
    · intro k
      dsimp only
      rw [storedCount_save hc,h.counts]
    · intro k hk
      dsimp only
      rw [if_neg (by rw [h.not_skips hi hk]; exact Bool.false_ne_true),h.sums k hk,Nat.add_assoc]
      rfl
    · intro j d k hj hb hk
      rcases hcases j d hj with rfl | hj
      · dsimp only [JargonSnapshot.afterSave] at hb ⊢
        rw [hc.desired_eq] at hb
        obtain ⟨r,hr⟩ := Option.isSome_iff_exists.mp hb
        rw [(hc.save_spec s.file).2.2 k,hr]
        dsimp only
        rw [if_neg (by rw [h.not_skips hi hk]; exact Bool.false_ne_true)]
        rfl
      · exact stored_save_isSome hc (h.there j d k hj hb hk)
    · intro j d hj hd
      rcases hcases j d hj with rfl | hj
      · exact hc.desired_eq.symm
      · exact h.unchanged j d hj hd
    · intro j d k b l hj hd hb hk hl
      rcases hcases j d hj with rfl | hj
      · dsimp only [JargonSnapshot.afterSave] at hb
        rw [hc.desired_eq] at hb
        exact settled_save hc hb hl
      · obtain ⟨l',hl'⟩ := Option.isSome_iff_exists.mp (h.there j d k hj (by rw [hb]; rfl) hk)
        exact (h.settled j d k b l' hj hd hb hk hl').save hc hl' hl
  · cases hstep

theorem stored_cleared {chatId : Text} (hchat : strip chatId≠[]) (hb : belongs chatId file k=false)
    (hl : stored file k=some l) :
    ∃q,stored (clear chatId file) k=some q∧keepRecord (strip chatId) l=some q := by
  unfold belongs at hb
  rw [hl,Option.any_some] at hb
  obtain ⟨q,hq⟩ := Option.isSome_iff_exists.mp (Option.isNone_eq_false_iff.mp hb)
  exact ⟨q,by rw [stored_clear hchat,hl]; exact hq,hq⟩

theorem Kept.clear {s t : State} (h : Kept s) {chatId : Text} (hstep : step s (.clear chatId)=some t) :
    Kept t := by
  unfold step at hstep
  dsimp only at hstep
  split_ifs at hstep with hchat
  · cases hstep
    exact h
  · cases hstep
    have hsplit : ∀k,(s.cleared k || belongs chatId s.file k)=false →
        s.cleared k=false∧belongs chatId s.file k=false := fun k hk => Bool.or_eq_false_iff.mp hk
    refine ⟨h.sound,?_,?_,?_,h.unchanged,?_⟩
    · intro k
      dsimp only
      unfold storedCount
      by_cases hb : belongs chatId s.file k=true
      · rw [if_pos hb,stored_clear hchat]
        unfold belongs at hb
        cases hl : stored s.file k with
        | none => rfl
        | some l =>
          rw [hl,Option.any_some] at hb
          rw [Option.bind_some,Option.isNone_iff_eq_none.mp hb]
          rfl
      · rw [if_neg hb,← h.counts k]
        unfold storedCount
        cases hl : stored s.file k with
        | none =>
          rw [stored_clear hchat,hl]
          rfl
        | some l =>
          obtain ⟨q,hq,hkeep⟩ := stored_cleared hchat (Bool.eq_false_iff.mpr hb) hl
          rw [hq]
          exact (keepRecord_some hkeep).2.1
    · intro k hk
      obtain ⟨hk,hb⟩ := hsplit k hk
      dsimp only
      rw [if_neg (by rw [hb]; exact Bool.false_ne_true)]
      exact h.sums k hk
    · intro j d k hj hbase hk
      obtain ⟨hk,hb⟩ := hsplit k hk
      obtain ⟨l,hl⟩ := Option.isSome_iff_exists.mp (h.there j d k hj hbase hk)
      obtain ⟨q,hq,-⟩ := stored_cleared hchat hb hl
      exact Option.isSome_iff_exists.mpr ⟨q,hq⟩
    · intro j d k b l hj hd hbase hk hl
      obtain ⟨hk,hb⟩ := hsplit k hk
      obtain ⟨l',hl'⟩ := Option.isSome_iff_exists.mp (h.there j d k hj (by rw [hbase]; rfl) hk)
      obtain ⟨q,hq,hkeep⟩ := stored_cleared hchat hb hl'
      cases hq.symm.trans hl
      exact (keepRecord_some hkeep).2.2.2 b (h.settled j d k b l' hj hd hbase hk hl')

theorem Kept.step {s t : State} {a : Act} (h : Kept s) (hstep : step s a=some t) : Kept t := by
  cases a with unfold Jargon.step at hstep
  | load i =>
    dsimp only at hstep
    split at hstep
    · cases hstep
      exact h.put (sound_load s.file) (fun k hk _ => hk) rfl
    · cases hstep
  | observe i term chatId context now =>
    dsimp only at hstep
    split at hstep
    · rename_i c hi
      split_ifs at hstep with hclean
      cases hstep
      exact h.put ((h.sound i c hi).observe hclean.1 hclean.2.1 hclean.2.2) (h.there i c · hi) rfl
    · cases hstep
  | explain i key meaning inferred now =>
    dsimp only at hstep
    split at hstep
    · rename_i c hi
      split_ifs at hstep with hclean
      cases hstep
      refine h.put ((h.sound i c hi).explain hclean) (fun k => ?_) rfl
      have hbase : (c.snapshot.explain key meaning inferred now).baseline=c.snapshot.baseline := by
        unfold JargonSnapshot.explain
        split
        · rfl
        · rfl
      dsimp only
      rw [hbase]
      exact h.there i c k hi
    · cases hstep
  | save i => exact h.save hstep
  | saveFails i =>
    dsimp only at hstep
    split_ifs at hstep
    cases hstep
    exact h
  | clear chatId => exact h.clear hstep

theorem Starts.kept (h : Starts s) : Kept s := by
  obtain ⟨hcopies,hinitial,hsaved,htally,-⟩ := h
  have hnone : ∀i c,¬s.copies i=some c := by
    intro i c hi
    rw [hcopies] at hi
    cases hi
  refine ⟨fun i c hi => absurd hi (hnone i c),fun k => by rw [htally],fun k _ => ?_,
    fun i c _ hi => absurd hi (hnone i c),fun i c hi => absurd hi (hnone i c),
    fun i c _ _ _ hi => absurd hi (hnone i c)⟩
  rw [htally,hinitial,hsaved]
  rfl

theorem kept_of_reach (h : Reach step Free Starts s) : Kept s :=
  h.invariant (fun _ hs => hs.kept) fun _ _ _ hk _ hstep => hk.step hstep

end

end XiaoQing.Chat.Jargon
