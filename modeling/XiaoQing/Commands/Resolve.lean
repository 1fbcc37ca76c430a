import XiaoQing.Commands.CommandRouter
import Mathlib.Data.List.Flatten

namespace XiaoQing.Commands

open Framework CommandRouter

variable {H : Type} {r r' : CommandRouter H} {cs : List (CommandSpec H)} {spec : CommandSpec H}
  {owners owners' : Owners H} {text : Text}

def entries (cs : List (CommandSpec H)) : List (CommandSpec H × Text) :=
  cs.flatMap (fun s => s.triggers.map (fun t => (s,t)))

def claim (e : CommandSpec H × Text) : Text × Int := (e.2,e.1.priority)

def Unambiguous (cs : List (CommandSpec H)) : Prop := ((entries cs).map claim).Nodup

theorem mem_entries {e : CommandSpec H × Text} : e∈entries cs ↔ e.1∈cs ∧ e.2∈e.1.triggers := by
  simp only [entries,List.mem_flatMap,List.mem_map]
  constructor
  · intro h
    obtain ⟨s,hs,t,ht,rfl⟩ := h
    exact ⟨hs,ht⟩
  · intro h
    exact ⟨e.1,h.1,e.2,h.2,rfl⟩

/-! The validation -/

theorem claimTriggers_ok {ts : List Text} (h : claimTriggers spec ts owners=.ok owners') :
    (ts.map (fun t => (t,spec.priority))).Nodup ∧ (∀t∈ts,(t,spec.priority)∉owners) ∧
      ∀k,k∈owners' ↔ k∈owners ∨ k∈ts.map (fun t => (t,spec.priority)) := by
  induction ts generalizing owners with
  | nil =>
    simp only [claimTriggers,Except.ok.injEq] at h
    subst owners'
    simp
  | cons t ts ih =>
    simp only [claimTriggers] at h
    split at h
    · cases h
    · rename_i hfree
      have hnot : (t,spec.priority)∉owners := by
        rw [←AList.lookup_isSome,hfree]
        simp
      obtain ⟨hnodup,hout,hkeys⟩ := ih h
      have hlater : ∀u∈ts,u≠t ∧ (u,spec.priority)∉owners := by
        intro u hu
        have hx := hout u hu
        rw [AList.mem_insert,not_or] at hx
        exact ⟨fun he => hx.1 (by rw [he]),hx.2⟩
      refine ⟨?_,?_,?_⟩
      · rw [List.map_cons,List.nodup_cons]
        refine ⟨?_,hnodup⟩
        intro hm
        obtain ⟨u,hu,he⟩ := List.mem_map.mp hm
        exact (hlater u hu).1 (Prod.mk.inj he).1
      · intro u hu
        cases List.mem_cons.mp hu with
        | inl he => rw [he]; exact hnot
        | inr hu' => exact (hlater u hu').2
      · intro k
        rw [hkeys k,AList.mem_insert,List.map_cons,List.mem_cons]
        tauto

theorem claimTriggers_of_nodup {ts : List Text} (h : (ts.map (fun t => (t,spec.priority))).Nodup)
    (hout : ∀t∈ts,(t,spec.priority)∉owners) : ∃owners',claimTriggers spec ts owners=.ok owners' := by
  induction ts generalizing owners with
  | nil => exact ⟨owners,rfl⟩
  | cons t ts ih =>
    rw [List.map_cons,List.nodup_cons] at h
    have hfree : owners.lookup (t,spec.priority)=none :=
      AList.lookup_eq_none.mpr (hout t List.mem_cons_self)
    simp only [claimTriggers,hfree]
    apply ih h.2
    intro u hu hm
    cases AList.mem_insert _ |>.mp hm with
    | inl he =>
      apply h.1
      rw [←he]
      exact List.mem_map.mpr ⟨u,hu,rfl⟩
    | inr hm' => exact hout u (List.mem_cons_of_mem t hu) hm'

theorem map_claim_cons (s : CommandSpec H) (cs : List (CommandSpec H)) :
    (entries (s::cs)).map claim=
      s.triggers.map (fun t => (t,s.priority))++(entries cs).map claim := by
  simp only [entries,List.flatMap_cons,List.map_append,List.map_map]
  rfl

theorem claimAll_ok (h : claimAll cs owners=.ok owners') :
    Unambiguous cs ∧ ∀k∈(entries cs).map claim,k∉owners := by
  induction cs generalizing owners with
  | nil => simp [Unambiguous,entries]
  | cons s cs ih =>
    simp only [claimAll] at h
    split at h
    · cases h
    · rename_i owners₁ hs
      obtain ⟨hnodup,hout,hkeys⟩ := claimTriggers_ok hs
      obtain ⟨hrest,hfree⟩ := ih h
      rw [Unambiguous,map_claim_cons]
      constructor
      · rw [List.nodup_append]
        refine ⟨hnodup,hrest,?_⟩
        intro a ha b hb he
        exact hfree b hb ((hkeys b).mpr (Or.inr (he ▸ ha)))
      · intro k hk
        cases List.mem_append.mp hk with
        | inl hk' =>
          obtain ⟨t,ht,rfl⟩ := List.mem_map.mp hk'
          exact hout t ht
        | inr hk' => exact fun hm => hfree k hk' ((hkeys k).mpr (Or.inl hm))

theorem claimAll_of_unambiguous (h : Unambiguous cs) (hout : ∀k∈(entries cs).map claim,k∉owners) :
    ∃owners',claimAll cs owners=.ok owners' := by
  induction cs generalizing owners with
  | nil => exact ⟨owners,rfl⟩
  | cons s cs ih =>
    rw [Unambiguous,map_claim_cons,List.nodup_append] at h
    obtain ⟨hnodup,hrest,hdisjoint⟩ := h
    rw [map_claim_cons] at hout
    have hfresh : ∀t∈s.triggers,(t,s.priority)∉owners := fun t ht =>
      hout _ (List.mem_append_left _ (List.mem_map.mpr ⟨t,ht,rfl⟩))
    obtain ⟨owners₁,hs⟩ := claimTriggers_of_nodup hnodup hfresh
    obtain ⟨_,_,hkeys⟩ := claimTriggers_ok hs
    simp only [claimAll,hs]
    apply ih hrest
    intro k hk hm
    cases (hkeys k).mp hm with
    | inl hold => exact hout k (List.mem_append_right _ hk) hold
    | inr hnew => exact hdisjoint k hnew k hk rfl

theorem validateUnambiguous_iff (cs : List (CommandSpec H)) :
    (∃owners,validateUnambiguous cs=.ok owners) ↔ Unambiguous cs := by
  constructor
  · intro h
    obtain ⟨owners,h⟩ := h
    exact (claimAll_ok h).1
  · intro h
    exact claimAll_of_unambiguous h (fun k _ hm => by simp at hm)

/-! The index -/

theorem indexTrigger_apply (index : Char → List (CommandSpec H × Text)) (spec : CommandSpec H)
    (t : Text) (c : Char) :
    indexTrigger index spec t c=index c++if t.head?=some c then [(spec,t)] else [] := by
  cases t with
  | nil => simp [indexTrigger]
  | cons d t =>
    by_cases hd : c=d
    · subst d
      simp [indexTrigger]
    · simp [indexTrigger,hd,Ne.symm hd]

theorem indexTriggers_apply (index : Char → List (CommandSpec H × Text)) (spec : CommandSpec H)
    (ts : List Text) (c : Char) :
    ts.foldl (fun index trigger => indexTrigger index spec trigger) index c=
      index c++(ts.map (fun t => (spec,t))).filter (fun e => e.2.head?=some c) := by
  induction ts generalizing index with
  | nil => simp
  | cons t ts ih =>
    rw [List.foldl_cons,ih,indexTrigger_apply,List.map_cons,List.filter_cons,List.append_assoc]
    congr 1
    by_cases h : t.head?=some c <;> simp [h]

theorem buildIndex_apply (cs : List (CommandSpec H)) (c : Char) :
    buildIndex cs c=(entries cs).filter (fun e => e.2.head?=some c) := by
  have hfold : ∀index : Char → List (CommandSpec H × Text),cs.foldl (fun index spec =>
      spec.triggers.foldl (fun index trigger => indexTrigger index spec trigger) index) index c=
        index c++(entries cs).filter (fun e => e.2.head?=some c) := by
    induction cs with
    | nil => simp [entries]
    | cons s cs ih =>
      intro index
      rw [List.foldl_cons,ih,indexTriggers_apply]
      simp only [entries,List.flatMap_cons,List.filter_append,List.append_assoc]
  rw [buildIndex,hfold,List.nil_append]

theorem firstMatch_eq_find? (text : Text) (l : List (CommandSpec H × Text)) :
    firstMatch text l=(l.find? (fun e => matchesAt e.2 text)).map
      (fun e => (e.1,strip (text.drop e.2.length))) := by
  induction l with
  | nil => rfl
  | cons e l ih =>
    obtain ⟨s,t⟩ := e
    rw [firstMatch,List.find?_cons]
    by_cases hm : matchesAt t text=true
    · simp [hm]
    · simp [hm,ih]

/-! The state -/

structure RouterInv (r : CommandRouter H) : Prop where
  unambiguous : Unambiguous r.commands
  fresh : r.indexDirty=false → r.triggerIndex=
    fun c => rank candidateKey (buildIndex (rank commandSortKey r.commands) c)

theorem ensureIndexes_commands (r : CommandRouter H) : r.ensureIndexes.commands=r.commands := by
  simp only [ensureIndexes]
  split_ifs <;> rfl

theorem RouterInv.index (h : RouterInv r) (c : Char) : r.ensureIndexes.triggerIndex c=
    rank candidateKey (buildIndex (rank commandSortKey r.commands) c) := by
  simp only [ensureIndexes]
  split_ifs with hd
  · rfl
  · rw [h.fresh (by simpa using hd)]

theorem RouterInv.ensureIndexes (h : RouterInv r) : RouterInv r.ensureIndexes := by
  apply RouterInv.mk
  · rw [ensureIndexes_commands]
    exact h.unambiguous
  · intro _
    funext c
    rw [ensureIndexes_commands]
    exact h.index c

theorem RouterInv.replace (h : Unambiguous cs) :
    RouterInv {r with commands := cs,indexDirty := true} :=
  ⟨h,fun hd => by cases hd⟩

theorem RouterInv.register (h : RouterInv r) (spec : CommandSpec H) :
    RouterInv (r.register spec).2 := by
  simp only [CommandRouter.register]
  split
  · exact h
  · rename_i owners hv
    exact .replace ((validateUnambiguous_iff _).mp ⟨owners,hv⟩)

theorem RouterInv.replacePlugin (h : RouterInv r) (pluginName : String)
    (specs : List (CommandSpec H)) : RouterInv (r.replacePlugin pluginName specs).2 := by
  simp only [CommandRouter.replacePlugin]
  split
  · exact h
  · rename_i owners hv
    exact .replace ((validateUnambiguous_iff _).mp ⟨owners,hv⟩)

theorem RouterInv.step {a : RouterAct H} (h : RouterInv r) (hs : routerStep r a=some r') :
    RouterInv r' := by
  cases a with
  | register spec => exact Option.some.inj hs ▸ h.register spec
  | replacePlugin pluginName specs => exact Option.some.inj hs ▸ h.replacePlugin pluginName specs
  | clearPlugin pluginName => exact Option.some.inj hs ▸ h.replacePlugin pluginName []
  | resolve text =>
    have hstate : (r.resolve text).2=r ∨ (r.resolve text).2=r.ensureIndexes := by
      cases text with
      | nil => exact Or.inl rfl
      | cons c rest => exact Or.inr rfl
    have hinv : RouterInv (r.resolve text).2 := by
      cases hstate with
      | inl he => rw [he]; exact h
      | inr he => rw [he]; exact h.ensureIndexes
    exact Option.some.inj hs ▸ hinv

theorem reach_routerInv {ok : CommandRouter H → RouterAct H → Prop}
    (h : Reach routerStep ok (· = new) r) : RouterInv r := by
  apply h.invariant
  · intro r hr
    subst r
    exact ⟨List.nodup_nil,fun hd => by cases hd⟩
  · exact fun _ _ _ hr _ hs => hr.step hs

/-! The answer -/

def Hits (text : Text) (e : CommandSpec H × Text) : Prop := e.2≠[] ∧ matchesAt e.2 text=true

theorem head_of_matchesAt {t : Text} {c : Char} {rest : Text} (hne : t≠[])
    (h : matchesAt t (c::rest)=true) : t.head?=some c := by
  cases t with
  | nil => exact absurd rfl hne
  | cons d t =>
    simp only [matchesAt,List.isPrefixOf,Bool.and_eq_true,beq_iff_eq] at h
    rw [h.1.1]
    rfl

theorem eq_of_matchesAt {t u : Text} (ht : matchesAt t text=true) (hu : matchesAt u text=true)
    (hlen : t.length=u.length) : t=u := by
  simp only [matchesAt,Bool.and_eq_true,List.isPrefixOf_iff_prefix] at ht hu
  exact (List.prefix_of_prefix_length_le ht.1 hu.1 (Nat.le_of_eq hlen)).eq_of_length hlen

theorem Unambiguous.unique (h : Unambiguous cs) {e f : CommandSpec H × Text} (he : e∈entries cs)
    (hf : f∈entries cs) (hme : matchesAt e.2 text=true) (hmf : matchesAt f.2 text=true)
    (hkey : candidateKey e=candidateKey f) : e=f := by
  have hpair : (e.1.priority,e.2.length)=(f.1.priority,f.2.length) := hkey
  obtain ⟨hprio,hlen⟩ := Prod.mk.inj hpair
  apply List.inj_on_of_nodup_map h he hf
  rw [claim,claim,eq_of_matchesAt hme hmf hlen,hprio]

theorem mem_candidates {e : CommandSpec H × Text} {c : Char} :
    e∈buildIndex (rank commandSortKey cs) c ↔ e∈entries cs ∧ e.2.head?=some c := by
  rw [buildIndex_apply,List.mem_filter,mem_entries,mem_entries,mem_rank,decide_eq_true_eq]

/-- What `resolve` owes to the commands: the hit of the highest priority and, among those, of the
longest trigger. -/
structure Resolves (cs : List (CommandSpec H)) (text : Text)
    (answer : Option (CommandSpec H × Text)) : Prop where
  found : ∀spec args,answer=some (spec,args) → ∃trigger∈spec.triggers,spec∈cs ∧
    Hits text (spec,trigger) ∧ args=strip (text.drop trigger.length) ∧
    ∀e∈entries cs,Hits text e → e=(spec,trigger) ∨ candidateKey e<candidateKey (spec,trigger)
  missed : answer=none → ∀e∈entries cs,¬Hits text e

theorem RouterInv.resolve_eq (h : RouterInv r) (c : Char) (rest : Text) :
    (r.resolve (c::rest)).1=
      ((rank candidateKey (buildIndex (rank commandSortKey r.commands) c)).find?
        (fun e => matchesAt e.2 (c::rest))).map
        (fun e => (e.1,strip ((c::rest).drop e.2.length))) := by
  simp only [CommandRouter.resolve]
  rw [firstMatch_eq_find?,h.index c]

theorem RouterInv.resolves (h : RouterInv r) (text : Text) : Resolves r.commands text (r.resolve text).1 := by
  cases text with
  | nil =>
    apply Resolves.mk
    · intro spec args ha
      cases ha
    · intro _ e _ hhit
      obtain ⟨hne,hm⟩ := hhit
      simp only [matchesAt,Bool.and_eq_true,List.isPrefixOf_iff_prefix] at hm
      exact hne (List.prefix_nil.mp hm.1)
  | cons c rest =>
    have hcand : ∀e∈entries r.commands,Hits (c::rest) e →
        e∈buildIndex (rank commandSortKey r.commands) c := fun e he hhit =>
      mem_candidates.mpr ⟨he,head_of_matchesAt hhit.1 hhit.2⟩
    rw [h.resolve_eq]
    apply Resolves.mk
    · intro spec args ha
      obtain ⟨e,hfind,hpair⟩ := Option.map_eq_some_iff.mp ha
      obtain ⟨s,t⟩ := e
      obtain ⟨hmem,hmatch,hmax⟩ := find?_rank hfind
      obtain ⟨hs,hargs⟩ := Prod.mk.inj hpair
      subst spec
      obtain ⟨hentry,hhead⟩ := mem_candidates.mp hmem
      obtain ⟨hcs,ht⟩ := mem_entries.mp hentry
      refine ⟨t,ht,hcs,⟨?_,hmatch⟩,hargs.symm,?_⟩
      · intro hnil
        have hnil' : t=[] := hnil
        rw [hnil'] at hhead
        cases hhead
      · intro e he hhit
        have hle := hmax e (hcand e he hhit) hhit.2
        cases lt_or_eq_of_le hle with
        | inl hlt => exact Or.inr hlt
        | inr heq => exact Or.inl (h.unambiguous.unique he hentry hhit.2 hmatch heq)
    · intro ha e he hhit
      have hmiss := find?_rank_none (Option.map_eq_none_iff.mp ha) e (hcand e he hhit)
      rw [hhit.2] at hmiss
      cases hmiss

theorem RouterInv.resolve_congr (h : RouterInv r) (h' : RouterInv r')
    (hc : ∀s,s∈r.commands ↔ s∈r'.commands) (text : Text) :
    (r.resolve text).1=(r'.resolve text).1 := by
  cases text with
  | nil => rfl
  | cons c rest =>
    rw [h.resolve_eq,h'.resolve_eq]
    congr 1
    apply find?_rank_congr
    · intro e
      rw [mem_candidates,mem_candidates,mem_entries,mem_entries,hc]
    · intro a ha b hb hma hmb hkey
      exact h.unambiguous.unique (mem_candidates.mp ha).1 (mem_candidates.mp hb).1 hma hmb hkey

structure RouterGuarantee (r : CommandRouter H) : Prop where
  resolves : ∀text,Resolves r.commands text (r.resolve text).1
  orderless : ∀r',Reach routerStep Free (· = new) r' → (∀s,s∈r.commands ↔ s∈r'.commands) →
    ∀text,(r.resolve text).1=(r'.resolve text).1
  registerFails : ∀spec e,(r.register spec).1=.error e → (r.register spec).2=r ∧
    ¬Unambiguous (r.commands++[spec])
  replaceFails : ∀pluginName specs e,(r.replacePlugin pluginName specs).1=.error e →
    (r.replacePlugin pluginName specs).2=r ∧
    ¬Unambiguous (r.commands.filter (fun command => command.plugin≠pluginName)++specs)
  clearFails : ∀pluginName e,(r.clearPlugin pluginName).1≠.error e

theorem Unambiguous.filter (h : Unambiguous cs) (p : CommandSpec H → Bool) :
    Unambiguous (cs.filter p) := by
  apply List.Nodup.sublist _ h
  apply List.Sublist.map
  exact List.Sublist.flatMap List.filter_sublist _

/-- After any sequence of calls the router answers with the hit of the highest priority and length,
whatever the order of registration, and a call that reports a conflict changes nothing. -/
theorem router_resolves (r : CommandRouter H) (h : Reach routerStep Free (· = new) r) :
    RouterGuarantee r := by
  have hinv := reach_routerInv h
  have hrefused {cs : List (CommandSpec H)} {e : CommandConflict H}
      (hv : validateUnambiguous cs=.error e) : ¬Unambiguous cs := by
    intro hu
    obtain ⟨owners,ho⟩ := (validateUnambiguous_iff cs).mpr hu
    rw [hv] at ho
    cases ho
  apply RouterGuarantee.mk
  · exact hinv.resolves
  · exact fun r' h' hc text => hinv.resolve_congr (reach_routerInv h') hc text
  · intro spec e he
    simp only [CommandRouter.register] at he ⊢
    split at he
    · rename_i hv
      exact ⟨rfl,hrefused hv⟩
    · cases he
  · intro pluginName specs e he
    simp only [CommandRouter.replacePlugin] at he ⊢
    split at he
    · rename_i hv
      exact ⟨rfl,hrefused hv⟩
    · cases he
  · intro pluginName e he
    simp only [CommandRouter.clearPlugin,CommandRouter.replacePlugin,List.append_nil] at he
    split at he
    · rename_i hv
      exact hrefused hv (hinv.unambiguous.filter _)
    · cases he

/-- Two commands under one word; the longer trigger wins. -/
theorem router_resolves_example :
    ∃r : CommandRouter Unit,execute routerStep new
      [.register ⟨"weather","now",["sun".toList],0,()⟩,
        .register ⟨"sky","sunset",["sun set".toList],0,()⟩]=some r ∧ RouterGuarantee r ∧
      (r.resolve "sun set x".toList).1=some (⟨"sky","sunset",["sun set".toList],0,()⟩,"x".toList) := by
  obtain ⟨r,hr,ha⟩ : ∃r : CommandRouter Unit,execute routerStep new
      [.register ⟨"weather","now",["sun".toList],0,()⟩,
        .register ⟨"sky","sunset",["sun set".toList],0,()⟩]=some r ∧
      (r.resolve "sun set x".toList).1=
        some (⟨"sky","sunset",["sun set".toList],0,()⟩,"x".toList) := ⟨_,rfl,by decide⟩
  exact ⟨r,hr,router_resolves r (Reach.execute _ (fun _ _ _ => trivial) (.start rfl) hr),ha⟩

/-- An empty trigger stands at the word boundary before a space and is never found. -/
theorem router_ignores_empty_trigger :
    ¬∀r : CommandRouter Unit,Reach routerStep Free (· = new) r → ∀text,
      ∀e∈entries r.commands,matchesAt e.2 text=true → (r.resolve text).1≠none := by
  intro hall
  obtain ⟨r,hr,hmem,hmatch,hmiss⟩ : ∃r : CommandRouter Unit,execute routerStep new
      [.register ⟨"weather","now",[[]],0,()⟩]=some r ∧
      ((⟨"weather","now",[[]],0,()⟩,[]) : CommandSpec Unit × Text)∈entries r.commands ∧
      matchesAt [] " x".toList=true ∧ (r.resolve " x".toList).1=none :=
    ⟨_,rfl,by decide,by decide,by decide⟩
  exact hall r (Reach.execute _ (fun _ _ _ => trivial) (.start rfl) hr) " x".toList _ hmem hmatch hmiss

end XiaoQing.Commands
