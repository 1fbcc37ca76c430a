import Mathlib.Data.List.Chain
import XiaoQing.QingPet.EscrowRun
import XiaoQing.QingPet.Merge

namespace XiaoQing.QingPet

open Framework Tx Commands

def Call.commits (now : Nat) (c : Call) (db : Db) : Bool := (transact (c.run now) db).1.isOk

/-- The calls of a schedule that commit, in the order in which they do. -/
def commits (db : Db) : List (Nat × Call) → List (Nat × Call)
  | [] => []
  | a::as =>
    let rest := commits (a.2.after a.1 db) as
    if a.2.commits a.1 db then a::rest else rest

/-- The rows that a schedule leaves are those of a serial application of the merges that commit. -/
structure Serial (s : Db) (done : List (Nat × Call)) (t : Db) : Prop where
  pets : ∀id,t.petById id=(s.petById id).map (fun p => done.foldl (fun p a => a.2.onPet p) p)
  users : ∀who,t.user who=(s.user who).map (fun u => done.foldl (fun u a => a.2.onUser a.1 u) u)
  bags : ∀who item,t.items who item=s.items who item+given (done.flatMap (fun a => a.2.own)) who item

def Pet.Additive (f : Pet → Int) : Prop :=
  f=Pet.age ∨ f=Pet.experience ∨ f=Pet.intimacy ∨ f=Pet.likes

def User.Additive (f : User → Int) : Prop :=
  f=User.coins ∨ f=User.friendship ∨ f=User.todayCoins ∨ (∃a,f=fun u => u.today a) ∨ ∃a,f=fun u => u.total a

namespace Call

def petDelta (f : Pet → Int) (id : Nat) (c : Call) : Int :=
  match c.petDraft with
  | some ⟨some b,p⟩ => if p.id=id then f p-f b else 0
  | _ => 0

def userDelta (f : User → Int) (who : Who) (c : Call) : Int :=
  match c.userDraft with
  | some ⟨some b,u⟩ => if u.who=who then f u-f b else 0
  | _ => 0

/-- The change that a draft makes of a field of a pet: from what was read to what is written. -/
def petChange {α : Type} [DecidableEq α] (f : Pet → α) (id : Nat) (c : Call) : Option (α × α) :=
  match c.petDraft with
  | some ⟨some b,p⟩ => if p.id=id ∧ f p≠f b then some (f b,f p) else none
  | _ => none

/-- What the callers of the service keep: the drafts were read, and leave what was earned today alone. -/
structure Proper (c : Call) : Prop where
  earned : c.Earned
  read : c.Read
  packed : c.Packed
  fit : c.Fit

end Call

def Stage.rank : Stage → Nat
  | .egg => 0
  | .young => 1
  | .growth => 2
  | .mature => 3
  | .old => 4

def changes {α : Type} [DecidableEq α] (f : Pet → α) (id : Nat) (done : List (Nat × Call)) : List (α × α) :=
  done.filterMap (fun a => a.2.petChange f id)

structure Stable (db : Db) : Prop where
  stocked : Stocked db
  even : Even db
  fit : db.Fit

namespace Stable

variable {s t : Db} {now : Nat} {c : Call}

theorem empty : Stable Db.empty := ⟨Kept.empty.stocked,Even.empty,fun _ h => nomatch h⟩

theorem call (h : Stable s) (hc : c.Proper) (now : Nat) : Stable (c.after now s) := by
  refine ⟨?_,h.even.call hc.earned,(Call.run_fit hc.fit).transact h.fit⟩
  unfold Call.after
  rcases transact_cases (c.run now) s with ⟨a,t,hrun,ht⟩ | ⟨e,ht⟩
  · rw [ht]
    obtain ⟨done,status,opened,htrades⟩ := Call.run_trades h.stocked hc.packed hrun
    exact htrades.stocked h.stocked
  · rw [ht]
    exact h.stocked

theorem coins (h : Stable s) {who : Who} {u : User} (hu : s.user who=some u) : 0≤u.coins := by
  obtain ⟨_,hb⟩ := h.even.books
  have hpos := (hb.coins who).1
  rwa [Db.coinsOf,hu] at hpos

theorem merged (h : Stable s) (hc : c.Proper) (hm : c.isMerge=true) {a : Unit}
    (hr : (c.run now).run s=.ok (a,t)) : Merged now c s t :=
  Call.run_merged hm hc.earned hc.fit (fun _ _ => h.even.limit) hr

theorem items (h : Stable s) (hc : c.Proper) (hm : c.isMerge=true) {a : Unit}
    (hr : (c.run now).run s=.ok (a,t)) (who : Who) (item : Text) :
    t.items who item=s.items who item+given c.own who item := by
  cases c with
  | updatePet pet =>
    have hw : s.Within [.pets] t := updatePet_only.run hr
    have hbag : t.items who item=s.items who item := by
      unfold Db.items
      rw [show t.inventories=s.inventories from hw .inventories (by decide)]
    simp [hbag,Call.own,given]
  | updateUser user =>
    have hw : s.Within [.users,.ledger] t := updateUser_only.run hr
    have hbag : t.items who item=s.items who item := by
      unfold Db.items
      rw [show t.inventories=s.inventories from hw .inventories (by decide)]
    simp [hbag,Call.own,given]
  | commitPetAndUser pet user bag task groupTask action =>
    obtain ⟨n,hrun⟩ := discard_ok hr
    have htrading := commitPetAndUser_trading hc.packed _ _ _
      (Trading.refl h.stocked (show ListingStatus.expired≠.active by decide)) hrun
    exact htrading.moved.items who item
  | _ => cases hm

end Stable

section

variable {s t : Db} {as : List (Nat × Call)}

theorem after_of_commits {now : Nat} {c : Call} {db : Db} (h : c.commits now db=true) :
    ∃a,(c.run now).run db=.ok (a,c.after now db) := by
  unfold Call.commits at h
  unfold Call.after
  rcases transact_cases (c.run now) db with ⟨a,t,hrun,ht⟩ | ⟨e,ht⟩
  · rw [ht]
    exact ⟨a,hrun⟩
  · rw [ht] at h
    cases h

theorem after_of_not_commits {now : Nat} {c : Call} {db : Db} (h : c.commits now db=false) :
    c.after now db=db := by
  unfold Call.commits at h
  unfold Call.after
  rcases transact_cases (c.run now) db with ⟨a,t,hrun,ht⟩ | ⟨e,ht⟩
  · rw [ht] at h
    cases h
  · rw [ht]

theorem serial_of_run (h : Stable s) (has : ∀a∈as,a.2.isMerge=true ∧ a.2.Proper)
    (ht : execute serve s as=some t) : Stable t ∧ Serial s (commits s as) t := by
  induction as generalizing s with
  | nil =>
    cases ht
    refine ⟨h,fun id => ?_,fun who => ?_,fun who item => ?_⟩
    · cases t.petById id <;> rfl
    · cases t.user who <;> rfl
    · simp [commits,given]
  | cons a as ih =>
    obtain ⟨u,hu,hrest⟩ := Option.bind_eq_some_iff.mp ht
    cases hu
    obtain ⟨hm,hc⟩ := has a (by simp)
    obtain ⟨hstable,hserial⟩ := ih (h.call hc a.1) (fun b hb => has b (List.mem_cons_of_mem a hb)) hrest
    refine ⟨hstable,?_⟩
    unfold commits
    cases hcommit : a.2.commits a.1 s with
    | false =>
      have hsame := after_of_not_commits hcommit
      rw [hsame] at hserial
      simpa [hsame] using hserial
    | true =>
      obtain ⟨v,hrun⟩ := after_of_commits hcommit
      have hmerged := h.merged hc hm hrun
      refine ⟨fun id => ?_,fun who => ?_,fun who item => ?_⟩
      · rw [hserial.pets,hmerged.pets,Option.map_map]
        rfl
      · rw [hserial.users,hmerged.users,Option.map_map]
        rfl
      · rw [hserial.bags,h.items hc hm hrun]
        simp only [if_true,List.flatMap_cons,given_append]
        omega

/-! What a serial application of merges adds up to -/

theorem Call.onPet_id (c : Call) (p : Pet) (hc : c.Fit) : (c.onPet p).id=p.id := by
  unfold Call.onPet
  cases hd : c.petDraft with
  | none => rfl
  | some d =>
    obtain ⟨b,hb⟩ := Option.isSome_iff_exists.mp (hc.1 d hd)
    dsimp only
    split
    · unfold Pet.mergedOnto
      rw [hb]
    · rfl

theorem Call.onPet_additive {f : Pet → Int} (hf : Pet.Additive f) (c : Call) (p : Pet) (hc : c.Fit) :
    f (c.onPet p)=f p+c.petDelta f p.id := by
  unfold Call.onPet Call.petDelta
  cases hd : c.petDraft with
  | none => simp
  | some d =>
    obtain ⟨base,new⟩ := d
    obtain ⟨b,rfl⟩ := Option.isSome_iff_exists.mp (hc.1 _ hd)
    dsimp only
    by_cases hid : p.id=new.id
    · rw [if_pos hid,if_pos hid.symm]
      rcases hf with rfl | rfl | rfl | rfl <;> simp only [Pet.mergedOnto,addDelta] <;> omega
    · rw [if_neg hid,if_neg (fun he => hid he.symm)]
      omega

theorem foldl_onPet_additive {f : Pet → Int} (hf : Pet.Additive f) (done : List (Nat × Call))
    (hdone : ∀a∈done,a.2.Fit) (p : Pet) :
    f (done.foldl (fun p a => a.2.onPet p) p)=f p+(done.map (fun a => a.2.petDelta f p.id)).sum := by
  induction done generalizing p with
  | nil => simp
  | cons a done ih =>
    have hfit := hdone a (by simp)
    have hrest := ih (fun b hb => hdone b (List.mem_cons_of_mem a hb)) (a.2.onPet p)
    rw [List.foldl_cons,hrest,a.2.onPet_id p hfit,a.2.onPet_additive hf p hfit,List.map_cons,List.sum_cons]
    omega

theorem Call.onUser_who (now : Nat) (c : Call) (u : User) : (c.onUser now u).who=u.who := by
  unfold Call.onUser
  cases hd : c.userDraft with
  | none => rfl
  | some d =>
    dsimp only
    split
    · rename_i hwho
      unfold Call.written
      cases c.quota with
      | none =>
        unfold User.mergedOnto
        cases d.base with
        | none => exact hwho.symm
        | some b => rfl
      | some a =>
        unfold Act.settledUser User.incrementAction
        dsimp only
        split <;> rfl
    · rfl

theorem Call.onUser_additive {f : User → Int} (hf : User.Additive f) (now : Nat) (c : Call) (u : User)
    (hc : c.Read) (hq : c.quota=none) : f (c.onUser now u)=f u+c.userDelta f u.who := by
  unfold Call.onUser Call.userDelta
  rw [hq]
  cases hd : c.userDraft with
  | none => simp
  | some d =>
    obtain ⟨base,new⟩ := d
    obtain ⟨b,rfl⟩ := Option.isSome_iff_exists.mp (hc _ hd)
    dsimp only
    by_cases hwho : u.who=new.who
    · rw [if_pos hwho,if_pos hwho.symm]
      rcases hf with rfl | rfl | rfl | ⟨a,rfl⟩ | ⟨a,rfl⟩ <;>
        simp only [Call.written,User.mergedOnto,addDelta] <;> omega
    · rw [if_neg hwho,if_neg (fun he => hwho he.symm)]
      omega

theorem foldl_onUser_additive {f : User → Int} (hf : User.Additive f) (done : List (Nat × Call))
    (hdone : ∀a∈done,a.2.Read ∧ a.2.quota=none) (u : User) :
    f (done.foldl (fun u a => a.2.onUser a.1 u) u)=f u+(done.map (fun a => a.2.userDelta f u.who)).sum := by
  induction done generalizing u with
  | nil => simp
  | cons a done ih =>
    obtain ⟨hread,hquota⟩ := hdone a (by simp)
    have hrest := ih (fun b hb => hdone b (List.mem_cons_of_mem a hb)) (a.2.onUser a.1 u)
    rw [List.foldl_cons,hrest,a.2.onUser_who,a.2.onUser_additive hf a.1 u hread hquota,List.map_cons,
      List.sum_cons]
    omega

/-! What is settled once -/

/-- A field of a pet that the last writer sets, and whose change a conflict refuses. -/
structure Pet.Guarded {α : Type} [DecidableEq α] (f : Pet → α) : Prop where
  merged : ∀(b p latest : Pet) v,
    f {p.mergedOnto (some b) latest with version := v}=latestOf (f b) (f p) (f latest)
  guard : ∀b p latest : Pet,p.conflictsWith (some b) latest=none → f p≠f b → f latest=f b

theorem Pet.conflictsWith_none {b p latest : Pet} (h : p.conflictsWith (some b) latest=none) :
    (p.lastUpdate≠b.lastUpdate → latest.lastUpdate=b.lastUpdate) ∧
    (p.stage≠b.stage → latest.stage=b.stage) ∧
    (p.stat .energy < b.stat .energy → 0≤latest.stat .energy+(p.stat .energy-b.stat .energy)) := by
  unfold Pet.conflictsWith at h
  dsimp only at h
  split at h
  · cases h
  · split at h
    · cases h
    · split at h
      · cases h
      · rename_i hupdate hstage henergy
        refine ⟨fun hne => ?_,fun hne => ?_,fun hlt => ?_⟩
        · by_contra hlatest
          exact hupdate ⟨hne,hlatest⟩
        · by_contra hlatest
          exact hstage ⟨hne,hlatest⟩
        · by_contra hneg
          exact henergy ⟨by omega,by omega⟩

theorem guarded_lastUpdate : Pet.Guarded Pet.lastUpdate :=
  ⟨fun _ _ _ _ => rfl,fun _ _ _ h => (Pet.conflictsWith_none h).1⟩

theorem Stage.rank_injective {a b : Stage} (h : a.rank=b.rank) : a=b := by
  cases a <;> cases b <;> first | rfl | cases h

theorem guarded_stage : Pet.Guarded (fun p => p.stage.rank) := by
  refine ⟨fun b p latest v => ?_,fun b p latest h hne => ?_⟩
  · simp only [Pet.mergedOnto,latestOf]
    by_cases he : p.stage=b.stage
    · rw [if_pos he,if_pos (congrArg Stage.rank he)]
    · rw [if_neg he,if_neg (fun hr => he (Stage.rank_injective hr))]
  · exact congrArg Stage.rank ((Pet.conflictsWith_none h).2.1 (fun he => hne (congrArg Stage.rank he)))

section

variable {α : Type} [DecidableEq α] {f : Pet → α}

theorem Merged.change {now : Nat} {c : Call} {u : Db} {p : Pet} {id : Nat} (hf : Pet.Guarded f)
    (hm : Merged now c s u) (hc : c.Fit) (hp : s.petById id=some p) :
    match c.petChange f id with
    | some x => x.1=f p ∧ x.2=f (c.onPet p)
    | none => f (c.onPet p)=f p := by
  unfold Call.petChange Call.onPet
  cases hd : c.petDraft with
  | none => rfl
  | some d =>
    obtain ⟨base,new⟩ := d
    obtain ⟨b,rfl⟩ := Option.isSome_iff_exists.mp (hc.1 _ hd)
    have hid : p.id=id := row_key hp
    dsimp only
    by_cases hne : new.id=id
    · obtain ⟨latest,hlatest,_,hconflict⟩ := hm.pet _ hd
      dsimp only at hlatest hconflict
      rw [hne,hp] at hlatest
      cases hlatest
      rw [if_pos (hid.trans hne.symm),hf.merged]
      unfold latestOf
      by_cases he : f new=f b
      · rw [if_neg (fun h => h.2 he),if_pos he]
      · rw [if_pos ⟨hne,he⟩,if_neg he]
        exact ⟨(hf.guard _ _ _ hconflict he).symm,rfl⟩
    · rw [if_neg (fun h => hne h.1),if_neg (fun he => hne (he.symm.trans hid))]

theorem changes_chain {id : Nat} (hf : Pet.Guarded f) (h : Stable s)
    (has : ∀a∈as,a.2.isMerge=true ∧ a.2.Proper) {p : Pet} (hp : s.petById id=some p) :
    List.IsChain (fun x y => x.2=y.1) ((f p,f p)::changes f id (commits s as)) := by
  induction as generalizing s p with
  | nil => exact List.isChain_singleton _
  | cons a as ih =>
    obtain ⟨hm,hc⟩ := has a (by simp)
    have hrest : ∀b∈as,b.2.isMerge=true ∧ b.2.Proper := fun b hb => has b (List.mem_cons_of_mem a hb)
    unfold commits
    cases hcommit : a.2.commits a.1 s with
    | false =>
      rw [after_of_not_commits hcommit]
      simpa using ih h hrest hp
    | true =>
      obtain ⟨v,hrun⟩ := after_of_commits hcommit
      have hmerged := h.merged hc hm hrun
      have hq : (a.2.after a.1 s).petById id=some (a.2.onPet p) := by
        rw [hmerged.pets,hp]
        rfl
      have htail := ih (h.call hc a.1) hrest hq
      have hchange := hmerged.change hf hc.fit hp
      rw [if_pos rfl]
      unfold changes at htail ⊢
      rw [List.filterMap_cons]
      cases hx : a.2.petChange f id with
      | none =>
        rw [hx] at hchange
        simpa [hx,hchange] using htail
      | some x =>
        rw [hx] at hchange
        obtain ⟨hfrom,hto⟩ := hchange
        refine List.isChain_cons_cons.mpr ⟨hfrom.symm,?_⟩
        cases hl : (commits (a.2.after a.1 s) as).filterMap (fun a => a.2.petChange f id) with
        | nil => exact List.isChain_singleton _
        | cons y l =>
          rw [hl] at htail
          obtain ⟨hy,hyl⟩ := List.isChain_cons_cons.mp htail
          exact List.isChain_cons_cons.mpr ⟨hto.trans hy,hyl⟩

end

theorem pairwise_of_chain {v : Nat} {l : List (Nat × Nat)}
    (h : List.IsChain (fun x y => x.2=y.1) ((v,v)::l)) (hup : ∀x∈l,x.1 < x.2) :
    l.Pairwise (fun x y => x.2≤y.1) := by
  have hchain : l.IsChain (fun x y => x.2=y.1) := (List.isChain_cons.mp h).2
  clear h
  induction l with
  | nil => exact List.Pairwise.nil
  | cons x l ih =>
    obtain ⟨hx,hl⟩ := List.isChain_cons.mp hchain
    have hpair := ih (fun y hy => hup y (List.mem_cons_of_mem x hy)) hl
    refine List.pairwise_cons.mpr ⟨fun y hy => ?_,hpair⟩
    cases l with
    | nil => cases hy
    | cons z l =>
      have hz : x.2=z.1 := hx z rfl
      rcases List.mem_cons.mp hy with rfl | hy
      · omega
      · have hzy := (List.pairwise_cons.mp hpair).1 y hy
        have hzup := hup z (by simp)
        omega

end

/-- Models that were read at any time, committed in any order after any run of the service. The rows are
    those that the committed changes make one after another, in commit order: additive fields sum their
    deltas, stats, coins and counts stay within their bounds, each stage transition and each decay interval
    starts where the one before ended, what a commit costs and claims is there on the latest rows, and a
    commit that is rejected changes nothing. -/
theorem stale_commits_merge (s t : Db) (as : List (Nat × Call))
    (h : Reach serve (fun _ a => a.2.Proper) (·=Db.empty) s)
    (has : ∀a∈as,a.2.isMerge=true ∧ a.2.Proper) (ht : execute serve s as=some t) :
    Serial s (commits s as) t ∧
    (∀f,Pet.Additive f → ∀id p q,s.petById id=some p → t.petById id=some q →
      f q=f p+((commits s as).map (fun a => a.2.petDelta f id)).sum) ∧
    (∀f,User.Additive f → (∀a∈commits s as,a.2.quota=none) → ∀who u v,
      s.user who=some u → t.user who=some v →
      f v=f u+((commits s as).map (fun a => a.2.userDelta f who)).sum) ∧
    (∀p∈t.pets,p.Fit) ∧ (∀who u,t.user who=some u → 0≤u.coins) ∧ (∀who item,0≤t.items who item) ∧
    (∀id p,s.petById id=some p →
      List.IsChain (fun x y => x.2=y.1)
        ((p.lastUpdate,p.lastUpdate)::changes Pet.lastUpdate id (commits s as)) ∧
      List.IsChain (fun x y => x.2=y.1)
        ((p.stage.rank,p.stage.rank)::changes (fun p => p.stage.rank) id (commits s as))) ∧
    (∀id p,s.petById id=some p →
      ((∀x∈changes Pet.lastUpdate id (commits s as),x.1 < x.2) →
        (changes Pet.lastUpdate id (commits s as)).Pairwise (fun x y => x.2≤y.1)) ∧
      ((∀x∈changes (fun p => p.stage.rank) id (commits s as),x.1 < x.2) →
        (changes (fun p => p.stage.rank) id (commits s as)).Pairwise (fun x y => x.2≤y.1))) ∧
    ∀now (c : Call),c.isMerge=true → c.Proper →
      (c.commits now t=false → c.after now t=t) ∧
      (c.commits now t=true → Merged now c t (c.after now t) ∧
        ∀b p,c.petDraft=some ⟨some b,p⟩ → ∃latest,t.petById p.id=some latest ∧
          (p.lastUpdate≠b.lastUpdate → latest.lastUpdate=b.lastUpdate) ∧
          (p.stage≠b.stage → latest.stage=b.stage) ∧
          (p.stat .energy < b.stat .energy → 0≤latest.stat .energy+(p.stat .energy-b.stat .energy) ∧
            (c.onPet latest).stat .energy=latest.stat .energy+(p.stat .energy-b.stat .energy))) := by
  have hstable : Stable s := h.invariant (fun _ h0 => h0 ▸ Stable.empty)
    (fun _ a _ hs hc hstep => by cases hstep; exact hs.call hc a.1)
  obtain ⟨hafter,hserial⟩ := serial_of_run hstable has ht
  have hsub : ∀a∈commits s as,a∈as := by
    clear ht hserial hafter hstable h has
    induction as generalizing s with
    | nil => exact fun _ hm => nomatch hm
    | cons a as ih =>
      intro b hb
      unfold commits at hb
      dsimp only at hb
      split at hb
      · rcases List.mem_cons.mp hb with rfl | hb
        · exact List.mem_cons_self
        · exact List.mem_cons_of_mem a (ih _ b hb)
      · exact List.mem_cons_of_mem a (ih _ b hb)
  have hupdates := fun id p (hp : s.petById id=some p) => changes_chain guarded_lastUpdate hstable has hp
  have hstages := fun id p (hp : s.petById id=some p) => changes_chain guarded_stage hstable has hp
  refine ⟨hserial,fun f hf id p q hp hq => ?_,fun f hf hquota who u v hu hv => ?_,hafter.fit,
    fun who u => hafter.coins,hafter.stocked.counts,fun id p hp => ⟨hupdates id p hp,hstages id p hp⟩,
    fun id p hp => ⟨pairwise_of_chain (hupdates id p hp),pairwise_of_chain (hstages id p hp)⟩,
    fun now c hm hc => ⟨after_of_not_commits,fun hcommit => ?_⟩⟩
  · have hrow := hserial.pets id
    rw [hp,hq] at hrow
    cases hrow
    rw [foldl_onPet_additive hf _ (fun a ha => (has a (hsub a ha)).2.fit) p,show p.id=id from row_key hp]
  · have hrow := hserial.users who
    rw [hu,hv] at hrow
    cases hrow
    rw [foldl_onUser_additive hf _ (fun a ha => ⟨(has a (hsub a ha)).2.read,hquota a ha⟩) u,
      show u.who=who from row_key hu]
  · obtain ⟨a,hrun⟩ := after_of_commits hcommit
    have hmerged := hafter.merged hc hm hrun
    refine ⟨hmerged,fun b p hd => ?_⟩
    obtain ⟨latest,hlatest,_,hconflict⟩ := hmerged.pet _ hd
    have hconflict : p.conflictsWith (some b) latest=none := hconflict
    obtain ⟨hupdate,hstage,henergy⟩ := Pet.conflictsWith_none hconflict
    refine ⟨latest,hlatest,hupdate,hstage,fun hcost => ⟨henergy hcost,?_⟩⟩
    have hpos := henergy hcost
    have hbound := (hafter.fit latest (mem_of_row hlatest) .energy).2
    unfold Call.onPet
    rw [hd]
    dsimp only
    rw [if_pos (show latest.id=p.id from row_key hlatest)]
    unfold Pet.mergedOnto Pet.mergeStat clampStat addDelta
    dsimp only
    rw [if_neg (by omega)]
    unfold maxStat at hbound ⊢
    omega

/-- A care action: what it makes of the pet, and what its commit claims. -/
structure Care where
  act : Pet → Pet
  task : Option Action
  groupTask : Option Action
  action : PetAction

namespace Care

/-- The free apple of `feed_pet`. -/
def fed (now : Nat) : Care :=
  ⟨fun p =>
    {(p.updateStat .hunger 15).updateStat .mood 5 with
      experience := p.experience+2
      last := fun a => if a=.feed then some now else p.last a},
    some .feed,some .feed,⟨.feed,20,60,5,none,[],1,5⟩⟩

/-- `play_with_pet`. -/
def played (now : Nat) : Care :=
  ⟨fun p =>
    {(p.updateStat .mood 15).updateStat .energy (-10) with
      intimacy := p.intimacy+2
      last := fun a => if a=.play then some now else p.last a},
    some .play,none,⟨.play,15,120,5,none,[],0,0⟩⟩

/-- `explore`, where the pet got lost in the forest. -/
def lost (now : Nat) : Care :=
  ⟨fun p =>
    {(p.updateStat .energy (-30)).updateStat .mood (-10) with
      experience := p.experience+2
      last := fun a => if a=.explore then some now else p.last a},
    none,some .explore,⟨.explore,3,1800,0,none,[],0,0⟩⟩

def commit (p : Pet) (u : User) (c : Care) : Call :=
  .commitPetAndUser ⟨some p,c.act p⟩ ⟨some u,u⟩ none c.task c.groupTask (some c.action)

def together (now : Nat) (cs : List Care) (db : Db) : Db :=
  match db.petOf owner,db.user owner with
  | some p,some u => cs.foldl (fun db c => (c.commit p u).after now db) db
  | _,_ => db

def serially (now : Nat) (cs : List Care) (db : Db) : Db := cs.foldl (fun db c => together now [c] db) db

end Care

def aging : List (Nat × Call) :=
  let egg : Pet := {Pet.adopted owner ['p'] [] 0 with id := 1}
  [(0,.createUser owner),(0,.createPet (Pet.adopted owner ['p'] [] 0)),
    (60,.updatePet ⟨some egg,{egg.updateStat .mood (-3) with lastUpdate := 60}⟩)]

def care (i : Fin 3) : Care := [Care.lost 60,Care.fed 60,Care.played 60].get i

theorem Care.commit_proper (p : Pet) (u : User) (c : Care) : (c.commit p u).Proper := by
  refine ⟨fun user hu => ?_,fun user hu => ?_,(fun _ hb => nomatch hb),fun d hd => ?_,fun _ he => nomatch he⟩
  · cases hu
    rfl
  · cases hu
    rfl
  · cases hd
    rfl

theorem aging_proper : ∀a∈aging,a.2.Proper := by
  intro a ha
  simp only [aging,List.mem_cons,List.not_mem_nil,or_false] at ha
  rcases ha with rfl | rfl | rfl
  · exact ⟨(fun _ hu => nomatch hu),(fun _ hu => nomatch hu),(fun _ hb => nomatch hb),(fun _ hd => nomatch hd),
      fun _ he => nomatch he⟩
  · refine ⟨(fun _ hu => nomatch hu),(fun _ hu => nomatch hu),(fun _ hb => nomatch hb),(fun _ hd => nomatch hd),
      fun p he => ?_⟩
    cases he
    exact fun _ => ⟨by simp [Pet.adopted],le_rfl⟩
  · refine ⟨(fun _ hu => nomatch hu),(fun _ hu => nomatch hu),(fun _ hb => nomatch hb),fun d hd => ?_,
      fun _ he => nomatch he⟩
    cases hd
    rfl

def tired : List (Nat × Call) :=
  let p : Pet := {(Pet.adopted owner ['p'] [] 0).updateStat .mood (-3) with
    id := 1,lastUpdate := 60,version := 1}
  [(60,(Care.lost 60).commit p (User.fresh owner 0)),(60,(Care.played 60).commit p (User.fresh owner 0))]

theorem stale_commits_merge_example :
    ∃s t,execute serve Db.empty aging=some s ∧ execute serve s tired=some t ∧
      (t.petOf owner).map (fun p => (p.stat .mood,p.stat .energy))=some (90,60) ∧
      Serial s (commits s tired) t ∧ ∀p∈t.pets,p.Fit := by
  have hrun : (execute serve Db.empty aging).any (fun s => (execute serve s tired).any (fun t : Db =>
      decide ((t.petOf owner).map (fun p => (p.stat .mood,p.stat .energy))=some (90,60))))=true := by
    decide
  obtain ⟨s,hs,hq⟩ := (Option.any_eq_true _ _).mp hrun
  obtain ⟨t,ht,hq⟩ := (Option.any_eq_true _ _).mp hq
  have hmerges : ∀a∈tired,a.2.isMerge=true ∧ a.2.Proper := by
    intro a ha
    simp only [tired,List.mem_cons,List.not_mem_nil,or_false] at ha
    rcases ha with rfl | rfl <;> exact ⟨rfl,Care.commit_proper _ _ _⟩
  obtain ⟨hserial,_,_,hfit,_⟩ := stale_commits_merge s t tired
    (.execute aging (fun a ha _ => aging_proper a ha) (.start rfl) hs) hmerges ht
  exact ⟨s,t,hs,ht,of_decide_eq_true hq,hserial,hfit⟩

/-- Three actions on one snapshot commit a mood that none of their serial executions gives. -/
theorem stale_merge_not_serial :
    ∃s,execute serve Db.empty aging=some s ∧
      ((Care.together 60 [care 0,care 1,care 2] s).user owner).map
        (fun u => (u.today .explore,u.today .feed,u.today .play))=some (1,1,1) ∧
      ((Care.together 60 [care 0,care 1,care 2] s).petOf owner).map (fun p => p.stat .mood)=some 93 ∧
      ∀i j k : Fin 3,[i,j,k].Nodup →
        ((Care.serially 60 [care i,care j,care k] s).petOf owner).map (fun p => p.stat .mood)≠some 93 := by
  have hrun : (execute serve Db.empty aging).any (fun s : Db => decide (
      ((Care.together 60 [care 0,care 1,care 2] s).user owner).map
        (fun u => (u.today .explore,u.today .feed,u.today .play))=some (1,1,1) ∧
      ((Care.together 60 [care 0,care 1,care 2] s).petOf owner).map (fun p => p.stat .mood)=some 93 ∧
      ∀i j k : Fin 3,[i,j,k].Nodup →
        ((Care.serially 60 [care i,care j,care k] s).petOf owner).map (fun p => p.stat .mood)≠some 93))=
      true := by
    decide
  obtain ⟨s,hs,hq⟩ := (Option.any_eq_true _ _).mp hrun
  exact ⟨s,hs,of_decide_eq_true hq⟩

end XiaoQing.QingPet
