import XiaoQing.Pendo.Queue
import XiaoQing.Pendo.QueueUndo

namespace XiaoQing.Pendo

open Framework Commands

variable {B : ZoneBook}

namespace Db

variable {db db' : Db B} {now : Nat} {k : ReminderKey} {p : QueueRow → Bool} {f : LogRow → LogRow}
  {g : QueueRow → QueueRow} {new : QueueRow}

theorem lists_iff : db.lists k=true ↔ db.Lists k := by
  unfold lists Lists
  rw [Option.any_eq_true]
  simp only [Bool.and_eq_true,decide_eq_true_iff]

theorem Sound.of_rows (h : db.Sound) (hitems : db'.items=db.items) (hlogs : db'.logs=db.logs)
    (hunique : UniqueKeys QueueRow.key db'.reminders)
    (hwaiting : ∀r∈db'.reminders,r.waiting → db.Lists r.key)
    (hkeys : ∀k,db.Lists k → k∈db'.reminders.map QueueRow.key) : db'.Sound := by
  have hlists : ∀k,db'.Lists k ↔ db.Lists k := fun k => lists_congr (by unfold item; rw [hitems])
  refine h.of_queue hlogs ⟨hitems ▸ h.queue.items,hunique,fun id => ⟨?_,?_⟩⟩
  · intro r hr _ hw
    exact (hlists _).mpr (hwaiting r hr hw)
  · intro t ht
    exact hkeys _ ((hlists _).mp ht)

theorem Sound.complete (h : db.Sound) (hk : db.Lists k) : k∈db.reminders.map QueueRow.key :=
  (h.queue.matched k.item).complete k.time hk

theorem Sound.settle (h : db.Sound) (hf : ∀r,(f r).key=r.key)
    (hopen : ∀r∈db.reminders,p r → ({r with log := f r.log} : QueueRow).waiting →
      r.waiting=true ∨ db.Lists r.key) : (db.settle p f).Sound := by
  have hkey : ∀r : QueueRow,({r with log := f r.log} : QueueRow).key=r.key := fun r => hf r.log
  refine h.of_rows rfl rfl (h.queue.keys.updateWhere hkey) ?_ ?_
  · intro r hr hw
    obtain ⟨a,ha,rfl⟩ := mem_updateWhere hr
    split at hw
    · rename_i hp
      rw [if_pos hp,hkey]
      rcases hopen a ha hp hw with hw | hl
      · exact h.queue.lists ha hw
      · exact hl
    · rename_i hp
      rw [if_neg hp]
      exact h.queue.lists ha hw
  · intro k hk
    obtain ⟨a,ha,rfl⟩ := List.mem_map.mp (h.complete hk)
    refine List.mem_map.mpr ⟨_,List.mem_map.mpr ⟨a,ha,rfl⟩,?_⟩
    split
    · exact hkey a
    · rfl

theorem Sound.upsert (h : db.Sound) (hitems : db'.items=db.items) (hlogs : db'.logs=db.logs)
    (hrows : db'.reminders=Framework.upsert QueueRow.key new p g db.reminders)
    (hg : ∀r,(g r).key=r.key) (hnew : new.waiting → db.Lists new.key)
    (hwritten : ∀r∈db.reminders,r.key=new.key → p r → (g r).waiting → db.Lists r.key) : db'.Sound := by
  refine h.of_rows hitems hlogs (hrows ▸ h.queue.keys.upsert hg) ?_ ?_
  · intro r hr hw
    rw [hrows] at hr
    rcases mem_upsert_cases hr with hr | rfl | ⟨a,ha,hk,hp,rfl⟩
    · exact h.queue.lists hr hw
    · exact hnew hw
    · rw [hg]
      exact hwritten a ha hk hp hw
  · intro k hk
    rw [hrows,mem_keys_upsert hg]
    exact .inl (h.complete hk)

theorem waiting_iff {r : QueueRow} :
    r.waiting=true ↔ r.log.sentAt=none ∧ r.log.confirmedAt=none := by
  unfold QueueRow.waiting
  rw [Bool.and_eq_true,Option.isNone_iff_eq_none,Option.isNone_iff_eq_none]

theorem listed_of_claimable (h : db.Sound) {r : QueueRow} (hr : r∈db.reminders)
    (hc : Reminders.claimable now r.log=true) : db.Lists r.key := by
  unfold Reminders.claimable at hc
  simp only [Bool.and_eq_true,Option.isNone_iff_eq_none] at hc
  exact h.queue.lists hr (waiting_iff.mpr ⟨hc.1.1.2,hc.1.1.1⟩)

/-! First deliveries -/

theorem claimReminder_sound (h : db.Sound) {leaseSeconds : Nat}
    (hrow : leaseSeconds=0 ∨ (db.rowOf k).isSome=true) :
    (db.claimReminder now k leaseSeconds).1.Sound ∧
      ((db.claimReminder now k leaseSeconds).2.isSome=true → db.Lists k) := by
  unfold claimReminder
  split
  · exact ⟨h,fun hc => by cases hc⟩
  · rename_i hlease
    obtain ⟨r,hr⟩ := Option.isSome_iff_exists.mp (hrow.resolve_left hlease)
    have hkey : r.key=k := row_key hr
    have hmem : r∈db.reminders := mem_of_row hr
    constructor
    · refine h.of_queue rfl ?_
      have hrows : Framework.upsert QueueRow.key
          ⟨db.nextReminder,Reminders.claimedRow k db.drawn (now+leaseSeconds)⟩
          (fun r => Reminders.claimable now r.log)
          (fun r => {r with log := Reminders.LogRow.claim db.drawn (now+leaseSeconds) r.log})
          db.reminders=_ := upsert_of_some hr
      have hsettled := h.settle (f:=Reminders.LogRow.claim db.drawn (now+leaseSeconds))
        (p:=fun r => decide (r.key=k) && Reminders.claimable now r.log) (fun _ => rfl)
        (fun r _ _ hw => .inl hw)
      refine hsettled.queue.frame rfl ?_
      exact hrows
    · rw [hr]
      intro hc
      simp only [Option.all_some] at hc
      split at hc
      · rename_i hclaim
        exact hkey ▸ listed_of_claimable h hmem hclaim
      · cases hc

theorem Sound.settle_closing (h : db.Sound) (hf : ∀r,(f r).key=r.key)
    (hclosing : ∀r,((f r).sentAt=none → r.sentAt=none) ∧ ((f r).confirmedAt=none → r.confirmedAt=none)) :
    (db.settle p f).Sound := by
  refine h.settle hf (fun r _ _ hw => .inl ?_)
  obtain ⟨hsent,hconfirmed⟩ := waiting_iff.mp hw
  exact waiting_iff.mpr ⟨(hclosing r.log).1 hsent,(hclosing r.log).2 hconfirmed⟩

theorem completeReminderClaim_sound (h : db.Sound) (token : Nat) :
    (db.completeReminderClaim now k token).Sound :=
  h.settle_closing (fun _ => rfl) (fun _ => ⟨(fun he => by cases he),fun he => he⟩)

theorem releaseReminderClaim_sound (h : db.Sound) (token : Nat) (retryAt : Option Nat) :
    (db.releaseReminderClaim k token retryAt).Sound :=
  h.settle_closing (fun _ => rfl) (fun _ => ⟨fun he => he,fun he => he⟩)

/-! Repeats -/

theorem claimReminderRepeat_sound (h : db.Sound) {expected leaseSeconds : Nat}
    (hlisted : db.reminders.any (repeatable now k expected)=true → db.Lists k) :
    (db.claimReminderRepeat now k expected leaseSeconds).1.Sound ∧
      ((db.claimReminderRepeat now k expected leaseSeconds).2.isSome=true → db.Lists k) := by
  unfold claimReminderRepeat
  split
  · exact ⟨h,fun hc => by cases hc⟩
  · have hsettled : (db.settle (repeatable now k expected)
        (Reminders.LogRow.claim db.drawn (now+leaseSeconds))).Sound :=
      h.settle_closing (fun _ => rfl) (fun _ => ⟨fun he => he,fun he => he⟩)
    refine ⟨hsettled.frame rfl rfl rfl,fun hc => hlisted ?_⟩
    dsimp only at hc
    split at hc
    · rename_i hcount
      obtain ⟨r,hr,hp⟩ := List.countP_pos_iff.mp (by rw [hcount]; decide)
      exact List.any_eq_true.mpr ⟨r,hr,hp⟩
    · cases hc

theorem completeReminderRepeat_sound (h : db.Sound) (token expected : Nat) :
    (db.completeReminderRepeat now k token expected).Sound :=
  h.settle_closing (fun _ => rfl) (fun _ => ⟨fun he => he,fun he => he⟩)

theorem releaseReminderRepeat_sound (h : db.Sound) (token expected : Nat) (retryAt : Option Nat) :
    (db.releaseReminderRepeat k token expected retryAt).Sound :=
  h.settle_closing (fun _ => rfl) (fun _ => ⟨fun he => he,fun he => he⟩)

/-! Confirmation and expiry -/

theorem confirmFound_sound (h : db.Sound) (c : Confirming) : (db.confirmFound c).Sound :=
  h.settle_closing (fun _ => rfl) (fun _ => ⟨fun he => he,(fun he => by cases he)⟩)

theorem expire_sound (h : db.Sound) : (db.expire now).Sound :=
  h.settle_closing (fun _ => rfl) (fun _ => ⟨fun he => he,(fun he => by cases he)⟩)

theorem insertConfirmed_sound (h : db.Sound) (c : Confirming) : (db.insertConfirmed c k).Sound := by
  refine h.upsert rfl rfl rfl (fun _ => rfl) (fun hw => ?_) (fun r _ _ _ hw => ?_)
  · cases (waiting_iff.mp hw).2
  · cases (waiting_iff.mp hw).2

theorem setFuture_sound (h : db.Sound) {owner : Text} {confirmed : Bool} :
    (db.setFuture now k owner confirmed).Sound := by
  unfold setFuture
  split
  · rename_i hcond
    simp only [Bool.and_eq_true] at hcond
    have hk : db.Lists k := lists_iff.mp hcond.1.2
    have hfilled : Sound ({db with
        reminders := Framework.upsert QueueRow.key ⟨db.nextReminder,Reminders.pendingRow k⟩
          (fun _ => true) (fun r => {r with log := Reminders.LogRow.fill k.time r.log}) db.reminders
        nextReminder := db.nextReminder+1} : Db B) := by
      refine h.upsert rfl rfl rfl (fun _ => rfl) (fun _ => hk) (fun r _ he _ _ => ?_)
      rw [he]
      exact hk
    refine hfilled.settle ?_ (fun r _ hp _ => .inr ?_)
    · intro r
      cases confirmed <;> rfl
    · rw [of_decide_eq_true hp]
      exact (lists_congr rfl).mpr hk
  · exact h

theorem prune_sound (h : db.Sound) {before : Nat}
    (hkept : ∀r∈db.reminders,outdated before r=true → ¬db.Lists r.key) : (db.prune before).Sound := by
  refine h.of_rows rfl rfl (h.queue.keys.sublist (List.filter_sublist.map _)) ?_ ?_
  · intro r hr hw
    exact h.queue.lists (List.mem_filter.mp hr).1 hw
  · intro k hk
    obtain ⟨r,hr,rfl⟩ := List.mem_map.mp (h.complete hk)
    refine List.mem_map.mpr ⟨r,List.mem_filter.mpr ⟨hr,?_⟩,rfl⟩
    cases houtdated : outdated before r with
    | true => exact absurd hk (hkept r hr houtdated)
    | false => rfl

end Db

namespace Queue

variable {s t : Queue B} {call : Nat × QueueAct} {now : Nat}

/-- The steps that do not go wrong: what is inserted, updated or imported stays alive or has no
reminders; a first claim finds its row, and a repeat that could be claimed is still listed by a live
item; and no reminder that is still listed is pruned. -/
def careful (s : Queue B) (call : Nat × QueueAct) : Bool :=
  match call.2 with
  | .insert n _ => s.db.quietNew call.1 n
  | .importBundle owner collections operations => s.db.quietImport call.1 owner collections operations
  | .createCollection c zone children _ => s.db.quietChildren call.1 c zone children
  | .commit i =>
    match s.pending[i]? with
    | some (.update c u) => s.db.quietUpdate c u
    | _ => true
  | .claim k leaseSeconds => decide (leaseSeconds=0) || (s.db.rowOf k).isSome
  | .claimRepeat k expected _ => !s.db.reminders.any (Db.repeatable call.1 k expected) || s.db.lists k
  | .prune before => s.db.reminders.all (fun r => !Db.outdated before r || !s.db.lists r.key)
  | _ => true

structure Tidy (s : Queue B) : Prop where
  sound : s.db.Sound
  edits : ∀owner choice,.undoEdit owner choice∈s.pending → Db.SafeEdit choice
  granted : ∀g∈s.granted,g.2=true

theorem write_tidy (h : Tidy s) {db : Option (Db B)} (hdb : ∀d,db=some d → d.Sound) :
    Tidy (s.write db) where
  sound := by
    cases db with
    | none => exact h.sound
    | some d => exact hdb d rfl
  edits := h.edits
  granted := h.granted

theorem read_tidy (h : Tidy s) {p : Option Pending}
    (hp : ∀owner choice,p=some (.undoEdit owner choice) → Db.SafeEdit choice) : Tidy (s.read p) where
  sound := h.sound
  edits owner choice hm := by
    rcases List.mem_append.mp hm with hm | hm
    · exact h.edits owner choice hm
    · exact hp owner choice (Option.mem_toList.mp hm)
  granted := h.granted

theorem grant_tidy (h : Tidy s) {k : ReminderKey} {claimed : Db B × Option Nat}
    (hc : claimed.1.Sound ∧ (claimed.2.isSome=true → s.db.Lists k)) : Tidy (s.grant k claimed) where
  sound := hc.1
  edits := h.edits
  granted g hg := by
    unfold grant at hg
    dsimp only at hg
    split at hg
    · rename_i hsome
      rcases List.mem_cons.mp hg with rfl | hg
      · exact Db.lists_iff.mpr (hc.2 hsome)
      · exact h.granted g hg
    · exact h.granted g hg

theorem commit_tidy (h : Tidy s) {p : Pending}
    (hp : ∀owner choice,p=.undoEdit owner choice → Db.SafeEdit choice)
    (hquiet : ∀c u,p=.update c u → s.db.quietUpdate c u=true) : Tidy (s.commit now p) := by
  cases p with
  | update c u =>
    exact write_tidy h (fun d hd => Db.commitUpdate_sound h.sound c (hquiet c u rfl) hd)
  | undoDelete owner choice =>
    refine write_tidy h (fun d hd => ?_)
    obtain ⟨⟨d',reply⟩,hc,rfl⟩ := Option.map_eq_some_iff.mp hd
    exact Db.commitDelete_sound h.sound hc
  | undoEdit owner choice =>
    refine write_tidy h (fun d hd => ?_)
    obtain ⟨⟨d',reply⟩,hc,rfl⟩ := Option.map_eq_some_iff.mp hd
    exact Db.commitEdit_sound h.sound (hp owner choice rfl) hc
  | confirm c =>
    have hcommit : s.commit now (.confirm c)=if c.found.isEmpty then
      s.read ((s.db.confirmTarget c).map (.confirmed c)) else s.write (some (s.db.confirmFound c)) := rfl
    rw [hcommit]
    split
    · refine read_tidy h (fun owner choice he => ?_)
      obtain ⟨k,_,hk⟩ := Option.map_eq_some_iff.mp he
      cases hk
    · exact write_tidy h (fun d hd => by cases hd; exact Db.confirmFound_sound h.sound c)
  | confirmed c k =>
    exact write_tidy h (fun d hd => by cases hd; exact Db.insertConfirmed_sound h.sound c)

theorem write_one_tidy (h : Tidy s) {db : Db B} (hdb : db.Sound) : Tidy (s.write (some db)) :=
  write_tidy h (fun d hd => by cases hd; exact hdb)

theorem step_tidy (h : Tidy s) (hok : s.careful call=true) (hs : s.step call=some t) : Tidy t := by
  obtain ⟨now,a⟩ := call
  cases a with
  | insert n log =>
    cases hs
    exact write_tidy h (fun d hd => Db.insertItem_sound h.sound n hok hd)
  | readUpdate c =>
    cases hs
    refine read_tidy h (fun owner choice he => ?_)
    obtain ⟨u,_,hu⟩ := Option.map_eq_some_iff.mp he
    cases hu
  | importBundle owner collections operations =>
    cases hs
    exact write_tidy h (fun d hd => Db.executeImportBundle_sound collections operations h.sound hok hd)
  | createCollection c zone children action =>
    cases hs
    exact write_tidy h (fun d hd =>
      Db.createEventCollection_sound c zone children action h.sound hok hd)
  | updateCollection c =>
    cases hs
    exact write_tidy h (fun d hd => Db.updateCollection_sound c h.sound hd)
  | deleteItem id owner soft log =>
    cases hs
    exact write_tidy h (fun d hd => Db.deleteItem_sound h.sound hd)
  | batchSoftDelete c =>
    cases hs
    exact write_one_tidy h (Db.batchSoftDelete_sound c h.sound)
  | deleteEventInstance id owner =>
    cases hs
    exact write_tidy h (fun d hd => Db.deleteEventInstance_sound h.sound hd)
  | deleteEventCollection id owner cascade log =>
    cases hs
    exact write_tidy h (fun d hd => Db.deleteEventCollection_sound h.sound hd)
  | readUndoDelete owner threshold =>
    cases hs
    exact read_tidy h (fun _ _ he => by cases he)
  | readUndoEdit owner threshold =>
    cases hs
    exact read_tidy h (fun _ _ he => by cases he; exact Db.chooseEdit_safe h.sound threshold)
  | commit i =>
    obtain ⟨p,hp,rfl⟩ := Option.map_eq_some_iff.mp hs
    have hmem : p∈s.pending := List.mem_of_getElem? hp
    have hrest : Tidy ({s with pending := s.pending.eraseIdx i} : Queue B) :=
      ⟨h.sound,fun owner choice hm => h.edits owner choice (List.mem_of_mem_eraseIdx hm),h.granted⟩
    refine commit_tidy hrest (fun owner choice he => h.edits owner choice (he ▸ hmem)) ?_
    rintro c u rfl
    simpa only [careful,hp] using hok
  | listDue =>
    cases hs
    exact ⟨Db.expire_sound h.sound,h.edits,h.granted⟩
  | claim k leaseSeconds =>
    unfold step at hs
    dsimp only at hs
    split at hs
    · cases hs
      refine grant_tidy h (Db.claimReminder_sound h.sound ?_)
      unfold careful at hok
      rcases Bool.or_eq_true _ _ ▸ hok with hz | hrow
      · exact .inl (of_decide_eq_true hz)
      · exact .inr hrow
    · cases hs
  | complete k token =>
    cases hs
    exact write_one_tidy h (Db.completeReminderClaim_sound h.sound token)
  | release k token retryAt =>
    cases hs
    exact write_one_tidy h (Db.releaseReminderClaim_sound h.sound token retryAt)
  | listSent =>
    cases hs
    exact ⟨h.sound,h.edits,h.granted⟩
  | claimRepeat k expected leaseSeconds =>
    unfold step at hs
    dsimp only at hs
    split at hs
    · cases hs
      refine grant_tidy h (Db.claimReminderRepeat_sound h.sound (fun hany => ?_))
      unfold careful at hok
      dsimp only at hok
      rw [hany] at hok
      exact Db.lists_iff.mp hok
    · cases hs
  | completeRepeat k token expected =>
    cases hs
    exact write_one_tidy h (Db.completeReminderRepeat_sound h.sound token expected)
  | releaseRepeat k token expected retryAt =>
    cases hs
    exact write_one_tidy h (Db.releaseReminderRepeat_sound h.sound token expected retryAt)
  | readConfirm item userAction owner remindTime allowFuture =>
    cases hs
    exact read_tidy h (fun _ _ he => by cases he)
  | setFuture k owner confirmed =>
    cases hs
    exact write_one_tidy h (Db.setFuture_sound h.sound)
  | prune before =>
    cases hs
    refine write_one_tidy h (Db.prune_sound h.sound (fun r hr hold hl => ?_))
    have hkept := List.all_eq_true.mp hok r hr
    rw [hold,Db.lists_iff.mpr hl] at hkept
    cases hkept

theorem new_tidy (zone : Text → Zone B) : Tidy (Queue.new zone) where
  sound := ⟨⟨List.nodup_nil,List.nodup_nil,fun _ => ⟨(fun _ hr => by cases hr),
    fun t ht => by obtain ⟨i,hi,_⟩ := ht; cases hi⟩⟩,fun _ hl => by cases hl⟩
  edits _ _ hm := by cases hm
  granted _ hg := by cases hg

end Queue

/-- While every step is careful, the waiting rows are those of live items' reminders, every reminder of a
live event or task has its one row, and no reminder is claimed that no live item lists. -/
theorem reminder_queue_matches (zone : Text → Zone B) (s : Queue B)
    (h : Reach Queue.step (fun s call => s.careful call=true) (·=Queue.new zone) s) :
    (∀r∈s.db.reminders,r.waiting → s.db.lists r.key=true) ∧
    (∀i∈s.db.items,i.live → i.kind∈[.event,.task] → ∀t∈i.remindTimes,
      s.db.reminders.countP (fun r => r.key=⟨i.id,t⟩)=1) ∧
    ∀g∈s.granted,g.2=true := by
  have htidy : Queue.Tidy s := h.invariant (P:=Queue.Tidy) (fun _ h0 => h0 ▸ Queue.new_tidy zone)
    (fun _ _ _ hp hok hs => Queue.step_tidy hp hok hs)
  refine ⟨fun r hr hw => Db.lists_iff.mpr (htidy.sound.queue.lists hr hw),?_,htidy.granted⟩
  intro i hi hlive _ t ht
  have hitem : s.db.item i.id=some i := htidy.sound.queue.items.row_of_mem hi
  have hlisted : s.db.Lists ⟨i.id,t⟩ := ⟨i,hitem,hlive,ht⟩
  obtain ⟨r,hr,hkey⟩ := List.mem_map.mp (htidy.sound.complete hlisted)
  have hkeys := htidy.sound.queue.keys
  refine (hkeys.countP_eq_one (k:=⟨i.id,t⟩) (fun _ hp => of_decide_eq_true hp)).mpr ⟨r,?_,?_⟩
  · exact hkey ▸ hkeys.row_of_mem hr
  · exact decide_eq_true hkey

/-! Runs on a book with one zone -/

def greenwich : ZoneBook := ⟨fun _ => true,fun _ w => [w]⟩

def greenwichTime : Text → Zone greenwich := fun _ => ⟨['U','T','C'],rfl⟩

def dueTask : NewItem :=
  ⟨['t'],['u'],.task,0,Fields.of .remindTimes (.stamps [.utc 100])⟩

def pollAndClaim : List (Nat × QueueAct) :=
  [(90,.insert dueTask none),(100,.listDue),(101,.claim ⟨['t'],100⟩ 60),
    (102,.complete ⟨['t'],100⟩ 1)]

theorem reminder_queue_matches_example :
    ∃s : Queue greenwich,executeIf Queue.step Queue.careful (Queue.new greenwichTime) pollAndClaim=some s ∧
      s.granted=[(⟨['t'],100⟩,true)] ∧
      s.db.reminders.countP (fun r => r.key=⟨['t'],100⟩)=1 := by
  have hrun : (executeIf Queue.step Queue.careful (Queue.new greenwichTime) pollAndClaim).any (fun s =>
      decide (s.granted=[(⟨['t'],100⟩,true)]) && s.db.items.any (fun i => i.live &&
        decide (i.id=['t']) && decide (i.kind∈[.event,.task]) && decide (100∈i.remindTimes)))=true := by
    decide
  obtain ⟨s,hs,hq⟩ := (Option.any_eq_true _ _).mp hrun
  simp only [Bool.and_eq_true,decide_eq_true_iff,List.any_eq_true] at hq
  obtain ⟨hgranted,i,hi,⟨⟨hlive,hid⟩,hkind⟩,ht⟩ := hq
  have hmatch := reminder_queue_matches greenwichTime s (Reach.executeIf pollAndClaim (.start rfl) hs)
  exact ⟨s,hs,hgranted,hid ▸ hmatch.2.1 i hi hlive hkind 100 ht⟩

def deleteThenClaim : List (Nat × QueueAct) :=
  [(90,.insert dueTask none),(100,.listDue),(101,.deleteItem ['t'] ['u'] true none),
    (102,.claim ⟨['t'],100⟩ 60)]

/-- The claim of a deleted task succeeds and writes its row again. -/
theorem deleted_reminder_is_claimed :
    ∃s : Queue greenwich,Reach Queue.step Free (·=Queue.new greenwichTime) s ∧
      (∃r∈s.db.reminders,r.waiting=true ∧ s.db.lists r.key=false) ∧ (⟨['t'],100⟩,false)∈s.granted := by
  have hrun : (execute Queue.step (Queue.new greenwichTime) deleteThenClaim).any (fun s =>
      s.db.reminders.any (fun r => r.waiting && !s.db.lists r.key) &&
        decide ((⟨['t'],100⟩,false)∈s.granted))=true := by
    decide
  obtain ⟨s,hs,hq⟩ := (Option.any_eq_true _ _).mp hrun
  simp only [Bool.and_eq_true,decide_eq_true_iff,List.any_eq_true,Bool.not_eq_true'] at hq
  exact ⟨s,.execute deleteThenClaim (fun _ _ _ => trivial) (.start rfl) hs,hq⟩

end XiaoQing.Pendo
