import XiaoQing.Pendo.QueueWrites

namespace XiaoQing.Pendo.Db

open Framework Commands

variable {B : ZoneBook} {db db' : Db B} {now : Nat} {id owner : Text} {i : Item} {u : Prepared}
  {log : Option LogSpec}

/-! Deletions -/

theorem retire_sets (now : Nat) (bump : Bool) :
    Sets (if bump then Item.bump (markDeleted now) else Item.write (markDeleted now))
      (markDeleted now) := by
  split
  · exact sets_bump _
  · exact sets_write _

theorem deleted_markDeleted (cells : Cells) : (cells.write (markDeleted now)).value .deleted=.flag true := by
  rw [Cells.write_value]
  rfl

theorem deleted_markRestored (cells : Cells) :
    (cells.write (markRestored now)).value .deleted=.flag false := by
  rw [Cells.write_value]
  rfl

theorem retire_sound (bump : Bool) (h : db.Sound) : (db.retire now bump id).Sound := by
  have hs := retire_sets now bump
  refine Sound.unindex ?_
  refine h.of_queue ?_ (Materialised.drop (writeItem_unique hs.id h.queue.items)
    (by rw [writeItem_reminders]; exact h.queue.keys)
    (fun id' hne => writeItem_others hs.id hne (h.queue.matched id')) ?_)
  · rw [dropReminders_logs,writeItem_logs]
  · intro t ht
    obtain ⟨i,_,hlive,_⟩ := (lists_writeItem_self hs.id).mp ht
    have hgone := of_decide_eq_true hlive
    rw [hs.cells i,deleted_markDeleted] at hgone
    cases hgone

theorem deleteRow_sound (h : db.Sound) :
    (((db.deleteRow now id).dropReminders id true).unindex id).Sound := by
  have hrow : ∀id'≠id,(db.deleteRow now id).item id'=db.item id' := by
    intro id' hne
    unfold item
    rw [deleteRow_items]
    exact row_filter_ne hne
  refine Sound.unindex ?_
  refine h.of_queue (by rw [dropReminders_logs,deleteRow_logs]) (Materialised.drop ?_ ?_ ?_ ?_)
  · rw [deleteRow_items]
    exact h.queue.items.sublist (List.filter_sublist.map _)
  · rw [deleteRow_reminders]
    exact h.queue.keys
  · exact fun id' hne => (h.queue.matched id').congr (fun t => lists_congr (hrow id' hne))
      (fun _ _ => by rw [deleteRow_reminders])
  · rintro t ⟨i,hi,_⟩
    unfold item at hi
    rw [deleteRow_items,row_filter_self] at hi
    cases hi

theorem deleteItem_sound {soft : Bool} (h : db.Sound)
    (hc : db.deleteItem now id owner soft log=some db') : db'.Sound := by
  unfold deleteItem at hc
  split at hc
  · cases hc
    refine Sound.logFromSpec ?_ (fun _ _ => remembers_nothing _ _ _ _)
    split
    · exact retire_sound true h
    · exact deleteRow_sound h
  · cases hc

theorem foldl_retire_sound (bump : Bool) (ids : List Text) (h : db.Sound) :
    (ids.foldl (fun db id => retire db now bump id) db).Sound :=
  Sound.foldl (fun _ _ h => retire_sound bump h) ids h

theorem batchSoftDelete_sound (c : BatchDelete) (h : db.Sound) : (db.batchSoftDelete now c).Sound := by
  unfold batchSoftDelete
  split
  · exact foldl_retire_sound true _ h
  · refine Sound.foldl (fun _ id h => h.addLog (remembers_nothing _ _ _ _)) _ ?_
    exact (foldl_retire_sound true _ h).frame rfl rfl rfl

theorem deleteEventInstance_sound (h : db.Sound)
    (hc : db.deleteEventInstance now id owner=some db') : db'.Sound := by
  obtain ⟨i,_,rfl⟩ := Option.map_eq_some_iff.mp hc
  split
  · exact (retire_sound true h.markHeader).addLog (remembers_nothing _ _ _ _)
  · exact (retire_sound true h).addLog (remembers_nothing _ _ _ _)

theorem deleteEventCollection_sound {cascade : Bool} (h : db.Sound)
    (hc : db.deleteEventCollection now id owner cascade log=some db') : db'.Sound := by
  unfold deleteEventCollection at hc
  split at hc
  · cases hc
    refine Sound.logFromSpec ?_ (fun _ _ => remembers_nothing _ _ _ _)
    exact foldl_retire_sound false _ h.markHeader
  · cases hc

/-! Undoing a deletion -/

theorem revive_sound (h : db.Sound) : (db.revive now id).Sound := by
  have hs := sets_bump (markRestored now)
  refine Sound.refreshFts ?_
  cases hi : db.item id with
  | none =>
    have hsame : db.writeItem now id (Item.bump (markRestored now))=db := by
      unfold writeItem
      rw [hi]
    rw [hsame]
    unfold syncReminderLogs
    rw [hi]
    exact h
  | some i =>
    rw [item_writeItem_self hs.id,hi]
    refine h.of_queue (by rw [syncReminderLogs_logs,writeItem_logs]) (h.queue.write_sync hs.id hi ?_)
    exact fun t => Quiet.lists (.inl (decide_eq_true (deleted_markRestored i.cells)))

theorem restoreDeleted_sound (ids : List Text) (h : db.Sound) :
    (db.restoreDeleted now owner ids).1.Sound :=
  Sound.foldl (fun _ _ h => revive_sound h) _ h

theorem Sound.relog (h : db.Sound) (hitems : db'.items=db.items)
    (hreminders : db'.reminders=db.reminders)
    (hlogs : ∀l∈db'.logs,(∃a∈db.logs,l.details=a.details) ∨ Remembers l.details) : db'.Sound where
  queue := h.queue.frame hitems hreminders
  logs l hl := by
    rcases hlogs l hl with ⟨a,ha,he⟩ | hl
    · rw [he]
      exact h.logs a ha
    · exact hl

theorem markUndone_sound {ids : List Nat} {source : Change} {itemType : Option Text} {item : Text}
    {restored : List Text} (h : db.Sound)
    (hc : db.markUndone now owner ids source itemType item restored=some db') : db'.Sound := by
  unfold markUndone at hc
  dsimp only at hc
  split at hc
  · cases hc
  · cases hc
    refine h.relog rfl rfl (fun l hl => ?_)
    obtain ⟨a,ha,rfl⟩ := mem_updateWhere hl
    have hdetails : ∀p : Bool,(if p then {a with undone := some (now,db.nextLog)} else a).details=
        a.details := by
      intro p
      split <;> rfl
    rw [hdetails]
    rcases List.mem_append.mp ha with ha | ha
    · exact .inl ⟨a,ha,rfl⟩
    · rw [List.mem_singleton.mp ha]
      exact .inr (remembers_nothing _ _ _ _)

variable {l : Log}

variable {reply : Reply}

theorem undoFromLog_sound {r : Restoration} (h : db.Sound)
    (hc : db.undoFromLog now owner l r=some (db',reply)) : db'.Sound := by
  obtain ⟨db₁,hmark,he⟩ := Option.map_eq_some_iff.mp hc
  cases he
  refine markUndone_sound (restoreDeleted_sound _ ?_) hmark
  split
  · exact h
  · exact h.markHeader

theorem undoFromItemRow_sound (h : db.Sound) : (db.undoFromItemRow now owner i).1.Sound := by
  unfold undoFromItemRow
  dsimp only
  split
  · exact restoreDeleted_sound _ h
  · exact (restoreDeleted_sound _ h).addLog (remembers_nothing _ _ _ _)

theorem commitDelete_sound {choice : DeleteChoice} (h : db.Sound)
    (hc : db.commitDelete now owner choice=some (db',reply)) : db'.Sound := by
  cases choice with
  | nothing =>
    cases hc
    exact h
  | fromLog l r => exact undoFromLog_sound h hc
  | fromItemRow i =>
    have he : (db.undoFromItemRow now owner i).1=db' := congrArg Prod.fst (Option.some.inj hc)
    exact he ▸ undoFromItemRow_sound h

/-! Undoing an edit -/

theorem Alive.of_owned {p : Item → Bool} (h : db.owned owner id (fun i => i.live && p i)) :
    db.Alive id := by
  obtain ⟨i,hi,hp⟩ := (Option.any_eq_true _ _).mp h
  rw [Bool.and_eq_true,Bool.and_eq_true] at hp
  exact ⟨i,hi,hp.2.1⟩

theorem restoreRow_sound (h : db.Sound) (halive : db.Alive id) (hu : KeepsLive u.fields) :
    (db.restoreRow now u id).Sound := by
  obtain ⟨i,hi,hlive⟩ := halive
  exact h.set_row now (sets_bump u) hi hlive (.inl ((sets_bump u).live hu hlive))

theorem restoreRow_alive {id' : Text} (h : db.Alive id') (hu : KeepsLive u.fields) :
    (db.restoreRow now u id).Alive id' := by
  have hwrite : (db.writeItem now id (Item.bump u)).Alive id' := h.writeItem (sets_bump u) hu
  refine hwrite.congr ?_
  unfold restoreRow item
  rw [syncNamed_items]

theorem foldl_restoreRow_sound (now : Nat) (ids : List Text) (h : db.Sound) (halive : ∀id∈ids,db.Alive id)
    (hu : KeepsLive u.fields) : (ids.foldl (fun db id => restoreRow db now u id) db).Sound := by
  induction ids generalizing db with
  | nil => exact h
  | cons id ids ih =>
    exact ih (restoreRow_sound h (halive id (by simp)) hu)
      (fun id' hm => restoreRow_alive (halive id' (List.mem_cons_of_mem _ hm)) hu)

theorem writeDetails_sound {n : Nat} {details : Details} (h : db.Sound) (hd : Remembers details) :
    (db.writeDetails n details).Sound := by
  refine h.relog rfl rfl (fun l hl => ?_)
  obtain ⟨a,ha,rfl⟩ := mem_updateWhere hl
  split
  · exact .inr hd
  · exact .inl ⟨a,ha,rfl⟩

theorem previous_mem {item : Text} {n : Nat} {p : Action → Bool}
    (h : db.previous owner item n p=some l) : l∈db.logs :=
  mem_rank.mp (List.mem_of_find?_eq_some h)

theorem rebaseItem_sound {item : Text} {version : Nat} (h : db.Sound) :
    (db.rebaseItem owner item l version).Sound := by
  unfold rebaseItem
  split
  · exact h
  · rename_i before hprevious
    have hbefore := h.logs before (previous_mem hprevious)
    split
    · exact writeDetails_sound h ⟨hbefore.own,hbefore.children⟩
    · exact h

theorem restoreEdit_sound {r : ItemRestoration} (h : db.Sound)
    (hu : KeepsLive r.values.fields) (hc : db.restoreEdit now owner r=some (db',reply)) :
    db'.Sound := by
  unfold restoreEdit at hc
  split at hc
  · rename_i hall
    obtain ⟨db₁,hmark,he⟩ := Option.map_eq_some_iff.mp hc
    cases he
    have halive : ∀id∈r.ids,db.Alive id :=
      fun id hm => Alive.of_owned (List.all_eq_true.mp hall id hm)
    have hrows := foldl_restoreRow_sound now r.ids h halive hu
    refine markUndone_sound ?_ hmark
    have hfound : ∀p : Bool,(if p then r.ids.foldl refreshFts
        (r.ids.foldl (fun db id => restoreRow db now r.values id) db)
        else r.ids.foldl (fun db id => restoreRow db now r.values id) db).Sound := by
      intro p
      split
      · exact Sound.foldl (fun _ _ h => h.refreshFts) r.ids hrows
      · exact hrows
    split
    · exact rebaseItem_sound (hfound _)
    · exact hfound _
  · cases hc
    exact h

theorem keepsLive_stamped {v : Fields} (h : KeepsLive v) :
    KeepsLive (v.merge (stampNow now .updatedAt)) := h

theorem prepareSnapshots_mem {children : List (Text × Snapshot)} {l : List (Text × Prepared)}
    (hc : prepareSnapshots now children=some l) :
    ∀e∈l,∃snapshot,(e.1,snapshot)∈children ∧
      e.2.fields=snapshot.oldValues.merge (stampNow now .updatedAt) := by
  induction children generalizing l with
  | nil =>
    cases hc
    simp
  | cons child children ih =>
    unfold prepareSnapshots at hc
    rw [List.mapM_cons] at hc
    obtain ⟨first,hfirst,hc⟩ := Option.bind_eq_some_iff.mp hc
    obtain ⟨others,hothers,hc⟩ := Option.bind_eq_some_iff.mp hc
    cases hc
    obtain ⟨u,hu,rfl⟩ := Option.map_eq_some_iff.mp hfirst
    intro e he
    rcases List.mem_cons.mp he with rfl | he
    · exact ⟨child.2,by simp,prepareData_fields hu⟩
    · obtain ⟨snapshot,hmem,hfields⟩ := ih hothers e he
      exact ⟨snapshot,List.mem_cons_of_mem _ hmem,hfields⟩

theorem foldl_restoreChild_sound (children : List (Text × Prepared)) (h : db.Sound)
    (hall : ∀e∈children,db.Alive e.1 ∧ KeepsLive e.2.fields) :
    (children.foldl (fun db child => restoreChild db now child) db).Sound := by
  induction children generalizing db with
  | nil => exact h
  | cons e children ih =>
    obtain ⟨halive,hu⟩ := hall e (by simp)
    have hrow : (db.restoreRow now e.2 e.1).Sound := restoreRow_sound h halive hu
    refine ih hrow.refreshFts (fun e' hm => ?_)
    obtain ⟨halive',hu'⟩ := hall e' (List.mem_cons_of_mem _ hm)
    have hrestored : (db.restoreRow now e.2 e.1).Alive e'.1 := restoreRow_alive halive' hu
    refine ⟨hrestored.congr ?_,hu'⟩
    unfold item restoreChild
    rw [refreshFts_items]
    rfl

theorem rebaseCollection_sound {version : Nat} (h : db.Sound) :
    (db.rebaseCollection owner l version).Sound := by
  unfold rebaseCollection
  split
  · exact h
  · rename_i before hprevious
    have hbefore := h.logs before (previous_mem hprevious)
    split
    · refine writeDetails_sound h ⟨hbefore.own,fun e he => ?_⟩
      obtain ⟨child,hm,rfl⟩ := List.mem_map.mp he
      have hchild := hbefore.children child hm
      dsimp only
      split
      · split
        · exact hchild
        · exact hchild
      · exact hchild
    · exact h

theorem restoreCollectionEdit_sound (h : db.Sound)
    (hl : Remembers l.details) (hc : db.restoreCollectionEdit now owner l=some (db',reply)) :
    db'.Sound := by
  unfold restoreCollectionEdit at hc
  dsimp only at hc
  split at hc
  · rename_i hchecked
    rw [Bool.and_eq_true] at hchecked
    obtain ⟨children,hchildren,hc⟩ := Option.bind_eq_some_iff.mp hc
    obtain ⟨values,_,hc⟩ := Option.bind_eq_some_iff.mp hc
    obtain ⟨db₁,hmark,he⟩ := Option.map_eq_some_iff.mp hc
    cases he
    refine markUndone_sound (rebaseCollection_sound (Sound.writeHeader ?_)) hmark
    refine foldl_restoreChild_sound children h (fun e he => ?_)
    obtain ⟨snapshot,hmem,hfields⟩ := prepareSnapshots_mem hchildren e he
    refine ⟨Alive.of_owned (List.all_eq_true.mp hchecked.2 _ hmem),?_⟩
    rw [hfields]
    exact keepsLive_stamped (hl.children _ hmem)
  · cases hc
    exact h

def SafeEdit : EditChoice → Prop
  | .collection l => Remembers l.details
  | .items r => KeepsLive r.values.fields
  | _ => True

theorem commitEdit_sound {choice : EditChoice} (h : db.Sound) (hs : SafeEdit choice)
    (hc : db.commitEdit now owner choice=some (db',reply)) : db'.Sound := by
  cases choice with
  | refused =>
    cases hc
    exact h
  | raised => cases hc
  | collection l => exact restoreCollectionEdit_sound h hs hc
  | items r => exact restoreEdit_sound h hs hc

theorem normalizeItemDatetimes_eq {kind : Kind} {zone : Text} {v w : Fields}
    (h : normalizeItemDatetimes B kind zone v=some w) : ∃source,
      sourceZone B kind zone v=some source ∧
        ∀c,w c=(v c).bind (normalizeCell B kind zone source c) := by
  obtain ⟨source,hsource,h⟩ := Option.bind_eq_some_iff.mp h
  split at h
  · cases h
    exact ⟨source,hsource,fun _ => rfl⟩
  · cases h

theorem normalizeCell_deleted (kind : Kind) (zone source : Text) (v : Value) :
    normalizeCell B kind zone source .deleted v=some v := by
  unfold normalizeCell
  rw [if_neg (by decide)]
  split
  · rfl
  · rw [if_neg (by decide),if_neg]
    cases kind <;> decide

theorem restoreValues_keepsLive {first : Text} {oldValues : Fields} (h : KeepsLive oldValues)
    (hc : db.restoreValues now owner first oldValues=some u) : KeepsLive u.fields := by
  obtain ⟨i,_,hc⟩ := Option.bind_eq_some_iff.mp hc
  obtain ⟨normalized,hnormal,hc⟩ := Option.bind_eq_some_iff.mp hc
  obtain ⟨source,_,hcells⟩ := normalizeItemDatetimes_eq hnormal
  intro v hv
  rw [prepareData_fields hc] at hv
  unfold Fields.only at hv
  split at hv
  · rw [hcells] at hv
    obtain ⟨w,hw,hv⟩ := Option.bind_eq_some_iff.mp hv
    rw [normalizeCell_deleted] at hv
    cases hv
    refine h v ?_
    simpa [Fields.merge,Fields.of,Fields.without,stampNow] using hw
  · cases hv

theorem latest_mem {p : Log → Bool} (h : db.latest p=some l) : l∈db.logs :=
  mem_rank.mp (List.mem_of_find?_eq_some h)

theorem chooseEdit_safe (h : db.Sound) (threshold : Nat) :
    SafeEdit (db.chooseEdit now owner threshold) := by
  unfold chooseEdit
  split
  · trivial
  · rename_i l hl
    have hremembers := h.logs l (latest_mem hl)
    split
    · exact hremembers
    · split
      · rename_i oldValues version hold hversion
        split
        · trivial
        · dsimp only
          split
          · trivial
          · split
            · trivial
            · rename_i values hvalues
              exact restoreValues_keepsLive (hremembers.own oldValues hold) hvalues
      · trivial

end XiaoQing.Pendo.Db
