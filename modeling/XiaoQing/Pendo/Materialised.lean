import XiaoQing.Pendo.Undo

/-! What each write does to the table it is for, and which tables it leaves alone. -/

namespace XiaoQing.Pendo.Db

open Framework Commands

variable {B : ZoneBook} {db : Db B} {now : Nat} {id id' : Text} {f : Item → Item} {bump dates : Bool}
  {ids : List Text} {k : ReminderKey} {u : Fields} {times : List Nat}

/-! Triggers write headers -/

@[simp] theorem touchCollections_items : (db.touchCollections now dates ids).items=db.items := rfl
@[simp] theorem touchCollections_logs : (db.touchCollections now dates ids).logs=db.logs := rfl
@[simp] theorem touchCollections_index : (db.touchCollections now dates ids).index=db.index := rfl
@[simp] theorem touchCollections_reminders :
    (db.touchCollections now dates ids).reminders=db.reminders := rfl
@[simp] theorem touchCollections_zone : (db.touchCollections now dates ids).zone=db.zone := rfl
@[simp] theorem touchCollections_nextLog : (db.touchCollections now dates ids).nextLog=db.nextLog := rfl

/-! Items -/

theorem writeItem_items :
    (db.writeItem now id f).items=updateWhere (fun i => i.id=id) f db.items := by
  unfold writeItem
  cases h : db.item id with
  | none =>
    refine (updateWhere_eq_self (fun i hi => ?_)).symm
    simpa using row_eq_none h i hi
  | some old => rfl

@[simp] theorem writeItem_logs : (db.writeItem now id f).logs=db.logs := by
  unfold writeItem
  split <;> rfl

@[simp] theorem writeItem_reminders : (db.writeItem now id f).reminders=db.reminders := by
  unfold writeItem
  split <;> rfl

theorem item_writeItem_self (hf : ∀i,(f i).id=i.id) :
    (db.writeItem now id f).item id=(db.item id).map f := by
  unfold item
  rw [writeItem_items,row_updateWhere hf]
  cases h : row Item.id db.items id with
  | none => rfl
  | some i => simp [row_key h]

theorem item_writeItem_of_ne (hf : ∀i,(f i).id=i.id) (h : id'≠id) :
    (db.writeItem now id f).item id'=db.item id' := by
  unfold item
  rw [writeItem_items]
  refine row_updateWhere_of_ne hf (fun i hi he => h ?_)
  rw [←he,of_decide_eq_true hi]

theorem writeItem_unique (hf : ∀i,(f i).id=i.id) (h : UniqueKeys Item.id db.items) :
    UniqueKeys Item.id (db.writeItem now id f).items := by
  rw [writeItem_items]
  exact h.updateWhere hf

theorem deleteRow_items : (db.deleteRow now id).items=db.items.filter (·.id≠id) := by
  unfold deleteRow
  cases h : db.item id with
  | none =>
    refine (List.filter_eq_self.mpr (fun i hi => ?_)).symm
    simpa using row_eq_none h i hi
  | some old => rfl

@[simp] theorem deleteRow_reminders : (db.deleteRow now id).reminders=db.reminders := by
  unfold deleteRow
  split <;> rfl

@[simp] theorem deleteRow_logs : (db.deleteRow now id).logs=db.logs := by
  unfold deleteRow
  split <;> rfl

@[simp] theorem write_id (u : Prepared) (i : Item) : (i.write u).id=i.id := rfl
@[simp] theorem bump_id (u : Prepared) (i : Item) : (i.bump u).id=i.id := rfl
@[simp] theorem write_cells (u : Prepared) (i : Item) : (i.write u).cells=i.cells.write u := rfl
@[simp] theorem bump_cells (u : Prepared) (i : Item) : (i.bump u).cells=i.cells.write u := rfl

/-! The index -/

@[simp] theorem unindex_items : (db.unindex id).items=db.items := rfl
@[simp] theorem unindex_reminders : (db.unindex id).reminders=db.reminders := rfl
@[simp] theorem unindex_collections : (db.unindex id).collections=db.collections := rfl
@[simp] theorem unindex_logs : (db.unindex id).logs=db.logs := rfl
@[simp] theorem unindex_nextLog : (db.unindex id).nextLog=db.nextLog := rfl

@[simp] theorem refreshFts_items : (db.refreshFts id).items=db.items := by
  unfold refreshFts
  split <;> rfl

@[simp] theorem refreshFts_reminders : (db.refreshFts id).reminders=db.reminders := by
  unfold refreshFts
  split <;> rfl

@[simp] theorem refreshFts_logs : (db.refreshFts id).logs=db.logs := by
  unfold refreshFts
  split <;> rfl

/-! The queue -/

variable {all : Bool}

@[simp] theorem dropReminders_items : (db.dropReminders id all).items=db.items := rfl
@[simp] theorem dropReminders_collections :
    (db.dropReminders id all).collections=db.collections := rfl
@[simp] theorem dropReminders_logs : (db.dropReminders id all).logs=db.logs := rfl
@[simp] theorem dropReminders_index : (db.dropReminders id all).index=db.index := rfl
@[simp] theorem dropReminders_nextLog : (db.dropReminders id all).nextLog=db.nextLog := rfl

structure QueueOnly (db db' : Db B) : Prop where
  items : db'.items=db.items
  collections : db'.collections=db.collections
  logs : db'.logs=db.logs
  index : db'.index=db.index
  zone : db'.zone=db.zone
  nextLog : db'.nextLog=db.nextLog

theorem foldl_materialise (id : Text) (times : List Nat) (db : Db B) :
    QueueOnly db (times.foldl (fun db t => db.materialise ⟨id,t⟩) db) := by
  induction times generalizing db with
  | nil => exact ⟨rfl,rfl,rfl,rfl,rfl,rfl⟩
  | cons t times ih =>
    obtain ⟨hitems,hcollections,hlogs,hindex,hzone,hnext⟩ := ih (db.materialise ⟨id,t⟩)
    exact ⟨hitems,hcollections,hlogs,hindex,hzone,hnext⟩

theorem syncReminderLogs_only : QueueOnly db (db.syncReminderLogs id times) := by
  unfold syncReminderLogs
  split
  · exact ⟨rfl,rfl,rfl,rfl,rfl,rfl⟩
  · obtain ⟨hitems,hcollections,hlogs,hindex,hzone,hnext⟩ := foldl_materialise id times.dedup
      ({db with reminders := db.reminders.filter (fun r => !r.dropped id times)} : Db B)
    exact ⟨hitems,hcollections,hlogs,hindex,hzone,hnext⟩

theorem syncNamed_only : QueueOnly db (db.syncNamed id u) := by
  unfold syncNamed
  split
  · exact syncReminderLogs_only
  · exact ⟨rfl,rfl,rfl,rfl,rfl,rfl⟩

@[simp] theorem syncReminderLogs_items : (db.syncReminderLogs id times).items=db.items :=
  syncReminderLogs_only.items
@[simp] theorem syncReminderLogs_collections :
    (db.syncReminderLogs id times).collections=db.collections := syncReminderLogs_only.collections
@[simp] theorem syncReminderLogs_logs : (db.syncReminderLogs id times).logs=db.logs :=
  syncReminderLogs_only.logs
@[simp] theorem syncReminderLogs_index : (db.syncReminderLogs id times).index=db.index :=
  syncReminderLogs_only.index
@[simp] theorem syncReminderLogs_nextLog : (db.syncReminderLogs id times).nextLog=db.nextLog :=
  syncReminderLogs_only.nextLog
@[simp] theorem syncNamed_items : (db.syncNamed id u).items=db.items := syncNamed_only.items
@[simp] theorem syncNamed_collections : (db.syncNamed id u).collections=db.collections :=
  syncNamed_only.collections
@[simp] theorem syncNamed_logs : (db.syncNamed id u).logs=db.logs := syncNamed_only.logs
@[simp] theorem syncNamed_index : (db.syncNamed id u).index=db.index := syncNamed_only.index
@[simp] theorem syncNamed_zone : (db.syncNamed id u).zone=db.zone := syncNamed_only.zone
@[simp] theorem syncNamed_nextLog : (db.syncNamed id u).nextLog=db.nextLog := syncNamed_only.nextLog

/-! Logs -/

section

variable {user item : Text} {action : Action} {itemType : Option Text} {details : Details}
  {spec : Option LogSpec} {added : LogSpec → Details}

@[simp] theorem addLog_items : (db.addLog user action itemType item details now).items=db.items := rfl
@[simp] theorem addLog_reminders :
    (db.addLog user action itemType item details now).reminders=db.reminders := rfl
@[simp] theorem addLog_collections :
    (db.addLog user action itemType item details now).collections=db.collections := rfl
@[simp] theorem addLog_index : (db.addLog user action itemType item details now).index=db.index := rfl

@[simp] theorem logFromSpec_zone : (db.logFromSpec now spec item itemType added).zone=db.zone := by
  cases spec <;> rfl

end

end XiaoQing.Pendo.Db

namespace XiaoQing.Pendo.Db

open Framework Commands

variable {B : ZoneBook} {db db' : Db B} {now : Nat} {id : Text} {i : Item} {f : Item → Item}
  {k : ReminderKey} {r : QueueRow} {times : List Nat} {u : Prepared}

def Lists (db : Db B) (k : ReminderKey) : Prop :=
  ∃i,db.item k.item=some i ∧ i.live ∧ k.time∈i.remindTimes

structure MatchedAt (db : Db B) (id : Text) : Prop where
  queued : ∀r∈db.reminders,r.key.item=id → r.waiting → db.Lists r.key
  complete : ∀t,db.Lists ⟨id,t⟩ → ⟨id,t⟩∈db.reminders.map QueueRow.key

structure Materialised (db : Db B) : Prop where
  items : UniqueKeys Item.id db.items
  keys : UniqueKeys QueueRow.key db.reminders
  matched : ∀id,db.MatchedAt id

theorem Materialised.lists (h : db.Materialised) (hr : r∈db.reminders) (hw : r.waiting) :
    db.Lists r.key := (h.matched _).queued r hr rfl hw

theorem lists_congr (h : db'.item k.item=db.item k.item) : db'.Lists k ↔ db.Lists k := by
  unfold Lists
  rw [h]

theorem MatchedAt.congr (h : db.MatchedAt id) (hlists : ∀t,db'.Lists ⟨id,t⟩ ↔ db.Lists ⟨id,t⟩)
    (hrows : ∀r : QueueRow,r.key.item=id → (r∈db'.reminders ↔ r∈db.reminders)) :
    db'.MatchedAt id where
  queued r hr hid hw := by
    have hk : r.key=⟨id,r.key.time⟩ := by rw [←hid]
    rw [hk,hlists,←hk]
    exact h.queued r ((hrows r hid).mp hr) hid hw
  complete t ht := by
    obtain ⟨r,hr,hk⟩ := List.mem_map.mp (h.complete t ((hlists t).mp ht))
    exact List.mem_map.mpr ⟨r,(hrows r (by rw [hk])).mpr hr,hk⟩

theorem Materialised.frame (h : db.Materialised) (hitems : db'.items=db.items)
    (hreminders : db'.reminders=db.reminders) : db'.Materialised where
  items := hitems ▸ h.items
  keys := hreminders ▸ h.keys
  matched id := (h.matched id).congr (fun t => lists_congr (by unfold item; rw [hitems]))
    (fun r _ => by rw [hreminders])

/-! Synchronisation -/

theorem materialise_keys (h : UniqueKeys QueueRow.key db.reminders) :
    UniqueKeys QueueRow.key (db.materialise k).reminders :=
  h.upsert (by intro r; rfl)

theorem mem_materialise (h : r∈(db.materialise k).reminders) : r∈db.reminders ∨ r.key=k := by
  refine mem_upsert ?_ h
  exact fun _ => rfl

structure Synced (id : Text) (times : List Nat) (before after : List QueueRow) : Prop where
  mem : ∀r∈after,r∈before ∨ ∃t∈times,r.key=⟨id,t⟩
  others : ∀r∈before,r.key.item≠id → r∈after
  keys : ∀k,k∈after.map QueueRow.key ↔
    k∈before.map QueueRow.key ∨ ∃t∈times,k=⟨id,t⟩
  unique : UniqueKeys QueueRow.key before →
    UniqueKeys QueueRow.key after

theorem foldl_synced (id : Text) (times : List Nat) (db : Db B) :
    Synced id times db.reminders (times.foldl (fun db t => db.materialise ⟨id,t⟩) db).reminders := by
  induction times generalizing db with
  | nil => exact ⟨fun r hr => .inl hr,fun r hr _ => hr,by simp,fun h => h⟩
  | cons t times ih =>
    have hrest := ih (db.materialise ⟨id,t⟩)
    refine ⟨?_,?_,?_,fun h => hrest.unique (materialise_keys h)⟩
    · intro r hr
      rcases hrest.mem r hr with hr | ⟨t',ht,hk⟩
      · rcases mem_materialise hr with hr | hk
        · exact .inl hr
        · exact .inr ⟨t,by simp,hk⟩
      · exact .inr ⟨t',by simp [ht],hk⟩
    · intro r hr hid
      refine hrest.others r (mem_upsert_of_ne hr ?_) hid
      exact fun he => hid (congrArg ReminderKey.item he)
    · intro k
      have hone : k∈(db.materialise ⟨id,t⟩).reminders.map QueueRow.key ↔
          k∈db.reminders.map QueueRow.key ∨ k=⟨id,t⟩ := by
        refine mem_keys_upsert ?_
        exact fun _ => rfl
      rw [List.foldl_cons,hrest.keys,hone]
      simp [or_assoc]

theorem syncReminderLogs_eq (h : db.item id=some i) : (db.syncReminderLogs id times).reminders=
    (times.dedup.foldl (fun db t => db.materialise ⟨id,t⟩)
      ({db with reminders := db.reminders.filter (fun r => !r.dropped id times)} : Db B)).reminders := by
  unfold syncReminderLogs
  rw [h]

theorem dropped_iff : r.dropped id times=true ↔
    (r.key.item=id ∧ r.log.sentAt=none) ∧ r.key.time∉times := by
  unfold QueueRow.dropped
  rw [Bool.and_eq_true,Bool.and_eq_true,decide_eq_true_iff,Option.isNone_iff_eq_none,
    decide_eq_true_iff]

theorem sync_unique (h : UniqueKeys QueueRow.key db.reminders) :
    UniqueKeys QueueRow.key (db.syncReminderLogs id times).reminders := by
  cases hi : db.item id with
  | none => unfold syncReminderLogs; rw [hi]; exact h
  | some i =>
    rw [syncReminderLogs_eq hi]
    exact (foldl_synced id _ _).unique (h.sublist (List.filter_sublist.map _))

theorem sync_matched (hi : db.item id=some i) (h : ∀t,db.Lists ⟨id,t⟩ ↔ t∈times) :
    (db.syncReminderLogs id times).MatchedAt id := by
  have hs := foldl_synced id times.dedup
    ({db with reminders := db.reminders.filter (fun r => !r.dropped id times)} : Db B)
  have hlists : ∀t,(db.syncReminderLogs id times).Lists ⟨id,t⟩ ↔ t∈times := by
    intro t
    rw [←h t]
    exact lists_congr (by unfold item; rw [syncReminderLogs_items])
  rw [←syncReminderLogs_eq hi] at hs
  constructor
  · intro r hr hid hw
    have hk : r.key=⟨id,r.key.time⟩ := by rw [←hid]
    rw [hk,hlists]
    rcases hs.mem r hr with hr | ⟨t,ht,he⟩
    · by_contra hmiss
      have hkept := (List.mem_filter.mp hr).2
      have hsent : r.log.sentAt=none := by
        simp only [QueueRow.waiting,Bool.and_eq_true,Option.isNone_iff_eq_none] at hw
        exact hw.1
      rw [dropped_iff.mpr ⟨⟨hid,hsent⟩,hmiss⟩] at hkept
      cases hkept
    · rw [he]
      exact List.mem_dedup.mp ht
  · intro t ht
    rw [hs.keys]
    exact .inr ⟨t,List.mem_dedup.mpr ((hlists t).mp ht),rfl⟩

theorem sync_others {id' : Text} (hne : id'≠id) (h : db.MatchedAt id') :
    (db.syncReminderLogs id times).MatchedAt id' := by
  cases hi : db.item id with
  | none => unfold syncReminderLogs; rw [hi]; exact h
  | some i =>
    have hs := foldl_synced id times.dedup
      ({db with reminders := db.reminders.filter (fun r => !r.dropped id times)} : Db B)
    rw [←syncReminderLogs_eq hi] at hs
    refine h.congr (fun t => lists_congr (by unfold item; rw [syncReminderLogs_items])) ?_
    intro r hid
    refine ⟨fun hr => ?_,fun hr => hs.others r (List.mem_filter.mpr ⟨hr,?_⟩) (by rw [hid]; exact hne)⟩
    · rcases hs.mem r hr with hr | ⟨t,_,hk⟩
      · exact (List.mem_filter.mp hr).1
      · rw [hk] at hid
        exact absurd hid.symm hne
    · have hnot : r.dropped id times=false := by
        rw [Bool.eq_false_iff]
        exact fun hd => hne (hid.symm.trans (dropped_iff.mp hd).1.1)
      rw [hnot]
      rfl

/-! One row and its queue -/

theorem lists_writeItem_self (hf : ∀i,(f i).id=i.id) {t : Nat} :
    (db.writeItem now id f).Lists ⟨id,t⟩ ↔
      ∃i,db.item id=some i ∧ (f i).live ∧ t∈(f i).remindTimes := by
  unfold Lists
  rw [item_writeItem_self hf]
  constructor
  · rintro ⟨j,hj,hlive,ht⟩
    obtain ⟨i,hi,rfl⟩ := Option.map_eq_some_iff.mp hj
    exact ⟨i,hi,hlive,ht⟩
  · rintro ⟨i,hi,hlive,ht⟩
    exact ⟨f i,by rw [hi]; rfl,hlive,ht⟩

theorem writeItem_others (hf : ∀i,(f i).id=i.id) {id' : Text} (hne : id'≠id) (h : db.MatchedAt id') :
    (db.writeItem now id f).MatchedAt id' :=
  h.congr (fun _ => lists_congr (item_writeItem_of_ne hf hne)) (fun r _ => by rw [writeItem_reminders])

theorem Materialised.write_sync (h : db.Materialised) (hf : ∀i,(f i).id=i.id)
    (hi : db.item id=some i) (hlists : ∀t,(f i).live=true ∧ t∈(f i).remindTimes ↔ t∈times) :
    ((db.writeItem now id f).syncReminderLogs id times).Materialised where
  items := by
    rw [syncReminderLogs_items]
    exact writeItem_unique hf h.items
  keys := sync_unique (by rw [writeItem_reminders]; exact h.keys)
  matched id' := by
    by_cases hne : id'=id
    · subst id'
      refine sync_matched (by rw [item_writeItem_self hf,hi]; rfl) (fun t => ?_)
      rw [lists_writeItem_self hf,←hlists t]
      constructor
      · rintro ⟨j,hj,hin⟩
        cases hi.symm.trans hj
        exact hin
      · exact fun hin => ⟨i,hi,hin⟩
    · exact sync_others hne (writeItem_others hf hne (h.matched id'))

theorem Materialised.write_keep (h : db.Materialised) (hf : ∀i,(f i).id=i.id)
    (hlists : ∀t,(db.writeItem now id f).Lists ⟨id,t⟩ ↔ db.Lists ⟨id,t⟩) :
    (db.writeItem now id f).Materialised where
  items := writeItem_unique hf h.items
  keys := by rw [writeItem_reminders]; exact h.keys
  matched id' := by
    by_cases hne : id'=id
    · subst id'
      exact (h.matched id).congr hlists (fun r _ => by rw [writeItem_reminders])
    · exact writeItem_others hf hne (h.matched id')

theorem Materialised.drop (h : UniqueKeys Item.id db.items) (hkeys : UniqueKeys QueueRow.key db.reminders)
    (hothers : ∀id'≠id,db.MatchedAt id') (hnone : ∀t,¬db.Lists ⟨id,t⟩) {all : Bool} :
    (db.dropReminders id all).Materialised where
  items := h
  keys := hkeys.sublist (List.filter_sublist.map _)
  matched id' := by
    have hsame : ∀k,(db.dropReminders id all).Lists k ↔ db.Lists k := fun k => lists_congr rfl
    by_cases hne : id'=id
    · subst id'
      constructor
      · intro r hr hid hw
        have hkept := (List.mem_filter.mp hr).2
        simp [hid,hw] at hkept
      · intro t ht
        exact absurd ((hsame _).mp ht) (hnone t)
    · refine (hothers id' hne).congr (fun _ => hsame _) (fun r hid => ?_)
      have hkeep : (r.key.item=id && (all || r.waiting))=false := by
        rw [Bool.and_eq_false_iff]
        exact .inl (decide_eq_false (by rw [hid]; exact hne))
      exact ⟨fun hr => (List.mem_filter.mp hr).1,
        fun hr => List.mem_filter.mpr ⟨hr,by simp [hkeep]⟩⟩

/-- A write that sets the columns of `u`. -/
structure Sets (f : Item → Item) (u : Prepared) : Prop where
  id : ∀i,(f i).id=i.id
  cells : ∀i,(f i).cells=i.cells.write u

theorem sets_write (u : Prepared) : Sets (Item.write u) u := ⟨fun _ => rfl,fun _ => rfl⟩

theorem sets_bump (u : Prepared) : Sets (Item.bump u) u := ⟨fun _ => rfl,fun _ => rfl⟩

theorem times_decoded (v : Value) : (decoded .remindTimes v).times=v.times := by
  unfold decoded
  split
  · rename_i h
    rw [h]
    rfl
  · rfl

theorem Sets.remindTimes (h : Sets f u) (i : Item) : (f i).remindTimes=
    ((u.fields .remindTimes).map Value.times).getD i.remindTimes := by
  unfold Item.remindTimes
  rw [h.cells i,Cells.write_value]
  cases u.fields .remindTimes with
  | none => rfl
  | some v => exact times_decoded v

def Quiet (i : Item) : Prop := i.live=true ∨ i.remindTimes=[]

def quiet (i : Item) : Bool := i.live || i.remindTimes.isEmpty

theorem quiet_iff : quiet i=true ↔ Quiet i := by
  unfold quiet Quiet
  rw [Bool.or_eq_true,List.isEmpty_iff]

theorem Quiet.lists (h : Quiet i) {t : Nat} : i.live=true ∧ t∈i.remindTimes ↔ t∈i.remindTimes := by
  rcases h with h | h
  · simp [h]
  · simp [h]

theorem Materialised.set_row (h : db.Materialised) (hs : Sets f u) (hi : db.item id=some i)
    (hlive : i.live) (hquiet : Quiet (f i)) :
    ((db.writeItem now id f).syncNamed id u.fields).Materialised := by
  have htimes := hs.remindTimes i
  unfold syncNamed
  cases hu : u.fields .remindTimes with
  | some v =>
    rw [hu] at htimes
    exact h.write_sync hs.id hi (fun t => by rw [hquiet.lists,htimes]; rfl)
  | none =>
    rw [hu] at htimes
    refine h.write_keep hs.id (fun t => ?_)
    rw [lists_writeItem_self hs.id]
    have hsame : (f i).live=true ∧ t∈(f i).remindTimes ↔ i.live=true ∧ t∈i.remindTimes := by
      rw [hquiet.lists,htimes]
      simp [show i.live=true from hlive]
    constructor
    · rintro ⟨j,hj,hin⟩
      cases hi.symm.trans hj
      exact ⟨i,hi,hsame.mp hin⟩
    · rintro ⟨j,hj,hin⟩
      cases hi.symm.trans hj
      exact ⟨i,hi,hsame.mpr hin⟩

end XiaoQing.Pendo.Db
