import XiaoQing.Pendo.Materialised

namespace XiaoQing.Pendo.Db

open Framework Commands

variable {B : ZoneBook} {db db' : Db B} {now : Nat} {id owner : Text} {i : Item} {f : Item → Item}
  {u : Prepared} {log : Option LogSpec}

def KeepsLive (u : Fields) : Prop := ∀v,u .deleted=some v → decoded .deleted v=.flag false

theorem Sets.live (hs : Sets f u) (hu : KeepsLive u.fields) (hlive : i.live) : (f i).live := by
  show decide _=true
  rw [hs.cells i,Cells.write_value,decide_eq_true_iff]
  cases h : u.fields .deleted with
  | none => exact of_decide_eq_true hlive
  | some v => exact hu v h

structure Remembers (d : Details) : Prop where
  own : ∀u,d.oldValues=some u → KeepsLive u
  children : ∀e∈d.children,KeepsLive e.2.oldValues

structure Sound (db : Db B) : Prop where
  queue : db.Materialised
  logs : ∀l∈db.logs,Remembers l.details

theorem Sound.frame (h : db.Sound) (hitems : db'.items=db.items) (hlogs : db'.logs=db.logs)
    (hreminders : db'.reminders=db.reminders) : db'.Sound :=
  ⟨h.queue.frame hitems hreminders,hlogs ▸ h.logs⟩

theorem Sound.of_queue (h : db.Sound) (hlogs : db'.logs=db.logs) (hqueue : db'.Materialised) :
    db'.Sound := ⟨hqueue,hlogs ▸ h.logs⟩

theorem Sound.updateFts (h : db.Sound) (r : IndexRow) : (db.updateFts r).Sound :=
  h.frame rfl rfl rfl

theorem Sound.writeHeader {g : Collection → Collection} (h : db.Sound) : (db.writeHeader id g).Sound :=
  h.frame rfl rfl rfl

theorem Sound.markHeader {p : Cells → Bool} (h : db.Sound) : (db.markHeader id owner p u).Sound :=
  h.frame rfl rfl rfl

theorem Sound.unindex (h : db.Sound) : (db.unindex id).Sound := h.frame rfl rfl rfl

theorem Sound.refreshFts (h : db.Sound) : (db.refreshFts id).Sound :=
  h.frame refreshFts_items refreshFts_logs refreshFts_reminders

theorem Sound.foldl {α : Type} {g : Db B → α → Db B} (hg : ∀db a,Sound db → Sound (g db a))
    (as : List α) {db : Db B} (h : db.Sound) : (as.foldl g db).Sound := by
  induction as generalizing db with
  | nil => exact h
  | cons a as ih => exact ih (hg db a h)

section

variable {user item : Text} {action : Action} {itemType : Option Text} {details : Details}
  {added : LogSpec → Details}

theorem Sound.addLog (h : db.Sound) (hd : Remembers details) :
    (db.addLog user action itemType item details now).Sound where
  queue := h.queue.frame rfl rfl
  logs l hl := by
    rcases List.mem_append.mp hl with hl | hl
    · exact h.logs l hl
    · rw [List.mem_singleton.mp hl]
      exact hd

theorem Sound.logFromSpec (h : db.Sound) (hd : ∀spec,log=some spec → Remembers (added spec)) :
    (db.logFromSpec now log item itemType added).Sound := by
  cases log with
  | none => exact h
  | some spec =>
    have hspec := hd spec rfl
    exact h.addLog ⟨hspec.own,hspec.children⟩

theorem remembers_nothing (childIds : List Text) (batch : Option Nat) (sources : List Nat)
    (restored : List Text) : Remembers
      {childIds := childIds,batch := batch,sourceLogs := sources,restored := restored} :=
  ⟨(fun _ h => by cases h),(fun _ h => by cases h)⟩

end

/-! Insertions -/

variable {id' : Text}

theorem item_insertRow (h : db.insertRow now i=some db') :
    db'.item id'=if id'=i.id then some i else db.item id' := by
  unfold insertRow at h
  split at h
  · cases h
  · rename_i hnone
    cases h
    have hi : db.item i.id=none := by simpa using hnone
    show row Item.id (db.items++[i]) id'=_
    rw [row_append]
    by_cases hid : id'=i.id
    · subst id'
      rw [if_pos rfl,if_pos rfl,show row Item.id db.items i.id=none from hi]
      rfl
    · rw [if_neg (fun he => hid he.symm),if_neg hid,Option.or_none]

theorem insertRow_rows (h : db.insertRow now i=some db') :
    db.item i.id=none ∧ db'.items=db.items++[i] ∧ db'.reminders=db.reminders ∧ db'.logs=db.logs := by
  unfold insertRow at h
  split at h
  · cases h
  · rename_i hnone
    cases h
    exact ⟨by simpa using hnone,rfl,rfl,rfl⟩

theorem remindTimes_row (n : NewItem) : (n.row u).remindTimes=
    ((u.fields .remindTimes).map Value.times).getD [] := by
  unfold Item.remindTimes NewItem.row
  rw [Cells.write_value]
  cases u.fields .remindTimes with
  | none => rfl
  | some v => exact times_decoded v

theorem Materialised.insert_row (h : db.Materialised) (n : NewItem)
    (hrow : db.insertRow now (n.row u)=some db') (hquiet : Quiet (n.row u)) :
    (db'.syncNamed n.id u.fields).Materialised := by
  obtain ⟨hnone,hitems,hreminders,_⟩ := insertRow_rows hrow
  have hself : db'.item n.id=some (n.row u) := by rw [item_insertRow hrow]; exact if_pos rfl
  have hunique : UniqueKeys Item.id db'.items := by
    rw [hitems]
    exact h.items.append (row_eq_none hnone)
  have hkeys : UniqueKeys QueueRow.key db'.reminders := hreminders ▸ h.keys
  have hothers : ∀id'≠n.id,db'.MatchedAt id' := by
    intro id' hne
    refine (h.matched id').congr (fun t => lists_congr ?_) (fun r _ => by rw [hreminders])
    rw [item_insertRow hrow]
    exact if_neg hne
  have htimes := remindTimes_row n (u:=u)
  have hlists : ∀t,db'.Lists ⟨n.id,t⟩ ↔ t∈(n.row u).remindTimes := by
    intro t
    rw [←hquiet.lists]
    constructor
    · rintro ⟨j,hj,hin⟩
      cases hself.symm.trans hj
      exact hin
    · exact fun hin => ⟨_,hself,hin⟩
  unfold syncNamed
  cases hu : u.fields .remindTimes with
  | some v =>
    rw [hu] at htimes
    refine ⟨by rw [syncReminderLogs_items]; exact hunique,sync_unique hkeys,fun id' => ?_⟩
    by_cases hne : id'=n.id
    · subst id'
      exact sync_matched hself (fun t => by rw [hlists,htimes]; rfl)
    · exact sync_others hne (hothers id' hne)
  | none =>
    rw [hu] at htimes
    refine ⟨hunique,hkeys,fun id' => ?_⟩
    by_cases hne : id'=n.id
    · subst id'
      have hbefore : ∀t,¬db.Lists ⟨n.id,t⟩ := by
        rintro t ⟨j,hj,_⟩
        exact absurd (hnone.symm.trans hj) (by simp)
      have hafter : ∀t,¬db'.Lists ⟨n.id,t⟩ := by
        intro t ht
        rw [hlists,htimes] at ht
        cases ht
      exact (h.matched n.id).congr (fun t => iff_of_false (hafter t) (hbefore t))
        (fun r _ => by rw [hreminders])
    · exact hothers id' hne

def quietNew (db : Db B) (now : Nat) (n : NewItem) : Bool :=
  (db.prepareNew now n).all (fun u => quiet (n.row u))

theorem commitInsert_sound (h : db.Sound) (n : NewItem) (hquiet : Quiet (n.row u))
    (hc : db.commitInsert now n u log=some db') : db'.Sound := by
  obtain ⟨db₁,hrow,rfl⟩ := Option.map_eq_some_iff.mp hc
  have hlogs := (insertRow_rows hrow).2.2.2
  have hsync : (db₁.syncNamed n.id u.fields).Sound :=
    h.of_queue (by rw [syncNamed_logs,hlogs]) (h.queue.insert_row n hrow hquiet)
  refine (hsync.updateFts _).logFromSpec (fun _ _ => ?_)
  exact remembers_nothing _ _ _ _

theorem insertItem_sound (h : db.Sound) (n : NewItem) (hquiet : db.quietNew now n)
    (hc : db.insertItem now n log=some db') : db'.Sound := by
  unfold insertItem at hc
  split at hc
  · cases hc
  · obtain ⟨u,hu,hc⟩ := Option.bind_eq_some_iff.mp hc
    exact commitInsert_sound h n (quiet_iff.mp ((Option.all_eq_true _ _).mp hquiet u hu)) hc

/-! Updates -/

theorem field_deleted (i : Item) : i.field .deleted=i.cells.value .deleted := by
  unfold Item.field
  rw [if_pos]
  cases i.kind <;> decide

theorem keepsLive_of_live {names : Column → Bool} (h : i.live) :
    KeepsLive (fun c => if names c then some (i.field c) else none) := by
  intro v hv
  have hdeleted : i.cells.value .deleted=.flag false := of_decide_eq_true h
  simp only [field_deleted,hdeleted] at hv
  split at hv
  · cases hv
    rfl
  · cases hv

theorem remembers_edit (h : i.live) (touch : Bool) (spec : LogSpec) :
    Remembers (editDetails i u touch spec) := by
  unfold editDetails
  split
  · exact ⟨(fun v hv => by cases hv; exact keepsLive_of_live h),(fun _ he => by cases he)⟩
  · exact remembers_nothing _ _ _ _

theorem Sound.set_row (now : Nat) (h : db.Sound) (hs : Sets f u) (hi : db.item id=some i) (hlive : i.live)
    (hquiet : Quiet (f i)) : ((db.writeItem now id f).syncNamed id u.fields).Sound :=
  h.of_queue (by rw [syncNamed_logs,writeItem_logs]) (h.queue.set_row hs hi hlive hquiet)

def quietUpdate (db : Db B) (c : Update) (u : Prepared) : Bool :=
  ((db.item c.id).filter (matchesUpdate c)).all (fun i => quiet (i.write u))

theorem Quiet.of_sets {g : Item → Item} (hf : Sets f u) (hg : Sets g u) (h : Quiet (f i)) :
    Quiet (g i) := by
  unfold Quiet Item.live Item.remindTimes at h ⊢
  rw [hg.cells i,←hf.cells i]
  exact h

theorem commitUpdate_sound (h : db.Sound) (c : Update) (hquiet : db.quietUpdate c u)
    (hc : db.commitUpdate now c u=some db') : db'.Sound := by
  unfold commitUpdate at hc
  split at hc
  · cases hc
  · obtain ⟨i,hi,rfl⟩ := Option.map_eq_some_iff.mp hc
    have hwritten := quiet_iff.mp ((Option.all_eq_true _ _).mp hquiet i hi)
    obtain ⟨hi,hmatch⟩ := Option.filter_eq_some_iff.mp hi
    have hlive : i.live := by
      simp only [matchesUpdate,Bool.and_eq_true] at hmatch
      exact hmatch.1.1.1
    have hsets : Sets (if c.touch then Item.bump u else Item.write u) u := by
      split
      · exact sets_bump u
      · exact sets_write u
    have hrow := h.set_row now hsets hi hlive (hwritten.of_sets (sets_write u) hsets)
    refine Sound.logFromSpec ?_ (fun spec _ => remembers_edit hlive c.touch spec)
    split
    · exact hrow.refreshFts
    · exact hrow

/-! Imports -/

def quietOperation (db : Db B) (now : Nat) (owner : Text) : Operation → Bool
  | .insert n => db.quietNew now {n with owner := owner}
  | .update id kind fields => (db.prepareNew now ⟨id,owner,kind,0,fields⟩).all (fun u =>
      ((db.item id).filter (fun i => decide (i.owner=owner) && i.live)).all (fun i => quiet (i.write u)))

theorem applyOperation_sound (h : db.Sound) (o : Operation) (hquiet : db.quietOperation now owner o)
    (hc : db.applyOperation now owner o=some db') : db'.Sound := by
  unfold applyOperation at hc
  split at hc
  · cases hc
  · cases o with
    | insert n =>
      obtain ⟨u,hu,hc⟩ := Option.bind_eq_some_iff.mp hc
      obtain ⟨db₁,hrow,rfl⟩ := Option.map_eq_some_iff.mp hc
      have hwritten := quiet_iff.mp ((Option.all_eq_true _ _).mp hquiet u hu)
      refine h.of_queue ?_ (h.queue.insert_row {n with owner := owner} hrow hwritten)
      rw [syncNamed_logs,(insertRow_rows hrow).2.2.2]
    | update id kind fields =>
      obtain ⟨u,hu,hc⟩ := Option.bind_eq_some_iff.mp hc
      split at hc
      · rename_i hany
        cases hc
        obtain ⟨i,hi,hlive⟩ := (Option.any_eq_true _ _).mp hany
        have hwritten := quiet_iff.mp ((Option.all_eq_true _ _).mp
          ((Option.all_eq_true _ _).mp hquiet u hu) i (Option.filter_eq_some_iff.mpr ⟨hi,hlive⟩))
        rw [Bool.and_eq_true] at hlive
        exact h.set_row now (sets_bump u) hi hlive.2
          (hwritten.of_sets (sets_write u) (sets_bump u))
      · cases hc

def quietOperations (now : Nat) (owner : Text) : Db B → List Operation → Bool
  | _,[] => true
  | db,o::os => db.quietOperation now owner o &&
      (db.applyOperation now owner o).all (fun db => quietOperations now owner db os)

theorem foldlM_operations_sound (os : List Operation) (h : db.Sound)
    (hquiet : quietOperations now owner db os)
    (hc : os.foldlM (fun db o => applyOperation db now owner o) db=some db') : db'.Sound := by
  induction os generalizing db with
  | nil =>
    cases hc
    exact h
  | cons o os ih =>
    rw [List.foldlM_cons] at hc
    obtain ⟨db₁,hone,hrest⟩ := Option.bind_eq_some_iff.mp hc
    rw [quietOperations,Bool.and_eq_true] at hquiet
    exact ih (applyOperation_sound h o hquiet.1 hone) ((Option.all_eq_true _ _).mp hquiet.2 db₁ hone)
      hrest

theorem batchInsertOrUpdate_sound (os : List Operation) (h : db.Sound)
    (hquiet : quietOperations now owner db os)
    (hc : db.batchInsertOrUpdate now owner os=some db') : db'.Sound := by
  obtain ⟨db₁,hfold,rfl⟩ := Option.map_eq_some_iff.mp hc
  exact Sound.foldl (fun _ _ h => h.refreshFts) os (foldlM_operations_sound os h hquiet hfold)

structure HeadersOnly (db db' : Db B) : Prop where
  items : db'.items=db.items
  reminders : db'.reminders=db.reminders
  logs : db'.logs=db.logs
  zone : db'.zone=db.zone

theorem HeadersOnly.refl (db : Db B) : HeadersOnly db db := ⟨rfl,rfl,rfl,rfl⟩

theorem HeadersOnly.trans {db₁ : Db B} (h : HeadersOnly db db₁) (h' : HeadersOnly db₁ db') :
    HeadersOnly db db' :=
  ⟨h'.items.trans h.items,h'.reminders.trans h.reminders,h'.logs.trans h.logs,h'.zone.trans h.zone⟩

theorem HeadersOnly.sound (hh : HeadersOnly db db') (h : db.Sound) : db'.Sound :=
  h.frame hh.items hh.logs hh.reminders

theorem insertHeader_only {c : NewCollection} {zone : Text}
    (hc : db.insertHeader now c zone=some db') : HeadersOnly db db' := by
  unfold insertHeader at hc
  split at hc
  · cases hc
  · obtain ⟨u,_,rfl⟩ := Option.map_eq_some_iff.mp hc
    exact ⟨rfl,rfl,rfl,rfl⟩

theorem applyCollectionOperation_only (o : CollectionOperation)
    (hc : db.applyCollectionOperation now owner o=some db') : HeadersOnly db db' := by
  cases o with
  | insert c => exact insertHeader_only hc
  | update id fields =>
    obtain ⟨u,_,rfl⟩ := Option.map_eq_some_iff.mp hc
    exact ⟨rfl,rfl,rfl,rfl⟩

theorem foldlM_headers_only (os : List CollectionOperation)
    (hc : os.foldlM (fun db o => applyCollectionOperation db now owner o) db=some db') :
    HeadersOnly db db' := by
  induction os generalizing db with
  | nil =>
    cases hc
    exact .refl _
  | cons o os ih =>
    rw [List.foldlM_cons] at hc
    obtain ⟨db₁,hone,hrest⟩ := Option.bind_eq_some_iff.mp hc
    exact (applyCollectionOperation_only o hone).trans (ih hrest)

def quietImport (db : Db B) (now : Nat) (owner : Text) (collections : List CollectionOperation)
    (os : List Operation) : Bool :=
  (collections.foldlM (fun db o => applyCollectionOperation db now owner o) db).all
    (fun db => quietOperations now owner db os)

theorem executeImportBundle_sound (collections : List CollectionOperation) (os : List Operation)
    (h : db.Sound) (hquiet : db.quietImport now owner collections os)
    (hc : db.executeImportBundle now owner collections os=some db') : db'.Sound := by
  obtain ⟨db₁,hheaders,hc⟩ := Option.bind_eq_some_iff.mp hc
  exact batchInsertOrUpdate_sound os ((foldlM_headers_only collections hheaders).sound h)
    ((Option.all_eq_true _ _).mp hquiet db₁ hheaders) hc

/-! Collections -/

theorem prepareNew_congr (h : db'.zone=db.zone) (n : NewItem) :
    db'.prepareNew now n=db.prepareNew now n := by
  unfold prepareNew userZone
  rw [h]

theorem commitInsert_zone {n : NewItem} (hc : db.commitInsert now n u log=some db') :
    db'.zone=db.zone := by
  obtain ⟨db₁,hrow,rfl⟩ := Option.map_eq_some_iff.mp hc
  rw [logFromSpec_zone]
  show (db₁.syncNamed n.id u.fields).zone=db.zone
  rw [syncNamed_zone]
  unfold insertRow at hrow
  split at hrow
  · cases hrow
  · cases hrow
    rfl

def quietChildren (db : Db B) (now : Nat) (c : NewCollection) (zone : Text) (children : List NewItem) :
    Bool := children.all (fun child => db.quietNew now (childItem c zone child))

theorem quietChildren_congr {c : NewCollection} {zone : Text} {children : List NewItem}
    (h : db'.zone=db.zone) :
    db'.quietChildren now c zone children=db.quietChildren now c zone children := by
  unfold quietChildren quietNew
  simp only [prepareNew_congr h]

theorem foldlM_children_sound (c : NewCollection) (zone : Text) (children : List NewItem)
    (h : db.Sound) (hquiet : db.quietChildren now c zone children)
    (hc : children.foldlM (fun db child => insertChild db now c zone child) db=some db') :
    db'.Sound := by
  induction children generalizing db with
  | nil =>
    cases hc
    exact h
  | cons child rest ih =>
    rw [List.foldlM_cons] at hc
    obtain ⟨db₁,hone,hrest⟩ := Option.bind_eq_some_iff.mp hc
    unfold insertChild at hone
    split at hone
    · cases hone
    · obtain ⟨u,hu,hone⟩ := Option.bind_eq_some_iff.mp hone
      rw [quietChildren,List.all_cons,Bool.and_eq_true] at hquiet
      have hwritten := quiet_iff.mp ((Option.all_eq_true _ _).mp hquiet.1 u hu)
      exact ih (commitInsert_sound h _ hwritten hone)
        ((quietChildren_congr (commitInsert_zone hone)).trans hquiet.2) hrest

theorem createEventCollection_sound (c : NewCollection) (zone : Text) (children : List NewItem)
    (action : Text) (h : db.Sound) (hquiet : db.quietChildren now c zone children)
    (hc : db.createEventCollection now c zone children action=some db') : db'.Sound := by
  obtain ⟨db₁,hheader,hc⟩ := Option.bind_eq_some_iff.mp hc
  obtain ⟨db₂,hfold,rfl⟩ := Option.map_eq_some_iff.mp hc
  have hfrom := insertHeader_only hheader
  have hchildren := (quietChildren_congr hfrom.zone).trans hquiet
  exact (foldlM_children_sound c zone children (hfrom.sound h) hchildren hfold).addLog
    (remembers_nothing _ _ _ _)

theorem prepareData_fields {v : Fields} (h : prepareData v=some u) : u.fields=v := by
  unfold prepareData at h
  split at h
  · cases h
    rfl
  · cases h

theorem childChanges_deleted (clean : Fields) (entries : List (Text × Value × Value)) (child : Item) :
    childChanges clean entries child .deleted=none := by
  unfold childChanges
  generalize entries.find? _=found
  cases found <;> rfl

theorem childEdits_members {zone clean : Fields} {entries : List (Text × Value × Value)}
    {members : List Item} {edits : List ChildEdit}
    (h : db.childEdits owner zone clean entries members=some edits) :
    ∀e∈edits,e.child∈members ∧ e.changes.fields .deleted=none := by
  induction members generalizing edits with
  | nil =>
    cases h
    simp
  | cons child rest ih =>
    unfold childEdits at h
    obtain ⟨others,hothers,h⟩ := Option.bind_eq_some_iff.mp h
    have hrest := ih hothers
    intro e he
    split at h
    · cases h
      exact ⟨List.mem_cons_of_mem _ (hrest e he).1,(hrest e he).2⟩
    · obtain ⟨normalized,_,h⟩ := Option.bind_eq_some_iff.mp h
      obtain ⟨u,hu,rfl⟩ := Option.map_eq_some_iff.mp h
      rcases List.mem_cons.mp he with rfl | he
      · refine ⟨by simp,?_⟩
        rw [prepareData_fields hu]
        unfold Fields.only Fields.names
        rw [childChanges_deleted]
        rfl
      · exact ⟨List.mem_cons_of_mem _ (hrest e he).1,(hrest e he).2⟩

theorem syncNamed_congr {v w : Fields} (h : v .remindTimes=w .remindTimes) :
    db.syncNamed id v=db.syncNamed id w := by
  unfold syncNamed
  rw [h]

def Alive (db : Db B) (id : Text) : Prop := ∃i,db.item id=some i ∧ i.live=true

theorem Alive.congr (h : db.Alive id') (hitem : db'.item id'=db.item id') :
    db'.Alive id' := by
  unfold Alive
  rw [hitem]
  exact h

theorem Alive.writeItem (h : db.Alive id') (hs : Sets f u) (hu : KeepsLive u.fields) :
    (db.writeItem now id f).Alive id' := by
  by_cases hne : id'=id
  · subst id'
    obtain ⟨i,hi,hlive⟩ := h
    exact ⟨f i,by rw [item_writeItem_self hs.id,hi]; rfl,hs.live hu hlive⟩
  · exact h.congr (item_writeItem_of_ne hs.id hne)

theorem keepsLive_none {v : Fields} (h : v .deleted=none) : KeepsLive v := by
  intro w hw
  rw [h] at hw
  cases hw

theorem childFields (e : ChildEdit) (h : e.changes.fields .deleted=none) :
    KeepsLive (e.set now).fields := by
  refine keepsLive_none ?_
  simp [ChildEdit.set,h]

theorem writeChild_sound (e : ChildEdit) (h : db.Sound) (halive : db.Alive e.child.id)
    (hdeleted : e.changes.fields .deleted=none) : (db.writeChild now e).Sound := by
  obtain ⟨i,hi,hlive⟩ := halive
  have hs := sets_bump (e.set now)
  have hrow := h.set_row now hs hi hlive (.inl (hs.live (childFields e hdeleted) hlive))
  have hsame : ∀db : Db B,
      db.syncNamed e.child.id (e.set now).fields=db.syncNamed e.child.id e.changes.fields :=
    fun db => syncNamed_congr rfl
  rw [hsame] at hrow
  unfold writeChild
  dsimp only
  split
  · exact hrow.refreshFts
  · exact hrow

theorem writeChild_items (e : ChildEdit) : (db.writeChild now e).items=
    (db.writeItem now e.child.id (Item.bump (e.set now))).items := by
  unfold writeChild
  dsimp only
  split
  · rw [refreshFts_items,syncNamed_items]
  · rw [syncNamed_items]

theorem writeChild_alive (e : ChildEdit) (hdeleted : e.changes.fields .deleted=none)
    (h : db.Alive id') : (db.writeChild now e).Alive id' := by
  have hwrite : (db.writeItem now e.child.id (Item.bump (e.set now))).Alive id' :=
    h.writeItem (sets_bump _) (childFields e hdeleted)
  refine hwrite.congr ?_
  unfold Db.item
  rw [writeChild_items]

theorem foldl_writeChild_sound (edits : List ChildEdit) (h : db.Sound)
    (hedits : ∀e∈edits,db.Alive e.child.id ∧ e.changes.fields .deleted=none) :
    (edits.foldl (fun db e => writeChild db now e) db).Sound := by
  induction edits generalizing db with
  | nil => exact h
  | cons e edits ih =>
    obtain ⟨halive,hdeleted⟩ := hedits e (by simp)
    refine ih (writeChild_sound e h halive hdeleted) (fun e' he' => ?_)
    obtain ⟨halive',hdeleted'⟩ := hedits e' (List.mem_cons_of_mem _ he')
    exact ⟨writeChild_alive e hdeleted halive',hdeleted'⟩

theorem alive_of_mem (hunique : UniqueKeys Item.id db.items) (hi : i∈db.items) (hlive : i.live) :
    db.Alive i.id := ⟨i,hunique.row_of_mem hi,hlive⟩

theorem snapshot_keepsLive (e : ChildEdit) (h : e.changes.fields .deleted=none) :
    KeepsLive e.snapshot.2.oldValues := by
  refine keepsLive_none ?_
  unfold ChildEdit.snapshot Fields.names
  simp [h]

theorem updateCollection_sound (c : CollectionUpdate) (h : db.Sound)
    (hc : db.updateCollection now c=some db') : db'.Sound := by
  obtain ⟨e,he,rfl⟩ := Option.map_eq_some_iff.mp hc
  unfold prepareCollection at he
  dsimp only at he
  split at he
  · cases he
  · obtain ⟨header,_,he⟩ := Option.bind_eq_some_iff.mp he
    obtain ⟨normalized,_,he⟩ := Option.bind_eq_some_iff.mp he
    split at he
    · obtain ⟨edits,hedits,he⟩ := Option.bind_eq_some_iff.mp he
      obtain ⟨clean,hclean,rfl⟩ := Option.map_eq_some_iff.mp he
      have hmembers := childEdits_members hedits
      have hfold : (edits.foldl (fun db e => writeChild db now e) db).Sound := by
        refine foldl_writeChild_sound edits h (fun e he => ⟨?_,(hmembers e he).2⟩)
        obtain ⟨hmem,hlive⟩ := List.mem_filter.mp (hmembers e he).1
        rw [Bool.and_eq_true] at hlive
        exact alive_of_mem h.queue.items hmem hlive.2
      unfold commitCollection
      refine Sound.logFromSpec hfold.writeHeader (fun _ _ => ⟨?_,?_⟩)
      · intro v hv
        cases hv
        refine keepsLive_none ?_
        have hnone : clean.fields .deleted=none := by
          rw [prepareData_fields hclean]
          rfl
        simp [Fields.names,hnone]
      · intro entry hentry
        obtain ⟨e,he,rfl⟩ := List.mem_map.mp hentry
        exact snapshot_keepsLive e (hmembers e he).2
    · cases he

end XiaoQing.Pendo.Db
