import XiaoQing.Framework.IsoDate
import XiaoQing.Framework.Rows
import XiaoQing.Framework.Run
import XiaoQing.Pendo.Record
import Mathlib.Data.List.Sort

namespace XiaoQing.Pendo.Migration

open Framework Commands

inductive TaskStatus
  | openTask
  | done
  | cancelled
  deriving DecidableEq

/-- The columns of a row of `items` that the migration reads or writes. -/
structure ItemRow where
  id : Text
  owner : Text
  kind : Kind
  planDate : Option Text
  status : Option TaskStatus
  deleted : Bool
  version : Nat
  updatedAt : Text

/-- A value of the settings: what is no text is not looked into. -/
inductive Setting
  | text (t : Text)
  | other (shown : Text)
  deriving DecidableEq

/-- The column `settings_json`; an object that is not `strict` is one that `json.loads` reads and
`json_valid` refuses. -/
inductive SettingsJson
  | malformed
  | scalar (value : Setting)
  | object (fields : List (Text × Setting)) (strict : Bool)

structure SettingsRow where
  user : Text
  json : Option SettingsJson
  updatedAt : Text
  version : Nat

/-- The row of `operation_logs` that a migration writes. -/
structure MigrationLog where
  user : Text
  sourceDate : Text
  targetDate : Text
  itemIds : List Text

structure Db where
  items : List ItemRow
  settings : List SettingsRow
  logs : List MigrationLog

/-- `last_todo_migrate_date`. -/
def marker : Text := "last_todo_migrate_date".toList

/-- `raw_settings.get("last_todo_migrate_date")`. -/
def lastTarget : Option SettingsJson → Option Setting
  | some (.object fields _) => fields.lookup marker
  | _ => none

def Db.settingsJson (db : Db) (user : Text) : Option SettingsJson :=
  (row SettingsRow.user db.settings user).bind SettingsRow.json

/-- `json_patch` where the column is valid, and the patch alone where it is not. -/
def patchMarker (target : Text) : Option SettingsJson → SettingsJson
  | some (.object fields true) =>
    .object ((marker,.text target)::fields.filter fun kv => decide (kv.1≠marker)) true
  | _ => .object [(marker,.text target)] true

def isIsoDate (value : Text) : Bool :=
  (decide (value.length=7) || decide (value.length=8) || decide (value.length=10)) &&
    (IsoTime.readDate value value.length).any fun d => decide d.Valid

def lowerBound (last : Option Setting) (sourceDate : Text) : Text :=
  match last with
  | some (.text t) => if isIsoDate t then (if sourceDate<t then sourceDate else t) else sourceDate
  | _ => sourceDate

/-- The condition of the `SELECT`. -/
def selects (user lower sourceDate : Text) (r : ItemRow) : Bool :=
  decide (r.owner=user) && decide (r.kind=.task) &&
    (match r.planDate with
      | some p => decide (lower ≤ p) && decide (p ≤ sourceDate)
      | none => false) &&
    decide (r.status=some .openTask) && !r.deleted

/-- The condition of the `UPDATE` for a row that was read. -/
def stillSame (user : Text) (read r : ItemRow) : Bool :=
  decide (r.id=read.id) && decide (r.owner=user) && decide (r.kind=.task) &&
    decide (r.planDate.isSome=true ∧ r.planDate=read.planDate) &&
    decide (r.status=some .openTask) && !r.deleted && decide (r.version=read.version)

def moveTo (target now : Text) (r : ItemRow) : ItemRow :=
  {r with planDate := some target,updatedAt := now,version := r.version+1}

/-- One turn of the loop: the rows and `migrated_ids`. -/
def moveRow (user target now : Text) (s : List ItemRow × List Text) (read : ItemRow) :
    List ItemRow × List Text :=
  (updateWhere (stillSame user read) (moveTo target now) s.1,
    if s.1.countP (stillSame user read)=1 then s.2++[read.id] else s.2)

/-- `DO UPDATE SET`. -/
def recordTarget (target now : Text) (r : SettingsRow) : SettingsRow :=
  {r with json := some (patchMarker target r.json),updatedAt := now,version := r.version+1}

/-- `migrate_undone_tasks_to_date`: what is committed and the number returned. -/
def migrateUndoneTasksToDate (user sourceDate targetDate now : Text) (db : Db) : Db × Nat :=
  let last := lastTarget (db.settingsJson user)
  if last=some (.text targetDate) then (db,0)
  else
    let rows := (db.items.filter (selects user (lowerBound last sourceDate) sourceDate)).insertionSort
      fun r q => r.id ≤ q.id
    let moved := rows.foldl (moveRow user targetDate now) (db.items,[])
    ({items := moved.1,
      settings := upsert SettingsRow.user ⟨user,some (patchMarker targetDate none),now,0⟩ (fun _ => true)
        (recordTarget targetDate now) db.settings,
      logs := if moved.2=[] then db.logs else db.logs++[⟨user,sourceDate,targetDate,moved.2⟩]},
      moved.2.length)

/-- What may come between the runs: a run for the user that is committed or rolled back, any other change
of the rows, and other writes of the settings. -/
inductive Act
  | migrate (source target : Date) (now : Text)
  | crash (source target : Date)
  | edit (items : List ItemRow)
  | configure (settings : List SettingsRow)

/-- The database and the targets of the runs of one user that are done. -/
structure Progress where
  db : Db
  targets : List Date

def step (user : Text) (s : Progress) : Act → Option Progress
  | .migrate source target now =>
    some ⟨(migrateUndoneTasksToDate user source.iso target.iso now s.db).1,s.targets++[target]⟩
  | .crash _ _ => some s
  | .edit items =>
    if (items.map ItemRow.id).Nodup then some {s with db := {s.db with items}} else none
  | .configure settings =>
    if lastTarget (Db.settingsJson ⟨s.db.items,settings,s.db.logs⟩ user)=
        lastTarget (s.db.settingsJson user) then
      some {s with db := {s.db with settings}}
    else none

def Forward (s : Progress) : Act → Prop
  | .migrate _ target _ => ∀t∈s.targets,t ≤ target
  | _ => True

def Recorded (user : Text) (s : Progress) : Prop :=
  ∀t,s.targets.getLast?=some t↔lastTarget (s.db.settingsJson user)=some (.text t.iso)

/-- Nothing is done yet, or the settings hold the target of an earlier run. -/
def Starts (user : Text) (s : Progress) : Prop :=
  (s.db.items.map ItemRow.id).Nodup∧s.targets.length ≤ 1∧Recorded user s

def ItemRow.Pending (user : Text) (r : ItemRow) : Prop :=
  r.owner=user∧r.kind=.task∧r.status=some .openTask∧r.deleted=false

/-- No plan of the days from the previous target to the source is before the target. -/
def CaughtUp (user : Text) (previous : Option Date) (source target : Date) (db : Db) : Prop :=
  ∀r∈db.items,r.Pending user → ∀d : Date,r.planDate=some d.iso → d ≤ source →
    (∀p,previous=some p → p ≤ d) → (previous=none → d=source) → target ≤ d

def ItemRow.Exempt (user : Text) (source : Date) (r : ItemRow) : Prop :=
  ¬r.Pending user∨r.planDate=none∨r.planDate=some []∨∃d : Date,r.planDate=some d.iso∧source<d

section

variable {user lower target now : Text} {sourceText : Text} {items : List ItemRow} {r t : ItemRow}
  {db : Db} {s : Progress}

/-! One run -/

theorem selects_iff : selects user lower sourceText r=true↔
    r.Pending user∧∃p,r.planDate=some p∧lower ≤ p∧p ≤ sourceText := by
  unfold selects ItemRow.Pending
  cases hp : r.planDate with
  | none => simp
  | some p =>
    simp only [Bool.and_eq_true,decide_eq_true_eq,Bool.not_eq_true',Option.some.injEq,
      exists_eq_left']
    tauto

theorem stillSame_id (h : stillSame user r t=true) : t.id=r.id := by
  unfold stillSame at h
  simp only [Bool.and_eq_true,decide_eq_true_eq] at h
  exact h.1.1.1.1.1.1

theorem stillSame_self (h : selects user lower sourceText r=true) : stillSame user r r=true := by
  obtain ⟨⟨howner,hkind,hstatus,hdeleted⟩,p,hp,-,-⟩ := selects_iff.mp h
  unfold stillSame
  simp [howner,hkind,hstatus,hdeleted,hp]

theorem moveRows_eq (hu : UniqueKeys ItemRow.id items) (chosen : List ItemRow)
    (hn : (chosen.map ItemRow.id).Nodup) (hin : ∀r∈chosen,r∈items)
    (hsel : ∀r∈chosen,selects user lower sourceText r=true) :
    chosen.foldl (moveRow user target now) (items,[])=
      (updateWhere (fun t => decide (t.id∈chosen.map ItemRow.id)) (moveTo target now) items,
        chosen.map ItemRow.id) := by
  induction chosen using List.reverseRecOn with
  | nil =>
    have hnone : updateWhere (fun t : ItemRow => decide (t.id∈([] : List ItemRow).map ItemRow.id))
        (moveTo target now) items=items := updateWhere_eq_self fun t _ => by simp
    rw [hnone]
    rfl
  | append_singleton chosen r ih =>
    rw [List.map_append,List.nodup_append] at hn
    obtain ⟨hn,-,hapart⟩ := hn
    have hnew : r.id∉chosen.map ItemRow.id :=
      fun hmem => hapart r.id hmem r.id (List.mem_singleton_self r.id) rfl
    have hself := stillSame_self (hsel r (List.mem_append_right _ (List.mem_singleton_self r)))
    have hmem := hin r (List.mem_append_right _ (List.mem_singleton_self r))
    rw [List.foldl_concat,ih hn (fun t ht => hin t (List.mem_append_left _ ht))
      fun t ht => hsel t (List.mem_append_left _ ht)]
    have hthere : r∈updateWhere (fun t => decide (t.id∈chosen.map ItemRow.id)) (moveTo target now)
        items := List.mem_map.mpr ⟨r,hmem,if_neg (by simpa using hnew)⟩
    have hone : (updateWhere (fun t => decide (t.id∈chosen.map ItemRow.id)) (moveTo target now)
        items).countP (stillSame user r)=1 := by
      by_contra hcount
      have hfalse := (hu.updateWhere (f:=moveTo target now) fun _ => rfl).of_countP_ne_one
        (fun t => stillSame_id) hcount r hthere
      rw [hself] at hfalse
      cases hfalse
    unfold moveRow
    rw [if_pos hone,List.map_append,List.map_singleton]
    apply congrArg (fun rows => (rows,chosen.map ItemRow.id++[r.id]))
    unfold updateWhere
    rw [List.map_map]
    apply List.map_congr_left
    intro t ht
    by_cases hold : t.id∈chosen.map ItemRow.id
    · have hother : stillSame user r (moveTo target now t)=false := by
        rw [Bool.eq_false_iff]
        intro hsame
        have hid : (moveTo target now t).id=r.id := stillSame_id hsame
        exact hnew (hid ▸ hold)
      simp [Function.comp,hold,hother]
    · by_cases hid : t.id=r.id
      · have htr : t=r := by
          have htrow := hu.row_of_mem ht
          rw [hid,hu.row_of_mem hmem] at htrow
          exact (Option.some.inj htrow).symm
        rw [htr]
        simp [Function.comp,hnew,hself]
      · have hother : stillSame user r t=false := Bool.eq_false_iff.mpr fun hsame => hid (stillSame_id hsame)
        simp [Function.comp,hold,hid,hother]

theorem migrate_items (sourceText now : Text) (hu : UniqueKeys ItemRow.id db.items)
    (hnew : lastTarget (db.settingsJson user)≠some (.text target)) :
    (migrateUndoneTasksToDate user sourceText target now db).1.items=
      updateWhere (selects user (lowerBound (lastTarget (db.settingsJson user)) sourceText) sourceText)
        (moveTo target now) db.items := by
  unfold migrateUndoneTasksToDate
  dsimp only
  rw [if_neg hnew]
  dsimp only
  generalize hrows : (db.items.filter (selects user
    (lowerBound (lastTarget (db.settingsJson user)) sourceText) sourceText)).insertionSort
      (fun r q => r.id ≤ q.id)=rows
  have hmem : ∀r,r∈rows↔r∈db.items∧selects user
      (lowerBound (lastTarget (db.settingsJson user)) sourceText) sourceText r=true := by
    intro r
    rw [← hrows,List.mem_insertionSort,List.mem_filter]
  have hn : (rows.map ItemRow.id).Nodup := by
    rw [← hrows]
    have hperm := (List.perm_insertionSort (fun r q : ItemRow => r.id ≤ q.id) (db.items.filter (selects user
      (lowerBound (lastTarget (db.settingsJson user)) sourceText) sourceText))).map ItemRow.id
    exact hperm.nodup_iff.mpr (hu.sublist (List.filter_sublist.map _))
  rw [moveRows_eq hu rows hn (fun r hr => ((hmem r).mp hr).1) fun r hr => ((hmem r).mp hr).2]
  apply List.map_congr_left
  intro t ht
  have hiff : t.id∈rows.map ItemRow.id↔selects user
      (lowerBound (lastTarget (db.settingsJson user)) sourceText) sourceText t=true := by
    constructor
    · intro hid
      obtain ⟨q,hq,heq⟩ := List.mem_map.mp hid
      have htrow := hu.row_of_mem ht
      rw [← heq,hu.row_of_mem ((hmem q).mp hq).1] at htrow
      rw [← Option.some.inj htrow]
      exact ((hmem q).mp hq).2
    · intro hsel
      exact List.mem_map_of_mem ((hmem t).mpr ⟨ht,hsel⟩)
  by_cases hsel : selects user (lowerBound (lastTarget (db.settingsJson user)) sourceText) sourceText t=true
  · simp [hsel,hiff.mpr hsel]
  · have hnot : t.id∉rows.map ItemRow.id := fun hid => hsel (hiff.mp hid)
    simp [hsel,hnot]

theorem migrate_done (h : lastTarget (db.settingsJson user)=some (.text target)) :
    migrateUndoneTasksToDate user sourceText target now db=(db,0) := by
  unfold migrateUndoneTasksToDate
  exact if_pos h

theorem lastTarget_patchMarker (json : Option SettingsJson) :
    lastTarget (some (patchMarker target json))=some (.text target) := by
  have hfirst : ∀rest,List.lookup marker ((marker,Setting.text target)::rest)=some (.text target) :=
    fun rest => List.lookup_cons_self
  unfold patchMarker
  split
  · rename_i fields
    exact hfirst (fields.filter fun kv => decide (kv.1≠marker))
  · exact hfirst []

theorem migrate_marker :
    lastTarget ((migrateUndoneTasksToDate user sourceText target now db).1.settingsJson user)=
      some (.text target) := by
  by_cases hlast : lastTarget (db.settingsJson user)=some (.text target)
  · rw [migrate_done hlast]
    exact hlast
  unfold migrateUndoneTasksToDate
  dsimp only
  rw [if_neg hlast]
  unfold Db.settingsJson
  dsimp only
  have hrow : row SettingsRow.user (upsert SettingsRow.user
      ⟨user,some (patchMarker target none),now,0⟩ (fun _ => true) (recordTarget target now) db.settings)
      user=some (((row SettingsRow.user db.settings user).map (recordTarget target now)).getD
        ⟨user,some (patchMarker target none),now,0⟩) := row_upsert_self fun _ => rfl
  rw [hrow]
  cases row SettingsRow.user db.settings user with
  | none => exact lastTarget_patchMarker none
  | some r => exact lastTarget_patchMarker r.json

variable {last : Option Setting}

theorem lower_ne_nil {source : Date} : lowerBound last source.iso≠[] := by
  have hsource : source.iso≠[] := by
    intro hnil
    have hlen := source.iso_length
    rw [hnil] at hlen
    cases hlen
  unfold lowerBound
  split
  · split_ifs with hiso hlt
    · exact hsource
    · rintro rfl
      revert hiso
      decide
    · exact hsource
  · exact hsource

theorem lower_le {source d : Date} (hd : d ≤ source)
    (h : (∃p : Date,last=some (.text p.iso)∧p ≤ d)∨d=source) : lowerBound last source.iso ≤ d.iso := by
  rcases h with ⟨p,rfl,hp⟩ | rfl
  · have hiso : isIsoDate p.iso=true := by
      unfold isIsoDate
      rw [p.iso_length,p.readDate_iso]
      simpa using p.2
    have hle : ¬source.iso<p.iso := fun hlt => not_lt.mpr (hp.trans hd) (Date.iso_lt_iff.mp hlt)
    unfold lowerBound
    dsimp only
    rw [if_pos hiso,if_neg hle]
    exact Date.iso_le_iff.mpr hp
  · unfold lowerBound
    split
    · split_ifs with hiso hlt
      · exact le_rfl
      · exact not_lt.mp hlt
      · exact le_rfl
    · exact le_rfl

theorem exempt_not_selected {source : Date} (h : r.Exempt user source) :
    selects user (lowerBound last source.iso) source.iso r=false := by
  rw [Bool.eq_false_iff]
  intro hsel
  obtain ⟨hpending,p,hp,hlower,hsource⟩ := selects_iff.mp hsel
  rcases h with hnot | hnone | hempty | ⟨d,hd,hlater⟩
  · exact hnot hpending
  · rw [hnone] at hp
    cases hp
  · rw [hempty] at hp
    cases hp
    exact lower_ne_nil (List.le_nil.mp (not_lt.mpr hlower))
  · rw [hd] at hp
    cases hp
    exact absurd (Date.iso_le_iff.mp hsource) (not_le.mpr hlater)

/-! Every run -/

structure Kept (user : Text) (s : Progress) : Prop where
  unique : UniqueKeys ItemRow.id s.db.items
  sorted : s.targets.Pairwise (· ≤ ·)
  recorded : Recorded user s

theorem migrate_unique (hu : UniqueKeys ItemRow.id db.items) :
    UniqueKeys ItemRow.id (migrateUndoneTasksToDate user sourceText target now db).1.items := by
  by_cases hlast : lastTarget (db.settingsJson user)=some (.text target)
  · rw [migrate_done hlast]
    exact hu
  · rw [migrate_items _ _ hu hlast]
    exact hu.updateWhere fun _ => rfl

theorem Starts.kept (h : Starts user s) : Kept user s := by
  obtain ⟨hu,hlen,hrec⟩ := h
  refine ⟨hu,?_,hrec⟩
  match hs : s.targets,hlen with
  | [],_ => exact List.Pairwise.nil
  | [t],_ => exact List.pairwise_singleton _ t

theorem Kept.step {a : Act} {t : Progress} (h : Kept user s) (ha : Forward s a)
    (hstep : step user s a=some t) : Kept user t := by
  cases a with
  | migrate source target now =>
    cases hstep
    refine ⟨migrate_unique h.unique,?_,?_⟩
    · refine List.pairwise_append.mpr ⟨h.sorted,List.pairwise_singleton _ _,?_⟩
      intro t ht u hu
      rw [List.mem_singleton.mp hu]
      exact ha t ht
    · intro t
      dsimp only
      rw [List.getLast?_concat,migrate_marker]
      constructor
      · intro heq
        rw [Option.some.inj heq]
      · intro heq
        have hiso : target.iso=t.iso := by simpa using heq
        rw [Date.iso_injective hiso]
  | crash source target =>
    cases hstep
    exact h
  | edit items =>
    unfold Migration.step at hstep
    dsimp only at hstep
    split_ifs at hstep with hu
    cases hstep
    exact ⟨hu,h.sorted,h.recorded⟩
  | configure settings =>
    unfold Migration.step at hstep
    dsimp only at hstep
    split_ifs at hstep with hsame
    cases hstep
    refine ⟨h.unique,h.sorted,fun t => ?_⟩
    rw [hsame]
    exact h.recorded t

theorem kept_of_reach (h : Reach (step user) Forward (Starts user) s) : Kept user s :=
  h.invariant (fun _ hs => hs.kept) fun _ _ _ hk ha hstep => hk.step ha hstep

theorem last_of_mem {targets : List Date} {target : Date} (hs : targets.Pairwise (· ≤ ·))
    (hle : ∀t∈targets,t ≤ target) (hin : target∈targets) : targets.getLast?=some target := by
  induction targets using List.reverseRecOn with
  | nil => cases hin
  | append_singleton targets t _ =>
    rw [List.getLast?_concat]
    obtain ⟨-,-,hcross⟩ := List.pairwise_append.mp hs
    have ht : t ≤ target := hle t (List.mem_append_right _ (List.mem_singleton_self t))
    rcases List.mem_append.mp hin with hold | hold
    · have hge : target ≤ t := hcross target hold t (List.mem_singleton_self t)
      rw [le_antisymm ht hge]
    · rw [List.mem_singleton.mp hold]

/-- In every run whose targets do not go back: a target is done once, no plan of the days from the
previous target to the source stays before the target, and nothing else is changed. -/
theorem task_migration (h : Reach (step user) Forward (Starts user) s) (source target : Date)
    (hforward : ∀t∈s.targets,t ≤ target) :
    (target∈s.targets → migrateUndoneTasksToDate user source.iso target.iso now s.db=(s.db,0))∧
      CaughtUp user s.targets.getLast? source target
        (migrateUndoneTasksToDate user source.iso target.iso now s.db).1∧
      (∀r∈s.db.items,r.Exempt user source →
        r∈(migrateUndoneTasksToDate user source.iso target.iso now s.db).1.items)∧
      ∀r∈(migrateUndoneTasksToDate user source.iso target.iso now s.db).1.items,
        r∈s.db.items∨∃old∈s.db.items,old.Pending user∧r=moveTo target.iso now old := by
  obtain ⟨hu,hsorted,hrec⟩ := kept_of_reach h
  have hdone : target∈s.targets → lastTarget (s.db.settingsJson user)=some (.text target.iso) :=
    fun hin => (hrec target).mp (last_of_mem hsorted hforward hin)
  refine ⟨fun hin => migrate_done (hdone hin),?_⟩
  by_cases hlast : lastTarget (s.db.settingsJson user)=some (.text target.iso)
  · rw [migrate_done hlast]
    refine ⟨?_,fun r hr _ => hr,fun r hr => .inl hr⟩
    intro r hr hpending d hd hsource hfrom hnone
    exact hfrom target ((hrec target).mpr hlast)
  · have hitems := migrate_items source.iso now hu hlast
    refine ⟨?_,?_,?_⟩
    · intro r hr hpending d hd hsource hfrom hnone
      rw [hitems] at hr
      obtain ⟨old,hold,heq⟩ := List.mem_map.mp hr
      split_ifs at heq with hsel
      · rw [← heq] at hd
        have hiso : target.iso=d.iso := Option.some.inj hd
        exact (Date.iso_injective hiso).le
      · rw [← heq] at hd hpending
        have hwindow : (∃p : Date,lastTarget (s.db.settingsJson user)=some (.text p.iso)∧p ≤ d)∨d=source := by
          cases hprev : s.targets.getLast? with
          | none => exact .inr (hnone hprev)
          | some p => exact .inl ⟨p,(hrec p).mp hprev,hfrom p hprev⟩
        exact absurd (selects_iff.mpr ⟨hpending,d.iso,hd,lower_le hsource hwindow,
          Date.iso_le_iff.mpr hsource⟩) hsel
    · intro r hr hexempt
      rw [hitems]
      exact List.mem_map.mpr ⟨r,hr,by rw [exempt_not_selected hexempt]; rfl⟩
    · intro r hr
      rw [hitems] at hr
      obtain ⟨old,hold,rfl⟩ := List.mem_map.mp hr
      split_ifs with hsel
      · exact .inr ⟨old,hold,(selects_iff.mp hsel).1,rfl⟩
      · exact .inl hold

end

def april (day : Nat) (h : (⟨2026,4,day⟩ : Ymd).Valid) : Date := ⟨⟨2026,4,day⟩,h⟩

def yesterdays : Db :=
  ⟨[⟨['t'],['u'],.task,some (april 28 (by decide)).iso,some .openTask,false,0,[]⟩],[],[]⟩

theorem yesterdays_starts : Starts ['u'] ⟨yesterdays,[]⟩ := by
  refine ⟨by decide,by decide,fun t => ?_⟩
  constructor
  · intro h
    cases h
  · intro h
    cases h

/-- The second run of a day leaves what the first one did. -/
theorem task_migration_example :
    migrateUndoneTasksToDate ['u'] (april 28 (by decide)).iso (april 29 (by decide)).iso []
      (migrateUndoneTasksToDate ['u'] (april 28 (by decide)).iso (april 29 (by decide)).iso [] yesterdays).1=
      ((migrateUndoneTasksToDate ['u'] (april 28 (by decide)).iso (april 29 (by decide)).iso []
        yesterdays).1,0) :=
  (task_migration (.next (.migrate (april 28 (by decide)) (april 29 (by decide)) [])
    (.start yesterdays_starts) (fun _ h => absurd h List.not_mem_nil) rfl)
    (april 28 (by decide)) (april 29 (by decide))
    (fun _ h => (List.mem_singleton.mp h).le)).1 (List.mem_singleton_self _)

example : (migrateUndoneTasksToDate ['u'] (april 28 (by decide)).iso (april 29 (by decide)).iso []
    yesterdays).1.items.map ItemRow.planDate=[some (april 29 (by decide)).iso] := by decide

end XiaoQing.Pendo.Migration
