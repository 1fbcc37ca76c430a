import XiaoQing.Delivery.Fanout
import XiaoQing.Framework.Run

namespace XiaoQing.Delivery

open Commands Framework

/-- The state file, as the value that its text parses to. -/
inductive FanoutFile (β : Type)
  | missing
  | unreadable
  | root (value : JsonValue β)

/-- How a write of the file ends: a failing one may have replaced the file before it fails. -/
inductive WriteOutcome
  | ok
  | unchanged
  | replaced

variable {β : Type}

def schemaVersion : Int := 1

def fanoutRoot (pending : JsonValue β) : FanoutFile β :=
  .root (.dict [("version",.int schemaVersion),("pending",pending)])

/-- `root.get("version") == 1`, where `isOne` picks the other values equal to one. -/
def isVersion (isOne : β → Bool) : Option (JsonValue β) → Bool
  | some (.int n) => decide (n=schemaVersion)
  | some (.other v) => isOne v
  | _ => false

def FanoutFile.write (file new : FanoutFile β) : WriteOutcome → Except FanoutError Unit×FanoutFile β
  | .ok => (.ok (),new)
  | .unchanged => (.error .write,file)
  | .replaced => (.error .write,new)

section

variable (render : JsonValue β → Text) (isOne : β → Bool)

def loadPending : FanoutFile β → Except FanoutError (Option (PendingFanout β))
  | .missing => .ok none
  | .unreadable => .error .unreadable
  | .root (.dict f) =>
    if isVersion isOne (f.lookup "version") then
      match f.lookup "pending" with
      | none => .ok none
      | some .null => .ok none
      | some v => (decodePending render v).map some
    else .error .schema
  | .root _ => .error .schema

def savePending (p : PendingFanout β) (file : FanoutFile β) (o : WriteOutcome) :
    Except FanoutError Unit×FanoutFile β :=
  match decodePending render p.asJson with
  | .ok validated => file.write (fanoutRoot validated.asJson) o
  | .error e => (.error e,file)

def createPending (eventId : Text) (payload : List (JsonFields β)) (targets : List FanoutTarget)
    (commit : JsonFields β) (file : FanoutFile β) (o : WriteOutcome) :
    Except FanoutError (PendingFanout β)×FanoutFile β :=
  let pending : PendingFanout β := ⟨eventId,payload,targets,commit,∅⟩
  let saved := savePending render pending file o
  (saved.1.map fun _ => pending,saved.2)

def PendingFanout.deliver (p : PendingFanout β) (t : FanoutTarget) : PendingFanout β :=
  {p with delivered:=insert t.key p.delivered}

/-- The result of the call, the record in memory after it and the file after it. -/
def markDelivered (p : PendingFanout β) (t : FanoutTarget) (file : FanoutFile β) (o : WriteOutcome) :
    Except FanoutError Unit×PendingFanout β×FanoutFile β :=
  if t∈p.targets then
    let saved := savePending render (p.deliver t) file o
    (saved.1,p.deliver t,saved.2)
  else (.error .unknownTarget,p,file)

def clearPending (file : FanoutFile β) (o : WriteOutcome) : Except FanoutError Unit×FanoutFile β :=
  file.write (fanoutRoot .null) o

end

/-- One `_deliver_pending`: its record, the targets of its loop still ahead, the one being sent. -/
structure FanoutPass (β : Type) where
  record : PendingFanout β
  queue : List FanoutTarget
  sending : Option FanoutTarget
  failed : Bool

def FanoutPass.ahead (w : FanoutPass β) : List FanoutTarget := w.sending.toList++w.queue

structure FanoutState (β : Type) where
  file : FanoutFile β
  pass : Option (FanoutPass β)

inductive FanoutAct (β : Type)
  | load
  | create (eventId : Text) (payload : List (JsonFields β)) (targets : List FanoutTarget)
    (commit : JsonFields β) (o : WriteOutcome)
  | skip
  | send (t : FanoutTarget)
  | reject
  | acknowledge (o : WriteOutcome)
  | finish (o : WriteOutcome)
  | leave

def FanoutAct.creates : FanoutAct β → Bool
  | .create .. => true
  | _ => false

def startPass (p : PendingFanout β) : FanoutPass β := ⟨p,p.pendingTargets,none,false⟩

section

variable (render : JsonValue β → Text) (isOne : β → Bool)

def FanoutPass.step (file : FanoutFile β) (w : FanoutPass β) :
    FanoutAct β → Option (FanoutState β)
  | .skip =>
    match w.sending,w.queue with
    | none,_::rest => some ⟨file,some {w with queue:=rest}⟩
    | _,_ => none
  | .send t =>
    match w.sending,w.queue with
    | none,u::rest => if u=t then some ⟨file,some {w with queue:=rest,sending:=some t}⟩ else none
    | _,_ => none
  | .reject =>
    match w.sending with
    | some _ => some ⟨file,some {w with sending:=none}⟩
    | none => none
  | .acknowledge o =>
    match w.sending with
    | some t =>
      match markDelivered render w.record t file o with
      | (.ok _,p,file') => some ⟨file',some ⟨p,w.queue,none,false⟩⟩
      -- the loop stops at a callback error
      | (.error _,p,file') => some ⟨file',some ⟨p,[],none,true⟩⟩
    | none => none
  | .finish o =>
    if w.record.complete∧w.ahead=[]∧w.failed=false then some ⟨(clearPending file o).2,none⟩ else none
  | .leave => some ⟨file,none⟩
  | _ => none

/-- A run of the scheduled checks; `leave` ends a pass early, also by a crash. -/
def fanoutStep (s : FanoutState β) (a : FanoutAct β) : Option (FanoutState β) :=
  match s.pass with
  | some w => w.step render s.file a
  | none =>
    match a with
    | .load =>
      match loadPending render isOne s.file with
      | .ok (some p) => some ⟨s.file,some (startPass p)⟩
      | _ => some s
    | .create eventId payload targets commit o =>
      match loadPending render isOne s.file with
      | .ok none =>
        match createPending render eventId payload targets commit s.file o with
        | (.ok p,file) => some ⟨file,some (startPass p)⟩
        | (.error _,file) => some ⟨file,none⟩
      | _ => none
    | _ => none

end

/-- `q` is the record `p`, perhaps with fewer deliveries. -/
structure PendingFanout.Behind (q p : PendingFanout β) : Prop where
  same : {q with delivered:=p.delivered}=p
  delivered : q.delivered⊆p.delivered

section

variable {render : JsonValue β → Text} {isOne : β → Bool} {p q r : PendingFanout β}
  {file : FanoutFile β} {w : FanoutPass β} {t : FanoutTarget} {o : WriteOutcome}
  {a : FanoutAct β} {s u : FanoutState β}

theorem PendingFanout.Behind.refl (p : PendingFanout β) : p.Behind p := ⟨rfl,Finset.Subset.refl _⟩

theorem PendingFanout.behind_deliver (p : PendingFanout β) (t : FanoutTarget) : p.Behind (p.deliver t) :=
  ⟨rfl,Finset.subset_insert _ _⟩

theorem PendingFanout.Valid.deliver (h : p.Valid) (ht : t∈p.targets) : (p.deliver t).Valid := by
  refine ⟨h.eventId,h.payload,h.targets,h.unique,fun k hk => ?_⟩
  rcases Finset.mem_insert.mp hk with rfl | hk
  · exact List.mem_map_of_mem ht
  · exact h.delivered k hk

theorem mem_pendingTargets : t∈p.pendingTargets ↔ t∈p.targets∧t.key∉p.delivered := by
  simp [PendingFanout.pendingTargets]

theorem loadPending_root (h : p.Valid) : loadPending render isOne (fanoutRoot p.asJson)=.ok (some p) := by
  have hload : loadPending render isOne (fanoutRoot p.asJson)=(decodePending render p.asJson).map some := rfl
  rw [hload,decodePending_asJson h]
  rfl

theorem loadPending_null : loadPending render isOne (fanoutRoot .null)=.ok none := rfl

theorem loadPending_valid (h : loadPending render isOne file=.ok (some p)) : p.Valid := by
  unfold loadPending at h
  split at h
  · cases h
  · cases h
  · split_ifs at h
    split at h
    · cases h
    · cases h
    · rename_i v _ _
      cases hv : decodePending render v with
      | error e =>
        rw [hv] at h
        cases h
      | ok x =>
        rw [hv] at h
        cases h
        exact decodePending_valid hv
  · cases h

theorem savePending_valid (h : p.Valid) :
    savePending render p file o=file.write (fanoutRoot p.asJson) o := by
  unfold savePending
  rw [decodePending_asJson h]

theorem savePending_invalid (h : ¬p.Valid) (render : JsonValue β → Text) (file : FanoutFile β)
    (o : WriteOutcome) : ∃e,savePending render p file o=(.error e,file) := by
  unfold savePending
  cases hp : decodePending render p.asJson with
  | error e => exact ⟨e,rfl⟩
  | ok x =>
    have hx := decodePending_eq hp
    exact absurd (decodePending_valid (hx ▸ hp)) h

theorem savePending_file (render : JsonValue β → Text) (isOne : β → Bool) (p : PendingFanout β)
    (file : FanoutFile β) (o : WriteOutcome) : (savePending render p file o).2=file∨
    p.Valid∧loadPending render isOne (savePending render p file o).2=.ok (some p) := by
  by_cases h : p.Valid
  · rw [savePending_valid h]
    cases o with
    | ok => exact .inr ⟨h,loadPending_root h⟩
    | unchanged => exact .inl rfl
    | replaced => exact .inr ⟨h,loadPending_root h⟩
  · obtain ⟨e,he⟩ := savePending_invalid h render file o
    rw [he]
    exact .inl rfl

theorem savePending_ok (h : (savePending render p file o).1=.ok ()) :
    p.Valid∧loadPending render isOne (savePending render p file o).2=.ok (some p) := by
  by_cases hp : p.Valid
  · rw [savePending_valid hp] at h ⊢
    cases o with
    | ok => exact ⟨hp,loadPending_root hp⟩
    | unchanged => cases h
    | replaced => cases h
  · obtain ⟨e,he⟩ := savePending_invalid hp render file o
    rw [he] at h
    cases h

theorem createPending_ok {eventId : Text} {payload : List (JsonFields β)} {targets : List FanoutTarget}
    {commit : JsonFields β} {file' : FanoutFile β}
    (h : createPending render eventId payload targets commit file o=(.ok p,file')) :
    loadPending render isOne file'=.ok (some p) := by
  unfold createPending at h
  obtain ⟨hresult,hfile⟩ := Prod.mk.inj h
  cases hsave : (savePending render ⟨eventId,payload,targets,commit,∅⟩ file o).1 with
  | error e =>
    rw [hsave] at hresult
    cases hresult
  | ok x =>
    have hstored : loadPending render isOne (savePending render _ file o).2=_ := (savePending_ok hsave).2
    rw [hsave] at hresult
    cases hresult
    exact hfile ▸ hstored

/-- What one call of `mark_delivered` leaves. -/
structure Marks (render : JsonValue β → Text) (isOne : β → Bool) (p : PendingFanout β)
    (t : FanoutTarget) (file : FanoutFile β) (result : Except FanoutError Unit) (p' : PendingFanout β)
    (file' : FanoutFile β) : Prop where
  grows : p.Behind p'
  saved : result=.ok () → p'=p.deliver t∧loadPending render isOne file'=.ok (some p')
  unknown : t∉p.targets → result=.error .unknownTarget∧p'=p∧file'=file
  unsaved : t∈p.targets → p'=p.deliver t∧(file'=file∨loadPending render isOne file'=.ok (some p'))

theorem markDelivered_marks (render : JsonValue β → Text) (isOne : β → Bool) (p : PendingFanout β)
    (t : FanoutTarget) (file : FanoutFile β) (o : WriteOutcome) :
    Marks render isOne p t file (markDelivered render p t file o).1 (markDelivered render p t file o).2.1
      (markDelivered render p t file o).2.2 := by
  by_cases ht : t∈p.targets
  · have hmark : markDelivered render p t file o=((savePending render (p.deliver t) file o).1,p.deliver t,
        (savePending render (p.deliver t) file o).2) := if_pos ht
    rw [hmark]
    have hfile := savePending_file render isOne (p.deliver t) file o
    exact ⟨p.behind_deliver t,fun h => ⟨rfl,(savePending_ok h).2⟩,fun h => absurd ht h,
      fun _ => ⟨rfl,hfile.imp id And.right⟩⟩
  · have hmark : markDelivered render p t file o=(.error .unknownTarget,p,file) := if_neg ht
    rw [hmark]
    exact ⟨.refl p,fun h => (nomatch h),fun _ => ⟨rfl,rfl,rfl⟩,fun h => absurd h ht⟩

/-- The moves of a pass. -/
inductive PassMove (render : JsonValue β → Text) (file : FanoutFile β) (w : FanoutPass β) :
    FanoutAct β → FanoutState β → Prop
  | keep {a : FanoutAct β} {w' : FanoutPass β} : w'.record=w.record → w'.failed=w.failed →
    w'.ahead.Sublist w.ahead → (∀t,a=.send t → t∈w.ahead) → PassMove render file w a ⟨file,some w'⟩
  | marked {t : FanoutTarget} {o : WriteOutcome} : w.ahead=t::w.queue →
    (markDelivered render w.record t file o).1=.ok () → PassMove render file w (.acknowledge o)
      ⟨(markDelivered render w.record t file o).2.2,
        some ⟨(markDelivered render w.record t file o).2.1,w.queue,none,false⟩⟩
  | stopped {t : FanoutTarget} {o : WriteOutcome} : w.ahead=t::w.queue →
    PassMove render file w (.acknowledge o)
      ⟨(markDelivered render w.record t file o).2.2,
        some ⟨(markDelivered render w.record t file o).2.1,[],none,true⟩⟩
  | finished {o : WriteOutcome} : w.record.complete=true → w.ahead=[] → w.failed=false →
    PassMove render file w (.finish o) ⟨(clearPending file o).2,none⟩
  | left : PassMove render file w .leave ⟨file,none⟩

theorem pass_move (h : w.step render file a=some u) : PassMove render file w a u := by
  obtain ⟨record,queue,sending,failed⟩ := w
  cases a with dsimp only [FanoutPass.step] at h
  | load => cases h
  | create => cases h
  | skip =>
    split at h
    · cases h
      exact .keep rfl rfl (List.sublist_cons_self _ _) fun t ht => (nomatch ht)
    · cases h
  | send t =>
    split at h
    · rename_i head rest
      split_ifs at h with he
      cases h
      cases he
      refine .keep rfl rfl (List.Sublist.refl _) fun v hv => ?_
      cases hv
      exact List.mem_cons_self
    · cases h
  | reject =>
    split at h
    · cases h
      exact .keep rfl rfl (List.sublist_cons_self _ _) fun t ht => (nomatch ht)
    · cases h
  | acknowledge o =>
    split at h
    · rename_i t
      split at h
      · rename_i hmark
        cases h
        have hmove : PassMove render file ⟨record,queue,some t,failed⟩ (.acknowledge o) _ :=
          .marked rfl (congrArg Prod.fst hmark)
        rw [hmark] at hmove
        exact hmove
      · rename_i hmark
        cases h
        have hmove : PassMove render file ⟨record,queue,some t,failed⟩ (.acknowledge o) _ := .stopped rfl
        rw [hmark] at hmove
        exact hmove
    · cases h
  | finish o =>
    split_ifs at h with hdone
    cases h
    exact .finished hdone.1 hdone.2.1 hdone.2.2
  | leave =>
    cases h
    exact .left

structure FanoutPass.Holds (render : JsonValue β → Text) (isOne : β → Bool) (file : FanoutFile β)
    (w : FanoutPass β) : Prop where
  persisted : ∃q,loadPending render isOne file=.ok (some q)∧q.Behind w.record
  agrees : w.failed=false → loadPending render isOne file=.ok (some w.record)
  ahead : ∀t∈w.ahead,t∈w.record.targets∧t.key∉w.record.delivered
  distinct : (w.ahead.map FanoutTarget.key).Nodup
  stopped : w.failed=true → w.ahead=[]

theorem FanoutPass.Holds.open_agrees (hw : w.Holds render isOne file) (ht : t∈w.ahead) :
    loadPending render isOne file=.ok (some w.record) := by
  refine hw.agrees ?_
  by_contra hf
  rw [hw.stopped (Bool.eq_true_of_not_eq_false hf)] at ht
  exact List.not_mem_nil ht

theorem startPass_holds (h : loadPending render isOne file=.ok (some p)) :
    (startPass p).Holds render isOne file := by
  have hsub : (p.pendingTargets.map FanoutTarget.key).Sublist p.keys := List.filter_sublist.map _
  exact ⟨⟨p,h,.refl p⟩,fun _ => h,fun t ht => mem_pendingTargets.mp ht,
    (loadPending_valid h).unique.sublist hsub,fun hf => (nomatch hf)⟩

theorem move_holds (hw : w.Holds render isOne file) (h : PassMove render file w a u) :
    ∀w',u.pass=some w' → w'.Holds render isOne u.file := by
  intro v hv
  cases h with
  | keep hrecord hfailed hahead hsend =>
    cases hv
    refine ⟨hrecord ▸ hw.persisted,fun hf => ?_,fun t ht => ?_,hw.distinct.sublist (hahead.map _),
      fun hf => ?_⟩
    · rw [hrecord]
      exact hw.agrees (hfailed ▸ hf)
    · rw [hrecord]
      exact hw.ahead t (hahead.subset ht)
    · have hnil := hw.stopped (hfailed ▸ hf)
      exact List.sublist_nil.mp (hnil ▸ hahead)
  | @marked t o hahead hok =>
    cases hv
    obtain ⟨hrecord,hfile⟩ := (markDelivered_marks render isOne w.record t file o).saved hok
    have hdistinct := hw.distinct
    rw [hahead,List.map_cons,List.nodup_cons] at hdistinct
    refine ⟨⟨_,hfile,.refl _⟩,fun _ => hfile,fun v hv => ?_,hdistinct.2,fun hf => (nomatch hf)⟩
    obtain ⟨hmem,hopen⟩ := hw.ahead v (hahead ▸ List.mem_cons_of_mem t hv)
    have hne : v.key≠t.key := by
      intro he
      exact hdistinct.1 (he ▸ List.mem_map_of_mem hv)
    dsimp only
    rw [hrecord]
    exact ⟨hmem,fun hk => (Finset.mem_insert.mp hk).elim hne hopen⟩
  | @stopped t o hahead =>
    cases hv
    have ht : t∈w.ahead := hahead ▸ List.mem_cons_self
    have hmarks := markDelivered_marks render isOne w.record t file o
    obtain ⟨hrecord,hfile⟩ := hmarks.unsaved (hw.ahead t ht).1
    refine ⟨?_,fun hf => (nomatch hf),fun v hv => absurd hv List.not_mem_nil,List.nodup_nil,fun _ => rfl⟩
    rcases hfile with hsame | hnew
    · dsimp only
      rw [hsame]
      exact ⟨_,hw.open_agrees ht,hmarks.grows⟩
    · exact ⟨_,hnew,.refl _⟩
  | finished => cases hv
  | left => cases hv

theorem move_file (hw : w.Holds render isOne file) (h : PassMove render file w a u)
    (hq : loadPending render isOne file=.ok (some q)) :
    (∃q',loadPending render isOne u.file=.ok (some q')∧q.Behind q')∨
      loadPending render isOne u.file=.ok none∧u.pass=none∧q.complete=true := by
  cases h with
  | keep => exact .inl ⟨q,hq,.refl q⟩
  | @marked t o hahead hok =>
    have hmarks := markDelivered_marks render isOne w.record t file o
    have hsame := hw.open_agrees (hahead ▸ List.mem_cons_self)
    rw [hq] at hsame
    cases hsame
    exact .inl ⟨_,(hmarks.saved hok).2,hmarks.grows⟩
  | @stopped t o hahead =>
    have hmarks := markDelivered_marks render isOne w.record t file o
    have ht : t∈w.ahead := hahead ▸ List.mem_cons_self
    have hsame := hw.open_agrees ht
    rw [hq] at hsame
    cases hsame
    rcases (hmarks.unsaved (hw.ahead t ht).1).2 with hold | hnew
    · refine .inl ⟨_,?_,.refl _⟩
      dsimp only
      rw [hold]
      exact hq
    · exact .inl ⟨_,hnew,hmarks.grows⟩
  | @finished o hcomplete _ hfailed =>
    have hsame := hw.agrees hfailed
    rw [hq] at hsame
    cases hsame
    cases o with
    | ok => exact .inr ⟨loadPending_null,rfl,hcomplete⟩
    | unchanged => exact .inl ⟨_,hq,.refl _⟩
    | replaced => exact .inr ⟨loadPending_null,rfl,hcomplete⟩
  | left => exact .inl ⟨q,hq,.refl q⟩

theorem move_sends (hw : w.Holds render isOne file) (h : PassMove render file w (.send t) u)
    (hq : loadPending render isOne file=.ok (some q)) : t.key∉q.delivered := by
  cases h with
  | keep hrecord hfailed hahead hsend =>
    obtain ⟨r,hr,hbehind⟩ := hw.persisted
    rw [hq] at hr
    cases hr
    exact fun hk => (hw.ahead t (hsend t rfl)).2 (hbehind.delivered hk)

def Held (render : JsonValue β → Text) (isOne : β → Bool) (s : FanoutState β) : Prop :=
  ∀w,s.pass=some w → w.Holds render isOne s.file

theorem step_held (hs : Held render isOne s) (h : fanoutStep render isOne s a=some u) :
    Held render isOne u := by
  unfold fanoutStep at h
  split at h
  · rename_i w hw
    exact move_holds (hs w hw) (pass_move h)
  · rename_i hnone
    split at h
    · split at h
      · rename_i p hp
        cases h
        intro w hw
        cases hw
        exact startPass_holds hp
      · cases h
        exact hs
    · split at h
      · split at h
        · rename_i p file hcreate
          cases h
          intro w hw
          cases hw
          exact startPass_holds (createPending_ok hcreate)
        · cases h
          intro w hw
          cases hw
      · cases h
    · cases h

theorem step_file (hs : Held render isOne s) (h : fanoutStep render isOne s a=some u)
    (hq : loadPending render isOne s.file=.ok (some q)) :
    (∃q',loadPending render isOne u.file=.ok (some q')∧q.Behind q')∨
      loadPending render isOne u.file=.ok none∧u.pass=none∧q.complete=true := by
  unfold fanoutStep at h
  split at h
  · rename_i w hw
    exact move_file (hs w hw) (pass_move h) hq
  · split at h
    · rw [hq] at h
      cases h
      exact .inl ⟨q,hq,.refl q⟩
    · rw [hq] at h
      cases h
    · cases h

theorem step_sends (hs : Held render isOne s) (h : fanoutStep render isOne s (.send t)=some u)
    (hq : loadPending render isOne s.file=.ok (some q)) : t.key∉q.delivered := by
  unfold fanoutStep at h
  split at h
  · rename_i w hw
    exact move_sends (hs w hw) (pass_move h) hq
  · cases h

def Persisted (render : JsonValue β → Text) (isOne : β → Bool) (k : Text) (s : FanoutState β) : Prop :=
  ∃q,loadPending render isOne s.file=.ok (some q)∧k∈q.delivered

def Idle (render : JsonValue β → Text) (isOne : β → Bool) (s : FanoutState β) : Prop :=
  loadPending render isOne s.file=.ok none∧s.pass=none

theorem step_idle (hs : Idle render isOne s) (h : fanoutStep render isOne s a=some u)
    (ha : a.creates=false) : Idle render isOne u := by
  unfold fanoutStep at h
  rw [hs.2] at h
  dsimp only at h
  split at h
  · rw [hs.1] at h
    cases h
    exact hs
  · cases ha
  · cases h

theorem step_settled {k : Text} (hs : Held render isOne s) (h : fanoutStep render isOne s a=some u)
    (ha : a.creates=false) (hk : Persisted render isOne k s∨Idle render isOne s) :
    Persisted render isOne k u∨Idle render isOne u := by
  rcases hk with ⟨q,hq,hk⟩ | hidle
  · rcases step_file hs h hq with ⟨q',hq',hbehind⟩ | ⟨hnone,hpass,-⟩
    · exact .inl ⟨q',hq',hbehind.delivered hk⟩
    · exact .inr ⟨hnone,hpass⟩
  · exact .inr (step_idle hidle h ha)

theorem run_sends {k : Text} (acts : List (FanoutAct β)) (hs : Held render isOne s)
    (h : execute (fanoutStep render isOne) s acts=some u) (hacts : ∀a∈acts,a.creates=false)
    (hk : Persisted render isOne k s∨Idle render isOne s) : ∀t,.send t∈acts → t.key≠k := by
  induction acts generalizing s with
  | nil =>
    intro t ht
    cases ht
  | cons a acts ih =>
    obtain ⟨v,hv,hrun⟩ := Option.bind_eq_some_iff.mp h
    have ha := hacts a List.mem_cons_self
    intro t ht
    rcases List.mem_cons.mp ht with rfl | ht
    · rcases hk with ⟨q,hq,hk⟩ | hidle
      · rintro rfl
        exact step_sends hs hv hq hk
      · unfold fanoutStep at hv
        rw [hidle.2] at hv
        cases hv
    · exact ih (step_held hs hv) hrun (fun b hb => hacts b (List.mem_cons_of_mem a hb))
        (step_settled hs hv ha hk) t ht

end

structure FanoutCalls (render : JsonValue β → Text) (isOne : β → Bool) : Prop where
  decodes : ∀p : PendingFanout β,decodePending render p.asJson=.ok p ↔ p.Valid
  decoded : ∀p q : PendingFanout β,decodePending render p.asJson=.ok q → q=p
  loads : ∀file p,loadPending render isOne file=.ok (some p) → p.Valid
  saves : ∀p file o,(savePending render p file o).2=file∨
    p.Valid∧loadPending render isOne (savePending render p file o).2=.ok (some p)
  saved : ∀p file o,(savePending render p file o).1=.ok () →
    p.Valid∧loadPending render isOne (savePending render p file o).2=.ok (some p)
  marks : ∀p t file o,Marks render isOne p t file (markDelivered render p t file o).1
    (markDelivered render p t file o).2.1 (markDelivered render p t file o).2.2

structure FanoutProgress (render : JsonValue β → Text) (isOne : β → Bool) (s : FanoutState β) : Prop where
  agrees : ∀w,s.pass=some w → w.failed=false → loadPending render isOne s.file=.ok (some w.record)
  behind : ∀w,s.pass=some w → ∃q,loadPending render isOne s.file=.ok (some q)∧q.Behind w.record
  stopped : ∀w,s.pass=some w → w.failed=true → w.ahead=[]
  grows : ∀a u q,fanoutStep render isOne s a=some u → loadPending render isOne s.file=.ok (some q) →
    (∃q',loadPending render isOne u.file=.ok (some q')∧q.Behind q')∨
      loadPending render isOne u.file=.ok none∧u.pass=none∧q.complete=true
  once : ∀acts u k,execute (fanoutStep render isOne) s acts=some u → (∀a∈acts,a.creates=false) →
    Persisted render isOne k s → ∀t,.send t∈acts → t.key≠k

/-- In every run, whatever the writes do, deliveries that reached the file are not made again. -/
theorem fanout_progress (render : JsonValue β → Text) (isOne : β → Bool) {s : FanoutState β}
    (h : Reach (fanoutStep render isOne) Free (fun s => s.pass=none) s) :
    FanoutCalls render isOne∧FanoutProgress render isOne s := by
  have hheld : Held render isOne s := by
    refine h.invariant (fun s hnone w hw => ?_) fun s a u hs _ hstep => step_held hs hstep
    rw [hnone] at hw
    cases hw
  refine ⟨⟨fun p => decodePending_asJson_iff,fun p q => decodePending_eq,fun file p => loadPending_valid,
    savePending_file render isOne,fun p file o => savePending_ok,markDelivered_marks render isOne⟩,?_⟩
  exact ⟨fun w hw => (hheld w hw).agrees,fun w hw => (hheld w hw).persisted,
    fun w hw => (hheld w hw).stopped,fun a u q hstep hq => step_file hheld hstep hq,
    fun acts u k hrun hacts hk => run_sends acts hheld hrun hacts (.inl hk)⟩

def oneGroup : FanoutTarget := ⟨.group,1,Int.one_pos⟩

def onlyGroup : PendingFanout Unit := ⟨['e'],[],[oneGroup],[],∅⟩

theorem onlyGroup_valid : onlyGroup.Valid :=
  ⟨by decide,by decide,by decide,List.nodup_singleton _,fun k hk => absurd hk (Finset.notMem_empty k)⟩

theorem onlyGroup_pending : onlyGroup.pendingTargets=[oneGroup] := by
  simp [PendingFanout.pendingTargets,onlyGroup]

theorem onlyGroup_delivered : (onlyGroup.deliver oneGroup).pendingTargets=[] := by
  simp [PendingFanout.pendingTargets,PendingFanout.deliver,onlyGroup]

theorem onlyGroup_unsaved (file : FanoutFile Unit) : markDelivered (fun _ => []) onlyGroup oneGroup file .unchanged=
    (.error .write,onlyGroup.deliver oneGroup,file) := by
  have hmem : oneGroup∈onlyGroup.targets := List.mem_singleton_self _
  unfold markDelivered
  rw [if_pos hmem,savePending_valid (onlyGroup_valid.deliver hmem)]
  rfl

/-- A pass that loads the record, sends, and fails to store the delivery. -/
theorem fanout_progress_stopped :
    FanoutCalls (fun _ : JsonValue Unit => []) (fun _ => false)∧
      FanoutProgress (fun _ => []) (fun _ => false)
        ⟨fanoutRoot onlyGroup.asJson,some ⟨onlyGroup.deliver oneGroup,[],none,true⟩⟩ := by
  have hload : fanoutStep (fun _ => []) (fun _ => false) ⟨fanoutRoot onlyGroup.asJson,none⟩ .load=
      some ⟨fanoutRoot onlyGroup.asJson,some ⟨onlyGroup,[oneGroup],none,false⟩⟩ := by
    dsimp only [fanoutStep]
    rw [loadPending_root onlyGroup_valid,← onlyGroup_pending]
    rfl
  have hsend : fanoutStep (fun _ => []) (fun _ => false)
      ⟨fanoutRoot onlyGroup.asJson,some ⟨onlyGroup,[oneGroup],none,false⟩⟩ (.send oneGroup)=
      some ⟨fanoutRoot onlyGroup.asJson,some ⟨onlyGroup,[],some oneGroup,false⟩⟩ := by
    dsimp only [fanoutStep,FanoutPass.step]
    exact if_pos rfl
  have hack : fanoutStep (fun _ => []) (fun _ => false)
      ⟨fanoutRoot onlyGroup.asJson,some ⟨onlyGroup,[],some oneGroup,false⟩⟩ (.acknowledge .unchanged)=
      some ⟨fanoutRoot onlyGroup.asJson,some ⟨onlyGroup.deliver oneGroup,[],none,true⟩⟩ := by
    dsimp only [fanoutStep,FanoutPass.step]
    rw [onlyGroup_unsaved]
  exact fanout_progress (fun _ => []) (fun _ => false)
    (.next _ (.next _ (.next _ (.start rfl) trivial hload) trivial hsend) trivial hack)

/-- After a save that failed the memory counts the target as delivered, and the file does not. -/
theorem failed_save_stays_in_memory : ∃(p p' : PendingFanout Unit) (file file' : FanoutFile Unit),
    loadPending (fun _ => []) (fun _ => false) file=.ok (some p)∧
      markDelivered (fun _ => []) p oneGroup file .unchanged=(.error .write,p',file')∧
      loadPending (fun _ => []) (fun _ => false) file'=.ok (some p)∧
      p.pendingTargets=[oneGroup]∧p'.pendingTargets=[] :=
  ⟨onlyGroup,_,fanoutRoot onlyGroup.asJson,_,loadPending_root onlyGroup_valid,onlyGroup_unsaved _,
    loadPending_root onlyGroup_valid,onlyGroup_pending,onlyGroup_delivered⟩

end XiaoQing.Delivery
