import XiaoQing.Storage.JsonStore

namespace XiaoQing.Storage.JsonStore

open Framework Json

variable {s : JsonStore} {w w' : World} {d : Data} {payload : Bytes} {v : Value} {path : FileName}

theorem os_cases {α : Type} {p : Prog OsError α} {o : Outcome StoreError α} (h : os p w=(o,w')) :
    ∃q,p w=(q,w')∧∀a,o=.done a ↔ q=.done a := by
  unfold os Prog.mapError at h
  split at h <;> cases h <;> exact ⟨_,‹_›,by simp⟩

theorem readBytes_cases {f : FileName} {o : Outcome StoreError (Option Bytes)}
    (h : os (readBytes f) w=(o,w')) :
    w'.disk=w.disk∧w'.replaced=w.replaced∧∀b,o=.done b → b=w.disk f := by
  obtain ⟨q,hq,ho⟩ := os_cases h
  obtain ⟨hd,hr,hb⟩ := readBytes_keeps hq
  exact ⟨hd,hr,fun b hdone => hb b ((ho b).mp hdone)⟩

variable {o : Outcome StoreError Unit}

theorem atomicWrite_cases (hp : path.isTemp=false)
    (h : s.atomicWrite path payload w=(o,w')) : ∃q,Replaces path payload w q w'∧(o=.done () ↔ q=.done ()) := by
  obtain ⟨q,hq,ho⟩ := os_cases h
  exact ⟨q,atomicWriteBytes_replaces hp hq,ho ()⟩

def Holds (s : JsonStore) (w : World) (f : FileName) (v : Value) : Prop :=
  ∃p,w.disk f=some p∧s.decode p=.ok v

/-! One operation -/

/-- What `write` and `write_with_backup` can do, whatever happens: the main file is as it was or has the
new value, as the replacements tell. -/
structure Wrote (s : JsonStore) (d : Data) (w w' : World) : Prop where
  main : ∃l,w'.replaced=l++w.replaced∧
    (.main∈l → ∃p,s.encode d=.ok p∧w'.disk .main=some p)∧(.main∉l → w'.disk .main=w.disk .main)
  backup : w'.disk .backup=w.disk .backup∨w'.disk .backup=w.disk .main∧(∃v,Holds s w .main v)∨
    ∃p,s.encode d=.ok p∧w'.disk .backup=some p

theorem Wrote.replan {plan : List Fault} (h : Wrote s d {w with plan := plan} w') : Wrote s d w w' :=
  ⟨h.main,h.backup⟩

theorem Wrote.unchanged (hd : w'.disk=w.disk) (hr : w'.replaced=w.replaced) : Wrote s d w w' := by
  refine ⟨⟨[],by rw [hr,List.nil_append],by simp,fun _ => by rw [hd]⟩,.inl (by rw [hd])⟩

structure Saved (s : JsonStore) (w : World) (o : Outcome StoreError Unit) (w' : World) : Prop where
  main : w'.disk .main=w.disk .main
  replaced : w'.replaced=w.replaced∨w'.replaced=.backup::w.replaced
  backup : w'.disk .backup=w.disk .backup∨w'.disk .backup=w.disk .main∧∃v,Holds s w .main v
  done : o=.done () → (∃v,Holds s w .main v) → w'.disk .backup=w.disk .main

theorem saveOld_cases (h : s.saveOld (w.disk .main) w=(o,w')) :
    Saved s w o w' := by
  have hsame : ∀u,w=u → (¬∃v,Holds s w .main v) → Saved s w o u := by
    rintro u rfl hnot
    exact ⟨rfl,.inl rfl,.inl rfl,fun _ hv => absurd hv hnot⟩
  cases hmain : w.disk .main with
  | none =>
    rw [hmain] at h
    cases h
    apply hsame w rfl
    rintro ⟨v,p,hp,-⟩
    rw [hmain] at hp
    cases hp
  | some current =>
    rw [hmain] at h
    cases hdec : s.decode current with
    | ok v =>
      simp only [saveOld,hdec] at h
      obtain ⟨q,hrep,ho⟩ := atomicWrite_cases rfl h
      have hholds : ∃v,Holds s w .main v := ⟨v,current,hmain,hdec⟩
      refine ⟨hrep.others .main rfl (by simp),hrep.target.imp And.left And.left,?_,fun hdone _ => ?_⟩
      · exact hrep.target.imp And.right fun ht => ⟨ht.2.trans hmain.symm,hholds⟩
      · exact (hrep.done (ho.mp hdone)).2.trans hmain.symm
    | error e =>
      have hnot : ¬∃v,Holds s w .main v := by
        rintro ⟨v,p,hp,hv⟩
        rw [hmain] at hp
        cases hp
        rw [hdec] at hv
        cases hv
      simp only [saveOld,hdec] at h
      split_ifs at h <;> cases h <;> exact hsame w rfl hnot

theorem Wrote.replace {u : World} {l : List FileName} {q : Outcome OsError Unit} (henc : s.encode d=.ok payload)
    (hmain : u.disk .main=w.disk .main) (hl : u.replaced=l++w.replaced) (hnot : .main∉l)
    (hback : u.disk .backup=w.disk .backup∨u.disk .backup=w.disk .main∧∃v,Holds s w .main v)
    (hrep : Replaces .main payload u q w') : Wrote s d w w' := by
  have hkeep := hrep.others .backup rfl (by simp)
  refine ⟨?_,?_⟩
  · obtain ⟨hr,hd⟩ | ⟨hr,hd⟩ := hrep.target
    · exact ⟨l,hr.trans hl,fun hm => absurd hm hnot,fun _ => hd.trans hmain⟩
    · refine ⟨.main::l,by rw [hr,hl,List.cons_append],fun _ => ⟨payload,henc,hd⟩,fun hm => ?_⟩
      exact absurd (List.mem_cons_self ..) hm
  · obtain hb | ⟨hb,hv⟩ := hback
    · exact .inl (hkeep.trans hb)
    · exact .inr (.inl ⟨hkeep.trans hb,hv⟩)

theorem Saved.since {u : World} (h : Saved s u o w') (hd : u.disk=w.disk)
    (hr : u.replaced=w.replaced) : Saved s w o w' := by
  have hholds : (∃v,Holds s u .main v) ↔ ∃v,Holds s w .main v := by simp only [Holds,hd]
  obtain ⟨hmain,hrep,hback,hdone⟩ := h
  rw [hd] at hmain
  rw [hr] at hrep
  rw [hd,hholds] at hback
  rw [hd,hholds] at hdone
  exact ⟨hmain,hrep,hback,hdone⟩

theorem Saved.list (h : Saved s w o w') :
    ∃l,w'.replaced=l++w.replaced∧.main∉l := by
  obtain hrep | hrep := h.replaced
  · exact ⟨[],hrep,by simp⟩
  · exact ⟨[.backup],hrep,by simp⟩

theorem Saved.wrote (h : Saved s w o w') : Wrote s d w w' := by
  obtain ⟨l,hl,hnot⟩ := h.list
  exact ⟨⟨l,hl,fun hm => absurd hm hnot,fun _ => h.main⟩,h.backup.imp_right .inl⟩

theorem write_cases (h : s.write d w=(o,w')) :
    Wrote s d w w'∧(o=.done () → Holds s w' .main d.value∧
      ((∃v,Holds s w .main v) → w'.disk .backup=w.disk .main)) := by
  unfold write at h
  cases henc : s.encode d with
  | error e =>
    rw [henc] at h
    cases h
    exact ⟨.unchanged rfl rfl,by simp⟩
  | ok p =>
    rw [henc] at h
    have hrun : (do
        let current ← os (readBytes .main)
        s.saveOld current
        s.atomicWrite .main p : Prog StoreError Unit) w=(o,w') := h
    obtain ⟨current,u,hu,hrest⟩ | ⟨hn,q,hu,-⟩ := bind_cases hrun
    swap
    · obtain ⟨hd,hr,-⟩ := readBytes_cases hu
      exact ⟨.unchanged hd hr,fun hd => absurd hd (hn ())⟩
    obtain ⟨hd,hr,hcurrent⟩ := readBytes_cases hu
    have hc : current=u.disk .main := by
      rw [hd]
      exact hcurrent current rfl
    subst hc
    obtain ⟨_,t,ht,hlast⟩ | ⟨hn,q,ht,-⟩ := bind_cases hrest
    swap
    · exact ⟨((saveOld_cases ht).since hd hr).wrote,fun hd => absurd hd (hn ())⟩
    have hsaved := (saveOld_cases ht).since hd hr
    obtain ⟨l,hl,hnot⟩ := hsaved.list
    obtain ⟨q,hrep,ho⟩ := atomicWrite_cases rfl hlast
    refine ⟨.replace henc hsaved.main hl hnot hsaved.backup hrep,fun hdone => ⟨?_,fun hv => ?_⟩⟩
    · exact ⟨p,(hrep.done (ho.mp hdone)).2,decode_encode henc⟩
    · rw [hrep.others .backup rfl (by simp)]
      exact hsaved.done rfl hv

theorem writeWithBackup_cases (h : s.writeWithBackup d w=(o,w')) :
    Wrote s d w w'∧(o=.done () → Holds s w' .main d.value∧Holds s w' .backup d.value) := by
  unfold writeWithBackup at h
  cases henc : s.encode d with
  | error e =>
    rw [henc] at h
    cases h
    exact ⟨.unchanged rfl rfl,by simp⟩
  | ok p =>
    rw [henc] at h
    have hrun : (do
        s.atomicWrite .main p
        s.atomicWrite .backup p : Prog StoreError Unit) w=(o,w') := h
    obtain ⟨_,u,hu,hlast⟩ | ⟨hn,q,hu,-⟩ := bind_cases hrun
    swap
    · obtain ⟨r,hrep,-⟩ := atomicWrite_cases rfl hu
      exact ⟨.replace henc rfl (l:=[]) rfl (by simp) (.inl rfl) hrep,fun hd => absurd hd (hn ())⟩
    obtain ⟨q,hmain,hq⟩ := atomicWrite_cases rfl hu
    obtain ⟨hr,hp⟩ := hmain.done (hq.mp rfl)
    obtain ⟨r,hback,ho⟩ := atomicWrite_cases rfl hlast
    have hkeep : w'.disk .main=some p := (hback.others .main rfl (by simp)).trans hp
    refine ⟨⟨?_,?_⟩,fun hdone => ⟨⟨p,hkeep,decode_encode henc⟩,p,(hback.done (ho.mp hdone)).2,
      decode_encode henc⟩⟩
    · obtain ⟨hr',-⟩ | ⟨hr',-⟩ := hback.target
      · exact ⟨[.main],by rw [hr',hr,List.singleton_append],fun _ => ⟨p,henc,hkeep⟩,by simp⟩
      · exact ⟨[.backup,.main],by rw [hr',hr]; rfl,fun _ => ⟨p,henc,hkeep⟩,by simp⟩
    · obtain ⟨-,hd⟩ | ⟨-,hd⟩ := hback.target
      · exact .inl (hd.trans (hmain.others .backup rfl (by simp)))
      · exact .inr (.inr ⟨p,henc,hd⟩)

theorem atomicWrite_calm (path : FileName) (payload : Bytes) (h : w.plan=[]) :
    ∃w',s.atomicWrite path payload w=(.done (),w')∧w'.plan=[] := by
  obtain ⟨u,hu,hplan⟩ := atomicWriteBytes_calm s.posix path payload h
  refine ⟨u,?_,hplan⟩
  simp only [atomicWrite,os,Prog.mapError,hu]

theorem writeWithBackup_calm (hplan : w.plan=[]) (henc : s.encode d=.ok payload) :
    ∃w',s.writeWithBackup d w=(.done (),w') := by
  obtain ⟨u,hu,hplan'⟩ := atomicWrite_calm (s:=s) .main payload hplan
  obtain ⟨t,ht,-⟩ := atomicWrite_calm (s:=s) .backup payload hplan'
  have hpayload : Prog.ofExcept (s.encode d) w=(.done payload,w) := by
    rw [henc]
    rfl
  refine ⟨t,?_⟩
  unfold writeWithBackup
  rw [bind_calm hpayload,bind_calm hu,ht]

theorem read_cases {strict : Bool} {o : Outcome StoreError (Option Value)} (hv : Holds s w .main v)
    (h : s.read strict w=(o,w')) : w'.disk=w.disk∧w'.replaced=w.replaced := by
  obtain ⟨p,hp,hdec⟩ := hv
  unfold read at h
  obtain ⟨b,u,hu,hrest⟩ | ⟨hn,q,hu,-⟩ := bind_cases h
  · obtain ⟨hd,hr,hb⟩ := readBytes_cases hu
    have hbp : b=some p := (hb b rfl).trans hp
    subst hbp
    dsimp only at hrest
    rw [hdec] at hrest
    cases hrest
    exact ⟨hd,hr⟩
  · obtain ⟨hd,hr,-⟩ := readBytes_cases hu
    exact ⟨hd,hr⟩

theorem read_calm {strict : Bool} (hplan : w.plan=[]) (hv : Holds s w .main v) :
    s.read strict w=(.done (some v),w) := by
  obtain ⟨p,hp,hdec⟩ := hv
  have hread : os (readBytes .main) w=(.done (some p),w) := by
    have hcall : readBytes .main w=(.done (w.disk .main),w) := call_calm hplan
    simp only [os,Prog.mapError,hcall,hp]
  unfold read
  rw [bind_calm hread]
  dsimp only
  rw [hdec]
  rfl

theorem read_recovers {b : Bytes} {e : StoreError} (hplan : w.plan=[]) (hmain : w.disk .main=some b)
    (hb : s.decode b=.error e) (he : e.isCorrupt=true) (hv : Holds s w .backup v) :
    ∃w',s.read false w=(.done (some v),w')∧w'.disk .main=w.disk .backup∧w'.disk .backup=w.disk .backup := by
  obtain ⟨p,hp,hdec⟩ := hv
  have hread : ∀f,os (readBytes f) w=(.done (w.disk f),w) := by
    intro f
    have hcall : readBytes f w=(.done (w.disk f),w) := call_calm hplan
    simp only [os,Prog.mapError,hcall]
  obtain ⟨u,hwrite,-⟩ := atomicWrite_calm (s:=s) .main p hplan
  obtain ⟨q,hrep,hq⟩ := atomicWrite_cases rfl hwrite
  refine ⟨u,?_,by rw [(hrep.done (hq.mp rfl)).2,hp],hrep.others .backup rfl (by simp)⟩
  unfold read
  rw [bind_calm (hread .main),hmain]
  dsimp only
  rw [hb]
  dsimp only
  rw [he,Bool.not_false,Bool.and_true,if_pos rfl]
  unfold recover
  rw [bind_calm (hread .backup),hp]
  dsimp only
  rw [hdec]
  exact bind_calm hwrite

/-! Runs of operations, with faults and crashes at any call -/

variable {e : StoreEvent} {es later : List StoreEvent} {S : List Value} {f : FileName}

def values (es : List StoreEvent) : List Value := es.filterMap fun e => e.op.data.map Data.value

theorem values_cons : values (e::es)=values [e]++values es := by
  rw [values,values,values,List.filterMap_cons,List.filterMap_cons]
  cases e.op.data.map Data.value <;> rfl

theorem values_single (h : e.op.data=some d) : values [e]=[d.value] := by
  simp [values,h]

theorem after_cons (w : World) (e : StoreEvent) (es : List StoreEvent) :
    s.after w (e::es)=s.after (s.event e w).2 es := rfl

theorem after_append (w : World) (es fs : List StoreEvent) : s.after w (es++fs)=s.after (s.after w es) fs :=
  List.foldl_append

theorem event_write (h : e.op.data=some d) : Wrote s d w (s.event e w).2∧
    (s.completes e w → Holds s (s.event e w).2 .main d.value∧
      (∀d',e.op=.writeWithBackup d' → Holds s (s.event e w).2 .backup d.value)∧
      (∀d',e.op=.write d' → (∃v,Holds s w .main v) → (s.event e w).2.disk .backup=w.disk .main)) := by
  obtain ⟨op,plan⟩ := e
  cases op with
  | read strict => cases h
  | write d' =>
    cases h
    unfold completes
    cases hev : s.event ⟨.write d,plan⟩ w with
    | mk o w' =>
      have hrun : (do
          s.write d
          return none : Prog StoreError (Option Value)) {w with plan := plan}=(o,w') := hev
      obtain ⟨_,u,hu,hrest⟩ | ⟨hn,q,hu,-⟩ := bind_cases hrun
      · obtain ⟨hwrote,hdone⟩ := write_cases hu
        cases hrest
        obtain ⟨hmain,hback⟩ := hdone rfl
        exact ⟨hwrote.replan,fun _ => ⟨hmain,by simp,fun _ _ => hback⟩⟩
      · obtain ⟨hwrote,-⟩ := write_cases hu
        exact ⟨hwrote.replan,fun hc => absurd hc.choose_spec (hn _)⟩
  | writeWithBackup d' =>
    cases h
    unfold completes
    cases hev : s.event ⟨.writeWithBackup d,plan⟩ w with
    | mk o w' =>
      have hrun : (do
          s.writeWithBackup d
          return none : Prog StoreError (Option Value)) {w with plan := plan}=(o,w') := hev
      obtain ⟨_,u,hu,hrest⟩ | ⟨hn,q,hu,-⟩ := bind_cases hrun
      · obtain ⟨hwrote,hdone⟩ := writeWithBackup_cases hu
        cases hrest
        obtain ⟨hmain,hback⟩ := hdone rfl
        exact ⟨hwrote.replan,fun _ => ⟨hmain,fun _ _ => hback,by simp⟩⟩
      · obtain ⟨hwrote,-⟩ := writeWithBackup_cases hu
        exact ⟨hwrote.replan,fun hc => absurd hc.choose_spec (hn _)⟩

theorem event_read {strict : Bool} (h : e.op=.read strict) (hv : Holds s w .main v) :
    (s.event e w).2.disk=w.disk := by
  obtain ⟨op,plan⟩ := e
  cases h
  have hsame : Holds s {w with plan := plan} .main v := hv
  exact (read_cases hsame (o:=(s.event ⟨.read strict,plan⟩ w).1) rfl).1

theorem Wrote.main_holds (h : Wrote s d w w') (hv : ∃v∈S,Holds s w .main v) :
    ∃v∈S++[d.value],Holds s w' .main v := by
  obtain ⟨l,-,hin,hout⟩ := h.main
  obtain ⟨v,hvs,hv⟩ := hv
  by_cases hl : .main∈l
  · obtain ⟨p,henc,hp⟩ := hin hl
    exact ⟨d.value,by simp,p,hp,decode_encode henc⟩
  · refine ⟨v,List.mem_append_left _ hvs,?_⟩
    rwa [Holds,hout hl]

theorem Wrote.backup_holds (h : Wrote s d w w') (hm : ∃v∈S,Holds s w .main v)
    (hb : ∃v∈S,Holds s w .backup v) : ∃v∈S++[d.value],Holds s w' .backup v := by
  obtain hback | ⟨hback,-⟩ | ⟨p,henc,hp⟩ := h.backup
  · obtain ⟨v,hvs,hv⟩ := hb
    refine ⟨v,List.mem_append_left _ hvs,?_⟩
    rwa [Holds,hback]
  · obtain ⟨v,hvs,hv⟩ := hm
    refine ⟨v,List.mem_append_left _ hvs,?_⟩
    rwa [Holds,hback]
  · exact ⟨d.value,by simp,p,hp,decode_encode henc⟩

theorem event_main (hm : ∃v∈S,Holds s w .main v) : ∃v∈S++values [e],Holds s (s.event e w).2 .main v := by
  cases hop : e.op with
  | read strict =>
    obtain ⟨v,hvs,hv⟩ := hm
    refine ⟨v,List.mem_append_left _ hvs,?_⟩
    rwa [Holds,event_read hop hv]
  | write d =>
    have hdata : e.op.data=some d := by rw [hop]; rfl
    rw [values_single hdata]
    exact (event_write hdata).1.main_holds hm
  | writeWithBackup d =>
    have hdata : e.op.data=some d := by rw [hop]; rfl
    rw [values_single hdata]
    exact (event_write hdata).1.main_holds hm

theorem event_backup (hm : ∃v∈S,Holds s w .main v) (hb : ∃v∈S,Holds s w .backup v) :
    ∃v∈S++values [e],Holds s (s.event e w).2 .backup v := by
  cases hop : e.op with
  | read strict =>
    obtain ⟨v,hvs,hv⟩ := hm
    obtain ⟨u,hus,hu⟩ := hb
    refine ⟨u,List.mem_append_left _ hus,?_⟩
    rwa [Holds,event_read hop hv]
  | write d =>
    have hdata : e.op.data=some d := by rw [hop]; rfl
    rw [values_single hdata]
    exact (event_write hdata).1.backup_holds hm hb
  | writeWithBackup d =>
    have hdata : e.op.data=some d := by rw [hop]; rfl
    rw [values_single hdata]
    exact (event_write hdata).1.backup_holds hm hb

theorem after_main (es : List StoreEvent) (hm : ∃v∈S,Holds s w .main v) :
    ∃v∈S++values es,Holds s (s.after w es) .main v := by
  induction es generalizing w S with
  | nil => simpa [values,after] using hm
  | cons e es ih =>
    rw [values_cons,← List.append_assoc]
    exact ih (event_main hm)

theorem after_backup (es : List StoreEvent) (hm : ∃v∈S,Holds s w .main v) (hb : ∃v∈S,Holds s w .backup v) :
    ∃v∈S++values es,Holds s (s.after w es) .backup v := by
  induction es generalizing w S with
  | nil => simpa [values,after] using hb
  | cons e es ih =>
    rw [values_cons,← List.append_assoc]
    exact ih (event_main hm) (event_backup hm hb)

theorem after_reads (hv : Holds s w .main v) (h : values es=[]) : (s.after w es).disk=w.disk := by
  induction es generalizing w with
  | nil => rfl
  | cons e es ih =>
    rw [values_cons,List.append_eq_nil_iff] at h
    cases hop : e.op with
    | read strict =>
      have hsame := event_read (s:=s) hop hv
      rw [after_cons,ih (by rwa [Holds,hsame]) h.2,hsame]
    | write d =>
      rw [values_single (d:=d) (by rw [hop]; rfl)] at h
      cases h.1
    | writeWithBackup d =>
      rw [values_single (d:=d) (by rw [hop]; rfl)] at h
      cases h.1

def Reads (s : JsonStore) (w : World) (v : Value) : Prop :=
  ∀strict,∃w',s.read strict {w with plan := []}=(.done (some v),w')∧w'.disk=w.disk

def Recovers (s : JsonStore) (w : World) (b : Bytes) (v : Value) : Prop :=
  ∃w',s.read false {w.put .main (some b) with plan := []}=(.done (some v),w')∧
    w'.disk .main=w.disk .backup

/-- What `json.loads` and `decode` report of content that is not JSON. -/
def Corrupt (s : JsonStore) (b : Bytes) : Prop := ∃e,s.decode b=.error e∧e.isCorrupt=true

/-- The store after the operations `es`, each with its faults and crashes. -/
structure CrashSafe (s : JsonStore) (start : World) (es : List StoreEvent) : Prop where
  latest : ∀before e later d,es=before++e::later → e.op.data=some d →
    s.completes e (s.after start before) → ∃v∈d.value::values later,Reads s (s.after start es) v
  failed : ∀e d,e.op.data=some d → ¬s.completes e (s.after start es) →
    ∃l,(s.after start (es++[e])).replaced=l++(s.after start es).replaced∧
      (.main∉l → (s.after start (es++[e])).disk .main=(s.after start es).disk .main)∧
      (.main∈l → Reads s (s.after start (es++[e])) d.value)
  copied : ∀before e later d,es=before++e::later → e.op=.writeWithBackup d →
    s.completes e (s.after start before) → ∀b,Corrupt s b →
      ∃v∈d.value::values later,Recovers s (s.after start es) b v
  preceding : ∀before e later d v,es=before++e::later → e.op=.write d →
    s.completes e (s.after start before) → values later=[] → Reads s (s.after start before) v →
      ∀b,Corrupt s b → Recovers s (s.after start es) b v

theorem Holds.reads (h : Holds s w .main v) : Reads s w v := by
  intro strict
  exact ⟨_,read_calm (w:={w with plan := []}) rfl h,rfl⟩

theorem Holds.recovers {b : Bytes} (h : Holds s w .backup v) (hb : Corrupt s b) : Recovers s w b v := by
  obtain ⟨e,hdec,he⟩ := hb
  have hmain : ({w.put .main (some b) with plan := []} : World).disk .main=some b := by
    change Function.update w.disk .main (some b) .main=some b
    exact Function.update_self _ _ _
  have hback : Holds s {w.put .main (some b) with plan := []} .backup v := h
  obtain ⟨w',hread,hw,-⟩ := read_recovers rfl hmain hdec he hback
  exact ⟨w',hread,hw⟩

theorem Reads.holds (h : Reads s w v) : Holds s w .main v := by
  obtain ⟨w',hread,-⟩ := h true
  have hcall : os (readBytes .main) {w with plan := []}=(.done (w.disk .main),{w with plan := []}) := by
    have hbytes : readBytes .main {w with plan := []}=(.done (w.disk .main),{w with plan := []}) :=
      call_calm rfl
    simp only [os,Prog.mapError,hbytes]
  unfold read at hread
  rw [bind_calm hcall] at hread
  cases hmain : w.disk .main with
  | none =>
    rw [hmain] at hread
    cases hread
  | some p =>
    rw [hmain] at hread
    dsimp only at hread
    cases hdec : s.decode p with
    | ok u =>
      rw [hdec] at hread
      cases hread
      exact ⟨p,hmain,hdec⟩
    | error e =>
      simp only [hdec,Bool.not_true,Bool.and_false,Bool.false_eq_true,if_false] at hread
      cases hread

theorem completes_main (h : e.op.data=some d) (hc : s.completes e w) :
    Holds s (s.event e w).2 .main d.value := ((event_write h).2 hc).1

/-- The atomic store, whatever fails or crashes: the main file has the value of the last completed write
or of one that was interrupted after it, a failed write shows exactly if it replaced the main file, and
the backup has the value of `write_with_backup` itself, or what the main file had before `write`. -/
theorem crash_safe (s : JsonStore) (start : World) (es : List StoreEvent) : CrashSafe s start es := by
  constructor
  · intro before e later d hes hd hc
    have hmain := completes_main hd hc
    obtain ⟨v,hv,hholds⟩ := after_main (s:=s) (S:=[d.value]) later ⟨d.value,by simp,hmain⟩
    refine ⟨v,by simpa using hv,?_⟩
    rw [hes,after_append,after_cons]
    exact hholds.reads
  · intro e d hd _
    obtain ⟨l,hl,hin,hout⟩ := (event_write (s:=s) (w:=s.after start es) hd).1.main
    have hstep : s.after start (es++[e])=(s.event e (s.after start es)).2 := by
      rw [after_append]
      rfl
    rw [hstep]
    refine ⟨l,hl,hout,fun hm => ?_⟩
    obtain ⟨p,henc,hp⟩ := hin hm
    exact Holds.reads ⟨p,hp,decode_encode henc⟩
  · intro before e later d hes hop hc b hb
    have hd : e.op.data=some d := by rw [hop]; rfl
    have hmain := completes_main hd hc
    have hback := ((event_write hd).2 hc).2.1 d hop
    obtain ⟨v,hv,hholds⟩ := after_backup (s:=s) (S:=[d.value]) later ⟨d.value,by simp,hmain⟩
      ⟨d.value,by simp,hback⟩
    refine ⟨v,by simpa using hv,?_⟩
    rw [hes,after_append,after_cons]
    exact hholds.recovers hb
  · intro before e later d v hes hop hc hreads hv b hb
    have hd : e.op.data=some d := by rw [hop]; rfl
    have hmain := completes_main hd hc
    have hold := hv.holds
    have hback := ((event_write hd).2 hc).2.2 d hop ⟨v,hold⟩
    have hholds : Holds s (s.event e (s.after start before)).2 .backup v := by rwa [Holds,hback]
    rw [hes,after_append,after_cons]
    have hsame := after_reads hmain hreads
    have hlast : Holds s (s.after (s.event e (s.after start before)).2 later) .backup v := by
      rwa [Holds,hsame]
    exact hlast.recovers hb

theorem Recovers.unique {b : Bytes} {u : Value} (h : Recovers s w b v) (h' : Recovers s w b u) : v=u := by
  obtain ⟨w₁,h₁,-⟩ := h
  obtain ⟨w₂,h₂,-⟩ := h'
  rw [h₁] at h₂
  cases h₂
  rfl

def emptyDirectory : World := ⟨fun _ => none,0,[],[]⟩

def boolData (b : Bool) : Data := ⟨.bool b,.bool b⟩

/-- `write_with_backup(True)`, then `write_with_backup(False)`, without a fault. -/
def saveBool (b : Bool) : StoreEvent := ⟨.writeWithBackup (boolData b),[]⟩

theorem saveBool_completes {interp : Interpreter} {posix b : Bool} (w : World) :
    completes ⟨interp,posix⟩ (saveBool b) w := by
  obtain ⟨payload,henc⟩ : ∃p,encode ⟨interp,posix⟩ (boolData b)=.ok p := by cases b <;> exact ⟨_,rfl⟩
  obtain ⟨u,hu⟩ := writeWithBackup_calm (w:={w with plan := []}) rfl henc
  refine ⟨none,?_⟩
  have hrun : JsonStore.run ⟨interp,posix⟩ (saveBool b).op {w with plan := []}=(.done none,u) := bind_calm hu
  rw [event]
  exact congrArg Prod.fst hrun

/-- A corrupt main file gives back what the last `write_with_backup` wrote, not what was there before. -/
theorem backup_has_new_value : ¬∀(s : JsonStore) (start : World) (before : List StoreEvent) (e : StoreEvent)
    (d : Data) (v : Value),e.op=.writeWithBackup d → s.completes e (s.after start before) →
      Reads s (s.after start before) v → ∀b,Corrupt s b → Recovers s (s.after start (before++[e])) b v := by
  intro h
  let s : JsonStore := ⟨⟨0,10⟩,true⟩
  have hfirst : s.completes (saveBool true) emptyDirectory := saveBool_completes _
  have hsecond : s.completes (saveBool false) (s.after emptyDirectory [saveBool true]) :=
    saveBool_completes _
  have hcorrupt : Corrupt s [0xFF] := by
    refine ⟨.unicode,?_,rfl⟩
    have hnone : decodeUtf8 [0xFF]=none := by decide
    simp only [decode,hnone]
  have hbefore := (completes_main (d:=boolData true) rfl hfirst).reads
  have hback := ((event_write (d:=boolData false) rfl).2 hsecond).2.1 _ rfl
  have hrecovers := h s emptyDirectory [saveBool true] (saveBool false) (boolData false) (.bool true) rfl hsecond
    hbefore [0xFF] hcorrupt
  have hsame := hrecovers.unique (hback.recovers hcorrupt)
  cases hsame

end XiaoQing.Storage.JsonStore
