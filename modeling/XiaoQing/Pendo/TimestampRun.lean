import XiaoQing.Framework.ZoneInfo
import XiaoQing.Commands.CommandRouter

namespace XiaoQing.Pendo

section

open Framework IsoTime Commands

/-- A value that is to be normalised: a `datetime`, or another object by its truth and its `str`. -/
inductive TimeValue where
  | datetime (d : Datetime)
  | other (truthy : Bool) (str : Text)

def TimeValue.ofText (t : Text) : TimeValue := .other (!t.isEmpty) t

def invalidRange (field : Text) : Text := "Invalid ".toList++field++", outside supported datetime range".toList

/-- The text of the `OverflowError` of `datetime` arithmetic. -/
def dateOverflow : Text := "date value out of range".toList

/-- The offset that a zone answers, as a `tzinfo` gives it. -/
def zoneOffset (info : Ttinfo) : Offset :=
  ⟨info.utcoff*1000000,by
    obtain ⟨hlow,hhigh⟩ := info.bound
    omega⟩

/-- One turn of the loop over `fold`. A candidate is keyed by what the zone answers, which is all that is
read of it afterwards. -/
def addCandidate (zone : Framework.Zone) (field : Text) (wall : Int) (fold : Bool) (candidates : List Ttinfo) :
    Except Text (List Ttinfo) :=
  let instant := zone.reading fold wall
  if ¬InRange instant ∨ ¬InRange (zone.display instant) then .error (invalidRange field)
  else if zone.display instant=wall then .ok (candidates.insert (zone.find fold wall))
  else .ok candidates

def resolveSourceWallTime (parsed : Datetime) (field : Text) (zone : Framework.Zone) : Except Text Datetime :=
  if parsed.tzinfo.isSome then .error (field++" must be a naive source wall time".toList)
  else do
    let early ← addCandidate zone field parsed.wall false []
    let candidates ← addCandidate zone field parsed.wall true early
    match candidates with
    | [] => .error ("Nonexistent local time for ".toList++field++" in source timezone".toList)
    | [info] => .ok ⟨parsed.wall,some (some (zoneOffset info)),parsed.inRange⟩
    | _ => .error ("Ambiguous local time for ".toList++field++" in source timezone".toList)

/-- `text.replace("Z","+00:00")`. -/
def replaceZulu (t : Text) : Text := t.flatMap fun c => if c= 'Z' then "+00:00".toList else [c]

/-- The `datetime` that a value is read as. -/
def readTimeValue (value : TimeValue) (field : Text) : Except Text Datetime :=
  match value with
  | .datetime d => .ok d
  | .other truthy str =>
    let text := strip (if truthy then str else [])
    if text=[] then .error (field++" is required".toList)
    else
      match fromisoformat (replaceZulu text) with
      | none => .error ("Invalid ".toList++field++", expected ISO datetime".toList)
      | some d => .ok d

/-- `astimezone(UTC)` of a time with an offset. -/
def utcInstant (d : Datetime) (o : Offset) : Except Text Int :=
  if InRange (d.wall-o.micros) then .ok (d.wall-o.micros) else .error dateOverflow

/-- The second `try` of `normalize_datetime_for_storage`. -/
def storageText (parsed : Datetime) (field : Text) (zone : Framework.Zone) : Except Text Text := do
  let settled ← if parsed.utcoffset=none then resolveSourceWallTime parsed field zone else .ok parsed
  let instant ← utcInstant settled (settled.utcoffset.getD .utc)
  return isoformat instant

def raisedAgain (e : Text) : Bool :=
  "Ambiguous ".toList.isPrefixOf e || "Nonexistent ".toList.isPrefixOf e || "Invalid ".toList.isPrefixOf e

/-- With the default `timespec`, as every caller has it. -/
def normalizeDatetimeForStorage (value : TimeValue) (field : Text) (zone : Framework.Zone) : Except Text Text := do
  let parsed ← readTimeValue value field
  match storageText parsed field zone with
  | .ok text => .ok text
  | .error e => .error (if raisedAgain e then e else invalidRange field)

/-- The check of a value that is a `str`, or `none` when it is anything else. -/
def requireCanonicalUtcTimestamp (value : Option Text) (field : Text) : Except Text Unit :=
  let mustBe := field++" must be a canonical UTC ISO string".toList
  match value with
  | none => .error mustBe
  | some text =>
    match fromisoformat text with
    | none => .error mustBe
    | some parsed =>
      if parsed.utcoffset≠some .utc then .error (field++" must use UTC +00:00".toList)
      else if text≠isoformat parsed.wall then
        .error (field++" must use canonical second-precision UTC ISO".toList)
      else .ok ()

end

section

open Framework IsoTime Commands

variable {d : Datetime} {o : Offset} {zone : Framework.Zone} {field t : Text} {w u : Int} {value : TimeValue}

/-! What is written is canonical -/

theorem isoformat_second (u : Int) : isoformat (u/1000000*1000000)=isoformat u := by
  have hsecond : u/1000000*1000000/1000000=u/1000000 := by omega
  unfold isoformat
  rw [hsecond]

theorem canonical_isoformat (hu : InRange u) (field : Text) :
    requireCanonicalUtcTimestamp (some (isoformat u)) field=.ok () := by
  obtain ⟨h,hread⟩ := fromisoformat_isoformat hu
  unfold requireCanonicalUtcTimestamp
  dsimp only
  rw [hread]
  dsimp only
  have hutc : (⟨u/1000000*1000000,some (some .utc),h⟩ : Datetime).utcoffset=some .utc := rfl
  rw [if_neg (not_not.mpr hutc),isoformat_second,if_neg (not_not.mpr rfl)]

theorem replaceZulu_of_none {t : Text} (h : 'Z'∉t) : replaceZulu t=t := by
  induction t with
  | nil => rfl
  | cons c t ih =>
    have hc : c≠ 'Z' := fun hc => h (hc ▸ .head _)
    have ht := ih fun hz => h (.tail _ hz)
    unfold replaceZulu at ht ⊢
    rw [List.flatMap_cons,ht,if_neg hc]
    rfl

theorem isoformat_plain (u : Int) : ∀c∈isoformat u,isSpace c=false ∧ c≠ 'Z' := by
  intro c hc
  rcases isoformat_chars u c hc with hdigit | hmark
  · constructor
    · have hrange : 48≤c.toNat ∧ c.toNat≤57 := by
        simpa [Char.isDigit,UInt32.le_iff_toNat_le] using hdigit
      unfold isSpace
      simp
      omega
    · rintro rfl
      exact absurd hdigit (by decide)
  · simp only [List.mem_cons,List.not_mem_nil,or_false] at hmark
    rcases hmark with rfl | rfl | rfl | rfl <;> exact ⟨by decide,by decide⟩

theorem readTimeValue_isoformat (hu : InRange u) (field : Text) :
    ∃h,readTimeValue (.ofText (isoformat u)) field=.ok ⟨u/1000000*1000000,some (some .utc),h⟩ := by
  obtain ⟨h,hread⟩ := fromisoformat_isoformat hu
  refine ⟨h,?_⟩
  have hplain := isoformat_plain u
  have hne : isoformat u≠[] := by
    intro hnil
    have hempty : fromisoformat []=none := by decide
    rw [hnil,hempty] at hread
    cases hread
  unfold TimeValue.ofText readTimeValue
  dsimp only
  rw [List.isEmpty_eq_false_iff.mpr hne,Bool.not_false,if_pos rfl,strip_of_none fun c hc => (hplain c hc).1,
    if_neg hne,replaceZulu_of_none fun hz => (hplain _ hz).2 rfl,hread]

/-! What is accepted -/

theorem normalize_ok (hread : readTimeValue value field=.ok d) :
    normalizeDatetimeForStorage value field zone=.ok t ↔ storageText d field zone=.ok t := by
  unfold normalizeDatetimeForStorage
  rw [hread]
  change (match storageText d field zone with | .ok text => _ | .error e => _)=_ ↔ _
  cases storageText d field zone <;> simp

theorem storageText_aware (h : d.utcoffset=some o) :
    storageText d field zone=.ok t ↔ InRange (d.wall-o.micros) ∧ t=isoformat (d.wall-o.micros) := by
  unfold storageText
  rw [if_neg (by simp [h])]
  simp only [h,Option.getD_some,bind,Except.bind,pure,Except.pure]
  unfold utcInstant
  split_ifs with hrange
  · simp [hrange,eq_comm]
  · simp [hrange]

/-! Local times -/

/-- Both readings of a local time stay in the range of `datetime`, and so does what they are shown as. -/
def Readable (zone : Framework.Zone) (w : Int) : Prop :=
  ∀fold,InRange (zone.reading fold w) ∧ InRange (zone.display (zone.reading fold w))

/-- The candidates that the loop over `fold` leaves. -/
def candidates (zone : Framework.Zone) (w : Int) : List Ttinfo :=
  let early := if zone.display (zone.reading false w)=w then [zone.find false w] else []
  if zone.display (zone.reading true w)=w then early.insert (zone.find true w) else early

theorem addCandidate_readable {fold : Bool} {l : List Ttinfo}
    (h : InRange (zone.reading fold w) ∧ InRange (zone.display (zone.reading fold w))) :
    addCandidate zone field w fold l=
      .ok (if zone.display (zone.reading fold w)=w then l.insert (zone.find fold w) else l) := by
  unfold addCandidate
  dsimp only
  rw [if_neg (by tauto)]
  split_ifs <;> rfl

theorem addCandidate_unreadable {fold : Bool} {l : List Ttinfo}
    (h : ¬(InRange (zone.reading fold w) ∧ InRange (zone.display (zone.reading fold w)))) :
    addCandidate zone field w fold l=.error (invalidRange field) := by
  unfold addCandidate
  dsimp only
  rw [if_pos (by tauto)]

theorem resolve_readable (hnaive : d.tzinfo=none) (h : Readable zone d.wall) :
    resolveSourceWallTime d field zone=
      match candidates zone d.wall with
      | [] => .error ("Nonexistent local time for ".toList++field++" in source timezone".toList)
      | [info] => .ok ⟨d.wall,some (some (zoneOffset info)),d.inRange⟩
      | _ => .error ("Ambiguous local time for ".toList++field++" in source timezone".toList) := by
  unfold resolveSourceWallTime candidates
  rw [if_neg (by simp [hnaive]),addCandidate_readable (h false)]
  simp only [bind,Except.bind]
  rw [addCandidate_readable (h true)]
  rfl

theorem resolve_unreadable (hnaive : d.tzinfo=none) (h : ¬Readable zone d.wall) :
    resolveSourceWallTime d field zone=.error (invalidRange field) := by
  unfold resolveSourceWallTime
  rw [if_neg (by simp [hnaive])]
  by_cases hfirst : InRange (zone.reading false d.wall) ∧ InRange (zone.display (zone.reading false d.wall))
  · have hsecond : ¬(InRange (zone.reading true d.wall) ∧ InRange (zone.display (zone.reading true d.wall))) := by
      intro hsecond
      apply h
      intro fold
      cases fold with
      | false => exact hfirst
      | true => exact hsecond
    rw [addCandidate_readable hfirst]
    simp only [bind,Except.bind]
    rw [addCandidate_unreadable hsecond]
  · rw [addCandidate_unreadable hfirst]
    rfl

theorem reading_eq (fold : Bool) (w : Int) :
    zone.reading fold w=w-(zoneOffset (zone.find fold w)).micros := rfl

theorem storageText_naive (hnaive : d.tzinfo=none) :
    storageText d field zone=.ok t ↔
      Readable zone d.wall ∧ ∃info,candidates zone d.wall=[info] ∧
        InRange (d.wall-(zoneOffset info).micros) ∧ t=isoformat (d.wall-(zoneOffset info).micros) := by
  have hnone : d.utcoffset=none := by
    unfold Datetime.utcoffset
    rw [hnaive]
    rfl
  unfold storageText
  rw [if_pos hnone]
  by_cases hreadable : Readable zone d.wall
  · rw [resolve_readable hnaive hreadable]
    rcases candidates zone d.wall with _ | ⟨info,_ | ⟨other,rest⟩⟩
    · simp [bind,Except.bind]
    · simp only [bind,Except.bind,pure,Except.pure]
      unfold utcInstant Datetime.utcoffset
      simp only [Option.join_some,Option.getD_some]
      split_ifs with hrange
      · simp [hrange,hreadable,eq_comm]
      · simp [hrange]
    · simp [bind,Except.bind]
  · rw [resolve_unreadable hnaive hreadable]
    simp [hreadable,bind,Except.bind]

/-- The instant that a local time stands for: no other one is shown as it. -/
structure Names (zone : Framework.Zone) (w u : Int) : Prop where
  inRange : InRange u
  shown : zone.display u=w
  only : ∀v,zone.display v=w → v=u

theorem candidates_same (hsame : zone.find false w=zone.find true w) :
    candidates zone w=if zone.display (zone.reading false w)=w then [zone.find false w] else [] := by
  have hreading : zone.reading true w=zone.reading false w := by rw [reading_eq,reading_eq,hsame]
  unfold candidates
  rw [hreading,hsame]
  split_ifs <;> simp

theorem candidates_differ (hne : (zone.find false w).utcoff≠(zone.find true w).utcoff)
    (hiff : zone.display (zone.reading false w)=w ↔ zone.display (zone.reading true w)=w) (info : Ttinfo) :
    candidates zone w≠[info] := by
  unfold candidates
  by_cases hshown : zone.display (zone.reading true w)=w
  · have hmem : zone.find true w∉[zone.find false w] := by
      rw [List.mem_singleton]
      intro he
      exact hne (congrArg Ttinfo.utcoff he.symm)
    rw [if_pos hshown,if_pos (hiff.mpr hshown),List.insert_of_not_mem hmem]
    simp
  · rw [if_neg hshown,if_neg fun h => hshown (hiff.mp h)]
    simp

theorem storageText_orderly (horderly : zone.Orderly) (hnaive : d.tzinfo=none) :
    storageText d field zone=.ok t ↔ ∃u,Names zone d.wall u ∧ t=isoformat u := by
  rw [storageText_naive hnaive]
  rcases horderly.readings d.wall with ⟨hsame,honly⟩ | ⟨hne,hiff,honly⟩
  · rw [candidates_same hsame]
    constructor
    · rintro ⟨-,info,hinfo,hrange,ht⟩
      by_cases hshown : zone.display (zone.reading false d.wall)=d.wall
      · rw [if_pos hshown] at hinfo
        cases hinfo
        exact ⟨_,⟨hrange,hshown,honly⟩,ht⟩
      · rw [if_neg hshown] at hinfo
        cases hinfo
    · rintro ⟨u,hnames,ht⟩
      have hu := honly u hnames.shown
      subst hu
      have hreadable : Readable zone d.wall := by
        intro fold
        have hfold : zone.reading fold d.wall=zone.reading false d.wall := by
          cases fold with
          | false => rfl
          | true => rw [reading_eq,reading_eq,hsame]
        rw [hfold,hnames.shown]
        exact ⟨hnames.inRange,d.inRange⟩
      exact ⟨hreadable,_,if_pos hnames.shown,hnames.inRange,ht⟩
  · constructor
    · rintro ⟨-,info,hinfo,-⟩
      exact absurd hinfo (candidates_differ hne hiff info)
    · rintro ⟨u,hnames,-⟩
      -- the readings of a fold are two instants, those of a gap are shown as something else
      have hboth : zone.display (zone.reading false d.wall)=d.wall ∧
          zone.display (zone.reading true d.wall)=d.wall := by
        rcases honly u hnames.shown with rfl | rfl
        · exact ⟨hnames.shown,hiff.mp hnames.shown⟩
        · exact ⟨hiff.mpr hnames.shown,hnames.shown⟩
      have hequal := (hnames.only _ hboth.1).trans (hnames.only _ hboth.2).symm
      unfold Framework.Zone.reading at hequal
      omega

/-! The normaliser -/

theorem storageText_instant (h : storageText d field zone=.ok t) : ∃u,InRange u ∧ t=isoformat u := by
  cases hoffset : d.utcoffset with
  | some o => exact ⟨_,(storageText_aware hoffset).mp h⟩
  | none =>
    cases htz : d.tzinfo with
    | none =>
      obtain ⟨-,info,-,hrange,ht⟩ := (storageText_naive htz).mp h
      exact ⟨_,hrange,ht⟩
    | some tz =>
      unfold storageText resolveSourceWallTime at h
      rw [if_pos hoffset,if_pos (by simp [htz])] at h
      cases h

theorem normalize_instant (h : normalizeDatetimeForStorage value field zone=.ok t) :
    ∃u,InRange u ∧ t=isoformat u := by
  cases hread : readTimeValue value field with
  | error e =>
    unfold normalizeDatetimeForStorage at h
    rw [hread] at h
    cases h
  | ok d => exact storageText_instant ((normalize_ok hread).mp h)

theorem normalize_isoformat (hu : InRange u) (field : Text) (zone : Framework.Zone) :
    normalizeDatetimeForStorage (.ofText (isoformat u)) field zone=.ok (isoformat u) := by
  obtain ⟨h,hread⟩ := readTimeValue_isoformat hu field
  rw [normalize_ok hread,storageText_aware (o:=.utc) rfl]
  have hzero : u/1000000*1000000-Offset.utc.micros=u/1000000*1000000 := Int.sub_zero _
  dsimp only
  rw [hzero]
  exact ⟨h,(isoformat_second u).symm⟩

/-- What the normaliser accepts it writes in the canonical form, which it leaves alone under every zone; an
offset keeps its instant, to the second; and in an orderly zone a local time is accepted exactly when one
instant is shown as it. -/
theorem timestamp_normalisation (value : TimeValue) (field : Text) (zone : Framework.Zone) :
    (∀out,normalizeDatetimeForStorage value field zone=.ok out →
      (∀name,requireCanonicalUtcTimestamp (some out) name=.ok ()) ∧
        (∀name anyZone,normalizeDatetimeForStorage (.ofText out) name anyZone=.ok out) ∧
        ∀d o,readTimeValue value field=.ok d → d.utcoffset=some o →
          ∃h,fromisoformat out=some ⟨(d.wall-o.micros)/1000000*1000000,some (some .utc),h⟩) ∧
      (zone.Orderly → ∀d,readTimeValue value field=.ok d → d.tzinfo=none →
        ((∃out,normalizeDatetimeForStorage value field zone=.ok out) ↔ ∃u,Names zone d.wall u) ∧
          ∀out u,normalizeDatetimeForStorage value field zone=.ok out → Names zone d.wall u → out=isoformat u) := by
  constructor
  · intro out hout
    obtain ⟨u,hu,rfl⟩ := normalize_instant hout
    refine ⟨canonical_isoformat hu,normalize_isoformat hu,fun d o hread hoffset => ?_⟩
    obtain ⟨hrange,hsame⟩ := (storageText_aware hoffset).mp ((normalize_ok hread).mp hout)
    rw [hsame]
    exact fromisoformat_isoformat hrange
  · intro horderly d hread hnaive
    have hiff : ∀out,normalizeDatetimeForStorage value field zone=.ok out ↔
        ∃u,Names zone d.wall u ∧ out=isoformat u :=
      fun out => (normalize_ok hread).trans (storageText_orderly horderly hnaive)
    constructor
    · constructor
      · rintro ⟨out,hout⟩
        obtain ⟨u,hnames,-⟩ := (hiff out).mp hout
        exact ⟨u,hnames⟩
      · rintro ⟨u,hnames⟩
        exact ⟨_,(hiff _).mpr ⟨u,hnames,rfl⟩⟩
    · intro out u hout hnames
      obtain ⟨v,hv,hsame⟩ := (hiff out).mp hout
      rw [hsame,hnames.only v hv.shown]

/-- One hour ahead of UTC, and two from the first to the second day of 1970. -/
def summerDay : Framework.Zone :=
  ⟨⟨3600,0,by decide⟩,[(0,⟨7200,3600,by decide⟩),(86400,⟨3600,0,by decide⟩)],by decide⟩

theorem summerDay_orderly : summerDay.Orderly := by
  intro i hi
  have hi0 : i=0 := by
    change i+1<2 at hi
    omega
  subst hi0
  decide

theorem timestamp_normalisation_summerDay :
    normalizeDatetimeForStorage (.ofText "1970-01-01 12:00".toList) "start_time".toList summerDay=
        .ok "1970-01-01T10:00:00+00:00".toList ∧
      requireCanonicalUtcTimestamp (some "1970-01-01T10:00:00+00:00".toList) "start_time".toList=.ok () ∧
      ∃u,Names summerDay ((62135596800+43200)*1000000) u := by
  have hout : normalizeDatetimeForStorage (.ofText "1970-01-01 12:00".toList) "start_time".toList summerDay=
      .ok "1970-01-01T10:00:00+00:00".toList := by decide
  obtain ⟨hcanonical,hnaive⟩ :=
    timestamp_normalisation (.ofText "1970-01-01 12:00".toList) "start_time".toList summerDay
  have hread : readTimeValue (.ofText "1970-01-01 12:00".toList) "start_time".toList=
      .ok ⟨(62135596800+43200)*1000000,none,by decide⟩ := by decide
  exact ⟨hout,(hcanonical _ hout).1 _,(hnaive summerDay_orderly _ hread rfl).1.mp ⟨_,hout⟩⟩

def twoSteps : Framework.Zone :=
  ⟨⟨0,0,by decide⟩,[(0,⟨-3600,0,by decide⟩),(100,⟨-7200,0,by decide⟩)],by decide⟩

/-- Both readings of a local time come from before the two steps, and a second instant after them is shown
as it too. -/
theorem accepted_with_two_instants :
    normalizeDatetimeForStorage (.datetime ⟨(62135596800-7000)*1000000,none,by decide⟩) "start_time".toList
        twoSteps=.ok "1969-12-31T22:03:20+00:00".toList ∧
      twoSteps.display ((62135596800-7000)*1000000)=(62135596800-7000)*1000000 ∧
      twoSteps.display ((62135596800+200)*1000000)=(62135596800-7000)*1000000 := by
  decide

end

end XiaoQing.Pendo
