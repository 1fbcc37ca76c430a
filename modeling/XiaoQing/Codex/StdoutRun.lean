import XiaoQing.Codex.StdoutEvents

namespace XiaoQing.Codex

open Framework Json

section

variable {host : Host} {config : StdoutConfig} {s : EventSummary} {p c l t : Bytes} {ls : List Bytes}

def addLine (host : Host) (config : StdoutConfig) (s : EventSummary) (line : Bytes) : EventSummary :=
  (lineEvent host line).elim s (applyEvent host config s)

theorem consumeLine_ok (hlength : l.length≤config.maxJsonLineBytes) (hraises : ¬Raises host l) :
    consumeLine host config s l=.ok (addLine host config s l) := by
  unfold consumeLine addLine lineEvent
  rw [if_neg (Nat.not_lt.mpr hlength)]
  dsimp only
  split_ifs with hhead
  · rfl
  · cases hloads : plainLoads host.interpreter (decodeReplace 0 (stripBytes l)) with
    | ok event => rfl
    | error e =>
      by_cases hdecode : e=.decode
      · rw [hdecode]
        rfl
      · exact absurd ⟨not_not.mp hhead,e,hdecode,hloads⟩ hraises

theorem consumeLine_raises (hlength : l.length≤config.maxJsonLineBytes) (hraises : Raises host l) :
    ∃e,∀s,consumeLine host config s l=.error (.raised e) := by
  obtain ⟨hhead,e,hdecode,hloads⟩ := hraises
  refine ⟨e,fun s => ?_⟩
  unfold consumeLine
  rw [if_neg (Nat.not_lt.mpr hlength)]
  dsimp only
  rw [if_neg (not_not.mpr hhead),hloads]
  cases e with
  | decode => exact absurd rfl hdecode
  | recursion => rfl
  | digits => rfl
  | hook e => rfl

theorem consumeLine_budget (hlength : config.maxJsonLineBytes < l.length) :
    consumeLine host config s l=.error (lineBudget config) := by
  unfold consumeLine
  rw [if_pos hlength]

theorem drain_eq (s : EventSummary) (t : Bytes) : drain host config s t=(do
    let s ← (cutLines newline t).1.foldlM (consumeLine host config) s
    if config.maxJsonLineBytes < (cutLines newline t).2.length then .error (lineBudget config)
    else .ok ((cutLines newline t).2,s)) := by
  induction t using lines_induction newline generalizing s with
  | htail t h =>
    rw [drain.eq_def,cutLines_none h]
    split
    · rfl
    · rename_i hcut
      rw [cutLine_none h] at hcut
      cases hcut
  | hline l rest hl ih =>
    rw [drain.eq_def,cutLines_some hl]
    split
    · rename_i hcut
      rw [cutLine_some hl] at hcut
      cases hcut
    · rename_i hcut
      rw [cutLine_some hl] at hcut
      cases hcut
      rw [List.foldlM_cons]
      cases consumeLine host config s l with
      | error e => rfl
      | ok s => exact ih s

theorem lines_ok (hls : ∀l∈ls,l.length≤config.maxJsonLineBytes ∧ ¬Raises host l) :
    ls.foldlM (consumeLine host config) s=.ok (ls.foldl (addLine host config) s) := by
  induction ls generalizing s with
  | nil => rfl
  | cons l ls ih =>
    obtain ⟨hlength,hraises⟩ := hls l List.mem_cons_self
    rw [List.foldlM_cons,consumeLine_ok hlength hraises]
    exact ih fun m hm => hls m (List.mem_cons_of_mem l hm)

theorem lines_budget (hover : ∃l∈ls,config.maxJsonLineBytes < l.length)
    (hls : ∀m n l,ls=m++l::n → (∀k∈m++[l],k.length≤config.maxJsonLineBytes) → ¬Raises host l) :
    ls.foldlM (consumeLine host config) s=.error (lineBudget config) := by
  induction ls generalizing s with
  | nil =>
    obtain ⟨l,hl,-⟩ := hover
    exact absurd hl List.not_mem_nil
  | cons l ls ih =>
    rw [List.foldlM_cons]
    by_cases hlength : l.length≤config.maxJsonLineBytes
    · have hfirst : ¬Raises host l := by
        refine hls [] ls l rfl fun k hk => ?_
        rw [List.mem_singleton.mp hk]
        exact hlength
      rw [consumeLine_ok hlength hfirst]
      apply ih
      · obtain ⟨m,hm,hlarge⟩ := hover
        rcases List.mem_cons.mp hm with rfl | hm
        · omega
        · exact ⟨m,hm,hlarge⟩
      · intro m n k hsplit hshort
        refine hls (l::m) n k (congrArg (l::·) hsplit) fun j hj => ?_
        rcases List.mem_cons.mp hj with rfl | hj
        · exact hlength
        · exact hshort j hj
    · rw [consumeLine_budget (Nat.lt_of_not_le hlength)]
      rfl

theorem lines_raise (hls : ∀l∈ls,l.length≤config.maxJsonLineBytes) (hraises : ∃l∈ls,Raises host l) :
    ∃e,ls.foldlM (consumeLine host config) s=.error (.raised e) := by
  induction ls generalizing s with
  | nil =>
    obtain ⟨l,hl,-⟩ := hraises
    exact absurd hl List.not_mem_nil
  | cons l ls ih =>
    have hlength := hls l List.mem_cons_self
    rw [List.foldlM_cons]
    by_cases hfirst : Raises host l
    · obtain ⟨e,he⟩ := consumeLine_raises hlength hfirst
      refine ⟨e,?_⟩
      rw [he]
      rfl
    · rw [consumeLine_ok hlength hfirst]
      apply ih fun m hm => hls m (List.mem_cons_of_mem l hm)
      obtain ⟨m,hm,hm'⟩ := hraises
      rcases List.mem_cons.mp hm with rfl | hm
      · exact absurd hm' hfirst
      · exact ⟨m,hm,hm'⟩

end

/-- No beginning of the stream that ends with a line, or with the stream, and is within the budgets
has a line for which `json.loads` raises something else than `JSONDecodeError`. -/
def Benign (host : Host) (config : StdoutConfig) (stream : Bytes) : Prop :=
  ∀p r,stream=p++r → r=[] ∨ p.getLast?=some newline → Within config p →
    ∀line∈allLines newline p,¬Raises host line

/-- What the accumulator makes of a stream that comes in chunks: the budget error exactly when a
budget is exceeded, and otherwise the summary of the stream. -/
structure Accumulates (host : Host) (config : StdoutConfig) (chunks : List Bytes) : Prop where
  budget : (∃message,readStdoutStream host config chunks=.error (.budget message)) ↔
    ¬Within config chunks.flatten
  summary : Within config chunks.flatten →
    ∃a,readStdoutStream host config chunks=.ok a ∧ a.summary=summaryOf host config chunks.flatten

/-- The accumulator after the bytes `p`. -/
structure Accumulated (host : Host) (config : StdoutConfig) (a : StdoutAccumulator) (p : Bytes) : Prop where
  total : a.totalBytes=p.length
  pending : a.pending=(cutLines newline p).2
  summary : a.summary=(cutLines newline p).1.foldl (addLine host config) {}
  within : Within config p

section

variable {host : Host} {config : StdoutConfig} {a : StdoutAccumulator} {p c r stream : Bytes}

theorem within_prefix (h : Within config (p++c)) : Within config p := by
  have htotal := h.total
  rw [List.length_append] at htotal
  refine ⟨Nat.le_of_add_right_le htotal,fun l hl => ?_⟩
  have hlines := h.lines
  rw [allLines_append] at hlines
  rcases List.mem_append.mp hl with hl | hl
  · exact hlines l (List.mem_append_left _ hl)
  · obtain ⟨m,hm,hle⟩ := line_grows (not_mem_tail (s:=newline) p) c
    rw [List.mem_singleton.mp hl]
    exact hle.trans (hlines m (List.mem_append_right _ hm))

theorem benign_lines (hb : Benign host config (p++c++r)) (hp : Within config p)
    (htotal : (p++c).length≤config.maxStdoutBytes) {m n : List Bytes} {l : Bytes}
    (hsplit : (cutLines newline ((cutLines newline p).2++c)).1=m++l::n)
    (hshort : ∀k∈m++[l],k.length≤config.maxJsonLineBytes) : ¬Raises host l := by
  have hlines : (cutLines newline (p++c)).1=((cutLines newline p).1++(m++[l]))++n := by
    rw [cutLines_append,hsplit]
    simp
  obtain ⟨q,u,hq,hcut,hlast⟩ := cutLines_split hlines
  have hne : (cutLines newline p).1++(m++[l])≠[] := by simp
  have hall : allLines newline q=(cutLines newline p).1++(m++[l])++[[]] := by rw [allLines,hcut]
  have hwithin : Within config q := by
    refine ⟨?_,fun k hk => ?_⟩
    · have hle : q.length≤(p++c).length := by
        rw [hq,List.length_append]
        exact Nat.le_add_right _ _
      exact hle.trans htotal
    · rw [hall] at hk
      rcases List.mem_append.mp hk with hk | hk
      · rcases List.mem_append.mp hk with hk | hk
        · exact hp.lines k (List.mem_append_left _ hk)
        · exact hshort k hk
      · rw [List.mem_singleton.mp hk]
        exact Nat.zero_le _
  refine hb q (u++r) ?_ (.inr (hlast hne)) hwithin l ?_
  · rw [hq,List.append_assoc]
  · rw [hall]
    simp

theorem benign_chunk (hb : Benign host config (p++c++r)) (hp : Within config p)
    (htotal : (p++c).length≤config.maxStdoutBytes)
    (hshort : ∀l∈(cutLines newline ((cutLines newline p).2++c)).1,l.length≤config.maxJsonLineBytes) :
    ∀l∈(cutLines newline ((cutLines newline p).2++c)).1,
      l.length≤config.maxJsonLineBytes ∧ ¬Raises host l := by
  intro l hl
  obtain ⟨m,n,hsplit,-⟩ := List.eq_append_cons_of_mem hl
  refine ⟨hshort l hl,benign_lines hb hp htotal hsplit fun k hk => hshort k ?_⟩
  rw [hsplit]
  rcases List.mem_append.mp hk with hk | hk
  · exact List.mem_append_left _ hk
  · rw [List.mem_singleton.mp hk]
    exact List.mem_append_right _ List.mem_cons_self

theorem feed_within (h : Accumulated host config a p) (hw : Within config (p++c))
    (hb : Benign host config (p++c++r)) :
    ∃a',a.feed host config c=.ok a' ∧ Accumulated host config a' (p++c) := by
  have hlines := hw.lines
  rw [allLines,cutLines_append] at hlines
  have hgood := benign_chunk hb h.within hw.total fun k hk =>
    hlines k (List.mem_append_left _ (List.mem_append_right _ hk))
  have htail := hlines _ (List.mem_append_right _ (List.mem_singleton_self _))
  have hsum : a.totalBytes+c.length=(p++c).length := by rw [h.total,List.length_append]
  have hdrain : drain host config a.summary (a.pending++c)=
      .ok ((cutLines newline ((cutLines newline p).2++c)).2,
        (cutLines newline ((cutLines newline p).2++c)).1.foldl (addLine host config) a.summary) := by
    rw [drain_eq,h.pending,lines_ok hgood]
    exact if_neg (Nat.not_lt.mpr htail)
  refine ⟨⟨(p++c).length,(cutLines newline (p++c)).2,feedTail a.tail c,
    (cutLines newline (p++c)).1.foldl (addLine host config) {}⟩,?_,rfl,rfl,rfl,hw⟩
  rw [cutLines_append,List.foldl_append,← h.summary]
  unfold StdoutAccumulator.feed
  dsimp only
  rw [hsum,if_neg (Nat.not_lt.mpr hw.total),hdrain]
  rfl

theorem feed_over (h : Accumulated host config a p) (hw : ¬Within config (p++c))
    (hb : Benign host config (p++c++r)) :
    ∃message,a.feed host config c=.error (.budget message) := by
  have hsum : a.totalBytes+c.length=(p++c).length := by rw [h.total,List.length_append]
  unfold StdoutAccumulator.feed
  dsimp only
  rw [hsum]
  by_cases htotal : config.maxStdoutBytes < (p++c).length
  · exact ⟨_,if_pos htotal⟩
  rw [if_neg htotal,drain_eq,h.pending]
  have htotal := Nat.le_of_not_lt htotal
  by_cases hover : ∃l∈(cutLines newline ((cutLines newline p).2++c)).1,
      config.maxJsonLineBytes < l.length
  · rw [lines_budget hover fun m n l hsplit hshort => benign_lines hb h.within htotal hsplit hshort]
    exact ⟨_,rfl⟩
  · push Not at hover
    have htail : config.maxJsonLineBytes < (cutLines newline ((cutLines newline p).2++c)).2.length := by
      by_contra hshort
      refine hw ⟨htotal,fun l hl => ?_⟩
      rw [allLines,cutLines_append] at hl
      rcases List.mem_append.mp hl with hl | hl
      · rcases List.mem_append.mp hl with hl | hl
        · exact h.within.lines l (List.mem_append_left _ hl)
        · exact hover l hl
      · rw [List.mem_singleton.mp hl]
        exact Nat.le_of_not_lt hshort
    rw [lines_ok (benign_chunk hb h.within htotal hover)]
    exact ⟨_,congrArg (Except.bind · _) (if_pos htail)⟩

theorem not_raises_nil : ¬Raises host [] := by
  rintro ⟨hhead,-⟩
  cases hhead

theorem addLine_nil (s : EventSummary) : addLine host config s []=s := by
  unfold addLine lineEvent
  rw [if_pos (by decide)]
  rfl

theorem summaryOf_eq : summaryOf host config stream=(allLines newline stream).foldl (addLine host config) {} :=
  rfl

theorem finish_within (h : Accumulated host config a p) (hb : Benign host config p) :
    ∃a',a.finish host config=.ok a' ∧ a'.summary=summaryOf host config p := by
  have hlast : (cutLines newline p).2∈allLines newline p :=
    List.mem_append_right _ (List.mem_singleton_self _)
  have hfold : summaryOf host config p=addLine host config a.summary a.pending := by
    rw [summaryOf_eq,allLines,List.foldl_append,h.summary,h.pending]
    rfl
  unfold StdoutAccumulator.finish
  split_ifs with hpending
  · refine ⟨a,rfl,?_⟩
    rw [hfold,hpending,addLine_nil]
  · have hlength : a.pending.length≤config.maxJsonLineBytes := by
      rw [h.pending]
      exact h.within.lines _ hlast
    have hraises : ¬Raises host a.pending := by
      rw [h.pending]
      exact hb p [] (List.append_nil p).symm (.inl rfl) h.within _ hlast
    rw [consumeLine_ok hlength hraises]
    exact ⟨_,rfl,hfold.symm⟩

theorem rest_read (chunks : List Bytes) (h : Accumulated host config a p)
    (hb : Benign host config (p++chunks.flatten)) :
    (Within config (p++chunks.flatten) →
      ∃a',(chunks.foldlM (fun a chunk => a.feed host config chunk) a >>= fun a => a.finish host config)=
        .ok a' ∧ a'.summary=summaryOf host config (p++chunks.flatten)) ∧
    (¬Within config (p++chunks.flatten) →
      ∃message,(chunks.foldlM (fun a chunk => a.feed host config chunk) a >>=
        fun a => a.finish host config)=.error (.budget message)) := by
  induction chunks generalizing a p with
  | nil =>
    rw [List.flatten_nil,List.append_nil] at hb ⊢
    exact ⟨fun _ => finish_within h hb,fun hw => absurd h.within hw⟩
  | cons c chunks ih =>
    rw [List.flatten_cons,← List.append_assoc] at hb ⊢
    rw [List.foldlM_cons]
    by_cases hw : Within config (p++c)
    · obtain ⟨a',hfeed,ha'⟩ := feed_within h hw hb
      rw [hfeed]
      exact ih ha' hb
    · obtain ⟨message,hfeed⟩ := feed_over h hw hb
      rw [hfeed]
      exact ⟨fun hall => absurd ( within_prefix hall) hw,fun _ => ⟨message,rfl⟩⟩

theorem accumulated_new : Accumulated host config {} [] := by
  refine ⟨rfl,rfl,rfl,Nat.zero_le _,fun l hl => ?_⟩
  rw [List.mem_singleton.mp hl]
  exact Nat.zero_le _

theorem last_line_fails {e : StdoutError} (hw : Within config p)
    (hgood : ∀l∈(cutLines newline p).1,¬Raises host l) (hne : (cutLines newline p).2≠[])
    (he : ∀s,consumeLine host config s (cutLines newline p).2=.error e) :
    readStdoutStream host config [p]=.error e := by
  have hlast := hw.lines _ (List.mem_append_right _ (List.mem_singleton_self _))
  have hlines : ∀l∈(cutLines newline p).1,l.length≤config.maxJsonLineBytes ∧ ¬Raises host l :=
    fun l hl => ⟨hw.lines l (List.mem_append_left _ hl),hgood l hl⟩
  have hdrain : drain host config {} p=
      .ok ((cutLines newline p).2,(cutLines newline p).1.foldl (addLine host config) {}) := by
    rw [drain_eq,lines_ok hlines]
    exact if_neg (Nat.not_lt.mpr hlast)
  have hfeed : ({} : StdoutAccumulator).feed host config p=.ok ⟨p.length,(cutLines newline p).2,
      feedTail [] p,(cutLines newline p).1.foldl (addLine host config) {}⟩ := by
    unfold StdoutAccumulator.feed
    dsimp only
    rw [Nat.zero_add,if_neg (Nat.not_lt.mpr hw.total),List.nil_append,hdrain]
    rfl
  unfold readStdoutStream
  rw [List.foldlM_cons,hfeed]
  change StdoutAccumulator.finish host config _=_
  unfold StdoutAccumulator.finish
  rw [if_neg hne,he]
  rfl

theorem first_raises (hw : Within config p) (hend : r=[] ∨ p.getLast?=some newline)
    (hraises : ∃l∈allLines newline p,Raises host l) :
    ∃chunks,chunks.flatten=p++r ∧ ∃e,readStdoutStream host config chunks=.error (.raised e) := by
  have hshort : ∀l∈(cutLines newline p).1,l.length≤config.maxJsonLineBytes := fun l hl =>
    hw.lines l (List.mem_append_left _ hl)
  have hlast := hw.lines _ (List.mem_append_right _ (List.mem_singleton_self _))
  by_cases hcomplete : ∃l∈(cutLines newline p).1,Raises host l
  · obtain ⟨e,he⟩ := lines_raise (s:={}) hshort hcomplete
    have hfeed : ({} : StdoutAccumulator).feed host config p=.error (.raised e) := by
      unfold StdoutAccumulator.feed
      dsimp only
      rw [Nat.zero_add,if_neg (Nat.not_lt.mpr hw.total),List.nil_append,drain_eq,he]
      rfl
    refine ⟨[p,r],by simp,e,?_⟩
    unfold readStdoutStream
    rw [List.foldlM_cons,hfeed]
    rfl
  · push Not at hcomplete
    obtain ⟨l,hl,hraises⟩ := hraises
    have hl : l=(cutLines newline p).2 := by
      rcases List.mem_append.mp hl with hl | hl
      · exact absurd hraises (hcomplete l hl)
      · exact List.mem_singleton.mp hl
    subst hl
    have hne : (cutLines newline p).2≠[] := by
      intro hnil
      rw [hnil] at hraises
      exact not_raises_nil hraises
    have hrest : r=[] := by
      refine hend.resolve_right fun hnewline => ?_
      have hflat := cutLines_flatten (s:=newline) p
      rw [← hflat,List.getLast?_append_of_ne_nil _ hne] at hnewline
      exact not_mem_tail p (List.mem_of_getLast? hnewline)
    subst hrest
    obtain ⟨e,he⟩ : ∃e,∀s,consumeLine host config s (cutLines newline p).2=.error (.raised e) :=
      consumeLine_raises hlast hraises
    exact ⟨[p],by simp,e,last_line_fails hw hcomplete hne he⟩

end

/-- The accumulator keeps its word for every way of cutting a stream into chunks exactly when no
line that it comes to makes `json.loads` raise something else than `JSONDecodeError`. -/
theorem stdout_events_iff (host : Host) (config : StdoutConfig) (stream : Bytes) :
    (∀chunks,chunks.flatten=stream → Accumulates host config chunks) ↔ Benign host config stream := by
  constructor
  · intro hall p r hstream hend hw l hl hraises
    obtain ⟨chunks,hchunks,e,he⟩ := first_raises hw hend ⟨l,hl,hraises⟩
    obtain ⟨hbudget,hsummary⟩ := hall chunks (hchunks.trans hstream.symm)
    by_cases hwithin : Within config chunks.flatten
    · obtain ⟨a,ha,-⟩ := hsummary hwithin
      rw [he] at ha
      cases ha
    · obtain ⟨message,hmessage⟩ := hbudget.mpr hwithin
      rw [he] at hmessage
      cases hmessage
  · rintro hb chunks rfl
    obtain ⟨hin,hover⟩ := rest_read chunks accumulated_new hb
    refine ⟨⟨fun ⟨message,hmessage⟩ hw => ?_,hover⟩,hin⟩
    obtain ⟨a,ha,-⟩ := hin hw
    rw [readStdoutStream,ha] at hmessage
    cases hmessage

/-- `{"a":` and more brackets than the interpreter can nest. -/
def deepLine (n : Nat) : Text := ['{', '"','a', '"',':']++List.replicate (n+1) '['

theorem deepLine_raises {interp : Interpreter} {n : Nat} (hpos : 1 ≤ interp.recursionLimit)
    (h : interp.recursionLimit≤n+1) : plainLoads interp (deepLine n)=.error .recursion := by
  have hopen : plainStep interp ⟨deepLine n,[],.value⟩=
      .inl ⟨[ '"','a', '"',':']++List.replicate (n+1) '[',[],.key []⟩ := by
    have hlimit : ¬([] : List Frame).length+1 > interp.recursionLimit := Nat.not_lt.mpr hpos
    exact (if_neg hlimit).trans rfl
  have hbody : IsBody ['a'] [97] := .plain 'a' (by decide) (by decide) (by decide) .nil
  have hscan : scanUnits (['a']++ '"':: ':'::List.replicate (n+1) '[')=
      some ([97],':'::List.replicate (n+1) '[') := scanUnits_complete hbody _
  have hkey : plainStep interp ⟨[ '"','a', '"',':']++List.replicate (n+1) '[',[],.key []⟩=
      .inl ⟨List.replicate (n+1) '[',[.obj [] [97]],.value⟩ := by
    change Reader.keyTurn _ [] '"' (['a']++ '"':: ':'::List.replicate (n+1) '[')=_
    unfold Reader.keyTurn
    rw [if_pos rfl,hscan]
    rfl
  unfold plainLoads
  rw [plainLoop_step hopen,plainLoop_step hkey]
  exact plainLoop_deep (h.trans (Nat.le_of_eq (Nat.add_comm n 1)))

def bytesOf (t : Text) : Bytes := t.map fun c => UInt8.ofNat c.toNat

theorem deepLine_ascii (n : Nat) : ∀c∈deepLine n,c.toNat < 128 := by
  intro c hc
  rcases List.mem_append.mp hc with hc | hc
  · have hall : ['{', '"','a', '"',':'].all (fun c => decide (c.toNat < 128))=true := by decide
    exact of_decide_eq_true (List.all_eq_true.mp hall c hc)
  · rw [List.eq_of_mem_replicate hc]
    decide

theorem length_deepLine (n : Nat) : (bytesOf (deepLine n)).length=n+6 := by
  simp [bytesOf,deepLine]

theorem strip_deepLine (n : Nat) : stripBytes (bytesOf (deepLine n))=bytesOf (deepLine n) := by
  have hlast : bytesOf (deepLine n)=
      bytesOf (['{', '"','a', '"',':']++List.replicate n '[')++[91] := by
    unfold bytesOf deepLine
    rw [List.replicate_succ',← List.append_assoc,List.map_append]
    rfl
  have hfirst : bytesOf (deepLine n)=123::bytesOf ([ '"','a', '"',':']++List.replicate (n+1) '[') := rfl
  unfold stripBytes
  dsimp only
  rw [hfirst,List.dropWhile_cons_of_neg (by decide),← hfirst,hlast,
    List.rdropWhile_concat_neg _ _ _ (by decide)]

theorem newline_not_mem_deepLine (n : Nat) : newline∉bytesOf (deepLine n) := by
  intro hmem
  obtain ⟨c,hc,hbyte⟩ := List.mem_map.mp hmem
  rcases List.mem_append.mp hc with hc | hc
  · have hall : ['{', '"','a', '"',':'].all (fun c => decide (UInt8.ofNat c.toNat≠newline))=true := by
      decide
    exact of_decide_eq_true (List.all_eq_true.mp hall c hc) hbyte
  · rw [List.eq_of_mem_replicate hc] at hbyte
    exact absurd hbyte (by decide)

def hostDefaults : Host := ⟨⟨4300,1000⟩,id⟩

def stdoutDefaults : StdoutConfig := ⟨16*1024^2,1024^2,8*1024^2,20⟩

/-- A line of nested lists within the budgets makes the reading fail. -/
theorem nested_line_fails : ∃stream,Within stdoutDefaults stream ∧
    readStdoutStream hostDefaults stdoutDefaults [stream]=.error (.raised .recursion) ∧
      ¬∀chunks,chunks.flatten=stream → Accumulates hostDefaults stdoutDefaults chunks := by
  have hlines := allLines_none (newline_not_mem_deepLine 99999)
  have hcut := cutLines_none (newline_not_mem_deepLine 99999)
  have hlength : (bytesOf (deepLine 99999)).length=100005 := length_deepLine 99999
  have hw : Within stdoutDefaults (bytesOf (deepLine 99999)) := by
    refine ⟨by rw [hlength]; decide,fun l hl => ?_⟩
    rw [hlines,List.mem_singleton] at hl
    rw [hl,hlength]
    decide
  have hloads : plainLoads hostDefaults.interpreter
      (decodeReplace 0 (stripBytes (bytesOf (deepLine 99999))))=.error .recursion := by
    rw [strip_deepLine]
    unfold bytesOf
    rw [decodeReplace_ascii (deepLine_ascii 99999)]
    exact deepLine_raises (by decide) (by decide)
  have hconsume : ∀s,consumeLine hostDefaults stdoutDefaults s (bytesOf (deepLine 99999))=
      .error (.raised .recursion) := by
    intro s
    have hhead : (stripBytes (bytesOf (deepLine 99999))).head?=some 123 := by
      rw [strip_deepLine]
      rfl
    unfold consumeLine
    rw [hlength,if_neg (by decide)]
    dsimp only
    rw [if_neg (not_not.mpr hhead),hloads]
  have hread : readStdoutStream hostDefaults stdoutDefaults [bytesOf (deepLine 99999)]=
      .error (.raised .recursion) := by
    apply last_line_fails hw
    · rw [hcut]
      exact fun l hl => absurd hl List.not_mem_nil
    · rw [hcut]
      exact List.cons_ne_nil _ _
    · rw [hcut]
      exact hconsume
  refine ⟨_,hw,hread,fun hall => ?_⟩
  have hflat : [bytesOf (deepLine 99999)].flatten=bytesOf (deepLine 99999) := by simp
  obtain ⟨a,ha,-⟩ := (hall _ hflat).summary (hflat.symm ▸ hw)
  rw [hread] at ha
  cases ha

end XiaoQing.Codex
