import XiaoQing.Chat.VectorStore

namespace XiaoQing.Chat.Memory

section

open Framework

variable {ν ρ σ τ δ : Type*} {v : Vectors ρ σ} {s t : VectorStore ν ρ} {doc d : VectorDoc ν}
  {docs : List (VectorDoc ν)} {m : List ρ}

def rowsOf (v : Vectors ρ σ) (docs : List (VectorDoc ν)) : List ρ := docs.map fun d => v.embed d.text

structure Sound (v : Vectors ρ σ) (s : VectorStore ν ρ) : Prop where
  exact : Exact VectorDoc.docId s.docs s.idToIdx
  length : s.rows.length=s.docs.length
  row : ∀(i : Nat) (r : ρ) (d : VectorDoc ν),s.rows[i]?=some (some r) → s.docs[i]?=some d → r=v.embed d.text
  matrix : ∀m,s.matrix=some m → m=rowsOf v s.docs

theorem Sound.empty (v : Vectors ρ σ) : Sound v ({} : VectorStore ν ρ) where
  exact := Exact.nil _
  length := rfl
  row _ _ _ h := by cases h
  matrix _ h := by cases h

theorem Sound.snoc (h : Sound v s) (doc : VectorDoc ν) (hnew : s.idToIdx.get? doc.docId=none) :
    Sound v
      { docs := s.docs++[doc]
        idToIdx := s.idToIdx.assign doc.docId s.docs.length
        matrix := none
        rows := s.rows++[none] } where
  exact := h.exact.snoc (h.exact.absent hnew)
  length := by simp [h.length]
  row i r d hr hd := by
    dsimp only at hr hd
    rcases Nat.lt_or_ge i s.rows.length with hi | hi
    · rw [List.getElem?_append_left hi] at hr
      rw [List.getElem?_append_left (h.length ▸ hi)] at hd
      exact h.row i r d hr hd
    · rw [List.getElem?_append_right hi] at hr
      have hnone := List.mem_of_getElem? hr
      rw [List.mem_singleton] at hnone
      cases hnone
  matrix _ hm := by cases hm

theorem Sound.upsert (h : Sound v s) (doc : VectorDoc ν) : Sound v (s.upsert doc) := by
  unfold VectorStore.upsert
  split
  · exact h.snoc doc ‹_›
  · rename_i idx hidx
    obtain ⟨old,hold,-⟩ := (h.exact _ _).mp hidx
    obtain ⟨hlt,-⟩ := List.getElem?_eq_some_iff.mp hold
    simp only [hold,Option.map_some,Option.some.injEq]
    split_ifs with htext
    · have hrows : rowsOf v (s.docs.set idx doc)=rowsOf v s.docs := by
        unfold rowsOf
        apply List.ext_getElem?
        intro i
        rw [List.getElem?_map,List.getElem?_map]
        by_cases hi : idx=i
        · subst hi
          rw [List.getElem?_set_self hlt,hold,Option.map_some,Option.map_some,htext]
        · rw [List.getElem?_set_ne hi]
      constructor
      · exact h.exact.set hidx
      · rw [List.length_set]
        exact h.length
      · intro i r d hr hd
        dsimp only at hr hd
        by_cases hi : idx=i
        · subst hi
          rw [List.getElem?_set_self hlt,Option.some.injEq] at hd
          have hrow := h.row idx r old hr hold
          rw [hrow,htext,hd]
        · rw [List.getElem?_set_ne hi] at hd
          exact h.row i r d hr hd
      · intro m hm
        rw [hrows]
        exact h.matrix m hm
    · constructor
      · exact h.exact.set hidx
      · rw [List.length_set,List.length_set]
        exact h.length
      · intro i r d hr hd
        dsimp only at hr hd
        by_cases hi : idx=i
        · subst hi
          rw [List.getElem?_set_self (h.length ▸ hlt)] at hr
          cases hr
        · rw [List.getElem?_set_ne hi] at hr hd
          exact h.row i r d hr hd
      · nofun

theorem Sound.delete (h : Sound v s) (docId : String) : Sound v (s.delete docId) := by
  unfold VectorStore.delete
  split
  · exact h
  · rename_i idx hidx
    constructor
    · apply positions_exact
      have hsub : (s.docs.eraseIdx idx).Sublist s.docs := List.eraseIdx_sublist _ _
      exact h.exact.nodup.sublist (hsub.map _)
    · rw [List.length_eraseIdx,List.length_eraseIdx,h.length]
    · intro i r d hr hd
      dsimp only at hr hd
      rw [List.getElem?_eraseIdx] at hr hd
      split_ifs at hr hd
      · exact h.row i r d hr hd
      · exact h.row (i+1) r d hr hd
    · nofun

theorem zipWith_rows {rows : List (Option ρ)} {docs : List (VectorDoc ν)} (hl : rows.length=docs.length)
    (hr : ∀(i : Nat) (r : ρ) (d : VectorDoc ν),rows[i]?=some (some r) → docs[i]?=some d → r=v.embed d.text) :
    List.zipWith (fun r d => r.getD (v.embed d.text)) rows docs=rowsOf v docs := by
  apply List.ext_getElem?
  intro i
  unfold rowsOf
  rw [List.getElem?_zipWith,List.getElem?_map]
  rcases Nat.lt_or_ge i docs.length with hi | hi
  · have hi' : i<rows.length := hl ▸ hi
    rw [List.getElem?_eq_getElem hi,List.getElem?_eq_getElem hi',Option.map_some]
    dsimp only
    cases hrow : rows[i] with
    | none => rfl
    | some r =>
      have hr' := hr i r docs[i] (by rw [List.getElem?_eq_getElem hi',hrow]) (List.getElem?_eq_getElem hi)
      rw [Option.getD_some,hr']
  · rw [List.getElem?_eq_none hi,List.getElem?_eq_none (hl ▸ hi)]
    rfl

theorem Sound.build (h : Sound v s) :
    Sound v (s.build v)∧(s.build v).docs=s.docs∧(s.build v).matrix=some (rowsOf v s.docs) := by
  unfold VectorStore.build
  split
  · rename_i m hm
    have hrows := h.matrix m hm
    exact ⟨h,rfl,hrows ▸ hm⟩
  · rw [if_pos h.length]
    split_ifs with hdocs
    · have hnil : rowsOf v s.docs=[] := by
        rw [hdocs]
        rfl
      refine ⟨⟨h.exact,h.length,h.row,?_⟩,rfl,by rw [hnil]⟩
      intro m hm
      cases hm
      exact hnil.symm
    · dsimp only
      rw [zipWith_rows h.length h.row]
      refine ⟨⟨h.exact,?_,?_,?_⟩,rfl,rfl⟩
      · simp [rowsOf]
      · intro i r d hr hd
        dsimp only at hr hd
        unfold rowsOf at hr
        rw [List.getElem?_map,List.getElem?_map,hd] at hr
        cases hr
        rfl
      · intro m hm
        cases hm
        rfl

theorem foldl_sound (h : Sound v s) (docs : List (VectorDoc ν)) : Sound v (docs.foldl VectorStore.upsert s) := by
  induction docs generalizing s with
  | nil => exact h
  | cons doc docs ih => exact ih (h.upsert doc)

theorem ofDocs_sound (v : Vectors ρ σ) (docs : List (VectorDoc ν)) :
    Sound v (VectorStore.ofDocs docs : VectorStore ν ρ) :=
  foldl_sound (Sound.empty v) docs

theorem foldl_docs (h : Sound v s) (hn : ((s.docs++docs).map VectorDoc.docId).Nodup) :
    (docs.foldl VectorStore.upsert s).docs=s.docs++docs := by
  induction docs generalizing s with
  | nil => exact (List.append_nil _).symm
  | cons doc docs ih =>
    have hnew : s.idToIdx.get? doc.docId=none := by
      by_contra hne
      obtain ⟨i,hi⟩ := Option.ne_none_iff_exists'.mp hne
      obtain ⟨d,hd,hid⟩ := (h.exact _ _).mp hi
      rw [List.map_append,List.nodup_append] at hn
      exact hn.2.2 _ (List.mem_map_of_mem (List.mem_of_getElem? hd)) _
        (List.mem_map_of_mem (List.mem_cons_self ..)) hid
    have hdocs : (s.upsert doc).docs=s.docs++[doc] := by
      unfold VectorStore.upsert
      rw [hnew]
    have hrest := ih (h.upsert doc)
    rw [hdocs,List.append_assoc,List.singleton_append] at hrest
    exact hrest hn

theorem ofDocs_docs (v : Vectors ρ σ) (hn : (docs.map VectorDoc.docId).Nodup) :
    (VectorStore.ofDocs docs : VectorStore ν ρ).docs=docs :=
  foldl_docs (Sound.empty v) hn

section
variable [LT σ] [DecidableLT σ]

theorem query_eq (hs : Sound v s) (ht : Sound v t) (hdocs : s.docs=t.docs) (text : String) (topK : Int)
    (minScore : σ) (predicate : VectorDoc ν → Bool) :
    (s.query v text topK minScore predicate).2=(t.query v text topK minScore predicate).2 := by
  unfold VectorStore.query
  split_ifs
  · rfl
  · have hb := hs.build
    have hc := ht.build
    have hhit : ∀scores candidates,(s.build v).hit (σ:=σ) scores candidates minScore=
        (t.build v).hit scores candidates minScore := by
      intro scores candidates
      unfold VectorStore.hit
      rw [hb.2.1,hc.2.1,hdocs]
    unfold VectorStore.ranked
    rw [hb.2.1,hb.2.2,hc.2.1,hc.2.2,hdocs]
    simp only [hhit]

theorem Sound.query (h : Sound v s) (text : String) (topK : Int) (minScore : σ)
    (predicate : VectorDoc ν → Bool) : Sound v (s.query v text topK minScore predicate).1 := by
  unfold VectorStore.query
  split_ifs
  · exact h
  · exact h.build.1

end

theorem foldl_matrix (h : s.matrix=none) (docs : List (VectorDoc ν)) :
    (docs.foldl VectorStore.upsert s).matrix=none := by
  induction docs generalizing s with
  | nil => exact h
  | cons doc docs ih =>
    apply ih
    unfold VectorStore.upsert
    split
    · rfl
    · split_ifs
      · exact h
      · rfl

/-! Files -/

section
variable {w : Environment ν ρ σ τ δ}

def Vouched (w : Environment ν ρ σ τ δ) (f : VecsFile ρ δ) : Prop :=
  ∀a,f=.archive a → ∀m docs,a.dim=w.dim → a.matrix=some m → m.length=docs.length →
    docsContentDigest w.hashing docs=some a.docsDigest → m=rowsOf w.vectors docs

theorem digest_texts (hjson : ∀ds es x,w.hashing.dumps ds=some x → w.hashing.dumps es=some x →
      ds.map VectorDoc.text=es.map VectorDoc.text) (hsha : Function.Injective w.hashing.sha256)
    {ds es : List (VectorDoc ν)} {x : δ} (hd : docsContentDigest w.hashing ds=some x)
    (he : docsContentDigest w.hashing es=some x) : rowsOf w.vectors ds=rowsOf w.vectors es := by
  obtain ⟨p,hp,hpx⟩ := Option.map_eq_some_iff.mp hd
  obtain ⟨q,hq,hqx⟩ := Option.map_eq_some_iff.mp he
  have hpq : p=q := hsha (hpx.trans hqx.symm)
  have htexts := hjson ds es p hp (hpq ▸ hq)
  have hmap : ∀l : List (VectorDoc ν),rowsOf w.vectors l=(l.map VectorDoc.text).map w.vectors.embed := by
    intro l
    rw [List.map_map]
    rfl
  rw [hmap,hmap,htexts]

variable [DecidableEq δ]

theorem cachedMatrix_spec {f : VecsFile ρ δ} (h : cachedMatrix w.hashing w.dim docs f=some m) :
    ∃a,f=.archive a∧a.dim=w.dim∧docsContentDigest w.hashing docs=some a.docsDigest∧a.matrix=some m∧
      m.length=docs.length := by
  unfold cachedMatrix at h
  split at h
  · cases h
  · cases h
  · rename_i a
    split_ifs at h with hbad
    rw [not_or,not_not,not_not] at hbad
    obtain ⟨hm,hl⟩ := Option.filter_eq_some_iff.mp h
    exact ⟨a,rfl,hbad.1,hbad.2,hm,of_decide_eq_true hl⟩

theorem load_spec (docsFile : DocsFile ν) {f : VecsFile ρ δ} (hf : Vouched w f) :
    Sound w.vectors (VectorStore.load w.hashing w.dim docsFile f)∧
      ∀m,(VectorStore.load w.hashing w.dim docsFile f).matrix=some m → ∃a,f=.archive a∧a.dim=w.dim∧
        docsContentDigest w.hashing (VectorStore.load w.hashing w.dim docsFile f).docs=
          some a.docsDigest∧a.matrix=some m := by
  have hof := ofDocs_sound w.vectors (readDocs docsFile)
  have hempty : (VectorStore.ofDocs (readDocs docsFile) : VectorStore ν ρ).matrix=none :=
    foldl_matrix rfl _
  unfold VectorStore.load
  dsimp only
  split_ifs
  · refine ⟨hof,?_⟩
    intro m hm
    rw [hempty] at hm
    cases hm
  · split
    · refine ⟨hof,?_⟩
      intro m hm
      rw [hempty] at hm
      cases hm
    · rename_i m hm
      obtain ⟨a,ha,hdim,hdigest,hmatrix,hlength⟩ := cachedMatrix_spec hm
      have hrows := hf a ha m _ hdim hmatrix hlength hdigest
      constructor
      · constructor
        · exact hof.exact
        · simpa using hlength
        · intro i r d hr hd
          dsimp only at hr hd
          rw [hrows] at hr
          unfold rowsOf at hr
          rw [List.getElem?_map,List.getElem?_map,hd] at hr
          cases hr
          rfl
        · intro m' hm'
          cases hm'
          exact hrows
      · intro m' hm'
        cases hm'
        exact ⟨a,ha,hdim,hdigest,hmatrix⟩

end

end

section

open Framework

variable {ν ρ σ τ δ : Type*} [DecidableEq ν] {s t : VectorStore ν ρ} {d e : VectorDoc ν}
  {documents wanted current managed : List (VectorDoc ν)} {seen : List String} {now : Int}

def VectorDoc.content (d : VectorDoc ν) : String × String := (d.docId,d.text)

theorem isManaged_of_meta {a b : VectorDoc ν} (hid : a.docId=b.docId)
    (htype : OrderedDict.get? a.metadata "type"=some (.str "knowledge") →
      OrderedDict.get? b.metadata "type"=some (.str "knowledge")) (ha : isManaged a=true) :
    isManaged b=true := by
  unfold isManaged at ha ⊢
  rw [Bool.and_eq_true,decide_eq_true_eq] at ha ⊢
  exact ⟨hid ▸ ha.1,htype ha.2⟩

theorem requested_ok (h : requested seen documents=.ok wanted) :
    wanted.map VectorDoc.content=documents.map VectorDoc.content∧(∀d∈wanted,isManaged d=true)∧
      (∀d∈wanted,d.docId∉seen)∧(wanted.map VectorDoc.docId).Nodup := by
  induction documents generalizing seen wanted with
  | nil =>
    cases h
    simp
  | cons d ds ih =>
    unfold requested at h
    split_ifs at h with hspace hempty hseen happroved
    cases hrest : requested (d.docId::seen) ds with
    | error x =>
      rw [hrest] at h
      cases h
    | ok rest =>
      rw [hrest] at h
      cases h
      obtain ⟨hcontent,hmanaged,hnew,hnodup⟩ := ih hrest
      refine ⟨?_,?_,?_,?_⟩
      · rw [List.map_cons,List.map_cons,hcontent]
        rfl
      · intro e he
        rcases List.mem_cons.mp he with rfl | he
        · rw [not_or,not_not,not_not] at happroved
          unfold isManaged
          rw [Bool.and_eq_true,decide_eq_true_eq]
          exact ⟨by simpa using hspace,happroved.1⟩
        · exact hmanaged e he
      · intro e he
        rcases List.mem_cons.mp he with rfl | he
        · exact hseen
        · exact fun hin => hnew e he (List.mem_cons_of_mem _ hin)
      · rw [List.map_cons,List.nodup_cons]
        refine ⟨?_,hnodup⟩
        intro hin
        obtain ⟨e,he,hid⟩ := List.mem_map.mp hin
        apply hnew e he
        rw [hid]
        exact List.mem_cons_self ..

theorem resolve_content : (resolve managed now d).content=d.content := by
  unfold resolve
  dsimp only
  split
  · rfl
  · rename_i previous hprevious
    split_ifs with hsame
    · have hid := List.find?_some hprevious
      rw [decide_eq_true_eq] at hid
      unfold VectorDoc.content
      rw [hid,hsame.1]
    · rfl

theorem resolve_managed (hm : ∀e∈managed,isManaged e=true) (hd : isManaged d=true) :
    isManaged (resolve managed now d)=true := by
  have hpublished : isManaged
      (⟨d.docId,d.text,OrderedDict.assign d.metadata "updated_at" (.time now)⟩ : VectorDoc ν)=true := by
    refine isManaged_of_meta (a:=d) rfl ?_ hd
    intro htype
    rw [← htype]
    exact OrderedDict.get?_assign_ne (by decide)
  unfold resolve
  dsimp only
  split
  · exact hpublished
  · rename_i previous hprevious
    split_ifs
    · exact hm previous (List.mem_of_find?_eq_some hprevious)
    · exact hpublished

theorem retained_eq (hn : (current.map VectorDoc.docId).Nodup) :
    retained current=current.filter fun d => !isManaged d := by
  apply List.filter_congr
  intro d hd
  cases hmanaged : isManaged d with
  | true =>
    have hin : d.docId∈(current.filter isManaged).map VectorDoc.docId :=
      List.mem_map_of_mem (List.mem_filter.mpr ⟨hd,hmanaged⟩)
    rw [decide_eq_false (not_not_intro hin)]
    rfl
  | false =>
    rw [Bool.not_false,decide_eq_true_eq]
    intro hin
    obtain ⟨e,he,hid⟩ := List.mem_map.mp hin
    obtain ⟨hec,hem⟩ := List.mem_filter.mp he
    have hed := List.inj_on_of_nodup_map hn hec hd hid
    rw [hed,hmanaged] at hem
    cases hem

theorem filter_agrees {α β γ : Type*} {p : α → Bool} {q : β → Bool} {f : α → γ} {g : β → γ} {l : List α}
    {r : List β} (hl : l.length=r.length) (h : ∀x∈l.zip r,p x.1=q x.2∧f x.1=g x.2) :
    (l.filter p).map f=(r.filter q).map g := by
  induction l generalizing r with
  | nil =>
    have hr := List.length_eq_zero_iff.mp hl.symm
    rw [hr]
    rfl
  | cons a l ih =>
    cases r with
    | nil => cases hl
    | cons b r =>
      have hrest := ih (Nat.succ.inj hl) fun x hx => h x (List.mem_cons_of_mem _ hx)
      obtain ⟨hp,hf⟩ := h (a,b) (List.mem_cons_self ..)
      rw [List.filter_cons,List.filter_cons,hp]
      split_ifs
      · rw [List.map_cons,List.map_cons,hrest,hf]
      · exact hrest

structure Replaced (before after documents : List (VectorDoc ν)) : Prop where
  others : after.filter (fun d => !isManaged d)=before.filter fun d => !isManaged d
  knowledge : (after.filter isManaged).map VectorDoc.content=documents.map VectorDoc.content

theorem sameMeta_get {a b : Meta ν} (h : sameMeta a b=true) {k : String} {x : MetaValue ν}
    (hk : OrderedDict.get? a k=some x) : OrderedDict.get? b k=some x := by
  unfold sameMeta at h
  rw [Bool.and_eq_true,List.all_eq_true] at h
  exact of_decide_eq_true (h.2 _ (OrderedDict.mem_of_get? hk))

theorem managed_append {kept resolved : List (VectorDoc ν)} (hkept : ∀d∈kept,isManaged d=false)
    (hmanaged : ∀d∈resolved,isManaged d=true) : (kept++resolved).filter isManaged=resolved := by
  have hnone : kept.filter isManaged=[] := by
    rw [List.filter_eq_nil_iff]
    intro d hd
    rw [hkept d hd]
    decide
  rw [List.filter_append,hnone,List.nil_append,List.filter_eq_self.mpr hmanaged]

theorem same_agrees {resolved : List (VectorDoc ν)} (hn : (current.map VectorDoc.docId).Nodup)
    (hmanaged : ∀d∈resolved,isManaged d=true)
    (h : sameDocs (current.filter (fun d => !isManaged d)++resolved) current=true) :
    ((current.filter (fun d => !isManaged d)++resolved).filter isManaged).map VectorDoc.content=
      (current.filter isManaged).map VectorDoc.content := by
  unfold sameDocs at h
  rw [Bool.and_eq_true,decide_eq_true_eq,List.all_eq_true] at h
  apply filter_agrees h.1
  rintro ⟨a,b⟩ hab
  have hsame := h.2 _ hab
  obtain ⟨ha,hb⟩ := List.of_mem_zip hab
  unfold VectorDoc.same at hsame
  rw [Bool.and_eq_true,Bool.and_eq_true,decide_eq_true_eq,decide_eq_true_eq] at hsame
  obtain ⟨⟨hid,htext⟩,hmeta⟩ := hsame
  dsimp only at hid htext hmeta ⊢
  constructor
  · rcases List.mem_append.mp ha with ha | ha
    · have hab' := List.inj_on_of_nodup_map hn (List.mem_of_mem_filter ha) hb hid
      rw [hab']
    · have hma := hmanaged a ha
      rw [hma]
      exact (isManaged_of_meta hid (sameMeta_get hmeta) hma).symm
  · unfold VectorDoc.content
    rw [hid,htext]

theorem replace_replaced {v : Vectors ρ σ} (hs : Sound v s) {changed : Bool}
    (h : replaceConfiguredKnowledge s documents now=.ok (t,changed)) :
    Sound v t∧Replaced s.docs t.docs documents∧(changed=false → t=s) := by
  have hn := hs.exact.nodup
  unfold replaceConfiguredKnowledge at h
  cases hrequested : requested [] documents with
  | error x =>
    rw [hrequested] at h
    cases h
  | ok wanted =>
    rw [hrequested] at h
    dsimp only at h
    obtain ⟨hcontent,hwanted,-,hnodup⟩ := requested_ok hrequested
    generalize hresolved : wanted.map (resolve (s.docs.filter isManaged) now)=resolved at h
    have hmanaged : ∀d∈resolved,isManaged d=true := by
      intro d hd
      rw [← hresolved] at hd
      obtain ⟨e,he,rfl⟩ := List.mem_map.mp hd
      exact resolve_managed (fun x hx => (List.mem_filter.mp hx).2) (hwanted e he)
    have hsays : resolved.map VectorDoc.content=documents.map VectorDoc.content := by
      rw [← hcontent,← hresolved,List.map_map]
      exact List.map_congr_left fun d _ => resolve_content
    have hids : resolved.map VectorDoc.docId=wanted.map VectorDoc.docId := by
      rw [← hresolved,List.map_map]
      exact List.map_congr_left fun d _ => congrArg Prod.fst resolve_content
    rw [retained_eq hn] at h
    have hkept : ∀d∈s.docs.filter (fun d => !isManaged d),isManaged d=false := by
      intro d hd
      simpa using (List.mem_filter.mp hd).2
    split_ifs at h with hconflict hsame
    · cases h
      refine ⟨hs,⟨rfl,?_⟩,fun _ => rfl⟩
      have hagrees := same_agrees hn hmanaged hsame
      rw [managed_append hkept hmanaged, hsays] at hagrees
      exact hagrees.symm
    · cases h
      have hdistinct : ((s.docs.filter (fun d => !isManaged d)++resolved).map VectorDoc.docId).Nodup := by
        rw [List.map_append,hids,List.nodup_append]
        refine ⟨hn.sublist (List.filter_sublist.map _),hnodup,?_⟩
        rintro x hx y hy rfl
        obtain ⟨d,hd,rfl⟩ := List.mem_map.mp hy
        rw [List.any_eq_true] at hconflict
        exact hconflict ⟨d,hd,decide_eq_true hx⟩
      have hdocs := ofDocs_docs v hdistinct
      refine ⟨ofDocs_sound v _,?_,nofun⟩
      rw [hdocs]
      refine ⟨?_,?_⟩
      · have hnone : resolved.filter (fun d => !isManaged d)=[] := by
          rw [List.filter_eq_nil_iff]
          intro d hd
          rw [hmanaged d hd]
          decide
        rw [List.filter_append,hnone,List.append_nil,List.filter_filter]
        exact List.filter_congr fun d _ => Bool.and_self _
      · rw [managed_append hkept hmanaged, hsays]

/-! Runs -/

section
variable [DecidableEq δ] [LT σ] [DecidableLT σ] {w : Environment ν ρ σ τ δ} {x : MemoryDB ν ρ δ}

def MemoryAct.Vouches (w : Environment ν ρ σ τ δ) : MemoryAct ν ρ σ δ → Prop
  | .disturb _ vecsFile => Vouched w vecsFile
  | _ => True

structure Starts (w : Environment ν ρ σ τ δ) (x : MemoryDB ν ρ δ) : Prop where
  store : x.store={}
  saving : x.saving=none
  file : Vouched w x.vecsFile

structure Intact (w : Environment ν ρ σ τ δ) (x : MemoryDB ν ρ δ) : Prop where
  store : Sound w.vectors x.store
  saving : ∀y,x.saving=some y → y.2=rowsOf w.vectors y.1
  file : Vouched w x.vecsFile

theorem Starts.intact (h : Starts w x) : Intact w x where
  store := by
    rw [h.store]
    exact Sound.empty _
  saving y hy := by
    rw [h.saving] at hy
    cases hy
  file := h.file

theorem Intact.step (hjson : ∀ds es t,w.hashing.dumps ds=some t → w.hashing.dumps es=some t →
      ds.map VectorDoc.text=es.map VectorDoc.text) (hsha : Function.Injective w.hashing.sha256)
    (h : Intact w x) {a : MemoryAct ν ρ σ δ} (ha : a.Vouches w) {y : MemoryDB ν ρ δ}
    (hstep : x.step w a=some y) : Intact w y := by
  cases a with
  | upsert doc =>
    cases hstep
    exact ⟨h.store.upsert doc,h.saving,h.file⟩
  | delete docId =>
    cases hstep
    exact ⟨h.store.delete docId,h.saving,h.file⟩
  | replaceConfiguredKnowledge documents publishedAt =>
    unfold MemoryDB.step at hstep
    dsimp only at hstep
    split at hstep
    · cases hstep
      exact h
    · cases hstep
      exact ⟨(replace_replaced h.store ‹_›).1,h.saving,h.file⟩
  | build =>
    cases hstep
    exact ⟨h.store.build.1,h.saving,h.file⟩
  | query text topK minScore predicate =>
    cases hstep
    exact ⟨h.store.query text topK minScore predicate,h.saving,h.file⟩
  | load =>
    cases hstep
    exact ⟨(load_spec _ h.file).1,h.saving,h.file⟩
  | snapshot =>
    unfold MemoryDB.step at hstep
    dsimp only at hstep
    split_ifs at hstep
    cases hstep
    obtain ⟨hsound,hdocs,hmatrix⟩ := h.store.build
    refine ⟨hsound,?_,h.file⟩
    rintro z hz
    cases hz
    rw [hmatrix,hdocs]
    rfl
  | writeDocs =>
    obtain ⟨z,hz,rfl⟩ := Option.map_eq_some_iff.mp hstep
    exact ⟨h.store,h.saving,h.file⟩
  | writeVectors =>
    obtain ⟨z,hz,hwritten⟩ := Option.bind_eq_some_iff.mp hstep
    obtain ⟨digest,hdigest,rfl⟩ := Option.map_eq_some_iff.mp hwritten
    refine ⟨h.store,h.saving,?_⟩
    rintro a ha m docs - hm - hdocs
    cases ha
    cases hm
    rw [h.saving z hz]
    exact digest_texts hjson hsha hdigest hdocs
  | saved =>
    obtain ⟨z,hz,rfl⟩ := Option.map_eq_some_iff.mp hstep
    exact ⟨h.store,nofun,h.file⟩
  | disturb docsFile vecsFile =>
    cases hstep
    exact ⟨h.store,h.saving,ha⟩

structure EqualsRebuild (w : Environment ν ρ σ τ δ) (x : MemoryDB ν ρ δ) : Prop where
  unique : (x.store.docs.map VectorDoc.docId).Nodup
  exact : Exact VectorDoc.docId x.store.docs x.store.idToIdx
  matrix : ∀m,x.store.matrix=some m → m=rowsOf w.vectors x.store.docs
  query : ∀text topK minScore predicate,(x.store.query w.vectors text topK minScore predicate).2=
    ((VectorStore.ofDocs x.store.docs).query w.vectors text topK minScore predicate).2
  /-- Of the cache a load takes the matrix of the very documents it has read. -/
  cache : ∀m,(VectorStore.load w.hashing w.dim x.docsFile x.vecsFile).matrix=some m →
    m=rowsOf w.vectors (VectorStore.load w.hashing w.dim x.docsFile x.vecsFile).docs∧
      ∃a,x.vecsFile=.archive a∧a.dim=w.dim∧a.matrix=some m∧docsContentDigest w.hashing
        (VectorStore.load w.hashing w.dim x.docsFile x.vecsFile).docs=some a.docsDigest
  knowledge : ∀documents publishedAt,
    match replaceConfiguredKnowledge x.store documents publishedAt with
    | .error _ => x.step w (.replaceConfiguredKnowledge documents publishedAt)=some x
    | .ok (store,changed) =>
      x.step w (.replaceConfiguredKnowledge documents publishedAt)=some {x with store := store}∧
        Replaced x.store.docs store.docs documents∧(changed=false → store=x.store)

/-- In every state of a run, unless others put foreign numbers under a digest. -/
theorem index_equals_rebuild
    (hjson : ∀ds es t,w.hashing.dumps ds=some t → w.hashing.dumps es=some t →
      ds.map VectorDoc.text=es.map VectorDoc.text)
    (hsha : Function.Injective w.hashing.sha256)
    (h : Reach (MemoryDB.step w) (fun _ a => a.Vouches w) (Starts w) x) : EqualsRebuild w x := by
  have hinv : Intact w x := h.invariant (fun y hy => hy.intact)
    fun y a z hy ha hz => hy.step hjson hsha ha hz
  have hstore := hinv.store
  refine ⟨hstore.exact.nodup,hstore.exact,hstore.matrix,?_,?_,?_⟩
  · intro text topK minScore predicate
    have hdocs := ofDocs_docs w.vectors hstore.exact.nodup
    exact query_eq hstore (ofDocs_sound _ _) hdocs.symm text topK minScore predicate
  · intro m hm
    obtain ⟨hsound,hload⟩ := load_spec x.docsFile hinv.file
    obtain ⟨a,ha,hdim,hdigest,hmatrix⟩ := hload m hm
    exact ⟨hsound.matrix m hm,a,ha,hdim,hmatrix,hdigest⟩
  · intro documents publishedAt
    split
    · rename_i e herror
      simp only [MemoryDB.step,herror]
    · rename_i store changed hok
      obtain ⟨-,hreplaced,hsame⟩ := replace_replaced hstore hok
      refine ⟨?_,hreplaced,hsame⟩
      simp only [MemoryDB.step,hok]

end

def lengths : Environment Unit Nat Nat (List (VectorDoc Unit)) (List (VectorDoc Unit)) where
  dim := 1
  vectors := ⟨String.length,fun rows q => rows.map (· * q),fun scores => List.range scores.length⟩
  hashing := ⟨some,id⟩
  reread := id

def note : VectorDoc Unit := ⟨"note","tea",[]⟩

theorem index_equals_rebuild_reloaded : ∃x,EqualsRebuild lengths x∧x.store.matrix=some [3] := by
  have hrun : (execute (MemoryDB.step lengths) {}
      [.upsert note,.snapshot,.writeDocs,.writeVectors,.saved,.load]).any
      (fun x => x.store.matrix=some [3])=true := by decide
  obtain ⟨x,hx,hmatrix⟩ := (Option.any_eq_true _ _).mp hrun
  have hstart : Starts lengths {} := ⟨rfl,rfl,nofun⟩
  have hreach : Reach (MemoryDB.step lengths) (fun _ a => a.Vouches lengths) (Starts lengths) x := by
    refine Reach.execute _ ?_ (.start hstart) hx
    intro a ha u
    cases a with
    | disturb docsFile vecsFile => simp at ha
    | _ => trivial
  refine ⟨x,index_equals_rebuild ?_ ?_ hreach,of_decide_eq_true hmatrix⟩
  · intro ds es t hd he
    cases hd
    cases he
    rfl
  · exact Function.injective_id

/-- A cache file with the digest of the documents and other numbers is used. -/
theorem foreign_rows_used : ¬∀x,Reach (MemoryDB.step lengths) (fun _ _ => True) (fun x => x={}) x →
    EqualsRebuild lengths x := by
  intro hall
  have hrun : (execute (MemoryDB.step lengths) {}
      [.disturb (.items [some note]) (.archive ⟨1,some [7],[note]⟩),.load]).any
      (fun x => x.store.matrix=some [7] && rowsOf lengths.vectors x.store.docs=[3])=true := by decide
  obtain ⟨x,hx,hend⟩ := (Option.any_eq_true _ _).mp hrun
  rw [Bool.and_eq_true,decide_eq_true_eq,decide_eq_true_eq] at hend
  have hreach : Reach (MemoryDB.step lengths) (fun _ _ => True) (fun x => x={}) x :=
    Reach.execute _ (fun _ _ _ => trivial) (.start rfl) hx
  have hmatrix := (hall x hreach).matrix _ hend.1
  rw [hend.2] at hmatrix
  cases hmatrix

end

end XiaoQing.Chat.Memory
