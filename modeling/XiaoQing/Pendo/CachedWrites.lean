import XiaoQing.Pendo.CachedTables

namespace XiaoQing.Pendo.Reads

open Framework Commands

variable {β ι ς σ φ : Type} {D : Decoder β ι ς σ φ} {t u v : Tables β ς} {ids more : List Text}
  {owner : Text} {p : ItemRow β → Bool} {f : ItemRow β → ItemRow β} {q : Query φ}

/-! ### What an invalidation reaches -/

def Invalidation.covers (key : Text) : Invalidation → Bool
  | .pattern text => ReadCache.matching text key
  | .clear => true
  | .ownerOf _ owner => ReadCache.matching (itemsPattern owner) key

def Covered (D : Decoder β ι ς σ φ) (q : Query φ) (todo : List Invalidation) : Prop :=
  ∃inv∈todo,inv.covers (q.key D)=true

theorem Covered.mono {todo more : List Invalidation} (h : Covered D q todo)
    (hmore : ∀inv∈todo,inv∈more) : Covered D q more := by
  obtain ⟨inv,hinv,hcovers⟩ := h
  exact ⟨inv,hmore inv hinv,hcovers⟩

theorem covered_clear : Covered D q [.clear] := ⟨.clear,by simp,rfl⟩

theorem join_cons_cons (sep : Char) (a b : Text) (rest : List Text) :
    join sep (a::b::rest)=a++sep::join sep (b::rest) := by
  simp [join]

theorem join_singleton (sep : Char) (a : Text) : join sep [a]=a := by
  simp [join]

theorem matching_infix {pattern key : Text} (h : pattern <:+: key) :
    ReadCache.matching pattern key=true := by
  simp [ReadCache.matching,h]

theorem matching_item (id : Text) (owner : Option Text) :
    ReadCache.matching id ((Query.item id owner : Query φ).key D)=true := by
  refine matching_infix ⟨"item".toList++['|'],'|'::owner.getD "*".toList,?_⟩
  simp only [Query.key,join_cons_cons,join_singleton,List.append_assoc,List.cons_append,
    List.nil_append]

theorem matching_items (owner : Text) (filters : φ) (zone : Option Text) (limit offset : Nat) :
    ReadCache.matching (itemsPattern owner) ((Query.items owner filters zone limit offset).key D)=
      true := by
  refine matching_infix ⟨[],'|'::join '|'
    [D.dumps filters zone,Nat.toDigits 10 limit,Nat.toDigits 10 offset],?_⟩
  simp only [Query.key,itemsPattern,join_cons_cons,join_singleton,List.append_assoc,
    List.cons_append,List.nil_append]

theorem matching_settings (user : Text) :
    ReadCache.matching (settingsKey user) ((Query.settings user : Query φ).key D)=true := by
  simp [ReadCache.matching,Query.key]

/-! ### What a transaction changes -/

structure Within (ids : List Text) (owner : Text) (t u : Tables β ς) : Prop where
  item : ∀id o,id∉ids → t.item id o=u.item id o
  live : ∀o,o≠owner → t.live o=u.live o
  settings : ∀user,t.settingsOf user=u.settingsOf user

theorem Within.of_same (hitems : u.items=t.items) (hsettings : u.settings=t.settings) :
    Within ids owner t u where
  item id o _ := by rw [Tables.item,Tables.item,hitems]
  live o _ := by rw [Tables.live,Tables.live,hitems]
  settings user := by rw [Tables.settingsOf,Tables.settingsOf,hsettings]

theorem Within.trans (h : Within ids owner t u) (h' : Within ids owner u v) :
    Within ids owner t v where
  item id o hid := (h.item id o hid).trans (h'.item id o hid)
  live o ho := (h.live o ho).trans (h'.live o ho)
  settings user := (h.settings user).trans (h'.settings user)

theorem Within.mono (h : Within ids owner t u) (hids : ∀id∈ids,id∈more) : Within more owner t u where
  item id o hid := h.item id o (fun hin => hid (hids id hin))
  live := h.live
  settings := h.settings

def Keeps (f : ItemRow β → ItemRow β) : Prop := ∀r,(f r).id=r.id ∧ (f r).owner=r.owner

variable {edit : ItemRow β → ItemRow β}

theorem keeps_edited {touch : Bool} : Keeps (.edited touch edit) :=
  fun _ => ⟨rfl,rfl⟩

variable {mark : β → β}

theorem keeps_marked {deleted touch : Bool} : Keeps (.marked deleted touch mark) :=
  fun _ => ⟨rfl,rfl⟩

theorem within_edit (hf : Keeps f) (hp : ∀r∈t.items,p r → r.id∈ids ∧ r.owner=owner) :
    Within ids owner t (editItems p f t) where
  item id o hid := by
    refine (find?_updateWhere_of_not ?_).symm
    intro r hr hpr
    have hne : r.id≠id := fun he => hid (he ▸ (hp r hr hpr).1)
    simp [hne,(hf r).1]
  live o ho := by
    refine (filter_updateWhere_of_not ?_).symm
    intro r hr hpr
    have hne : r.owner≠o := fun he => ho (he ▸ (hp r hr hpr).2)
    simp [hne,(hf r).2]
  settings _ := rfl

variable {row : ItemRow β}

theorem within_insert (h : insertRow row t=some u) (hid : row.id∈ids)
    (howner : row.owner=owner) : Within ids owner t u := by
  unfold insertRow at h
  split at h
  · cases h
  · cases h
    refine ⟨?_,?_,fun _ => rfl⟩
    · intro id o hnot
      have hne : row.id≠id := fun he => hnot (he ▸ hid)
      simp [Tables.item,List.find?_append,hne]
    · intro o ho
      have hne : row.owner≠o := fun he => ho (he.symm.trans howner)
      simp [Tables.live,List.filter_append,hne]

theorem within_remove (hp : ∀r∈t.items,p r → r.id∈ids ∧ r.owner=owner) :
    Within ids owner t {t with items := t.items.filter (fun r => !p r)} where
  item id o hid := by
    unfold Tables.item
    rw [←List.head?_filter,←List.head?_filter,List.filter_filter]
    congr 1
    refine List.filter_congr ?_
    intro r hr
    by_cases hpr : p r=true
    · have hne : r.id≠id := fun he => hid (he ▸ (hp r hr hpr).1)
      simp [hpr,hne]
    · simp [hpr]
  live o ho := by
    unfold Tables.live
    rw [List.filter_filter]
    refine List.filter_congr ?_
    intro r hr
    by_cases hpr : p r=true
    · have hne : r.owner≠o := fun he => ho (he ▸ (hp r hr hpr).2)
      simp [hpr,hne]
    · simp [hpr]
  settings _ := rfl

theorem mem_idsOf {r : ItemRow β} (hr : r∈t.items) (hp : p r=true) : r.id∈idsOf p t :=
  List.mem_map_of_mem (List.mem_filter.mpr ⟨hr,hp⟩)

theorem Within.covered (h : Within ids owner t u) (hq : ¬q.Same t u) :
    Covered D q (invalidations ids owner) := by
  cases q with
  | item id o =>
    have hid : id∈ids := by
      by_contra hnot
      exact hq (h.item id o hnot)
    exact ⟨.pattern id,by simp [invalidations,hid],matching_item id o⟩
  | items o filters zone limit offset =>
    have ho : o=owner := by
      by_contra hne
      exact hq (h.live o hne)
    subst ho
    exact ⟨.pattern (itemsPattern o),by simp [invalidations],matching_items o filters zone limit offset⟩
  | settings user => exact absurd (h.settings user) hq

variable {patch : Option ς → ς}

theorem changed_put {user : Text} (hq : ¬q.Same t (putSettings user patch u)) :
    ¬q.Same t u ∨ q=.settings user := by
  cases q with
  | item id o => exact .inl hq
  | items o filters zone limit offset => exact .inl hq
  | settings other =>
    by_cases ho : other=user
    · exact .inr (by rw [ho])
    · left
      intro hsame
      refine hq (Eq.trans hsame ?_)
      exact (row_upsert_of_ne (by exact fun _ => rfl) (by exact fun he => ho he.symm)).symm

theorem covered_settings {user : Text} {todo : List Invalidation}
    (h : .pattern (settingsKey user)∈todo) : Covered D (.settings user) todo :=
  ⟨_,h,matching_settings user⟩

abbrev UniqueIds (t : Tables β ς) : Prop := UniqueKeys ItemRow.id t.items

theorem unique_edit (h : UniqueIds t) (hf : Keeps f) : UniqueIds (editItems p f t) :=
  h.updateWhere (fun r => (hf r).1)

theorem unique_insert (h : UniqueIds t) (hrow : insertRow row t=some u) :
    UniqueIds u := by
  unfold insertRow at hrow
  split at hrow
  · cases hrow
  · rename_i hnew
    cases hrow
    refine h.append (fun r hr he => hnew ?_)
    exact List.any_eq_true.mpr ⟨r,hr,by simpa using he⟩

theorem unique_remove (h : UniqueIds t) {g : ItemRow β → Bool} :
    (((t.items.filter g).map ItemRow.id)).Nodup := h.sublist (List.filter_sublist.map _)

/-! ### The transactions -/

variable {todo : List Invalidation}

theorem insertItem_covers (h : insertItem row t=some (u,todo))
    (hq : ¬q.Same t u) : Covered D q todo := by
  obtain ⟨v,hv,he⟩ := Option.map_eq_some_iff.mp h
  cases he
  exact (within_insert hv (List.mem_singleton_self _) rfl).covered hq

theorem updateItem_covers {id : Text} {owner itemType : Option Text} {expectedVersion : Option Nat}
    {touch : Bool} (hunique : UniqueIds t)
    (h : updateItem D id owner itemType expectedVersion touch edit t=some (u,todo))
    (hq : ¬q.Same t u) : Covered D q todo := by
  unfold updateItem at h
  split at h
  · cases h
  · dsimp only at h
    split at h
    · cases h
    · rename_i r hr
      have hmem := List.mem_of_find?_eq_some hr
      have hmatched := List.find?_some hr
      simp only [Bool.and_eq_true,decide_eq_true_eq,Bool.not_eq_true'] at hmatched
      cases h
      have hwithin : Within [id] r.owner t (editItems (fun r' : ItemRow β => r'.id=id &&
          owner.all (· = r'.owner) && !r'.deleted && itemType.all (· = r'.kind) &&
          expectedVersion.all (· = r'.version)) (.edited touch edit) t) := by
        refine within_edit keeps_edited ?_
        intro r' hr' hp
        simp only [Bool.and_eq_true,decide_eq_true_eq,Bool.not_eq_true'] at hp
        have hsame : some r'=some r := by
          rw [←hunique.row_of_mem hr',←hunique.row_of_mem hmem,hp.1.1.1.1,hmatched.1.1.1.1]
        cases hsame
        exact ⟨by simp [hp.1.1.1.1],rfl⟩
      obtain ⟨inv,hinv,hcovers⟩ := hwithin.covered (D:=D) hq
      simp only [invalidations,List.map_cons,List.map_nil,List.cons_append,List.nil_append,
        List.mem_cons,List.not_mem_nil,or_false] at hinv
      rcases hinv with rfl | rfl
      · exact ⟨_,List.mem_cons_self,hcovers⟩
      · cases owner with
        | none => exact ⟨.ownerOf id r.owner,by simp,hcovers⟩
        | some o =>
          have ho : o=r.owner := by simpa using hmatched.1.1.1.2
          exact ⟨.pattern (itemsPattern o),by simp,by rw [ho]; exact hcovers⟩

theorem apply_within {operation : Operation β} (h : operation.apply owner t=some u)
    (hid : operation.id∈ids) : Within ids owner t u := by
  unfold Operation.apply at h
  split at h
  · cases h
  · cases operation with
    | insert row => exact within_insert h hid rfl
    | update id edit =>
      dsimp only at h
      split at h
      · cases h
        refine within_edit keeps_edited ?_
        intro r hr hp
        simp only [Bool.and_eq_true,decide_eq_true_eq,Bool.not_eq_true'] at hp
        exact ⟨hp.1.1 ▸ hid,hp.1.2⟩
      · cases h

theorem apply_unique {operation : Operation β} (hunique : UniqueIds t)
    (h : operation.apply owner t=some u) : UniqueIds u := by
  unfold Operation.apply at h
  split at h
  · cases h
  · cases operation with
    | insert row => exact unique_insert hunique h
    | update id edit =>
      dsimp only at h
      split at h
      · cases h
        exact unique_edit hunique keeps_edited
      · cases h

theorem foldlM_rel {α : Type} {R : Tables β ς → Tables β ς → Prop} {g : Tables β ς → α → Option (Tables β ς)}
    (hrefl : ∀t,R t t) (htrans : ∀t u v,R t u → R u v → R t v) (l : List α)
    (hg : ∀a∈l,∀t u,g t a=some u → R t u) (h : l.foldlM g t=some u) : R t u := by
  induction l generalizing t with
  | nil =>
    cases h
    exact hrefl _
  | cons a l ih =>
    obtain ⟨v,hv,hrest⟩ := Option.bind_eq_some_iff.mp h
    exact htrans _ _ _ (hg a (by simp) _ _ hv) (ih (fun b hb => hg b (by simp [hb])) hrest)

theorem batchInsertOrUpdate_covers {operations : List (Operation β)}
    (h : batchInsertOrUpdate owner operations t=some (u,todo)) (hq : ¬q.Same t u) :
    Covered D q todo := by
  obtain ⟨v,hv,he⟩ := Option.map_eq_some_iff.mp h
  cases he
  have hwithin : Within (operations.map Operation.id) owner t u :=
    foldlM_rel (fun _ => .of_same rfl rfl) (fun _ _ _ => Within.trans) operations
      (fun a ha _ _ hstep => apply_within hstep (List.mem_map_of_mem ha)) hv
  exact hwithin.covered hq

theorem batchSoftDelete_covers {itemType : Option Text}
    (h : batchSoftDelete ids owner itemType mark t=some (u,todo)) (hq : ¬q.Same t u) :
    Covered D q todo := by
  unfold batchSoftDelete at h
  dsimp only at h
  split at h
  · cases h
  · cases h
    refine Within.covered (within_edit keeps_marked ?_) hq
    intro r hr hp
    refine ⟨mem_idsOf hr hp,?_⟩
    simp only [Bool.and_eq_true,decide_eq_true_eq] at hp
    exact hp.1.1.2

variable {collection : Text}

theorem createEventCollection_covers {children : List (ItemRow β)}
    (h : createEventCollection collection owner children t=some (u,todo)) (hq : ¬q.Same t u) :
    Covered D q todo := by
  unfold createEventCollection at h
  split at h
  · cases h
  · obtain ⟨v,hv,he⟩ := Option.map_eq_some_iff.mp h
    cases he
    have hwithin : Within (children.map ItemRow.id) owner
        {t with collections := t.collections++[⟨collection,owner,false⟩]} u := by
      refine foldlM_rel (fun _ => .of_same rfl rfl) (fun _ _ _ => Within.trans) _ ?_ hv
      intro row hrow t u hstep
      obtain ⟨r,hr,rfl⟩ := List.mem_map.mp hrow
      exact within_insert hstep (List.mem_map.mpr ⟨r,hr,rfl⟩) rfl
    have hheader : Within (children.map ItemRow.id) owner t
        {t with collections := t.collections++[⟨collection,owner,false⟩]} := .of_same rfl rfl
    have hall := hheader.trans hwithin
    exact (hall.covered hq).mono (fun inv hinv => List.mem_append_left _ hinv)

theorem deleteEventInstance_covers {id : Text}
    (h : deleteEventInstance id owner mark t=some (u,todo)) (hq : ¬q.Same t u) :
    Covered D q todo := by
  unfold deleteEventInstance at h
  dsimp only at h
  have hwithin : Within [id] owner t (editItems (fun r : ItemRow β => r.id=id && r.owner=owner &&
      r.kind=eventText && !r.deleted) (.marked true true mark) t) := by
    refine within_edit keeps_marked ?_
    intro r _ hp
    simp only [Bool.and_eq_true,decide_eq_true_eq] at hp
    exact ⟨by simp [hp.1.1.1],hp.1.1.2⟩
  split at h
  · cases h
  · split at h
    · cases h
      exact hwithin.covered hq
    · split at h
      · cases h
        have hall : Within [id] owner t _ := ⟨hwithin.item,hwithin.live,hwithin.settings⟩
        exact (hall.covered hq).mono (fun inv hinv => List.mem_append_left _ hinv)
      · cases h
        exact hwithin.covered hq

theorem deleteEventCollection_covers {cascade : Bool}
    (h : deleteEventCollection collection owner cascade mark t=some (u,todo)) (hq : ¬q.Same t u) :
    Covered D q todo := by
  unfold deleteEventCollection at h
  dsimp only at h
  split at h
  · cases h
    refine Covered.mono (Within.covered (within_edit keeps_marked ?_) hq)
      (fun inv hinv => List.mem_append_left _ hinv)
    intro r hr hp
    refine ⟨mem_idsOf hr hp,?_⟩
    simp only [Bool.and_eq_true,decide_eq_true_eq] at hp
    exact hp.1.1.1.2
  · cases h

theorem migrateTodos_covers {due : β → Bool} {move : β → β} {done : ς → Bool} (h : migrateTodos owner due move done patch t=some (u,todo))
    (hq : ¬q.Same t u) : Covered D q todo := by
  unfold migrateTodos at h
  dsimp only at h
  split at h
  · cases h
  · cases h
    rcases changed_put hq with hq | rfl
    · refine Covered.mono (Within.covered (within_edit keeps_marked ?_) hq)
        (fun inv hinv => List.mem_append_left _ hinv)
      intro r hr hp
      refine ⟨mem_idsOf hr hp,?_⟩
      simp only [Bool.and_eq_true,decide_eq_true_eq] at hp
      exact hp.1.1.1
    · exact covered_settings (by simp)

theorem deleteItem_covers {id : Text} {soft : Bool}
    (h : deleteItem id owner soft mark t=some (u,todo)) (hq : ¬q.Same t u) : Covered D q todo := by
  unfold deleteItem at h
  dsimp only at h
  have hrows : ∀r∈t.items,(r.id=id && r.owner=owner && (!soft || !r.deleted))=true →
      r.id∈[id] ∧ r.owner=owner := by
    intro r _ hp
    simp only [Bool.and_eq_true,decide_eq_true_eq] at hp
    exact ⟨by simp [hp.1.1],hp.1.2⟩
  split at h
  · split at h
    · cases h
      exact Within.covered (within_edit keeps_marked hrows) hq
    · cases h
      exact Within.covered (within_remove hrows) hq
  · cases h

theorem restoreEditSnapshot_covers {afterVersion : Nat}
    (h : restoreEditSnapshot owner ids afterVersion edit t=some (u,todo)) (hq : ¬q.Same t u) :
    Covered D q todo := by
  unfold restoreEditSnapshot at h
  dsimp only at h
  split at h
  · cases h
  · cases h
    refine Within.covered (within_edit keeps_edited ?_) hq
    intro r hr hp
    refine ⟨mem_idsOf hr hp,?_⟩
    simp only [Bool.and_eq_true,decide_eq_true_eq] at hp
    exact hp.1.2

theorem updateCollection_covers
    {changes : ItemRow β → Option (ItemRow β → ItemRow β)}
    (h : updateCollection collection owner changes t=some (u,todo)) (hq : ¬q.Same t u) :
    Covered D q todo := by
  unfold updateCollection at h
  dsimp only at h
  split at h
  · cases h
    have hkeeps : Keeps (fun r : ItemRow β => r.edited true ((changes r).getD id)) :=
      fun _ => ⟨rfl,rfl⟩
    refine Covered.mono (Within.covered (within_edit hkeeps ?_) hq)
      (fun inv hinv => List.mem_append_left _ hinv)
    intro r hr hp
    refine ⟨mem_idsOf hr hp,?_⟩
    simp only [Bool.and_eq_true,decide_eq_true_eq] at hp
    exact hp.1.1.2
  · cases h

theorem restoreCollectionEdit_covers
    {snapshots : List (Text × Nat × (ItemRow β → ItemRow β))}
    (h : restoreCollectionEdit collection owner snapshots t=some (u,todo)) (hq : ¬q.Same t u) :
    Covered D q todo := by
  unfold restoreCollectionEdit at h
  dsimp only at h
  split at h
  · cases h
    have hfold : ∀(l : List (Text × Nat × (ItemRow β → ItemRow β))) (t : Tables β ς),
        (∀snapshot∈l,snapshot∈snapshots) → Within (snapshots.map Prod.fst) owner t
          (l.foldl (fun t snapshot => editItems (fun r => r.id=snapshot.1 && r.owner=owner)
            (.edited true snapshot.2.2) t) t) := by
      intro l
      induction l with
      | nil => exact fun _ _ => .of_same rfl rfl
      | cons snapshot l ih =>
        intro t hl
        refine Within.trans (within_edit keeps_edited ?_) (ih _ (fun s hs => hl s (by simp [hs])))
        intro r _ hp
        simp only [Bool.and_eq_true,decide_eq_true_eq] at hp
        exact ⟨hp.1 ▸ List.mem_map_of_mem (hl snapshot (by simp)),hp.2⟩
    refine ((hfold snapshots t (fun _ hs => hs)).covered hq).mono ?_
    intro inv hinv
    simp only [invalidations,List.map_map,List.mem_append,List.mem_singleton] at hinv
    rcases hinv with hinv | rfl
    · exact List.mem_append_left _ hinv
    · simp
  · cases h

theorem updateUserSettings_covers {user : Text}
    (h : updateUserSettings user patch t=some (u,todo)) (hq : ¬q.Same t u) : Covered D q todo := by
  cases h
  rcases changed_put hq with hq | rfl
  · cases q <;> exact absurd rfl hq
  · exact covered_settings (by simp)

theorem commit_covers {w : Write β ς} (hunique : UniqueIds t) (h : w.commit D t=some (u,todo))
    (hq : ¬q.Same t u) : Covered D q todo := by
  cases w with
  | insertItem row => exact insertItem_covers h hq
  | updateItem id owner itemType expectedVersion touch edit => exact updateItem_covers hunique h hq
  | batchInsertOrUpdate owner operations => exact batchInsertOrUpdate_covers h hq
  | batchSoftDelete ids owner itemType mark => exact batchSoftDelete_covers h hq
  | createEventCollection collection owner children => exact createEventCollection_covers h hq
  | deleteEventInstance id owner mark => exact deleteEventInstance_covers h hq
  | deleteEventCollection collection owner cascade mark => exact deleteEventCollection_covers h hq
  | migrateTodos user due move done patch => exact migrateTodos_covers h hq
  | deleteItem id owner soft mark => exact deleteItem_covers h hq
  | undoDelete owner ids collection mark =>
    cases h
    exact covered_clear
  | restoreEditSnapshot owner ids afterVersion edit => exact restoreEditSnapshot_covers h hq
  | updateCollection collection owner changes => exact updateCollection_covers h hq
  | restoreCollectionEdit collection owner snapshots => exact restoreCollectionEdit_covers h hq
  | updateUserSettings user patch => exact updateUserSettings_covers h hq
  | purgeDemoOwner owner =>
    cases h
    exact covered_clear

theorem commit_unique {w : Write β ς} (hunique : UniqueIds t) (h : w.commit D t=some (u,todo)) :
    UniqueIds u := by
  cases w with
  | insertItem row =>
    obtain ⟨v,hv,he⟩ := Option.map_eq_some_iff.mp h
    cases he
    exact unique_insert hunique hv
  | updateItem id owner itemType expectedVersion touch edit =>
    simp only [Write.commit,Reads.updateItem] at h
    split at h
    · cases h
    · split at h
      · cases h
      · cases h
        exact unique_edit hunique keeps_edited
  | batchInsertOrUpdate owner operations =>
    obtain ⟨v,hv,he⟩ := Option.map_eq_some_iff.mp h
    cases he
    exact foldlM_rel (R:=fun t u => UniqueIds t → UniqueIds u) (fun _ h => h)
      (fun _ _ _ h h' ht => h' (h ht)) operations (fun _ _ _ _ hstep ht => apply_unique ht hstep) hv hunique
  | batchSoftDelete ids owner itemType mark =>
    simp only [Write.commit,Reads.batchSoftDelete] at h
    split at h
    · cases h
    · cases h
      exact unique_edit hunique keeps_marked
  | createEventCollection collection owner children =>
    simp only [Write.commit,Reads.createEventCollection] at h
    split at h
    · cases h
    · obtain ⟨v,hv,he⟩ := Option.map_eq_some_iff.mp h
      cases he
      exact foldlM_rel (R:=fun t u => UniqueIds t → UniqueIds u) (fun _ h => h)
        (fun _ _ _ h h' ht => h' (h ht)) _ (fun _ _ _ _ hstep ht => unique_insert ht hstep) hv hunique
  | deleteEventInstance id owner mark =>
    simp only [Write.commit,Reads.deleteEventInstance] at h
    split at h
    · cases h
    · split at h
      · cases h
        exact unique_edit hunique keeps_marked
      · split at h <;>
        · cases h
          exact unique_edit hunique keeps_marked
  | deleteEventCollection collection owner cascade mark =>
    simp only [Write.commit,Reads.deleteEventCollection] at h
    split at h
    · cases h
      exact unique_edit hunique keeps_marked
    · cases h
  | migrateTodos user due move done patch =>
    simp only [Write.commit,Reads.migrateTodos] at h
    split at h
    · cases h
    · cases h
      exact unique_edit hunique keeps_marked
  | deleteItem id owner soft mark =>
    simp only [Write.commit,Reads.deleteItem] at h
    split at h
    · cases h
      split
      · exact unique_edit hunique keeps_marked
      · exact unique_remove hunique
    · cases h
  | undoDelete owner ids collection mark =>
    cases h
    cases collection <;> exact unique_edit hunique keeps_marked
  | restoreEditSnapshot owner ids afterVersion edit =>
    simp only [Write.commit,Reads.restoreEditSnapshot] at h
    split at h
    · cases h
    · cases h
      exact unique_edit hunique keeps_edited
  | updateCollection collection owner changes =>
    simp only [Write.commit,Reads.updateCollection] at h
    split at h
    · cases h
      exact unique_edit hunique (fun _ => ⟨rfl,rfl⟩)
    · cases h
  | restoreCollectionEdit collection owner snapshots =>
    simp only [Write.commit,Reads.restoreCollectionEdit] at h
    split at h
    · cases h
      clear * - hunique
      induction snapshots generalizing t with
      | nil => exact hunique
      | cons snapshot snapshots ih => exact ih (unique_edit hunique keeps_edited)
    · cases h
  | updateUserSettings user patch =>
    cases h
    exact hunique
  | purgeDemoOwner owner =>
    cases h
    exact unique_remove hunique

end XiaoQing.Pendo.Reads
