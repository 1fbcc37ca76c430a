import XiaoQing.Json.Value

namespace XiaoQing.Json

def Ws (t : Text) : Prop := ∀c∈t,isWs c=true

/-- The symbols of the grammar: a value, the items of a list and what may follow one, the members
of an object and what may follow one. -/
inductive Sym
  | value (v : Value)
  | items (vs : List Value)
  | moreItems (vs : List Value)
  | members (ms : List (List Nat × Value))
  | moreMembers (ms : List (List Nat × Value))

/-- The JSON grammar: which texts a value is written as. -/
inductive Writes : Sym → Text → Prop
  | literal {w : Text} {v : Value} : (w,v)∈literals → Writes (.value v) w
  | number {isFloat : Bool} {t : Text} : IsNumber isFloat t → Writes (.value (.number isFloat t)) t
  | str {t : Text} {us : List Nat} : IsBody t us → Writes (.value (.str us)) ( '"'::(t++[ '"']))
  | emptyArr {a : Text} : Ws a → Writes (.value (.arr [])) ('['::(a++[']']))
  | arr {vs : List Value} {t : Text} : Writes (.items vs) t →
      Writes (.value (.arr vs)) ('['::(t++[']']))
  | emptyObj {a : Text} : Ws a → Writes (.value (.obj [])) ('{'::(a++['}']))
  | obj {ms : List (List Nat × Value)} {t : Text} : Writes (.members ms) t →
      Writes (.value (.obj ms)) ('{'::(t++['}']))
  | items {a t u : Text} {v : Value} {vs : List Value} : Ws a → Writes (.value v) t →
      Writes (.moreItems vs) u → Writes (.items (v::vs)) (a++(t++u))
  | noItems {a : Text} : Ws a → Writes (.moreItems []) a
  | moreItems {a t : Text} {vs : List Value} : Ws a → Writes (.items vs) t →
      Writes (.moreItems vs) (a++ ','::t)
  | members {a b c k t u : Text} {us : List Nat} {v : Value} {ms : List (List Nat × Value)} :
      Ws a → IsBody k us → Ws b → Ws c → Writes (.value v) t → Writes (.moreMembers ms) u →
      Writes (.members ((us,v)::ms)) (a++ '"'::(k++ '"'::(b++ ':'::(c++(t++u)))))
  | noMembers {a : Text} : Ws a → Writes (.moreMembers []) a
  | moreMembers {a t : Text} {ms : List (List Nat × Value)} : Ws a → Writes (.members ms) t →
      Writes (.moreMembers ms) (a++ ','::t)

def IsJson (v : Value) (text : Text) : Prop :=
  ∃a t b,Ws a ∧ Writes (.value v) t ∧ Ws b ∧ text=a++(t++b)

section

variable {a b t u rest : Text}

theorem Ws.nil : Ws [] := fun _ hc => absurd hc List.not_mem_nil

theorem Ws.append (ha : Ws a) (hb : Ws b) : Ws (a++b) := by
  intro c hc
  obtain hc | hc := List.mem_append.1 hc
  · exact ha c hc
  · exact hb c hc

variable {c : Char}

theorem isWs_delimiter (h : isWs c=true) : c∈delimiters := by
  simp only [isWs,Bool.or_eq_true,decide_eq_true_eq] at h
  rcases h with ((rfl|rfl)|rfl)|rfl <;> decide

theorem skipWs_split (t : Text) : ∃a,Ws a ∧ t=a++skipWs t :=
  ⟨t.takeWhile isWs,fun _ hc => List.mem_takeWhile_imp hc,List.takeWhile_append_dropWhile.symm⟩

theorem skipWs_append (ha : Ws a) : skipWs (a++t)=skipWs t := List.dropWhile_append_of_pos ha

theorem skipWs_cons (hc : isWs c=false) : skipWs (c::t)=c::t :=
  List.dropWhile_cons_of_neg (by simp [hc])

theorem skipWs_append_cons (ha : Ws a) (hc : isWs c=false) : skipWs (a++c::t)=c::t := by
  rw [skipWs_append ha,skipWs_cons hc]

theorem skipWs_eq_nil (h : skipWs t=[]) : Ws t := by
  obtain ⟨a,ha,ht⟩ := skipWs_split t
  rw [h,List.append_nil] at ht
  exact ht ▸ ha

theorem Ws.skipWs (h : Ws t) : skipWs t=[] := by
  have happend := skipWs_append (t:=[]) h
  rwa [List.append_nil] at happend

theorem skipWs_length (t : Text) : (skipWs t).length≤t.length := (List.dropWhile_sublist _).length_le

theorem Ws.terminated (ha : Ws a) (ht : Terminated t) : Terminated (a++t) := by
  cases a with
  | nil => exact ht
  | cons c a =>
    intro d hd
    cases hd
    exact isWs_delimiter (ha c (.head _))

theorem terminated_cons (hc : c∈delimiters) : Terminated (c::t) := by
  intro d hd
  cases hd
  exact hc

theorem Terminated.nil : Terminated [] := fun _ hc => by cases hc

theorem moreItems_terminated {vs : List Value} (h : Writes (.moreItems vs) t) :
    Terminated (t++ ']'::rest) := by
  cases h with
  | noItems ha => exact ha.terminated (terminated_cons (by decide))
  | moreItems ha _ =>
    rw [List.append_assoc]
    exact ha.terminated (terminated_cons (by decide))

theorem moreMembers_terminated {ms : List (List Nat × Value)} (h : Writes (.moreMembers ms) t) :
    Terminated (t++ '}'::rest) := by
  cases h with
  | noMembers ha => exact ha.terminated (terminated_cons (by decide))
  | moreMembers ha _ =>
    rw [List.append_assoc]
    exact ha.terminated (terminated_cons (by decide))

def NumberChar (c : Char) : Prop := isDigit c=true ∨ c∈['-','+','.','e','E']

theorem NumberChar.not_delimiter (h : NumberChar c) : c∉delimiters := by
  intro hmem
  have hall : delimiters.all (fun d => !isDigit d && d∉['-','+','.','e','E'])=true := by decide
  have hc := List.all_eq_true.1 hall c hmem
  simp only [Bool.and_eq_true,Bool.not_eq_true',decide_eq_true_eq] at hc
  obtain ⟨hdigit,hsign⟩ := hc
  obtain h | h := h
  · rw [hdigit] at h
    cases h
  · exact hsign h

theorem IsNumber.chars {isFloat : Bool} (h : IsNumber isFloat t) : ∀c∈t,NumberChar c := by
  obtain ⟨sign,int,fraction,exponent,rfl,hsign,hint,hfraction,hexponent,_⟩ := h
  intro c hc
  simp only [List.mem_append] at hc
  rcases hc with hc | hc | hc | hc
  · rcases hsign with rfl | rfl
    · cases hc
    · exact .inr (by simpa using .inl (List.mem_singleton.1 hc))
  · obtain rfl | ⟨d,ds,rfl,_,hd,hds⟩ := hint
    · exact .inl (by rw [List.mem_singleton.1 hc]; rfl)
    · obtain rfl | hc := List.mem_cons.1 hc
      · exact .inl hd
      · exact .inl (hds c hc)
  · obtain rfl | ⟨ds,rfl,_,hds⟩ := hfraction
    · cases hc
    · obtain rfl | hc := List.mem_cons.1 hc
      · exact .inr (by decide)
      · exact .inl (hds c hc)
  · obtain rfl | ⟨e,sign,ds,rfl,he,hsign,_,hds⟩ := hexponent
    · cases hc
    · obtain hc | hc := List.mem_append.1 hc
      · obtain rfl | hc := List.mem_cons.1 hc
        · rcases he with rfl | rfl <;> exact .inr (by decide)
        · rcases hsign with rfl | rfl | rfl
          · cases hc
          · exact .inr (by rw [List.mem_singleton.1 hc]; decide)
          · exact .inr (by rw [List.mem_singleton.1 hc]; decide)
      · exact .inl (hds c hc)

theorem IsNumber.start {isFloat : Bool} (h : IsNumber isFloat t) :
    ∃c r,t=c::r ∧ (c= '-' ∧ (∃d r',r=d::r' ∧ isDigit d=true) ∨ isDigit c=true) := by
  obtain ⟨sign,int,fraction,exponent,rfl,hsign,hint,_⟩ := h
  have hstart : ∃d r,int=d::r ∧ isDigit d=true := by
    obtain rfl | ⟨d,ds,rfl,_,hd,_⟩ := hint
    · exact ⟨_,_,rfl,rfl⟩
    · exact ⟨d,ds,rfl,hd⟩
  obtain ⟨d,r,rfl,hd⟩ := hstart
  rcases hsign with rfl | rfl
  · exact ⟨d,_,rfl,.inr hd⟩
  · exact ⟨_,_,rfl,.inl ⟨rfl,d,_,rfl,hd⟩⟩

theorem literal_chars {w : Text} {v : Value} (h : (w,v)∈literals) :
    (∃c r,w=c::r ∧ c∈['n','t','f']) ∧ ∀c∈w,c∉delimiters := by
  simp only [literals,List.mem_cons,Prod.mk.injEq,List.not_mem_nil,or_false] at h
  have hall : ∀w : Text,w.all (fun c => c∉delimiters)=true → ∀c∈w,c∉delimiters :=
    fun w hw c hc => of_decide_eq_true (List.all_eq_true.1 hw c hc)
  rcases h with ⟨rfl,_⟩ | ⟨rfl,_⟩ | ⟨rfl,_⟩
  · exact ⟨⟨_,_,rfl,by decide⟩,hall _ (by decide)⟩
  · exact ⟨⟨_,_,rfl,by decide⟩,hall _ (by decide)⟩
  · exact ⟨⟨_,_,rfl,by decide⟩,hall _ (by decide)⟩

theorem Writes.start {v : Value} (h : Writes (.value v) t) : ∃c r,t=c::r ∧ c∉delimiters := by
  cases h with
  | literal hw =>
    obtain ⟨⟨c,r,rfl,_⟩,hall⟩ := literal_chars hw
    exact ⟨c,r,rfl,hall c (.head _)⟩
  | number hn =>
    obtain ⟨c,r,rfl,_⟩ := hn.start
    exact ⟨c,r,rfl,(hn.chars c (.head _)).not_delimiter⟩
  | str _ => exact ⟨_,_,rfl,by decide⟩
  | emptyArr _ => exact ⟨_,_,rfl,by decide⟩
  | arr _ => exact ⟨_,_,rfl,by decide⟩
  | emptyObj _ => exact ⟨_,_,rfl,by decide⟩
  | obj _ => exact ⟨_,_,rfl,by decide⟩

end

end XiaoQing.Json
