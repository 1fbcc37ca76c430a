import XiaoQing.Commands.Invocation

namespace XiaoQing.Commands

/-- The characters that `shlex.quote` leaves as they are. -/
def isShellSafe (c : Char) : Bool :=
  isAsciiLetter c || isAsciiDigit c || "_@%+=:,./-".toList.contains c

/-- `value.replace("'", "'\"'\"'")`. -/
def replaceQuotes (value : Text) : Text :=
  value.flatMap fun c => if c = '\'' then ['\'', '"','\'', '"','\''] else [c]

/-- `shlex.quote`. -/
def shlexQuote (value : Text) : Text :=
  if value.isEmpty then ['\'','\'']
  else if value.all isShellSafe then value
  else '\''::replaceQuotes value++['\'']

def needsQuotes (c : Char) : Bool := isSpace c || ['\'', '"','\\'].contains c

def quoteToken (value : Text) : Text :=
  if !value.isEmpty && !value.any needsQuotes then value else shlexQuote value

section

variable {c : Char} {value token rest : Text} {quoted : Bool}

def isPlain (c : Char) : Bool := !(shlexSpaces.contains c || isQuote c || c = '\\')

theorem isPlain_iff : isPlain c=true ↔ c∉shlexSpaces∧isQuote c=false∧c≠ '\\' := by
  unfold isPlain
  simp only [Bool.not_eq_true',Bool.or_eq_false_iff,List.contains_eq_mem,decide_eq_false_iff_not,
    and_assoc]

theorem isSpace_of_shlexSpaces (h : c∈shlexSpaces) : isSpace c=true := by
  simp only [shlexSpaces,List.mem_cons,List.not_mem_nil,or_false] at h
  rcases h with rfl | rfl | rfl | rfl <;> rfl

theorem isPlain_of_not_needsQuotes (h : needsQuotes c=false) : isPlain c=true := by
  unfold needsQuotes at h
  simp only [Bool.or_eq_false_iff,List.contains_eq_mem,decide_eq_false_iff_not,List.mem_cons,
    List.not_mem_nil,or_false,not_or] at h
  obtain ⟨hspace,hsingle,hdouble,hescape⟩ := h
  apply isPlain_iff.mpr
  refine ⟨fun hc => ?_,?_,hescape⟩
  · rw [isSpace_of_shlexSpaces hc] at hspace
    cases hspace
  · unfold isQuote
    simp [hsingle,hdouble]

theorem isPlain_of_isShellSafe (h : isShellSafe c=true) : isPlain c=true := by
  apply isPlain_iff.mpr
  refine ⟨fun hc => ?_,?_,?_⟩
  · simp only [shlexSpaces,List.mem_cons,List.not_mem_nil,or_false] at hc
    rcases hc with rfl | rfl | rfl | rfl <;> exact absurd h (by decide)
  · unfold isQuote
    by_contra hc
    simp only [Bool.not_eq_false,Bool.or_eq_true,decide_eq_true_eq] at hc
    rcases hc with rfl | rfl <;> exact absurd h (by decide)
  · rintro rfl
    exact absurd h (by decide)

theorem readTokens_plain (h : value.all isPlain=true) :
    readTokens .word token quoted (value++rest)=readTokens .word (token++value) quoted rest := by
  induction value generalizing token with
  | nil => simp
  | cons c value ih =>
    simp only [List.all_cons,Bool.and_eq_true] at h
    obtain ⟨hspace,hquote,hescape⟩ := isPlain_iff.mp h.1
    rw [List.cons_append,readTokens,if_neg hspace,hquote,if_neg Bool.false_ne_true,if_neg hescape,
      ih h.2,List.append_assoc]
    rfl

theorem readTokens_word (hne : value≠[]) (h : value.all isPlain=true) :
    readTokens .blank [] false (value++rest)=readTokens .word value false rest := by
  cases value with
  | nil => exact absurd rfl hne
  | cons c value =>
    simp only [List.all_cons,Bool.and_eq_true] at h
    obtain ⟨hspace,hquote,hescape⟩ := isPlain_iff.mp h.1
    rw [List.cons_append,readTokens,if_neg hspace,if_neg hescape,hquote,if_neg Bool.false_ne_true,
      readTokens_plain h.2]
    rfl

theorem readTokens_replaceQuotes :
    readTokens (.quote '\'') token true (replaceQuotes value++ '\''::rest)=
      readTokens .word (token++value) true rest := by
  induction value generalizing token with
  | nil => simp [replaceQuotes,readTokens]
  | cons c value ih =>
    have hcons : replaceQuotes (c::value)=
        (if c = '\'' then ['\'', '"','\'', '"','\''] else [c])++replaceQuotes value := rfl
    by_cases hc : c = '\''
    · subst c
      rw [hcons,if_pos rfl]
      have hq : readTokens (.quote '\'') token true
          (['\'', '"','\'', '"','\'']++replaceQuotes value++ '\''::rest)=
          readTokens (.quote '\'') (token++['\'']) true (replaceQuotes value++ '\''::rest) := by
        simp [readTokens,isQuote,shlexSpaces]
      rw [hq,ih,List.append_assoc]
      rfl
    · rw [hcons,if_neg hc]
      have hq : readTokens (.quote '\'') token true ([c]++replaceQuotes value++ '\''::rest)=
          readTokens (.quote '\'') (token++[c]) true (replaceQuotes value++ '\''::rest) := by
        simp [readTokens,hc]
      rw [hq,ih,List.append_assoc]
      rfl

theorem readTokens_quoteToken (value : Text) : ∃quoted,emit value quoted=[value]∧
    ∀rest,readTokens .blank [] false (quoteToken value++rest)=readTokens .word value quoted rest := by
  have hplain : value≠[] → value.all isPlain=true → quoteToken value=value →
      ∃quoted,emit value quoted=[value]∧
      ∀rest,readTokens .blank [] false (quoteToken value++rest)=
        readTokens .word value quoted rest := by
    intro hne hall hq
    refine ⟨false,?_,fun rest => ?_⟩
    · simp [emit,hne]
    · rw [hq,readTokens_word hne hall]
  by_cases hraw : (!value.isEmpty && !value.any needsQuotes)=true
  · have hq : quoteToken value=value := if_pos hraw
    simp only [Bool.and_eq_true,Bool.not_eq_true',List.isEmpty_eq_false_iff,List.any_eq_false] at hraw
    apply hplain hraw.1 _ hq
    apply List.all_eq_true.mpr
    intro c hc
    exact isPlain_of_not_needsQuotes (Bool.eq_false_iff.mpr (hraw.2 c hc))
  have hshlex : quoteToken value=shlexQuote value := if_neg hraw
  by_cases hempty : value=[]
  · subst value
    refine ⟨true,rfl,fun rest => ?_⟩
    simp [hshlex,shlexQuote,readTokens,isQuote,shlexSpaces]
  by_cases hsafe : value.all isShellSafe=true
  · have hq : shlexQuote value=value := by
      rw [shlexQuote,if_neg (by simpa using hempty),if_pos hsafe]
    apply hplain hempty _ (hshlex.trans hq)
    apply List.all_eq_true.mpr
    intro c hc
    exact isPlain_of_isShellSafe (List.all_eq_true.mp hsafe c hc)
  · refine ⟨true,by simp [emit],fun rest => ?_⟩
    rw [hshlex,shlexQuote,if_neg (by simpa using hempty),if_neg hsafe]
    have hopen : readTokens .blank [] false ('\''::replaceQuotes value++['\'']++rest)=
        readTokens (.quote '\'') [] true (replaceQuotes value++ '\''::rest) := by
      simp [readTokens,isQuote,shlexSpaces]
    rw [hopen,readTokens_replaceQuotes]
    rfl

theorem join_cons (c : Char) (value : Text) (values : List Text) :
    join c (value::values)=value++values.flatMap (c::·) := by
  induction values generalizing value with
  | nil => simp [join]
  | cons next values ih =>
    have hj : join c (value::next::values)=value++c::join c (next::values) := by
      simp [join]
    rw [hj,ih,List.flatMap_cons]
    rfl

theorem readTokens_values (values : List Text) (hemit : emit token quoted=[token]) :
    readTokens .word token quoted ((values.map quoteToken).flatMap (' '::·))=
      some (token::values) := by
  induction values generalizing token quoted with
  | nil =>
    rw [List.map_nil,List.flatMap_nil,readTokens_word_nil,hemit]
  | cons value values ih =>
    obtain ⟨q,hq,hread⟩ := readTokens_quoteToken value
    rw [List.map_cons,List.flatMap_cons,List.cons_append,readTokens,if_pos (by decide),hread,ih hq,
      hemit]
    rfl

theorem shlexSplit_quoteTokens (values : List Text) :
    shlexSplit (join ' ' (values.map quoteToken))=some values := by
  unfold shlexSplit
  cases values with
  | nil => rfl
  | cons value values =>
    obtain ⟨q,hq,hread⟩ := readTokens_quoteToken value
    rw [List.map_cons,join_cons,hread,readTokens_values values hq]

/-- `tokenize` undoes the joining of encoded values. -/
theorem tokenize_quoteTokens (values : List Text) :
    tokenize (join ' ' (values.map quoteToken))=values := by
  rw [tokenize,shlexSplit_quoteTokens,Option.getD_some]

example : quoteToken "a b's".toList="'a b'\"'\"'s'".toList := by decide

end

end XiaoQing.Commands
