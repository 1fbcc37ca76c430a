import XiaoQing.Chat.PartTokens

namespace XiaoQing.Chat.Parts

section

open Commands Framework

variable {N : Numerals} {s t u p : Text} {k : Nat} {ts es : List Text} {parts rest : List Part}
  {x : MediaItem}

/-- Parts as `normalize_message_parts` leaves them. -/
def Normal (parts : List Part) : Prop :=
  (∀t,Part.text t∈parts → t≠[])∧∀x,Part.media x∈parts → normalizeMediaPart x=some x

def mediaItems (parts : List Part) : List MediaItem :=
  parts.filterMap fun
    | .text _ => none
    | .media x => some x

theorem Normal.tail {a : Part} (h : Normal (a::parts)) : Normal parts :=
  ⟨fun t ht => h.1 t (List.mem_cons_of_mem _ ht),fun x hx => h.2 x (List.mem_cons_of_mem _ hx)⟩

/-! The texts between the media parts -/

def merge (t : Text) : List Text → List Text
  | [] => [t]
  | e::es => (t++e)::es

def textRuns : List Part → List Text
  | [] => [[]]
  | .text t::rest => merge t (textRuns rest)
  | .media _::rest => []::textRuns rest

def emit (pending : Text) : List Part → List Text
  | [] => [pending]
  | .text raw::rest =>
    let text := withPending pending raw
    if holdsBack text rest then
      merge (rstripNewlines text) (emit (text.drop (rstripNewlines text).length) rest)
    else merge text (emit [] rest)
  | .media _::rest => []::emit pending rest

def Newlines (t : Text) : Prop := ∀c∈t,c= '\n'

theorem Newlines.nil : Newlines [] := fun _ h => absurd h (by simp)

theorem Newlines.append (hs : Newlines s) (ht : Newlines t) : Newlines (s++t) := by
  intro c hc
  rcases List.mem_append.mp hc with hc | hc
  · exact hs c hc
  · exact ht c hc

end

section

open Commands Framework

variable {N : Numerals} {s t u p seen seen' : Text} {k : Nat} {ts es : List Text}
  {parts rest : List Part} {x : MediaItem} {white : Char → Bool}

def beforeMedia : List Part → Bool
  | .media _::_ => true
  | _ => false

/-- A text that ends before a media part with newlines alone has nothing but white space before it
there: `seen` is the text since the last media part. -/
def settledFrom (white : Char → Bool) (seen : Text) : List Part → Bool
  | [] => true
  | .media _::rest => settledFrom isNewline [] rest
  | .text t::rest =>
    (!beforeMedia rest || t.any (!isNewline ·) || seen.all white) && settledFrom white (seen++t) rest

def Steady (white : Char → Bool) (t : Text) : Prop := t.getLast?=some '\n' → t.all white=true

theorem Newlines.all (hw : white '\n'=true) (ht : Newlines t) : t.all white=true := by
  rw [List.all_eq_true]
  intro c hc
  rw [ht c hc]
  exact hw

end

end XiaoQing.Chat.Parts
