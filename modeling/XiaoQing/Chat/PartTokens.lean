import XiaoQing.Chat.MessageParts

namespace XiaoQing.Chat.Parts

section

open Commands Framework

variable {N : Numerals} {s t u : Text} {c : Char} {k n : Nat}

/-! The placeholder pattern -/

variable {ds : Text}

def matched (ds : Text) : Text := placeholderStart++(ds++[']',']'])

end

section

open Commands Framework

variable {N : Numerals} {t u : Text} {k : Nat} {ts es : List Text} {parts : List Part}

abbrev Token := Char ⊕ Nat

def Token.shown : Token → Text
  | .inl c => [c]
  | .inr k => mediaPlaceholder (k+1)

def Chunk.tokens : Chunk → List Token
  | .text t => t.map .inl
  | .hole k => [.inr k]

def blank : Token → Bool
  | .inl c => isSpace c
  | .inr _ => false

def trim (l : List Token) : List Token := (l.dropWhile blank).rdropWhile blank

def Token.read : Token → Char ⊕ Text
  | .inl c => .inl c
  | .inr k => .inr (mediaPlaceholder (k+1))

end

end XiaoQing.Chat.Parts
