import XiaoQing.Chat.PartFlow

namespace XiaoQing.Chat.Parts

section

open Commands Framework

variable {N : Numerals} {s t u p : Text} {k : Nat} {ts es cs : List Text} {parts rest : List Part}
  {x : MediaItem} {xs items : List MediaItem}

/-! White space around a text with holes -/

end

section

open Commands Framework

variable {N : Numerals} {s t u p : Text} {k : Nat} {ts es cs : List Text} {parts rest : List Part}
  {x : MediaItem} {xs items : List MediaItem}

end

end XiaoQing.Chat.Parts
