import Mathlib.Data.List.Basic
import Mathlib.Tactic.Common

namespace XiaoQing.Framework

variable {σ α ε : Type}

theorem ok_of_bind {β : Type} {x : Except ε α} {f : α → Except ε β} {b : β} (h : (x >>= f)=.ok b) :
    ∃a,x=.ok a∧f a=.ok b := by
  cases x with
  | error e => cases h
  | ok a => exact ⟨a,rfl,h⟩

section

variable {f : σ → α → Except ε Unit×σ} {l : List α} {s : σ}

end

end XiaoQing.Framework
