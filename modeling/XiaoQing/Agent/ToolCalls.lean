import XiaoQing.Commands.CommandRouter
import XiaoQing.Framework.Names

namespace XiaoQing.Agent

open Commands Framework

/-- A value of a model's reply as Python holds it; a number, a truth value or `None` is `other`, with
its truth value and the text `str` gives of it. -/
inductive Datum
  | text (t : Text)
  | list (items : List Datum)
  | dict (fields : List (String × Datum))
  | other (truthy : Bool) (shown : Text)

/-- An entry of `tool_calls` that is complete: its place, its own id and what it calls. -/
structure Request where
  index : Nat
  own : Text
  name : Text
  arguments : Datum

/-- `str(value or "")`; `shown` is `str` of a list or a dictionary. -/
def textOr (shown : Datum → Text) : Option Datum → Text
  | none => []
  | some (.text t) => t
  | some (.list items) => if items.isEmpty then [] else shown (.list items)
  | some (.dict fields) => if fields.isEmpty then [] else shown (.dict fields)
  | some (.other truthy t) => if truthy then t else []

/-- What `parse_tool_calls` reads of one entry; `none` where it goes on to the next one. -/
def request (shown : Datum → Text) (index : Nat) (raw : Datum) : Option Request :=
  match raw with
  | .dict fields =>
    match fields.lookup "function" with
    | some (.dict function) =>
      let name := strip (textOr shown (function.lookup "name"))
      if name=[] then none
      else some ⟨index,strip (textOr shown (fields.lookup "id")),name,
        (function.lookup "arguments").getD (.text ['{','}'])⟩
    | _ => none
  | _ => none

def requestsFrom (shown : Datum → Text) : Nat → List Datum → List Request
  | _,[] => []
  | index,raw::rest => (request shown index raw).toList++requestsFrom shown (index+1) rest

def requests (shown : Datum → Text) (message : List (String × Datum)) : List Request :=
  match message.lookup "tool_calls" with
  | some (.list rawCalls) => requestsFrom shown 0 rawCalls
  | _ => []

section

variable {raw : Datum} {shown dumps : Datum → Text} {message : List (String × Datum)} {i j k m index : Nat}
  {t : Text} {rs : List Request} {r : Request} {s : List ToolCall × List Text}

def Request.place (r : Request) : Nat × Option Text := (r.index,if r.own=[] then none else some r.own)

end

end XiaoQing.Agent
