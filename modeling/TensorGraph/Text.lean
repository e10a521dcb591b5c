/-!
# Texts of lists

Every message of the library that shows a list uses one of three spellings:

* `separated` -- the items with a separator between them;
* `braced` -- `{2, 3}`, the spelling of shapes and operator attributes;
* `bracketed` -- `[2, 3]`, the spelling of lengths and indices in error texts.

Both brackets are written even around nothing, so a list of rank 0 shows as `{}` or `[]`.
-/

namespace TensorGraph.Text

/-- The items in order, `separator` between each two neighbours. -/
def separated (separator : String) : List String → String
  | [] => ""
  | [item] => item
  | item :: rest => item ++ separator ++ separated separator rest

/-- The items between braces, a comma and a blank between neighbours. -/
def braced (items : List String) : String :=
  "\x7b" ++ separated ", " items ++ "\x7d"

/-- The items between square brackets, a comma and a blank between neighbours. -/
def bracketed (items : List String) : String :=
  "[" ++ separated ", " items ++ "]"

/-- Natural numbers between braces. -/
def bracedNats (values : List Nat) : String :=
  braced (values.map Nat.repr)

/-- Natural numbers between square brackets. -/
def bracketedNats (values : List Nat) : String :=
  bracketed (values.map Nat.repr)

end TensorGraph.Text
