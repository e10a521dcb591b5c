import TensorGraph.Word

/-!
# Attribute values

Attributes and shapes arrive as structured values: the kind of data a JSON text holds. This
module has the values and the readers from which every attribute is read. A reader answers `none`
for a value that it does not accept, and nothing is ever converted: a number with a fraction is no
integer, and null is no number.

* `nat?`, `int?` -- words and signed words;
* `nats?`, `ints?`, `pair?` -- lists of them, and lists of exactly two;
* `choice?` -- one of several names, written as a text or as a record whose only field has that
  name and holds null;
* `slots?` -- the fields of a structure, from a record (in any order, no unknown field) or from a
  list (in the order of declaration, where the last ones may be missing).
-/

namespace TensorGraph

/-- A structured value. -/
inductive Value where
  | null
  | bool (b : Bool)
  /-- A number written without fraction and exponent. -/
  | integer (i : Int)
  /-- Any other number. No attribute takes one, so it is not kept. -/
  | real
  | text (s : String)
  | list (items : List Value)
  | record (fields : List (String × Value))
  deriving Repr, Inhabited

namespace Value

/-- A word. -/
def nat? : Value → Option Nat
  | integer i => if 0 ≤ i ∧ i < Word.bound then some i.toNat else none
  | _ => none

/-- A signed word. -/
def int? : Value → Option Int
  | integer i => if Word.isSigned i then some i else none
  | _ => none

/-- A list of words. -/
def nats? : Value → Option (List Nat)
  | list items => items.mapM nat?
  | _ => none

/-- A list of signed words. -/
def ints? : Value → Option (List Int)
  | list items => items.mapM int?
  | _ => none

/-- A list of exactly two words. -/
def pair? (v : Value) : Option (Nat × Nat) :=
  match v.nats? with
  | some [a, b] => some (a, b)
  | _ => none

/-- One of several named options: the name itself, or a record whose only field has that name
    and holds null. -/
def choice? {α : Type} (ofName? : String → Option α) : Value → Option α
  | text name => ofName? name
  | record [(name, null)] => ofName? name
  | _ => none

/-- What `read` reads, or nothing where null stands. -/
def nullable? {α : Type} (read : Value → Option α) : Value → Option (Option α)
  | null => some none
  | v => (read v).map some

/-- The fields of a structure in the order of their `names`, `none` for a field that is missing. A
    record may have no other field; a list may have no more items than there are fields. -/
def slots? (names : List String) : Value → Option (List (Option Value))
  | record fields =>
    if fields.all fun field => names.contains field.1 then
      some (names.map fun name => fields.lookup name)
    else none
  | list items =>
    if items.length ≤ names.length then
      some (items.map some ++ List.replicate (names.length - items.length) none)
    else none
  | _ => none

/-- A field that has a default when it is missing. -/
def fieldOr {α : Type} (default : α) (read : Value → Option α) : Option Value → Option α
  | none => some default
  | some v => read v

/-- A list of words as a value. -/
def ofNats (values : List Nat) : Value := list (values.map fun n : Nat => integer n)

end Value

end TensorGraph
