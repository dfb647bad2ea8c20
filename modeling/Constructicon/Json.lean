/-! JSON values. A number keeps its spelling, and an object keeps its fields in their order,
repeated names included. -/
namespace Constructicon

inductive Json where
  | null
  | bool (value : Bool)
  | number (literal : String)
  | string (text : String)
  | array (items : List Json)
  | object (fields : List (String × Json))
  deriving Inhabited

namespace Json

def nat (n : Nat) : Json := .number (toString n)

/-- A field that is written only when it has a value. -/
def optional {α : Type} (name : String) (value : Option α) (encode : α → Json) :
    List (String × Json) :=
  (value.map fun v => (name, encode v)).toList

end Json

end Constructicon
