/-!
# JSON values

The values that documents are made of.  An integer is a number written without fraction and
exponent, minus zero excepted.  Any other number is kept as it is written, and so is what is well
formed but stands for no value: no document of this library holds either where it matters.

- `Json` is a value; the members of an object keep the order they were written in;
- `Json.height` is how deep arrays and objects nest;
- `Json.record?` and `Json.variant?` read the two shapes that documents use.
-/

namespace StackBackend

/-- A JSON value. -/
inductive Json where
  | null
  | bool (value : Bool)
  | int (value : Int)
  /-- A value as it is written: a number that is no integer, or what cannot be read as another
  value. -/
  | raw (text : String)
  | str (value : String)
  | arr (items : List Json)
  | obj (members : List (String × Json))
deriving Inhabited

namespace Json

mutual

/-- How deep arrays and objects nest; a scalar has height zero. -/
def height : Json → Nat
  | arr items => heights items + 1
  | obj members => memberHeights members + 1
  | _ => 0

/-- The greatest height of a list of values. -/
def heights : List Json → Nat
  | [] => 0
  | item :: rest => max item.height (heights rest)

/-- The greatest height of the members of an object. -/
def memberHeights : List (String × Json) → Nat
  | [] => 0
  | member :: rest => max member.2.height (memberHeights rest)

end

/-- Fields of an array, in order; the names that are left over have none. -/
def positional? : List String → List Json → Option (List (Option Json))
  | [], [] => some []
  | [], _ :: _ => none
  | _ :: names, [] => (positional? names []).map (none :: ·)
  | _ :: names, item :: items => (positional? names items).map (some item :: ·)

/-- The fields of a record, in the order of the given names: members of an object, or items of an
array.  Other members of an object are ignored; an array may be too short, but not too long. -/
def record? (names : List String) : Json → Option (List (Option Json))
  | obj members => some (names.map fun name => members.lookup name)
  | arr items => positional? names items
  | _ => none

/-- The fields of a record that must be an object. -/
def members? (names : List String) : Json → Option (List (Option Json))
  | obj members => some (names.map fun name => members.lookup name)
  | _ => none

/-- A choice among alternatives: the name of one, alone or with a payload. -/
def variant? : Json → Option (String × Option Json)
  | str name => some (name, none)
  | obj [(name, payload)] => some (name, some payload)
  | _ => none

/-- Whether a payload is that of an alternative without one: absent, or `null`. -/
def isUnit : Option Json → Bool
  | none => true
  | some null => true
  | _ => false

end Json

end StackBackend
