import ScriptedBolt.Binary64
import ScriptedBolt.Entries

/-!
# Values

The closed set of values that travel inside protocol messages. A map is the list of its
entries with strictly ascending keys, in the order of their code points, which is also that of
their UTF-8; `Value.ofEntries` builds one from entries in any order. Equality is that of the
values as numbers and texts: an integer never equals a float, the two float zeros are equal,
and a NaN equals nothing.
-/

namespace ScriptedBolt

/-- A value of the protocol. -/
inductive Value where
  | null
  | boolean (b : Bool)
  | integer (i : Int64)
  | float (x : Binary64)
  | string (text : String)
  | list (items : List Value)
  | map (entries : List (String × Value))
  | struct (tag : UInt8) (fields : List Value)
  deriving Inhabited

namespace Value

/-- The name of the kind of a value, as messages use it. -/
def typeName : Value → String
  | null => "null"
  | boolean _ => "boolean"
  | integer _ => "integer"
  | float _ => "float"
  | string _ => "string"
  | list _ => "list"
  | map _ => "map"
  | struct .. => "structure"

mutual

/-- How many levels of nested values lie below a value; none below an empty container. -/
def height : Value → Nat
  | list items => heightOfItems items
  | map entries => heightOfEntries entries
  | struct _ fields => heightOfItems fields
  | _ => 0

/-- The levels that items add to their container. -/
def heightOfItems : List Value → Nat
  | [] => 0
  | item :: items => max (item.height + 1) (heightOfItems items)

/-- The levels that entries add to their map. -/
def heightOfEntries : List (String × Value) → Nat
  | [] => 0
  | (_, value) :: entries => max (value.height + 1) (heightOfEntries entries)

end

mutual

/-- Equality of values. -/
def eqv : Value → Value → Bool
  | null, null => true
  | boolean a, boolean b => a == b
  | integer a, integer b => a == b
  | float a, float b => a.eqv b
  | string a, string b => a == b
  | list a, list b => eqvItems a b
  | map a, map b => eqvEntries a b
  | struct s a, struct t b => s == t && eqvItems a b
  | _, _ => false

/-- Equality of items, in order. -/
def eqvItems : List Value → List Value → Bool
  | [], [] => true
  | a :: as, b :: bs => eqv a b && eqvItems as bs
  | _, _ => false

/-- Equality of the entries of two maps: the same keys with equal values. -/
def eqvEntries : List (String × Value) → List (String × Value) → Bool
  | [], [] => true
  | (k, a) :: as, (l, b) :: bs => k == l && eqv a b && eqvEntries as bs
  | _, _ => false

end

instance : BEq Value := ⟨eqv⟩

mutual

/-- Whether every map at any depth of the value has strictly ascending keys. -/
def Ordered : Value → Prop
  | list items => OrderedItems items
  | map entries => (entries.map Prod.fst).Pairwise (· < ·) ∧ OrderedEntries entries
  | struct _ fields => OrderedItems fields
  | _ => True

/-- Whether all items are ordered. -/
def OrderedItems : List Value → Prop
  | [] => True
  | item :: items => item.Ordered ∧ OrderedItems items

/-- Whether the values of all entries are ordered. -/
def OrderedEntries : List (String × Value) → Prop
  | [] => True
  | (_, value) :: entries => value.Ordered ∧ OrderedEntries entries

end

/-- The map of the given entries; a later entry replaces an earlier one with its key. -/
def ofEntries (entries : List (String × Value)) : Value := map (Entries.sort entries)

end Value

end ScriptedBolt
