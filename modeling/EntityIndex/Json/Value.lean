/-!
# JSON documents

Persisted state is stored as JSON, and requests and replies are JSON documents. A number keeps
the exact text it was written with, so reading never rounds and the reader of a number decides
whether it wants an integer or a float. An object keeps its fields in order; `Value.field?`
looks a name up the way a map decoder would, the last occurrence winning.
-/

namespace EntityIndex.Json

/-- A JSON document. -/
inductive Value where
  /-- `null`. -/
  | null
  /-- `true` or `false`. -/
  | bool (b : Bool)
  /-- A number, as its literal text. -/
  | number (text : String)
  /-- A string. -/
  | string (s : String)
  /-- An array. -/
  | array (items : List Value)
  /-- An object, fields in order. -/
  | object (fields : List (String × Value))
  deriving Inhabited, Repr

namespace Value

/-- The value of the last field named `k` of an object. -/
def field? (v : Value) (k : String) : Option Value :=
  match v with
  | .object fs => (fs.reverse.find? fun p => p.1 == k).map (·.2)
  | _ => none

/-- The field `k`, with absent fields and `null` both read as absent. -/
def opt? (v : Value) (k : String) : Option Value :=
  match v.field? k with
  | some .null => none
  | other => other

/-- The text of a string. -/
def str? : Value → Option String
  | .string s => some s
  | _ => none

/-- The truth value of a boolean. -/
def bool? : Value → Option Bool
  | .bool b => some b
  | _ => none

/-- The items of an array. -/
def arr? : Value → Option (List Value)
  | .array xs => some xs
  | _ => none

/-- The fields of an object. -/
def obj? : Value → Option (List (String × Value))
  | .object fs => some fs
  | _ => none

/-- A natural number as a JSON number. -/
def nat (n : Nat) : Value := .number (toString n)

/-- An integer as a JSON number. -/
def int (i : Int) : Value :=
  if 0 ≤ i then .number (toString i.toNat) else .number ("-" ++ toString i.natAbs)

/-- A list of strings as a JSON array. -/
def strs (xs : List String) : Value := .array (xs.map .string)

/-- Insert a field into a key-sorted field list, replacing a field of the same name. -/
def insertSorted (k : String) (v : Value) : List (String × Value) → List (String × Value)
  | [] => [(k, v)]
  | (k', v') :: rest =>
    if k = k' then (k, v) :: rest
    else if k < k' then (k, v) :: (k', v') :: rest
    else (k', v') :: insertSorted k v rest

/-- The fields of a map: names sorted by byte order, the last occurrence of a name winning. -/
def sortFields (fs : List (String × Value)) : List (String × Value) :=
  fs.foldl (fun acc p => insertSorted p.1 p.2 acc) []

end Value

end EntityIndex.Json
