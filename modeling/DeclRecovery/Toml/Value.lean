/-!
The values of a TOML document and how its tables grow.

A table is made by a header, on the way to one, by a dotted key, or inline. Each may be extended only in the
way it was made: `descend` walks down a path and refuses where that is not so.
-/

namespace DeclRecovery.Toml

/-- How a table came about. -/
inductive TableStyle where
  /-- By its own header, or as the document itself. -/
  | header
  /-- As part of the path in a header. -/
  | implied
  /-- As part of a dotted key. -/
  | dotted
  | inline
  deriving DecidableEq, Repr

inductive Value where
  | string (value : String)
  | integer (value : Int)
  | boolean (value : Bool)
  /-- A number with a fraction or an exponent, as written. -/
  | float (text : String)
  /-- A date, a time or both, as written. -/
  | datetime (text : String)
  | array (items : List Value)
  /-- The entries in the order in which they were given. -/
  | table (style : TableStyle) (entries : List (String × Value))
  /-- Tables given one by one under the same header. -/
  | tables (items : List Value)
  deriving Inhabited, Repr

namespace Value

/-- Replaces the entry for `key`, or adds one at the end. -/
def setEntry (key : String) (v : Value) : List (String × Value) → List (String × Value)
  | [] => [(key, v)]
  | e :: es => if e.1 = key then (key, v) :: es else e :: setEntry key v es

/-- Whether a table may be entered on the way to something else. -/
def mayEnter (byDottedKey : Bool) : TableStyle → Bool
  | .inline => false
  | .header => !byDottedKey
  | .implied | .dotted => true

/-- Changes the table at the end of a path, making the tables on the way that do not exist yet. An array of
tables is entered at its last one. -/
def descend (byDottedKey : Bool) (change : Value → Option Value) : List String → Value → Option Value
  | [], t => change t
  | key :: path, .table style entries =>
    let child := match entries.lookup key with
      | none => descend byDottedKey change path (.table (if byDottedKey then .dotted else .implied) [])
      | some (.table s es) =>
        if mayEnter byDottedKey s then descend byDottedKey change path (.table s es) else none
      | some (.tables items) => items.getLast?.bind fun last =>
        (descend byDottedKey change path last).map fun last => .tables (items.dropLast ++ [last])
      | some _ => none
    child.map fun v => .table style (setEntry key v entries)
  | _ :: _, _ => none

/-- Adds a new entry to a table that dotted keys made, or to the one that is being written. -/
def addEntry (viaDottedKey : Bool) (key : String) (v : Value) : Value → Option Value
  | .table style entries =>
    if decide (style = .dotted) = viaDottedKey ∧ (entries.lookup key).isNone then
      some (.table style (entries ++ [(key, v)]))
    else none
  | _ => none

/-- Gives the value `v` to a dotted key in a table. -/
def assign (t : Value) (path : List String) (key : String) (v : Value) : Option Value :=
  descend true (addEntry (!path.isEmpty) key v) path t

/-- Opens a table by its header. -/
def openTable (t : Value) (path : List String) (key : String) : Option Value :=
  descend false (fun
    | .table style entries =>
      match entries.lookup key with
      | none => some (.table style (entries ++ [(key, .table .header [])]))
      | some (.table .implied es) => some (.table style (setEntry key (.table .header es) entries))
      | some _ => none
    | _ => none) path t

/-- Opens one more table of an array of tables. -/
def openArrayTable (t : Value) (path : List String) (key : String) : Option Value :=
  descend false (fun
    | .table style entries =>
      match entries.lookup key with
      | none => some (.table style (entries ++ [(key, .tables [.table .header []])]))
      | some (.tables items) => some (.table style (setEntry key (.tables (items ++ [.table .header []])) entries))
      | some _ => none
    | _ => none) path t

end Value

end DeclRecovery.Toml
