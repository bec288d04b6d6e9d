import DeclRecovery.Toml.Scalar

/-!
Reading a whole document: keys, values and the lines that hold them. A text is either read to its end or
refused as a whole.
-/

namespace DeclRecovery.Toml

/-! ### Keys -/

def isBareKeyChar (c : Char) : Bool := c.isAlphanum || c == '-' || c == '_'

/-- One part of a key, bare or quoted. -/
def keyPart : Reader String := fun cs =>
  match cs with
  | '"' :: _ | '\'' :: _ => lineString cs
  | _ =>
    let name := cs.takeWhile isBareKeyChar
    if name.isEmpty then none else some (String.ofList name, cs.dropWhile isBareKeyChar)

/-- The parts of a dotted key: those before the last one, and the last one. Blanks may stand around each. -/
def keyParts : (fuel : Nat) → Reader (List String × String)
  | 0, _ => none
  | fuel + 1, cs => do
    let (part, rest) ← keyPart (skipBlanks cs)
    match skipBlanks rest with
    | '.' :: rest =>
      let ((path, key), rest) ← keyParts fuel rest
      return ((part :: path, key), rest)
    | rest => return (([], part), rest)

def key : Reader (List String × String) := fun cs => keyParts (cs.length + 1) cs

/-! ### Space -/

/-- What follows a comment on the same line, if there is one. -/
def skipComment : List Char → List Char
  | '#' :: rest => rest.dropWhile isCommentChar
  | cs => cs

/-- What follows blanks, comments and line breaks. -/
def skipLines : (fuel : Nat) → List Char → List Char
  | 0, cs => cs
  | fuel + 1, cs =>
    let rest := skipComment (skipBlanks cs)
    match newline? rest with
    | some rest => skipLines fuel rest
    | none => rest

/-- What follows the end of a line that may have a comment. -/
def lineEnd : List Char → Option (List Char) := fun cs =>
  match skipComment (skipBlanks cs) with
  | [] => some []
  | rest => newline? rest

/-! ### Values -/

mutual

/-- A value. Each level of nesting and each item uses up some `fuel`. -/
def value : (fuel : Nat) → Reader Value
  | 0, _ => none
  | fuel + 1, cs =>
    match cs with
    | '"' :: _ | '\'' :: _ => (string cs).map fun (s, rest) => (.string s, rest)
    | '[' :: rest => items fuel [] rest
    | '\x7b' :: rest =>
      match skipBlanks rest with
      | '\x7d' :: rest => some (.table .inline [], rest)
      | rest => fields fuel (.table .inline []) rest
    | 't' :: 'r' :: 'u' :: 'e' :: rest => some (.boolean true, rest)
    | 'f' :: 'a' :: 'l' :: 's' :: 'e' :: rest => some (.boolean false, rest)
    | _ => numeric cs

/-- The rest of an array, after the items in `acc`. -/
def items : (fuel : Nat) → (acc : List Value) → Reader Value
  | 0, _, _ => none
  | fuel + 1, acc, cs =>
    match skipLines cs.length cs with
    | ']' :: rest => some (.array acc, rest)
    | cs => do
      let (v, rest) ← value fuel cs
      match skipLines rest.length rest with
      | ',' :: rest => items fuel (acc ++ [v]) rest
      | ']' :: rest => return (.array (acc ++ [v]), rest)
      | _ => none

/-- The rest of an inline table, after the entries in `t`. -/
def fields : (fuel : Nat) → (t : Value) → Reader Value
  | 0, _, _ => none
  | fuel + 1, t, cs => do
    let ((path, name), rest) ← key cs
    let (_, rest) ← expect '=' rest
    let (v, rest) ← value fuel (skipBlanks rest)
    let t ← t.assign path name v
    match skipBlanks rest with
    | ',' :: rest => fields fuel t rest
    | '\x7d' :: rest => return (t, rest)
    | _ => none

end

/-! ### Lines -/

/-- A document on the way: what it holds, and the table that lines add to. -/
structure Progress where
  content : Value := .table .header []
  current : List String := []

/-- `key = value`, added to the current table. -/
def keyValueLine (p : Progress) : Reader Progress := fun cs => do
  let ((path, name), rest) ← key cs
  let (_, rest) ← expect '=' rest
  let rest := skipBlanks rest
  let (v, rest) ← value (2 * rest.length + 2) rest
  let content ← p.content.descend false (·.assign path name v) p.current
  return ({ p with content }, ← lineEnd rest)

/-- `[table]` or `[[table]]`, which later lines add to. -/
def headerLine (p : Progress) : Reader Progress
  | '[' :: '[' :: rest => do
    let ((path, name), rest) ← key rest
    let (_, rest) ← expect ']' rest
    let (_, rest) ← expect ']' rest
    return (⟨← p.content.openArrayTable path name, path ++ [name]⟩, ← lineEnd rest)
  | '[' :: rest => do
    let ((path, name), rest) ← key rest
    let (_, rest) ← expect ']' rest
    return (⟨← p.content.openTable path name, path ++ [name]⟩, ← lineEnd rest)
  | _ => none

/-- The lines of a document. Each one uses up some `fuel`. -/
def lines : (fuel : Nat) → Progress → List Char → Option Progress
  | 0, _, _ => none
  | fuel + 1, p, cs =>
    match skipBlanks cs with
    | [] => some p
    | '[' :: rest => do
      let (p, rest) ← headerLine p ('[' :: rest)
      lines fuel p rest
    | rest =>
      match lineEnd rest with
      | some rest => lines fuel p rest
      | none => do
        let (p, rest) ← keyValueLine p rest
        lines fuel p rest

/-- A mark of the byte order may stand in front of a document. -/
def skipMark : List Char → List Char
  | '\ufeff' :: rest => rest
  | cs => cs

/-- The top-level entries of a document. -/
def parse (source : String) : Option (List (String × Value)) := do
  let cs := skipMark source.toList
  match (← lines (cs.length + 1) {} cs).content with
  | .table _ entries => return entries
  | _ => none

end DeclRecovery.Toml
