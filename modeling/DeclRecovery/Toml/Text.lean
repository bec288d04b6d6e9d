/-!
The four kinds of strings in TOML: basic ones with escapes and literal ones without, each on one line or on
several. A reader takes characters from the front of a text and gives back the rest.
-/

namespace DeclRecovery.Toml

/-- Reads an `α` from the front of a text. -/
abbrev Reader (α : Type) := List Char → Option (α × List Char)

def isBlank (c : Char) : Bool := c == ' ' || c == '\t'

def skipBlanks (cs : List Char) : List Char := cs.dropWhile isBlank

/-- What follows a line break. -/
def newline? : List Char → Option (List Char)
  | '\n' :: rest => some rest
  | '\r' :: '\n' :: rest => some rest
  | _ => none

/-- The characters that may stand in a comment: all but the control characters other than the tab. -/
def isCommentChar (c : Char) : Bool := c == '\t' || (0x20 ≤ c.toNat && c.toNat != 0x7f)

/-- The characters that stand for themselves in a basic string. -/
def isBasicChar (c : Char) : Bool := isCommentChar c && c != '"' && c != '\\'

/-- The characters that may stand in a literal string. -/
def isLiteralChar (c : Char) : Bool := isCommentChar c && c != '\''

def hexValue? (c : Char) : Option Nat :=
  if '0' ≤ c && c ≤ '9' then some (c.toNat - '0'.toNat)
  else if 'a' ≤ c && c ≤ 'f' then some (c.toNat - 'a'.toNat + 10)
  else if 'A' ≤ c && c ≤ 'F' then some (c.toNat - 'A'.toNat + 10)
  else none

/-- The character with the given code point in hexadecimal, if it has one. -/
def codePoint? (digits : List Char) : Option Char := do
  let values ← digits.mapM hexValue?
  let n := values.foldl (fun n d => n * 16 + d) 0
  if n.isValidChar then some (Char.ofNat n) else none

/-- The character that a letter after a backslash stands for. -/
def shortEscape? : Char → Option Char
  | 'b' => some '\x08'
  | 't' => some '\t'
  | 'n' => some '\n'
  | 'f' => some '\x0c'
  | 'r' => some '\r'
  | '"' => some '"'
  | '\\' => some '\\'
  | _ => none

/-- The rest of a basic string, after the characters in `acc`, last one first. -/
def basic (acc : List Char) : Reader String
  | '"' :: rest => some (String.ofList acc.reverse, rest)
  | '\\' :: 'u' :: a :: b :: c :: d :: rest => do basic ((← codePoint? [a, b, c, d]) :: acc) rest
  | '\\' :: 'U' :: a :: b :: c :: d :: e :: f :: g :: h :: rest => do
    basic ((← codePoint? [a, b, c, d, e, f, g, h]) :: acc) rest
  | '\\' :: c :: rest => do basic ((← shortEscape? c) :: acc) rest
  | c :: rest => if isBasicChar c then basic (c :: acc) rest else none
  | [] => none

/-- The rest of a literal string. -/
def literal (acc : List Char) : Reader String
  | '\'' :: rest => some (String.ofList acc.reverse, rest)
  | c :: rest => if isLiteralChar c then literal (c :: acc) rest else none
  | [] => none

/-- The end of a string over several lines: up to two quotes before the closing ones belong to it. -/
def closing (quote : Char) (acc : List Char) (rest : List Char) : String × List Char :=
  let extra := (rest.take 2).takeWhile (· == quote)
  (String.ofList (acc.reverse ++ extra), rest.drop extra.length)

/-- Whether a backslash before this text ends the line, so that all space up to the next text is left out. -/
def endsLine (cs : List Char) : Bool := (newline? (skipBlanks cs)).isSome

/-- The rest of a basic string over several lines; `trim` leaves out the space in front. -/
def multiBasic (trim : Bool) (acc : List Char) : Reader String
  | '"' :: '"' :: '"' :: rest => some (closing '"' acc rest)
  | '\\' :: 'u' :: a :: b :: c :: d :: rest => do multiBasic false ((← codePoint? [a, b, c, d]) :: acc) rest
  | '\\' :: 'U' :: a :: b :: c :: d :: e :: f :: g :: h :: rest => do
    multiBasic false ((← codePoint? [a, b, c, d, e, f, g, h]) :: acc) rest
  | '\\' :: c :: rest =>
    if endsLine (c :: rest) then multiBasic true acc (c :: rest)
    else do multiBasic false ((← shortEscape? c) :: acc) rest
  | '\r' :: '\n' :: rest => multiBasic trim (if trim then acc else '\n' :: acc) rest
  | c :: rest =>
    if trim && (isBlank c || c == '\n') then multiBasic true acc rest
    else if isBasicChar c || c == '"' || c == '\n' then multiBasic false (c :: acc) rest
    else none
  | [] => none

/-- The rest of a literal string over several lines. -/
def multiLiteral (acc : List Char) : Reader String
  | '\'' :: '\'' :: '\'' :: rest => some (closing '\'' acc rest)
  | '\r' :: '\n' :: rest => multiLiteral ('\n' :: acc) rest
  | c :: rest => if isLiteralChar c || c == '\'' || c == '\n' then multiLiteral (c :: acc) rest else none
  | [] => none

/-- A line break right after the opening quotes does not count. -/
def skipNewline (cs : List Char) : List Char := (newline? cs).getD cs

/-- A string on one line. -/
def lineString : Reader String
  | '"' :: rest => basic [] rest
  | '\'' :: rest => literal [] rest
  | _ => none

def string : Reader String
  | '"' :: '"' :: '"' :: rest => multiBasic false [] (skipNewline rest)
  | '\'' :: '\'' :: '\'' :: rest => multiLiteral [] (skipNewline rest)
  | cs => lineString cs

end DeclRecovery.Toml
