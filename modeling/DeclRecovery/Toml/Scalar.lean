import DeclRecovery.Toml.Text
import DeclRecovery.Toml.Value

/-!
Numbers, dates and times.
-/

namespace DeclRecovery.Toml

/-! ### Digits -/

/-- More digits, with single underscores between digits, after those in `acc`. -/
def moreDigits (isDigit : Char → Bool) (acc : List Char) : Reader (List Char)
  | '_' :: c :: rest => if isDigit c then moreDigits isDigit (c :: acc) rest else none
  | c :: rest =>
    if isDigit c then moreDigits isDigit (c :: acc) rest
    else if c == '_' then none
    else some (acc.reverse, c :: rest)
  | [] => some (acc.reverse, [])

/-- One digit or more, with single underscores between them. -/
def digits (isDigit : Char → Bool) : Reader (List Char)
  | c :: rest => if isDigit c then moreDigits isDigit [c] rest else none
  | [] => none

/-- Digits without a needless zero in front. -/
def decimal : Reader (List Char)
  | '0' :: rest => some (['0'], rest)
  | cs => digits Char.isDigit cs

def valueOf (base : Nat) (ds : List Char) : Nat :=
  ds.foldl (fun n d => n * base + (hexValue? d).getD 0) 0

/-! ### Numbers -/

/-- An integer has 64 bits. -/
def integer? (n : Int) : Option Value :=
  if -9223372036854775808 ≤ n ∧ n ≤ 9223372036854775807 then some (.integer n) else none

/-- The digits of an integer in another base. -/
def based (base : Nat) (isDigit : Char → Bool) : Reader Value := fun cs => do
  let (ds, rest) ← digits isDigit cs
  return (← integer? (valueOf base ds), rest)

def sign : List Char → Bool × List Char
  | '-' :: rest => (true, rest)
  | '+' :: rest => (false, rest)
  | cs => (false, cs)

/-- What follows a fraction, if there is one. -/
def fraction : Reader Bool
  | '.' :: rest => (digits Char.isDigit rest).map fun (_, rest) => (true, rest)
  | cs => some (false, cs)

/-- What follows an exponent, if there is one. -/
def exponent : Reader Bool
  | c :: rest =>
    if c == 'e' || c == 'E' then (digits Char.isDigit (sign rest).2).map fun (_, rest) => (true, rest)
    else some (false, c :: rest)
  | [] => some (false, [])

/-- The characters of `cs` in front of `rest`. -/
def consumed (cs rest : List Char) : String := String.ofList (cs.take (cs.length - rest.length))

def number : Reader Value
  | '0' :: 'x' :: rest => based 16 (fun c => (hexValue? c).isSome) rest
  | '0' :: 'o' :: rest => based 8 (fun c => '0' ≤ c && c ≤ '7') rest
  | '0' :: 'b' :: rest => based 2 (fun c => c == '0' || c == '1') rest
  | cs => do
    let (negative, unsigned) := sign cs
    match unsigned with
    | 'i' :: 'n' :: 'f' :: rest | 'n' :: 'a' :: 'n' :: rest => return (.float (consumed cs rest), rest)
    | _ =>
      let (ds, rest) ← decimal unsigned
      let (hasFraction, rest) ← fraction rest
      let (hasExponent, rest) ← exponent rest
      if hasFraction || hasExponent then return (.float (consumed cs rest), rest)
      let n : Int := valueOf 10 ds
      return (← integer? (if negative then -n else n), rest)

/-! ### Dates and times -/

/-- A number of exactly `width` digits, between `low` and `high`. -/
def fixed (width low high : Nat) : Reader Nat := fun cs =>
  let ds := cs.take width
  let n := valueOf 10 ds
  if ds.length = width ∧ ds.all Char.isDigit ∧ low ≤ n ∧ n ≤ high then some (n, cs.drop width) else none

def expect (c : Char) : Reader Unit
  | d :: rest => if d = c then some ((), rest) else none
  | [] => none

def daysIn (year month : Nat) : Nat :=
  if month = 2 then
    if year % 4 = 0 ∧ (year % 100 ≠ 0 ∨ year % 400 = 0) then 29 else 28
  else if month = 4 ∨ month = 6 ∨ month = 9 ∨ month = 11 then 30
  else 31

def date : Reader Unit := fun cs => do
  let (year, cs) ← fixed 4 0 9999 cs
  let (_, cs) ← expect '-' cs
  let (month, cs) ← fixed 2 1 12 cs
  let (_, cs) ← expect '-' cs
  let (_, cs) ← fixed 2 1 (daysIn year month) cs
  return ((), cs)

def time : Reader Unit := fun cs => do
  let (_, cs) ← fixed 2 0 23 cs
  let (_, cs) ← expect ':' cs
  let (_, cs) ← fixed 2 0 59 cs
  let (_, cs) ← expect ':' cs
  let (_, cs) ← fixed 2 0 60 cs
  match cs with
  | '.' :: rest =>
    let rest' := rest.dropWhile Char.isDigit
    if rest'.length < rest.length then return ((), rest') else none
  | _ => return ((), cs)

/-- What follows the distance from universal time, if it is given. -/
def offset : Reader Unit
  | 'Z' :: rest | 'z' :: rest => some ((), rest)
  | '+' :: rest | '-' :: rest => do
    let (_, cs) ← fixed 2 0 23 rest
    let (_, cs) ← expect ':' cs
    let (_, cs) ← fixed 2 0 59 cs
    return ((), cs)
  | cs => some ((), cs)

/-- What follows a time after a date, if it is given. -/
def timeOfDay : Reader Unit
  | c :: rest =>
    if c == 'T' || c == 't' || c == ' ' then
      match time rest with
      | some (_, rest) => offset rest
      | none => some ((), c :: rest)
    else some ((), c :: rest)
  | [] => some ((), [])

def datetime : Reader Value := fun cs => do
  let (_, rest) ← ((date cs).bind fun (_, rest) => timeOfDay rest).or (time cs)
  return (.datetime (consumed cs rest), rest)

/-- A date, a time or a number. -/
def numeric : Reader Value := fun cs => (datetime cs).or (number cs)

end DeclRecovery.Toml
