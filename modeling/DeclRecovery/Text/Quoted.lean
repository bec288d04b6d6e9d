import DeclRecovery.Text.Unprintable
import DeclRecovery.Text.GraphemeExtend

/-!
Quoted text. A character that would not be seen as itself between two double quotes is written as an escape:
a short one for the quote, the backslash and the common control characters, the code point in braces for all
others.
-/

namespace DeclRecovery.Text

/-- The code point of `c` in lower case hexadecimal, as `\u\x7b…\x7d`. -/
def codePointEscape (c : Char) : List Char :=
  '\\' :: 'u' :: '\x7b' :: Nat.toDigits 16 c.toNat ++ ['\x7d']

/-- How one character stands inside quotes. -/
def escape (c : Char) : List Char :=
  match c with
  | '\x00' => ['\\', '0']
  | '\t' => ['\\', 't']
  | '\r' => ['\\', 'r']
  | '\n' => ['\\', 'n']
  | '"' => ['\\', '"']
  | '\\' => ['\\', '\\']
  | c => if isJoining c || !isPrintable c then codePointEscape c else [c]

/-- The text in double quotes, with escapes. -/
def quote (s : String) : String := String.ofList ('"' :: s.toList.flatMap escape ++ ['"'])

end DeclRecovery.Text
