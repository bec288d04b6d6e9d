import DeclRecovery.Expr.Printer
import DeclRecovery.Toml.Text
import Mathlib.Data.List.Basic

/-!
Literals can be read back from their text. The first character shows what kind of literal it is (`Literal.read?`). Inside
quotes a backslash always starts an escape, and each escape shows where it ends, so the characters of a string come back
one by one (`Text.unescape_escapeBy`).

Which characters are written as they are and which by their code point depends on tables of characters. The reader needs
none of them: all results are about `Text.quoteBy`, for any set of plain characters.
-/

namespace DeclRecovery

namespace Text

/-! ### Quotes with any set of plain characters -/

/-- The characters with a short escape, and what stands for each of them after the backslash. -/
def shortEscapes : List (Char × Char) :=
  [('\x00', '0'), ('\t', 't'), ('\r', 'r'), ('\n', 'n'), ('"', '"'), ('\\', '\\')]

/-- How a character stands inside quotes. Of those without a short escape the plain ones are written as they are. -/
def escapeBy (plain : Char → Bool) (c : Char) : List Char :=
  match shortEscapes.lookup c with
  | some letter => ['\\', letter]
  | none => if plain c then [c] else codePointEscape c

def quoteBy (plain : Char → Bool) (s : String) : String :=
  String.ofList ('"' :: s.toList.flatMap (escapeBy plain) ++ ['"'])

/-- The characters that `quote` takes as plain. -/
def isPlain (c : Char) : Bool := isPrintable c && !isJoining c

theorem escape_eq_escapeBy (c : Char) : escape c = escapeBy isPlain c := by
  unfold escape
  split
  case h_7 h₀ h₁ h₂ h₃ h₄ h₅ =>
    have hshort : shortEscapes.lookup c = none := by
      simpa [shortEscapes, List.lookup_eq_none_iff] using ⟨h₀, h₁, h₂, h₃, h₄, h₅⟩
    rw [escapeBy, hshort, isPlain]
    cases isPrintable c <;> cases isJoining c <;> rfl
  all_goals rfl

theorem quote_eq_quoteBy (s : String) : quote s = quoteBy isPlain s := by
  rw [quote, quoteBy, funext escape_eq_escapeBy]

theorem escapeBy_cases (plain : Char → Bool) (c : Char) :
    (∃ letter, (c, letter) ∈ shortEscapes ∧ escapeBy plain c = ['\\', letter]) ∨
      (c ≠ '"' ∧ c ≠ '\\' ∧ escapeBy plain c = [c]) ∨ escapeBy plain c = codePointEscape c := by
  rw [escapeBy]
  cases hshort : shortEscapes.lookup c with
  | some letter =>
    obtain ⟨l, r, hsplit, -⟩ := List.lookup_eq_some_iff.mp hshort
    exact .inl ⟨letter, hsplit ▸ List.mem_append_right l List.mem_cons_self, rfl⟩
  | none =>
    by_cases hplain : plain c = true
    · have hne : ∀ p ∈ shortEscapes, c ≠ p.1 := by simpa [List.lookup_eq_none_iff] using hshort
      exact .inr (.inl ⟨hne ('"', '"') (by decide), hne ('\\', '\\') (by decide), if_pos hplain⟩)
    · exact .inr (.inr (if_neg hplain))

/-! ### Reading what stands inside quotes -/

mutual

/-- The rest of a quoted text, after the characters in `acc`, last one first. -/
def unescape (acc : List Char) : Toml.Reader String
  | '"' :: rest => some (String.ofList acc.reverse, rest)
  | '\\' :: 'u' :: '\x7b' :: rest => unescapeCodePoint acc 0 rest
  | '\\' :: letter :: rest => do unescape ((← shortEscapes.find? (·.2 == letter)).1 :: acc) rest
  | c :: rest => unescape (c :: acc) rest
  | [] => none

/-- The same inside braces, after the digits of `n`. -/
def unescapeCodePoint (acc : List Char) (n : Nat) : Toml.Reader String
  | '\x7d' :: rest => if n.isValidChar then unescape (Char.ofNat n :: acc) rest else none
  | digit :: rest => do unescapeCodePoint acc (n * 16 + (← Toml.hexValue? digit)) rest
  | [] => none

end

/-- The string that a text in quotes stands for. -/
def unquote (text : String) : Option String :=
  match text.toList with
  | '"' :: rest => do
    let (s, []) ← unescape [] rest | none
    some s
  | _ => none

theorem unescape_short (acc : List Char) {c letter : Char} (h : (c, letter) ∈ shortEscapes) (rest : List Char) :
    unescape acc ('\\' :: letter :: rest) = unescape (c :: acc) rest := by
  simp only [shortEscapes, List.mem_cons, Prod.mk.injEq, List.not_mem_nil, or_false] at h
  rcases h with ⟨rfl, rfl⟩ | ⟨rfl, rfl⟩ | ⟨rfl, rfl⟩ | ⟨rfl, rfl⟩ | ⟨rfl, rfl⟩ | ⟨rfl, rfl⟩ <;> rfl

theorem unescapeCodePoint_digitChar (acc : List Char) (n : Nat) {d : Nat} (hd : d < 16) (rest : List Char) :
    unescapeCodePoint acc n (d.digitChar :: rest) = unescapeCodePoint acc (n * 16 + d) rest := by
  have hdigit : ∀ d < 16, Toml.hexValue? d.digitChar = some d ∧ d.digitChar ≠ '\x7d' := by decide
  obtain ⟨hvalue, hbrace⟩ := hdigit d hd
  rw [unescapeCodePoint, hvalue]
  · rfl
  · exact hbrace

/-- Digits are read up to the number they were written for, whatever follows. -/
theorem unescapeCodePoint_toDigits (acc : List Char) (n : Nat) (rest : List Char) :
    unescapeCodePoint acc 0 (Nat.toDigits 16 n ++ rest) = unescapeCodePoint acc n rest := by
  induction n using Nat.strongRecOn generalizing rest with
  | ind n ih =>
    by_cases hn : n < 16
    · rw [Nat.toDigits_of_lt_base hn, List.singleton_append, unescapeCodePoint_digitChar acc 0 hn, Nat.zero_mul,
        Nat.zero_add]
    · -- the last digit stands after those of `n / 16`, so it belongs to the rest in the induction
      rw [Nat.toDigits_of_base_le (by decide) (Nat.not_lt.mp hn), List.append_assoc, ih (n / 16) (by omega),
        List.singleton_append, unescapeCodePoint_digitChar acc _ (Nat.mod_lt n (by decide)), Nat.div_add_mod']

theorem unescape_codePointEscape (acc : List Char) (c : Char) (rest : List Char) :
    unescape acc (codePointEscape c ++ rest) = unescape (c :: acc) rest := by
  have hvalid : c.toNat.isValidChar := c.valid
  calc unescape acc (codePointEscape c ++ rest)
    _ = unescapeCodePoint acc 0 (Nat.toDigits 16 c.toNat ++ '\x7d' :: rest) := by
        simp [codePointEscape, unescape]
    _ = unescapeCodePoint acc c.toNat ('\x7d' :: rest) := unescapeCodePoint_toDigits acc c.toNat _
    _ = unescape (c :: acc) rest := by rw [unescapeCodePoint, if_pos hvalid, Char.ofNat_toNat]

/-- One character is read back from what is written for it. -/
theorem unescape_escapeBy (plain : Char → Bool) (acc : List Char) (c : Char) (rest : List Char) :
    unescape acc (escapeBy plain c ++ rest) = unescape (c :: acc) rest := by
  rcases escapeBy_cases plain c with ⟨letter, hshort, h⟩ | ⟨hquote, hbackslash, h⟩ | h
  · rw [h]
    exact unescape_short acc hshort rest
  · rw [h, List.singleton_append, unescape]
    all_goals simp [hquote, hbackslash]
  · rw [h]
    exact unescape_codePointEscape acc c rest

theorem unescape_flatMap_escapeBy (plain : Char → Bool) (acc cs rest : List Char) :
    unescape acc (cs.flatMap (escapeBy plain) ++ rest) = unescape (cs.reverse ++ acc) rest := by
  induction cs generalizing acc with
  | nil => rfl
  | cons c cs ih =>
    rw [List.flatMap_cons, List.append_assoc, unescape_escapeBy, ih, List.reverse_cons, List.append_assoc,
      List.singleton_append]

theorem unquote_quoteBy (plain : Char → Bool) (s : String) : unquote (quoteBy plain s) = some s := by
  have hread : unescape [] (s.toList.flatMap (escapeBy plain) ++ ['"']) = some (s, []) := by
    rw [unescape_flatMap_escapeBy, unescape, List.append_nil, List.reverse_reverse, String.ofList_toList]
  simp [unquote, quoteBy, hread]

-- a backslash and a letter of the string itself are not taken for an escape
example : unquote "\"\\\\n\\u\x7b41\x7d\\n\"" = some "\\nA\n" := by decide

end Text

namespace Literal

/-! ### The text of a literal -/

/-- The text of a literal if the characters in `plain` are written as they are. -/
def renderBy (plain : Char → Bool) : Literal → String
  | str s => Text.quoteBy plain s
  | l => l.render

theorem render_eq_renderBy : render = renderBy Text.isPlain := by
  funext l
  cases l with
  | str s => exact Text.quote_eq_quoteBy s
  | _ => rfl

def word? : String → Option Literal
  | "null" => some null
  | "true" => some (bool true)
  | "false" => some (bool false)
  | _ => none

/-- The type whose zero value the text names. -/
def zeroType? (text : String) : Option String := do
  let inner ← text.toList.dropPrefix? "default(".toList
  let type ← inner.dropSuffix? [')']
  some (String.ofList type)

/-- The number that is written in decimal digits. -/
def natural? (digits : List Char) : Option Nat :=
  if digits.all Char.isDigit then some (Nat.ofDigitChars 10 digits 0) else none

def integer? : List Char → Option Int
  | '-' :: digits => (natural? digits).map Int.negOfNat
  | digits => (natural? digits).map Int.ofNat

/-- The literal with the given text, by the reader for its kind. -/
def read? (text : String) : Option Literal :=
  match text.toList.head? with
  | some 'n' | some 't' | some 'f' => word? text
  | some '"' => (Text.unquote text).map str
  | some 'd' => (zeroType? text).map default
  | _ => (integer? text.toList).map int

theorem read?_quoteBy (plain : Char → Bool) (s : String) : read? (Text.quoteBy plain s) = some (str s) := by
  have hhead : (Text.quoteBy plain s).toList.head? = some '"' := by simp [Text.quoteBy]
  rw [read?, hhead]
  simp [Text.unquote_quoteBy]

theorem read?_default (type : String) : read? (default type).render = some (default type) := by
  have htext : (default type).render.toList = "default(".toList ++ (type.toList ++ [')']) := by simp [render]
  have hhead : (default type).render.toList.head? = some 'd' := by rw [htext]; rfl
  have hprefix : (default type).render.toList.dropPrefix? "default(".toList = some (type.toList ++ [')']) :=
    List.dropPrefix?_eq_some_iff.mpr ⟨_, htext, beq_self_eq_true _⟩
  have hsuffix : (type.toList ++ [')']).dropSuffix? [')'] = some type.toList :=
    List.dropSuffix?_eq_some_iff.mpr ⟨_, rfl, beq_self_eq_true _⟩
  have htype : zeroType? (default type).render = some type := by
    rw [zeroType?, hprefix]
    simp [hsuffix]
  rw [read?, hhead]
  simp [htype]

theorem natural?_toDigits (n : Nat) : natural? (Nat.toDigits 10 n) = some n := by
  have hdigits : (Nat.toDigits 10 n).all Char.isDigit = true :=
    List.all_eq_true.mpr fun _ hc => Nat.isDigit_of_mem_toDigits (by decide) (Nat.le_refl 10) hc
  rw [natural?, if_pos hdigits, Nat.ofDigitChars_ten_toDigits]

theorem integer?_repr (n : Int) : integer? n.repr.toList = some n := by
  rw [Int.repr_eq_if]
  split
  · next hn =>
    rw [Nat.toList_repr, integer?, natural?_toDigits, Option.map_some]
    · exact congrArg some (Int.toNat_of_nonneg hn)
    · -- a sign is no digit
      intro digits hdigits
      cases Nat.isDigit_of_mem_toDigits (by decide) (Nat.le_refl 10) (hdigits ▸ List.mem_cons_self : '-' ∈ _)
  · next hn =>
    have htext : ("-" ++ (-n).toNat.repr).toList = '-' :: Nat.toDigits 10 (-n).toNat := by simp
    rw [htext, integer?, natural?_toDigits, Option.map_some, Int.negOfNat_eq, Int.ofNat_eq_natCast]
    exact congrArg some (by omega)

theorem head?_toList_repr (n : Int) : ∃ c, n.repr.toList.head? = some c ∧ (c = '-' ∨ c.isDigit = true) := by
  rw [Int.repr_eq_if]
  split
  · obtain ⟨c, cs, hdigits⟩ := List.exists_cons_of_ne_nil (Nat.toDigits_ne_nil (b := 10) (n := n.toNat))
    have hc : c.isDigit = true :=
      Nat.isDigit_of_mem_toDigits (by decide : 0 < 10) (Nat.le_refl 10) (hdigits ▸ List.mem_cons_self)
    exact ⟨c, by simp [Nat.repr_eq_ofList_toDigits, hdigits], .inr hc⟩
  · exact ⟨'-', by simp, .inl rfl⟩

theorem read?_of_head?_number {text : String} {c : Char} (hhead : text.toList.head? = some c)
    (hc : c = '-' ∨ c.isDigit = true) : read? text = (integer? text.toList).map int := by
  rw [read?, hhead]
  rcases hc with rfl | hdigit
  · rfl
  · -- no other kind of literal starts with a digit
    split <;> simp_all

theorem read?_int (n : Int) : read? (int n).render = some (int n) := by
  obtain ⟨c, hhead, hc⟩ := head?_toList_repr n
  calc read? n.repr
    _ = (integer? n.repr.toList).map int := read?_of_head?_number hhead hc
    _ = some (int n) := by rw [integer?_repr, Option.map_some]

theorem read?_word : ∀ l ∈ [null, bool true, bool false], read? l.render = some l := by decide

/-- A literal is read back from its text. -/
theorem read?_renderBy (plain : Char → Bool) (l : Literal) : read? (l.renderBy plain) = some l := by
  cases l with
  | null => exact read?_word null (by decide)
  | bool b => exact read?_word (bool b) (by cases b <;> decide)
  | int n => exact read?_int n
  | str s => exact read?_quoteBy plain s
  | default type => exact read?_default type

theorem renderBy_injective (plain : Char → Bool) : Function.Injective (renderBy plain) := by
  intro l l' h
  have hread := read?_renderBy plain l
  rw [h, read?_renderBy] at hread
  exact (Option.some.inj hread).symm

/-- Literals with the same text are equal, and a string can be decoded from its text. Both hold whatever the characters
are that are written as they are. -/
theorem render_unambiguous :
    (Function.Injective render ∧ ∀ s, Text.unquote (str s).render = some s) ∧
      render = renderBy Text.isPlain ∧
      ∀ plain, Function.Injective (renderBy plain) ∧ ∀ s, Text.unquote ((str s).renderBy plain) = some s := by
  have hany : ∀ plain, Function.Injective (renderBy plain) ∧ ∀ s, Text.unquote ((str s).renderBy plain) = some s :=
    fun plain => ⟨renderBy_injective plain, Text.unquote_quoteBy plain⟩
  exact ⟨render_eq_renderBy ▸ hany Text.isPlain, render_eq_renderBy, hany⟩

end Literal

end DeclRecovery
