import DBusMarshal.Text.Printable

/-!
Quoted texts and byte strings, as messages show them.

A text stands between single quotes, or between double quotes when it holds a single quote and no
double quote. The quote in use, the backslash and every character that cannot be shown are written
as escapes.
-/

set_option autoImplicit false

namespace DBusMarshal.Text

/-! ### Hexadecimal digits -/

/-- The digit of a value below sixteen, in lower case. -/
def hexDigit (value : Nat) : Char := Nat.digitChar (value % 16)

/-- The last `width` hexadecimal digits of a number, the most significant first. -/
def hexDigits : (width : Nat) → Nat → List Char
  | 0, _ => []
  | width + 1, value => hexDigits width (value / 16) ++ [hexDigit value]

@[simp]
theorem length_hexDigits (width value : Nat) : (hexDigits width value).length = width := by
  induction width generalizing value with
  | zero => rfl
  | succ width ih => rw [hexDigits, List.length_append, ih, List.length_singleton]

/-! ### Escapes -/

def quoteFor (text : List Char) : Char :=
  if text.contains '\'' && !text.contains '"' then '"' else '\''

/-- The escape of a code point by its number, in the shortest of three widths. -/
def escapeCode (code : Nat) : List Char :=
  if code < 0x100 then '\\' :: 'x' :: hexDigits 2 code
  else if code < 0x10000 then '\\' :: 'u' :: hexDigits 4 code
  else '\\' :: 'U' :: hexDigits 8 code

/-- How a character is written between quotes, when `shown` says which characters stand for
themselves. -/
def escapeChar (shown : Char → Bool) (quote c : Char) : List Char :=
  if c = quote ∨ c = '\\' then ['\\', c]
  else if c = '\n' then ['\\', 'n']
  else if c = '\r' then ['\\', 'r']
  else if c = '\t' then ['\\', 't']
  else if shown c then [c]
  else escapeCode c.toNat

def quoteChars (shown : Char → Bool) (text : List Char) : List Char :=
  let quote := quoteFor text
  quote :: text.flatMap (escapeChar shown quote) ++ [quote]

def quoted (text : String) : String := .ofList (quoteChars isPrintable text.toList)

/-- A byte string between quotes, marked by a letter; the bytes of printable ASCII stand for
themselves. -/
def quotedBytes (bytes : List UInt8) : String :=
  let letters := bytes.map fun octet => Char.ofNat octet.toNat
  .ofList ('b' :: quoteChars (fun c => ' ' ≤ c && c < '\x7f') letters)

/-! ### Examples -/

example : quoted "it's" = "\"it's\"" := by decide +kernel

example : quoted "a\n\u200b" = "'a\\n\\u200b'" := by decide +kernel

example : quotedBytes [0x41, 0xff] = "b'A\\xff'" := by decide +kernel

end DBusMarshal.Text
