import VerifiedBoot.Bytes.Basic
import VerifiedBoot.Text.Printable

/-!
# Quoted text and quoted bytes

Names and blobs that come from untrusted data are shown between quotes, so that a reader sees
where they end and which characters they hold. The quote is `'`, unless the text holds a `'` and
no `"`. Backslash and the quote in use are escaped, as are tab, line feed and carriage return;
every other character that is not printable is written as its code point in hexadecimal.

Bytes are quoted by the same rule with a `b` in front, and only ASCII counts as printable there.
-/

namespace VerifiedBoot

namespace Text

/-- The character that delimits quoted text. -/
def delimiter (text : List Char) : Char :=
  if text.contains '\'' && !text.contains '"' then '"' else '\''

/-- The `width` low hexadecimal digits of a number. -/
def hexDigits : Nat → Nat → List Char
  | 0, _ => []
  | width + 1, n => hexDigits width (n / 16) ++ [Nat.digitChar (n % 16)]

/-- A code point that cannot be shown, in the shortest of the three escapes that holds it. -/
def escapeCode (n : Nat) : List Char :=
  if n < 0x100 then '\\' :: 'x' :: hexDigits 2 n
  else if n < 0x10000 then '\\' :: 'u' :: hexDigits 4 n
  else '\\' :: 'U' :: hexDigits 8 n

/-- One character between quotes: `shown` says which stand for themselves. -/
def escapeChar (shown : Char → Bool) (quote c : Char) : List Char :=
  if c = quote || c = '\\' then ['\\', c]
  else if c = '\t' then ['\\', 't']
  else if c = '\n' then ['\\', 'n']
  else if c = '\r' then ['\\', 'r']
  else if shown c then [c]
  else escapeCode c.toNat

/-- Characters between the quotes that suit them. -/
def quoteChars (shown : Char → Bool) (text : List Char) : List Char :=
  let quote := delimiter text
  quote :: text.flatMap (escapeChar shown quote) ++ [quote]

/-- Text between quotes. -/
def quote (text : String) : String :=
  String.ofList (quoteChars isPrintable text.toList)

/-- Bytes between quotes; a byte stands for itself if it is a printable ASCII character. -/
def quoteBytes (data : Bytes) : String :=
  String.ofList ('b' :: quoteChars (fun c => 32 ≤ c.toNat && c.toNat < 127)
    (data.map fun b => Char.ofNat b.toNat))

end Text

end VerifiedBoot
