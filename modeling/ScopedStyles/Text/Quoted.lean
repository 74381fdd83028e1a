import ScopedStyles.Text.Printable

/-!
# Quoted texts

How a text is shown inside a message: between quotation marks, with the mark, the backslash and
every unprintable character written as an escape, so that the quoted form stays on one line and
shows what it holds.

## Main definitions

* `Text.quoteMark` — the mark that stands around a text.
* `Text.quoted` — the quoted form.
-/

namespace ScopedStyles.Text

/-- The apostrophe stands around a text, unless the text holds one and holds no double quote. -/
def quoteMark (t : Text) : Char :=
  if t.contains '\'' && !t.contains '"' then '"' else '\''

/-- The hexadecimal numeral of `n`, filled up with zeros to `width` digits. -/
def hexadecimal (width n : Nat) : Text :=
  (Nat.toDigits 16 n).leftpad width '0'

/-- A character as it stands between quotation marks: an unprintable one is written with two, four
or eight hexadecimal digits, as few as its code point allows. -/
def escape (mark c : Char) : Text :=
  if c = mark || c = '\\' then ['\\', c]
  else if c = '\t' then ['\\', 't']
  else if c = '\n' then ['\\', 'n']
  else if c = '\r' then ['\\', 'r']
  else if isPrintable c then [c]
  else if c.toNat < 0x100 then '\\' :: 'x' :: hexadecimal 2 c.toNat
  else if c.toNat < 0x10000 then '\\' :: 'u' :: hexadecimal 4 c.toNat
  else '\\' :: 'U' :: hexadecimal 8 c.toNat

/-- The quoted form of a text. -/
def quoted (t : Text) : Text :=
  quoteMark t :: t.flatMap (escape (quoteMark t)) ++ [quoteMark t]

end ScopedStyles.Text
