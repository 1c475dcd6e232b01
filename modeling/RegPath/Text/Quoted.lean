import RegPath.Text.Printable

namespace RegPath.Text

/-!
# Quoted text

A text between quotes, as error messages show it.  The single quote is used unless it occurs in
the text and the double quote does not.

* `quoteFor` — the choice of the quote;
* `escaped` — the written form of one character;
* `quoted` — the whole text.
-/

/-- The quote that needs the fewest escapes. -/
def quoteFor (s : List Char) : Char := if '\'' ∈ s ∧ '"' ∉ s then '"' else '\''

/-- The last `width` hexadecimal digits of a number, in lower case. -/
def hex (width : Nat) (n : Nat) : List Char :=
  let ds := Nat.toDigits 16 n
  List.replicate (width - ds.length) '0' ++ ds

/-- A code point as an escape of the shortest kind that has room for it. -/
def codeEscape (n : Nat) : List Char :=
  if n < 0x100 then '\\' :: 'x' :: hex 2 n
  else if n < 0x10000 then '\\' :: 'u' :: hex 4 n
  else '\\' :: 'U' :: hex 8 n

/-- The written form of one character inside the given quotes. -/
def escaped (quote : Char) (c : Char) : List Char :=
  if c = quote ∨ c = '\\' then ['\\', c]
  else if c = '\n' then ['\\', 'n']
  else if c = '\r' then ['\\', 'r']
  else if c = '\t' then ['\\', 't']
  else if isPrintable c then [c]
  else codeEscape c.toNat

/-- The text between quotes, on one line and without unprintable characters. -/
def quoted (s : String) : String :=
  let cs := s.toList
  let q := quoteFor cs
  String.ofList (q :: cs.flatMap (escaped q) ++ [q])

end RegPath.Text
