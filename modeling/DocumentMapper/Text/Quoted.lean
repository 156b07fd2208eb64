import DocumentMapper.Text.Printable

/-!
# Quoted texts

A text is quoted in apostrophes, or in double quotes when it holds an apostrophe and no double
quote. The quote in use, the backslash and every character that is not printable are escaped;
an escape names the code point in two, four or eight hexadecimal digits, the fewest that hold it.
-/

namespace DocumentMapper.Text

/-- The digit of value `n` below sixteen, letters in lower case. -/
def hexDigit (n : Nat) : Char :=
  if n < 10 then Char.ofNat (48 + n) else Char.ofNat (87 + n)

/-- The last `width` hexadecimal digits of `n`. -/
def hexDigits (width n : Nat) : List Char :=
  (List.range width).reverse.map fun place => hexDigit (n / Nat.pow 16 place % 16)

def apostrophe : Char := Char.ofNat 39

/-- The quote a text is written in. -/
def quoteFor (cs : List Char) : Char :=
  if cs.contains apostrophe && !cs.contains '"' then '"' else apostrophe

/-- The characters that stand for `c` between two quotes `quote`. -/
def quotedChar (quote c : Char) : List Char :=
  if c = quote ∨ c = '\\' then ['\\', c]
  else if c = '\t' then ['\\', 't']
  else if c = '\n' then ['\\', 'n']
  else if c = '\r' then ['\\', 'r']
  else if isPrintable c then [c]
  else if c.toNat < 0x100 then '\\' :: 'x' :: hexDigits 2 c.toNat
  else if c.toNat < 0x10000 then '\\' :: 'u' :: hexDigits 4 c.toNat
  else '\\' :: 'U' :: hexDigits 8 c.toNat

def quotedChars (cs : List Char) : List Char :=
  let quote := quoteFor cs
  quote :: cs.flatMap (quotedChar quote) ++ [quote]

def quoted (s : String) : String :=
  String.ofList (quotedChars s.toList)

end DocumentMapper.Text
