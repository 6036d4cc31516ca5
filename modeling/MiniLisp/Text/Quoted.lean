import MiniLisp.Text.Printable
/-!
# Quoted text

A text is quoted with single quotes, or with double quotes if it has a single quote and
no double one.  The quote and the backslash are escaped, tab, line feed and carriage
return by their letters, and any other character that cannot be printed by the hexadecimal
digits of its code point: two, four or eight of them, the fewest that suffice.
-/
namespace MiniLisp.Text

/-- The hexadecimal digits of a number, padded on the left to a width. -/
def hex (width n : Nat) : List Char :=
  let digits := Nat.toDigits 16 n
  List.replicate (width - digits.length) '0' ++ digits

def escape (quote c : Char) : List Char :=
  if c = quote ∨ c = '\\' then ['\\', c]
  else if c = '\t' then ['\\', 't']
  else if c = '\n' then ['\\', 'n']
  else if c = '\r' then ['\\', 'r']
  else if isPrintable c then [c]
  else if c.toNat < 0x100 then '\\' :: 'x' :: hex 2 c.toNat
  else if c.toNat < 0x10000 then '\\' :: 'u' :: hex 4 c.toNat
  else '\\' :: 'U' :: hex 8 c.toNat

def quoteFor (text : List Char) : Char :=
  if '\'' ∈ text ∧ '"' ∉ text then '"' else '\''

def quoted (text : String) : String :=
  let quote := quoteFor text.toList
  String.ofList (quote :: text.toList.flatMap (escape quote) ++ [quote])

end MiniLisp.Text
