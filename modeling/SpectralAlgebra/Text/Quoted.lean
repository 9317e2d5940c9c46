import SpectralAlgebra.Text.Escaped

/-!
# Quoted text

A quoted text stands between double quotes. Quotes and backslashes inside it follow a backslash,
the four common controls have letters of their own, and a character that cannot be shown is written
by its number in hexadecimal.
-/

namespace SpectralAlgebra.Text

/-- The number of a character in lower-case hexadecimal, without leading zeros. -/
def hexCode (c : Char) : List Char :=
  Nat.toDigits 16 c.toNat

def quoteChar (c : Char) : List Char :=
  if c = '\x00' then ['\\', '0']
  else if c = '\t' then ['\\', 't']
  else if c = '\r' then ['\\', 'r']
  else if c = '\n' then ['\\', 'n']
  else if c = '\\' ∨ c = '"' then ['\\', c]
  else if isEscaped c then "\\u\x7b".toList ++ hexCode c ++ "\x7d".toList
  else [c]

def quote (text : String) : String :=
  String.ofList ('"' :: text.toList.flatMap quoteChar ++ ['"'])

def quoteList (texts : List String) : String :=
  "[" ++ ", ".intercalate (texts.map quote) ++ "]"

end SpectralAlgebra.Text
