import MiniScheme.Text.Invisible

namespace MiniScheme.Text

def hexadecimal (n : Nat) : String := String.ofList (Nat.toDigits 16 n)

def escape (quote c : Char) : String :=
  if c = '\x00' then "\\0"
  else if c = '\t' then "\\t"
  else if c = '\n' then "\\n"
  else if c = '\r' then "\\r"
  else if c = '\\' ∨ c = quote then "\\" ++ c.toString
  else if isInvisible c then "\\u\x7b" ++ hexadecimal c.toNat ++ "\x7d"
  else c.toString

def quoteWith (quote : Char) (text : List Char) : String :=
  quote.toString ++ String.join (text.map (escape quote)) ++ quote.toString

def quoteChar (c : Char) : String := quoteWith '\x27' [c]

def quoteText (text : String) : String := quoteWith '\x22' text.toList

end MiniScheme.Text
