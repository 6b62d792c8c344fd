/-!
# Quoted characters

A character as a log shows it: in single quotes, with quote, backslash and control characters
escaped.
-/

namespace StreamParser

def hexadecimal (n : Nat) : String := String.ofList (Nat.toDigits 16 n)

/-- Neither a quote, nor a backslash, nor a control character stands for itself. -/
def escaped (c : Char) : String :=
  if c = '\'' then "\\'"
  else if c = '\\' then "\\\\"
  else if c = '\n' then "\\n"
  else if c = '\r' then "\\r"
  else if c = '\t' then "\\t"
  else if c.toNat = 0 then "\\0"
  else if c.toNat < 0x20 ∨ (0x7f ≤ c.toNat ∧ c.toNat < 0xa0) then
    "\\u\x7b" ++ hexadecimal c.toNat ++ "\x7d"
  else String.singleton c

def quoted (c : Char) : String := "'" ++ escaped c ++ "'"

end StreamParser
