import StreamParser.Parser.Text

/-!
# Command lines

A command line is the name of a command and any number of parameters, each a dash, a name and a value. A
value stands between double quotes, or it goes up to the next space.
-/

namespace StreamParser

structure Command where
  name : String
  parameters : List (String × String)
  deriving DecidableEq

namespace Command

def names : List String := ["Show-Apps", "Clear-Host", "Get-Item"]

end Command

namespace Parser

variable {σ : Type}

def commandName : Parser σ String := choice (Command.names.map literal)

def parameterValue : Parser σ String :=
  or (between (char '"') (charsUntil '"') (char '"')) (charsUntil ' ')

def parameter : Parser σ (String × String) :=
  preceded skipSpaces
    (pair (preceded (char '-') (charsUntil ' ')) (preceded skipSpaces parameterValue))

/-- The whole of the stream has to be a command line; spaces may stand at its end. -/
def commandLine : Parser σ Command :=
  lift₂ Command.mk commandName (terminated (many parameter) (preceded skipSpaces endOfStream))

end Parser

end StreamParser
