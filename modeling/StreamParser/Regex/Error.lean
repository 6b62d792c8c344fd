/-!
# Errors in patterns

Why a pattern is refused.
-/

namespace StreamParser.Regex

inductive PatternError where
  | unclosedGroup
  | unopenedGroup
  | unclosedClass
  | nothingToRepeat
  | badCount
  | reversedCount
  | lookaround
  | backreference
  | badGroupName
  | duplicateGroupName
  | badFlag
  | repeatedFlag
  | danglingNegation
  | badEscape
  | badHexadecimal
  | badRange
  | escapeInClass
  /-- Outside Unicode mode only ASCII can be asked for. -/
  | notAscii
  | unfinished
  | tooDeep
  | tooLarge
  deriving DecidableEq

end StreamParser.Regex
