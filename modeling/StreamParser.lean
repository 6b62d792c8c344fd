import StreamParser.CharClass
import StreamParser.Proofs.Indifference
import StreamParser.Proofs.Leaks
import StreamParser.Proofs.Locality
import StreamParser.Proofs.MismatchColumn
import StreamParser.Proofs.NestBound
import StreamParser.Proofs.NestLaw
import StreamParser.Proofs.NestLimit
import StreamParser.Proofs.Splicing
import StreamParser.Proofs.Termination
import StreamParser.Proofs.Transcript
import StreamParser.Proofs.TrueTrace
import StreamParser.Proofs.Verbatim
import StreamParser.Script.Parse
import StreamParser.Script.Session
import StreamParser.Proofs.NormalForm
import StreamParser.Proofs.QuotedText
import StreamParser.CommandLine
import StreamParser.Proofs.CommandLine
import StreamParser.Proofs.Brackets
import StreamParser.Proofs.Sequence
import StreamParser.Proofs.Repetition
import StreamParser.Proofs.Counting
import StreamParser.Proofs.Applicative
import StreamParser.Proofs.Alternatives
import StreamParser.Proofs.Factoring
import StreamParser.Proofs.Stages
import StreamParser.Proofs.Literal
import StreamParser.Proofs.LongestRun
import StreamParser.Proofs.Between
import StreamParser.Proofs.GroupZero
import StreamParser.Proofs.Spaces
import StreamParser.Proofs.Membership
import StreamParser.Proofs.LongestMatch
import StreamParser.Proofs.WaysForward
