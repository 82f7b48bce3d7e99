import Reckoner.Evaluation.Evaluator
import Reckoner.Evaluation.SignatureJson
import Reckoner.Value.Json
import Reckoner.Proofs.Rounding
import Reckoner.Proofs.DecimalValue
import Reckoner.Proofs.BinaryNearest
import Reckoner.Proofs.Numeral
import Reckoner.Proofs.DigitText
import Reckoner.Proofs.BuiltFormatter
import Reckoner.Proofs.Layout
import Reckoner.Proofs.Scanning
import Reckoner.Proofs.Affixes
import Reckoner.Proofs.RoundTrip
import Reckoner.Proofs.SignRecovery
import Reckoner.Proofs.Accumulation
import Reckoner.Proofs.NumberGrammar
import Reckoner.Proofs.HeldExponent
import Reckoner.Proofs.NumberReading
import Reckoner.Proofs.AffixGrammar
import Reckoner.Proofs.PatternScanning
import Reckoner.Proofs.PatternGrammar
import Reckoner.Proofs.BuiltinRoutes
import Reckoner.Proofs.ReturnKinds
import Reckoner.Proofs.Reciprocal
import Reckoner.Proofs.ShortestText
import Reckoner.Proofs.ShortestDigits
import Reckoner.Proofs.ShownNumber
import Reckoner.Proofs.HarmonicMean
import Reckoner.Proofs.Precedence
import Reckoner.Proofs.NaturalOrder
import Reckoner.Proofs.WholeOrder
import Reckoner.Proofs.SortedByKey
import Reckoner.Proofs.Median
import Reckoner.Proofs.AccumulatorHistory
import Reckoner.Proofs.WrappedTotals
import Reckoner.Proofs.PlainText
import Reckoner.Proofs.DoubleRoundTrip
import Reckoner.Proofs.ArgumentBounds
import Reckoner.Proofs.FixedArity
import Reckoner.Proofs.CurrencySigns
import Reckoner.Proofs.LocaleScope
import Reckoner.Proofs.StoredRounding
import Reckoner.Proofs.ScientificLayout
import Reckoner.Proofs.WholeDoubles
import Reckoner.Proofs.NarrowedWords
import Reckoner.Proofs.Middles
import Reckoner.Proofs.ArithmeticMean
import Reckoner.Proofs.JoinedPatterns
import Reckoner.Proofs.QuotedAffixes
import Reckoner.Proofs.FloorDivision
import Reckoner.Proofs.ExactArithmetic
import Reckoner.Proofs.LocaleTags
import Reckoner.Proofs.JsonConversion
import Reckoner.Proofs.SignatureCheck
import Reckoner.Proofs.ByteOrder
import Reckoner.Proofs.NamedThings
import Reckoner.Proofs.Registrations
import Reckoner.Proofs.ExtendedLine
import Reckoner.Proofs.Neighbours
import Reckoner.Proofs.ExactDifferences
import Reckoner.Proofs.NearestRemainder
import Reckoner.Proofs.NearestWhole
import Reckoner.Proofs.PowerScaling
import Reckoner.Proofs.BinaryExpansion
import Reckoner.Proofs.NormalDigits
