import DataTransfer.InternalUnit
import DataTransfer.Statement
import DataTransfer.Proofs.Numeric.Magnitude
import DataTransfer.Proofs.Storage.Failures
import DataTransfer.Proofs.Status.Events
import DataTransfer.Proofs.Unit.RoundTrip
import DataTransfer.Proofs.Unit.LineRoundTrip
import DataTransfer.Proofs.Unit.Direct
import DataTransfer.Proofs.Unit.Stream
import DataTransfer.Proofs.Unit.Payloads
import DataTransfer.Proofs.Unit.FixedReading
import DataTransfer.Proofs.Unit.Damage
import DataTransfer.Proofs.Field.DroppedDigits
import DataTransfer.Proofs.Program.Close
import DataTransfer.Proofs.Program.UnitHistory
import DataTransfer.Proofs.Program.NewUnits
import DataTransfer.Proofs.Unit.ListLayout
import DataTransfer.Proofs.Program.ListRoundTrip
import DataTransfer.Proofs.InternalOutput
import DataTransfer.Proofs.Unit.PartialRead
import DataTransfer.Proofs.Unit.Unwritable
import DataTransfer.Proofs.Unit.StandardInput
import DataTransfer.Proofs.Unit.EndOfRecord
import DataTransfer.Proofs.Unit.SplitStatements
import DataTransfer.Proofs.Unit.TabLimit
import DataTransfer.Proofs.Program.Failures
import DataTransfer.Proofs.Numeric.Exceptions
import DataTransfer.Proofs.Field.DigitString
import DataTransfer.Proofs.Field.RealScan
import DataTransfer.Proofs.Field.Blanks
import DataTransfer.Proofs.Numeric.DecimalVerdict
import DataTransfer.Proofs.Numeric.ExponentLimit
import DataTransfer.Proofs.Numeric.DecimalGrammar
import DataTransfer.Proofs.Field.BitPattern
import DataTransfer.Proofs.Unit.Isolation
import DataTransfer.Proofs.Unit.ListPositioning
import DataTransfer.Proofs.Program.CrashFlush
import DataTransfer.Proofs.Field.NormalText
import DataTransfer.Proofs.Storage.Bounded
