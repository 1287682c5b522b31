import AwkToPython.Main
import AwkToPython.Proofs.Expression.ShortCircuit
import AwkToPython.Proofs.Statement.Braces
import AwkToPython.Proofs.Statement.Condition
import AwkToPython.Proofs.Usage.Exclusive
import AwkToPython.Proofs.Usage.Included
import AwkToPython.Proofs.Usage.Preset
import AwkToPython.Proofs.Progress.Item
import AwkToPython.Proofs.Usage.Stream
import AwkToPython.Proofs.Usage.Tiling
import AwkToPython.Proofs.Usage.Splicing
import AwkToPython.Proofs.CommandLine.Operand
import AwkToPython.Proofs.Lexeme.Closing
import AwkToPython.Proofs.Python.Normal
import AwkToPython.Proofs.Python.RawString
import AwkToPython.Proofs.Format.Quoting
import AwkToPython.Proofs.Usage.Parameters
import AwkToPython.Proofs.Python.Template
import AwkToPython.Proofs.Expression.Slice
import AwkToPython.Proofs.Item.Range
import AwkToPython.Proofs.Statement.Hoisting
import AwkToPython.Proofs.Cursor.Stream
