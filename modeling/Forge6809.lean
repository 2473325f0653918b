import Forge6809.Main
import Forge6809.Script.Printer
import Forge6809.Token.Cursor
import Forge6809.Proofs.Text.Uppercase
import Forge6809.Proofs.Token.Lexing
import Forge6809.Proofs.Token.Cursor
import Forge6809.Proofs.Token.LetterCase
import Forge6809.Proofs.Expr.Grammar
import Forge6809.Proofs.Expr.Evaluation
import Forge6809.Proofs.Expr.Spacing
import Forge6809.Proofs.Assembly.Form
import Forge6809.Proofs.Assembly.Operand
import Forge6809.Proofs.Assembly.Equation
import Forge6809.Proofs.Assembly.Scan
import Forge6809.Proofs.Assembly.Settling
import Forge6809.Proofs.Assembly.Generation
import Forge6809.Proofs.Assembly.Soundness
import Forge6809.Proofs.Assembly.Phase
import Forge6809.Proofs.Assembly.Validity
import Forge6809.Proofs.Assembly.Order
import Forge6809.Proofs.Assembly.Entry
import Forge6809.Proofs.Assembly.Circle
import Forge6809.Proofs.Assembly.Names
import Forge6809.Proofs.Assembly.EquateLine
import Forge6809.Proofs.Assembly.Predefinition
import Forge6809.Proofs.Assembly.Agreement
import Forge6809.Proofs.Assembly.LetterCase
import Forge6809.Proofs.Assembly.Remark
import Forge6809.Proofs.Core.Execution
import Forge6809.Proofs.Core.Frame
import Forge6809.Proofs.Core.Postbyte
import Forge6809.Proofs.Disk.Catalog
import Forge6809.Proofs.Disk.Preservation
import Forge6809.Proofs.Disk.Capacity
import Forge6809.Proofs.Disk.Allocation
import Forge6809.Proofs.Disk.Reload
import Forge6809.Proofs.Disk.Envelope
import Forge6809.Proofs.Core.Operand
import Forge6809.Proofs.Program.Listing
import Forge6809.Proofs.Program.Transport
import Forge6809.Proofs.Script.Refusal
import Forge6809.Proofs.Emulator.SourceLine
import Forge6809.Proofs.Assembly.LineEnding
import Forge6809.Proofs.Emulator.Limit
import Forge6809.Proofs.Program.Lookup
import Forge6809.Proofs.Disk.Listing
import Forge6809.Proofs.Disk.Following
import Forge6809.Proofs.Disk.Insertion
import Forge6809.Proofs.Core.Arithmetic
import Forge6809.Proofs.Core.Effect
import Forge6809.Proofs.Core.Comparison
import Forge6809.Proofs.Expr.Diagnosis
import Forge6809.Proofs.Assembly.Keyword
import Forge6809.Proofs.Disk.CanonicalName
import Forge6809.Proofs.Text.Character
import Forge6809.Proofs.Token.Matching
import Forge6809.Proofs.Token.Lossless
import Forge6809.Proofs.Expr.Balance
import Forge6809.Proofs.Core.Loading
