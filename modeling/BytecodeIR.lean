import BytecodeIR.Code.Check
import BytecodeIR.Code.Codec.Class
import BytecodeIR.Code.Listing
import BytecodeIR.Conversion.Class
import BytecodeIR.Dump.Codec
import BytecodeIR.Hierarchy
import BytecodeIR.Lifting
import BytecodeIR.Service.Stream
import BytecodeIR.Settings.Codec
import BytecodeIR.Settings.Toml
import BytecodeIR.Proofs.Conversion.Label
import BytecodeIR.Proofs.Conversion.Statement
import BytecodeIR.Proofs.Dump.Operand
import BytecodeIR.Proofs.Dump.WellFormed
import BytecodeIR.Proofs.Conversion.Body
import BytecodeIR.Proofs.Code.Check
import BytecodeIR.Proofs.Conversion.Structure
import BytecodeIR.Proofs.Conversion.Consistency
import BytecodeIR.Proofs.Code.Attribute
import BytecodeIR.Proofs.Conversion.Acceptance
import BytecodeIR.Proofs.Conversion.Phi
import BytecodeIR.Proofs.Decimal.Layout
import BytecodeIR.Proofs.Json.Numeral
import BytecodeIR.Proofs.Json.Text
import BytecodeIR.Proofs.Json.Order
import BytecodeIR.Proofs.Json.Decoder
import BytecodeIR.Proofs.Json.Record
import BytecodeIR.Proofs.Code.Codec.Value
import BytecodeIR.Proofs.Code.Codec.Class
import BytecodeIR.Proofs.Json.Nesting
import BytecodeIR.Proofs.Files.Tree
import BytecodeIR.Proofs.Lifting
import BytecodeIR.Proofs.Service.Transport
import BytecodeIR.Proofs.Service.Frame
import BytecodeIR.Proofs.Service.Request
import BytecodeIR.Proofs.Service.Session
import BytecodeIR.Proofs.Code.Codec.Nesting
import BytecodeIR.Proofs.Conversion.Values
import BytecodeIR.Proofs.Conversion.Reals
import BytecodeIR.Proofs.Dump.Codec
import BytecodeIR.Proofs.Reloading
import BytecodeIR.Proofs.Text.Encoding
import BytecodeIR.Proofs.Json.Compact
import BytecodeIR.Proofs.Json.Line
import BytecodeIR.Proofs.Service.Stream
import BytecodeIR.Proofs.Code.Sources
import BytecodeIR.Proofs.Conversion.Sources
import BytecodeIR.Proofs.Dump.Renaming
import BytecodeIR.Proofs.Conversion.Failure
import BytecodeIR.Proofs.Conversion.Renaming
import BytecodeIR.Proofs.Conversion.Unlisted
import BytecodeIR.Proofs.Code.Sorts
import BytecodeIR.Proofs.Conversion.Sorts
import BytecodeIR.Proofs.Conversion.Program
import BytecodeIR.Proofs.Lifting.Whole
import BytecodeIR.Proofs.Hierarchy
import BytecodeIR.Proofs.Hierarchy.Levels
import BytecodeIR.Proofs.Dump.RoundTrip
import BytecodeIR.Proofs.Code.Codec.Canonical
import BytecodeIR.Proofs.Service.Rendering
import BytecodeIR.Proofs.Lifting.Single
import BytecodeIR.Proofs.Conversion.Constant
import BytecodeIR.Proofs.Conversion.Switch
import BytecodeIR.Proofs.Service.Splitting
import BytecodeIR.Proofs.Decimal.Literal
import BytecodeIR.Proofs.Text.Line
import BytecodeIR.Proofs.Code.Words
import BytecodeIR.Proofs.Code.Listing
import BytecodeIR.Proofs.Conversion.Numbering
import BytecodeIR.Proofs.Conversion.Dialects
import BytecodeIR.Proofs.Dump.Clearing
import BytecodeIR.Proofs.Conversion.Clearing
import BytecodeIR.Proofs.Settings.Libraries
import BytecodeIR.Proofs.Settings.ClassPath
