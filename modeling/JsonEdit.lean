import JsonEdit.Command
import JsonEdit.Json.Basic
import JsonEdit.Json.Equality
import JsonEdit.Json.Items
import JsonEdit.Json.Members
import JsonEdit.Json.Plain
import JsonEdit.Json.Reader
import JsonEdit.Json.Reader.Fault
import JsonEdit.Json.Reader.Machine
import JsonEdit.Json.Reader.Numeral
import JsonEdit.Json.Reader.Quotation
import JsonEdit.Json.Writer
import JsonEdit.Main
import JsonEdit.Number.Basic
import JsonEdit.Number.Double
import JsonEdit.Number.Ratio
import JsonEdit.Number.Shortest
import JsonEdit.Patch.Error
import JsonEdit.Patch.Op
import JsonEdit.Patch.Plain
import JsonEdit.Patch.Run
import JsonEdit.Patch.Wire
import JsonEdit.Pointer.Basic
import JsonEdit.Pointer.Edit
import JsonEdit.Pointer.Error
import JsonEdit.Pointer.Escape
import JsonEdit.Pointer.Lookup
import JsonEdit.Pointer.Step
import JsonEdit.Pointer.Strict
import JsonEdit.Proofs.Command.Margin
import JsonEdit.Proofs.Command.Pipe
import JsonEdit.Proofs.Command.Reread
import JsonEdit.Proofs.Json.Advance
import JsonEdit.Proofs.Json.Doubles
import JsonEdit.Proofs.Json.Equality
import JsonEdit.Proofs.Json.History
import JsonEdit.Proofs.Json.Margin
import JsonEdit.Proofs.Json.Members
import JsonEdit.Proofs.Json.Outline
import JsonEdit.Proofs.Json.Plain
import JsonEdit.Proofs.Json.Read
import JsonEdit.Proofs.Json.RoundTrip
import JsonEdit.Proofs.Json.Scalars
import JsonEdit.Proofs.Json.Shape
import JsonEdit.Proofs.Json.Tokens
import JsonEdit.Proofs.Number.Ratio
import JsonEdit.Proofs.Number.Rounding
import JsonEdit.Proofs.Number.Scientific
import JsonEdit.Proofs.Number.Shortest
import JsonEdit.Proofs.Patch.Congruence
import JsonEdit.Proofs.Patch.Decode
import JsonEdit.Proofs.Patch.Distinct
import JsonEdit.Proofs.Patch.Fold
import JsonEdit.Proofs.Patch.Plain
import JsonEdit.Proofs.Patch.Provenance
import JsonEdit.Proofs.Patch.RoundTrip
import JsonEdit.Proofs.Pointer.Address
import JsonEdit.Proofs.Pointer.Alias
import JsonEdit.Proofs.Pointer.Ancestor
import JsonEdit.Proofs.Pointer.Canonical
import JsonEdit.Proofs.Pointer.Codec
import JsonEdit.Proofs.Pointer.Commute
import JsonEdit.Proofs.Pointer.Congruence
import JsonEdit.Proofs.Pointer.Conservation
import JsonEdit.Proofs.Pointer.Distinct
import JsonEdit.Proofs.Pointer.Escape
import JsonEdit.Proofs.Pointer.Factor
import JsonEdit.Proofs.Pointer.Frame
import JsonEdit.Proofs.Pointer.Grammar
import JsonEdit.Proofs.Pointer.Move
import JsonEdit.Proofs.Pointer.Place
import JsonEdit.Proofs.Pointer.Readback
import JsonEdit.Proofs.Pointer.Reorder
import JsonEdit.Proofs.Pointer.Resolve
import JsonEdit.Proofs.Pointer.Segment
import JsonEdit.Proofs.Pointer.Site
import JsonEdit.Proofs.Pointer.Strict
import JsonEdit.Proofs.Pointer.Text
import JsonEdit.Proofs.Pointer.Undo
import JsonEdit.Proofs.Text.Trim
import JsonEdit.Text.Blank
import JsonEdit.Text.Decimal
import JsonEdit.Text.Quoted
import JsonEdit.Text.Size
import JsonEdit.Text.Unprintable
