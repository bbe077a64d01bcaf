import ZkCommand.CommandLine.Run
import ZkCommand.Command.Memo
import ZkCommand.Edit
import ZkCommand.Proofs.Radix
import ZkCommand.Proofs.Base58.Exact
import ZkCommand.Main
import ZkCommand.Proofs.Reading.Basic
import ZkCommand.Proofs.Reading.Tables
import ZkCommand.Proofs.Reading.Meaning
import ZkCommand.Proofs.Reading.Record
import ZkCommand.Proofs.Transcode.Exact
import ZkCommand.Proofs.Reading.UnknownKeys
import ZkCommand.Proofs.Transcode.UnknownKeys
import ZkCommand.Proofs.Relaxed.Grammar
import ZkCommand.Proofs.Relaxed.Lexemes
import ZkCommand.Proofs.Relaxed.Strict
import ZkCommand.Proofs.Json.Scalars
import ZkCommand.Proofs.Json.Values
import ZkCommand.Proofs.Relaxed.Reading
import ZkCommand.Proofs.Decimal
import ZkCommand.Proofs.Json.Printed
import ZkCommand.Proofs.Command.Plain
import ZkCommand.Proofs.Leaf.Printed
import ZkCommand.Proofs.Reading.Reread
import ZkCommand.Proofs.Reading.Labels
import ZkCommand.Proofs.Transcode.Canonical
import ZkCommand.Proofs.Transcode.Shapes
import ZkCommand.Proofs.Transcode.Diagnostics
import ZkCommand.Proofs.Command.WellFormed
import ZkCommand.Proofs.Transcode.WellFormed
import ZkCommand.Proofs.Reading.Reordered
import ZkCommand.Proofs.Transcode.Reordered
import ZkCommand.Proofs.Transcode.Levels
import ZkCommand.Proofs.Reading.Places
import ZkCommand.Proofs.Transcode.Updates
import ZkCommand.Proofs.Command.Faithful
import ZkCommand.Proofs.Fingerprint
import ZkCommand.Proofs.Text.Embedded
import ZkCommand.Proofs.Literal.Legible
import ZkCommand.Proofs.Transcode.Faults
import ZkCommand.Proofs.Witness.Exact
import ZkCommand.Proofs.Witness.Reference
import ZkCommand.Proofs.Witness.Compare
import ZkCommand.Proofs.Witness.Faults
import ZkCommand.Proofs.Witness.Printed
import ZkCommand.Proofs.CommandLine.Exits
import ZkCommand.Proofs.CommandLine.Settings
import ZkCommand.Proofs.Relaxed.Comments
import ZkCommand.Proofs.Literal.Laid
import ZkCommand.Proofs.Literal.Exact
import ZkCommand.Proofs.Literal.Writer
import ZkCommand.Proofs.Transcode.Variants
import ZkCommand.Proofs.Json.Spelled
import ZkCommand.Proofs.Relaxed.Emitted
import ZkCommand.Proofs.Relaxed.Commas
import ZkCommand.Proofs.Transcode.Absent
import ZkCommand.Proofs.Leaf.Integers
import ZkCommand.Proofs.Leaf.Hashes
import ZkCommand.Proofs.Reading.Slots
import ZkCommand.Proofs.Relaxed.Turns
import ZkCommand.Proofs.Relaxed.Openers
import ZkCommand.Proofs.Relaxed.Positions
import ZkCommand.Proofs.Transcode.Ignored
import ZkCommand.Proofs.Relaxed.Lookahead
import ZkCommand.Proofs.Transcode.Paths
