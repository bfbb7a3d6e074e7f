import MavPayload.Main
import MavPayload.Proofs.Codec
import MavPayload.Proofs.Layout.Build
import MavPayload.Proofs.Text.Utf8
import MavPayload.Proofs.Element
import MavPayload.Proofs.Field
import MavPayload.Proofs.Frame
import MavPayload.Proofs.Bindings
import MavPayload.Proofs.Message.Wire
import MavPayload.Proofs.Message.Reachable
import MavPayload.Proofs.Message.RoundTrip
import MavPayload.Proofs.Message.Relay
import MavPayload.Proofs.Record.Wire
import MavPayload.Proofs.Record.Agreement
import MavPayload.Proofs.Layout.Extension
import MavPayload.Proofs.Binary.Format
import MavPayload.Proofs.Decimal.Shortest
import MavPayload.Proofs.Json.Literal
import MavPayload.Proofs.Json.Number
import MavPayload.Proofs.Json.Token
import MavPayload.Proofs.Json.Printer
import MavPayload.Proofs.Json.RoundTrip
import MavPayload.Proofs.Json.Basic
import MavPayload.Proofs.Message.Json
import MavPayload.Proofs.Message.JsonRoundTrip
import MavPayload.Proofs.Registry.Run
import MavPayload.Proofs.Registry.Service
import MavPayload.Proofs.CharBuffer
import MavPayload.Proofs.Message.InPlace
import MavPayload.Proofs.Message.Invariant
import MavPayload.Proofs.Message.Slots
import MavPayload.Proofs.Message.Generations
import MavPayload.Proofs.Record.Walk
import MavPayload.Proofs.Record.RoundTrip
import MavPayload.Proofs.Record.Lockstep
import MavPayload.Proofs.Json.Validation
import MavPayload.Proofs.Message.Schema
import MavPayload.Proofs.Layout.Order
import MavPayload.Proofs.Dialect.Construction
import MavPayload.Proofs.Registry.Invariant
import MavPayload.Proofs.CommandLine.Pipe
import MavPayload.Proofs.Layout.Shortest
import MavPayload.Proofs.Message.Offsets
import MavPayload.Proofs.Message.Canonical
import MavPayload.Proofs.Layout.Refusal
import MavPayload.Proofs.Message.Assignment
import MavPayload.Proofs.Binary.Nearest
import MavPayload.Proofs.Message.Numbers
import MavPayload.Proofs.Message.Marshal
import MavPayload.Proofs.Checksum
import MavPayload.Proofs.Layout.Fingerprint
import MavPayload.Proofs.Dialect.TypeSpec
import MavPayload.Proofs.Layout.Interleaving
import MavPayload.Proofs.CommandLine.Lookup
import MavPayload.Proofs.CharBuffer.Kept
import MavPayload.Proofs.SortedMap
