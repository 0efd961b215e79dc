import Marshal.Adapter.Basic
import Marshal.Adapter.Dispatch
import Marshal.Adapter.Generate
import Marshal.Converter.Basic
import Marshal.Converter.Native
import Marshal.Converter.Read
import Marshal.Converter.Write
import Marshal.Error
import Marshal.Form.Basic
import Marshal.Form.Model
import Marshal.Form.Module
import Marshal.Inspect
import Marshal.Keyed.Digest
import Marshal.Keyed.Table
import Marshal.Known.Native
import Marshal.Known.Shape
import Marshal.Model.Access
import Marshal.Model.Basic
import Marshal.Model.Declaration
import Marshal.Model.Error
import Marshal.Model.Field
import Marshal.Net.Address
import Marshal.Number.Binary64
import Marshal.Number.Numeral
import Marshal.Number.Shortest
import Marshal.Plan.Catalog
import Marshal.Plan.Codec
import Marshal.Plan.Fields
import Marshal.Plan.Token
import Marshal.Proofs.Adapter.Attached
import Marshal.Proofs.Adapter.Bare
import Marshal.Proofs.Adapter.Closed
import Marshal.Proofs.Adapter.Decoding
import Marshal.Proofs.Adapter.Encoding
import Marshal.Proofs.Adapter.Enumerations
import Marshal.Proofs.Adapter.Generated
import Marshal.Proofs.Adapter.Grounded
import Marshal.Proofs.Adapter.Independence
import Marshal.Proofs.Adapter.Reordered
import Marshal.Proofs.Adapter.Unattached
import Marshal.Proofs.Adapter.Unknown
import Marshal.Proofs.Converter.Appending
import Marshal.Proofs.Converter.Assembling
import Marshal.Proofs.Converter.Containers
import Marshal.Proofs.Converter.Deciding
import Marshal.Proofs.Converter.Decoding
import Marshal.Proofs.Converter.Duplicates
import Marshal.Proofs.Converter.Dynamic
import Marshal.Proofs.Converter.Emission
import Marshal.Proofs.Converter.Encoding
import Marshal.Proofs.Converter.Entries
import Marshal.Proofs.Converter.Faults
import Marshal.Proofs.Converter.Following
import Marshal.Proofs.Converter.Forms
import Marshal.Proofs.Converter.Framing
import Marshal.Proofs.Converter.Integers
import Marshal.Proofs.Converter.Kept
import Marshal.Proofs.Converter.Keys
import Marshal.Proofs.Converter.Maps
import Marshal.Proofs.Converter.Names
import Marshal.Proofs.Converter.Natives
import Marshal.Proofs.Converter.Orderly
import Marshal.Proofs.Converter.OrderlyCodecs
import Marshal.Proofs.Converter.Parts
import Marshal.Proofs.Converter.Returning
import Marshal.Proofs.Converter.Writing
import Marshal.Proofs.Effect
import Marshal.Proofs.Following
import Marshal.Proofs.Form.Model
import Marshal.Proofs.Form.Module
import Marshal.Proofs.Form.Records
import Marshal.Proofs.Lists
import Marshal.Proofs.Model.Flags
import Marshal.Proofs.Model.Scan
import Marshal.Proofs.Net.Address
import Marshal.Proofs.Number.Characters
import Marshal.Proofs.Number.Denotation
import Marshal.Proofs.Number.Digits
import Marshal.Proofs.Number.Exact
import Marshal.Proofs.Number.Lexemes
import Marshal.Proofs.Number.Nearest
import Marshal.Proofs.Number.Rounded
import Marshal.Proofs.Number.Rounding
import Marshal.Proofs.Number.Shortest
import Marshal.Proofs.Number.Spellings
import Marshal.Proofs.Outcome
import Marshal.Proofs.Plan.Abreast
import Marshal.Proofs.Plan.Entering
import Marshal.Proofs.Plan.Getters
import Marshal.Proofs.Plan.Layout
import Marshal.Proofs.Plan.Plans
import Marshal.Proofs.Plan.Renumbered
import Marshal.Proofs.Plan.Tokens
import Marshal.Proofs.Plan.Unattached
import Marshal.Proofs.Plan.Unwrapping
import Marshal.Proofs.Registry.Attachments
import Marshal.Proofs.Registry.Bookkeeping
import Marshal.Proofs.Registry.Commits
import Marshal.Proofs.Registry.Contexts
import Marshal.Proofs.Registry.Counterparts
import Marshal.Proofs.Registry.Documents
import Marshal.Proofs.Registry.Failures
import Marshal.Proofs.Registry.History
import Marshal.Proofs.Registry.Holdings
import Marshal.Proofs.Registry.Partition
import Marshal.Proofs.Registry.Planned
import Marshal.Proofs.Registry.Recipe
import Marshal.Proofs.Registry.Required
import Marshal.Proofs.Registry.Reruns
import Marshal.Proofs.Registry.Resolvable
import Marshal.Proofs.Registry.Returning
import Marshal.Proofs.Registry.RoundTrip
import Marshal.Proofs.Registry.Run
import Marshal.Proofs.Registry.Runtime
import Marshal.Proofs.Registry.Sources
import Marshal.Proofs.Registry.Supplied
import Marshal.Proofs.Registry.Termination
import Marshal.Proofs.Registry.Twins
import Marshal.Proofs.Registry.Typed
import Marshal.Proofs.Stream.Acceptance
import Marshal.Proofs.Stream.ByteReader
import Marshal.Proofs.Stream.Calls
import Marshal.Proofs.Stream.CallsInStep
import Marshal.Proofs.Stream.Compact
import Marshal.Proofs.Stream.Dialect
import Marshal.Proofs.Stream.Documents
import Marshal.Proofs.Stream.Grammar
import Marshal.Proofs.Stream.InStep
import Marshal.Proofs.Stream.Looking
import Marshal.Proofs.Stream.Looks
import Marshal.Proofs.Stream.Mismatches
import Marshal.Proofs.Stream.Nesting
import Marshal.Proofs.Stream.Pulls
import Marshal.Proofs.Stream.QuotedInStep
import Marshal.Proofs.Stream.Safety
import Marshal.Proofs.Stream.Sequences
import Marshal.Proofs.Stream.Skip
import Marshal.Proofs.Stream.Tokens
import Marshal.Proofs.Stream.Unnoticed
import Marshal.Proofs.Stream.Within
import Marshal.Proofs.Text.Bytes
import Marshal.Proofs.Text.Escapes
import Marshal.Proofs.Text.Quoted
import Marshal.Proofs.TypeRef.Grammar
import Marshal.Proofs.TypeRef.Plain
import Marshal.Proofs.TypeRef.Reading
import Marshal.Proofs.TypeRef.Substitution
import Marshal.Proofs.TypeRef.Text
import Marshal.Proofs.Value.Equality
import Marshal.Proofs.Value.Fields
import Marshal.Proofs.Value.Identity
import Marshal.Proofs.Value.Inside
import Marshal.Proofs.Value.Lexemes
import Marshal.Proofs.Value.Typing
import Marshal.Registry.Basic
import Marshal.Registry.Source
import Marshal.Registry.Store
import Marshal.Stream.Reader
import Marshal.Stream.Writer
import Marshal.Text.Blank
import Marshal.Text.Hidden
import Marshal.Text.Quoted
import Marshal.Text.Utf8
import Marshal.Token
import Marshal.TypeRef.Basic
import Marshal.TypeRef.Text
import Marshal.Value.Basic
import Marshal.Value.Equality
import Marshal.Value.Path
import Marshal.Value.Text
