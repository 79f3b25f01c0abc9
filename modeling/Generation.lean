import Generation.Text.Quoted
import Generation.Text.EditDistance
import Generation.Decimal.Numeral
import Generation.Decimal.Shortest
import Generation.Json.Skip
import Generation.Settings.Basic
import Generation.Settings.Reader
import Generation.Preset
import Generation.Request
import Generation.Settings.Report
import Generation.Path
import Generation.Disk.Guard
import Generation.Settings.Store
import Generation.Settings.Edit
import Generation.Log.Filter
import Generation.Main
import Generation.Proofs.Text.Encoding
import Generation.Proofs.Json.Strings
import Generation.Proofs.Decimal.Digits
import Generation.Proofs.Json.Order
import Generation.Proofs.Json.Numbers
import Generation.Proofs.Json.RoundTrip
import Generation.Proofs.Except
import Generation.Proofs.Json.Parsed
import Generation.Proofs.Schema.Acceptance
import Generation.Proofs.Schema.Trees
import Generation.Proofs.Schema.Conformance
import Generation.Proofs.Schema.Recompilation
import Generation.Proofs.Schema.Stability
import Generation.Proofs.Decimal.Rounding
import Generation.Proofs.Decimal.ReadBack
import Generation.Proofs.Settings.Codec
import Generation.Proofs.Settings.Lenient
import Generation.Proofs.Json.Passing
import Generation.Proofs.Settings.Loading
import Generation.Proofs.Disk.Places
import Generation.Proofs.Disk.Removal
import Generation.Proofs.Disk.Replacement
import Generation.Proofs.Disk.Machine
import Generation.Proofs.Settings.Saving
import Generation.Proofs.Json.Reals
import Generation.Proofs.Settings.Reachable
import Generation.Proofs.Settings.Document
import Generation.Proofs.Settings.Persistence
import Generation.Proofs.Settings.Changes
import Generation.Proofs.Options.Flags
import Generation.Proofs.Settings.Validity
import Generation.Proofs.Settings.Held
import Generation.Proofs.CommandLine.Sessions
import Generation.Proofs.Json.Grammar
import Generation.Proofs.Json.Settled
import Generation.Proofs.Json.Spelling
import Generation.Proofs.Json.Limits
import Generation.Proofs.Json.Frames
import Generation.Proofs.Settings.Isolation
import Generation.Proofs.Disk.Files
import Generation.Proofs.Disk.Guarded
import Generation.Proofs.Settings.Sparing
import Generation.Proofs.CommandLine.Files
import Generation.Proofs.CommandLine.Words
import Generation.Proofs.CommandLine.FlagValues
import Generation.Proofs.Options.Sampling
import Generation.Proofs.Settings.Edits
import Generation.Proofs.Schema.Injectivity
import Generation.Proofs.Schema.Headings
import Generation.Proofs.Schema.Rewriting
import Generation.Proofs.Settings.Listing
import Generation.Proofs.Schema.Hidden
import Generation.Proofs.Settings.Presets
import Generation.Proofs.Settings.Suggestion
import Generation.Proofs.Schema.Lookup
import Generation.Proofs.Text.Pieces
import Generation.Proofs.Disk.Tilde
import Generation.Proofs.Decimal.Numerals
import Generation.Proofs.Settings.ToolLists
import Generation.Proofs.Settings.WholeNumbers
import Generation.Proofs.Json.NumberTexts
import Generation.Proofs.Settings.Decoding
