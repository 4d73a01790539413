import QueryTelemetry.Run
import QueryTelemetry.Proofs.Gather
import QueryTelemetry.Proofs.Sorting
import QueryTelemetry.Proofs.Tally
import QueryTelemetry.Proofs.History
import QueryTelemetry.Proofs.Facts
import QueryTelemetry.Proofs.Entries
import QueryTelemetry.Proofs.Join
import QueryTelemetry.Proofs.Rollup
import QueryTelemetry.Proofs.Ranking
import QueryTelemetry.Proofs.Slowest
import QueryTelemetry.Proofs.Arrival
import QueryTelemetry.Proofs.Outcomes
import QueryTelemetry.Proofs.Callbacks
import QueryTelemetry.Proofs.Relevance
import QueryTelemetry.Proofs.Legible
import QueryTelemetry.Proofs.Interleaving
import QueryTelemetry.Proofs.Pool
import QueryTelemetry.Proofs.Scopes
import QueryTelemetry.Proofs.Balance
import QueryTelemetry.Proofs.Escapes
import QueryTelemetry.Proofs.Numerals
import QueryTelemetry.Proofs.Nearest
import QueryTelemetry.Proofs.Decimals
import QueryTelemetry.Proofs.Spelling
import QueryTelemetry.Proofs.Printing
import QueryTelemetry.Proofs.Documents
import QueryTelemetry.Proofs.ReportFile
import QueryTelemetry.Proofs.Places
import QueryTelemetry.Proofs.Spared
import QueryTelemetry.Proofs.Manifests
import QueryTelemetry.Proofs.RunEntries
import QueryTelemetry.Proofs.ManifestHistory
import QueryTelemetry.Proofs.Retention
import QueryTelemetry.Proofs.Integers
import QueryTelemetry.Proofs.Grammar
import QueryTelemetry.Proofs.Faults
import QueryTelemetry.Proofs.Decoding
import QueryTelemetry.Proofs.Mappings
import QueryTelemetry.Proofs.Compact
import QueryTelemetry.Proofs.Blocks
import QueryTelemetry.Proofs.Sketches
import QueryTelemetry.Proofs.Tables
import QueryTelemetry.Proofs.Exports
import QueryTelemetry.Proofs.Lookups
import QueryTelemetry.Proofs.Nesting
import QueryTelemetry.Proofs.Conservation
import QueryTelemetry.Proofs.Parsed
import QueryTelemetry.Proofs.Appending
import QueryTelemetry.Proofs.Respelling
import QueryTelemetry.Proofs.Clashes
import QueryTelemetry.Proofs.Cells
import QueryTelemetry.Proofs.Folders
import QueryTelemetry.Proofs.Refusals
import QueryTelemetry.Proofs.Heap
import QueryTelemetry.Proofs.Columnar
import QueryTelemetry.Proofs.Stores
import QueryTelemetry.Proofs.Overflow
import QueryTelemetry.Proofs.Objects
import QueryTelemetry.Proofs.Detached
import QueryTelemetry.Proofs.Listings
import QueryTelemetry.Proofs.Variables
import QueryTelemetry.Proofs.BoardSizes
