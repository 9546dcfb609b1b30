import Concordance.Bytes.LittleEndian
import Concordance.Bytes.Utf8
import Concordance.Text.CaseIgnorable
import Concordance.Text.Cased
import Concordance.Text.DecimalDigit
import Concordance.Text.GraphemeExtend
import Concordance.Text.LowercaseTable
import Concordance.Text.Unprintable
import Concordance.Text.Uppercase
import Concordance.Text.WhiteSpace
import Concordance.Text.Case
import Concordance.Text.Split
import Concordance.Error
import Concordance.KeyHash
import Concordance.Posting
import Concordance.Index.Header
import Concordance.BlockStore.Dump
import Concordance.Analysis.Analyzer
import Concordance.Json.Printer
import Concordance.Settings
import Concordance.Field
import Concordance.Index.Builder
import Concordance.Index.Searcher
import Concordance.FileSystem.Path
import Concordance.FileSystem.Basic
import Concordance.Storage.Seek
import Concordance.Storage.Input
import Concordance.Storage.Output
import Concordance.Storage.Fault
import Concordance.Storage.Basic
import Concordance.Storage.Script
import Concordance.Index.Publication
import Concordance.Catalog
import Concordance.Command.Grammar
import Concordance.Command.Arguments
import Concordance.Command.Report
import Concordance.Command.Run
import Concordance.Main
import Concordance.Proofs.Cursors
import Concordance.Proofs.Probing
import Concordance.Proofs.StoreImage
import Concordance.Proofs.StoreReading
import Concordance.Proofs.StoreSearch
import Concordance.Proofs.StoreRoundTrip
import Concordance.Proofs.Codecs
import Concordance.Proofs.WordCounts
import Concordance.Proofs.IndexImage
import Concordance.Proofs.IndexReading
import Concordance.Proofs.Ranking
import Concordance.Proofs.IndexRoundTrip
import Concordance.Proofs.Generations
import Concordance.Proofs.Containment
import Concordance.Proofs.StoreSafety
import Concordance.Proofs.GuardedSearchers
import Concordance.Proofs.Corruption
import Concordance.Proofs.DumpGrammar
import Concordance.Proofs.DumpRoundTrip
import Concordance.Proofs.ByteOrder
import Concordance.Proofs.Lookups
import Concordance.Proofs.BuildOrder
import Concordance.Proofs.NameEndings
import Concordance.Proofs.Pendings
import Concordance.Proofs.Deliveries
import Concordance.Proofs.Persistence
import Concordance.Proofs.RouteSearch
import Concordance.Proofs.TagSearch
import Concordance.Proofs.Fingerprints
import Concordance.Proofs.StoreMaking
import Concordance.Proofs.IndexFiles
import Concordance.Proofs.Locality
import Concordance.Proofs.InputKinds
import Concordance.Proofs.StoppedWords
import Concordance.Proofs.Varints
import Concordance.Proofs.Spellings
import Concordance.Proofs.Postings
import Concordance.Proofs.Refusals
import Concordance.Proofs.Checksums
import Concordance.Proofs.Headers
import Concordance.Proofs.OutputKinds
import Concordance.Proofs.Bursts
import Concordance.Proofs.SearchStability
import Concordance.Proofs.Truncation
import Concordance.Proofs.Accounts
import Concordance.Proofs.Delimiters
import Concordance.Proofs.SearchableWords
import Concordance.Proofs.Partition
import Concordance.Proofs.CaseFolding
import Concordance.Proofs.DocumentIds
import Concordance.Proofs.OpenAddressing
import Concordance.Proofs.Directories
import Concordance.Proofs.ReadCommands
