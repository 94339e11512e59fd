import SchemaLint.Main
import SchemaLint.Sdl.Draft
import SchemaLint.Proofs.Sdl.Path
import SchemaLint.Proofs.Selection
import SchemaLint.Proofs.Sdl.Order
import SchemaLint.Proofs.Sdl.Likeness
import SchemaLint.Proofs.Sdl.Thinning
import SchemaLint.Proofs.CommentLines
import SchemaLint.Proofs.DocumentOrder
import SchemaLint.Proofs.CleanSchema
import SchemaLint.Proofs.LineBounds
import SchemaLint.Proofs.Sdl.Thickening
import SchemaLint.Proofs.ParseFailure
import SchemaLint.Proofs.Sdl.BlockString
import SchemaLint.Proofs.AlikeDocuments
import SchemaLint.Proofs.CommentInsertion
import SchemaLint.Proofs.BlankedLines
import SchemaLint.Proofs.RunTotals
import SchemaLint.Proofs.Provenance
import SchemaLint.Proofs.InertSuppressions
import SchemaLint.Proofs.Sdl.NameTokens
import SchemaLint.Proofs.NamePlaces
import SchemaLint.Proofs.DefinitionOrder
import SchemaLint.Proofs.ByteOrder
import SchemaLint.Proofs.Discovery
import SchemaLint.Proofs.ExitCode
import SchemaLint.Proofs.Sdl.Reads
import SchemaLint.Proofs.Sdl.DraftWords
import SchemaLint.Proofs.DraftRoundTrip
import SchemaLint.Proofs.ReferenceLines
import SchemaLint.Proofs.DirectiveVerdicts
import SchemaLint.Proofs.DirectiveLines
import SchemaLint.Proofs.UnusedTypes
import SchemaLint.Proofs.MemberOrder
import SchemaLint.Proofs.CopiedSuppressions
import SchemaLint.Proofs.Number.Rounding
import SchemaLint.Proofs.Percentages
import SchemaLint.Proofs.EditDistance
import SchemaLint.Proofs.EnumSuggestions
import SchemaLint.Proofs.LineNumbers
import SchemaLint.Proofs.EventLog
import SchemaLint.Proofs.EnumIdentifiers
import SchemaLint.Proofs.TerminalReport
import SchemaLint.Proofs.BlankedPositions
import SchemaLint.Proofs.Config.Fields
import SchemaLint.Proofs.Config.Places
import SchemaLint.Proofs.Config.Variants
import SchemaLint.Proofs.Config.RoundTrip
import SchemaLint.Proofs.KeptLines
import SchemaLint.Proofs.Occurrences
import SchemaLint.Proofs.Ancestors
import SchemaLint.Proofs.ProjectRoot
