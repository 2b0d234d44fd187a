import WriteGuard.Command.Run
import WriteGuard.Main
import WriteGuard.Proofs.MergeFix
import WriteGuard.Proofs.MergeInsertion
import WriteGuard.Proofs.PayloadWalk
import WriteGuard.Proofs.Shadowing
import WriteGuard.Server.Session
import WriteGuard.Proofs.CallNodes
import WriteGuard.Proofs.DistinctReports
import WriteGuard.Proofs.SuggestionPlaces
import WriteGuard.Proofs.EditorPositions
import WriteGuard.Proofs.LintSelection
import WriteGuard.Proofs.ObjectNarrowing
import WriteGuard.Proofs.LayeredSettings
import WriteGuard.Proofs.PathNames
import WriteGuard.Proofs.DiskPaths
import WriteGuard.Proofs.SettingsSearch
import WriteGuard.Proofs.Readings
import WriteGuard.Proofs.SlashLexemes
import WriteGuard.Proofs.QuotedPlaces
import WriteGuard.Proofs.PlainRules
import WriteGuard.Proofs.PlainGrammar
import WriteGuard.Proofs.DirectivePlaces
import WriteGuard.Proofs.ShownReports
import WriteGuard.Proofs.OfferTransport
import WriteGuard.Proofs.OpenDocuments
import WriteGuard.Server.Handlers
import WriteGuard.Proofs.OverlappingHandlers
import WriteGuard.Proofs.Addresses
import WriteGuard.Proofs.ClosedDocuments
import WriteGuard.Proofs.DeclarationSites
import WriteGuard.Proofs.DecidingScope
import WriteGuard.Proofs.LoopHeads
import WriteGuard.Proofs.CallOrder
import WriteGuard.Proofs.TokenSelection
import WriteGuard.Proofs.NestedExpressions
import WriteGuard.Proofs.WholeReading
import WriteGuard.Proofs.DepthLimits
import WriteGuard.Proofs.DirectiveGrammar
import WriteGuard.Proofs.WrittenDirectives
import WriteGuard.Proofs.LineColumns
import WriteGuard.Proofs.LinePieces
import WriteGuard.Proofs.LinePreviews
import WriteGuard.Proofs.LintEntries
import WriteGuard.Proofs.LintTables
import WriteGuard.Proofs.Underlines
import WriteGuard.Proofs.BuildCommands
import WriteGuard.Proofs.PatternNames
import WriteGuard.Proofs.CursorWalk
