import SheetTemplate.Main
import SheetTemplate.Proofs.ColumnLetters
import SheetTemplate.Proofs.ReferenceRoundTrip
import SheetTemplate.Proofs.CellContents
import SheetTemplate.Proofs.CellSteps
import SheetTemplate.Proofs.DeclaredSpans
import SheetTemplate.Proofs.DefinedNames
import SheetTemplate.Proofs.MergedRegions
import SheetTemplate.Proofs.OtherSheetNames
import SheetTemplate.Proofs.RowLayout
import SheetTemplate.Proofs.RowNumbers
import SheetTemplate.Proofs.TableRanges
import SheetTemplate.Proofs.RegionOverlap
import SheetTemplate.Proofs.GeneratedRows
import SheetTemplate.Proofs.GeneratedColumns
import SheetTemplate.Proofs.MarkupTokens
import SheetTemplate.Proofs.MarkupRoundTrip
import SheetTemplate.Proofs.TwinPasses
import SheetTemplate.Proofs.FailedPasses
import SheetTemplate.Proofs.AlikeParts
import SheetTemplate.Proofs.StringsReadBack
import SheetTemplate.Proofs.ReadMarkup
import SheetTemplate.Proofs.SessionParts
import SheetTemplate.Proofs.ReopenedSession
import SheetTemplate.Proofs.PassSimulation
import SheetTemplate.Proofs.FurtherStrings
import SheetTemplate.Proofs.PassChanges
import SheetTemplate.Proofs.PlainPasses
import SheetTemplate.Proofs.PartNames
import SheetTemplate.Proofs.SessionPasses
import SheetTemplate.Proofs.ClosedPackages
import SheetTemplate.Proofs.AddedRelationships
import SheetTemplate.Proofs.RewrittenParts
import SheetTemplate.Proofs.SecondPass
import SheetTemplate.Proofs.FreshParts
import SheetTemplate.Proofs.UntouchedParts
import SheetTemplate.Proofs.AnchorMoves
import SheetTemplate.Proofs.AsciiUnits
import SheetTemplate.Proofs.PicturePlaces
import SheetTemplate.Proofs.DeclaredPrefixes
import SheetTemplate.Proofs.RowContents
import SheetTemplate.Proofs.PrefixesDeclared
import SheetTemplate.Proofs.ShownPictures
import SheetTemplate.Proofs.PicturesFound
import SheetTemplate.Proofs.ErrorPolicies
import SheetTemplate.Proofs.PrintRanges
import SheetTemplate.Proofs.RegionLookups
import SheetTemplate.Proofs.PictureSizes
import SheetTemplate.Proofs.DeclaredExtents
import SheetTemplate.Proofs.CodeEscapes
import SheetTemplate.Proofs.Splicing
import SheetTemplate.Proofs.SingleItemLists
import SheetTemplate.Proofs.ReferencesInside
import SheetTemplate.Proofs.ReferenceGrammar
import SheetTemplate.Proofs.QuotedNames
import SheetTemplate.Proofs.CopiedCells
import SheetTemplate.Proofs.PlaceholderRoundTrip
import SheetTemplate.Proofs.StringSlots
import SheetTemplate.Proofs.RepeatedInsertions
import SheetTemplate.Proofs.EmbeddedPictures
import SheetTemplate.Proofs.PercentEscapes
import SheetTemplate.Proofs.LinkTargets
import SheetTemplate.Proofs.SavedStrings
import SheetTemplate.Proofs.EncodedTargets
import SheetTemplate.Proofs.RelativeTargets
import SheetTemplate.Proofs.SchemaOrder
import SheetTemplate.Proofs.ShownValues
