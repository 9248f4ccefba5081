import MarkdownEdits.Main
import MarkdownEdits.ConfigurationSession
import MarkdownEdits.Proofs.DocumentReplay
import MarkdownEdits.Proofs.DraftPieces
import MarkdownEdits.Proofs.DraftDocuments
import MarkdownEdits.Proofs.ConversionReplay
import MarkdownEdits.Proofs.ItemOutline
import MarkdownEdits.Proofs.OutlineRuns
import MarkdownEdits.Proofs.BulletRanges
import MarkdownEdits.Proofs.ItemEnds
import MarkdownEdits.Proofs.BulletOrder
import MarkdownEdits.Proofs.ActiveMarks
import MarkdownEdits.Proofs.LeafRuns
import MarkdownEdits.Proofs.InlineStyles
import MarkdownEdits.Proofs.StepEffects
import MarkdownEdits.Proofs.ItemLifetimes
import MarkdownEdits.Proofs.DraftBounds
import MarkdownEdits.Proofs.TokenDepths
import MarkdownEdits.Proofs.WellNestedRuns
import MarkdownEdits.Proofs.ItemMarkings
import MarkdownEdits.Proofs.BulletsInLists
import MarkdownEdits.Proofs.BulletedItems
import MarkdownEdits.Proofs.BlockOrigins
import MarkdownEdits.Proofs.EmptyRanges
import MarkdownEdits.Proofs.InlineText
import MarkdownEdits.Proofs.DocumentParts
import MarkdownEdits.Proofs.StreamPrefixes
import MarkdownEdits.Proofs.BlockRanges
import MarkdownEdits.Proofs.ItemOrigins
import MarkdownEdits.Proofs.LineStarts
import MarkdownEdits.Proofs.FirstTexts
import MarkdownEdits.Proofs.BegunLines
import MarkdownEdits.Proofs.ItemIndents
import MarkdownEdits.Proofs.ListTails
import MarkdownEdits.Proofs.TypedRecords
import MarkdownEdits.Proofs.RunFailures
import MarkdownEdits.Proofs.FlattenedStreams
import MarkdownEdits.Proofs.KeptTexts
import MarkdownEdits.Proofs.OpenStates
import MarkdownEdits.Proofs.FieldNames
import MarkdownEdits.Proofs.RelocatedRequests
import MarkdownEdits.Proofs.RecastDrafts
import MarkdownEdits.Proofs.RecastConversions
import MarkdownEdits.Proofs.RelocatedConversions
import MarkdownEdits.Proofs.TitlePromotion
import MarkdownEdits.Proofs.ConfigurationLifecycle
import MarkdownEdits.Proofs.ConfiguredConversions
import MarkdownEdits.Proofs.BulletGroups
import MarkdownEdits.Proofs.TextConversions
import MarkdownEdits.Proofs.FormattingHistories
import MarkdownEdits.Proofs.NearestNumbers
import MarkdownEdits.Proofs.NumeralSpellings
import MarkdownEdits.Proofs.ReadNumerals
import MarkdownEdits.Proofs.CheckedSpacings
import MarkdownEdits.Proofs.HexColors
