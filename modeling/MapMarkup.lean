import MapMarkup.Main
import MapMarkup.Proofs.ActiveDescendants
import MapMarkup.Proofs.Ancestry
import MapMarkup.Proofs.AttributeOrder
import MapMarkup.Proofs.Blame
import MapMarkup.Proofs.CharacterNumbers
import MapMarkup.Proofs.Children
import MapMarkup.Proofs.CleanExtents
import MapMarkup.Proofs.ClosingTags
import MapMarkup.Proofs.DocumentReferences
import MapMarkup.Proofs.Documents
import MapMarkup.Proofs.EntityDeclarations
import MapMarkup.Proofs.EntityReferences
import MapMarkup.Proofs.ErrorPlaces
import MapMarkup.Proofs.Expansion
import MapMarkup.Proofs.ExpansionSizes
import MapMarkup.Proofs.ExtentErrors
import MapMarkup.Proofs.Failures
import MapMarkup.Proofs.Files
import MapMarkup.Proofs.Findings
import MapMarkup.Proofs.InputTypes
import MapMarkup.Proofs.LeadingLineFeeds
import MapMarkup.Proofs.Lexing
import MapMarkup.Proofs.LinePlaces
import MapMarkup.Proofs.LineTables
import MapMarkup.Proofs.Lines
import MapMarkup.Proofs.MalformedPlaces
import MapMarkup.Proofs.Normalization
import MapMarkup.Proofs.OpenRecords
import MapMarkup.Proofs.Passages
import MapMarkup.Proofs.PlaceCounting
import MapMarkup.Proofs.Placeholders
import MapMarkup.Proofs.QueryLinks
import MapMarkup.Proofs.ReferencePlaces
import MapMarkup.Proofs.RelationTokens
import MapMarkup.Proofs.RepeatedAttributes
import MapMarkup.Proofs.Rereading
import MapMarkup.Proofs.Resets
import MapMarkup.Proofs.Respelling
import MapMarkup.Proofs.Reuse
import MapMarkup.Proofs.RootElement
import MapMarkup.Proofs.Scopes
import MapMarkup.Proofs.SelectedOptions
import MapMarkup.Proofs.Spans
import MapMarkup.Proofs.Splitting
import MapMarkup.Proofs.StartHints
import MapMarkup.Proofs.StyleElements
import MapMarkup.Proofs.StyleRequests
import MapMarkup.Proofs.Substitution
import MapMarkup.Proofs.Subtrees
import MapMarkup.Proofs.TagEnds
import MapMarkup.Proofs.TemplateScope
import MapMarkup.Proofs.TemplateVariables
import MapMarkup.Proofs.UnclosedReferences
import MapMarkup.Proofs.VariableWindows
