import RestSql.Main
import RestSql.Proofs.PlanReuse
import RestSql.Proofs.KeptRows
import RestSql.Proofs.SentBody
import RestSql.Proofs.StatementEnds
import RestSql.Proofs.StringLiterals
import RestSql.Proofs.Pages
import RestSql.Proofs.Transactions
import RestSql.Proofs.Visits
import RestSql.Proofs.Watching
import RestSql.Proofs.Addresses
import RestSql.Proofs.Planning
import RestSql.Proofs.SignIn
import RestSql.Proofs.FailedPlans
import RestSql.Proofs.DryRuns
import RestSql.Proofs.Explanations
import RestSql.Proofs.Descriptions
import RestSql.Proofs.Conformance
import RestSql.Proofs.ReadableColumns
import RestSql.Proofs.RequiredParameters
import RestSql.Proofs.BadDocuments
import RestSql.Proofs.Exchanges
import RestSql.Proofs.Downloads
import RestSql.Proofs.KeyFiles
import RestSql.Proofs.ActiveCredentials
import RestSql.Proofs.RequiredFields
import RestSql.Proofs.ShownResults
import RestSql.Proofs.BareNames
import RestSql.Proofs.FilledTemplates
import RestSql.Proofs.TemplateAddresses
import RestSql.Proofs.CellOrder
import RestSql.Proofs.Patterns
import RestSql.Proofs.ShellTurns
import RestSql.Proofs.SettingDocuments
import RestSql.Proofs.BodyLevels
import RestSql.Proofs.AnyValues
import RestSql.Proofs.Placement
import RestSql.Proofs.TextFields
import RestSql.Proofs.FieldSearch
import RestSql.Proofs.DottedPaths
import RestSql.Proofs.Substitution
import RestSql.Proofs.HostTexts
import RestSql.Proofs.WebAddresses
import RestSql.Proofs.PageTokens
import RestSql.Proofs.Comparisons
import RestSql.Proofs.IntegerComparisons
import RestSql.Proofs.SelectedColumns
import RestSql.Proofs.ExpressionTexts
import RestSql.Proofs.JoinedStatements
import RestSql.Proofs.StrippedTexts
import RestSql.Proofs.FlattenedResources
import RestSql.Proofs.ShortestDigits
import RestSql.Proofs.DisplayedMeaning
import RestSql.Proofs.ReadRecords
import RestSql.Proofs.TokenReuse
import RestSql.Proofs.TemplateColumns
import RestSql.Proofs.WrittenNames
import RestSql.Proofs.ServiceIds
import RestSql.Proofs.Lifetimes
import RestSql.Proofs.SchemaWalks
import RestSql.Proofs.ErrorPlaces
