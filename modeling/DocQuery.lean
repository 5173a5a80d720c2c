import DocQuery.Main
import DocQuery.Proofs.DirectRead
import DocQuery.Proofs.EarlyReads
import DocQuery.Session
import DocQuery.Proofs.DocumentOrder
import DocQuery.Proofs.Flattening
import DocQuery.Proofs.Pivot
import DocQuery.Proofs.JoinSurvival
import DocQuery.Proofs.JoinOrder
import DocQuery.Proofs.Suffixes
import DocQuery.Proofs.Grammar
import DocQuery.Proofs.Pruning
import DocQuery.Proofs.Rewriting
import DocQuery.Proofs.ReadSteps
import DocQuery.Proofs.Sessions
import DocQuery.Proofs.JoinSites
import DocQuery.Proofs.Routing
import DocQuery.Proofs.StageOrder
import DocQuery.Proofs.CatalogAgreement
import DocQuery.Proofs.CatalogChange
import DocQuery.Proofs.Deduplication
import DocQuery.Proofs.JoinOutputs
import DocQuery.Proofs.FieldNames
import DocQuery.Proofs.CatalogLoading
import DocQuery.Proofs.Scoping
import DocQuery.Proofs.Operations
import DocQuery.Proofs.CollapsedJoins
import DocQuery.Proofs.LogLines
import DocQuery.Proofs.LogSegments
import DocQuery.Proofs.Invocations
import DocQuery.Proofs.UnboundedVisits
import DocQuery.Proofs.RuleComposition
import DocQuery.Proofs.Resuming
import DocQuery.Proofs.KeyFields
import DocQuery.Proofs.SortRendering
import DocQuery.Proofs.UnsupportedPages
import DocQuery.Proofs.Patterns
import DocQuery.Proofs.WrittenPages
