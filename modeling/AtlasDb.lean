import AtlasDb.Governance.Tampering
import AtlasDb.Governance.Retries
import AtlasDb.Parsing.MergeStructure
import AtlasDb.Analysis.BoundaryPaths
import AtlasDb.Analysis.LoopSummaries
import AtlasDb.Semantics.Survival
import AtlasDb.Semantics.BooleanShell
import AtlasDb.Semantics.Windows
import AtlasDb.Semantics.Nullness
import AtlasDb.Semantics.TenantRows
import AtlasDb.Semantics.Preconditions
import AtlasDb.Semantics.DefinitionAgreement
import AtlasDb.Semantics.Scopes
import AtlasDb.Semantics.Containment
import AtlasDb.Decision.Evaluator
import AtlasDb.Fixtures.Teardown
import AtlasDb.Fixtures.BoundaryValues
import AtlasDb.Runtime.Executor
import AtlasDb.Runtime.Literals
import AtlasDb.Runtime.Falsifier
import AtlasDb.Runtime.IfcidDerivation
import AtlasDb.Dialects.SingleStatements
import AtlasDb.Catalog.Reports
import AtlasDb.Graph.Neighborhood
import AtlasDb.Graph.Ingestion
import AtlasDb.Bdd.RoundTrip
import AtlasDb.Bdd.Unambiguous
import AtlasDb.Dialects.DefUse
import AtlasDb.Catalog.TypeResolution
import AtlasDb.Dialects.ClpLexer
import AtlasDb.Semantics.HandlerChoice
import AtlasDb.Dialects.VariableAccess
import AtlasDb.Analysis.DominanceWalk
import AtlasDb.Semantics.BundleOrdering
import AtlasDb.Fixtures.Ordering
import AtlasDb.Composition.Inference
