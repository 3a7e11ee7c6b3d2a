import KuzuEventBus.Engine.GraphRuns
import KuzuEventBus.Storage.TwoBackends
import KuzuEventBus.Storage.WalRuns
import KuzuEventBus.Storage.WalCuts
import KuzuEventBus.Storage.Segments
import KuzuEventBus.Storage.Lookups
import KuzuEventBus.Storage.WalTails
import KuzuEventBus.Engine.FlushCut
import KuzuEventBus.Engine.Branches
import KuzuEventBus.Engine.Replay
import KuzuEventBus.Gql.ExpandBound
import KuzuEventBus.Gql.ExistsDepth
import KuzuEventBus.Gql.MatchComplete
import KuzuEventBus.Gql.Coherence
import KuzuEventBus.Gql.ParserAccepts
import KuzuEventBus.Service.Branching
import KuzuEventBus.Service.Exclusion
import KuzuEventBus.Service.Handles
import KuzuEventBus.Service.PitrPlan
import KuzuEventBus.Service.SnapshotCut
import KuzuEventBus.Service.Timelines
import KuzuEventBus.Service.SnapshotRoundTrip
import KuzuEventBus.Service.PitrFiles
import KuzuEventBus.Service.Transactions
import KuzuEventBus.Service.QueryResults
import KuzuEventBus.Service.QueueStream
import KuzuEventBus.Service.RoundOutcome
import KuzuEventBus.Service.WalSchedules
import KuzuEventBus.Service.PitrLayout
import KuzuEventBus.Service.Checkout
import KuzuEventBus.Service.CheckoutRuns
import KuzuEventBus.Service.BaseSnapshot
import KuzuEventBus.Gql.CreatePaths
import KuzuEventBus.Gql.CreateAtomic
import KuzuEventBus.Gql.CreateGraph
import KuzuEventBus.Gql.WalkEnds
import KuzuEventBus.Gql.BreadthFirst
import KuzuEventBus.Gql.ExistsFast
import KuzuEventBus.Service.AccountUpdates
import KuzuEventBus.Service.ApiKeys
import KuzuEventBus.Service.EventStream
import KuzuEventBus.Service.BranchFailure
import KuzuEventBus.Service.Parameters
import KuzuEventBus.Service.Isolation
import KuzuEventBus.Gql.OrderBy
import KuzuEventBus.Gql.WhereAlgebra
import KuzuEventBus.Gql.OnStore
import KuzuEventBus.Gql.Projection
import KuzuEventBus.Gql.Aggregation
import KuzuEventBus.Gql.AggregateColumns
import KuzuEventBus.Gql.OrderedRows
import KuzuEventBus.Gql.LeftArrows
import KuzuEventBus.Gql.Printing
import KuzuEventBus.Gql.UndirectedHop
import KuzuEventBus.Gql.IntArith
import KuzuEventBus.Gql.WithSubst
import KuzuEventBus.Gql.WrittenBounds
import KuzuEventBus.Gql.BoundParameters
import KuzuEventBus.Engine.Records
import KuzuEventBus.Service.BranchNames
import KuzuEventBus.Sdk.Relations
import KuzuEventBus.Sdk.Rerun
import KuzuEventBus.Sdk.Filters
import KuzuEventBus.Sdk.Agreement
import KuzuEventBus.Sdk.Generated
import KuzuEventBus.Sdk.Capture
import KuzuEventBus.Service.LockOwnership
import KuzuEventBus.Service.Favorites
import KuzuEventBus.Service.QueryCatalog
import KuzuEventBus.Service.QueryStatus
import KuzuEventBus.Service.StatusRequests
import KuzuEventBus.Service.Quotas
import KuzuEventBus.Service.BranchListing
import KuzuEventBus.Service.Uploads
import KuzuEventBus.Service.PitrWindows
import KuzuEventBus.Sdk.RelationRows
import KuzuEventBus.Sdk.RelationQueries
import KuzuEventBus.Sdk.SavedEntities
import KuzuEventBus.Sdk.Evaluation
import KuzuEventBus.Sdk.LabelQueries
import KuzuEventBus.Sdk.SavedBranches
import KuzuEventBus.Gql.StoreWrites
import KuzuEventBus.Gql.RowOrder
import KuzuEventBus.Tui.LogView
import KuzuEventBus.Engine.Recovery
import KuzuEventBus.Gql.ParameterValues
