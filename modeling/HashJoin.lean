import HashJoin.CSVParser
import HashJoin.CSVSplit
import HashJoin.CSVEncode
import HashJoin.CSVRecords
import HashJoin.ThreadPool
import HashJoin.FilterThreadPool
import HashJoin.Lib.Bytes
import HashJoin.Lib.Chunks
import HashJoin.Plan
import HashJoin.TableCache
import HashJoin.PageFormat
import HashJoin.FromColumnar
import HashJoin.ToColumnar
import HashJoin.ToColumnarProof
import HashJoin.ColumnInserter
import HashJoin.ColumnInserterProof
import HashJoin.Value
import HashJoin.Scan
import HashJoin.Materialize
import HashJoin.StringDeref
import HashJoin.StringRefs
import HashJoin.Int32Column
import HashJoin.MaterializeProof
import HashJoin.Rescan
import HashJoin.Lib.Interleave
import HashJoin.Lib.Buckets
import HashJoin.Lib.TaggedWord
import HashJoin.Hash
import HashJoin.Alloc
import HashJoin.HashTable
import HashJoin.PartitionProof
import HashJoin.Lib.IntrusiveList
import HashJoin.SlabLinks
import HashJoin.SlabProof
import HashJoin.PostProcessProof
import HashJoin.HashTableProof
import HashJoin.TableSizing
import HashJoin.DirectoryProof
import HashJoin.Lib.Owners
import HashJoin.ArenaDemand
import HashJoin.Lib.Relational
import HashJoin.Join
import HashJoin.JoinProof
import HashJoin.Execute
import HashJoin.ExecuteProof
import HashJoin.Int32Plan
import HashJoin.TypedPlan
import HashJoin.Lib.Double
import HashJoin.Statement
import HashJoin.Lib.Regex
import HashJoin.LikeMatch
import HashJoin.InnerColumn
import HashJoin.InnerColumnProof
import HashJoin.FilterProof
import HashJoin.Lib.Kleene
import HashJoin.FilterNull
import HashJoin.IntCompare
import HashJoin.PrettyPrint
import HashJoin.PrettyPrintProof
import HashJoin.FromClause
import HashJoin.ParseExpr
import HashJoin.WhereClause
import HashJoin.ParseExprProof
import HashJoin.ParseSQL
import HashJoin.LoadPipeline
import HashJoin.LoadPipelineProof
import HashJoin.Lib.UnionFind
import HashJoin.JoinUnion
import HashJoin.JoinConditions
import HashJoin.EnforcedJoins
import HashJoin.DisjointSets
import HashJoin.ColumnInserter64
import HashJoin.MaterializeThreads
import HashJoin.FromCSV
import HashJoin.FromCSVProof
import HashJoin.CSVTable
import HashJoin.LoadCSV
import HashJoin.QueryAnswer
import HashJoin.RunQuery
import HashJoin.Lib.Sorting
import HashJoin.CompareResults
import HashJoin.CacheFiles
import HashJoin.PlanAccepted
import HashJoin.Lib.Progress
import HashJoin.ThreadPoolProgress
import HashJoin.FilterThreadPoolProgress
import HashJoin.ColumnOwnership
import HashJoin.Lib.PoolTrace
import HashJoin.PoolSchedules
import HashJoin.JoinGraph
import HashJoin.ExecutedSQL
