import LumoSql.ResultCodes
import LumoSql.SqliteRecordFormat
import LumoSql.RowsumAlgorithms
import LumoSql.WriteBlocks
import LumoSql.LumoExtension
import LumoSql.LumoExtensionLayout
import LumoSql.RowsumRoundTrip
import LumoSql.RowsumChecking
import LumoSql.IndexKeyTypes
import LumoSql.RowidEncoding
import LumoSql.SortedEntries
import LumoSql.StateLogic
import LumoSql.LmdbEnvironment
import LumoSql.BtreeState
import LumoSql.BtreeTransactions
import LumoSql.BtreeCursors
import LumoSql.LmdbLaws
import LumoSql.RowidTables
import LumoSql.RowidOrder
import LumoSql.VdbeOpcodes
import LumoSql.InsertedRows
import LumoSql.LumoColumnBounds
import LumoSql.LumoColumnFields
import LumoSql.LmdbSteps
import LumoSql.LmdbLifetimes
import LumoSql.SavepointLevels
import LumoSql.TransactionBegin
import LumoSql.TransactionEnd
import LumoSql.MetadataValues
import LumoSql.CallParts
import LumoSql.DataCalls
import LumoSql.MetadataCursors
import LumoSql.TransactionState
import LumoSql.WriteTransactions
import LumoSql.CommitProtocol
import LumoSql.SavepointRollback
import LumoSql.ConnectionCalls
import LumoSql.TransactionPragma
import LumoSql.ConnectionCluster
import LumoSql.CommitCounting
import LumoSql.TransactionUpgrade
import LumoSql.CommitAtomicity
import LumoSql.NestedStatements
import LumoSql.CursorSeeks
import LumoSql.LinkedLists
import LumoSql.CursorInvalidation
import LumoSql.SavedPositions
import LumoSql.CursorLists
import LumoSql.IndexInserts
import LumoSql.TclStrings
import LumoSql.BuildTargets
import LumoSql.BuildOptionText
import LumoSql.BuildTargetReplay
import LumoSql.BuildTargetLists
import LumoSql.BenchmarkFiles
import LumoSql.BenchmarkRows
import LumoSql.BenchmarkDump
import LumoSql.BenchmarkShell
import LumoSql.BenchmarkText
import LumoSql.BenchmarkRoundTrip
import LumoSql.ListInvalidation
import LumoSql.SavepointLists
import LumoSql.SavepointGaps
import LumoSql.CursorHandles
import LumoSql.CursorMemory
import LumoSql.Sessions
import LumoSql.PositionSaving
import LumoSql.RollbackTrips
import LumoSql.CursorLiveness
import LumoSql.SoundCursors
import LumoSql.CountScan
import LumoSql.BuildCurrency
import LumoSql.BuildLoop
import LumoSql.BuildVersionLists
import LumoSql.BuildStandalone
import LumoSql.LumoColumnGrammar
import LumoSql.BenchmarkSelection
import LumoSql.RowUpserts
import LumoSql.LmdbViews
import LumoSql.TableNumbers
import LumoSql.RootPages
import LumoSql.FailedBegins
import LumoSql.RowCopies
import LumoSql.HandleSafety
import LumoSql.DeadHandles
import LumoSql.MergeTrees
import LumoSql.Blake3Compression
import LumoSql.Blake3Hasher
import LumoSql.Blake3Chunks
import LumoSql.Blake3Trees
import LumoSql.KeccakPermutation
import LumoSql.Sha3Sponge
import LumoSql.Sha3Updates
import LumoSql.RowsumDigests
import LumoSql.ParallelRuns
import LumoSql.ReadIsolation
import LumoSql.SerializableTransactions
