import OpMove.Arguments
import OpMove.SolidityAbi
import OpMove.CommandRuns
import OpMove.CallSequences
import OpMove.Deposits
import OpMove.FailedTransactions
import OpMove.EthSupply
import OpMove.ExactFees
import OpMove.GasPrices
import OpMove.BlockStore
import OpMove.DrainOrder
import OpMove.Forkchoice
import OpMove.Hex
import OpMove.Queries
import OpMove.ServedPayloads
import OpMove.TrieRefinement
import OpMove.PastAnswers
import OpMove.AbiRoundTrip
import OpMove.Barrier
import OpMove.AssetSupply
import OpMove.AccountProofs
import OpMove.DatabaseBuilds
import OpMove.Interruptions
import OpMove.Backends
import OpMove.BackendAgreement
import OpMove.Tables
import OpMove.ArgumentErrors
import OpMove.FeeFormulas
import OpMove.BaseFeeRuns
import OpMove.CheckedArguments
import OpMove.PayloadRoundTrip
import OpMove.ReceiptAccounts
import OpMove.RevertedCalls
import OpMove.VectorContainers
import OpMove.BcsRoundTrip
import OpMove.EvmLogs
import OpMove.HashedStores
import OpMove.StagedTries
import OpMove.StorageSessions
import OpMove.OpenTries
import OpMove.SafeDeposits
import OpMove.HandledErrors
import OpMove.TreasuryRefunds
import OpMove.UserTransactions
import OpMove.Publication
import OpMove.Server
import OpMove.PersistentTries
import OpMove.PrimaryStores
import OpMove.GenesisAccounts
import OpMove.GenesisImage
