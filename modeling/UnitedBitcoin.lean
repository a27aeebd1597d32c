import UnitedBitcoin.Library.AListFold
import UnitedBitcoin.Library.EStateRules
import UnitedBitcoin.Library.OrderedMap
import UnitedBitcoin.Library.Radix
import UnitedBitcoin.Library.BinaryCounter
import UnitedBitcoin.Library.DupMerkle
import UnitedBitcoin.Library.Limbs
import UnitedBitcoin.Library.BitPlanes
import UnitedBitcoin.Library.PolyRem
import UnitedBitcoin.Library.BitPack
import UnitedBitcoin.Json.Value
import UnitedBitcoin.JsonDiff.Helper
import UnitedBitcoin.JsonDiff.Diff
import UnitedBitcoin.Primitives.Transaction
import UnitedBitcoin.Primitives.Serialize
import UnitedBitcoin.Primitives.Base58
import UnitedBitcoin.Primitives.Bech32
import UnitedBitcoin.Primitives.ArithUint256
import UnitedBitcoin.Consensus.Merkle
import UnitedBitcoin.Consensus.Pow
import UnitedBitcoin.Consensus.Compact
import UnitedBitcoin.Consensus.Subsidy
import UnitedBitcoin.Chain.SkipList
import UnitedBitcoin.Chain.VersionBits
import UnitedBitcoin.Script.Interpreter
import UnitedBitcoin.Net.RollingBloom
import UnitedBitcoin.Script.ScriptNum
import UnitedBitcoin.Script.Standard
import UnitedBitcoin.Script.ContractScripts
import UnitedBitcoin.Coins.Cache
import UnitedBitcoin.Coins.Stack
import UnitedBitcoin.Coins.Refinement
import UnitedBitcoin.Coins.Compressor
import UnitedBitcoin.ContractStorage.Info
import UnitedBitcoin.ContractStorage.Service
import UnitedBitcoin.ContractStorage.Steps
import UnitedBitcoin.ContractStorage.Frame
import UnitedBitcoin.ContractStorage.Operations
import UnitedBitcoin.ContractStorage.Invariant
import UnitedBitcoin.ContractStorage.LazyRollback
import UnitedBitcoin.ContractStorage.RollbackRestore
import UnitedBitcoin.ContractStorage.CanonicalDigest
import UnitedBitcoin.Contract.PendingState
import UnitedBitcoin.Contract.ContractHelper
import UnitedBitcoin.Contract.Dgp
import UnitedBitcoin.Validation.ContractParams
import UnitedBitcoin.Validation.CheckBlock
import UnitedBitcoin.Consensus.PartialMerkle
import UnitedBitcoin.Net.BlockTransactionsRequest
import UnitedBitcoin.Net.CompactBlocks
import UnitedBitcoin.Net.CompactBlockRelay
import UnitedBitcoin.Validation.ConnectBlock
import UnitedBitcoin.Uvm.Storage
import UnitedBitcoin.Uvm.Commit
