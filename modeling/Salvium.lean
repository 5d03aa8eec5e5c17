import Salvium.Basic
import Salvium.Lib.Limbs
import Salvium.Lib.Window
import Salvium.Lib.Varint
import Salvium.Config
import Salvium.Difficulty
import Salvium.Db.Yield
import Salvium.Chain.YieldCache
import Salvium.Chain.LongTermWeight
import Salvium.Tx.Weight
import Salvium.Tx.Extra
import Salvium.Tx.Coinbase
import Salvium.Chain.Protocol
import Salvium.Lib.Except
import Salvium.Chain.Miner
import Salvium.Common.Base58
import Salvium.Lib.Histogram
import Salvium.Chain.HardFork
import Salvium.Chain.HardForkReorganize
import Salvium.Serialization.BinaryArchive
import Salvium.Tx.ExtraCodec
import Salvium.Common.Address
import Salvium.Chain.BlockReward
import Salvium.Carrot.InputSelection
import Salvium.Chain.YieldPayout
import Salvium.Carrot.CoinbaseFormat
import Salvium.Lib.Residue
import Salvium.Common.Pruning
import Salvium.Lib.BitField
import Salvium.Tx.OutputOffsets
import Salvium.Common.MergeMining
import Salvium.Lib.Decimal
import Salvium.Common.Money
import Salvium.Common.RoundMoney
import Salvium.Lib.MultiIndex
import Salvium.Chain.TxPool
import Salvium.Chain.TxPoolInvariant
import Salvium.Chain.TxPoolValidate
import Salvium.Chain.BlockTemplate
import Salvium.Chain.TxPoolRun
