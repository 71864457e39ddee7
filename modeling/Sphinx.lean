import Sphinx.Script.Equiv.DerSignature
import Sphinx.Equiv.Signatures
import Sphinx.Equiv.SignedMessages
import Sphinx.Equiv.PoolApart
import Sphinx.Equiv.PoolClosure
import Sphinx.Equiv.Arrivals
import Sphinx.Equiv.NodeState
import Sphinx.Equiv.TxDbLevelDb
import Sphinx.Equiv.Difficulty
import Sphinx.Equiv.ProcessBlock
import Sphinx.Equiv.LoadBlockIndex
import Sphinx.Equiv.MasternodeRanks
import Sphinx.Equiv.SignFinalTransaction
import Sphinx.Equiv.AddScriptSig
import Sphinx.Equiv.StashedsendSession
import Sphinx.Equiv.MixingMessages
import Sphinx.Equiv.WalletReorganize
import Sphinx.Equiv.KeyPool
import Sphinx.Script.Equiv.ScriptFlags
import Sphinx.Script.Equiv.ScriptNum
import Sphinx.Script.Equiv.Parse
import Sphinx.Equiv.Alert
import Sphinx.Equiv.JustCheck
import Sphinx.Equiv.CoinAge
import Sphinx.Equiv.StakeModifier
import Sphinx.Equiv.NetReceive
import Sphinx.Equiv.AddrIndex
import Sphinx.Equiv.Crypter
import Sphinx.Equiv.MasternodeRandom
import Sphinx.Equiv.FindBlock
import Sphinx.Equiv.MasternodeCollateral
import Sphinx.Equiv.BlockFile
import Sphinx.Equiv.ExtKey
import Sphinx.Equiv.Base58Data
import Sphinx.Equiv.ExternalBlockFile
import Sphinx.Equiv.CoinStake
import Sphinx.Equiv.Narration
import Sphinx.Equiv.AddressGroupings
import Sphinx.Equiv.WalletTxRecord
import Sphinx.Script.Equiv.SignatureHash
import Sphinx.Equiv.MixingRounds
import Sphinx.Equiv.PrepareDenominate
import Sphinx.Equiv.Policy
import Sphinx.Equiv.TxEquality
import Sphinx.Equiv.Base58
import Sphinx.Equiv.ReorderTransactions
import Sphinx.Equiv.AddrManSerialize
import Sphinx.Equiv.MruSet
import Sphinx.Equiv.LimitedMap
import Sphinx.Primitives.Equiv.VarInt
import Sphinx.Equiv.Compact
