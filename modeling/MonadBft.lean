import MonadBft.ArchiveWorkers
import MonadBft.BlockSyncRuns
import MonadBft.Bls
import MonadBft.CatchUp
import MonadBft.CertificateCache
import MonadBft.Declining
import MonadBft.EpochSchedule
import MonadBft.Epochs
import MonadBft.EstimateGas
import MonadBft.Eth.BaseBalances
import MonadBft.Eth.BlockFees
import MonadBft.Eth.PoolEvents
import MonadBft.Eth.Proposals
import MonadBft.Eth.SystemTransactions
import MonadBft.Handover
import MonadBft.Ledger
import MonadBft.MultiRouter
import MonadBft.NoEndorsing
import MonadBft.ProposalRounds
import MonadBft.Proposing
import MonadBft.Raptorcast.Delivery
import MonadBft.Raptorcast.Rebroadcast
import MonadBft.Statesync.Panics
import MonadBft.Statesync.Reassembly
import MonadBft.Statesync.Receivable
import MonadBft.Statesync.Serving
import MonadBft.Statesync.Silence
import MonadBft.TreeIntegrity
import MonadBft.WeightedRoundRobin
import MonadBft.Wire
import MonadBft.Wireauth.Exchange
