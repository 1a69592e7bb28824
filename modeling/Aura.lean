import Aura.Ballot
import Aura.Locker.Supply
import Aura.Locker.Custody
import Aura.Locker.Relock
import Aura.Locker.Votes
import Aura.Locker.PastVotes
import Aura.Locker.History
import Aura.Locker.Solvency
import Aura.Locker.Accrual
import Aura.Locker.Bundled
import Aura.Locker.Streams
import Aura.Locker.Claimable
import Aura.Locker.Quorum
import Aura.Locker.AuraStakingProxy
import Aura.Safe.AuraLockerModule
import Aura.Compounder.MaxWithdraw
import Aura.Compounder.Capture
import Aura.Compounder.FeeScheduler
import Aura.Compounder.SimpleStrategy
import Aura.Compounder.AuraBalStrategy
import Aura.SetQueue
import Aura.Bridge.AuraProxy
import Aura.Bridge.Tracking
import Aura.Bridge.Backing
import Aura.Bridge.Harvest
import Aura.Bridge.Queue
import Aura.Bridge.InflowLimit
import Aura.AuraMinter
import Aura.Gauges.Payments
import Aura.Rewards.Payments
import Aura.Rewards.CurrentEpoch
import Aura.Rewards.AuraPenaltyForwarder
import Aura.Sidechain.Funding
import Aura.Sidechain.AuraDistributor
import Aura.Sidechain.MintRate
import Aura.Messages.Dispatch
import Aura.Messages.Delivery
import Aura.Sidechain.PoolManagers
import Aura.Escrow.Vesting
import Aura.Airdrop.AuraMerkleDropV2
import Aura.RewardPool.Solvency
import Aura.Gauges.StashRewards
import Aura.Gauges.SidechainRewards
import Aura.Peripheral.BoosterHelper
import Aura.Peripheral.WalletFunds
import Aura.Peripheral.WardenQuestScheduler
import Aura.Snapshot.VoteOrder
