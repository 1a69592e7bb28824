import Aura.AuraToken
import Aura.Sidechain.Coordinators

/-!
# Sidechain : a deployment

A Booster as the tests of the repository describe it : it takes the fees from its caller and
mints AURA for the rewards that the fees are a part of. It only mints to its caller. The
deployment around it is where concrete runs start.
-/

open Evm Function

namespace Aura.Sidechain

/-! ## A Booster -/

/-- A Booster for the tokens `crv` and `aura`. -/
structure FeeBooster (crv aura : Address) where
  bridgeDelegate : Address
  /-- `lockIncentive.add(stakerIncentive)`. -/
  totalIncentives : ℕ
  /-- `minterMinted` of the AURA token. -/
  minterMinted : ℕ

namespace FeeBooster

variable {crv aura : Address}

/-- `FEE_DENOMINATOR`. -/
def feeDenominator : ℕ := 10000

/-- The rewards that were paid beside the fees. -/
def eligibleForMint (b : FeeBooster crv aura) (_amount : ℕ) : Tx ℕ := do
  let x ← AuraMath.mul _amount feeDenominator
  let totalFarmed ← AuraMath.div x b.totalIncentives
  AuraMath.sub totalFarmed _amount

/-- The AURA that is minted with a supply of `totalSupply`. -/
def scheduled (b : FeeBooster crv aura) (totalSupply eligible : ℕ) : Tx ℕ := do
  let x ← usub totalSupply AuraToken.initMintAmount
  let emissionsMinted ← usub x b.minterMinted
  AuraToken.schedule emissionsMinted eligible

instance : Booster (FeeBooster crv aura) where
  distributeL2Fees b booster sender _amount tokens := do
    require (sender = b.bridgeDelegate) "!auth"
    let eligible ← b.eligibleForMint _amount
    let t ← (tokens crv).transferFrom booster sender booster _amount
    let amount ← b.scheduled (tokens aura).totalSupply eligible
    let a ← (tokens aura).mint sender amount
    .ok (b, update (update tokens crv t) aura a)

theorem mintsToCaller (crv aura : Address) : MintsToCaller (FeeBooster crv aura) aura := by
  intro b booster sender n tokens r h
  obtain ⟨-, h⟩ := require_bind_eq_ok.1 h
  obtain ⟨eligible, -, h⟩ := bind_eq_ok.1 h
  obtain ⟨t, -, h⟩ := bind_eq_ok.1 h
  obtain ⟨amount, -, h⟩ := bind_eq_ok.1 h
  obtain ⟨a, ha, h⟩ := bind_eq_ok.1 h
  cases h
  refine ⟨amount, ?_⟩
  dsimp only
  rw [update_self]
  exact ha

end FeeBooster

/-! ## The contracts -/

/-- The account `600` holds AURA and the bridge delegate `107` holds BAL. -/
def canonicalTokens : Address → Erc20 Address :=
  update
    (fun _ => Erc20.single 107 (10 ^ 30) Erc20.single_supply_lt fun _ _ => 2 ^ 256 - 1) 103
    (Erc20.single 600 AuraToken.initMintAmount (by norm_num [AuraToken.initMintAmount])
      fun _ _ => 2 ^ 256 - 1)

/-- The contracts with the owner `500`. -/
def deployment : Coordinators (FeeBooster 102 103) where
  toMail := .empty
  l1 :=
    { self := 101
      owner := 500
      balToken := 102
      auraToken := 103
      auraOFT := 104
      treasury := 105
      booster := 106
      rewardMultiplier := L1Coordinator.rewardMultiplierDenominator
      feeDebtOf := fun _ => 0
      settledFeeDebtOf := fun _ => 0
      distributedFeeDebtOf := fun _ => 0
      bridgeDelegates := fun _ => 0
      l2Coordinators := fun _ => 0
      distributors := fun _ => false
      trustedRemoteLookup := fun _ => false
      tokens := canonicalTokens
      boosters := ⟨101, 1650, 0⟩
      distributed := []
      pulled := [] }
  l2 _ :=
    { self := 201
      owner := 500
      canonicalChainId := 101
      auraOFT := 204
      booster := 0
      balToken := 0
      bridgeDelegate := 0
      accBalRewards := 0
      pendingNotifyFees := 0
      accAuraRewards := 0
      trustedRemoteLookup := fun _ => false
      tokens := update (fun _ => Erc20.single 201 (10 ^ 30) Erc20.single_supply_lt fun _ _ => 0)
        204 .empty }

theorem deployment_deployed : deployment.Deployed where
  l1 := ⟨by decide, rfl, fun _ => rfl, fun _ => rfl, fun _ => rfl, fun _ => rfl, rfl, rfl⟩
  l2 _ := ⟨(by decide : (201 : Address) ≠ 0), rfl, rfl, rfl, rfl⟩
  mail := rfl

/-- The calls that set up the sidechain `110`, whose token of rewards is `balToken`. -/
def setup (balToken : Address) : List Event :=
  [⟨500, .l2 110 (.init 206 balToken)⟩, ⟨500, .l2 110 (.setTrustedRemote 101)⟩,
    ⟨500, .l2 110 (.setBridgeDelegate 207)⟩, ⟨500, .l1 (.setTrustedRemote 110)⟩,
    ⟨500, .l1 (.setL2Coordinator 110 201)⟩, ⟨500, .l1 (.setBridgeDelegate 110 107)⟩,
    ⟨500, .l1 (.setDistributor 108 true)⟩, ⟨500, .l1 (.setRewardMultiplier 8000)⟩]

/-- Fees are queued on `110`, told of after a failure, settled and partly paid in AURA. -/
def feesToAura : List Event :=
  [⟨206, .l2 110 (.queueNewRewards 165 1000)⟩, ⟨600, .l2 110 .notifyFees⟩,
    ⟨600, .l2 110 .notifyFees⟩, ⟨600, .lzReceiveOutOfGas (.toL1 110 (.fees 165))⟩,
    ⟨600, .retryMessage (.toL1 110 (.fees 165))⟩, ⟨107, .l1 (.settleFeeDebt 110 165)⟩,
    ⟨108, .l1 (.distributeAura 110)⟩]

/-- The messages of the distribution arrive, the entitlement first. -/
def auraArrives : List Event :=
  [⟨600, .lzReceive (.toL2 110 (.feesCallback 2604))⟩,
    ⟨600, .lzReceive (.oft 110 (Bridge.encodePacked 201) 2604)⟩]

/-- More fees of `110` become debt. -/
def nextFees : List Event :=
  [⟨206, .l2 110 (.queueNewRewards 165 1000)⟩, ⟨600, .l2 110 .notifyFees⟩,
    ⟨600, .lzReceive (.toL1 110 (.fees 165))⟩, ⟨107, .l1 (.settleFeeDebt 110 165)⟩]

end Aura.Sidechain
