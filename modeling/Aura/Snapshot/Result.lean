import Mathlib.Algebra.BigOperators.Group.List.Basic
import Mathlib.Algebra.Ring.Int.Defs
import Mathlib.Data.Nat.Notation

/-!
# The task snapshot:result

From the result of a vote on gauge weights and the weights that the gauge controller has for
the voter, the task makes the list of votes that is sent : the gauges that lose all weight
first, then the others by what they gain.

Shares are floating point numbers. Their whole parts are a parameter (`share`), and so is
`Array.prototype.sort`, whose second comparison is no order.
-/

namespace Aura.Snapshot

/-- Why there is no result. -/
inductive Stop where
  /-- The task logs some lines and returns. -/
  | exit (lines : List String)
  /-- It throws. -/
  | error (message : String)
  deriving DecidableEq, Repr

/-- A gauge that the voter can vote for, with the weight it has. -/
structure Gauge where
  address : String
  existingWeight : ℕ
  deriving DecidableEq, Repr

/-- A gauge that the vote was for. Its address is not known if its label is not. -/
structure SuccessfulGauge (Percentage : Type) where
  percentage : Percentage
  address : Option String
  deriving DecidableEq, Repr

structure Vote (Percentage : Type) where
  gauge : Gauge
  voteDelta : ℤ
  voteWeight : ℤ
  percentage : Percentage
  deriving DecidableEq, Repr

variable {Percentage : Type}

def totalVotes : ℤ := 10000

/-- `toNumber` of a `BigNumber`. -/
def toNumber (n : ℕ) : Except Stop ℤ :=
  if n < 2 ^ 53 then .ok n else .error (.error "overflow")

/-! ## New votes -/

/-- The new weights. `share` is the whole part of what a percentage has of the total votes;
what is left goes to the first gauge. -/
def newWeights (share : List Percentage → Percentage → ℤ)
    (successfulGauges : List (SuccessfulGauge Percentage)) : Except Stop (List ℤ) :=
  let percentages := successfulGauges.map SuccessfulGauge.percentage
  let weights := percentages.map (share percentages)
  let totalWeightBefore := weights.sum
  let voteDelta := totalVotes - totalWeightBefore
  -- without a first entry the total is no number, which is not the total either
  let weights := weights.modifyHead (· + voteDelta)
  let totalWeightAfter := weights.sum
  if totalWeightAfter ≠ totalVotes then
    .error (.exit ["Total weight is not equal to total votes.", "Exiting..."])
  else .ok weights

/-! ## Ordered votes -/

/-- A round of the loop over the gauges with existing weights. -/
def pushVote [Zero Percentage] (successfulGauges : List (SuccessfulGauge Percentage))
    (weights : List ℤ) (votes : List (Vote Percentage)) (gauge : Gauge) :
    Except Stop (List (Vote Percentage)) :=
  match successfulGauges.findIdx? fun g => some gauge.address = g.address with
  | some idx => do
    -- a gauge that we want to cast a vote for this time
    let voteWeight := weights.getD idx 0
    let percentage := (successfulGauges.map SuccessfulGauge.percentage).getD idx 0
    let existingWeight ← toNumber gauge.existingWeight
    .ok (votes ++ [⟨gauge, voteWeight - existingWeight, voteWeight, percentage⟩])
  | none =>
    if 0 < gauge.existingWeight then do
      -- a vote to reset it to zero
      let existingWeight ← toNumber gauge.existingWeight
      .ok (votes ++ [⟨gauge, existingWeight, 0, 0⟩])
    else .ok votes

/-- `(a, b) => a.voteDelta - b.voteDelta` -/
def lowestDelta (a b : Vote Percentage) : ℤ :=
  a.voteDelta - b.voteDelta

/-- `a => (a.voteWeight === 0 ? -1 : 1)` -/
def zeroWeight (a _ : Vote Percentage) : ℤ :=
  if a.voteWeight = 0 then -1 else 1

/-- The votes. `power` is what `vote_user_slopes` of the gauge controller returns for the
voter. -/
def result [Zero Percentage]
    (sort : (Vote Percentage → Vote Percentage → ℤ) → List (Vote Percentage) →
      List (Vote Percentage))
    (share : List Percentage → Percentage → ℤ) (power : String → ℕ) (gaugeSnapshot : List String)
    (successfulGauges : List (SuccessfulGauge Percentage)) :
    Except Stop (List (Vote Percentage)) := do
  let gaugesWithExistingWeights := gaugeSnapshot.map fun address => ⟨address, power address⟩
  let weights ← newWeights share successfulGauges
  let votes ← gaugesWithExistingWeights.foldlM (pushVote successfulGauges weights) []
  let votes := sort lowestDelta votes
  let votes := sort zeroWeight votes
  let voteWeights := (votes.map Vote.voteWeight).sum
  if voteWeights ≠ totalVotes then
    .error (.error s!"Vote weights {voteWeights} do not add up to total votes {totalVotes}")
  else .ok votes

end Aura.Snapshot
