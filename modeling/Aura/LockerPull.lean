import Aura.AuraMath

/-!
# AuraLocker, as the contracts that lock rewards see it

`AuraVestedEscrow`, `AuraMerkleDrop` and `AuraBalRewardPool` approve a locker for an amount
and have it lock the amount for an account. The locker pulls exactly that from its caller, or
it reverts. Which locks it accepts is up to the locker and may change at any time.
-/

open Evm

namespace Aura

/-- `IAuraLocker(auraLocker).lock(_account, _amount)`, called by `owner`. The caller has no
function `lock` itself. -/
def lockerPull (accepts : Address → Address → ℕ → Bool) (t : Erc20 Address)
    (owner auraLocker _account : Address) (_amount : ℕ) : Tx (Erc20 Address) := do
  require (auraLocker ≠ owner ∧ accepts auraLocker _account _amount = true) ""
  t.transferFrom auraLocker owner auraLocker _amount

theorem lockerPull_eq_ok {accepts : Address → Address → ℕ → Bool} {t t' : Erc20 Address}
    {owner auraLocker _account : Address} {_amount : ℕ}
    (h : lockerPull accepts t owner auraLocker _account _amount = .ok t') :
    auraLocker ≠ owner ∧ t.transferFrom auraLocker owner auraLocker _amount = .ok t' := by
  obtain ⟨hp, h⟩ := require_bind_eq_ok.1 h
  exact ⟨hp.1, h⟩

theorem lockerPull_ne_underflow (accepts : Address → Address → ℕ → Bool) (t : Erc20 Address)
    (owner auraLocker _account : Address) (_amount : ℕ) :
    lockerPull accepts t owner auraLocker _account _amount ≠ .error .underflow :=
  bind_ne_underflow (require_ne_underflow _) fun _ _ => t.transferFrom_ne_underflow _ _ _ _

theorem noPanic_lockerPull (accepts : Address → Address → ℕ → Bool) (t : Erc20 Address)
    (owner auraLocker _account : Address) (_amount : ℕ) :
    NoPanic (lockerPull accepts t owner auraLocker _account _amount) :=
  (noPanic_require _).bind fun _ _ => t.noPanic_transferFrom _ _ _ _

end Aura
