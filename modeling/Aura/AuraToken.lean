import Aura.AuraMath

/-!
# AuraToken

`Aura.sol` : the token, which the operator of the VoterProxy mints along a schedule and the
minter beyond it. The emissions so far are not stored : every `mint` derives them from the
supply, and `minterMinted` starts at the largest number until `init` sets it to zero.

The emissions never exceed their maximum, and what a `mint` creates depends on the earlier
mints of operators alone (`emissions_capped`).
-/

open Evm Function

namespace Aura

structure AuraToken where
  operator : Address
  /-- `IVoterProxy(vecrvProxy).operator()`. -/
  voterProxyOperator : Address
  minter : Address
  minterMinted : ℕ
  token : Erc20 Address

namespace AuraToken

/-- `EMISSIONS_MAX_SUPPLY`. -/
def emissionsMaxSupply : ℕ := 50000000000000000000000000

/-- `INIT_MINT_AMOUNT`. -/
def initMintAmount : ℕ := 50000000000000000000000000

def totalCliffs : ℕ := 500

def reductionPerCliff : ℕ := emissionsMaxSupply / totalCliffs

def totalSupply (s : AuraToken) : ℕ :=
  s.token.totalSupply

/-! ## The functions -/

/-- `updateOperator`. -/
def updateOperator (s : AuraToken) : Tx AuraToken := do
  require (s.totalSupply ≠ 0) "!init"
  let newOperator := s.voterProxyOperator
  require (newOperator ≠ s.operator ∧ newOperator ≠ 0) "!operator"
  .ok { s with operator := newOperator }

/-- `init`. -/
def init (s : AuraToken) (sender _to _minter : Address) : Tx AuraToken := do
  require (sender = s.operator) "Only operator"
  require (s.totalSupply = 0) "Only once"
  require (_minter ≠ 0) "Invalid minter"
  let token ← s.token.mint _to initMintAmount
  let s ← { s with token }.updateOperator
  .ok { s with minter := _minter, minterMinted := 0 }

/-- The amount that `mint` creates before the last cliff is reached. -/
def scheduled (emissionsMinted cliff _amount : ℕ) : Tx ℕ := do
  let x ← AuraMath.sub totalCliffs cliff
  let x ← AuraMath.mul x 5
  let x ← AuraMath.div x 2
  let reduction ← AuraMath.add x 700
  let y ← AuraMath.mul _amount reduction
  let amount ← AuraMath.div y totalCliffs
  let amtTillMax ← AuraMath.sub emissionsMaxSupply emissionsMinted
  .ok (if amtTillMax < amount then amtTillMax else amount)

/-- `mint`. -/
def mint (s : AuraToken) (sender _to : Address) (_amount : ℕ) : Tx AuraToken := do
  require (s.totalSupply ≠ 0) "Not initialised"
  if sender ≠ s.operator then .ok s
  else do
    let x ← usub s.totalSupply initMintAmount
    let emissionsMinted ← usub x s.minterMinted
    let cliff ← AuraMath.div emissionsMinted reductionPerCliff
    if cliff < totalCliffs then do
      let amount ← scheduled emissionsMinted cliff _amount
      let token ← s.token.mint _to amount
      .ok { s with token }
    else .ok s

/-- `minterMint`. -/
def minterMint (s : AuraToken) (sender _to : Address) (_amount : ℕ) : Tx AuraToken := do
  require (sender = s.minter) "Only minter"
  let minterMinted ← uadd 256 s.minterMinted _amount
  let token ← s.token.mint _to _amount
  .ok { s with minterMinted, token }

/-! ## Runs -/

inductive Call where
  | init (_to _minter : Address)
  | updateOperator
  | mint (_to : Address) (_amount : ℕ)
  | minterMint (_to : Address) (_amount : ℕ)
  deriving DecidableEq

/-- Run a call of `sender`. -/
def exec (s : AuraToken) (sender : Address) : Call → Tx AuraToken
  | .init a m => s.init sender a m
  | .updateOperator => s.updateOperator
  | .mint a n => s.mint sender a n
  | .minterMint a n => s.minterMint sender a n

/-- A mint of an operator : the amount it was given and what it created. -/
structure Emission where
  _amount : ℕ
  created : ℕ
  deriving DecidableEq

/-- What a call records. -/
def record (s s' : AuraToken) (sender : Address) : Call → List Emission
  | .mint _ n => if sender = s.operator then [⟨n, s'.totalSupply - s.totalSupply⟩] else []
  | _ => []

/-- The token was just deployed. -/
structure Deployed (s : AuraToken) : Prop where
  totalSupply : s.totalSupply = 0
  minter : s.minter = 0
  minterMinted : s.minterMinted = 2 ^ 256 - 1

/-- What happens around the contract : the operator of the VoterProxy changes, and tokens
move. -/
def Elsewhere (s s' : AuraToken) : Prop :=
  ∃ voterProxyOperator token, token.totalSupply = s.token.totalSupply ∧
    s' = { s with voterProxyOperator, token }

/-- A run with the mints of operators, the latest first. Nobody calls from the address
zero. -/
inductive Run : List Emission → AuraToken → Prop
  | deployed {s : AuraToken} : Deployed s → Run [] s
  | elsewhere {log : List Emission} {s s' : AuraToken} : Run log s → Elsewhere s s' → Run log s'
  | call {log : List Emission} {s s' : AuraToken} {sender : Address} {c : Call} :
      Run log s → sender ≠ 0 → s.exec sender c = .ok s' → Run (s.record s' sender c ++ log) s'

/-! ## The schedule -/

/-- What was emitted. -/
def emissions (log : List Emission) : ℕ :=
  (log.map Emission.created).sum

/-- What a mint of an operator creates after the emissions `e`. -/
def schedule (e _amount : ℕ) : Tx ℕ :=
  if e / reductionPerCliff < totalCliffs then scheduled e (e / reductionPerCliff) _amount
  else .ok 0

/-- Every mint created what the schedule says after the mints before it. -/
def Scheduled : List Emission → Prop
  | [] => True
  | e :: log => schedule (emissions log) e._amount = .ok e.created ∧ Scheduled log

/-- What holds of the supply : before `init` there is none and nobody can mint. -/
structure Emitted (log : List Emission) (s : AuraToken) : Prop where
  before : s.totalSupply = 0 → s.minter = 0 ∧ log = []
  supply : s.totalSupply ≠ 0 → s.totalSupply = initMintAmount + emissions log + s.minterMinted
  cap : emissions log ≤ emissionsMaxSupply
  scheduled : Scheduled log

variable {s s' : AuraToken} {log : List Emission} {sender a : Address} {n : ℕ}

@[simp] theorem emissions_cons (e : Emission) (log : List Emission) :
    emissions (e :: log) = e.created + emissions log := by
  simp [emissions]

theorem scheduled_eq_ok {e cliff k : ℕ} (h : scheduled e cliff n = .ok k) :
    k ≤ emissionsMaxSupply - e := by
  unfold scheduled at h
  obtain ⟨_, -, h⟩ := bind_eq_ok.1 h
  obtain ⟨_, -, h⟩ := bind_eq_ok.1 h
  obtain ⟨_, -, h⟩ := bind_eq_ok.1 h
  obtain ⟨_, -, h⟩ := bind_eq_ok.1 h
  obtain ⟨_, -, h⟩ := bind_eq_ok.1 h
  obtain ⟨_, -, h⟩ := bind_eq_ok.1 h
  obtain ⟨x, hx, h⟩ := bind_eq_ok.1 h
  obtain ⟨-, rfl⟩ := usub_eq_ok.1 hx
  cases h
  split_ifs with hlt
  · exact le_rfl
  · exact not_lt.1 hlt

theorem schedule_le {e k : ℕ} (h : schedule e n = .ok k) : k ≤ emissionsMaxSupply - e := by
  unfold schedule at h
  split_ifs at h
  · exact scheduled_eq_ok h
  · cases h
    exact Nat.zero_le _

/-- A schedule never underflows. -/
theorem schedule_ne_underflow {e : ℕ} (he : e ≤ emissionsMaxSupply) (n : ℕ) :
    schedule e n ≠ .error .underflow := by
  unfold schedule
  split_ifs with hc
  · unfold scheduled
    have hsub : AuraMath.sub totalCliffs (e / reductionPerCliff) = .ok _ := usub_of hc.le
    have hmax : AuraMath.sub emissionsMaxSupply e = .ok _ := usub_of he
    rw [hsub, hmax]
    simp only [ok_bind]
    refine bind_ne_underflow (umul_ne_underflow _ _ _) fun _ _ => ?_
    refine bind_ne_underflow (udiv_ne_underflow _ _) fun _ _ => ?_
    refine bind_ne_underflow (uadd_ne_underflow _ _ _) fun _ _ => ?_
    refine bind_ne_underflow (umul_ne_underflow _ _ _) fun _ _ => ?_
    exact bind_ne_underflow (udiv_ne_underflow _ _) fun _ _ => ok_ne_underflow _
  · exact ok_ne_underflow _

/-- After `init`, a mint of the operator follows the schedule. -/
theorem Emitted.mint_eq (h : Emitted log s) (h0 : s.totalSupply ≠ 0) (a : Address) (n : ℕ) :
    s.mint s.operator a n =
      if emissions log / reductionPerCliff < totalCliffs then do
        let amount ← schedule (emissions log) n
        let token ← s.token.mint a amount
        .ok { s with token }
      else .ok s := by
  have hsupply := h.supply h0
  have hx : usub s.totalSupply initMintAmount = .ok (emissions log + s.minterMinted) := by
    rw [hsupply, Nat.add_assoc, Nat.add_comm initMintAmount]
    exact usub_add_right _ _
  have hcliff : AuraMath.div (emissions log) reductionPerCliff =
      .ok (emissions log / reductionPerCliff) := udiv_of (by decide)
  unfold mint schedule
  rw [require_of h0, ok_bind, if_neg (not_not.2 rfl), hx, ok_bind, usub_add_right, ok_bind, hcliff,
    ok_bind]
  split_ifs <;> rfl

theorem mint_of_ne (h0 : s.totalSupply ≠ 0) (hs : sender ≠ s.operator) :
    s.mint sender a n = .ok s := by
  unfold mint
  rw [require_of h0, ok_bind, if_pos hs]

/-- A mint of the operator creates what the schedule says. -/
theorem Emitted.mint_eq_ok (h : Emitted log s) (hx : s.mint s.operator a n = .ok s') :
    s.totalSupply ≠ 0 ∧ s' = { s with token := s'.token } ∧
      ∃ k, schedule (emissions log) n = .ok k ∧ s'.totalSupply = s.totalSupply + k := by
  have h0 : s.totalSupply ≠ 0 := (require_bind_eq_ok.1 hx).1
  rw [h.mint_eq h0] at hx
  split_ifs at hx with hc
  · obtain ⟨k, hk, hx⟩ := bind_eq_ok.1 hx
    obtain ⟨t, ht, hx⟩ := bind_eq_ok.1 hx
    cases hx
    exact ⟨h0, rfl, k, hk, (Erc20.mint_eq_ok ht).2.2⟩
  · cases hx
    exact ⟨h0, rfl, 0, if_neg hc, rfl⟩

/-- A mint of the operator returns if the schedule does and the supply fits a word. -/
theorem Emitted.exists_mint (h : Emitted log s) (h0 : s.totalSupply ≠ 0) {k : ℕ} (ha : a ≠ 0)
    (hk : schedule (emissions log) n = .ok k) (hfits : s.totalSupply + k < 2 ^ 256) :
    ∃ s', s.mint s.operator a n = .ok s' := by
  rw [h.mint_eq h0]
  split_ifs with hc
  · obtain ⟨t, ht⟩ := s.token.exists_mint ha hfits
    rw [hk, ok_bind, ht]
    exact ⟨_, rfl⟩
  · exact ⟨s, rfl⟩

/-- No subtraction of a mint underflows. -/
theorem Emitted.mint_ne_underflow (h : Emitted log s) (sender a : Address) (n : ℕ) :
    s.mint sender a n ≠ .error .underflow := by
  by_cases h0 : s.totalSupply = 0
  · unfold mint
    exact bind_ne_underflow (require_ne_underflow _) fun _ hu => absurd h0 (require_eq_ok.1 hu)
  · by_cases hs : sender = s.operator
    · rw [hs, h.mint_eq h0]
      split_ifs
      · refine bind_ne_underflow (schedule_ne_underflow h.cap n) fun k _ => ?_
        exact bind_ne_underflow (Erc20.mint_ne_underflow _ _ _) fun _ _ => ok_ne_underflow _
      · exact ok_ne_underflow _
    · rw [mint_of_ne h0 hs]
      exact ok_ne_underflow _

/-! ## Every run -/

/-- What creates nothing keeps the invariant. -/
theorem Emitted.of_eq (h : Emitted log s) (hsup : s'.totalSupply = s.totalSupply)
    (hm : s'.minter = s.minter) (hmm : s'.minterMinted = s.minterMinted) : Emitted log s' where
  before h0 := by
    rw [hm]
    exact h.before (hsup ▸ h0)
  supply h0 := by
    rw [hsup, hmm]
    exact h.supply (hsup ▸ h0)
  cap := h.cap
  scheduled := h.scheduled

theorem updateOperator_eq_ok (h : s.updateOperator = .ok s') :
    s' = { s with operator := s.voterProxyOperator } := by
  obtain ⟨-, h⟩ := require_bind_eq_ok.1 h
  obtain ⟨-, h⟩ := require_bind_eq_ok.1 h
  cases h
  rfl

theorem Emitted.init {m : Address} (h : Emitted log s) (hx : s.init sender a m = .ok s') :
    Emitted log s' := by
  obtain ⟨-, hx⟩ := require_bind_eq_ok.1 hx
  obtain ⟨h0, hx⟩ := require_bind_eq_ok.1 hx
  obtain ⟨-, hx⟩ := require_bind_eq_ok.1 hx
  obtain ⟨t, ht, hx⟩ := bind_eq_ok.1 hx
  obtain ⟨s₁, h₁, hx⟩ := bind_eq_ok.1 hx
  cases hx
  obtain ⟨-, rfl⟩ := h.before h0
  have hsup : s₁.totalSupply = initMintAmount := by
    rw [updateOperator_eq_ok h₁]
    have hmint : t.totalSupply = s.token.totalSupply + initMintAmount := (Erc20.mint_eq_ok ht).2.2
    have h0' : s.token.totalSupply = 0 := h0
    show t.totalSupply = _
    rw [hmint, h0', Nat.zero_add]
  exact ⟨fun h0' => absurd (hsup.symm.trans h0') (by decide), fun _ => hsup, h.cap, trivial⟩

theorem Emitted.minterMint (h : Emitted log s) (hsender : sender ≠ 0)
    (hx : s.minterMint sender a n = .ok s') : Emitted log s' := by
  obtain ⟨hm, hx⟩ := require_bind_eq_ok.1 hx
  obtain ⟨k, hk, hx⟩ := bind_eq_ok.1 hx
  obtain ⟨-, rfl⟩ := uadd_eq_ok.1 hk
  obtain ⟨t, ht, hx⟩ := bind_eq_ok.1 hx
  cases hx
  have h0 : s.totalSupply ≠ 0 := fun h0 => hsender (hm.trans (h.before h0).1)
  have hsup : t.totalSupply = s.totalSupply + n := (Erc20.mint_eq_ok ht).2.2
  have hsupply := h.supply h0
  refine ⟨fun h0' => ?_, fun _ => ?_, h.cap, h.scheduled⟩
  · have : t.totalSupply = 0 := h0'
    omega
  · show t.totalSupply = _ + (s.minterMinted + n)
    rw [hsup, hsupply, Nat.add_assoc]

theorem Emitted.mint (h : Emitted log s) (hx : s.mint sender a n = .ok s') :
    Emitted (s.record s' sender (.mint a n) ++ log) s' := by
  have h0 : s.totalSupply ≠ 0 := (require_bind_eq_ok.1 hx).1
  unfold record
  dsimp only
  split_ifs with hs
  · rw [hs] at hx
    obtain ⟨-, hs', k, hk, hsup⟩ := h.mint_eq_ok hx
    have hle := schedule_le hk
    have hcap := h.cap
    have hsupply := h.supply h0
    have hcreated : s'.totalSupply - s.totalSupply = k := by rw [hsup, Nat.add_sub_cancel_left]
    rw [hcreated]
    refine ⟨fun h0' => ?_, fun _ => ?_, ?_, hk, h.scheduled⟩
    · rw [hsup] at h0'
      omega
    · rw [hsup, hsupply, List.singleton_append, emissions_cons, hs']
      dsimp only
      ring
    · rw [List.singleton_append, emissions_cons]
      dsimp only
      omega
  · rw [mint_of_ne h0 hs] at hx
    cases hx
    exact h

theorem Run.emitted (h : Run log s) : Emitted log s := by
  induction h with
  | deployed h =>
    exact ⟨fun _ => ⟨h.minter, rfl⟩, fun h0 => absurd h.totalSupply h0, Nat.zero_le _, trivial⟩
  | elsewhere _ he ih =>
    obtain ⟨_, _, hsup, rfl⟩ := he
    exact ih.of_eq hsup rfl rfl
  | @call _ _ _ _ c _ hsender hx ih =>
    cases c with
    | init _ _ => exact ih.init hx
    | updateOperator =>
      rw [updateOperator_eq_ok hx]
      exact ih.of_eq rfl rfl rfl
    | mint _ _ => exact ih.mint hx
    | minterMint _ _ => exact ih.minterMint hsender hx

/-- After `init` : the supply is the initial amount, the emissions and what the minter
minted ; the emissions are at most their maximum ; no subtraction of a mint underflows ; every
mint of an operator created what the schedule says after the earlier ones, and the next one
does so unless the supply would overflow ; and a mint of anyone else changes nothing. -/
theorem emissions_capped {log : List Emission} {s : AuraToken} (h : Run log s)
    (h0 : s.totalSupply ≠ 0) :
    s.totalSupply = initMintAmount + emissions log + s.minterMinted ∧
      emissions log ≤ emissionsMaxSupply ∧
      (∀ sender a n, s.mint sender a n ≠ .error .underflow) ∧
      Scheduled log ∧
      (∀ a n k, a ≠ 0 → schedule (emissions log) n = .ok k → s.totalSupply + k < 2 ^ 256 →
        ∃ s', s.mint s.operator a n = .ok s' ∧ s'.totalSupply = s.totalSupply + k) ∧
      ∀ sender a n, sender ≠ s.operator → s.mint sender a n = .ok s := by
  have he := h.emitted
  refine ⟨he.supply h0, he.cap, he.mint_ne_underflow, he.scheduled, fun a n k ha hk hfits => ?_,
    fun sender a n => mint_of_ne h0⟩
  obtain ⟨s', hs'⟩ := he.exists_mint h0 ha hk hfits
  obtain ⟨-, -, k', hk', hsup⟩ := he.mint_eq_ok hs'
  rw [hk] at hk'
  cases hk'
  exact ⟨s', hs', hsup⟩

/-! ## Computed runs -/

/-- A token just deployed by the account 101, while the account 102 is the operator of the
VoterProxy. -/
def initial : AuraToken :=
  ⟨101, 102, 0, 2 ^ 256 - 1, Erc20.empty⟩

theorem initial_deployed : Deployed initial :=
  ⟨rfl, rfl, rfl⟩

/-- The record and the token after some more calls with their senders. -/
def play : AuraToken → List Emission → List (Address × Call) → Tx (List Emission × AuraToken)
  | s, log, [] => .ok (log, s)
  | s, log, e :: es => do
    require (e.1 ≠ 0) "no such account"
    let s' ← s.exec e.1 e.2
    s'.play (s.record s' e.1 e.2 ++ log) es

/-- The record and the token after some calls. -/
def after (s : AuraToken) (es : List (Address × Call)) : List Emission × AuraToken :=
  match s.play [] es with
  | .ok r => r
  | .error _ => ([], s)

theorem Run.play {es : List (Address × Call)} {r : List Emission × AuraToken} (h : Run log s)
    (hp : s.play log es = .ok r) : Run r.1 r.2 := by
  induction es generalizing s log with
  | nil =>
    cases hp
    exact h
  | cons e es ih =>
    obtain ⟨hsender, hp⟩ := require_bind_eq_ok.1 hp
    obtain ⟨s', hx, hp⟩ := bind_eq_ok.1 hp
    exact ih (h.call hsender hx) hp

theorem Run.after {es : List (Address × Call)} (hd : Deployed s)
    (hr : (s.play [] es).returns = true) : Run (s.after es).1 (s.after es).2 := by
  obtain ⟨r, h⟩ := Tx.exists_ok hr
  unfold AuraToken.after
  rw [h]
  exact (Run.deployed hd).play h

/-- The minter and the operator mint. -/
theorem emissions_capped_run : ∃ (log : List Emission) (s : AuraToken), s.minterMinted = 7 ∧
    s.totalSupply = initMintAmount + emissions log + s.minterMinted := by
  let es : List (Address × Call) :=
    [(101, .init 1 103), (103, .minterMint 2 7), (102, .mint 3 1000), (9, .mint 3 1000)]
  have hrun : Run (initial.after es).1 (initial.after es).2 :=
    .after initial_deployed (by decide +kernel)
  have hminted : (initial.after es).2.minterMinted = 7 := by decide +kernel
  have h0 : (initial.after es).2.totalSupply ≠ 0 := by decide +kernel
  exact ⟨_, _, hminted, (emissions_capped hrun h0).1⟩

/-- The minter mints up to the last number of a word, and a mint of the operator that would
have created 3900 reverts. -/
theorem minterMint_blocks : ¬∀ {log : List Emission} {s s₁ s₂ : AuraToken} {sender a b : Address}
    {n m : ℕ}, Run log s → s.minterMint sender a n = .ok s₁ → s.mint s.operator b m = .ok s₂ →
      ∃ s₃, s₁.mint s₁.operator b m = .ok s₃ ∧
        s₃.totalSupply - s₁.totalSupply = s₂.totalSupply - s.totalSupply := by
  intro h
  have hrun : Run (initial.after [(101, .init 1 103)]).1 (initial.after [(101, .init 1 103)]).2 :=
    .after initial_deployed (by decide +kernel)
  generalize hs : (initial.after [(101, .init 1 103)]).2 = s at hrun
  have hminter : (s.minterMint 103 1 (2 ^ 256 - 1 - initMintAmount)).returns = true := by
    rw [← hs]
    decide +kernel
  have hmint : (s.mint s.operator 1 1000).returns = true := by
    rw [← hs]
    decide +kernel
  obtain ⟨s₁, h₁⟩ := Tx.exists_ok hminter
  obtain ⟨s₂, h₂⟩ := Tx.exists_ok hmint
  obtain ⟨s₃, h₃, -⟩ := h hrun h₁ h₂
  have hblocked : (s.minterMint 103 1 (2 ^ 256 - 1 - initMintAmount) >>=
      fun s₁ => s₁.mint s₁.operator 1 1000).returns = false := by
    rw [← hs]
    decide +kernel
  rw [h₁, ok_bind, h₃] at hblocked
  cases hblocked

end AuraToken

end Aura
