import Aura.Peripheral.ClaimZaps

/-!
# Claim zaps : what was in the wallet stays there

Unless a user asks a zap to use all its funds, the zap reads the balances of the user before
it claims and pulls no more than they have risen (`zaps_leave_wallet`). Every pull leaves the
user what it had before, so the order of the branches and the tokens they share do not
matter.

What is assumed of the other contracts : a claim only raises the balances of the user
(`Raises`), and whatever is staked, locked, compounded or bridged takes exactly the given
amount from the zap and nothing from the user (`Takes`). It may credit the user, as a vault
does with its shares. The depositor also pays out the token that is staked next (`Converts`).
None of these calls pays the user a token of `ts`, and of such a token a later pull too is
bounded by what was claimed ; the list may be empty.
-/

open Evm Function

namespace Aura.Peripheral

variable {σ : Type} {x : External σ} {zap user token : Address} {n remove max value : ℕ}
  {s s' s₁ : State σ} {c : Call} {P : Address → Prop} {ts : List Address}

/-! ## Assumptions -/

/-- The call moves no token of the zap and at most raises the balances of the user. -/
def Raises (x : External σ) (zap user : Address) (c : Call) : Prop :=
  ∀ w w', x c w = .ok w' → ∀ t, w'.balanceOf t zap = w.balanceOf t zap ∧
    w.balanceOf t user ≤ w'.balanceOf t user

/-- The call takes `n` of `token` from the zap, and of the tokens that satisfy `P` nothing else.
Of the user it takes nothing, and of the `ts` it pays the user nothing. -/
structure TakesOf (P : Address → Prop) (ts : List Address) (x : External σ)
    (zap user token : Address) (n : ℕ) (c : Call) : Prop where
  zap : ∀ w w', x c w = .ok w' → ∀ t, P t →
    w'.balanceOf t zap + (if t = token then n else 0) = w.balanceOf t zap
  keeps : ∀ w w', x c w = .ok w' → ∀ t, w.balanceOf t user ≤ w'.balanceOf t user
  unpaid : ∀ w w', x c w = .ok w' → ∀ t ∈ ts, w'.balanceOf t user ≤ w.balanceOf t user

/-- The call takes exactly `n` of `token`. -/
def Takes (ts : List Address) (x : External σ) : Address → Address → Address → ℕ → Call → Prop :=
  TakesOf (fun _ => True) ts x

/-- The call takes exactly `n` of `token` and pays out something of `out`. -/
def Converts (ts : List Address) (x : External σ) (zap user token out : Address) :
    ℕ → Call → Prop :=
  TakesOf (fun t => t ≠ out) ts x zap user token

/-- What a call that succeeds takes and logs. -/
structure Taken (P : Address → Prop) (ts : List Address) (zap user token : Address) (n : ℕ)
    (c : Call) (s s' : State σ) : Prop where
  zap : ∀ t, P t → s'.balanceOf t zap + (if t = token then n else 0) = s.balanceOf t zap
  keeps : ∀ t, s.balanceOf t user ≤ s'.balanceOf t user
  unpaid : ∀ t ∈ ts, s'.balanceOf t user ≤ s.balanceOf t user
  log : s'.log = s.log ++ [.called c]

/-! ## What a zap does -/

theorem perform_eq_ok (h : perform x c s = .ok s') :
    x c s.toWorld = .ok s'.toWorld ∧ s'.log = s.log ++ [.called c] := by
  obtain ⟨w, hw, h⟩ := bind_eq_ok.1 h
  cases h
  exact ⟨hw, rfl⟩

/-- Ether moves no token. -/
theorem pay_balanceOf {w w' : World σ} {src dst : Address} (h : w.pay src dst value = .ok w')
    (t a : Address) : w'.balanceOf t a = w.balanceOf t a := by
  obtain ⟨-, h⟩ := require_bind_eq_ok.1 h
  cases h
  rfl

/-- Claims raise the balances of the user. -/
theorem performAll_raises : ∀ {calls : List Call} {s s' : State σ},
    (∀ c ∈ calls, Raises x zap user c) → performAll x calls s = .ok s' →
      (∀ t, s'.balanceOf t zap = s.balanceOf t zap ∧ s.balanceOf t user ≤ s'.balanceOf t user) ∧
        s'.log = s.log ++ calls.map Entry.called
  | [], s, s', _, h => by
    cases h
    exact ⟨fun _ => ⟨rfl, le_rfl⟩, (List.append_nil _).symm⟩
  | c :: calls, s, s', hx, h => by
    unfold performAll at h
    rw [List.foldlM_cons] at h
    obtain ⟨s₁, h₁, h⟩ := bind_eq_ok.1 h
    obtain ⟨hc, hlog⟩ := perform_eq_ok h₁
    obtain ⟨hbal, hlog'⟩ := performAll_raises (fun c hc => hx c (by simp [hc])) h
    refine ⟨fun t => ?_, ?_⟩
    · obtain ⟨hzap, huser⟩ := hx c (by simp) _ _ hc t
      exact ⟨(hbal t).1.trans hzap, huser.trans (hbal t).2⟩
    · rw [hlog', hlog, List.append_assoc]
      rfl

/-- Two sequences of claims are one. -/
theorem performAll_append (a b : List Call) (s : State σ) :
    performAll x (a ++ b) s = performAll x a s >>= fun s => performAll x b s :=
  List.foldlM_append

theorem performAll_singleton (c : Call) (s : State σ) : performAll x [c] s = perform x c s :=
  List.foldlM_cons.trans (bind_pure _)

/-- A pull of `n` : no more than the maximum, and it leaves the user what it is told to. -/
structure Pulled (zap user token : Address) (remove max : ℕ) (s s' : State σ) (n : ℕ) : Prop where
  le : n ≤ max
  leaves : remove + n ≤ s.balanceOf token user
  user : ∀ t, s'.balanceOf t user + (if t = token then n else 0) = s.balanceOf t user
  zap : ∀ t, s'.balanceOf t zap = s.balanceOf t zap + if t = token then n else 0
  log : s'.log = s.log ++ if 0 < n then [.pulled token n] else []

theorem pull_eq_ok {continued : Bool} (hne : user ≠ zap)
    (h : _checkBalanceAndPullToken zap user s token remove max = .ok (s', n, continued)) :
    Pulled zap user token remove max s s' n ∧ (continued = true ↔ 0 < n) := by
  unfold _checkBalanceAndPullToken at h
  obtain ⟨b, hb, h⟩ := bind_eq_ok.1 h
  obtain ⟨hle, rfl⟩ := usub_eq_ok.1 hb
  generalize hk : AuraMath.min (s.balanceOf token user - remove) max = k at h
  have hmin : k = Nat.min (s.balanceOf token user - remove) max := hk ▸ AuraMath.min_eq _ _
  have hkmax : k ≤ max := hmin ▸ Nat.min_le_right _ _
  have hkbal : remove + k ≤ s.balanceOf token user := by
    have hkle : k ≤ s.balanceOf token user - remove := hmin ▸ Nat.min_le_left _ _
    omega
  dsimp only at h
  split_ifs at h with hpos
  · obtain ⟨t, ht, h⟩ := bind_eq_ok.1 h
    cases h
    obtain ⟨-, hn, hmove, -⟩ := Erc20.transferFrom_eq_ok ht
    have hsame : ∀ a, (update s.tokens token t token).balanceOf a =
        move (s.tokens token).balanceOf user zap n a := fun a => by rw [update_self, hmove]
    refine ⟨⟨hkmax, hkbal, fun u => ?_, fun u => ?_, by rw [if_pos hpos]⟩, iff_of_true rfl hpos⟩
    · show (update s.tokens token t u).balanceOf user + _ = (s.tokens u).balanceOf user
      by_cases hu : u = token
      · rw [hu, hsame, move_src _ _ hne, if_pos rfl]
        exact Nat.sub_add_cancel hn
      · rw [update_of_ne hu, if_neg hu, Nat.add_zero]
    · show (update s.tokens token t u).balanceOf zap = (s.tokens u).balanceOf zap + _
      by_cases hu : u = token
      · rw [hu, hsame, move_dst _ _ hne, if_pos rfl]
      · rw [update_of_ne hu, if_neg hu, Nat.add_zero]
  · cases h
    have h0 : n = 0 := Nat.eq_zero_of_not_pos hpos
    refine ⟨⟨hkmax, hkbal, fun u => ?_, fun u => ?_, ?_⟩, iff_of_false nofun hpos⟩
    · rw [h0, ite_self, Nat.add_zero]
    · rw [h0, ite_self, Nat.add_zero]
    · rw [if_neg hpos, List.append_nil]

/-- What is spent of a token : `n` pulled, no more than the maximum and leaving the user what
was to be left, and the entries of it. Of the `ts` the user gets none. -/
structure Spent (P : Address → Prop) (ts : List Address) (zap user token : Address)
    (remove max : ℕ) (n : ℕ) (entries : List Entry) (s s' : State σ) : Prop where
  le : n ≤ max
  leaves : remove + n ≤ s.balanceOf token user
  leaves_user : ∀ t, s.balanceOf t user ≤ s'.balanceOf t user + if t = token then n else 0
  unpaid : ∀ t ∈ ts, s'.balanceOf t user ≤ s.balanceOf t user
  zap : ∀ t, P t → s'.balanceOf t zap = s.balanceOf t zap
  log : s'.log = s.log ++ entries

/-- The entries of `n` pulled and passed on. -/
def passedOn (token : Address) (n : ℕ) (c : Call) : List Entry :=
  if 0 < n then [.pulled token n, .called c] else []

/-- A pull alone. -/
theorem Pulled.spent (h : Pulled zap user token remove max s s' n) :
    Spent (fun t => t ≠ token) ts zap user token remove max n
      (if 0 < n then [.pulled token n] else []) s s' := by
  refine ⟨h.le, h.leaves, fun t => (h.user t).ge, fun t _ => ?_, fun t ht => ?_, h.log⟩
  · rw [← h.user]
    exact Nat.le_add_right _ _
  · rw [h.zap, if_neg ht, Nat.add_zero]

/-- Nothing is spent. -/
theorem Spent.none (h : remove ≤ s.balanceOf token user) :
    Spent P ts zap user token remove max 0 [] s s :=
  ⟨Nat.zero_le _, h, fun _ => Nat.le_add_right _ _, fun _ _ => le_rfl, fun _ _ => rfl,
    (List.append_nil _).symm⟩

/-- A pull whose tokens are all passed on. -/
theorem pull_spent {pass : ℕ → State σ → Tx (State σ)} {f : ℕ → Call} (hne : user ≠ zap)
    (hpass : ∀ n s s', pass n s = .ok s' → Taken P ts zap user token n (f n) s s')
    (h : (do
      let r ← _checkBalanceAndPullToken zap user s token remove max
      if r.2.2 = true then pass r.2.1 r.1 else .ok r.1) = .ok s') :
    ∃ n, Spent P ts zap user token remove max n (passedOn token n (f n)) s s' := by
  unfold passedOn
  obtain ⟨⟨s₁, n, continued⟩, hr, h⟩ := bind_eq_ok.1 h
  obtain ⟨hp, hcont⟩ := pull_eq_ok hne hr
  have hplog := hp.log
  dsimp only at h
  split_ifs at h with hc
  · have hn := hcont.1 hc
    have htaken := hpass n s₁ s' h
    refine ⟨n, hp.le, hp.leaves, fun t => ?_, fun t ht => ?_, fun t ht => ?_, ?_⟩
    · have huser := htaken.keeps t
      rw [← hp.user]
      omega
    · have hunpaid := htaken.unpaid t ht
      rw [← hp.user]
      omega
    · have h₁ := htaken.zap t ht
      have h₂ := hp.zap t
      omega
    · rw [htaken.log, hplog, if_pos hn, if_pos hn, List.append_assoc]
      rfl
  · have hn : ¬0 < n := fun hn => hc (hcont.2 hn)
    have h0 : n = 0 := Nat.eq_zero_of_not_pos hn
    cases h
    refine ⟨n, hp.le, hp.leaves, fun t => (hp.user t).ge, fun t _ => ?_, fun t _ => ?_, ?_⟩
    · rw [← hp.user]
      exact Nat.le_add_right _ _
    · rw [hp.zap, h0, ite_self, Nat.add_zero]
    · rw [hplog, if_neg hn, if_neg hn]

theorem perform_takes (hx : TakesOf P ts x zap user token n c)
    (h : perform x c s = .ok s') : Taken P ts zap user token n c s s' := by
  obtain ⟨hc, hlog⟩ := perform_eq_ok h
  exact ⟨hx.zap _ _ hc, hx.keeps _ _ hc, hx.unpaid _ _ hc, hlog⟩

/-- A call that takes all that the zap has of a token. -/
theorem Taken.all (h : Taken (fun _ => True) ts zap user token (s.balanceOf token zap) c s s') :
    s'.balanceOf token zap = 0 ∧ ∀ t, t ≠ token → s'.balanceOf t zap = s.balanceOf t zap := by
  refine ⟨?_, fun t ht => ?_⟩
  · have hall := h.zap token trivial
    rw [if_pos rfl] at hall
    omega
  · have hrest := h.zap t trivial
    rwa [if_neg ht, Nat.add_zero] at hrest

theorem performWith_takes {self target : Address} (hx : TakesOf P ts x zap user token n c)
    (h : performWith x self target value c s = .ok s') :
    Taken P ts zap user token n c s s' := by
  obtain ⟨w, hw, h⟩ := bind_eq_ok.1 h
  have htaken := perform_takes hx h
  have hpay := pay_balanceOf hw
  exact ⟨fun t ht => (htaken.zap t ht).trans (hpay t zap),
    fun t => (hpay t user).ge.trans (htaken.keeps t),
    fun t ht => (htaken.unpaid t ht).trans (hpay t user).le, htaken.log⟩

/-- What the user keeps : at least `floor` of every token. -/
def Keeps (user : Address) (floor : Address → ℕ) (s : State σ) : Prop :=
  ∀ t, floor t ≤ s.balanceOf t user

theorem Spent.keeps {floor : Address → ℕ} {entries : List Entry}
    (h : Spent P ts zap user token remove max n entries s s') (hf : floor token ≤ remove)
    (hk : Keeps user floor s) : Keeps user floor s' := by
  intro t
  have huser := h.leaves_user t
  have hleaves := h.leaves
  have hkt := hk t
  by_cases ht : t = token
  · subst ht
    rw [if_pos rfl] at huser
    omega
  · rw [if_neg ht] at huser
    omega

/-- No more is spent than the balance has risen since it was `remove`. -/
theorem Spent.le_claimed {entries : List Entry}
    (h : Spent P ts zap user token remove max n entries s s')
    (hle : s.balanceOf token user ≤ s₁.balanceOf token user) :
    n ≤ s₁.balanceOf token user - remove := by
  have hleaves := h.leaves
  omega

/-! ## AuraClaimZapV3 -/

namespace AuraClaimZapV3

variable {z : AuraClaimZapV3} {amounts : ClaimRewardsAmounts} {options : Options}
  {rewardContracts extraRewardContracts tokenRewardContracts tokenRewardTokens : List Address}

/-- What the zap relies on. -/
structure Trusts (z : AuraClaimZapV3) (ts : List Address) (x : External σ) (user : Address) :
    Prop where
  depositCrv : ∀ n minOut lock, Converts ts x z.self user z.crv z.cvxCrv n
    (.depositCrv z.crvDepositWrapper n minOut lock 0)
  deposit : ∀ n, Takes ts x z.self user z.cvxCrv n (.deposit z.compounder n user)
  stakeFor : ∀ n, Takes ts x z.self user z.cvxCrv n (.stakeFor z.cvxCrvRewards user n)
  lock : ∀ n, Takes ts x z.self user z.cvx n (.lock z.locker user n)

/-- The claims. -/
def claims (z : AuraClaimZapV3) (user : Address)
    (rewardContracts extraRewardContracts tokenRewardContracts tokenRewardTokens : List Address)
    (options : Options) : List Call :=
  rewardContracts.map (.getRewardAndExtras · user true) ++
    (extraRewardContracts.map (.getReward · user) ++
      (List.zipWith (.getTokenReward · user) tokenRewardContracts tokenRewardTokens ++
        ((if options.claimCvxCrv = true then [.getRewardAndExtras z.cvxCrvRewards user true]
          else []) ++
          if options.claimLockedCvx = true then [.getReward z.locker user] else [])))

theorem claim_eq (z : AuraClaimZapV3) (x : External σ) (s : State σ) (user : Address) :
    z.claim x s user rewardContracts extraRewardContracts tokenRewardContracts tokenRewardTokens
        options =
      performAll x (z.claims user rewardContracts extraRewardContracts tokenRewardContracts
        tokenRewardTokens options) s := by
  unfold claim claims
  simp only [performAll_append]
  refine bind_congr fun s => bind_congr fun s => bind_congr fun s => ?_
  have hone : ∀ (b : Bool) (c : Call) (s : State σ),
      (if b = true then perform x c s else .ok s) =
        performAll x (if b = true then [c] else []) s := by
    intro b c s
    split_ifs
    · exact (performAll_singleton c s).symm
    · rfl
  simp only [hone]

/-- The entries of what is staked. -/
def staked (z : AuraClaimZapV3) (user : Address) (options : Options) (m : ℕ) : List Entry :=
  if 0 < m then
    [.called (if options.useCompounder = true then .deposit z.compounder m user
      else .stakeFor z.cvxCrvRewards user m)]
  else []

/-- All the cvxCrv of the zap is staked. -/
theorem stake_all (hz : z.Trusts ts x user)
    (h : (if 0 < s.balanceOf z.cvxCrv z.self then
      if options.useCompounder = true then
        perform x (.deposit z.compounder (s.balanceOf z.cvxCrv z.self) user) s
      else perform x (.stakeFor z.cvxCrvRewards user (s.balanceOf z.cvxCrv z.self)) s
      else .ok s) = .ok s') :
    (s'.balanceOf z.cvxCrv z.self = 0 ∧
      ∀ t, t ≠ z.cvxCrv → s'.balanceOf t z.self = s.balanceOf t z.self) ∧
      (∀ t, s.balanceOf t user ≤ s'.balanceOf t user) ∧
      (∀ t ∈ ts, s'.balanceOf t user ≤ s.balanceOf t user) ∧
      s'.log = s.log ++ z.staked user options (s.balanceOf z.cvxCrv z.self) := by
  unfold staked
  split_ifs at h ⊢ with hpos hcomp
  · have htaken := perform_takes (hz.deposit _) h
    exact ⟨htaken.all, htaken.keeps, htaken.unpaid, htaken.log⟩
  · have htaken := perform_takes (hz.stakeFor _) h
    exact ⟨htaken.all, htaken.keeps, htaken.unpaid, htaken.log⟩
  · cases h
    exact ⟨⟨Nat.eq_zero_of_not_pos hpos, fun _ _ => rfl⟩, fun _ => le_rfl, fun _ _ => le_rfl,
      (List.append_nil _).symm⟩

/-- What `_relockRewards` does : it pulls `n₁` crv, `n₂` cvxCrv and `n₃` cvx, stakes the `m`
cvxCrv it then has, and leaves the user `floor`. -/
structure Relocked (z : AuraClaimZapV3) (ts : List Address) (user : Address)
    (amounts : ClaimRewardsAmounts) (options : Options) (floor : Address → ℕ)
    (s s' : State σ) (n₁ n₂ m n₃ : ℕ) : Prop where
  crv : n₁ ≤ s.balanceOf z.crv user - floor z.crv ∧ n₁ ≤ amounts.depositCrvMaxAmount
  cvxCrv : (z.cvxCrv ∈ ts → n₂ ≤ s.balanceOf z.cvxCrv user - floor z.cvxCrv) ∧
    n₂ ≤ amounts.depositCvxCrvMaxAmount
  cvx : (z.cvx ∈ ts → n₃ ≤ s.balanceOf z.cvx user - floor z.cvx) ∧
    n₃ ≤ amounts.depositCvxMaxAmount
  keeps : Keeps user floor s'
  nothing_left : s'.balanceOf z.cvxCrv z.self = 0
  zap : ∀ t, t ≠ z.cvxCrv → s'.balanceOf t z.self = s.balanceOf t z.self
  log : s'.log = s.log ++ (passedOn z.crv n₁ (.depositCrv z.crvDepositWrapper n₁
      amounts.minAmountOut options.lockCrvDeposit 0) ++
    ((if 0 < n₂ then [.pulled z.cvxCrv n₂] else []) ++
      (z.staked user options m ++ passedOn z.cvx n₃ (.lock z.locker user n₃))))

theorem relock_eq_ok {floor : Address → ℕ} (hz : z.Trusts ts x user) (hne : user ≠ z.self)
    (hk : Keeps user floor s)
    (h : z._relockRewards x s user (floor z.crv) (floor z.cvx) (floor z.cvxCrv) amounts options =
      .ok s') : ∃ n₁ n₂ m n₃, Relocked z ts user amounts options floor s s' n₁ n₂ m n₃ := by
  unfold _relockRewards at h
  obtain ⟨s₁, h₁, h⟩ := bind_eq_ok.1 h
  obtain ⟨s₂, h₂, h⟩ := bind_eq_ok.1 h
  obtain ⟨s₃, h₃, h₄⟩ := bind_eq_ok.1 h
  -- crv is pulled and deposited
  have hcrv : ∃ n₁, Spent (fun t => t ≠ z.cvxCrv) ts z.self user z.crv (floor z.crv)
      amounts.depositCrvMaxAmount n₁ (passedOn z.crv n₁ (.depositCrv z.crvDepositWrapper n₁
        amounts.minAmountOut options.lockCrvDeposit 0)) s s₁ := by
    split_ifs at h₁
    · exact pull_spent hne (fun n _ _ hx => perform_takes (hz.depositCrv n _ _) hx) h₁
    · cases h₁
      exact ⟨0, .none (hk _)⟩
  obtain ⟨n₁, hcrv⟩ := hcrv
  have hk₁ := hcrv.keeps le_rfl hk
  -- cvxCrv is pulled
  have hpull : ∃ n₂, Spent (fun t => t ≠ z.cvxCrv) ts z.self user z.cvxCrv (floor z.cvxCrv)
      amounts.depositCvxCrvMaxAmount n₂ (if 0 < n₂ then [.pulled z.cvxCrv n₂] else []) s₁ s₂ := by
    split_ifs at h₂
    · obtain ⟨r, hr, h₂⟩ := bind_eq_ok.1 h₂
      cases h₂
      exact ⟨_, (pull_eq_ok hne hr).1.spent⟩
    · cases h₂
      exact ⟨0, .none (hk₁ _)⟩
  obtain ⟨n₂, hpull⟩ := hpull
  have hk₂ := hpull.keeps le_rfl hk₁
  -- all of it is staked
  obtain ⟨⟨hzero, hothers⟩, hkept, hsame, hlog₃⟩ := stake_all hz h₃
  have hk₃ : Keeps user floor s₃ := fun t => (hk₂ t).trans (hkept t)
  -- cvx is pulled and locked
  have hcvx : ∃ n₃, Spent (fun _ => True) ts z.self user z.cvx (floor z.cvx)
      amounts.depositCvxMaxAmount n₃ (passedOn z.cvx n₃ (.lock z.locker user n₃)) s₃ s' := by
    split_ifs at h₄
    · exact pull_spent hne (fun n _ _ hx => perform_takes (hz.lock n) hx) h₄
    · cases h₄
      exact ⟨0, .none (hk₃ _)⟩
  obtain ⟨n₃, hcvx⟩ := hcvx
  have hle₃ (hmem : z.cvx ∈ ts) : s₃.balanceOf z.cvx user ≤ s.balanceOf z.cvx user :=
    (hsame _ hmem).trans ((hpull.unpaid _ hmem).trans (hcrv.unpaid _ hmem))
  refine ⟨n₁, n₂, s₂.balanceOf z.cvxCrv z.self, n₃, ⟨hcrv.le_claimed le_rfl, hcrv.le⟩,
    ⟨fun hmem => hpull.le_claimed (hcrv.unpaid _ hmem), hpull.le⟩,
    ⟨fun hmem => hcvx.le_claimed (hle₃ hmem), hcvx.le⟩, hcvx.keeps le_rfl hk₃,
    (hcvx.zap _ trivial).trans hzero, fun t ht => ?_, ?_⟩
  · rw [hcvx.zap t trivial, hothers t ht, hpull.zap t ht, hcrv.zap t ht]
  · rw [hcvx.log, hlog₃, hpull.log, hcrv.log]
    simp only [List.append_assoc]

/-- The zap claims, and what it then pulls has been claimed and is passed on. -/
theorem claimRewards_keeps (hz : z.Trusts ts x user) (hne : user ≠ z.self)
    (hfunds : options.useAllWalletFunds = false)
    (hclaims : ∀ c ∈ z.claims user rewardContracts extraRewardContracts tokenRewardContracts
      tokenRewardTokens options, Raises x z.self user c)
    (h : z.claimRewards x s user rewardContracts extraRewardContracts tokenRewardContracts
      tokenRewardTokens amounts options = .ok s') :
    (∀ t, s.balanceOf t user ≤ s'.balanceOf t user) ∧
      (∀ t, s'.balanceOf t z.self ≤ s.balanceOf t z.self) ∧
      ∃ s₁, z.claim x s user rewardContracts extraRewardContracts tokenRewardContracts
          tokenRewardTokens options = .ok s₁ ∧
        (_callRelockRewards options = false ∧ s' = s₁ ∨
          _callRelockRewards options = true ∧ ∃ n₁ n₂ m n₃, Relocked z ts user amounts options
            (fun t => s.balanceOf t user) s₁ s' n₁ n₂ m n₃) := by
  unfold claimRewards at h
  obtain ⟨-, h⟩ := require_bind_eq_ok.1 h
  obtain ⟨s₁, h₁, h⟩ := bind_eq_ok.1 h
  have hclaim := h₁
  rw [claim_eq] at h₁
  obtain ⟨hbal, -⟩ := performAll_raises hclaims h₁
  by_cases hrelock : _callRelockRewards options = true
  · have hsnapshot : options.useAllWalletFunds = false ∧ _callRelockRewards options = true :=
      ⟨hfunds, hrelock⟩
    simp only [if_pos hsnapshot, if_pos hrelock] at h
    have hkeeps : Keeps user (fun t => s.balanceOf t user) s₁ := fun t => (hbal t).2
    obtain ⟨n₁, n₂, m, n₃, hr⟩ := relock_eq_ok hz hne hkeeps h
    refine ⟨hr.keeps, fun t => ?_, s₁, hclaim, .inr ⟨hrelock, n₁, n₂, m, n₃, hr⟩⟩
    by_cases ht : t = z.cvxCrv
    · rw [ht, hr.nothing_left]
      exact Nat.zero_le _
    · exact ((hr.zap t ht).trans (hbal t).1).le
  · rw [if_neg hrelock] at h
    cases h
    exact ⟨fun t => (hbal t).2, fun t => (hbal t).1.le, _, hclaim,
      .inl ⟨Bool.eq_false_of_not_eq_true hrelock, rfl⟩⟩

end AuraClaimZapV3

/-! ## SidechainClaimZap -/

namespace SidechainClaimZap

variable {z : SidechainClaimZap} {amounts : ClaimRewardsAmounts} {options : Options}
  {zroPaymentAddress : Address}
  {rewardContracts extraRewardContracts tokenRewardContracts tokenRewardTokens : List Address}

/-- What the zap relies on. The refund of ether runs the code of the user, which is taken to
move no token of the zap and to lower no balance of the user. -/
structure Trusts (z : SidechainClaimZap) (ts : List Address) (x : External σ) (user : Address) :
    Prop where
  lockOft : ∀ value receiver n zro, Takes ts x z.self user z.cvx n
    (.lockOft z.cvx value receiver n zro)
  sendFrom : ∀ value dst n refund zro params, Takes ts x z.self user z.cvx n
    (.sendFrom z.cvx value z.self z.canonicalChainID dst n refund zro params)
  deposit : ∀ n, Takes ts x z.self user z.cvxCrv n (.deposit z.compounder n user)
  send : ∀ value, Raises x z.self user (.send user value)

/-- The claims. -/
def claims (user : Address)
    (rewardContracts extraRewardContracts tokenRewardContracts tokenRewardTokens : List Address) :
    List Call :=
  rewardContracts.map (.getRewardAndExtras · user true) ++
    (extraRewardContracts.map (.getReward · user) ++
      List.zipWith (.getTokenReward · user) tokenRewardContracts tokenRewardTokens)

theorem claim_eq (x : External σ) (s : State σ) (user : Address) :
    claim x s user rewardContracts extraRewardContracts tokenRewardContracts tokenRewardTokens =
      performAll x (claims user rewardContracts extraRewardContracts tokenRewardContracts
        tokenRewardTokens) s := by
  unfold claim claims
  simp only [performAll_append]

/-- The call that locks or bridges `n` cvx. -/
def bridge (z : SidechainClaimZap) (user : Address) (value : ℕ) (zroPaymentAddress : Address)
    (options : Options) (n : ℕ) : Call :=
  if options.lockCvxL1 = true then
    .lockOft z.cvx value (l1receiver user options) n zroPaymentAddress
  else .sendFrom z.cvx value z.self z.canonicalChainID (l1receiver user options) n user
    options.zro options.adapterParams

/-- What `_handleRewards` does : it pulls `n₁` cvx and locks or bridges it, pulls `n₂` cvxCrv
and deposits it, and leaves the user `floor`. -/
structure Handled (z : SidechainClaimZap) (ts : List Address) (user : Address) (value : ℕ)
    (zroPaymentAddress : Address) (amounts : ClaimRewardsAmounts) (options : Options)
    (floor : Address → ℕ) (s s' : State σ) (n₁ n₂ : ℕ) : Prop where
  cvx : n₁ ≤ s.balanceOf z.cvx user - floor z.cvx ∧
    n₁ ≤ if options.lockCvxL1 = true then amounts.lockCvxMaxAmount else amounts.bridgeCvxMaxAmount
  cvxCrv : (z.cvxCrv ∈ ts → n₂ ≤ s.balanceOf z.cvxCrv user - floor z.cvxCrv) ∧
    n₂ ≤ amounts.depositCvxCrvMaxAmount
  keeps : Keeps user floor s'
  zap : ∀ t, s'.balanceOf t z.self = s.balanceOf t z.self
  log : s'.log = s.log ++ (passedOn z.cvx n₁ (z.bridge user value zroPaymentAddress options n₁) ++
    passedOn z.cvxCrv n₂ (.deposit z.compounder n₂ user))

theorem handle_eq_ok {floor : Address → ℕ} {removeCvxCrv : ℕ} (hz : z.Trusts ts x user)
    (hne : user ≠ z.self) (hk : Keeps user floor s)
    (hremove : z.cvxCrv ≠ 0 → removeCvxCrv = floor z.cvxCrv)
    (h : z._handleRewards x s user value (floor z.cvx) removeCvxCrv zroPaymentAddress amounts
      options = .ok s') :
    ∃ n₁ n₂, Handled z ts user value zroPaymentAddress amounts options floor s s' n₁ n₂ := by
  unfold _handleRewards at h
  obtain ⟨s₁, h₁, h₂⟩ := bind_eq_ok.1 h
  -- cvx is locked or bridged
  have hcvx : ∃ n₁, Spent (fun _ => True) ts z.self user z.cvx (floor z.cvx)
      (if options.lockCvxL1 = true then amounts.lockCvxMaxAmount else amounts.bridgeCvxMaxAmount)
      n₁ (passedOn z.cvx n₁ (z.bridge user value zroPaymentAddress options n₁)) s s₁ := by
    unfold bridge
    split_ifs at h₁ ⊢
    · exact pull_spent hne (fun n _ _ hx => performWith_takes (hz.lockOft _ _ n _) hx) h₁
    · exact pull_spent hne (fun n _ _ hx => performWith_takes (hz.sendFrom _ _ n _ _ _) hx) h₁
    · cases h₁
      exact ⟨0, .none (hk _)⟩
  obtain ⟨n₁, hcvx⟩ := hcvx
  have hk₁ := hcvx.keeps le_rfl hk
  -- cvxCrv is compounded
  have hcvxCrv : ∃ n₂, Spent (fun _ => True) ts z.self user z.cvxCrv (floor z.cvxCrv)
      amounts.depositCvxCrvMaxAmount n₂ (passedOn z.cvxCrv n₂ (.deposit z.compounder n₂ user))
      s₁ s' := by
    split_ifs at h₂ with hcomp
    · rw [hremove hcomp.2.2] at h₂
      exact pull_spent hne (fun n _ _ hx => perform_takes (hz.deposit n) hx) h₂
    · cases h₂
      exact ⟨0, .none (hk₁ _)⟩
  obtain ⟨n₂, hcvxCrv⟩ := hcvxCrv
  refine ⟨n₁, n₂, ⟨hcvx.le_claimed le_rfl, hcvx.le⟩,
    ⟨fun hmem => hcvxCrv.le_claimed (hcvx.unpaid _ hmem), hcvxCrv.le⟩,
    hcvxCrv.keeps le_rfl hk₁, fun t => ?_, ?_⟩
  · rw [hcvxCrv.zap t trivial, hcvx.zap t trivial]
  · rw [hcvxCrv.log, hcvx.log, List.append_assoc]

/-- The refund of the ether moves no token of the zap and takes none of the user. -/
theorem refund_eq_ok (hz : z.Trusts ts x user) (h : (if options.refundEth = true then
      match performWith x z.self user (s.eth z.self) (.send user (s.eth z.self)) s with
      | .ok s => .ok s
      | .error _ => .error (.reason "!refund")
    else .ok s : Tx (State σ)) = .ok s') :
    (∀ t, s'.balanceOf t z.self = s.balanceOf t z.self ∧
      s.balanceOf t user ≤ s'.balanceOf t user) ∧
    s'.log = s.log ++
      if options.refundEth = true then [.called (.send user (s.eth z.self))] else [] := by
  split_ifs at h ⊢
  · split at h
    · next s₁ hsent =>
      cases h
      obtain ⟨w, hw, hsent⟩ := bind_eq_ok.1 hsent
      obtain ⟨hcall, hlog⟩ := perform_eq_ok hsent
      have hpay := pay_balanceOf hw
      refine ⟨fun t => ?_, hlog⟩
      obtain ⟨hzap, huser⟩ := hz.send _ _ _ hcall t
      exact ⟨hzap.trans (hpay t _), (hpay t _).ge.trans huser⟩
    · cases h
  · cases h
    exact ⟨fun _ => ⟨rfl, le_rfl⟩, (List.append_nil _).symm⟩

/-- The zap claims, and what it then pulls has been claimed and is passed on. -/
theorem claimRewards_keeps (hz : z.Trusts ts x user) (hne : user ≠ z.self)
    (hfunds : options.useAllWalletFunds = false)
    (hclaims : ∀ c ∈ claims user rewardContracts extraRewardContracts tokenRewardContracts
      tokenRewardTokens, Raises x z.self user c)
    (h : z.claimRewards x s user value zroPaymentAddress rewardContracts extraRewardContracts
      tokenRewardContracts tokenRewardTokens amounts options = .ok s') :
    (∀ t, s.balanceOf t user ≤ s'.balanceOf t user) ∧
      (∀ t, s'.balanceOf t z.self ≤ s.balanceOf t z.self) ∧
      ∃ w s₁ s₂, s.pay user z.self value = .ok w ∧
        claim x { s with toWorld := w } user rewardContracts extraRewardContracts
          tokenRewardContracts tokenRewardTokens = .ok s₁ ∧
        (_callOptions options = false ∧ s₂ = s₁ ∨
          _callOptions options = true ∧ ∃ n₁ n₂, Handled z ts user value zroPaymentAddress amounts
            options (fun t => s.balanceOf t user) s₁ s₂ n₁ n₂) ∧
        s'.log = s₂.log ++ if options.refundEth = true then
          [.called (.send user (s₂.eth z.self))] else [] := by
  unfold claimRewards at h
  obtain ⟨w, hw, h⟩ := bind_eq_ok.1 h
  obtain ⟨-, h⟩ := require_bind_eq_ok.1 h
  obtain ⟨s₁, h₁, h⟩ := bind_eq_ok.1 h
  obtain ⟨s₂, h₂, h₃⟩ := bind_eq_ok.1 h
  have hpay := pay_balanceOf hw
  have hclaim := h₁
  rw [claim_eq] at h₁
  obtain ⟨hraised, -⟩ := performAll_raises hclaims h₁
  have hbal : ∀ t, s₁.balanceOf t z.self = s.balanceOf t z.self ∧
      s.balanceOf t user ≤ s₁.balanceOf t user := fun t =>
    ⟨(hraised t).1.trans (hpay t z.self), (hpay t user).ge.trans (hraised t).2⟩
  -- what was claimed is locked, bridged or compounded
  have hhandled : _callOptions options = false ∧ s₂ = s₁ ∨
      _callOptions options = true ∧ ∃ n₁ n₂, Handled z ts user value zroPaymentAddress amounts
        options (fun t => s.balanceOf t user) s₁ s₂ n₁ n₂ := by
    by_cases hcall : _callOptions options = true
    · have hsnapshot : options.useAllWalletFunds = false ∧ _callOptions options = true :=
        ⟨hfunds, hcall⟩
      rw [if_pos hcall, if_pos hsnapshot] at h₂
      have hcvx : w.balanceOf z.cvx user = s.balanceOf z.cvx user := hpay _ _
      have hkeeps : Keeps user (fun t => s.balanceOf t user) s₁ := fun t => (hbal t).2
      refine .inr ⟨hcall, handle_eq_ok hz hne hkeeps (fun h0 => ?_) (hcvx ▸ h₂)⟩
      rw [if_pos ⟨hsnapshot, h0⟩]
      exact hpay _ _
    · rw [if_neg hcall] at h₂
      cases h₂
      exact .inl ⟨Bool.eq_false_of_not_eq_true hcall, rfl⟩
  have hkept : (∀ t, s.balanceOf t user ≤ s₂.balanceOf t user) ∧
      ∀ t, s₂.balanceOf t z.self = s.balanceOf t z.self := by
    rcases hhandled with ⟨-, rfl⟩ | ⟨-, n₁, n₂, hh⟩
    · exact ⟨fun t => (hbal t).2, fun t => (hbal t).1⟩
    · exact ⟨hh.keeps, fun t => (hh.zap t).trans (hbal t).1⟩
  -- the rest of the ether is sent back
  have hrefund := refund_eq_ok hz h₃
  refine ⟨fun t => (hkept.1 t).trans (hrefund.1 t).2, fun t => ?_, w, s₁, s₂, hw, hclaim, hhandled,
    hrefund.2⟩
  exact ((hrefund.1 t).1.trans (hkept.2 t)).le

end SidechainClaimZap

/-! ## Both zaps -/

/-- A successful call of a zap that is not asked to use all funds leaves the user at least
what it had of every token and the zap no more than it had of any. What is pulled was claimed
before (the first pull of all, and a later one of a token of the `ts`), does not exceed its
maximum, and is deposited, staked, locked or bridged for the user or the chosen receiver. -/
theorem zaps_leave_wallet :
    (∀ {σ : Type} (z : AuraClaimZapV3) (ts : List Address) (x : External σ) (s s' : State σ)
      (user : Address)
      (rewardContracts extraRewardContracts tokenRewardContracts tokenRewardTokens : List Address)
      (amounts : AuraClaimZapV3.ClaimRewardsAmounts) (options : AuraClaimZapV3.Options),
      user ≠ z.self → z.Trusts ts x user →
      (∀ c ∈ z.claims user rewardContracts extraRewardContracts tokenRewardContracts
        tokenRewardTokens options, Raises x z.self user c) →
      options.useAllWalletFunds = false →
      z.claimRewards x s user rewardContracts extraRewardContracts tokenRewardContracts
        tokenRewardTokens amounts options = .ok s' →
      (∀ t, s.balanceOf t user ≤ s'.balanceOf t user) ∧
      (∀ t, s'.balanceOf t z.self ≤ s.balanceOf t z.self) ∧
      ∃ s₁, z.claim x s user rewardContracts extraRewardContracts tokenRewardContracts
          tokenRewardTokens options = .ok s₁ ∧
        (AuraClaimZapV3._callRelockRewards options = false ∧ s' = s₁ ∨
          AuraClaimZapV3._callRelockRewards options = true ∧ ∃ n₁ n₂ m n₃,
            z.Relocked ts user amounts options (fun t => s.balanceOf t user) s₁ s' n₁ n₂ m n₃)) ∧
    ∀ {σ : Type} (z : SidechainClaimZap) (ts : List Address) (x : External σ) (s s' : State σ)
      (user : Address) (value : ℕ) (zroPaymentAddress : Address)
      (rewardContracts extraRewardContracts tokenRewardContracts tokenRewardTokens : List Address)
      (amounts : SidechainClaimZap.ClaimRewardsAmounts) (options : SidechainClaimZap.Options),
      user ≠ z.self → z.Trusts ts x user →
      (∀ c ∈ SidechainClaimZap.claims user rewardContracts extraRewardContracts
        tokenRewardContracts tokenRewardTokens, Raises x z.self user c) →
      options.useAllWalletFunds = false →
      z.claimRewards x s user value zroPaymentAddress rewardContracts extraRewardContracts
        tokenRewardContracts tokenRewardTokens amounts options = .ok s' →
      (∀ t, s.balanceOf t user ≤ s'.balanceOf t user) ∧
      (∀ t, s'.balanceOf t z.self ≤ s.balanceOf t z.self) ∧
      ∃ w s₁ s₂, s.pay user z.self value = .ok w ∧
        SidechainClaimZap.claim x { s with toWorld := w } user rewardContracts
          extraRewardContracts tokenRewardContracts tokenRewardTokens = .ok s₁ ∧
        (SidechainClaimZap._callOptions options = false ∧ s₂ = s₁ ∨
          SidechainClaimZap._callOptions options = true ∧ ∃ n₁ n₂,
            z.Handled ts user value zroPaymentAddress amounts options
              (fun t => s.balanceOf t user) s₁ s₂ n₁ n₂) ∧
        s'.log = s₂.log ++ if options.refundEth = true then
          [.called (.send user (s₂.eth z.self))] else [] :=
  ⟨fun _ _ _ _ _ _ _ _ _ _ _ _ hne hz hclaims hfunds h =>
      AuraClaimZapV3.claimRewards_keeps hz hne hfunds hclaims h,
    fun _ _ _ _ _ _ _ _ _ _ _ _ _ _ hne hz hclaims hfunds h =>
      SidechainClaimZap.claimRewards_keeps hz hne hfunds hclaims h⟩

/-! ## A computed run -/

/-- `n` of a token moves. -/
def moveToken (w : World Unit) (token src dst : Address) (n : ℕ) : Tx (World Unit) := do
  let t ← (w.tokens token).transfer src dst n
  .ok { w with tokens := update w.tokens token t }

theorem moveToken_eq_ok {w w' : World Unit} {src dst : Address}
    (h : moveToken w token src dst n = .ok w') :
    n ≤ w.balanceOf token src ∧ ∀ t a, w'.balanceOf t a =
      if t = token then move (w.balanceOf token) src dst n a else w.balanceOf t a := by
  obtain ⟨t, ht, h⟩ := bind_eq_ok.1 h
  cases h
  obtain ⟨-, -, hle, hbal, -, -⟩ := Erc20.transfer_eq_ok ht
  refine ⟨hle, fun u a => ?_⟩
  show (update w.tokens token t u).balanceOf a = _
  by_cases hu : u = token
  · rw [hu, update_self, if_pos rfl, hbal]
    rfl
  · rw [update_of_ne hu, if_neg hu]
    rfl

/-- What the zap passes on to a third account. -/
theorem moveToken_takes {dst : Address} {w w' : World Unit} (hne : user ≠ zap) (hd : zap ≠ dst)
    (hu : user ≠ dst) (h : moveToken w token zap dst n = .ok w') (t : Address) :
    w'.balanceOf t zap + (if t = token then n else 0) = w.balanceOf t zap ∧
      w'.balanceOf t user = w.balanceOf t user := by
  obtain ⟨hle, hbal⟩ := moveToken_eq_ok h
  rw [hbal, hbal]
  split_ifs with ht
  · subst ht
    rw [move_src _ _ hd, move_of_ne _ _ hne hu]
    exact ⟨Nat.sub_add_cancel hle, rfl⟩
  · exact ⟨Nat.add_zero _, rfl⟩

/-- A call that passes on what the zap has. -/
theorem takes_of_moveToken {x : External Unit} {dst : Address} (hne : user ≠ zap) (hd : zap ≠ dst)
    (hu : user ≠ dst) (hx : ∀ w, x c w = moveToken w token zap dst n) :
    Takes ts x zap user token n c := by
  have htake (w w' : World Unit) (h : x c w = .ok w') := moveToken_takes hne hd hu (hx w ▸ h)
  exact ⟨fun w w' h t _ => (htake w w' h t).1, fun w w' h t => (htake w w' h t).2.ge,
    fun w w' h t _ => (htake w w' h t).2.le⟩

/-- `n` of a token are minted. -/
def mintToken (w : World Unit) (token a : Address) (n : ℕ) : Tx (World Unit) := do
  let t ← (w.tokens token).mint a n
  .ok { w with tokens := update w.tokens token t }

theorem mintToken_eq_ok {w w' : World Unit} {a : Address} (h : mintToken w token a n = .ok w')
    (t b : Address) : w'.balanceOf t b =
      w.balanceOf t b + if t = token ∧ b = a then n else 0 := by
  obtain ⟨t', ht, h⟩ := bind_eq_ok.1 h
  cases h
  obtain ⟨-, hbal, -⟩ := Erc20.mint_eq_ok ht
  show (update w.tokens token t' t).balanceOf b = (w.tokens t).balanceOf b + _
  by_cases hu : t = token
  · rw [hu, update_self, hbal]
    by_cases hb : b = a
    · rw [hb, update_self, if_pos ⟨rfl, rfl⟩]
    · rw [update_of_ne hb, if_neg fun h => hb h.2, Nat.add_zero]
  · rw [update_of_ne hu, if_neg fun h => hu h.1, Nat.add_zero]

/-- A call that passes on what the zap has and gives the user as many shares. -/
theorem takes_of_mintToken {x : External Unit} {dst share : Address} (hne : user ≠ zap)
    (hd : zap ≠ dst) (hu : user ≠ dst) (hshare : share ∉ ts)
    (hx : ∀ w, x c w = moveToken w token zap dst n >>= fun w => mintToken w share user n) :
    Takes ts x zap user token n c := by
  have htake (w w' : World Unit) (h : x c w = .ok w') (t : Address) :
      w'.balanceOf t zap + (if t = token then n else 0) = w.balanceOf t zap ∧
        w'.balanceOf t user = w.balanceOf t user + if t = share then n else 0 := by
    obtain ⟨w₁, h₁, h₂⟩ := bind_eq_ok.1 (hx w ▸ h)
    obtain ⟨hzap, huser⟩ := moveToken_takes hne hd hu h₁ t
    have hminted := mintToken_eq_ok h₂ t
    rw [hminted zap, hminted user, if_neg fun h => hne h.2.symm, Nat.add_zero, huser]
    exact ⟨hzap, by simp only [and_true]⟩
  refine ⟨fun w w' h t _ => (htake w w' h t).1, fun w w' h t => ?_, fun w w' h t ht => ?_⟩
  · rw [(htake w w' h t).2]
    exact Nat.le_add_right _ _
  · have hne : t ≠ share := fun he => hshare (he ▸ ht)
    rw [(htake w w' h t).2, if_neg hne, Nat.add_zero]

/-- What a third account pays the user. -/
theorem moveToken_raises {src : Address} {w w' : World Unit} (hne : user ≠ zap) (hs : src ≠ zap)
    (hu : src ≠ user) (h : moveToken w token src user n = .ok w') (t : Address) :
    w'.balanceOf t zap = w.balanceOf t zap ∧ w.balanceOf t user ≤ w'.balanceOf t user := by
  obtain ⟨-, hbal⟩ := moveToken_eq_ok h
  rw [hbal, hbal]
  split_ifs with ht
  · subst ht
    rw [move_dst _ _ hu, move_of_ne _ _ hs.symm hne.symm]
    exact ⟨rfl, Nat.le_add_right _ _⟩
  · exact ⟨rfl, le_rfl⟩

/-- Contracts around the zap 50 : rewards are paid by whoever is asked, cvxCrv by the account
31, and a vault mints a share of its own for every cvxCrv. The tokens crv, cvx and cvxCrv are
11, 12 and 13. -/
def sample : External Unit
  | .getRewardAndExtras target a _, w => moveToken w 11 target a 10
  | .getReward target a, w => moveToken w 12 target a 7
  | .getTokenReward target a token, w => moveToken w token target a 3
  | .depositCrv target n _ _ _, w => do
    let w ← moveToken w 11 50 target n
    moveToken w 13 31 50 n
  | .deposit target n receiver, w => do
    let w ← moveToken w 13 50 target n
    mintToken w target receiver n
  | .stakeFor target _ n, w => moveToken w 13 50 target n
  | .lock target _ n, w => moveToken w 12 50 target n
  | .lockOft target _ _ n _, w => moveToken w 12 50 target n
  | .sendFrom target _ _ _ _ n _ _ _, w => moveToken w 12 50 target n
  | .send _ _, w => .ok w

def zapV3 : AuraClaimZapV3 :=
  ⟨50, 11, 12, 13, 21, 22, 23, 24⟩

def sidechainZap : SidechainClaimZap :=
  ⟨50, 12, 13, 24, 101⟩

theorem depositCrv_converts (m : ℕ) (lock : Bool) : Converts [11, 13, 12] sample 50 1 11 13 n
    (.depositCrv 21 n m lock 0) := by
  have htake (w w' : World Unit) (h : sample (.depositCrv 21 n m lock 0) w = .ok w')
      (t : Address) : (t ≠ 13 → w'.balanceOf t 50 + (if t = 11 then n else 0) = w.balanceOf t 50) ∧
        w'.balanceOf t 1 = w.balanceOf t 1 := by
    obtain ⟨w₁, h₁, h₂⟩ := bind_eq_ok.1 h
    have hne : (1 : Address) ≠ 50 := by decide
    obtain ⟨hzap, huser⟩ := moveToken_takes hne (by decide) (by decide) h₁ t
    obtain ⟨-, hbal⟩ := moveToken_eq_ok h₂
    refine ⟨fun ht => ?_, ?_⟩
    · rw [hbal, if_neg ht]
      exact hzap
    · rw [hbal, ← huser]
      split_ifs with ht
      · rw [ht, move_of_ne _ _ (by decide) (by decide)]
      · rfl
  exact ⟨fun w w' h t => (htake w w' h t).1, fun w w' h t => (htake w w' h t).2.ge,
    fun w w' h t _ => (htake w w' h t).2.le⟩

theorem zapV3_trusts : zapV3.Trusts [11, 13, 12] sample 1 where
  depositCrv _ m lock := depositCrv_converts m lock
  deposit _ := takes_of_mintToken (by decide) (by decide) (by decide) (by decide) fun _ => rfl
  stakeFor _ := takes_of_moveToken (by decide) (by decide) (by decide) fun _ => rfl
  lock _ := takes_of_moveToken (by decide) (by decide) (by decide) fun _ => rfl

theorem sidechainZap_trusts : sidechainZap.Trusts [12, 13] sample 1 where
  lockOft _ _ _ _ := takes_of_moveToken (by decide) (by decide) (by decide) fun _ => rfl
  sendFrom _ _ _ _ _ _ := takes_of_moveToken (by decide) (by decide) (by decide) fun _ => rfl
  deposit _ := takes_of_mintToken (by decide) (by decide) (by decide) (by decide) fun _ => rfl
  send _ w w' h t := by
    cases h
    exact ⟨rfl, le_rfl⟩

theorem sample_raises : Raises sample 50 1 (.getRewardAndExtras 31 1 true) :=
  fun _ _ h t => moveToken_raises (by decide) (by decide) (by decide) h t

theorem sample_raises_extra : Raises sample 50 1 (.getReward 31 1) :=
  fun _ _ h t => moveToken_raises (by decide) (by decide) (by decide) h t

theorem sample_raises_token (token : Address) :
    Raises sample 50 1 (.getTokenReward 31 1 token) :=
  fun _ _ h t => moveToken_raises (by decide) (by decide) (by decide) h t

/-- The account 31 holds all but 100 of a token, and these are in the wallet of the user. -/
def sampleToken : Erc20 Address :=
  let t := Erc20.single 31 (10 ^ 30) Erc20.single_supply_lt fun _ _ => 2 ^ 256 - 1
  match t.transfer 31 1 100 with
  | .ok t => t
  | .error _ => t

def sampleState : State Unit where
  tokens _ := sampleToken
  eth _ := 0
  rest := ()
  log := []

/-- The user claims crv and cvx, and the first zap deposits 5 of the one, compounds the cvxCrv
it gets for it, and locks 5 of the other ; the second locks 5 cvx on L1 and compounds 3 cvxCrv.
The user gets the shares of the compounder 24. -/
theorem zaps_leave_wallet_run : ∃ s₁ s₂ : State Unit,
    zapV3.claimRewards sample sampleState 1 [31] [31] [] [] ⟨5, 0, 5, 5⟩
        ⟨false, false, true, true, false, true, true⟩ = .ok s₁ ∧
      (∀ t, sampleState.balanceOf t 1 ≤ s₁.balanceOf t 1) ∧ s₁.balanceOf 24 1 = 105 ∧
      sidechainZap.claimRewards sample sampleState 1 0 0 [] [31] [31] [13] ⟨5, 5, 5⟩
        ⟨false, true, true, true, true, false, 0, 0, []⟩ = .ok s₂ ∧
      (∀ t, sampleState.balanceOf t 1 ≤ s₂.balanceOf t 1) ∧ s₂.balanceOf 24 1 = 103 := by
  have h₁ : (zapV3.claimRewards sample sampleState 1 [31] [31] [] [] ⟨5, 0, 5, 5⟩
      ⟨false, false, true, true, false, true, true⟩).map (fun s => s.balanceOf 24 1) =
        .ok 105 := by decide +kernel
  have h₂ : (sidechainZap.claimRewards sample sampleState 1 0 0 [] [31] [31] [13] ⟨5, 5, 5⟩
      ⟨false, true, true, true, true, false, 0, 0, []⟩).map (fun s => s.balanceOf 24 1) =
        .ok 103 := by decide +kernel
  obtain ⟨s₁, h₁, hshares₁⟩ := Tx.map_eq_ok.1 h₁
  obtain ⟨s₂, h₂, hshares₂⟩ := Tx.map_eq_ok.1 h₂
  have hraises₁ : ∀ c ∈ [Call.getRewardAndExtras 31 1 true, .getReward 31 1],
      Raises sample 50 1 c := by
    intro c hc
    rcases List.mem_cons.1 hc with rfl | hc
    · exact sample_raises
    · rw [List.mem_singleton.1 hc]
      exact sample_raises_extra
  have hraises₂ : ∀ c ∈ [Call.getReward 31 1, .getTokenReward 31 1 13],
      Raises sample 50 1 c := by
    intro c hc
    rcases List.mem_cons.1 hc with rfl | hc
    · exact sample_raises_extra
    · rw [List.mem_singleton.1 hc]
      exact sample_raises_token 13
  have hkept₁ := zaps_leave_wallet.1 zapV3 [11, 13, 12] sample sampleState s₁ 1 [31] [31] [] []
    ⟨5, 0, 5, 5⟩ ⟨false, false, true, true, false, true, true⟩ (by decide) zapV3_trusts hraises₁
    rfl h₁
  have hkept₂ := zaps_leave_wallet.2 sidechainZap [12, 13] sample sampleState s₂ 1 0 0 [] [31]
    [31] [13] ⟨5, 5, 5⟩ ⟨false, true, true, true, true, false, 0, 0, []⟩ (by decide)
    sidechainZap_trusts hraises₂ rfl h₂
  exact ⟨s₁, s₂, h₁, hkept₁.1, hshares₁, h₂, hkept₂.1, hshares₂⟩

end Aura.Peripheral
