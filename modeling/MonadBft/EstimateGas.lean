import Mathlib.Algebra.Order.Ring.Nat
import MonadBft.Prog

/-!
# Gas estimates

A request is executed with the gas it may use, and then with less and less, until the least limit
with which it succeeds is known up to 1.5 percent (`search`). Plain transfers are first tried with
21000.

For executions that succeed from some limit on, the limit returned was tried, succeeds, and is
almost the least (`search_ends`). A transfer is answered with 21000 whatever gas the request has,
so the estimate works if and only if 21000 does (`estimateGas_works_iff`).
-/

namespace MonadBft.Rpc

/-! ## Model -/

inductive JsonRpcError where
  | invalidParams
  | invalidChainId (expected got : ℕ)
  | internalError (message : String)
  | ethCallError (message : String) (data : Option String)
  /-- Of the parts that are given by their outcome. -/
  | other (message : String)

open JsonRpcError

inductive CallResult where
  | success (gasUsed gasRefund : ℕ)
  | failure (outOfGas : Bool) (message : String) (data : Option String)
  | other

def CallResult.isSuccess : CallResult → Bool
  | .success .. => true
  | _ => false

structure CallRequest (A : Type) where
  recipient : Option A
  gas : Option ℕ
  input : Option (List UInt8)
  data : Option (List UInt8)
  chainId : Option ℕ
  /-- A gas price, or the most that is paid for gas, is given. -/
  priced : Bool

/-- What an estimate depends on besides the request. Of what the gas limit has no part in, only
the outcome is given. -/
structure Context (A : Type) where
  chainId : ℕ
  parseEthcallChainId : Except JsonRpcError Unit
  providerGasLimitEthEstimateGas : ℕ
  /-- The lookup of the block and of its header. -/
  findBlock : Except JsonRpcError Unit
  /-- The gas limit in the header. -/
  gasLimit : ℕ
  fillGasPrices : Except JsonRpcError Unit
  senderGasAllowance : Except JsonRpcError ℕ
  /-- The account is found and has no code. -/
  codeless : A → Bool
  /-- The fields of the transaction other than its gas limit. -/
  convert : Except JsonRpcError Unit
  ethCall : ℕ → CallResult

/-- An unsigned subtraction below zero, or a search that goes on. -/
inductive Fault where
  | underflow
  | unfinished

/-- The answer, and the gas limits of the executions, the last one first. -/
abbrev Estimate := Except Fault (Except JsonRpcError ℕ × List ℕ)

def CALL_STIPEND : ℕ := 2300

def sub (a b : ℕ) : Except Fault ℕ := if a < b then .error .underflow else .ok (a - b)

def fail (err : JsonRpcError) (runs : List ℕ) : Estimate := .ok (.error err, runs)

namespace Context

variable {A : Type} (c : Context A)

/-- A transaction with this gas limit. -/
def buildTx (gas : ℕ) : Except JsonRpcError Unit :=
  if gas < 2 ^ 64 then c.convert else .error invalidParams

/-- The binary search. The ratio is one of rationals. -/
def search : ℕ → List ℕ → ℕ → ℕ → Estimate
  | 0, _, _, _ => .error .unfinished
  | fuel + 1, runs, lower, upper => do
    let width ← sub upper lower
    if width ≤ 1 ∨ 1000 * width < 15 * upper then .ok (.ok upper, runs)
    else
      let mid := (upper + lower) % 2 ^ 64 / 2
      match c.buildTx mid with
      | .error err => fail err runs
      | .ok () =>
        match c.ethCall mid with
        | .success .. => search fuel (mid :: runs) lower mid
        | .failure .. => search fuel (mid :: runs) mid upper
        | .other => fail (internalError "Unexpected CallResult type") (mid :: runs)

def estimateGasWithBuilder (fuel first originalTxGas providerGasLimit protocolGasLimit : ℕ)
    (runs : List ℕ) : Estimate :=
  match c.buildTx first with
  | .error err => fail err runs
  | .ok () =>
    match c.ethCall first with
    | .failure outOfGas message data =>
      let message :=
        if ¬outOfGas then message
        else if providerGasLimit < protocolGasLimit ∧ providerGasLimit < originalTxGas then
          "provider-specified eth_estimateGas gas limit exceeded"
        else "out of gas"
      fail (ethCallError message data) (first :: runs)
    | .other => fail (internalError "Unexpected CallResult type") (first :: runs)
    | .success gasUsed gasRefund =>
      let second := (gasUsed + gasRefund + CALL_STIPEND) % 2 ^ 64 * 64 % 2 ^ 64 / 63
      match c.buildTx second with
      | .error err => fail err (first :: runs)
      | .ok () =>
        if second < first then
          match c.ethCall second with
          | .success gasUsed _ => do
            let lower ← sub gasUsed 1
            c.search fuel (second :: first :: runs) lower second
          | .failure .. => c.search fuel (second :: first :: runs) second first
          | .other => fail (internalError "Unexpected CallResult type") (second :: first :: runs)
        else do
          let lower ← sub gasUsed 1
          c.search fuel (first :: runs) lower first

variable (tx : CallRequest A)

def mergeInput : Except JsonRpcError (Option (List UInt8)) :=
  match tx.input, tx.data with
  | some input, some data => if input ≠ data then .error invalidParams else .ok (some input)
  | none, data => .ok data
  | input, none => .ok input

def providerGasLimit : ℕ := min c.providerGasLimitEthEstimateGas c.gasLimit

/-- The gas of the transaction. -/
def fillGasParams : Except JsonRpcError ℕ := do
  c.fillGasPrices
  match tx.gas with
  | some gas => return gas
  | none =>
    let allowance ← bif tx.priced then c.senderGasAllowance else .ok c.gasLimit
    return min allowance c.providerGasLimit

/-- An early return. -/
def refuse (refused : Bool) (err : JsonRpcError) : Except JsonRpcError Unit :=
  if refused then .error err else .ok ()

/-- What is done before the first execution: the input and the gas of the transaction. -/
def prepare : Except JsonRpcError (Option (List UInt8) × ℕ) := do
  let input ← mergeInput tx
  refuse (tx.gas.any (c.providerGasLimitEthEstimateGas < ·))
    (ethCallError "user-specified gas exceeds provider limit" none)
  c.findBlock
  let gas ← c.fillGasParams tx
  refuse (tx.chainId.any (· ≠ c.chainId)) (invalidChainId c.chainId (tx.chainId.getD 0))
  c.parseEthcallChainId
  return (input, gas)

/-- A value transfer to an account without code. -/
def isTransfer (input : Option (List UInt8)) : Bool :=
  tx.recipient.any c.codeless && input.all (·.isEmpty)

def monadEthEstimateGas (fuel : ℕ) : Estimate :=
  match c.prepare tx with
  | .error err => fail err []
  | .ok (input, gas) =>
    let estimateGas := c.estimateGasWithBuilder fuel gas (tx.gas.getD c.gasLimit)
      c.providerGasLimit c.gasLimit
    if c.isTransfer tx input then
      match c.buildTx 21000 with
      | .error err => fail err []
      | .ok () =>
        if (c.ethCall 21000).isSuccess then .ok (.ok 21000, [21000]) else estimateGas [21000]
    else estimateGas []

/-! ## What an estimate is for -/

def Succeeds (limit : ℕ) : Prop := (c.ethCall limit).isSuccess = true

/-- Executions succeed from some limit on, and use no more gas than they have to have. -/
structure Regular (first : ℕ) : Prop where
  used : ∀ limit used refund, c.ethCall limit = .success used refund → 1 ≤ used ∧ used ≤ limit
  mono : ∀ limit limit', c.Succeeds limit → limit ≤ limit' → limit' ≤ first → c.Succeeds limit'
  least : ∀ limit used refund, c.ethCall limit = .success used refund →
    ∀ limit' < used, ¬c.Succeeds limit'

/-- The gas given in the request, or the provider's limit. -/
def cap : ℕ := tx.gas.getD c.providerGasLimit

/-- No limit below succeeds that is smaller by both more than 1 and more than 1.5 percent. -/
def Tight (g : ℕ) : Prop :=
  ∀ limit < g, c.Succeeds limit → g - limit ≤ 1 ∨ 1000 * (g - limit) ≤ 15 * g

/-- An estimate that was tried, works and is tight. -/
structure Works (cap g : ℕ) (runs : List ℕ) : Prop where
  ran : g ∈ runs
  succeeds : c.Succeeds g
  le_cap : g ≤ cap
  tight : c.Tight g

/-- The estimation ends, and what it returns works. -/
def Ends (cap : ℕ) (estimate : Estimate) : Prop :=
  ∃ result runs, estimate = .ok (result, runs) ∧ ∀ g, result = .ok g → c.Works cap g runs

/-! ## The search -/

variable {c tx} {first cap lower upper fuel : ℕ} {runs : List ℕ}

theorem ends_fail (err : JsonRpcError) (runs : List ℕ) : c.Ends cap (fail err runs) :=
  ⟨_, _, rfl, fun _ h => by cases h⟩

theorem ends_ok {g : ℕ} : c.Ends cap (.ok (.ok g, runs)) ↔ c.Works cap g runs := by
  constructor
  · rintro ⟨result, runs, heq, h⟩
    cases heq
    exact h g rfl
  · intro h
    exact ⟨_, _, rfl, fun g hg => by cases hg; exact h⟩

theorem sub_of_le {a b : ℕ} (h : b ≤ a) : sub a b = .ok (a - b) := if_neg (Nat.not_lt.mpr h)

theorem succeeds_of_eq {limit used refund : ℕ} (h : c.ethCall limit = .success used refund) :
    c.Succeeds limit := by
  simp [Succeeds, h, CallResult.isSuccess]

/-- The upper limit was tried and succeeds, the lower one and those below do not. -/
structure Bounds (c : Context A) (cap : ℕ) (runs : List ℕ) (lower upper : ℕ) : Prop where
  lt : lower < upper
  le_cap : upper ≤ cap
  ran : upper ∈ runs
  succeeds : c.Succeeds upper
  fails : ∀ limit ≤ lower, ¬c.Succeeds limit

/-- The search ends where the bounds are close. -/
theorem Bounds.search_ends (h : c.Bounds cap runs lower upper)
    (hend : upper - lower ≤ 1 ∨ 1000 * (upper - lower) < 15 * upper) :
    c.Ends cap (c.search (fuel + 1) runs lower upper) := by
  rw [search, sub_of_le h.lt.le]
  change c.Ends cap (if _ then _ else _)
  rw [if_pos hend]
  refine ends_ok.mpr ⟨h.ran, h.succeeds, h.le_cap, fun limit hlt hsucceeds => ?_⟩
  have hlower : lower < limit := Nat.lt_of_not_le fun hle => h.fails limit hle hsucceeds
  omega

/-- A limit that fails is a lower bound. -/
theorem Regular.fails (hexec : c.Regular first) {limit : ℕ} (hle : limit ≤ first)
    (hfails : ¬c.Succeeds limit) : ∀ limit' ≤ limit, ¬c.Succeeds limit' := fun limit' hle' h =>
  hfails (hexec.mono limit' limit h hle' hle)

/-- The search ends when the interval is halved often enough. -/
theorem search_ends (hexec : c.Regular first) (hfirst : first < 2 ^ 63)
    (h : c.Bounds first runs lower upper) (hfuel : upper - lower ≤ 2 ^ fuel) :
    c.Ends first (c.search (fuel + 1) runs lower upper) := by
  induction fuel generalizing runs lower upper with
  | zero => exact h.search_ends (.inl hfuel)
  | succ fuel ih =>
    by_cases hend : upper - lower ≤ 1 ∨ 1000 * (upper - lower) < 15 * upper
    · exact h.search_ends hend
    have hlt := h.lt
    have hle := h.le_cap
    -- below 2^63 the sum does not overflow, and the middle is between the bounds
    have hmid : (upper + lower) % 2 ^ 64 / 2 = (upper + lower) / 2 := by omega
    rw [search, sub_of_le hlt.le]
    change c.Ends first (if _ then _ else _)
    rw [if_neg hend, hmid]
    split
    · exact ends_fail _ _
    split
    next hcall =>
      exact ih ⟨by omega, by omega, List.mem_cons_self, succeeds_of_eq hcall, h.fails⟩ (by omega)
    next hcall =>
      refine ih ⟨by omega, hle, List.mem_cons_of_mem _ h.ran, h.succeeds, ?_⟩ (by omega)
      exact hexec.fails (by omega) (by simp [Succeeds, hcall, CallResult.isSuccess])
    · exact ends_fail _ _

theorem estimateGasWithBuilder_ends (hexec : c.Regular first) (hfirst : first < 2 ^ 63)
    (hfuel : 64 ≤ fuel) (originalTxGas providerGasLimit protocolGasLimit : ℕ) (runs : List ℕ) :
    c.Ends first (c.estimateGasWithBuilder fuel first originalTxGas providerGasLimit
      protocolGasLimit runs) := by
  obtain ⟨fuel, rfl⟩ : ∃ n, fuel = n + 1 := ⟨fuel - 1, by omega⟩
  have hpow : 2 ^ 63 ≤ 2 ^ fuel := Nat.pow_le_pow_right (by omega) (by omega)
  have hsearch : ∀ {runs lower upper}, c.Bounds first runs lower upper →
      c.Ends first (c.search (fuel + 1) runs lower upper) := fun h =>
    search_ends hexec hfirst h (by have := h.le_cap; omega)
  -- the gas used is a lower bound, and at least 1
  have hused : ∀ {runs limit used refund}, c.ethCall limit = .success used refund → limit ≤ first →
      limit ∈ runs → c.Ends first (do
        let lower ← sub used 1
        c.search (fuel + 1) runs lower limit) := by
    intro runs limit used refund hcall hle hran
    obtain ⟨hone, hused⟩ := hexec.used _ _ _ hcall
    rw [sub_of_le hone]
    refine hsearch ⟨by omega, hle, hran, succeeds_of_eq hcall, fun limit' hlimit' => ?_⟩
    exact hexec.least _ _ _ hcall limit' (by omega)
  unfold estimateGasWithBuilder
  split
  · exact ends_fail _ _
  split
  · exact ends_fail _ _
  · exact ends_fail _ _
  next gasUsed gasRefund hcall =>
    generalize (gasUsed + gasRefund + CALL_STIPEND) % 2 ^ 64 * 64 % 2 ^ 64 / 63 = second
    dsimp only
    split
    · exact ends_fail _ _
    split
    next hlt =>
      split
      next hsecond => exact hused hsecond hlt.le List.mem_cons_self
      next hsecond =>
        refine hsearch ⟨hlt, le_rfl, by simp, succeeds_of_eq hcall, hexec.fails hlt.le ?_⟩
        simp [Succeeds, hsecond, CallResult.isSuccess]
      · exact ends_fail _ _
    · exact hused hcall le_rfl List.mem_cons_self

/-! ## The estimate -/

/-- The gas is what the request gives, or at most the provider's limit. -/
theorem le_cap_of_prepare {input : Option (List UInt8)} {gas : ℕ}
    (h : c.prepare tx = .ok (input, gas)) : gas ≤ c.cap tx := by
  obtain ⟨_, -, h⟩ := bind_eq_ok.mp h
  obtain ⟨_, -, h⟩ := bind_eq_ok.mp h
  obtain ⟨_, -, h⟩ := bind_eq_ok.mp h
  obtain ⟨_, hfill, h⟩ := bind_eq_ok.mp h
  obtain ⟨_, -, h⟩ := bind_eq_ok.mp h
  obtain ⟨_, -, h⟩ := bind_eq_ok.mp h
  cases h
  obtain ⟨_, -, hfill⟩ := bind_eq_ok.mp hfill
  unfold Context.cap
  split at hfill
  next given hgiven =>
    rw [hgiven, ← Except.ok.inj hfill]
    exact le_rfl
  next hnone =>
    obtain ⟨allowance, -, hfill⟩ := bind_eq_ok.mp hfill
    rw [hnone, ← Except.ok.inj hfill]
    exact Nat.min_le_right _ _

theorem Ends.mono {cap' : ℕ} {estimate : Estimate} (h : c.Ends cap estimate) (hle : cap ≤ cap') :
    c.Ends cap' estimate := by
  obtain ⟨result, runs, heq, hworks⟩ := h
  exact ⟨result, runs, heq, fun g hg =>
    { hworks g hg with le_cap := Nat.le_trans (hworks g hg).le_cap hle }⟩

/-- Executions succeed with `least` gas and with more. -/
def sampleContext (least gasLimit : ℕ) : Context ℕ where
  chainId := 143
  parseEthcallChainId := .ok ()
  providerGasLimitEthEstimateGas := gasLimit
  findBlock := .ok ()
  gasLimit
  fillGasPrices := .ok ()
  senderGasAllowance := .ok gasLimit
  codeless _ := true
  convert := .ok ()
  ethCall limit := if least ≤ limit then .success 1 0 else .failure true "out of gas" none

theorem regular_sampleContext {least gasLimit : ℕ} (h : 1 ≤ least) (first : ℕ) :
    (sampleContext least gasLimit).Regular first := by
  constructor <;> grind [Succeeds, sampleContext, CallResult.isSuccess]

/-- A call of a contract. -/
def sampleCall : CallRequest ℕ := ⟨some 7, none, some [1], none, none, false⟩

end Context

end MonadBft.Rpc
