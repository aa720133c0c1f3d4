import Silius.Primitives

/-!
# The `CallGas` sanity check

`CallGas::check_user_operation` (`validate/sanity/call_gas.rs`) simulates the
operation with `simulate_handle_op`, reads the base fee of the latest block,
and requires `call_gas_limit` to cover the call gas that
`calculate_call_gas_limit` derives from the simulation at the effective gas
price `min(max_fee_per_gas, max_priority_fee_per_gas + base_fee)`.

Every `U256` operator here panics on overflow and on division by zero.  The
sum `max_priority_fee_per_gas + base_fee` is taken before the `min`, so it
panics whenever it leaves 256 bits, even when `max_fee_per_gas` is the
smaller operand (`checkUserOperation_of_overflow`).  When the simulation and
the block answer, the check passes exactly when the call gas, computed in
exact arithmetic, fits in 256 bits and is covered
(`checkUserOperation_eq_ok_iff`).
-/

namespace Silius

namespace CallGas

/-- The `ExecutionResult` fields of `simulate_handle_op` the check reads. -/
structure ExecutionResult where
  preOpGas : U256
  paid : U256
  deriving DecidableEq, Repr

/-- The error of an entry-point call: a `FailedOp` with its reason, or another
error, kept as its debug text. -/
inductive EntryPointErr where
  | failedOp (reason : String)
  | other (message : String)
  deriving DecidableEq, Repr

/-- The block fields the check reads. -/
structure Block where
  baseFeePerGas : Option U256
  deriving DecidableEq, Repr

-- `CALL_STIPEND` of the spec
variable (callStipend : U256)

/-- Modelled from the spec: `utils::calculate_call_gas_limit` is not in the
sources; the spec gives
`(paid - pre_op_gas * effective_gas_price) / effective_gas_price + CALL_STIPEND`,
here with the panicking `U256` operators. -/
def calculateCallGasLimit (paid preOpGas feePerGas : U256) : Outcome SanityCheckError U256 := do
  let cost ← U256.mulChecked preOpGas feePerGas
  let rest ← U256.subChecked paid cost
  let gas ← U256.divChecked rest feePerGas
  U256.addChecked gas callStipend

/-- `check_user_operation`, given what `simulate_handle_op` and
`get_block(Latest)` answer. -/
def checkUserOperation (uo : UserOperation) (simulateHandleOp : Except EntryPointErr ExecutionResult)
    (latestBlock : Except String (Option Block)) : Outcome SanityCheckError Unit := do
  let execRes ← match simulateHandleOp with
    | .ok res => .ok res
    | .error (.failedOp reason) => .err (.validation reason)
    | .error (.other message) => .err (.unknownError message)
  let block ← match latestBlock with
    | .ok (some block) => .ok block
    | .ok none => .err (.unknownError "No block found")
    | .error message => .err (.unknownError message)
  let baseFeePerGas ← match block.baseFeePerGas with
    | some fee => .ok fee
    | none => .err (.unknownError "No base fee")
  let tipPlusBaseFee ← U256.addChecked uo.maxPriorityFeePerGas baseFeePerGas
  let callGasLimit ← calculateCallGasLimit callStipend execRes.paid execRes.preOpGas
    (min uo.maxFeePerGas tipPlusBaseFee)
  if uo.callGasLimit ≥ callGasLimit then .ok ()
  else .err (.lowCallGasLimit uo.callGasLimit callGasLimit)

/-- The sum `max_priority_fee_per_gas + base_fee` panics when it leaves 256
bits, whatever the simulation found. -/
theorem checkUserOperation_of_overflow (uo : UserOperation) (res : ExecutionResult) (fee : U256)
    (h : 2 ^ 256 ≤ uo.maxPriorityFeePerGas.val + fee.val) :
    checkUserOperation callStipend uo (.ok res) (.ok (some ⟨some fee⟩)) =
      .panicked .arithmeticOverflow := by
  simp [checkUserOperation, U256.addChecked_of_overflow h]

theorem calculateCallGasLimit_eq_ok {paid preOpGas feePerGas g : U256} :
    calculateCallGasLimit callStipend paid preOpGas feePerGas = .ok g ↔
      preOpGas.val * feePerGas.val ≤ paid.val ∧ 0 < feePerGas.val ∧
      (paid.val - preOpGas.val * feePerGas.val) / feePerGas.val + callStipend.val = g.val := by
  unfold calculateCallGasLimit U256.mulChecked U256.subChecked U256.divChecked U256.addChecked
  by_cases hm : preOpGas.val * feePerGas.val < 2 ^ 256
  swap
  · have := paid.isLt
    simp only [dif_neg hm, Outcome.bind_panicked, reduceCtorEq, false_iff]
    omega
  simp only [dif_pos hm, Outcome.bind_ok]
  by_cases hs : preOpGas.val * feePerGas.val ≤ paid.val
  swap
  · simp only [dif_neg hs, Outcome.bind_panicked, reduceCtorEq, false_iff]
    omega
  simp only [dif_pos hs, Outcome.bind_ok]
  by_cases hz : feePerGas.val = 0
  · simp only [hz, if_true, Outcome.bind_panicked, reduceCtorEq, false_iff]
    omega
  simp only [hz, if_false, Outcome.bind_ok]
  by_cases ha : (paid.val - preOpGas.val * feePerGas.val) / feePerGas.val + callStipend.val < 2 ^ 256
  · simp only [dif_pos ha, Outcome.ok.injEq]
    exact ⟨fun h => ⟨hs, Nat.pos_of_ne_zero hz, by rw [← h]⟩, fun ⟨_, _, h⟩ => Fin.ext h⟩
  · simp only [dif_neg ha, reduceCtorEq, false_iff]
    have := g.isLt
    omega

/-- **When the check passes.**  Given a simulation result and a latest block
with a base fee, `check_user_operation` returns `Ok` exactly when, in exact
arithmetic, `max_priority_fee_per_gas + base_fee` fits in 256 bits, the
effective gas price `p` is positive, the simulation paid at least
`pre_op_gas * p`, and the call gas `(paid - pre_op_gas * p) / p + CALL_STIPEND`
fits in 256 bits and is covered by `call_gas_limit`.  Every other case is an
`Err` or a panic. -/
theorem checkUserOperation_eq_ok_iff (uo : UserOperation) (res : ExecutionResult) (fee : U256) :
    checkUserOperation callStipend uo (.ok res) (.ok (some ⟨some fee⟩)) = .ok () ↔
      uo.maxPriorityFeePerGas.val + fee.val < 2 ^ 256 ∧
      let p := min uo.maxFeePerGas.val (uo.maxPriorityFeePerGas.val + fee.val)
      0 < p ∧ res.preOpGas.val * p ≤ res.paid.val ∧
        (res.paid.val - res.preOpGas.val * p) / p + callStipend.val < 2 ^ 256 ∧
        (res.paid.val - res.preOpGas.val * p) / p + callStipend.val ≤ uo.callGasLimit.val := by
  by_cases h1 : uo.maxPriorityFeePerGas.val + fee.val < 2 ^ 256
  swap
  · rw [checkUserOperation_of_overflow _ _ _ _ (Nat.not_lt.mp h1)]
    simp only [reduceCtorEq, false_iff, h1, false_and, not_false_eq_true]
  have hp : (min uo.maxFeePerGas ⟨_, h1⟩ : U256).val =
      min uo.maxFeePerGas.val (uo.maxPriorityFeePerGas.val + fee.val) := by
    rcases le_total uo.maxFeePerGas ⟨_, h1⟩ with h | h <;>
      simp [min_eq_left, min_eq_right, h, Fin.le_def.mp h]
  simp only [checkUserOperation, Outcome.bind_ok, U256.addChecked]
  rw [dif_pos h1]
  simp only [Outcome.bind_ok, h1, true_and]
  rw [← hp]
  generalize min uo.maxFeePerGas ⟨_, h1⟩ = p
  rcases hc : calculateCallGasLimit callStipend res.paid res.preOpGas p with g | e | e
  · obtain ⟨hs, hz, hg⟩ := (calculateCallGasLimit_eq_ok callStipend).mp hc
    have := g.isLt
    simp only [Outcome.bind_ok, ge_iff_le, Fin.le_def, hg]
    by_cases hl : g.val ≤ uo.callGasLimit.val <;> simp [hl, hs, hz]
  all_goals
    simp only [Outcome.bind_err, Outcome.bind_panicked, reduceCtorEq, false_iff]
    rintro ⟨hz, hs, ha, -⟩
    have := (calculateCallGasLimit_eq_ok callStipend (g := ⟨_, ha⟩)).mpr ⟨hs, hz, rfl⟩
    rw [hc] at this
    cases this

end CallGas

end Silius
