import Silius.Services.SanityCheck

/-!
# `validate_user_operation`

The sanity checks `UoPoolService::validate_user_operation` runs in order
(`src/uopool/services/sanity_check.rs`), stopping at the first error:
`sender_or_init_code`, `verify_factory`, `verification_gas`,
`verify_paymaster`, `call_gas_limit`, `max_fee_per_gas` and `verify_sender`.
The last two are modelled in `Services.SanityCheck`.

Everything the checks learn from outside the pool is an `Answers`: the code
and gas answers of the provider, the entry point registered for the pool (its
`get_deposit_info`), and the reputation registered for it.  The pool itself
may not be registered either.  Every theorem holds for all answers and for a
registered pool or none.

Besides its outcome, a run records `SanityCheckResult`s for the operation:
`FactoryVerified` and `SenderVerified` when a stake is verified,
`PaymasterVerified` when the paymaster's deposit exceeds the operation's max
fee and the paymaster is not banned.  `verify_paymaster` returns `Ok` either
way: the deposit and the ban of the paymaster are recorded, not enforced.

* `validateUserOperation_sound` — what an `Ok` guarantees;
* `validateUserOperation_complete` — conversely, an `Admissible` operation is
  admitted: the guarantees of an `Ok`, with the deposit queries for the
  factory, the paymaster and a sender already in the pool answered;
* `validateUserOperation_admits_banned_paymaster` — an operation whose
  paymaster is banned and holds no deposit is admitted, whatever
  pre-verification gas is calculated for it.
-/

namespace Silius

/-- The fields of `get_deposit_info`'s answer the checks read, as `U256::from`
converts them. -/
structure DepositInfo where
  deposit : U256
  stake : U256
  unstakeDelaySec : U256
  deriving DecidableEq, Repr

/-- The `StakeInfo` that `verify_stake` is given. -/
structure StakeInfo where
  address : Address
  stake : U256
  unstakeDelay : U256
  deriving DecidableEq, Repr

/-- What the reputation registered for the pool answers: whether
`verify_stake(entity, Some(info))` is `Ok`, and `get_status`. -/
structure ReputationAnswers where
  verifyStake : String → StakeInfo → Bool
  getStatus : Address → Status

/-- What `validate_user_operation` learns from outside the pool; `none` is an
error of the call, or no entry point or reputation registered for the pool. -/
structure Answers where
  /-- `eth_provider.get_code(address)`. -/
  getCode : Address → Option Bytes
  /-- `eth_provider.estimate_gas` of a call `from`, `to`, with `data`. -/
  estimateGas : Address → Address → Bytes → Option U256
  /-- `eth_provider.get_gas_price()`. -/
  gasPrice : Option U256
  /-- `get_deposit_info` of the entry point registered for the pool. -/
  entryPoint : Option (Address → Option DepositInfo)
  /-- The reputation registered for the pool. -/
  reputation : Option ReputationAnswers

/-- Modelled from its uses: the results a check records for an operation. -/
inductive SanityCheckResult where
  | factoryVerified
  | paymasterVerified
  | senderVerified
  deriving DecidableEq, Repr

namespace UoPoolService

/-! ## The checks -/

/-- `sender_or_init_code`: the sender has code, or the operation deploys it,
but not both. -/
def senderOrInitCode (answers : Answers) (uo : UserOperation) : Outcome BadUserOperationError Unit :=
  match answers.getCode uo.sender with
  | none => .err .middleware
  | some code =>
    if (code.isEmpty && uo.initCode.isEmpty) || (!code.isEmpty && !uo.initCode.isEmpty) then
      .err (.senderOrInitCode uo.sender uo.initCode)
    else .ok ()

/-- `verify_factory`: a non-empty `init_code` must hold a factory address; the
factory's deposit is read, and `FactoryVerified` recorded if its stake is
verified. -/
def verifyFactory (answers : Answers) (uo : UserOperation) :
    Outcome BadUserOperationError (List SanityCheckResult) :=
  if uo.initCode.isEmpty then .ok []
  else if uo.initCode.length ≥ 20 then
    let factoryAddress := addressFromSlice (uo.initCode.take 20)
    match answers.entryPoint with
    | none => .ok []
    | some getDepositInfo =>
      match getDepositInfo factoryAddress with
      | none => .err (.factoryVerification uo.initCode)
      | some depositInfo =>
        match answers.reputation with
        | none => .ok []
        | some reputation =>
          if reputation.verifyStake "factory" ⟨factoryAddress, depositInfo.stake, depositInfo.unstakeDelaySec⟩
          then .ok [.factoryVerified] else .ok []
  else .err (.factoryVerification uo.initCode)

/-- `verification_gas`: the verification gas limit is at most
`max_verification_gas`, and the pre-verification gas covers the calculated
one. -/
def verificationGas (maxVerificationGas : U256) (calculatePreVerificationGas : UserOperation → U256)
    (uo : UserOperation) : Outcome BadUserOperationError Unit :=
  if uo.verificationGasLimit > maxVerificationGas then
    .err (.highVerificationGasLimit uo.verificationGasLimit maxVerificationGas)
  else
    let calculatedPreVerificationGas := calculatePreVerificationGas uo
    if uo.preVerificationGas < calculatedPreVerificationGas then
      .err (.lowPreVerificationGas uo.preVerificationGas calculatedPreVerificationGas)
    else .ok ()

/-- `verify_paymaster`: a non-empty `paymaster_and_data` must hold the address
of a contract with code; the paymaster's deposit is read, and
`PaymasterVerified` recorded if the deposit exceeds the max fee and the
paymaster is not banned.  Either way the check returns `Ok`. -/
def verifyPaymaster (answers : Answers) (uo : UserOperation) :
    Outcome BadUserOperationError (List SanityCheckResult) :=
  if uo.paymasterAndData.isEmpty then .ok []
  else if uo.paymasterAndData.length ≥ 20 then
    let paymasterAddress := addressFromSlice (uo.paymasterAndData.take 20)
    match answers.getCode paymasterAddress with
    | none => .err .middleware
    | some code =>
      if code.isEmpty then .err (.paymasterVerification uo.paymasterAndData)
      else match answers.entryPoint with
        | none => .ok []
        | some getDepositInfo =>
          match getDepositInfo paymasterAddress with
          | none => .err (.paymasterVerification uo.paymasterAndData)
          | some depositInfo =>
            if depositInfo.deposit > uo.maxFeePerGas then
              match answers.reputation with
              | none => .ok []
              | some reputation =>
                if reputation.getStatus paymasterAddress ≠ .banned then .ok [.paymasterVerified]
                else .ok []
            else .ok []
  else .err (.paymasterVerification uo.paymasterAndData)

/-- `call_gas_limit`: the call gas limit covers the provider's estimate of the
call from the entry point to the sender. -/
def callGasLimit (answers : Answers) (entryPoint : Address) (uo : UserOperation) :
    Outcome BadUserOperationError Unit :=
  match answers.estimateGas entryPoint uo.sender uo.callData with
  | none => .err .middleware
  | some callGasEstimation =>
    if uo.callGasLimit < callGasEstimation then
      .err (.lowCallGasLimit uo.callGasLimit callGasEstimation)
    else .ok ()

/-- What `verify_sender` learns between its two reads of the pool: no entry
point, a failed `get_deposit_info`, or whether `verify_stake` accepts the
sender's stake (refused when no reputation is registered). -/
def stakeAnswer (answers : Answers) (uo : UserOperation) : StakeAnswer :=
  match answers.entryPoint with
  | none => .noEntryPoint
  | some getDepositInfo =>
    match getDepositInfo uo.sender with
    | none => .depositFailed
    | some depositInfo =>
      match answers.reputation with
      | none => .notStaked
      | some reputation =>
        if reputation.verifyStake "sender" ⟨uo.sender, depositInfo.stake, depositInfo.unstakeDelaySec⟩
        then .staked else .notStaked

/-- The result `verify_sender` records, which `verifySenderIn` leaves out:
`SenderVerified` when its stake is verified and the first read did not admit
the sender, because no pool is registered or the pool holds an operation of
the sender. -/
def senderVerified (mempool : Option MemoryMempool) (stake : StakeAnswer) (uo : UserOperation) :
    List SanityCheckResult :=
  if stake = .staked ∧ mempool.map (·.getNumberBySender uo.sender) ≠ some 0 then [.senderVerified]
  else []

/-- A sequence of `?`-checks: run them in order and stop at the first that does
not return `Ok`; what the checks before it recorded stays recorded. -/
def runChecks : List (Outcome BadUserOperationError (List SanityCheckResult)) →
    Outcome BadUserOperationError Unit × List SanityCheckResult
  | [] => (.ok (), [])
  | .ok recorded :: rest => ((runChecks rest).1, recorded ++ (runChecks rest).2)
  | .err e :: _ => (.err e, [])
  | .panicked p :: _ => (.panicked p, [])

/-- A check that records nothing. -/
def recordsNothing (check : Outcome BadUserOperationError Unit) :
    Outcome BadUserOperationError (List SanityCheckResult) :=
  (fun _ => []) <$> check

/-- `validate_user_operation`: its outcome, and the results recorded for the
operation (the entry is reset first).  `mempool` is the pool registered for
the entry point, if any, read as `verifySenderIn` reads it, with `ord` the
order its sender set yields. -/
def validateUserOperation (maxVerificationGas minPriorityFeePerGas : U256)
    (calculatePreVerificationGas : UserOperation → U256) (ord : IterOrder UserOperationHash)
    (answers : Answers) (mempool : Option MemoryMempool) (uo : UserOperation) (entryPoint : Address) :
    Outcome BadUserOperationError Unit × List SanityCheckResult :=
  runChecks
    [recordsNothing (senderOrInitCode answers uo),
     verifyFactory answers uo,
     recordsNothing (verificationGas maxVerificationGas calculatePreVerificationGas uo),
     verifyPaymaster answers uo,
     recordsNothing (callGasLimit answers entryPoint uo),
     recordsNothing (maxFeePerGas minPriorityFeePerGas answers.gasPrice uo),
     (fun _ => senderVerified mempool (stakeAnswer answers uo) uo) <$>
       verifySenderIn ord mempool (stakeAnswer answers uo) uo]

/-! ## What each check's `Ok` guarantees -/

variable {answers : Answers} {uo : UserOperation}

theorem runChecks_eq_ok {checks : List (Outcome BadUserOperationError (List SanityCheckResult))} :
    (runChecks checks).1 = .ok () ↔ ∀ check ∈ checks, ∃ recorded, check = .ok recorded := by
  induction checks with
  | nil => simp [runChecks]
  | cons check rest ih => cases check <;> simp [runChecks, ih]

theorem mem_runChecks {checks : List (Outcome BadUserOperationError (List SanityCheckResult))}
    {r : SanityCheckResult} (hr : r ∈ (runChecks checks).2) :
    ∃ recorded, .ok recorded ∈ checks ∧ r ∈ recorded := by
  induction checks with
  | nil => simp [runChecks] at hr
  | cons check rest ih =>
    cases check with
    | ok recorded =>
      rcases List.mem_append.mp hr with hr | hr
      · exact ⟨recorded, .head _, hr⟩
      · obtain ⟨rs, hrs, hr⟩ := ih hr
        exact ⟨rs, .tail _ hrs, hr⟩
    | err e => simp [runChecks] at hr
    | panicked p => simp [runChecks] at hr

theorem senderOrInitCode_ok (h : senderOrInitCode answers uo = .ok ()) :
    ∃ code, answers.getCode uo.sender = some code ∧ Xor' (code ≠ []) (uo.initCode ≠ []) := by
  unfold senderOrInitCode at h
  split at h
  · cases h
  · rename_i code hc
    refine ⟨code, hc, ?_⟩
    split at h
    · cases h
    · rename_i hne
      simp only [Bool.or_eq_true, Bool.and_eq_true, Bool.not_eq_true', List.isEmpty_iff,
        List.isEmpty_eq_false] at hne
      unfold Xor'
      tauto

theorem verifyFactory_ok {recorded : List SanityCheckResult}
    (h : verifyFactory answers uo = .ok recorded) : uo.initCode = [] ∨ 20 ≤ uo.initCode.length := by
  unfold verifyFactory at h
  split at h
  · exact .inl (List.isEmpty_iff.mp ‹_›)
  · split at h
    · exact .inr ‹_›
    · cases h

theorem verificationGas_ok {maxVerificationGas : U256} {calculatePreVerificationGas : UserOperation → U256}
    (h : verificationGas maxVerificationGas calculatePreVerificationGas uo = .ok ()) :
    uo.verificationGasLimit ≤ maxVerificationGas ∧ calculatePreVerificationGas uo ≤ uo.preVerificationGas := by
  unfold verificationGas at h
  by_cases h₁ : uo.verificationGasLimit > maxVerificationGas
  · simp [h₁] at h
  by_cases h₂ : uo.preVerificationGas < calculatePreVerificationGas uo
  · simp [h₁, h₂] at h
  exact ⟨not_lt.mp h₁, not_lt.mp h₂⟩

/-- An `Ok` of `verify_paymaster`: no paymaster and nothing recorded, or a
paymaster of at least 20 bytes with code; `PaymasterVerified` is recorded only
for a paymaster of the registered entry point whose deposit exceeds the max
fee and which the registered reputation does not ban. -/
theorem verifyPaymaster_ok {recorded : List SanityCheckResult}
    (h : verifyPaymaster answers uo = .ok recorded) :
    uo.paymasterAndData = [] ∧ recorded = [] ∨ 20 ≤ uo.paymasterAndData.length ∧
      (∃ code, answers.getCode (addressFromSlice (uo.paymasterAndData.take 20)) = some code ∧
        code ≠ []) ∧
      (.paymasterVerified ∈ recorded →
        ∃ getDepositInfo depositInfo reputation, answers.entryPoint = some getDepositInfo ∧
          getDepositInfo (addressFromSlice (uo.paymasterAndData.take 20)) = some depositInfo ∧
          uo.maxFeePerGas < depositInfo.deposit ∧ answers.reputation = some reputation ∧
          reputation.getStatus (addressFromSlice (uo.paymasterAndData.take 20)) ≠ .banned) := by
  unfold verifyPaymaster at h
  by_cases he : uo.paymasterAndData.isEmpty
  · rw [if_pos he] at h; exact .inl ⟨List.isEmpty_iff.mp he, (Outcome.ok.inj h).symm⟩
  by_cases hl : uo.paymasterAndData.length ≥ 20
  swap
  · rw [if_neg he, if_neg hl] at h; cases h
  rw [if_neg he, if_pos hl] at h
  refine .inr ⟨hl, ?_⟩
  generalize addressFromSlice (uo.paymasterAndData.take 20) = p at h ⊢
  rcases hc : answers.getCode p with _ | code
  · simp [hc] at h
  by_cases hcode : code = []
  · simp [hc, hcode] at h
  refine ⟨⟨code, rfl, hcode⟩, fun hr => ?_⟩
  rcases hep : answers.entryPoint with _ | getDepositInfo
  · simp [hc, hcode, hep] at h; subst h; cases hr
  rcases hd : getDepositInfo p with _ | depositInfo
  · simp [hc, hcode, hep, hd] at h
  rcases hrep : answers.reputation with _ | reputation
  · simp [hc, hcode, hep, hd, hrep] at h; subst h; simp at hr
  by_cases hdep : depositInfo.deposit > uo.maxFeePerGas
  · by_cases hst : reputation.getStatus p = .banned
    · simp [hc, hcode, hep, hd, hrep, hdep, hst] at h; subst h; simp at hr
    · exact ⟨getDepositInfo, depositInfo, reputation, rfl, hd, hdep, rfl, hst⟩
  · simp [hc, hcode, hep, hd, hrep, hdep] at h; subst h; simp at hr

theorem callGasLimit_ok {entryPoint : Address} (h : callGasLimit answers entryPoint uo = .ok ()) :
    ∃ callGasEstimation, answers.estimateGas entryPoint uo.sender uo.callData = some callGasEstimation ∧
      callGasEstimation ≤ uo.callGasLimit := by
  unfold callGasLimit at h
  split at h
  · cases h
  · split at h
    · cases h
    · exact ⟨_, ‹_›, not_lt.mp ‹_›⟩

theorem maxFeePerGas_ok {minPriorityFeePerGas : U256} {gasPrice : Option U256}
    (h : maxFeePerGas minPriorityFeePerGas gasPrice uo = .ok ()) :
    ∃ price, gasPrice = some price ∧ uo.maxPriorityFeePerGas ≤ uo.maxFeePerGas ∧
      price.val + uo.maxPriorityFeePerGas.val ≤ uo.maxFeePerGas.val ∧
      minPriorityFeePerGas ≤ uo.maxPriorityFeePerGas := by
  cases gasPrice with
  | none => cases h
  | some price =>
    refine ⟨price, rfl, ?_⟩
    simp only [maxFeePerGas, Outcome.bind_ok] at h
    by_cases h₁ : uo.maxPriorityFeePerGas > uo.maxFeePerGas
    · simp [h₁] at h
    by_cases hlt : price.val + uo.maxPriorityFeePerGas.val < 2 ^ 256
    · simp only [h₁, if_false, U256.addChecked, dif_pos hlt, Outcome.bind_ok] at h
      split_ifs at h with h₂ h₃
      exact ⟨not_lt.mp h₁, Nat.not_lt.mp (Fin.lt_def.not.mp h₂), not_lt.mp h₃⟩
    · simp [h₁, U256.addChecked_of_overflow (Nat.not_lt.mp hlt)] at h

/-- **The sender rule** an `Ok` of `verify_sender` guarantees: the sender's stake
is verified, or a pool is registered and either holds no operation of the
sender, or the first operation of the sender it lists has the same nonce, a
lower tip, and a max fee lower by as much. -/
def SenderRule (ord : IterOrder UserOperationHash) (mempool : Option MemoryMempool)
    (stake : StakeAnswer) (uo : UserOperation) : Prop :=
  stake = .staked ∨ ∃ m, mempool = some m ∧ (m.getNumberBySender uo.sender = 0 ∨
    ∃ prev, (m.getAllBySender ord uo.sender).head? = some prev ∧ prev.sender = uo.sender ∧
      prev.nonce = uo.nonce ∧ prev.maxPriorityFeePerGas < uo.maxPriorityFeePerGas ∧
      (uo.maxFeePerGas.val : ℤ) - prev.maxFeePerGas.val =
        (uo.maxPriorityFeePerGas.val : ℤ) - prev.maxPriorityFeePerGas.val)

theorem compareWithPrevious_ok {ord : IterOrder UserOperationHash} {mempool : MemoryMempool}
    (h : compareWithPrevious ord mempool uo = .ok ()) :
    ∃ prev, (mempool.getAllBySender ord uo.sender).head? = some prev ∧ prev.sender = uo.sender ∧
      prev.nonce = uo.nonce ∧ prev.maxPriorityFeePerGas < uo.maxPriorityFeePerGas ∧
      (uo.maxFeePerGas.val : ℤ) - prev.maxFeePerGas.val =
        (uo.maxPriorityFeePerGas.val : ℤ) - prev.maxPriorityFeePerGas.val := by
  unfold compareWithPrevious at h
  split at h
  · cases h
  rename_i prev hp
  unfold U256.subChecked at h
  split at h
  · simp only [Outcome.bind_ok] at h
    split_ifs at h with hc hf
    · simp only [Outcome.bind_ok] at h
      split_ifs at h with he
      have he' := Fin.val_eq_of_eq he
      simp only at he'
      exact ⟨prev, hp, hc.1.symm, hc.2.1.symm, hc.2.2, by omega⟩
    · cases h
  · cases h

theorem verifySenderIn_ok {ord : IterOrder UserOperationHash} {mempool : Option MemoryMempool}
    {stake : StakeAnswer} (h : verifySenderIn ord mempool stake uo = .ok ()) :
    SenderRule ord mempool stake uo := by
  cases mempool with
  | none =>
    rw [verifySenderIn_none] at h
    split_ifs at h with hs
    exact .inl hs
  | some m =>
    rw [verifySenderIn_some] at h
    unfold verifySender verifySenderAt at h
    split at h
    · exact .inr ⟨m, rfl, .inl ‹_›⟩
    · cases stake with
      | depositFailed => cases h
      | staked => exact .inl rfl
      | noEntryPoint | notStaked => exact .inr ⟨m, rfl, .inr (compareWithPrevious_ok h)⟩

theorem recordsNothing_eq_ok {check : Outcome BadUserOperationError Unit}
    {recorded : List SanityCheckResult} (h : recordsNothing check = .ok recorded) :
    check = .ok () ∧ recorded = [] := by
  obtain ⟨⟨⟩, hc, hr⟩ := Outcome.map_eq_ok.mp h
  exact ⟨hc, hr.symm⟩

/-- `verify_factory` records no other result than `FactoryVerified`. -/
theorem mem_verifyFactory {recorded : List SanityCheckResult}
    (h : verifyFactory answers uo = .ok recorded) {r : SanityCheckResult} (hr : r ∈ recorded) :
    r = .factoryVerified := by
  unfold verifyFactory at h
  split_ifs at h
  · cases h; cases hr
  simp only at h
  cases hep : answers.entryPoint with
  | none => simp only [hep] at h; cases h; cases hr
  | some getDepositInfo =>
    cases hd : getDepositInfo (addressFromSlice (uo.initCode.take 20)) with
    | none => simp [hep, hd] at h
    | some depositInfo =>
      cases hrep : answers.reputation with
      | none => simp only [hep, hd, hrep] at h; cases h; cases hr
      | some reputation =>
        simp only [hep, hd, hrep] at h
        split at h <;> cases h <;> simp_all

/-! ## What makes each check return `Ok` -/

theorem senderOrInitCode_of_xor {code : Bytes} (hc : answers.getCode uo.sender = some code)
    (hx : Xor' (code ≠ []) (uo.initCode ≠ [])) : senderOrInitCode answers uo = .ok () := by
  simp only [senderOrInitCode, hc]
  rw [if_neg]
  simp only [Bool.or_eq_true, Bool.and_eq_true, Bool.not_eq_true', List.isEmpty_iff,
    List.isEmpty_eq_false]
  unfold Xor' at hx
  tauto

theorem verifyFactory_of (h : uo.initCode = [] ∨ 20 ≤ uo.initCode.length ∧
    ∀ getDepositInfo, answers.entryPoint = some getDepositInfo →
      (getDepositInfo (addressFromSlice (uo.initCode.take 20))).isSome) :
    ∃ recorded, verifyFactory answers uo = .ok recorded := by
  unfold verifyFactory
  rcases h with h | ⟨hl, hd⟩
  · exact ⟨[], by simp [h]⟩
  rw [if_neg (by rw [List.isEmpty_iff]; rintro h; simp [h] at hl), if_pos hl]
  rcases hep : answers.entryPoint with _ | getDepositInfo
  · exact ⟨[], rfl⟩
  obtain ⟨depositInfo, hdi⟩ := Option.isSome_iff_exists.mp (hd _ hep)
  simp only [hdi]
  split <;> (try split) <;> exact ⟨_, rfl⟩

theorem verificationGas_of {maxVerificationGas : U256}
    {calculatePreVerificationGas : UserOperation → U256}
    (h₁ : uo.verificationGasLimit ≤ maxVerificationGas)
    (h₂ : calculatePreVerificationGas uo ≤ uo.preVerificationGas) :
    verificationGas maxVerificationGas calculatePreVerificationGas uo = .ok () := by
  simp [verificationGas, not_lt.mpr h₁, not_lt.mpr h₂]

theorem verifyPaymaster_of (h : uo.paymasterAndData = [] ∨ 20 ≤ uo.paymasterAndData.length ∧
    ∃ code, answers.getCode (addressFromSlice (uo.paymasterAndData.take 20)) = some code ∧
      code ≠ [] ∧ ∀ getDepositInfo, answers.entryPoint = some getDepositInfo →
        (getDepositInfo (addressFromSlice (uo.paymasterAndData.take 20))).isSome) :
    ∃ recorded, verifyPaymaster answers uo = .ok recorded := by
  unfold verifyPaymaster
  rcases h with h | ⟨hl, code, hc, hcode, hd⟩
  · exact ⟨[], by simp [h]⟩
  rw [if_neg (by rw [List.isEmpty_iff]; rintro h; simp [h] at hl), if_pos hl]
  generalize addressFromSlice (uo.paymasterAndData.take 20) = p at hc hd ⊢
  simp only [hc, List.isEmpty_iff, hcode, if_false]
  rcases hep : answers.entryPoint with _ | getDepositInfo
  · exact ⟨[], rfl⟩
  obtain ⟨depositInfo, hdi⟩ := Option.isSome_iff_exists.mp (hd _ hep)
  simp only [hdi]
  split <;> (try split) <;> (try split) <;> exact ⟨_, rfl⟩

theorem callGasLimit_of {entryPoint : Address} {callGasEstimation : U256}
    (he : answers.estimateGas entryPoint uo.sender uo.callData = some callGasEstimation)
    (hl : callGasEstimation ≤ uo.callGasLimit) : callGasLimit answers entryPoint uo = .ok () := by
  simp [callGasLimit, he, not_lt.mpr hl]

theorem maxFeePerGas_of {minPriorityFeePerGas price : U256}
    (h₁ : uo.maxPriorityFeePerGas ≤ uo.maxFeePerGas)
    (h₂ : price.val + uo.maxPriorityFeePerGas.val ≤ uo.maxFeePerGas.val)
    (h₃ : minPriorityFeePerGas ≤ uo.maxPriorityFeePerGas) :
    maxFeePerGas minPriorityFeePerGas (some price) uo = .ok () := by
  have hlt : price.val + uo.maxPriorityFeePerGas.val < 2 ^ 256 :=
    lt_of_le_of_lt h₂ uo.maxFeePerGas.isLt
  simp only [maxFeePerGas, Outcome.bind_ok, gt_iff_lt, not_lt.mpr h₁, if_false, U256.addChecked,
    dif_pos hlt, Fin.lt_def, not_lt.mpr h₂, not_lt.mpr h₃]

theorem compareWithPrevious_of {ord : IterOrder UserOperationHash} {mempool : MemoryMempool}
    {prev : UserOperation} (hp : (mempool.getAllBySender ord uo.sender).head? = some prev)
    (hs : prev.sender = uo.sender) (hn : prev.nonce = uo.nonce)
    (ht : prev.maxPriorityFeePerGas < uo.maxPriorityFeePerGas)
    (hf : (uo.maxFeePerGas.val : ℤ) - prev.maxFeePerGas.val =
      (uo.maxPriorityFeePerGas.val : ℤ) - prev.maxPriorityFeePerGas.val) :
    compareWithPrevious ord mempool uo = .ok () := by
  have ht' : prev.maxPriorityFeePerGas.val ≤ uo.maxPriorityFeePerGas.val := le_of_lt ht
  have hf' : prev.maxFeePerGas.val ≤ uo.maxFeePerGas.val := by omega
  simp only [compareWithPrevious, hp, U256.subChecked, dif_pos ht', dif_pos hf', Outcome.bind_ok,
    hs, hn, gt_iff_lt, ht, and_self, if_true]
  rw [if_pos (Fin.ext (by simp only; omega))]

theorem verifySenderIn_of {ord : IterOrder UserOperationHash} {mempool : Option MemoryMempool}
    {stake : StakeAnswer} (h : SenderRule ord mempool stake uo)
    (hd : ∀ m, mempool = some m → m.getNumberBySender uo.sender ≠ 0 → stake ≠ .depositFailed) :
    verifySenderIn ord mempool stake uo = .ok () := by
  cases mempool with
  | none =>
    rcases h with rfl | ⟨_, ⟨⟩, -⟩
    rfl
  | some m =>
    rw [verifySenderIn_some]
    unfold verifySender verifySenderAt
    split
    · rfl
    rename_i h0
    rcases h with rfl | ⟨_, ⟨⟩, h | ⟨prev, hp, hs, hn, ht, hf⟩⟩
    · rfl
    · exact absurd h h0
    · cases stake with
      | depositFailed => exact absurd rfl (hd m rfl h0)
      | staked => rfl
      | noEntryPoint | notStaked => exact compareWithPrevious_of hp hs hn ht hf

/-! ## The pipeline -/

/-- What `validate_user_operation` requires of an operation: the guarantees of
an `Ok`, and besides that the entry point registered for the pool answers
`get_deposit_info` for the factory and the paymaster, and for the sender when
the registered pool holds an operation of it. -/
structure Admissible (maxVerificationGas minPriorityFeePerGas : U256)
    (calculatePreVerificationGas : UserOperation → U256) (ord : IterOrder UserOperationHash)
    (answers : Answers) (mempool : Option MemoryMempool) (uo : UserOperation) (entryPoint : Address) :
    Prop where
  senderCode : ∃ code, answers.getCode uo.sender = some code ∧ Xor' (code ≠ []) (uo.initCode ≠ [])
  factory : uo.initCode = [] ∨ 20 ≤ uo.initCode.length ∧
    ∀ getDepositInfo, answers.entryPoint = some getDepositInfo →
      (getDepositInfo (addressFromSlice (uo.initCode.take 20))).isSome
  verificationGasLimit : uo.verificationGasLimit ≤ maxVerificationGas
  preVerificationGas : calculatePreVerificationGas uo ≤ uo.preVerificationGas
  paymaster : uo.paymasterAndData = [] ∨ 20 ≤ uo.paymasterAndData.length ∧
    ∃ code, answers.getCode (addressFromSlice (uo.paymasterAndData.take 20)) = some code ∧
      code ≠ [] ∧ ∀ getDepositInfo, answers.entryPoint = some getDepositInfo →
        (getDepositInfo (addressFromSlice (uo.paymasterAndData.take 20))).isSome
  callGas : ∃ callGasEstimation,
    answers.estimateGas entryPoint uo.sender uo.callData = some callGasEstimation ∧
      callGasEstimation ≤ uo.callGasLimit
  fees : ∃ price, answers.gasPrice = some price ∧ uo.maxPriorityFeePerGas ≤ uo.maxFeePerGas ∧
    price.val + uo.maxPriorityFeePerGas.val ≤ uo.maxFeePerGas.val ∧
    minPriorityFeePerGas ≤ uo.maxPriorityFeePerGas
  sender : SenderRule ord mempool (stakeAnswer answers uo) uo
  senderDeposit : ∀ m, mempool = some m → m.getNumberBySender uo.sender ≠ 0 →
    stakeAnswer answers uo ≠ .depositFailed

/-- **What an admitted operation satisfies.**  For every operation, entry
point, registered pool or none, and answers of the provider, the entry point
and the reputation,
if `validate_user_operation` returns `Ok`: exactly one of "the sender has
code" and "`init_code` is non-empty" holds; `init_code` is empty or at least
20 bytes long; the verification gas limit is at most `max_verification_gas`
and the pre-verification gas covers the calculated one; `paymaster_and_data`
is empty or at least 20 bytes naming a paymaster with code; the call gas limit
covers the estimate; the fee-market conditions hold against the gas price;
and the sender rule holds.  The paymaster's deposit and reputation are not
among these: only a recorded `PaymasterVerified` vouches for them. -/
theorem validateUserOperation_sound {maxVerificationGas minPriorityFeePerGas : U256}
    {calculatePreVerificationGas : UserOperation → U256} {ord : IterOrder UserOperationHash}
    {mempool : Option MemoryMempool} {entryPoint : Address}
    (h : (validateUserOperation maxVerificationGas minPriorityFeePerGas calculatePreVerificationGas ord
      answers mempool uo entryPoint).1 = .ok ()) :
    (∃ code, answers.getCode uo.sender = some code ∧ Xor' (code ≠ []) (uo.initCode ≠ [])) ∧
    (uo.initCode = [] ∨ 20 ≤ uo.initCode.length) ∧
    (uo.verificationGasLimit ≤ maxVerificationGas ∧
      calculatePreVerificationGas uo ≤ uo.preVerificationGas) ∧
    (uo.paymasterAndData = [] ∨ 20 ≤ uo.paymasterAndData.length ∧
      ∃ code, answers.getCode (addressFromSlice (uo.paymasterAndData.take 20)) = some code ∧
        code ≠ []) ∧
    (∃ callGasEstimation, answers.estimateGas entryPoint uo.sender uo.callData = some callGasEstimation ∧
      callGasEstimation ≤ uo.callGasLimit) ∧
    (∃ price, answers.gasPrice = some price ∧ uo.maxPriorityFeePerGas ≤ uo.maxFeePerGas ∧
      price.val + uo.maxPriorityFeePerGas.val ≤ uo.maxFeePerGas.val ∧
      minPriorityFeePerGas ≤ uo.maxPriorityFeePerGas) ∧
    SenderRule ord mempool (stakeAnswer answers uo) uo ∧
    (.paymasterVerified ∈ (validateUserOperation maxVerificationGas minPriorityFeePerGas
        calculatePreVerificationGas ord answers mempool uo entryPoint).2 →
      ∃ getDepositInfo depositInfo reputation, answers.entryPoint = some getDepositInfo ∧
        getDepositInfo (addressFromSlice (uo.paymasterAndData.take 20)) = some depositInfo ∧
        uo.maxFeePerGas < depositInfo.deposit ∧ answers.reputation = some reputation ∧
        reputation.getStatus (addressFromSlice (uo.paymasterAndData.take 20)) ≠ .banned) := by
  have hall := runChecks_eq_ok.mp h
  simp only [List.mem_cons, List.mem_singleton, forall_eq_or_imp, forall_eq,
    List.not_mem_nil, false_imp_iff, implies_true, and_true] at hall
  obtain ⟨⟨_, h₁⟩, ⟨_, h₂⟩, ⟨_, h₃⟩, ⟨_, h₄⟩, ⟨_, h₅⟩, ⟨_, h₆⟩, ⟨_, h₇⟩⟩ := hall
  obtain ⟨_, h₇, -⟩ := Outcome.map_eq_ok.mp h₇
  refine ⟨senderOrInitCode_ok (recordsNothing_eq_ok h₁).1, verifyFactory_ok h₂,
    verificationGas_ok (recordsNothing_eq_ok h₃).1,
    (verifyPaymaster_ok h₄).imp (·.1) fun hp => ⟨hp.1, hp.2.1⟩,
    callGasLimit_ok (recordsNothing_eq_ok h₅).1, maxFeePerGas_ok (recordsNothing_eq_ok h₆).1,
    verifySenderIn_ok h₇, fun hr => ?_⟩
  obtain ⟨recorded, hmem, hr⟩ := mem_runChecks hr
  simp only [List.mem_cons, List.mem_singleton, List.not_mem_nil, or_false] at hmem
  rcases hmem with e | e | e | e | e | e | e
  · cases (recordsNothing_eq_ok e.symm).2; cases hr
  · cases mem_verifyFactory e.symm hr
  · cases (recordsNothing_eq_ok e.symm).2; cases hr
  · rcases verifyPaymaster_ok e.symm with ⟨-, rfl⟩ | ⟨-, -, hp⟩
    · cases hr
    · exact hp hr
  · cases (recordsNothing_eq_ok e.symm).2; cases hr
  · cases (recordsNothing_eq_ok e.symm).2; cases hr
  · obtain ⟨_, -, hs⟩ := Outcome.map_eq_ok.mp e.symm
    subst hs
    unfold senderVerified at hr
    split at hr <;> simp at hr

/-- The guarantees at an admitted operation: one whose paymaster is banned and
holds no deposit, on the empty registered pool. -/
theorem validateUserOperation_sound_banned_paymaster :
    let answers : Answers := ⟨fun _ => some [1], fun _ _ _ => some 0, some 0,
      some fun _ => some ⟨0, 0, 0⟩, some ⟨fun _ _ => false, fun _ => .banned⟩⟩
    let uo : UserOperation := ⟨1, 0, [], [], 0, 0, 0, 1, 1, List.replicate 20 7, []⟩
    (validateUserOperation 100 0 (fun _ => 0) .ascending answers (some ∅) uo 0).1 = .ok () ∧
    (∃ code, answers.getCode uo.sender = some code ∧ Xor' (code ≠ []) (uo.initCode ≠ [])) ∧
    (uo.initCode = [] ∨ 20 ≤ uo.initCode.length) ∧
    (uo.verificationGasLimit ≤ 100 ∧ (fun _ => 0 : UserOperation → U256) uo ≤ uo.preVerificationGas) ∧
    (uo.paymasterAndData = [] ∨ 20 ≤ uo.paymasterAndData.length ∧
      ∃ code, answers.getCode (addressFromSlice (uo.paymasterAndData.take 20)) = some code ∧
        code ≠ []) ∧
    (∃ callGasEstimation, answers.estimateGas 0 uo.sender uo.callData = some callGasEstimation ∧
      callGasEstimation ≤ uo.callGasLimit) ∧
    (∃ price, answers.gasPrice = some price ∧ uo.maxPriorityFeePerGas ≤ uo.maxFeePerGas ∧
      price.val + uo.maxPriorityFeePerGas.val ≤ uo.maxFeePerGas.val ∧ 0 ≤ uo.maxPriorityFeePerGas) ∧
    SenderRule .ascending (some ∅) (stakeAnswer answers uo) uo ∧
    (.paymasterVerified ∈ (validateUserOperation 100 0 (fun _ => 0) .ascending answers (some ∅) uo 0).2 →
      ∃ getDepositInfo depositInfo reputation, answers.entryPoint = some getDepositInfo ∧
        getDepositInfo (addressFromSlice (uo.paymasterAndData.take 20)) = some depositInfo ∧
        uo.maxFeePerGas < depositInfo.deposit ∧ answers.reputation = some reputation ∧
        reputation.getStatus (addressFromSlice (uo.paymasterAndData.take 20)) ≠ .banned) :=
  ⟨by decide, @validateUserOperation_sound _ _ 100 0 (fun _ => 0) .ascending (some ∅) 0 (by decide)⟩

/-- An operation whose paymaster has deposit 0, below its max fee 1, and is
banned is admitted, and nothing is recorded, whatever pre-verification gas is
calculated for it: its own is `U256::MAX`.  The provider answers code `[1]`
at every address, gas estimate 0 and gas price 0; the entry point answers
deposit 0 for every address; the reputation verifies no stake and bans every
address.  The operation has sender 1, no `init_code`, tip and max fee 1, and
names its paymaster by twenty bytes 7; the registered pool is empty. -/
theorem validateUserOperation_admits_banned_paymaster :
    let answers : Answers := ⟨fun _ => some [1], fun _ _ _ => some 0, some 0,
      some fun _ => some ⟨0, 0, 0⟩, some ⟨fun _ _ => false, fun _ => .banned⟩⟩
    let uo : UserOperation := ⟨1, 0, [], [], 0, 0, U256.MAX, 1, 1, List.replicate 20 7, []⟩
    (answers.entryPoint.bind fun getDepositInfo =>
        getDepositInfo (addressFromSlice (uo.paymasterAndData.take 20))) = some ⟨0, 0, 0⟩ ∧
      (answers.reputation.map fun reputation =>
        reputation.getStatus (addressFromSlice (uo.paymasterAndData.take 20))) = some .banned ∧
      ∀ calculatePreVerificationGas : UserOperation → U256,
        validateUserOperation 100 0 calculatePreVerificationGas .ascending answers (some ∅) uo 0 =
          (.ok (), []) := by
  intro answers uo
  refine ⟨by decide, by decide, fun calculatePreVerificationGas => ?_⟩
  have hv : verificationGas 100 calculatePreVerificationGas uo = .ok () :=
    verificationGas_of (by decide) (U256.le_MAX _)
  rw [validateUserOperation, hv]
  decide

/-- **What admits an operation.**  For every operation, entry point, registered
pool or none, and answers of the provider, the entry point and the reputation,
an operation that is `Admissible` is admitted: no check rejects it, and none
panics. -/
theorem validateUserOperation_complete {maxVerificationGas minPriorityFeePerGas : U256}
    {calculatePreVerificationGas : UserOperation → U256} {ord : IterOrder UserOperationHash}
    {mempool : Option MemoryMempool} {entryPoint : Address}
    (h : Admissible maxVerificationGas minPriorityFeePerGas calculatePreVerificationGas ord answers
      mempool uo entryPoint) :
    (validateUserOperation maxVerificationGas minPriorityFeePerGas calculatePreVerificationGas ord
      answers mempool uo entryPoint).1 = .ok () := by
  obtain ⟨code, hc, hx⟩ := h.senderCode
  obtain ⟨callGasEstimation, he, hl⟩ := h.callGas
  obtain ⟨price, hp, h₁, h₂, h₃⟩ := h.fees
  apply runChecks_eq_ok.mpr
  simp only [List.mem_cons, List.mem_singleton, forall_eq_or_imp, forall_eq, List.not_mem_nil,
    false_imp_iff, implies_true, and_true, recordsNothing, senderOrInitCode_of_xor hc hx,
    verificationGas_of h.verificationGasLimit h.preVerificationGas, callGasLimit_of he hl, hp,
    maxFeePerGas_of h₁ h₂ h₃, verifySenderIn_of h.sender h.senderDeposit]
  exact ⟨⟨[], rfl⟩, verifyFactory_of h.factory, ⟨[], rfl⟩, verifyPaymaster_of h.paymaster,
    ⟨[], rfl⟩, ⟨[], rfl⟩, ⟨_, rfl⟩⟩

/-- The operation with the banned paymaster, its own pre-verification gas 0
and a calculated one of 0, is `Admissible` on the empty registered pool. -/
theorem validateUserOperation_complete_banned_paymaster :
    let answers : Answers := ⟨fun _ => some [1], fun _ _ _ => some 0, some 0,
      some fun _ => some ⟨0, 0, 0⟩, some ⟨fun _ _ => false, fun _ => .banned⟩⟩
    let uo : UserOperation := ⟨1, 0, [], [], 0, 0, 0, 1, 1, List.replicate 20 7, []⟩
    Admissible 100 0 (fun _ => 0) .ascending answers (some ∅) uo 0 ∧
      (validateUserOperation 100 0 (fun _ => 0) .ascending answers (some ∅) uo 0).1 = .ok () :=
  have h : Admissible 100 0 (fun _ => 0) .ascending ⟨fun _ => some [1], fun _ _ _ => some 0, some 0,
      some fun _ => some ⟨0, 0, 0⟩, some ⟨fun _ _ => false, fun _ => .banned⟩⟩ (some ∅)
      ⟨1, 0, [], [], 0, 0, 0, 1, 1, List.replicate 20 7, []⟩ 0 :=
    ⟨⟨[1], rfl, by decide⟩, .inl rfl, by decide, by decide,
      .inr ⟨by decide, [1], rfl, by decide, fun _ h => by cases h; rfl⟩, ⟨0, rfl, by decide⟩,
      ⟨0, rfl, by decide, by decide, by decide⟩, .inr ⟨∅, rfl, .inl rfl⟩,
      fun _ hm h => by cases hm; exact absurd rfl h⟩
  ⟨h, validateUserOperation_complete h⟩

end UoPoolService

end Silius
