import Mathlib.Logic.Relation
import Silius.Memory.Invariant
import Silius.Validate.CallGas

/-!
# The fee check and the sender rule of `UoPoolService`

Two checks of `validate_user_operation` (`src/uopool/services/sanity_check.rs`);
`Services.Validation` models the others and the pipeline.

* `max_fee_per_gas` compares the fee fields with the gas price the provider
  returns.  `base_fee_estimation + max_priority_fee_per_gas` is a `U256` sum
  and panics when it leaves 256 bits, which a large gas price makes happen
  (`fee_checks_overflow`).
* `verify_sender` admits an operation whose sender has none in the pool or is
  staked; otherwise it compares it with `get_all_by_sender(sender)[0]`.  The
  fee differences are `U256` subtractions, so a replacement with a lower tip
  panics (`verifySender_lower_tip_panics`).  The pool is read under two
  separate locks with an `await` between them: other tasks may change it in
  between, and the second read may find no operation to index
  (`verifySender_interleaved_panics`).  Run alone on a well-indexed pool, the
  sender rule panics exactly on the two underflows and otherwise admits
  exactly the replacements with the same nonce, a higher tip and an equal rise
  of both fees (`verifySender_replacement`).  When no pool is registered for
  the entry point, only a verified stake admits the sender (`verifySenderIn`).
-/

namespace Silius

/-- The `BadUserOperationError`s the checks of `validate_user_operation`
return, with the fields they carry; `middleware` is an error of the provider. -/
inductive BadUserOperationError where
  | middleware
  | senderOrInitCode (sender : Address) (initCode : Bytes)
  | factoryVerification (initCode : Bytes)
  | highVerificationGasLimit (verificationGasLimit maxVerificationGas : U256)
  | lowPreVerificationGas (preVerificationGas calculatedPreVerificationGas : U256)
  | paymasterVerification (paymasterAndData : Bytes)
  | lowCallGasLimit (callGasLimit callGasEstimation : U256)
  | highMaxPriorityFeePerGas (maxPriorityFeePerGas maxFeePerGas : U256)
  | lowMaxFeePerGas (maxFeePerGas maxFeePerGasEstimated : U256)
  | lowMaxPriorityFeePerGas (maxPriorityFeePerGas minPriorityFeePerGas : U256)
  | senderVerification (sender : Address)
  deriving DecidableEq, Repr

namespace UoPoolService

/-! ## `max_fee_per_gas` -/

/-- `max_fee_per_gas`, given what `get_gas_price` answers (`none` for a
provider error). -/
def maxFeePerGas (minPriorityFeePerGas : U256) (gasPrice : Option U256) (uo : UserOperation) :
    Outcome BadUserOperationError Unit := do
  let baseFeeEstimation ← match gasPrice with
    | some price => .ok price
    | none => .err .middleware
  if uo.maxPriorityFeePerGas > uo.maxFeePerGas then
    .err (.highMaxPriorityFeePerGas uo.maxPriorityFeePerGas uo.maxFeePerGas)
  else
    let estimated ← U256.addChecked baseFeeEstimation uo.maxPriorityFeePerGas
    if estimated > uo.maxFeePerGas then
      let estimated ← U256.addChecked baseFeeEstimation uo.maxPriorityFeePerGas
      .err (.lowMaxFeePerGas uo.maxFeePerGas estimated)
    else if uo.maxPriorityFeePerGas < minPriorityFeePerGas then
      .err (.lowMaxPriorityFeePerGas uo.maxPriorityFeePerGas minPriorityFeePerGas)
    else .ok ()

/-- A provider answering `U256::MAX` as gas price makes `max_fee_per_gas`
panic on an operation with tip and max fee 1, where `LowMaxFeePerGas` is
due; a block base fee of `U256::MAX` makes `CallGas` panic on the same
operation before the `min` is taken, whatever its stipend (here 2300). -/
theorem fee_checks_overflow :
    maxFeePerGas 0 (some U256.MAX) ⟨1, 0, [], [], 0, 0, 0, 1, 1, [], []⟩ =
        .panicked .arithmeticOverflow ∧
      CallGas.checkUserOperation 2300 ⟨1, 0, [], [], 0, 0, 0, 1, 1, [], []⟩ (.ok ⟨0, 0⟩)
        (.ok (some ⟨some U256.MAX⟩)) = .panicked .arithmeticOverflow :=
  ⟨by decide, CallGas.checkUserOperation_of_overflow _ _ _ _ (by decide)⟩

/-! ## `verify_sender` -/

/-- What `verify_sender` learns from the entry point and the reputation
between its two reads of the pool. -/
inductive StakeAnswer where
  /-- No entry point is registered for the pool: the stake block is skipped. -/
  | noEntryPoint
  /-- `get_deposit_info` returned `Err`. -/
  | depositFailed
  /-- `verify_stake` accepted the sender's stake. -/
  | staked
  /-- `verify_stake` refused it, or no reputation is registered. -/
  | notStaked
  deriving DecidableEq, Repr

variable (ord : IterOrder UserOperationHash)

/-- The replacement comparison under the last lock:
`get_all_by_sender(sender)[0]`, then the fee differences. -/
def compareWithPrevious (mempool : MemoryMempool) (uo : UserOperation) :
    Outcome BadUserOperationError Unit :=
  match (mempool.getAllBySender ord uo.sender).head? with
  | none => .panicked .indexOutOfBounds
  | some prev => do
    let feePerGasDiff ← U256.subChecked uo.maxPriorityFeePerGas prev.maxPriorityFeePerGas
    if uo.sender = prev.sender ∧ uo.nonce = prev.nonce ∧
        uo.maxPriorityFeePerGas > prev.maxPriorityFeePerGas then
      let maxFeeDiff ← U256.subChecked uo.maxFeePerGas prev.maxFeePerGas
      if maxFeeDiff = feePerGasDiff then .ok () else .err (.senderVerification uo.sender)
    else .err (.senderVerification uo.sender)

/-- `verify_sender`, reading the pool `first` under its first lock and `last`
under its last one. -/
def verifySenderAt (first last : MemoryMempool) (stake : StakeAnswer) (uo : UserOperation) :
    Outcome BadUserOperationError Unit :=
  if first.getNumberBySender uo.sender = 0 then .ok ()
  else match stake with
    | .depositFailed => .err (.senderVerification uo.sender)
    | .staked => .ok ()
    | .noEntryPoint | .notStaked => compareWithPrevious ord last uo

/-- `verify_sender` run alone: both reads see the same pool. -/
def verifySender (mempool : MemoryMempool) (stake : StakeAnswer) (uo : UserOperation) :
    Outcome BadUserOperationError Unit :=
  verifySenderAt ord mempool mempool stake uo

/-- `verify_sender` run alone, given the pool registered for the entry point if
there is one.  With none, both reads of the pool are skipped, and only a
verified stake admits the sender: a failed `get_deposit_info` and the final
`Err` both give `SenderVerification`. -/
def verifySenderIn (mempool : Option MemoryMempool) (stake : StakeAnswer) (uo : UserOperation) :
    Outcome BadUserOperationError Unit :=
  match mempool with
  | some mempool => verifySender ord mempool stake uo
  | none => if stake = .staked then .ok () else .err (.senderVerification uo.sender)

@[simp] theorem verifySenderIn_some (mempool : MemoryMempool) (stake : StakeAnswer) (uo : UserOperation) :
    verifySenderIn ord (some mempool) stake uo = verifySender ord mempool stake uo := rfl

@[simp] theorem verifySenderIn_none (stake : StakeAnswer) (uo : UserOperation) :
    verifySenderIn ord none stake uo =
      if stake = .staked then .ok () else .err (.senderVerification uo.sender) := rfl

/-- A mempool operation another task may run while `verify_sender` awaits. -/
inductive OtherTask (hash : UoHasher) : MemoryMempool → MemoryMempool → Prop
  | add (m : MemoryMempool) (uo : UserOperation) (ep : Address) (chainId : U256) :
      OtherTask hash m (m.add hash uo ep chainId).2
  | remove (m : MemoryMempool) (h : UserOperationHash) : OtherTask hash m (m.remove h).2
  | removeByEntity (m : MemoryMempool) (o : IterOrder UserOperationHash) (a : Address) :
      OtherTask hash m (m.removeByEntity o a).2
  | clear (m : MemoryMempool) : OtherTask hash m m.clear

/-- Another task removes the sender's only operation while `verify_sender`
awaits `get_deposit_info`: the last read finds no operation, and indexing it
panics.  The pool's hash is the nonce. -/
theorem verifySender_interleaved_panics :
    Relation.ReflTransGen (OtherTask fun uo _ _ => uo.nonce.val)
        (MemoryMempool.add (fun uo _ _ => uo.nonce.val) ∅ ⟨1, 0, [], [], 0, 0, 0, 0, 0, [], []⟩ 0 0).2
        ((MemoryMempool.add (fun uo _ _ => uo.nonce.val) ∅
          ⟨1, 0, [], [], 0, 0, 0, 0, 0, [], []⟩ 0 0).2.remove 0).2 ∧
      verifySenderAt .ascending
        (MemoryMempool.add (fun uo _ _ => uo.nonce.val) ∅ ⟨1, 0, [], [], 0, 0, 0, 0, 0, [], []⟩ 0 0).2
        ((MemoryMempool.add (fun uo _ _ => uo.nonce.val) ∅
          ⟨1, 0, [], [], 0, 0, 0, 0, 0, [], []⟩ 0 0).2.remove 0).2
        .notStaked ⟨1, 1, [], [], 0, 0, 0, 0, 0, [], []⟩ = .panicked .indexOutOfBounds :=
  ⟨.single (.remove _ _), by decide⟩

/-- A replacement of the pool's operation (tip 2, max fee 10) by one of the
same sender and nonce with tip 1: `u.max_priority_fee_per_gas -
p.max_priority_fee_per_gas` panics. -/
theorem verifySender_lower_tip_panics :
    verifySender .ascending
        (MemoryMempool.add (fun uo _ _ => uo.nonce.val) ∅ ⟨1, 0, [], [], 0, 0, 0, 10, 2, [], []⟩ 0 0).2
        .notStaked ⟨1, 0, [], [], 0, 0, 0, 10, 1, [], []⟩ = .panicked .arithmeticOverflow := by
  decide

variable {ord}

/-- On a well-indexed pool holding an operation of `a`, the first operation
`get_all_by_sender(a)` lists exists and is one of `a`'s. -/
theorem head_getAllBySender {hash : UoHasher} {m : MemoryMempool}
    (hw : MemoryMempool.WellIndexed hash m) {a : Address} (hn : m.getNumberBySender a ≠ 0) :
    ∃ p, (m.getAllBySender ord a).head? = some p ∧ p.sender = a := by
  have hlen : (m.getAllBySender ord a).length = m.getNumberBySender a := hw.length_getAllBySender a
  cases hl : m.getAllBySender ord a with
  | nil => rw [hl] at hlen; exact absurd hlen.symm hn
  | cons p rest =>
    refine ⟨p, rfl, ?_⟩
    have hp : p ∈ m.getAllBySender ord a := hl ▸ List.mem_cons_self _ _
    rw [MemoryMempool.getAllBySender_eq, List.mem_filterMap] at hp
    obtain ⟨h, hh, hlk⟩ := hp
    obtain ⟨uo, hlu, hs⟩ := hw.index.sender_sound ((ord.mem_toList).mp hh)
    rw [hlu, Option.some.injEq] at hlk
    exact hlk ▸ hs

/-- **The sender rule, run alone.**  On a well-indexed pool holding an
operation of `u`'s sender, when the stake check neither failed nor passed,
let `p` be the first operation `get_all_by_sender` lists: it is the sender's,
`verify_sender` panics exactly when `u`'s tip is below `p`'s, or when the
nonces match and the tip rises but `u`'s max fee is below `p`'s; it returns
`Ok` exactly when the nonces match, the tip rises and both fees rise by the
same amount; in every other case it returns `SenderVerification`. -/
theorem verifySender_replacement {hash : UoHasher} {m : MemoryMempool}
    (hw : MemoryMempool.WellIndexed hash m) {stake : StakeAnswer}
    (hs : stake = .noEntryPoint ∨ stake = .notStaked) (u : UserOperation)
    (hn : m.getNumberBySender u.sender ≠ 0) :
    ∃ p, (m.getAllBySender ord u.sender).head? = some p ∧ p.sender = u.sender ∧
      (verifySender ord m stake u = .panicked .arithmeticOverflow ↔
        u.maxPriorityFeePerGas < p.maxPriorityFeePerGas ∨
          (p.nonce = u.nonce ∧ p.maxPriorityFeePerGas < u.maxPriorityFeePerGas ∧
            u.maxFeePerGas < p.maxFeePerGas)) ∧
      (verifySender ord m stake u = .ok () ↔
        p.nonce = u.nonce ∧ p.maxPriorityFeePerGas < u.maxPriorityFeePerGas ∧
          (u.maxFeePerGas.val : ℤ) - p.maxFeePerGas.val =
            (u.maxPriorityFeePerGas.val : ℤ) - p.maxPriorityFeePerGas.val) ∧
      (verifySender ord m stake u = .ok () ∨
        verifySender ord m stake u = .err (.senderVerification u.sender) ∨
        verifySender ord m stake u = .panicked .arithmeticOverflow) := by
  obtain ⟨p, hhead, hps⟩ : ∃ p, (m.getAllBySender ord u.sender).head? = some p ∧ p.sender = u.sender :=
    head_getAllBySender hw hn
  refine ⟨p, hhead, hps, ?_⟩
  have hv : verifySender ord m stake u = compareWithPrevious ord m u := by
    unfold verifySender verifySenderAt
    rw [if_neg hn]
    rcases hs with rfl | rfl <;> rfl
  rw [hv, compareWithPrevious, hhead]
  simp only [Fin.lt_def]
  by_cases ht : u.maxPriorityFeePerGas.val < p.maxPriorityFeePerGas.val
  · rw [U256.subChecked_of_lt ht, Outcome.bind_panicked]
    exact ⟨iff_of_true rfl (.inl ht), iff_of_false nofun fun h => by omega, .inr (.inr rfl)⟩
  rw [U256.subChecked, dif_pos (Nat.not_lt.mp ht), Outcome.bind_ok]
  by_cases hc : p.nonce = u.nonce ∧ p.maxPriorityFeePerGas.val < u.maxPriorityFeePerGas.val
  · rw [if_pos ⟨hps.symm, hc.1.symm, hc.2⟩]
    by_cases hf : u.maxFeePerGas.val < p.maxFeePerGas.val
    · rw [U256.subChecked_of_lt hf, Outcome.bind_panicked]
      exact ⟨iff_of_true rfl (.inr ⟨hc.1, hc.2, hf⟩), iff_of_false nofun fun h => by omega,
        .inr (.inr rfl)⟩
    rw [U256.subChecked, dif_pos (Nat.not_lt.mp hf), Outcome.bind_ok]
    by_cases he : u.maxFeePerGas.val - p.maxFeePerGas.val =
        u.maxPriorityFeePerGas.val - p.maxPriorityFeePerGas.val
    · rw [if_pos (Fin.ext he)]
      exact ⟨iff_of_false nofun fun h => by omega, iff_of_true rfl ⟨hc.1, hc.2, by omega⟩, .inl rfl⟩
    · rw [if_neg fun e => he (Fin.val_eq_of_eq e)]
      exact ⟨iff_of_false nofun fun h => by omega, iff_of_false nofun fun h => by omega,
        .inr (.inl rfl)⟩
  · rw [if_neg fun h => hc ⟨h.2.1.symm, h.2.2⟩]
    exact ⟨iff_of_false nofun fun h => h.elim ht fun h => hc ⟨h.1, h.2.1⟩,
      iff_of_false nofun fun h => hc ⟨h.1, h.2.1⟩, .inr (.inl rfl)⟩

theorem verifySender_replacement_single :
    MemoryMempool.WellIndexed MemoryMempool.entityHash
        (MemoryMempool.add MemoryMempool.entityHash ∅ ⟨1, 0, [], [], 0, 0, 0, 10, 2, [], []⟩ 0 0).2 ∧
      (StakeAnswer.notStaked = .noEntryPoint ∨ StakeAnswer.notStaked = .notStaked) ∧
      (MemoryMempool.add MemoryMempool.entityHash ∅ ⟨1, 0, [], [], 0, 0, 0, 10, 2, [], []⟩ 0 0).2.getNumberBySender 1 ≠ 0 ∧
    ∃ p, ((MemoryMempool.add MemoryMempool.entityHash ∅ ⟨1, 0, [], [], 0, 0, 0, 10, 2, [], []⟩ 0 0).2.getAllBySender
        .ascending (1 : Address)).head? = some p ∧ p.sender = (1 : Address) ∧
      (verifySender .ascending (MemoryMempool.add MemoryMempool.entityHash ∅
          ⟨1, 0, [], [], 0, 0, 0, 10, 2, [], []⟩ 0 0).2 .notStaked ⟨1, 0, [], [], 0, 0, 0, 11, 3, [], []⟩ =
          .panicked .arithmeticOverflow ↔
        (3 : U256) < p.maxPriorityFeePerGas ∨
          (p.nonce = 0 ∧ p.maxPriorityFeePerGas < 3 ∧ (11 : U256) < p.maxFeePerGas)) ∧
      (verifySender .ascending (MemoryMempool.add MemoryMempool.entityHash ∅
          ⟨1, 0, [], [], 0, 0, 0, 10, 2, [], []⟩ 0 0).2 .notStaked ⟨1, 0, [], [], 0, 0, 0, 11, 3, [], []⟩ =
          .ok () ↔
        p.nonce = 0 ∧ p.maxPriorityFeePerGas < 3 ∧
          ((11 : U256).val : ℤ) - p.maxFeePerGas.val = ((3 : U256).val : ℤ) - p.maxPriorityFeePerGas.val) ∧
      (verifySender .ascending (MemoryMempool.add MemoryMempool.entityHash ∅
          ⟨1, 0, [], [], 0, 0, 0, 10, 2, [], []⟩ 0 0).2 .notStaked ⟨1, 0, [], [], 0, 0, 0, 11, 3, [], []⟩ =
          .ok () ∨
        verifySender .ascending (MemoryMempool.add MemoryMempool.entityHash ∅
          ⟨1, 0, [], [], 0, 0, 0, 10, 2, [], []⟩ 0 0).2 .notStaked ⟨1, 0, [], [], 0, 0, 0, 11, 3, [], []⟩ =
          .err (.senderVerification 1) ∨
        verifySender .ascending (MemoryMempool.add MemoryMempool.entityHash ∅
          ⟨1, 0, [], [], 0, 0, 0, 10, 2, [], []⟩ 0 0).2 .notStaked ⟨1, 0, [], [], 0, 0, 0, 11, 3, [], []⟩ =
          .panicked .arithmeticOverflow) :=
  ⟨(MemoryMempool.Reachable.add _ _ _ .default).consistent MemoryMempool.entityHash_determines |>.toWellIndexed,
    .inr rfl, by decide,
    verifySender_replacement
      ((MemoryMempool.Reachable.add _ _ _ .default).consistent
        MemoryMempool.entityHash_determines).toWellIndexed (.inr rfl) ⟨1, 0, [], [], 0, 0, 0, 11, 3, [], []⟩
      (by decide)⟩

end UoPoolService

end Silius
