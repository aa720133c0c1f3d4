import Silius.Memory.Invariant

/-!
# The `Entities` sanity check

`Entities::check_user_operation` (`validate/sanity/entities.rs`) looks up the
reputation status of the sender, the factory and the paymaster of an
operation, in that order.  A `BANNED` entity is refused (SREP-020); a
`THROTTLED` one is refused once the pool counts
`THROTTLED_ENTITY_MEMPOOL_COUNT` operations for it by sender plus by entity
(SREP-030).  The three entity checks are one `checkEntity`.

The reputation is any map from addresses to statuses, a failed lookup being
`none`.  `checkUserOperation_limits` shows what an `Ok` guarantees once the
operation is added: no entity is banned, and a throttled entity is named by
at most `THROTTLED_ENTITY_MEMPOOL_COUNT` pool operations.  Counts by sender and
by entity may overlap (an address can be both the sender of one operation and
the paymaster of another); the bound uses only that their sum covers the
operations naming the address.
-/

namespace Silius

/-- `SENDER`: not among the constants in the sources; `verify_stake` names the
sender `"sender"`. -/
def SENDER : String := "sender"

/-- `entities::FACTORY`. -/
def FACTORY : String := "factory"

/-- `entities::PAYMASTER`. -/
def PAYMASTER : String := "paymaster"

namespace Entities

-- `THROTTLED_ENTITY_MEMPOOL_COUNT`, a constant of `silius_primitives` not in the sources
variable (throttledEntityMempoolCount : Nat)

/-- The reputation as the check sees it: `get_status` of every address, `none`
when the lookup fails. -/
abbrev StatusOf := Address → Option Status

/-- `get_status`. -/
def getStatus (reputation : StatusOf) (addr : Address) : Outcome SanityCheckError Status :=
  match reputation addr with
  | some status => .ok status
  | none => .err (.unknownError "Failed to retrieve reputation status")

/-- `check_banned` (SREP-020). -/
def checkBanned (entity : String) (addr : Address) (status : Status) : Outcome SanityCheckError Unit :=
  if status = .banned then .err (.reputation (.entityBanned entity addr)) else .ok ()

/-- `check_throttled` (SREP-030). -/
def checkThrottled (entity : String) (addr : Address) (status : Status) (mempool : MemoryMempool) :
    Outcome SanityCheckError Unit :=
  if status = .throttled ∧
      mempool.getNumberBySender addr + mempool.getNumberByEntity addr ≥ throttledEntityMempoolCount then
    .err (.reputation (.throttledLimit entity addr))
  else .ok ()

/-- The three calls the check makes for one entity. -/
def checkEntity (entity : String) (reputation : StatusOf) (mempool : MemoryMempool) (addr : Address) :
    Outcome SanityCheckError Unit := do
  let status ← getStatus reputation addr
  checkBanned entity addr status
  checkThrottled throttledEntityMempoolCount entity addr status mempool

/-- `check_user_operation`: the sender, then the factory and the paymaster
when present (`if let Some(..)` is `Option.forM`). -/
def checkUserOperation (uo : UserOperation) (mempool : MemoryMempool) (reputation : StatusOf) :
    Outcome SanityCheckError Unit := do
  let (sender, factory, paymaster) := uo.getEntities
  checkEntity throttledEntityMempoolCount SENDER reputation mempool sender
  factory.forM (checkEntity throttledEntityMempoolCount FACTORY reputation mempool)
  paymaster.forM (checkEntity throttledEntityMempoolCount PAYMASTER reputation mempool)

/-- What one entity check passing says: the status is known, not banned, and
if throttled the pool counts fewer operations for the address than the limit. -/
def EntityAllowed (reputation : StatusOf) (mempool : MemoryMempool) (addr : Address) : Prop :=
  ∃ status, reputation addr = some status ∧ status ≠ .banned ∧
    (status = .throttled →
      mempool.getNumberBySender addr + mempool.getNumberByEntity addr < throttledEntityMempoolCount)

variable {throttledEntityMempoolCount}

theorem checkEntity_ok {entity : String} {reputation : StatusOf} {mempool : MemoryMempool}
    {addr : Address} :
    checkEntity throttledEntityMempoolCount entity reputation mempool addr = .ok () →
      EntityAllowed throttledEntityMempoolCount reputation mempool addr := by
  unfold checkEntity getStatus checkBanned checkThrottled
  cases hs : reputation addr with
  | none => simp
  | some status =>
    intro h
    refine ⟨status, hs, fun hb => ?_, fun ht => ?_⟩
    · simp [hb] at h
    · by_contra hc
      simp [ht, Nat.not_lt.mp hc] at h

/-- An `Ok` admits every entity the operation names. -/
theorem checkUserOperation_ok {uo : UserOperation} {mempool : MemoryMempool} {reputation : StatusOf}
    (h : checkUserOperation throttledEntityMempoolCount uo mempool reputation = .ok ()) {a : Address}
    (ha : uo.Names a) :
    EntityAllowed throttledEntityMempoolCount reputation mempool a := by
  simp only [checkUserOperation, UserOperation.getEntities, Outcome.bind_eq_ok] at h
  obtain ⟨_, hs, _, hf, hp⟩ := h
  rcases ha with rfl | hfa | hpa
  · exact checkEntity_ok hs
  · rw [hfa] at hf; exact checkEntity_ok hf
  · rw [hpa] at hp; exact checkEntity_ok hp


/-- **An admitted operation respects the reputation limits**: on every
reachable pool, if the entity check passes and the operation is added, none
of its entities is banned, and a throttled one is named, in any role, by at
most `THROTTLED_ENTITY_MEMPOOL_COUNT` operations of the pool. -/
theorem checkUserOperation_limits {hash : UoHasher} (hdet : HashDeterminesEntities hash)
    {m : MemoryMempool} (hr : MemoryMempool.Reachable hash m) (reputation : StatusOf)
    (uo : UserOperation) (ep : Address) (chainId : U256)
    (hok : checkUserOperation throttledEntityMempoolCount uo m reputation = .ok ()) :
    ∀ a, uo.Names a → (∃ status, reputation a = some status ∧ status ≠ .banned) ∧
      (reputation a = some .throttled →
        (keysWhere (m.add hash uo ep chainId).2.userOperations (·.Names a)).card ≤
          throttledEntityMempoolCount) := by
  intro a ha
  obtain ⟨status, hs, hnb, hth⟩ := checkUserOperation_ok hok ha
  refine ⟨⟨status, hs, hnb⟩, fun ht => ?_⟩
  have hlt := hth (Option.some.inj (hs.symm.trans ht))
  rw [MemoryMempool.add_eq]
  calc (keysWhere (Finmap.insert (hash uo ep chainId) uo m.userOperations) (·.Names a)).card
      ≤ (insert (hash uo ep chainId) (keysWhere m.userOperations (·.Names a))).card :=
        Finset.card_le_card (keysWhere_insert_subset _ _ _ _)
    _ ≤ (keysWhere m.userOperations (·.Names a)).card + 1 := Finset.card_insert_le _ _
    _ ≤ m.getNumberBySender a + m.getNumberByEntity a + 1 := by
        rw [MemoryMempool.getNumberBySender_eq, MemoryMempool.getNumberByEntity_eq]
        exact Nat.add_le_add_right ((hr.consistent hdet).index.card_names_le a) 1
    _ ≤ throttledEntityMempoolCount := hlt

/-- The same for an operation of sender 1 with paymaster 7, every address
throttled and the limit 3, on a pool holding one operation whose sender and
paymaster are both 7: the pool counts it for 7 once by sender and once by
entity, 2 in all, below the limit, and after the `add` two operations name 7. -/
theorem checkUserOperation_limits_throttled :
    let m := ((∅ : MemoryMempool).add MemoryMempool.entityHash
      ⟨7, 0, [], [], 0, 0, 0, 0, 0, [7], []⟩ 0 0).2
    let uo : UserOperation := ⟨1, 0, [], [], 0, 0, 0, 0, 0, [7], []⟩
    HashDeterminesEntities MemoryMempool.entityHash ∧ MemoryMempool.Reachable MemoryMempool.entityHash m ∧
    checkUserOperation 3 uo m (fun _ => some .throttled) = .ok () ∧
    ∀ a, uo.Names a →
      (∃ status, (fun _ => some Status.throttled : StatusOf) a = some status ∧ status ≠ .banned) ∧
      ((fun _ => some Status.throttled : StatusOf) a = some .throttled →
        (keysWhere (m.add MemoryMempool.entityHash uo 0 0).2.userOperations (·.Names a)).card ≤ 3) := by
  intro m uo
  have hm : MemoryMempool.Reachable MemoryMempool.entityHash m := .add _ _ _ .default
  have hok : checkUserOperation 3 uo m (fun _ => some .throttled) = .ok () := by decide
  exact ⟨MemoryMempool.entityHash_determines, hm, hok,
    checkUserOperation_limits MemoryMempool.entityHash_determines hm _ _ 0 0 hok⟩

end Entities

end Silius
