import Silius.Mempool.Consistency
import Silius.Mempool.Sort

/-!
# `MemoryMempool`

The in-memory backend of the `Mempool` trait (`memory/mempool.rs`): four
`HashMap`s, updated in place.  Every method is modelled as the code computes
it; `&mut self` methods return their result with the new state.  Errors are
`eyre` reports, modelled by their message.

The iterating methods (`get_all_by_sender`, `remove_by_entity`,
`get_sorted`, `get_all`) take the iteration order of the `HashSet` or
`HashMap` they walk as a parameter.

The two facts proved here are the step lemmas every later proof uses:
`remove_of_lookup` (what removing a stored hash does) and `remove_comm`
(two such removals commute, so `remove_by_entity` does not depend on the
order the `HashSet` of hashes is walked in).
-/

namespace Silius

/-- An `eyre::Error`: the pool only ever builds it from a message. -/
abbrev EyreError := String

/-- The state of a `MemoryMempool`. -/
structure MemoryMempool where
  /-- `user_operation_hash -> user_operation` -/
  userOperations : UoMap
  /-- `sender -> user_operations` -/
  userOperationsBySender : UoIndex
  /-- `user_operation_hash -> code hashes` -/
  codeHashesByUserOperation : Finmap (fun _ : UserOperationHash => List CodeHash)
  /-- `entity -> user_operations` -/
  userOperationsByEntity : UoIndex
  deriving DecidableEq

namespace MemoryMempool

/-- `MemoryMempool::default()`: four empty maps. -/
instance : EmptyCollection MemoryMempool := ⟨⟨∅, ∅, ∅, ∅⟩⟩

variable (hash : UoHasher) (ord : IterOrder UserOperationHash)

/-- `add`: index the hash under the sender, the factory and the paymaster, then
store the operation under its hash. -/
def add (m : MemoryMempool) (uo : UserOperation) (ep : Address) (chainId : U256) :
    Outcome EyreError UserOperationHash × MemoryMempool :=
  let uoHash := hash uo ep chainId
  let (sender, factory, paymaster) := uo.getEntities
  (.ok uoHash,
    { m with
      userOperationsBySender := m.userOperationsBySender.insertValue sender uoHash
      userOperationsByEntity :=
        (m.userOperationsByEntity.insertOpt factory uoHash).insertOpt paymaster uoHash
      userOperations := Finmap.insert uoHash uo m.userOperations })

/-- `get`. -/
def get (m : MemoryMempool) (uoHash : UserOperationHash) : Outcome EyreError (Option UserOperation) :=
  .ok (m.userOperations.lookup uoHash)

/-- `get_all_by_sender`: the stored operations whose hashes the sender index
lists, in the order the `HashSet` yields them. -/
def getAllBySender (m : MemoryMempool) (addr : Address) : List UserOperation :=
  match m.userOperationsBySender.lookup addr with
  | some uosBySender => (ord.toList uosBySender).filterMap m.userOperations.lookup
  | none => []

/-- `get_number_by_sender`. -/
def getNumberBySender (m : MemoryMempool) (addr : Address) : Nat :=
  match m.userOperationsBySender.lookup addr with
  | some uosBySender => uosBySender.card
  | none => 0

/-- `get_number_by_entity`. -/
def getNumberByEntity (m : MemoryMempool) (addr : Address) : Nat :=
  match m.userOperationsByEntity.lookup addr with
  | some uosByEntity => uosByEntity.card
  | none => 0

/-- `has_code_hashes`: whether the hash has an entry, empty or not. -/
def hasCodeHashes (m : MemoryMempool) (uoHash : UserOperationHash) : Outcome EyreError Bool :=
  .ok (decide (uoHash ∈ m.codeHashesByUserOperation))

/-- `set_code_hashes`: the list replaces whatever the hash had. -/
def setCodeHashes (m : MemoryMempool) (uoHash : UserOperationHash) (hashes : List CodeHash) :
    Outcome EyreError Unit × MemoryMempool :=
  (.ok (), { m with
    codeHashesByUserOperation := Finmap.insert uoHash hashes m.codeHashesByUserOperation })

/-- `get_code_hashes`. -/
def getCodeHashes (m : MemoryMempool) (uoHash : UserOperationHash) : List CodeHash :=
  (m.codeHashesByUserOperation.lookup uoHash).getD []

/-- `remove`: an absent hash is an error and changes nothing; a stored one
leaves the primary map, the three indexes and the code hashes. -/
def remove (m : MemoryMempool) (uoHash : UserOperationHash) :
    Outcome EyreError Unit × MemoryMempool :=
  match m.userOperations.lookup uoHash with
  | none => (.err "User operation not found", m)
  | some uo =>
    let (sender, factory, paymaster) := uo.getEntities
    (.ok (),
      { userOperations := Finmap.erase uoHash m.userOperations
        userOperationsBySender := m.userOperationsBySender.removeValue sender uoHash
        userOperationsByEntity :=
          (m.userOperationsByEntity.removeOpt factory uoHash).removeOpt paymaster uoHash
        codeHashesByUserOperation := Finmap.erase uoHash m.codeHashesByUserOperation })

/-- The loop `for uo_hash in uos { self.remove(&uo_hash)?; }`. -/
def removeEach (m : MemoryMempool) : List UserOperationHash → Outcome EyreError Unit × MemoryMempool
  | [] => (.ok (), m)
  | uoHash :: rest =>
    match m.remove uoHash with
    | (.ok (), m') => m'.removeEach rest
    | (r, m') => (r, m')

/-- `remove_by_entity`: remove every hash of a clone of the entity's set. -/
def removeByEntity (m : MemoryMempool) (entity : Address) :
    Outcome EyreError Unit × MemoryMempool :=
  match m.userOperationsByEntity.lookup entity with
  | some uos => m.removeEach (ord.toList uos)
  | none => (.ok (), m)

/-- `get_all`: the values of the primary map, in its iteration order. -/
def getAll (m : MemoryMempool) : List UserOperation :=
  (ord.toList m.userOperations.keys).filterMap m.userOperations.lookup

/-- `get_sorted`: the values of the primary map, sorted by `sort_by`. -/
def getSorted (m : MemoryMempool) : Outcome EyreError (List UserOperation) :=
  .ok (sortByFees (getAll ord m))

/-- `clear`: all four maps emptied. -/
def clear (_ : MemoryMempool) : MemoryMempool := ∅

/-! ## Removal -/

variable {hash ord}

theorem remove_of_lookup {m : MemoryMempool} {uoHash : UserOperationHash} {uo : UserOperation}
    (h : m.userOperations.lookup uoHash = some uo) :
    m.remove uoHash = (.ok (),
      { userOperations := Finmap.erase uoHash m.userOperations
        userOperationsBySender := m.userOperationsBySender.removeValue uo.sender uoHash
        userOperationsByEntity :=
          (m.userOperationsByEntity.removeOpt uo.factory uoHash).removeOpt uo.paymaster uoHash
        codeHashesByUserOperation := Finmap.erase uoHash m.codeHashesByUserOperation }) := by
  simp [remove, h, UserOperation.getEntities]

theorem remove_of_lookup_none {m : MemoryMempool} {uoHash : UserOperationHash}
    (h : m.userOperations.lookup uoHash = none) :
    m.remove uoHash = (.err "User operation not found", m) := by
  simp [remove, h]

theorem lookup_remove_state {m : MemoryMempool} {h h' : UserOperationHash} (hne : h' ≠ h) :
    (m.remove h).2.userOperations.lookup h' = m.userOperations.lookup h' := by
  cases hl : m.userOperations.lookup h with
  | none => rw [remove_of_lookup_none hl]
  | some uo => rw [remove_of_lookup hl]; exact Finmap.lookup_erase_ne hne

/-- One turn of the removal loop: it goes on after an `Ok` and stops with
anything else. -/
theorem removeEach_cons (m : MemoryMempool) (h : UserOperationHash) (l : List UserOperationHash) :
    m.removeEach (h :: l) =
      if (m.remove h).1 = .ok () then (m.remove h).2.removeEach l else m.remove h := by
  rcases hm : m.remove h with ⟨_ | _ | _, m'⟩ <;> simp [removeEach, hm]

theorem removeEach_cons_of_mem {m : MemoryMempool} {h : UserOperationHash}
    (hh : h ∈ m.userOperations) (l : List UserOperationHash) :
    m.removeEach (h :: l) = (m.remove h).2.removeEach l := by
  obtain ⟨uo, hl⟩ := Finmap.mem_iff.mp hh
  simp [removeEach, remove_of_lookup hl]

theorem mem_remove_of_ne {m : MemoryMempool} {h h' : UserOperationHash} (hne : h' ≠ h)
    (hh : h' ∈ m.userOperations) : h' ∈ (m.remove h).2.userOperations := by
  rw [← Finmap.lookup_isSome, lookup_remove_state hne, Finmap.lookup_isSome]
  exact hh

/-- Removing two stored hashes in either order gives the same pool. -/
theorem remove_comm {m : MemoryMempool} {h₁ h₂ : UserOperationHash} (hne : h₁ ≠ h₂)
    {uo₁ uo₂ : UserOperation} (hl₁ : m.userOperations.lookup h₁ = some uo₁)
    (hl₂ : m.userOperations.lookup h₂ = some uo₂) :
    ((m.remove h₁).2.remove h₂).2 = ((m.remove h₂).2.remove h₁).2 := by
  have hl₂' : (m.remove h₁).2.userOperations.lookup h₂ = some uo₂ := by
    rw [lookup_remove_state (Ne.symm hne), hl₂]
  have hl₁' : (m.remove h₂).2.userOperations.lookup h₁ = some uo₁ := by
    rw [lookup_remove_state hne, hl₁]
  rw [remove_of_lookup hl₂', remove_of_lookup hl₁', remove_of_lookup hl₁, remove_of_lookup hl₂]
  simp only [mk.injEq]
  exact ⟨Finmap.erase_erase, Index.removeValue_comm _ _ _ _ _, Finmap.erase_erase,
    Index.removeOpt_pair_comm _ _ _ _ _ _ _⟩

theorem removeByEntity_eq {m : MemoryMempool} (ord : IterOrder UserOperationHash) (a : Address) :
    m.removeByEntity ord a = m.removeEach (ord.toList (m.userOperationsByEntity.find a)) := by
  unfold removeByEntity Index.find
  cases m.userOperationsByEntity.lookup a <;> simp [removeEach]

/-- **The removal loop over distinct stored hashes**: every `remove` returns
`Ok`, and exactly those hashes leave the primary map and the code hashes. -/
theorem removeEach_of_stored {m : MemoryMempool} {l : List UserOperationHash} (hnd : l.Nodup)
    (hs : ∀ h ∈ l, h ∈ m.userOperations) :
    (m.removeEach l).1 = .ok () ∧
      (∀ h, (m.removeEach l).2.userOperations.lookup h =
        if h ∈ l then none else m.userOperations.lookup h) ∧
      ∀ h, (m.removeEach l).2.codeHashesByUserOperation.lookup h =
        if h ∈ l then none else m.codeHashesByUserOperation.lookup h := by
  induction l generalizing m with
  | nil => simp [removeEach]
  | cons x l ih =>
    obtain ⟨hx, hnd⟩ := List.nodup_cons.mp hnd
    obtain ⟨uo, hl⟩ := Finmap.mem_iff.mp (hs x (.head _))
    obtain ⟨hok, hu, hc⟩ :=
      ih hnd fun h hh => mem_remove_of_ne (fun e : h = x => hx (e ▸ hh)) (hs h (.tail _ hh))
    rw [removeEach_cons_of_mem (hs x (.head _))]
    refine ⟨hok, fun h => ?_, fun h => ?_⟩
    · rw [hu, remove_of_lookup hl]
      by_cases e : h = x
      · subst e; simp [Finmap.lookup_erase]
      · simp [e, Finmap.lookup_erase_ne]
    · rw [hc, remove_of_lookup hl]
      by_cases e : h = x
      · subst e; simp [Finmap.lookup_erase]
      · simp [e, Finmap.lookup_erase_ne]

end MemoryMempool

end Silius
