import Silius.Memory.Mempool
import Mathlib.Logic.Encodable.Basic

/-!
# The invariant of `MemoryMempool` over every run

The states a `MemoryMempool` reaches from `default()` through `add`,
`remove`, `remove_by_entity`, `set_code_hashes` (on a stored hash) and
`clear` are `Reachable`.  `Consistent` is the invariant they keep: the
indexes agree with the primary map (`IndexConsistent`), every operation sits
under one of its own hashes, and code hashes are kept only for stored
operations.

One lemma per method shows what it preserves; `reachable_consistent` puts
them together over a whole run, under the assumption that a hash determines
the entities of its operation, and reads the counts off the invariant.
-/

namespace Silius

namespace MemoryMempool

variable {hash : UoHasher} {ord : IterOrder UserOperationHash} {m : MemoryMempool}

theorem add_eq (uo : UserOperation) (ep : Address) (c : U256) :
    m.add hash uo ep c = (.ok (hash uo ep c),
      { m with
        userOperationsBySender := m.userOperationsBySender.insertValue uo.sender (hash uo ep c)
        userOperationsByEntity := (m.userOperationsByEntity.insertOpt uo.factory
          (hash uo ep c)).insertOpt uo.paymaster (hash uo ep c)
        userOperations := Finmap.insert (hash uo ep c) uo m.userOperations }) := rfl

theorem getNumberBySender_eq (a : Address) :
    m.getNumberBySender a = (m.userOperationsBySender.find a).card := by
  unfold getNumberBySender Index.find
  cases m.userOperationsBySender.lookup a <;> rfl

theorem getNumberByEntity_eq (a : Address) :
    m.getNumberByEntity a = (m.userOperationsByEntity.find a).card := by
  unfold getNumberByEntity Index.find
  cases m.userOperationsByEntity.lookup a <;> rfl

theorem getAllBySender_eq (a : Address) :
    m.getAllBySender ord a =
      (ord.toList (m.userOperationsBySender.find a)).filterMap m.userOperations.lookup := by
  unfold getAllBySender Index.find
  cases m.userOperationsBySender.lookup a <;> simp

/-- Any property `remove` keeps, the removal loop keeps. -/
theorem removeEach_preserves (P : MemoryMempool → Prop)
    (hP : ∀ m h, P m → P (m.remove h).2) :
    ∀ (l : List UserOperationHash) (m : MemoryMempool), P m → P (m.removeEach l).2
  | [], _, hm => hm
  | h :: rest, m, hm => by
    rw [removeEach_cons]
    split
    · exact removeEach_preserves P hP rest _ (hP m h hm)
    · exact hP m h hm

/-- Any property `remove` keeps, `remove_by_entity` keeps. -/
theorem removeByEntity_preserves (P : MemoryMempool → Prop)
    (hP : ∀ m h, P m → P (m.remove h).2) (a : Address) (hm : P m) :
    P (m.removeByEntity ord a).2 := by
  unfold removeByEntity
  split
  · exact removeEach_preserves P hP _ m hm
  · exact hm

/-! ## The invariant -/

/-- The indexes agree with the primary map, and every operation sits under one
of its own hashes. -/
structure WellIndexed (hash : UoHasher) (m : MemoryMempool) : Prop where
  index : IndexConsistent m.userOperations m.userOperationsBySender m.userOperationsByEntity
  keyed : KeyedByHash hash m.userOperations

/-- **The invariant of a `MemoryMempool`**: well indexed, and code hashes kept
only for stored operations. -/
structure Consistent (hash : UoHasher) (m : MemoryMempool) extends WellIndexed hash m : Prop where
  codeHashes_stored : ∀ h, h ∈ m.codeHashesByUserOperation → h ∈ m.userOperations

theorem WellIndexed.empty : WellIndexed hash ∅ := ⟨IndexConsistent.empty, KeyedByHash.empty⟩

theorem WellIndexed.add (hdet : HashDeterminesEntities hash) (hw : WellIndexed hash m)
    (uo : UserOperation) (ep : Address) (c : U256) : WellIndexed hash (m.add hash uo ep c).2 := by
  rw [add_eq]
  exact ⟨hw.index.add (KeyedByHash.same_entities hw.keyed hdet uo ep c), KeyedByHash.add hw.keyed uo ep c⟩

theorem WellIndexed.remove (hw : WellIndexed hash m) (h : UserOperationHash) :
    WellIndexed hash (m.remove h).2 := by
  cases hl : m.userOperations.lookup h with
  | none => rwa [remove_of_lookup_none hl]
  | some uo => rw [remove_of_lookup hl]; exact ⟨hw.index.remove hl, KeyedByHash.erase hw.keyed h⟩

theorem WellIndexed.setCodeHashes (hw : WellIndexed hash m) (h : UserOperationHash)
    (hashes : List CodeHash) : WellIndexed hash (m.setCodeHashes h hashes).2 :=
  ⟨hw.index, hw.keyed⟩

theorem Consistent.empty : Consistent hash ∅ :=
  ⟨WellIndexed.empty, fun _ h => absurd h (Finmap.not_mem_empty)⟩

theorem Consistent.add (hdet : HashDeterminesEntities hash) (hc : Consistent hash m)
    (uo : UserOperation) (ep : Address) (c : U256) : Consistent hash (m.add hash uo ep c).2 :=
  ⟨hc.toWellIndexed.add hdet uo ep c, fun h hh =>
    Finmap.mem_insert.mpr (.inr (hc.codeHashes_stored h hh))⟩

theorem Consistent.remove (hc : Consistent hash m) (h : UserOperationHash) :
    Consistent hash (m.remove h).2 := by
  refine ⟨hc.toWellIndexed.remove h, ?_⟩
  cases hl : m.userOperations.lookup h with
  | none => rw [remove_of_lookup_none hl]; exact hc.codeHashes_stored
  | some uo =>
    rw [remove_of_lookup hl]
    intro h' hh'
    obtain ⟨hne, hh'⟩ := Finmap.mem_erase.mp hh'
    exact Finmap.mem_erase.mpr ⟨hne, hc.codeHashes_stored h' hh'⟩

theorem Consistent.setCodeHashes (hc : Consistent hash m) {h : UserOperationHash}
    (hh : h ∈ m.userOperations) (hashes : List CodeHash) :
    Consistent hash (m.setCodeHashes h hashes).2 := by
  refine ⟨hc.toWellIndexed.setCodeHashes h hashes, fun h' hh' => ?_⟩
  rcases Finmap.mem_insert.mp hh' with rfl | hh'
  · exact hh
  · exact hc.codeHashes_stored h' hh'

/-- The states of a `MemoryMempool` reachable from `default()`; `set_code_hashes`
is applied only to a stored hash. -/
inductive Reachable (hash : UoHasher) : MemoryMempool → Prop
  | default : Reachable hash ∅
  | add {m} (uo : UserOperation) (ep : Address) (chainId : U256) :
      Reachable hash m → Reachable hash (m.add hash uo ep chainId).2
  | remove {m} (h : UserOperationHash) : Reachable hash m → Reachable hash (m.remove h).2
  | removeByEntity {m} (ord : IterOrder UserOperationHash) (a : Address) :
      Reachable hash m → Reachable hash (m.removeByEntity ord a).2
  | setCodeHashes {m} (h : UserOperationHash) (hashes : List CodeHash) :
      Reachable hash m → h ∈ m.userOperations → Reachable hash (m.setCodeHashes h hashes).2
  | clear {m} : Reachable hash m → Reachable hash m.clear

theorem Reachable.consistent (hdet : HashDeterminesEntities hash) {m : MemoryMempool}
    (hr : Reachable hash m) : Consistent hash m := by
  induction hr with
  | default => exact Consistent.empty
  | add uo ep c _ ih => exact ih.add hdet uo ep c
  | remove h _ ih => exact ih.remove h
  | removeByEntity ord a _ ih =>
    exact removeByEntity_preserves _ (fun _ h hc => hc.remove h) a ih
  | setCodeHashes h hashes _ hh ih => exact ih.setCodeHashes hh hashes
  | clear _ => exact Consistent.empty

/-- No index of a reachable pool keeps an empty set, whatever the hash: `add`
only puts values and `remove` drops a key with its last value. -/
theorem Reachable.noEmpty {m : MemoryMempool} (hr : Reachable hash m) :
    m.userOperationsBySender.NoEmpty ∧ m.userOperationsByEntity.NoEmpty := by
  have hrm : ∀ (m : MemoryMempool) h,
      m.userOperationsBySender.NoEmpty ∧ m.userOperationsByEntity.NoEmpty →
        (m.remove h).2.userOperationsBySender.NoEmpty ∧ (m.remove h).2.userOperationsByEntity.NoEmpty := by
    intro m h ⟨hb, he⟩
    cases hl : m.userOperations.lookup h with
    | none => rw [remove_of_lookup_none hl]; exact ⟨hb, he⟩
    | some uo => rw [remove_of_lookup hl]; exact ⟨hb.removeValue _ _, (he.removeOpt _ _).removeOpt _ _⟩
  induction hr with
  | default => exact ⟨IndexConsistent.empty.sender_noEmpty, IndexConsistent.empty.entity_noEmpty⟩
  | add uo ep c _ ih => rw [add_eq]; exact ⟨ih.1.insertValue _ _, (ih.2.insertOpt _ _).insertOpt _ _⟩
  | remove h _ ih => exact hrm _ h ih
  | removeByEntity ord a _ ih => exact removeByEntity_preserves _ hrm a ih
  | setCodeHashes h hashes _ _ ih => exact ih
  | clear _ => exact ⟨IndexConsistent.empty.sender_noEmpty, IndexConsistent.empty.entity_noEmpty⟩

/-- The hash occurs in one of the four maps: as a key of the primary map or of
the code hashes, or in a set of an index. -/
def Mentions (m : MemoryMempool) (h : UserOperationHash) : Prop :=
  h ∈ m.userOperations ∨ (∃ a, h ∈ m.userOperationsBySender.find a) ∨
    (∃ a, h ∈ m.userOperationsByEntity.find a) ∨ h ∈ m.codeHashesByUserOperation

theorem not_mentions_empty (h : UserOperationHash) : ¬ (∅ : MemoryMempool).Mentions h := by
  rintro (h | ⟨_, h⟩ | ⟨_, h⟩ | h)
  exacts [Finmap.not_mem_empty h, Finset.not_mem_empty _ h, Finset.not_mem_empty _ h,
    Finmap.not_mem_empty h]

/-- After `add` the pool mentions the operation's hash and what it mentioned before. -/
theorem mentions_add {uo : UserOperation} {ep : Address} {c : U256} {h : UserOperationHash} :
    (m.add hash uo ep c).2.Mentions h ↔ h = hash uo ep c ∨ m.Mentions h := by
  by_cases hh : h = hash uo ep c <;>
    simp [Mentions, add_eq, Index.mem_find_insertValue, Index.mem_find_insertOpt, hh,
      -Index.find_insertValue]

/-- `remove` undoes `add` of an operation whose hash the pool does not mention,
on a pool whose indexes keep no empty set. -/
theorem remove_add (hb : m.userOperationsBySender.NoEmpty) (he : m.userOperationsByEntity.NoEmpty)
    {uo : UserOperation} {ep : Address} {c : U256} (hm : ¬ m.Mentions (hash uo ep c)) :
    (m.add hash uo ep c).2.remove (hash uo ep c) = (.ok (), m) := by
  simp only [Mentions, not_or, not_exists] at hm
  obtain ⟨hu, hs, hen, hc⟩ := hm
  rw [add_eq, remove_of_lookup (Finmap.lookup_insert _)]
  simp only [erase_insert_of_not_mem hu, erase_of_not_mem hc,
    Index.removeValue_insertValue hb _ hs, Index.removeOpt_insertOpt he _ _ hen]

/-- **`remove_by_entity` on a well-indexed pool** does what it is to do: it
returns `Ok` and removes exactly the operations naming the entity, with their
code hashes. -/
theorem WellIndexed.removeByEntity (hw : WellIndexed hash m) (ord : IterOrder UserOperationHash)
    (e : Address) :
    RemovedEntity e m.userOperations (m.removeByEntity ord e).1 (m.removeByEntity ord e).2.userOperations
      ((m.removeByEntity ord e).2.getNumberByEntity e)
      (· ∈ (m.removeByEntity ord e).2.codeHashesByUserOperation) := by
  have hw' : WellIndexed hash (m.removeByEntity ord e).2 :=
    removeByEntity_preserves _ (fun _ h hw => hw.remove h) e hw
  rw [removeByEntity_eq] at hw' ⊢
  obtain ⟨hok, hu, hc⟩ := removeEach_of_stored (ord.nodup_toList _) fun h hh => by
    obtain ⟨uo, hl, -⟩ := hw.index.entity_sound ((ord.mem_toList).mp hh)
    exact Finmap.mem_iff.mpr ⟨uo, hl⟩
  simp only [ord.mem_toList] at hu hc
  have hkept := hw.index.lookup_erase_entity hu
  refine ⟨hok, hkept, ?_, fun h uo hl hn => Finmap.lookup_eq_none.mp ?_⟩
  · rw [getNumberByEntity_eq, hw'.index.find_entity_eq_empty fun h uo hl => ((hkept h uo).mp hl).2]
    rfl
  · rw [hc, if_pos (hw.index.find_entity e ▸ mem_keysWhere.mpr ⟨uo, hl, hn⟩)]

/-! ## Counts -/

/-- Under the invariant, `get_all_by_sender` lists one operation per indexed hash. -/
theorem WellIndexed.length_getAllBySender (hw : WellIndexed hash m) (a : Address) :
    (m.getAllBySender ord a).length = m.getNumberBySender a := by
  rw [getAllBySender_eq, getNumberBySender_eq, ← IterOrder.length_toList ord]
  refine List.filterMap_length_eq_length.mpr fun h hh => ?_
  obtain ⟨uo, hl, -⟩ := hw.index.sender_sound ((ord.mem_toList).mp hh)
  simp [hl]

/-- **Index consistency of every reachable `MemoryMempool`.**  Whatever run of
`add`, `remove`, `remove_by_entity`, `set_code_hashes` on stored hashes and
`clear` led to `m`, its indexes agree with its primary map, no index set is
empty, its code hashes belong to stored operations, and the counts of the
indexes are the counts of the stored operations naming the address. -/
theorem reachable_consistent (hdet : HashDeterminesEntities hash) {m : MemoryMempool}
    (hr : Reachable hash m) :
    Consistent hash m ∧ ∀ (ord : IterOrder UserOperationHash) (a : Address),
      m.getNumberBySender a = (m.getAllBySender ord a).length ∧
      m.getNumberBySender a = (keysWhere m.userOperations (·.sender = a)).card ∧
      m.getNumberByEntity a = (keysWhere m.userOperations (·.NamesEntity a)).card := by
  have hc := hr.consistent hdet
  refine ⟨hc, fun ord a => ⟨(hc.length_getAllBySender a).symm, ?_, ?_⟩⟩
  · rw [getNumberBySender_eq, hc.index.find_sender]
  · rw [getNumberByEntity_eq, hc.index.find_entity]

/-- A hash that encodes the entities of the operation, so that it determines them. -/
def entityHash : UoHasher := fun uo _ _ => Encodable.encode uo.getEntities

theorem entityHash_determines : HashDeterminesEntities entityHash :=
  fun _ _ _ _ _ _ h => Encodable.encode_injective h

/-- The invariant after a run: operations of senders 1 and 2 naming 7 as
paymaster and as factory, and one of sender 7 naming no entity, are added;
`remove_by_entity(7)` then removes the first two. -/
theorem reachable_consistent_after_removeByEntity :
    let m := (((((∅ : MemoryMempool).add entityHash ⟨1, 0, [], [], 0, 0, 0, 0, 0, [7], []⟩ 0 0).2.add
      entityHash ⟨2, 0, [7], [], 0, 0, 0, 0, 0, [], []⟩ 0 0).2.add
      entityHash ⟨7, 0, [], [], 0, 0, 0, 0, 0, [], []⟩ 0 0).2.removeByEntity .ascending 7).2
    HashDeterminesEntities entityHash ∧ Reachable entityHash m ∧
      (Consistent entityHash m ∧ ∀ (ord : IterOrder UserOperationHash) (a : Address),
        m.getNumberBySender a = (m.getAllBySender ord a).length ∧
        m.getNumberBySender a = (keysWhere m.userOperations (·.sender = a)).card ∧
        m.getNumberByEntity a = (keysWhere m.userOperations (·.NamesEntity a)).card) := by
  intro m
  have hr : Reachable entityHash m := .removeByEntity _ _ (.add _ _ _ (.add _ _ _ (.add _ _ _ .default)))
  exact ⟨entityHash_determines, hr, reachable_consistent entityHash_determines hr⟩

end MemoryMempool

end Silius
