import Silius.Equivalence

/-!
# Removal on both backends

What removal leaves behind, on every reachable state of either backend, the
database healthy.

* `remove_by_entity(e)` returns `Ok` and removes exactly the operations that
  name `e` as factory or paymaster, with their code hashes; afterwards no
  operation is counted for `e`, and the invariant still holds
  (`removeByEntity_removes_entity`).  On the in-memory pool this is
  `WellIndexed.removeByEntity`; the durable tables follow through the
  simulation `Related`, except `CodeHashes`, which the simulation does not
  relate and `removeEach_noFaults_codeHashes` covers.
* `add` and then `remove` of the same hash restore the state exactly when the
  hash occurs nowhere before (`add_then_remove_restores`).  This needs no
  assumption on the hash, only that no index keeps an empty set, which holds
  on every reachable state (`Reachable.noEmpty`, `DbReachable.noEmpty`).
* The `HashSet` an in-memory `remove_by_entity` walks may yield its hashes in
  any order; on a reachable pool the order changes nothing
  (`removeByEntity_order_independent`).  Off the reachable states it can: a
  hash of the index missing from the primary map stops the loop, after the
  hashes walked before it.
-/

namespace Silius

namespace DatabaseMempool

variable {hash : UoHasher}

theorem remove_run_noFaults {uoHash : UserOperationHash} {uo : UserOperation} {t : MempoolTables}
    (h : t.userOperations.lookup uoHash = some uo) :
    (remove noFaults uoHash).run t = (.ok (),
      { userOperations := Finmap.erase uoHash t.userOperations
        userOperationsBySender := t.userOperationsBySender.removeValue uo.sender uoHash
        userOperationsByEntity :=
          (t.userOperationsByEntity.removeOpt uo.factory uoHash).removeOpt uo.paymaster uoHash
        codeHashes := Finmap.erase uoHash t.codeHashes }) := by
  obtain ⟨m, hm⟩ := remove_noFaults_some h 0
  simp [DbStep.run, hm, Outcome.ofExcept]

/-- A healthy `remove` keeps the index tables free of empty sets. -/
theorem remove_noFaults_noEmpty (t : MempoolTables) (h : UserOperationHash) (n : Nat)
    (ht : t.userOperationsBySender.NoEmpty ∧ t.userOperationsByEntity.NoEmpty) :
    (remove noFaults h t n).2.1.userOperationsBySender.NoEmpty ∧
      (remove noFaults h t n).2.1.userOperationsByEntity.NoEmpty := by
  cases hl : t.userOperations.lookup h with
  | none => obtain ⟨_, hm⟩ := remove_noFaults_none hl n; rwa [hm]
  | some _ =>
    obtain ⟨_, hm⟩ := remove_noFaults_some hl n
    rw [hm]; exact ⟨ht.1.removeValue _ _, (ht.2.removeOpt _ _).removeOpt _ _⟩

/-- On healthy tables whose index tables keep no empty set, `remove` undoes
`add` of an operation whose hash the tables do not mention. -/
theorem remove_add_run {t : MempoolTables} (hb : t.userOperationsBySender.NoEmpty)
    (he : t.userOperationsByEntity.NoEmpty) {uo : UserOperation} {ep : Address} {c : U256}
    (ht : ¬ t.Mentions (hash uo ep c)) :
    (remove noFaults (hash uo ep c)).run ((add hash noFaults uo ep c).run t).2 = (.ok (), t) := by
  simp only [MempoolTables.Mentions, not_or, not_exists] at ht
  obtain ⟨hu, hs, hen, hc⟩ := ht
  rw [add_run_noFaults, remove_run_noFaults (Finmap.lookup_insert _)]
  simp only [erase_insert_of_not_mem hu, erase_of_not_mem hc,
    Index.removeValue_insertValue hb _ hs, Index.removeOpt_insertOpt he _ _ hen]

/-- After a healthy `add` the tables mention the operation's hash and what they
mentioned before. -/
theorem mentions_add_run {t : MempoolTables} {uo : UserOperation} {ep : Address} {c : U256}
    {h : UserOperationHash} :
    ((add hash noFaults uo ep c).run t).2.Mentions h ↔ h = hash uo ep c ∨ t.Mentions h := by
  rw [add_run_noFaults]
  by_cases hh : h = hash uo ep c <;>
    simp [MempoolTables.Mentions, Index.mem_find_insertValue, Index.mem_find_insertOpt, hh,
      -Index.find_insertValue]

end DatabaseMempool

/-- No index table of a healthy run keeps an empty set, whatever the hash. -/
theorem DbReachable.noEmpty {hash : UoHasher} {t : MempoolTables} (hr : DbReachable hash t) :
    t.userOperationsBySender.NoEmpty ∧ t.userOperationsByEntity.NoEmpty := by
  induction hr with
  | empty => exact ⟨IndexConsistent.empty.sender_noEmpty, IndexConsistent.empty.entity_noEmpty⟩
  | @call t hOrd cOrd c _ ih =>
    cases c with
    | add uo ep c =>
      simp only [DatabaseMempool.call, DatabaseMempool.add_run_noFaults]
      exact ⟨ih.1.insertValue _ _, (ih.2.insertOpt _ _).insertOpt _ _⟩
    | setCodeHashes h l =>
      simpa only [DatabaseMempool.call, DatabaseMempool.setCodeHashes_run_noFaults] using ih
    | remove h => exact DatabaseMempool.remove_noFaults_noEmpty _ h 0 ih
    | removeByEntity a =>
      obtain ⟨n, hn⟩ := @DatabaseMempool.removeByEntity_noFaults hOrd a t 0
      simp only [DatabaseMempool.call, DbStep.run, hn]
      exact DatabaseMempool.removeEach_noFaults_preserves _
        DatabaseMempool.remove_noFaults_noEmpty _ _ _ ih
    | clear =>
      simp only [DatabaseMempool.call, DatabaseMempool.clear_noFaults]
      exact ⟨IndexConsistent.empty.sender_noEmpty, IndexConsistent.empty.entity_noEmpty⟩
    | _ => exact ih

/-! ## `remove_by_entity` -/

/-- **`remove_by_entity` removes exactly the operations of the entity.**  On
every reachable state of either backend, the database healthy and the hash
determining the entities, `remove_by_entity(e)` returns `Ok`; an operation
stays exactly when it names `e` neither as factory nor as paymaster (one
naming `e` only as sender stays); `get_number_by_entity(e)` is then 0; no code
hashes remain under a removed operation's hash; and the invariant still
holds. -/
theorem removeByEntity_removes_entity {hash : UoHasher} (hdet : HashDeterminesEntities hash)
    {m : MemoryMempool} (hm : MemoryMempool.Reachable hash m) {t : MempoolTables}
    (ht : DbReachable hash t) (ord hOrd : IterOrder UserOperationHash) (e : Address) :
    (RemovedEntity e m.userOperations (m.removeByEntity ord e).1
        (m.removeByEntity ord e).2.userOperations ((m.removeByEntity ord e).2.getNumberByEntity e)
        (· ∈ (m.removeByEntity ord e).2.codeHashesByUserOperation) ∧
      MemoryMempool.Consistent hash (m.removeByEntity ord e).2) ∧
    (RemovedEntity e t.userOperations ((DatabaseMempool.removeByEntity hOrd noFaults e).run t).1
        ((DatabaseMempool.removeByEntity hOrd noFaults e).run t).2.userOperations
        (DatabaseMempool.getNumberByEntity hOrd noFaults e
          ((DatabaseMempool.removeByEntity hOrd noFaults e).run t).2)
        (· ∈ ((DatabaseMempool.removeByEntity hOrd noFaults e).run t).2.codeHashes) ∧
      IndexConsistent ((DatabaseMempool.removeByEntity hOrd noFaults e).run t).2.userOperations
        ((DatabaseMempool.removeByEntity hOrd noFaults e).run t).2.userOperationsBySender
        ((DatabaseMempool.removeByEntity hOrd noFaults e).run t).2.userOperationsByEntity ∧
      KeyedByHash hash ((DatabaseMempool.removeByEntity hOrd noFaults e).run t).2.userOperations) := by
  have hc := hm.consistent hdet
  refine ⟨⟨hc.toWellIndexed.removeByEntity ord e,
    MemoryMempool.removeByEntity_preserves _ (fun _ h hc => hc.remove h) e hc⟩, ?_⟩
  obtain ⟨m', hr⟩ := ht.related hdet
  obtain ⟨hiff, hr'⟩ := hr.removeByEntity hOrd hOrd e
  have hspec := hr.wellIndexed.removeByEntity hOrd e
  obtain ⟨n, hn⟩ := @DatabaseMempool.removeByEntity_noFaults hOrd e t 0
  have hok := hiff.mp hspec.ok
  rw [hr'.userOperations, hr'.bySender, hr'.byEntity]
  refine ⟨⟨hok, by rw [hr.userOperations]; exact hspec.kept, ?_, fun h uo hl hn' => ?_⟩,
    hr'.wellIndexed.index, hr'.wellIndexed.keyed⟩
  · rw [DatabaseMempool.getNumberByEntity_noFaults, hr'.byEntity,
      ← MemoryMempool.getNumberByEntity_eq, hspec.count_eq_zero]
  · have hh : h ∈ t.userOperationsByEntity.find e := by
      rw [hr.byEntity, hr.wellIndexed.index.find_entity, ← hr.userOperations]
      exact mem_keysWhere.mpr ⟨uo, hl, hn'⟩
    simp only [DbStep.run, hn, Outcome.ofExcept_eq_ok] at hok ⊢
    exact DatabaseMempool.removeEach_noFaults_codeHashes hok h (hOrd.mem_toList.mpr hh)

/-- The same on pools built by a run on either backend, for entity 7: it is
the paymaster of the operation of sender 1 and the factory of the operation
of sender 2, and the sender of a third operation, which stays. -/
theorem removeByEntity_removes_entity_run :
    let a : UserOperation := ⟨1, 0, [], [], 0, 0, 0, 0, 0, [7], []⟩
    let b : UserOperation := ⟨2, 0, [7], [], 0, 0, 0, 0, 0, [], []⟩
    let s : UserOperation := ⟨7, 0, [], [], 0, 0, 0, 0, 0, [], []⟩
    let m := ((((∅ : MemoryMempool).add MemoryMempool.entityHash a 0 0).2.add
      MemoryMempool.entityHash b 0 0).2.add MemoryMempool.entityHash s 0 0).2
    let t := ((DatabaseMempool.add MemoryMempool.entityHash noFaults s 0 0).run
      ((DatabaseMempool.add MemoryMempool.entityHash noFaults b 0 0).run
        ((DatabaseMempool.add MemoryMempool.entityHash noFaults a 0 0).run ∅).2).2).2
    HashDeterminesEntities MemoryMempool.entityHash ∧
    MemoryMempool.Reachable MemoryMempool.entityHash m ∧ DbReachable MemoryMempool.entityHash t ∧
    (RemovedEntity 7 m.userOperations (m.removeByEntity .ascending 7).1
        (m.removeByEntity .ascending 7).2.userOperations
        ((m.removeByEntity .ascending 7).2.getNumberByEntity 7)
        (· ∈ (m.removeByEntity .ascending 7).2.codeHashesByUserOperation) ∧
      MemoryMempool.Consistent MemoryMempool.entityHash (m.removeByEntity .ascending 7).2) ∧
    (RemovedEntity 7 t.userOperations ((DatabaseMempool.removeByEntity .ascending noFaults 7).run t).1
        ((DatabaseMempool.removeByEntity .ascending noFaults 7).run t).2.userOperations
        (DatabaseMempool.getNumberByEntity .ascending noFaults 7
          ((DatabaseMempool.removeByEntity .ascending noFaults 7).run t).2)
        (· ∈ ((DatabaseMempool.removeByEntity .ascending noFaults 7).run t).2.codeHashes) ∧
      IndexConsistent ((DatabaseMempool.removeByEntity .ascending noFaults 7).run t).2.userOperations
        ((DatabaseMempool.removeByEntity .ascending noFaults 7).run t).2.userOperationsBySender
        ((DatabaseMempool.removeByEntity .ascending noFaults 7).run t).2.userOperationsByEntity ∧
      KeyedByHash MemoryMempool.entityHash
        ((DatabaseMempool.removeByEntity .ascending noFaults 7).run t).2.userOperations) := by
  intro a b s m t
  have hm : MemoryMempool.Reachable MemoryMempool.entityHash m :=
    .add _ _ _ (.add _ _ _ (.add _ _ _ .default))
  have ht : DbReachable MemoryMempool.entityHash t :=
    .call .ascending .ascending (.add s 0 0) (.call .ascending .ascending (.add b 0 0)
      (.call .ascending .ascending (.add a 0 0) .empty))
  exact ⟨MemoryMempool.entityHash_determines, hm, ht,
    removeByEntity_removes_entity MemoryMempool.entityHash_determines hm ht _ _ 7⟩

/-! ## `add` then `remove` -/

/-- **`remove` undoes `add`.**  On every reachable state of either backend, the
database healthy, adding an operation whose hash occurs in none of the maps
(tables) and then removing that hash returns `Ok` twice and restores all four
maps (tables), whether or not the operation's sender, factory and paymaster
coincide or already index other operations. -/
theorem add_then_remove_restores {hash : UoHasher} {m : MemoryMempool}
    (hm : MemoryMempool.Reachable hash m) {t : MempoolTables} (ht : DbReachable hash t)
    (uo : UserOperation) (ep : Address) (c : U256)
    (hfm : ¬ m.Mentions (hash uo ep c)) (hft : ¬ t.Mentions (hash uo ep c)) :
    ((m.add hash uo ep c).1 = .ok (hash uo ep c) ∧
      (m.add hash uo ep c).2.remove (hash uo ep c) = (.ok (), m)) ∧
    ((DatabaseMempool.add hash noFaults uo ep c).run t).1 = .ok (hash uo ep c) ∧
      (DatabaseMempool.remove noFaults (hash uo ep c)).run
        ((DatabaseMempool.add hash noFaults uo ep c).run t).2 = (.ok (), t) :=
  ⟨⟨rfl, MemoryMempool.remove_add hm.noEmpty.1 hm.noEmpty.2 hfm⟩,
    by rw [DatabaseMempool.add_run_noFaults],
    DatabaseMempool.remove_add_run ht.noEmpty.1 ht.noEmpty.2 hft⟩

/-- The same for an operation with sender 1 that names 7 both as factory and
as paymaster, on pools already holding an operation of sender 1 with
paymaster 7: its sender and its entity are indexed before it is added. -/
theorem add_then_remove_restores_aliased :
    let x : UserOperation := ⟨1, 0, [], [], 0, 0, 0, 0, 0, [7], []⟩
    let uo : UserOperation := ⟨1, 0, [7], [], 0, 0, 0, 0, 0, [7], []⟩
    let m := ((∅ : MemoryMempool).add MemoryMempool.entityHash x 0 0).2
    let t := ((DatabaseMempool.add MemoryMempool.entityHash noFaults x 0 0).run ∅).2
    MemoryMempool.Reachable MemoryMempool.entityHash m ∧ DbReachable MemoryMempool.entityHash t ∧
    ¬ m.Mentions (MemoryMempool.entityHash uo 0 0) ∧ ¬ t.Mentions (MemoryMempool.entityHash uo 0 0) ∧
    ((m.add MemoryMempool.entityHash uo 0 0).1 = .ok (MemoryMempool.entityHash uo 0 0) ∧
      (m.add MemoryMempool.entityHash uo 0 0).2.remove (MemoryMempool.entityHash uo 0 0) = (.ok (), m)) ∧
    ((DatabaseMempool.add MemoryMempool.entityHash noFaults uo 0 0).run t).1 =
        .ok (MemoryMempool.entityHash uo 0 0) ∧
      (DatabaseMempool.remove noFaults (MemoryMempool.entityHash uo 0 0)).run
        ((DatabaseMempool.add MemoryMempool.entityHash noFaults uo 0 0).run t).2 = (.ok (), t) := by
  intro x uo m t
  have hx : MemoryMempool.entityHash uo 0 0 ≠ MemoryMempool.entityHash x 0 0 := by decide
  have hm : ¬ m.Mentions (MemoryMempool.entityHash uo 0 0) :=
    MemoryMempool.mentions_add.not.mpr (not_or.mpr ⟨hx, MemoryMempool.not_mentions_empty _⟩)
  have ht : ¬ t.Mentions (MemoryMempool.entityHash uo 0 0) :=
    DatabaseMempool.mentions_add_run.not.mpr (not_or.mpr ⟨hx, MempoolTables.not_mentions_empty _⟩)
  exact ⟨.add _ _ _ .default, .call .ascending .ascending (.add x 0 0) .empty, hm, ht,
    add_then_remove_restores (.add _ _ _ .default) (.call .ascending .ascending (.add x 0 0) .empty)
      _ 0 0 hm ht⟩

/-- **`remove_by_entity` does not depend on the `HashSet` order.**  On every
reachable in-memory pool, with a hash that determines the entities, removing
an entity's operations in any two iteration orders gives the same outcome and
the same pool. -/
theorem removeByEntity_order_independent {hash : UoHasher} (hdet : HashDeterminesEntities hash)
    {m : MemoryMempool} (hr : MemoryMempool.Reachable hash m) (ord ord' : IterOrder UserOperationHash)
    (a : Address) : m.removeByEntity ord a = m.removeByEntity ord' a := by
  rw [MemoryMempool.removeByEntity_eq, MemoryMempool.removeByEntity_eq]
  refine MemoryMempool.removeEach_perm (ord.toList_perm ord' _) (ord.nodup_toList _) fun h hh => ?_
  rw [ord.mem_toList, (hr.consistent hdet).index.find_entity, mem_keysWhere] at hh
  obtain ⟨uo, hl, -⟩ := hh
  exact Finmap.mem_of_lookup_eq_some hl

/-- Ascending and descending order on a pool built by a run, where 7 is the
paymaster of one operation and the factory of another: the two orders walk
the two hashes of 7 differently and remove the same. -/
theorem removeByEntity_order_independent_two_orders :
    let m := ((((∅ : MemoryMempool).add MemoryMempool.entityHash
      ⟨1, 0, [], [], 0, 0, 0, 0, 0, [7], []⟩ 0 0).2.add MemoryMempool.entityHash
      ⟨2, 0, [7], [], 0, 0, 0, 0, 0, [], []⟩ 0 0).2.add MemoryMempool.entityHash
      ⟨7, 0, [], [], 0, 0, 0, 0, 0, [], []⟩ 0 0).2
    HashDeterminesEntities MemoryMempool.entityHash ∧ MemoryMempool.Reachable MemoryMempool.entityHash m ∧
      IterOrder.ascending.toList (m.userOperationsByEntity.find 7) ≠
        IterOrder.descending.toList (m.userOperationsByEntity.find 7) ∧
      m.removeByEntity .ascending 7 = m.removeByEntity .descending 7 := by
  intro m
  have hm : MemoryMempool.Reachable MemoryMempool.entityHash m :=
    .add _ _ _ (.add _ _ _ (.add _ _ _ .default))
  exact ⟨MemoryMempool.entityHash_determines, hm, by decide,
    removeByEntity_order_independent MemoryMempool.entityHash_determines hm _ _ 7⟩

end Silius
