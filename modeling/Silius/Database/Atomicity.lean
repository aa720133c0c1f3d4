import Silius.Database.Mempool
import Silius.Database.Reputation

/-!
# What the durable backends commit when database calls fail

Each single-transaction operation of the durable backends is all or nothing:
under any fault oracle `add`, `remove`, `set_code_hashes` and `set_entry`
fail and leave the tables as they were, or do exactly what they do on a
healthy database.  This is `Tx.Propagates.atomically_eq` applied to their
bodies, which propagate every failed call.

Two operations are not one transaction.

* `remove_by_entity` reads the entity's hashes, then removes them one
  transaction per hash, stopping at the first error: the removals made
  before a failure stay committed (`removeByEntity_eq_take`).
* `update` is one transaction, but its loop
  `while let Ok(Some(..)) = cursor.next()` ends at a failed cursor step as at
  the end of the table, and the transaction then commits the entries decayed
  so far and returns `Ok` (`DatabaseReputation.update_eq_or`;
  `update_commits_after_failed_next` for two entries).  The cursor loops of
  the reads propagate the same error (`next_dup()?`).

`clear` of either table is one transaction whose failure panics: it leaves
the tables as they were or clears them (`clear_eq_or`).

`durable_commits` collects the six facts.
-/

namespace Silius

namespace DatabaseMempool

open MempoolTables

variable {hash : UoHasher} {hOrd : IterOrder UserOperationHash}

theorem dupsTx_propagates {ν : Type} (values : MempoolTables → Finset ν) (o : IterOrder ν) :
    Tx.Propagates fun fails => dupsTx fails values o :=
  (Tx.Propagates.read _).bind fun _ => Tx.Propagates.snapshot.bind fun _ => Tx.Propagates.walk _

/-- A healthy `remove` does the same whatever calls came before it. -/
theorem remove_noFaults_eq (h : UserOperationHash) (t : MempoolTables) (n : Nat) :
    ∃ m, remove noFaults h t n = ((remove noFaults h t 0).1, (remove noFaults h t 0).2.1, m) := by
  cases hl : t.userOperations.lookup h with
  | none =>
    obtain ⟨m, hm⟩ := remove_noFaults_none hl n
    obtain ⟨m0, hm0⟩ := remove_noFaults_none hl 0
    exact ⟨m, by rw [hm, hm0]⟩
  | some uo =>
    obtain ⟨m, hm⟩ := remove_noFaults_some hl n
    obtain ⟨m0, hm0⟩ := remove_noFaults_some hl 0
    exact ⟨m, by rw [hm, hm0]⟩

/-- A healthy removal loop does the same whatever calls came before it. -/
theorem removeEach_noFaults_eq (l : List UserOperationHash) (t : MempoolTables) (n : Nat) :
    ∃ m, removeEach noFaults l t n =
      ((removeEach noFaults l t 0).1, (removeEach noFaults l t 0).2.1, m) := by
  induction l generalizing t n with
  | nil => exact ⟨n, rfl⟩
  | cons h l ih =>
    obtain ⟨m, hm⟩ := remove_noFaults_eq h t n
    rcases hr : remove noFaults h t 0 with ⟨r, t₁, m₁⟩
    rw [hr] at hm
    cases r with
    | error e => exact ⟨m, by simp [removeEach, hm, hr]⟩
    | ok u =>
      obtain ⟨m', hm'⟩ := ih t₁ m
      obtain ⟨m₁', hm₁'⟩ := ih t₁ m₁
      exact ⟨m', by simp [removeEach, hm, hr, hm', hm₁']⟩

/-- Under any faults the removal loop has committed the healthy removal of a
prefix of its list, and of the whole list when it returns `Ok`. -/
theorem removeEach_eq_take (fails : Faults) (l : List UserOperationHash) (t : MempoolTables)
    (n : Nat) :
    ∃ k, (removeEach fails l t n).2.1 = (removeEach noFaults (l.take k) t 0).2.1 ∧
      ((removeEach fails l t n).1 = .ok () → k = l.length) := by
  induction l generalizing t n with
  | nil => exact ⟨0, rfl, fun _ => rfl⟩
  | cons h l ih =>
    rcases (removeTx_propagates h).atomically_eq fails t n with ⟨e, m, he⟩ | ⟨m, he⟩
    · exact ⟨0, by simp [removeEach, remove, he], by simp [removeEach, remove, he]⟩
    obtain ⟨m', hm'⟩ := remove_noFaults_eq h t n
    have he' : remove fails h t n = ((remove noFaults h t 0).1, (remove noFaults h t 0).2.1, m) := by
      rw [remove, he, ← remove, hm']
    rcases hr : remove noFaults h t 0 with ⟨r, t₁, m₁⟩
    rw [hr] at he'
    cases r with
    | error e => exact ⟨1, by simp [removeEach, he', hr], by simp [removeEach, he']⟩
    | ok u =>
      obtain ⟨k, hk, hok⟩ := ih t₁ m
      obtain ⟨m₁', hm₁'⟩ := removeEach_noFaults_eq (l.take k) t₁ m₁
      refine ⟨k + 1, ?_, fun h => by simpa using hok (by simpa [removeEach, he'] using h)⟩
      simp [removeEach, he', hr, hk, hm₁']

/-- **`remove_by_entity` commits a prefix of its removals**: under any faults
the tables after it are those after the healthy removal of the first `k`
hashes of the entity, in cursor order, and of all of them when it returns
`Ok`. -/
theorem removeByEntity_eq_take (fails : Faults) (e : Address) (t : MempoolTables) (n : Nat) :
    ∃ k, (removeByEntity hOrd fails e t n).2.1 =
        (removeEach noFaults ((hOrd.toList (t.userOperationsByEntity.find e)).take k) t 0).2.1 ∧
      ((removeByEntity hOrd fails e t n).1 = .ok () → k = (t.userOperationsByEntity.find e).card) := by
  unfold removeByEntity
  rcases (dupsTx_propagates (·.userOperationsByEntity.find e) hOrd).view_eq fails true t n with
    ⟨err, m, he⟩ | ⟨m, he⟩
  · exact ⟨0, by simp [he, removeEach], by simp [he]⟩
  · rw [he]
    simp only [Tx.view, noFaults, dupsTx_noFaults, Bool.false_eq_true, if_false, if_true]
    obtain ⟨k, hk, hok⟩ := removeEach_eq_take fails (hOrd.toList (t.userOperationsByEntity.find e)) t m
    exact ⟨k, hk, fun h => (hok h).trans (hOrd.length_toList _)⟩

/-- `clear` under any faults: it panics with the tables unchanged, or clears
them as on a healthy database. -/
theorem clear_eq_or (fails : Faults) (t : MempoolTables) :
    (clear fails t).2 = t ∨ (clear fails t).2 = (clear noFaults t).2 := by
  have hb : Tx.Propagates (fun fails => do
      Tx.write fails fun t : MempoolTables => { t with userOperations := ∅ }
      Tx.write fails fun t : MempoolTables => { t with userOperationsBySender := ∅ }
      Tx.write fails fun t : MempoolTables => { t with userOperationsByEntity := ∅ }) :=
    (Tx.Propagates.write _).bind fun _ => (Tx.Propagates.write _).bind fun _ => Tx.Propagates.write _
  unfold clear
  rcases hb.committed_eq_or fails t 0 with h | h <;> split <;> split <;> simp_all

/-- Two operations of one sender, with nonces 1 and 2, both naming the
paymaster 7; their hash is their nonce. -/
theorem removeByEntity_partial_commit :
    ∃ (t : MempoolTables) (fails : Faults),
      Outcome.ofExcept (removeByEntity IterOrder.ascending fails 7 t 0).1 = .err .dbInternalError ∧
      (removeByEntity IterOrder.ascending fails 7 t 0).2.1 ≠ t ∧
      (removeByEntity IterOrder.ascending fails 7 t 0).2.1 ≠
        (removeByEntity IterOrder.ascending noFaults 7 t 0).2.1 :=
  ⟨(add (fun uo _ _ => uo.nonce.val) noFaults ⟨1, 2, [], [], 0, 0, 0, 0, 0, [7], []⟩ 0 0
      (add (fun uo _ _ => uo.nonce.val) noFaults ⟨1, 1, [], [], 0, 0, 0, 0, 0, [7], []⟩ 0 0
        ∅ 0).2.1 0).2.1,
    fun n => decide (13 ≤ n), by decide⟩

end DatabaseMempool

/-- `ClearOp::clear` of the reputation table under any faults: it panics with
the table unchanged, or empties it. -/
theorem DatabaseReputation.clear_eq_or (fails : Faults) (t : EntitiesReputation) :
    (DatabaseReputation.clear fails t).2 = t ∨ (DatabaseReputation.clear fails t).2 = ∅ := by
  unfold DatabaseReputation.clear
  rcases (Tx.Propagates.write fun _ => (∅ : EntitiesReputation)).committed_eq_or fails t 0 with h | h <;>
    split <;> simp_all [Tx.atomically, noFaults]

/-- `set_entry` under any faults commits nothing, or puts the entry. -/
theorem DatabaseReputation.setEntry_run_eq_or (fails : Faults) (addr : Address)
    (entry : ReputationEntry) (t : EntitiesReputation) :
    ((DatabaseReputation.setEntry fails addr entry).run t).2 = t ∨
      ((DatabaseReputation.setEntry fails addr entry).run t).2 = Finmap.insert addr entry t := by
  rcases (DatabaseReputation.setEntryTx_propagates addr entry).committed_eq_or fails t 0 with h | h
  · exact .inl h
  · exact .inr (h.trans (by simp [DatabaseReputation.setEntryTx, Tx.atomically, noFaults]))

/-- **What the durable backends commit.**  Under any fault oracle: `add`,
`remove`, `set_code_hashes` and `set_entry` fail with the tables unchanged or
do exactly what a healthy database does; `remove_by_entity` leaves the
healthy removal of a prefix of the entity's hashes, all of them when it
returns `Ok`; `update` fails with the table unchanged, or returns `Ok` with a
prefix of the cursor walk decayed. -/
theorem durable_commits (hash : UoHasher) (hOrd : IterOrder UserOperationHash)
    (aOrd : IterOrder Address) (fails : Faults) :
    (∀ uo ep c t n, (∃ e m, DatabaseMempool.add hash fails uo ep c t n = (.error e, t, m)) ∨
      ∃ m, DatabaseMempool.add hash fails uo ep c t n =
        ((DatabaseMempool.add hash noFaults uo ep c t n).1,
          (DatabaseMempool.add hash noFaults uo ep c t n).2.1, m)) ∧
    (∀ h t n, (∃ e m, DatabaseMempool.remove fails h t n = (.error e, t, m)) ∨
      ∃ m, DatabaseMempool.remove fails h t n =
        ((DatabaseMempool.remove noFaults h t n).1, (DatabaseMempool.remove noFaults h t n).2.1, m)) ∧
    (∀ h l t n, (∃ e m, DatabaseMempool.setCodeHashes fails h l t n = (.error e, t, m)) ∨
      ∃ m, DatabaseMempool.setCodeHashes fails h l t n =
        ((DatabaseMempool.setCodeHashes noFaults h l t n).1,
          (DatabaseMempool.setCodeHashes noFaults h l t n).2.1, m)) ∧
    (∀ a entry t n, (∃ e m, DatabaseReputation.setEntry fails a entry t n = (.error e, t, m)) ∨
      ∃ m, DatabaseReputation.setEntry fails a entry t n =
        ((DatabaseReputation.setEntry noFaults a entry t n).1,
          (DatabaseReputation.setEntry noFaults a entry t n).2.1, m)) ∧
    (∀ e t n, ∃ k, (DatabaseMempool.removeByEntity hOrd fails e t n).2.1 =
        (DatabaseMempool.removeEach noFaults
          ((hOrd.toList (t.userOperationsByEntity.find e)).take k) t 0).2.1 ∧
      ((DatabaseMempool.removeByEntity hOrd fails e t n).1 = .ok () →
        k = (t.userOperationsByEntity.find e).card)) ∧
    (∀ t n, (∃ e m, DatabaseReputation.update aOrd fails t n = (.error e, t, m)) ∨
      ∃ k m, DatabaseReputation.update aOrd fails t n =
        (.ok (), DatabaseReputation.decayEach ((DatabaseReputation.entries aOrd t).take k) t, m)) :=
  ⟨fun uo ep c => (DatabaseMempool.addTx_propagates uo (hash uo ep c)).atomically_eq fails,
    fun h => (DatabaseMempool.removeTx_propagates h).atomically_eq fails,
    fun h l => (DatabaseMempool.setCodeHashesTx_propagates h l).atomically_eq fails,
    fun a entry => (DatabaseReputation.setEntryTx_propagates a entry).atomically_eq fails,
    DatabaseMempool.removeByEntity_eq_take fails,
    DatabaseReputation.update_eq_or⟩

end Silius
