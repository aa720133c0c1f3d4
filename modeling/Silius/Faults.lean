import Silius.Removal

/-!
# Runs on a failing database

`Database.Atomicity` says what one operation of the durable backends commits
when some of its database calls fail.  This module follows whole runs, in
which any call of any operation may fail.

* `faulty_runs_reach_healthy_tables` — the tables a `DatabaseMempool` reaches
  under any faults are tables a healthy run reaches.  A failed transaction
  commits nothing, a successful one what it commits on a healthy database, and
  a `remove_by_entity` cut short leaves the healthy removal of a prefix of the
  entity's hashes, which healthy `remove` calls reach one by one.  Every
  invariant of healthy runs, index consistency first, holds on faulty runs.
* `durable_reads_healthy_or_fallback` — every read of the two durable tables
  answers what it answers on a healthy database, or an error, or its fallback
  (`vec![]`, `0`); the one exception is `get_all_by_sender`, which drops an
  operation whose `get` fails and answers a sublist of the healthy answer.
* `reputation_below_wrap` — over runs of `set_entry`, `update` and `clear`
  under any faults, an entry written below the wrap of `update`'s `* 23`,
  with no more inclusions than sightings, stays so: `update`, whole or cut
  short, only writes decayed copies.
-/

namespace Silius

/-! ## The mempool tables over a faulty run -/

/-- The tables a `DatabaseMempool` reaches from empty tables by any calls, each
walking its cursors in any order and each with its own failing database calls. -/
inductive DbReachableWithFaults (hash : UoHasher) : MempoolTables → Prop
  | empty : DbReachableWithFaults hash ∅
  | call {t} (hOrd : IterOrder UserOperationHash) (cOrd : IterOrder CodeHash) (fails : Faults)
      (c : Call) : DbReachableWithFaults hash t →
        DbReachableWithFaults hash (DatabaseMempool.call hash hOrd cOrd fails t c).2

namespace DbReachable

variable {hash : UoHasher} {t : MempoolTables}

/-- Healthy `remove` calls reach the tables after any healthy removal loop. -/
theorem removeEach (hr : DbReachable hash t) (l : List UserOperationHash) :
    DbReachable hash (DatabaseMempool.removeEach noFaults l t 0).2.1 := by
  induction l generalizing t with
  | nil => exact hr
  | cons h l ih =>
    have hstep : DbReachable hash (DatabaseMempool.remove noFaults h t 0).2.1 :=
      .call .ascending .ascending (.remove h) hr
    rcases hrem : DatabaseMempool.remove noFaults h t 0 with ⟨_ | ⟨⟩, t', m⟩ <;> rw [hrem] at hstep
    · simpa [DatabaseMempool.removeEach, hrem] using hstep
    · obtain ⟨m', hm'⟩ := DatabaseMempool.removeEach_noFaults_eq l t' m
      simpa only [DatabaseMempool.removeEach, hrem, hm'] using ih hstep

/-- Tables that are the old ones or those a healthy call leaves are reachable. -/
theorem of_eq_or {s : MempoolTables} (hr : DbReachable hash t) (hOrd : IterOrder UserOperationHash)
    (cOrd : IterOrder CodeHash) (c : Call)
    (h : s = t ∨ s = (DatabaseMempool.call hash hOrd cOrd noFaults t c).2) : DbReachable hash s := by
  rcases h with rfl | rfl
  · exact hr
  · exact .call hOrd cOrd c hr

/-- **One call with failing database calls ends in tables a healthy run
reaches.** -/
theorem call_faults (hr : DbReachable hash t) (hOrd : IterOrder UserOperationHash)
    (cOrd : IterOrder CodeHash) (fails : Faults) (c : Call) :
    DbReachable hash (DatabaseMempool.call hash hOrd cOrd fails t c).2 := by
  cases c with
  | add uo ep chainId =>
    exact hr.of_eq_or hOrd cOrd (.add uo ep chainId)
      ((DatabaseMempool.addTx_propagates uo (hash uo ep chainId)).committed_eq_or fails t 0)
  | setCodeHashes h l =>
    exact hr.of_eq_or hOrd cOrd (.setCodeHashes h l)
      ((DatabaseMempool.setCodeHashesTx_propagates h l).committed_eq_or fails t 0)
  | remove h =>
    exact hr.of_eq_or hOrd cOrd (.remove h)
      ((DatabaseMempool.removeTx_propagates h).committed_eq_or fails t 0)
  | removeByEntity e =>
    obtain ⟨k, hk, -⟩ := @DatabaseMempool.removeByEntity_eq_take hOrd fails e t 0
    show DbReachable hash (DatabaseMempool.removeByEntity hOrd fails e t 0).2.1
    rw [hk]
    exact hr.removeEach _
  | clear => exact hr.of_eq_or hOrd cOrd .clear (DatabaseMempool.clear_eq_or fails t)
  | get | getAllBySender | getNumberBySender | getNumberByEntity | hasCodeHashes | getCodeHashes
  | getSorted | getAll => exact hr

end DbReachable

theorem DbReachableWithFaults.dbReachable {hash : UoHasher} {t : MempoolTables}
    (hr : DbReachableWithFaults hash t) : DbReachable hash t := by
  induction hr with
  | empty => exact .empty
  | call hOrd cOrd fails c _ ih => exact ih.call_faults hOrd cOrd fails c

/-- **Database faults reach no new tables.**  For every hash function and
every run from empty tables in which any database calls fail, the tables are
tables a healthy run reaches; when the hash determines the entities they are
index-consistent, each operation stored under one of its own hashes. -/
theorem faulty_runs_reach_healthy_tables {hash : UoHasher} {t : MempoolTables}
    (hr : DbReachableWithFaults hash t) :
    DbReachable hash t ∧ (HashDeterminesEntities hash →
      IndexConsistent t.userOperations t.userOperationsBySender t.userOperationsByEntity ∧
        KeyedByHash hash t.userOperations) := by
  refine ⟨hr.dbReachable, fun hdet => ?_⟩
  obtain ⟨m, hm⟩ := hr.dbReachable.related hdet
  rw [hm.userOperations, hm.bySender, hm.byEntity]
  exact ⟨hm.wellIndexed.index, hm.wellIndexed.keyed⟩

/-- A run whose `add` fails at its second write, the one into
`UserOperationsBySender`, after the first has gone into the transaction. -/
theorem faulty_runs_reach_healthy_tables_failed_add :
    let t := (DatabaseMempool.call MemoryMempool.entityHash .ascending .ascending
      (fun n => decide (n = 2)) ∅ (.add ⟨1, 0, [], [], 0, 0, 0, 0, 0, [7], []⟩ 0 0)).2
    DbReachableWithFaults MemoryMempool.entityHash t ∧ DbReachable MemoryMempool.entityHash t ∧
      (HashDeterminesEntities MemoryMempool.entityHash →
        IndexConsistent t.userOperations t.userOperationsBySender t.userOperationsByEntity ∧
          KeyedByHash MemoryMempool.entityHash t.userOperations) :=
  ⟨.call _ _ _ _ .empty, faulty_runs_reach_healthy_tables (.call _ _ _ _ .empty)⟩

/-! ## Reads under faults -/

namespace DatabaseMempool

variable {hOrd : IterOrder UserOperationHash}

theorem walkAllTx_propagates : Tx.Propagates fun fails => walkAllTx hOrd fails :=
  (Tx.Propagates.read _).bind fun _ => Tx.Propagates.snapshot.bind fun _ =>
    (Tx.Propagates.walk _).bind fun _ => Tx.Propagates.pure _

/-- Under any faults `getEach` answers a sublist of its healthy answer: a
failed `get` drops its operation. -/
theorem getEach_sublist (fails : Faults) (hs : List UserOperationHash) (t : MempoolTables) (n : Nat) :
    ∃ l m, getEach fails hs t n = (.ok (l, t), m) ∧ l.Sublist (hs.filterMap t.userOperations.lookup) := by
  induction hs generalizing n with
  | nil => exact ⟨[], n, rfl, .slnil⟩
  | cons h hs ih =>
    obtain ⟨l, m, he, hl⟩ := ih (n + 1)
    refine ⟨if !fails n then (t.userOperations.lookup h).toList ++ l else l, m,
      by simp only [getEach, Tx.bind_apply, Tx.attempt, Tx.snapshot, he, Tx.pure_apply], ?_⟩
    rw [List.filterMap_cons]
    cases fails n <;> cases t.userOperations.lookup h <;> simp [hl, hl.cons]

/-- `get_all_by_sender` under any faults answers a sublist of its healthy
answer. -/
theorem getAllBySender_sublist (fails : Faults) (a : Address) (t : MempoolTables) :
    (getAllBySender hOrd fails a t).Sublist (getAllBySender hOrd noFaults a t) := by
  rw [getAllBySender_noFaults]
  unfold getAllBySender Tx.view
  by_cases h0 : fails 0
  · simp [h0]
  rcases dupsTx_propagates (·.userOperationsBySender.find a) hOrd fails t 1 with ⟨e, m, he⟩ | he <;>
    dsimp only at he
  · simp [h0, he]
  obtain ⟨l, m, hl, hsub⟩ := getEach_sublist fails (hOrd.toList (t.userOperationsBySender.find a)) t
    (1 + (t.userOperationsBySender.find a).card + 2)
  by_cases hm : fails m <;>
    simp [h0, Tx.bind_apply, he, dupsTx_noFaults, hl, hm, hsub]

end DatabaseMempool

/-- **Reads fall back whole.**  Under any faults, every read of the durable
mempool and reputation tables answers what it answers on a healthy database,
or an error, or its fallback: `get_all`, `get_code_hashes` and the
reputation's `get_all` the empty list, `get_number_by_sender` and
`get_number_by_entity` zero.  `get_all_by_sender` alone may answer part of
its healthy answer: a sublist, in the same order. -/
theorem durable_reads_healthy_or_fallback (hOrd : IterOrder UserOperationHash)
    (cOrd : IterOrder CodeHash) (aOrd : IterOrder Address) (fails : Faults) :
    (∀ h t, DatabaseMempool.get fails h t = DatabaseMempool.get noFaults h t ∨
      ∃ e, DatabaseMempool.get fails h t = .err e) ∧
    (∀ a t, DatabaseMempool.getNumberBySender hOrd fails a t =
      DatabaseMempool.getNumberBySender hOrd noFaults a t ∨
      DatabaseMempool.getNumberBySender hOrd fails a t = 0) ∧
    (∀ a t, DatabaseMempool.getNumberByEntity hOrd fails a t =
      DatabaseMempool.getNumberByEntity hOrd noFaults a t ∨
      DatabaseMempool.getNumberByEntity hOrd fails a t = 0) ∧
    (∀ h t, DatabaseMempool.hasCodeHashes fails h t = DatabaseMempool.hasCodeHashes noFaults h t ∨
      ∃ e, DatabaseMempool.hasCodeHashes fails h t = .err e) ∧
    (∀ h t, DatabaseMempool.getCodeHashes cOrd fails h t = DatabaseMempool.getCodeHashes cOrd noFaults h t ∨
      DatabaseMempool.getCodeHashes cOrd fails h t = []) ∧
    (∀ t, DatabaseMempool.getSorted hOrd fails t = DatabaseMempool.getSorted hOrd noFaults t ∨
      ∃ e, DatabaseMempool.getSorted hOrd fails t = .err e) ∧
    (∀ t, DatabaseMempool.getAll hOrd fails t = DatabaseMempool.getAll hOrd noFaults t ∨
      DatabaseMempool.getAll hOrd fails t = []) ∧
    (∀ a t, DatabaseReputation.getEntry fails a t = DatabaseReputation.getEntry noFaults a t ∨
      ∃ e, DatabaseReputation.getEntry fails a t = .err e) ∧
    (∀ a t, DatabaseReputation.containsEntry fails a t = DatabaseReputation.containsEntry noFaults a t ∨
      ∃ e, DatabaseReputation.containsEntry fails a t = .err e) ∧
    (∀ t, DatabaseReputation.getAll aOrd fails t = DatabaseReputation.getAll aOrd noFaults t ∨
      DatabaseReputation.getAll aOrd fails t = []) ∧
    (∀ a t, (DatabaseMempool.getAllBySender hOrd fails a t).Sublist
      (DatabaseMempool.getAllBySender hOrd noFaults a t)) := by
  have walkRep : Tx.Propagates fun fails => DatabaseReputation.walkAllTx aOrd fails :=
    (Tx.Propagates.read _).bind fun _ => Tx.Propagates.snapshot.bind fun _ => Tx.Propagates.walk _
  have getEntry_eq_or : ∀ a t, DatabaseReputation.getEntry fails a t =
      DatabaseReputation.getEntry noFaults a t ∨ ∃ e, DatabaseReputation.getEntry fails a t = .err e :=
    fun a t => (Tx.Propagates.read _).read_eq_or fails true t Outcome.ofExcept
  refine ⟨fun h t => (Tx.Propagates.read _).read_eq_or fails true t Outcome.ofExcept,
    fun a t => (DatabaseMempool.dupsTx_propagates _ hOrd).read_eq_or fails true t
      (fun r : Except DBError (List UserOperationHash) => match r with
        | .ok v => v.length | .error _ => 0) |>.imp id fun ⟨_, h⟩ => h,
    fun a t => (DatabaseMempool.dupsTx_propagates _ hOrd).read_eq_or fails true t
      (fun r : Except DBError (List UserOperationHash) => match r with
        | .ok v => v.length | .error _ => 0) |>.imp id fun ⟨_, h⟩ => h,
    fun h t => (Tx.Propagates.read _).read_eq_or fails true t Outcome.ofExcept,
    fun h t => (DatabaseMempool.dupsTx_propagates _ cOrd).read_eq_or fails true t
      (fun r : Except DBError (List CodeHash) => match r with
        | .ok v => v | .error _ => []) |>.imp id fun ⟨_, h⟩ => h,
    fun t => DatabaseMempool.walkAllTx_propagates.read_eq_or fails false t
      (fun r : Except DBError (List UserOperation) => (match r with
        | .ok uos => .ok (sortByFees uos)
        | .error _ => .err .dbInternalError : Outcome DBError (List UserOperation)))
      |>.imp id fun ⟨_, h⟩ => ⟨_, h⟩,
    fun t => DatabaseMempool.walkAllTx_propagates.read_eq_or fails true t
      (fun r : Except DBError (List UserOperation) => match r with
        | .ok uos => uos | .error _ => []) |>.imp id fun ⟨_, h⟩ => h,
    getEntry_eq_or, fun a t => ?_,
    fun t => walkRep.read_eq_or fails true t
      (fun r : Except DBError (List ReputationEntry) => match r with
        | .ok res => res | .error _ => []) |>.imp id fun ⟨_, h⟩ => h,
    DatabaseMempool.getAllBySender_sublist fails⟩
  rcases getEntry_eq_or a t with h | ⟨e, h⟩
  · exact .inl (by rw [DatabaseReputation.containsEntry, h, ← DatabaseReputation.containsEntry])
  · exact .inr ⟨e, by rw [DatabaseReputation.containsEntry, h]; rfl⟩

/-! ## The reputation table over a faulty run -/

open ReputationEntry

/-- The reputation tables reached from the empty table by `set_entry` of
entries that satisfy `Written`, `update` walking in any order, and `clear`,
each with its own failing database calls. -/
inductive ReputationReachable (Written : ReputationEntry → Prop) : EntitiesReputation → Prop
  | empty : ReputationReachable Written ∅
  | setEntry {t} (fails : Faults) (addr : Address) (entry : ReputationEntry) : Written entry →
      ReputationReachable Written t →
        ReputationReachable Written ((DatabaseReputation.setEntry fails addr entry).run t).2
  | update {t} (aOrd : IterOrder Address) (fails : Faults) : ReputationReachable Written t →
      ReputationReachable Written ((DatabaseReputation.update aOrd fails).run t).2
  | clear {t} (fails : Faults) : ReputationReachable Written t →
      ReputationReachable Written (DatabaseReputation.clear fails t).2

/-- **The counters stay below the wrap.**  Over every run of `set_entry`,
`update` and `clear` from the empty table, under any database faults, in
which `set_entry` only writes entries with `23 * uo_seen < 2 ^ 64` and
`uo_included ≤ uo_seen`, every stored entry keeps both. -/
theorem reputation_below_wrap {t : EntitiesReputation} (hr : ReputationReachable BelowWrap t) :
    ∀ a ent, t.lookup a = some ent → ent.BelowWrap := by
  induction hr with
  | empty => intro a ent h; simp at h
  | @setEntry t fails addr entry hentry _ ih =>
    rcases DatabaseReputation.setEntry_run_eq_or fails addr entry t with h | h <;> rw [h]
    · exact ih
    · intro a ent ha
      by_cases hab : a = addr
      · subst hab; rw [Finmap.lookup_insert] at ha; exact Option.some.inj ha ▸ hentry
      · rw [Finmap.lookup_insert_of_ne _ hab] at ha; exact ih a ent ha
  | @update t aOrd fails _ ih =>
    rcases @DatabaseReputation.update_eq_or aOrd fails t 0 with
      ⟨e, m, h⟩ | ⟨k, m, h⟩ <;> rw [DbStep.run, h]
    · exact ih
    · exact DatabaseReputation.decayEach_forall (P := BelowWrap) (fun _ => BelowWrap.decay)
        (fun p hp => ih p.1 p.2 (DatabaseReputation.mem_entries.mp (List.mem_of_mem_take hp))) ih
  | @clear t fails _ ih =>
    rcases DatabaseReputation.clear_eq_or fails t with h | h <;> rw [h]
    · exact ih
    · intro a ent ha; simp at ha

/-- A table where an entry `(48, 24)` was set and then decayed to `(46, 23)`. -/
theorem reputation_below_wrap_set_update :
    let t := ((DatabaseReputation.update .ascending noFaults).run
      ((DatabaseReputation.setEntry noFaults 1 ⟨1, 48, 24⟩).run ∅).2).2
    ReputationReachable BelowWrap t ∧ ∀ a ent, t.lookup a = some ent → ent.BelowWrap :=
  ⟨.update _ _ (.setEntry _ _ _ (by decide) .empty),
    reputation_below_wrap (.update _ _ (.setEntry _ _ _ (by decide) .empty))⟩

end Silius
