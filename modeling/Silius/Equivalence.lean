import Silius.Memory.Invariant
import Silius.Database.Atomicity

/-!
# The two backends side by side

`MemoryMempool` and `DatabaseMempool` implement one trait.  A `Call` is one
method call with its arguments and `Obs` what its caller sees of the result;
`MemoryMempool.exec` and `DatabaseMempool.exec` run a list of calls from a
state and list what each call returned.  The in-memory pool may walk its
containers in a different order at every call; the database walks its
cursors in a fixed order.

`Related` is the simulation between the two: the primary map and both
indexes are equal, and the in-memory pool is well indexed; with `codes` set,
the code-hash table also holds the set of every in-memory list.  Every call
keeps the first part.  The code hashes part only survives calls that
`KeepCodes`: `clear` empties the in-memory map but not `CodeHashes`, and
`set_code_hashes(h, [])` leaves `h` with an empty list in memory but with
no entry in MDBX (`exec_empty_code_hashes`).

* `Related.call` — one call: the answers agree and `Related` is kept;
* `backends_agree` — every run from empty pools, with the answers of
  `has_code_hashes` and `get_code_hashes` compared when every call keeps
  code hashes;
* `getSorted_ordered` — the `get_sorted` of each backend orders a
  permutation of `get_all`;
* `dbReachable_indexConsistent` — the durable tables of every healthy run
  are index-consistent;
* `setCodeHashes_getCodeHashes` — `set_code_hashes` then `get_code_hashes`
  on each backend: the list itself in memory, its distinct elements in MDBX;
* `add_idempotent` — a second `add` of an operation changes neither backend.
-/

namespace Silius

/-- A call of the `Mempool` trait, with its arguments. -/
inductive Call where
  | add (uo : UserOperation) (ep : Address) (chainId : U256)
  | get (uoHash : UserOperationHash)
  | getAllBySender (sender : Address)
  | getNumberBySender (addr : Address)
  | getNumberByEntity (addr : Address)
  | hasCodeHashes (uoHash : UserOperationHash)
  | setCodeHashes (uoHash : UserOperationHash) (hashes : List CodeHash)
  | getCodeHashes (uoHash : UserOperationHash)
  | remove (uoHash : UserOperationHash)
  | removeByEntity (entity : Address)
  | getSorted
  | getAll
  | clear

/-- What the caller sees of a call's result; `none` is an `Err`, and `done`
says whether a call without a value returned `Ok`. -/
inductive Obs where
  | added (r : Option UserOperationHash)
  | done (ok : Bool)
  | found (r : Option (Option UserOperation))
  | uos (l : List UserOperation)
  | count (n : Nat)
  | codeFlag (r : Option Bool)
  | codes (l : List CodeHash)
  | sorted (r : Option (List UserOperation))
  deriving DecidableEq

/-- The value of a call that returned `Ok`. -/
def Outcome.toOption {ε α : Type} : Outcome ε α → Option α
  | .ok a => some a
  | _ => none

namespace Call

/-- A call after which the code hashes of the two backends still agree: not
`clear`, and `set_code_hashes` only with a non-empty list without repetitions. -/
def KeepsCodes : Call → Prop
  | .setCodeHashes _ l => l ≠ [] ∧ l.Nodup
  | .clear => False
  | _ => True

end Call

open UserOperation

/-- Two answers to one call agree: lists of operations as multisets, sorted
lists up to the order among equal (tip, nonce) keys, code hashes as
multisets.  With `codes` unset the answers of `has_code_hashes` and
`get_code_hashes` are not compared. -/
def Obs.Agree (codes : Bool) : Obs → Obs → Prop
  | .uos l, .uos l' => l.Perm l'
  | .sorted (some l), .sorted (some l') => l.Perm l' ∧ l.map feeKey = l'.map feeKey
  | .codeFlag r, .codeFlag r' => codes → r = r'
  | .codes l, .codes l' => codes → l.Perm l'
  | o, o' => o = o'

namespace MemoryMempool

variable (hash : UoHasher)

/-- One call on a `MemoryMempool` whose containers iterate in `ord`. -/
def call (ord : IterOrder UserOperationHash) (m : MemoryMempool) : Call → Obs × MemoryMempool
  | .add uo ep chainId => ((.added (m.add hash uo ep chainId).1.toOption), (m.add hash uo ep chainId).2)
  | .get h => (.found (m.get h).toOption, m)
  | .getAllBySender a => (.uos (m.getAllBySender ord a), m)
  | .getNumberBySender a => (.count (m.getNumberBySender a), m)
  | .getNumberByEntity a => (.count (m.getNumberByEntity a), m)
  | .hasCodeHashes h => (.codeFlag (m.hasCodeHashes h).toOption, m)
  | .setCodeHashes h l => (.done (m.setCodeHashes h l).1.toOption.isSome, (m.setCodeHashes h l).2)
  | .getCodeHashes h => (.codes (m.getCodeHashes h), m)
  | .remove h => (.done (m.remove h).1.toOption.isSome, (m.remove h).2)
  | .removeByEntity a =>
    (.done (m.removeByEntity ord a).1.toOption.isSome, (m.removeByEntity ord a).2)
  | .getSorted => (.sorted (m.getSorted ord).toOption, m)
  | .getAll => (.uos (m.getAll ord), m)
  | .clear => (.done true, m.clear)

/-- A run of calls; the `i`-th call sees its containers iterate in `ord i`. -/
def exec (ord : Nat → IterOrder UserOperationHash) (m : MemoryMempool) :
    List Call → List Obs × MemoryMempool
  | [] => ([], m)
  | c :: cs =>
    let rest := exec (fun i => ord (i + 1)) (m.call hash (ord 0) c).2 cs
    ((m.call hash (ord 0) c).1 :: rest.1, rest.2)

end MemoryMempool

namespace DatabaseMempool

variable (hash : UoHasher) (hOrd : IterOrder UserOperationHash) (cOrd : IterOrder CodeHash)
  (fails : Faults)

/-- One call on the tables of a `DatabaseMempool`, its database calls counted
from zero. -/
def call (t : MempoolTables) : Call → Obs × MempoolTables
  | .add uo ep chainId =>
    (.added ((add hash fails uo ep chainId).run t).1.toOption, ((add hash fails uo ep chainId).run t).2)
  | .get h => (.found (get fails h t).toOption, t)
  | .getAllBySender a => (.uos (getAllBySender hOrd fails a t), t)
  | .getNumberBySender a => (.count (getNumberBySender hOrd fails a t), t)
  | .getNumberByEntity a => (.count (getNumberByEntity hOrd fails a t), t)
  | .hasCodeHashes h => (.codeFlag (hasCodeHashes fails h t).toOption, t)
  | .setCodeHashes h l =>
    (.done ((setCodeHashes fails h l).run t).1.toOption.isSome, ((setCodeHashes fails h l).run t).2)
  | .getCodeHashes h => (.codes (getCodeHashes cOrd fails h t), t)
  | .remove h => (.done ((remove fails h).run t).1.toOption.isSome, ((remove fails h).run t).2)
  | .removeByEntity a =>
    (.done ((removeByEntity hOrd fails a).run t).1.toOption.isSome,
      ((removeByEntity hOrd fails a).run t).2)
  | .getSorted => (.sorted (getSorted hOrd fails t).toOption, t)
  | .getAll => (.uos (getAll hOrd fails t), t)
  | .clear => (.done (clear fails t).1.toOption.isSome, (clear fails t).2)

/-- A run of calls. -/
def exec (t : MempoolTables) : List Call → List Obs × MempoolTables
  | [] => ([], t)
  | c :: cs =>
    let rest := exec (call hash hOrd cOrd fails t c).2 cs
    ((call hash hOrd cOrd fails t c).1 :: rest.1, rest.2)

variable {hash hOrd cOrd}

theorem add_run_noFaults (uo : UserOperation) (ep : Address) (c : U256) (t : MempoolTables) :
    (add hash noFaults uo ep c).run t = (.ok (hash uo ep c),
      { t with
        userOperations := Finmap.insert (hash uo ep c) uo t.userOperations
        userOperationsBySender := t.userOperationsBySender.insertValue uo.sender (hash uo ep c)
        userOperationsByEntity := (t.userOperationsByEntity.insertOpt uo.factory
          (hash uo ep c)).insertOpt uo.paymaster (hash uo ep c) }) := by
  obtain ⟨m, hm⟩ := @add_noFaults hash uo ep c t 0
  simp [DbStep.run, hm, Outcome.ofExcept]

theorem setCodeHashes_run_noFaults (h : UserOperationHash) (l : List CodeHash) (t : MempoolTables) :
    (setCodeHashes noFaults h l).run t = (.ok (),
      { t with codeHashes := l.foldl (fun idx c => idx.insertValue h c) (Finmap.erase h t.codeHashes) }) := by
  obtain ⟨m, hm⟩ := setCodeHashes_noFaults h l t 0
  simp [DbStep.run, hm, Outcome.ofExcept]

end DatabaseMempool

/-! ## Removal in any order -/

namespace MemoryMempool

variable {m : MemoryMempool}

/-- **`remove_by_entity` does not depend on the order of the `HashSet`**:
removing distinct stored hashes in two orders gives the same pool. -/
theorem removeEach_perm {l l' : List UserOperationHash} (hp : l.Perm l') (hnd : l.Nodup)
    (hs : ∀ h ∈ l, h ∈ m.userOperations) : m.removeEach l = m.removeEach l' := by
  induction hp generalizing m with
  | nil => rfl
  | cons x _ ih =>
    obtain ⟨hx, hnd⟩ := List.nodup_cons.mp hnd
    rw [removeEach_cons_of_mem (hs x (.head _)), removeEach_cons_of_mem (hs x (.head _))]
    exact ih hnd fun h hh =>
      mem_remove_of_ne (fun e => hx (e ▸ hh)) (hs h (.tail _ hh))
  | swap x y l =>
    obtain ⟨hyx, hnd⟩ := List.nodup_cons.mp hnd
    have hne : x ≠ y := fun e => hyx (e ▸ .head _)
    obtain ⟨uy, hly⟩ := Finmap.mem_iff.mp (hs y (.head _))
    obtain ⟨ux, hlx⟩ := Finmap.mem_iff.mp (hs x (.tail _ (.head _)))
    rw [removeEach_cons_of_mem (hs y (.head _)), removeEach_cons_of_mem (hs x (.tail _ (.head _))),
      removeEach_cons_of_mem (mem_remove_of_ne hne (hs x (.tail _ (.head _)))),
      removeEach_cons_of_mem (mem_remove_of_ne hne.symm (hs y (.head _))),
      remove_comm hne.symm hly hlx]
  | trans h₁ _ ih₁ ih₂ =>
    rw [ih₁ hnd hs, ih₂ (h₁.nodup_iff.mp hnd) fun h hh => hs h (h₁.mem_iff.mpr hh)]

end MemoryMempool

/-! ## The simulation -/

/-- The two backends hold the same pool: equal primary maps and indexes, a
well-indexed in-memory pool, and, when `codes` is set, code hashes alike (the
durable table holds the set of each in-memory list, and every list is
non-empty without repetitions). -/
structure Related (hash : UoHasher) (codes : Bool) (m : MemoryMempool) (t : MempoolTables) :
    Prop where
  userOperations : t.userOperations = m.userOperations
  bySender : t.userOperationsBySender = m.userOperationsBySender
  byEntity : t.userOperationsByEntity = m.userOperationsByEntity
  wellIndexed : MemoryMempool.WellIndexed hash m
  codeHashes : codes → ∀ h,
    t.codeHashes.lookup h = (m.codeHashesByUserOperation.lookup h).map List.toFinset
  codeLists : codes → ∀ h l, m.codeHashesByUserOperation.lookup h = some l → l ≠ [] ∧ l.Nodup

namespace Related

variable {hash : UoHasher} {codes : Bool} {m : MemoryMempool} {t : MempoolTables}

theorem empty : Related hash codes ∅ ∅ :=
  ⟨rfl, rfl, rfl, MemoryMempool.WellIndexed.empty, fun _ _ => rfl, fun _ k _ h =>
    Option.noConfusion ((Finmap.lookup_empty k).symm.trans h)⟩

/-- One `remove`, its database calls counted from `n`. -/
theorem remove (hr : Related hash codes m t) (h : UserOperationHash) (n : Nat) :
    ∃ r t' n', DatabaseMempool.remove noFaults h t n = (r, t', n') ∧
      ((m.remove h).1 = .ok () ↔ r = .ok ()) ∧ Related hash codes (m.remove h).2 t' := by
  cases hl : m.userOperations.lookup h with
  | none =>
    obtain ⟨n', hn⟩ := DatabaseMempool.remove_noFaults_none (hr.userOperations ▸ hl) n
    refine ⟨_, _, _, hn, ?_, ?_⟩ <;> rw [MemoryMempool.remove_of_lookup_none hl]
    · simp
    · exact hr
  | some uo =>
    obtain ⟨n', hn⟩ := DatabaseMempool.remove_noFaults_some (hr.userOperations ▸ hl) n
    have hw := hr.wellIndexed.remove h
    refine ⟨_, _, _, hn, ?_, ?_⟩ <;> rw [MemoryMempool.remove_of_lookup hl] at hw ⊢
    · simp
    refine ⟨by simp [hr.userOperations], by simp [hr.bySender], by simp [hr.byEntity], hw,
      fun hc k => ?_, fun hc k l hk => ?_⟩
    · by_cases e : k = h
      · subst e; simp [Finmap.lookup_erase]
      · simp [Finmap.lookup_erase_ne e, hr.codeHashes hc k]
    · by_cases e : k = h
      · subst e; simp [Finmap.lookup_erase] at hk
      · exact hr.codeLists hc k l (by simpa [Finmap.lookup_erase_ne e] using hk)

/-- The removal loop on one list of hashes, its calls counted from `n`. -/
theorem removeEach (hr : Related hash codes m t) (l : List UserOperationHash) (n : Nat) :
    ∃ r t' n', DatabaseMempool.removeEach noFaults l t n = (r, t', n') ∧
      ((m.removeEach l).1 = .ok () ↔ r = .ok ()) ∧ Related hash codes (m.removeEach l).2 t' := by
  induction l generalizing m t n with
  | nil => exact ⟨_, _, _, rfl, by simp [MemoryMempool.removeEach], hr⟩
  | cons h l ih =>
    obtain ⟨r, t', n', hdb, hiff, hr'⟩ := hr.remove h n
    rw [MemoryMempool.removeEach_cons]
    by_cases hok : (m.remove h).1 = .ok ()
    · obtain rfl := hiff.mp hok
      obtain ⟨r'', t'', n'', hdb', hiff', hr''⟩ := ih hr' n'
      exact ⟨r'', t'', n'', by simp [DatabaseMempool.removeEach, hdb, hdb'], by simpa [hok] using hiff',
        by simpa [hok] using hr''⟩
    · cases r with
      | ok u => exact absurd (hiff.mpr rfl) hok
      | error e =>
        exact ⟨.error e, t', n', by simp [DatabaseMempool.removeEach, hdb], by simp [hok],
          by simpa [hok] using hr'⟩

/-- One `remove_by_entity`: the database walks the entity's hashes in its own
order and the in-memory pool in `ord`, and both remove the same set. -/
theorem removeByEntity (hr : Related hash codes m t) (ord hOrd : IterOrder UserOperationHash)
    (a : Address) :
    ((m.removeByEntity ord a).1 = .ok () ↔
        ((DatabaseMempool.removeByEntity hOrd noFaults a).run t).1 = .ok ()) ∧
      Related hash codes (m.removeByEntity ord a).2 ((DatabaseMempool.removeByEntity hOrd noFaults a).run t).2 := by
  have hperm : m.removeByEntity ord a = m.removeEach (hOrd.toList (t.userOperationsByEntity.find a)) := by
    rw [MemoryMempool.removeByEntity_eq, hr.byEntity]
    exact MemoryMempool.removeEach_perm (ord.toList_perm hOrd _) (ord.nodup_toList _) fun h hh => by
      obtain ⟨uo, hl, -⟩ := hr.wellIndexed.index.entity_sound ((ord.mem_toList).mp hh)
      exact Finmap.mem_iff.mpr ⟨uo, hl⟩
  obtain ⟨n, hn⟩ := @DatabaseMempool.removeByEntity_noFaults hOrd a t 0
  obtain ⟨r, t', n', hdb, hiff, hr'⟩ := hr.removeEach (hOrd.toList (t.userOperationsByEntity.find a)) n
  rw [hperm]
  refine ⟨?_, ?_⟩ <;> simp only [DbStep.run, hn, hdb]
  · rw [hiff, Outcome.ofExcept_eq_ok]
  · exact hr'

theorem add (hdet : HashDeterminesEntities hash) (hr : Related hash codes m t) (uo : UserOperation)
    (ep : Address) (c : U256) :
    Related hash codes (m.add hash uo ep c).2 ((DatabaseMempool.add hash noFaults uo ep c).run t).2 := by
  have hw := hr.wellIndexed.add hdet uo ep c
  rw [MemoryMempool.add_eq] at hw ⊢
  rw [DatabaseMempool.add_run_noFaults]
  exact ⟨by simp [hr.userOperations], by simp [hr.bySender], by simp [hr.byEntity], hw,
    hr.codeHashes, hr.codeLists⟩

theorem setCodeHashes (hr : Related hash codes m t) (h : UserOperationHash) (l : List CodeHash)
    (hl : codes → l ≠ [] ∧ l.Nodup) :
    Related hash codes (m.setCodeHashes h l).2 ((DatabaseMempool.setCodeHashes noFaults h l).run t).2 := by
  rw [DatabaseMempool.setCodeHashes_run_noFaults]
  refine ⟨hr.userOperations, hr.bySender, hr.byEntity, hr.wellIndexed.setCodeHashes h l,
    fun hc k => ?_, fun hc k l' hk => ?_⟩
  · simp only [MemoryMempool.setCodeHashes, Index.lookup_foldl_insertValue]
    by_cases e : k = h
    · subst e; simp [(hl hc).1, Finmap.lookup_erase, Index.find]
    · simp [e, Finmap.lookup_erase_ne, hr.codeHashes hc k]
  · simp only [MemoryMempool.setCodeHashes] at hk
    by_cases e : k = h
    · subst e; simp only [Finmap.lookup_insert, Option.some.injEq] at hk; exact hk ▸ hl hc
    · exact hr.codeLists hc k l' (by simpa [Finmap.lookup_insert_of_ne _ e] using hk)

theorem clear : Related hash false m.clear (DatabaseMempool.clear noFaults t).2 := by
  rw [DatabaseMempool.clear_noFaults]
  exact ⟨rfl, rfl, rfl, MemoryMempool.WellIndexed.empty, nofun, nofun⟩

/-- **One call on both backends**: the answers agree, and the backends stay
related. -/
theorem call (hdet : HashDeterminesEntities hash) (hr : Related hash codes m t)
    (ord hOrd : IterOrder UserOperationHash) (cOrd : IterOrder CodeHash) (c : Call)
    (hc : codes → c.KeepsCodes) :
    Obs.Agree codes (m.call hash ord c).1 (DatabaseMempool.call hash hOrd cOrd noFaults t c).1 ∧
      Related hash codes (m.call hash ord c).2 (DatabaseMempool.call hash hOrd cOrd noFaults t c).2 := by
  cases c with
  | add uo ep chainId =>
    refine ⟨?_, hr.add hdet uo ep chainId⟩
    simp [MemoryMempool.call, DatabaseMempool.call, Obs.Agree, DatabaseMempool.add_run_noFaults,
      MemoryMempool.add_eq, Outcome.toOption]
  | get h =>
    refine ⟨?_, hr⟩
    simp [MemoryMempool.call, DatabaseMempool.call, Obs.Agree, DatabaseMempool.get_noFaults,
      MemoryMempool.get, Outcome.toOption, hr.userOperations]
  | getAllBySender a =>
    refine ⟨?_, hr⟩
    simp only [MemoryMempool.call, DatabaseMempool.call, Obs.Agree, DatabaseMempool.getAllBySender_noFaults,
      MemoryMempool.getAllBySender_eq, hr.userOperations, hr.bySender]
    exact (ord.toList_perm hOrd _).filterMap _
  | getNumberBySender a =>
    exact ⟨by simp [MemoryMempool.call, DatabaseMempool.call, Obs.Agree,
      DatabaseMempool.getNumberBySender_noFaults, MemoryMempool.getNumberBySender_eq, hr.bySender], hr⟩
  | getNumberByEntity a =>
    exact ⟨by simp [MemoryMempool.call, DatabaseMempool.call, Obs.Agree,
      DatabaseMempool.getNumberByEntity_noFaults, MemoryMempool.getNumberByEntity_eq, hr.byEntity], hr⟩
  | hasCodeHashes h =>
    refine ⟨fun hcodes => ?_, hr⟩
    simp [DatabaseMempool.hasCodeHashes_noFaults, MemoryMempool.hasCodeHashes, Outcome.toOption,
      hr.codeHashes hcodes h, ← Finmap.lookup_isSome]
  | setCodeHashes h l =>
    refine ⟨?_, hr.setCodeHashes h l hc⟩
    simp [MemoryMempool.call, DatabaseMempool.call, Obs.Agree, DatabaseMempool.setCodeHashes_run_noFaults,
      MemoryMempool.setCodeHashes, Outcome.toOption]
  | getCodeHashes h =>
    refine ⟨fun hcodes => ?_, hr⟩
    simp only [DatabaseMempool.getCodeHashes_noFaults, MemoryMempool.getCodeHashes, Index.find,
      hr.codeHashes hcodes h]
    cases hl : m.codeHashesByUserOperation.lookup h with
    | none => simp
    | some l =>
      refine (List.perm_ext_iff_of_nodup (hr.codeLists hcodes h l hl).2 (cOrd.nodup_toList _)).mpr
        fun x => by simp
  | remove h =>
    obtain ⟨r, t', n', hdb, hiff, hr'⟩ := hr.remove h 0
    refine ⟨?_, by simpa [DatabaseMempool.call, DbStep.run, hdb] using hr'⟩
    simp only [MemoryMempool.call, DatabaseMempool.call, Obs.Agree, DbStep.run, hdb, Obs.done.injEq]
    rcases hm : (m.remove h).1 with _ | _ | _ <;> rw [hm] at hiff <;> cases r <;>
      simp_all [Outcome.toOption, Outcome.ofExcept]
  | removeByEntity a =>
    obtain ⟨hiff, hr'⟩ := hr.removeByEntity ord hOrd a
    refine ⟨?_, hr'⟩
    simp only [MemoryMempool.call, DatabaseMempool.call, Obs.Agree, Obs.done.injEq]
    rcases hm : (m.removeByEntity ord a).1 with _ | _ | _ <;> rw [hm] at hiff <;>
      rcases hd : ((DatabaseMempool.removeByEntity hOrd noFaults a).run t).1 with _ | _ | _ <;>
      simp_all [Outcome.toOption]
  | getSorted =>
    refine ⟨?_, hr⟩
    have hp : (m.getAll ord).Perm ((hOrd.toList t.userOperations.keys).filterMap t.userOperations.lookup) := by
      rw [hr.userOperations]; exact (ord.toList_perm hOrd _).filterMap _
    simpa [MemoryMempool.call, DatabaseMempool.call, Obs.Agree, DatabaseMempool.getSorted_noFaults,
      MemoryMempool.getSorted, Outcome.toOption] using sortByFees_agree hp
  | getAll =>
    refine ⟨?_, hr⟩
    simp only [MemoryMempool.call, DatabaseMempool.call, Obs.Agree, DatabaseMempool.getAll_noFaults,
      MemoryMempool.getAll, hr.userOperations]
    exact (ord.toList_perm hOrd _).filterMap _
  | clear =>
    have hcodes : codes = false := by cases codes <;> simp_all [Call.KeepsCodes]
    subst hcodes
    refine ⟨?_, Related.clear (m := m)⟩
    simp [MemoryMempool.call, DatabaseMempool.call, Obs.Agree, DatabaseMempool.clear_noFaults,
      Outcome.toOption]

/-- A whole run on both backends: the answers agree call by call. -/
theorem exec (hdet : HashDeterminesEntities hash) (hr : Related hash codes m t)
    (ord : Nat → IterOrder UserOperationHash) (hOrd : IterOrder UserOperationHash)
    (cOrd : IterOrder CodeHash) (calls : List Call) (hc : codes → ∀ c ∈ calls, c.KeepsCodes) :
    List.Forall₂ (Obs.Agree codes) (m.exec hash ord calls).1
      (DatabaseMempool.exec hash hOrd cOrd noFaults t calls).1 := by
  induction calls generalizing m t ord with
  | nil => exact .nil
  | cons c cs ih =>
    obtain ⟨hobs, hr'⟩ := hr.call hdet (ord 0) hOrd cOrd c fun h => hc h c (.head _)
    exact .cons hobs (ih hr' _ fun h c' hc' => hc h c' (.tail _ hc'))

end Related

/-- `set_code_hashes(h, [])` after `add`: the in-memory pool keeps `h` with an
empty list and answers `has_code_hashes(h) = true`; MDBX deletes nothing,
puts nothing, and answers `false`. -/
theorem exec_empty_code_hashes (hash : UoHasher)
    (ord : Nat → IterOrder UserOperationHash) (hOrd : IterOrder UserOperationHash)
    (cOrd : IterOrder CodeHash) (uo : UserOperation) (ep : Address) (c : U256) :
    (MemoryMempool.exec hash ord ∅
        [.add uo ep c, .setCodeHashes (hash uo ep c) [], .hasCodeHashes (hash uo ep c)]).1 =
      [.added (some (hash uo ep c)), .done true, .codeFlag (some true)] ∧
    (DatabaseMempool.exec hash hOrd cOrd noFaults ∅
        [.add uo ep c, .setCodeHashes (hash uo ep c) [], .hasCodeHashes (hash uo ep c)]).1 =
      [.added (some (hash uo ep c)), .done true, .codeFlag (some false)] := by
  constructor
  · simp [MemoryMempool.exec, MemoryMempool.call, MemoryMempool.add_eq,
      MemoryMempool.setCodeHashes, MemoryMempool.hasCodeHashes, Outcome.toOption]
  · simp [DatabaseMempool.exec, DatabaseMempool.call, DatabaseMempool.add_run_noFaults,
      DatabaseMempool.setCodeHashes_run_noFaults, DatabaseMempool.hasCodeHashes_noFaults,
      Outcome.toOption, Finmap.lookup_erase]

/-- The same run for the operation with sender 1, nonce 0 and no entities,
hashed to its nonce. -/
theorem backends_diverge_on_empty_code_hashes :
    (MemoryMempool.exec (fun uo _ _ => uo.nonce.val) (fun _ => .ascending) ∅
        [.add ⟨1, 0, [], [], 0, 0, 0, 0, 0, [], []⟩ 0 0, .setCodeHashes 0 [], .hasCodeHashes 0]).1 =
      [.added (some 0), .done true, .codeFlag (some true)] ∧
    (DatabaseMempool.exec (fun uo _ _ => uo.nonce.val) .ascending .ascending noFaults ∅
        [.add ⟨1, 0, [], [], 0, 0, 0, 0, 0, [], []⟩ 0 0, .setCodeHashes 0 [], .hasCodeHashes 0]).1 =
      [.added (some 0), .done true, .codeFlag (some false)] :=
  exec_empty_code_hashes _ _ _ _ ⟨1, 0, [], [], 0, 0, 0, 0, 0, [], []⟩ 0 0

/-- `set_code_hashes(h, [c, c])` after `add`, for the same operation hashed by
its entities: `get_code_hashes(h)` gives `[c, c]` in memory and `[c]` from
MDBX, whose `DUPSORT` table keeps a duplicate once. -/
theorem backends_diverge_on_repeated_code_hashes :
    let uo : UserOperation := ⟨1, 0, [], [], 0, 0, 0, 0, 0, [], []⟩
    let h := MemoryMempool.entityHash uo 0 0
    (MemoryMempool.exec MemoryMempool.entityHash (fun _ => .ascending) ∅
        [.add uo 0 0, .setCodeHashes h [⟨2, 3⟩, ⟨2, 3⟩], .getCodeHashes h]).1 =
      [.added (some h), .done true, .codes [⟨2, 3⟩, ⟨2, 3⟩]] ∧
    (DatabaseMempool.exec MemoryMempool.entityHash .ascending .ascending noFaults ∅
        [.add uo 0 0, .setCodeHashes h [⟨2, 3⟩, ⟨2, 3⟩], .getCodeHashes h]).1 =
      [.added (some h), .done true, .codes [⟨2, 3⟩]] := by
  decide

/-- `clear` keeps `CodeHashes`: after `add`, `set_code_hashes(h, [c])` and
`clear`, the table still maps `h` to `c` though `h` is no longer stored, and
the operation stored again has `has_code_hashes = true`.  The operation has
sender 1, nonce 1 and no factory or paymaster, and is hashed by its entities. -/
theorem DatabaseMempool.clear_keeps_codeHashes :
    let uo : UserOperation := ⟨1, 1, [], [], 0, 0, 0, 0, 0, [], []⟩
    let h := MemoryMempool.entityHash uo 0 0
    let t := (DatabaseMempool.clear noFaults (DatabaseMempool.setCodeHashes noFaults h [⟨2, 3⟩]
      (DatabaseMempool.add MemoryMempool.entityHash noFaults uo 0 0 ∅ 0).2.1 0).2.1).2
    h ∉ t.userOperations ∧ t.codeHashes.lookup h = some {⟨2, 3⟩} ∧
      DatabaseMempool.hasCodeHashes noFaults h
        (DatabaseMempool.add MemoryMempool.entityHash noFaults uo 0 0 t 0).2.1 = .ok true := by
  decide

/-- The code hashes of `h'` after a healthy `set_code_hashes(h, l)`: the
distinct elements of `l` under `h`, the old ones elsewhere. -/
theorem DatabaseMempool.lookup_codeHashes_setCodeHashes (t : MempoolTables) (h h' : UserOperationHash)
    (l : List CodeHash) :
    (((DatabaseMempool.setCodeHashes noFaults h l).run t).2.codeHashes.lookup h' =
      if h' = h then (if l = [] then none else some l.toFinset) else t.codeHashes.lookup h') := by
  rw [DatabaseMempool.setCodeHashes_run_noFaults]
  simp only [Index.lookup_foldl_insertValue]
  by_cases e : h' = h
  · subst e; by_cases hl : l = [] <;> simp [hl, Index.find, Finmap.lookup_erase]
  · simp [e, Finmap.lookup_erase_ne e]

/-- **`set_code_hashes` then `get_code_hashes`.**  In memory the list comes
back as it was given, and `has_code_hashes` holds even for an empty list.  On
a healthy database the table keeps each distinct code hash once:
`get_code_hashes` lists the distinct elements of the list in cursor order, and
`has_code_hashes` holds exactly when the list is non-empty.  On both the other
hashes keep their code hashes. -/
theorem setCodeHashes_getCodeHashes (m : MemoryMempool) (t : MempoolTables)
    (cOrd : IterOrder CodeHash) (h h' : UserOperationHash) (l : List CodeHash) :
    ((m.setCodeHashes h l).2.getCodeHashes h = l ∧ (m.setCodeHashes h l).2.hasCodeHashes h = .ok true ∧
      (h' ≠ h → (m.setCodeHashes h l).2.getCodeHashes h' = m.getCodeHashes h')) ∧
    ((DatabaseMempool.getCodeHashes cOrd noFaults h
        ((DatabaseMempool.setCodeHashes noFaults h l).run t).2).Perm l.dedup ∧
      DatabaseMempool.hasCodeHashes noFaults h ((DatabaseMempool.setCodeHashes noFaults h l).run t).2 =
        .ok (decide (l ≠ [])) ∧
      (h' ≠ h → DatabaseMempool.getCodeHashes cOrd noFaults h'
        ((DatabaseMempool.setCodeHashes noFaults h l).run t).2 =
          DatabaseMempool.getCodeHashes cOrd noFaults h' t)) := by
  refine ⟨⟨by simp [MemoryMempool.setCodeHashes, MemoryMempool.getCodeHashes],
    by simp [MemoryMempool.setCodeHashes, MemoryMempool.hasCodeHashes],
    fun hne => by simp [MemoryMempool.setCodeHashes, MemoryMempool.getCodeHashes,
      Finmap.lookup_insert_of_ne _ hne]⟩, ?_, ?_, fun hne => ?_⟩
  · have hfind : (((DatabaseMempool.setCodeHashes noFaults h l).run t).2.codeHashes.find h) =
        l.toFinset := by
      rw [Index.find, DatabaseMempool.lookup_codeHashes_setCodeHashes, if_pos rfl]
      by_cases hl : l = [] <;> simp [hl]
    rw [DatabaseMempool.getCodeHashes_noFaults, hfind, ← Multiset.coe_eq_coe, cOrd.coe_toList]
    exact List.toFinset_val l
  · rw [DatabaseMempool.hasCodeHashes_noFaults, DatabaseMempool.lookup_codeHashes_setCodeHashes, if_pos rfl]
    by_cases hl : l = [] <;> simp [hl]
  · rw [DatabaseMempool.getCodeHashes_noFaults, DatabaseMempool.getCodeHashes_noFaults, Index.find,
      Index.find, DatabaseMempool.lookup_codeHashes_setCodeHashes, if_neg hne]

/-- **Adding an operation twice is adding it once.**  On both backends, the
database healthy, a second `add` of an operation returns the same hash and
leaves the pool as the first left it: every index already holds the hash, so
no count grows. -/
theorem add_idempotent (hash : UoHasher) (m : MemoryMempool) (t : MempoolTables)
    (uo : UserOperation) (ep : Address) (c : U256) :
    (m.add hash uo ep c).2.add hash uo ep c = m.add hash uo ep c ∧
      (DatabaseMempool.add hash noFaults uo ep c).run ((DatabaseMempool.add hash noFaults uo ep c).run t).2 =
        (DatabaseMempool.add hash noFaults uo ep c).run t := by
  have hs : ∀ bs : Index Address UserOperationHash,
      (bs.insertValue uo.sender (hash uo ep c)).insertValue uo.sender (hash uo ep c) =
        bs.insertValue uo.sender (hash uo ep c) :=
    fun bs => Index.insertValue_of_mem (by simp)
  refine ⟨?_, ?_⟩
  · simp only [MemoryMempool.add_eq, hs, Index.insertOpt_insertOpt_idem, Finmap.insert_insert]
  · simp only [DatabaseMempool.add_run_noFaults, hs, Index.insertOpt_insertOpt_idem,
      Finmap.insert_insert]

/-- **The two backends agree.**  For every hash function that determines the
entities of the operation, every iteration order of the in-memory containers
at every call, every cursor order and every list of calls from empty pools,
the two backends give the same answers call by call (lists as multisets,
`get_sorted` up to ties), except that `has_code_hashes` and `get_code_hashes`
may differ; when no call is `clear` and every `set_code_hashes` gets a
non-empty list without repetitions, those agree as well. -/
theorem backends_agree {hash : UoHasher} (hdet : HashDeterminesEntities hash)
    (ord : Nat → IterOrder UserOperationHash) (hOrd : IterOrder UserOperationHash)
    (cOrd : IterOrder CodeHash) (calls : List Call) :
    List.Forall₂ (Obs.Agree false) (MemoryMempool.exec hash ord ∅ calls).1
        (DatabaseMempool.exec hash hOrd cOrd noFaults ∅ calls).1 ∧
      ((∀ c ∈ calls, c.KeepsCodes) →
        List.Forall₂ (Obs.Agree true) (MemoryMempool.exec hash ord ∅ calls).1
          (DatabaseMempool.exec hash hOrd cOrd noFaults ∅ calls).1) :=
  ⟨Related.empty.exec hdet ord hOrd cOrd calls nofun,
    fun hc => Related.empty.exec hdet ord hOrd cOrd calls fun _ => hc⟩

theorem backends_agree_entityHash :
    HashDeterminesEntities MemoryMempool.entityHash ∧
    (List.Forall₂ (Obs.Agree false)
        (MemoryMempool.exec MemoryMempool.entityHash (fun _ => .ascending) ∅
          [.add ⟨1, 0, [], [], 0, 0, 0, 0, 0, [7], []⟩ 0 0, .removeByEntity 7, .getSorted]).1
        (DatabaseMempool.exec MemoryMempool.entityHash .ascending .ascending noFaults ∅
          [.add ⟨1, 0, [], [], 0, 0, 0, 0, 0, [7], []⟩ 0 0, .removeByEntity 7, .getSorted]).1 ∧
      ((∀ c ∈ [Call.add ⟨1, 0, [], [], 0, 0, 0, 0, 0, [7], []⟩ 0 0, .removeByEntity 7, .getSorted],
          c.KeepsCodes) →
        List.Forall₂ (Obs.Agree true)
          (MemoryMempool.exec MemoryMempool.entityHash (fun _ => .ascending) ∅
            [.add ⟨1, 0, [], [], 0, 0, 0, 0, 0, [7], []⟩ 0 0, .removeByEntity 7, .getSorted]).1
          (DatabaseMempool.exec MemoryMempool.entityHash .ascending .ascending noFaults ∅
            [.add ⟨1, 0, [], [], 0, 0, 0, 0, 0, [7], []⟩ 0 0, .removeByEntity 7, .getSorted]).1)) :=
  ⟨MemoryMempool.entityHash_determines,
    backends_agree MemoryMempool.entityHash_determines (fun _ => .ascending) .ascending .ascending _⟩

/-! ## `get_sorted` -/

/-- **`get_sorted` orders the pool**: on every state of either backend, the
database healthy, it returns `Ok` with a permutation of what `get_all`
returns, in which every earlier operation has a higher tip, or the same tip
and a nonce that is not larger. -/
theorem getSorted_ordered (ord hOrd : IterOrder UserOperationHash) (m : MemoryMempool)
    (t : MempoolTables) :
    (∃ l, m.getSorted ord = .ok l ∧ l.Perm (m.getAll ord) ∧ l.Pairwise FeeOrdered) ∧
    (∃ l, DatabaseMempool.getSorted hOrd noFaults t = .ok l ∧
      l.Perm (DatabaseMempool.getAll hOrd noFaults t) ∧ l.Pairwise FeeOrdered) :=
  ⟨⟨_, rfl, sortByFees_perm _, sorted_sortByFees _⟩,
    ⟨_, DatabaseMempool.getSorted_noFaults t, DatabaseMempool.getAll_noFaults t ▸ sortByFees_perm _,
      sorted_sortByFees _⟩⟩

/-! ## The durable tables over a run -/

/-- The tables a healthy `DatabaseMempool` reaches from empty tables by any
calls, each walking its cursors in any order. -/
inductive DbReachable (hash : UoHasher) : MempoolTables → Prop
  | empty : DbReachable hash ∅
  | call {t} (hOrd : IterOrder UserOperationHash) (cOrd : IterOrder CodeHash) (c : Call) :
      DbReachable hash t → DbReachable hash (DatabaseMempool.call hash hOrd cOrd noFaults t c).2

theorem DbReachable.related {hash : UoHasher} (hdet : HashDeterminesEntities hash)
    {t : MempoolTables} (hr : DbReachable hash t) : ∃ m, Related hash false m t := by
  induction hr with
  | empty => exact ⟨∅, Related.empty⟩
  | call hOrd cOrd c _ ih =>
    obtain ⟨m, hm⟩ := ih
    exact ⟨_, (hm.call hdet hOrd hOrd cOrd c nofun).2⟩

/-- **The durable tables stay index-consistent**: every healthy run from
empty tables keeps `UserOperationsBySender` and `UserOperationsByEntity`
consistent with `UserOperations`, each operation stored under one of its own
hashes.  It is the in-memory invariant carried over by `Related`. -/
theorem dbReachable_indexConsistent {hash : UoHasher} (hdet : HashDeterminesEntities hash)
    {t : MempoolTables} (hr : DbReachable hash t) :
    IndexConsistent t.userOperations t.userOperationsBySender t.userOperationsByEntity ∧
      KeyedByHash hash t.userOperations := by
  obtain ⟨m, hm⟩ := hr.related hdet
  rw [hm.userOperations, hm.bySender, hm.byEntity]
  exact ⟨hm.wellIndexed.index, hm.wellIndexed.keyed⟩

theorem dbReachable_indexConsistent_add :
    HashDeterminesEntities MemoryMempool.entityHash ∧
    DbReachable MemoryMempool.entityHash (DatabaseMempool.call MemoryMempool.entityHash .ascending
      .ascending noFaults ∅ (.add ⟨1, 0, [], [], 0, 0, 0, 0, 0, [7], []⟩ 0 0)).2 ∧
    (IndexConsistent
        (DatabaseMempool.call MemoryMempool.entityHash .ascending .ascending noFaults ∅
          (.add ⟨1, 0, [], [], 0, 0, 0, 0, 0, [7], []⟩ 0 0)).2.userOperations
        (DatabaseMempool.call MemoryMempool.entityHash .ascending .ascending noFaults ∅
          (.add ⟨1, 0, [], [], 0, 0, 0, 0, 0, [7], []⟩ 0 0)).2.userOperationsBySender
        (DatabaseMempool.call MemoryMempool.entityHash .ascending .ascending noFaults ∅
          (.add ⟨1, 0, [], [], 0, 0, 0, 0, 0, [7], []⟩ 0 0)).2.userOperationsByEntity ∧
      KeyedByHash MemoryMempool.entityHash
        (DatabaseMempool.call MemoryMempool.entityHash .ascending .ascending noFaults ∅
          (.add ⟨1, 0, [], [], 0, 0, 0, 0, 0, [7], []⟩ 0 0)).2.userOperations) :=
  ⟨MemoryMempool.entityHash_determines, .call _ _ _ .empty,
    dbReachable_indexConsistent MemoryMempool.entityHash_determines (.call _ _ _ .empty)⟩

end Silius
