import Silius.Database.Tx
import Silius.Mempool.Consistency
import Silius.Mempool.Sort

/-!
# `DatabaseMempool`

The MDBX backend of the `Mempool` trait (`database/mempool.rs`).  Its four
tables are `UserOperations` (hash to operation, one value per key) and the
`DUPSORT` tables `UserOperationsBySender`, `UserOperationsByEntity` and
`CodeHashes`.  Every method is written call by call as the code makes them,
under a fault oracle; the `*Tx` definitions are the transaction bodies.

Cursors walk keys and duplicates in MDBX byte order; the model takes that
order as a parameter (`hOrd` for hashes, `cOrd` for code hashes).

On a healthy database each method does what a pure function of the tables
does: `add_noFaults`, `remove_noFaults`, `setCodeHashes_noFaults` and the
read lemmas below are the equations later proofs use.
-/

namespace Silius

/-- The mempool tables of the MDBX environment. -/
structure MempoolTables where
  /-- `UserOperations`: hash to operation. -/
  userOperations : UoMap
  /-- `UserOperationsBySender`: sender to hashes. -/
  userOperationsBySender : UoIndex
  /-- `UserOperationsByEntity`: factory or paymaster to hashes. -/
  userOperationsByEntity : UoIndex
  /-- `CodeHashes`: hash to code hashes. -/
  codeHashes : Index UserOperationHash CodeHash
  deriving DecidableEq

namespace MempoolTables

/-- Empty tables. -/
instance : EmptyCollection MempoolTables := ⟨⟨∅, ∅, ∅, ∅⟩⟩

/-- `put::<UserOperations>(h, uo)`. -/
def putUserOperation (h : UserOperationHash) (uo : UserOperation) (t : MempoolTables) :
    MempoolTables :=
  { t with userOperations := Finmap.insert h uo t.userOperations }

/-- `put::<UserOperationsBySender>(sender, h)`. -/
def putSender (a : Address) (h : UserOperationHash) (t : MempoolTables) : MempoolTables :=
  { t with userOperationsBySender := t.userOperationsBySender.insertValue a h }

/-- `put::<UserOperationsByEntity>(entity, h)`. -/
def putEntity (a : Address) (h : UserOperationHash) (t : MempoolTables) : MempoolTables :=
  { t with userOperationsByEntity := t.userOperationsByEntity.insertValue a h }

/-- `put::<CodeHashes>(h, code_hash)`. -/
def putCodeHash (h : UserOperationHash) (c : CodeHash) (t : MempoolTables) : MempoolTables :=
  { t with codeHashes := t.codeHashes.insertValue h c }

/-- `delete::<UserOperations>(h, None)`. -/
def deleteUserOperation (h : UserOperationHash) (t : MempoolTables) : MempoolTables :=
  { t with userOperations := Finmap.erase h t.userOperations }

/-- `delete::<UserOperationsBySender>(sender, Some(h))`. -/
def deleteSender (a : Address) (h : UserOperationHash) (t : MempoolTables) : MempoolTables :=
  { t with userOperationsBySender := t.userOperationsBySender.removeValue a h }

/-- `delete::<UserOperationsByEntity>(entity, Some(h))`. -/
def deleteEntity (a : Address) (h : UserOperationHash) (t : MempoolTables) : MempoolTables :=
  { t with userOperationsByEntity := t.userOperationsByEntity.removeValue a h }

/-- `delete::<CodeHashes>(h, None)`: every code hash of `h`. -/
def deleteCodeHashes (h : UserOperationHash) (t : MempoolTables) : MempoolTables :=
  { t with codeHashes := Finmap.erase h t.codeHashes }

/-- The hash occurs in one of the four tables: as a key of `UserOperations`
or `CodeHashes`, or as a value of an index table. -/
def Mentions (t : MempoolTables) (h : UserOperationHash) : Prop :=
  h ∈ t.userOperations ∨ (∃ a, h ∈ t.userOperationsBySender.find a) ∨
    (∃ a, h ∈ t.userOperationsByEntity.find a) ∨ h ∈ t.codeHashes

theorem not_mentions_empty (h : UserOperationHash) : ¬ (∅ : MempoolTables).Mentions h := by
  rintro (h | ⟨_, h⟩ | ⟨_, h⟩ | h)
  exacts [Finmap.not_mem_empty h, Finset.not_mem_empty _ h, Finset.not_mem_empty _ h,
    Finmap.not_mem_empty h]

end MempoolTables

open MempoolTables

namespace DatabaseMempool

variable (hash : UoHasher) (hOrd : IterOrder UserOperationHash) (cOrd : IterOrder CodeHash)
  (fails : Faults)

/-- The body of `add`: the four `put`s. -/
def addTx (uo : UserOperation) (uoHash : UserOperationHash) : Tx MempoolTables UserOperationHash := do
  Tx.write fails (putUserOperation uoHash uo)
  Tx.write fails (putSender uo.sender uoHash)
  Tx.forOpt uo.factory fun factory => Tx.write fails (putEntity factory uoHash)
  Tx.forOpt uo.paymaster fun paymaster => Tx.write fails (putEntity paymaster uoHash)
  pure uoHash

/-- `add`. -/
def add (uo : UserOperation) (ep : Address) (chainId : U256) : DbStep MempoolTables UserOperationHash :=
  Tx.atomically fails (addTx fails uo (hash uo ep chainId))

/-- `get`. -/
def get (uoHash : UserOperationHash) (t : MempoolTables) : Outcome DBError (Option UserOperation) :=
  .ofExcept (Tx.view fails (Tx.read fails (·.userOperations.lookup uoHash)) true t 0).1

/-- `.filter_map(|h| tx.get::<UserOperations>(h).ok()).filter_map(..)`: one
`get` per hash; a failed `get` and a missing entry both drop the hash. -/
def getEach : List UserOperationHash → Tx MempoolTables (List UserOperation)
  | [] => pure []
  | h :: hs => do
    let ok ← Tx.attempt fails
    let t ← Tx.snapshot
    let rest ← getEach hs
    pure (if ok then (t.userOperations.lookup h).toList ++ rest else rest)

/-- The body of a dup-cursor read: `cursor_dup_read`, then the walk over the
values of `key`. -/
def dupsTx {ν : Type} (values : MempoolTables → Finset ν) (o : IterOrder ν) :
    Tx MempoolTables (List ν) := do
  Tx.read fails fun _ => ()
  let t ← Tx.snapshot
  Tx.walk fails (o.toList (values t))

/-- `get_all_by_sender`; any failure gives the empty list. -/
def getAllBySender (sender : Address) (t : MempoolTables) : List UserOperation :=
  match (Tx.view fails (do
      let v ← dupsTx fails (·.userOperationsBySender.find sender) hOrd
      getEach fails v) true t 0).1 with
  | .ok res => res
  | .error _ => []

/-- `get_number_by_sender`: the number of duplicates walked; any failure gives 0. -/
def getNumberBySender (addr : Address) (t : MempoolTables) : Nat :=
  match (Tx.view fails (dupsTx fails (·.userOperationsBySender.find addr) hOrd) true t 0).1 with
  | .ok v => v.length
  | .error _ => 0

/-- `get_number_by_entity`. -/
def getNumberByEntity (addr : Address) (t : MempoolTables) : Nat :=
  match (Tx.view fails (dupsTx fails (·.userOperationsByEntity.find addr) hOrd) true t 0).1 with
  | .ok v => v.length
  | .error _ => 0

/-- `has_code_hashes`: whether `CodeHashes` has a value under the hash. -/
def hasCodeHashes (uoHash : UserOperationHash) (t : MempoolTables) : Outcome DBError Bool :=
  .ofExcept (Tx.view fails (Tx.read fails fun t => (t.codeHashes.lookup uoHash).isSome) true t 0).1

/-- `get_code_hashes`; any failure gives the empty list. -/
def getCodeHashes (uoHash : UserOperationHash) (t : MempoolTables) : List CodeHash :=
  match (Tx.view fails (dupsTx fails (·.codeHashes.find uoHash) cOrd) true t 0).1 with
  | .ok v => v
  | .error _ => []

/-- The body of `set_code_hashes`: delete the old values, then put each new one. -/
def setCodeHashesTx (uoHash : UserOperationHash) (hashes : List CodeHash) : Tx MempoolTables Unit := do
  let res ← Tx.read fails (·.codeHashes.lookup uoHash)
  if res.isSome then Tx.write fails (deleteCodeHashes uoHash)
  hashes.forM fun c => Tx.write fails (putCodeHash uoHash c)

/-- `set_code_hashes`. -/
def setCodeHashes (uoHash : UserOperationHash) (hashes : List CodeHash) : DbStep MempoolTables Unit :=
  Tx.atomically fails (setCodeHashesTx fails uoHash hashes)

/-- The body of `remove`: `NotFound` for an absent hash, else the five deletes. -/
def removeTx (uoHash : UserOperationHash) : Tx MempoolTables Unit := do
  let uo? ← Tx.read fails (·.userOperations.lookup uoHash)
  uo?.elim (Tx.throw .notFound) fun uo => do
    Tx.write fails (deleteUserOperation uoHash)
    Tx.write fails (deleteSender uo.sender uoHash)
    Tx.write fails (deleteCodeHashes uoHash)
    Tx.forOpt uo.factory fun factory => Tx.write fails (deleteEntity factory uoHash)
    Tx.forOpt uo.paymaster fun paymaster => Tx.write fails (deleteEntity paymaster uoHash)

/-- `remove`. -/
def remove (uoHash : UserOperationHash) : DbStep MempoolTables Unit :=
  Tx.atomically fails (removeTx fails uoHash)

/-- The loop `for uo_hash_wrap in v { self.remove(..)?; }`: one transaction per
hash, stopping at the first error. -/
def removeEach : List UserOperationHash → DbStep MempoolTables Unit
  | [], t, n => (.ok (), t, n)
  | h :: hs, t, n =>
    match remove fails h t n with
    | (.ok (), t', m) => removeEach hs t' m
    | (.error e, t', m) => (.error e, t', m)

/-- `remove_by_entity`: read the entity's hashes in a read-only transaction,
then remove them one transaction at a time. -/
def removeByEntity (entity : Address) : DbStep MempoolTables Unit := fun t n =>
  match Tx.view fails (dupsTx fails (·.userOperationsByEntity.find entity) hOrd) true t n with
  | (.ok v, m) => removeEach fails v t m
  | (.error e, m) => (.error e, t, m)

/-- The body of `get_all` and `get_sorted`: `cursor_read`, then the walk over
`UserOperations` in key order. -/
def walkAllTx : Tx MempoolTables (List UserOperation) := do
  Tx.read fails fun _ => ()
  let t ← Tx.snapshot
  let hs ← Tx.walk fails (hOrd.toList t.userOperations.keys)
  pure (hs.filterMap t.userOperations.lookup)

/-- `get_sorted`: the walk, then `sort_by`; no commit, and any failure is
`DBInternalError`. -/
def getSorted (t : MempoolTables) : Outcome DBError (List UserOperation) :=
  match (Tx.view fails (walkAllTx hOrd fails) false t 0).1 with
  | .ok uos => .ok (sortByFees uos)
  | .error _ => .err .dbInternalError

/-- `get_all`; any failure gives the empty list. -/
def getAll (t : MempoolTables) : List UserOperation :=
  match (Tx.view fails (walkAllTx hOrd fails) true t 0).1 with
  | .ok uos => uos
  | .error _ => []

/-- `clear`: three of the four tables are cleared; a failure panics
(`expect("Clear database failed")`). -/
def clear (t : MempoolTables) : Outcome DBError Unit × MempoolTables :=
  match Tx.atomically fails (do
      Tx.write fails fun t => { t with userOperations := ∅ }
      Tx.write fails fun t => { t with userOperationsBySender := ∅ }
      Tx.write fails fun t => { t with userOperationsByEntity := ∅ }) t 0 with
  | (.ok (), t', _) => (.ok (), t')
  | (.error _, t', _) => (.panicked .expectFailed, t')

/-! ## On a healthy database -/

variable {hash hOrd cOrd}

theorem add_noFaults (uo : UserOperation) (ep : Address) (c : U256) (t : MempoolTables) (n : Nat) :
    ∃ m, add hash noFaults uo ep c t n = (.ok (hash uo ep c),
      { t with
        userOperations := Finmap.insert (hash uo ep c) uo t.userOperations
        userOperationsBySender := t.userOperationsBySender.insertValue uo.sender (hash uo ep c)
        userOperationsByEntity := (t.userOperationsByEntity.insertOpt uo.factory
          (hash uo ep c)).insertOpt uo.paymaster (hash uo ep c) }, m) := by
  unfold add Tx.atomically addTx
  cases uo.factory <;> cases uo.paymaster <;>
    simp [Tx.forOpt, noFaults, putUserOperation, putSender, putEntity, Index.insertOpt]

theorem remove_noFaults_some {uoHash : UserOperationHash} {uo : UserOperation} {t : MempoolTables}
    (h : t.userOperations.lookup uoHash = some uo) (n : Nat) :
    ∃ m, remove noFaults uoHash t n = (.ok (),
      { userOperations := Finmap.erase uoHash t.userOperations
        userOperationsBySender := t.userOperationsBySender.removeValue uo.sender uoHash
        userOperationsByEntity :=
          (t.userOperationsByEntity.removeOpt uo.factory uoHash).removeOpt uo.paymaster uoHash
        codeHashes := Finmap.erase uoHash t.codeHashes }, m) := by
  unfold remove Tx.atomically removeTx
  cases hf : uo.factory <;> cases hp : uo.paymaster <;>
    simp [h, hf, hp, Tx.forOpt, noFaults, deleteUserOperation, deleteSender, deleteEntity,
      deleteCodeHashes, Index.removeOpt]

theorem remove_noFaults_none {uoHash : UserOperationHash} {t : MempoolTables}
    (h : t.userOperations.lookup uoHash = none) (n : Nat) :
    ∃ m, remove noFaults uoHash t n = (.error .notFound, t, m) := by
  simp [remove, Tx.atomically, removeTx, h, noFaults, Tx.throw]

theorem forM_putCodeHash_noFaults (uoHash : UserOperationHash) (l : List CodeHash)
    (t : MempoolTables) (n : Nat) :
    l.forM (fun c => Tx.write noFaults (putCodeHash uoHash c)) t n =
      (.ok ((), { t with codeHashes := l.foldl (fun idx c => idx.insertValue uoHash c) t.codeHashes }),
        n + l.length) := by
  induction l generalizing t n with
  | nil => rfl
  | cons c l ih =>
    simp only [List.forM, Tx.bind_apply, Tx.write_noFaults, ih, List.foldl_cons,
      List.length_cons, putCodeHash]
    congr 1; omega

/-- On a healthy database `set_code_hashes(h, l)` leaves under `h` exactly the
values of `l`, and no entry at all when `l` is empty. -/
theorem setCodeHashes_noFaults (uoHash : UserOperationHash) (l : List CodeHash)
    (t : MempoolTables) (n : Nat) : ∃ m, setCodeHashes noFaults uoHash l t n = (.ok (),
      { t with
        codeHashes := l.foldl (fun idx c => idx.insertValue uoHash c)
          (Finmap.erase uoHash t.codeHashes) }, m) := by
  have herase : (t.codeHashes.lookup uoHash).isSome = false →
      Finmap.erase uoHash t.codeHashes = t.codeHashes := fun hn =>
    Finmap.ext_lookup fun k => by
      by_cases hk : k = uoHash
      · subst hk; rw [Finmap.lookup_erase, eq_comm, ← Option.not_isSome_iff_eq_none, hn]; decide
      · exact Finmap.lookup_erase_ne hk
  unfold setCodeHashes Tx.atomically setCodeHashesTx
  cases hs : (t.codeHashes.lookup uoHash).isSome <;>
    simp [hs, herase, forM_putCodeHash_noFaults, noFaults, deleteCodeHashes]

@[simp] theorem getEach_noFaults (hs : List UserOperationHash) (t : MempoolTables) (n : Nat) :
    getEach noFaults hs t n = (.ok (hs.filterMap t.userOperations.lookup, t), n + hs.length) := by
  induction hs generalizing n with
  | nil => rfl
  | cons h hs ih =>
    simp only [getEach, Tx.bind_apply, Tx.attempt_noFaults, Tx.snapshot, ih, Tx.pure_apply,
      if_true, List.length_cons, List.filterMap_cons]
    cases t.userOperations.lookup h <;> simp <;> omega

@[simp] theorem dupsTx_noFaults {ν : Type} (values : MempoolTables → Finset ν) (o : IterOrder ν)
    (t : MempoolTables) (n : Nat) :
    dupsTx noFaults values o t n = (.ok (o.toList (values t), t), n + (values t).card + 2) := by
  simp [dupsTx, Tx.snapshot]; omega

theorem get_noFaults (h : UserOperationHash) (t : MempoolTables) :
    get noFaults h t = .ok (t.userOperations.lookup h) := by
  simp [get, Tx.view, noFaults, Outcome.ofExcept]

theorem getAllBySender_noFaults (a : Address) (t : MempoolTables) :
    getAllBySender hOrd noFaults a t =
      (hOrd.toList (t.userOperationsBySender.find a)).filterMap t.userOperations.lookup := by
  simp [getAllBySender, Tx.view, noFaults]

theorem getNumberBySender_noFaults (a : Address) (t : MempoolTables) :
    getNumberBySender hOrd noFaults a t = (t.userOperationsBySender.find a).card := by
  simp [getNumberBySender, Tx.view, noFaults]

theorem getNumberByEntity_noFaults (a : Address) (t : MempoolTables) :
    getNumberByEntity hOrd noFaults a t = (t.userOperationsByEntity.find a).card := by
  simp [getNumberByEntity, Tx.view, noFaults]

theorem hasCodeHashes_noFaults (h : UserOperationHash) (t : MempoolTables) :
    hasCodeHashes noFaults h t = .ok (t.codeHashes.lookup h).isSome := by
  simp [hasCodeHashes, Tx.view, noFaults, Outcome.ofExcept]

theorem getCodeHashes_noFaults (h : UserOperationHash) (t : MempoolTables) :
    getCodeHashes cOrd noFaults h t = cOrd.toList (t.codeHashes.find h) := by
  simp [getCodeHashes, Tx.view, noFaults]

theorem walkAllTx_noFaults (t : MempoolTables) (n : Nat) : ∃ m,
    walkAllTx hOrd noFaults t n =
      (.ok ((hOrd.toList t.userOperations.keys).filterMap t.userOperations.lookup, t), m) := by
  simp [walkAllTx, Tx.snapshot]

theorem getAll_noFaults (t : MempoolTables) :
    getAll hOrd noFaults t = (hOrd.toList t.userOperations.keys).filterMap t.userOperations.lookup := by
  obtain ⟨m, hm⟩ := @walkAllTx_noFaults hOrd t 1
  simp [getAll, Tx.view, noFaults, hm]

theorem getSorted_noFaults (t : MempoolTables) :
    getSorted hOrd noFaults t =
      .ok (sortByFees ((hOrd.toList t.userOperations.keys).filterMap t.userOperations.lookup)) := by
  obtain ⟨m, hm⟩ := @walkAllTx_noFaults hOrd t 1
  simp [getSorted, Tx.view, noFaults, hm]

/-- On a healthy database `clear` empties three tables and keeps `CodeHashes`. -/
theorem clear_noFaults (t : MempoolTables) :
    clear noFaults t = (.ok (), { t with
      userOperations := ∅
      userOperationsBySender := ∅
      userOperationsByEntity := ∅ }) := by
  simp [clear, Tx.atomically, noFaults]

theorem removeByEntity_noFaults (e : Address) (t : MempoolTables) (n : Nat) : ∃ m,
    removeByEntity hOrd noFaults e t n =
      removeEach noFaults (hOrd.toList (t.userOperationsByEntity.find e)) t m := by
  simp [removeByEntity, Tx.view, noFaults]

/-- Any property every healthy `remove` keeps, the healthy removal loop keeps. -/
theorem removeEach_noFaults_preserves (P : MempoolTables → Prop)
    (hP : ∀ t h n, P t → P (remove noFaults h t n).2.1) :
    ∀ (l : List UserOperationHash) (t : MempoolTables) (n : Nat), P t → P (removeEach noFaults l t n).2.1
  | [], _, _, ht => ht
  | h :: l, t, n, ht => by
    have h₁ := hP t h n ht
    unfold removeEach
    rcases hr : remove noFaults h t n with ⟨_ | _, t₁, m⟩ <;> rw [hr] at h₁
    · exact h₁
    · exact removeEach_noFaults_preserves P hP l t₁ m h₁

/-- A healthy `remove` only erases code hashes. -/
theorem remove_noFaults_not_mem_codeHashes (h : UserOperationHash) (t : MempoolTables) (n : Nat)
    {x : UserOperationHash} (hx : x ∉ t.codeHashes) : x ∉ (remove noFaults h t n).2.1.codeHashes := by
  cases hl : t.userOperations.lookup h with
  | none => obtain ⟨_, hm⟩ := remove_noFaults_none hl n; rwa [hm]
  | some _ =>
    obtain ⟨_, hm⟩ := remove_noFaults_some hl n
    rw [hm]; exact fun hx' => hx (Finmap.mem_erase.mp hx').2

/-- A healthy removal loop that returns `Ok` leaves no code hashes under the
hashes it removed. -/
theorem removeEach_noFaults_codeHashes {l : List UserOperationHash} {t : MempoolTables} {n : Nat}
    (hok : (removeEach noFaults l t n).1 = .ok ()) : ∀ h ∈ l, h ∉ (removeEach noFaults l t n).2.1.codeHashes := by
  induction l generalizing t n with
  | nil => nofun
  | cons x l ih =>
    cases hl : t.userOperations.lookup x with
    | none =>
      obtain ⟨m, hm⟩ := remove_noFaults_none hl n
      simp [removeEach, hm] at hok
    | some uo =>
      obtain ⟨m, hm⟩ := remove_noFaults_some hl n
      simp only [removeEach, hm] at hok ⊢
      rintro h (_ | ⟨_, hh⟩)
      · exact removeEach_noFaults_preserves (x ∉ ·.codeHashes)
          (fun t' h' n' => remove_noFaults_not_mem_codeHashes h' t' n') l _ m Finmap.not_mem_erase_self
      · exact ih hok h hh

/-! ## Every transaction body propagates faults -/

theorem addTx_propagates (uo : UserOperation) (uoHash : UserOperationHash) :
    Tx.Propagates fun fails => addTx fails uo uoHash :=
  (Tx.Propagates.write _).bind fun _ => (Tx.Propagates.write _).bind fun _ =>
    (Tx.Propagates.forOpt fun _ => Tx.Propagates.write _).bind fun _ =>
      (Tx.Propagates.forOpt fun _ => Tx.Propagates.write _).bind fun _ => Tx.Propagates.pure _

theorem removeTx_propagates (uoHash : UserOperationHash) :
    Tx.Propagates fun fails => removeTx fails uoHash :=
  (Tx.Propagates.read _).bind fun _ => Tx.Propagates.elim (Tx.Propagates.throw _) fun _ =>
    (Tx.Propagates.write _).bind fun _ => (Tx.Propagates.write _).bind fun _ =>
      (Tx.Propagates.write _).bind fun _ =>
        (Tx.Propagates.forOpt fun _ => Tx.Propagates.write _).bind fun _ =>
          Tx.Propagates.forOpt fun _ => Tx.Propagates.write _

theorem setCodeHashesTx_propagates (uoHash : UserOperationHash) (hashes : List CodeHash) :
    Tx.Propagates fun fails => setCodeHashesTx fails uoHash hashes :=
  (Tx.Propagates.read _).bind fun _ => Tx.Propagates.ite
    ((Tx.Propagates.write _).bind fun _ => Tx.Propagates.forM fun _ => Tx.Propagates.write _)
    ((Tx.Propagates.pure _).bind fun _ => Tx.Propagates.forM fun _ => Tx.Propagates.write _)

end DatabaseMempool

end Silius
