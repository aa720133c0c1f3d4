import Silius.Primitives

/-!
# MDBX transactions whose calls can fail

The durable backend talks to MDBX through `reth_db`: it opens a transaction
(`tx_mut()` or `tx()`), makes calls on it (`get`, `put`, `delete`, cursor
steps) and commits.  Every one of these calls can fail.  The model numbers
the calls of one operation and takes a fault oracle `fails : Nat → Bool`
saying which of them fail; `noFaults` is the healthy database.

A transaction body (`Tx`) works on a private copy of the tables; a failed
call aborts it.  `Tx.atomically` is `tx_mut()?`, the body, `tx.commit()?`:
the committed tables become the body's copy only when the opening call, the
body and the commit all succeed, and stay as they were otherwise
(`atomically_eq_or`).

A body *propagates faults* (`Tx.Propagates`) when every failed call aborts
it, as the `?` operator makes it: then a body that finishes under some
oracle finishes exactly as it does with no faults, and a transaction around
it commits what it commits on a healthy database or nothing
(`Propagates.atomically_eq`).
`bind` and `List.forM` keep the property, and so do plain calls; a call whose
error is swallowed (`Tx.attempt`) does not.
-/

namespace Silius

/-- `DBError` of the durable backends. -/
inductive DBError where
  | notFound
  | dbInternalError
  deriving DecidableEq, Repr

/-- Which database calls of an operation fail: `fails n` for its `n`-th call. -/
abbrev Faults := Nat → Bool

/-- A healthy database: no call fails. -/
def noFaults : Faults := fun _ => false

/-- A transaction body over tables `σ`: from the transaction's copy of the
tables and the number of calls made so far, either a value and the new copy,
or the error that aborted it; the number of calls is kept either way. -/
def Tx (σ α : Type) : Type := σ → Nat → Except DBError (α × σ) × Nat

namespace Tx

variable {σ α β : Type}

/-- The body that returns `a` and makes no call. -/
protected def pure (a : α) : Tx σ α := fun s n => (.ok (a, s), n)

/-- Run `x`, then `f` on its value; an abort of `x` aborts the whole body. -/
protected def bind (x : Tx σ α) (f : α → Tx σ β) : Tx σ β := fun s n =>
  match x s n with
  | (.ok (a, s'), m) => f a s' m
  | (.error e, m) => (.error e, m)

instance : Monad (Tx σ) where
  pure := Tx.pure
  bind := Tx.bind

@[simp] theorem pure_apply (a : α) (s : σ) (n : Nat) : (pure a : Tx σ α) s n = (.ok (a, s), n) :=
  rfl

@[simp] theorem bind_apply (x : Tx σ α) (f : α → Tx σ β) (s : σ) (n : Nat) :
    (x >>= f) s n = match x s n with
      | (.ok (a, s'), m) => f a s' m
      | (.error e, m) => (.error e, m) := rfl

/-- Abort with `e` without a call, as `return Err(e)` drops the transaction. -/
def throw (e : DBError) : Tx σ α := fun _ n => (.error e, n)

/-- The transaction's copy of the tables, read without a database call. -/
def snapshot : Tx σ σ := fun s n => (.ok (s, s), n)

/-- One database call: it fails if the oracle says so, and otherwise reads
and writes the transaction's copy through `f`. -/
def call (fails : Faults) (f : σ → α × σ) : Tx σ α := fun s n =>
  if fails n then (.error .dbInternalError, n + 1) else (.ok (f s), n + 1)

/-- A call that only reads. -/
def read (fails : Faults) (f : σ → α) : Tx σ α := call fails fun s => (f s, s)

/-- A call that only writes. -/
def write (fails : Faults) (f : σ → σ) : Tx σ Unit := call fails fun s => ((), f s)

/-- A call whose error the code swallows: it returns whether the call
succeeded, as `while let Ok(Some(..)) = cursor.next()` or `.ok()` do. -/
def attempt (fails : Faults) : Tx σ Bool := fun s n => (.ok (!fails n, s), n + 1)

/-- `if let Some(k) = o { f(k)?; }`. -/
def forOpt (o : Option β) (f : β → Tx σ Unit) : Tx σ Unit :=
  match o with
  | some k => f k
  | none => pure ()

/-- A cursor walk over the values `vs` (`seek_by_key_subkey` then `next_dup`
until `None`, or `walk` then `collect`): one call for each value read, and
one more that finds no value. -/
def walk (fails : Faults) : List α → Tx σ (List α)
  | [] => read fails fun _ => []
  | v :: vs => do
    read fails fun _ => ()
    let rest ← walk fails vs
    pure (v :: rest)

/-- `tx_mut()?`, the body, `tx.commit()?`, counting calls from `n`: the
committed tables become the body's copy only when the opening call, the body
and the commit all succeed. -/
def atomically (fails : Faults) (body : Tx σ α) (s : σ) (n : Nat) : Except DBError α × σ × Nat :=
  if fails n then (.error .dbInternalError, s, n + 1) else
  match body s (n + 1) with
  | (.error e, m) => (.error e, s, m)
  | (.ok (a, s'), m) => if fails m then (.error .dbInternalError, s, m + 1) else (.ok a, s', m + 1)

/-- A read-only transaction `tx()`, committed at the end when `commit` is set. -/
def view (fails : Faults) (body : Tx σ α) (commit : Bool) (s : σ) (n : Nat) :
    Except DBError α × Nat :=
  if fails n then (.error .dbInternalError, n + 1) else
  match body s (n + 1) with
  | (.error e, m) => (.error e, m)
  | (.ok (a, _), m) =>
    if commit then (if fails m then (.error .dbInternalError, m + 1) else (.ok a, m + 1))
    else (.ok a, m)

/-! ## Healthy databases -/

@[simp] theorem call_noFaults (f : σ → α × σ) (s : σ) (n : Nat) :
    call noFaults f s n = (.ok (f s), n + 1) := rfl

@[simp] theorem read_noFaults (f : σ → α) (s : σ) (n : Nat) :
    read noFaults f s n = (.ok (f s, s), n + 1) := rfl

@[simp] theorem write_noFaults (f : σ → σ) (s : σ) (n : Nat) :
    write noFaults f s n = (.ok ((), f s), n + 1) := rfl

@[simp] theorem attempt_noFaults (s : σ) (n : Nat) :
    (attempt noFaults : Tx σ Bool) s n = (.ok (true, s), n + 1) := rfl

@[simp] theorem walk_noFaults (vs : List α) (s : σ) (n : Nat) :
    walk noFaults vs s n = (.ok (vs, s), n + vs.length + 1) := by
  induction vs generalizing n with
  | nil => rfl
  | cons v vs ih =>
    simp only [walk, bind_apply, read_noFaults, ih, pure_apply, List.length_cons]
    congr 2; omega

/-! ## Atomicity -/

/-- **A transaction commits all or nothing**: the committed tables after
`atomically` are the old ones, or, when it succeeds, the body's final copy. -/
theorem atomically_eq_or (fails : Faults) (body : Tx σ α) (s : σ) (n : Nat) :
    (∃ e m, atomically fails body s n = (.error e, s, m)) ∨
      ∃ a s' m m', body s (n + 1) = (.ok (a, s'), m) ∧ atomically fails body s n = (.ok a, s', m') := by
  unfold atomically
  split
  · exact .inl ⟨_, _, rfl⟩
  · rcases hb : body s (n + 1) with ⟨_ | ⟨a, s'⟩, m⟩
    · exact .inl ⟨_, _, rfl⟩
    · dsimp only
      split
      · exact .inl ⟨_, _, rfl⟩
      · exact .inr ⟨a, s', m, m + 1, rfl, rfl⟩

/-- A body that aborts on every failed call: under any oracle it aborts, or it
does what it does when no call fails. -/
def Propagates (body : Faults → Tx σ α) : Prop :=
  ∀ fails s n, (∃ e m, body fails s n = (.error e, m)) ∨ body fails s n = body noFaults s n

theorem Propagates.pure (a : α) : Propagates (σ := σ) fun _ => pure a :=
  fun _ _ _ => .inr rfl

theorem Propagates.throw (e : DBError) : Propagates (σ := σ) (α := α) fun _ => throw e :=
  fun _ _ _ => .inr rfl

theorem Propagates.snapshot : Propagates (σ := σ) fun _ => snapshot :=
  fun _ _ _ => .inr rfl

theorem Propagates.call (f : σ → α × σ) : Propagates fun fails => call fails f := by
  intro fails s n
  by_cases h : fails n
  · exact .inl ⟨.dbInternalError, n + 1, by simp [Tx.call, h]⟩
  · exact .inr (by simp [Tx.call, h, noFaults])

theorem Propagates.read (f : σ → α) : Propagates fun fails => read fails f :=
  Propagates.call _

theorem Propagates.write (f : σ → σ) : Propagates fun fails => write fails f :=
  Propagates.call _

theorem Propagates.bind {x : Faults → Tx σ α} {f : Faults → α → Tx σ β} (hx : Propagates x)
    (hf : ∀ a, Propagates fun fails => f fails a) :
    Propagates fun fails => x fails >>= f fails := by
  intro fails s n
  simp only [bind_apply]
  rcases hx fails s n with ⟨e, m, he⟩ | he
  · exact .inl ⟨e, m, by rw [he]⟩
  · rw [he]
    rcases x noFaults s n with ⟨_ | ⟨a, s'⟩, m⟩
    · exact .inl ⟨_, _, rfl⟩
    · exact hf a fails s' m

theorem Propagates.forM {l : List α} {f : Faults → α → Tx σ Unit}
    (hf : ∀ a, Propagates fun fails => f fails a) :
    Propagates fun fails => l.forM (f fails) := by
  induction l with
  | nil => exact Propagates.pure ()
  | cons a l ih => exact (hf a).bind fun _ => ih

theorem Propagates.walk (vs : List α) : Propagates (σ := σ) fun fails => walk fails vs := by
  induction vs with
  | nil => exact Propagates.read _
  | cons v vs ih => exact (Propagates.read _).bind fun _ => ih.bind fun _ => Propagates.pure _

theorem Propagates.forOpt {o : Option β} {f : Faults → β → Tx σ Unit}
    (hf : ∀ b, Propagates fun fails => f fails b) :
    Propagates fun fails => Tx.forOpt o (f fails) := by
  cases o
  · exact Propagates.pure ()
  · exact hf _

theorem Propagates.elim {o : Option β} {x : Faults → Tx σ α} {y : Faults → β → Tx σ α}
    (hx : Propagates x) (hy : ∀ b, Propagates fun fails => y fails b) :
    Propagates fun fails => o.elim (x fails) (y fails) := by
  cases o
  · exact hx
  · exact hy _

theorem Propagates.ite {p : Prop} [Decidable p] {x y : Faults → Tx σ α} (hx : Propagates x)
    (hy : Propagates y) : Propagates fun fails => if p then x fails else y fails := by
  by_cases h : p
  · simpa only [h, if_true] using hx
  · simpa only [h, if_false] using hy

/-- **A body that propagates faults commits exactly what it commits on a
healthy database**, or nothing. -/
theorem Propagates.atomically_eq {body : Faults → Tx σ α} (hb : Propagates body) (fails : Faults)
    (s : σ) (n : Nat) :
    (∃ e m, atomically fails (body fails) s n = (.error e, s, m)) ∨
      ∃ m, atomically fails (body fails) s n =
        ((atomically noFaults (body noFaults) s n).1, (atomically noFaults (body noFaults) s n).2.1, m) := by
  rcases atomically_eq_or fails (body fails) s n with h | ⟨a, s', m, m', hbody, h⟩
  · exact .inl h
  · rcases hb fails s (n + 1) with ⟨e, m'', he⟩ | he
    · rw [hbody] at he; simp at he
    · rw [hbody] at he
      refine .inr ⟨m', ?_⟩
      rw [h]
      simp [atomically, noFaults, ← he]

/-- The committed tables of such a transaction: the old ones, or the healthy
ones. -/
theorem Propagates.committed_eq_or {body : Faults → Tx σ α} (hb : Propagates body) (fails : Faults)
    (s : σ) (n : Nat) :
    (atomically fails (body fails) s n).2.1 = s ∨
      (atomically fails (body fails) s n).2.1 = (atomically noFaults (body noFaults) s n).2.1 := by
  rcases hb.atomically_eq fails s n with ⟨e, m, h⟩ | ⟨m, h⟩ <;> rw [h] <;> simp

/-- A read-only transaction around a body that propagates faults fails, or
returns what it returns on a healthy database. -/
theorem Propagates.view_eq {body : Faults → Tx σ α} (hb : Propagates body) (fails : Faults)
    (commit : Bool) (s : σ) (n : Nat) :
    (∃ e m, view fails (body fails) commit s n = (.error e, m)) ∨
      ∃ m, view fails (body fails) commit s n = ((view noFaults (body noFaults) commit s n).1, m) := by
  unfold view
  by_cases h0 : fails n
  · exact .inl ⟨.dbInternalError, n + 1, by simp [h0]⟩
  rcases hb fails s (n + 1) with ⟨e, m, he⟩ | he
  · exact .inl ⟨e, m, by simp [h0, he]⟩
  · simp only [h0, he, noFaults, Bool.false_eq_true, if_false]
    rcases body noFaults s (n + 1) with ⟨_ | ⟨a, s'⟩, m⟩
    · exact .inl ⟨_, _, rfl⟩
    · cases commit
      · exact .inr ⟨m, rfl⟩
      · by_cases hm : fails m
        · exact .inl ⟨.dbInternalError, m + 1, by simp [hm]⟩
        · exact .inr ⟨m + 1, by simp [hm]⟩

/-- What a read makes of its transaction's result, under any faults: what it
makes of the healthy result, or what it makes of an error. -/
theorem Propagates.read_eq_or {β : Type} {body : Faults → Tx σ α} (hb : Propagates body)
    (fails : Faults) (commit : Bool) (s : σ) (g : Except DBError α → β) :
    g (view fails (body fails) commit s 0).1 = g (view noFaults (body noFaults) commit s 0).1 ∨
      ∃ e, g (view fails (body fails) commit s 0).1 = g (.error e) := by
  rcases hb.view_eq fails commit s 0 with ⟨e, m, h⟩ | ⟨m, h⟩
  · exact .inr ⟨e, by rw [h]⟩
  · exact .inl (by rw [h])

end Tx

/-- What a durable-store operation does from the committed tables `s`, counting
its calls from `n`: its result, the committed tables after it, and the count. -/
abbrev DbStep (σ α : Type) := σ → Nat → Except DBError α × σ × Nat

/-- An `Except` result as the outcome of a call. -/
def Outcome.ofExcept {ε α : Type} : Except ε α → Outcome ε α
  | .ok a => .ok a
  | .error e => .err e

@[simp] theorem Outcome.ofExcept_eq_ok {ε α : Type} {x : Except ε α} {a : α} :
    Outcome.ofExcept x = .ok a ↔ x = .ok a := by
  cases x <;> simp [Outcome.ofExcept]

/-- A durable-store operation called on its own: its calls counted from zero. -/
def DbStep.run {σ α : Type} (op : DbStep σ α) (s : σ) : Outcome DBError α × σ :=
  (.ofExcept (op s 0).1, (op s 0).2.1)

end Silius
