import Silius.Primitives

/-!
# Indexes: a key to a set of values

The in-memory pool keeps `HashMap<Address, HashSet<UserOperationHash>>`
indexes, and the durable pool keeps `DUPSORT` tables, which hold a set of
values under each key.  Both are updated the same way: `insertValue` is
`entry(k).or_default().insert(v)` and a `put` on a `DUPSORT` table, and
`removeValue` removes one value and drops the key once its set is empty, as
`MemoryMempool::remove` does by hand and as MDBX does when the last duplicate
of a key is deleted.

The two updates are characterised by `find` (the set a key holds) and by
`lookup`; removals commute (`removeValue_comm`), which makes a removal loop
independent of the order a `HashSet` hands its hashes out in.
-/

namespace Silius

/-- A map from keys to sets of values. -/
abbrev Index (κ ν : Type) := Finmap (fun _ : κ => Finset ν)

namespace Index

variable {κ ν : Type} [DecidableEq κ] [DecidableEq ν]

/-- The set a key holds; an absent key holds the empty set. -/
def find (idx : Index κ ν) (k : κ) : Finset ν := (idx.lookup k).getD ∅

/-- `entry(k).or_default().insert(v)`, and `put(k, v)` on a `DUPSORT` table. -/
def insertValue (idx : Index κ ν) (k : κ) (v : ν) : Index κ ν :=
  Finmap.insert k (insert v (idx.find k)) idx

/-- A set as an index entry: an empty set is no entry. -/
def trim (s : Finset ν) : Option (Finset ν) := if s = ∅ then none else some s

/-- Remove `v` from the set of `k`, and drop `k` once its set is empty: the
`get_mut`/`remove`/`is_empty` block of `MemoryMempool::remove`, and
`delete(k, Some(v))` on a `DUPSORT` table. -/
def removeValue (idx : Index κ ν) (k : κ) (v : ν) : Index κ ν :=
  match idx.lookup k with
  | none => idx
  | some vs => if vs.erase v = ∅ then Finmap.erase k idx else Finmap.insert k (vs.erase v) idx

/-- `insertValue` under an optional key: the `if let Some(factory) = factory`
blocks of `add`. -/
def insertOpt (idx : Index κ ν) : Option κ → ν → Index κ ν
  | none, _ => idx
  | some k, v => idx.insertValue k v

/-- `removeValue` under an optional key. -/
def removeOpt (idx : Index κ ν) : Option κ → ν → Index κ ν
  | none, _ => idx
  | some k, v => idx.removeValue k v

/-- No key holds the empty set. -/
def NoEmpty (idx : Index κ ν) : Prop := ∀ k vs, idx.lookup k = some vs → vs.Nonempty

omit [DecidableEq ν] in
@[simp] theorem find_empty (k : κ) : (∅ : Index κ ν).find k = ∅ := rfl

theorem lookup_insertValue (idx : Index κ ν) (k k' : κ) (v : ν) :
    (idx.insertValue k v).lookup k' =
      if k' = k then some (insert v (idx.find k)) else idx.lookup k' := by
  unfold insertValue
  split
  · subst k'; exact Finmap.lookup_insert _
  · exact Finmap.lookup_insert_of_ne _ ‹_›

theorem lookup_removeValue (idx : Index κ ν) (k k' : κ) (v : ν) :
    (idx.removeValue k v).lookup k' =
      if k' = k then (idx.lookup k).bind fun vs => trim (vs.erase v) else idx.lookup k' := by
  unfold removeValue
  by_cases hk' : k' = k
  · subst hk'
    split
    · simp [*]
    · rename_i vs hk
      by_cases he : vs.erase v = ∅ <;> simp [hk, he, trim]
  · split
    · simp [hk']
    · split <;> simp [hk', Finmap.lookup_erase_ne, Finmap.lookup_insert_of_ne]

@[simp] theorem find_insertValue (idx : Index κ ν) (k k' : κ) (v : ν) :
    (idx.insertValue k v).find k' = if k' = k then insert v (idx.find k) else idx.find k' := by
  simp only [find, lookup_insertValue]
  split <;> rfl

@[simp] theorem find_removeValue (idx : Index κ ν) (k k' : κ) (v : ν) :
    (idx.removeValue k v).find k' = if k' = k then (idx.find k).erase v else idx.find k' := by
  simp only [find, lookup_removeValue]
  split
  · subst k'
    cases idx.lookup k with
    | none => rfl
    | some vs =>
      simp only [Option.some_bind, Option.getD_some, trim]
      split <;> simp_all
  · rfl

theorem mem_find_insertValue {idx : Index κ ν} {k k' : κ} {v x : ν} :
    x ∈ (idx.insertValue k v).find k' ↔ (k' = k ∧ x = v) ∨ x ∈ idx.find k' := by
  by_cases h : k' = k <;> simp [h]

theorem mem_find_removeValue {idx : Index κ ν} {k k' : κ} {v x : ν} :
    x ∈ (idx.removeValue k v).find k' ↔ ¬(k' = k ∧ x = v) ∧ x ∈ idx.find k' := by
  by_cases h : k' = k <;> simp [h, and_comm]

theorem mem_find_insertOpt {idx : Index κ ν} {k? : Option κ} {k' : κ} {v x : ν} :
    x ∈ (idx.insertOpt k? v).find k' ↔ (k? = some k' ∧ x = v) ∨ x ∈ idx.find k' := by
  cases k? with
  | none => simp [insertOpt]
  | some k => simp only [insertOpt, mem_find_insertValue, Option.some.injEq, eq_comm]

theorem mem_find_removeOpt {idx : Index κ ν} {k? : Option κ} {k' : κ} {v x : ν} :
    x ∈ (idx.removeOpt k? v).find k' ↔ ¬(k? = some k' ∧ x = v) ∧ x ∈ idx.find k' := by
  cases k? with
  | none => simp [removeOpt]
  | some k => simp only [removeOpt, mem_find_removeValue, Option.some.injEq, eq_comm]

/-- Putting the values of a list under one key, one `put` at a time. -/
theorem lookup_foldl_insertValue (idx : Index κ ν) (k k' : κ) (l : List ν) :
    (l.foldl (fun idx v => idx.insertValue k v) idx).lookup k' =
      if k' = k ∧ l ≠ [] then some (l.toFinset ∪ idx.find k) else idx.lookup k' := by
  induction l generalizing idx with
  | nil => simp
  | cons v l ih =>
    rw [List.foldl_cons, ih, lookup_insertValue]
    by_cases hk : k' = k
    · subst hk
      by_cases hl : l = [] <;> simp [hl, Finset.insert_eq, Finset.union_left_comm]
    · simp [hk]

theorem NoEmpty.insertValue {idx : Index κ ν} (h : idx.NoEmpty) (k : κ) (v : ν) :
    (idx.insertValue k v).NoEmpty := by
  intro k' vs hk'
  rw [lookup_insertValue] at hk'
  split at hk'
  · cases hk'; exact Finset.insert_nonempty _ _
  · exact h k' vs hk'

theorem NoEmpty.removeValue {idx : Index κ ν} (h : idx.NoEmpty) (k : κ) (v : ν) :
    (idx.removeValue k v).NoEmpty := by
  intro k' vs hk'
  rw [lookup_removeValue] at hk'
  split at hk'
  · obtain ⟨ws, -, hws⟩ := Option.bind_eq_some.mp hk'
    unfold trim at hws
    split at hws
    · cases hws
    · cases hws; exact Finset.nonempty_iff_ne_empty.mpr ‹_›
  · exact h k' vs hk'

theorem NoEmpty.insertOpt {idx : Index κ ν} (h : idx.NoEmpty) (k? : Option κ) (v : ν) :
    (idx.insertOpt k? v).NoEmpty := by
  cases k? <;> simp only [Index.insertOpt, h, h.insertValue]

theorem NoEmpty.removeOpt {idx : Index κ ν} (h : idx.NoEmpty) (k? : Option κ) (v : ν) :
    (idx.removeOpt k? v).NoEmpty := by
  cases k? <;> simp only [Index.removeOpt, h, h.removeValue]

omit [DecidableEq ν] in
/-- With no empty entry, a key is present exactly when it holds a value. -/
theorem NoEmpty.mem_iff {idx : Index κ ν} (h : idx.NoEmpty) (k : κ) :
    k ∈ idx ↔ (idx.find k).Nonempty := by
  rw [← Finmap.lookup_isSome, find]
  cases hk : idx.lookup k with
  | none => simp
  | some vs => simpa using h k vs hk

omit [DecidableEq ν] in
/-- Two indexes without empty entries are equal when every key holds the same set. -/
theorem ext_find {a b : Index κ ν} (ha : a.NoEmpty) (hb : b.NoEmpty)
    (h : ∀ k, a.find k = b.find k) : a = b := by
  refine Finmap.ext_lookup fun k => ?_
  have hk := h k
  unfold find at hk
  rcases hak : a.lookup k with _ | vs <;> rcases hbk : b.lookup k with _ | ws <;>
    simp only [hak, hbk, Option.getD_none, Option.getD_some] at hk
  · rfl
  · exact absurd hk.symm (hb k ws hbk).ne_empty
  · exact absurd hk (ha k vs hak).ne_empty
  · rw [hk]

/-- Putting a value a key already holds changes nothing. -/
theorem insertValue_of_mem {idx : Index κ ν} {k : κ} {v : ν} (h : v ∈ idx.find k) :
    idx.insertValue k v = idx := by
  refine Finmap.ext_lookup fun k' => ?_
  rw [lookup_insertValue]
  split
  · subst k'
    rw [Finset.insert_eq_of_mem h]
    unfold find at h ⊢
    cases hk : idx.lookup k <;> simp_all
  · rfl

/-- Putting a value under two optional keys a second time changes nothing. -/
theorem insertOpt_insertOpt_idem (idx : Index κ ν) (f p : Option κ) (v : ν) :
    (((idx.insertOpt f v).insertOpt p v).insertOpt f v).insertOpt p v =
      (idx.insertOpt f v).insertOpt p v := by
  cases f <;> cases p <;> simp only [insertOpt] <;>
    repeat rw [insertValue_of_mem (by simp only [find_insertValue]; split_ifs <;> simp)]

/-- A value no key held, put under two optional keys and then removed under
them, leaves the index as it was, whether the keys are absent, equal or
distinct. -/
theorem removeOpt_insertOpt {idx : Index κ ν} (h : idx.NoEmpty) (f p : Option κ) {v : ν}
    (hv : ∀ k, v ∉ idx.find k) :
    (((idx.insertOpt f v).insertOpt p v).removeOpt f v).removeOpt p v = idx := by
  refine ext_find (((h.insertOpt f v).insertOpt p v).removeOpt f v |>.removeOpt p v) h fun k => ?_
  ext x
  simp only [mem_find_removeOpt, mem_find_insertOpt]
  by_cases hx : x = v
  · subst hx; simp only [hv k, and_true, or_false]; tauto
  · simp [hx]

/-- The one-key case: `removeValue` undoes `insertValue` of a value no key held. -/
theorem removeValue_insertValue {idx : Index κ ν} (h : idx.NoEmpty) (k : κ) {v : ν}
    (hv : ∀ k, v ∉ idx.find k) : (idx.insertValue k v).removeValue k v = idx :=
  removeOpt_insertOpt h (some k) none hv

/-- Two removals commute, whatever keys and values they name. -/
theorem removeValue_comm (idx : Index κ ν) (k₁ k₂ : κ) (v₁ v₂ : ν) :
    (idx.removeValue k₁ v₁).removeValue k₂ v₂ = (idx.removeValue k₂ v₂).removeValue k₁ v₁ := by
  have trim_erase : ∀ (o : Option (Finset ν)) (a b : ν),
      (o.bind fun vs => trim (vs.erase a)).bind (fun vs => trim (vs.erase b)) =
        o.bind fun vs => trim ((vs.erase a).erase b) := by
    intro o a b
    cases o with
    | none => rfl
    | some vs =>
      by_cases ha : vs.erase a = ∅
      · simp [trim, ha]
      · simp [trim, ha]
  refine Finmap.ext_lookup fun k => ?_
  simp only [lookup_removeValue]
  by_cases h₁ : k = k₁ <;> by_cases h₂ : k = k₂
  · subst h₁; subst h₂
    simp only [if_true, trim_erase, Finset.erase_right_comm]
  all_goals simp_all

theorem removeOpt_comm (idx : Index κ ν) (k₁ k₂ : Option κ) (v₁ v₂ : ν) :
    (idx.removeOpt k₁ v₁).removeOpt k₂ v₂ = (idx.removeOpt k₂ v₂).removeOpt k₁ v₁ := by
  cases k₁ <;> cases k₂ <;> simp only [removeOpt, removeValue_comm]

/-- Removing one value under two optional keys commutes with removing another
value under two others: the entity-index half of two `remove`s. -/
theorem removeOpt_pair_comm (idx : Index κ ν) (f₁ p₁ f₂ p₂ : Option κ) (v₁ v₂ : ν) :
    (((idx.removeOpt f₁ v₁).removeOpt p₁ v₁).removeOpt f₂ v₂).removeOpt p₂ v₂ =
      (((idx.removeOpt f₂ v₂).removeOpt p₂ v₂).removeOpt f₁ v₁).removeOpt p₁ v₁ := by
  rw [removeOpt_comm _ p₁ f₂, removeOpt_comm _ f₁ f₂, removeOpt_comm _ p₁ p₂,
    removeOpt_comm _ f₁ p₂]

end Index

section Finmap

variable {α : Type} {β : α → Type} [DecidableEq α]

/-- Erasing an absent key changes nothing. -/
theorem erase_of_not_mem {a : α} {s : Finmap β} (h : a ∉ s) : Finmap.erase a s = s :=
  Finmap.ext_lookup fun k => by
    by_cases e : k = a
    · subst e; rw [Finmap.lookup_erase, Finmap.lookup_eq_none.mpr h]
    · exact Finmap.lookup_erase_ne e

/-- Erasing a key just inserted undoes the insertion when the key was absent. -/
theorem erase_insert_of_not_mem {a : α} {b : β a} {s : Finmap β} (h : a ∉ s) :
    Finmap.erase a (Finmap.insert a b s) = s :=
  Finmap.ext_lookup fun k => by
    by_cases e : k = a
    · subst e; rw [Finmap.lookup_erase, Finmap.lookup_eq_none.mpr h]
    · rw [Finmap.lookup_erase_ne e, Finmap.lookup_insert_of_ne _ e]

end Finmap

end Silius
