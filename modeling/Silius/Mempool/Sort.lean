import Silius.Primitives

/-!
# The order of `get_sorted`

Both backends sort the stored operations with the same `sort_by` closure:
a higher `max_priority_fee_per_gas` first, and among equal tips the lower
`nonce` first.  `sort_by` is a stable sort, and a stable sort's result is
determined by its input and its comparison, so `List.mergeSort` with the
comparison read as "not greater" computes exactly what `sort_by` does.

* `sorted_sortByFees` — the result is ordered pairwise: for every two
  positions `i < j`, the tip at `i` is higher, or the tips are equal and the
  nonce at `i` is not larger;
* `feeKeys_eq_of_perm` — two orderings of the same operations that are both
  ordered this way list the same (tip, nonce) pairs in the same order: they
  differ only among operations with equal tip and nonce.
-/

namespace Silius

namespace UserOperation

/-- The closure given to `sort_by` by both `get_sorted`s. -/
def compareFees (a b : UserOperation) : Ordering :=
  if a.maxPriorityFeePerGas ≠ b.maxPriorityFeePerGas then
    compare b.maxPriorityFeePerGas.val a.maxPriorityFeePerGas.val
  else compare a.nonce.val b.nonce.val

/-- The sort key: tip and nonce. -/
def feeKey (a : UserOperation) : U256 × U256 := (a.maxPriorityFeePerGas, a.nonce)

/-- The order of sort keys: a higher tip first, then a lower nonce. -/
def KeyOrdered (k k' : U256 × U256) : Prop := k'.1 < k.1 ∨ (k.1 = k'.1 ∧ k.2 ≤ k'.2)

/-- The order `get_sorted` puts two operations in. -/
def FeeOrdered (a b : UserOperation) : Prop := KeyOrdered a.feeKey b.feeKey

theorem KeyOrdered.antisymm {k k' : U256 × U256} (h : KeyOrdered k k') (h' : KeyOrdered k' k) :
    k = k' := by
  rcases h with h | ⟨h₁, h₂⟩ <;> rcases h' with h' | ⟨h₁', h₂'⟩
  · exact absurd (h.trans h') (lt_irrefl _)
  · exact absurd h (h₁' ▸ lt_irrefl _)
  · exact absurd h' (h₁ ▸ lt_irrefl _)
  · exact Prod.ext h₁ (le_antisymm h₂ h₂')

theorem compareFees_ne_gt {a b : UserOperation} :
    decide (compareFees a b ≠ .gt) = true ↔ FeeOrdered a b := by
  unfold compareFees FeeOrdered KeyOrdered feeKey
  split
  · rename_i h
    simp only [decide_eq_true_eq, ne_eq, Nat.compare_eq_gt, not_lt, h, false_and, or_false]
    exact ⟨fun hle => lt_of_le_of_ne (Fin.le_def.mpr hle) (Ne.symm h), fun hlt => le_of_lt hlt⟩
  · rename_i h
    simp only [not_not] at h
    simp only [decide_eq_true_eq, ne_eq, Nat.compare_eq_gt, not_lt, h, lt_self_iff_false,
      true_and, false_or]
    exact Fin.le_def.symm

theorem FeeOrdered.trans {a b c : UserOperation} (hab : FeeOrdered a b) (hbc : FeeOrdered b c) :
    FeeOrdered a c := by
  unfold FeeOrdered KeyOrdered at *
  rcases hab with h | ⟨h₁, h₂⟩ <;> rcases hbc with h' | ⟨h₁', h₂'⟩
  · exact .inl (h'.trans h)
  · exact .inl (h₁' ▸ h)
  · exact .inl (h₁ ▸ h')
  · exact .inr ⟨h₁.trans h₁', h₂.trans h₂'⟩

theorem FeeOrdered.total (a b : UserOperation) : FeeOrdered a b ∨ FeeOrdered b a := by
  unfold FeeOrdered KeyOrdered feeKey
  rcases lt_trichotomy a.maxPriorityFeePerGas b.maxPriorityFeePerGas with h | h | h
  · exact .inr (.inl h)
  · rcases le_total a.nonce b.nonce with h' | h'
    · exact .inl (.inr ⟨h, h'⟩)
    · exact .inr (.inr ⟨h.symm, h'⟩)
  · exact .inl (.inl h)

end UserOperation

open UserOperation

/-- `uos.sort_by(|a, b| ...)` of both `get_sorted`s. -/
def sortByFees (uos : List UserOperation) : List UserOperation :=
  uos.mergeSort fun a b => decide (compareFees a b ≠ .gt)

theorem sortByFees_perm (uos : List UserOperation) : (sortByFees uos).Perm uos :=
  List.mergeSort_perm _ _

/-- **`get_sorted` orders pairwise**: every earlier operation has a higher tip,
or the same tip and a nonce that is not larger. -/
theorem sorted_sortByFees (uos : List UserOperation) : (sortByFees uos).Pairwise FeeOrdered := by
  have h := @List.sorted_mergeSort _ (fun a b => decide (compareFees a b ≠ .gt))
    (fun a b c hab hbc => compareFees_ne_gt.mpr
      ((compareFees_ne_gt.mp hab).trans (compareFees_ne_gt.mp hbc)))
    (fun a b => by
      rcases FeeOrdered.total a b with h | h <;> simp [compareFees_ne_gt.mpr h])
    uos
  exact h.imp compareFees_ne_gt.mp

/-- **Sorted orderings agree up to ties**: two fee-ordered permutations of one
list have the same sequence of (tip, nonce) keys. -/
theorem feeKeys_eq_of_perm {l₁ l₂ : List UserOperation} (hp : l₁.Perm l₂)
    (h₁ : l₁.Pairwise FeeOrdered) (h₂ : l₂.Pairwise FeeOrdered) :
    l₁.map feeKey = l₂.map feeKey :=
  List.Perm.eq_of_sorted (fun _ _ _ _ => KeyOrdered.antisymm)
    (List.pairwise_map.mpr h₁) (List.pairwise_map.mpr h₂) (hp.map _)

/-- Sorting two permutations of one list gives results that agree up to ties. -/
theorem sortByFees_agree {l₁ l₂ : List UserOperation} (hp : l₁.Perm l₂) :
    (sortByFees l₁).Perm (sortByFees l₂) ∧
      (sortByFees l₁).map feeKey = (sortByFees l₂).map feeKey := by
  have hp' := ((sortByFees_perm l₁).trans hp).trans (sortByFees_perm l₂).symm
  exact ⟨hp', feeKeys_eq_of_perm hp' (sorted_sortByFees l₁) (sorted_sortByFees l₂)⟩

end Silius
