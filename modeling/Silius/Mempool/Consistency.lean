import Silius.Mempool.Index

/-!
# Index consistency

Both backends keep a primary map from hashes to operations and two indexes
over it: by sender, and by factory or paymaster (the entities).  The spec
asks that they stay consistent across `add`, `remove`, `remove_by_entity`
and `clear`.  `IndexConsistent` states this as a record of its parts:
every stored operation is indexed under each entity it names, every indexed
hash refers to a stored operation naming that address, and no index keeps
an empty set.

Both backends do the same to the three maps (in-memory: the `HashMap`s;
durable: the `UserOperations`, `UserOperationsBySender` and
`UserOperationsByEntity` tables), so the preservation lemmas are stated here
once, on the maps:

* `IndexConsistent.add` — storing an operation, when any operation already
  stored under its hash names the same entities;
* `IndexConsistent.remove` — removing a stored operation;
* `IndexConsistent.find_sender`, `IndexConsistent.find_entity` — an index
  holds exactly the hashes of the stored operations naming the address.
-/

namespace Silius

/-- The primary map of the pool: hash to operation. -/
abbrev UoMap := Finmap (fun _ : UserOperationHash => UserOperation)

/-- An index of the pool: address to the hashes of the operations naming it. -/
abbrev UoIndex := Index Address UserOperationHash

/-- The hashes of the stored operations that satisfy `p`. -/
def keysWhere (uos : UoMap) (p : UserOperation → Prop) [DecidablePred p] :
    Finset UserOperationHash :=
  uos.keys.filter fun h => (uos.lookup h).any fun uo => decide (p uo)

theorem mem_keysWhere {uos : UoMap} {p : UserOperation → Prop} [DecidablePred p]
    {h : UserOperationHash} : h ∈ keysWhere uos p ↔ ∃ uo, uos.lookup h = some uo ∧ p uo := by
  unfold keysWhere
  rw [Finset.mem_filter, Finmap.mem_keys, ← Finmap.lookup_isSome]
  cases uos.lookup h <;> simp

/-- Storing one operation adds at most its hash to the keys satisfying `p`. -/
theorem keysWhere_insert_subset (uos : UoMap) (h : UserOperationHash) (uo : UserOperation)
    (p : UserOperation → Prop) [DecidablePred p] :
    keysWhere (Finmap.insert h uo uos) p ⊆ insert h (keysWhere uos p) := fun k hk => by
  obtain ⟨uo', hl, hp⟩ := mem_keysWhere.mp hk
  by_cases e : k = h
  · exact e ▸ Finset.mem_insert_self _ _
  · rw [Finmap.lookup_insert_of_ne _ e] at hl
    exact Finset.mem_insert_of_mem (mem_keysWhere.mpr ⟨uo', hl, hp⟩)

theorem lookup_insert_eq_some {uos : UoMap} {h h' : UserOperationHash} {uo uo' : UserOperation} :
    (Finmap.insert h uo uos).lookup h' = some uo' ↔
      (h' = h ∧ uo' = uo) ∨ (h' ≠ h ∧ uos.lookup h' = some uo') := by
  by_cases e : h' = h
  · subst e; simp [Finmap.lookup_insert, eq_comm]
  · simp [Finmap.lookup_insert_of_ne _ e, e]

theorem lookup_erase_eq_some {uos : UoMap} {h h' : UserOperationHash} {uo' : UserOperation} :
    (Finmap.erase h uos).lookup h' = some uo' ↔ h' ≠ h ∧ uos.lookup h' = some uo' := by
  by_cases e : h' = h
  · subst e; simp [Finmap.lookup_erase]
  · simp [Finmap.lookup_erase_ne e, e]

theorem UserOperation.getEntities_eq {u v : UserOperation} :
    u.getEntities = v.getEntities ↔
      u.sender = v.sender ∧ u.factory = v.factory ∧ u.paymaster = v.paymaster := by
  simp [UserOperation.getEntities]

/-- **Index consistency** of a primary map and its two indexes. -/
structure IndexConsistent (uos : UoMap) (bySender byEntity : UoIndex) : Prop where
  sender_mem : ∀ {h uo}, uos.lookup h = some uo → h ∈ bySender.find uo.sender
  factory_mem : ∀ {h uo a}, uos.lookup h = some uo → uo.factory = some a → h ∈ byEntity.find a
  paymaster_mem : ∀ {h uo a}, uos.lookup h = some uo → uo.paymaster = some a →
    h ∈ byEntity.find a
  sender_sound : ∀ {a h}, h ∈ bySender.find a → ∃ uo, uos.lookup h = some uo ∧ uo.sender = a
  entity_sound : ∀ {a h}, h ∈ byEntity.find a →
    ∃ uo, uos.lookup h = some uo ∧ uo.NamesEntity a
  sender_noEmpty : bySender.NoEmpty
  entity_noEmpty : byEntity.NoEmpty

/-- Every stored operation sits under one of its own hashes. -/
def KeyedByHash (hash : UoHasher) (uos : UoMap) : Prop :=
  ∀ {h uo}, uos.lookup h = some uo → ∃ ep c, hash uo ep c = h

namespace IndexConsistent

variable {uos : UoMap} {bs be : UoIndex}

theorem empty : IndexConsistent ∅ ∅ ∅ where
  sender_mem h := by simp [Finmap.lookup_empty] at h
  factory_mem h := by simp [Finmap.lookup_empty] at h
  paymaster_mem h := by simp [Finmap.lookup_empty] at h
  sender_sound h := by simp at h
  entity_sound h := by simp at h
  sender_noEmpty _ _ h := by simp [Finmap.lookup_empty] at h
  entity_noEmpty _ _ h := by simp [Finmap.lookup_empty] at h

/-- The sender index of `a` is the set of stored operations sent by `a`. -/
theorem find_sender (hc : IndexConsistent uos bs be) (a : Address) :
    bs.find a = keysWhere uos (·.sender = a) := by
  ext h
  rw [mem_keysWhere]
  exact ⟨hc.sender_sound, fun ⟨_, hl, hs⟩ => hs ▸ hc.sender_mem hl⟩

/-- The entity index of `a` is the set of stored operations with factory or
paymaster `a`. -/
theorem find_entity (hc : IndexConsistent uos bs be) (a : Address) :
    be.find a = keysWhere uos (·.NamesEntity a) := by
  ext h
  rw [mem_keysWhere]
  refine ⟨hc.entity_sound, fun ⟨_, hl, hn⟩ => ?_⟩
  rcases hn with hf | hp
  · exact hc.factory_mem hl hf
  · exact hc.paymaster_mem hl hp

/-- The operations naming `a` in any role number at most the sender index
plus the entity index of `a`: the two may overlap. -/
theorem card_names_le (hc : IndexConsistent uos bs be) (a : Address) :
    (keysWhere uos (·.Names a)).card ≤ (bs.find a).card + (be.find a).card := by
  rw [hc.find_sender, hc.find_entity]
  calc (keysWhere uos (·.Names a)).card
      ≤ (keysWhere uos (·.sender = a) ∪ keysWhere uos (·.NamesEntity a)).card :=
        Finset.card_le_card fun h hh => by
          obtain ⟨uo, hl, hs | he⟩ := mem_keysWhere.mp hh
          · exact Finset.mem_union_left _ (mem_keysWhere.mpr ⟨uo, hl, hs⟩)
          · exact Finset.mem_union_right _ (mem_keysWhere.mpr ⟨uo, hl, he⟩)
    _ ≤ _ := Finset.card_union_le _ _

/-- Erasing the hashes the entity index lists for `e` keeps exactly the
operations that name `e` neither as factory nor as paymaster. -/
theorem lookup_erase_entity (hc : IndexConsistent uos bs be) {e : Address} {uos' : UoMap}
    (hu : ∀ h, uos'.lookup h = if h ∈ be.find e then none else uos.lookup h)
    (h : UserOperationHash) (uo : UserOperation) :
    uos'.lookup h = some uo ↔ uos.lookup h = some uo ∧ ¬ uo.NamesEntity e := by
  simp only [hu, hc.find_entity, mem_keysWhere]
  by_cases hl : uos.lookup h = some uo
  · by_cases hn : uo.NamesEntity e <;> simp [hl, hn]
  · simp only [hl, false_and, iff_false]
    split <;> simp_all

/-- Once no stored operation names `e`, the entity index of `e` is empty. -/
theorem find_entity_eq_empty (hc : IndexConsistent uos bs be) {e : Address}
    (hn : ∀ h uo, uos.lookup h = some uo → ¬ uo.NamesEntity e) : be.find e = ∅ := by
  rw [hc.find_entity, Finset.eq_empty_iff_forall_not_mem]
  intro h hh
  obtain ⟨uo, hl, he⟩ := mem_keysWhere.mp hh
  exact hn h uo hl he

/-- **`add` keeps the indexes consistent**, when an operation already stored
under the hash names the same entities. -/
theorem add (hc : IndexConsistent uos bs be) {h : UserOperationHash} {uo : UserOperation}
    (hsame : ∀ uo', uos.lookup h = some uo' → uo'.getEntities = uo.getEntities) :
    IndexConsistent (Finmap.insert h uo uos) (bs.insertValue uo.sender h)
      ((be.insertOpt uo.factory h).insertOpt uo.paymaster h) where
  sender_mem hl := by
    rw [Index.mem_find_insertValue]
    rcases lookup_insert_eq_some.mp hl with ⟨rfl, rfl⟩ | ⟨-, hl⟩
    · exact .inl ⟨rfl, rfl⟩
    · exact .inr (hc.sender_mem hl)
  factory_mem hl hf := by
    simp only [Index.mem_find_insertOpt]
    rcases lookup_insert_eq_some.mp hl with ⟨rfl, rfl⟩ | ⟨-, hl⟩
    · exact .inr (.inl ⟨hf, rfl⟩)
    · exact .inr (.inr (hc.factory_mem hl hf))
  paymaster_mem hl hp := by
    simp only [Index.mem_find_insertOpt]
    rcases lookup_insert_eq_some.mp hl with ⟨rfl, rfl⟩ | ⟨-, hl⟩
    · exact .inl ⟨hp, rfl⟩
    · exact .inr (.inr (hc.paymaster_mem hl hp))
  sender_sound {a h'} hm := by
    rcases Index.mem_find_insertValue.mp hm with ⟨rfl, rfl⟩ | hm
    · exact ⟨uo, Finmap.lookup_insert _, rfl⟩
    obtain ⟨uo', hl, rfl⟩ := hc.sender_sound hm
    by_cases e : h' = h
    · subst e
      exact ⟨uo, Finmap.lookup_insert _, (UserOperation.getEntities_eq.mp (hsame uo' hl)).1.symm⟩
    · exact ⟨uo', by rwa [Finmap.lookup_insert_of_ne _ e], rfl⟩
  entity_sound {a h'} hm := by
    simp only [Index.mem_find_insertOpt] at hm
    rcases hm with ⟨hp, rfl⟩ | ⟨hf, rfl⟩ | hm
    · exact ⟨uo, Finmap.lookup_insert _, .inr hp⟩
    · exact ⟨uo, Finmap.lookup_insert _, .inl hf⟩
    obtain ⟨uo', hl, hn⟩ := hc.entity_sound hm
    by_cases e : h' = h
    · subst e
      obtain ⟨-, hf, hp⟩ := UserOperation.getEntities_eq.mp (hsame uo' hl)
      refine ⟨uo, Finmap.lookup_insert _, ?_⟩
      unfold UserOperation.NamesEntity at hn ⊢
      rwa [← hf, ← hp]
    · exact ⟨uo', by rwa [Finmap.lookup_insert_of_ne _ e], hn⟩
  sender_noEmpty := hc.sender_noEmpty.insertValue _ _
  entity_noEmpty := (hc.entity_noEmpty.insertOpt _ _).insertOpt _ _

/-- **`remove` keeps the indexes consistent**: a stored operation leaves the
primary map and every index it is listed in. -/
theorem remove (hc : IndexConsistent uos bs be) {h : UserOperationHash} {uo : UserOperation}
    (hh : uos.lookup h = some uo) :
    IndexConsistent (Finmap.erase h uos) (bs.removeValue uo.sender h)
      ((be.removeOpt uo.factory h).removeOpt uo.paymaster h) where
  sender_mem hl := by
    obtain ⟨e, hl⟩ := lookup_erase_eq_some.mp hl
    exact Index.mem_find_removeValue.mpr ⟨fun ⟨_, h'⟩ => e h', hc.sender_mem hl⟩
  factory_mem hl hf := by
    obtain ⟨e, hl⟩ := lookup_erase_eq_some.mp hl
    simp only [Index.mem_find_removeOpt]
    exact ⟨fun ⟨_, h'⟩ => e h', fun ⟨_, h'⟩ => e h', hc.factory_mem hl hf⟩
  paymaster_mem hl hp := by
    obtain ⟨e, hl⟩ := lookup_erase_eq_some.mp hl
    simp only [Index.mem_find_removeOpt]
    exact ⟨fun ⟨_, h'⟩ => e h', fun ⟨_, h'⟩ => e h', hc.paymaster_mem hl hp⟩
  sender_sound {a h'} hm := by
    obtain ⟨hne, hm⟩ := Index.mem_find_removeValue.mp hm
    obtain ⟨uo', hl, rfl⟩ := hc.sender_sound hm
    have e : h' ≠ h := by
      rintro rfl
      rw [hh] at hl; cases hl
      exact hne ⟨rfl, rfl⟩
    exact ⟨uo', lookup_erase_eq_some.mpr ⟨e, hl⟩, rfl⟩
  entity_sound {a h'} hm := by
    simp only [Index.mem_find_removeOpt] at hm
    obtain ⟨hnp, hnf, hm⟩ := hm
    obtain ⟨uo', hl, hn⟩ := hc.entity_sound hm
    have e : h' ≠ h := by
      rintro rfl
      rw [hh] at hl; cases hl
      rcases hn with hf | hp
      · exact hnf ⟨hf, rfl⟩
      · exact hnp ⟨hp, rfl⟩
    exact ⟨uo', lookup_erase_eq_some.mpr ⟨e, hl⟩, hn⟩
  sender_noEmpty := hc.sender_noEmpty.removeValue _ _
  entity_noEmpty := (hc.entity_noEmpty.removeOpt _ _).removeOpt _ _

end IndexConsistent

namespace KeyedByHash

variable {hash : UoHasher} {uos : UoMap}

theorem empty : KeyedByHash hash ∅ := fun h => by simp [Finmap.lookup_empty] at h

theorem add (hk : KeyedByHash hash uos) (uo : UserOperation) (ep : Address) (c : U256) :
    KeyedByHash hash (Finmap.insert (hash uo ep c) uo uos) := fun hl => by
  rcases lookup_insert_eq_some.mp hl with ⟨rfl, rfl⟩ | ⟨-, hl⟩
  · exact ⟨ep, c, rfl⟩
  · exact hk hl

theorem erase (hk : KeyedByHash hash uos) (h : UserOperationHash) :
    KeyedByHash hash (Finmap.erase h uos) := fun hl => hk (lookup_erase_eq_some.mp hl).2

/-- Under the hash assumption, an operation already stored under the hash of
`uo` names the same entities as `uo`: the side condition of
`IndexConsistent.add`. -/
theorem same_entities (hk : KeyedByHash hash uos) (hdet : HashDeterminesEntities hash)
    (uo : UserOperation) (ep : Address) (c : U256) :
    ∀ uo', uos.lookup (hash uo ep c) = some uo' → uo'.getEntities = uo.getEntities := by
  intro uo' hl
  obtain ⟨ep', c', he⟩ := hk hl
  exact hdet _ _ _ _ _ _ (he.trans rfl)

end KeyedByHash

/-- **What `remove_by_entity(e)` is to do**, on either backend: return `Ok`,
keep in the primary map exactly the operations that name `e` neither as
factory nor as paymaster, leave `get_number_by_entity(e)` at 0, and leave no
code hashes under the hash of a removed operation.  `uos` and `uos'` are the
primary map before and after, `count` is the entity count after, and
`hasCodes h` says that `h` still has code hashes after. -/
structure RemovedEntity {ε : Type} (e : Address) (uos : UoMap) (r : Outcome ε Unit) (uos' : UoMap)
    (count : Nat) (hasCodes : UserOperationHash → Prop) : Prop where
  ok : r = .ok ()
  kept : ∀ h uo, uos'.lookup h = some uo ↔ uos.lookup h = some uo ∧ ¬ uo.NamesEntity e
  count_eq_zero : count = 0
  codes_gone : ∀ h uo, uos.lookup h = some uo → uo.NamesEntity e → ¬ hasCodes h

end Silius
