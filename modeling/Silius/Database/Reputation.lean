import Silius.Database.Tx

/-!
# `EntitiesReputation`

The durable reputation table (`database/reputation.rs`): address to
`ReputationEntry`, one value per key.  `set_entry` is one transaction.
`update` opens a write cursor and walks the table in key order, replacing
every entry by its decayed copy, or deleting it when both decayed counters
are zero, and commits.

Two features of `update` matter below.

* The loop is `while let Ok(Some(..)) = cursor.next()`: a failed cursor step
  ends it exactly as the end of the table does, and the transaction commits
  what it has done so far (`update_eq_or`).
* The counters are `u64`, and `ent.uo_seen * 23 / 24` is computed in `u64`:
  in a release build the product wraps.  `UInt64` models this.  On a healthy
  database `update` decays every entry (`lookup_update_noFaults`); the decay
  is the exact one of the spec only while `23 * counter < 2 ^ 64`
  (`decay_exact`).  Below the wrap every decay that keeps an entry takes a
  sighting, so repeated updates forget every entry (`update_forgets`).

`get_entry`, `contains_entry` and `get_all` are read-only transactions;
`get_all` falls back to the empty list on any failure.  `clear` is one
transaction whose failure panics.
-/

namespace Silius

/-- Modelled from the spec: `ReputationEntry` of `silius_primitives` is not in
the sources; the spec gives it as an address with two `u64` counters. -/
structure ReputationEntry where
  address : Address
  uoSeen : UInt64
  uoIncluded : UInt64
  deriving DecidableEq, Repr

/-- The `EntitiesReputation` table: address to entry. -/
abbrev EntitiesReputation := Finmap (fun _ : Address => ReputationEntry)

namespace ReputationEntry

/-- The body of the loop: `ent.uo_seen * 23 / 24`, and the same for
`uo_included`, in `u64` arithmetic. -/
def decay (ent : ReputationEntry) : ReputationEntry :=
  { ent with uoSeen := ent.uoSeen * 23 / 24, uoIncluded := ent.uoIncluded * 23 / 24 }

/-- `ent.uo_seen > 0 || ent.uo_included > 0`. -/
def isLive (ent : ReputationEntry) : Bool := ent.uoSeen > 0 || ent.uoIncluded > 0

/-- What one decay leaves of an entry: its decayed copy, or nothing. -/
def decayed (ent : ReputationEntry) : Option ReputationEntry :=
  if ent.decay.isLive then some ent.decay else none

/-- `u64` multiplication by 23 then division by 24 is the exact one below the
wrap: the counter `c` becomes `⌊23 c / 24⌋`. -/
theorem toNat_mul_div_of_lt {c : UInt64} (h : 23 * c.toNat < 2 ^ 64) :
    (c * 23 / 24).toNat = 23 * c.toNat / 24 := by
  rw [UInt64.toNat_div]
  show (c.toBitVec * (23 : UInt64).toBitVec).toNat / 24 = _
  rw [BitVec.toNat_mul, show (23 : UInt64).toBitVec.toNat = 23 from rfl,
    Nat.mod_eq_of_lt (by simpa [Nat.mul_comm] using h), Nat.mul_comm]
  rfl

theorem isLive_iff (ent : ReputationEntry) :
    ent.isLive ↔ 0 < ent.uoSeen.toNat ∨ 0 < ent.uoIncluded.toNat := by
  simp only [isLive, Bool.or_eq_true, decide_eq_true_eq, gt_iff_lt, UInt64.lt_def]
  rfl

/-- Below the wrap one decay is the exact one on both counters, and it keeps
`uo_included ≤ uo_seen`. -/
theorem decay_exact {ent : ReputationEntry} (hs : 23 * ent.uoSeen.toNat < 2 ^ 64)
    (hi : ent.uoIncluded.toNat ≤ ent.uoSeen.toNat) :
    ent.decay.uoSeen.toNat = 23 * ent.uoSeen.toNat / 24 ∧
      ent.decay.uoIncluded.toNat = 23 * ent.uoIncluded.toNat / 24 ∧
      ent.decay.uoIncluded.toNat ≤ ent.decay.uoSeen.toNat := by
  have hs' := toNat_mul_div_of_lt hs
  have hi' := toNat_mul_div_of_lt (c := ent.uoIncluded) (by omega)
  exact ⟨hs', hi', hs' ▸ hi' ▸ Nat.div_le_div_right (by omega)⟩

/-- The counters are below the wrap of `update`'s `* 23`, and the entry has no
more inclusions than sightings. -/
def BelowWrap (ent : ReputationEntry) : Prop :=
  23 * ent.uoSeen.toNat < 2 ^ 64 ∧ ent.uoIncluded.toNat ≤ ent.uoSeen.toNat

instance (ent : ReputationEntry) : Decidable ent.BelowWrap := inferInstanceAs (Decidable (_ ∧ _))

/-- Decay keeps an entry below the wrap: both counters only shrink. -/
theorem BelowWrap.decay {ent : ReputationEntry} (h : ent.BelowWrap) : ent.decay.BelowWrap := by
  obtain ⟨hs, -, hle⟩ := decay_exact h.1 h.2
  exact ⟨by rw [hs]; have := h.1; omega, hle⟩

/-- A decayed copy that survives has fewer sightings, and stays below the wrap. -/
theorem BelowWrap.decayed_seen_lt {ent ent' : ReputationEntry} (hb : ent.BelowWrap)
    (h : ent.decayed = some ent') : ent'.BelowWrap ∧ 0 < ent'.uoSeen.toNat ∧
      ent'.uoSeen.toNat < ent.uoSeen.toNat := by
  unfold decayed at h
  split at h
  · rename_i hlive
    cases h
    obtain ⟨hs, hi, hle⟩ := decay_exact hb.1 hb.2
    rw [isLive_iff, hs, hi] at hlive
    exact ⟨hb.decay, by omega, by omega⟩
  · cases h

end ReputationEntry

open ReputationEntry

/-! ## `DatabaseTable<EntitiesReputation>` -/

namespace DatabaseReputation

variable (aOrd : IterOrder Address) (fails : Faults)

/-- `get_entry`. -/
def getEntry (addr : Address) (t : EntitiesReputation) : Outcome DBError (Option ReputationEntry) :=
  .ofExcept (Tx.view fails (Tx.read fails (·.lookup addr)) true t 0).1

/-- The body of `set_entry`: read the original entry, put the new one. -/
def setEntryTx (addr : Address) (entry : ReputationEntry) :
    Tx EntitiesReputation (Option ReputationEntry) := do
  let original ← Tx.read fails (·.lookup addr)
  Tx.write fails (Finmap.insert addr entry)
  pure original

/-- `set_entry`: returns the entry it replaced. -/
def setEntry (addr : Address) (entry : ReputationEntry) :
    DbStep EntitiesReputation (Option ReputationEntry) :=
  Tx.atomically fails (setEntryTx fails addr entry)

/-- `contains_entry`: `get_entry(addr)?.is_some()`. -/
def containsEntry (addr : Address) (t : EntitiesReputation) : Outcome DBError Bool :=
  Option.isSome <$> getEntry fails addr t

/-- One turn of the loop on the entry under the cursor: `upsert` of the
decayed entry, or `delete_current`. -/
def decayAt (addr : Address) (ent : ReputationEntry) (t : EntitiesReputation) :
    EntitiesReputation :=
  if ent.decay.isLive then Finmap.insert addr ent.decay t else Finmap.erase addr t

/-- The loop `while let Ok(Some((addr, ent))) = cursor.next()` over the entries
in key order: a failed `next` ends it as the end of the table does; a failed
`upsert` or `delete_current` aborts the body. -/
def decayLoop : List (Address × ReputationEntry) → Tx EntitiesReputation Unit
  | [] => do
    let _ ← Tx.attempt fails
    pure ()
  | (addr, ent) :: rest => do
    let next ← Tx.attempt fails
    if next then
      Tx.write fails (decayAt addr ent)
      decayLoop rest
    else pure ()

/-- The entries of the table in the order the cursor walks them. -/
def entries (t : EntitiesReputation) : List (Address × ReputationEntry) :=
  (aOrd.toList t.keys).filterMap fun a => (t.lookup a).map (a, ·)

/-- `update`: `cursor_write()?`, the loop, `tx.commit()?`. -/
def update : DbStep EntitiesReputation Unit :=
  Tx.atomically fails (do
    Tx.read fails fun _ => ()
    let t ← Tx.snapshot
    decayLoop fails (entries aOrd t))

/-- The table after the loop has decayed the entries of `l`. -/
def decayEach (l : List (Address × ReputationEntry)) (t : EntitiesReputation) : EntitiesReputation :=
  l.foldl (fun t e => decayAt e.1 e.2 t) t

/-- The body of `get_all`: `cursor_read`, then the walk from the least address,
collecting the values. -/
def walkAllTx : Tx EntitiesReputation (List ReputationEntry) := do
  Tx.read fails fun _ => ()
  let t ← Tx.snapshot
  Tx.walk fails ((entries aOrd t).map Prod.snd)

/-- `get_all`; any failure gives the empty list (`unwrap_or_else(|_| vec![])`). -/
def getAll (t : EntitiesReputation) : List ReputationEntry :=
  match (Tx.view fails (walkAllTx aOrd fails) true t 0).1 with
  | .ok res => res
  | .error _ => []

/-- `ClearOp::clear`: one transaction that clears the table; a failure panics
(`expect("clear succeed")`). -/
def clear (t : EntitiesReputation) : Outcome DBError Unit × EntitiesReputation :=
  match Tx.atomically fails (Tx.write fails fun _ => ∅) t 0 with
  | (.ok (), t', _) => (.ok (), t')
  | (.error _, t', _) => (.panicked .expectFailed, t')

/-! ## The loop -/

variable {aOrd fails}

theorem mem_entries {t : EntitiesReputation} {a : Address} {ent : ReputationEntry} :
    (a, ent) ∈ entries aOrd t ↔ t.lookup a = some ent := by
  simp only [entries, List.mem_filterMap, Option.map_eq_some', Prod.mk.injEq, aOrd.mem_toList,
    Finmap.mem_keys]
  constructor
  · rintro ⟨a, -, ent, h, rfl, rfl⟩; exact h
  · intro h; exact ⟨a, Finmap.mem_of_lookup_eq_some h, ent, h, rfl, rfl⟩

theorem lookup_decayAt (addr a : Address) (ent : ReputationEntry) (t : EntitiesReputation) :
    (decayAt addr ent t).lookup a = if a = addr then ent.decayed else t.lookup a := by
  unfold decayAt decayed
  by_cases ha : a = addr
  · subst ha; split <;> simp [*, Finmap.lookup_erase]
  · split <;> simp [ha, Finmap.lookup_insert_of_ne, Finmap.lookup_erase_ne]

theorem decayLoop_noFaults (l : List (Address × ReputationEntry)) (t : EntitiesReputation)
    (n : Nat) : ∃ m, decayLoop noFaults l t n = (.ok ((), decayEach l t), m) := by
  induction l generalizing t n with
  | nil => exact ⟨_, rfl⟩
  | cons e l ih =>
    obtain ⟨m, hm⟩ := ih (decayAt e.1 e.2 t) (n + 2)
    exact ⟨m, by simpa [decayLoop, decayEach] using hm⟩

/-- Under any faults the loop aborts, or it has decayed a prefix of the
entries: a failed cursor step ends it early without an error. -/
theorem decayLoop_eq_or (l : List (Address × ReputationEntry)) (t : EntitiesReputation) (n : Nat) :
    (∃ e m, decayLoop fails l t n = (.error e, m)) ∨
      ∃ k m, decayLoop fails l t n = (.ok ((), decayEach (l.take k) t), m) := by
  induction l generalizing t n with
  | nil => exact .inr ⟨0, n + 1, rfl⟩
  | cons e l ih =>
    by_cases hn : fails n
    · exact .inr ⟨0, n + 1, by simp [decayLoop, Tx.attempt, hn, decayEach]⟩
    by_cases hw : fails (n + 1)
    · exact .inl ⟨.dbInternalError, n + 2, by simp [decayLoop, Tx.attempt, Tx.write, Tx.call, hn, hw]⟩
    rcases ih (decayAt e.1 e.2 t) (n + 2) with ⟨err, m, he⟩ | ⟨k, m, hk⟩
    · exact .inl ⟨err, m, by simp [decayLoop, Tx.attempt, Tx.write, Tx.call, hn, hw, he]⟩
    · exact .inr ⟨k + 1, m, by simp [decayLoop, Tx.attempt, Tx.write, Tx.call, hn, hw, hk, decayEach]⟩

/-- Decaying entries read from `t` at distinct keys: each key read gets its
entry's decayed copy, the others keep their value in the starting table. -/
theorem lookup_decayEach_filterMap (t : EntitiesReputation) {ks : List Address} (hks : ks.Nodup)
    (s : EntitiesReputation) (hs : ∀ k ∈ ks, s.lookup k = t.lookup k) (a : Address) :
    (decayEach (ks.filterMap fun k => (t.lookup k).map (k, ·)) s).lookup a =
      if a ∈ ks then (t.lookup a).bind decayed else s.lookup a := by
  induction ks generalizing s with
  | nil => simp [decayEach]
  | cons k ks ih =>
    obtain ⟨hk, hks⟩ := List.nodup_cons.mp hks
    cases hl : t.lookup k with
    | none =>
      rw [List.filterMap_cons, hl, Option.map_none', ih hks s fun k' h' => hs k' (.tail _ h')]
      by_cases ha : a = k
      · subst ha; simp [hk, hl, hs a (.head _)]
      · simp [ha]
    | some ent =>
      have hs' : ∀ k' ∈ ks, (decayAt k ent s).lookup k' = t.lookup k' := fun k' h' => by
        rw [lookup_decayAt, if_neg (fun e : k' = k => hk (e ▸ h')), hs k' (.tail _ h')]
      simp only [List.filterMap_cons, hl, Option.map_some', decayEach, List.foldl_cons]
      rw [← decayEach, ih hks _ hs', lookup_decayAt]
      by_cases ha : a = k
      · subst ha; simp [hk, hl]
      · simp [ha]

/-- Decaying entries that have a property decay keeps, from a table whose
entries all have it, gives a table whose entries all have it. -/
theorem decayEach_forall {P : ReputationEntry → Prop} (hP : ∀ ent, P ent → P ent.decay)
    {l : List (Address × ReputationEntry)} (hl : ∀ p ∈ l, P p.2) {t : EntitiesReputation}
    (ht : ∀ a ent, t.lookup a = some ent → P ent) :
    ∀ a ent, (decayEach l t).lookup a = some ent → P ent := by
  induction l generalizing t with
  | nil => exact ht
  | cons p l ih =>
    refine ih (fun q hq => hl q (.tail _ hq)) fun a ent h => ?_
    rw [lookup_decayAt] at h
    split at h
    · unfold decayed at h
      split at h
      · cases h; exact hP _ (hl p (.head _))
      · cases h
    · exact ht a ent h

/-- **A healthy `update` decays every entry**: each address keeps the decayed
copy of its entry, or loses its entry when both decayed counters are zero, and
no address is added. -/
theorem lookup_update_noFaults (t : EntitiesReputation) (n : Nat) :
    ∃ t' m, update aOrd noFaults t n = (.ok (), t', m) ∧
      ∀ a, t'.lookup a = (t.lookup a).bind decayed := by
  obtain ⟨m, hm⟩ := decayLoop_noFaults (entries aOrd t) t (n + 1 + 1)
  refine ⟨decayEach (entries aOrd t) t, m + 1, by simp [update, Tx.atomically, noFaults, Tx.snapshot, hm],
    fun a => ?_⟩
  rw [entries, lookup_decayEach_filterMap t (aOrd.nodup_toList _) t (fun _ _ => rfl)]
  by_cases ha : a ∈ t.keys
  · simp [ha]
  · simp [ha, Finmap.lookup_eq_none.mpr (Finmap.mem_keys.not.mp ha)]

/-- A counter above `u64::MAX / 23` wraps: the healthy `update` turns
`(802032351030850071, 802032351030850069)` into `(0, 768614336404564649)`,
where the exact decay is `(768614336404564651, 768614336404564649)`; the new
entry has more inclusions than sightings. -/
theorem update_wraps_large_counter :
    ∃ t' m, update IterOrder.ascending noFaults
        (Finmap.singleton 1 ⟨1, 802032351030850071, 802032351030850069⟩) 0 = (.ok (), t', m) ∧
      t'.lookup 1 = some ⟨1, 0, 768614336404564649⟩ ∧
      23 * 802032351030850071 / 24 = 768614336404564651 := by
  obtain ⟨t', m, h, hl⟩ := @lookup_update_noFaults IterOrder.ascending
    (Finmap.singleton 1 ⟨1, 802032351030850071, 802032351030850069⟩) 0
  exact ⟨t', m, h, by rw [hl, Finmap.lookup_singleton_eq]; rfl, by decide⟩

/-- **Below the wrap a healthy `update` is the spec's decay**: when every
counter `c` has `23 c < 2 ^ 64` and every entry has `uo_included ≤ uo_seen`,
each address loses its entry exactly when both `⌊23 c / 24⌋` are zero, every
other entry becomes the exact decay of the old one, no address is added, and
`uo_included ≤ uo_seen` still holds. -/
theorem update_decay_exact (t : EntitiesReputation) (n : Nat)
    (hsmall : ∀ a e, t.lookup a = some e →
      23 * e.uoSeen.toNat < 2 ^ 64 ∧ e.uoIncluded.toNat ≤ e.uoSeen.toNat) :
    ∃ t' m, update aOrd noFaults t n = (.ok (), t', m) ∧ ∀ a,
      (t'.lookup a = none ↔ ∀ e, t.lookup a = some e →
        23 * e.uoSeen.toNat / 24 = 0 ∧ 23 * e.uoIncluded.toNat / 24 = 0) ∧
      ∀ e', t'.lookup a = some e' → ∃ e, t.lookup a = some e ∧ e'.address = e.address ∧
        e'.uoSeen.toNat = 23 * e.uoSeen.toNat / 24 ∧
        e'.uoIncluded.toNat = 23 * e.uoIncluded.toNat / 24 ∧ e'.uoIncluded.toNat ≤ e'.uoSeen.toNat := by
  obtain ⟨t', m, h, hl⟩ := @lookup_update_noFaults aOrd t n
  refine ⟨t', m, h, fun a => ?_⟩
  rw [hl]
  cases ha : t.lookup a with
  | none => simp
  | some e =>
    obtain ⟨hs, hi, hle⟩ := decay_exact (hsmall a e ha).1 (hsmall a e ha).2
    rw [Option.some_bind, decayed]
    split
    · rename_i hlive
      rw [isLive_iff, hs, hi] at hlive
      simp only [Option.some_bind, Option.some.injEq, forall_eq', reduceCtorEq, false_iff]
      exact ⟨by omega, e, rfl, rfl, hs, hi, hle⟩
    · rename_i hlive
      rw [isLive_iff, hs, hi] at hlive
      simp only [Option.some_bind, Option.some.injEq, forall_eq', true_iff, reduceCtorEq,
        false_implies, implies_true, and_true]
      omega

theorem update_decay_exact_singleton :
    (∀ a (e : ReputationEntry), (Finmap.singleton 1 ⟨1, 48, 24⟩ : EntitiesReputation).lookup a = some e →
      23 * e.uoSeen.toNat < 2 ^ 64 ∧ e.uoIncluded.toNat ≤ e.uoSeen.toNat) ∧
    ∃ t' m, update IterOrder.ascending noFaults (Finmap.singleton 1 ⟨1, 48, 24⟩) 0 = (.ok (), t', m) ∧
      ∀ a, (t'.lookup a = none ↔ ∀ (e : ReputationEntry),
        (Finmap.singleton 1 ⟨1, 48, 24⟩ : EntitiesReputation).lookup a = some e →
        23 * e.uoSeen.toNat / 24 = 0 ∧ 23 * e.uoIncluded.toNat / 24 = 0) ∧
      ∀ (e' : ReputationEntry), t'.lookup a = some e' →
        ∃ e : ReputationEntry, (Finmap.singleton 1 ⟨1, 48, 24⟩ : EntitiesReputation).lookup a = some e ∧
        e'.address = e.address ∧ e'.uoSeen.toNat = 23 * e.uoSeen.toNat / 24 ∧
        e'.uoIncluded.toNat = 23 * e.uoIncluded.toNat / 24 ∧ e'.uoIncluded.toNat ≤ e'.uoSeen.toNat := by
  have hsmall : ∀ a (e : ReputationEntry),
      (Finmap.singleton 1 ⟨1, 48, 24⟩ : EntitiesReputation).lookup a = some e →
      23 * e.uoSeen.toNat < 2 ^ 64 ∧ e.uoIncluded.toNat ≤ e.uoSeen.toNat := by
    intro a e he
    by_cases ha : a = 1
    · subst ha; rw [Finmap.lookup_singleton_eq, Option.some.injEq] at he; subst he; decide
    · rw [Finmap.lookup_eq_none.mpr (by simpa [Finmap.mem_singleton] using ha)] at he; cases he
  exact ⟨hsmall, update_decay_exact _ 0 hsmall⟩

/-! ## Repeated updates -/

theorem lookup_update_run (t : EntitiesReputation) (a : Address) :
    ((update aOrd noFaults).run t).2.lookup a = (t.lookup a).bind decayed := by
  obtain ⟨t', m, h, hl⟩ := @lookup_update_noFaults aOrd t 0
  rw [DbStep.run, h, hl]

/-- An address without an entry stays without one. -/
theorem lookup_iterate_update_none {t : EntitiesReputation} {a : Address} (h : t.lookup a = none)
    (k : Nat) : ((fun t => ((update aOrd noFaults).run t).2)^[k] t).lookup a = none := by
  induction k generalizing t with
  | zero => exact h
  | succ k ih => exact ih (by rw [lookup_update_run, h]; rfl)

/-- **Healthy updates forget every entry.**  An entry below the wrap, with no
more inclusions than sightings, is gone after `max uo_seen 1` healthy
updates, whatever else the table holds: every decay that keeps it takes at
least one sighting. -/
theorem update_forgets (t : EntitiesReputation) (a : Address) (ent : ReputationEntry)
    (ht : t.lookup a = some ent) (hb : ent.BelowWrap) (k : Nat)
    (hk : max ent.uoSeen.toNat 1 ≤ k) :
    ((fun t => ((update aOrd noFaults).run t).2)^[k] t).lookup a = none := by
  induction k generalizing t ent with
  | zero => omega
  | succ k ih =>
    rw [Function.iterate_succ_apply]
    cases hl : ((update aOrd noFaults).run t).2.lookup a with
    | none => exact lookup_iterate_update_none hl k
    | some ent' =>
      rw [lookup_update_run, ht, Option.some_bind] at hl
      obtain ⟨hb', hpos, hlt⟩ := hb.decayed_seen_lt hl
      exact ih _ ent' (by rw [lookup_update_run, ht, Option.some_bind, hl]) hb' (by omega)

/-- An entry `(2, 1)` is gone after two updates. -/
theorem update_forgets_two :
    (Finmap.singleton 1 ⟨1, 2, 1⟩ : EntitiesReputation).lookup 1 = some ⟨1, 2, 1⟩ ∧
      ReputationEntry.BelowWrap ⟨1, 2, 1⟩ ∧ max (UInt64.toNat 2) 1 ≤ 2 ∧
      ((fun t => ((update IterOrder.ascending noFaults).run t).2)^[2]
        (Finmap.singleton 1 ⟨1, 2, 1⟩)).lookup 1 = none :=
  ⟨Finmap.lookup_singleton_eq, by decide, by decide,
    update_forgets _ 1 _ Finmap.lookup_singleton_eq (by decide) 2 (by decide)⟩

/-- **`update` commits a prefix of the decay**: under any faults it fails and
leaves the table as it was, or returns `Ok` with the entries of a prefix of
the walk decayed; a failed cursor step makes that prefix short. -/
theorem update_eq_or (t : EntitiesReputation) (n : Nat) :
    (∃ e m, update aOrd fails t n = (.error e, t, m)) ∨
      ∃ k m, update aOrd fails t n = (.ok (), decayEach ((entries aOrd t).take k) t, m) := by
  rcases Tx.atomically_eq_or fails _ t n with h | ⟨a, s', m, m', hb, h⟩
  · exact .inl h
  · by_cases hr : fails (n + 1)
    · simp [Tx.read, Tx.call, hr] at hb
    rcases @decayLoop_eq_or fails (entries aOrd t) t (n + 1 + 1) with
      ⟨e, m'', he⟩ | ⟨k, m'', hk⟩
    · simp [Tx.read, Tx.call, hr, Tx.snapshot, he] at hb
    · simp only [Tx.bind_apply, Tx.read, Tx.call, hr, Tx.snapshot, hk, Bool.false_eq_true,
        if_false, Prod.mk.injEq, Except.ok.injEq] at hb
      exact .inr ⟨k, m', hb.1.2 ▸ h⟩

/-- A failed cursor step ends `update` early, and the transaction still
commits.  With two entries of `uo_seen` 24, the second `next` (call 4, after
the opening call 0, `cursor_write` 1, the first `next` 2 and its `upsert` 3)
fails: `update` returns `Ok` with the first entry decayed and the second as it
was, where the healthy `update` decays both. -/
theorem update_commits_after_failed_next :
    ∃ t' m, update .ascending (· = 4) ((Finmap.singleton 1 ⟨1, 24, 0⟩).insert 2 ⟨2, 24, 0⟩) 0 =
        (.ok (), t', m) ∧
      t'.lookup 1 = some ⟨1, 23, 0⟩ ∧ t'.lookup 2 = some ⟨2, 24, 0⟩ ∧
      (update .ascending noFaults
        ((Finmap.singleton 1 ⟨1, 24, 0⟩).insert 2 ⟨2, 24, 0⟩) 0).2.1.lookup 2 = some ⟨2, 23, 0⟩ :=
  ⟨_, _, rfl, by decide, by decide, by decide⟩

/-! ## The other operations on a healthy database -/

theorem getEntry_noFaults (addr : Address) (t : EntitiesReputation) :
    getEntry noFaults addr t = .ok (t.lookup addr) := by
  simp [getEntry, Tx.view, noFaults, Outcome.ofExcept]

theorem containsEntry_noFaults (addr : Address) (t : EntitiesReputation) :
    containsEntry noFaults addr t = .ok (addr ∈ t) := by
  have h : (t.lookup addr).isSome = decide (addr ∈ t) :=
    Bool.eq_iff_iff.mpr (by simp [Finmap.lookup_isSome])
  simp [containsEntry, getEntry_noFaults, Functor.map, Outcome.bind, h]

theorem getAll_noFaults (t : EntitiesReputation) :
    getAll aOrd noFaults t = (entries aOrd t).map Prod.snd := by
  simp [getAll, walkAllTx, Tx.view, noFaults, Tx.snapshot]

theorem clear_noFaults (t : EntitiesReputation) : clear noFaults t = (.ok (), ∅) := by
  simp [clear, Tx.atomically, noFaults]

/-! ## Atomicity of `set_entry` -/

theorem setEntryTx_propagates (addr : Address) (entry : ReputationEntry) :
    Tx.Propagates fun fails => setEntryTx fails addr entry :=
  (Tx.Propagates.read _).bind fun _ => (Tx.Propagates.write _).bind fun _ => Tx.Propagates.pure _

theorem setEntry_noFaults (addr : Address) (entry : ReputationEntry) (t : EntitiesReputation)
    (n : Nat) : setEntry noFaults addr entry t n = (.ok (t.lookup addr), Finmap.insert addr entry t, n + 4) := by
  simp [setEntry, setEntryTx, Tx.atomically, noFaults]

end DatabaseReputation

end Silius
