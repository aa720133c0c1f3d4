import Mathlib.Data.Finmap
import Mathlib.Data.List.Sort
import Mathlib.Data.Prod.Lex

/-!
# Primitives of the user-operation pool

The data every part of the pool shares: addresses and hashes, the `U256`
words of `ethers` with the arithmetic the Rust code uses, the outcome of a
call (which can be a panic), the ERC-4337 `UserOperation` and its entities,
and the iteration order of the hash containers and tables the pool walks.

Two modelling choices run through the whole development.

* `U256` is `Fin (2 ^ 256)`, but its `+`, `-`, `*` and `/` are never Lean's
  wrapping ones: the `primitive-types` operators panic on overflow and on
  division by zero, and `addChecked` and friends return that panic.
* `std`'s `HashMap` and `HashSet` iterate in an order they randomise per
  container, and an MDBX cursor walks its keys in byte order.  Every function
  that iterates takes an `IterOrder`, and every theorem holds for all of them.
-/

namespace Silius

/-- An Ethereum address.  The pool only compares addresses. -/
abbrev Address := Nat

/-- A `UserOperationHash` (32 bytes); MDBX orders them as big-endian numbers. -/
abbrev UserOperationHash := Nat

/-- A byte string (`Bytes` of `ethers`). -/
abbrev Bytes := List UInt8

/-- `U256` of `ethers`: a 256-bit unsigned word. -/
abbrev U256 := Fin (2 ^ 256)

/-- Why a task panicked: the messages of Rust's slice indexing and of the
`primitive-types` arithmetic. -/
inductive Panic where
  | indexOutOfBounds
  | arithmeticOverflow
  | divisionByZero
  | expectFailed
  deriving DecidableEq, Repr

/-- How a call ends: `Ok`, `Err`, or a panic of the task that made it. -/
inductive Outcome (ε α : Type) where
  | ok (a : α)
  | err (e : ε)
  | panicked (p : Panic)
  deriving DecidableEq, Repr

namespace Outcome

/-- Sequencing as the `?` operator does it: an error or a panic ends the call. -/
def bind (x : Outcome ε α) (f : α → Outcome ε β) : Outcome ε β :=
  match x with
  | ok a => f a
  | err e => err e
  | panicked p => panicked p

instance : Monad (Outcome ε) where
  pure := ok
  bind := bind

@[simp] theorem pure_eq (a : α) : (pure a : Outcome ε α) = ok a := rfl

@[simp] theorem bind_ok (a : α) (f : α → Outcome ε β) : (ok a >>= f) = f a := rfl

@[simp] theorem bind_err (e : ε) (f : α → Outcome ε β) : (err e >>= f) = err e := rfl

@[simp] theorem bind_panicked (p : Panic) (f : α → Outcome ε β) :
    ((panicked p : Outcome ε α) >>= f) = panicked p := rfl

theorem bind_eq_ok {x : Outcome ε α} {f : α → Outcome ε β} {b : β} :
    x >>= f = ok b ↔ ∃ a, x = ok a ∧ f a = ok b := by
  cases x <;> simp

theorem map_eq_ok {x : Outcome ε α} {f : α → β} {b : β} :
    f <$> x = ok b ↔ ∃ a, x = ok a ∧ f a = b := by
  cases x <;> simp [Functor.map, bind]

end Outcome

namespace U256

/-- `U256::MAX`. -/
def MAX : U256 := ⟨2 ^ 256 - 1, Nat.sub_lt (Nat.two_pow_pos 256) Nat.one_pos⟩

/-- `a + b` of `primitive-types`: it panics when the sum leaves 256 bits. -/
def addChecked (a b : U256) : Outcome ε U256 :=
  if h : a.val + b.val < 2 ^ 256 then .ok ⟨a.val + b.val, h⟩ else .panicked .arithmeticOverflow

/-- `a - b` of `primitive-types`: it panics when `b > a`. -/
def subChecked (a b : U256) : Outcome ε U256 :=
  if h : b.val ≤ a.val then .ok ⟨a.val - b.val, by omega⟩ else .panicked .arithmeticOverflow

/-- `a * b` of `primitive-types`: it panics when the product leaves 256 bits. -/
def mulChecked (a b : U256) : Outcome ε U256 :=
  if h : a.val * b.val < 2 ^ 256 then .ok ⟨a.val * b.val, h⟩ else .panicked .arithmeticOverflow

/-- `a / b` of `primitive-types`: it panics when `b = 0`. -/
def divChecked (a b : U256) : Outcome ε U256 :=
  if b.val = 0 then .panicked .divisionByZero
  else .ok ⟨a.val / b.val, lt_of_le_of_lt (Nat.div_le_self _ _) a.isLt⟩

@[simp] theorem le_MAX (a : U256) : a ≤ MAX := Fin.le_def.mpr (Nat.le_pred_of_lt a.isLt)

theorem subChecked_of_lt {a b : U256} (h : a.val < b.val) :
    (subChecked a b : Outcome ε U256) = .panicked .arithmeticOverflow := by
  rw [subChecked, dif_neg (Nat.not_le.mpr h)]

theorem addChecked_of_overflow {a b : U256} (h : 2 ^ 256 ≤ a.val + b.val) :
    (addChecked a b : Outcome ε U256) = .panicked .arithmeticOverflow := by
  rw [addChecked, dif_neg (Nat.not_lt.mpr h)]

end U256

/-- An ERC-4337 `UserOperation`, with the fields in their canonical order. -/
structure UserOperation where
  sender : Address
  nonce : U256
  initCode : Bytes
  callData : Bytes
  callGasLimit : U256
  verificationGasLimit : U256
  preVerificationGas : U256
  maxFeePerGas : U256
  maxPriorityFeePerGas : U256
  paymasterAndData : Bytes
  signature : Bytes
  deriving DecidableEq, Repr

/-- `Address::from_slice`: the big-endian number the bytes spell. -/
def addressFromSlice (bs : Bytes) : Address :=
  bs.foldl (fun a b => 256 * a + b.toNat) 0

/-- Modelled from the spec: `get_entities` of `silius_primitives` is not in the
sources; the spec names the factory as the first 20 bytes of a non-empty
`init_code` and the paymaster as the first 20 bytes of a non-empty
`paymaster_and_data`. -/
def entityOf (bs : Bytes) : Option Address :=
  if bs.isEmpty then none else some (addressFromSlice (bs.take 20))

namespace UserOperation

/-- The factory named by the operation's `init_code`. -/
def factory (uo : UserOperation) : Option Address := entityOf uo.initCode

/-- The paymaster named by the operation's `paymaster_and_data`. -/
def paymaster (uo : UserOperation) : Option Address := entityOf uo.paymasterAndData

/-- `UserOperation::get_entities`: the sender, factory and paymaster. -/
def getEntities (uo : UserOperation) : Address × Option Address × Option Address :=
  (uo.sender, uo.factory, uo.paymaster)

/-- The operation names `a` as its factory or as its paymaster. -/
def NamesEntity (uo : UserOperation) (a : Address) : Prop :=
  uo.factory = some a ∨ uo.paymaster = some a

instance (uo : UserOperation) (a : Address) : Decidable (uo.NamesEntity a) :=
  inferInstanceAs (Decidable (_ ∨ _))

/-- The operation names `a` as sender, factory or paymaster. -/
def Names (uo : UserOperation) (a : Address) : Prop :=
  uo.sender = a ∨ uo.NamesEntity a

instance (uo : UserOperation) (a : Address) : Decidable (uo.Names a) :=
  inferInstanceAs (Decidable (_ ∨ _))

end UserOperation

/-- `UserOperation::hash(ep, chain_id)`, a keccak256 digest, is left abstract:
everything that hashes takes the hash function as a parameter. -/
abbrev UoHasher := UserOperation → Address → U256 → UserOperationHash

/-- The assumption the pool's index invariants rest on: equal hashes name the
same sender, factory and paymaster. -/
def HashDeterminesEntities (hash : UoHasher) : Prop :=
  ∀ u v ep ep' c c', hash u ep c = hash v ep' c' → u.getEntities = v.getEntities

/-- A `CodeHash`: a contract touched in simulation and the hash of its code. -/
structure CodeHash where
  address : Address
  hash : Nat
  deriving DecidableEq, Repr

/-- Code hashes in the order of their encoding: by address, then by hash. -/
instance : LinearOrder CodeHash :=
  LinearOrder.lift' (fun c => toLex (c.address, c.hash)) fun a b h => by
    cases a; cases b; simp_all

/-- An iteration order of a hash container or of a table cursor: a list of the
elements of every finite set, each once. -/
structure IterOrder (κ : Type) where
  toList : Finset κ → List κ
  coe_toList : ∀ s, (toList s : Multiset κ) = s.val

namespace IterOrder

variable {κ : Type} (o : IterOrder κ)

@[simp] theorem mem_toList {s : Finset κ} {x : κ} : x ∈ o.toList s ↔ x ∈ s := by
  rw [← Multiset.mem_coe, o.coe_toList]; rfl

theorem nodup_toList (s : Finset κ) : (o.toList s).Nodup := by
  rw [← Multiset.coe_nodup, o.coe_toList]; exact s.nodup

theorem toList_perm (o' : IterOrder κ) (s : Finset κ) : (o.toList s).Perm (o'.toList s) := by
  rw [← Multiset.coe_eq_coe, o.coe_toList, o'.coe_toList]

@[simp] theorem length_toList (s : Finset κ) : (o.toList s).length = s.card := by
  rw [← Multiset.coe_card, o.coe_toList]; rfl

@[simp] theorem toList_empty : o.toList ∅ = [] := by
  rw [← List.length_eq_zero, length_toList, Finset.card_empty]

/-- Ascending order: the order an MDBX cursor walks keys and duplicates in. -/
def ascending [LinearOrder κ] : IterOrder κ where
  toList s := Quot.liftOn s.val (fun l => l.insertionSort (· ≤ ·)) fun a b h =>
    List.eq_of_perm_of_sorted
      (((List.perm_insertionSort _ a).trans h).trans (List.perm_insertionSort _ b).symm)
      (List.sorted_insertionSort _ a) (List.sorted_insertionSort _ b)
  coe_toList s := by
    rcases s with ⟨⟨l⟩, _⟩
    exact Quot.sound (List.perm_insertionSort _ l)

example : (ascending : IterOrder Nat).toList {5, 3, 9} = [3, 5, 9] := by decide

/-- Descending order: one more order a `HashSet` may yield. -/
def descending [LinearOrder κ] : IterOrder κ where
  toList s := (ascending.toList s).reverse
  coe_toList s := (Multiset.coe_reverse _).trans (ascending.coe_toList s)

example : (descending : IterOrder Nat).toList {5, 3, 9} = [9, 5, 3] := by decide

end IterOrder

/-! ## Reputation status and sanity-check errors -/

/-- Modelled from the spec: the reputation status of an entity
(`Status` of `silius_primitives`, not in the sources). -/
inductive Status where
  | ok
  | throttled
  | banned
  deriving DecidableEq, Repr

/-- Modelled from the spec: the `ReputationError`s the entity check raises. -/
inductive ReputationError where
  | entityBanned (entity : String) (address : Address)
  | throttledLimit (entity : String) (address : Address)
  deriving DecidableEq, Repr

/-- Modelled from the spec: the `SanityCheckError`s of the checks in
`validate/sanity`; a `ReputationError` converts into one. -/
inductive SanityCheckError where
  | unknownError (message : String)
  | validation (message : String)
  | lowCallGasLimit (callGasLimit callGasLimitExpected : U256)
  | reputation (e : ReputationError)
  deriving DecidableEq, Repr

end Silius
