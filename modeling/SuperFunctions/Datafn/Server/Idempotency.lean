import SuperFunctions.Datafn.Core.Value
import SuperFunctions.Lib.OrderedMap

/-!
# The idempotency store

`DbIdempotencyStore`: the result of each mutation under its namespace, client and mutation id.
A row's primary key is the three joined by colons, while it is looked up by the three columns.
-/
namespace SuperFunctions.Datafn.Server.Idempotency

open Datafn.Core List

structure MutationError where
  code : String
  message : String
  path : String
  retryable : Bool

/-- A result that is not ok names its errors. -/
structure MutationResult where
  ok : Bool
  mutationId : String
  affectedIds : List String
  errors : List MutationError
  deduped : Bool
  reported : ok = false → errors ≠ []

theorem reported_ok : true = false → ([] : List MutationError) ≠ [] := by
  simp

def isRetryableMutationResult (result : Option MutationResult) : Bool :=
  match result with
  | some result =>
    !result.ok && result.errors.any fun error =>
      error.retryable ||
        error.code ∈ ["INTERNAL", "MUTATION_FAILED", "FORBIDDEN", "NOT_FOUND"] ||
        (error.code == "CONFLICT" && error.path == "id")
  | none => false

variable {result : MutationResult}

theorem isRetryableMutationResult_of_ok (h : result.ok = true) :
    isRetryableMutationResult (some result) = false := by
  simp [isRetryableMutationResult, h]

/-- The namespace of the server's one store, whatever namespace a request is for. -/
def storeNamespace : String := "datafn"

/-- What a row is looked up by. -/
structure MutationKey where
  ns : String
  clientId : String
  mutationId : String
  deriving DecidableEq

def MutationKey.rowId (key : MutationKey) : String :=
  key.ns ++ ":" ++ key.clientId ++ ":" ++ key.mutationId

/-- `!field` holds of a missing and of an empty text. -/
def requiredText (field : Option String) : Option String := field.filter fun text => text ≠ ""

/-- The key of a mutation that names its client and itself. -/
def mutationKey (mutation : Mutation) : Option MutationKey :=
  match requiredText mutation.clientId, requiredText mutation.mutationId with
  | some clientId, some mutationId => some ⟨storeNamespace, clientId, mutationId⟩
  | _, _ => none

/-- A row of `__datafn_idempotency`; `result` is what its JSON text says. -/
structure IdempotencyRow where
  id : String
  key : MutationKey
  result : MutationResult

def findOne (rows : List IdempotencyRow) (key : MutationKey) : Option IdempotencyRow :=
  rows.find? fun row => row.key = key

def get (rows : List IdempotencyRow) (key : MutationKey) : Option MutationResult :=
  (findOne rows key).map IdempotencyRow.result

/-- What `set` writes once it has looked for the row of the key. A row with the same primary key
makes the insertion fail, and that error is swallowed. -/
def write (rows : List IdempotencyRow) (key : MutationKey) (existing : Option IdempotencyRow)
    (result : MutationResult) : List IdempotencyRow :=
  match existing with
  | some row =>
    if isRetryableMutationResult (some row.result) then
      rows.map fun row => if row.key = key then { row with result := result } else row
    else rows
  | none =>
    if rows.any fun row => row.id = key.rowId then rows
    else rows ++ [⟨key.rowId, key, result⟩]

/-- The insertion of the row of the key does not collide with the row of another key. -/
def RowIdFree (rows : List IdempotencyRow) (key : MutationKey) : Prop :=
  ∀ row ∈ rows, row.id = key.rowId → row.key = key

instance (rows : List IdempotencyRow) (key : MutationKey) : Decidable (RowIdFree rows key) :=
  inferInstanceAs (Decidable (∀ row ∈ rows, row.id = key.rowId → row.key = key))

/-- A stored result of a mutation that took effect. -/
def Lasting (rows : List IdempotencyRow) (key : MutationKey) : Prop :=
  ∃ result, get rows key = some result ∧ result.ok = true

/-- The key has no result that answers a lookup. -/
def Unanswered (rows : List IdempotencyRow) (key : MutationKey) : Prop :=
  ∀ row, findOne rows key = some row → isRetryableMutationResult (some row.result) = true

variable {rows : List IdempotencyRow} {key : MutationKey}

theorem Unanswered.not_lasting (h : Unanswered rows key) : ¬ Lasting rows key := by
  rintro ⟨result, hget, hok⟩
  rw [get, Option.map_eq_some_iff] at hget
  obtain ⟨row, hrow, rfl⟩ := hget
  have hretry := h row hrow
  rw [isRetryableMutationResult_of_ok hok] at hretry
  cases hretry

theorem findOne_map_update (rows : List IdempotencyRow) (key : MutationKey)
    (result : MutationResult) (other : MutationKey) :
    findOne (rows.map fun row => if row.key = key then { row with result := result } else row)
        other =
      if other = key then (findOne rows key).map fun row => { row with result := result }
      else findOne rows other := by
  induction rows with
  | nil => simp [findOne]
  | cons row rows ih =>
    unfold findOne at ih ⊢
    rw [map_cons, find?_cons, find?_cons, find?_cons, ih]
    by_cases hrow : row.key = key
    · by_cases hother : other = key
      · simp [hrow, hother]
      · have hne : ¬ key = other := fun h => hother h.symm
        simp [hrow, hother, hne]
    · by_cases hother : other = key
      · simp [hrow, hother]
      · simp [hrow, hother]

theorem findOne_write_of_ne {other : MutationKey} {existing : Option IdempotencyRow}
    (h : other ≠ key) : findOne (write rows key existing result) other = findOne rows other := by
  cases existing with
  | some row =>
    unfold write
    by_cases hretry : isRetryableMutationResult (some row.result)
    · simp only [hretry, if_true]
      rw [findOne_map_update, if_neg h]
    · simp only [hretry, if_false, Bool.false_eq_true]
  | none =>
    unfold write
    by_cases htaken : rows.any fun row => row.id = key.rowId
    · simp only [htaken, if_true]
    · simp only [htaken, if_false, Bool.false_eq_true]
      have hne : ¬ key = other := fun hk => h hk.symm
      simp [findOne, find?_append, hne]

theorem get_write_self (hfree : RowIdFree rows key) (hlasting : ∀ row, findOne rows key = some row →
      isRetryableMutationResult (some row.result) = true) :
    get (write rows key (findOne rows key) result) key = some result := by
  unfold get
  cases hfound : findOne rows key with
  | some row =>
    have hretry := hlasting row hfound
    simp only [write, hretry, if_true]
    rw [findOne_map_update, if_pos rfl, hfound]
    rfl
  | none =>
    have hnone : ∀ row ∈ rows, row.key ≠ key := by
      intro row hrow
      have h := find?_eq_none.mp hfound row hrow
      exact fun hk => h (decide_eq_true hk)
    have htaken : rows.any (fun row => row.id = key.rowId) = false := by
      rw [any_eq_false]
      intro row hrow hid
      exact hnone row hrow (hfree row hrow (of_decide_eq_true hid))
    have hrest : rows.find? (fun row => row.key = key) = none := hfound
    simp [write, htaken, findOne, find?_append, hrest]

end SuperFunctions.Datafn.Server.Idempotency

/-!
# Mutations of a plain resource

What a mutation does to a resource without capabilities, relations or required fields, for the
operations that write a record as it is given.
-/
namespace SuperFunctions.Datafn.Server.PlainResource

open Lib.Objects Lib.OrderedMap Datafn.Core

/-- An operation that is refused. -/
structure OpFailure where
  code : String
  message : String
  path : String

/-- The rows by namespace, resource and id. -/
abbrev Tables := OMap (String × String × String) Record

def plainMutationOp (ns : String) (mutation : Mutation) (db : Tables) : Except OpFailure Tables :=
  let id := mutation.id.getD ""
  let row := (ns, mutation.resource, id)
  let record := mutation.record.getD ∅
  match mutation.operation with
  | .merge | .replace =>
    match db.get row with
    | some existing => .ok (db.set row (existing.spread record))
    | none => .ok (db.set row (Assoc.spread (Finmap.singleton "id" (.str id)) record))
  | .delete => .ok (db.delete row)
  | _ => .error ⟨"DFQL_UNSUPPORTED", "Unsupported DFQL feature", "operation"⟩

end SuperFunctions.Datafn.Server.PlainResource
