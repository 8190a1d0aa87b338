import SuperFunctions.Datafn.Core.Value

/-!
# The client's local store

The memory storage adapter: records by resource and id, join rows by join store and edge,
a cursor and a hydration state for each resource. An operation that throws returns `none`.
-/
namespace SuperFunctions.Datafn.Client.Storage

open Lib.Objects Datafn.Core

inductive HydrationState where
  | notStarted
  | hydrating
  | ready
  deriving DecidableEq

/-- `${row.from}:${row.to}` -/
def joinKey (fromId toId : String) : String := fromId ++ ":" ++ toId

structure ClientStore where
  records : String → Assoc String Record
  joinRows : String → Assoc String JoinRow
  cursors : String → Option Nat
  hydration : String → HydrationState

def emptyStore : ClientStore := ⟨fun _ => ∅, fun _ => ∅, fun _ => none, fun _ => .notStarted⟩

/-- `record.id`, when it is a non-empty string. -/
def recordId (record : Record) : Option String :=
  match record.lookup "id" with
  | some (.str id) => if id = "" then none else some id
  | _ => none

theorem recordId_ne_empty {record : Record} {id : String} (h : recordId record = some id) :
    id ≠ "" := by
  unfold recordId at h
  split at h
  · split at h
    · cases h
    case isFalse hne => exact Option.some.inj h ▸ hne
  · cases h

/-- One field of `deepMergeOneLevel`: two plain objects are spread, anything else is replaced. -/
def mergeValue (old : Option Value) (new : Value) : Value :=
  match new, old with
  | .object source, some (.object target) => .object (Assoc.spread target source)
  | _, _ => new

def deepMergeOneLevel (target source : Record) : Record :=
  Assoc.spread target (Assoc.mapEntries (fun k v => mergeValue (target.lookup k) v) source)

theorem lookup_deepMergeOneLevel (target source : Record) (field : String) :
    (deepMergeOneLevel target source).lookup field =
      match source.lookup field with
      | none => target.lookup field
      | some value => some (mergeValue (target.lookup field) value) := by
  unfold deepMergeOneLevel
  rw [Assoc.lookup_spread, Assoc.lookup_mapEntries]
  cases source.lookup field <;> rfl

/-- What `mergeRecord` makes of the stored record. -/
def mergeInto (id : String) (existing : Option Record) (partialRecord : Record) : Record :=
  let merged := match existing with
    | some record => deepMergeOneLevel record partialRecord
    | none => partialRecord
  merged.insert "id" (.str id)

namespace ClientStore

def setTable (store : ClientStore) (resource : String) (table : Assoc String Record) :
    ClientStore :=
  { store with records := Function.update store.records resource table }

def getRecord (store : ClientStore) (resource id : String) : Option Record :=
  (store.records resource).lookup id

def countRecords (store : ClientStore) (resource : String) : Nat :=
  (store.records resource).keys.card

def upsertRecord (store : ClientStore) (resource : String) (record : Record) : Option ClientStore :=
  (recordId record).map fun id =>
    store.setTable resource ((store.records resource).insert id record)

def deleteRecord (store : ClientStore) (resource id : String) : ClientStore :=
  store.setTable resource ((store.records resource).erase id)

/-- A missing record is created from the partial one. -/
def mergeRecord (store : ClientStore) (resource id : String) (partialRecord : Record) :
    Option ClientStore :=
  if id = "" then none
  else
    some (store.setTable resource ((store.records resource).insert id
      (mergeInto id (store.getRecord resource id) partialRecord)))

def setJoinTable (store : ClientStore) (relationKey : String) (table : Assoc String JoinRow) :
    ClientStore :=
  { store with joinRows := Function.update store.joinRows relationKey table }

def upsertJoinRow (store : ClientStore) (relationKey : String) (row : JoinRow) : ClientStore :=
  store.setJoinTable relationKey
    ((store.joinRows relationKey).insert (joinKey row.fromId row.toId) row)

def deleteJoinRow (store : ClientStore) (relationKey fromId toId : String) : ClientStore :=
  store.setJoinTable relationKey ((store.joinRows relationKey).erase (joinKey fromId toId))

def getJoinRow (store : ClientStore) (relationKey key : String) : Option JoinRow :=
  (store.joinRows relationKey).lookup key

def countJoinRows (store : ClientStore) (relationKey : String) : Nat :=
  (store.joinRows relationKey).keys.card

def setCursor (store : ClientStore) (resource : String) (cursor : Nat) : ClientStore :=
  { store with cursors := Function.update store.cursors resource (some cursor) }

/-- Only a greater cursor replaces the stored one. -/
def setCursorMonotonically (store : ClientStore) (resource : String) (cursor : Nat) :
    ClientStore :=
  match store.cursors resource with
  | none => store.setCursor resource cursor
  | some existing => if existing < cursor then store.setCursor resource cursor else store

/-- `validateTransition` -/
def validTransition : HydrationState → HydrationState → Bool
  | .notStarted, .ready => false
  | .hydrating, .notStarted => false
  | .ready, .notStarted => false
  | _, _ => true

def setHydrationState (store : ClientStore) (resource : String) (state : HydrationState) :
    Option ClientStore :=
  if validTransition (store.hydration resource) state then
    some { store with hydration := Function.update store.hydration resource state }
  else none

/-! ## What each operation leaves unchanged -/

section Frame

variable (store : ClientStore) (resource relationKey : String)

@[simp] theorem getRecord_setTable (r id : String) (table : Assoc String Record) :
    (store.setTable resource table).getRecord r id =
      if r = resource then table.lookup id else store.getRecord r id := by
  unfold getRecord setTable
  by_cases h : r = resource
  · subst h
    simp
  · simp [h]

@[simp] theorem getRecord_setCursorMonotonically (cursor : Nat) (r id : String) :
    (store.setCursorMonotonically resource cursor).getRecord r id = store.getRecord r id := by
  unfold setCursorMonotonically
  split
  · rfl
  · split <;> rfl

@[simp] theorem hydration_setCursorMonotonically (cursor : Nat) :
    (store.setCursorMonotonically resource cursor).hydration = store.hydration := by
  unfold setCursorMonotonically
  split
  · rfl
  · split <;> rfl

theorem getRecord_upsertRecord {store' : ClientStore} {record : Record}
    (h : store.upsertRecord resource record = some store') (r id : String) :
    store'.getRecord r id =
      if r = resource ∧ recordId record = some id then some record
      else store.getRecord r id := by
  obtain ⟨key, hkey, rfl⟩ := Option.map_eq_some_iff.mp h
  rw [getRecord_setTable, hkey]
  by_cases hr : r = resource
  · subst hr
    simp only [true_and, if_true, Option.some.injEq, Assoc.lookup_insert_ite, getRecord,
      eq_comm (a := key)]
  · simp [hr]

theorem getRecord_deleteRecord (key r id : String) :
    (store.deleteRecord resource key).getRecord r id =
      if r = resource ∧ id = key then none else store.getRecord r id := by
  unfold deleteRecord
  rw [getRecord_setTable]
  by_cases hr : r = resource
  · subst hr
    simp only [true_and, if_true, Assoc.lookup_erase_ite, getRecord]
  · simp [hr]

theorem getRecord_mergeRecord {store' : ClientStore} {key : String} {partialRecord : Record}
    (h : store.mergeRecord resource key partialRecord = some store') (r id : String) :
    store'.getRecord r id =
      if r = resource ∧ id = key then some (mergeInto key (store.getRecord r id) partialRecord)
      else store.getRecord r id := by
  unfold mergeRecord at h
  split at h
  · cases h
  cases h
  rw [getRecord_setTable]
  by_cases hr : r = resource
  · subst hr
    simp only [true_and, if_true, Assoc.lookup_insert_ite, getRecord]
    split
    case isTrue hid => rw [hid]
    case isFalse => rfl
  · simp [hr]

@[simp] theorem getJoinRow_setCursorMonotonically (cursor : Nat) (j key : String) :
    (store.setCursorMonotonically resource cursor).getJoinRow j key = store.getJoinRow j key := by
  unfold setCursorMonotonically
  split
  · rfl
  · split <;> rfl

@[simp] theorem getJoinRow_setJoinTable (j key : String) (table : Assoc String JoinRow) :
    (store.setJoinTable relationKey table).getJoinRow j key =
      if j = relationKey then table.lookup key else store.getJoinRow j key := by
  unfold getJoinRow setJoinTable
  by_cases h : j = relationKey
  · subst h
    simp
  · simp [h]

end Frame

end ClientStore

end SuperFunctions.Datafn.Client.Storage
