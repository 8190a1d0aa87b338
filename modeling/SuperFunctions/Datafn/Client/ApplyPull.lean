import SuperFunctions.Datafn.Client.Clone
import SuperFunctions.Datafn.Server.Pull

/-!
# Applying a pull page

`applyPullResultCanonical` as the list of adapter calls it makes, and what a list of adapter
calls does to one record and to one join row.
-/
namespace SuperFunctions.Datafn.Client.ApplyPull

open Lib.Objects Lib.OrderedMap Datafn.Core Storage
open ApplyClone (globalCursorKey maxCursor)
open Server.Pull List Option

/-! ## Adapter calls -/

/-- A write to the storage adapter. A join row is removed by its key, `from:to`. -/
inductive StorageCall where
  | upsertRecord (resource : String) (record : Record)
  | mergeRecord (resource : String) (partialRecord : Record)
  | deleteRecord (resource id : String)
  | upsertJoinRow (relationKey : String) (row : Record)
  | deleteJoinRow (relationKey key : String)

def toJoinRow (row : Record) : JoinRow where
  fromId := templateText (row.lookup "from")
  toId := templateText (row.lookup "to")
  metadata := (row.erase "from").erase "to"

def perform (store : ClientStore) : StorageCall → Option ClientStore
  | .upsertRecord resource record => store.upsertRecord resource record
  | .mergeRecord resource partialRecord =>
    (recordId partialRecord).bind fun id => store.mergeRecord resource id partialRecord
  | .deleteRecord resource id => some (store.deleteRecord resource id)
  | .upsertJoinRow relationKey row => some (store.upsertJoinRow relationKey (toJoinRow row))
  | .deleteJoinRow relationKey key =>
    some (store.setJoinTable relationKey ((store.joinRows relationKey).erase key))

def performAll (store : ClientStore) (calls : List StorageCall) : Option ClientStore :=
  calls.foldlM perform store

/-! ## The page -/

inductive JoinWrite where
  | upsert (row : Record)
  | delete (edge : String × String)

def JoinWrite.call (relationKey : String) : JoinWrite → StorageCall
  | .upsert row => .upsertJoinRow relationKey row
  | .delete edge => .deleteJoinRow relationKey (joinKey edge.1 edge.2)

def joinWrites (delta : JoinDelta) : List JoinWrite :=
  delta.upsert.map .upsert ++ delta.delete.map .delete

/-- Upserts, merges and deletes of every resource, then the deltas of every join store. -/
def pageCalls (page : PullResult) : List StorageCall :=
  page.records.flatten.map (fun e => .upsertRecord e.1 e.2) ++
    page.merged.flatten.map (fun e => .mergeRecord e.1 e.2) ++
    page.deleted.flatten.map (fun e => .deleteRecord e.1 e.2) ++
    (page.joins.mapValues joinWrites).flatten.map fun e => e.2.call e.1

/-- `assertCursorNonRegressing` throws for none of the cursors. -/
def cursorsAdvance (store : ClientStore) (cursors : OMap String Nat) : Bool :=
  cursors.entries.all fun e => (store.cursors e.1).all fun existing => existing ≤ e.2

def moveCursors (store : ClientStore) (cursors : OMap String Nat) : ClientStore :=
  let moved := cursors.entries.foldl (fun s e => s.setCursorMonotonically e.1 e.2) store
  if 0 < maxCursor cursors then
    moved.setCursorMonotonically globalCursorKey (maxCursor cursors)
  else moved

def applyPullResultCanonical (store : ClientStore) (page : PullResult) : Option ClientStore :=
  if cursorsAdvance store page.cursors then
    (performAll store (pageCalls page)).map fun s => moveCursors s page.cursors
  else none

/-- What no cursor changes. -/
theorem moveCursors_kept {α : Type} (read : ClientStore → α)
    (hread : ∀ s resource cursor, read (s.setCursorMonotonically resource cursor) = read s)
    (store : ClientStore) (cursors : OMap String Nat) :
    read (moveCursors store cursors) = read store := by
  have hfold : ∀ (es : List (String × Nat)) (s : ClientStore),
      read (es.foldl (fun s e => s.setCursorMonotonically e.1 e.2) s) = read s := by
    intro es
    induction es with
    | nil => exact fun _ => rfl
    | cons e es ih =>
      intro s
      rw [foldl_cons, ih, hread]
  unfold moveCursors
  split
  · rw [hread, hfold]
  · exact hfold _ _

theorem getRecord_moveCursors (store : ClientStore) (cursors : OMap String Nat)
    (resource id : String) :
    (moveCursors store cursors).getRecord resource id = store.getRecord resource id :=
  moveCursors_kept (·.getRecord resource id) (fun _ _ _ => by simp) store cursors

theorem getJoinRow_moveCursors (store : ClientStore) (cursors : OMap String Nat)
    (relationKey key : String) :
    (moveCursors store cursors).getJoinRow relationKey key = store.getJoinRow relationKey key :=
  moveCursors_kept (·.getJoinRow relationKey key) (fun _ _ _ => by simp) store cursors

/-! ## One record -/

/-- What a call does to one record. -/
inductive RecordEffect where
  | write (record : Record)
  | patch (partialRecord : Record)
  | remove

def RecordEffect.apply (id : String) (old : Option Record) : RecordEffect → Option Record
  | .write record => some record
  | .patch partialRecord => some (mergeInto id old partialRecord)
  | .remove => none

namespace StorageCall

def recordEffect (resource id : String) : StorageCall → Option RecordEffect
  | .upsertRecord r record =>
    if r = resource ∧ recordId record = some id then some (.write record) else none
  | .mergeRecord r partialRecord =>
    if r = resource ∧ recordId partialRecord = some id then some (.patch partialRecord) else none
  | .deleteRecord r key => if r = resource ∧ key = id then some .remove else none
  | .upsertJoinRow _ _ => none
  | .deleteJoinRow _ _ => none

/-- What a call does to the join row under a key: the row it stores, or `none`. -/
def joinEffect (relationKey key : String) : StorageCall → Option (Option JoinRow)
  | .upsertJoinRow j row =>
    if j = relationKey ∧ edgeText row = key then some (some (toJoinRow row)) else none
  | .deleteJoinRow j k => if j = relationKey ∧ k = key then some none else none
  | .upsertRecord _ _ => none
  | .mergeRecord _ _ => none
  | .deleteRecord _ _ => none

/-- The adapter does not throw: the record has an id. -/
def performable : StorageCall → Bool
  | .upsertRecord _ record => (recordId record).isSome
  | .mergeRecord _ partialRecord => (recordId partialRecord).isSome
  | .deleteRecord _ _ => true
  | .upsertJoinRow _ _ => true
  | .deleteJoinRow _ _ => true

end StorageCall

section Perform

variable {store store' : ClientStore}

theorem perform_isSome (store : ClientStore) (call : StorageCall) :
    (perform store call).isSome = call.performable := by
  cases call with
  | upsertRecord resource record => simp [perform, ClientStore.upsertRecord,
      StorageCall.performable]
  | mergeRecord resource partialRecord =>
    cases hid : recordId partialRecord with
    | none => simp [perform, StorageCall.performable, hid]
    | some id =>
      have hne := recordId_ne_empty hid
      simp [perform, StorageCall.performable, hid, ClientStore.mergeRecord, hne]
  | deleteRecord resource id => rfl
  | upsertJoinRow relationKey row => rfl
  | deleteJoinRow relationKey key => rfl

theorem getRecord_perform {call : StorageCall} (h : perform store call = some store')
    (resource id : String) :
    store'.getRecord resource id =
      (call.recordEffect resource id).elim (store.getRecord resource id)
        (RecordEffect.apply id (store.getRecord resource id)) := by
  cases call with
  | upsertRecord r record =>
    rw [ClientStore.getRecord_upsertRecord _ _ h, StorageCall.recordEffect]
    by_cases hr : r = resource ∧ recordId record = some id
    · obtain ⟨rfl, hid⟩ := hr
      simp [hid, RecordEffect.apply]
    · rw [if_neg hr, if_neg fun hc => hr ⟨hc.1.symm, hc.2⟩]
      rfl
  | mergeRecord r partialRecord =>
    obtain ⟨key, hkey, hmerge⟩ := bind_eq_some_iff.mp h
    rw [ClientStore.getRecord_mergeRecord _ _ hmerge, StorageCall.recordEffect, hkey]
    by_cases hr : r = resource ∧ key = id
    · obtain ⟨rfl, rfl⟩ := hr
      simp [RecordEffect.apply]
    · rw [if_neg fun hc => hr ⟨hc.1.symm, hc.2.symm⟩, if_neg]
      · rfl
      · exact fun hc => hr ⟨hc.1, some.inj hc.2⟩
  | deleteRecord r key =>
    cases h
    rw [ClientStore.getRecord_deleteRecord, StorageCall.recordEffect]
    by_cases hr : r = resource ∧ key = id
    · obtain ⟨rfl, rfl⟩ := hr
      simp [RecordEffect.apply]
    · rw [if_neg hr, if_neg fun hc => hr ⟨hc.1.symm, hc.2.symm⟩]
      rfl
  | upsertJoinRow relationKey row | deleteJoinRow relationKey key =>
    cases h
    rfl

theorem getJoinRow_perform {call : StorageCall} (h : perform store call = some store')
    (relationKey key : String) :
    store'.getJoinRow relationKey key =
      (call.joinEffect relationKey key).getD (store.getJoinRow relationKey key) := by
  cases call with
  | upsertRecord r record =>
    obtain ⟨id, -, rfl⟩ := map_eq_some_iff.mp h
    rfl
  | mergeRecord r partialRecord =>
    obtain ⟨id, -, hmerge⟩ := bind_eq_some_iff.mp h
    unfold ClientStore.mergeRecord at hmerge
    split at hmerge
    · cases hmerge
    · cases hmerge
      rfl
  | deleteRecord r key =>
    cases h
    rfl
  | upsertJoinRow j row =>
    cases h
    have hkey : joinKey (toJoinRow row).fromId (toJoinRow row).toId = edgeText row := rfl
    rw [ClientStore.upsertJoinRow, ClientStore.getJoinRow_setJoinTable, StorageCall.joinEffect,
      Assoc.lookup_insert_ite, hkey]
    by_cases hj : relationKey = j
    · subst hj
      by_cases hk : key = edgeText row
      · simp [hk]
      · simp [hk, Ne.symm hk, ClientStore.getJoinRow]
    · simp [hj, Ne.symm hj]
  | deleteJoinRow j k =>
    cases h
    rw [ClientStore.getJoinRow_setJoinTable, StorageCall.joinEffect, Assoc.lookup_erase_ite]
    by_cases hj : relationKey = j
    · subst hj
      by_cases hk : key = k
      · simp [hk]
      · simp [hk, Ne.symm hk, ClientStore.getJoinRow]
    · simp [hj, Ne.symm hj]

theorem performAll_isSome (store : ClientStore) (calls : List StorageCall) :
    (performAll store calls).isSome ↔ ∀ call ∈ calls, call.performable = true := by
  unfold performAll
  induction calls generalizing store with
  | nil => simp
  | cons call calls ih =>
    rw [foldlM_cons, forall_mem_cons, ← perform_isSome store call]
    cases perform store call with
    | none => simp
    | some s => simpa using ih s

theorem getRecord_performAll {calls : List StorageCall}
    (h : performAll store calls = some store') (resource id : String) :
    store'.getRecord resource id =
      (calls.filterMap (StorageCall.recordEffect resource id)).foldl (RecordEffect.apply id)
        (store.getRecord resource id) := by
  unfold performAll at h
  induction calls generalizing store with
  | nil =>
    cases h
    rfl
  | cons call calls ih =>
    obtain ⟨s, hs, hrest⟩ := bind_eq_some_iff.mp h
    rw [ih hrest, getRecord_perform hs, filterMap_cons]
    cases call.recordEffect resource id <;> rfl

theorem getJoinRow_performAll {calls : List StorageCall}
    (h : performAll store calls = some store') (relationKey key : String) :
    store'.getJoinRow relationKey key =
      ((calls.filterMap (StorageCall.joinEffect relationKey key)).getLast?).getD
        (store.getJoinRow relationKey key) := by
  unfold performAll at h
  induction calls generalizing store with
  | nil =>
    cases h
    rfl
  | cons call calls ih =>
    obtain ⟨s, hs, hrest⟩ := bind_eq_some_iff.mp h
    rw [ih hrest, getJoinRow_perform hs, filterMap_cons]
    cases call.joinEffect relationKey key with
    | none => rfl
    | some effect =>
      cases htail : calls.filterMap (StorageCall.joinEffect relationKey key) with
      | nil => rfl
      | cons e es => simp [getLast?_cons]

end Perform

end SuperFunctions.Datafn.Client.ApplyPull

/-!
# Stored cursors

How each kind of write moves the stored cursors. The global cursor is apart: no resource uses it.
-/
namespace SuperFunctions.Datafn.Client.Cursors

open Lib.OrderedMap Datafn.Core Storage ApplyClone ApplyPull Server.Clone Server.Pull Option List

variable {store store' : ClientStore} {resource : String}

theorem cursors_setCursorMonotonically (store : ClientStore) (key resource : String)
    (cursor n : Nat) (h : (store.setCursorMonotonically key cursor).cursors resource = some n) :
    store.cursors resource = some n ∨ resource = key ∧ n = cursor := by
  unfold ClientStore.setCursorMonotonically at h
  have hset : (store.setCursor key cursor).cursors resource =
      if resource = key then some cursor else store.cursors resource := by
    simp [ClientStore.setCursor, Function.update_apply]
  have hmoved : (store.setCursor key cursor).cursors resource = some n →
      store.cursors resource = some n ∨ resource = key ∧ n = cursor := by
    intro hn
    rw [hset] at hn
    split at hn
    case isTrue heq => exact .inr ⟨heq, (some.inj hn).symm⟩
    case isFalse => exact .inl hn
  split at h
  · exact hmoved h
  · split at h
    · exact hmoved h
    · exact .inl h

theorem cursors_setCursorMonotonically_of_ne {key : String} (h : resource ≠ key) (cursor : Nat) :
    (store.setCursorMonotonically key cursor).cursors resource = store.cursors resource := by
  unfold ClientStore.setCursorMonotonically
  have hset : (store.setCursor key cursor).cursors resource = store.cursors resource := by
    simp [ClientStore.setCursor, h]
  split
  · exact hset
  · split
    · exact hset
    · rfl

variable {n : Nat} {entries : List (String × Nat)}

theorem cursors_foldl_setCursorMonotonically
    (h : (entries.foldl (fun s e => s.setCursorMonotonically e.1 e.2) store).cursors resource =
      some n) : store.cursors resource = some n ∨ (resource, n) ∈ entries := by
  induction entries generalizing store with
  | nil => exact .inl h
  | cons e es ih =>
    rcases ih h with hmid | hmem
    · rcases cursors_setCursorMonotonically _ _ _ _ _ hmid with hold | ⟨rfl, rfl⟩
      · exact .inl hold
      · exact .inr mem_cons_self
    · exact .inr (mem_cons_of_mem _ hmem)

theorem le_cursors_setCursorMonotonically (h : store.cursors resource = some n) (key : String)
    (cursor : Nat) :
    ∃ m, (store.setCursorMonotonically key cursor).cursors resource = some m ∧ n ≤ m := by
  by_cases hkey : resource = key
  · subst hkey
    unfold ClientStore.setCursorMonotonically
    simp only [h]
    split
    case isTrue hlt => exact ⟨cursor, by simp [ClientStore.setCursor], Nat.le_of_lt hlt⟩
    case isFalse => exact ⟨n, h, le_rfl⟩
  · exact ⟨n, (cursors_setCursorMonotonically_of_ne hkey cursor).trans h, le_rfl⟩

theorem setCursorMonotonically_reaches (store : ClientStore) (resource : String) (cursor : Nat) :
    ∃ m, (store.setCursorMonotonically resource cursor).cursors resource = some m ∧ cursor ≤ m := by
  unfold ClientStore.setCursorMonotonically
  cases h : store.cursors resource with
  | none => exact ⟨cursor, by simp [ClientStore.setCursor], le_rfl⟩
  | some existing =>
    simp only
    split
    · exact ⟨cursor, by simp [ClientStore.setCursor], le_rfl⟩
    case isFalse hge => exact ⟨existing, h, Nat.le_of_not_lt hge⟩

variable {cursor : Nat}

theorem foldl_setCursorMonotonically_reaches (h : (resource, cursor) ∈ entries) :
    ∃ m, (entries.foldl (fun s e => s.setCursorMonotonically e.1 e.2) store).cursors resource =
      some m ∧ cursor ≤ m := by
  have hkeeps : ∀ (es : List (String × Nat)) (s : ClientStore) (n : Nat),
      s.cursors resource = some n →
      ∃ m, (es.foldl (fun s e => s.setCursorMonotonically e.1 e.2) s).cursors resource =
        some m ∧ n ≤ m := by
    intro es
    induction es with
    | nil => exact fun s n hn => ⟨n, hn, le_rfl⟩
    | cons e es ih =>
      intro s n hn
      obtain ⟨mid, hmid, hle⟩ := le_cursors_setCursorMonotonically hn e.1 e.2
      obtain ⟨m, hm, hle'⟩ := ih _ mid hmid
      exact ⟨m, hm, hle.trans hle'⟩
  induction entries generalizing store with
  | nil => cases h
  | cons e es ih =>
    rcases mem_cons.mp h with rfl | hmem
    · obtain ⟨mid, hmid, hle⟩ := setCursorMonotonically_reaches store resource cursor
      obtain ⟨m, hm, hle'⟩ := hkeeps es _ mid hmid
      exact ⟨m, hm, hle.trans hle'⟩
    · exact ih hmem

variable {cursors : OMap String Nat}

theorem cursors_moveCursors (hglobal : resource ≠ globalCursorKey)
    (h : (moveCursors store cursors).cursors resource = some n) :
    store.cursors resource = some n ∨ cursors.get resource = some n := by
  rw [← OMap.mem_entries_iff_get]
  unfold moveCursors at h
  split at h
  · rw [cursors_setCursorMonotonically_of_ne hglobal] at h
    exact cursors_foldl_setCursorMonotonically h
  · exact cursors_foldl_setCursorMonotonically h

theorem cursors_perform {call : StorageCall} (h : perform store call = some store') :
    store'.cursors = store.cursors := by
  cases call with
  | upsertRecord r record =>
    obtain ⟨id, -, rfl⟩ := map_eq_some_iff.mp h
    rfl
  | mergeRecord r partialRecord =>
    obtain ⟨id, -, hmerge⟩ := bind_eq_some_iff.mp h
    unfold ClientStore.mergeRecord at hmerge
    split at hmerge
    · cases hmerge
    · cases hmerge
      rfl
  | deleteRecord r id | upsertJoinRow j row | deleteJoinRow j key =>
    cases h
    rfl

theorem cursors_performAll {calls : List StorageCall} (h : performAll store calls = some store') :
    store'.cursors = store.cursors :=
  foldlM_kept _ (fun _ _ _ => cursors_perform) h

theorem cursors_applyPull {page : PullResult} (hglobal : resource ≠ globalCursorKey)
    (happly : applyPullResultCanonical store page = some store')
    (h : store'.cursors resource = some n) :
    store.cursors resource = some n ∨ page.cursors.get resource = some n := by
  unfold applyPullResultCanonical at happly
  split at happly
  · obtain ⟨filled, hfilled, rfl⟩ := map_eq_some_iff.mp happly
    rcases cursors_moveCursors hglobal h with hold | hpage
    · rw [cursors_performAll hfilled] at hold
      exact .inl hold
    · exact .inr hpage
  · cases happly

theorem cursors_applyPull_get {page : PullResult} (hglobal : resource ≠ globalCursorKey)
    (happly : applyPullResultCanonical store page = some store')
    (h : page.cursors.get resource = some cursor) : store'.cursors resource = some cursor := by
  have hentry := (page.cursors.mem_entries_iff_get resource cursor).mpr h
  have hreached : ∃ m, store'.cursors resource = some m ∧ cursor ≤ m := by
    unfold applyPullResultCanonical at happly
    split at happly
    · obtain ⟨filled, -, rfl⟩ := map_eq_some_iff.mp happly
      unfold moveCursors
      split
      · rw [cursors_setCursorMonotonically_of_ne hglobal]
        exact foldl_setCursorMonotonically_reaches hentry
      · exact foldl_setCursorMonotonically_reaches hentry
    · cases happly
  obtain ⟨m, hm, hle⟩ := hreached
  have hadvance : cursorsAdvance store page.cursors = true := by
    by_contra hnot
    unfold applyPullResultCanonical at happly
    rw [if_neg hnot] at happly
    cases happly
  rcases cursors_applyPull hglobal happly hm with hold | hpage
  · have hstored := all_eq_true.mp hadvance _ hentry
    simp only [hold, all_some, decide_eq_true_eq] at hstored
    rw [hm, Nat.le_antisymm hstored hle]
  · rw [hm, ← hpage, h]

variable {records : List Record}

theorem cursors_upsertRecords (h : upsertRecords store resource records = some store') :
    store'.cursors = store.cursors :=
  foldlM_kept _ (upsertRecord_kept ClientStore.cursors fun _ _ => rfl) h

theorem cursors_setHydrationState {state : HydrationState}
    (h : store.setHydrationState resource state = some store') :
    store'.cursors = store.cursors := by
  unfold ClientStore.setHydrationState at h
  split at h
  · cases h
    rfl
  · cases h

theorem cursors_upsertJoinRows (store : ClientStore) (joins : OMap String (List JoinRow)) :
    (upsertJoinRows store joins).cursors = store.cursors := by
  have hrows : ∀ (key : String) (rows : List JoinRow) (s : ClientStore),
      (rows.foldl (fun s row => s.upsertJoinRow key row) s).cursors = s.cursors := by
    intro key rows
    induction rows with
    | nil => exact fun _ => rfl
    | cons row rows ih => exact fun s => (ih _).trans rfl
  unfold upsertJoinRows
  induction joins.entries generalizing store with
  | nil => rfl
  | cons e es ih => rw [foldl_cons, ih, hrows]

theorem cursors_applyCloneTable {table : String} (hcursor : cursors.get table = some cursor)
    (h : applyCloneTable cursors store (table, records) = some store') :
    store'.cursors = Function.update store.cursors table (some cursor) := by
  obtain ⟨hydrating, hhydrating, h⟩ := bind_eq_some_iff.mp h
  obtain ⟨filled, hfilled, h⟩ := bind_eq_some_iff.mp h
  simp only [hcursor] at h
  rw [cursors_setHydrationState h]
  show Function.update filled.cursors table (some cursor) = _
  rw [cursors_upsertRecords hfilled, cursors_setHydrationState hhydrating]

theorem cursors_applyClone {result : CloneResult} {table : String} (hok : result.ok = true)
    (hdata : result.data = OMap.empty.set table records)
    (hcursor : result.cursors.get table = some cursor)
    (h : applyCloneResult store result = some store') (hglobal : resource ≠ globalCursorKey) :
    store'.cursors resource = if resource = table then some cursor else store.cursors resource := by
  unfold applyCloneResult at h
  rw [if_pos hok] at h
  obtain ⟨filled, hfilled, h⟩ := bind_eq_some_iff.mp h
  cases h
  rw [cursors_setCursorMonotonically_of_ne hglobal, cursors_upsertJoinRows]
  have htable : applyCloneTable result.cursors store (table, records) = some filled := by
    rw [hdata] at hfilled
    simpa [OMap.set, OMap.empty, setEntries] using hfilled
  rw [cursors_applyCloneTable hcursor htable, Function.update_apply]

end SuperFunctions.Datafn.Client.Cursors
