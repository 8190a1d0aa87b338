import SuperFunctions.Datafn.Client.Storage
import SuperFunctions.Datafn.Server.Clone

/-!
# Applying a clone answer

`applyCloneResult` writes the records of each table, overwrites its cursor and marks it ready.
-/
namespace SuperFunctions.Datafn.Client.ApplyClone

open Lib.OrderedMap Datafn.Core Storage Server.Clone List Option Function

def globalCursorKey : String := "__global_cursor__"

def upsertRecords (store : ClientStore) (resource : String) (records : List Record) :
    Option ClientStore :=
  records.foldlM (fun s record => s.upsertRecord resource record) store

def applyCloneTable (cursors : OMap String Nat) (store : ClientStore)
    (table : String × List Record) : Option ClientStore := do
  let hydrating ← store.setHydrationState table.1 .hydrating
  let filled ← upsertRecords hydrating table.1 table.2
  let moved := match cursors.get table.1 with
    | none => filled
    | some cursor => filled.setCursor table.1 cursor
  moved.setHydrationState table.1 .ready

def upsertJoinRows (store : ClientStore) (joins : OMap String (List JoinRow)) : ClientStore :=
  joins.entries.foldl (fun s e => e.2.foldl (fun s row => s.upsertJoinRow e.1 row) s) store

def maxCursor (cursors : OMap String Nat) : Nat := cursors.values.foldl max 0

def applyCloneResult (store : ClientStore) (result : CloneResult) : Option ClientStore :=
  if result.ok then do
    let filled ← result.data.entries.foldlM (applyCloneTable result.cursors) store
    let joined := upsertJoinRows filled result.joins
    some (joined.setCursorMonotonically globalCursorKey (maxCursor result.cursors))
  else some store

/-! ## The records afterwards -/

/-- The last of the records with the given id. -/
def lastWrite (records : List Record) (id : String) : Option Record :=
  records.reverse.find? fun record => recordId record = some id

theorem lastWrite_cons (record : Record) (records : List Record) (id : String) :
    lastWrite (record :: records) id =
      (lastWrite records id).or (if recordId record = some id then some record else none) := by
  unfold lastWrite
  congr 1
  by_cases h : recordId record = some id <;> simp [h]

variable {records : List Record}

theorem lastWrite_eq_some {record : Record} {id : String} (hmem : record ∈ records)
    (hid : recordId record = some id) (huniq : ∀ r ∈ records, recordId r = some id → r = record) :
    lastWrite records id = some record := by
  unfold lastWrite
  have hfound : (records.reverse.find? fun r => recordId r = some id).isSome :=
    find?_isSome.mpr ⟨record, mem_reverse.mpr hmem, decide_eq_true hid⟩
  obtain ⟨r, hr⟩ := isSome_iff_exists.mp hfound
  have hprop := find?_some hr
  have hin := mem_reverse.mp (mem_of_find?_eq_some hr)
  rw [hr, huniq r hin (by simpa using hprop)]

theorem lastWrite_eq_none {id : String} (h : ∀ r ∈ records, recordId r ≠ some id) :
    lastWrite records id = none := by
  refine find?_eq_none.mpr fun r hr => ?_
  simpa using h r (mem_reverse.mp hr)

section Spec

variable {store store' : ClientStore} {resource : String}

theorem getRecord_upsertRecords (h : upsertRecords store resource records = some store')
    (r id : String) :
    store'.getRecord r id =
      if r = resource then (lastWrite records id).or (store.getRecord r id)
      else store.getRecord r id := by
  unfold upsertRecords at h
  induction records generalizing store with
  | nil =>
    cases h
    simp [lastWrite]
  | cons record records ih =>
    obtain ⟨mid, hmid, hrest⟩ := bind_eq_some_iff.mp h
    rw [ih hrest, ClientStore.getRecord_upsertRecord store resource hmid, lastWrite_cons]
    by_cases hr : r = resource
    · by_cases hid : recordId record = some id <;> simp [hr, hid]
    · simp [hr]

/-- What each of several calls keeps, all of them keep. -/
theorem foldlM_kept {α β γ : Type*} {f : β → α → Option β} (g : β → γ)
    (hstep : ∀ b a b', f b a = some b' → g b' = g b) {l : List α} {b b' : β}
    (h : l.foldlM f b = some b') : g b' = g b := by
  induction l generalizing b with
  | nil =>
    cases h
    rfl
  | cons a l ih =>
    obtain ⟨mid, hmid, hrest⟩ := bind_eq_some_iff.mp h
    rw [ih hrest, hstep b a mid hmid]

theorem upsertRecord_kept {γ : Type*} (g : ClientStore → γ)
    (hg : ∀ s table, g (s.setTable resource table) = g s) (s : ClientStore) (record : Record)
    (s' : ClientStore) (h : s.upsertRecord resource record = some s') : g s' = g s := by
  obtain ⟨key, -, rfl⟩ := map_eq_some_iff.mp h
  exact hg _ _

section

variable (h : upsertRecords store resource records = some store')
include h

theorem upsertRecords_hydration : store'.hydration = store.hydration :=
  foldlM_kept _ (upsertRecord_kept ClientStore.hydration fun _ _ => rfl) h

theorem upsertRecords_recordIds : ∀ r ∈ records, (recordId r).isSome := by
  unfold upsertRecords at h
  induction records generalizing store with
  | nil => simp
  | cons record records ih =>
    obtain ⟨mid, hmid, hrest⟩ := bind_eq_some_iff.mp h
    obtain ⟨key, hkey, -⟩ := map_eq_some_iff.mp hmid
    intro r hr
    rcases mem_cons.mp hr with rfl | hr
    · rw [hkey]
      rfl
    · exact ih hrest r hr

end

theorem setHydrationState_some {state : HydrationState}
    (h : store.setHydrationState resource state = some store') :
    store'.records = store.records ∧
      store'.hydration = Function.update store.hydration resource state := by
  unfold ClientStore.setHydrationState at h
  split at h
  · cases h
    exact ⟨rfl, rfl⟩
  · cases h

variable {cursors : OMap String Nat} {table : String × List Record}

theorem applyCloneTable_spec (h : applyCloneTable cursors store table = some store') :
    (∀ r id, store'.getRecord r id =
      if r = table.1 then (lastWrite table.2 id).or (store.getRecord r id)
      else store.getRecord r id) ∧
    store'.hydration = Function.update store.hydration table.1 .ready := by
  obtain ⟨hydrating, hhyd, h⟩ := bind_eq_some_iff.mp h
  obtain ⟨filled, hfill, h⟩ := bind_eq_some_iff.mp h
  obtain ⟨hrec₁, hhyd₁⟩ := setHydrationState_some hhyd
  have hhyd₂ := upsertRecords_hydration hfill
  have hmoved : ∀ moved : ClientStore, moved.records = filled.records →
      moved.hydration = filled.hydration → moved.setHydrationState table.1 .ready = some store' →
      (∀ r id, store'.getRecord r id = filled.getRecord r id) ∧
        store'.hydration = Function.update store.hydration table.1 .ready := by
    intro moved hr hh hset
    obtain ⟨hrec₃, hhyd₃⟩ := setHydrationState_some hset
    refine ⟨fun r id => ?_, ?_⟩
    · unfold ClientStore.getRecord
      rw [hrec₃, hr]
    · rw [hhyd₃, hh, hhyd₂, hhyd₁, update_idem]
  have hfinal : (∀ r id, store'.getRecord r id = filled.getRecord r id) ∧
      store'.hydration = Function.update store.hydration table.1 .ready := by
    cases hcur : cursors.get table.1 with
    | none =>
      rw [hcur] at h
      exact hmoved filled rfl rfl h
    | some cursor =>
      rw [hcur] at h
      exact hmoved (filled.setCursor table.1 cursor) rfl rfl h
  refine ⟨fun r id => ?_, hfinal.2⟩
  rw [hfinal.1, getRecord_upsertRecords hfill]
  unfold ClientStore.getRecord
  rw [hrec₁]

theorem foldlM_applyCloneTable_spec {tables : List (String × List Record)}
    (hnodup : (tables.map Prod.fst).Nodup)
    (h : tables.foldlM (applyCloneTable cursors) store = some store') :
    (∀ r id, store'.getRecord r id =
      (((tables.find? fun e => e.1 = r).bind fun e => lastWrite e.2 id)).or
        (store.getRecord r id)) ∧
    ∀ r, store'.hydration r = if r ∈ tables.map Prod.fst then .ready else store.hydration r := by
  induction tables generalizing store with
  | nil =>
    cases h
    simp
  | cons e es ih =>
    rw [map_cons, nodup_cons] at hnodup
    obtain ⟨mid, hmid, hrest⟩ := bind_eq_some_iff.mp h
    obtain ⟨hrec, hhyd⟩ := applyCloneTable_spec hmid
    obtain ⟨hrecs, hhyds⟩ := ih hnodup.2 hrest
    constructor
    · intro r id
      rw [hrecs, hrec]
      by_cases hr : e.1 = r
      · have hnone : es.find? (fun e => e.1 = r) = none := by
          refine find?_eq_none.mpr fun x hx hxr => hnodup.1 ?_
          rw [hr, ← of_decide_eq_true hxr]
          exact mem_map_of_mem hx
        simp [hr, hnone]
      · simp [hr, Ne.symm hr]
    · intro r
      rw [hhyds, hhyd]
      by_cases hr : r ∈ es.map Prod.fst
      · rw [if_pos hr, map_cons, if_pos (mem_cons_of_mem _ hr)]
      · rw [if_neg hr, map_cons]
        by_cases he : r = e.1
        · rw [if_pos (he ▸ mem_cons_self), he, update_self]
        · rw [if_neg (not_mem_cons_of_ne_of_not_mem he hr), update_of_ne he]

theorem foldl_upsertJoinRow_frame (relationKey : String) (rows : List JoinRow)
    (store : ClientStore) :
    (rows.foldl (fun s row => s.upsertJoinRow relationKey row) store).records = store.records ∧
      (rows.foldl (fun s row => s.upsertJoinRow relationKey row) store).hydration =
        store.hydration := by
  induction rows generalizing store with
  | nil => exact ⟨rfl, rfl⟩
  | cons row rows ih => exact ih _

theorem upsertJoinRows_frame (store : ClientStore) (joins : OMap String (List JoinRow)) :
    (upsertJoinRows store joins).records = store.records ∧
      (upsertJoinRows store joins).hydration = store.hydration := by
  unfold upsertJoinRows
  induction joins.entries generalizing store with
  | nil => exact ⟨rfl, rfl⟩
  | cons e es ih =>
    obtain ⟨hr, hh⟩ := ih (e.2.foldl (fun s row => s.upsertJoinRow e.1 row) store)
    obtain ⟨hr', hh'⟩ := foldl_upsertJoinRow_frame e.1 e.2 store
    exact ⟨hr.trans hr', hh.trans hh'⟩

variable {result : CloneResult}

theorem applyCloneResult_spec (hok : result.ok = true)
    (h : applyCloneResult store result = some store') :
    (∀ r id, store'.getRecord r id =
      ((result.data.get r).bind fun records => lastWrite records id).or (store.getRecord r id)) ∧
    ∀ r, store'.hydration r =
      if (result.data.get r).isSome then .ready else store.hydration r := by
  unfold applyCloneResult at h
  rw [if_pos hok] at h
  obtain ⟨filled, hfill, h⟩ := bind_eq_some_iff.mp h
  cases h
  obtain ⟨hrec, hhyd⟩ := foldlM_applyCloneTable_spec result.data.nodup hfill
  obtain ⟨hjr, hjh⟩ := upsertJoinRows_frame filled result.joins
  constructor
  · intro r id
    rw [ClientStore.getRecord_setCursorMonotonically]
    unfold ClientStore.getRecord at hrec ⊢
    rw [hjr, hrec, OMap.get]
    cases result.data.entries.find? (fun e => e.1 = r) <;> rfl
  · intro r
    rw [ClientStore.hydration_setCursorMonotonically, hjh, hhyd]
    simp only [← OMap.mem_keys_iff_get]
    rfl

theorem applyCloneResult_recordIds (hok : result.ok = true)
    (h : applyCloneResult store result = some store') :
    ∀ e ∈ result.data.entries, ∀ r ∈ e.2, (recordId r).isSome := by
  unfold applyCloneResult at h
  rw [if_pos hok] at h
  obtain ⟨filled, hfill, -⟩ := bind_eq_some_iff.mp h
  clear h
  revert hfill
  generalize result.data.entries = entries
  intro hfill
  induction entries generalizing store with
  | nil => simp
  | cons e es ih =>
    obtain ⟨mid, hmid, hrest⟩ := bind_eq_some_iff.mp hfill
    obtain ⟨hydrating, -, hmid⟩ := bind_eq_some_iff.mp hmid
    obtain ⟨written, hwritten, -⟩ := bind_eq_some_iff.mp hmid
    intro x hx
    rcases mem_cons.mp hx with rfl | hx
    · exact upsertRecords_recordIds hwritten
    · exact ih hrest x hx

end Spec

end SuperFunctions.Datafn.Client.ApplyClone

/-!
# Cloning resources

`cloneResources` fetches whole tables in one request, or each table page by page, and then marks
every requested table ready.
-/
namespace SuperFunctions.Datafn.Client.Clone

open Lib.Objects Datafn.Core Storage ApplyClone Server.Clone Option Function

/-- `hydrationPlan.clonePageSize` -/
inductive ClonePageSize where
  | unset
  | uniform (size : Nat)
  | perTable (sizes : Assoc String Nat)

/-- A size of 0 in the table's entry counts as no entry. -/
def getClonePageSize (config : ClonePageSize) (table : String) : Nat :=
  match config with
  | .unset => 1000
  | .uniform size => size
  | .perTable sizes =>
    match sizes.lookup table with
    | none => 1000
    | some size => if size = 0 then 1000 else size

/-- The first table's page size decides for all tables. -/
def pageSizeFor (config : ClonePageSize) (tables : List String) : Nat :=
  match tables with
  | [] => getClonePageSize config "undefined"
  | table :: _ => getClonePageSize config table

def usesPaginatedClone (config : ClonePageSize) (tables : List String) : Bool :=
  pageSizeFor config tables ≠ 0 && pageSizeFor config tables < 1000

/-- `while (hasMore)`, for at most `fuel` pages. -/
def cloneTablePaginated (server : CloneServer) (table : String) (pageSize : Nat) :
    (fuel : Nat) → (afterId : Option String) → ClientStore → Option ClientStore
  | 0, _, _ => none
  | fuel + 1, afterId, store =>
    let result := executeClonePage server table afterId pageSize
    if result.ok then
      (applyCloneResult store result).bind fun applied =>
        match (result.next.get table).join with
        | none => some applied
        | some nextMarker =>
          cloneTablePaginated server table pageSize fuel (some nextMarker) applied
    else none

def markHydrating (store : ClientStore) (tables : List String) : Option ClientStore :=
  tables.foldlM (fun s table => s.setHydrationState table .hydrating) store

def ensureReady (store : ClientStore) (table : String) : Option ClientStore :=
  if store.hydration table = .ready then some store else store.setHydrationState table .ready

/-- The requests of `cloneResources`. -/
def fetchTables (config : ClonePageSize) (server : CloneServer) (fuel : Nat)
    (tables : List String) (store : ClientStore) : Option ClientStore :=
  if usesPaginatedClone config tables then
    tables.foldlM
      (fun s table => cloneTablePaginated server table (pageSizeFor config tables) fuel none s)
      store
  else
    let result := executeClone server tables
    if result.ok then applyCloneResult store result else none

/-- `none` when it throws, or does not finish within `fuel` pages for each table. -/
def cloneResources (config : ClonePageSize) (server : CloneServer) (fuel : Nat)
    (tables : List String) (store : ClientStore) : Option ClientStore := do
  let hydrating ← markHydrating store tables
  let cloned ← fetchTables config server fuel tables hydrating
  tables.foldlM ensureReady cloned

/-! ## Hydration marks -/

section Marks

variable {store store' : ClientStore} {tables : List String}

theorem markHydrating_records (h : markHydrating store tables = some store') (r id : String) :
    store'.getRecord r id = store.getRecord r id := by
  refine foldlM_kept (fun s => s.getRecord r id) (fun s table s' hmark => ?_) h
  unfold ClientStore.getRecord
  rw [(setHydrationState_some hmark).1]

theorem ensureReady_spec {table : String} (h : ensureReady store table = some store') :
    (∀ r id, store'.getRecord r id = store.getRecord r id) ∧
      store'.hydration table = .ready ∧
      ∀ r, store.hydration r = .ready → store'.hydration r = .ready := by
  unfold ensureReady at h
  split at h
  case isTrue hr =>
    cases h
    exact ⟨fun _ _ => rfl, hr, fun _ => id⟩
  case isFalse =>
    obtain ⟨hrec, hhyd⟩ := setHydrationState_some h
    refine ⟨fun r id => ?_, by rw [hhyd, update_self], fun r hr => ?_⟩
    · unfold ClientStore.getRecord
      rw [hrec]
    · rw [hhyd]
      by_cases hrt : r = table
      · rw [hrt, update_self]
      · rw [update_of_ne hrt, hr]

theorem ensureAllReady_spec (h : tables.foldlM ensureReady store = some store') :
    (∀ r id, store'.getRecord r id = store.getRecord r id) ∧
      (∀ t ∈ tables, store'.hydration t = .ready) ∧
      ∀ r, store.hydration r = .ready → store'.hydration r = .ready := by
  induction tables generalizing store with
  | nil =>
    cases h
    exact ⟨fun _ _ => rfl, by simp, fun _ => id⟩
  | cons t ts ih =>
    obtain ⟨mid, hmid, hrest⟩ := bind_eq_some_iff.mp h
    obtain ⟨hrec, hready, hkeep⟩ := ensureReady_spec hmid
    obtain ⟨hrec', hready', hkeep'⟩ := ih hrest
    refine ⟨fun r id => (hrec' r id).trans (hrec r id), ?_, fun r hr => hkeep' r (hkeep r hr)⟩
    intro u hu
    rcases List.mem_cons.mp hu with rfl | hu
    · exact hkeep' _ hready
    · exact hready' u hu

end Marks

/-! ## One table page by page -/

section Paginated

variable {server : CloneServer} {table : String} {pageSize : Nat}

/-- The store holds the rows that the client may see. -/
def Holds (server : CloneServer) (table : String) (rows : List (String × Record))
    (store : ClientStore) : Prop :=
  ∀ row ∈ rows, visibleRow server table row = true → store.getRecord table row.1 = some row.2

variable {row : String × Record}

section

variable (h : row ∈ (server.tables table).sorted)
include h

theorem recordId_row {id : String} (hid : recordId row.2 = some id) : row.1 = id := by
  unfold recordId at hid
  rw [Server.Database.DbTable.sorted_id h] at hid
  simp only at hid
  split at hid
  · cases hid
  · exact some.inj hid

theorem recordId_row_iff : (recordId row.2).isSome ↔ row.1 ≠ "" := by
  unfold recordId
  rw [Server.Database.DbTable.sorted_id h]
  by_cases hid : row.1 = "" <;> simp [hid]

theorem row_unique {row' : String × Record} (h' : row' ∈ (server.tables table).sorted)
    (hid : row.1 = row'.1) : row = row' := by
  have hg := Server.Database.DbTable.mem_sorted.mp h
  have hg' := Server.Database.DbTable.mem_sorted.mp h'
  rw [hid, hg'] at hg
  exact Prod.ext hid (some.inj hg).symm

end

variable {rows : List (String × Record)}

section

variable (hrows : ∀ row ∈ rows, row ∈ (server.tables table).sorted)
include hrows

theorem lastWrite_visible (hrow : row ∈ rows) (hvis : visibleRow server table row = true)
    (hid : row.1 ≠ "") :
    lastWrite (filterActorVisibleRows server table rows) row.1 = some row.2 := by
  have hrec : recordId row.2 = some row.1 := by
    obtain ⟨id, hrid⟩ := isSome_iff_exists.mp ((recordId_row_iff (hrows row hrow)).mpr hid)
    rw [hrid, recordId_row (hrows row hrow) hrid]
  refine lastWrite_eq_some (mem_filterActorVisibleRows.mpr ⟨row.1, hrow, hvis⟩) hrec ?_
  intro r hr hrid
  obtain ⟨id, hmem, -⟩ := mem_filterActorVisibleRows.mp hr
  have hid' : id = row.1 := recordId_row (hrows _ hmem) hrid
  exact congrArg Prod.snd (row_unique (hrows _ hmem) (hrows row hrow) hid')

theorem lastWrite_other {id : String}
    (hid : ∀ row ∈ rows, row.1 = id → visibleRow server table row = false) :
    lastWrite (filterActorVisibleRows server table rows) id = none := by
  refine lastWrite_eq_none fun r hr hrid => ?_
  obtain ⟨id', hmem, hvis⟩ := mem_filterActorVisibleRows.mp hr
  have := hid _ hmem (recordId_row (hrows _ hmem) hrid)
  rw [this] at hvis
  cases hvis

end

end Paginated

end SuperFunctions.Datafn.Client.Clone
