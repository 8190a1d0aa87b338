import SuperFunctions.Datafn.Client.Clone

/-!
# A background clone that fails

`cloneResourcesInBackground` as the calls it waits for, one after another. The clone may fail at
any of them; what the calls before it have written stays, and every table is set to `notStarted`,
where a table for which that throws is left as it is.
-/
namespace SuperFunctions.Datafn.Client.BackgroundHydration

open Lib.OrderedMap Datafn.Core Storage ApplyClone Clone Server.Clone List Option Function

/-- A call that leaves the records and the hydration states alone. -/
inductive Call where
  | beforeSync
  | decrypt
  | updateIndices
  | markSearchIndexComplete
  | afterSync

/-- What the clone waits for. A request is the first for its tables or asks for a later page. -/
inductive Operation where
  | call (c : Call)
  | request (tables : List String) (first : Bool)
  | setHydrationState (table : String) (state : HydrationState)
  | ensureReady (table : String)
  | upsertRecord (table : String) (record : Record)
  | setCursor (table : String) (cursor : Nat)
  | upsertJoinRow (relationKey : String) (row : JoinRow)
  | setCursorMonotonically (table : String) (cursor : Nat)

/-- `none` when the storage refuses. -/
def perform (store : ClientStore) : Operation → Option ClientStore
  | .call _ => some store
  | .request _ _ => some store
  | .setHydrationState table state => store.setHydrationState table state
  | .ensureReady table => ensureReady store table
  | .upsertRecord table record => store.upsertRecord table record
  | .setCursor table cursor => some (store.setCursor table cursor)
  | .upsertJoinRow relationKey row => some (store.upsertJoinRow relationKey row)
  | .setCursorMonotonically table cursor => some (store.setCursorMonotonically table cursor)

def performAll (store : ClientStore) (operations : List Operation) : Option ClientStore :=
  operations.foldlM perform store

/-! ## The calls of a clone -/

def applyTableOperations (cursors : OMap String Nat) (table : String × List Record) :
    List Operation :=
  .setHydrationState table.1 .hydrating ::
    (table.2.map (.upsertRecord table.1) ++
      ((cursors.get table.1).map (.setCursor table.1)).toList ++
      [.setHydrationState table.1 .ready])

/-- The calls of `applyCloneResult`. -/
def applyOperations (result : CloneResult) : List Operation :=
  if result.ok then
    result.data.entries.flatMap (applyTableOperations result.cursors) ++
      result.joins.entries.flatMap (fun e => e.2.map (.upsertJoinRow e.1)) ++
      [.setCursorMonotonically globalCursorKey (maxCursor result.cursors)]
  else []

/-- The search index takes the records of the tables that have some. -/
def indexOperations (indexing : Bool) (tables : List (String × List Record)) : List Operation :=
  if indexing then
    (tables.filter fun table => !table.2.isEmpty).map fun _ => .call .updateIndices
  else []

def pageOperations (indexing : Bool) (table : String) (first : Bool) (page : CloneResult) :
    List Operation :=
  .request [table] first :: .call .decrypt :: (applyOperations page ++
    indexOperations indexing (page.data.entries.filter fun e => e.1 = table))

/-- A clone: its tables, how it is configured, and what the server answers. -/
structure CloneRun where
  tables : List String
  pageSize : ClonePageSize
  indexing : Bool
  whole : CloneResult
  firstPage : String → CloneResult
  laterPages : String → List CloneResult

namespace CloneRun

variable (run : CloneRun)

def cloneTablePaginated (table : String) : List Operation :=
  pageOperations run.indexing table true (run.firstPage table) ++
    (run.laterPages table).flatMap (pageOperations run.indexing table false) ++
    if run.indexing then [.call .markSearchIndexComplete] else []

def fetchOperations : List Operation :=
  if usesPaginatedClone run.pageSize run.tables then run.tables.flatMap run.cloneTablePaginated
  else
    .request run.tables true :: .call .decrypt :: (applyOperations run.whole ++
      indexOperations run.indexing run.whole.data.entries)

/-- The calls of `cloneResources`. -/
def operations : List Operation :=
  run.tables.map (.setHydrationState · .hydrating) ++
    (.call .beforeSync :: run.fetchOperations ++ run.tables.map .ensureReady ++
      (if run.indexing && !usesPaginatedClone run.pageSize run.tables then
        run.tables.map fun _ => .call .markSearchIndexComplete else []) ++
      [.call .afterSync])

end CloneRun

/-- What the handler of a failed clone does; `throws` tells for which tables the storage does. -/
def handleFailure (throws : String → Bool) (tables : List String) (store : ClientStore) :
    ClientStore :=
  tables.foldl (fun s table =>
    if throws table then s else (s.setHydrationState table .notStarted).getD s) store

/-! ## Hydration marks -/

/-- The state an operation leaves a table in, when it marks the table. -/
def markOf (table : String) : Operation → Option HydrationState
  | .setHydrationState marked state => if marked = table then some state else none
  | .ensureReady marked => if marked = table then some .ready else none
  | _ => none

def lastMark (table : String) (operations : List Operation) : Option HydrationState :=
  (operations.filterMap (markOf table)).getLast?

theorem hydration_setHydrationState {store store' : ClientStore} {marked : String}
    {state : HydrationState} (h : store.setHydrationState marked state = some store')
    (table : String) :
    store'.hydration table = if marked = table then state else store.hydration table := by
  unfold ClientStore.setHydrationState at h
  split at h
  · cases h
    show Function.update store.hydration marked state table = _
    by_cases htable : marked = table
    · rw [if_pos htable, ← htable, update_self]
    · rw [if_neg htable, update_of_ne (Ne.symm htable)]
  · cases h

theorem hydration_perform {store store' : ClientStore} {operation : Operation}
    (h : perform store operation = some store') (table : String) :
    store'.hydration table = (markOf table operation).getD (store.hydration table) := by
  cases operation with
  | setHydrationState marked state =>
    rw [hydration_setHydrationState h table, markOf]
    split <;> rfl
  | ensureReady marked =>
    have hready : perform store (.ensureReady marked) = ensureReady store marked := rfl
    rw [hready, ensureReady] at h
    split at h
    case isTrue heq =>
      cases h
      rw [markOf]
      split
      case isTrue htable =>
        rw [← htable, heq]
        rfl
      case isFalse => rfl
    case isFalse =>
      rw [hydration_setHydrationState h table, markOf]
      split <;> rfl
  | upsertRecord resource record =>
    obtain ⟨key, -, rfl⟩ := map_eq_some_iff.mp h
    rfl
  | setCursorMonotonically resource cursor =>
    cases h
    exact congrFun (ClientStore.hydration_setCursorMonotonically store resource cursor) table
  | call c | request tables first | setCursor resource cursor | upsertJoinRow relationKey row =>
    cases h
    rfl

theorem hydration_performAll {store store' : ClientStore} {operations : List Operation}
    (h : performAll store operations = some store') (table : String) :
    store'.hydration table = (lastMark table operations).getD (store.hydration table) := by
  induction operations generalizing store with
  | nil =>
    cases h
    rfl
  | cons operation operations ih =>
    obtain ⟨next, hnext, hrest⟩ := bind_eq_some_iff.mp h
    rw [ih hrest, hydration_perform hnext, lastMark, lastMark, filterMap_cons]
    cases markOf table operation with
    | none => rfl
    | some state =>
      rw [getLast?_cons]
      cases (operations.filterMap (markOf table)).getLast? with
      | none => rfl
      | some last => rfl

theorem handleFailure_eq (throws : String → Bool) (tables : List String) (store : ClientStore) :
    handleFailure throws tables store = store := by
  unfold handleFailure
  induction tables with
  | nil => rfl
  | cons table tables ih =>
    have hstep : (if throws table then store
        else (store.setHydrationState table .notStarted).getD store) = store := by
      split
      · rfl
      unfold ClientStore.setHydrationState
      cases hstate : store.hydration table with
      | notStarted =>
        show { store with hydration := Function.update store.hydration table .notStarted } = store
        rw [← hstate, update_eq_self]
      | hydrating => rfl
      | ready => rfl
    rw [foldl_cons, hstep]
    exact ih

/-! ## When a failed clone leaves its tables in order -/

/-- The operation asks for records of the table, or stores one. -/
def brings (table : String) : Operation → Bool
  | .request tables _ => table ∈ tables
  | .upsertRecord resource _ => resource = table
  | _ => false

/-- The records of the table have been asked for and stored, and what comes next for it, if
anything does, is another clone of it from its first page. -/
def FullyCloned (table : String) (done left : List Operation) : Prop :=
  (∃ operation ∈ done, brings table operation = true) ∧
    ∀ operation, left.find? (brings table) = some operation →
      ∃ tables, operation = .request tables true

/-- The table was ready before the clone and has not been touched, or the clone has read it. -/
def HoldsClone (store : ClientStore) (table : String) (done left : List Operation) : Prop :=
  (store.hydration table = .ready ∧ lastMark table done = none) ∨ FullyCloned table done left

/-- Every table is ready when it has been cloned, and else as if it had not been started. -/
def Recovered (store final : ClientStore) (tables : List String) (done left : List Operation) :
    Prop :=
  ∀ table ∈ tables, (HoldsClone store table done left → final.hydration table = .ready) ∧
    (¬ HoldsClone store table done left → final.hydration table = .notStarted)

/-- Each table is not marked yet, and was not hydrating before, or it has been marked ready and
nothing of it is outstanding. -/
def MarkedInTime (store : ClientStore) (tables : List String) (done left : List Operation) :
    Prop :=
  ∀ table ∈ tables, (lastMark table done = none ∧ store.hydration table ≠ .hydrating) ∨
    (lastMark table done = some .ready ∧ FullyCloned table done left)

/-- As long as a table is not marked the clone has brought nothing of it. -/
theorem not_fullyCloned_unmarked {run : CloneRun} {table : String} (htable : table ∈ run.tables)
    {n : Nat} (h : lastMark table (run.operations.take n) = none) :
    ¬ FullyCloned table (run.operations.take n) (run.operations.drop n) := by
  intro ⟨⟨operation, hmem, hbrings⟩, _⟩
  have hsplit : run.operations = run.tables.map (.setHydrationState · .hydrating) ++ _ := rfl
  rw [hsplit, take_append] at h hmem
  rcases mem_append.mp hmem with hmark | hlater
  · obtain ⟨marked, -, rfl⟩ := mem_map.mp (mem_of_mem_take hmark)
    cases hbrings
  -- all tables are marked before anything is asked for
  have hall : (run.tables.map fun t => Operation.setHydrationState t .hydrating).take n =
      run.tables.map fun t => Operation.setHydrationState t .hydrating := by
    apply take_of_length_le
    by_contra hlt
    rw [Nat.sub_eq_zero_of_le (by omega)] at hlater
    cases hlater
  rw [hall] at h
  have hmarked : markOf table (.setHydrationState table .hydrating) = some .hydrating := by
    rw [markOf, if_pos rfl]
  rw [lastMark, getLast?_eq_none_iff, filterMap_eq_nil_iff] at h
  have hnone := h _ (mem_append_left _ (mem_map_of_mem htable))
  rw [hmarked] at hnone
  cases hnone

/-- The operation marks no table `notStarted`. -/
def forward : Operation → Bool
  | .setHydrationState _ .notStarted => false
  | _ => true

theorem forward_applyOperations (result : CloneResult) :
    (applyOperations result).all forward = true := by
  unfold applyOperations applyTableOperations
  split
  · simp [all_append, all_flatMap, forward]
  · rfl

theorem forward_indexOperations (indexing : Bool) (tables : List (String × List Record)) :
    (indexOperations indexing tables).all forward = true := by
  unfold indexOperations
  split
  · simp [forward]
  · rfl

theorem forward_operations (run : CloneRun) : run.operations.all forward = true := by
  have hpage : ∀ table first page,
      (pageOperations run.indexing table first page).all forward = true := by
    intro table first page
    simp [pageOperations, forward, all_append, forward_applyOperations,
      forward_indexOperations]
  have hfetch : run.fetchOperations.all forward = true := by
    unfold CloneRun.fetchOperations CloneRun.cloneTablePaginated
    split
    · simp only [all_flatMap, all_append, hpage, Bool.true_and]
      split <;> simp [forward]
    · simp [forward, all_append, forward_applyOperations, forward_indexOperations]
  unfold CloneRun.operations
  simp only [all_append, all_cons, hfetch]
  split <;> simp [forward]

theorem lastMark_ne_notStarted (run : CloneRun) (table : String) (n : Nat) :
    lastMark table (run.operations.take n) ≠ some .notStarted := by
  intro hlast
  obtain ⟨operation, hmem, hmark⟩ := mem_filterMap.mp (mem_of_getLast? hlast)
  have hforward := all_eq_true.mp (forward_operations run) operation
    (mem_of_mem_take hmem)
  cases operation with
  | setHydrationState marked state =>
    rw [markOf] at hmark
    split at hmark
    · cases hmark
      cases hforward
    · cases hmark
  | ensureReady marked =>
    rw [markOf] at hmark
    split at hmark
    · cases hmark
    · cases hmark
  | _ => cases hmark

/-- A clone that fails at its call number `n` leaves its tables in order exactly when each of
them was marked in time: the handler itself repairs nothing. -/
theorem failed_hydration_recovered_iff (run : CloneRun) (throws : String → Bool)
    (store failed : ClientStore) (n : Nat)
    (hfailed : performAll store (run.operations.take n) = some failed) :
    Recovered store (handleFailure throws run.tables failed) run.tables
        (run.operations.take n) (run.operations.drop n) ↔
      MarkedInTime store run.tables (run.operations.take n) (run.operations.drop n) := by
  rw [handleFailure_eq]
  refine forall₂_congr fun table htable => ?_
  have hstate := hydration_performAll hfailed table
  cases hmark : lastMark table (run.operations.take n) with
  | none =>
    have hnot := not_fullyCloned_unmarked htable hmark
    rw [hmark] at hstate
    have hholds : HoldsClone store table (run.operations.take n) (run.operations.drop n) ↔
        store.hydration table = .ready := by
      unfold HoldsClone
      simp [hmark, hnot]
    rw [hholds, hstate]
    cases hbefore : store.hydration table with
    | notStarted => simp
    | hydrating => simp
    | ready => simp
  | some state =>
    rw [hmark] at hstate
    have hholds : HoldsClone store table (run.operations.take n) (run.operations.drop n) ↔
        FullyCloned table (run.operations.take n) (run.operations.drop n) := by
      unfold HoldsClone
      simp [hmark]
    rw [hholds, hstate]
    cases state with
    | notStarted => exact absurd hmark (lastMark_ne_notStarted run table n)
    | hydrating => simp
    | ready => simp

/-! ## Clones that fail -/

/-- A clone of one table that the server rejects. -/
def rejectedRun : CloneRun where
  tables := ["tasks"]
  pageSize := .unset
  indexing := false
  whole := .rejected
  firstPage _ := .rejected
  laterPages _ := []

/-- A failure at the first mark leaves the table as it was. -/
theorem failed_at_first_mark_recovered :
    Recovered emptyStore (handleFailure (fun _ => false) ["tasks"] emptyStore) ["tasks"]
      (rejectedRun.operations.take 0) (rejectedRun.operations.drop 0) := by
  refine (failed_hydration_recovered_iff rejectedRun (fun _ => false) emptyStore emptyStore 0
    rfl).mpr fun table _ => Or.inl ⟨rfl, ?_⟩
  exact nofun

/-- A clone in pages whose second page the server rejects. -/
def halfReadRun : CloneRun where
  tables := ["tasks"]
  pageSize := .uniform 100
  indexing := false
  whole := .rejected
  firstPage _ := ⟨true, OMap.empty.set "tasks" [], OMap.empty, OMap.empty, OMap.empty⟩
  laterPages _ := [.rejected]

/-- After a rejection the table stays `hydrating`; after the rejection of a later page it is
`ready` with the first page alone. -/
theorem failed_hydration_stays :
    (∃ failed, performAll emptyStore (rejectedRun.operations.take 2) = some failed ∧
      rejectedRun.operations[2]? = some (.request ["tasks"] true) ∧
      (handleFailure (fun _ => false) ["tasks"] failed).hydration "tasks" = .hydrating ∧
      ¬ Recovered emptyStore (handleFailure (fun _ => false) ["tasks"] failed) ["tasks"]
        (rejectedRun.operations.take 2) (rejectedRun.operations.drop 2)) ∧
    ∃ failed, performAll emptyStore (halfReadRun.operations.take 7) = some failed ∧
      halfReadRun.operations[7]? = some (.request ["tasks"] false) ∧
      (handleFailure (fun _ => false) ["tasks"] failed).hydration "tasks" = .ready ∧
      ¬ Recovered emptyStore (handleFailure (fun _ => false) ["tasks"] failed) ["tasks"]
        (halfReadRun.operations.take 7) (halfReadRun.operations.drop 7) := by
  constructor
  · refine ⟨_, rfl, rfl, rfl, fun h => ?_⟩
    have hnot := (h "tasks" (by decide)).2 ?_
    · cases hnot
    · intro hholds
      have hready := (h "tasks" (by decide)).1 hholds
      cases hready
  · refine ⟨_, rfl, rfl, rfl, fun h => ?_⟩
    have hnot := (h "tasks" (by decide)).2 ?_
    · cases hnot
    intro hholds
    rcases hholds with ⟨hbefore, -⟩ | ⟨-, hnext⟩
    · cases hbefore
    · obtain ⟨tables, heq⟩ := hnext _ rfl
      cases heq

end SuperFunctions.Datafn.Client.BackgroundHydration
