import Mathlib.Data.String.Basic
import SuperFunctions.Datafn.Core.Value
import SuperFunctions.Lib.Paging
import SuperFunctions.Lib.OrderedMap

/-!
# Server tables

A table of the database adapter: its rows in insertion order, each under its id.
-/
namespace SuperFunctions.Datafn.Server.Database

open Lib.OrderedMap Lib.Keyset Datafn.Core

structure DbTable where
  rows : OMap String Record
  ids : ∀ e ∈ rows.entries, e.2.lookup "id" = some (.str e.1)

namespace DbTable

def empty : DbTable := ⟨OMap.empty, by simp [OMap.empty]⟩

def count (table : DbTable) : Nat := table.rows.entries.length

/-- `orderBy: [{ field: "id", direction: "asc" }]` -/
def sorted (table : DbTable) : List (String × Record) := sortByKey Prod.fst table.rows.entries

/-- The rows by id, from the first one greater than `after` on. -/
def findAfter (table : DbTable) (after : Option String) : List (String × Record) :=
  rowsAfter Prod.fst after table.sorted

theorem increasing_sorted (table : DbTable) : Increasing Prod.fst table.sorted :=
  increasing_sortByKey Prod.fst table.rows.nodup

variable {e : String × Record}

theorem mem_sorted {table : DbTable} : e ∈ table.sorted ↔ table.rows.get e.1 = some e.2 := by
  rw [sorted, mem_sortByKey]
  exact table.rows.mem_entries_iff_get e.1 e.2

theorem length_sorted (table : DbTable) : table.sorted.length = table.count :=
  List.length_insertionSort _ _

theorem sorted_id {table : DbTable} (h : e ∈ table.sorted) : e.2.lookup "id" = some (.str e.1) :=
  table.ids e ((mem_sortByKey Prod.fst).mp h)

end DbTable

end SuperFunctions.Datafn.Server.Database

/-!
# `executeClone`

The server's answer to a clone request: one page of one table, or all requested tables, cut off
after `maxCloneRecords` rows when the tables hold more. Adapter errors are not modelled.
-/
namespace SuperFunctions.Datafn.Server.Clone

open Lib.OrderedMap Datafn.Core Database List

structure CloneResult where
  ok : Bool
  data : OMap String (List Record)
  cursors : OMap String Nat
  joins : OMap String (List JoinRow)
  next : OMap String (Option String)

def CloneResult.rejected : CloneResult := ⟨false, OMap.empty, OMap.empty, OMap.empty, OMap.empty⟩

/-- What the server holds for one namespace and one client. -/
structure CloneServer where
  /-- `isRemoteOnly` of the resources of the schema -/
  remoteOnly : String → Option Bool
  isPrivate : String → Bool
  actorId : Option String
  /-- whether `resolveAccessLevel` finds a level for the record and the actor -/
  hasAccess : String → String → String → Bool
  tables : String → DbTable
  latestServerSeq : String → Nat
  /-- the normalized join rows of each join store -/
  joins : OMap String (List JoinRow)
  maxCloneRecords : Nat

def visibleRow (server : CloneServer) (resource : String) (row : String × Record) : Bool :=
  if server.isPrivate resource then
    match server.actorId with
    | none => false
    | some actor => actor ≠ "" && row.1 ≠ "" && server.hasAccess resource row.1 actor
  else true

/-- `filterActorVisibleRows`, on rows that carry their id. -/
def filterActorVisibleRows (server : CloneServer) (resource : String)
    (rows : List (String × Record)) : List Record :=
  (rows.filter (visibleRow server resource)).map Prod.snd

/-- All requested tables are known and may be cloned. -/
def cloneable (server : CloneServer) (tables : List String) : Bool :=
  tables.all fun table => server.remoteOnly table = some false

/-- An `afterId` of `""` counts as none. -/
def afterMarker (afterId : Option String) : Option String :=
  afterId.filter fun id => id ≠ ""

def pageRows (server : CloneServer) (table : String) (afterId : Option String) (limit : Nat) :
    List (String × Record) :=
  ((server.tables table).findAfter (afterMarker afterId)).take (min limit 1000)

/-- The marker of the next page; a page that is not full is the last one. -/
def pageNext (rows : List (String × Record)) (limit : Nat) : Option String :=
  if rows.length = min limit 1000 then rows.getLast?.map Prod.fst else none

/-- A clone of one page of one table. -/
def executeClonePage (server : CloneServer) (table : String) (afterId : Option String)
    (limit : Nat) : CloneResult :=
  if cloneable server [table] then
    let rows := pageRows server table afterId limit
    { ok := true
      data := OMap.empty.set table (filterActorVisibleRows server table rows)
      cursors := OMap.empty.set table (server.latestServerSeq table)
      joins := server.joins
      next := OMap.empty.set table (pageNext rows limit) }
  else .rejected

def totalCount (server : CloneServer) (tables : List String) : Nat :=
  (tables.map fun table => (server.tables table).count).sum

/-- One table of an answer that is cut off: at most `remaining` rows. -/
def autoPaginateTable (server : CloneServer) (acc : CloneResult × Nat) (table : String) :
    CloneResult × Nat :=
  let (result, remaining) := acc
  let count := (server.tables table).count
  let rows := (server.tables table).sorted.take remaining
  let next :=
    if remaining = 0 then (if 0 < count then some "" else none)
    else if rows.length < count then rows.getLast?.map Prod.fst else none
  ({ result with
      data := result.data.set table (filterActorVisibleRows server table rows)
      cursors := result.cursors.set table (server.latestServerSeq table)
      next := result.next.set table next },
    remaining - rows.length)

def fullTable (server : CloneServer) (result : CloneResult) (table : String) : CloneResult :=
  { result with
    data := result.data.set table (filterActorVisibleRows server table (server.tables table).sorted)
    cursors := result.cursors.set table (server.latestServerSeq table) }

/-- A clone of whole tables. -/
def executeClone (server : CloneServer) (tables : List String) : CloneResult :=
  if cloneable server tables then
    let start : CloneResult := ⟨true, OMap.empty, OMap.empty, OMap.empty, OMap.empty⟩
    if server.maxCloneRecords < totalCount server tables then
      (tables.foldl (autoPaginateTable server) (start, server.maxCloneRecords)).1
    else { tables.foldl (fullTable server) start with joins := server.joins }
  else .rejected

/-! ## The rows in an answer -/

theorem mem_filterActorVisibleRows {server : CloneServer} {resource : String}
    {rows : List (String × Record)} {record : Record} :
    record ∈ filterActorVisibleRows server resource rows ↔
      ∃ id, (id, record) ∈ rows ∧ visibleRow server resource (id, record) = true := by
  simp [filterActorVisibleRows]

/-- The records left when the last turn of a table comes. -/
def rowBudget (server : CloneServer) : List String → Nat → String → Nat
  | [], remaining, _ => remaining
  | t :: ts, remaining, table =>
    if table ∈ ts ∨ t ≠ table
    then rowBudget server ts (remaining - (server.tables t).count) table else remaining

theorem autoPaginate_data (server : CloneServer) (tables : List String)
    (acc : CloneResult × Nat) (table : String) :
    (tables.foldl (autoPaginateTable server) acc).1.data.get table =
      if table ∈ tables then
        some (filterActorVisibleRows server table
          ((server.tables table).sorted.take (rowBudget server tables acc.2 table)))
      else acc.1.data.get table := by
  induction tables generalizing acc with
  | nil => rfl
  | cons t ts ih =>
    rw [foldl_cons, ih]
    have hremaining : (autoPaginateTable server acc t).2 = acc.2 - (server.tables t).count := by
      simp only [autoPaginateTable, length_take, DbTable.length_sorted]
      omega
    rw [hremaining]
    have hdata : (autoPaginateTable server acc t).1.data.get table =
        if table = t then some (filterActorVisibleRows server t
          ((server.tables t).sorted.take acc.2)) else acc.1.data.get table :=
      OMap.get_set _ _ _ _
    rw [hdata]
    by_cases hts : table ∈ ts
    · rw [if_pos hts, if_pos (mem_cons_of_mem _ hts), rowBudget, if_pos (.inl hts)]
    · by_cases ht : table = t
      · subst ht
        simp [hts, rowBudget]
      · simp [hts, ht]

theorem fullTables_data (server : CloneServer) (tables : List String) (result : CloneResult)
    (table : String) :
    (tables.foldl (fullTable server) result).data.get table =
      if table ∈ tables then
        some (filterActorVisibleRows server table (server.tables table).sorted)
      else result.data.get table := by
  induction tables generalizing result with
  | nil => rfl
  | cons t ts ih =>
    rw [foldl_cons, ih]
    have hdata : (fullTable server result t).data.get table =
        if table = t then some (filterActorVisibleRows server t (server.tables t).sorted)
        else result.data.get table :=
      OMap.get_set _ _ _ _
    rw [hdata]
    by_cases hts : table ∈ ts
    · simp [hts]
    · by_cases ht : table = t
      · subst ht
        simp
      · simp [hts, ht]

theorem autoPaginate_ok (server : CloneServer) (tables : List String)
    (acc : CloneResult × Nat) :
    (tables.foldl (autoPaginateTable server) acc).1.ok = acc.1.ok := by
  induction tables generalizing acc with
  | nil => rfl
  | cons t ts ih => rw [foldl_cons, ih]; rfl

theorem fullTables_ok (server : CloneServer) (tables : List String) (result : CloneResult) :
    (tables.foldl (fullTable server) result).ok = result.ok := by
  induction tables generalizing result with
  | nil => rfl
  | cons t ts ih => rw [foldl_cons, ih]; rfl

theorem executeClone_ok (server : CloneServer) (tables : List String) :
    (executeClone server tables).ok = cloneable server tables := by
  unfold executeClone
  cases hc : cloneable server tables with
  | false => rfl
  | true =>
    simp only [if_true]
    split
    · rw [autoPaginate_ok]
    · exact fullTables_ok server tables _

theorem executeClone_data {server : CloneServer} {tables : List String}
    (h : cloneable server tables = true) (table : String) :
    (executeClone server tables).data.get table =
      if table ∈ tables then
        some (filterActorVisibleRows server table
          (if server.maxCloneRecords < totalCount server tables
            then (server.tables table).sorted.take
              (rowBudget server tables server.maxCloneRecords table)
            else (server.tables table).sorted))
      else none := by
  unfold executeClone
  rw [if_pos h]
  split
  · rw [autoPaginate_data]
    rfl
  · exact fullTables_data server tables _ table

end SuperFunctions.Datafn.Server.Clone
