import SuperFunctions.Datafn.Client.Clone

/-!
# When a clone is complete

A clone that resolves marks every requested table ready. Page by page it holds every visible row
of the tables; in one request it holds the rows the answer lists, and the engine does not follow
the `next` markers of an answer that is cut off.
-/
namespace SuperFunctions.Datafn.Sync.CloneCompleteness

open Lib.Keyset Lib.OrderedMap Datafn.Core Client.Storage Client.ApplyClone Client.Clone
open Server.Database Server.Clone List OMap Option

/-- Every requested table is ready and holds every row the client may see. -/
structure Complete (server : CloneServer) (tables : List String) (store : ClientStore) : Prop where
  ready : ∀ table ∈ tables, store.hydration table = .ready
  holds : ∀ table ∈ tables, Holds server table (server.tables table).sorted store

/-! ## Page by page -/

variable {row : String × Record}

section Paginated

variable {server : CloneServer} {table : String} {pageSize : Nat} {store store' : ClientStore}
  {afterId : Option String}

theorem executeClonePage_ok (h : (executeClonePage server table afterId pageSize).ok = true) :
    executeClonePage server table afterId pageSize =
      { ok := true
        data := OMap.empty.set table
          (filterActorVisibleRows server table (pageRows server table afterId pageSize))
        cursors := OMap.empty.set table (server.latestServerSeq table)
        joins := server.joins
        next := OMap.empty.set table
          (pageNext (pageRows server table afterId pageSize) pageSize) } := by
  unfold executeClonePage at h ⊢
  split at h
  case isTrue hc => rw [if_pos hc]
  case isFalse => exact absurd h (by simp [CloneResult.rejected])

theorem pageRows_subset (h : row ∈ pageRows server table afterId pageSize) :
    row ∈ (server.tables table).sorted :=
  ((mem_rowsAfter Prod.fst).mp (mem_of_mem_take h)).1

section AppliedPage

variable {afterId : Option String}
  (hok : (executeClonePage server table afterId pageSize).ok = true)
  (h : applyCloneResult store (executeClonePage server table afterId pageSize) = some store')
include hok h

theorem pageRows_id_ne_empty (hrow : row ∈ pageRows server table afterId pageSize)
    (hvis : visibleRow server table row = true) : row.1 ≠ "" := by
  have hids := applyCloneResult_recordIds hok h
  rw [executeClonePage_ok hok] at hids
  rw [← recordId_row_iff (pageRows_subset hrow)]
  refine hids (table, filterActorVisibleRows server table
    (pageRows server table afterId pageSize)) ?_ row.2
    (mem_filterActorVisibleRows.mpr ⟨row.1, hrow, hvis⟩)
  rw [mem_entries_iff_get, get_set, if_pos rfl]

theorem getRecord_applyPage (r id : String) :
    store'.getRecord r id =
      if r = table then (lastWrite (filterActorVisibleRows server table
        (pageRows server table afterId pageSize)) id).or (store.getRecord r id)
      else store.getRecord r id := by
  obtain ⟨hrec, -⟩ := applyCloneResult_spec hok h
  rw [hrec, executeClonePage_ok hok, get_set]
  split <;> rfl

theorem applyPage_spec :
    Holds server table (pageRows server table afterId pageSize) store' ∧
    (∀ row ∈ (server.tables table).sorted, store.getRecord table row.1 = some row.2 →
      store'.getRecord table row.1 = some row.2) ∧
    ∀ r, r ≠ table → ∀ id, store'.getRecord r id = store.getRecord r id := by
  have hrec := getRecord_applyPage hok h
  have hsub : ∀ row ∈ pageRows server table afterId pageSize,
      row ∈ (server.tables table).sorted := fun row hrow => pageRows_subset hrow
  refine ⟨?_, ?_, ?_⟩
  · intro row hrow hvis
    rw [hrec, if_pos rfl, lastWrite_visible hsub hrow hvis (pageRows_id_ne_empty hok h hrow hvis),
      some_or]
  · intro row hrow hheld
    rw [hrec, if_pos rfl]
    by_cases hmem : row ∈ pageRows server table afterId pageSize ∧
        visibleRow server table row = true
    · rw [lastWrite_visible hsub hmem.1 hmem.2 (pageRows_id_ne_empty hok h hmem.1 hmem.2),
        some_or]
    rw [lastWrite_other hsub, none_or, hheld]
    intro row' hrow' hid
    have heq' := row_unique (hsub row' hrow') hrow hid
    subst heq'
    simpa using fun hvis => hmem ⟨hrow', hvis⟩
  · intro r hr id
    rw [hrec, if_neg hr]

end AppliedPage

theorem pageNext_none (hsize : pageSize ≠ 0)
    (h : pageNext (pageRows server table afterId pageSize) pageSize = none)
    (hrow : row ∈ (server.tables table).findAfter (afterMarker afterId)) :
    row ∈ pageRows server table afterId pageSize := by
  unfold pageNext at h
  unfold pageRows at h ⊢
  split at h
  case isTrue hlen =>
    rw [map_eq_none_iff, getLast?_eq_none_iff] at h
    rw [h, length_nil] at hlen
    omega
  case isFalse hlen =>
    rw [length_take] at hlen
    rwa [take_of_length_le (by omega)]

theorem mem_findAfter_next {marker : String}
    (h : pageNext (pageRows server table afterId pageSize) pageSize = some marker)
    (hrow : row ∈ (server.tables table).findAfter (afterMarker afterId)) :
    row ∈ pageRows server table afterId pageSize ∨
      row ∈ (server.tables table).findAfter (afterMarker (some marker)) := by
  unfold pageNext at h
  split at h
  case isFalse => cases h
  obtain ⟨last, hlast, rfl⟩ := map_eq_some_iff.mp h
  have hinc := (server.tables table).increasing_sorted.rowsAfter Prod.fst (afterMarker afterId)
  rcases mem_page_or_after Prod.fst hinc hlast hrow with hpage | hlt
  · exact .inl hpage
  refine .inr ((mem_rowsAfter Prod.fst).mpr ⟨((mem_rowsAfter Prod.fst).mp hrow).1, ?_⟩)
  intro k hk
  obtain ⟨hk, -⟩ := mem_filter_iff.mp hk
  cases hk
  exact hlt

theorem next_get (hok : (executeClonePage server table afterId pageSize).ok = true) :
    ((executeClonePage server table afterId pageSize).next.get table).join =
      pageNext (pageRows server table afterId pageSize) pageSize := by
  rw [executeClonePage_ok hok]
  simp only [get_set, if_true, join_some]

theorem cloneTablePaginated_spec (hsize : pageSize ≠ 0) {fuel : Nat}
    (h : cloneTablePaginated server table pageSize fuel afterId store = some store') :
    Holds server table ((server.tables table).findAfter (afterMarker afterId)) store' ∧
    (∀ row ∈ (server.tables table).sorted, store.getRecord table row.1 = some row.2 →
      store'.getRecord table row.1 = some row.2) ∧
    ∀ r, r ≠ table → ∀ id, store'.getRecord r id = store.getRecord r id := by
  induction fuel generalizing afterId store with
  | zero => exact absurd h (by simp [cloneTablePaginated])
  | succ fuel ih =>
    simp only [cloneTablePaginated] at h
    split at h
    case isFalse => cases h
    rename_i hok
    obtain ⟨applied, happlied, h⟩ := bind_eq_some_iff.mp h
    obtain ⟨hpage, hkeep, hother⟩ := applyPage_spec hok happlied
    rw [next_get hok] at h
    cases hnext : pageNext (pageRows server table afterId pageSize) pageSize with
    | none =>
      rw [hnext] at h
      cases h
      exact ⟨fun row hrow => hpage row (pageNext_none hsize hnext hrow), hkeep, hother⟩
    | some marker =>
      rw [hnext] at h
      obtain ⟨hrest, hkeep', hother'⟩ := ih h
      refine ⟨fun row hrow hvis => ?_, fun row hrow hheld => ?_, fun r hr id => ?_⟩
      · rcases mem_findAfter_next hnext hrow with hp | hafter
        · exact hkeep' row (pageRows_subset hp) (hpage row hp hvis)
        · exact hrest row hafter hvis
      · exact hkeep' row hrow (hkeep row hrow hheld)
      · rw [hother' r hr, hother r hr]

end Paginated

/-! ## All tables -/

section Resources

variable {config : ClonePageSize} {server : CloneServer} {fuel : Nat} {tables : List String}
  {store store' : ClientStore}

theorem clonePages_spec {pageSize : Nat} (hsize : pageSize ≠ 0) {ts : List String}
    (h : ts.foldlM (fun s table => cloneTablePaginated server table pageSize fuel none s) store =
      some store') :
    (∀ t ∈ ts, Holds server t (server.tables t).sorted store') ∧
      ∀ t, ∀ row ∈ (server.tables t).sorted, store.getRecord t row.1 = some row.2 →
        store'.getRecord t row.1 = some row.2 := by
  induction ts generalizing store with
  | nil =>
    cases h
    exact ⟨by simp, fun _ _ _ => id⟩
  | cons t ts ih =>
    obtain ⟨mid, hmid, hrest⟩ := bind_eq_some_iff.mp h
    obtain ⟨hholds, hkeep, hother⟩ := cloneTablePaginated_spec hsize hmid
    obtain ⟨hholds', hkeep'⟩ := ih hrest
    refine ⟨fun u hu => ?_, fun u row hrow hheld => hkeep' u row hrow ?_⟩
    · rcases mem_cons.mp hu with rfl | hu
      · exact fun row hrow hvis => hkeep' u row hrow (hholds row hrow hvis)
      · exact hholds' u hu
    · by_cases hu : u = t
      · subst hu
        exact hkeep row hrow hheld
      · rw [hother u hu, hheld]

/-- The rows of a table that an answer in one request lists. -/
def answeredRows (server : CloneServer) (tables : List String) (table : String) :
    List (String × Record) :=
  if server.maxCloneRecords < totalCount server tables then
    (server.tables table).sorted.take (rowBudget server tables server.maxCloneRecords table)
  else (server.tables table).sorted

theorem executeClone_applied (hok : (executeClone server tables).ok = true)
    (h : applyCloneResult store (executeClone server tables) = some store') {t : String}
    (ht : t ∈ tables) (hrow : row ∈ (server.tables t).sorted)
    (hvis : visibleRow server t row = true) :
    store'.getRecord t row.1 = some row.2 ↔
      row ∈ answeredRows server tables t ∨ store.getRecord t row.1 = some row.2 := by
  have hcloneable : cloneable server tables = true := by rw [← executeClone_ok, hok]
  have hget := executeClone_data hcloneable t
  rw [if_pos ht] at hget
  change _ = some (filterActorVisibleRows server t (answeredRows server tables t)) at hget
  obtain ⟨hrec, -⟩ := applyCloneResult_spec hok h
  have hsub : ∀ row ∈ answeredRows server tables t, row ∈ (server.tables t).sorted := by
    unfold answeredRows
    split
    · exact fun row hrow => mem_of_mem_take hrow
    · exact fun _ => id
  rw [hrec, hget, bind_some]
  by_cases hmem : row ∈ answeredRows server tables t
  · have hid : row.1 ≠ "" := by
      rw [← recordId_row_iff hrow]
      exact applyCloneResult_recordIds hok h (t, _) ((mem_entries_iff_get _ _ _).mpr hget)
        row.2 (mem_filterActorVisibleRows.mpr ⟨row.1, hmem, hvis⟩)
    rw [lastWrite_visible hsub hmem hvis hid]
    simp [hmem]
  · rw [lastWrite_other hsub]
    · simp [hmem]
    · intro row' hrow' hid
      have heq := row_unique (hsub row' hrow') hrow hid
      subst heq
      exact absurd hrow' hmem

theorem mem_answeredRows_or_drop {t : String}
    (hmax : server.maxCloneRecords < totalCount server tables)
    (hrow : row ∈ (server.tables t).sorted) :
    row ∉ answeredRows server tables t ↔
      row ∈ (server.tables t).sorted.drop (rowBudget server tables server.maxCloneRecords t) := by
  unfold answeredRows
  rw [if_pos hmax]
  have hnodup : (server.tables t).sorted.Nodup :=
    (server.tables t).increasing_sorted.imp fun hlt heq => absurd hlt (by rw [heq]; exact lt_irrefl _)
  have hdisjoint := disjoint_take_drop hnodup
    (le_refl (rowBudget server tables server.maxCloneRecords t))
  constructor
  · intro hnot
    rw [← take_append_drop (rowBudget server tables server.maxCloneRecords t)
      (server.tables t).sorted, mem_append] at hrow
    exact hrow.resolve_left hnot
  · exact fun hdrop htake => hdisjoint htake hdrop

end Resources

/-! ## A clone that loses rows -/

def sampleRecord (id : String) : Record := Finmap.singleton "id" (.str id)

def sampleTable : DbTable :=
  ⟨⟨[("a", sampleRecord "a"), ("b", sampleRecord "b")], by decide⟩, by decide⟩

/-- Two public notes, on a server that answers with at most `maxCloneRecords` rows. -/
def sampleServer (maxCloneRecords : Nat) : CloneServer where
  remoteOnly table := if table = "notes" then some false else none
  isPrivate _ := false
  actorId := none
  hasAccess _ _ _ := false
  tables table := if table = "notes" then sampleTable else .empty
  latestServerSeq _ := 2
  joins := OMap.empty
  maxCloneRecords := maxCloneRecords

end SuperFunctions.Datafn.Sync.CloneCompleteness
