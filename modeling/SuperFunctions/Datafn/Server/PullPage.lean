import SuperFunctions.Datafn.Client.Storage
import SuperFunctions.Datafn.Server.Pull

/-!
# What a pull page lists

The lists of a page for one resource, read off the selected changes in sequence order, and the
one record a page lists for an id.
-/
namespace SuperFunctions.Datafn.Server.PullPage

open Lib.Objects Lib.OrderedMap Datafn.Core
open Client.Storage (recordId)
open ChangeLog Pull List OMap Option

/-! ## The lists of one resource -/

/-- The record of an insert, replace or upsert. -/
def fullRecord (c : ChangeEntry) : Option Record :=
  match c.op with
  | .insert | .replace | .upsert => c.record
  | .merge | .delete => none

/-- The partial record of a merge. -/
def mergeDelta (c : ChangeEntry) : Option Record :=
  match c.op with
  | .merge => c.record
  | .insert | .replace | .upsert | .delete => none

section Lists

variable (resource : String) (changes : List ChangeEntry) (visible : List VisibilityChange)

def fullRecords : List Record :=
  changes.filterMap (fun c => if c.resource = resource then fullRecord c else none) ++
    visible.filterMap fun v =>
      if v.resource = resource ∧ v.op = .upsert then v.record else none

def mergeDeltas : List Record :=
  changes.filterMap fun c => if c.resource = resource then mergeDelta c else none

def deletedIds : List String :=
  changes.filterMap (fun c =>
      if c.resource = resource ∧ c.op = .delete then some c.id else none) ++
    visible.filterMap fun v =>
      if v.resource = resource ∧ v.op = .delete then some v.id else none

/-- The join rows upserted in one join store. -/
def joinUpserts : List Record :=
  changes.filterMap fun c => if c.resource = resource then fullRecord c else none

def deletedEdges : List (String × String) :=
  changes.filterMap fun c =>
    if c.resource = resource ∧ c.op = .delete then some (deletedEdge c) else none

end Lists

/-- A fold that appends what each item yields collects what all of them yield. -/
private theorem collect_foldl {σ ι γ : Type*} (step : σ → ι → σ) (list : σ → List γ)
    {yield : ι → Option γ} (h : ∀ s i, list (step s i) = list s ++ (yield i).toList)
    (s : σ) (items : List ι) :
    list (items.foldl step s) = list s ++ items.filterMap yield := by
  induction items generalizing s with
  | nil => simp
  | cons i items ih =>
    rw [foldl_cons, ih, h, append_assoc, filterMap_cons]
    cases yield i <;> rfl

section Groups

variable {isPrivate : String → Bool} {actor : Option ActorView} {resource : String}

theorem listed_of_public (h : isPrivate resource = false) (id : String) :
    listed isPrivate actor resource id = true := by
  simp [listed, h]

theorem groupChange_other (groups : PageGroups) {c : ChangeEntry} (h : c.resource ≠ resource) :
    ((groupChange isPrivate actor groups c).records.get resource).getD [] =
        (groups.records.get resource).getD [] ∧
      ((groupChange isPrivate actor groups c).merged.get resource).getD [] =
        (groups.merged.get resource).getD [] ∧
      ((groupChange isPrivate actor groups c).deleted.get resource).getD [] =
        (groups.deleted.get resource).getD [] := by
  have hne : ¬ resource = c.resource := fun heq => h heq.symm
  unfold groupChange
  repeat' split
  all_goals simp [getD_push, hne]

theorem groupChange_public (groups : PageGroups) {c : ChangeEntry}
    (hdata : isDataResourceKey c.resource = true) (hpublic : isPrivate c.resource = false) :
    groupChange isPrivate actor groups c =
      { groups with
        records := (fullRecord c).elim groups.records (groups.records.push c.resource)
        merged := (mergeDelta c).elim groups.merged (groups.merged.push c.resource)
        deleted := if c.op = .delete then groups.deleted.push c.resource c.id
          else groups.deleted } := by
  have hjoin : isJoinStoreKey c.resource = false := by
    by_contra hj
    rw [isDataResourceKey_of_join (by simpa using hj)] at hdata
    exact absurd hdata (by decide)
  unfold groupChange fullRecord mergeDelta
  simp only [hjoin, hdata, hpublic, listed_of_public hpublic, Bool.false_and, Bool.not_true,
    Bool.false_eq_true, if_false, if_true]
  cases c.op <;> cases c.record <;> rfl

section Public

variable (hdata : isDataResourceKey resource = true) (hpublic : isPrivate resource = false)
include hdata hpublic

theorem lists_groupChange (groups : PageGroups) (c : ChangeEntry) :
    ((groupChange isPrivate actor groups c).records.get resource).getD [] =
        (groups.records.get resource).getD [] ++
          (if c.resource = resource then fullRecord c else none).toList ∧
      ((groupChange isPrivate actor groups c).merged.get resource).getD [] =
        (groups.merged.get resource).getD [] ++
          (if c.resource = resource then mergeDelta c else none).toList ∧
      ((groupChange isPrivate actor groups c).deleted.get resource).getD [] =
        (groups.deleted.get resource).getD [] ++
          (if c.resource = resource ∧ c.op = .delete then some c.id else none).toList := by
  by_cases hres : c.resource = resource
  · subst hres
    rw [groupChange_public groups hdata hpublic]
    refine ⟨?_, ?_, ?_⟩
    · cases fullRecord c <;> simp [getD_push]
    · cases mergeDelta c <;> simp [getD_push]
    · by_cases hop : c.op = .delete <;> simp [getD_push, hop]
  · obtain ⟨hrecords, hmerged, hdeleted⟩ := groupChange_other groups hres
    rw [hrecords, hmerged, hdeleted, if_neg hres, if_neg hres, if_neg fun h => hres h.1]
    simp

end Public

theorem lists_groupVisibilityChange (groups : PageGroups) (v : VisibilityChange) :
    ((groupVisibilityChange groups v).records.get resource).getD [] =
        (groups.records.get resource).getD [] ++
          (if v.resource = resource ∧ v.op = .upsert then v.record else none).toList ∧
      ((groupVisibilityChange groups v).deleted.get resource).getD [] =
        (groups.deleted.get resource).getD [] ++
          (if v.resource = resource ∧ v.op = .delete then some v.id else none).toList := by
  unfold groupVisibilityChange
  by_cases hres : v.resource = resource
  · subst hres
    cases v.op <;> cases v.record <;> simp [getD_push]
  · have hne : ¬ resource = v.resource := fun h => hres h.symm
    cases v.op <;> cases v.record <;> simp [getD_push, hres, hne]

theorem foldl_groupVisibilityChange_frame (visible : List VisibilityChange)
    (groups : PageGroups) :
    (visible.foldl groupVisibilityChange groups).merged = groups.merged ∧
      (visible.foldl groupVisibilityChange groups).joins = groups.joins := by
  induction visible generalizing groups with
  | nil => exact ⟨rfl, rfl⟩
  | cons v visible ih =>
    rw [foldl_cons, (ih _).1, (ih _).2]
    unfold groupVisibilityChange
    cases v.op <;> cases v.record <;> exact ⟨rfl, rfl⟩

theorem getD_foldl_set_nil {γ : Type*} (keys : List String) (m : OMap String (List γ))
    (h : (m.get resource).getD [] = []) :
    ((keys.foldl (fun m r => m.set r []) m).get resource).getD [] = [] := by
  induction keys generalizing m with
  | nil => exact h
  | cons key keys ih =>
    apply ih
    rw [get_set]
    split
    · rfl
    · exact h

end Groups

section Page

variable (isPrivate : String → Bool) (actor : Option ActorView) (resources : List String)
  (changes : List ChangeEntry) {resource : String}

theorem collect_groupPage {γ : Type} (list : PageGroups → List γ)
    {fromChange : ChangeEntry → Option γ} {fromVisible : VisibilityChange → Option γ}
    (hempty : list (emptyGroups resources) = [])
    (hchange : ∀ g c, list (groupChange isPrivate actor g c) = list g ++ (fromChange c).toList)
    (hvisible : ∀ g v, list (groupVisibilityChange g v) = list g ++ (fromVisible v).toList) :
    list (groupPage isPrivate actor resources changes) =
      changes.filterMap fromChange ++ (visibilityChanges actor).filterMap fromVisible := by
  have hchanges := collect_foldl (groupChange isPrivate actor) list hchange
    (emptyGroups resources) changes
  rw [hempty, nil_append] at hchanges
  rw [← hchanges]
  exact collect_foldl groupVisibilityChange list hvisible _ _

section

variable (hdata : isDataResourceKey resource = true)
include hdata

section

variable (hpublic : isPrivate resource = false)
include hpublic

theorem records_groupPage :
    ((groupPage isPrivate actor resources changes).records.get resource).getD [] =
      fullRecords resource changes (visibilityChanges actor) :=
  collect_groupPage isPrivate actor resources changes
    (fun g => (g.records.get resource).getD []) (getD_foldl_set_nil _ _ rfl)
    (fun g c => (lists_groupChange hdata hpublic g c).1)
    fun g v => (lists_groupVisibilityChange g v).1

theorem merged_groupPage :
    ((groupPage isPrivate actor resources changes).merged.get resource).getD [] =
      mergeDeltas resource changes := by
  have hchanges := collect_foldl (groupChange isPrivate actor)
    (fun g : PageGroups => (g.merged.get resource).getD [])
    (fun g c => (lists_groupChange hdata hpublic g c).2.1) (emptyGroups resources) changes
  unfold groupPage
  rwa [(foldl_groupVisibilityChange_frame _ _).1]

theorem deleted_groupPage :
    ((groupPage isPrivate actor resources changes).deleted.get resource).getD [] =
      deletedIds resource changes (visibilityChanges actor) :=
  collect_groupPage isPrivate actor resources changes
    (fun g => (g.deleted.get resource).getD []) (getD_foldl_set_nil _ _ rfl)
    (fun g c => (lists_groupChange hdata hpublic g c).2.2)
    fun g v => (lists_groupVisibilityChange g v).2

end

end

theorem joins_groupPage (hjoin : isJoinStoreKey resource = true) :
    ((groupPage isPrivate actor resources changes).joins.get resource).getD ⟨[], []⟩ =
      ⟨joinUpserts resource changes, deletedEdges resource changes⟩ := by
  have hstep : ∀ (g : PageGroups) (c : ChangeEntry),
      ((groupChange isPrivate actor g c).joins.get resource).getD ⟨[], []⟩ =
        if c.resource = resource then
          groupJoinChange c ((g.joins.get resource).getD ⟨[], []⟩)
        else (g.joins.get resource).getD ⟨[], []⟩ := by
    intro g c
    by_cases hres : c.resource = resource
    · subst hres
      unfold groupChange
      rw [if_pos hjoin, if_pos rfl, getD_modify, if_pos rfl]
    · have hne : ¬ resource = c.resource := fun h => hres h.symm
      unfold groupChange
      repeat' split
      all_goals simp [getD_modify, hne]
  have hfold : ∀ g : PageGroups,
      ((changes.foldl (groupChange isPrivate actor) g).joins.get resource).getD ⟨[], []⟩ =
        ⟨((g.joins.get resource).getD ⟨[], []⟩).upsert ++ joinUpserts resource changes,
          ((g.joins.get resource).getD ⟨[], []⟩).delete ++ deletedEdges resource changes⟩ := by
    induction changes with
    | nil => simp [joinUpserts, deletedEdges]
    | cons c changes ih =>
      intro g
      rw [foldl_cons, ih, hstep]
      unfold joinUpserts deletedEdges
      rw [filterMap_cons, filterMap_cons]
      by_cases hres : c.resource = resource
      · unfold groupJoinChange fullRecord
        cases c.op <;> cases c.record <;> simp [hres]
      · simp [hres]
  unfold groupPage
  rw [(foldl_groupVisibilityChange_frame _ _).2, hfold]
  rfl

end Page

/-! ## The record of one id -/

/-- The rows with the given id, each with its normalized id. -/
def rowsOf (id : String) (rows : List Record) : List Record :=
  rows.filterMap fun row =>
    if normalizeNonEmptyString (row.lookup "id") = some id then some (withId row id) else none

theorem lookup_withId (row : Record) (id field : String) :
    (withId row id).lookup field = if field = "id" then some (.str id) else row.lookup field :=
  Assoc.lookup_insert_ite row "id" field (.str id)

variable {rows : List Record} {row : Record}

theorem lookup_id_of_mem_rowsOf {id : String} (h : row ∈ rowsOf id rows) :
    row.lookup "id" = some (.str id) ∧ id ≠ "" := by
  obtain ⟨raw, -, hraw⟩ := mem_filterMap.mp h
  split at hraw
  case isTrue hid =>
    cases hraw
    exact ⟨by simp [lookup_withId], normalizeNonEmptyString_ne_empty hid⟩
  case isFalse => cases hraw

theorem rowsOf_cons (id : String) (row : Record) (rows : List Record) :
    rowsOf id (row :: rows) =
      if normalizeNonEmptyString (row.lookup "id") = some id then
        withId row id :: rowsOf id rows
      else rowsOf id rows := by
  unfold rowsOf
  rw [filterMap_cons]
  split <;> split <;> simp_all

theorem get_foldl_setRow (rows : List Record) (m : OMap String Record) (id : String) :
    (rows.foldl setRow m).get id = (rowsOf id rows).getLast?.or (m.get id) := by
  induction rows generalizing m with
  | nil => rfl
  | cons row rows ih =>
    rw [foldl_cons, ih, rowsOf_cons]
    unfold setRow
    cases normalizeNonEmptyString (row.lookup "id") with
    | none => simp
    | some key =>
      by_cases hkey : key = id
      · subst hkey
        simp only [get_set, if_true, getLast?_cons]
        cases (rowsOf key rows).getLast? <;> rfl
      · simp [get_set, hkey, Ne.symm hkey]

theorem get_lastById (rows : List Record) (id : String) :
    (lastById rows).get id = (rowsOf id rows).getLast? := by
  unfold lastById
  rw [get_foldl_setRow, get_empty, or_none]

/-- One round of the spread for one id: `{ ...existing, ...row, id }`. -/
def spreadOver (id : String) (existing : Option Record) (row : Record) : Option Record :=
  some (Assoc.spread (existing.getD (withId ∅ id)) row)

theorem withId_spread (base row : Record) (id : String) :
    withId (Assoc.spread base row) id = Assoc.spread base (withId row id) := by
  refine Finmap.ext_lookup fun field => ?_
  rw [lookup_withId, Assoc.lookup_spread, Assoc.lookup_spread, lookup_withId]
  by_cases h : field = "id" <;> simp [h]

theorem get_foldl_spreadRow (rows : List Record) (m : OMap String Record) (id : String) :
    (rows.foldl spreadRow m).get id = (rowsOf id rows).foldl (spreadOver id) (m.get id) := by
  induction rows generalizing m with
  | nil => rfl
  | cons row rows ih =>
    rw [foldl_cons, ih, rowsOf_cons]
    unfold spreadRow
    cases normalizeNonEmptyString (row.lookup "id") with
    | none => simp
    | some key =>
      by_cases hkey : key = id
      · subst hkey
        simp only [get_set, if_true, foldl_cons, spreadOver, withId_spread]
      · simp [get_set, hkey, Ne.symm hkey]

theorem get_spreadById (rows : List Record) (id : String) :
    (spreadById rows).get id = (rowsOf id rows).foldl (spreadOver id) none := by
  unfold spreadById
  rw [get_foldl_spreadRow, get_empty]

theorem lookup_foldl_spreadOver {id : String} (rows : List Record)
    (h : ∀ row ∈ rows, row.lookup "id" = some (.str id)) (field : String)
    (existing : Option Record) :
    (rows.foldl (spreadOver id) existing).bind (fun record => record.lookup field) =
      ((rows.filterMap fun row => row.lookup field).getLast?).or
        (existing.bind fun record => record.lookup field) := by
  induction rows generalizing existing with
  | nil => rfl
  | cons row rows ih =>
    rw [foldl_cons, ih (fun x hx => h x (mem_cons_of_mem _ hx)), filterMap_cons]
    have hid := h row mem_cons_self
    have hstep : (spreadOver id existing row).bind (fun record => record.lookup field) =
        (row.lookup field).or (existing.bind fun record => record.lookup field) := by
      unfold spreadOver
      rw [bind_some, Assoc.lookup_spread]
      cases existing with
      | none =>
        by_cases hfield : field = "id"
        · rw [hfield, hid]
          rfl
        · simp [lookup_withId, hfield]
      | some record => rfl
    rw [hstep]
    cases hrow : row.lookup field with
    | none => simp
    | some value =>
      simp only [some_or, getLast?_cons]
      cases (rows.filterMap fun row => row.lookup field).getLast? <;> rfl

theorem isSome_foldl_spreadOver (id : String) (rows : List Record) :
    (rows.foldl (spreadOver id) none).isSome ↔ rows ≠ [] := by
  have hsome : ∀ (rows : List Record) (existing : Option Record), existing.isSome →
      (rows.foldl (spreadOver id) existing).isSome := by
    intro rows
    induction rows with
    | nil => exact fun _ h => h
    | cons row rows ih => exact fun _ _ => ih _ rfl
  cases rows with
  | nil => simp
  | cons row rows => simpa using hsome rows (spreadOver id none row) rfl

theorem recordId_of_get_lastById {id : String} (h : (lastById rows).get id = some row) :
    recordId row = some id := by
  rw [get_lastById] at h
  have hid := lookup_id_of_mem_rowsOf (mem_of_getLast? h)
  simp [recordId, hid.1, hid.2]

theorem lookup_get_spreadById (rows : List Record) (id field : String) :
    ((spreadById rows).get id).bind (fun record => record.lookup field) =
      ((rowsOf id rows).filterMap fun row => row.lookup field).getLast? := by
  rw [get_spreadById,
    lookup_foldl_spreadOver (rowsOf id rows) fun row hrow => (lookup_id_of_mem_rowsOf hrow).1]
  simp

theorem recordId_of_get_spreadById {id : String} (h : (spreadById rows).get id = some row) :
    recordId row = some id := by
  have hne : rowsOf id rows ≠ [] := by
    rw [← isSome_foldl_spreadOver id, ← get_spreadById, h]
    rfl
  have hlookup := lookup_get_spreadById rows id "id"
  rw [h, bind_some] at hlookup
  have hall : ((rowsOf id rows).filterMap fun row => row.lookup "id") =
      (rowsOf id rows).map fun _ => Value.str id := by
    rw [← filterMap_eq_map]
    exact filterMap_congr fun x hx => (lookup_id_of_mem_rowsOf hx).1
  rw [hall, getLast?_map, getLast?_eq_some_getLast hne] at hlookup
  have hid := lookup_id_of_mem_rowsOf (getLast_mem hne)
  simp [recordId, hlookup, hid.2]

theorem filterMap_sortById {δ : Type*} (f : Record → Option δ) (id : String)
    (m : OMap String Record)
    (hf : ∀ a row, m.get a = some row → a ≠ id → f row = none) :
    (sortById m.values).filterMap f = (m.get id).toList.filterMap f := by
  have hvalues := filterMap_values f id m hf
  have hperm : ((sortById m.values).filterMap f).Perm ((m.get id).toList.filterMap f) := by
    rw [← hvalues]
    exact (perm_insertionSort _ m.values).filterMap f
  cases hget : m.get id with
  | none =>
    rw [hget] at hperm
    exact perm_nil.mp hperm
  | some row =>
    rw [hget] at hperm
    cases hrow : f row with
    | none =>
      simp only [toList_some, filterMap_cons, hrow, filterMap_nil] at hperm ⊢
      exact perm_nil.mp hperm
    | some value =>
      simp only [toList_some, filterMap_cons, hrow, filterMap_nil] at hperm ⊢
      exact perm_singleton.mp hperm

end SuperFunctions.Datafn.Server.PullPage
