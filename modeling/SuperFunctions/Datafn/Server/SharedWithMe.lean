import SuperFunctions.Datafn.Client.SortOrder
import SuperFunctions.Datafn.Server.Pagination
import SuperFunctions.Datafn.Server.ShareAccess

/-!
# Records shared with me

The query over every namespace that shares records with the actor: a page of each namespace, and
one page of those pages. Namespaces, records and fields are cut before they are put together.
-/
namespace SuperFunctions.Datafn.Server.SharedWithMe

open Lib.StableSort Datafn.Core Client.LocalQuery
open Client.SortOrder (Clash directed)
open Principals ShareAccess Pagination List Option

/-! ## The query -/

/-- How the query of one namespace is carried out. -/
inductive Strategy where
  | pushdown
  | inMemory
  deriving DecidableEq

/-- The fields a query asks for; foreign keys count as omitted where they are left out. -/
structure Selection where
  baseFields : List String
  nonNullable : List String
  select : List String
  omitted : List String

/-- A query without a cursor or groups. Its relation tokens add members of their own. -/
structure SharedQuery where
  sort : List SortTerm
  limit : Option Nat
  offset : Option Nat
  count : Bool
  selection : Selection
  expand : String → Fields → Fields
  expand_apart : ∀ ns record, ∀ name ∈ "id" :: "__ns" :: sort.map SortTerm.field,
    (expand ns record).lookup name = none
  sort_apart : ∀ term ∈ sort, term.field ≠ "__ns"

/-- The grants of the actor's principals, and each namespace's rows and filters. -/
structure SharedData where
  grants : List PermissionRow
  rows : String → List Fields
  passes : String → Fields → Bool

structure SharedResult where
  data : List Fields
  count : Option Nat

def Selection.keeps (s : Selection) (field : String) : Bool :=
  field = "id" || (field ∉ s.omitted &&
    (field ∈ s.select || ((s.select = [] || "*" ∈ s.select) && field ∈ s.baseFields)))

/-- `materializeSelect` -/
def materialize (q : SharedQuery) (ns : String) (record : Fields) : Fields :=
  let stripped := record.filter fun e =>
    !(Json.isNullish (record.lookup e.1) && e.1 ∈ q.selection.nonNullable)
  stripped.filter (fun e => q.selection.keeps e.1) ++ q.expand ns record

/-! ## Access -/

structure NamespaceAccess where
  scope : Bool
  recordIds : List String

def isRead (grant : PermissionRow) : Bool :=
  isGrantActive grant.revokedAt && grant.resourceNs ≠ ""

def recordId (record : Fields) : Option String :=
  match record.lookup "id" with
  | some (.str id) => some id
  | _ => none

/-- `resolveSharedWithMeNamespaceAccess`, for one namespace -/
def namespaceAccess (grants : List PermissionRow) (ns : String) : NamespaceAccess :=
  let rows := grants.filter fun grant => isRead grant && grant.resourceNs = ns
  ⟨rows.any isScopeRow, (rows.filter fun row => !isScopeRow row).filterMap fun row =>
    textOf row.resourceId⟩

section
variable (rt : Runtime)

def localeLe (a b : String) : Prop := rt.localeCompare a b ≠ .gt

instance : DecidableRel (localeLe rt) :=
  fun a b => inferInstanceAs (Decidable (rt.localeCompare a b ≠ .gt))

def sourceNamespaces (grants : List PermissionRow) : List String :=
  ((grants.filter isRead).map PermissionRow.resourceNs).eraseDups.insertionSort (localeLe rt)

/-- The rows that the filters and the list of ids let through. -/
def matching (data : SharedData) (ns : String) : List Fields :=
  let access := namespaceAccess data.grants ns
  (data.rows ns).filter fun record =>
    (access.scope || (recordId record).any (· ∈ access.recordIds)) && data.passes ns record

/-! ## The pages -/

/-- `parseSortTerms` -/
def sortTermsOf (sort : List SortTerm) : List SortTerm :=
  if sort = [] then [⟨"id", .asc⟩] else sort

def executeSingleQuery (strategy : Strategy) (q : SharedQuery) (data : SharedData) (ns : String) :
    Except ExecutionError (List Fields) :=
  let page : PageQuery := ⟨sortTermsOf q.sort, none, none, q.limit, q.offset⟩
  let found :=
    match strategy with
    | .inMemory => executePage rt (matching data ns) page
    | .pushdown => pushdownPage rt (sortedAdapter rt (matching data ns) page.sortTerms) page
  found.map fun page => page.1.map (materialize q ns)

/-- `{ ...record, __ns }`, where a record that names a namespace keeps it -/
def withNamespace (ns : String) (record : Fields) : Fields :=
  let own :=
    match record.lookup "__ns" with
    | some (.str own) => if own = "" then ns else own
    | _ => ns
  ("__ns", .str own) :: record.filter fun e => e.1 ≠ "__ns"

def namespaceOf (record : Fields) : String :=
  match record.lookup "__ns" with
  | some (.str ns) => ns
  | _ => ""

def mergedLe (sort : List SortTerm) (a b : Fields) : Prop :=
  if sort = [] then
    (rt.localeCompare (namespaceOf a) (namespaceOf b)).then
      (rt.localeCompare (idString rt a) (idString rt b)) ≠ .gt
  else recordLe rt sort a b

instance (sort : List SortTerm) : DecidableRel (mergedLe rt sort) := fun a b => by
  unfold mergedLe
  infer_instance

def mergeSharedWithMeRows (perNamespaceRows : List (String × List Fields)) (q : SharedQuery) :
    SharedResult :=
  let merged := perNamespaceRows.flatMap fun entry => entry.2.map (withNamespace entry.1)
  let sorted := merged.insertionSort (mergedLe rt q.sort)
  ⟨applyLimitOffset sorted q.limit q.offset, if q.count then some sorted.length else none⟩

def executeSharedWithMeQuery (strategy : Strategy) (q : SharedQuery) (data : SharedData) :
    Except ExecutionError SharedResult :=
  let namespaces := sourceNamespaces rt data.grants
  if namespaces = [] then .ok ⟨[], if q.count then some 0 else none⟩
  else
    let accessed := namespaces.filter fun ns =>
      (namespaceAccess data.grants ns).scope || !(namespaceAccess data.grants ns).recordIds.isEmpty
    (accessed.mapM fun ns => (executeSingleQuery rt strategy q data ns).map fun rows =>
      (ns, rows)).map fun perNamespaceRows => mergeSharedWithMeRows rt perNamespaceRows q

/-! ## What the query asks for -/

/-- A grant on the whole resource or on the record. -/
def granted (data : SharedData) (ns : String) (record : Fields) : Bool :=
  data.grants.any fun grant => isRead grant && grant.resourceNs = ns &&
    (isScopeRow grant || (recordId record).any fun id => textOf grant.resourceId = some id)

/-- All rows of all namespaces that the actor may see and the filters match. -/
def accessibleRows (data : SharedData) : List (String × Fields) :=
  (sourceNamespaces rt data.grants).flatMap fun ns =>
    ((data.rows ns).filter fun record => granted data ns record && data.passes ns record).map
      fun record => (ns, record)

/-- The order of the sort, or that of the namespaces and the ids. -/
def sharedLe (sort : List SortTerm) (a b : String × Fields) : Prop :=
  if sort = [] then
    (rt.localeCompare a.1 b.1).then (rt.localeCompare (idString rt a.2) (idString rt b.2)) ≠ .gt
  else recordLe rt sort a.2 b.2

instance (sort : List SortTerm) : DecidableRel (sharedLe rt sort) := fun a b => by
  unfold sharedLe
  infer_instance

def present (q : SharedQuery) (row : String × Fields) : Fields :=
  withNamespace row.1 (materialize q row.1 row.2)

def sharedResult (q : SharedQuery) (data : SharedData) : SharedResult :=
  let rows := (accessibleRows rt data).insertionSort (sharedLe rt q.sort)
  ⟨applyLimitOffset (rows.map (present q)) q.limit q.offset,
    if q.count then some rows.length else none⟩

/-- The records have texts for ids, one record an id in each namespace, a record that names a
namespace names its own, and the sort is an order on the rows. -/
structure Ordered (q : SharedQuery) (data : SharedData) : Prop where
  ids : ∀ row ∈ accessibleRows rt data, ∃ id, row.2.lookup "id" = some (.str id)
  unique : ∀ ns, ((data.rows ns).map recordId).Nodup
  own : ∀ row ∈ accessibleRows rt data,
    row.2.lookup "__ns" = none ∨ row.2.lookup "__ns" = some (.str row.1)
  noClash : ∀ a ∈ accessibleRows rt data, ∀ b ∈ accessibleRows rt data, ∀ term ∈ q.sort,
    ¬ Clash (a.2.lookup term.field) (b.2.lookup term.field)
  consistent : q.sort ≠ [] → ConsistentOn (sharedLe rt q.sort) (accessibleRows rt data)

/-- The query is answered with the page of all accessible rows, whatever they are. -/
def Answered (strategy : Strategy) (q : SharedQuery) : Prop :=
  ∀ data, Ordered rt q data →
    executeSharedWithMeQuery rt strategy q data = .ok (sharedResult rt q data)

/-- No page is cut short of rows that a later page needs, and the select keeps what is sorted by. -/
def PagesAddUp (strategy : Strategy) (q : SharedQuery) : Prop :=
  (q.limit = some 0 ∨
    (q.offset.getD 0 = 0 ∧ ∀ term ∈ q.sort, q.selection.keeps term.field = true)) ∧
  (q.count = true → q.offset.getD 0 = 0 ∧
    (q.limit = none ∨ (q.limit = some 0 ∧ strategy = .inMemory)))

end

/-! ## The pages of the namespaces -/

section
variable {rt : Runtime} {strategy : Strategy} {q : SharedQuery} {data : SharedData}

theorem matching_eq (data : SharedData) (ns : String) : matching data ns =
    (data.rows ns).filter fun record => granted data ns record && data.passes ns record := by
  apply List.filter_congr
  intro record _
  have hids : ∀ id, id ∈ (namespaceAccess data.grants ns).recordIds ↔ ∃ grant,
      ((grant ∈ data.grants ∧ (isRead grant && decide (grant.resourceNs = ns)) = true) ∧
        (!isScopeRow grant) = true) ∧ textOf grant.resourceId = some id := by
    intro id
    simp only [namespaceAccess, List.mem_filterMap, List.mem_filter]
  congr 1
  rw [Bool.eq_iff_iff]
  simp only [granted, Bool.or_eq_true, Option.any_eq_true, decide_eq_true_eq, hids]
  simp only [namespaceAccess, List.any_eq_true, List.mem_filter, Bool.and_eq_true,
    Bool.or_eq_true, Option.any_eq_true, decide_eq_true_eq]
  constructor
  · intro h
    rcases h with ⟨grant, ⟨hgrant, hread⟩, hscope⟩ | ⟨id, hid, grant, ⟨⟨hgrant, hread⟩, -⟩, htext⟩
    · exact ⟨grant, hgrant, hread, .inl hscope⟩
    · exact ⟨grant, hgrant, hread, .inr ⟨id, hid, htext⟩⟩
  · rintro ⟨grant, hgrant, hread, hwhat⟩
    cases hscope : isScopeRow grant with
    | true => exact .inl ⟨grant, ⟨hgrant, hread⟩, hscope⟩
    | false =>
      rw [hscope] at hwhat
      obtain ⟨id, hid, htext⟩ := hwhat.resolve_left Bool.false_ne_true
      exact .inr ⟨id, hid, grant, ⟨⟨hgrant, hread⟩, by rw [hscope]; rfl⟩, htext⟩

/-- The rows of one namespace, each with its namespace. -/
def partOf (data : SharedData) (ns : String) : List (String × Fields) :=
  (matching data ns).map fun record => (ns, record)

theorem accessibleRows_eq : accessibleRows rt data =
    ((sourceNamespaces rt data.grants).map (partOf data)).flatten := by
  rw [accessibleRows, flatMap_def]
  congr 2
  funext ns
  rw [partOf, matching_eq]

theorem matching_skipped {ns : String} (hscope : (namespaceAccess data.grants ns).scope = false)
    (hids : (namespaceAccess data.grants ns).recordIds = []) : matching data ns = [] := by
  rw [matching, filter_eq_nil_iff]
  intro record _
  rw [hscope, hids]
  cases recordId record <;> simp

/-- The limit of a namespace's page: none at zero, but the adapter is asked for one row more. -/
def pageLimit : Strategy → Option Nat → Option Nat
  | .inMemory, some 0 => none
  | .pushdown, some 0 => some 1
  | _, limit => limit

/-- The page of a namespace. -/
def pageOf (rt : Runtime) (strategy : Strategy) (q : SharedQuery) (data : SharedData)
    (ns : String) : List Fields :=
  applyLimitOffset (sortRecords rt (matching data ns) (sortTermsOf q.sort))
    (pageLimit strategy q.limit) q.offset

theorem executeSingleQuery_eq (ns : String) : executeSingleQuery rt strategy q data ns =
    .ok ((pageOf rt strategy q data ns).map (materialize q ns)) := by
  simp only [executeSingleQuery, pageOf]
  cases strategy with
  | inMemory =>
    rcases hlimit : q.limit with _ | _ | k
    · simp [executePage, pageLimit, applyLimitOffset, truthy, Except.map]
    · simp [executePage, pageLimit, applyLimitOffset, truthy, Except.map]
    · simp [executePage, pageLimit, applyLimitOffset, truthy, Except.map, take_take]
  | pushdown =>
    rcases hlimit : q.limit with _ | _ | k
    · simp [pushdownPage, sortedAdapter, pageLimit, applyLimitOffset, truthy, Except.map]
    · simp [pushdownPage, sortedAdapter, pageLimit, applyLimitOffset, truthy, Except.map]
    · simp [pushdownPage, sortedAdapter, pageLimit, applyLimitOffset, truthy, Except.map,
        take_take]

/-- The rows that are merged, before they are presented. -/
def mergedRows (rt : Runtime) (strategy : Strategy) (q : SharedQuery) (data : SharedData) :
    List (String × Fields) :=
  (sourceNamespaces rt data.grants).flatMap fun ns =>
    (pageOf rt strategy q data ns).map fun record => (ns, record)

theorem flatMap_filter_nil {α β : Type} {f : α → List β} {p : α → Bool} (l : List α)
    (h : ∀ a ∈ l, p a = false → f a = []) : (l.filter p).flatMap f = l.flatMap f := by
  induction l with
  | nil => rfl
  | cons a l ih =>
    have hrest := ih fun b hb => h b (mem_cons_of_mem a hb)
    rw [filter_cons, flatMap_cons]
    split
    case isTrue hp => rw [flatMap_cons, hrest]
    case isFalse hp => rw [h a mem_cons_self (Bool.eq_false_iff.mpr hp), hrest, nil_append]

theorem executeSharedWithMeQuery_eq : executeSharedWithMeQuery rt strategy q data = .ok
    ⟨applyLimitOffset (((mergedRows rt strategy q data).map (present q)).insertionSort
        (mergedLe rt q.sort)) q.limit q.offset,
      if q.count then some (mergedRows rt strategy q data).length else none⟩ := by
  have hpages : ∀ namespaces : List String, (namespaces.mapM fun ns =>
      (executeSingleQuery rt strategy q data ns).map fun rows => (ns, rows)) =
        .ok (namespaces.map fun ns =>
          (ns, (pageOf rt strategy q data ns).map (materialize q ns))) := by
    intro namespaces
    simp only [executeSingleQuery_eq, Except.map]
    exact List.mapM_pure
  simp only [executeSharedWithMeQuery, hpages]
  split
  case isTrue hnone => 
    rw [mergedRows, hnone]
    rcases q.limit with _ | n <;> simp [applyLimitOffset]
  case isFalse =>
    simp only [Except.map, mergeSharedWithMeRows]
    have hrows : ((sourceNamespaces rt data.grants).filter fun ns =>
        (namespaceAccess data.grants ns).scope ||
          !(namespaceAccess data.grants ns).recordIds.isEmpty).flatMap (fun ns =>
            ((pageOf rt strategy q data ns).map (materialize q ns)).map (withNamespace ns)) =
        (mergedRows rt strategy q data).map (present q) := by
      rw [mergedRows, List.map_flatMap, flatMap_filter_nil]
      · simp only [List.map_map]
        rfl
      intro ns _ hnone
      obtain ⟨hscope, hids⟩ := Bool.or_eq_false_iff.mp hnone
      have hempty := matching_skipped hscope (by simpa using hids)
      rw [pageOf, hempty]
      rcases pageLimit strategy q.limit with _ | n <;> simp [applyLimitOffset, sortRecords]
    rw [List.flatMap_map, hrows, List.length_insertionSort, List.length_map]

end

/-! ## The order of what is presented -/

section
variable {rt : Runtime} {strategy : Strategy} {q : SharedQuery} {data : SharedData}

theorem lookup_filter_key (p : String → Bool) (record : Fields) (name : String) :
    (record.filter fun e => p e.1).lookup name = if p name then record.lookup name else none := by
  induction record with
  | nil => simp
  | cons e record ih =>
    obtain ⟨key, value⟩ := e
    rw [filter_cons]
    by_cases hkey : name = key
    · subst hkey
      cases hp : p name with
      | true => simp
      | false => simpa [hp] using ih
    · have hne : (name == key) = false := beq_eq_false_iff_ne.mpr hkey
      split <;> simp [lookup_cons, hne, ih]

/-- A value that is read as stored, but for a null of a field that has none. -/
def shown (q : SharedQuery) (name : String) (value : Option Json) : Option Json :=
  if Json.isNullish value && name ∈ q.selection.nonNullable then none else value

theorem lookup_materialize (ns : String) (record : Fields) {name : String}
    (hname : name ∈ "id" :: "__ns" :: q.sort.map SortTerm.field) :
    (materialize q ns record).lookup name =
      if q.selection.keeps name then shown q name (record.lookup name) else none := by
  rw [materialize, lookup_append, q.expand_apart ns record name hname, or_none]
  rw [lookup_filter_key q.selection.keeps, lookup_filter_key (fun key =>
    !(Json.isNullish (record.lookup key) && decide (key ∈ q.selection.nonNullable)))]
  rw [shown]
  split
  · cases Json.isNullish (record.lookup name) && decide (name ∈ q.selection.nonNullable) <;> rfl
  · rfl

theorem lookup_withNamespace (ns : String) (record : Fields) {name : String} (h : name ≠ "__ns") :
    (withNamespace ns record).lookup name = record.lookup name := by
  have hkeep := lookup_filter_key (fun key => decide (key ≠ "__ns")) record name
  rw [if_pos (decide_eq_true h)] at hkeep
  rwa [withNamespace, lookup_cons, beq_eq_false_iff_ne.mpr h]

variable {row : String × Fields} {id : String}

theorem idString_present (hid : row.2.lookup "id" = some (.str id)) :
    idString rt (present q row) = id := by
  have hkeeps : q.selection.keeps "id" = true := by simp [Selection.keeps]
  rw [idString, present, lookup_withNamespace _ _ (by decide),
    lookup_materialize _ _ mem_cons_self, if_pos hkeeps, hid]
  rfl

theorem idString_of_lookup {record : Fields} (hid : record.lookup "id" = some (.str id)) :
    idString rt record = id := by
  rw [idString, hid]

theorem namespaceOf_present
    (hown : row.2.lookup "__ns" = none ∨ row.2.lookup "__ns" = some (.str row.1)) :
    namespaceOf (present q row) = row.1 := by
  rw [namespaceOf, present, withNamespace, lookup_cons_self]
  rw [lookup_materialize _ _ (mem_cons_of_mem _ mem_cons_self)]
  show (match (if q.selection.keeps "__ns" then shown q "__ns" (row.2.lookup "__ns") else none) with
    | some (.str own) => if own = "" then row.1 else own
    | _ => row.1) = row.1
  rcases hown with hown | hown <;> rw [hown] <;> cases q.selection.keeps "__ns"
  · rfl
  · simp [shown]
  · rfl
  · show (if row.1 = "" then row.1 else row.1) = row.1
    rw [ite_self]

theorem strictEq_of_isNullish {u v : Option Json} (h : Json.isNullish u ≠ Json.isNullish v) :
    Json.strictEq u v = false := by
  rcases u with _ | u <;> rcases v with _ | v
  · exact absurd rfl h
  · cases v <;> rfl
  · cases u <;> rfl
  · cases u <;> cases v <;> first | rfl | exact absurd rfl h

theorem compare_shown (name : String) {u v : Option Json} (h : ¬ Clash u v) :
    Json.strictEq (shown q name u) (shown q name v) = Json.strictEq u v ∧
      (Json.strictEq u v = false →
        compareValues rt (shown q name u) (shown q name v) = compareValues rt u v) := by
  have hnone : Json.isNullish none = true := rfl
  unfold shown
  by_cases hnull : name ∈ q.selection.nonNullable
  · simp only [hnull, decide_true, Bool.and_true]
    cases hu : Json.isNullish u <;> cases hv : Json.isNullish v
    · exact ⟨rfl, fun _ => rfl⟩
    · have hdiff : Json.strictEq u v = false :=
        strictEq_of_isNullish (by rw [hu, hv]; decide)
      have hshown : Json.strictEq u none = false :=
        strictEq_of_isNullish (by rw [hu, hnone]; decide)
      refine ⟨hshown.trans hdiff.symm, fun _ => ?_⟩
      simp only [compareValues, hu, hv, hnone, Bool.false_eq_true, if_true, if_false]
    · have hdiff : Json.strictEq u v = false :=
        strictEq_of_isNullish (by rw [hu, hv]; decide)
      have hshown : Json.strictEq none v = false :=
        strictEq_of_isNullish (by rw [hv, hnone]; decide)
      refine ⟨hshown.trans hdiff.symm, fun _ => ?_⟩
      simp only [compareValues, hu, hnone, if_true]
    · cases hsame : Json.strictEq u v with
      | false => exact absurd ⟨hu, hv, hsame⟩ h
      | true => exact ⟨rfl, fun hfalse => absurd hfalse (by decide)⟩
  · simp [hnull]

theorem compareRecords_congr {terms : List SortTerm} {a b a' b' : Fields}
    (ha : idString rt a' = idString rt a) (hb : idString rt b' = idString rt b)
    (h : ∀ term ∈ terms,
      Json.strictEq (a'.lookup term.field) (b'.lookup term.field) =
        Json.strictEq (a.lookup term.field) (b.lookup term.field) ∧
      (Json.strictEq (a.lookup term.field) (b.lookup term.field) = false →
        compareValues rt (a'.lookup term.field) (b'.lookup term.field) =
          compareValues rt (a.lookup term.field) (b.lookup term.field))) :
    compareRecords rt terms a' b' = compareRecords rt terms a b := by
  induction terms with
  | nil => rw [compareRecords, compareRecords, ha, hb]
  | cons term terms ih =>
    obtain ⟨hsame, hvalues⟩ := h term mem_cons_self
    have hrest := ih fun t ht => h t (mem_cons_of_mem _ ht)
    rw [compareRecords, compareRecords, hsame, hrest]
    split
    case isTrue => rfl
    case isFalse hdiff => rw [hvalues (Bool.eq_false_iff.mpr hdiff)]

theorem mergedLe_present (hordered : Ordered rt q data)
    (hkeeps : ∀ term ∈ q.sort, q.selection.keeps term.field = true) {a b : String × Fields}
    (ha : a ∈ accessibleRows rt data) (hb : b ∈ accessibleRows rt data) :
    sharedLe rt q.sort a b ↔ mergedLe rt q.sort (present q a) (present q b) := by
  obtain ⟨i, hi⟩ := hordered.ids a ha
  obtain ⟨j, hj⟩ := hordered.ids b hb
  have hids : idString rt (present q a) = idString rt a.2 ∧
      idString rt (present q b) = idString rt b.2 :=
    ⟨(idString_present hi).trans (idString_of_lookup hi).symm,
      (idString_present hj).trans (idString_of_lookup hj).symm⟩
  rw [sharedLe, mergedLe]
  split
  case isTrue =>
    rw [namespaceOf_present (hordered.own a ha), namespaceOf_present (hordered.own b hb),
      hids.1, hids.2]
  case isFalse =>
    rw [recordLe, recordLe, compareRecords_congr hids.1 hids.2]
    intro term hterm
    have hlookup : ∀ row : String × Fields, (present q row).lookup term.field =
        shown q term.field (row.2.lookup term.field) := by
      intro row
      rw [present, lookup_withNamespace _ _ (q.sort_apart term hterm), lookup_materialize,
        if_pos (hkeeps term hterm)]
      exact mem_cons_of_mem _ (mem_cons_of_mem _ (mem_map_of_mem hterm))
    rw [hlookup, hlookup]
    exact compare_shown term.field (hordered.noClash a ha b hb term hterm)

theorem localeCompare_self (s : String) : rt.localeCompare s s = .eq := by
  have hswap := rt.localeCompare_swap s s
  cases h : rt.localeCompare s s with
  | eq => rfl
  | lt | gt => rw [h] at hswap; cases hswap

theorem recordLe_iff_sharedLe {ns : String} {a b : Fields} {i j : String}
    (hi : a.lookup "id" = some (.str i)) (hj : b.lookup "id" = some (.str j)) :
    recordLe rt (sortTermsOf q.sort) a b ↔ sharedLe rt q.sort (ns, a) (ns, b) := by
  rw [sharedLe, sortTermsOf]
  split
  case isFalse => exact Iff.rfl
  case isTrue =>
    rw [localeCompare_self, recordLe, compareRecords, compareRecords]
    simp only [hi, hj, idString_of_lookup hi, idString_of_lookup hj, Json.strictEq,
      compareValues, Json.isNullish]
    cases rt.localeCompare i j <;> simp

instance transCmp_localeCompare : Std.TransCmp rt.localeCompare where
  eq_swap {a b} := (rt.localeCompare_swap b a).symm
  isLE_trans {a b c} hab hbc := by
    rw [isLE_iff] at hab hbc ⊢
    exact rt.localeCompare_trans a b c hab hbc

theorem consistentOn_nil (rows : List (String × Fields)) : ConsistentOn (sharedLe rt []) rows := by
  let cmp : String × Fields → String × Fields → Ordering :=
    compareLex (fun a b => rt.localeCompare a.1 b.1)
      fun a b => rt.localeCompare (idString rt a.2) (idString rt b.2)
  have hfirst : Std.TransCmp fun a b : String × Fields => rt.localeCompare a.1 b.1 :=
    { eq_swap := transCmp_localeCompare.eq_swap, isLE_trans := transCmp_localeCompare.isLE_trans }
  have hsecond : Std.TransCmp fun a b : String × Fields =>
      rt.localeCompare (idString rt a.2) (idString rt b.2) :=
    { eq_swap := transCmp_localeCompare.eq_swap, isLE_trans := transCmp_localeCompare.isLE_trans }
  have hlex : Std.TransCmp cmp := inferInstance
  have hle : ∀ a b, sharedLe rt [] a b ↔ (cmp a b).isLE = true := fun a b => isLE_iff.symm
  refine ⟨fun a _ b _ => ?_, fun a _ b _ c _ hab hbc => ?_⟩
  · have hswap : cmp b a = (cmp a b).swap := hlex.eq_swap
    rw [hle, hle, hswap]
    cases cmp a b <;> decide
  · rw [hle] at hab hbc ⊢
    exact hlex.isLE_trans hab hbc

theorem ordered_consistent (hordered : Ordered rt q data) :
    ConsistentOn (sharedLe rt q.sort) (accessibleRows rt data) := by
  by_cases hsort : q.sort = []
  · rw [hsort]
    exact consistentOn_nil _
  · exact hordered.consistent hsort

/-! ## Pages that add up -/

theorem mem_accessibleRows {ns : String} {record : Fields}
    (hns : ns ∈ sourceNamespaces rt data.grants) (hrecord : record ∈ matching data ns) :
    (ns, record) ∈ accessibleRows rt data := by
  rw [accessibleRows_eq, mem_flatten]
  exact ⟨partOf data ns, mem_map_of_mem hns, mem_map_of_mem hrecord⟩

theorem sortRecords_part (hordered : Ordered rt q data) {ns : String}
    (hns : ns ∈ sourceNamespaces rt data.grants) :
    (sortRecords rt (matching data ns) (sortTermsOf q.sort)).map (fun record => (ns, record)) =
      (partOf data ns).insertionSort (sharedLe rt q.sort) := by
  apply map_insertionSort
  intro a ha b hb
  obtain ⟨i, hi⟩ := hordered.ids _ (mem_accessibleRows hns ha)
  obtain ⟨j, hj⟩ := hordered.ids _ (mem_accessibleRows hns hb)
  exact recordLe_iff_sharedLe hi hj

/-- A page of the merged first pages is a page of all rows. -/
theorem take_mergedRows (hordered : Ordered rt q data) {n : Nat}
    (hpage : ∀ ns ∈ sourceNamespaces rt data.grants, pageOf rt strategy q data ns =
      (sortRecords rt (matching data ns) (sortTermsOf q.sort)).take n) :
    ((mergedRows rt strategy q data).insertionSort (sharedLe rt q.sort)).take n =
      ((accessibleRows rt data).insertionSort (sharedLe rt q.sort)).take n := by
  have hparts : mergedRows rt strategy q data =
      ((sourceNamespaces rt data.grants).map (partOf data)).flatMap fun part =>
        (part.insertionSort (sharedLe rt q.sort)).take n := by
    rw [mergedRows, flatMap_map]
    apply flatMap_congr
    intro ns hns
    rw [hpage ns hns, map_take, sortRecords_part hordered hns]
  rw [hparts, accessibleRows_eq]
  apply take_insertionSort_parts le_rfl
  rw [← accessibleRows_eq]
  exact ordered_consistent hordered

theorem mergedRows_subset (h : row ∈ mergedRows rt strategy q data) :
    row ∈ accessibleRows rt data := by
  obtain ⟨ns, hns, hrow⟩ := mem_flatMap.mp h
  obtain ⟨record, hrecord, rfl⟩ := mem_map.mp hrow
  apply mem_accessibleRows hns
  have hcut : ∀ (rows : List Fields) (limit offset : Option Nat),
      applyLimitOffset rows limit offset ⊆ rows := by
    intro rows limit offset
    rcases limit with _ | n
    · exact drop_subset _ _
    · exact fun x hx => drop_subset _ _ (take_subset _ _ hx)
  exact (mem_insertionSort _).mp (hcut _ _ _ hrecord)

theorem sorted_present (hordered : Ordered rt q data)
    (hkeeps : ∀ term ∈ q.sort, q.selection.keeps term.field = true) :
    ((mergedRows rt strategy q data).map (present q)).insertionSort (mergedLe rt q.sort) =
      ((mergedRows rt strategy q data).insertionSort (sharedLe rt q.sort)).map (present q) := by
  refine (map_insertionSort _ _ _ _ fun a ha b hb => ?_).symm
  exact mergedLe_present hordered hkeeps (mergedRows_subset ha) (mergedRows_subset hb)

theorem pageOf_whole (hoffset : q.offset.getD 0 = 0) (hlimit : pageLimit strategy q.limit = none)
    (ns : String) : pageOf rt strategy q data ns =
      sortRecords rt (matching data ns) (sortTermsOf q.sort) := by
  simp only [pageOf, applyLimitOffset, hlimit, hoffset, drop_zero]

theorem length_mergedRows (hoffset : q.offset.getD 0 = 0)
    (hlimit : pageLimit strategy q.limit = none) :
    (mergedRows rt strategy q data).length = (accessibleRows rt data).length := by
  rw [mergedRows, accessibleRows_eq, List.length_flatMap, List.length_flatten, List.map_map]
  congr 2
  funext ns
  rw [List.length_map, pageOf_whole hoffset hlimit, sortRecords, List.length_insertionSort]
  exact (List.length_map _).symm

theorem length_matching_le {ns : String} (hns : ns ∈ sourceNamespaces rt data.grants) :
    (matching data ns).length ≤ (accessibleRows rt data).length := by
  have hpart : (partOf data ns).Sublist (accessibleRows rt data) := by
    rw [accessibleRows_eq]
    exact sublist_flatten_of_mem (mem_map_of_mem hns)
  have hle := hpart.length_le
  rwa [partOf, length_map] at hle

theorem data_answered (hordered : Ordered rt q data) (hoffset : q.offset.getD 0 = 0)
    (hkeeps : ∀ term ∈ q.sort, q.selection.keeps term.field = true) (hlimit : q.limit ≠ some 0) :
    applyLimitOffset (((mergedRows rt strategy q data).map (present q)).insertionSort
        (mergedLe rt q.sort)) q.limit q.offset =
      applyLimitOffset (((accessibleRows rt data).insertionSort (sharedLe rt q.sort)).map
        (present q)) q.limit q.offset := by
  rw [sorted_present hordered hkeeps]
  simp only [applyLimitOffset, hoffset, drop_zero]
  rcases hq : q.limit with _ | _ | k
  · -- nothing is cut, so the rows are the first of all rows, however many there are
    have hnone : pageLimit strategy q.limit = none := by
      rw [hq]
      cases strategy <;> rfl
    have hlength : (mergedRows rt strategy q data).length = (accessibleRows rt data).length :=
      length_mergedRows hoffset hnone
    have hpage : ∀ ns ∈ sourceNamespaces rt data.grants, pageOf rt strategy q data ns =
        (sortRecords rt (matching data ns) (sortTermsOf q.sort)).take
          (accessibleRows rt data).length := by
      intro ns hns
      rw [pageOf_whole hoffset hnone, take_of_length_le]
      rw [sortRecords, length_insertionSort]
      exact length_matching_le hns
    have htake := take_mergedRows hordered hpage
    rw [take_of_length_le (by rw [length_insertionSort, hlength]),
      take_of_length_le (by rw [length_insertionSort])] at htake
    rw [htake]
  · exact absurd hq hlimit
  have hpage : ∀ ns ∈ sourceNamespaces rt data.grants, pageOf rt strategy q data ns =
      (sortRecords rt (matching data ns) (sortTermsOf q.sort)).take (k + 1) := by
    intro ns _
    have hcut : pageLimit strategy (some (k + 1)) = some (k + 1) := by cases strategy <;> rfl
    simp only [pageOf, applyLimitOffset, hq, hcut, hoffset, drop_zero]
  have htake := take_mergedRows hordered hpage
  simp only [← map_take, htake]

theorem query_answered (hpages : PagesAddUp strategy q) (hordered : Ordered rt q data) :
    executeSharedWithMeQuery rt strategy q data = .ok (sharedResult rt q data) := by
  rw [executeSharedWithMeQuery_eq, sharedResult]
  have hcount : (if q.count then some (mergedRows rt strategy q data).length else none) =
      if q.count then some ((accessibleRows rt data).insertionSort (sharedLe rt q.sort)).length
        else none := by
    cases hc : q.count with
    | false => rfl
    | true =>
      obtain ⟨hoffset, hlimit⟩ := hpages.2 hc
      have hnone : pageLimit strategy q.limit = none := by
        rcases hlimit with hlimit | ⟨hlimit, rfl⟩
        · rw [hlimit]
          cases strategy <;> rfl
        · rw [hlimit]
          rfl
      rw [length_mergedRows hoffset hnone, length_insertionSort]
  congr 2
  by_cases hlimit : q.limit = some 0
  · simp only [applyLimitOffset, hlimit, take_zero]
  · obtain ⟨hoffset, hkeeps⟩ := hpages.1.resolve_left hlimit
    exact data_answered hordered hoffset hkeeps hlimit

end

/-! ## Pages that do not -/

section
variable {rt : Runtime} {strategy : Strategy} {q : SharedQuery}

/-- Rows that one field tells apart, if anything does. -/
structure Varying (rt : Runtime) {κ : Type} (field : String) (cmp : κ → κ → Ordering)
    (terms : List SortTerm) (row : κ → Fields) : Prop where
  same : ∀ term ∈ terms, term.field ≠ field → ∀ k l,
    Json.strictEq ((row k).lookup term.field) ((row l).lookup term.field) = true
  apart : ∀ k l, if Json.strictEq ((row k).lookup field) ((row l).lookup field) then
    cmp k l = .eq else compareValues rt ((row k).lookup field) ((row l).lookup field) = cmp k l
  tied : ∀ k l, cmp k l = .eq → rt.localeCompare (idString rt (row k)) (idString rt (row l)) = .eq

variable {κ : Type} {field : String} {cmp : κ → κ → Ordering} {terms : List SortTerm}
  {row : κ → Fields}

theorem Varying.tail {term : SortTerm} (h : Varying rt field cmp (term :: terms) row) :
    Varying rt field cmp terms row :=
  ⟨fun t ht => h.same t (mem_cons_of_mem _ ht), h.apart, h.tied⟩

theorem Varying.compare_eq (h : Varying rt field cmp terms row) {k l : κ} (hcmp : cmp k l = .eq) :
    compareRecords rt terms (row k) (row l) = .eq := by
  induction terms with
  | nil => exact h.tied k l hcmp
  | cons term terms ih =>
    have hrest := ih h.tail
    rw [compareRecords]
    split
    case isTrue => exact hrest
    rename_i hdiff
    have hfield : term.field = field := by
      by_contra hne
      exact hdiff (h.same term mem_cons_self hne k l)
    have hvalues := h.apart k l
    rw [← hfield, if_neg hdiff, hcmp] at hvalues
    rw [hvalues, hrest]
    cases term.direction <;> rfl

theorem Varying.compare (h : Varying rt field cmp terms row)
    (hlast : field ∈ terms.map SortTerm.field ∨
      ∀ k l, rt.localeCompare (idString rt (row k)) (idString rt (row l)) = cmp k l) :
    ∃ d, ∀ k l, compareRecords rt terms (row k) (row l) = directed d (cmp k l) := by
  induction terms with
  | nil => exact ⟨.asc, hlast.resolve_left (not_mem_nil)⟩
  | cons term terms ih =>
    by_cases hfield : term.field = field
    · refine ⟨term.direction, fun k l => ?_⟩
      have hvalues := h.apart k l
      rw [compareRecords, hfield]
      split at hvalues
      case isTrue hsame =>
        rw [if_pos hsame, h.tail.compare_eq hvalues, hvalues]
        cases term.direction <;> rfl
      case isFalse hdiff =>
        rw [if_neg hdiff, hvalues]
        cases hcmp : cmp k l with
        | eq =>
          rw [h.tail.compare_eq hcmp]
          cases term.direction <;> rfl
        | lt | gt => cases term.direction <;> rfl
    · obtain ⟨d, hd⟩ := ih h.tail (hlast.imp_left fun hmem => by
        rcases mem_cons.mp hmem with heq | hmem
        · exact absurd heq.symm hfield
        · exact hmem)
      refine ⟨d, fun k l => ?_⟩
      rw [compareRecords, if_pos (h.same term mem_cons_self hfield k l), hd]

theorem Varying.consistentOn [Std.TransCmp cmp] (h : Varying rt field cmp q.sort row)
    (hlast : field ∈ q.sort.map SortTerm.field ∨
      ∀ k l, rt.localeCompare (idString rt (row k)) (idString rt (row l)) = cmp k l)
    {rows : List (String × Fields)} (hrows : ∀ r ∈ rows, ∃ k, r.2 = row k) (hsort : q.sort ≠ []) :
    ConsistentOn (sharedLe rt q.sort) rows := by
  obtain ⟨d, hd⟩ := h.compare hlast
  have hle : ∀ a b : String × Fields, ∀ k l, a.2 = row k → b.2 = row l →
      (sharedLe rt q.sort a b ↔ (directed d (cmp k l)).isLE = true) := by
    intro a b k l ha hb
    rw [sharedLe, if_neg hsort, recordLe, ha, hb, hd, isLE_iff]
  have hswap : ∀ k l, cmp l k = (cmp k l).swap := fun k l => Std.OrientedCmp.eq_swap
  refine ⟨fun a ha b hb => ?_, fun a ha b hb c hc hab hbc => ?_⟩
  · obtain ⟨k, hk⟩ := hrows a ha
    obtain ⟨l, hl⟩ := hrows b hb
    rw [hle a b k l hk hl, hle b a l k hl hk, hswap k l]
    cases cmp k l <;> cases d <;> decide
  · obtain ⟨k, hk⟩ := hrows a ha
    obtain ⟨l, hl⟩ := hrows b hb
    obtain ⟨m, hm⟩ := hrows c hc
    rw [hle a b k l hk hl] at hab
    rw [hle b c l m hl hm] at hbc
    rw [hle a c k m hk hm]
    cases d with
    | asc =>
      simp only [directed] at hab hbc ⊢
      exact Std.TransCmp.isLE_trans hab hbc
    | desc =>
      simp only [directed, ← hswap] at hab hbc ⊢
      exact Std.TransCmp.isLE_trans hbc hab

def scopeGrant (ns : String) : PermissionRow :=
  ⟨"documents", ns, "user:ann", some .null, some (.str "scope"), none, none⟩

/-- Records of which nothing but the id is known. -/
def bareRow (id : String) : Fields := [("id", .str id)]

def bareRows (n : Nat) : List Fields :=
  (List.range n).map fun i => bareRow (String.ofList (List.replicate (i + 1) 'x'))

@[simp] theorem length_bareRows (n : Nat) : (bareRows n).length = n := by simp [bareRows]

/-- As many records as wanted in one namespace. -/
def bareData (n : Nat) : SharedData where
  grants := [scopeGrant "team"]
  rows _ := bareRows n
  passes _ _ := true

theorem matching_bareData (n : Nat) : matching (bareData n) "team" = bareRows n := by
  apply filter_eq_self.mpr
  intro record _
  rfl

theorem accessibleRows_bareData (n : Nat) : accessibleRows rt (bareData n) =
    (bareRows n).map fun record => ("team", record) := by
  have hns : sourceNamespaces rt (bareData n).grants = ["team"] := rfl
  rw [accessibleRows_eq, hns, map_singleton, flatten_singleton, partOf,
    matching_bareData]

theorem length_mergedRows_bareData (n : Nat) : (mergedRows rt strategy q (bareData n)).length =
    (applyLimitOffset (List.replicate n []) (pageLimit strategy q.limit) q.offset).length := by
  have hns : sourceNamespaces rt (bareData n).grants = ["team"] := rfl
  rw [mergedRows, hns, flatMap_singleton, length_map, pageOf, matching_bareData]
  rcases pageLimit strategy q.limit with _ | k <;> simp [applyLimitOffset, sortRecords]

theorem ordered_bareData (n : Nat) : Ordered rt q (bareData n) := by
  have hrows : ∀ r ∈ accessibleRows rt (bareData n), ∃ id, r.2 = bareRow id := by
    intro r hr
    rw [accessibleRows_bareData, bareRows, List.map_map] at hr
    obtain ⟨i, -, rfl⟩ := List.mem_map.mp hr
    exact ⟨_, rfl⟩
  have hlookup : ∀ id name, name ≠ "id" → (bareRow id).lookup name = none := by
    intro id name hname
    rw [bareRow, List.lookup_cons, beq_eq_false_iff_ne.mpr hname]
    rfl
  have hvarying : Varying rt "id" rt.localeCompare q.sort bareRow := by
    refine ⟨fun term _ hne k l => ?_, fun k l => ?_, fun k l h => h⟩
    · rw [hlookup k _ hne, hlookup l _ hne]
      rfl
    · show if (k == l) = true then rt.localeCompare k l = .eq else _
      split
      case isTrue heq => rw [eq_of_beq heq, localeCompare_self]
      case isFalse => rfl
  refine ⟨fun r hr => ?_, fun ns => ?_, fun r hr => ?_, fun a ha b hb term _ => ?_, fun hsort => ?_⟩
  · obtain ⟨id, hid⟩ := hrows r hr
    exact ⟨id, by rw [hid]; rfl⟩
  · show (((List.range n).map fun i => bareRow _).map recordId).Nodup
    rw [List.map_map]
    apply List.Nodup.map_on _ List.nodup_range
    intro i _ j _ heq
    have hlength := congrArg (fun id => (id.getD "").length) heq
    simpa [recordId, bareRow] using hlength
  · obtain ⟨id, hid⟩ := hrows r hr
    exact .inl (by rw [hid]; exact hlookup id _ (by decide))
  · obtain ⟨i, hi⟩ := hrows a ha
    obtain ⟨j, hj⟩ := hrows b hb
    rw [hi, hj]
    rintro ⟨hnull, -, hdiff⟩
    by_cases hname : term.field = "id"
    · rw [hname] at hnull
      cases hnull
    · rw [hlookup i _ hname, hlookup j _ hname] at hdiff
      cases hdiff
  · exact hvarying.consistentOn (.inr fun k l => rfl) hrows hsort

/-- A record with a number in one field beside its id. -/
def markedRow (field : String) (mark : Bool) : Fields :=
  [("id", .str "note"), (field, .num (if mark then 1 else 0))]

/-- Two namespaces, one record each. -/
def pairData (field first second : String) (mark : Bool) : SharedData where
  grants := [scopeGrant first, scopeGrant second]
  rows ns := [markedRow field (if ns = first then mark else !mark)]
  passes _ _ := true

/-- Two names in the order of the locale. -/
structure Names (rt : Runtime) (first second : String) : Prop where
  ne : first ≠ second
  first_ne : first ≠ ""
  second_ne : second ≠ ""
  le : localeLe rt first second

theorem exists_names (rt : Runtime) : ∃ first second, Names rt first second := by
  by_cases hle : localeLe rt "a" "b"
  · exact ⟨"a", "b", by decide, by decide, by decide, hle⟩
  refine ⟨"b", "a", by decide, by decide, by decide, ?_⟩
  have hswap := rt.localeCompare_swap "a" "b"
  rw [not_not.mp hle] at hswap
  rw [localeLe, ← hswap]
  decide

variable {first second : String} {mark : Bool}

section

variable (h : Names rt first second)
include h

theorem namespaces_pairData :
    sourceNamespaces rt (pairData field first second mark).grants = [first, second] := by
  have hread : (pairData field first second mark).grants.filter isRead =
      [scopeGrant first, scopeGrant second] := by
    simp [pairData, isRead, scopeGrant, isGrantActive, h.first_ne, h.second_ne]
  rw [sourceNamespaces, hread]
  have hdups : [first, second].eraseDups = [first, second] := by
    simp [eraseDups_cons, h.ne.symm]
  show ([first, second].eraseDups).insertionSort _ = _
  rw [hdups]
  simp [h.le]

theorem matching_pairData {ns : String} (hns : ns = first ∨ ns = second) :
    matching (pairData field first second mark) ns =
      [markedRow field (if ns = first then mark else !mark)] := by
  have hscope : (namespaceAccess (pairData field first second mark).grants ns).scope = true := by
    rcases hns with rfl | rfl <;> simp [namespaceAccess, pairData, isRead, scopeGrant,
      isGrantActive, isScopeRow, h.first_ne, h.second_ne]
  apply filter_eq_self.mpr
  intro record _
  rw [hscope]
  rfl

theorem accessibleRows_pairData :
    accessibleRows rt (pairData field first second mark) =
      [(first, markedRow field mark), (second, markedRow field !mark)] := by
  rw [accessibleRows_eq, namespaces_pairData h]
  simp only [map_cons, map_nil, flatten_cons, flatten_nil, partOf]
  rw [matching_pairData h (.inl rfl), matching_pairData h (.inr rfl), if_pos rfl,
    if_neg h.ne.symm]
  rfl

theorem mergedRows_pairData (hoffset : q.offset.getD 0 = 0) (hlimit : q.limit ≠ some 0) :
    mergedRows rt strategy q (pairData field first second mark) =
      [(first, markedRow field mark), (second, markedRow field !mark)] := by
  have hpage : ∀ row : Fields,
      applyLimitOffset (sortRecords rt [row] (sortTermsOf q.sort)) (pageLimit strategy q.limit)
        q.offset = [row] := by
    intro row
    rcases hq : q.limit with _ | _ | k
    · cases strategy <;> simp [applyLimitOffset, pageLimit, hoffset, sortRecords]
    · exact absurd hq hlimit
    · cases strategy <;> simp [applyLimitOffset, pageLimit, hoffset, sortRecords]
  rw [mergedRows, namespaces_pairData h]
  simp only [flatMap_cons, flatMap_nil, pageOf]
  rw [matching_pairData h (.inl rfl), matching_pairData h (.inr rfl), if_pos rfl,
    if_neg h.ne.symm, hpage, hpage]
  rfl

end

theorem varying_markedRow (hfield : field ≠ "id") :
    Varying rt field (compare : Bool → Bool → Ordering) terms (markedRow field) := by
  refine ⟨fun term _ hne k l => ?_, fun k l => ?_, fun k l _ => localeCompare_self _⟩
  · rw [markedRow, markedRow]
    by_cases hid : term.field = "id"
    · simp [hid, Json.strictEq]
    · simp [lookup_cons, beq_eq_false_iff_ne.mpr hid, beq_eq_false_iff_ne.mpr hne,
        Json.strictEq]
  · have hlookup : ∀ b, (markedRow field b).lookup field = some (.num (if b then 1 else 0)) := by
      intro b
      rw [markedRow, lookup_cons, beq_eq_false_iff_ne.mpr hfield]
      exact lookup_cons_self
    rw [hlookup, hlookup]
    cases k <;> cases l <;> simp [Json.strictEq, compareValues, Json.isNullish] <;> decide

theorem ordered_pairData (h : Names rt first second) (hfield : field ≠ "id")
    (hns : field ≠ "__ns") (hsorted : field ∈ q.sort.map SortTerm.field) :
    Ordered rt q (pairData field first second mark) := by
  have hrows : ∀ r ∈ accessibleRows rt (pairData field first second mark),
      ∃ b, r.2 = markedRow field b := by
    intro r hr
    rw [accessibleRows_pairData h] at hr
    rcases mem_pair.mp hr with rfl | rfl
    · exact ⟨mark, rfl⟩
    · exact ⟨!mark, rfl⟩
  have hvarying : Varying rt field compare q.sort (markedRow field) := varying_markedRow hfield
  refine ⟨fun r hr => ?_, fun ns => nodup_singleton _, fun r hr => ?_,
    fun a ha b hb term hterm => ?_, fun hsort => ?_⟩
  · obtain ⟨b, hb⟩ := hrows r hr
    exact ⟨"note", by rw [hb]; rfl⟩
  · obtain ⟨b, hb⟩ := hrows r hr
    refine .inl ?_
    rw [hb, markedRow]
    simp [lookup_cons, beq_eq_false_iff_ne.mpr hns.symm]
  · obtain ⟨k, hk⟩ := hrows a ha
    obtain ⟨l, hl⟩ := hrows b hb
    rw [hk, hl]
    rintro ⟨hnull, -, hdiff⟩
    by_cases hname : term.field = field
    · rw [hname, markedRow, lookup_cons, beq_eq_false_iff_ne.mpr hfield] at hnull
      simp [Json.isNullish] at hnull
    · rw [hvarying.same term hterm hname k l] at hdiff
      cases hdiff
  · exact hvarying.consistentOn (.inl hsorted) hrows hsort

/-- What the select leaves out no longer orders the records. -/
theorem mergedLe_pairData (hfield : field ≠ "id") (hnot : q.selection.keeps field = false)
    (hsorted : field ∈ q.sort.map SortTerm.field) :
    mergedLe rt q.sort (present q (first, markedRow field mark))
      (present q (second, markedRow field !mark)) := by
  have hsort : q.sort ≠ [] := fun hnil => by simp [hnil] at hsorted
  let row : Bool → Fields := fun b =>
    if b then present q (first, markedRow field mark)
    else present q (second, markedRow field !mark)
  have hlookup : ∀ b, ∀ name ∈ q.sort.map SortTerm.field, name ≠ "id" →
      (row b).lookup name = none := by
    intro b name hname hid
    obtain ⟨term, hterm, rfl⟩ := mem_map.mp hname
    have hpresent : ∀ r : String × Fields, (∃ m, r.2 = markedRow field m) →
        (present q r).lookup term.field = none := by
      rintro r ⟨m, hm⟩
      rw [present, lookup_withNamespace _ _ (q.sort_apart term hterm), lookup_materialize _ _
        (mem_cons_of_mem _ (mem_cons_of_mem _ hname)), hm]
      split
      case isFalse => rfl
      case isTrue hkeeps =>
        have hne : term.field ≠ field := fun heq => by simp [heq, hnot] at hkeeps
        rw [markedRow]
        simp [lookup_cons, beq_eq_false_iff_ne.mpr hid, beq_eq_false_iff_ne.mpr hne, shown]
    cases b
    · exact hpresent _ ⟨_, rfl⟩
    · exact hpresent _ ⟨_, rfl⟩
  have hid : ∀ b, (row b).lookup "id" = some (.str "note") := by
    have hkeeps : q.selection.keeps "id" = true := by simp [Selection.keeps]
    intro b
    cases b
    all_goals
      show (present q (_, _)).lookup "id" = _
      rfl
  have hvarying : Varying rt field (fun _ _ => .eq) q.sort row := by
    refine ⟨fun term hterm _ k l => ?_, fun k l => ?_, fun k l _ => ?_⟩
    · by_cases hname : term.field = "id"
      · rw [hname, hid, hid]
        rfl
      · rw [hlookup k _ (mem_map_of_mem hterm) hname,
          hlookup l _ (mem_map_of_mem hterm) hname]
        rfl
    · rw [hlookup k _ hsorted hfield, hlookup l _ hsorted hfield]
      rfl
    · rw [idString_of_lookup (hid k), idString_of_lookup (hid l), localeCompare_self]
  have heq : compareRecords rt q.sort (row true) (row false) = .eq := hvarying.compare_eq rfl
  rw [mergedLe, if_neg hsort, recordLe]
  show compareRecords rt q.sort (row true) (row false) ≠ .gt
  rw [heq]
  decide

/-! ## When the pages add up -/

section

variable (h : Answered rt strategy q)
include h

theorem offset_of_answered (hlimit : q.limit ≠ some 0) : q.offset.getD 0 = 0 := by
  by_contra hoffset
  have hanswer := h (bareData (q.offset.getD 0 + 1)) (ordered_bareData _)
  rw [executeSharedWithMeQuery_eq, sharedResult, accessibleRows_bareData] at hanswer
  -- of the rows, one is left behind the offset, and none where the offset counts twice
  have hdata := congrArg (fun r => (r.toOption.map fun r => r.data.length).getD 0) hanswer
  have hlength : (mergedRows rt strategy q (bareData (q.offset.getD 0 + 1))).length = _ :=
    length_mergedRows_bareData _
  simp only [Except.toOption, map_some, getD_some, applyLimitOffset] at hdata hlength
  rcases hq : q.limit with _ | _ | k
  · rw [hq] at hdata hlength
    cases strategy <;> simp [pageLimit] at hdata hlength <;> omega
  · exact absurd hq hlimit
  · rw [hq] at hdata hlength
    cases strategy <;> simp [pageLimit] at hdata hlength <;> omega

theorem count_of_answered (hcount : q.count = true) (n : Nat) :
    (applyLimitOffset (List.replicate n []) (pageLimit strategy q.limit) q.offset).length = n := by
  have hanswer := h (bareData n) (ordered_bareData n)
  rw [executeSharedWithMeQuery_eq, sharedResult, accessibleRows_bareData] at hanswer
  have hcounts := congrArg (fun r => r.toOption.bind SharedResult.count) hanswer
  have hlength : (mergedRows rt strategy q (bareData n)).length = _ := length_mergedRows_bareData n
  rw [← hlength]
  simpa [Except.toOption, hcount] using hcounts

theorem keeps_of_answered (hlimit : q.limit ≠ some 0) (hoffset : q.offset.getD 0 = 0) :
    ∀ term ∈ q.sort, q.selection.keeps term.field = true := by
  intro term hterm
  by_contra hnot
  have hnot := Bool.eq_false_iff.mpr hnot
  have hsorted : term.field ∈ q.sort.map SortTerm.field := mem_map_of_mem hterm
  have hfield : term.field ≠ "id" := fun heq => by simp [heq, Selection.keeps] at hnot
  have hsort : q.sort ≠ [] := fun hnil => by simp [hnil] at hterm
  obtain ⟨first, second, hnames⟩ := exists_names rt
  have hvarying : Varying rt term.field compare q.sort (markedRow term.field) :=
    varying_markedRow hfield
  obtain ⟨d, hd⟩ := hvarying.compare (.inl hsorted)
  -- the record of the second namespace is to come first
  obtain ⟨mark, hmark⟩ : ∃ mark : Bool, directed d (compare mark !mark) = .gt := by
    cases d
    · exact ⟨true, rfl⟩
    · exact ⟨false, rfl⟩
  have hraw : ¬ sharedLe rt q.sort (first, markedRow term.field mark)
      (second, markedRow term.field !mark) := by
    rw [sharedLe, if_neg hsort, recordLe, hd, hmark]
    decide
  have hanswer := h (pairData term.field first second mark)
    (ordered_pairData hnames hfield (q.sort_apart term hterm) hsorted)
  rw [executeSharedWithMeQuery_eq, sharedResult, accessibleRows_pairData hnames,
    mergedRows_pairData hnames hoffset hlimit] at hanswer
  have hmerged : mergedLe rt q.sort (present q (first, markedRow term.field mark))
      (present q (second, markedRow term.field !mark)) := mergedLe_pairData hfield hnot hsorted
  have hhead := congrArg (fun r => r.toOption.bind fun r => r.data.head?.map namespaceOf) hanswer
  have howns : ∀ ns b, namespaceOf (present q (ns, markedRow term.field b)) = ns := by
    intro ns b
    apply namespaceOf_present
    refine .inl ?_
    rw [markedRow]
    simp [lookup_cons, beq_eq_false_iff_ne.mpr (q.sort_apart term hterm).symm]
  simp only [Except.toOption, bind_some, applyLimitOffset, hoffset, drop_zero,
    map_cons, map_nil, insertionSort_cons, insertionSort_nil,
    orderedInsert_nil, orderedInsert_cons, if_pos hmerged, if_neg hraw] at hhead
  rcases hq : q.limit with _ | _ | k
  · rw [hq] at hhead
    simp [howns, hnames.ne] at hhead
  · exact absurd hq hlimit
  · rw [hq] at hhead
    simp [howns, hnames.ne] at hhead

end

/-- Everything but the first record. -/
def skipOne : SharedQuery where
  sort := []
  limit := none
  offset := some 1
  count := false
  selection := ⟨["title"], [], [], []⟩
  expand _ _ := []
  expand_apart _ _ _ _ := rfl
  sort_apart _ h := by cases h

end

end SuperFunctions.Datafn.Server.SharedWithMe
