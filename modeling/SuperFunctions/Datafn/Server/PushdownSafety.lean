import SuperFunctions.Datafn.Server.PlannerClauses

/-!
# Push-down keeps every filter

A pushed-down query asks the adapter for what its filters and the auto filters ask for, exactly if
the converter refuses neither of them.
-/
namespace SuperFunctions.Datafn.Server.PushdownSafety

open Datafn.Core Core.Filters QueryValidation Planner
open PlannerClauses Pushdown List Option

/-! ## Conjunctions -/

variable {resource : String} {items : List Json}

theorem gapFreeItems_iff {schema : ServerSchema} :
    gapFreeItems schema resource items = true ↔
      ∀ item ∈ items, gapFreeItem schema resource item = true := by
  induction items with
  | nil => simp [gapFreeItems]
  | cons item rest ih => simp [gapFreeItems, ih]

theorem patternsInItems_iff :
    patternsInItems items = false ↔ ∀ item ∈ items, patternsInItem item = false := by
  induction items with
  | nil => simp [patternsInItems]
  | cons item rest ih => simp [patternsInItems, ih]

theorem gapFree_conjunction {schema : ServerSchema} :
    gapFree schema resource (conjunction items) = true ↔
      ∀ item ∈ items, gapFreeItem schema resource item = true := by
  simp [conjunction, gapFree, gapFreeMembers, gapFreeEntry, gapFreeItems_iff]

theorem patterns_conjunction :
    hasInMemoryFilterPatterns (conjunction items) = false ↔
      ∀ item ∈ items, patternsInItem item = false := by
  have hdot : isDotted "$and" = false := by decide
  simp [conjunction, hasInMemoryFilterPatterns, patternsInMembers, patternsInEntry,
    patternsInItems_iff, hdot]

/-! ## Merging -/

/-- The filters that come of merging auto filters into the members of existing ones. -/
inductive Merged : Fields → List Json → Json → Prop
  | single (auto : Fields) : Merged [] [.obj auto] (.obj auto)
  | several (autos : List Json) : Merged [] autos (conjunction autos)
  | extended (items autos : List Json) :
    Merged [("$and", .arr items)] autos (conjunction (items ++ autos))
  | nested (members : Fields) (autos : List Json) :
    Merged members autos (conjunction (.obj members :: autos))

variable {members : Fields}

theorem soleConjunction_eq (h : soleConjunction members = some items) :
    members = [("$and", .arr items)] := by
  unfold soleConjunction at h
  split at h
  · split_ifs at h with hkey
    cases h
    rw [hkey]
  · cases h

variable {autos : List Json}

theorem merged_mergeAutoFilters {existing : Option Fields} (hne : autos ≠ [])
    (hobj : ∀ auto ∈ autos, ∃ members, auto = .obj members) :
    ∃ filters, mergeAutoFilters existing autos = some filters ∧
      Merged (existing.getD []) autos filters := by
  have hautos : autos.isEmpty = false := by simpa using hne
  unfold mergeAutoFilters
  rw [hautos]
  by_cases hempty : existing.getD [] = []
  · rw [hempty]
    match autos, hobj with
    | [auto], hobj =>
      obtain ⟨members, rfl⟩ := hobj auto mem_cons_self
      exact ⟨_, rfl, Merged.single members⟩
    | [], _ => exact absurd rfl hne
    | first :: second :: rest, _ => exact ⟨_, rfl, Merged.several _⟩
  · have hmembers : (existing.getD []).isEmpty = false := by simpa using hempty
    rw [hmembers]
    cases hsole : soleConjunction (existing.getD []) with
    | some items =>
      rw [soleConjunction_eq hsole]
      exact ⟨_, rfl, Merged.extended items autos⟩
    | none => exact ⟨_, rfl, Merged.nested _ autos⟩

theorem Merged.object {filters : Json} (h : Merged members autos filters) :
    ∃ merged, filters = .obj merged := by
  cases h with
  | single auto => exact ⟨auto, rfl⟩
  | several | extended | nested => exact ⟨_, rfl⟩

theorem Merged.gapFree_iff {schema : ServerSchema} {filters : Json}
    (h : Merged members autos filters) :
    gapFree schema resource filters = true ↔
      gapFreeMembers schema resource members = true ∧
        ∀ auto ∈ autos, gapFreeItem schema resource auto = true := by
  cases h with
  | single auto => simp [gapFree, gapFreeItem, gapFreeMembers]
  | several => simp [gapFree_conjunction, gapFreeMembers]
  | extended items =>
    simp [gapFree_conjunction, gapFreeMembers, gapFreeEntry, gapFreeItems_iff, or_imp, forall_and]
  | nested => simp [gapFree_conjunction, gapFreeItem]

theorem Merged.patterns_iff {filters : Json} (h : Merged members autos filters) :
    hasInMemoryFilterPatterns filters = false ↔
      patternsInMembers members = false ∧ ∀ auto ∈ autos, patternsInItem auto = false := by
  have hdot : isDotted "$and" = false := by decide
  cases h with
  | single auto => simp [hasInMemoryFilterPatterns, patternsInItem, patternsInMembers]
  | several => simp [patterns_conjunction, patternsInMembers]
  | extended items =>
    simp [patterns_conjunction, patternsInMembers, patternsInEntry, patternsInItems_iff, hdot,
      or_imp, forall_and]
  | nested => simp [patterns_conjunction, patternsInItem]

variable {clause : PushdownWhereClause}

theorem Merged.asks_iff {filters : Json} (h : Merged members autos filters) :
    Asks filters clause ↔ Asks (.obj members) clause ∨ ∃ auto ∈ autos, Asks auto clause := by
  cases h with
  | single auto => simp [asks_nil]
  | several => simp [asks_conjunction, asks_nil]
  | extended items =>
    have hmembers : Asks (.obj [("$and", .arr items)]) clause ↔ ∃ item ∈ items, Asks item clause :=
      asks_conjunction
    simp only [asks_conjunction, hmembers, mem_append, or_and_right, exists_or]
  | nested => rw [asks_conjunction, exists_mem_cons_iff]

/-! ## Auto filters -/

/-- The field of a restriction and its operator. -/
def restriction (field op : String) (opVal : Json) : Json := .obj [(field, .obj [(op, opVal)])]

theorem autoFilters_cases {schema : ServerSchema} {query : Query} {auto : Json}
    (h : auto ∈ autoFilters schema query) :
    ∃ field ∈ ["trashedAt", "isArchived", "isAncestorInactive", "id"],
      ∃ op opVal, auto = restriction field op opVal := by
  unfold autoFilters at h
  split at h
  · cases h
  simp only [mem_append] at h
  obtain ((h | h) | h) | h := h
  all_goals
    split at h
    · obtain rfl := mem_singleton.mp h
      exact ⟨_, by simp, _, _, rfl⟩
    · cases h

theorem autoFilters_object {schema : ServerSchema} {query : Query} :
    ∀ auto ∈ autoFilters schema query, ∃ members, auto = .obj members := by
  intro auto h
  obtain ⟨field, -, op, opVal, rfl⟩ := autoFilters_cases h
  exact ⟨_, rfl⟩

theorem asks_restriction {field op : String} {opVal : Json} (hfield : field ≠ "$and") :
    Asks (restriction field op opVal) clause ↔
      clause = operatorClause field op opVal ((adapterOp op).getD (.other op)) := by
  rw [restriction, asks_cons]
  simp [EntryAsks, hfield, fieldClauses, asks_nil]

theorem field_operatorClause (key op : String) (opVal : Json) (adapter : PushdownOperator) :
    (operatorClause key op opVal adapter).field = key := by
  unfold operatorClause
  split_ifs <;> rfl

theorem field_of_autoFilter {schema : ServerSchema} {query : Query} {auto : Json}
    (h : auto ∈ autoFilters schema query) (hasks : Asks auto clause) :
    clause.field ∈ ["trashedAt", "isArchived", "isAncestorInactive", "id"] := by
  obtain ⟨field, hfield, op, opVal, rfl⟩ := autoFilters_cases h
  have hand : field ≠ "$and" := by
    intro heq
    subst heq
    exact absurd hfield (by decide)
  rwa [(asks_restriction hand).mp hasks, field_operatorClause]

theorem autoFilters_inject (schema : ServerSchema) (query : Query) :
    autoFilters schema (injectCapabilityAutoFilters schema query) = autoFilters schema query := by
  unfold injectCapabilityAutoFilters
  split <;> rfl

theorem resource_inject (schema : ServerSchema) (query : Query) :
    (injectCapabilityAutoFilters schema query).resource = query.resource := by
  unfold injectCapabilityAutoFilters
  split <;> rfl

theorem inject_of_nil {schema : ServerSchema} {query : Query}
    (h : autoFilters schema query = []) : injectCapabilityAutoFilters schema query = query := by
  unfold injectCapabilityAutoFilters
  rw [h]
  rfl

theorem inject_filters {schema : ServerSchema} {query : Query}
    (h : autoFilters schema query ≠ []) :
    ∃ filters, (injectCapabilityAutoFilters schema query).filters = some filters ∧
      Merged ((existingFilters query.filters).getD []) (autoFilters schema query) filters := by
  have hempty : (autoFilters schema query).isEmpty = false := by simpa using h
  unfold injectCapabilityAutoFilters
  rw [hempty]
  exact merged_mergeAutoFilters h autoFilters_object

/-! ## The where clause -/

/-- What the query's own filters ask for. -/
def UserAsks (query : Query) (clause : PushdownWhereClause) : Prop :=
  ∃ filters, query.filters = some filters ∧ Asks filters clause

/-- What the filters or the auto filters ask for. -/
def Asked (schema : ServerSchema) (query : Query) (clause : PushdownWhereClause) : Prop :=
  UserAsks query clause ∨ ∃ auto ∈ autoFilters schema query, Asks auto clause

theorem patterns_of_pushdown {schema : ServerSchema} {query : Query} {filters : Json}
    (h : classifyQuery schema query ≠ .inMemory) (hfilters : query.filters = some filters) :
    hasInMemoryFilterPatterns filters = false := by
  cases hpatterns : hasInMemoryFilterPatterns filters with
  | false => rfl
  | true =>
    exfalso
    apply h
    simp [classifyQuery, hfilters, hpatterns]

theorem not_asks_of_not_truthy {filters : Json} (h : truthy (some filters) = false)
    (clause : PushdownWhereClause) : ¬ Asks filters clause := by
  rw [asks_iff]
  intro hasks
  obtain ⟨members, hentries, e, he, -⟩ := hasks
  cases filters with
  | null => cases hentries
  | bool b | num n => cases hentries; cases he
  | str s =>
    have hs : s = "" := by simpa [truthy] using h
    subst hs
    cases hentries
    cases he
  | arr items => cases h
  | obj members => cases h

variable {clauses : List PushdownWhereClause}

theorem whereClauses_eq {schema : ServerSchema} {query : Query} {filters : Json}
    (hfilters : (injectCapabilityAutoFilters schema query).filters = some filters)
    (htruthy : truthy (some filters) = true)
    (hclauses : convertDfqlFilters schema query.resource filters = some clauses) :
    whereClauses schema query = clauses := by
  unfold whereClauses
  simp only [hfilters, htruthy, resource_inject, hclauses, if_true, getD_some]

theorem mem_whereClauses_of_nil {schema : ServerSchema} {query : Query}
    (hautos : autoFilters schema query = [])
    (hconverted : ∀ filters, query.filters = some filters → truthy (some filters) = true →
      convertDfqlFilters schema query.resource filters ≠ none) (clause : PushdownWhereClause) :
    clause ∈ whereClauses schema query ↔ Asked schema query clause := by
  have hasked : Asked schema query clause ↔ UserAsks query clause := by
    simp [Asked, hautos]
  rw [hasked, UserAsks]
  have hinject := inject_of_nil hautos
  cases hfilters : query.filters with
  | none => simp [whereClauses, hinject, hfilters]
  | some filters =>
    by_cases htruthy : truthy (some filters) = true
    · obtain ⟨clauses, hclauses⟩ := ne_none_iff_exists'.mp (hconverted filters hfilters htruthy)
      rw [whereClauses_eq (by rw [hinject, hfilters]) htruthy hclauses,
        mem_convertDfqlFilters hclauses]
      simp
    · have hfalsy : truthy (some filters) = false := by simpa using htruthy
      simp [whereClauses, hinject, hfilters, hfalsy, not_asks_of_not_truthy hfalsy]

/-- With auto filters the clauses are those of the filter's members and of the auto filters,
which are injected a second time. -/
theorem mem_whereClauses_of_ne_nil {schema : ServerSchema} {query : Query} {filters : Json}
    (hautos : autoFilters schema query ≠ [])
    (hfilters : (injectCapabilityAutoFilters schema query).filters = some filters)
    (hpush : classifyQuery schema (injectCapabilityAutoFilters schema query) ≠ .inMemory)
    (hgap : gapFree schema query.resource filters = true) (clause : PushdownWhereClause) :
    clause ∈ whereClauses schema (injectCapabilityAutoFilters schema query) ↔
      Asks (.obj ((existingFilters query.filters).getD [])) clause ∨
        ∃ auto ∈ autoFilters schema query, Asks auto clause := by
  obtain ⟨filters', hfilters', hmerged⟩ := inject_filters hautos
  obtain rfl : filters' = filters := by
    rw [hfilters'] at hfilters
    exact some.inj hfilters
  have hpatterns := patterns_of_pushdown hpush hfilters'
  obtain ⟨members, rfl⟩ := hmerged.object
  have hagain : autoFilters schema (injectCapabilityAutoFilters schema query) ≠ [] := by
    rwa [autoFilters_inject]
  obtain ⟨twice, htwice, hmerged₂⟩ := inject_filters hagain
  rw [hfilters', autoFilters_inject] at hmerged₂
  have hpatterns₂ : hasInMemoryFilterPatterns twice = false :=
    hmerged₂.patterns_iff.mpr ⟨hpatterns, (hmerged.patterns_iff.mp hpatterns).2⟩
  have hgap₂ : gapFree schema query.resource twice = true :=
    hmerged₂.gapFree_iff.mpr ⟨hgap, (hmerged.gapFree_iff.mp hgap).2⟩
  obtain ⟨twiceMembers, rfl⟩ := hmerged₂.object
  have hsome : (convertDfqlFilters schema query.resource (.obj twiceMembers)).isSome = _ :=
    convertDfqlFilters_isSome (by simp) hpatterns₂
  rw [hgap₂] at hsome
  obtain ⟨clauses, hclauses⟩ := isSome_iff_exists.mp hsome
  rw [whereClauses_eq htwice rfl (by rw [resource_inject]; exact hclauses),
    mem_convertDfqlFilters hclauses, hmerged₂.asks_iff]
  have honce : Asks (.obj members) clause ↔ _ := hmerged.asks_iff
  constructor
  · intro h
    obtain h | h := h
    · exact honce.mp h
    · exact Or.inr h
  · intro h
    exact Or.inl (honce.mpr h)

/-! ## Every filter is kept -/

def isObject : Json → Bool
  | .obj _ => true
  | _ => false

/-- Filters that are no object and ask for nothing. -/
def isBlank : Json → Bool
  | .arr items => items.all fun item => (fieldClauses "" item).isEmpty
  | .str s => s = ""
  | _ => true

def isPrivateQuery (schema : ServerSchema) (query : Query) : Bool :=
  (schema.resources.find? fun r => r.name = query.resource).any fun resource =>
    isPrivate (resourceCapabilities schema resource) query.metadata

/-- What push-down owes to a query once the auto filters are injected. -/
structure KeepsEveryFilter (rt : Runtime) (schema : ServerSchema) (rows : List Fields)
    (query : Query) : Prop where
  converted : ∀ filters, (injectCapabilityAutoFilters schema query).filters = some filters →
    truthy (some filters) = true → convertDfqlFilters schema query.resource filters ≠ none
  conjunction : ∀ clause,
    clause ∈ whereClauses schema (injectCapabilityAutoFilters schema query) ↔
      Asked schema query clause
  visible : isPrivateQuery schema query = true →
    ∀ row ∈ fetched rt schema rows (injectCapabilityAutoFilters schema query),
      ∃ id ∈ accessIds query.metadata, row.lookup "id" = some (.str id)

/-- The condition under which it does. -/
structure NothingRefused (rt : Runtime) (schema : ServerSchema) (rows : List Fields)
    (query : Query) : Prop where
  user : ∀ filters, query.filters = some filters →
    (autoFilters schema query = [] ∨ isObject filters = true →
      gapFree schema query.resource filters = true) ∧
    (autoFilters schema query ≠ [] → isObject filters = false → isBlank filters = true)
  autos : ∀ auto ∈ autoFilters schema query, gapFree schema query.resource auto = true
  reserved : isPrivateQuery schema query = true → accessIds query.metadata = [] →
    ∀ row ∈ rows, ∃ clause, Asked schema query clause ∧
      matchesClause rt (row.lookup clause.field) clause = false

/-! ## Filters that are no object -/

theorem index_not_autoField (i : Nat) :
    toString i ∉ ["trashedAt", "isArchived", "isAncestorInactive", "id"] := by
  have htrash := toString_ne_of_not_digit "trashedAt" i 't' (by decide) (by decide)
  have harchive := toString_ne_of_not_digit "isArchived" i 'i' (by decide) (by decide)
  have hancestor := toString_ne_of_not_digit "isAncestorInactive" i 'i' (by decide) (by decide)
  have hid := toString_ne_of_not_digit "id" i 'i' (by decide) (by decide)
  simp only [mem_cons, not_mem_nil, or_false, not_or]
  exact ⟨htrash, harchive, hancestor, hid⟩

theorem field_of_fieldClauses {key : String} {value : Json} (h : clause ∈ fieldClauses key value) :
    clause.field = key := by
  cases value with
  | obj ops =>
    obtain ⟨e, -, rfl⟩ := mem_map.mp h
    exact field_operatorClause _ _ _ _
  | _ =>
    obtain rfl := mem_singleton.mp h
    rfl

theorem fieldClauses_isEmpty (key : String) (value : Json) :
    (fieldClauses key value).isEmpty = (fieldClauses "" value).isEmpty := by
  cases value <;> simp [fieldClauses]

theorem zipIdx_of_mem {item : Json} (h : item ∈ items) : ∃ i, (item, i) ∈ items.zipIdx := by
  obtain ⟨i, hi⟩ := getElem?_of_mem h
  exact ⟨i, mk_mem_zipIdx_iff_getElem?.mpr hi⟩

theorem isBlank_of_autoFields {filters : Json} (hobject : isObject filters = false)
    (h : ∀ clause, Asks filters clause →
      clause.field ∈ ["trashedAt", "isArchived", "isAncestorInactive", "id"]) :
    isBlank filters = true := by
  cases filters with
  | obj members => cases hobject
  | arr items =>
    rw [isBlank, List.all_eq_true]
    intro item hitem
    obtain ⟨i, hi⟩ := zipIdx_of_mem hitem
    rw [← fieldClauses_isEmpty (toString i), List.isEmpty_iff, List.eq_nil_iff_forall_not_mem]
    intro clause hclause
    have hfield := h clause (asks_arr.mpr ⟨(item, i), hi, Or.inl ⟨index_ne_and i, hclause⟩⟩)
    rw [field_of_fieldClauses hclause] at hfield
    exact index_not_autoField i hfield
  | str s =>
    by_contra hblank
    have hs : s ≠ "" := by simpa [isBlank] using hblank
    have hne : s.toList ≠ [] := by simpa using hs
    obtain ⟨c, rest, hchars⟩ := exists_cons_of_ne_nil hne
    have hmem : (toString 0, Json.str (String.singleton c)) ∈
        s.toList.zipIdx.map fun c => (toString c.2, Json.str (String.singleton c.1)) := by
      rw [hchars]
      simp
    have hasks : Asks (.str s) ⟨toString 0, .eq, .str (String.singleton c)⟩ :=
      Asks.field rfl hmem (index_ne_and 0) mem_cons_self
    exact index_not_autoField 0 (h _ hasks)
  | _ => rfl

theorem not_asks_of_isBlank {filters : Json} (hobject : isObject filters = false)
    (h : isBlank filters = true) (clause : PushdownWhereClause) : ¬ Asks filters clause := by
  cases filters with
  | obj members => cases hobject
  | arr items =>
    rw [asks_arr]
    intro hasks
    obtain ⟨⟨item, i⟩, hi, hentry⟩ := hasks
    rw [isBlank, List.all_eq_true] at h
    have hempty := h item (fst_mem_of_mem_zipIdx hi)
    rw [← fieldClauses_isEmpty (toString i), List.isEmpty_iff] at hempty
    obtain ⟨-, hclause⟩ | ⟨hand, -⟩ := hentry
    · rw [hempty] at hclause
      cases hclause
    · exact index_ne_and i hand
  | null => exact not_asks_of_not_truthy rfl clause
  | str s => exact not_asks_of_not_truthy (by simpa [truthy, isBlank] using h) clause
  | _ =>
    rw [asks_iff]
    intro hasks
    obtain ⟨members, hentries, e, he, -⟩ := hasks
    cases hentries
    cases he

/-! ## The condition is exact -/

theorem gapFree_of_converted {schema : ServerSchema} {filters : Json}
    (hpatterns : hasInMemoryFilterPatterns filters = false)
    (hconverted : truthy (some filters) = true →
      convertDfqlFilters schema resource filters ≠ none) :
    gapFree schema resource filters = true := by
  by_cases htruthy : truthy (some filters) = true
  · have hnull : filters ≠ .null := by
      intro hnull
      subst hnull
      cases htruthy
    rw [← convertDfqlFilters_isSome hnull hpatterns, isSome_iff_ne_none]
    exact hconverted htruthy
  · cases filters with
    | obj members | arr items => exact absurd rfl htruthy
    | _ => rfl

theorem converted_of_gapFree {schema : ServerSchema} {filters : Json}
    (hpatterns : hasInMemoryFilterPatterns filters = false)
    (hgap : gapFree schema resource filters = true) (htruthy : truthy (some filters) = true) :
    convertDfqlFilters schema resource filters ≠ none := by
  have hnull : filters ≠ .null := by
    intro hnull
    subst hnull
    cases htruthy
  rwa [← isSome_iff_ne_none, convertDfqlFilters_isSome hnull hpatterns]

theorem asks_existing {schema : ServerSchema} {rt : Runtime} {rows : List Fields} {query : Query}
    (h : NothingRefused rt schema rows query) (hautos : autoFilters schema query ≠ [])
    (clause : PushdownWhereClause) :
    Asks (.obj ((existingFilters query.filters).getD [])) clause ↔ UserAsks query clause := by
  unfold UserAsks
  cases hfilters : query.filters with
  | none => simp [existingFilters, asks_nil]
  | some filters =>
    cases hobject : isObject filters with
    | true =>
      cases filters with
      | obj members => simp [existingFilters]
      | _ => cases hobject
    | false =>
      have hblank := (h.user filters hfilters).2 hautos hobject
      have hnone : existingFilters (some filters) = none := by
        cases filters with
        | obj members => cases hobject
        | _ => rfl
      simp [hnone, asks_nil, not_asks_of_isBlank hobject hblank]

theorem gapFree_injected {schema : ServerSchema} {rt : Runtime} {rows : List Fields} {query : Query}
    {filters : Json} (h : NothingRefused rt schema rows query)
    (hmerged : Merged ((existingFilters query.filters).getD []) (autoFilters schema query) filters) :
    gapFree schema query.resource filters = true := by
  apply hmerged.gapFree_iff.mpr
  constructor
  · cases hfilters : query.filters with
    | none => rfl
    | some filters =>
      cases filters with
      | obj members =>
        have := (h.user _ hfilters).1 (Or.inr rfl)
        simpa [existingFilters, gapFree] using this
      | _ => rfl
  · intro auto hauto
    obtain ⟨members, rfl⟩ := autoFilters_object auto hauto
    exact h.autos _ hauto

theorem matchesWhere_iff {rt : Runtime} {row : Fields} :
    matchesWhere rt clauses row = true ↔
      ∀ clause ∈ clauses, matchesClause rt (row.lookup clause.field) clause = true := by
  rw [matchesWhere, List.all_eq_true]

theorem asked_grantedIds {schema : ServerSchema} {query : Query}
    (h : isPrivateQuery schema query = true) :
    Asked schema query ⟨"id", .inList, .arr ((grantedIds query.metadata).map .str)⟩ := by
  obtain ⟨resource, hresource, hprivate⟩ := (any_eq_true _ _).mp h
  right
  refine ⟨restriction "id" "$in" (.arr ((grantedIds query.metadata).map .str)), ?_, ?_⟩
  · unfold autoFilters
    rw [hresource]
    simp only [hprivate, if_true]
    exact mem_append_right _ mem_cons_self
  · exact (asks_restriction (by decide)).mpr rfl

theorem id_of_matches {rt : Runtime} {row : Fields} {ids : List String}
    (h : matchesClause rt (row.lookup "id") ⟨"id", .inList, .arr (ids.map .str)⟩ = true) :
    ∃ id ∈ ids, row.lookup "id" = some (.str id) := by
  simp only [matchesClause, arrayIncludes, List.any_eq_true, List.mem_map] at h
  obtain ⟨item, ⟨id, hid, rfl⟩, heq⟩ := h
  refine ⟨id, hid, ?_⟩
  cases hvalue : row.lookup "id" with
  | none => rw [hvalue] at heq; cases heq
  | some value =>
    rw [hvalue] at heq
    cases value with
    | str s =>
      have hs : id = s := by simpa [Json.strictEq] using heq
      rw [hs]
    | _ => cases heq

theorem keepsEveryFilter_of_nothingRefused {rt : Runtime} {schema : ServerSchema}
    {rows : List Fields} {query : Query}
    (hpush : classifyQuery schema (injectCapabilityAutoFilters schema query) ≠ .inMemory)
    (h : NothingRefused rt schema rows query) : KeepsEveryFilter rt schema rows query := by
  have hconverted : ∀ filters, (injectCapabilityAutoFilters schema query).filters = some filters →
      truthy (some filters) = true → convertDfqlFilters schema query.resource filters ≠ none := by
    intro filters hfilters htruthy
    have hpatterns := patterns_of_pushdown hpush hfilters
    apply converted_of_gapFree hpatterns ?_ htruthy
    by_cases hautos : autoFilters schema query = []
    · rw [inject_of_nil hautos] at hfilters
      exact (h.user filters hfilters).1 (Or.inl hautos)
    · obtain ⟨filters', hfilters', hmerged⟩ := inject_filters hautos
      rw [hfilters'] at hfilters
      cases hfilters
      exact gapFree_injected h hmerged
  have hconjunction : ∀ clause,
      clause ∈ whereClauses schema (injectCapabilityAutoFilters schema query) ↔
        Asked schema query clause := by
    intro clause
    by_cases hautos : autoFilters schema query = []
    · rw [inject_of_nil hautos] at hconverted ⊢
      exact mem_whereClauses_of_nil hautos hconverted clause
    · obtain ⟨filters, hfilters, hmerged⟩ := inject_filters hautos
      rw [mem_whereClauses_of_ne_nil hautos hfilters hpush (gapFree_injected h hmerged),
        asks_existing h hautos, Asked]
  refine ⟨hconverted, hconjunction, ?_⟩
  intro hprivate row hrow
  obtain ⟨hmem, hmatches⟩ := mem_filter.mp hrow
  have hall : ∀ clause, Asked schema query clause →
      matchesClause rt (row.lookup clause.field) clause = true := by
    intro clause hasked
    exact matchesWhere_iff.mp hmatches clause ((hconjunction clause).mpr hasked)
  have hid := id_of_matches (hall _ (asked_grantedIds hprivate))
  by_cases hnone : accessIds query.metadata = []
  · obtain ⟨clause, hasked, hfails⟩ := h.reserved hprivate hnone row hmem
    rw [hall clause hasked] at hfails
    cases hfails
  · rwa [grantedIds, if_neg hnone] at hid

theorem nothingRefused_of_keepsEveryFilter {rt : Runtime} {schema : ServerSchema}
    {rows : List Fields} {query : Query}
    (hpush : classifyQuery schema (injectCapabilityAutoFilters schema query) ≠ .inMemory)
    (h : KeepsEveryFilter rt schema rows query) : NothingRefused rt schema rows query := by
  have hreserved : isPrivateQuery schema query = true → accessIds query.metadata = [] →
      ∀ row ∈ rows, ∃ clause, Asked schema query clause ∧
        matchesClause rt (row.lookup clause.field) clause = false := by
    intro hprivate hnone row hrow
    by_contra hnot
    have hfetched : row ∈ fetched rt schema rows (injectCapabilityAutoFilters schema query) := by
      apply mem_filter.mpr
      refine ⟨hrow, matchesWhere_iff.mpr ?_⟩
      intro clause hclause
      by_contra hfails
      exact hnot ⟨clause, (h.conjunction clause).mp hclause, by simpa using hfails⟩
    obtain ⟨id, hid, -⟩ := h.visible hprivate row hfetched
    rw [hnone] at hid
    cases hid
  by_cases hautos : autoFilters schema query = []
  · refine ⟨?_, ?_, hreserved⟩
    · intro filters hfilters
      have hinject : (injectCapabilityAutoFilters schema query).filters = some filters := by
        rwa [inject_of_nil hautos]
      refine ⟨fun _ => ?_, fun hne => absurd hautos hne⟩
      exact gapFree_of_converted (patterns_of_pushdown hpush hinject) (h.converted filters hinject)
    · rw [hautos]
      simp
  · obtain ⟨merged, hmergedFilters, hmerged⟩ := inject_filters hautos
    have hgap : gapFree schema query.resource merged = true :=
      gapFree_of_converted (patterns_of_pushdown hpush hmergedFilters)
        (h.converted merged hmergedFilters)
    obtain ⟨hmembers, hitems⟩ := hmerged.gapFree_iff.mp hgap
    refine ⟨?_, ?_, hreserved⟩
    · intro filters hfilters
      rw [hfilters] at hmembers
      constructor
      · intro hcase
        obtain hnil | hobject := hcase
        · exact absurd hnil hautos
        · cases filters with
          | obj members => simpa [existingFilters, gapFree] using hmembers
          | _ => cases hobject
      · intro _ hobject
        have hnone : existingFilters query.filters = none := by
          rw [hfilters]
          cases filters with
          | obj members => cases hobject
          | _ => rfl
        apply isBlank_of_autoFields hobject
        intro clause hasks
        -- the clause can only have come from an auto filter
        have hclause := (h.conjunction clause).mpr (Or.inl ⟨filters, hfilters, hasks⟩)
        rw [mem_whereClauses_of_ne_nil hautos hmergedFilters hpush hgap, hnone] at hclause
        obtain hempty | ⟨auto, hauto, hasks⟩ := hclause
        · exact absurd hempty (asks_nil clause)
        · exact field_of_autoFilter hauto hasks
    · intro auto hauto
      obtain ⟨members, rfl⟩ := autoFilters_object auto hauto
      exact hitems _ hauto

/-- Whatever the query, the schema and the table: a query that is pushed down is answered under
all of its filters and all auto filters exactly if none of them is refused. -/
theorem pushdown_keeps_every_filter_iff (rt : Runtime) (schema : ServerSchema)
    (rows : List Fields) (query : Query)
    (hpush : classifyQuery schema (injectCapabilityAutoFilters schema query) ≠ .inMemory) :
    KeepsEveryFilter rt schema rows query ↔ NothingRefused rt schema rows query :=
  ⟨nothingRefused_of_keepsEveryFilter hpush, keepsEveryFilter_of_nothingRefused hpush⟩

/-! ## Accepted relation filters -/

/-! ## A private resource with a relation -/

/-- Private notes with tags. -/
def noteSchema : ServerSchema :=
  { capabilities := []
    resources :=
      [⟨"notes", some (.entries [.shareable (some .privateAccess)]), ["title"]⟩,
        ⟨"tags", none, ["label"]⟩]
    relations :=
      [{ fromResources := ["notes"], toResources := ["tags"], type := .manyMany,
         relation := some "tags", inverse := some "notes", fkField := none, foreignKey := none,
         inheritsInactive := false }] }

/-- A list of notes by an actor who may see the first note. -/
def noteQuery (filters : Json) : Query :=
  { resource := "notes", filters := some filters, select := none, search := none,
    groupBy := none, having := none, temporal := none,
    metadata :=
      { includeTrashed := false, includeArchived := false, includeAncestorInactive := false,
        shareableAccessIds := some ["note:1"], hasShareableScopeAccess := false,
        sharedWithMe := false } }

def ownNote : Fields := [("id", .str "note:1"), ("title", .str "mine")]

def foreignNote : Fields := [("id", .str "note:2"), ("title", .str "mine")]

theorem title_filter_keeps_access :
    KeepsEveryFilter .codePoints noteSchema [ownNote, foreignNote]
      (noteQuery (.obj [("title", .str "mine")])) := by
  apply (pushdown_keeps_every_filter_iff .codePoints noteSchema [ownNote, foreignNote]
    (noteQuery (.obj [("title", .str "mine")])) (by decide)).mpr
  refine ⟨?_, ?_, ?_⟩
  · intro filters hfilters
    cases hfilters
    exact ⟨fun _ => rfl, fun _ hobject => absurd hobject (by decide)⟩
  · intro auto hauto
    obtain rfl : auto = restriction "id" "$in" (.arr [.str "note:1"]) := mem_singleton.mp hauto
    rfl
  · intro _ hnone
    exact absurd hnone (by decide)

/-- `{ tags: {} }` is accepted and pushed down, but the converter refuses it, and the note of
another actor is among the rows found. -/
theorem empty_relation_filter_finds_foreign_note :
    validateQueryFilters noteSchema none "$" "notes" (noteQuery (.obj [("tags", .obj [])])).filters =
        .ok () ∧
      classifyQuery noteSchema (injectCapabilityAutoFilters noteSchema
        (noteQuery (.obj [("tags", .obj [])]))) = .fullPushdown ∧
      (injectCapabilityAutoFilters noteSchema (noteQuery (.obj [("tags", .obj [])]))).filters.bind
        (convertDfqlFilters noteSchema "notes") = none ∧
      foreignNote ∈ fetched .codePoints noteSchema [ownNote, foreignNote]
        (injectCapabilityAutoFilters noteSchema (noteQuery (.obj [("tags", .obj [])]))) ∧
      ¬ KeepsEveryFilter .codePoints noteSchema [ownNote, foreignNote]
        (noteQuery (.obj [("tags", .obj [])])) := by
  have hfound : foreignNote ∈ fetched .codePoints noteSchema [ownNote, foreignNote]
      (injectCapabilityAutoFilters noteSchema (noteQuery (.obj [("tags", .obj [])]))) :=
    mem_cons_of_mem _ mem_cons_self
  refine ⟨rfl, rfl, rfl, hfound, ?_⟩
  intro hkeeps
  obtain ⟨id, hid, hrow⟩ := hkeeps.visible rfl foreignNote hfound
  obtain rfl : id = "note:1" := mem_singleton.mp hid
  exact absurd hrow (by simp [foreignNote])

end SuperFunctions.Datafn.Server.PushdownSafety
