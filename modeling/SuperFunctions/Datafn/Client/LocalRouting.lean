import SuperFunctions.Lib.StableSort
import SuperFunctions.Datafn.Client.LocalQuery

/-!
# Index routes and the plain scan

When the answer over an index fetch is the answer of the plain scan: the route must fetch every
record the filter accepts, accept what it does not filter, and meet the records in sorted order.
-/
namespace SuperFunctions.Datafn.Client.LocalRouting

open Lib.OrderedMap Lib.StableSort Datafn.Core Core.Endpoints Core.Filters LocalQuery List Option

variable {rt : Runtime} {store : LocalStore} {schema : Schema} {resource : String}

/-- The order in which the adapter lists records. -/
def idLt (a b : Fields) : Prop := idText a < idText b

theorem idLt_asymm (a b : Fields) (h : idLt a b) : ¬ idLt b a := lt_asymm h

/-! ## The adapter's lists -/

variable {record : Fields} {id : String}

theorem getRecord_idText (h : store.getRecord resource id = some record) : idText record = id := by
  have hid := (store.records resource).keyed id record h
  simp [idText, hid]

theorem lookup_id_of_getRecord (h : store.getRecord resource id = some record) :
    record.lookup "id" = some (.str (idText record)) := by
  rw [getRecord_idText h]
  exact (store.records resource).keyed id record h

theorem mem_listRecords : record ∈ store.listRecords resource ↔
    store.getRecord resource (idText record) = some record := by
  rw [LocalStore.listRecords, mem_insertionSort, OMap.mem_values_iff_get]
  constructor
  · rintro ⟨id, h⟩
    rwa [getRecord_idText h]
  · exact fun h => ⟨_, h⟩

theorem values_pairwise_ne (table : RecordTable) :
    table.rows.values.Pairwise fun a b => idText a ≠ idText b := by
  have hkeys : table.rows.values.map idText = table.rows.keys := by
    rw [OMap.values, OMap.keys, List.map_map]
    apply map_congr_left
    intro e he
    have hid := table.keyed e.1 e.2 ((table.rows.mem_entries_iff_get e.1 e.2).mp he)
    simp [idText, hid]
  have hnodup : (table.rows.values.map idText).Nodup := hkeys ▸ table.rows.nodup
  exact pairwise_map.mp hnodup

theorem listRecords_pairwise (store : LocalStore) (resource : String) :
    (store.listRecords resource).Pairwise idLt :=
  pairwise_lt_insertionSort idText (values_pairwise_ne _)

theorem findRecords_pairwise (store : LocalStore) (resource field : String)
    (value : Option Json) : (store.findRecords resource field value).Pairwise idLt :=
  pairwise_lt_insertionSort idText ((values_pairwise_ne _).sublist filter_sublist)

variable {field : String}

theorem mem_findRecords {value : Option Json} :
    record ∈ store.findRecords resource field value ↔
      record ∈ store.listRecords resource ∧ Json.strictEq (record.lookup field) value = true := by
  rw [LocalStore.findRecords, LocalStore.listRecords, mem_insertionSort,
    mem_insertionSort, mem_filter]

/-! ## The id order -/

theorem compareRecords_id {a b : Fields} (ha : a.lookup "id" = some (.str (idText a)))
    (hb : b.lookup "id" = some (.str (idText b))) :
    compareRecords rt [⟨"id", .asc⟩] a b = rt.localeCompare (idText a) (idText b) := by
  have hida : idString rt a = idText a := by simp [idString, ha]
  have hidb : idString rt b = idText b := by simp [idString, hb]
  simp only [compareRecords, ha, hb, hida, hidb, compareValues, Json.isNullish]
  split
  · rfl
  · simp only [Bool.false_eq_true, if_false]
    cases rt.localeCompare (idText a) (idText b) <;> rfl

/-- The locale orders the records of a table by their ids. -/
theorem consistent_id (rt : Runtime) (store : LocalStore) (resource : String) :
    ConsistentOn (recordLe rt [⟨"id", .asc⟩]) (store.listRecords resource) := by
  have hid : ∀ r ∈ store.listRecords resource, r.lookup "id" = some (.str (idText r)) :=
    fun r hr => lookup_id_of_getRecord (mem_listRecords.mp hr)
  constructor
  · intro a ha b hb
    unfold recordLe
    rw [compareRecords_id (hid a ha) (hid b hb), compareRecords_id (hid b hb) (hid a ha),
      ← rt.localeCompare_swap (idText a) (idText b)]
    cases rt.localeCompare (idText a) (idText b) <;> simp
  · intro a ha b hb c hc
    unfold recordLe
    rw [compareRecords_id (hid a ha) (hid b hb), compareRecords_id (hid b hb) (hid c hc),
      compareRecords_id (hid a ha) (hid c hc)]
    exact rt.localeCompare_trans _ _ _

/-! ## Seeds -/

theorem mem_probe_ids {probe : Probe} : id ∈ probe.ids store ↔ probe.links store id = true := by
  obtain ⟨joinStore, far, direction⟩ := probe
  cases direction with
  | forward | inverse =>
    simp only [Probe.ids, Probe.links, LocalStore.getJoinRowsInverse, LocalStore.getJoinRows,
      List.mem_map, mem_insertionSort, mem_filter, decide_eq_true_eq]
    constructor
    · rintro ⟨⟨fromId, toId⟩, ⟨hrow, rfl⟩, rfl⟩
      exact hrow
    · exact fun h => ⟨_, ⟨h, rfl⟩, rfl⟩

theorem joinRows_pairwise_ne (table : JoinTable) (near far : String × String → String)
    (hkey : ∀ a b, near a = near b → far a = far b → joinKey a = joinKey b) (id : String) :
    (table.rows.filter fun row => far row = id).Pairwise fun a b => near a ≠ near b := by
  have hrows : table.rows.Pairwise fun a b => joinKey a ≠ joinKey b := pairwise_map.mp table.nodup
  rw [pairwise_filter]
  refine hrows.imp fun {a b} hab ha hb hnear => ?_
  simp only [decide_eq_true_eq] at ha hb
  exact hab (hkey a b hnear (ha.trans hb.symm))

theorem probe_ids_pairwise (store : LocalStore) (probe : Probe) :
    (probe.ids store).Pairwise (· < ·) := by
  unfold Probe.ids
  split
  · exact pairwise_map.mpr (pairwise_lt_insertionSort Prod.fst (joinRows_pairwise_ne _ Prod.fst
      Prod.snd (fun a b h₁ h₂ => by rw [joinKey, joinKey, h₁, h₂]) _))
  · exact pairwise_map.mpr (pairwise_lt_insertionSort Prod.snd (joinRows_pairwise_ne _ Prod.snd
      Prod.fst (fun a b h₁ h₂ => by rw [joinKey, joinKey, h₁, h₂]) _))

/-- The first probe that finds an id. -/
def seedRank (store : LocalStore) (probes : List Probe) (id : String) : Nat :=
  probes.findIdx fun probe => probe.links store id

/-- The order in which the seeds are met: by probe, and by id under one probe. -/
def seedLt (store : LocalStore) (probes : List Probe) (a b : String) : Prop :=
  seedRank store probes a < seedRank store probes b ∨
    (seedRank store probes a = seedRank store probes b ∧ a < b)

theorem seedLt_asymm {probes : List Probe} {a b : String} (h : seedLt store probes a b) :
    ¬ seedLt store probes b a := by
  rintro (hba | ⟨hrank, hba⟩)
  · obtain hab | ⟨hrank, _⟩ := h <;> omega
  · obtain hab | ⟨_, hab⟩ := h
    · omega
    · exact lt_asymm hab hba

theorem foldl_addId {ids : List String} (h : ids.Nodup) (values : List String) :
    ids.foldl addId values = values ++ ids.filter fun id => id ∉ values := by
  induction ids generalizing values with
  | nil => simp
  | cons id ids ih =>
    obtain ⟨hid, hrest⟩ := nodup_cons.mp h
    rw [foldl_cons, ih hrest]
    unfold addId
    split
    case isTrue hmem => simp [hmem]
    rename_i hmem
    have hfilter : (ids.filter fun x => x ∉ values ++ [id]) = ids.filter fun x => x ∉ values := by
      apply filter_congr
      intro x hx
      have hne : x ≠ id := fun heq => hid (heq ▸ hx)
      simp [hne]
    rw [hfilter]
    simp [hmem]

theorem seedIds_concat (store : LocalStore) (probes : List Probe) (probe : Probe) :
    seedIds store (probes ++ [probe]) = seedIds store probes ++
      (probe.ids store).filter fun id => id ∉ seedIds store probes := by
  unfold seedIds
  rw [foldl_append]
  exact foldl_addId ((probe_ids_pairwise store probe).imp fun h => h.ne) _

theorem mem_seedIds {probes : List Probe} :
    id ∈ seedIds store probes ↔ ∃ probe ∈ probes, probe.links store id = true := by
  induction probes using List.reverseRecOn with
  | nil => simp [seedIds]
  | append_singleton probes probe ih =>
    rw [seedIds_concat, mem_append, mem_filter, mem_probe_ids]
    simp only [ih, mem_append, mem_singleton, decide_eq_true_eq]
    constructor
    · rintro (⟨p, hp, hlinks⟩ | ⟨hlinks, _⟩)
      · exact ⟨p, .inl hp, hlinks⟩
      · exact ⟨probe, .inr rfl, hlinks⟩
    · rintro ⟨p, hp | rfl, hlinks⟩
      · exact .inl ⟨p, hp, hlinks⟩
      · by_cases hold : ∃ p ∈ probes, p.links store id = true
        · exact .inl hold
        · exact .inr ⟨hlinks, hold⟩

theorem seedRank_concat {probes : List Probe} {probe : Probe} :
    (id ∈ seedIds store probes →
      seedRank store (probes ++ [probe]) id = seedRank store probes id ∧
        seedRank store probes id < probes.length) ∧
    (id ∉ seedIds store probes → probe.links store id = true →
      seedRank store (probes ++ [probe]) id = probes.length) := by
  unfold seedRank
  rw [findIdx_append, mem_seedIds, ← findIdx_lt_length]
  constructor
  · intro h
    exact ⟨if_pos h, h⟩
  · intro h hlinks
    rw [if_neg h]
    simp [findIdx_cons, hlinks]

theorem seedIds_pairwise (store : LocalStore) (probes : List Probe) :
    (seedIds store probes).Pairwise (seedLt store probes) := by
  induction probes using List.reverseRecOn with
  | nil => exact List.Pairwise.nil
  | append_singleton probes probe ih =>
    rw [seedIds_concat, pairwise_append]
    refine ⟨?_, ?_, ?_⟩
    · refine ih.imp_of_mem fun {a b} ha hb hab => ?_
      unfold seedLt
      rwa [(seedRank_concat.1 ha).1, (seedRank_concat.1 hb).1]
    · rw [pairwise_filter]
      refine (probe_ids_pairwise store probe).imp_of_mem fun {a b} ha hb hab hnewa hnewb => ?_
      simp only [decide_eq_true_eq] at hnewa hnewb
      refine .inr ⟨?_, hab⟩
      rw [seedRank_concat.2 hnewa (mem_probe_ids.mp ha),
        seedRank_concat.2 hnewb (mem_probe_ids.mp hb)]
    · intro a ha b hb
      obtain ⟨hb, hnew⟩ := mem_filter.mp hb
      simp only [decide_eq_true_eq] at hnew
      refine .inl ?_
      rw [(seedRank_concat.1 ha).1, seedRank_concat.2 hnew (mem_probe_ids.mp hb)]
      exact findIdx_lt_length.mpr (mem_seedIds.mp ha)

/-! ## Exact routes -/

/-- The records the plain filter accepts, as the adapter lists them. -/
def accepted (rt : Runtime) (store : LocalStore) (schema : Schema) (resource : String)
    (normalized : Fields) : List Fields :=
  (store.listRecords resource).filter fun record =>
    applyFilter rt store schema resource record normalized = some true

/-- The route meets records in the order of the scan; under a sort only ties matter. -/
def OrderKept (rt : Runtime) (sort : Option (List SortTerm)) (records : List Fields)
    (seen : Fields → Fields → Prop) : Prop :=
  match sort with
  | some terms => ∀ a ∈ records, ∀ b ∈ records, recordLe rt terms a b → recordLe rt terms b a →
      idLt a b → seen a b
  | none => ∀ a ∈ records, ∀ b ∈ records, WithTies (recordLe rt [⟨"id", .asc⟩]) idLt a b → seen a b

/-- Seeds: every accepted record has a row that a probe looks up, and the probes meet them in
order. By id: no other record is accepted, and this one is when its filter is skipped. By field:
the filter is the comparison of the field, and the ids stand in the order of the locale. -/
def RouteExact (rt : Runtime) (store : LocalStore) (schema : Schema) (resource : String)
    (sort : Option (List SortTerm)) (normalized : Fields) : Route → Prop
  | .relationSeeds probes =>
    (∀ record ∈ accepted rt store schema resource normalized,
      ∃ probe ∈ probes, probe.links store (idText record) = true) ∧
    OrderKept rt sort (accepted rt store schema resource normalized)
      fun a b => seedLt store probes (idText a) (idText b)
  | .byId value satisfied =>
    (∀ record ∈ accepted rt store schema resource normalized,
      Json.strictEq (record.lookup "id") (some value) = true) ∧
    (satisfied = true → ∀ record ∈ store.listRecords resource,
      Json.strictEq (record.lookup "id") (some value) = true →
        applyFilter rt store schema resource record normalized = some true)
  | .byField field value =>
    (∀ record ∈ store.listRecords resource,
      applyFilter rt store schema resource record normalized = some true ↔
        Json.strictEq (record.lookup field) (some value) = true) ∧
    OrderKept rt sort (accepted rt store schema resource normalized) idLt
  | .scan => True

/-- The terms of an optional sort; invalid ones throw. -/
def parseSort : Option (List Json) → Option (Option (List SortTerm))
  | some sort => (parseSortTerms sort).map some
  | none => some none

/-- Whenever the plain scan answers, the routes it takes fetch exactly what it accepts. -/
def RoutingExact (rt : Runtime) (store : LocalStore) (schema : Schema) (q : DfqlQuery)
    (filters : Fields) : Prop :=
  ∀ normalized sort, normalizeFilterOps (.obj filters) = some normalized →
    parseSort q.sort = some sort →
    (∀ record ∈ store.listRecords q.resource,
      (applyFilter rt store schema q.resource record normalized).isSome = true) →
    RouteExact rt store schema q.resource sort normalized
      (chooseRoute schema q.resource filters normalized)

/-- For every page, an answer of the plain scan is the answer of the executor. -/
def ScanAgrees (rt : Runtime) (store : LocalStore) (schema : Schema) (q : DfqlQuery) : Prop :=
  ∀ offset limit data,
    scanLocalQuery rt store schema { q with offset := offset, limit := limit } = some data →
      executeLocalQuery rt store schema { q with offset := offset, limit := limit } = some data

/-! ## The stages of a query -/

variable {holds : Fields → Option Bool}

theorem filterRecords_of_isSome {l : List Fields} (h : ∀ record ∈ l, (holds record).isSome = true) :
    filterRecords holds l = some (l.filter fun record => holds record = some true) := by
  induction l with
  | nil => rfl
  | cons record l ih =>
    have hrest := ih fun r hr => h r (mem_cons_of_mem record hr)
    obtain ⟨ok, hok⟩ := isSome_iff_exists.mp (h record mem_cons_self)
    rw [filterRecords, hrest, hok]
    cases ok <;> simp [hok]

theorem isSome_of_filterRecords {l kept : List Fields} (h : filterRecords holds l = some kept) :
    ∀ record ∈ l, (holds record).isSome = true := by
  induction l generalizing kept with
  | nil => exact fun _ hr => absurd hr not_mem_nil
  | cons record l ih =>
    rw [filterRecords, bind_eq_some_iff] at h
    obtain ⟨ok, hok, h⟩ := h
    obtain ⟨rest, hrest, _⟩ := map_eq_some_iff.mp h
    intro r hr
    obtain rfl | hr := mem_cons.mp hr
    · rw [hok]
      rfl
    · exact ih hrest r hr

/-- What a route makes of the records it fetched. -/
def keptRecords (rt : Runtime) (store : LocalStore) (schema : Schema) (resource : String)
    (normalized : Fields) (route : Route) : List Fields :=
  if route.filterFullySatisfied then route.records store resource
  else (route.records store resource).filter fun record =>
    applyFilter rt store schema resource record normalized = some true

def ordered (rt : Runtime) (sort : Option (List SortTerm)) (usedIndexedPath : Bool)
    (records : List Fields) : List Fields :=
  match sort with
  | some terms => sortRecords rt records terms
  | none => if usedIndexedPath then records else sortRecords rt records [⟨"id", .asc⟩]

theorem orderRecords_eq {sort : Option (List Json)} {terms : Option (List SortTerm)}
    (h : parseSort sort = some terms) (used : Bool) (records : List Fields) :
    orderRecords rt sort used records = some (ordered rt terms used records) := by
  cases sort with
  | none =>
    cases h
    rfl
  | some sort =>
    obtain ⟨parsed, hparsed, rfl⟩ := map_eq_some_iff.mp h
    simp only [orderRecords, hparsed, map_some, ordered]

theorem route_records_subset (store : LocalStore) (resource : String) (route : Route) :
    ∀ record ∈ route.records store resource, record ∈ store.listRecords resource := by
  intro record hr
  have hmem : ∀ id, store.getRecord resource id = some record →
      record ∈ store.listRecords resource := by
    intro id h
    rwa [mem_listRecords, getRecord_idText h]
  cases route with
  | relationSeeds probes =>
    obtain ⟨id, _, h⟩ := mem_filterMap.mp hr
    exact hmem id h
  | byId value satisfied =>
    cases value with
    | str id => exact hmem id (mem_toList.mp hr)
    | _ => cases hr
  | byField field value => exact (mem_findRecords.mp hr).1
  | scan => exact hr

variable {q : DfqlQuery} {normalized : Fields} {sort : Option (List SortTerm)}

theorem runRoute_eq (hsort : parseSort q.sort = some sort)
    (h : ∀ record ∈ store.listRecords q.resource,
      (applyFilter rt store schema q.resource record normalized).isSome = true) (route : Route) :
    runRoute rt store schema q route normalized = some (paginate q.offset q.limit
      (ordered rt sort route.usedIndexedPath
        (keptRecords rt store schema q.resource normalized route))) := by
  have hkept : (if route.filterFullySatisfied then some (route.records store q.resource)
      else filterRecords (applyFilter rt store schema q.resource · normalized)
        (route.records store q.resource)) =
      some (keptRecords rt store schema q.resource normalized route) := by
    unfold keptRecords
    split
    · rfl
    · exact filterRecords_of_isSome fun record hr =>
        h record (route_records_subset store q.resource route record hr)
  unfold runRoute
  simp only [hkept, bind_some, orderRecords_eq hsort, map_some]

variable {filters : Fields}

theorem executeLocalQuery_eq (hfilters : q.filters = some filters)
    (hpossible : hasImpossibleEmptyInFilter (.obj filters) = false) :
    executeLocalQuery rt store schema q = (normalizeFilterOps (.obj filters)).bind fun normalized =>
      runRoute rt store schema q (chooseRoute schema q.resource filters normalized) normalized := by
  unfold executeLocalQuery
  rw [hfilters]
  simp only [hpossible, Bool.false_eq_true, if_false]

theorem scanLocalQuery_eq (hfilters : q.filters = some filters) :
    scanLocalQuery rt store schema q =
      (normalizeFilterOps (.obj filters)).bind (runRoute rt store schema q .scan) := by
  unfold scanLocalQuery
  rw [hfilters]
  rfl

/-- An answer of the scan has evaluated every record and parsed the sort. -/
theorem scan_answered {data : List Fields}
    (h : runRoute rt store schema q .scan normalized = some data) :
    (∃ sort, parseSort q.sort = some sort) ∧ ∀ record ∈ store.listRecords q.resource,
      (applyFilter rt store schema q.resource record normalized).isSome = true := by
  obtain ⟨kept, hkept, h⟩ := bind_eq_some_iff.mp h
  obtain ⟨records, horder, _⟩ := map_eq_some_iff.mp h
  refine ⟨?_, isSome_of_filterRecords hkept⟩
  cases hq : q.sort with
  | none => exact ⟨none, rfl⟩
  | some sort =>
    simp only [hq] at horder
    obtain ⟨terms, hterms, _⟩ := map_eq_some_iff.mp horder
    exact ⟨some terms, by simp [parseSort, hterms]⟩

theorem scanAgrees_iff (hfilters : q.filters = some filters)
    (hpossible : hasImpossibleEmptyInFilter (.obj filters) = false) :
    ScanAgrees rt store schema q ↔ ∀ normalized sort,
      normalizeFilterOps (.obj filters) = some normalized → parseSort q.sort = some sort →
      (∀ record ∈ store.listRecords q.resource,
        (applyFilter rt store schema q.resource record normalized).isSome = true) →
      ordered rt sort (chooseRoute schema q.resource filters normalized).usedIndexedPath
          (keptRecords rt store schema q.resource normalized
            (chooseRoute schema q.resource filters normalized)) =
        ordered rt sort false (accepted rt store schema q.resource normalized) := by
  have hexecute : ∀ offset limit, executeLocalQuery rt store schema
      { q with offset := offset, limit := limit } = _ :=
    fun offset limit => executeLocalQuery_eq hfilters hpossible
  have hscan : ∀ offset limit, scanLocalQuery rt store schema
      { q with offset := offset, limit := limit } = _ :=
    fun offset limit => scanLocalQuery_eq hfilters
  constructor
  · intro h normalized sort hnormalized hsort heval
    have hpage := h 0 0 (paginate 0 0 (ordered rt sort false
      (accepted rt store schema q.resource normalized)))
    rw [hscan, hexecute, hnormalized, bind_some, bind_some,
      runRoute_eq (q := { q with offset := 0, limit := 0 }) hsort heval,
      runRoute_eq (q := { q with offset := 0, limit := 0 }) hsort heval] at hpage
    have heq := some.inj (hpage rfl)
    exact heq
  · intro h offset limit data hdata
    rw [hscan] at hdata
    obtain ⟨normalized, hnormalized, hdata⟩ := bind_eq_some_iff.mp hdata
    obtain ⟨⟨sort, hsort⟩, heval⟩ := scan_answered hdata
    rw [runRoute_eq hsort heval] at hdata
    rw [hexecute, hnormalized, bind_some,
      runRoute_eq (q := { q with offset := offset, limit := limit }) hsort heval,
      h normalized sort hnormalized hsort heval]
    exact hdata

/-! ## The routes compared with the scan -/

theorem accepted_pairwise (rt : Runtime) (store : LocalStore) (schema : Schema)
    (resource : String) (normalized : Fields) :
    (accepted rt store schema resource normalized).Pairwise idLt :=
  (listRecords_pairwise store resource).sublist filter_sublist

theorem mem_accepted :
    record ∈ accepted rt store schema resource normalized ↔
      record ∈ store.listRecords resource ∧
        applyFilter rt store schema resource record normalized = some true := by
  rw [accepted, mem_filter, decide_eq_true_eq]

theorem mem_iff_of_sorted_eq {terms : List SortTerm} {l l' : List Fields}
    (h : sortRecords rt l terms = sortRecords rt l' terms) (a : Fields) : a ∈ l ↔ a ∈ l' := by
  have hmem : a ∈ sortRecords rt l terms ↔ a ∈ sortRecords rt l' terms := by rw [h]
  simpa only [sortRecords, mem_insertionSort] using hmem

theorem eq_of_mem_iff {l l' : List Fields} (hl : l.Pairwise idLt) (hl' : l'.Pairwise idLt)
    (h : ∀ a, a ∈ l ↔ a ∈ l') : l = l' := by
  have hperm := (perm_ext_iff_of_nodup (nodup_of_asymm idLt_asymm hl)
    (nodup_of_asymm idLt_asymm hl')).mpr h
  exact hperm.eq_of_pairwise (fun a b _ _ hab hba => absurd hba (idLt_asymm a b hab)) hl hl'

section Ordered

variable {sort : Option (List SortTerm)} {l l' : List Fields}

theorem ordered_eq_iff_of_idLt (hc : ConsistentOn (recordLe rt [⟨"id", .asc⟩]) l)
    (hl : l.Pairwise idLt) (hl' : l'.Pairwise idLt) :
    ordered rt sort true l' = ordered rt sort false l ↔
      (∀ a, a ∈ l' ↔ a ∈ l) ∧ OrderKept rt sort l idLt := by
  cases sort with
  | none => exact eq_insertionSort_iff hc idLt_asymm hl idLt_asymm hl'
  | some terms =>
    constructor
    · exact fun h => ⟨mem_iff_of_sorted_eq h, fun a _ b _ _ _ hab => hab⟩
    · rintro ⟨hmem, _⟩
      rw [eq_of_mem_iff hl' hl hmem]
      rfl

theorem ordered_eq_iff {seen : Fields → Fields → Prop} (hseen : ∀ a b, seen a b → ¬ seen b a)
    (hid : ConsistentOn (recordLe rt [⟨"id", .asc⟩]) l)
    (hc : ∀ terms, sort = some terms → ConsistentOn (recordLe rt terms) l)
    (hl : l.Pairwise idLt) (hl' : l'.Pairwise seen) :
    ordered rt sort true l' = ordered rt sort false l ↔
      (∀ a, a ∈ l' ↔ a ∈ l) ∧ OrderKept rt sort l seen := by
  cases sort with
  | none => exact eq_insertionSort_iff hid idLt_asymm hl hseen hl'
  | some terms => exact insertionSort_eq_iff (hc terms rfl) idLt_asymm hl hseen hl'

end Ordered

variable {value : Json} {satisfied : Bool}

theorem mem_byId_records :
    record ∈ (Route.byId value satisfied).records store resource ↔
      record ∈ store.listRecords resource ∧
        Json.strictEq (record.lookup "id") (some value) = true := by
  constructor
  · intro hr
    refine ⟨route_records_subset store resource _ record hr, ?_⟩
    cases value with
    | str id =>
      have hget := mem_toList.mp hr
      rw [Json.strictEq_str]
      exact (store.records resource).keyed id record hget
    | _ => cases hr
  · rintro ⟨hr, heq⟩
    have hget := mem_listRecords.mp hr
    rw [lookup_id_of_getRecord hget] at heq
    cases value with
    | str id =>
      rw [Json.strictEq_str] at heq
      cases heq
      exact mem_toList.mpr hget
    | _ => cases heq

theorem byId_records_pairwise (store : LocalStore) (resource : String) (value : Json)
    (satisfied : Bool) : ((Route.byId value satisfied).records store resource).Pairwise idLt := by
  cases value with
  | str id =>
    simp only [Route.records]
    cases store.getRecord resource id with
    | none => exact List.Pairwise.nil
    | some record => exact pairwise_singleton _ record
  | _ => exact List.Pairwise.nil

theorem seed_records_pairwise (store : LocalStore) (resource : String) (probes : List Probe) :
    ((Route.relationSeeds probes).records store resource).Pairwise
      fun a b => seedLt store probes (idText a) (idText b) := by
  simp only [Route.records]
  rw [pairwise_filterMap]
  refine (seedIds_pairwise store probes).imp fun {x y} hxy a ha b hb => ?_
  rwa [getRecord_idText ha, getRecord_idText hb]

theorem mem_seed_records {probes : List Probe} :
    record ∈ (Route.relationSeeds probes).records store resource ↔
      record ∈ store.listRecords resource ∧
        ∃ probe ∈ probes, probe.links store (idText record) = true := by
  rw [← mem_seedIds, mem_listRecords]
  simp only [Route.records, mem_filterMap]
  constructor
  · rintro ⟨id, hid, h⟩
    rw [getRecord_idText h]
    exact ⟨h, hid⟩
  · rintro ⟨h, hid⟩
    exact ⟨_, hid, h⟩

theorem accepted_subset (rt : Runtime) (store : LocalStore) (schema : Schema)
    (resource : String) (normalized : Fields) :
    accepted rt store schema resource normalized ⊆ store.listRecords resource :=
  fun _ hr => (mem_accepted.mp hr).1

section Routes

variable {normalized : Fields} {sort : Option (List SortTerm)}

theorem relationSeeds_exact {probes : List Probe}
    (hc : ∀ terms, sort = some terms → ConsistentOn (recordLe rt terms) (store.listRecords resource)) :
    ordered rt sort true (keptRecords rt store schema resource normalized (.relationSeeds probes)) =
      ordered rt sort false (accepted rt store schema resource normalized) ↔
    RouteExact rt store schema resource sort normalized (.relationSeeds probes) := by
  have hsub := accepted_subset rt store schema resource normalized
  have hkept : (keptRecords rt store schema resource normalized (.relationSeeds probes)).Pairwise
      fun a b => seedLt store probes (idText a) (idText b) :=
    (seed_records_pairwise store resource probes).sublist filter_sublist
  rw [ordered_eq_iff (fun _ _ => seedLt_asymm) ((consistent_id rt store resource).subset hsub)
    (fun terms h => (hc terms h).subset hsub) (accepted_pairwise rt store schema resource normalized)
    hkept]
  refine and_congr_left fun _ => ?_
  simp only [keptRecords, Route.filterFullySatisfied, Bool.false_eq_true, if_false, mem_filter, mem_seed_records, decide_eq_true_eq, mem_accepted]
  constructor
  · intro h record hr
    exact ((h record).mpr hr).1.2
  · intro h record
    constructor
    · exact fun hr => ⟨hr.1.1, hr.2⟩
    · exact fun hr => ⟨⟨hr.1, h record hr⟩, hr.2⟩

theorem byField_exact :
    ordered rt sort true (keptRecords rt store schema resource normalized (.byField field value)) =
      ordered rt sort false (accepted rt store schema resource normalized) ↔
    RouteExact rt store schema resource sort normalized (.byField field value) := by
  have hsub := accepted_subset rt store schema resource normalized
  rw [ordered_eq_iff_of_idLt ((consistent_id rt store resource).subset hsub)
    (accepted_pairwise rt store schema resource normalized)
    (show (keptRecords rt store schema resource normalized (.byField field value)).Pairwise idLt from
      findRecords_pairwise store resource field (some value))]
  refine and_congr_left fun _ => ?_
  simp only [keptRecords, Route.filterFullySatisfied, if_true, Route.records, mem_findRecords,
    mem_accepted]
  constructor
  · intro h record hr
    have := h record
    tauto
  · intro h record
    have := h record
    tauto

theorem byId_exact :
    ordered rt sort true (keptRecords rt store schema resource normalized (.byId value satisfied)) =
      ordered rt sort false (accepted rt store schema resource normalized) ↔
    RouteExact rt store schema resource sort normalized (.byId value satisfied) := by
  have hsub := accepted_subset rt store schema resource normalized
  have hkept : (keptRecords rt store schema resource normalized (.byId value satisfied)).Pairwise
      idLt := by
    unfold keptRecords
    split
    · exact byId_records_pairwise store resource value satisfied
    · exact (byId_records_pairwise store resource value satisfied).sublist filter_sublist
  rw [ordered_eq_iff_of_idLt ((consistent_id rt store resource).subset hsub)
    (accepted_pairwise rt store schema resource normalized) hkept]
  have hmem : ∀ record, record ∈ keptRecords rt store schema resource normalized
      (.byId value satisfied) ↔ record ∈ store.listRecords resource ∧
        Json.strictEq (record.lookup "id") (some value) = true ∧
          (satisfied = true ∨ applyFilter rt store schema resource record normalized = some true) := by
    intro record
    cases satisfied with
    | true => simp [keptRecords, Route.filterFullySatisfied, mem_byId_records]
    | false => simp [keptRecords, Route.filterFullySatisfied, mem_byId_records, and_assoc]
  simp only [hmem, mem_accepted, RouteExact]
  constructor
  · rintro ⟨h, _⟩
    refine ⟨fun record hr => ((h record).mpr hr).2.1, fun hs record hr heq => ?_⟩
    exact ((h record).mp ⟨hr, heq, .inl hs⟩).2
  rintro ⟨hid, hsatisfied⟩
  refine ⟨fun record => ⟨?_, fun hr => ⟨hr.1, hid record hr, .inr hr.2⟩⟩, ?_⟩
  · rintro ⟨hr, heq, hs | haccepts⟩
    · exact ⟨hr, hsatisfied hs record hr heq⟩
    · exact ⟨hr, haccepts⟩
  -- two accepted records have the same id, so there is one
  have hsame : ∀ a ∈ accepted rt store schema resource normalized,
      ∀ b ∈ accepted rt store schema resource normalized, a = b := by
    intro a ha b hb
    have hgeta : a ∈ (Route.byId value satisfied).records store resource :=
      mem_byId_records.mpr ⟨hsub ha, hid a (mem_accepted.mp ha)⟩
    have hgetb : b ∈ (Route.byId value satisfied).records store resource :=
      mem_byId_records.mpr ⟨hsub hb, hid b (mem_accepted.mp hb)⟩
    cases value with
    | str id =>
      have := (mem_toList.mp hgeta).symm.trans (mem_toList.mp hgetb)
      exact some.inj this
    | _ => cases hgeta
  cases sort with
  | none =>
    intro a ha b hb hab
    rw [hsame a ha b hb] at hab
    exact absurd hab (hab.antisymm idLt_asymm)
  | some terms => exact fun a _ b _ _ _ hab => hab

end Routes

/-! ## A field without a dot -/

theorem applyFilter_field_eq (hdot : isDotted field = false) (hand : field ≠ "$and")
    (hor : field ≠ "$or") (record : Fields) :
    applyFilter rt store schema resource record [(field, .obj [("$eq", value)])] =
      some (Json.strictEq (record.lookup field) (some value)) := by
  have hquantifier : hasQuantifier [("$eq", value)] = false := rfl
  have hmatch : (findRelationMatch schema resource field).filter
      (fun _ => hasQuantifier [("$eq", value)]) = none := by
    cases findRelationMatch schema resource field <;> rfl
  have hpath : isRelationPathFilter schema resource record field = false := by
    simp [isRelationPathFilter, hdot]
  have hfield : evaluateFilter rt record field (.obj [("$eq", value)]) =
      some (Json.strictEq (record.lookup field) (some value)) := by
    unfold evaluateFilter
    rw [if_neg (by simp [hand, hor]), if_neg (by simp [hdot])]
    cases h : Json.strictEq (record.lookup field) (some value) <;>
      simp [evaluateFieldValue, evaluateOperators, evaluateOperator, List.allM, h]
  unfold applyFilter
  rw [applyFilterFuel]
  cases h : Json.strictEq (record.lookup field) (some value) <;>
    simp [List.allM, applyEntry, hmatch, applyField, hpath, hfield, h]

theorem byField_exact_iff_order (hdot : isDotted field = false) (hand : field ≠ "$and")
    (hor : field ≠ "$or") :
    RouteExact rt store schema resource sort [(field, .obj [("$eq", value)])]
        (.byField field value) ↔
      OrderKept rt sort (accepted rt store schema resource [(field, .obj [("$eq", value)])]) idLt := by
  refine and_iff_right fun record _ => ?_
  rw [applyFilter_field_eq hdot hand hor, some.injEq]

def task (id status : String) : Fields := [("id", .str id), ("status", .str status)]

def taskRows : OMap String Fields := (OMap.empty.set "b" (task "b" "open")).set "a" (task "a" "open")

def taskStore : LocalStore where
  records _ :=
    { rows := taskRows
      keyed := by
        intro id record h
        simp only [taskRows, OMap.get_set, OMap.get_empty] at h
        split at h
        · cases h
          simp_all [task]
        · split at h
          · cases h
            simp_all [task]
          · cases h }
  joinRows _ := ⟨[], List.nodup_nil⟩

def emptySchema : Schema := ⟨[], []⟩

def openTasks : DfqlQuery where
  resource := "tasks"
  filters := some [("status", .obj [("eq", .str "open")])]
  sort := some [.str "-id"]
  offset := 0
  limit := 0

/-- A filter that asks for the id `a` and not the id `a`: the id route returns the record. -/
def contradictory : DfqlQuery where
  resource := "tasks"
  filters := some [("id", .obj [("eq", .str "a"), ("ne", .str "a")])]
  sort := none
  offset := 0
  limit := 0

end SuperFunctions.Datafn.Client.LocalRouting
