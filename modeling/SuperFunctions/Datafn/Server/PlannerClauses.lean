import SuperFunctions.Datafn.Server.Planner

/-!
# Which filters have clauses

The converter against the classifier. Filters without in-memory patterns have clauses exactly if
no key names a relation and every branch of an `$and` is an object or a plain array, and then they
have those that their members ask for.
-/
namespace SuperFunctions.Datafn.Server.PlannerClauses

open Datafn.Core Core.Filters QueryValidation Planner List Option

/-! ## What filters ask for -/

/-- The clauses of one field, also those the adapter does not know. -/
def fieldClauses (key : String) : Json → List PushdownWhereClause
  | .obj ops => ops.map fun e => operatorClause key e.1 e.2 ((adapterOp e.1).getD (.other e.1))
  | value => [⟨key, .eq, value⟩]

/-- Filters ask for the clauses of their fields and for what the branches of an `$and` ask for. -/
inductive Asks : Json → PushdownWhereClause → Prop
  | field {filters : Json} {members : Fields} {key : String} {value : Json}
      {clause : PushdownWhereClause} (hentries : filters.entries = some members)
      (hmem : (key, value) ∈ members) (hkey : key ≠ "$and")
      (hclause : clause ∈ fieldClauses key value) : Asks filters clause
  | branch {filters : Json} {members : Fields} {items : List Json} {item : Json}
      {clause : PushdownWhereClause} (hentries : filters.entries = some members)
      (hmem : ("$and", Json.arr items) ∈ members) (hitem : item ∈ items)
      (hclause : Asks item clause) : Asks filters clause

def EntryAsks (key : String) (value : Json) (clause : PushdownWhereClause) : Prop :=
  (key ≠ "$and" ∧ clause ∈ fieldClauses key value) ∨
    (key = "$and" ∧ ∃ items, value = .arr items ∧ ∃ item ∈ items, Asks item clause)

variable {clause : PushdownWhereClause} {filters : Json}

theorem asks_iff : Asks filters clause ↔
      ∃ members, filters.entries = some members ∧ ∃ e ∈ members, EntryAsks e.1 e.2 clause := by
  constructor
  · intro h
    cases h with
    | field hentries hmem hkey hclause =>
      exact ⟨_, hentries, _, hmem, Or.inl ⟨hkey, hclause⟩⟩
    | branch hentries hmem hitem hclause =>
      exact ⟨_, hentries, _, hmem, Or.inr ⟨rfl, _, rfl, _, hitem, hclause⟩⟩
  · intro h
    obtain ⟨members, hentries, ⟨key, value⟩, hmem, hasks⟩ := h
    obtain ⟨hkey, hclause⟩ | ⟨hkey, items, hvalue, item, hitem, hclause⟩ := hasks
    · exact Asks.field hentries hmem hkey hclause
    · simp only at hkey hvalue
      subst hkey hvalue
      exact Asks.branch hentries hmem hitem hclause

theorem asks_obj {members : Fields} :
    Asks (.obj members) clause ↔ ∃ e ∈ members, EntryAsks e.1 e.2 clause := by
  rw [asks_iff]
  constructor
  · intro h
    obtain ⟨entries, hentries, he⟩ := h
    cases hentries
    exact he
  · intro h
    exact ⟨members, rfl, h⟩

variable {items : List Json}

theorem asks_arr : Asks (.arr items) clause ↔
      ∃ e ∈ items.zipIdx, EntryAsks (toString e.2) e.1 clause := by
  rw [asks_iff]
  simp [Json.entries]

theorem asks_nil (clause : PushdownWhereClause) : ¬ Asks (.obj []) clause := by
  rw [asks_obj]
  simp

variable {key : String} {value : Json}

theorem asks_cons {rest : Fields} :
    Asks (.obj ((key, value) :: rest)) clause ↔
      EntryAsks key value clause ∨ Asks (.obj rest) clause := by
  rw [asks_obj, asks_obj, exists_mem_cons_iff]

/-- The filters that are one conjunction. -/
def conjunction (items : List Json) : Json := .obj [("$and", .arr items)]

theorem asks_conjunction : Asks (conjunction items) clause ↔ ∃ item ∈ items, Asks item clause := by
  rw [conjunction, asks_cons]
  constructor
  · intro h
    obtain h | h := h
    · obtain ⟨hkey, -⟩ | ⟨-, items', heq, hitem⟩ := h
      · exact absurd rfl hkey
      · cases heq
        exact hitem
    · exact absurd h (asks_nil clause)
  · intro h
    exact Or.inl (Or.inr ⟨rfl, items, rfl, h⟩)

/-! ## Filters that can be converted -/

/-- All of the operators are known to the adapter. -/
def knownOperators : Json → Bool
  | .obj ops => !hasQuantifier ops && ops.all fun e => (adapterOp e.1).isSome
  | _ => true

mutual

/-- Nothing the converter refuses without the classifier's knowledge: a key that names a
relation, an `$and` that is no array, a branch that is no object or array, an operator within an
array. -/
def gapFree (schema : ServerSchema) (resource : String) : Json → Bool
  | .obj members => gapFreeMembers schema resource members
  | .arr items => gapFreeIndexed schema resource 0 items
  | _ => true

def gapFreeMembers (schema : ServerSchema) (resource : String) : Fields → Bool
  | [] => true
  | (key, value) :: rest =>
    gapFreeEntry schema resource key value && gapFreeMembers schema resource rest

def gapFreeIndexed (schema : ServerSchema) (resource : String) (i : Nat) : List Json → Bool
  | [] => true
  | item :: rest =>
    !isRelationKey schema resource (toString i) && knownOperators item &&
      gapFreeIndexed schema resource (i + 1) rest

def gapFreeEntry (schema : ServerSchema) (resource key : String) : Json → Bool
  | .arr items =>
    if key = "$and" then gapFreeItems schema resource items
    else !isRelationKey schema resource key
  | _ => key ≠ "$and" && !isRelationKey schema resource key

def gapFreeItems (schema : ServerSchema) (resource : String) : List Json → Bool
  | [] => true
  | item :: rest => gapFreeItem schema resource item && gapFreeItems schema resource rest

def gapFreeItem (schema : ServerSchema) (resource : String) : Json → Bool
  | .obj members => gapFreeMembers schema resource members
  | .arr items => gapFreeIndexed schema resource 0 items
  | _ => false

end

/-! ## Index keys -/

theorem toString_ne_of_not_digit (key : String) (i : Nat) (c : Char) (hc : c ∈ key.toList)
    (hdigit : c.isDigit = false) : toString i ≠ key := by
  intro h
  rw [← h, Nat.toString_eq_repr, Nat.repr, String.toList_ofList] at hc
  have := Nat.isDigit_of_mem_toDigits (by decide) (by decide) hc
  rw [hdigit] at this
  cases this

theorem index_ne_and (i : Nat) : toString i ≠ "$and" :=
  toString_ne_of_not_digit _ i '$' (by decide) (by decide)

theorem index_ne_or (i : Nat) : toString i ≠ "$or" :=
  toString_ne_of_not_digit _ i '$' (by decide) (by decide)

theorem index_not_dotted (i : Nat) : isDotted (toString i) = false := by
  apply decide_eq_false
  intro h
  rw [Nat.toString_eq_repr, Nat.repr, String.toList_ofList] at h
  exact absurd (Nat.isDigit_of_mem_toDigits (by decide) (by decide) h) (by decide)

/-! ## Operators -/

theorem convertOperators_isSome (key : String) (ops : Fields) :
    (convertOperators key ops).isSome = ops.all fun e => (adapterOp e.1).isSome := by
  unfold convertOperators
  induction ops with
  | nil => rfl
  | cons e ops ih =>
    rw [mapM_cons, all_cons, ← ih]
    cases adapterOp e.1 with
    | none => rfl
    | some adapter =>
      cases List.mapM (fun e => (adapterOp e.1).map (operatorClause key e.1 e.2)) ops <;> rfl

variable {clauses : List PushdownWhereClause}

theorem convertOperators_eq {ops : Fields} (h : convertOperators key ops = some clauses) :
    clauses = fieldClauses key (.obj ops) := by
  unfold convertOperators at h
  rw [fieldClauses]
  induction ops generalizing clauses with
  | nil => cases h; rfl
  | cons e ops ih =>
    rw [mapM_cons] at h
    cases ha : adapterOp e.1 with
    | none => rw [ha] at h; cases h
    | some adapter =>
      cases hrest : List.mapM (fun e => (adapterOp e.1).map (operatorClause key e.1 e.2)) ops with
      | none => rw [ha, hrest] at h; cases h
      | some rest =>
        rw [ha, hrest] at h
        cases h
        simp [ha, ih hrest]

/-! ## Entries -/

variable {schema : ServerSchema} {resource : String}

/-- The last checks of an entry, once its key is a field's. -/
theorem convertEntry_field (hor : key ≠ "$or") (hand : key ≠ "$and") (hdot : isDotted key = false) :
    (convertEntry schema resource key value).isSome =
      (!isRelationKey schema resource key && knownOperators value) := by
  cases hrel : isRelationKey schema resource key with
  | true => cases value <;> simp [convertEntry, hor, hand, hdot, hrel]
  | false =>
    cases value with
    | obj ops =>
      cases hq : hasQuantifier ops with
      | true => simp [convertEntry, knownOperators, hor, hand, hdot, hq]
      | false =>
        simp [convertEntry, knownOperators, hor, hand, hdot, hrel, hq, convertOperators_isSome]
    | _ => simp [convertEntry, knownOperators, hor, hand, hdot, hrel]

theorem convertEntry_field_eq (hand : key ≠ "$and")
    (h : convertEntry schema resource key value = some clauses) :
    clauses = fieldClauses key value := by
  cases value with
  | obj ops =>
    simp only [convertEntry] at h
    split_ifs at h
    exact convertOperators_eq h
  | _ =>
    simp only [convertEntry] at h
    split_ifs at h
    cases h
    rfl

theorem convertIndexed_isSome (schema : ServerSchema) (resource : String) (items : List Json)
    (i : Nat) :
    (convertIndexed schema resource i items).isSome = gapFreeIndexed schema resource i items := by
  induction items generalizing i with
  | nil => rfl
  | cons item rest ih =>
    have hentry : (convertEntry schema resource (toString i) item).isSome = _ :=
      convertEntry_field (index_ne_or i) (index_ne_and i) (index_not_dotted i)
    rw [convertIndexed, gapFreeIndexed, ← ih, ← hentry]
    cases convertEntry schema resource (toString i) item with
    | none => rfl
    | some clauses => simp

/-- A field of the filters has no pattern exactly if the adapter knows its operators. -/
theorem patternsInEntry_field (hand : key ≠ "$and") :
    patternsInEntry key value = false ↔
      key ≠ "$or" ∧ isDotted key = false ∧ knownOperators value = true := by
  cases value with
  | obj ops => simp [patternsInEntry, knownOperators, and_assoc, isSome_iff_ne_none]
  | _ => simp [patternsInEntry, knownOperators, hand]

theorem convertEntry_isSome_field (hand : key ≠ "$and") (h : patternsInEntry key value = false) :
    (convertEntry schema resource key value).isSome = gapFreeEntry schema resource key value := by
  obtain ⟨hor, hdot, hknown⟩ := (patternsInEntry_field hand).mp h
  rw [convertEntry_field hor hand hdot, hknown]
  cases value <;> simp [gapFreeEntry, hand]

theorem convertEntry_isSome_leaf (hleaf : ∀ items, value ≠ .arr items)
    (h : patternsInEntry key value = false) :
    (convertEntry schema resource key value).isSome = gapFreeEntry schema resource key value := by
  by_cases hand : key = "$and"
  · subst hand
    cases value with
    | arr items => exact absurd rfl (hleaf items)
    | _ => simp [convertEntry, gapFreeEntry]
  · exact convertEntry_isSome_field hand h

mutual

theorem convertMembers_isSome (schema : ServerSchema) (resource : String) :
    ∀ members : Fields, patternsInMembers members = false →
      (convertMembers schema resource members).isSome = gapFreeMembers schema resource members
  | [], _ => rfl
  | (key, value) :: rest, h => by
    rw [patternsInMembers, Bool.or_eq_false_iff] at h
    have hentry := convertEntry_isSome schema resource key value h.1
    have hrest := convertMembers_isSome schema resource rest h.2
    rw [convertMembers, gapFreeMembers, ← hentry, ← hrest]
    cases convertEntry schema resource key value with
    | none => rfl
    | some clauses => simp

theorem convertEntry_isSome (schema : ServerSchema) (resource key : String) :
    ∀ value : Json, patternsInEntry key value = false →
      (convertEntry schema resource key value).isSome = gapFreeEntry schema resource key value
  | .arr items, h => by
    by_cases hand : key = "$and"
    · subst hand
      rw [patternsInEntry, Bool.or_eq_false_iff] at h
      have hitems : patternsInItems items = false := by simpa using h.2
      have hsome := convertItems_isSome schema resource items hitems
      simpa [convertEntry, gapFreeEntry] using hsome
    · exact convertEntry_isSome_field hand h
  | .obj _, h => convertEntry_isSome_leaf (by simp) h
  | .null, h | .bool _, h | .num _, h | .str _, h => convertEntry_isSome_leaf (by simp) h

theorem convertItems_isSome (schema : ServerSchema) (resource : String) :
    ∀ items : List Json, patternsInItems items = false →
      (convertItems schema resource items).isSome = gapFreeItems schema resource items
  | [], _ => rfl
  | item :: rest, h => by
    rw [patternsInItems, Bool.or_eq_false_iff] at h
    have hitem := convertItem_isSome schema resource item h.1
    have hrest := convertItems_isSome schema resource rest h.2
    rw [convertItems, gapFreeItems, ← hitem, ← hrest]
    cases convertItem schema resource item with
    | none => rfl
    | some clauses => simp

theorem convertItem_isSome (schema : ServerSchema) (resource : String) :
    ∀ item : Json, patternsInItem item = false →
      (convertItem schema resource item).isSome = gapFreeItem schema resource item
  | .obj members, h => by
    rw [convertItem, gapFreeItem, convertMembers_isSome schema resource members h]
  | .arr items, _ => by
    rw [convertItem, gapFreeItem, convertIndexed_isSome]
  | .null, _ => rfl
  | .bool _, _ => rfl
  | .num _, _ => rfl
  | .str _, _ => rfl

end

/-- A value that a pushed-down query can carry as its filters. -/
theorem convertDfqlFilters_isSome (hnull : filters ≠ .null)
    (h : hasInMemoryFilterPatterns filters = false) :
    (convertDfqlFilters schema resource filters).isSome = gapFree schema resource filters := by
  cases filters with
  | null => exact absurd rfl hnull
  | obj members =>
    rw [convertDfqlFilters, gapFree, convertMembers_isSome schema resource members h]
  | arr items => rw [convertDfqlFilters, gapFree, convertIndexed_isSome]
  | _ => rfl

/-! ## The clauses are what is asked for -/

theorem mem_convertIndexed {i : Nat} (h : convertIndexed schema resource i items = some clauses)
    (clause : PushdownWhereClause) :
    clause ∈ clauses ↔ ∃ e ∈ items.zipIdx i, EntryAsks (toString e.2) e.1 clause := by
  induction items generalizing i clauses with
  | nil =>
    cases h
    simp
  | cons item rest ih =>
    rw [convertIndexed, bind_eq_some_iff] at h
    obtain ⟨first, hfirst, htail⟩ := h
    obtain ⟨more, hmore, rfl⟩ := map_eq_some_iff.mp htail
    have hclauses := convertEntry_field_eq (index_ne_and i) hfirst
    rw [zipIdx_cons, exists_mem_cons_iff, mem_append, ih hmore, hclauses]
    simp only [EntryAsks, index_ne_and, ne_eq, not_false_eq_true, true_and, false_and, or_false]

theorem mem_convertEntry_field (hand : key ≠ "$and")
    (h : convertEntry schema resource key value = some clauses) (clause : PushdownWhereClause) :
    clause ∈ clauses ↔ EntryAsks key value clause := by
  rw [convertEntry_field_eq hand h]
  simp [EntryAsks, hand]

theorem mem_convertEntry_leaf (hleaf : ∀ items, value ≠ .arr items)
    (h : convertEntry schema resource key value = some clauses) (clause : PushdownWhereClause) :
    clause ∈ clauses ↔ EntryAsks key value clause := by
  have hand : key ≠ "$and" := by
    intro hkey
    subst hkey
    cases value with
    | arr items => exact hleaf items rfl
    | _ => simp [convertEntry] at h
  exact mem_convertEntry_field hand h clause

mutual

theorem mem_convertMembers (schema : ServerSchema) (resource : String)
    (clause : PushdownWhereClause) :
    ∀ (members : Fields) (clauses : List PushdownWhereClause),
      convertMembers schema resource members = some clauses →
        (clause ∈ clauses ↔ Asks (.obj members) clause)
  | [], clauses, h => by
    cases h
    simp [asks_nil]
  | (key, value) :: rest, clauses, h => by
    rw [convertMembers, Option.bind_eq_some_iff] at h
    obtain ⟨first, hfirst, htail⟩ := h
    obtain ⟨more, hmore, rfl⟩ := map_eq_some_iff.mp htail
    rw [mem_append, asks_cons, mem_convertEntry schema resource clause key value first hfirst,
      mem_convertMembers schema resource clause rest more hmore]

theorem mem_convertEntry (schema : ServerSchema) (resource : String)
    (clause : PushdownWhereClause) (key : String) :
    ∀ (value : Json) (clauses : List PushdownWhereClause),
      convertEntry schema resource key value = some clauses →
        (clause ∈ clauses ↔ EntryAsks key value clause)
  | .arr items, clauses, h => by
    by_cases hand : key = "$and"
    · subst hand
      have hitems : convertItems schema resource items = some clauses := by
        simpa [convertEntry] using h
      have hmem := mem_convertItems schema resource clause items clauses hitems
      simp [EntryAsks, hmem]
    · exact mem_convertEntry_field hand h clause
  | .obj _, _, h | .null, _, h => mem_convertEntry_leaf (by simp) h clause
  | .bool _, _, h | .num _, _, h | .str _, _, h => mem_convertEntry_leaf (by simp) h clause

theorem mem_convertItems (schema : ServerSchema) (resource : String)
    (clause : PushdownWhereClause) :
    ∀ (items : List Json) (clauses : List PushdownWhereClause),
      convertItems schema resource items = some clauses →
        (clause ∈ clauses ↔ ∃ item ∈ items, Asks item clause)
  | [], clauses, h => by
    cases h
    simp
  | item :: rest, clauses, h => by
    rw [convertItems, Option.bind_eq_some_iff] at h
    obtain ⟨first, hfirst, htail⟩ := h
    obtain ⟨more, hmore, rfl⟩ := map_eq_some_iff.mp htail
    rw [mem_append, exists_mem_cons_iff,
      mem_convertItem schema resource clause item first hfirst,
      mem_convertItems schema resource clause rest more hmore]

theorem mem_convertItem (schema : ServerSchema) (resource : String)
    (clause : PushdownWhereClause) :
    ∀ (item : Json) (clauses : List PushdownWhereClause),
      convertItem schema resource item = some clauses → (clause ∈ clauses ↔ Asks item clause)
  | .obj members, clauses, h => by
    exact mem_convertMembers schema resource clause members clauses h
  | .arr items, clauses, h => by
    rw [mem_convertIndexed h, asks_arr]
  | .null, _, h => by cases h
  | .bool _, _, h => by cases h
  | .num _, _, h => by cases h
  | .str _, _, h => by cases h

end

theorem mem_convertDfqlFilters (h : convertDfqlFilters schema resource filters = some clauses)
    (clause : PushdownWhereClause) : clause ∈ clauses ↔ Asks filters clause := by
  cases filters with
  | null => cases h
  | obj members =>
    exact mem_convertMembers schema resource clause members clauses h
  | arr items =>
    rw [mem_convertIndexed h, asks_arr]
  | str s =>
    cases h
    rw [asks_iff]
    have hne : ∀ i : Nat, "$and" ≠ i.repr := fun i hi => index_ne_and i hi.symm
    simp [Json.entries, EntryAsks, hne, fieldClauses, eq_comm]
  | _ =>
    cases h
    rw [asks_iff]
    simp [Json.entries]

end SuperFunctions.Datafn.Server.PlannerClauses
