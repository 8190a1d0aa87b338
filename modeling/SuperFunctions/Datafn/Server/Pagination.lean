import Mathlib.Algebra.Order.Ring.Unbundled.Rat
import SuperFunctions.Datafn.Client.LocalQuery
import SuperFunctions.Lib.Paging
import SuperFunctions.Lib.StableSort

/-!
# Cursor pagination

The page of a query that the in-memory executor and the push-down executor return, with the
cursor that leads to the next one.
-/
namespace SuperFunctions.Datafn.Server.Pagination

open Lib.Paging Datafn.Core Client.LocalQuery

/-- What a cursor holds of its record. Members that are undefined are left out. -/
abbrev Cursor := Fields

structure ExecutionError where
  code : String
  message : String
  path : String

def cursorNeedsId : ExecutionError :=
  ⟨"DFQL_INVALID", "Invalid DFQL: cursor requires sort with id tie-breaker", "cursor"⟩

structure PageQuery where
  sortTerms : List SortTerm
  after : Option Cursor
  before : Option Cursor
  limit : Option Nat
  offset : Option Nat

/-- The records of a page and the next cursor. -/
abbrev Page := List Fields × Option Cursor

section
variable (rt : Runtime)

/-- `records.slice(start, end)` -/
def applyLimitOffset (records : List Fields) (limit offset : Option Nat) : List Fields :=
  let rest := records.drop (offset.getD 0)
  match limit with
  | none => rest
  | some limit => rest.take limit

def cursorOf (sortTerms : List SortTerm) (record : Fields) : Cursor :=
  sortTerms.filterMap fun term => (record.lookup term.field).map fun value => (term.field, value)

/-- `if (limit)` -/
def truthy : Option Nat → Option Nat
  | some 0 => none
  | limit => limit

def computeNextCursor (results : List Fields) (sortTerms : List SortTerm) (limit : Option Nat) :
    Option Cursor :=
  match truthy limit with
  | none => none
  | some limit =>
    if limit < results.length then (results[limit - 1]?).map (cursorOf sortTerms) else none

/-- The value of a record against that of a cursor: an empty value comes before any other. -/
def compareToCursor (recordVal cursorVal : Option Json) : Ordering :=
  if Json.isNullish recordVal then .lt
  else if Json.isNullish cursorVal then .gt
  else
    match recordVal, cursorVal with
    | some (.str a), some (.str b) => rt.localeCompare a b
    | some (.num a), some (.num b) => if a < b then .lt else if b < a then .gt else .eq
    | some a, some b => rt.localeCompare (rt.stringOf a) (rt.stringOf b)
    | _, _ => .eq

def isAfterCursor (record : Fields) (cursor : Cursor) : List SortTerm → Bool
  | [] => false
  | term :: terms =>
    let recordVal := record.lookup term.field
    let cursorVal := cursor.lookup term.field
    if Json.strictEq recordVal cursorVal then isAfterCursor record cursor terms
    else
      match compareToCursor rt recordVal cursorVal, term.direction with
      | .eq, _ => isAfterCursor record cursor terms
      | cmp, .asc => cmp == .gt
      | cmp, .desc => cmp == .lt

/-- Each round of the search halves what is left, so the length is more than enough rounds. -/
def findFirstAfterCursor (records : List Fields) (cursor : Cursor) (sortTerms : List SortTerm) :
    Nat :=
  search (fun i => (records[i]?).any fun record => isAfterCursor rt record cursor sortTerms)
    records.length 0 records.length

def applyCursorAfter (records : List Fields) (cursor : Cursor) (sortTerms : List SortTerm) :
    List Fields := records.drop (findFirstAfterCursor rt records cursor sortTerms)

/-- `validateSortForCursor` -/
def validateSortForCursor (sortTerms : List SortTerm) : Bool :=
  (sortTerms.getLast?).any fun term => term.field = "id"

def invert (term : SortTerm) : SortTerm :=
  ⟨term.field, match term.direction with
    | .asc => .desc
    | .desc => .asc⟩

/-- The page before a cursor is searched for in the reversed rows. -/
def applyCursorBefore (records : List Fields) (cursor : Cursor) (sortTerms : List SortTerm)
    (limit : Option Nat) : List Fields :=
  let workRecords := applyCursorAfter rt records.reverse cursor (sortTerms.map invert)
  (applyLimitOffset workRecords (truthy limit) none).reverse

def lastCursor (records : List Fields) (sortTerms : List SortTerm) : Option Cursor :=
  (records.getLast?).map (cursorOf sortTerms)

/-- The part of `executeQuery` that makes the page of the records that match. -/
def executePage (matching : List Fields) (query : PageQuery) : Except ExecutionError Page :=
  if (query.after.isSome || query.before.isSome) && !validateSortForCursor query.sortTerms then
    .error cursorNeedsId
  else
    let sorted := sortRecords rt matching query.sortTerms
    let records :=
      match query.after, query.before with
      | some after, _ => applyCursorAfter rt sorted after query.sortTerms
      | none, some before => applyCursorBefore rt sorted before query.sortTerms query.limit
      | none, none => sorted
    match query.before with
    | some _ => .ok (records, lastCursor records query.sortTerms)
    | none =>
      let records := applyLimitOffset records ((truthy query.limit).map (· + 1)) query.offset
      .ok (applyLimitOffset records (truthy query.limit) none,
        computeNextCursor records query.sortTerms query.limit)

/-- The part of `pushdownCore` that makes the page. The adapter is asked for the rows with a
limit and an offset. -/
def pushdownPage (findMany : Option Nat → Option Nat → List Fields) (query : PageQuery) :
    Except ExecutionError Page :=
  let hasCursor := query.after.isSome || query.before.isSome
  if hasCursor && !validateSortForCursor query.sortTerms then .error cursorNeedsId
  else
    let rows :=
      if hasCursor then findMany none none else findMany (query.limit.map (· + 1)) query.offset
    match query.after, query.before with
    | some after, _ =>
      let records := applyCursorAfter rt rows after query.sortTerms
      .ok (applyLimitOffset records (truthy query.limit) none,
        computeNextCursor (applyLimitOffset records ((truthy query.limit).map (· + 1)) none)
          query.sortTerms query.limit)
    | none, some before =>
      let records := applyCursorBefore rt rows before query.sortTerms query.limit
      .ok (records, lastCursor records query.sortTerms)
    | none, none =>
      .ok (applyLimitOffset rows (truthy query.limit) none,
        computeNextCursor rows query.sortTerms query.limit)

/-- An adapter that returns the matching rows in the order of the sort. -/
def sortedAdapter (matching : List Fields) (sortTerms : List SortTerm) (limit offset : Option Nat) :
    List Fields := applyLimitOffset (sortRecords rt matching sortTerms) limit offset

/-- A query without an offset, from the cursor on. -/
def forward (sortTerms : List SortTerm) (limit : Nat) (cursor : Option Cursor) : PageQuery :=
  ⟨sortTerms, cursor, none, some limit, none⟩

def backward (sortTerms : List SortTerm) (limit : Nat) (cursor : Cursor) : PageQuery :=
  ⟨sortTerms, none, some cursor, some limit, none⟩

end

end SuperFunctions.Datafn.Server.Pagination

/-!
# The order of the rows and the cursor

Where the values that tell two records apart are of one kind, the comparator that sorts the rows
and the one that finds the place of a cursor are the same order.
-/
namespace SuperFunctions.Datafn.Server.Pagination

open Lib.StableSort Datafn.Core Client.LocalQuery List

/-! ## Kinds of values -/

inductive Kind where
  | number
  | text
  deriving DecidableEq

def kind : Option Json → Option Kind
  | some (.num _) => some .number
  | some (.str _) => some .text
  | some (.bool _) => some .text
  | _ => none

/-- The values a column of records can have. -/
def IsScalar : Option Json → Prop
  | some (.arr _) => False
  | some (.obj _) => False
  | _ => True

instance (value : Option Json) : Decidable (IsScalar value) := by
  unfold IsScalar
  split <;> infer_instance

/-- The first sort term that tells the records apart finds two numbers or two texts in them. -/
def Comparable (rt : Runtime) : List SortTerm → Fields → Fields → Prop
  | [], _, _ => False
  | term :: terms, a, b =>
    if Json.strictEq (a.lookup term.field) (b.lookup term.field) = true then Comparable rt terms a b
    else
      (kind (a.lookup term.field)).isSome = true ∧
        kind (a.lookup term.field) = kind (b.lookup term.field) ∧
        (compareValues rt (a.lookup term.field) (b.lookup term.field) = .eq →
          Comparable rt terms a b)

instance decidableComparable (rt : Runtime) : ∀ terms a b, Decidable (Comparable rt terms a b)
  | [], _, _ => isFalse id
  | term :: terms, a, b => by
    unfold Comparable
    have := decidableComparable rt terms a b
    infer_instance

/-- Any two of the records are comparable. -/
structure Orderly (rt : Runtime) (terms : List SortTerm) (records : List Fields) : Prop where
  scalar : ∀ record ∈ records, ∀ term ∈ terms, IsScalar (record.lookup term.field)
  comparable : ∀ a ∈ records, ∀ b ∈ records, a ≠ b → Comparable rt terms a b

variable {terms : List SortTerm} {records : List Fields}

theorem orderly_of_pairwise {rt : Runtime}
    (hscalar : ∀ record ∈ records, ∀ term ∈ terms, IsScalar (record.lookup term.field))
    (hpairs : records.Pairwise fun a b => Comparable rt terms a b ∧ Comparable rt terms b a) :
    Orderly rt terms records := by
  refine ⟨hscalar, fun a ha b hb hne => ?_⟩
  rcases rel_or_of_pairwise hpairs ha hb hne with hab | hba
  · exact hab.1
  · exact hba.2

/-! ## One order for both -/

inductive Key where
  | number (n : Rat)
  | text (s : String)

section
variable {rt : Runtime}

def keyOf (rt : Runtime) : Option Json → Option Key
  | some (.num n) => some (.number n)
  | some (.str s) => some (.text s)
  | some (.bool b) => some (.text (rt.stringOf (.bool b)))
  | _ => none

def compareKeys (rt : Runtime) : Option Key → Option Key → Ordering
  | none, none => .eq
  | none, some _ => .lt
  | some _, none => .gt
  | some (.number a), some (.number b) => if a < b then .lt else if b < a then .gt else .eq
  | some (.number _), some (.text _) => .lt
  | some (.text _), some (.number _) => .gt
  | some (.text a), some (.text b) => rt.localeCompare a b

theorem isLE_iff {o : Ordering} : o.isLE = true ↔ o ≠ .gt := by
  cases o <;> decide

theorem compareKeys_swap (a b : Option Key) : compareKeys rt a b = (compareKeys rt b a).swap := by
  rcases a with _ | a | a <;> rcases b with _ | b | b
  case some.number.some.number =>
    simp only [compareKeys]
    by_cases hab : a < b
    · rw [if_pos hab, if_neg (lt_asymm hab), if_pos hab]
      rfl
    · rw [if_neg hab]
      split_ifs
      · rfl
      · rfl
  case some.text.some.text => exact (rt.localeCompare_swap b a).symm
  all_goals rfl

theorem compareKeys_trans {a b c : Option Key} (hab : (compareKeys rt a b).isLE = true)
    (hbc : (compareKeys rt b c).isLE = true) : (compareKeys rt a c).isLE = true := by
  rcases a with _ | a | a <;> rcases b with _ | b | b <;> rcases c with _ | c | c
  case some.number.some.number.some.number =>
    have hle : ∀ x y : Rat, (compareKeys rt (some (.number x)) (some (.number y))).isLE = true ↔
        x ≤ y := by
      intro x y
      simp only [compareKeys]
      split_ifs with hlt hgt
      · simpa using hlt.le
      · simpa using hgt
      · simpa using not_lt.mp hgt
    rw [hle] at hab hbc ⊢
    exact hab.trans hbc
  case some.text.some.text.some.text =>
    rw [isLE_iff] at hab hbc ⊢
    exact rt.localeCompare_trans a b c hab hbc
  all_goals first
    | exact hab
    | exact hbc
    | rfl
    | exact absurd hab Bool.false_ne_true
    | exact absurd hbc Bool.false_ne_true

instance : Std.TransCmp (compareKeys rt) where
  eq_swap := compareKeys_swap _ _
  isLE_trans := compareKeys_trans

theorem compareKeys_self (a : Option Key) : compareKeys rt a a = .eq := Std.ReflCmp.compare_self

def compareTerm (rt : Runtime) (term : SortTerm) (a b : Fields) : Ordering :=
  match term.direction with
  | .asc => compareKeys rt (keyOf rt (a.lookup term.field)) (keyOf rt (b.lookup term.field))
  | .desc => compareKeys rt (keyOf rt (b.lookup term.field)) (keyOf rt (a.lookup term.field))

def compareRanks (rt : Runtime) : List SortTerm → Fields → Fields → Ordering
  | [], _, _ => .eq
  | term :: terms, a, b => (compareTerm rt term a b).then (compareRanks rt terms a b)

instance (term : SortTerm) : Std.TransCmp (compareTerm rt term) where
  eq_swap {a b} := by
    obtain ⟨field, _ | _⟩ := term
    · exact compareKeys_swap _ _
    · exact compareKeys_swap _ _
  isLE_trans {a b c} hab hbc := by
    obtain ⟨field, _ | _⟩ := term
    · exact compareKeys_trans hab hbc
    · exact compareKeys_trans hbc hab

instance transCmpRanks (terms : List SortTerm) : Std.TransCmp (compareRanks rt terms) := by
  induction terms with
  | nil => exact { eq_swap := rfl, isLE_trans := fun _ _ => rfl }
  | cons term terms ih =>
    have hlex : Std.TransCmp (compareLex (compareTerm rt term) (compareRanks rt terms)) :=
      inferInstance
    exact hlex

theorem keyOf_eq_of_strictEq {a b : Option Json} (h : Json.strictEq a b = true) :
    keyOf rt a = keyOf rt b := by
  rcases a with _ | a
  · rcases b with _ | b
    · rfl
    · cases b <;> cases h
  rcases b with _ | b
  · cases a <;> cases h
  cases a <;> cases b
  case null.null => rfl
  case bool.bool a b => rw [eq_of_beq h]
  case num.num a b => rw [eq_of_beq h]
  case str.str a b => rw [eq_of_beq h]
  all_goals cases h

theorem compare_eq_keys (hstring : ∀ s, rt.stringOf (.str s) = s) {a b : Option Json}
    (hkind : (kind a).isSome = true) (hsame : kind a = kind b) :
    compareValues rt a b = compareKeys rt (keyOf rt a) (keyOf rt b) ∧
      compareToCursor rt a b = compareKeys rt (keyOf rt a) (keyOf rt b) := by
  rcases a with _ | a
  · cases hkind
  rcases b with _ | b
  · rw [hsame] at hkind
    cases hkind
  cases a <;> cases b <;> simp only [kind, reduceCtorEq, Option.isSome_none, Bool.false_eq_true,
    Option.some.injEq] at hkind hsame
  case num.num a b => exact ⟨rfl, rfl⟩
  case str.str a b => exact ⟨rfl, rfl⟩
  case bool.bool a b => exact ⟨rfl, rfl⟩
  case bool.str a b =>
    have heq : compareValues rt (some (.bool a)) (some (.str b)) =
      rt.localeCompare (rt.stringOf (.bool a)) (rt.stringOf (.str b)) := rfl
    rw [hstring] at heq
    exact ⟨heq, heq⟩
  case str.bool a b =>
    have heq : compareValues rt (some (.str a)) (some (.bool b)) =
      rt.localeCompare (rt.stringOf (.str a)) (rt.stringOf (.bool b)) := rfl
    rw [hstring] at heq
    exact ⟨heq, heq⟩

theorem compareTerm_eq_of_strictEq {term : SortTerm} {a b : Fields}
    (h : Json.strictEq (a.lookup term.field) (b.lookup term.field) = true) :
    compareTerm rt term a b = .eq := by
  rw [compareTerm, keyOf_eq_of_strictEq h]
  obtain ⟨field, _ | _⟩ := term
  · exact compareKeys_self _
  · exact compareKeys_self _

theorem then_of_ne {o o' o'' : Ordering} (h : o ≠ .eq) : o.then o' = o.then o'' := by
  cases o with
  | eq => exact absurd rfl h
  | lt => rfl
  | gt => rfl

theorem compareRecords_eq (hstring : ∀ s, rt.stringOf (.str s) = s) {a b : Fields}
    (h : Comparable rt terms a b) :
    compareRecords rt terms a b = compareRanks rt terms a b ∧ compareRanks rt terms a b ≠ .eq := by
  induction terms with
  | nil => exact absurd h id
  | cons term terms ih =>
    rw [Comparable] at h
    rw [compareRecords, compareRanks]
    split_ifs at h ⊢ with hsame
    · rw [compareTerm_eq_of_strictEq hsame]
      exact ih h
    obtain ⟨hkind, hkinds, htie⟩ := h
    have hkeys := (compare_eq_keys hstring hkind hkinds).1
    have hterm : compareTerm rt term a b =
        match term.direction with
        | .asc => compareValues rt (a.lookup term.field) (b.lookup term.field)
        | .desc => (compareValues rt (a.lookup term.field) (b.lookup term.field)).swap := by
      rw [hkeys]
      obtain ⟨field, _ | _⟩ := term
      · rfl
      · exact compareKeys_swap _ _
    by_cases heq : compareValues rt (a.lookup term.field) (b.lookup term.field) = .eq
    · obtain ⟨hrest, hne⟩ := ih (htie heq)
      rw [heq] at hterm ⊢
      cases hdir : term.direction with
      | asc | desc =>
        rw [hdir] at hterm
        rw [hterm]
        exact ⟨hrest, hne⟩
    · have hne : compareTerm rt term a b ≠ .eq := by
        rw [hterm]
        cases term.direction with
        | asc => exact heq
        | desc => exact fun hswap => heq (Ordering.swap_eq_eq.mp hswap)
      refine ⟨?_, fun hthen => hne (Ordering.then_eq_eq.mp hthen).1⟩
      rw [hterm] at hne ⊢
      cases hdir : term.direction with
      | asc | desc =>
        rw [hdir] at hne
        exact then_of_ne hne

variable {record : Fields} {cursor : Cursor}

theorem isAfterCursor_eq (hstring : ∀ s, rt.stringOf (.str s) = s) {c : Fields}
    (hcursor : ∀ term ∈ terms, cursor.lookup term.field = c.lookup term.field)
    (h : Comparable rt terms record c) :
    isAfterCursor rt record cursor terms = (compareRanks rt terms record c == .gt) := by
  induction terms with
  | nil => exact absurd h id
  | cons term terms ih =>
    have hrest := ih fun t ht => hcursor t (mem_cons_of_mem _ ht)
    rw [Comparable] at h
    rw [isAfterCursor, compareRanks]
    rw [hcursor term mem_cons_self]
    split_ifs at h ⊢ with hsame
    · rw [compareTerm_eq_of_strictEq hsame]
      exact hrest h
    obtain ⟨hkind, hkinds, htie⟩ := h
    obtain ⟨hvalues, hcmp⟩ := compare_eq_keys hstring hkind hkinds
    rw [hvalues, ← hcmp] at htie
    have hswap : compareKeys rt (keyOf rt (c.lookup term.field))
        (keyOf rt (record.lookup term.field)) =
          (compareToCursor rt (record.lookup term.field) (c.lookup term.field)).swap := by
      rw [hcmp]
      exact compareKeys_swap _ _
    rw [compareTerm, hswap, ← hcmp]
    cases hord : compareToCursor rt (record.lookup term.field) (c.lookup term.field) with
    | eq =>
      have hlater := hrest (htie hord)
      cases term.direction with
      | asc | desc => exact hlater
    | lt | gt =>
      cases term.direction with
      | asc => rfl
      | desc => rfl

theorem strictEq_self {value : Option Json} (h : IsScalar value) :
    Json.strictEq value value = true := by
  rcases value with _ | value
  · rfl
  cases value with
  | null => rfl
  | bool b | num b | str b => exact beq_self_eq_true b
  | arr items | obj members => exact absurd h id

theorem isAfterCursor_self
    (hcursor : ∀ term ∈ terms, cursor.lookup term.field = record.lookup term.field)
    (h : ∀ term ∈ terms, IsScalar (record.lookup term.field)) :
    isAfterCursor rt record cursor terms = false := by
  induction terms with
  | nil => rfl
  | cons term terms ih =>
    rw [isAfterCursor]
    rw [hcursor term mem_cons_self, if_pos (strictEq_self (h term mem_cons_self))]
    exact ih (fun t ht => hcursor t (mem_cons_of_mem _ ht))
      fun t ht => h t (mem_cons_of_mem _ ht)

theorem lookup_cursorOf (terms : List SortTerm) (record : Fields) {field : String}
    (h : field ∈ terms.map SortTerm.field) :
    (cursorOf terms record).lookup field = record.lookup field := by
  induction terms with
  | nil => cases h
  | cons term terms ih =>
    rw [cursorOf, filterMap_cons]
    by_cases hfield : field = term.field
    · cases hvalue : record.lookup term.field with
      | some value =>
        show List.lookup field ((term.field, value) :: _) = _
        rw [hfield, lookup_cons_self, hvalue]
      | none =>
        by_cases hin : field ∈ terms.map SortTerm.field
        · exact ih hin
        rw [hfield, hvalue, lookup_eq_none_iff]
        intro e he
        obtain ⟨t, ht, hsome⟩ := mem_filterMap.mp he
        obtain ⟨value, -, rfl⟩ := Option.map_eq_some_iff.mp hsome
        rw [← hfield]
        refine bne_iff_ne.mpr fun heq => hin ?_
        rw [heq]
        exact mem_map_of_mem ht
    · have hin : field ∈ terms.map SortTerm.field := by
        rcases mem_cons.mp h with heq | hin
        · exact absurd heq hfield
        · exact hin
      cases hvalue : record.lookup term.field with
      | some value =>
        show List.lookup field ((term.field, value) :: cursorOf terms record) = _
        rw [lookup_cons, beq_eq_false_iff_ne.mpr hfield]
        exact ih hin
      | none => exact ih hin

/-! ## The other direction -/

theorem compareTerm_invert (term : SortTerm) (a b : Fields) :
    compareTerm rt (invert term) a b = compareTerm rt term b a := by
  rw [compareTerm, compareTerm, invert]
  cases term.direction with
  | asc => rfl
  | desc => rfl

theorem compareRanks_invert (terms : List SortTerm) (a b : Fields) :
    compareRanks rt (terms.map invert) a b = compareRanks rt terms b a := by
  induction terms with
  | nil => rfl
  | cons term terms ih =>
    rw [map_cons, compareRanks, compareRanks, compareTerm_invert, ih]

theorem comparable_invert {a b : Fields} (h : Comparable rt terms a b) :
    Comparable rt (terms.map invert) a b := by
  induction terms with
  | nil => exact h
  | cons term terms ih =>
    rw [Comparable] at h
    show if Json.strictEq (a.lookup term.field) (b.lookup term.field) = true then _ else _
    split_ifs at h ⊢ with hsame
    · exact ih h
    · exact ⟨h.1, h.2.1, fun heq => ih (h.2.2 heq)⟩

theorem orderly_invert (h : Orderly rt terms records) : Orderly rt (terms.map invert) records := by
  refine ⟨fun record hrecord term hterm => ?_, fun a ha b hb hne =>
    comparable_invert (h.comparable a ha b hb hne)⟩
  obtain ⟨old, hold, rfl⟩ := mem_map.mp hterm
  exact h.scalar record hrecord old hold

/-! ## The sorted rows -/

theorem compareRecords_self (h : ∀ term ∈ terms, IsScalar (record.lookup term.field)) :
    compareRecords rt terms record record = .eq := by
  induction terms with
  | nil =>
    rw [compareRecords]
    have hswap := rt.localeCompare_swap (idString rt record) (idString rt record)
    cases hcmp : rt.localeCompare (idString rt record) (idString rt record) with
    | eq => rfl
    | lt | gt =>
      rw [hcmp] at hswap
      cases hswap
  | cons term terms ih =>
    rw [compareRecords, if_pos (strictEq_self (h term mem_cons_self))]
    exact ih fun t ht => h t (mem_cons_of_mem _ ht)

theorem recordLe_iff (hstring : ∀ s, rt.stringOf (.str s) = s) (h : Orderly rt terms records)
    {a b : Fields} (ha : a ∈ records) (hb : b ∈ records) :
    recordLe rt terms a b ↔ (compareRanks rt terms a b).isLE = true := by
  rw [recordLe, isLE_iff]
  by_cases hne : a = b
  · rw [hne, compareRecords_self (h.scalar b hb)]
    have hself : compareRanks rt terms b b = .eq := Std.ReflCmp.compare_self
    rw [hself]
  · rw [(compareRecords_eq hstring (h.comparable a ha b hb hne)).1]

theorem consistentOn_recordLe (hstring : ∀ s, rt.stringOf (.str s) = s)
    (h : Orderly rt terms records) :
    ConsistentOn (recordLe rt terms) records where
  total a ha b hb := by
    have hswap : compareRanks rt terms b a = (compareRanks rt terms a b).swap :=
      Std.OrientedCmp.eq_swap
    rw [recordLe_iff hstring h ha hb, recordLe_iff hstring h hb ha, hswap]
    cases compareRanks rt terms a b <;> decide
  trans a ha b hb c hc hab hbc := by
    rw [recordLe_iff hstring h ha hb] at hab
    rw [recordLe_iff hstring h hb hc] at hbc
    rw [recordLe_iff hstring h ha hc]
    exact Std.TransCmp.isLE_trans hab hbc

/-- Rows in the order of the terms, no two of them alike. -/
structure Sorted (rt : Runtime) (terms : List SortTerm) (rows : List Fields) : Prop where
  orderly : Orderly rt terms rows
  increasing : rows.Pairwise fun a b => compareRanks rt terms a b = .lt

theorem sorted_sortRecords (hstring : ∀ s, rt.stringOf (.str s) = s) (h : Orderly rt terms records)
    (hnodup : records.Nodup) : Sorted rt terms (sortRecords rt records terms) := by
  have hmem : ∀ r, r ∈ sortRecords rt records terms ↔ r ∈ records :=
    fun r => mem_insertionSort _
  refine ⟨⟨fun record hrecord => h.scalar record ((hmem record).mp hrecord),
    fun a ha b hb hne => h.comparable a ((hmem a).mp ha) b ((hmem b).mp hb) hne⟩, ?_⟩
  have hpairs : (sortRecords rt records terms).Pairwise (WithTies (recordLe rt terms) (· ≠ ·)) :=
    pairwise_insertionSort (consistentOn_recordLe hstring h) hnodup
  have hdistinct : (sortRecords rt records terms).Nodup :=
    (perm_insertionSort _ records).nodup_iff.mpr hnodup
  refine (hpairs.and hdistinct).imp_of_mem fun {a b} ha hb hboth => ?_
  have ha' := (hmem a).mp ha
  have hb' := (hmem b).mp hb
  have hle := (recordLe_iff hstring h ha' hb').mp hboth.1.1
  have hne := (compareRecords_eq hstring (h.comparable a ha' b hb' hboth.2)).2
  cases hord : compareRanks rt terms a b with
  | lt => rfl
  | eq => exact absurd hord hne
  | gt =>
    rw [hord] at hle
    cases hle

theorem Sorted.reverse {rows : List Fields} (h : Sorted rt terms rows) :
    Sorted rt (terms.map invert) rows.reverse := by
  have hinverted := orderly_invert h.orderly
  refine ⟨⟨fun record hrecord => hinverted.scalar record (mem_reverse.mp hrecord),
    fun a ha b hb => hinverted.comparable a (mem_reverse.mp ha) b (mem_reverse.mp hb)⟩, ?_⟩
  rw [pairwise_reverse]
  refine h.increasing.imp fun hlt => ?_
  rwa [compareRanks_invert]

end

end SuperFunctions.Datafn.Server.Pagination
