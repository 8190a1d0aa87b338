import SuperFunctions.Lib.Views
import SuperFunctions.Db.RowLevelNamespace

/-!
# Scoped calls

What a call of the adapter that carries a namespace in its clauses and its data does to the rows
of the namespace, and to those of others.
-/
namespace SuperFunctions.Db.ScopedCalls

open Lib.Objects Lib.OrderedMap Where Memory RowLevelNamespace List OMap Option

variable {V K : Type}

/-- What isolation needs of an adapter: strings are told apart, the empty one alone counts as
false, `eq` with a string matches that string, and ordering adds no rows. -/
structure Lawful (e : Engine V K) : Prop where
  str_injective : ∀ s t, e.str s = e.str t → s = t
  truthy_str : ∀ s, s ≠ "" → e.truthy (e.str s) = true
  matches_eq : ∀ value field s connector,
    e.matchesClause value ⟨field, .eq, .one (e.str s), connector⟩ = true ↔ value = some (e.str s)
  order_subset : ∀ orderBy rows row, row ∈ e.order orderBy rows → row ∈ rows

/-! ## Own and foreign rows -/

theorem lookup_removeColumnFromData (data : Row V) (col : String) :
    (removeColumnFromData data col).lookup col = none := Finmap.lookup_erase col data

section
variable [DecidableEq V] (e : Engine V K) (col ns : String)

/-- The row carries the namespace. -/
def own (row : Row V) : Bool := row.lookup col = some (e.str ns)

/-- Clauses that match rows of the namespace only. -/
def ScopedWhere (clauses : Option (List (Clause V))) : Prop :=
  ∀ row, e.matches row clauses = true → own e col ns row = true

/-- A call as the wrapper makes it. -/
def ScopedCall : Call V → Prop
  | .create _ data _ => own e col ns data = true
  | .createMany _ data _ => ∀ d ∈ data, own e col ns d = true
  | .findOne _ clauses _ => ScopedWhere e col ns clauses
  | .findMany _ clauses _ _ _ _ => ScopedWhere e col ns clauses
  | .update _ clauses data _ => ScopedWhere e col ns clauses ∧ data.lookup col = none
  | .updateMany _ clauses data => ScopedWhere e col ns clauses ∧ data.lookup col = none
  | .delete _ clauses => ScopedWhere e col ns clauses
  | .deleteMany _ clauses => ScopedWhere e col ns clauses
  | .upsert _ clauses create update _ _ =>
    ScopedWhere e col ns clauses ∧ own e col ns create = true ∧ update.lookup col = none
  | .count _ clauses => ScopedWhere e col ns clauses

variable [DecidableEq K]

def ownRows (st : Store V K) (model : String) : List (K × Row V) :=
  (st.table model).view fun entry => own e col ns entry.2

def foreignRows (st : Store V K) (model : String) : List (K × Row V) :=
  (st.table model).view fun entry => !own e col ns entry.2

/-- No row of another namespace has the key of the row. -/
def FreeKey (st : Store V K) (model : String) (row : Row V) : Prop :=
  ∀ entry ∈ foreignRows e col ns st model, entry.1 ≠ e.keyOf row

instance (st : Store V K) (model : String) (row : Row V) :
    Decidable (FreeKey e col ns st model row) := by
  unfold FreeKey
  infer_instance

/-- The rows that a call of the adapter creates have free keys. -/
def Apart (st : Store V K) : Call V → Prop
  | .create model data _ => FreeKey e col ns st model (transformCreate e st.generated data).1
  | .createMany model data _ =>
    ∀ row ∈ (transformCreates e st.generated data).1, FreeKey e col ns st model row
  | .upsert model clauses create _ _ _ =>
    findEntry e st model clauses = none →
      FreeKey e col ns st model (transformCreate e st.generated create).1
  | _ => True

instance (st : Store V K) (c : Call V) : Decidable (Apart e col ns st c) := by
  unfold Apart
  split <;> infer_instance

/-- Two stores with the same rows of the namespace. -/
structure SameOwn (st st' : Store V K) : Prop where
  rows : ∀ model, ownRows e col ns st model = ownRows e col ns st' model
  generated : st.generated = st'.generated

end

theorem table_setTable (st : Store V K) (m model : String) (table : Table V K) :
    (st.setTable m table).table model = if model = m then table else st.table model := by
  rw [Store.table, Store.setTable, get_set]
  split_ifs
  · rfl
  · rfl

theorem view_setTable (p : K × Row V → Bool) (st : Store V K) {m : String} {table : Table V K}
    (h : table.view p = (st.table m).view p) (model : String) :
    ((st.setTable m table).table model).view p = (st.table model).view p := by
  rw [table_setTable]
  split_ifs with hm
  · rw [hm, h]
  · rfl

variable {st : Store V K}

theorem table_changeTable {m : String} {f : Table V K → Table V K} (hf : f OMap.empty = OMap.empty)
    (model : String) :
    (changeTable st m f).table model = if model = m then f (st.table m) else st.table model := by
  rw [changeTable]
  split
  · next table hget =>
    rw [table_setTable, Store.table, Store.table, hget]
    rfl
  · next hget =>
    split_ifs with hm
    · rw [hm, Store.table, hget, getD_none, hf]
    · rfl

theorem generated_changeTable (st : Store V K) (m : String) (f : Table V K → Table V K) :
    (changeTable st m f).generated = st.generated := by
  rw [changeTable]
  split
  · rfl
  · rfl

variable {clauses : Option (List (Clause V))} {st' : Store V K} {c : Call V}

section
variable [DecidableEq V] {e : Engine V K} {col ns : String}

/-! ## Scoped calls -/

theorem own_stampData (data : Row V) : own e col ns (stampData e data col (some ns)) = true := by
  rw [own, stampData, Finmap.lookup_insert]
  exact decide_eq_true rfl

theorem scopedWhere_append (hlaw : Lawful e) (clauses : Option (List (Clause V))) :
    ScopedWhere e col ns (withNamespaceWhere e clauses col (some ns)) := by
  intro row h
  have happend : matchesWhere e.matchesClause row
      (clauses.getD [] ++ [namespaceWhereClause e col ns]) = true := h
  rw [matchesWhere_append _ _ _ (by simp [namespaceWhereClause]), Bool.and_eq_true] at happend
  exact decide_eq_true ((hlaw.matches_eq _ _ _ _).mp happend.2)

theorem scopedWhere_build (hlaw : Lawful e) (clauses : Option (List (Clause V))) :
    ScopedWhere e col ns (buildScopedWhere e clauses col (some ns)) :=
  scopedWhere_append hlaw (removeNamespaceWhere clauses col)

theorem scopedCall_scoped (hlaw : Lawful e) {inner : Call V}
    (h : scopedCall e col (some ns) c = some inner) : ScopedCall e col ns inner := by
  cases c with
  | create model data select =>
    cases h
    exact own_stampData _
  | createMany model data select =>
    cases h
    refine forall_mem_map.mpr fun d' _ => ?_
    exact own_stampData _
  | findOne model clauses select | findMany model clauses orderBy offset limit select
  | deleteMany model clauses | count model clauses =>
    cases h
    exact scopedWhere_build hlaw clauses
  | update model clauses data select =>
    rw [scopedCall] at h
    split_ifs at h
    cases h
    exact ⟨scopedWhere_append hlaw _, lookup_removeColumnFromData data col⟩
  | updateMany model clauses data =>
    cases h
    exact ⟨scopedWhere_build hlaw clauses, lookup_removeColumnFromData data col⟩
  | delete model clauses =>
    rw [scopedCall] at h
    split_ifs at h
    cases h
    exact scopedWhere_append hlaw _
  | upsert model clauses create update conflictTarget select =>
    cases h
    exact ⟨scopedWhere_build hlaw clauses, own_stampData _, lookup_removeColumnFromData update col⟩

/-! ## Rows that are written -/

variable {data : Row V}

theorem own_transformCreate (hlaw : Lawful e) (hns : ns ≠ "") (generated : Nat)
    (h : own e col ns data = true) : own e col ns (transformCreate e generated data).1 = true := by
  rw [transformCreate]
  split_ifs with hid
  · exact h
  have hlookup := of_decide_eq_true h
  have hne : col ≠ "id" := by
    intro heq
    rw [heq] at hlookup
    rw [hlookup, any_some] at hid
    exact hid (hlaw.truthy_str ns hns)
  rw [own, Finmap.lookup_insert_of_ne _ hne]
  exact decide_eq_true hlookup

theorem own_transformCreates (hlaw : Lawful e) (hns : ns ≠ "") {data : List (Row V)}
    (generated : Nat) (h : ∀ d ∈ data, own e col ns d = true) :
    ∀ row ∈ (transformCreates e generated data).1, own e col ns row = true := by
  induction data generalizing generated with
  | nil => intro row hrow; cases hrow
  | cons d rest ih =>
    intro row hrow
    rcases mem_cons.mp hrow with rfl | hin
    · exact own_transformCreate hlaw hns generated (h d mem_cons_self)
    · exact ih _ (fun d' hd' => h d' (mem_cons_of_mem _ hd')) row hin

theorem own_spread (row : Row V) (h : data.lookup col = none) :
    own e col ns (Assoc.spread row data) = own e col ns row := by
  rw [own, own, Assoc.lookup_spread, h, none_or]

/-! ## Views of the store -/

section

variable (hscoped : ScopedWhere e col ns clauses)
include hscoped

theorem findEntry_eq (st : Store V K) (model : String) :
    findEntry e st model clauses =
      (ownRows e col ns st model).find? fun entry => e.matches entry.2 clauses :=
  find?_view _ _ fun entry h => hscoped entry.2 h

theorem filterRows_eq (st : Store V K) (model : String) :
    filterRows e st model clauses =
      ((ownRows e col ns st model).filter fun entry => e.matches entry.2 clauses).map Prod.snd := by
  rw [filterRows, filter_view (fun entry => own e col ns entry.2) _
    fun entry h => hscoped entry.2 h]
  rfl

theorem own_filterRows {model : String} :
    ∀ row ∈ filterRows e st model clauses, own e col ns row = true := by
  refine forall_mem_map.mpr fun entry hentry => ?_
  exact hscoped entry.2 (mem_filter.mp hentry).2

end

variable {row : Row V}

theorem freeKey_congr {model : String}
    (h : foreignRows e col ns st' model = foreignRows e col ns st model)
    (hfree : FreeKey e col ns st model row) : FreeKey e col ns st' model row := by
  rwa [FreeKey, h]

variable [DecidableEq K]

theorem own_findEntry {model : String} {entry : K × Row V} (hscoped : ScopedWhere e col ns clauses)
    (h : findEntry e st model clauses = some entry) :
    own e col ns entry.2 = true ∧ (st.table model).get entry.1 = some entry.2 := by
  have hmatch := find?_some h
  have hmem := mem_of_find?_eq_some h
  exact ⟨hscoped entry.2 hmatch, ((st.table model).mem_entries_iff_get entry.1 entry.2).mp hmem⟩

theorem own_of_freeKey {model : String} {old : Row V} (hfree : FreeKey e col ns st model row)
    (hget : (st.table model).get (e.keyOf row) = some old) :
    (e.keyOf row, old) ∈ ownRows e col ns st model := by
  rw [ownRows, mem_view]
  refine ⟨hget, ?_⟩
  by_contra hown
  have hforeign : (e.keyOf row, old) ∈ foreignRows e col ns st model := by
    rw [foreignRows, mem_view]
    exact ⟨hget, by simpa using hown⟩
  exact hfree _ hforeign rfl

theorem get_eq_of_sameOwn {model : String} (hsame : SameOwn e col ns st st')
    (hfree : FreeKey e col ns st model row) (hfree' : FreeKey e col ns st' model row) :
    (st.table model).get (e.keyOf row) = (st'.table model).get (e.keyOf row) := by
  apply Option.ext
  intro old
  constructor
  · intro hget
    have hmem := own_of_freeKey hfree hget
    rw [hsame.rows] at hmem
    exact ((mem_view _).mp hmem).1
  · intro hget
    have hmem := own_of_freeKey hfree' hget
    rw [← hsame.rows] at hmem
    exact ((mem_view _).mp hmem).1

/-! ## One call -/

/-- The foreign rows are what they were, and none of them is handed out. -/
structure Confined (e : Engine V K) (col ns : String) (st : Store V K)
    (result : Store V K × Answer V) : Prop where
  foreign : ∀ model, foreignRows e col ns result.1 model = foreignRows e col ns st model
  handedOut : ∀ row ∈ result.2.handedOut, own e col ns row = true

/-- The own rows and the answers are the same. -/
structure Agree (e : Engine V K) (col ns : String) (result result' : Store V K × Answer V) :
    Prop where
  store : SameOwn e col ns result.1 result'.1
  answer : result.2 = result'.2

omit [DecidableEq K] in
theorem confined_refl (st : Store V K) {answer : Answer V}
    (h : ∀ row ∈ answer.handedOut, own e col ns row = true) : Confined e col ns st (st, answer) :=
  ⟨fun _ => rfl, h⟩

theorem confined_insertRow {model : String} (hown : own e col ns row = true) :
    Confined e col ns st (insertRow e st model row) := by
  rw [insertRow]
  split
  · exact confined_refl st (by intro r hr; cases hr)
  next hget =>
  refine ⟨?_, ?_⟩
  · refine view_setTable _ st ?_
    rw [view_set_new _ _ hget, filter_cons_of_neg (by simp [hown]), filter_nil, append_nil]
  · intro r hr
    rwa [mem_singleton.mp hr]

theorem agree_insertRow {model : String} (hsame : SameOwn e col ns st st')
    (hfree : FreeKey e col ns st model row) (hfree' : FreeKey e col ns st' model row) :
    Agree e col ns (insertRow e st model row) (insertRow e st' model row) := by
  have hget := get_eq_of_sameOwn hsame hfree hfree'
  rw [insertRow, insertRow, ← hget]
  split
  · exact ⟨hsame, rfl⟩
  next hnone =>
  refine ⟨⟨fun m => ?_, hsame.generated⟩, rfl⟩
  rw [ownRows, ownRows, table_setTable, table_setTable]
  split_ifs with hm
  · rw [view_set_new _ _ hnone, view_set_new _ _ (hget ▸ hnone)]
    have hrows := hsame.rows model
    rw [ownRows, ownRows] at hrows
    rw [hrows]
  · exact hsame.rows m

variable {rows : List (Row V)}

theorem confined_insertRows {model : String} (hown : ∀ row ∈ rows, own e col ns row = true) :
    Confined e col ns st (insertRows e st model rows) := by
  induction rows generalizing st with
  | nil => exact confined_refl st (by intro r hr; cases hr)
  | cons row rest ih =>
    have hfirst : Confined e col ns st (insertRow e st model row) :=
      confined_insertRow (hown row mem_cons_self)
    have hrest : ∀ st', Confined e col ns st' (insertRows e st' model rest) :=
      fun st' => ih fun r hr => hown r (mem_cons_of_mem _ hr)
    rw [insertRows]
    split
    · next st₁ created heq =>
      rw [heq] at hfirst
      have hmore := hrest st₁
      split
      · next st₂ more heq₂ =>
        rw [heq₂] at hmore
        refine ⟨fun m => (hmore.foreign m).trans (hfirst.foreign m), fun r hr => ?_⟩
        rcases mem_append.mp hr with hr | hr
        · exact hfirst.handedOut r hr
        · exact hmore.handedOut r hr
      · exact ⟨fun m => (hmore.foreign m).trans (hfirst.foreign m), hmore.handedOut⟩
    · exact hfirst

theorem agree_insertRows {model : String} (hown : ∀ row ∈ rows, own e col ns row = true)
    (hsame : SameOwn e col ns st st') (hfree : ∀ row ∈ rows, FreeKey e col ns st model row)
    (hfree' : ∀ row ∈ rows, FreeKey e col ns st' model row) :
    Agree e col ns (insertRows e st model rows) (insertRows e st' model rows) := by
  induction rows generalizing st st' with
  | nil => exact ⟨hsame, rfl⟩
  | cons row rest ih =>
    have hrow := hown row mem_cons_self
    have hfirst := agree_insertRow hsame (hfree row mem_cons_self) (hfree' row mem_cons_self)
    have hconfined : Confined e col ns st (insertRow e st model row) := confined_insertRow hrow
    have hconfined' : Confined e col ns st' (insertRow e st' model row) := confined_insertRow hrow
    have hstep : ∀ first first' : Store V K × Answer V,
        insertRow e st model row = first → insertRow e st' model row = first' →
        Agree e col ns (insertRows e st model (row :: rest))
          (insertRows e st' model (row :: rest)) := by
      intro ⟨st₁, answer⟩ ⟨st₁', answer'⟩ heq heq'
      rw [heq] at hfirst hconfined
      rw [heq'] at hfirst hconfined'
      have hmore := ih (fun r hr => hown r (mem_cons_of_mem _ hr)) hfirst.store
        (fun r hr => freeKey_congr (hconfined.foreign model) (hfree r (mem_cons_of_mem _ hr)))
        (fun r hr => freeKey_congr (hconfined'.foreign model) (hfree' r (mem_cons_of_mem _ hr)))
      obtain rfl : answer = answer' := hfirst.answer
      rw [insertRows, insertRows, heq, heq']
      cases answer with
      | rows created =>
        dsimp only at hmore ⊢
        generalize insertRows e st₁ model rest = result at hmore ⊢
        generalize insertRows e st₁' model rest = result' at hmore ⊢
        obtain ⟨st₂, answer⟩ := result
        obtain ⟨st₂', answer'⟩ := result'
        obtain rfl : answer = answer' := hmore.answer
        cases answer with
        | rows more => exact ⟨hmore.store, rfl⟩
        | number n => exact hmore
        | failed failure => exact hmore
      | number n | failed failure => exact hfirst
    exact hstep _ _ rfl rfl

theorem confined_updateRow {model : String} (hscoped : ScopedWhere e col ns clauses)
    (hdata : data.lookup col = none) :
    Confined e col ns st (updateRow e st model clauses data) := by
  rw [updateRow]
  split
  · exact confined_refl st (by intro r hr; cases hr)
  split
  · next entry hentry =>
    obtain ⟨hown, hget⟩ := own_findEntry hscoped hentry
    have hupdated : own e col ns (Assoc.spread entry.2 data) = true := by
      rw [own_spread entry.2 hdata, hown]
    refine ⟨?_, ?_⟩
    · exact view_setTable _ st (view_set_outside _ hget (by simp [hown]) (by simp [hupdated]))
    · intro r hr
      rwa [mem_singleton.mp hr]
  · exact confined_refl st (by intro r hr; cases hr)

theorem agree_updateRow {model : String} (hscoped : ScopedWhere e col ns clauses)
    (hdata : data.lookup col = none) (hsame : SameOwn e col ns st st') :
    Agree e col ns (updateRow e st model clauses data) (updateRow e st' model clauses data) := by
  have hfind : findEntry e st model clauses = findEntry e st' model clauses := by
    rw [findEntry_eq hscoped, findEntry_eq hscoped, hsame.rows]
  rw [updateRow, updateRow]
  split
  · exact ⟨hsame, rfl⟩
  rw [← hfind]
  split
  · next entry hentry =>
    obtain ⟨hown, hget⟩ := own_findEntry hscoped hentry
    obtain ⟨-, hget'⟩ := own_findEntry hscoped (hfind ▸ hentry)
    have hupdated : own e col ns (Assoc.spread entry.2 data) = true := by
      rw [own_spread entry.2 hdata, hown]
    refine ⟨⟨fun m => ?_, hsame.generated⟩, rfl⟩
    rw [ownRows, ownRows, table_setTable, table_setTable]
    split_ifs
    · rw [view_set_inside _ hget hown hupdated, view_set_inside _ hget' hown hupdated]
      have hrows := hsame.rows model
      rw [ownRows, ownRows] at hrows
      rw [hrows]
    · exact hsame.rows m
  · exact ⟨hsame, rfl⟩

/-- What `updateMany` makes of a row. -/
private def rewritten (e : Engine V K) (clauses : Option (List (Clause V))) (data row : Row V) :
    Row V := if e.matches row clauses then Assoc.spread row data else row

omit [DecidableEq K] in
private theorem own_rewritten (hdata : data.lookup col = none) (row : Row V) :
    own e col ns (rewritten e clauses data row) = own e col ns row := by
  rw [rewritten]
  split_ifs
  · exact own_spread row hdata
  · rfl

section

variable (hscoped : ScopedWhere e col ns clauses)
include hscoped

theorem confined_updateMany {model : String} (hdata : data.lookup col = none) :
    Confined e col ns st (call e st (.updateMany model clauses data)) := by
  refine ⟨fun m => ?_, by intro r hr; cases hr⟩
  show ((changeTable st model fun table => table.mapValues (rewritten e clauses data)).table m).view
    _ = _
  rw [table_changeTable rfl, foreignRows]
  split_ifs with hm
  · rw [view_mapValues _ _ fun k row => by
      rw [own_rewritten hdata], hm]
    refine (map_congr_left fun entry hentry => ?_).trans (map_id _)
    have hforeign := (mem_filter.mp hentry).2
    have hmatch : e.matches entry.2 clauses = false := by
      by_contra h
      rw [hscoped entry.2 (by simpa using h)] at hforeign
      cases hforeign
    rw [rewritten, hmatch]
    rfl
  · rfl

theorem agree_updateMany {model : String} (hdata : data.lookup col = none)
    (hsame : SameOwn e col ns st st') :
    Agree e col ns (call e st (.updateMany model clauses data))
      (call e st' (.updateMany model clauses data)) := by
  have hrows : ∀ (st : Store V K) (m : String),
      ((changeTable st model fun table => table.mapValues (rewritten e clauses data)).table m).view
        (fun entry => own e col ns entry.2) =
      if m = model then
        (ownRows e col ns st m).map fun entry => (entry.1, rewritten e clauses data entry.2)
      else ownRows e col ns st m := by
    intro st m
    rw [table_changeTable rfl]
    split_ifs with hm
    · rw [view_mapValues _ _ fun k row => own_rewritten hdata row, hm]
      rfl
    · rfl
  refine ⟨⟨fun m => ?_, ?_⟩, ?_⟩
  · exact (hrows st m).trans (by rw [hsame.rows m, ← hrows st' m]; rfl)
  · show (changeTable st _ _).generated = (changeTable st' _ _).generated
    rw [generated_changeTable, generated_changeTable, hsame.generated]
  · show Answer.number (filterRows e st model clauses).length =
      Answer.number (filterRows e st' model clauses).length
    rw [filterRows_eq hscoped, filterRows_eq hscoped, hsame.rows]

theorem confined_deleteMany {model : String} :
    Confined e col ns st (call e st (.deleteMany model clauses)) := by
  refine ⟨fun m => ?_, by intro r hr; cases hr⟩
  show ((changeTable st model fun table => table.filterEntries fun entry =>
    !e.matches entry.2 clauses).table m).view _ = _
  rw [table_changeTable rfl, foreignRows]
  split_ifs with hm
  · rw [view_filterEntries, hm, filter_eq_self]
    intro entry hentry
    have hforeign := (mem_filter.mp hentry).2
    by_contra h
    rw [hscoped entry.2 (by simpa using h)] at hforeign
    cases hforeign
  · rfl

theorem agree_deleteMany {model : String} (hsame : SameOwn e col ns st st') :
    Agree e col ns (call e st (.deleteMany model clauses))
      (call e st' (.deleteMany model clauses)) := by
  have hrows : ∀ (st : Store V K) (m : String),
      ownRows e col ns (call e st (.deleteMany model clauses)).1 m =
        if m = model then
          (ownRows e col ns st m).filter fun entry => !e.matches entry.2 clauses
        else ownRows e col ns st m := by
    intro st m
    show ((changeTable st model fun table => table.filterEntries fun entry =>
      !e.matches entry.2 clauses).table m).view _ = _
    rw [table_changeTable rfl]
    split_ifs with hm
    · rw [view_filterEntries, hm]
      rfl
    · rfl
  refine ⟨⟨fun m => ?_, ?_⟩, ?_⟩
  · rw [hrows st m, hrows st' m, hsame.rows m]
  · show (changeTable st _ _).generated = (changeTable st' _ _).generated
    rw [generated_changeTable, generated_changeTable, hsame.generated]
  · show Answer.number (filterRows e st model clauses).length =
      Answer.number (filterRows e st' model clauses).length
    rw [filterRows_eq hscoped, filterRows_eq hscoped, hsame.rows]

theorem confined_delete {model : String} :
    Confined e col ns st (call e st (.delete model clauses)) := by
  rw [call]
  split
  · exact confined_refl st (by intro r hr; cases hr)
  split
  · next entry hentry =>
    obtain ⟨hown, hget⟩ := own_findEntry hscoped hentry
    refine ⟨?_, by intro r hr; cases hr⟩
    exact view_setTable _ st (view_delete_outside _ hget (by simp [hown]))
  · exact confined_refl st (by intro r hr; cases hr)

theorem agree_delete {model : String} (hsame : SameOwn e col ns st st') :
    Agree e col ns (call e st (.delete model clauses)) (call e st' (.delete model clauses)) := by
  have hfind : findEntry e st model clauses = findEntry e st' model clauses := by
    rw [findEntry_eq hscoped, findEntry_eq hscoped, hsame.rows]
  rw [call, call]
  split
  · exact ⟨hsame, rfl⟩
  rw [← hfind]
  split
  · next entry hentry =>
    refine ⟨⟨fun m => ?_, hsame.generated⟩, rfl⟩
    rw [ownRows, ownRows, table_setTable, table_setTable]
    split_ifs
    · have hrows := hsame.rows model
      rw [ownRows, ownRows] at hrows
      rw [view_delete, view_delete, hrows]
    · exact hsame.rows m
  · exact ⟨hsame, rfl⟩

end

omit [DecidableEq K] in
theorem confined_of_generated {n : Nat} {result : Store V K × Answer V}
    (h : Confined e col ns { st with generated := n } result) : Confined e col ns st result :=
  ⟨h.foreign, h.handedOut⟩

omit [DecidableEq V] [DecidableEq K] in
theorem mem_of_mem_page {offset limit : Option Nat} (h : row ∈ page offset limit rows) :
    row ∈ rows := by
  cases limit with
  | none => exact mem_of_mem_drop h
  | some n =>
    simp only [page] at h
    split_ifs at h
    · exact mem_of_mem_drop h
    · exact mem_of_mem_drop (mem_of_mem_take h)

theorem confined_call (hlaw : Lawful e) (hns : ns ≠ "") (st : Store V K)
    (h : ScopedCall e col ns c) : Confined e col ns st (call e st c) := by
  cases c with
  | create model data select =>
    exact confined_of_generated (confined_insertRow (own_transformCreate hlaw hns st.generated h))
  | createMany model data select =>
    exact confined_of_generated (confined_insertRows (own_transformCreates hlaw hns st.generated h))
  | findOne model clauses select =>
    refine confined_refl st fun row hrow => ?_
    obtain ⟨entry, hentry, rfl⟩ := map_eq_some_iff.mp (mem_toList.mp hrow)
    exact (own_findEntry h hentry).1
  | findMany model clauses orderBy offset limit select =>
    refine confined_refl st fun row hrow => ?_
    have hin := mem_of_mem_page hrow
    cases orderBy with
    | none => exact own_filterRows h row hin
    | some o => exact own_filterRows h row (hlaw.order_subset o _ row hin)
  | update model clauses data select => exact confined_updateRow h.1 h.2
  | updateMany model clauses data => exact confined_updateMany h.1 h.2
  | delete model clauses => exact confined_delete h
  | deleteMany model clauses => exact confined_deleteMany h
  | upsert model clauses create update conflictTarget select =>
    obtain ⟨hscoped, hcreate, hupdate⟩ := h
    rw [call]
    dsimp only
    split
    · exact confined_of_generated (confined_updateRow hscoped hupdate)
    · exact confined_of_generated
        (confined_insertRow (own_transformCreate hlaw hns st.generated hcreate))
  | count model clauses => exact confined_refl st (by intro r hr; cases hr)

theorem agree_call (hlaw : Lawful e) (hns : ns ≠ "") (h : ScopedCall e col ns c)
    (hsame : SameOwn e col ns st st') (hapart : Apart e col ns st c)
    (hapart' : Apart e col ns st' c) : Agree e col ns (call e st c) (call e st' c) := by
  have hgenerated := hsame.generated
  have hsame' : ∀ n, SameOwn e col ns { st with generated := n } { st' with generated := n } :=
    fun n => ⟨hsame.rows, rfl⟩
  cases c with
  | create model data select =>
    rw [Apart] at hapart hapart'
    rw [← hgenerated] at hapart'
    rw [call, call, ← hgenerated]
    exact agree_insertRow (hsame' _) hapart hapart'
  | createMany model data select =>
    rw [Apart] at hapart hapart'
    rw [← hgenerated] at hapart'
    rw [call, call, ← hgenerated]
    exact agree_insertRows (own_transformCreates hlaw hns st.generated h) (hsame' _) hapart hapart'
  | findOne model clauses select =>
    refine ⟨hsame, ?_⟩
    rw [call, call, findEntry_eq h, findEntry_eq h, hsame.rows]
  | findMany model clauses orderBy offset limit select | count model clauses =>
    refine ⟨hsame, ?_⟩
    rw [call, call, filterRows_eq h, filterRows_eq h, hsame.rows]
  | update model clauses data select => exact agree_updateRow h.1 h.2 hsame
  | updateMany model clauses data => exact agree_updateMany h.1 h.2 hsame
  | delete model clauses => exact agree_delete h hsame
  | deleteMany model clauses => exact agree_deleteMany h hsame
  | upsert model clauses create update conflictTarget select =>
    obtain ⟨hscoped, hcreate, hupdate⟩ := h
    have hfind : findEntry e st model clauses = findEntry e st' model clauses := by
      rw [findEntry_eq hscoped, findEntry_eq hscoped, hsame.rows]
    rw [Apart] at hapart hapart'
    rw [← hgenerated, ← hfind] at hapart'
    rw [call, call, ← hgenerated]
    have hrow : ∀ n, findEntry e { st' with generated := n } model clauses =
        findEntry e { st with generated := n } model clauses := fun _ => hfind.symm
    dsimp only
    rw [hrow]
    split
    · exact agree_updateRow hscoped hupdate (hsame' _)
    · next hnone => exact agree_insertRow (hsame' _) (hapart hnone) (hapart' hnone)

end

end SuperFunctions.Db.ScopedCalls
