import SuperFunctions.Datafn.Relations.ValidatedDelete

/-!
# What a cascading delete leaves behind

A delete is tidy when what it has visited is gone and nothing refers to it any more, except
records that are still being deleted further up. Tidy deletes compose. A delete whose every
turn is tidy is tidy itself, whatever order the relations come in and however they nest.
-/
namespace SuperFunctions.Datafn.Relations.TidyDeletes

open Lib.MarkedWalk Datafn.Core DeletePolicies OfflineDelete ValidatedDelete List

/-- Which join rows of a relation have a record at one end. -/
abbrev Naming := Relation → Key → Side → String × JoinRow → Prop

def endpoint (relation : Relation) : Side → List String
  | .fromSide => relation.fromResources
  | .toSide => relation.toResources

/-- The reached records can be told apart by their visit keys, and an empty id is not taken for
an empty path. -/
structure Apart (schema : PolicySchema) (store : LocalStore) (root : Key) : Prop where
  distinct : ∀ a b, Reached schema store root a → Reached schema store root b →
    visitKey a = visitKey b → a = b
  rootNamed : root.2 = "" → ∀ relation ∈ schema.relations, ∀ fk,
    fkPolicyFor relation root.1 = some fk → ¬PathField schema fk.fkField

variable {schema : PolicySchema} {store : LocalStore} {root : Key} {names : Naming}

theorem target_named (hapart : Apart schema store root) {key : Key} {relation : Relation}
    {fk : FkPolicy} (hreach : Reached schema store root key)
    (hrelation : relation ∈ schema.relations) (hfk : fkPolicyFor relation key.1 = some fk) :
    key.2 = "" → ¬PathField schema fk.fkField := by
  intro hempty
  rcases getRecord_of_reached hreach with rfl | ⟨row, hrow⟩
  · exact hapart.rootNamed hempty relation hrelation fk hfk
  · have hne := LocalStore.id_ne_of_getRecord hrow
    rw [LocalStore.id_of_getRecord hrow] at hne
    exact absurd hempty hne

/-! ## Settled records -/

/-- By this relation only records still being deleted refer to the key, and no join row that it
has a policy for names it. -/
structure Settled (schema : PolicySchema) (store : LocalStore) (root : Key) (names : Naming)
    (current : LocalStore) (key : Key) (deleting : List String) (relation : Relation) :
    Prop where
  references : ∀ fk, fkPolicyFor relation key.1 = some fk → ∀ other,
    Refers current fk key other → Reached schema store root other ∧ visitKey other ∈ deleting
  joinRows : relation.type = .manyMany → ∀ side, key.1 ∈ endpoint relation side →
    (relationDeletePolicy relation side).isSome → ∀ entry ∈ current.joinRows,
      ¬names relation key side entry

/-- What a delete has done: see the head of this module. -/
structure Tidy (schema : PolicySchema) (store : LocalStore) (root : Key) (names : Naming)
    (before after : DeleteState) : Prop where
  shrinks : Shrinks schema before.1 after.1
  marks : before.2 ⊆ after.2
  done : ∀ t ∈ after.2, t ∉ before.2 → ∃ key, Reached schema store root key ∧
    visitKey key = t ∧ after.1.getRecord key = none ∧
    ∀ relation ∈ schema.relations, Settled schema store root names after.1 key before.2 relation
  gone : ∀ key, after.1.getRecord key = none → before.1.getRecord key = none ∨
    Reached schema store root key ∧ visitKey key ∈ after.2

section Tidy

variable {key other : Key} {relation : Relation} {before between after : DeleteState}
  {current later : LocalStore} {deleting deleting' : List String}

theorem Settled.shrinks (hapart : Apart schema store root)
    (hreach : Reached schema store root key) (hrelation : relation ∈ schema.relations)
    (h : Settled schema store root names current key deleting relation)
    (hshrinks : Shrinks schema current later) :
    Settled schema store root names later key deleting relation where
  references fk hfk other hrefers :=
    h.references fk hfk other (hshrinks.refers (target_named hapart hreach hrelation hfk) hrefers)
  joinRows htype side hside hpolicy entry hentry :=
    h.joinRows htype side hside hpolicy entry (hshrinks.joins entry hentry)

theorem Tidy.narrow (hapart : Apart schema store root)
    (h : Tidy schema store root names before after)
    (hreach : Reached schema store root other) (hmark : visitKey other ∈ after.2)
    (hthere : ∃ row, after.1.getRecord other = some row) : visitKey other ∈ before.2 := by
  by_contra hnew
  obtain ⟨key, hkey, hsame, hgone, _⟩ := h.done _ hmark hnew
  have hkeys : key = other := hapart.distinct key other hkey hreach hsame
  obtain ⟨row, hrow⟩ := hthere
  rw [← hkeys, hgone] at hrow
  cases hrow

theorem Tidy.refl : Tidy schema store root names before before where
  shrinks := Shrinks.refl
  marks _ ht := ht
  done _ ht hnew := absurd ht hnew
  gone _ hnone := .inl hnone

theorem Tidy.trans (hapart : Apart schema store root)
    (h : Tidy schema store root names before between)
    (h' : Tidy schema store root names between after) :
    Tidy schema store root names before after where
  shrinks := h.shrinks.trans h'.shrinks
  marks _ ht := h'.marks (h.marks ht)
  done t ht hnew := by
    by_cases hbetween : t ∈ between.2
    · obtain ⟨key, hreach, hkey, hgone, hsettled⟩ := h.done t hbetween hnew
      exact ⟨key, hreach, hkey, h'.shrinks.none hgone, fun relation hrelation =>
        (hsettled relation hrelation).shrinks hapart hreach hrelation h'.shrinks⟩
    obtain ⟨key, hreach, hkey, hgone, hsettled⟩ := h'.done t ht hbetween
    refine ⟨key, hreach, hkey, hgone, fun relation hrelation => ⟨?_, ?_⟩⟩
    · -- a referrer that the first delete marked would be gone
      intro fk hfk other hrefers
      obtain ⟨hother, hmark⟩ := (hsettled relation hrelation).references fk hfk other hrefers
      refine ⟨hother, h.narrow hapart hother hmark ?_⟩
      obtain ⟨row, hrow⟩ := getRecord_of_refers hrefers
      obtain ⟨row₀, hrow₀, _⟩ := h'.shrinks.rows other row hrow
      exact ⟨row₀, hrow₀⟩
    · exact (hsettled relation hrelation).joinRows
  gone key hnone := by
    rcases h'.gone key hnone with hbetween | ⟨hreach, hmark⟩
    · rcases h.gone key hbetween with hbefore | ⟨hreach, hmark⟩
      · exact .inl hbefore
      · exact .inr ⟨hreach, h'.marks hmark⟩
    · exact .inr ⟨hreach, hmark⟩

theorem Tidy.of_kept (hshrinks : Shrinks schema before.1 after.1) (hmarks : after.2 = before.2)
    (hkept : ∀ key, after.1.getRecord key = none → before.1.getRecord key = none) :
    Tidy schema store root names before after where
  shrinks := hshrinks
  marks := by
    rw [hmarks]
    exact List.Subset.refl _
  done t ht hnew := by
    rw [hmarks] at ht
    exact absurd ht hnew
  gone key hnone := .inl (hkept key hnone)

end Tidy

/-! ## From turns to deletes -/

/-- The nested deletes are tidy and mark their record. -/
def DeletesTidily (schema : PolicySchema) (store : LocalStore) (root : Key) (names : Naming)
    (recurse : DeleteState → Key → Deleting DeleteState) : Prop :=
  ∀ state state' key, Reached schema store root key → Shrinks schema store state.1 →
    recurse state key = .ok state' →
    Tidy schema store root names state state' ∧ visitKey key ∈ state'.2

/-- A turn for one relation is tidy and settles the relation. -/
def TidyTurn (schema : PolicySchema) (store : LocalStore) (root : Key) (names : Naming)
    (key : Key) (relation : Relation) (turn : DeleteState → Relation → Deleting DeleteState) :
    Prop :=
  ∀ state state', Shrinks schema store state.1 → turn state relation = .ok state' →
    Tidy schema store root names state state' ∧
      Settled schema store root names state'.1 key state.2 relation

section Runs

variable {key : Key} {turn : DeleteState → Relation → Deleting DeleteState}
  {state state' : DeleteState}

section

variable (hapart : Apart schema store root)
include hapart

theorem tidy_turns (hreach : Reached schema store root key)
    (hturn : ∀ relation ∈ schema.relations, TidyTurn schema store root names key relation turn)
    (hstate : Shrinks schema store state.1) (h : schema.relations.foldlM turn state = .ok state') :
    Tidy schema store root names state state' ∧ ∀ relation ∈ schema.relations,
      Settled schema store root names state'.1 key state.2 relation := by
  have hloop := foldlM_ok (P := Tidy schema store root names state)
    (Q := fun relation reached => relation ∈ schema.relations →
      Settled schema store root names reached.1 key state.2 relation) ?_ Tidy.refl h
  · obtain ⟨htidy, hsettled, _⟩ := hloop
    exact ⟨htidy, fun relation hrelation => hsettled relation hrelation hrelation⟩
  intro relation hrelation reached reached' hreached hstep
  obtain ⟨htidy, hsettled⟩ :=
    hturn relation hrelation reached reached' (hstate.trans hreached.shrinks) hstep
  refine ⟨hreached.trans hapart htidy, fun _ => ⟨?_, hsettled.joinRows⟩, ?_⟩
  · intro fk hfk other hrefers
    obtain ⟨hother, hmark⟩ := hsettled.references fk hfk other hrefers
    refine ⟨hother, hreached.narrow hapart hother hmark ?_⟩
    obtain ⟨row, hrow⟩ := getRecord_of_refers hrefers
    obtain ⟨row₀, hrow₀, _⟩ := htidy.shrinks.rows other row hrow
    exact ⟨row₀, hrow₀⟩
  · exact fun earlier hearlier hmem =>
      (hearlier hmem).shrinks hapart hreach hmem htidy.shrinks

theorem tidy_close (hreach : Reached schema store root key) {current : LocalStore}
    {marked : List String}
    (htidy : Tidy schema store root names (current, visitKey key :: marked) state')
    (hsettled : ∀ relation ∈ schema.relations,
      Settled schema store root names state'.1 key (visitKey key :: marked) relation) :
    Tidy schema store root names (current, marked) (state'.1.deleteRecord key, state'.2) where
  shrinks := htidy.shrinks.trans (Shrinks.deleteRecord key)
  marks _ ht := htidy.marks (mem_cons_of_mem _ ht)
  done t ht hnew := by
    have hgone : (state'.1.deleteRecord key).getRecord key = none := by
      rw [LocalStore.getRecord_deleteRecord, if_pos rfl]
    -- a referrer marked by the key is the key itself, which is gone
    have hclose : ∀ target relation, relation ∈ schema.relations →
        Reached schema store root target →
        Settled schema store root names state'.1 target (visitKey key :: marked) relation →
        Settled schema store root names (state'.1.deleteRecord key) target marked relation := by
      intro target relation hrelation htarget hs
      have hafter := hs.shrinks hapart htarget hrelation (Shrinks.deleteRecord key)
      refine ⟨fun fk hfk other hrefers => ?_, hafter.joinRows⟩
      obtain ⟨hother, hmark⟩ := hafter.references fk hfk other hrefers
      refine ⟨hother, ?_⟩
      rcases mem_cons.mp hmark with hsame | hmark
      · obtain ⟨row, hrow⟩ := getRecord_of_refers hrefers
        rw [hapart.distinct other key hother hreach hsame, hgone] at hrow
        cases hrow
      · exact hmark
    by_cases hkey : t = visitKey key
    · exact ⟨key, hreach, hkey.symm, hgone, fun relation hrelation =>
        hclose key relation hrelation hreach (hsettled relation hrelation)⟩
    have hnew' : t ∉ visitKey key :: marked := by
      intro hmem
      rcases mem_cons.mp hmem with h | h
      · exact hkey h
      · exact hnew h
    obtain ⟨target, htarget, hmark, hnone, hs⟩ := htidy.done t ht hnew'
    have hdelete : Shrinks schema state'.1 (state'.1.deleteRecord key) :=
      Shrinks.deleteRecord key
    exact ⟨target, htarget, hmark, hdelete.none hnone,
      fun relation hrelation => hclose target relation hrelation htarget (hs relation hrelation)⟩
  gone other hnone := by
    rw [LocalStore.getRecord_deleteRecord] at hnone
    split at hnone
    case isTrue hsame =>
      rw [hsame]
      exact .inr ⟨hreach, htidy.marks mem_cons_self⟩
    case isFalse => exact htidy.gone other hnone

/-- One more nested level: a record is marked, its relations take their turns, and it goes. -/
theorem deletesTidily_succ {f : Key → DeleteState → Deleting DeleteState}
    {delete : DeleteState → Key → Deleting DeleteState} (heq : ∀ state key, delete state key =
      if visitKey key ∈ state.2 then .ok state
      else do
        let state ← f key (state.1, visitKey key :: state.2)
        .ok (state.1.deleteRecord key, state.2))
    (hturns : ∀ key state state', Reached schema store root key → Shrinks schema store state.1 →
      f key state = .ok state' → Tidy schema store root names state state' ∧
        ∀ relation ∈ schema.relations,
          Settled schema store root names state'.1 key state.2 relation) :
    DeletesTidily schema store root names delete := by
  intro state state' key hreach hstate h
  rw [heq] at h
  split at h
  case isTrue hseen =>
    cases h
    exact ⟨Tidy.refl, hseen⟩
  cases hloop : f key (state.1, visitKey key :: state.2) with
  | error e =>
    rw [hloop] at h
    cases h
  | ok after =>
    rw [hloop] at h
    cases h
    obtain ⟨htidy, hsettled⟩ :=
      hturns key (state.1, visitKey key :: state.2) after hreach hstate hloop
    exact ⟨tidy_close hapart hreach htidy hsettled, htidy.marks mem_cons_self⟩

end

end Runs

/-! ## Turns for a foreign key -/

section ForeignKeys

variable {key : Key} {relation : Relation} {fk : FkPolicy}
  {recurse : DeleteState → Key → Deleting DeleteState}
  {propagate : LocalStore → List Key → Except Fault LocalStore} {state state' : DeleteState}

theorem id_patch_empty {patch : List (String × Value)}
    (hpatch : ∀ e ∈ patch, e.2 = .null ∨ e.2 = .str "") :
    ∀ row : Row, (row.id = "" ∨ ∃ e ∈ patch, e.1 = "id") → (row.patch patch).id = "" := by
  induction patch with
  | nil =>
    intro row h
    rcases h with h | ⟨e, he, _⟩
    · exact h
    · cases he
  | cons e patch ih =>
    intro row h
    have hwrite : row.id = "" ∨ e.1 = "id" → (row.write e.1 e.2).id = "" := by
      intro hcase
      by_cases hid : e.1 = "id"
      · unfold Row.write
        rw [if_pos hid]
        rcases hpatch e mem_cons_self with hv | hv <;> rw [hv]
      · rw [Row.id_write hid]
        rcases hcase with h | h
        · exact h
        · exact absurd h hid
    apply ih (fun x hx => hpatch x (mem_cons_of_mem _ hx)) (row.write e.1 e.2)
    rcases h with h | ⟨x, hx, hid⟩
    · exact .inl (hwrite (.inl h))
    · rcases mem_cons.mp hx with rfl | hx
      · exact .inl (hwrite (.inr hid))
      · exact .inr ⟨x, hx, hid⟩

theorem detachRow_written (hrelation : relation ∈ schema.relations)
    (hfk : fkPolicyFor relation key.1 = some fk) {queued queued' : List Key}
    {listed current after : LocalStore} {entry : String × Row}
    (hentry : entry ∈ findFkPolicyRows listed fk.resources fk key)
    (hcurrent : Rewrites schema listed current)
    (h : detachRow fk (current, queued) entry = .ok (after, queued')) :
    Rewrites schema listed after ∧ ∃ written : Row,
      (∀ other, after.getRecord other =
        if other = (entry.1, entry.2.id) then some written else current.getRecord other) ∧
      ∀ text, written.field fk.fkField = some (.str text) → text = "" ∧
        PathField schema fk.fkField := by
  have hget := (mem_findFkPolicyRows.mp hentry).2.1
  have hne := id_ne_of_mem hentry
  unfold detachRow at h
  rw [if_neg hne] at h
  cases hwrite : current.upsertRecord entry.1
      (entry.2.patch ((fk.fkField, .null) :: fk.extraNullFields)) with
  | error fault =>
    rw [hwrite] at h
    cases h
  | ok store' =>
    rw [hwrite] at h
    cases h
    have hpatch : ∀ e ∈ (fk.fkField, Value.null) :: fk.extraNullFields,
        e.2 = .null ∨ e.2 = .str "" := by
      intro e he
      rcases patch_of_fkPolicyFor hrelation hfk he with hnull | ⟨hempty, _⟩
      · exact .inl hnull
      · exact .inr hempty
    -- had the patch touched the id, the write would have failed
    have hids : ∀ e ∈ (fk.fkField, Value.null) :: fk.extraNullFields, e.1 ≠ "id" := by
      intro e he hid
      have hempty := id_patch_empty hpatch entry.2 (.inr ⟨e, he, hid⟩)
      unfold LocalStore.upsertRecord at hwrite
      rw [dif_pos hempty] at hwrite
      cases hwrite
    have hid := Row.id_patch hids entry.2
    refine ⟨hcurrent.upsert hget hid (fun field text hfield => ?_) hwrite,
      entry.2.patch ((fk.fkField, .null) :: fk.extraNullFields), ?_, ?_⟩
    · rcases Row.field_patch hids hfield with hpatched | ⟨_, hold⟩
      · rcases patch_of_fkPolicyFor hrelation hfk hpatched with hnull | ⟨htext, hpath⟩
        · cases hnull
        · cases htext
          exact .inr ⟨rfl, hpath⟩
      · exact .inl hold
    · intro other
      rw [LocalStore.getRecord_upsertRecord hwrite, hid]
    intro text hfield
    rcases Row.field_patch hids hfield with hpatched | ⟨hother, _⟩
    · rcases patch_of_fkPolicyFor hrelation hfk hpatched with hnull | ⟨htext, hpath⟩
      · cases hnull
      · cases htext
        exact ⟨rfl, hpath⟩
    · exact absurd rfl (hother (fk.fkField, .null) mem_cons_self)

/-- A propagation rewrites records. -/
def Propagates (schema : PolicySchema)
    (propagate : LocalStore → List Key → Except Fault LocalStore) : Prop :=
  ∀ store seeds store', propagate store seeds = .ok store' → Rewrites schema store store'

theorem tidy_applyFkRows (hapart : Apart schema store root)
    (hrec : DeletesTidily schema store root names recurse) (hpropagate : Propagates schema propagate)
    (hreach : Reached schema store root key) (hrelation : relation ∈ schema.relations)
    (htype : relation.type ≠ .manyMany) (hfk : fkPolicyFor relation key.1 = some fk)
    {resources : List String} (hresources : resources ⊆ fk.resources)
    (hstate : Shrinks schema store state.1)
    (h : applyFkRows propagate recurse relation { fk with resources } key state = .ok state') :
    Tidy schema store root names state state' ∧ ∀ other,
      Refers state'.1 { fk with resources } key other →
        Reached schema store root other ∧ visitKey other ∈ state.2 := by
  have hnamed := target_named hapart hreach hrelation hfk
  have hwhole : ∀ entry ∈ findFkPolicyRows state.1 resources fk key,
      entry ∈ findFkPolicyRows state.1 fk.resources fk key := by
    intro entry hentry
    obtain ⟨hresource, hrest⟩ := mem_findFkPolicyRows.mp hentry
    exact mem_findFkPolicyRows.mpr ⟨hresources hresource, hrest⟩
  have hedge : fk.policy = .cascade → ∀ entry ∈ findFkPolicyRows state.1 resources fk key,
      Reached schema store root (entry.1, entry.2.id) := by
    intro hcascade entry hentry
    exact hreach.tail ⟨relation, hrelation, htype, fk, hfk, hcascade,
      hstate.refers hnamed (refers_of_mem (hwhole entry hentry))⟩
  have hlisted : ∀ {later : LocalStore} {other : Key}, Shrinks schema state.1 later →
      Refers later { fk with resources } key other →
      ∃ entry ∈ findFkPolicyRows state.1 resources fk key, (entry.1, entry.2.id) = other := by
    intro later other hshrinks hrefers
    have hold : Refers state.1 { fk with resources } key other := hshrinks.refers hnamed hrefers
    exact mem_of_refers hold
  unfold applyFkRows at h
  dsimp only at h
  split at h
  case isTrue => cases h
  case isFalse hclear =>
  split at h
  case isTrue hdetach =>
    -- detached rows no longer name the record
    split at h
    · cases h
    · next current seeds hdetached =>
      have hfold : (findFkPolicyRows state.1 resources fk key).foldlM (detachRow fk)
          (state.1, []) = .ok (current, seeds) := hdetached
      split at h
      · cases h
      · next after hafter =>
        cases h
        have hloop := foldlM_ok
          (P := fun queued : LocalStore × List Key => Rewrites schema state.1 queued.1)
          (Q := fun entry queued => ∀ row,
            queued.1.getRecord (entry.1, entry.2.id) = some row →
            row.field fk.fkField ≠ some (.str key.2)) ?_ Rewrites.refl hfold
        · obtain ⟨hrewrites, hall, _⟩ := hloop
          have hthrough := hpropagate current seeds after hafter
          have hboth := hrewrites.trans hthrough
          refine ⟨Tidy.of_kept hboth.toShrinks rfl hboth.kept, fun other hrefers => ?_⟩
          obtain ⟨entry, hentry, rfl⟩ := hlisted hboth.toShrinks hrefers
          have hcurrent : Refers current { fk with resources } key (entry.1, entry.2.id) :=
            hthrough.toShrinks.refers hnamed hrefers
          obtain ⟨row, hmem, hid⟩ := hcurrent
          obtain ⟨_, hget, hfield, _⟩ := mem_findFkPolicyRows.mp hmem
          rw [hid] at hget
          exact absurd hfield (hall entry hentry row hget)
        · intro entry hentry queued queued' hqueued hstep
          obtain ⟨hrewrites, written, hget, hwritten⟩ :=
            detachRow_written hrelation hfk (hwhole entry hentry) hqueued hstep
          have hnull : written.field fk.fkField ≠ some (.str key.2) := by
            intro hfield
            obtain ⟨hempty, hpath⟩ := hwritten _ hfield
            exact hnamed hempty hpath
          refine ⟨hrewrites, fun row hrow => ?_, fun earlier hearlier row hrow => ?_⟩
          · rw [hget, if_pos rfl] at hrow
            cases hrow
            exact hnull
          · rw [hget] at hrow
            split at hrow
            · cases hrow
              exact hnull
            · exact hearlier row hrow
  case isFalse hdetach =>
  split at h
  case isTrue hcascade =>
    -- every row has been deleted, unless it is being deleted already
    have hloop := foldlM_ok (P := Tidy schema store root names state)
      (Q := fun entry reached => visitKey (entry.1, entry.2.id) ∈ reached.2) ?_ Tidy.refl h
    · obtain ⟨htidy, hall, _⟩ := hloop
      refine ⟨htidy, fun other hrefers => ?_⟩
      obtain ⟨entry, hentry, rfl⟩ := hlisted htidy.shrinks hrefers
      have hnext := hedge hcascade entry hentry
      exact ⟨hnext, htidy.narrow hapart hnext (hall entry hentry) (getRecord_of_refers hrefers)⟩
    · intro entry hentry reached reached' hreached hstep
      rw [if_neg (id_ne_of_mem hentry)] at hstep
      obtain ⟨htidy, hmark⟩ := hrec reached reached' _ (hedge hcascade entry hentry)
        (hstate.trans hreached.shrinks) hstep
      exact ⟨hreached.trans hapart htidy, hmark, fun _ hy => htidy.marks hy⟩
  case isFalse hcascade =>
    cases h
    refine ⟨Tidy.refl, fun other hrefers => ?_⟩
    obtain ⟨entry, hentry, rfl⟩ := hlisted Shrinks.refl hrefers
    have hpolicy : fk.policy = .restrict := by
      cases hp : fk.policy with
      | restrict => rfl
      | cascade => exact absurd hp hcascade
      | setNull => exact absurd (.inl hp) hdetach
      | detach => exact absurd (.inr hp) hdetach
    exact absurd ⟨length_pos_of_mem hentry, hpolicy⟩ hclear

end ForeignKeys

end SuperFunctions.Datafn.Relations.TidyDeletes
