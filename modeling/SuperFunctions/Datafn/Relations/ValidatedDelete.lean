import SuperFunctions.Datafn.Relations.OfflineDelete

/-!
# A validated delete runs through

Validation sees every record that the delete can reach, as long as no two of them share a
visit key. The delete then only reads references that validation has read, because a store
loses references and gains none.
-/
namespace SuperFunctions.Datafn.Relations.ValidatedDelete

open Relation Lib.MarkedWalk Lib.OrderedMap Datafn.Core DeletePolicies InactivePropagation
open OfflineDelete List Option

variable {schema : PolicySchema} {store : LocalStore} {root : Key}

/-- Deleting the root cascades to this record, directly or over others. -/
def Reached (schema : PolicySchema) (store : LocalStore) (root : Key) : Key → Prop :=
  ReflTransGen (Cascades schema store) root

/-- The delete can be told from its validation: visit keys tell the reached records apart, no
detached record would lose its id, and an empty id is not taken for an empty path. -/
structure Distinguishable (schema : PolicySchema) (store : LocalStore) (root : Key) : Prop where
  distinct : ∀ a b, Reached schema store root a → Reached schema store root b →
    visitKey a = visitKey b → a = b
  idsKept : ∀ a, Reached schema store root a → ∀ relation ∈ schema.relations, ∀ fk,
    fkPolicyFor relation a.1 = some fk → fk.policy = .setNull ∨ fk.policy = .detach →
    (∃ c, Refers store fk a c) →
    ∀ entry ∈ (fk.fkField, Value.null) :: fk.extraNullFields, entry.1 ≠ "id"
  rootNamed : root.2 = "" → ∀ relation ∈ schema.relations, ∀ fk,
    fkPolicyFor relation root.1 = some fk → ¬PathField schema fk.fkField

theorem getRecord_of_reached {key : Key} (h : Reached schema store root key) :
    key = root ∨ ∃ row, store.getRecord key = some row := by
  cases h with
  | refl => exact .inl rfl
  | tail _ hlast =>
    obtain ⟨_, _, _, _, _, _, hrefers⟩ := hlast
    exact .inr (getRecord_of_refers hrefers)

variable {fk : FkPolicy}

theorem refers_start (hsafe : Distinguishable schema store root) {key other : Key}
    {relation : Relation} {state : LocalStore} (hreach : Reached schema store root key)
    (hrelation : relation ∈ schema.relations) (hfk : fkPolicyFor relation key.1 = some fk)
    (hshrinks : Shrinks schema store state) (h : Refers state fk key other) :
    Refers store fk key other := by
  apply hshrinks.refers _ h
  intro hempty
  rcases getRecord_of_reached hreach with rfl | ⟨row, hrow⟩
  · exact hsafe.rootNamed hempty relation hrelation fk hfk
  · have hne := LocalStore.id_ne_of_getRecord hrow
    rw [LocalStore.id_of_getRecord hrow] at hne
    exact absurd hempty hne

/-! ## Validation -/

/-- What an accepted validation has explored. -/
abbrev Checked (schema : PolicySchema) (store : LocalStore) (root : Key) :
    List String → List String → Prop :=
  Explored visitKey (Cascades schema store)
    (fun key => ∀ relation ∈ schema.relations, Unrestricted store key relation) root

section Validation

variable {recurse : List String → Key → Except Fault (List String)} {key : Key}
  {relation : Relation} {visited visited' : List String}

/-- The nested validations explore what they are called for. -/
def Explores (schema : PolicySchema) (store : LocalStore) (root : Key)
    (recurse : List String → Key → Except Fault (List String)) : Prop :=
  ∀ visited visited' key, Reached schema store root key →
    recurse visited key = .ok visited' →
    Checked schema store root visited visited' ∧ visitKey key ∈ visited'

theorem validateFkDeletePolicy_checks (hrec : Explores schema store root recurse)
    (hreach : Reached schema store root key) (hrelation : relation ∈ schema.relations)
    (htype : relation.type ≠ .manyMany) (hfk : fkPolicyFor relation key.1 = some fk)
    (h : validateFkDeletePolicy recurse store relation fk key visited = .ok visited') :
    Checked schema store root visited visited' ∧
      (fk.policy = .restrict → ∀ other, ¬Refers store fk key other) ∧
      (fk.policy = .cascade → ∀ other, Refers store fk key other → visitKey other ∈ visited') := by
  unfold validateFkDeletePolicy at h
  dsimp only at h
  split at h
  case isTrue => cases h
  case isFalse hclear =>
  have hnone : fk.policy = .restrict → ∀ other, ¬Refers store fk key other := by
    intro hpolicy other hrefers
    obtain ⟨entry, hentry, _⟩ := mem_of_refers hrefers
    exact hclear ⟨length_pos_of_mem hentry, hpolicy⟩
  split at h
  case isTrue hcascade =>
    have hloop := foldlM_ok (P := Checked schema store root visited)
      (Q := fun entry marks => visitKey (entry.1, entry.2.id) ∈ marks) ?_ Explored.refl h
    · obtain ⟨hchecked, hall, _⟩ := hloop
      refine ⟨hchecked, hnone, fun _ other hrefers => ?_⟩
      obtain ⟨entry, hentry, rfl⟩ := mem_of_refers hrefers
      exact hall entry hentry
    · intro entry hentry marks marks' hmarks hstep
      rw [if_neg (id_ne_of_mem hentry)] at hstep
      have hnext : Reached schema store root (entry.1, entry.2.id) :=
        hreach.tail ⟨relation, hrelation, htype, fk, hfk, hcascade, refers_of_mem hentry⟩
      obtain ⟨hchecked, hmem⟩ := hrec _ _ _ hnext hstep
      exact ⟨hmarks.trans hchecked, hmem, fun _ hy => hchecked.grows hy⟩
  case isFalse hcascade =>
    cases h
    exact ⟨Explored.refl, hnone, fun h => absurd h hcascade⟩

theorem validateRelation_checks (hrec : Explores schema store root recurse)
    (hreach : Reached schema store root key) (hrelation : relation ∈ schema.relations)
    (h : validateRelation recurse store key visited relation = .ok visited') :
    Checked schema store root visited visited' ∧ Unrestricted store key relation ∧
      (relation.type ≠ .manyMany → ∀ fk, fkPolicyFor relation key.1 = some fk →
        fk.policy = .cascade → ∀ other, Refers store fk key other → visitKey other ∈ visited') := by
  unfold validateRelation at h
  split at h
  case isTrue htype =>
    have hreferences : ∀ fk, fkPolicyFor relation key.1 = some fk → fk.policy = .restrict →
        ∀ other, ¬Refers store fk key other := by
      intro fk hfk
      rw [fkPolicyFor_manyMany htype] at hfk
      cases hfk
    cases hpolicy : manyManyPolicy relation key.1 with
    | none =>
      rw [hpolicy] at h
      cases h
      refine ⟨Explored.refl, ⟨hreferences, fun side _ hside => ?_⟩, fun hne => absurd htype hne⟩
      rw [hpolicy] at hside
      cases hside
    | some found =>
      rw [hpolicy] at h
      dsimp only at h
      split at h
      · cases h
      case isFalse hclear =>
        cases h
        refine ⟨Explored.refl, ⟨hreferences, fun side _ hside => ?_⟩, fun hne => absurd htype hne⟩
        rw [hpolicy, some.injEq] at hside
        rw [hside] at hclear
        apply length_eq_zero_iff.mp
        by_contra hlength
        exact hclear ⟨Nat.pos_of_ne_zero hlength, rfl⟩
  case isFalse htype =>
    cases hfk : fkPolicyFor relation key.1 with
    | none =>
      rw [hfk] at h
      cases h
      refine ⟨Explored.refl, ⟨fun fk hsome => ?_, fun _ hmany => absurd hmany htype⟩,
        fun _ fk hsome => ?_⟩
      · rw [hfk] at hsome
        cases hsome
      · cases hsome
    | some fk =>
      rw [hfk] at h
      obtain ⟨hchecked, hnone, hall⟩ :=
        validateFkDeletePolicy_checks hrec hreach hrelation htype hfk h
      refine ⟨hchecked, ⟨fun fk' hsome => ?_, fun _ hmany => absurd hmany htype⟩,
        fun _ fk' hsome => ?_⟩
      · rw [hfk, some.injEq] at hsome
        exact hsome ▸ hnone
      · cases hsome
        exact hall

theorem validate_explores (fuel : Nat) :
    Explores schema store root (validateRelationDeletePolicies schema store fuel) := by
  induction fuel with
  | zero =>
    intro visited visited' key _ h
    rw [validateRelationDeletePolicies] at h
    split at h
    case isTrue hseen =>
      cases h
      exact ⟨Explored.refl, hseen⟩
    case isFalse => cases h
  | succ fuel ih =>
    intro visited visited' key hreach h
    rw [validateRelationDeletePolicies] at h
    split at h
    case isTrue hseen =>
      cases h
      exact ⟨Explored.refl, hseen⟩
    case isFalse =>
      have hloop := foldlM_ok (P := Checked schema store root (visitKey key :: visited))
        (Q := fun relation marks => Unrestricted store key relation ∧
          (relation.type ≠ .manyMany → ∀ fk, fkPolicyFor relation key.1 = some fk →
            fk.policy = .cascade → ∀ other, Refers store fk key other →
              visitKey other ∈ marks)) ?_ Explored.refl h
      · obtain ⟨hchecked, hall, _⟩ := hloop
        refine ⟨Explored.node hreach (fun relation hrelation => (hall relation hrelation).1)
          hchecked ?_, hchecked.grows mem_cons_self⟩
        rintro other ⟨relation, hrelation, htype, fk, hfk, hcascade, hrefers⟩
        exact (hall relation hrelation).2 htype fk hfk hcascade other hrefers
      · intro relation hrelation marks marks' hmarks hstep
        obtain ⟨hchecked, hclear, hall⟩ := validateRelation_checks ih hreach hrelation hstep
        refine ⟨hmarks.trans hchecked, ⟨hclear, hall⟩, fun other hother => ⟨hother.1, ?_⟩⟩
        intro htype fk hfk hcascade c hc
        exact hchecked.grows (hother.2 htype fk hfk hcascade c hc)

theorem unrestricted_of_accepted (hsafe : Distinguishable schema store root) {fuel : Nat}
    (h : validateRelationDeletePolicies schema store fuel [] root = .ok visited)
    (hreach : Reached schema store root key) :
    ∀ relation ∈ schema.relations, Unrestricted store key relation := by
  have hexplores : Explores schema store root
      (validateRelationDeletePolicies schema store fuel) := validate_explores fuel
  obtain ⟨hchecked, hroot⟩ := hexplores [] visited root .refl h
  exact hchecked.all_clear hsafe.distinct hroot hreach

/-- A fault of a validation names the relation that restricts the delete. -/
def Restricts (schema : PolicySchema) (fault : Fault) : Prop :=
  ∃ deletedId, ∃ relation ∈ schema.relations, fault = throwRelationRestricted deletedId relation

/-- Validation comes to an end: it accepts, or a relation restricts the delete. -/
theorem validate_ends (fuel : Nat) : ∀ (visited : List String) (key : Key),
    unmarked store (visitKey key :: visited) < fuel →
    (∃ fault, validateRelationDeletePolicies schema store fuel visited key = .error fault ∧
      Restricts schema fault) ∨
    ∃ visited', validateRelationDeletePolicies schema store fuel visited key = .ok visited' ∧
      visited ⊆ visited' := by
  have hsame : Shrinks schema store store := Shrinks.refl
  induction fuel with
  | zero =>
    intro visited key hfuel
    omega
  | succ fuel ih =>
    intro visited key hfuel
    rw [validateRelationDeletePolicies]
    split
    · exact .inr ⟨visited, rfl, List.Subset.refl _⟩
    have hnested : ∀ marks, visitKey key :: visited ⊆ marks → ∀ other,
        (∃ row, store.getRecord other = some row) →
        (∃ fault, validateRelationDeletePolicies schema store fuel marks other = .error fault ∧
          Restricts schema fault) ∨
        ∃ marks', validateRelationDeletePolicies schema store fuel marks other = .ok marks' ∧
          visitKey key :: visited ⊆ marks' := by
      rintro marks hmarks other ⟨row, hrow⟩
      by_cases hseen : visitKey other ∈ marks
      · cases fuel <;>
        · rw [validateRelationDeletePolicies, if_pos hseen]
          exact .inr ⟨marks, rfl, hmarks⟩
      · have hlt := unmarked_lt hrow hseen
        have hle := unmarked_le hsame hmarks
        rcases ih marks other (by omega) with herr | ⟨marks', hok, hsub⟩
        · exact .inl herr
        · exact .inr ⟨marks', hok, fun t ht => hsub (hmarks ht)⟩
    have hloop := foldlM_ends (E := Restricts schema)
      (P := fun marks => visitKey key :: visited ⊆ marks)
      (f := validateRelation (validateRelationDeletePolicies schema store fuel) store key)
      (l := schema.relations) ?_ (List.Subset.refl _)
    · rcases hloop with herr | ⟨visited', hok, hsub⟩
      · exact .inl herr
      · exact .inr ⟨visited', hok, fun t ht => hsub (mem_cons_of_mem _ ht)⟩
    intro relation hrelation marks hmarks
    unfold validateRelation
    split
    · cases manyManyPolicy relation key.1 with
      | none => exact .inr ⟨marks, rfl, hmarks⟩
      | some found =>
        dsimp only
        split
        · exact .inl ⟨_, rfl, key.2, relation, hrelation, rfl⟩
        · exact .inr ⟨marks, rfl, hmarks⟩
    · cases fkPolicyFor relation key.1 with
      | none => exact .inr ⟨marks, rfl, hmarks⟩
      | some fk =>
        unfold validateFkDeletePolicy
        dsimp only
        split
        · exact .inl ⟨_, rfl, key.2, relation, hrelation, rfl⟩
        split
        · apply foldlM_ends (P := fun marks => visitKey key :: visited ⊆ marks)
          · intro entry hentry marks' hmarks'
            rw [if_neg (id_ne_of_mem hentry)]
            exact hnested marks' hmarks' _ (getRecord_of_refers (refers_of_mem hentry))
          · exact hmarks
        · exact .inr ⟨marks, rfl, hmarks⟩

end Validation

/-! ## The delete -/

section Deletion

variable {recurse : DeleteState → Key → Deleting DeleteState} {key : Key} {relation : Relation}
  {fk : FkPolicy} {marked : List String} {state : DeleteState}

/-- Within a delete: the store has only lost references, and the marks are still there. -/
def Within (schema : PolicySchema) (store : LocalStore) (marked : List String)
    (state : DeleteState) : Prop :=
  Shrinks schema store state.1 ∧ marked ⊆ state.2

/-- The nested deletes run through. -/
def Completes (schema : PolicySchema) (store : LocalStore) (root : Key) (marked : List String)
    (recurse : DeleteState → Key → Deleting DeleteState) : Prop :=
  ∀ state key, Reached schema store root key → (∃ row, store.getRecord key = some row) →
    Within schema store marked state →
    ∃ state', recurse state key = .ok state' ∧ Within schema store marked state'

theorem detachRow_ok (hrelation : relation ∈ schema.relations)
    (hfk : fkPolicyFor relation key.1 = some fk)
    (hids : ∀ entry ∈ (fk.fkField, Value.null) :: fk.extraNullFields, entry.1 ≠ "id")
    {listed : LocalStore} {queued : Queued} (hqueued : Shrinks schema listed queued.1)
    {entry : String × Row} (hentry : entry ∈ findFkPolicyRows listed fk.resources fk key) :
    ∃ queued', detachRow fk queued entry = .ok queued' ∧ Shrinks schema listed queued'.1 := by
  have hget := (mem_findFkPolicyRows.mp hentry).2.1
  have hne := id_ne_of_mem hentry
  have hid := Row.id_patch hids entry.2
  have hwrites : ∃ written, queued.1.upsertRecord entry.1
      (entry.2.patch ((fk.fkField, .null) :: fk.extraNullFields)) = .ok written :=
    LocalStore.upsertRecord_ok (hid.symm ▸ hne)
  obtain ⟨written, hwrite⟩ := hwrites
  unfold detachRow
  rw [if_neg hne, hwrite]
  refine ⟨_, rfl, hqueued.upsert hget hid (fun field text hfield => ?_) hwrite⟩
  rcases Row.field_patch hids hfield with hpatched | ⟨_, hold⟩
  · rcases patch_of_fkPolicyFor hrelation hfk hpatched with hnull | ⟨htext, hpath⟩
    · cases hnull
    · cases htext
      exact .inr ⟨rfl, hpath⟩
  · exact .inl hold

section

variable (hsafe : Distinguishable schema store root)
include hsafe

theorem applyFkDeletePolicy_ok (hrec : Completes schema store root marked recurse)
    (hreach : Reached schema store root key) (hrelation : relation ∈ schema.relations)
    (htype : relation.type ≠ .manyMany) (hclear : Unrestricted store key relation)
    (hfk : fkPolicyFor relation key.1 = some fk) (hstate : Within schema store marked state) :
    ∃ state', applyFkDeletePolicy schema recurse relation fk key state = .ok state' ∧
      Within schema store marked state' := by
  have hstart : ∀ entry ∈ findFkPolicyRows state.1 fk.resources fk key,
      Refers store fk key (entry.1, entry.2.id) := fun entry hentry =>
    refers_start hsafe hreach hrelation hfk hstate.1 (refers_of_mem hentry)
  unfold applyFkDeletePolicy applyFkRows
  dsimp only
  split
  case isTrue hrestrict =>
    obtain ⟨entry, hentry⟩ := exists_mem_of_length_pos hrestrict.1
    exact absurd (hstart entry hentry) (hclear.references fk hfk hrestrict.2 _)
  split
  case isTrue hdetach =>
    have hloop := foldlM_total (P := fun queued : Queued => Shrinks schema state.1 queued.1)
      (f := detachRow fk) (l := findFkPolicyRows state.1 fk.resources fk key)
      (b := (state.1, [])) ?_ Shrinks.refl
    · obtain ⟨⟨detached, seeds⟩, hfold, hshrinks⟩ := hloop
      obtain ⟨after, hpropagate, hrewrites⟩ := applyInactivePropagation_ok detached seeds
      rw [hfold]
      dsimp only
      rw [hpropagate]
      exact ⟨_, rfl, hstate.1.trans (hshrinks.trans hrewrites.toShrinks), hstate.2⟩
    · intro entry hentry queued hqueued
      have hids := hsafe.idsKept key hreach relation hrelation fk hfk hdetach
        ⟨_, hstart entry hentry⟩
      exact detachRow_ok hrelation hfk hids hqueued hentry
  split
  case isTrue hcascade =>
    apply foldlM_total (P := Within schema store marked)
    · intro entry hentry state' hstate'
      rw [if_neg (id_ne_of_mem hentry)]
      have hrefers := hstart entry hentry
      exact hrec state' _ (hreach.tail ⟨relation, hrelation, htype, fk, hfk, hcascade, hrefers⟩)
        (getRecord_of_refers hrefers) hstate'
    · exact hstate
  case isFalse => exact ⟨state, rfl, hstate⟩

theorem applyRelation_ok (hrec : Completes schema store root marked recurse)
    (hreach : Reached schema store root key) (hrelation : relation ∈ schema.relations)
    (hclear : Unrestricted store key relation) (hstate : Within schema store marked state) :
    ∃ state', applyRelation schema recurse key state relation = .ok state' ∧
      Within schema store marked state' := by
  unfold applyRelation
  split
  case isTrue htype =>
    cases hpolicy : manyManyPolicy relation key.1 with
    | none => exact ⟨state, rfl, hstate⟩
    | some found =>
      obtain ⟨side, policy⟩ := found
      dsimp only
      split
      case isTrue hrestrict =>
        obtain ⟨hpos, rfl⟩ := hrestrict
        obtain ⟨entry, hentry⟩ := exists_mem_of_length_pos hpos
        have hold := listManyManyRows_subset hstate.1.joins hentry
        rw [hclear.joinRows side htype hpolicy] at hold
        cases hold
      split
      · exact ⟨_, rfl, hstate.1.trans (deleteJoinRows_shrinks _ _), hstate.2⟩
      · exact ⟨state, rfl, hstate⟩
  case isFalse htype =>
    cases hfk : fkPolicyFor relation key.1 with
    | none => exact ⟨state, rfl, hstate⟩
    | some fk => exact applyFkDeletePolicy_ok hsafe hrec hreach hrelation htype hclear hfk hstate

theorem delete_ok (hclear : ∀ key, Reached schema store root key → ∀ relation ∈ schema.relations,
      Unrestricted store key relation) (fuel : Nat) :
    ∀ (state : DeleteState) (key : Key), Reached schema store root key →
      Shrinks schema store state.1 → unmarked store (visitKey key :: state.2) < fuel →
      ∃ state', deleteRecordWithRelationPolicies schema fuel state key = .ok state' ∧
        Within schema store state.2 state' := by
  have hsame : Shrinks schema store store := Shrinks.refl
  induction fuel with
  | zero =>
    intro state key _ _ hfuel
    omega
  | succ fuel ih =>
    intro state key hreach hstate hfuel
    rw [deleteRecordWithRelationPolicies]
    split
    · exact ⟨state, rfl, hstate, List.Subset.refl _⟩
    have hrec : Completes schema store root (visitKey key :: state.2)
        (deleteRecordWithRelationPolicies schema fuel) := by
      rintro inner other hother ⟨row, hrow⟩ ⟨hshrinks, hmarks⟩
      by_cases hseen : visitKey other ∈ inner.2
      · cases fuel <;>
        · rw [deleteRecordWithRelationPolicies, if_pos hseen]
          exact ⟨inner, rfl, hshrinks, hmarks⟩
      · have hlt := unmarked_lt hrow hseen
        have hle := unmarked_le hsame hmarks
        obtain ⟨after, hok, hafter, hkept⟩ := ih inner other hother hshrinks (by omega)
        exact ⟨after, hok, hafter, fun t ht => hkept (hmarks ht)⟩
    have hloop := foldlM_total (P := Within schema store (visitKey key :: state.2))
      (f := applyRelation schema (deleteRecordWithRelationPolicies schema fuel) key)
      (l := schema.relations) (b := (state.1, visitKey key :: state.2)) ?_
      ⟨hstate, List.Subset.refl _⟩
    · obtain ⟨after, hfold, hshrinks, hkept⟩ := hloop
      refine ⟨(after.1.deleteRecord key, after.2), ?_, hshrinks.trans (Shrinks.deleteRecord key),
        fun t ht => hkept (mem_cons_of_mem _ ht)⟩
      simp only [applyRelationDeletePolicies, hfold, bind, Except.bind]
    · intro relation hrelation inner hinner
      exact applyRelation_ok hsafe hrec hreach hrelation (hclear key hreach relation hrelation)
        hinner

end

end Deletion

/-! ## Both together -/

/-- Whether `validateRelationDeletePolicies` lets a delete pass. -/
def accepts (schema : PolicySchema) (store : LocalStore) (key : Key) : Bool :=
  (validateRelationDeletePolicies schema store (passFuel store) [] key).isOk

theorem unmarked_root (store : LocalStore) (key : Key) :
    unmarked store [visitKey key] < passFuel store := by
  have hle : unmarked store [visitKey key] ≤ store.records.entries.length := unmarked_le_length
  unfold passFuel
  omega

/-- The referrers of a key, as keys. -/
def referrers (store : LocalStore) (fk : FkPolicy) (key : Key) : List Key :=
  (findFkPolicyRows store fk.resources fk key).map fun entry => (entry.1, entry.2.id)

theorem mem_referrers {key other : Key} :
    other ∈ referrers store fk key ↔ Refers store fk key other := by
  unfold referrers
  rw [List.mem_map]
  constructor
  · rintro ⟨entry, hentry, rfl⟩
    exact refers_of_mem hentry
  · exact mem_of_refers

/-- The listed keys include the root, are closed under cascading and have visit keys of their
own, and none of them detaches a row by its id. -/
def certifies (schema : PolicySchema) (store : LocalStore) (root : Key) (keys : List Key) : Bool :=
  root ∈ keys ∧ root.2 ≠ "" ∧ (keys.map visitKey).Nodup ∧
    ∀ key ∈ keys, ∀ relation ∈ schema.relations, ∀ fk ∈ (fkPolicyFor relation key.1).toList,
      (∀ other ∈ referrers store fk key, other ∈ keys) ∧
        (referrers store fk key ≠ [] →
          ∀ entry ∈ (fk.fkField, Value.null) :: fk.extraNullFields, entry.1 ≠ "id")

theorem mem_of_reached {keys : List Key} (h : certifies schema store root keys = true) {key : Key}
    (hreach : Reached schema store root key) : key ∈ keys := by
  obtain ⟨hroot, _, _, hkeys⟩ := of_decide_eq_true h
  induction hreach with
  | refl => exact hroot
  | tail _ hstep ih =>
    obtain ⟨relation, hrelation, _, fk, hfk, _, hrefers⟩ := hstep
    have hclosed := (hkeys _ ih relation hrelation fk (mem_toList.mpr hfk)).1
    exact hclosed _ (mem_referrers.mpr hrefers)

theorem distinguishable_of_certifies {keys : List Key}
    (h : certifies schema store root keys = true) : Distinguishable schema store root := by
  obtain ⟨_, hnamed, hnodup, hkeys⟩ := of_decide_eq_true h
  constructor
  · intro a b ha hb hsame
    exact inj_on_of_nodup_map hnodup (mem_of_reached h ha) (mem_of_reached h hb) hsame
  · intro a ha relation hrelation fk hfk _ hsome
    obtain ⟨c, hc⟩ := hsome
    have hids := (hkeys a (mem_of_reached h ha) relation hrelation fk (mem_toList.mpr hfk)).2
    exact hids (ne_nil_of_mem (mem_referrers.mpr hc))
  · exact fun hempty => absurd hempty hnamed

/-- A store of these records. -/
def storeOf (records : List (Key × Record)) (joinRows : List (String × JoinRow))
    (hnodup : (records.map Prod.fst).Nodup := by decide)
    (hnamed : ∀ key ∈ records.map Prod.fst, key.2 ≠ "" := by decide) : LocalStore where
  records := ⟨records, hnodup⟩
  joinRows
  named key hkey := hnamed key ((OMap.mem_keys_iff_get _ key).mpr hkey)

/-- A many-one relation by a foreign key. -/
def manyOne (source target fkField : String) (policy : RelationDeletePolicy) : Relation where
  fromResources := [source]
  toResources := [target]
  type := .manyOne
  relation := some fkField
  inverse := none
  fkField := some fkField
  foreignKey := none
  fkResourceField := none
  pathField := none
  joinTable := none
  onDelete := some (.both policy)
  inheritsInactive := false

/-- A list with tasks and notes, and a restricted share that refers to no task. -/
def taskSchema : PolicySchema where
  resources := [("lists", none), ("tasks", none), ("notes", none), ("shares", none)]
  relations := [manyOne "tasks" "lists" "listId" .cascade,
    manyOne "notes" "tasks" "taskId" .setNull, manyOne "shares" "tasks" "taskId" .restrict]

def textField (name text : String) : Record := Finmap.singleton name (Value.str text)

def taskStore : LocalStore :=
  storeOf
    [(("lists", "l"), ∅), (("tasks", "t"), textField "listId" "l"),
      (("notes", "n"), textField "taskId" "t"), (("shares", "s"), textField "taskId" "u")] []

/-- The resources `a` and `a:b`, whose records `b:c` and `c` share the visit key `a:b:c`. -/
def collidingSchema : PolicySchema where
  resources := [("lists", none), ("a", none), ("a:b", none), ("locks", none)]
  relations := [manyOne "a" "lists" "listId" .setNull, manyOne "a" "lists" "listId" .cascade,
    manyOne "a:b" "lists" "listId" .cascade, manyOne "locks" "a:b" "lockId" .restrict]

def collidingStore : LocalStore :=
  storeOf
    [(("lists", "l"), ∅), (("a", "b:c"), textField "listId" "l"),
      (("a:b", "c"), textField "listId" "l"), (("locks", "k"), textField "lockId" "c")] []

/-- Validation takes one record for the other and accepts; the delete, which has detached the
first, comes to the second and is restricted. -/
theorem colliding_delete_fails :
    accepts collidingSchema collidingStore ("lists", "l") = true ∧
      (handleOfflineDelete collidingSchema collidingStore ("lists", "l")).2 =
        some (throwRelationRestricted "c" (manyOne "locks" "a:b" "lockId" .restrict)) ∧
      ((handleOfflineDelete collidingSchema collidingStore ("lists", "l")).1.getRecord
        ("a", "b:c")).bind (Row.field · "listId") = some .null := by
  decide +kernel

end SuperFunctions.Datafn.Relations.ValidatedDelete
