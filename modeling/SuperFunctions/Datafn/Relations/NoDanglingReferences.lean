import SuperFunctions.Datafn.Relations.TidyDeletes

/-!
# No dangling references

After a delete of the client or of the server no record and no join row refers to what it
removed, if each join row that names a removed record is one that the delete looks up. A relation
with one resource on both ends is looked up on one of them only.
-/
namespace SuperFunctions.Datafn.Relations.NoDanglingReferences

open Lib.MarkedWalk Datafn.Core Core.Endpoints DeletePolicies InactivePropagation
open OfflineDelete ValidatedDelete TidyDeletes Option List

/-! ## Join rows that name a record -/

/-- The client's join stores of a relation in which a resource stands on a side. -/
def joinStores (relation : Relation) (name resource : String) : Side → List String
  | .fromSide => relation.toResources.map fun toResource => getJoinStoreKey resource name toResource
  | .toSide =>
    relation.fromResources.map fun fromResource => getJoinStoreKey fromResource name resource

def clientNames (relation : Relation) (key : Key) (side : Side) (entry : String × JoinRow) :
    Bool :=
  match relation.relation with
  | none => false
  | some name =>
    name ≠ "" ∧ ServerDelete.endOf side entry.2 = key.2 ∧
      entry.1 ∈ joinStores relation name key.1 side

/-- The join rows of the server's join tables of a relation. -/
def serverNames (relation : Relation) (key : Key) (side : Side) (entry : String × JoinRow) :
    Bool :=
  entry.1 ∈ ServerDelete.joinTablesForDeletedResource relation key.1 side ∧
    ServerDelete.namesDeleted relation key side entry.2 = true

def clientHandles (_ : Relation) (entry : String × JoinRow) : Bool :=
  entry.2.fromId ≠ "" ∧ entry.2.toId ≠ ""

def hasTextId (row : JoinRow) : Bool :=
  match row.metadata.lookup "id" with
  | some (.str _) => true
  | _ => false

def serverHandles (schema : PolicySchema) (relation : Relation) (entry : String × JoinRow) :
    Bool :=
  ServerDelete.resolvable schema relation entry.2 && hasTextId entry.2

/-- The join rows of the reached records are looked up and not passed over. -/
structure RowsHandled (schema : PolicySchema) (store : LocalStore) (root : Key)
    (names : Relation → Key → Side → String × JoinRow → Bool)
    (handles : Relation → String × JoinRow → Bool) : Prop where
  chosen : ∀ key, Reached schema store root key → ∀ relation ∈ schema.relations,
    relation.type = .manyMany → ∀ side policy,
    manyManyPolicy relation key.1 = some (side, policy) → ∀ entry ∈ store.joinRows,
    names relation key side entry = true → handles relation entry = true
  otherSide : ∀ key, Reached schema store root key → ∀ relation ∈ schema.relations,
    relation.type = .manyMany → key.1 ∈ relation.fromResources → key.1 ∈ relation.toResources →
    (relationDeletePolicy relation .toSide).isSome → ∀ entry ∈ store.joinRows,
    names relation key .toSide entry = true →
    names relation key .fromSide entry = true ∧ (relationDeletePolicy relation .fromSide).isSome

variable {schema : PolicySchema} {store current later : LocalStore} {root key : Key}
  {relation : Relation} {names : Relation → Key → Side → String × JoinRow → Bool}
  {handles : Relation → String × JoinRow → Bool} {entry : String × JoinRow}

theorem mem_listManyManyRows {side : Side} :
    entry ∈ listManyManyRowsForDeletedResource store relation key side ↔
      entry ∈ store.joinRows ∧ clientNames relation key side entry = true := by
  obtain ⟨joinStore, row⟩ := entry
  unfold listManyManyRowsForDeletedResource clientNames
  cases relation.relation with
  | none => simp
  | some name =>
    dsimp only
    by_cases hname : name = ""
    · simp [hname]
    rw [if_neg hname]
    cases side with
    | fromSide =>
      simp only [List.mem_flatMap, List.mem_map, LocalStore.mem_getJoinRows, Prod.mk.injEq,
        decide_eq_true_eq, ServerDelete.endOf, joinStores]
      constructor
      · rintro ⟨resource, hresource, row', ⟨hmem, hid⟩, rfl, rfl⟩
        exact ⟨hmem, hname, hid, resource, hresource, rfl⟩
      · rintro ⟨hmem, _, hid, resource, hresource, rfl⟩
        exact ⟨resource, hresource, row, ⟨hmem, hid⟩, rfl, rfl⟩
    | toSide =>
      simp only [List.mem_flatMap, List.mem_map, LocalStore.mem_getJoinRowsInverse,
        Prod.mk.injEq, decide_eq_true_eq, ServerDelete.endOf, joinStores]
      constructor
      · rintro ⟨resource, hresource, row', ⟨hmem, hid⟩, rfl, rfl⟩
        exact ⟨hmem, hname, hid, resource, hresource, rfl⟩
      · rintro ⟨hmem, _, hid, resource, hresource, rfl⟩
        exact ⟨resource, hresource, row, ⟨hmem, hid⟩, rfl, rfl⟩

theorem settled_of_chosen (hhandled : RowsHandled schema store root names handles)
    (hreach : Reached schema store root key) (hrelation : relation ∈ schema.relations)
    (htype : relation.type = .manyMany) (hlater : Shrinks schema store later)
    (hchosen : ∀ side policy, manyManyPolicy relation key.1 = some (side, policy) →
      ∀ entry ∈ later.joinRows, ¬names relation key side entry = true) {deleting : List String} :
    Settled schema store root (fun r k s e => names r k s e = true) later key deleting
      relation where
  references fk hfk := by
    rw [fkPolicyFor_manyMany htype] at hfk
    cases hfk
  joinRows _ side hside hpolicy entry hentry hnames := by
    have hpick : ∀ side', manyManySide relation key.1 = some side' →
        (relationDeletePolicy relation side').isSome → names relation key side' entry ≠ true := by
      intro side' hpicked hsome
      obtain ⟨policy, hpolicy'⟩ := isSome_iff_exists.mp hsome
      apply hchosen side' policy _ entry hentry
      unfold manyManyPolicy
      rw [hpicked, bind_some, hpolicy', map_some]
    by_cases hfrom : key.1 ∈ relation.fromResources
    · have hpicked : manyManySide relation key.1 = some .fromSide := by
        unfold manyManySide
        rw [if_pos hfrom]
      cases side with
      | fromSide => exact hpick .fromSide hpicked hpolicy hnames
      | toSide =>
        obtain ⟨hnames', hpolicy'⟩ := hhandled.otherSide key hreach relation hrelation htype
          hfrom hside hpolicy entry (hlater.joins entry hentry) hnames
        exact hpick .fromSide hpicked hpolicy' hnames'
    · cases side with
      | fromSide => exact hfrom hside
      | toSide =>
        have hto : key.1 ∈ relation.toResources := hside
        have hpicked : manyManySide relation key.1 = some .toSide := by
          unfold manyManySide
          rw [if_neg hfrom, if_pos hto]
        exact hpick .toSide hpicked hpolicy hnames

/-! ## The client -/

section Client

variable {state state' : DeleteState} {recurse : DeleteState → Key → Deleting DeleteState}

theorem deleteJoinRows_cons {rows : List (String × JoinRow)} :
    deleteJoinRows store (entry :: rows) = deleteJoinRows
      (if entry.2.fromId = "" ∨ entry.2.toId = "" then store
      else store.deleteJoinRow entry.1 entry.2.fromId entry.2.toId) rows := rfl

theorem getRecord_deleteJoinRows (rows : List (String × JoinRow)) (other : Key) :
    ∀ store : LocalStore, (deleteJoinRows store rows).getRecord other = store.getRecord other := by
  induction rows with
  | nil => exact fun _ => rfl
  | cons entry rows ih =>
    intro store
    rw [deleteJoinRows_cons, ih]
    split <;> rfl

theorem not_mem_deleteJoinRows (hends : clientHandles relation entry = true)
    (rows : List (String × JoinRow)) (hmem : entry ∈ rows) :
    ∀ store : LocalStore, entry ∉ (deleteJoinRows store rows).joinRows := by
  have hends := of_decide_eq_true hends
  induction rows with
  | nil => cases hmem
  | cons first rows ih =>
    intro store hafter
    rw [deleteJoinRows_cons] at hafter
    by_cases hrest : entry ∈ rows
    · exact ih hrest _ hafter
    rcases mem_cons.mp hmem with rfl | hin
    · rw [if_neg (not_or.mpr hends)] at hafter
      have hshrinks : Shrinks ⟨[], []⟩ _ (deleteJoinRows _ rows) :=
        deleteJoinRows_shrinks rows (store.deleteJoinRow entry.1 entry.2.fromId entry.2.toId)
      have hold := hshrinks.joins entry hafter
      have hkept := of_decide_eq_true (mem_filter.mp hold).2
      exact hkept ⟨rfl, rfl⟩
    · exact hrest hin

theorem propagates_inactive : Propagates schema (applyInactivePropagation schema) := by
  intro store seeds store' h
  have hends : ∃ after, applyInactivePropagation schema store seeds = .ok after ∧
      Rewrites schema store after := applyInactivePropagation_ok store seeds
  obtain ⟨after, hok, hrewrites⟩ := hends
  rw [hok] at h
  cases h
  exact hrewrites

theorem tidy_applyRelation (hapart : Apart schema store root)
    (hhandled : RowsHandled schema store root clientNames clientHandles)
    (hrec : DeletesTidily schema store root (fun r k s e => clientNames r k s e = true) recurse)
    (hreach : Reached schema store root key) (hrelation : relation ∈ schema.relations) :
    TidyTurn schema store root (fun r k s e => clientNames r k s e = true) key relation
      (applyRelation schema recurse key) := by
  intro state state' hstate h
  unfold applyRelation at h
  split at h
  case isTrue htype =>
    have hsettle : ∀ {later : LocalStore}, Shrinks schema state.1 later →
        (∀ side policy, manyManyPolicy relation key.1 = some (side, policy) →
          ∀ entry ∈ listManyManyRowsForDeletedResource state.1 relation key side,
            entry ∉ later.joinRows) →
        Settled schema store root (fun r k s e => clientNames r k s e = true) later key state.2
          relation := by
      intro later hlater hgone
      apply settled_of_chosen hhandled hreach hrelation htype (hstate.trans hlater)
      intro side policy hpolicy entry hentry hnames
      exact hgone side policy hpolicy entry
        (mem_listManyManyRows.mpr ⟨hlater.joins entry hentry, hnames⟩) hentry
    cases hpolicy : manyManyPolicy relation key.1 with
    | none =>
      rw [hpolicy] at h
      cases h
      refine ⟨Tidy.refl, hsettle Shrinks.refl fun side policy hsome => ?_⟩
      rw [hpolicy] at hsome
      cases hsome
    | some found =>
      obtain ⟨side, policy⟩ := found
      rw [hpolicy] at h
      dsimp only at h
      split at h
      · cases h
      case isFalse hclear =>
      split at h
      case isTrue hdeletes =>
        cases h
        refine ⟨Tidy.of_kept (deleteJoinRows_shrinks _ _) rfl fun other hnone => ?_,
          hsettle (deleteJoinRows_shrinks _ _) fun side' policy' hsome entry hentry => ?_⟩
        · rwa [getRecord_deleteJoinRows] at hnone
        rw [hpolicy, some.injEq, Prod.mk.injEq] at hsome
        obtain ⟨rfl, rfl⟩ := hsome
        obtain ⟨hmem, hnames⟩ := mem_listManyManyRows.mp hentry
        have hends := hhandled.chosen key hreach relation hrelation htype side policy hpolicy
          entry (hstate.joins entry hmem) hnames
        exact not_mem_deleteJoinRows hends _ hentry _
      case isFalse hkeeps =>
        cases h
        refine ⟨Tidy.refl, hsettle Shrinks.refl fun side' policy' hsome entry hentry => ?_⟩
        rw [hpolicy, some.injEq, Prod.mk.injEq] at hsome
        obtain ⟨rfl, rfl⟩ := hsome
        have hrestrict : policy = .restrict := by
          cases policy <;> simp_all
        exact absurd ⟨length_pos_of_mem hentry, hrestrict⟩ hclear
  case isFalse htype =>
    cases hfk : fkPolicyFor relation key.1 with
    | none =>
      rw [hfk] at h
      cases h
      refine ⟨Tidy.refl, fun fk hsome => ?_, fun hmany => absurd hmany htype⟩
      rw [hfk] at hsome
      cases hsome
    | some fk =>
      rw [hfk] at h
      obtain ⟨htidy, hrefs⟩ := tidy_applyFkRows hapart hrec propagates_inactive hreach hrelation
        htype hfk (List.Subset.refl fk.resources) hstate h
      refine ⟨htidy, fun fk' hsome other hrefers => ?_, fun hmany => absurd hmany htype⟩
      rw [hfk] at hsome
      cases hsome
      exact hrefs other hrefers

theorem tidy_delete (hapart : Apart schema store root)
    (hhandled : RowsHandled schema store root clientNames clientHandles) (fuel : Nat) :
    DeletesTidily schema store root (fun r k s e => clientNames r k s e = true)
      (deleteRecordWithRelationPolicies schema fuel) := by
  induction fuel with
  | zero =>
    exact deletesTidily_succ hapart (f := fun _ state => .error (.outOfFuel, state.1))
      (fun _ _ => rfl) nofun
  | succ fuel ih =>
    exact deletesTidily_succ hapart (fun _ _ => rfl) fun key state state' hreach hstate h =>
      tidy_turns hapart hreach
        (fun relation hrelation => tidy_applyRelation hapart hhandled ih hreach hrelation) hstate h

end Client

/-! ## The server -/

namespace Server

open ServerDelete

variable {state state' : DeleteState} {recurse : DeleteState → Key → Deleting DeleteState}
  {tableName : String} {row : JoinRow} {side : Side}

theorem mem_joinTableRows :
    row ∈ joinTableRows store relation key side tableName ↔
      (tableName, row) ∈ store.joinRows ∧ namesDeleted relation key side row = true := by
  unfold joinTableRows
  rw [List.mem_filter, List.mem_map]
  constructor
  · rintro ⟨⟨⟨name, row'⟩, hmem, rfl⟩, hnames⟩
    obtain ⟨hentry, hname⟩ := List.mem_filter.mp hmem
    have hname : name = tableName := of_decide_eq_true hname
    exact ⟨hname ▸ hentry, hnames⟩
  · rintro ⟨hmem, hnames⟩
    exact ⟨⟨(tableName, row), List.mem_filter.mpr ⟨hmem, decide_eq_true rfl⟩, rfl⟩, hnames⟩

theorem deleteJoinTableRows_cons {rows : List JoinRow} :
    deleteJoinTableRows schema relation tableName store (row :: rows) =
      deleteJoinTableRows schema relation tableName
        (if resolvable schema relation row = false then store
        else deleteJoinTableRow store tableName (joinTableRowId row)) rows := rfl

theorem getRecord_deleteJoinTableRows (rows : List JoinRow) (other : Key) :
    ∀ store : LocalStore, (deleteJoinTableRows schema relation tableName store rows).getRecord
      other = store.getRecord other := by
  induction rows with
  | nil => exact fun _ => rfl
  | cons row rows ih =>
    intro store
    rw [deleteJoinTableRows_cons, ih]
    split <;> rfl

theorem deleteJoinTableRows_shrinks (rows : List JoinRow) :
    ∀ store : LocalStore,
      Shrinks schema store (deleteJoinTableRows schema relation tableName store rows) := by
  induction rows with
  | nil => exact fun _ => Shrinks.refl
  | cons row rows ih =>
    intro store
    rw [deleteJoinTableRows_cons]
    refine Shrinks.trans ?_ (ih _)
    split
    · exact Shrinks.refl
    · exact ⟨fun _ row' hget => ⟨row', hget, fun _ _ hfield => .inl hfield⟩,
        fun _ he => mem_of_mem_filter he⟩

theorem not_mem_deleteJoinTableRows
    (hhandles : serverHandles schema relation (tableName, row) = true) (rows : List JoinRow)
    (hmem : row ∈ rows) : ∀ store : LocalStore,
      (tableName, row) ∉ (deleteJoinTableRows schema relation tableName store rows).joinRows := by
  obtain ⟨hresolves, hid⟩ := Bool.and_eq_true_iff.mp hhandles
  induction rows with
  | nil => cases hmem
  | cons first rows ih =>
    intro store hafter
    rw [deleteJoinTableRows_cons] at hafter
    by_cases hrest : row ∈ rows
    · exact ih hrest _ hafter
    rcases mem_cons.mp hmem with rfl | hin
    · have hresolves : resolvable schema relation row = true := hresolves
      rw [if_neg (by rw [hresolves]; nofun)] at hafter
      have hold := (deleteJoinTableRows_shrinks rows _).joins _ hafter
      have hkept := of_decide_eq_true (mem_filter.mp hold).2
      apply hkept
      refine ⟨rfl, ?_⟩
      unfold hasTextId at hid
      unfold joinTableRowId
      split at hid
      case h_1 id hlookup => rw [hlookup]
      case h_2 => cases hid
    · exact hrest hin

theorem tidy_applyManyMany (hhandled : RowsHandled schema store root serverNames
      (serverHandles schema)) (hreach : Reached schema store root key)
    (hrelation : relation ∈ schema.relations) (htype : relation.type = .manyMany)
    {policy : RelationDeletePolicy} (hpolicy : manyManyPolicy relation key.1 = some (side, policy))
    (hstate : Shrinks schema store state.1)
    (h : (joinTablesForDeletedResource relation key.1 side).foldlM
      (applyManyManyTable schema relation key side policy) state = .ok state') :
    (Shrinks schema state.1 state'.1 ∧ state'.2 = state.2 ∧
      ∀ other, state'.1.getRecord other = none → state.1.getRecord other = none) ∧
    ∀ entry ∈ state'.1.joinRows, ¬serverNames relation key side entry = true := by
  have hloop := foldlM_ok
    (P := fun reached : DeleteState => Shrinks schema state.1 reached.1 ∧ reached.2 = state.2 ∧
      ∀ other, reached.1.getRecord other = none → state.1.getRecord other = none)
    (Q := fun tableName reached =>
      tableName ∈ joinTablesForDeletedResource relation key.1 side →
        ∀ entry ∈ reached.1.joinRows, entry.1 = tableName →
          ¬namesDeleted relation key side entry.2 = true)
    ?_ ⟨Shrinks.refl, rfl, fun _ => id⟩ h
  · obtain ⟨hframe, hall, _⟩ := hloop
    refine ⟨hframe, fun entry hentry hnames => ?_⟩
    obtain ⟨htable, hnamed⟩ := of_decide_eq_true hnames
    exact hall entry.1 htable htable entry hentry rfl hnamed
  · intro tableName htable reached reached' hreached hstep
    obtain ⟨hshrinks, hmarks, hkept⟩ := hreached
    unfold applyManyManyTable at hstep
    dsimp only at hstep
    split at hstep
    · cases hstep
    case isFalse hclear =>
    split at hstep
    case isTrue =>
      cases hstep
      have hafter : Shrinks schema reached.1 (deleteJoinTableRows schema relation tableName
          reached.1 (joinTableRows reached.1 relation key side tableName)) :=
        deleteJoinTableRows_shrinks _ _
      refine ⟨⟨hshrinks.trans hafter, hmarks, fun other hnone => hkept other ?_⟩, ?_, ?_⟩
      · rwa [getRecord_deleteJoinTableRows] at hnone
      · rintro _ ⟨name, row⟩ hentry rfl hnamed
        have hbefore := hafter.joins _ hentry
        have hhandles := hhandled.chosen key hreach relation hrelation htype side policy hpolicy
          (name, row) ((hstate.trans hshrinks).joins _ hbefore)
          (decide_eq_true ⟨htable, hnamed⟩)
        exact not_mem_deleteJoinTableRows hhandles _
          (mem_joinTableRows.mpr ⟨hbefore, hnamed⟩) _ hentry
      · exact fun other hother hin entry hentry => hother hin entry (hafter.joins _ hentry)
    case isFalse hkeeps =>
      cases hstep
      refine ⟨⟨hshrinks, hmarks, hkept⟩, ?_, fun _ => id⟩
      rintro _ ⟨name, row⟩ hentry rfl hnamed
      have hrestrict : policy = .restrict := by
        cases policy <;> simp_all
      exact hclear ⟨length_pos_of_mem (mem_joinTableRows.mpr ⟨hentry, hnamed⟩), hrestrict⟩

section

variable (hapart : Apart schema store root)
include hapart

theorem tidy_applyFkDeletePolicy {listed : Naming}
    (hrec : DeletesTidily schema store root listed recurse) (hreach : Reached schema store root key)
    (hrelation : relation ∈ schema.relations) (htype : relation.type ≠ .manyMany) {fk : FkPolicy}
    (hfk : fkPolicyFor relation key.1 = some fk) (hstate : Shrinks schema store state.1)
    (h : ServerDelete.applyFkDeletePolicy recurse relation fk key state = .ok state') :
    Tidy schema store root listed state state' ∧ ∀ other, Refers state'.1 fk key other →
      Reached schema store root other ∧ visitKey other ∈ state.2 := by
  have hnamed := target_named hapart hreach hrelation hfk
  have hnone : Propagates schema fun store _ => .ok store := by
    intro before seeds after hok
    cases hok
    exact Rewrites.refl
  have hloop := foldlM_ok (P := Tidy schema store root listed state)
    (Q := fun resource reached => ∀ other,
      Refers reached.1 { fk with resources := [resource] } key other →
        Reached schema store root other ∧ visitKey other ∈ state.2) ?_ Tidy.refl h
  · obtain ⟨htidy, hall, _⟩ := hloop
    refine ⟨htidy, fun other hrefers => ?_⟩
    obtain ⟨row, hmem, hid⟩ := hrefers
    obtain ⟨hresource, hrest⟩ := mem_findFkPolicyRows.mp hmem
    exact hall other.1 hresource other
      ⟨row, mem_findFkPolicyRows.mpr ⟨mem_singleton.mpr rfl, hrest⟩, hid⟩
  · intro resource hresource reached reached' hreached hstep
    have hresources : [resource] ⊆ fk.resources := by
      intro r hr
      rwa [mem_singleton.mp hr]
    obtain ⟨htidy, hrefs⟩ := tidy_applyFkRows hapart hrec hnone hreach hrelation htype hfk
      hresources (hstate.trans hreached.shrinks) hstep
    refine ⟨hreached.trans hapart htidy, fun other hrefers => ?_,
      fun earlier hearlier other hrefers => ?_⟩
    · obtain ⟨hother, hmark⟩ := hrefs other hrefers
      refine ⟨hother, hreached.narrow hapart hother hmark ?_⟩
      obtain ⟨row, hrow⟩ := getRecord_of_refers hrefers
      obtain ⟨row₀, hrow₀, _⟩ := htidy.shrinks.rows other row hrow
      exact ⟨row₀, hrow₀⟩
    · have hold : Refers reached.1 { fk with resources := [earlier] } key other :=
        htidy.shrinks.refers hnamed hrefers
      exact hearlier other hold

section

variable (hhandled : RowsHandled schema store root serverNames (serverHandles schema))
include hhandled

theorem tidy_applyRelation
    (hrec : DeletesTidily schema store root (fun r k s e => serverNames r k s e = true) recurse)
    (hreach : Reached schema store root key) (hrelation : relation ∈ schema.relations) :
    TidyTurn schema store root (fun r k s e => serverNames r k s e = true) key relation
      (ServerDelete.applyRelation schema recurse key) := by
  intro state state' hstate h
  unfold ServerDelete.applyRelation at h
  split at h
  case isTrue htype =>
    cases hpolicy : manyManyPolicy relation key.1 with
    | none =>
      rw [hpolicy] at h
      cases h
      refine ⟨Tidy.refl, settled_of_chosen hhandled hreach hrelation htype hstate ?_⟩
      intro side policy hsome
      rw [hpolicy] at hsome
      cases hsome
    | some found =>
      obtain ⟨side, policy⟩ := found
      rw [hpolicy] at h
      obtain ⟨⟨hshrinks, hmarks, hkept⟩, hgone⟩ :=
        tidy_applyManyMany hhandled hreach hrelation htype hpolicy hstate h
      refine ⟨Tidy.of_kept hshrinks hmarks hkept,
        settled_of_chosen hhandled hreach hrelation htype (hstate.trans hshrinks) ?_⟩
      intro side' policy' hsome
      rw [hpolicy, some.injEq, Prod.mk.injEq] at hsome
      obtain ⟨rfl, rfl⟩ := hsome
      exact hgone
  case isFalse htype =>
    cases hfk : fkPolicyFor relation key.1 with
    | none =>
      rw [hfk] at h
      cases h
      refine ⟨Tidy.refl, fun fk hsome => ?_, fun hmany => absurd hmany htype⟩
      rw [hfk] at hsome
      cases hsome
    | some fk =>
      rw [hfk] at h
      obtain ⟨htidy, hrefs⟩ :=
        tidy_applyFkDeletePolicy hapart hrec hreach hrelation htype hfk hstate h
      refine ⟨htidy, fun fk' hsome other hrefers => ?_, fun hmany => absurd hmany htype⟩
      rw [hfk] at hsome
      cases hsome
      exact hrefs other hrefers

theorem tidy_applyRelationDeletePolicies
    (hrec : DeletesTidily schema store root (fun r k s e => serverNames r k s e = true) recurse)
    (hreach : Reached schema store root key) (hstate : Shrinks schema store state.1)
    (h : ServerDelete.applyRelationDeletePolicies schema recurse key state = .ok state') :
    Tidy schema store root (fun r k s e => serverNames r k s e = true) state state' ∧
      ∀ relation ∈ schema.relations, Settled schema store root
        (fun r k s e => serverNames r k s e = true) state'.1 key state.2 relation := by
  unfold ServerDelete.applyRelationDeletePolicies at h
  split at h
  · cases h
  · exact tidy_turns hapart hreach
      (fun relation hrelation => tidy_applyRelation hapart hhandled hrec hreach hrelation)
      hstate h

theorem tidy_delete (fuel : Nat) :
    DeletesTidily schema store root (fun r k s e => serverNames r k s e = true)
      (ServerDelete.deleteRecordWithRelationPolicies schema fuel) := by
  induction fuel with
  | zero =>
    exact deletesTidily_succ hapart (f := fun _ state => .error (.outOfFuel, state.1))
      (fun _ _ => rfl) nofun
  | succ fuel ih =>
    exact deletesTidily_succ hapart (fun _ _ => rfl) fun key state state' hreach hstate h =>
      tidy_applyRelationDeletePolicies hapart hhandled ih hreach hstate h

end

end

end Server

/-! ## What is left -/

/-- No relation with a policy for this record has a foreign key or a join row that names it. -/
def Unreferenced (schema : PolicySchema)
    (names : Relation → Key → Side → String × JoinRow → Bool) (current : LocalStore)
    (key : Key) : Prop :=
  ∀ relation ∈ schema.relations,
    (∀ fk, fkPolicyFor relation key.1 = some fk → ∀ other, ¬Refers current fk key other) ∧
    (relation.type = .manyMany → ∀ side, key.1 ∈ endpoint relation side →
      (relationDeletePolicy relation side).isSome → ∀ entry ∈ current.joinRows,
        names relation key side entry = false)

/-- The delete has removed the record. -/
def Removed (store current : LocalStore) (key : Key) : Prop :=
  (store.getRecord key).isSome ∧ current.getRecord key = none

theorem unreferenced_of_settled {listed : LocalStore}
    (h : ∀ relation ∈ schema.relations, Settled schema store root
      (fun r k s e => names r k s e = true) listed key [] relation) :
    Unreferenced schema names listed key := by
  intro relation hrelation
  obtain ⟨hreferences, hjoins⟩ := h relation hrelation
  refine ⟨fun fk hfk other hrefers => ?_, fun htype side hside hpolicy entry hentry => ?_⟩
  · have hmark := (hreferences fk hfk other hrefers).2
    cases hmark
  · exact Bool.eq_false_iff.mpr (hjoins htype side hside hpolicy entry hentry)

theorem unreferenced_of_tidy (hapart : Apart schema store root) {state : DeleteState}
    (h : Tidy schema store root (fun r k s e => names r k s e = true) (store, []) state)
    (hremoved : Removed store state.1 key) : Unreferenced schema names state.1 key := by
  rcases h.gone key hremoved.2 with hnone | ⟨hreach, hmark⟩
  · have hsome := hremoved.1
    have hnone : store.getRecord key = none := hnone
    rw [hnone] at hsome
    cases hsome
  · obtain ⟨target, htarget, hsame, _, hsettled⟩ := h.done _ hmark not_mem_nil
    rw [hapart.distinct target key htarget hreach hsame] at hsettled
    exact unreferenced_of_settled hsettled

/-- The join rows of these keys are looked up and not passed over. -/
def checksRows (schema : PolicySchema) (store : LocalStore) (keys : List Key)
    (names : Relation → Key → Side → String × JoinRow → Bool)
    (handles : Relation → String × JoinRow → Bool) : Bool :=
  ∀ key ∈ keys, ∀ relation ∈ schema.relations, ∀ entry ∈ store.joinRows,
    (∀ found ∈ (manyManyPolicy relation key.1).toList,
      names relation key found.1 entry = true → handles relation entry = true) ∧
    (key.1 ∈ relation.fromResources → names relation key .toSide entry = true →
      names relation key .fromSide entry = true ∧ (relationDeletePolicy relation .fromSide).isSome)

theorem rowsHandled_of_checksRows {keys : List Key}
    (hkeys : certifies schema store root keys = true)
    (h : checksRows schema store keys names handles = true) :
    RowsHandled schema store root names handles := by
  have hrows := of_decide_eq_true h
  constructor
  · intro key hreach relation hrelation _ side policy hpolicy entry hentry
    exact (hrows key (mem_of_reached hkeys hreach) relation hrelation entry hentry).1
      (side, policy) (mem_toList.mpr hpolicy)
  · intro key hreach relation hrelation _ hfrom _ _ entry hentry
    exact (hrows key (mem_of_reached hkeys hreach) relation hrelation entry hentry).2 hfrom

/-- A many-many relation under its name. -/
def manyMany (source target name : String) (policy : RelationDeletePolicy) : Relation where
  fromResources := [source]
  toResources := [target]
  type := .manyMany
  relation := some name
  inverse := none
  fkField := none
  foreignKey := none
  fkResourceField := none
  pathField := none
  joinTable := none
  onDelete := some (.both policy)
  inheritsInactive := false

def taggedSchema : PolicySchema where
  resources := [("lists", none), ("tasks", none), ("tags", none)]
  relations := [manyOne "tasks" "lists" "listId" .cascade, manyMany "tasks" "tags" "tags" .detach]

/-- The join rows of the client and of the server. -/
def taggedStore : LocalStore :=
  storeOf [(("lists", "l"), ∅), (("tasks", "t"), textField "listId" "l"), (("tags", "g"), ∅)]
    [("join_tasks_tags_tags", ⟨"t", "g", ∅⟩),
      ("__datafn_join_tasks_tags", ⟨"t", "g", textField "id" "t:g"⟩)]

def friendSchema : PolicySchema where
  resources := [("users", none)]
  relations := [manyMany "users" "users" "friends" .detach]

/-- One user befriends another. -/
def friendStore : LocalStore :=
  storeOf [(("users", "u1"), ∅), (("users", "u2"), ∅)]
    [("join_users_friends_users", ⟨"u1", "u2", ∅⟩),
      ("__datafn_join_users_friends", ⟨"u1", "u2", textField "id" "u1:u2"⟩)]

/-- The befriended user is deleted and its join row stays, on the client and on the server. -/
theorem friend_row_stays :
    (deleteRecordWithRelationPolicies friendSchema 3 (friendStore, []) ("users", "u2")).toOption.any
      (fun state => (state.1.getRecord ("users", "u2")).isNone &&
        decide (state.1.joinRows = friendStore.joinRows)) = true ∧
    (ServerDelete.executeDelete friendSchema 3 friendStore ("users", "u2")).toOption.any
      (fun state => (state.1.getRecord ("users", "u2")).isNone &&
        decide (state.1.joinRows = friendStore.joinRows)) = true := by
  decide +kernel

end SuperFunctions.Datafn.Relations.NoDanglingReferences
