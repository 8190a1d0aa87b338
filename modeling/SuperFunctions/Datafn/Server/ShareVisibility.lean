import SuperFunctions.Datafn.Server.ShareAccess

/-!
# List visibility and point access

What the list counts as a reason to show a record, what the access check counts as a reason to
grant a level, and when the two come to the same answer.
-/
namespace SuperFunctions.Datafn.Server.ShareVisibility

open Lib.OrderedMap Datafn.Core Principals ShareAccess List

/-! ## Grounds -/

/-- A reason for which an actor may see a record; the placeholder is the id that an empty list of
ids is filtered by. -/
inductive Ground where
  | namespaceOwner
  | creator
  | legacy (row : LegacyRow)
  | grant (row : PermissionRow)
  | placeholder

/-- The state a decision reads. -/
structure Situation where
  mode : ReadMode
  tables : AccessTables
  resource : String
  ns : String
  recordId : String
  createdBy : Option Value

variable (rt : Runtime) (cache : ResolverCache) (s : Situation) (actorId : String)

/-- The principals whose grants are read; none are in the first mode. -/
def readPrincipals : Option (List String) :=
  if s.mode = .v1 then some [] else resolveEffectivePrincipals rt cache s.tables.principals actorId

/-- The row is one of the principals' for the resource and the namespace. -/
def IsGrantOf (principals : List String) (row : PermissionRow) : Prop :=
  row ∈ s.tables.permissions ∧ row.resourceType = s.resource ∧ row.resourceNs = s.ns ∧
    row.principalId ∈ principals ∧ isGrantActive row.revokedAt = true

/-- The legacy row names the actor without change. -/
def IsLegacyOf (row : LegacyRow) : Prop :=
  s.mode ≠ .v2 ∧ row ∈ s.tables.legacy.getD [] ∧
    (row.userId = some (.str actorId) ∨
      row.userId = some (.str (canonicalizePrincipalFromUserId actorId)))

/-- Nothing is listed for the actor. -/
def NothingListed (principals : List String) : Prop :=
  (∀ id, s.tables.records.get id ≠ some (some (.str actorId))) ∧
  (∀ row, IsLegacyOf s actorId row → textOf row.resourceId = none) ∧
  ∀ row, IsGrantOf s principals row → isScopeRow row = false ∧ textOf row.resourceId = none

/-- What the list counts. -/
def ListGround (g : Ground) : Prop :=
  ∃ principals, readPrincipals rt cache s actorId = some principals ∧
    match g with
    | .namespaceOwner => False
    | .creator => s.createdBy = some (.str actorId)
    | .legacy row => IsLegacyOf s actorId row ∧ row.resourceId = some (.str s.recordId)
    | .grant row => IsGrantOf s principals row ∧
        (isScopeRow row = true ∨ row.resourceId = some (.str s.recordId))
    | .placeholder => s.recordId = "__datafn_no_access__" ∧ NothingListed s actorId principals

/-- What the access check counts. -/
def PointGround (g : Ground) : Prop :=
  match g with
  | .namespaceOwner => isNamespaceOwner s.ns actorId = true
  | .creator => isCreator s.createdBy actorId = true
  | .legacy row => (readPrincipals rt emptyCache s actorId).isSome = true ∧ s.mode ≠ .v2 ∧
      row ∈ s.tables.legacy.getD [] ∧ (legacyLevel actorId s.recordId row).isSome = true
  | .grant row => ∃ principals, readPrincipals rt emptyCache s actorId = some principals ∧
      IsGrantOf s principals row ∧ (normalizeLevel row.level).isSome = true ∧
        if isScopeRow row = true then textOf row.resourceId = none
        else row.resourceId = some (.str s.recordId)
  | .placeholder => False

/-! ## The two decisions -/

/-- The record passes the auto filter of the actor's list. -/
def ListVisible (actorId : Option String) : Prop :=
  ∃ access, resolveShareableAccessIds rt cache s.mode s.tables s.resource s.ns actorId = some access ∧
    passesAutoFilter access s.recordId = true

/-- The actor has a level on the record. -/
def PointAccess (actorId : Option String) : Prop :=
  ∃ level, resolveAccessLevel rt s.mode s.tables s.resource s.ns s.recordId actorId =
    some (some level)

variable {rt cache s actorId}

theorem textOf_eq_some {value : Option Value} {text : String} :
    textOf value = some text ↔ value = some (.str text) := by
  unfold textOf
  split <;> simp_all

variable {values : List String}

theorem mem_uniqueSorted {value : String} : value ∈ uniqueSorted rt values ↔ value ∈ values := by
  rw [uniqueSorted, mem_insertionSort, mem_eraseDups]

theorem uniqueSorted_eq_nil : uniqueSorted rt values = [] ↔ values = [] := by
  simp only [eq_nil_iff_forall_not_mem, mem_uniqueSorted]

variable {id : String}

theorem mem_ownedIds {t : AccessTables} :
    id ∈ ownedIds t actorId ↔ t.records.get id = some (some (.str actorId)) := by
  simp only [ownedIds, mem_map, mem_filter, decide_eq_true_eq]
  constructor
  · rintro ⟨⟨k, v⟩, ⟨hmem, hv⟩, rfl⟩
    rw [← hv]
    exact (t.records.mem_entries_iff_get k v).mp hmem
  · intro h
    exact ⟨(id, _), ⟨(t.records.mem_entries_iff_get id _).mpr h, rfl⟩, rfl⟩

theorem mem_legacyIds :
    (s.mode ≠ .v2 ∧ id ∈ legacyIds s.tables actorId) ↔
      ∃ row, IsLegacyOf s actorId row ∧ row.resourceId = some (.str id) := by
  simp only [legacyIds, mem_flatMap, mem_eraseDups, mem_filterMap, mem_filter,
    decide_eq_true_eq, textOf_eq_some, IsLegacyOf, mem_cons, not_mem_nil, or_false]
  constructor
  · rintro ⟨hmode, subject, hsubject, row, ⟨hrow, huser⟩, hid⟩
    refine ⟨row, ⟨hmode, hrow, ?_⟩, hid⟩
    obtain rfl | rfl := hsubject
    · exact .inl huser
    · exact .inr huser
  · rintro ⟨row, ⟨hmode, hrow, huser | huser⟩, hid⟩
    · exact ⟨hmode, _, .inl rfl, row, ⟨hrow, huser⟩, hid⟩
    · exact ⟨hmode, _, .inr rfl, row, ⟨hrow, huser⟩, hid⟩

variable {principals : List String} {row : PermissionRow}

theorem mem_grantsOf :
    (∃ principalId ∈ principals, row ∈ grantsOf s.tables s.resource s.ns principalId ∧
      isGrantActive row.revokedAt = true) ↔ IsGrantOf s principals row := by
  simp only [grantsOf, mem_filter, decide_eq_true_eq, IsGrantOf]
  constructor
  · rintro ⟨principalId, hp, ⟨hrow, htype, hns, rfl⟩, hactive⟩
    exact ⟨hrow, htype, hns, hp, hactive⟩
  · rintro ⟨hrow, htype, hns, hp, hactive⟩
    exact ⟨_, hp, ⟨hrow, htype, hns, rfl⟩, hactive⟩

theorem mem_grantedIds :
    id ∈ grantedIds s.tables s.resource s.ns principals ↔
      ∃ row, IsGrantOf s principals row ∧ isScopeRow row = false ∧
        row.resourceId = some (.str id) := by
  simp only [grantedIds, mem_flatMap, mem_filterMap, mem_filter, Bool.and_eq_true,
    Bool.not_eq_true', textOf_eq_some, ← mem_grantsOf]
  constructor
  · rintro ⟨principalId, hp, row, ⟨hrow, hactive, hscope⟩, hid⟩
    exact ⟨row, ⟨principalId, hp, hrow, hactive⟩, hscope, hid⟩
  · rintro ⟨row, ⟨principalId, hp, hrow, hactive⟩, hscope, hid⟩
    exact ⟨principalId, hp, row, ⟨hrow, hactive, hscope⟩, hid⟩

theorem hasScopeGrant_iff :
    hasScopeGrant s.tables s.resource s.ns principals = true ↔
      ∃ row, IsGrantOf s principals row ∧ isScopeRow row = true := by
  simp only [hasScopeGrant, any_eq_true, Bool.and_eq_true, ← mem_grantsOf]
  constructor
  · rintro ⟨principalId, hp, row, hrow, hactive, hscope⟩
    exact ⟨row, ⟨principalId, hp, hrow, hactive⟩, hscope⟩
  · rintro ⟨row, ⟨principalId, hp, hrow, hactive⟩, hscope⟩
    exact ⟨principalId, hp, row, hrow, hactive, hscope⟩

/-- The ids a list is filtered by, before they are sorted. -/
def listedIds (s : Situation) (actorId : String) (principals : List String) : List String :=
  ownedIds s.tables actorId ++ (if s.mode = .v2 then [] else legacyIds s.tables actorId) ++
    grantedIds s.tables s.resource s.ns principals

theorem mem_listedIds :
    id ∈ listedIds s actorId principals ↔
      s.tables.records.get id = some (some (.str actorId)) ∨
      (∃ row, IsLegacyOf s actorId row ∧ row.resourceId = some (.str id)) ∨
      ∃ row, IsGrantOf s principals row ∧ isScopeRow row = false ∧
        row.resourceId = some (.str id) := by
  rw [listedIds, mem_append, mem_append, mem_ownedIds, mem_grantedIds, ← mem_legacyIds, or_assoc]
  by_cases hmode : s.mode = .v2 <;> simp [hmode]

theorem resolveShareableAccessIds_eq (hactor : actorId ≠ "") :
    resolveShareableAccessIds rt cache s.mode s.tables s.resource s.ns (some actorId) =
      (readPrincipals rt cache s actorId).map fun principals =>
        ⟨uniqueSorted rt (listedIds s actorId principals),
          hasScopeGrant s.tables s.resource s.ns principals⟩ := by
  have hfilter : (some actorId).filter (fun a => decide (a ≠ "")) = some actorId := by
    simp [Option.filter, hactor]
  unfold resolveShareableAccessIds readPrincipals
  rw [hfilter]
  simp only
  split
  · simp [listedIds, grantedIds, hasScopeGrant]
  · rfl

theorem nothingListed_iff :
    NothingListed s actorId principals ↔ listedIds s actorId principals = [] ∧
      hasScopeGrant s.tables s.resource s.ns principals = false := by
  rw [eq_nil_iff_forall_not_mem, ← Bool.not_eq_true, hasScopeGrant_iff]
  simp only [mem_listedIds]
  constructor
  · rintro ⟨howned, hlegacy, hgrant⟩
    refine ⟨fun id => ?_, ?_⟩
    · rintro (h | ⟨row, hrow, hid⟩ | ⟨row, hrow, _, hid⟩)
      · exact howned id h
      · have hnone := hlegacy row hrow
        rw [textOf_eq_some.mpr hid] at hnone
        cases hnone
      · have hnone := (hgrant row hrow).2
        rw [textOf_eq_some.mpr hid] at hnone
        cases hnone
    · rintro ⟨row, hrow, hscope⟩
      rw [(hgrant row hrow).1] at hscope
      cases hscope
  · rintro ⟨hids, hscope⟩
    refine ⟨fun id h => hids id (.inl h), fun row hrow => ?_, fun row hrow => ?_⟩
    · cases htext : textOf row.resourceId with
      | none => rfl
      | some id => exact absurd (.inr (.inl ⟨row, hrow, textOf_eq_some.mp htext⟩)) (hids id)
    have hrecord : isScopeRow row = false := by
      cases h : isScopeRow row with
      | true => exact absurd ⟨row, hrow, h⟩ hscope
      | false => rfl
    refine ⟨hrecord, ?_⟩
    cases htext : textOf row.resourceId with
    | none => rfl
    | some id =>
      exact absurd (.inr (.inr ⟨row, hrow, hrecord, textOf_eq_some.mp htext⟩)) (hids id)

theorem listVisible_iff (hactor : actorId ≠ "")
    (hrecord : s.tables.records.get s.recordId = some s.createdBy) :
    ListVisible rt cache s (some actorId) ↔ ∃ g, ListGround rt cache s actorId g := by
  unfold ListVisible
  rw [resolveShareableAccessIds_eq hactor]
  constructor
  · rintro ⟨access, haccess, hpasses⟩
    obtain ⟨principals, hprincipals, rfl⟩ := Option.map_eq_some_iff.mp haccess
    by_cases hscope : hasScopeGrant s.tables s.resource s.ns principals = true
    · obtain ⟨row, hrow, hkind⟩ := hasScopeGrant_iff.mp hscope
      exact ⟨.grant row, principals, hprincipals, hrow, .inl hkind⟩
    simp only [passesAutoFilter, Bool.not_eq_true] at hpasses hscope
    rw [hscope, Bool.false_or] at hpasses
    split at hpasses
    case isTrue hnil =>
      exact ⟨.placeholder, principals, hprincipals, of_decide_eq_true hpasses,
        nothingListed_iff.mpr ⟨uniqueSorted_eq_nil.mp hnil, hscope⟩⟩
    case isFalse =>
      rw [decide_eq_true_eq, mem_uniqueSorted, mem_listedIds] at hpasses
      obtain h | ⟨row, hrow, hid⟩ | ⟨row, hrow, _, hid⟩ := hpasses
      · rw [hrecord] at h
        exact ⟨.creator, principals, hprincipals, Option.some.inj h⟩
      · exact ⟨.legacy row, principals, hprincipals, hrow, hid⟩
      · exact ⟨.grant row, principals, hprincipals, hrow, .inr hid⟩
  · rintro ⟨g, principals, hprincipals, hg⟩
    refine ⟨_, by rw [hprincipals]; rfl, ?_⟩
    have hlisted : s.recordId ∈ listedIds s actorId principals →
        passesAutoFilter ⟨uniqueSorted rt (listedIds s actorId principals),
          hasScopeGrant s.tables s.resource s.ns principals⟩ s.recordId = true := by
      intro hmem
      have hne : uniqueSorted rt (listedIds s actorId principals) ≠ [] := by
        intro hnil
        rw [uniqueSorted_eq_nil.mp hnil] at hmem
        cases hmem
      simp only [passesAutoFilter]
      rw [if_neg hne, decide_eq_true (mem_uniqueSorted.mpr hmem), Bool.or_true]
    cases g with
    | namespaceOwner => exact hg.elim
    | creator => exact hlisted (mem_listedIds.mpr (.inl (hg ▸ hrecord)))
    | legacy row => exact hlisted (mem_listedIds.mpr (.inr (.inl ⟨row, hg⟩)))
    | grant row =>
      by_cases hscope : isScopeRow row = true
      · have hany := hasScopeGrant_iff.mpr ⟨row, hg.1, hscope⟩
        simp only [passesAutoFilter, hany, Bool.true_or]
      · have hid := hg.2.resolve_left hscope
        exact hlisted (mem_listedIds.mpr (.inr (.inr ⟨row, hg.1, by simpa using hscope, hid⟩)))
    | placeholder =>
      obtain ⟨hid, hnothing⟩ := hg
      obtain ⟨hnil, hscope⟩ := nothingListed_iff.mp hnothing
      simp only [passesAutoFilter, hscope, Bool.false_or]
      rw [if_pos (uniqueSorted_eq_nil.mpr hnil)]
      exact decide_eq_true hid

/-! ## One record -/

theorem foldl_selectHigher_isSome {α : Type} (f : α → Option ShareAccessLevel) (l : List α)
    (start : Option ShareAccessLevel) :
    (l.foldl (fun level a => selectHigherLevel level (f a)) start).isSome = true ↔
      start.isSome = true ∨ ∃ a ∈ l, (f a).isSome = true := by
  induction l generalizing start with
  | nil => simp
  | cons a l ih =>
    have hselect : ∀ x y, (selectHigherLevel x y).isSome = true ↔
        x.isSome = true ∨ y.isSome = true := by
      intro x y
      cases x with
      | none => simp [selectHigherLevel]
      | some x =>
        cases y with
        | none => simp [selectHigherLevel]
        | some y =>
          simp only [selectHigherLevel]
          split <;> simp
    rw [foldl_cons, ih, hselect, exists_mem_cons_iff, or_assoc]

theorem legacyV1_isSome :
    (resolveAccessLevelFromLegacyV1 s.tables s.recordId actorId).isSome = true ↔
      ∃ row ∈ s.tables.legacy.getD [], (legacyLevel actorId s.recordId row).isSome = true := by
  rw [resolveAccessLevelFromLegacyV1, foldl_selectHigher_isSome]
  simp

theorem resolveEffectiveLevel_isSome {recordId : String} {grants : List AccessGrant} :
    (resolveEffectiveLevel principals recordId grants).isSome = true ↔
      ∃ grant ∈ grants, grantMatches principals recordId grant = true := by
  rw [resolveEffectiveLevel, foldl_selectHigher_isSome]
  simp [mem_filter]

theorem grantMatches_iff (hnamed : ∀ p ∈ principals, IsNamed p)
    (hactive : isGrantActive row.revokedAt = true) (hp : row.principalId ∈ principals) :
    (∃ grant, toAccessGrant row = some grant ∧ grantMatches principals s.recordId grant = true) ↔
      (normalizeLevel row.level).isSome = true ∧
        if isScopeRow row = true then textOf row.resourceId = none
        else row.resourceId = some (.str s.recordId) := by
  obtain ⟨name, hname⟩ := Option.isSome_iff_exists.mp (hnamed _ hp)
  have hmem : name ∈ principals.filterMap normalizePrincipal := mem_filterMap.mpr ⟨_, hp, hname⟩
  unfold toAccessGrant
  rw [if_pos hactive]
  cases hlevel : normalizeLevel row.level with
  | none => simp
  | some level =>
    simp only [Option.map_some, Option.some.injEq, exists_eq_left', grantMatches, hname, hmem,
      decide_true, Bool.true_and, Option.isSome_some, true_and]
    by_cases hscope : isScopeRow row = true
    · simp [hscope]
    · rw [if_neg hscope, if_neg hscope]
      split
      case h_1 hkind => split at hkind <;> cases hkind
      case h_2 => simp [textOf_eq_some]

theorem v2_isSome (hnamed : ∀ p ∈ principals, IsNamed p) :
    (resolveEffectiveLevel principals s.recordId (principals.flatMap fun principalId =>
      (grantsOf s.tables s.resource s.ns principalId).filterMap toAccessGrant)).isSome = true ↔
    ∃ row, IsGrantOf s principals row ∧ (normalizeLevel row.level).isSome = true ∧
      if isScopeRow row = true then textOf row.resourceId = none
      else row.resourceId = some (.str s.recordId) := by
  rw [resolveEffectiveLevel_isSome]
  constructor
  · rintro ⟨grant, hgrant, hmatches⟩
    obtain ⟨principalId, hp, hgrant⟩ := mem_flatMap.mp hgrant
    obtain ⟨row, hrow, hgrant⟩ := mem_filterMap.mp hgrant
    have hactive : isGrantActive row.revokedAt = true := by
      unfold toAccessGrant at hgrant
      split at hgrant
      case isTrue h => exact h
      case isFalse => cases hgrant
    have hof := mem_grantsOf.mp ⟨principalId, hp, hrow, hactive⟩
    exact ⟨row, hof, (grantMatches_iff hnamed hactive hof.2.2.2.1).mp ⟨grant, hgrant, hmatches⟩⟩
  · rintro ⟨row, hof, hcounts⟩
    obtain ⟨grant, hgrant, hmatches⟩ := (grantMatches_iff hnamed hof.2.2.2.2 hof.2.2.2.1).mpr hcounts
    obtain ⟨principalId, hp, hrow, _⟩ := mem_grantsOf.mpr hof
    exact ⟨grant, mem_flatMap.mpr ⟨principalId, hp, mem_filterMap.mpr ⟨row, hrow, hgrant⟩⟩,
      hmatches⟩

theorem grantedLevel_iff :
    (∃ level, (match s.mode with
      | .v1 => some (resolveAccessLevelFromLegacyV1 s.tables s.recordId actorId)
      | .v2 => resolveAccessLevelFromV2 rt s.tables s.resource s.ns s.recordId actorId
      | .dual => (resolveAccessLevelFromV2 rt s.tables s.resource s.ns s.recordId actorId).map
          fun v2Level => selectHigherLevel
            (resolveAccessLevelFromLegacyV1 s.tables s.recordId actorId) v2Level) =
        some (some level)) ↔
    (∃ row, PointGround rt s actorId (.legacy row)) ∨ ∃ row, PointGround rt s actorId (.grant row) := by
  have hsome : ∀ o : Option (Option ShareAccessLevel),
      (∃ level, o = some (some level)) ↔ ∃ l, o = some l ∧ l.isSome = true := by
    intro o
    constructor
    · rintro ⟨level, rfl⟩
      exact ⟨_, rfl, rfl⟩
    · rintro ⟨l, rfl, hl⟩
      obtain ⟨level, rfl⟩ := Option.isSome_iff_exists.mp hl
      exact ⟨level, rfl⟩
  rw [hsome]
  cases hmode : s.mode with
  | v1 =>
    have hgrant : ¬ ∃ row, PointGround rt s actorId (.grant row) := by
      rintro ⟨row, principals, hprincipals, hof, _⟩
      unfold readPrincipals at hprincipals
      rw [if_pos hmode] at hprincipals
      cases hprincipals
      cases hof.2.2.2.1
    simp only [Option.some.injEq, exists_eq_left', legacyV1_isSome]
    constructor
    · rintro ⟨row, hrow, hlevel⟩
      refine .inl ⟨row, ?_, by rw [hmode]; simp, hrow, hlevel⟩
      unfold readPrincipals
      rw [if_pos hmode]
      rfl
    · rintro (⟨row, _, _, hrow, hlevel⟩ | h)
      · exact ⟨row, hrow, hlevel⟩
      · exact absurd h hgrant
  | v2 =>
    have hread : readPrincipals rt emptyCache s actorId =
        resolveEffectivePrincipals rt emptyCache s.tables.principals actorId := by
      unfold readPrincipals
      rw [if_neg (by rw [hmode]; simp)]
    constructor
    · rintro ⟨level, hlevel, hsome⟩
      obtain ⟨principals, hprincipals, rfl⟩ := Option.map_eq_some_iff.mp hlevel
      obtain ⟨row, hof, hcounts⟩ := (v2_isSome (resolveEffectivePrincipals_named hprincipals)).mp hsome
      exact .inr ⟨row, principals, hread.trans hprincipals, hof, hcounts⟩
    · rintro (⟨row, _, hnot, _⟩ | ⟨row, principals, hprincipals, hof, hcounts⟩)
      · exact absurd hmode hnot
      · rw [hread] at hprincipals
        refine ⟨_, Option.map_eq_some_iff.mpr ⟨principals, hprincipals, rfl⟩, ?_⟩
        exact (v2_isSome (resolveEffectivePrincipals_named hprincipals)).mpr ⟨row, hof, hcounts⟩
  | dual =>
    have hread : readPrincipals rt emptyCache s actorId =
        resolveEffectivePrincipals rt emptyCache s.tables.principals actorId := by
      unfold readPrincipals
      rw [if_neg (by rw [hmode]; simp)]
    have hselect : ∀ x y, (selectHigherLevel x y).isSome = true ↔
        x.isSome = true ∨ y.isSome = true := by
      intro x y
      have := foldl_selectHigher_isSome (fun _ : Unit => y) [()] x
      simpa using this
    constructor
    · rintro ⟨level, hlevel, hsome⟩
      obtain ⟨v2, hv2, rfl⟩ := Option.map_eq_some_iff.mp hlevel
      obtain ⟨principals, hprincipals, rfl⟩ := Option.map_eq_some_iff.mp hv2
      rw [hselect, legacyV1_isSome, v2_isSome (resolveEffectivePrincipals_named hprincipals)] at hsome
      obtain ⟨row, hrow, hlevel⟩ | ⟨row, hof, hcounts⟩ := hsome
      · refine .inl ⟨row, ?_, by rw [hmode]; simp, hrow, hlevel⟩
        rw [hread, hprincipals]
        rfl
      · exact .inr ⟨row, principals, hread.trans hprincipals, hof, hcounts⟩
    · intro h
      have hresolved : ∃ principals,
          resolveEffectivePrincipals rt emptyCache s.tables.principals actorId = some principals := by
        obtain ⟨row, hread', _⟩ | ⟨row, principals, hprincipals, _⟩ := h
        · rw [hread] at hread'
          exact Option.isSome_iff_exists.mp hread'
        · exact ⟨principals, hread ▸ hprincipals⟩
      obtain ⟨principals, hprincipals⟩ := hresolved
      refine ⟨_, Option.map_eq_some_iff.mpr
        ⟨_, Option.map_eq_some_iff.mpr ⟨principals, hprincipals, rfl⟩, rfl⟩, ?_⟩
      rw [hselect, legacyV1_isSome, v2_isSome (resolveEffectivePrincipals_named hprincipals)]
      obtain ⟨row, _, _, hrow, hlevel⟩ | ⟨row, principals', hprincipals', hof, hcounts⟩ := h
      · exact .inl ⟨row, hrow, hlevel⟩
      · rw [hread, hprincipals] at hprincipals'
        cases hprincipals'
        exact .inr ⟨row, hof, hcounts⟩

theorem pointAccess_iff (hactor : actorId ≠ "")
    (hrecord : s.tables.records.get s.recordId = some s.createdBy) :
    PointAccess rt s (some actorId) ↔ ∃ g, PointGround rt s actorId g := by
  have hfilter : (some actorId).filter (fun a => decide (a ≠ "")) = some actorId := by
    simp [Option.filter, hactor]
  unfold PointAccess resolveAccessLevel
  simp only [hfilter, hrecord]
  have hsplit : (∃ g, PointGround rt s actorId g) ↔ isNamespaceOwner s.ns actorId = true ∨
      isCreator s.createdBy actorId = true ∨ (∃ row, PointGround rt s actorId (.legacy row)) ∨
        ∃ row, PointGround rt s actorId (.grant row) := by
    constructor
    · rintro ⟨g, hg⟩
      cases g with
      | namespaceOwner => exact .inl hg
      | creator => exact .inr (.inl hg)
      | legacy row => exact .inr (.inr (.inl ⟨row, hg⟩))
      | grant row => exact .inr (.inr (.inr ⟨row, hg⟩))
      | placeholder => exact hg.elim
    · rintro (h | h | ⟨row, h⟩ | ⟨row, h⟩)
      · exact ⟨.namespaceOwner, h⟩
      · exact ⟨.creator, h⟩
      · exact ⟨.legacy row, h⟩
      · exact ⟨.grant row, h⟩
  rw [hsplit]
  split
  case isTrue howner => exact iff_of_true ⟨_, rfl⟩ (.inl howner)
  rename_i howner
  split
  case isTrue hcreator => exact iff_of_true ⟨_, rfl⟩ (.inr (.inl hcreator))
  case isFalse hcreator =>
    rw [or_iff_right howner, or_iff_right hcreator]
    exact grantedLevel_iff

/-! ## Agreement -/

/-- Some ground counts for both. -/
def SharedGround (rt : Runtime) (cache : ResolverCache) (s : Situation) (actorId : String) : Prop :=
  ∃ g, ListGround rt cache s actorId g ∧ PointGround rt s actorId g

/-- Some ground counts for the list alone. -/
def ListOnlyGround (rt : Runtime) (cache : ResolverCache) (s : Situation) (actorId : String) : Prop :=
  ∃ g, ListGround rt cache s actorId g ∧ ¬ PointGround rt s actorId g

/-- Some ground counts for the access check alone. -/
def PointOnlyGround (rt : Runtime) (cache : ResolverCache) (s : Situation) (actorId : String) : Prop :=
  ∃ g, PointGround rt s actorId g ∧ ¬ ListGround rt cache s actorId g

theorem anonymous_agree_iff {actorId : Option String} (h : actorId.filter (· ≠ "") = none) :
    (ListVisible rt cache s actorId ↔ PointAccess rt s actorId) ↔
      s.recordId ≠ "__datafn_no_access__" := by
  have hlist : ListVisible rt cache s actorId ↔ s.recordId = "__datafn_no_access__" := by
    unfold ListVisible resolveShareableAccessIds
    rw [h]
    simp [passesAutoFilter]
  have hpoint : ¬ PointAccess rt s actorId := by
    unfold PointAccess resolveAccessLevel
    rw [h]
    simp
  rw [hlist, iff_false_right hpoint]

def viewerGrant : PermissionRow where
  resourceType := "notes"
  resourceNs := "org:acme"
  principalId := "user:alice"
  resourceId := some (.str "n1")
  grantKind := some (.str "record")
  level := some (.str "viewer")
  revokedAt := none

def bobsNote (ns : String) (permissions : List PermissionRow) : Situation where
  mode := .v2
  tables := ⟨OMap.empty.set "n1" (some (.str "bob")), ⟨[], []⟩, permissions, none⟩
  resource := "notes"
  ns := ns
  recordId := "n1"
  createdBy := some (.str "bob")

end SuperFunctions.Datafn.Server.ShareVisibility
