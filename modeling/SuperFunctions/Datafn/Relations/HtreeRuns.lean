import SuperFunctions.Datafn.Relations.HtreeDelete

/-!
# Runs of tree mutations

Every run of relate, unrelate and delete keeps the paths when its moves are sound and no delete
leaves grandchildren behind. A delete that detaches does leave them behind.
-/
namespace SuperFunctions.Datafn.Relations.HtreeRuns

open Lib.Forest Lib.OrderedMap Lib.Transition Htree HtreePaths HtreeDelete List Option

variable {rel : HtreeRelation} {side : Side} {s s' : TreeStore} {key : Key}

/-! ## One delete -/

/-- No path is left behind: a delete that detaches has no grandchildren below it, and one
without a policy no children. -/
def DeleteSound (rel : HtreeRelation) (s : TreeStore) (key : Key) : Prop :=
  match rel.onDelete with
  | some .restrict | some .cascade => True
  | some .setNull | some .detach =>
    ∀ c, nodes rel s c = some (some key) → ∀ k, nodes rel s k ≠ some (some c)
  | none => ∀ c, nodes rel s c ≠ some (some key)

theorem invariant_delete_leaf (hs : HtreeInvariant rel s)
    (h : ∀ c, nodes rel s c ≠ some (some key)) : HtreeInvariant rel (s.delete key) :=
  invariant_of_cut hs (Cut.delete hs (cut_children_of_none h))

variable {recurse : DeleteState → Key → Option DeleteState}

theorem restrict_groups {st st' : DeleteState} (groups : List (List String))
    (h : groups.foldlM (applyFkDeletePolicy rel .restrict recurse key) st = some st') :
    st' = st ∧ ∀ g ∈ groups, policyRows rel st.1 g key = [] := by
  induction groups with
  | nil =>
    cases h
    exact ⟨rfl, fun g hg => absurd hg not_mem_nil⟩
  | cons group groups ih =>
    rw [foldlM_cons] at h
    have hstep : applyFkDeletePolicy rel .restrict recurse key st group =
        if policyRows rel st.1 group key = [] then some st else none := rfl
    rw [hstep] at h
    by_cases hrows : policyRows rel st.1 group key = []
    · rw [if_pos hrows] at h
      obtain ⟨rfl, hrest⟩ := ih h
      refine ⟨rfl, fun g hg => ?_⟩
      obtain rfl | hg := mem_cons.mp hg
      · exact hrows
      · exact hrest g hg
    · rw [if_neg hrows] at h
      cases h

/-- What the recursion may be asked to remove. -/
def ChildrenReady (rel : HtreeRelation) (s : TreeStore) (key : Key) (visited : List Key)
    (fuel : Nat) : Prop :=
  ∀ c, nodes rel s c = some (some key) →
    (∀ k, Sub (nodes rel s) c k → k ∉ visited) ∧ Fits (nodes rel s) c fuel

theorem invariant_of_policies {fuel : Nat} {visited : List Key} {st : DeleteState}
    (hs : HtreeInvariant rel s) (hsound : DeleteSound rel s key)
    (hr : rel.onDelete = some .cascade → Removes rel recurse fuel)
    (hready : ChildrenReady rel s key visited fuel)
    (h : applyRelationDeletePolicies rel side recurse (s, visited) key = some st) :
    HtreeInvariant rel (st.1.delete key) := by
  by_cases hfrom : key.1 ∈ rel.fromResources
  case neg =>
    unfold applyRelationDeletePolicies at h
    rw [if_neg hfrom] at h
    cases h
    exact invariant_delete_leaf hs fun c => no_children_of_not_from hs hfrom c
  case pos =>
    unfold DeleteSound at hsound
    cases hpolicy : rel.onDelete with
    | none =>
      rw [hpolicy] at hsound
      unfold applyRelationDeletePolicies at h
      rw [if_pos hfrom, hpolicy] at h
      cases h
      exact invariant_delete_leaf hs hsound
    | some policy =>
      have hgroups : (policyGroups rel side).foldlM (applyFkDeletePolicy rel policy recurse key)
          (s, visited) = some st := by
        unfold applyRelationDeletePolicies at h
        rwa [if_pos hfrom, hpolicy] at h
      have hall : ∀ {s'}, Detached rel s s'
          (fun k => nodes rel s k = some (some key) ∧ ∃ g ∈ policyGroups rel side, k.1 ∈ g) →
          Detached rel s s' fun k => nodes rel s k = some (some key) := by
        intro s' hd
        refine ⟨fun k hk => hd.detached k ⟨hk, ?_⟩, fun k hk => hd.kept k fun hk' => hk hk'.1⟩
        obtain ⟨node, hnode, hparent⟩ := map_eq_some_iff.mp hk
        exact mem_policyGroups (hs.linked k node key hnode hparent).1 side
      cases policy with
      | restrict =>
        obtain ⟨rfl, hrows⟩ := restrict_groups _ hgroups
        apply invariant_delete_leaf hs
        intro c hc
        obtain ⟨node, hnode, hparent⟩ := map_eq_some_iff.mp hc
        obtain ⟨g, hg, hcg⟩ := mem_policyGroups (hs.linked c node key hnode hparent).1 side
        have hmem := (mem_policyRows hs.linked hfrom).mpr ⟨hcg, hc⟩
        rw [hrows g hg] at hmem
        cases hmem
      | cascade =>
        obtain ⟨s', visited', hrun, hcut, _⟩ := cascade_children side hpolicy
          (hr hpolicy) hs (fun c hc => (hready c hc).1) fun c hc => (hready c hc).2
        rw [h] at hrun
        cases hrun
        exact invariant_of_cut hs (Cut.delete hs hcut)
      | setNull =>
        rw [hpolicy] at hsound
        obtain ⟨s', hrun, hdetached⟩ := detach_groups recurse (.inl rfl) hfrom
          (policyGroups rel side) visited hs.linked
        rw [hgroups] at hrun
        cases hrun
        exact invariant_of_detached hs (hall hdetached) hsound
      | detach =>
        rw [hpolicy] at hsound
        obtain ⟨s', hrun, hdetached⟩ := detach_groups recurse (.inr rfl) hfrom
          (policyGroups rel side) visited hs.linked
        rw [hgroups] at hrun
        cases hrun
        exact invariant_of_detached hs (hall hdetached) hsound

theorem fits_entries (rel : HtreeRelation) (s : TreeStore) (key : Key) :
    Fits (nodes rel s) key (s.entries.length + 1) := by
  have hkeys : ∀ c, (nodes rel s c).isSome = true → c ∈ s.keys := by
    intro c hc
    obtain ⟨node, hnode⟩ := get_of_nodes_isSome hc
    exact (s.mem_keys_iff_get c).mpr (by rw [hnode]; rfl)
  have hlength : s.keys.length = s.entries.length := length_map _
  rw [← hlength]
  exact Fits.of_keys hkeys key

theorem childrenReady_nil (rel : HtreeRelation) (s : TreeStore) (key : Key) :
    ChildrenReady rel s key [] (s.entries.length + 1) :=
  fun c _ => ⟨fun _ _ => not_mem_nil, fits_entries rel s c⟩

theorem executeDelete_invariant (hs : HtreeInvariant rel s) (hsound : DeleteSound rel s key)
    (h : executeDelete rel side s key = some s') : HtreeInvariant rel s' := by
  unfold executeDelete at h
  cases side with
  | server =>
    cases hget : s.get key with
    | none =>
      rw [hget] at h
      cases h
      exact hs
    | some node =>
      rw [hget, map_eq_some_iff] at h
      obtain ⟨st, hst, rfl⟩ := h
      exact invariant_of_policies hs hsound (fun hpolicy => removes_deleteRecord _ hpolicy _)
        (childrenReady_nil rel s key) hst
  | client =>
    simp only [map_eq_some_iff] at h
    obtain ⟨st, hst, rfl⟩ := h
    unfold deleteRecordWithRelationPolicies at hst
    rw [if_neg not_mem_nil, map_eq_some_iff] at hst
    obtain ⟨done, hdone, rfl⟩ := hst
    refine invariant_of_policies hs hsound (fun hpolicy => removes_deleteRecord _ hpolicy _) ?_ hdone
    intro c hc
    constructor
    · intro k hsub hk
      rw [mem_singleton] at hk
      rw [hk] at hsub
      exact Sub.not_of_child hc hsub
    · obtain ⟨l, hl⟩ := hs.chain (by rw [hc]; rfl)
      exact (fits_entries rel s key).child hc hl

/-! ## Runs -/

/-- Every move of a mutation is sound when it is made, and no delete leaves a path behind. -/
def MutationSound (rel : HtreeRelation) (side : Side) (s : TreeStore) : HtreeMutation → Prop
  | .relate isForward resource id items =>
    Guarded (setHtreeParent rel side) (MoveSound rel) s (relateMoves rel isForward resource id items)
  | .unrelate isForward id items =>
    Guarded (setHtreeParent rel side) (MoveSound rel) s (unrelateMoves rel isForward id items)
  | .delete resource id => DeleteSound rel s (resource, id)

theorem moves_invariant {moves : List Move} (hs : HtreeInvariant rel s)
    (hg : Guarded (setHtreeParent rel side) (MoveSound rel) s moves)
    (h : run (setHtreeParent rel side) s moves = some s') : HtreeInvariant rel s' :=
  guarded_run_invariant (setHtreeParent rel side)
    (fun _ _ _ hs hm hstep => hs.setHtreeParent hm hstep) hs hg h

theorem htreeStep_invariant (s : TreeStore) (mutation : HtreeMutation) (s' : TreeStore)
    (hs : HtreeInvariant rel s) (hg : MutationSound rel side s mutation)
    (h : htreeStep rel side s mutation = some s') : HtreeInvariant rel s' := by
  cases mutation with
  | relate isForward resource id items =>
    simp only [htreeStep] at h
    split at h
    case isTrue => cases h
    case isFalse => exact moves_invariant hs hg h
  | unrelate isForward id items => exact moves_invariant hs hg h
  | delete resource id => exact executeDelete_invariant hs hg h

/-! ## A small tree -/

theorem htreeInvariant_of_entries (chains : Key → List Key)
    (hnamed : ∀ e ∈ s.entries, e.1.2 ≠ "")
    (hlinked : ∀ e ∈ s.entries, ∀ parent, parentKey rel e.2 = some parent →
      e.1.1 ∈ rel.toResources ∧ parent.1 ∈ rel.fromResources ∧
        (endpointIsPolymorphic rel.fromResources = true → e.2.parentResource = some parent.1))
    (hpaths : ∀ e ∈ s.entries, Chain (nodes rel s) e.1 (chains e.1) ∧
      e.2.path.getD "" = pathOf (chains e.1)) : HtreeInvariant rel s := by
  constructor
  · intro key node hkey
    exact hnamed (key, node) ((s.mem_entries_iff_get key node).mpr hkey)
  · intro key node parent hkey hparent
    exact hlinked (key, node) ((s.mem_entries_iff_get key node).mpr hkey) parent hparent
  · intro key node hkey
    exact ⟨chains key, hpaths (key, node) ((s.mem_entries_iff_get key node).mpr hkey)⟩

/-- Categories below categories, set loose when their parent is deleted. -/
def categoryTree : HtreeRelation where
  fromResources := ["categories"]
  toResources := ["categories"]
  onDelete := some .setNull
  resources := [("categories", some "cat:")]

def categoryRoot : Node where
  parentId := none
  parentResource := none
  path := some ""

def categoryBelow (parentId path : String) : Node where
  parentId := some parentId
  parentResource := none
  path := some path

/-- The category `a` has `b` below it, and `b` has `c`. -/
def threeLevels : TreeStore :=
  ((OMap.empty.set ("categories", "a") categoryRoot).set ("categories", "b")
    (categoryBelow "a" "a")).set ("categories", "c") (categoryBelow "b" "a-b")

theorem mem_three {α : Type*} {e x y z : α} : e ∈ [x, y, z] ↔ e = x ∨ e = y ∨ e = z := by simp

theorem chain_a : Chain (nodes categoryTree threeLevels) ("categories", "a") [] := .root rfl

theorem chain_b : Chain (nodes categoryTree threeLevels) ("categories", "b")
    [("categories", "a")] := .child rfl chain_a

theorem chain_c : Chain (nodes categoryTree threeLevels) ("categories", "c")
    [("categories", "a"), ("categories", "b")] := .child rfl chain_b

theorem threeLevels_invariant : HtreeInvariant categoryTree threeLevels := by
  apply htreeInvariant_of_entries fun key =>
    if key.2 = "a" then [] else if key.2 = "b" then [("categories", "a")]
      else [("categories", "a"), ("categories", "b")]
  · decide
  · intro e he parent hparent
    obtain rfl | rfl | rfl := mem_three.mp he <;> cases hparent <;> decide
  · intro e he
    obtain rfl | rfl | rfl := mem_three.mp he
    · exact ⟨chain_a, rfl⟩
    · exact ⟨chain_b, by decide⟩
    · exact ⟨chain_c, by decide⟩

end SuperFunctions.Datafn.Relations.HtreeRuns
