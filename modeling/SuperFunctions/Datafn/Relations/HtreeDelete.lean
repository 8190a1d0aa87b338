import SuperFunctions.Datafn.Relations.Htree

/-!
# Deleting from a tree

A cascading delete removes the whole subtree, whatever order it visits it in, and the fuel of
the recursion suffices. A delete that detaches the children keeps the paths when they have no
children of their own.
-/
namespace SuperFunctions.Datafn.Relations.HtreeDelete

open Lib.Forest Lib.OrderedMap Htree HtreePaths List OMap Option

variable {rel : HtreeRelation} {s s' : TreeStore} {key : Key}

/-! ## What is removed -/

/-- `s'` is `s` without the subtrees of the records `cut`. -/
structure Cut (rel : HtreeRelation) (s s' : TreeStore) (cut : Key → Prop) : Prop where
  pruned : Pruned (nodes rel s) (nodes rel s') cut
  same : ∀ key node, s'.get key = some node → s.get key = some node

theorem invariant_of_cut {cut : Key → Prop} (hs : HtreeInvariant rel s)
    (h : Cut rel s s' cut) : HtreeInvariant rel s' := by
  constructor
  · exact fun key node hkey => hs.named key node (h.same key node hkey)
  · exact fun key node parent hkey hparent =>
      hs.linked key node parent (h.same key node hkey) hparent
  intro key node hkey
  obtain ⟨l, hl, hpath⟩ := hs.paths key node (h.same key node hkey)
  refine ⟨l, h.pruned.chain_new hl fun c hc hsub => ?_, hpath⟩
  have hgone := h.pruned.gone c key hc hsub
  rw [nodes_of_get hkey] at hgone
  cases hgone

theorem Cut.trans {s'' : TreeStore} {cut cut' : Key → Prop} (h : Cut rel s s' cut)
    (h' : Cut rel s' s'' cut') : Cut rel s s'' fun c => cut c ∨ cut' c where
  pruned := h.pruned.trans h'.pruned
  same key node hkey := h.same key node (h'.same key node hkey)

theorem Cut.delete (hs : HtreeInvariant rel s)
    (h : Cut rel s s' fun c => nodes rel s c = some (some key)) :
    Cut rel s (s'.delete key) fun c => c = key where
  pruned := by
    apply h.pruned.delete fun k hk => hs.chain hk
    · simp [nodes, get_delete]
    · intro k hk
      simp [nodes, get_delete, hk]
  same k node hk := by
    rw [get_delete] at hk
    split at hk
    · cases hk
    · exact h.same k node hk

/-! ## The rows of a delete policy -/

/-- Every foreign key goes from a resource of `to` to one of `from`. -/
def Linked (rel : HtreeRelation) (s : TreeStore) : Prop :=
  ∀ key node parent, s.get key = some node → parentKey rel node = some parent →
    key.1 ∈ rel.toResources ∧ parent.1 ∈ rel.fromResources ∧
      (endpointIsPolymorphic rel.fromResources = true → node.parentResource = some parent.1)

theorem mem_policyRows (hs : Linked rel s) (hfrom : key.1 ∈ rel.fromResources)
    {resources : List String} {c : Key} :
    c ∈ policyRows rel s resources key ↔ c.1 ∈ resources ∧ nodes rel s c = some (some key) := by
  have hrow : ∀ node : Node, s.get c = some node →
      ((node.parentId = some key.2 ∧
        (endpointIsPolymorphic rel.fromResources = true → node.parentResource = some key.1)) ↔
        parentKey rel node = some key) := by
    intro node hnode
    constructor
    · rintro ⟨hid, hresource⟩
      simp only [parentKey, hid, Option.map_some]
      cases hpoly : endpointIsPolymorphic rel.fromResources with
      | true => simp [hresource hpoly]
      | false =>
        rw [if_neg (by simp), from_eq_of_not_polymorphic hpoly hfrom]
    · intro hparent
      obtain ⟨_, _, hresource⟩ := hs c node key hnode hparent
      simp only [parentKey, Option.map_eq_some_iff] at hparent
      obtain ⟨id, hid, hkey⟩ := hparent
      rw [hid, ← hkey]
      refine ⟨rfl, fun hpoly => ?_⟩
      rw [hkey]
      exact hresource hpoly
  unfold policyRows
  simp only [mem_flatMap, List.mem_map, mem_filter, decide_eq_true_eq]
  constructor
  · rintro ⟨resource, hresource, ⟨c', node⟩, ⟨hmem, hc, hid⟩, rfl⟩
    have hnode := (s.mem_entries_iff_get _ _).mp hmem
    refine ⟨hc ▸ hresource, ?_⟩
    rw [nodes_of_get hnode, (hrow node hnode).mp hid]
  · rintro ⟨hresource, hparent⟩
    obtain ⟨node, hnode, hkey⟩ := Option.map_eq_some_iff.mp hparent
    exact ⟨c.1, hresource, (c, node),
      ⟨(s.mem_entries_iff_get _ _).mpr hnode, rfl, (hrow node hnode).mpr hkey⟩, rfl⟩

/-! ## Cascading -/

/-- The recursion removes a subtree that it has not visited and that fits the fuel. -/
def Removes (rel : HtreeRelation) (recurse : DeleteState → Key → Option DeleteState)
    (fuel : Nat) : Prop :=
  ∀ (s : TreeStore) (visited : List Key) (key : Key), HtreeInvariant rel s →
    (∀ k, Sub (nodes rel s) key k → k ∉ visited) → Fits (nodes rel s) key fuel →
    ∃ s' visited', recurse (s, visited) key = some (s', visited') ∧
      Cut rel s s' (fun c => c = key) ∧ ∀ v ∈ visited', v ∈ visited ∨ s'.get v = none

theorem cut_nil : Cut rel s s fun _ => False where
  pruned := ⟨fun _ _ hc => hc.elim, fun _ _ => rfl⟩
  same _ _ h := h

variable {recurse : DeleteState → Key → Option DeleteState} {fuel : Nat} {visited : List Key}

theorem Removes.rows (hr : Removes rel recurse fuel) (rows : List Key) (hs : HtreeInvariant rel s)
    (hfree : ∀ c ∈ rows, ∀ k, Sub (nodes rel s) c k → k ∉ visited)
    (hfits : ∀ c ∈ rows, Fits (nodes rel s) c fuel) :
    ∃ s' visited', rows.foldlM recurse (s, visited) = some (s', visited') ∧
      Cut rel s s' (fun c => c ∈ rows) ∧ ∀ v ∈ visited', v ∈ visited ∨ s'.get v = none := by
  induction rows generalizing s visited with
  | nil =>
    refine ⟨s, visited, rfl, ?_, fun v hv => .inl hv⟩
    exact ⟨cut_nil.pruned.extend (fun c hc => hc.elim) fun c hc => absurd hc not_mem_nil,
      fun _ _ => id⟩
  | cons row rows ih =>
    obtain ⟨s₁, visited₁, hrun, hcut, hvisited⟩ := hr s visited row hs
      (hfree row mem_cons_self) (hfits row mem_cons_self)
    have hfree₁ : ∀ c ∈ rows, ∀ k, Sub (nodes rel s₁) c k → k ∉ visited₁ := by
      intro c hc k hsub hk
      obtain hold | hnone := hvisited k hk
      · exact hfree c (mem_cons_of_mem _ hc) k (hcut.pruned.sub_old hsub) hold
      · obtain ⟨node, hnode⟩ := get_of_nodes_isSome hsub.isSome
        rw [hnone] at hnode
        cases hnode
    obtain ⟨s₂, visited₂, hrest, hcut₂, hvisited₂⟩ := ih (invariant_of_cut hs hcut) hfree₁
      fun c hc => hcut.pruned.fits (hfits c (mem_cons_of_mem _ hc))
    refine ⟨s₂, visited₂, ?_, ?_, ?_⟩
    · rwa [foldlM_cons, hrun]
    · have hboth := hcut.trans hcut₂
      exact ⟨hboth.pruned.extend (fun c hc => mem_cons.mpr hc)
        (fun c hc => .inl (mem_cons.mp hc)), hboth.same⟩
    intro v hv
    obtain hv | hnone := hvisited₂ v hv
    · obtain hv | hnone := hvisited v hv
      · exact .inl hv
      right
      cases hget : s₂.get v with
      | none => rfl
      | some node =>
        rw [hcut₂.same v node hget] at hnone
        cases hnone
    · exact .inr hnone

theorem Removes.groups (hr : Removes rel recurse fuel) (hfrom : key.1 ∈ rel.fromResources)
    (groups : List (List String)) (hs : HtreeInvariant rel s)
    (hfree : ∀ c, nodes rel s c = some (some key) → ∀ k, Sub (nodes rel s) c k → k ∉ visited)
    (hfits : ∀ c, nodes rel s c = some (some key) → Fits (nodes rel s) c fuel) :
    ∃ s' visited', groups.foldlM (applyFkDeletePolicy rel .cascade recurse key) (s, visited) =
        some (s', visited') ∧
      Cut rel s s' (fun c => nodes rel s c = some (some key) ∧ ∃ g ∈ groups, c.1 ∈ g) ∧
      ∀ v ∈ visited', v ∈ visited ∨ s'.get v = none := by
  induction groups generalizing s visited with
  | nil =>
    refine ⟨s, visited, rfl, ?_, fun v hv => .inl hv⟩
    refine ⟨cut_nil.pruned.extend (fun c hc => hc.elim) ?_, fun _ _ => id⟩
    rintro c ⟨_, g, hg, _⟩
    cases hg
  | cons group groups ih =>
    have hrows : ∀ c ∈ policyRows rel s group key, c.1 ∈ group ∧ nodes rel s c = some (some key) :=
      fun c hc => (mem_policyRows hs.linked hfrom).mp hc
    obtain ⟨s₁, visited₁, hrun, hcut, hvisited⟩ := hr.rows (policyRows rel s group key) hs
      (fun c hc => hfree c (hrows c hc).2) fun c hc => hfits c (hrows c hc).2
    have hold : ∀ c, nodes rel s₁ c = some (some key) → nodes rel s c = some (some key) := by
      intro c hc
      rw [← hcut.pruned.eq_of_isSome (by rw [hc]; rfl)]
      exact hc
    obtain ⟨s₂, visited₂, hrest, hcut₂, hvisited₂⟩ := ih (invariant_of_cut hs hcut)
      (fun c hc k hsub hk => by
        obtain hk | hnone := hvisited k hk
        · exact hfree c (hold c hc) k (hcut.pruned.sub_old hsub) hk
        · obtain ⟨node, hnode⟩ := get_of_nodes_isSome hsub.isSome
          rw [hnone] at hnode
          cases hnode)
      fun c hc => hcut.pruned.fits (hfits c (hold c hc))
    refine ⟨s₂, visited₂, ?_, ?_, ?_⟩
    · rw [foldlM_cons]
      show (List.foldlM recurse (s, visited) _).bind _ = _
      rwa [hrun]
    · have hboth := hcut.trans hcut₂
      refine ⟨hboth.pruned.extend ?_ ?_, hboth.same⟩
      · rintro c (hc | ⟨hc, g, hg, hcg⟩)
        · exact ⟨(hrows c hc).2, group, mem_cons_self, (hrows c hc).1⟩
        · exact ⟨hold c hc, g, mem_cons_of_mem _ hg, hcg⟩
      rintro c ⟨hc, g, hg, hcg⟩
      obtain rfl | hg := mem_cons.mp hg
      · exact .inl (.inl ((mem_policyRows hs.linked hfrom).mpr ⟨hcg, hc⟩))
      obtain hnone | hsame := hcut.pruned.cases c
      · obtain hnone₂ | hsame₂ := hcut₂.pruned.cases c
        · exact .inr hnone₂
        · exact .inr (hsame₂.trans hnone)
      · exact .inl (.inr ⟨hsame.trans hc, g, hg, hcg⟩)
    · intro v hv
      obtain hv | hnone := hvisited₂ v hv
      · obtain hv | hnone := hvisited v hv
        · exact .inl hv
        right
        cases hget : s₂.get v with
        | none => rfl
        | some node =>
          rw [hcut₂.same v node hget] at hnone
          cases hnone
      · exact .inr hnone

theorem mem_policyGroups {resource : String} (h : resource ∈ rel.toResources) (side : Side) :
    ∃ g ∈ policyGroups rel side, resource ∈ g := by
  cases side with
  | server => exact ⟨[resource], mem_map.mpr ⟨resource, h, rfl⟩, mem_cons_self⟩
  | client => exact ⟨rel.toResources, mem_cons_self, h⟩

theorem no_children_of_not_from (hs : HtreeInvariant rel s)
    (hfrom : key.1 ∉ rel.fromResources) (c : Key) : nodes rel s c ≠ some (some key) := by
  intro hc
  obtain ⟨node, hnode, hparent⟩ := map_eq_some_iff.mp hc
  exact hfrom (hs.linked c node key hnode hparent).2.1

theorem cut_children_of_none (h : ∀ c, nodes rel s c ≠ some (some key)) :
    Cut rel s s fun c => nodes rel s c = some (some key) where
  pruned := cut_nil.pruned.extend (fun _ hc => hc.elim) fun c hc => absurd hc (h c)
  same _ _ h := h

theorem cascade_children (side : Side) (hpolicy : rel.onDelete = some .cascade)
    (hr : Removes rel recurse fuel) (hs : HtreeInvariant rel s)
    (hfree : ∀ c, nodes rel s c = some (some key) → ∀ k, Sub (nodes rel s) c k → k ∉ visited)
    (hfits : ∀ c, nodes rel s c = some (some key) → Fits (nodes rel s) c fuel) :
    ∃ s' visited', applyRelationDeletePolicies rel side recurse (s, visited) key =
        some (s', visited') ∧
      Cut rel s s' (fun c => nodes rel s c = some (some key)) ∧
      ∀ v ∈ visited', v ∈ visited ∨ s'.get v = none := by
  unfold applyRelationDeletePolicies
  by_cases hfrom : key.1 ∈ rel.fromResources
  · rw [if_pos hfrom, hpolicy]
    obtain ⟨s', visited', hrun, hcut, hvisited⟩ :=
      hr.groups hfrom (policyGroups rel side) hs hfree hfits
    refine ⟨s', visited', hrun, ⟨hcut.pruned.extend (fun c hc => hc.1) ?_, hcut.same⟩, hvisited⟩
    intro c hc
    obtain ⟨node, hnode, hparent⟩ := map_eq_some_iff.mp hc
    have hto := (hs.linked c node key hnode hparent).1
    exact .inl ⟨hc, mem_policyGroups hto side⟩
  · rw [if_neg hfrom]
    exact ⟨s, visited, rfl, cut_children_of_none fun c => no_children_of_not_from hs hfrom c,
      fun v hv => .inl hv⟩

/-- The recursion removes the subtree of a record when the fuel is more than its depth. -/
theorem removes_deleteRecord (side : Side) (hpolicy : rel.onDelete = some .cascade) (fuel : Nat) :
    Removes rel (deleteRecordWithRelationPolicies rel side fuel) fuel := by
  induction fuel with
  | zero =>
    intro s visited key _ _ hfits
    exact absurd hfits.1 (by omega)
  | succ fuel ih =>
    intro s visited key hs hfree hfits
    have hchildren : ∀ c, nodes rel s c = some (some key) →
        ∀ k, Sub (nodes rel s) c k → k ∉ key :: visited := by
      intro c hc k hsub hk
      obtain rfl | hk := mem_cons.mp hk
      · exact Sub.not_of_child hc hsub
      · exact hfree k (hsub.of_child hc) hk
    have hdepth : ∀ c, nodes rel s c = some (some key) → Fits (nodes rel s) c fuel := by
      intro c hc
      obtain ⟨l, hl⟩ := hs.chain (by rw [hc]; rfl)
      exact hfits.child hc hl
    obtain ⟨s', visited', hrun, hcut, hvisited⟩ :=
      cascade_children side hpolicy ih hs hchildren hdepth
    by_cases hseen : key ∈ visited
    · have hnone : nodes rel s key = none := by
        cases hnodes : nodes rel s key with
        | none => rfl
        | some parent =>
          obtain ⟨l, hl⟩ := hs.chain (by rw [hnodes]; rfl)
          exact absurd hseen (hfree key ⟨l, hl, .inl rfl⟩)
      refine ⟨s, visited, ?_, ?_, fun v hv => .inl hv⟩
      · unfold deleteRecordWithRelationPolicies
        exact if_pos hseen
      · refine ⟨cut_nil.pruned.extend (fun c hc => hc.elim) ?_, fun _ _ => id⟩
        rintro c rfl
        exact .inr hnone
    · refine ⟨s'.delete key, visited', ?_, Cut.delete hs hcut, ?_⟩
      · unfold deleteRecordWithRelationPolicies
        rw [if_neg hseen, hrun]
        rfl
      intro v hv
      rw [get_delete]
      obtain hv | hnone := hvisited v hv
      · obtain rfl | hv := mem_cons.mp hv
        · exact .inr (if_pos rfl)
        · exact .inl hv
      · right
        split
        · rfl
        · exact hnone

/-! ## Detaching -/

theorem get_foldl_detachRow (rows : List Key) (s : TreeStore) (k : Key) :
    (rows.foldl (detachRow rel) s).get k =
      if k ∈ rows then (s.get k).map (detachNode rel) else s.get k := by
  have htwice : ∀ node, detachNode rel (detachNode rel node) = detachNode rel node := by
    intro node
    unfold detachNode
    split <;> rfl
  have hrow : ∀ (s : TreeStore) (row : Key), (detachRow rel s row).get k =
      if k = row then (s.get k).map (detachNode rel) else s.get k := by
    intro s row
    unfold detachRow
    cases hget : s.get row with
    | none =>
      by_cases hk : k = row
      · rw [if_pos hk, hk]
        simp [hget]
      · rw [if_neg hk]
    | some node =>
      rw [OMap.get_set]
      by_cases hk : k = row
      · rw [if_pos hk, if_pos hk, hk, hget]
        rfl
      · rw [if_neg hk, if_neg hk]
  induction rows generalizing s with
  | nil => simp
  | cons row rows ih =>
    rw [foldl_cons, ih, hrow]
    by_cases hk : k = row
    · have hmem : k ∈ row :: rows := mem_cons.mpr (.inl hk)
      split
      · rw [Option.map_map]
        congr 1
        funext node
        exact htwice node
      · rfl
    · rw [if_neg hk]
      simp [hk]

/-- A store some of whose records are detached. -/
structure Detached (rel : HtreeRelation) (s s' : TreeStore) (at_ : Key → Prop) : Prop where
  detached : ∀ k, at_ k → s'.get k = (s.get k).map (detachNode rel)
  kept : ∀ k, ¬ at_ k → s'.get k = s.get k

theorem Detached.linked {at_ : Key → Prop} (hs : Linked rel s) (h : Detached rel s s' at_) :
    Linked rel s' := by
  intro k node parent hk hparent
  by_cases hat : at_ k
  · rw [h.detached k hat, map_eq_some_iff] at hk
    obtain ⟨old, _, rfl⟩ := hk
    cases hparent
  · rw [h.kept k hat] at hk
    exact hs k node parent hk hparent

theorem detach_groups {policy : DeletePolicy}
    (recurse : DeleteState → Key → Option DeleteState)
    (hpolicy : policy = .setNull ∨ policy = .detach) (hfrom : key.1 ∈ rel.fromResources)
    (groups : List (List String)) (visited : List Key) (hs : Linked rel s) :
    ∃ s', groups.foldlM (applyFkDeletePolicy rel policy recurse key) (s, visited) =
        some (s', visited) ∧
      Detached rel s s' fun k => nodes rel s k = some (some key) ∧ ∃ g ∈ groups, k.1 ∈ g := by
  induction groups generalizing s with
  | nil =>
    refine ⟨s, rfl, ?_, fun k _ => rfl⟩
    rintro k ⟨_, g, hg, _⟩
    cases hg
  | cons group groups ih =>
    have hrows : Detached rel s ((policyRows rel s group key).foldl (detachRow rel) s)
        fun k => k ∈ policyRows rel s group key :=
      ⟨fun k hk => by rw [get_foldl_detachRow, if_pos hk],
        fun k hk => by rw [get_foldl_detachRow, if_neg hk]⟩
    obtain ⟨s₂, hrest, hdone⟩ := ih (hrows.linked hs)
    have hmem : ∀ k, k ∈ policyRows rel s group key ↔
        k.1 ∈ group ∧ nodes rel s k = some (some key) := fun k => mem_policyRows hs hfrom
    have hsame : ∀ k, k ∉ policyRows rel s group key →
        nodes rel ((policyRows rel s group key).foldl (detachRow rel) s) k = nodes rel s k := by
      intro k hk
      unfold nodes
      rw [hrows.kept k hk]
    have hroot : ∀ k, k ∈ policyRows rel s group key →
        nodes rel ((policyRows rel s group key).foldl (detachRow rel) s) k ≠ some (some key) := by
      intro k hk hnodes
      unfold nodes at hnodes
      rw [hrows.detached k hk, Option.map_map, Option.map_eq_some_iff] at hnodes
      obtain ⟨node, _, hnone⟩ := hnodes
      cases hnone
    refine ⟨s₂, ?_, ?_, ?_⟩
    · rw [foldlM_cons]
      have hstep : applyFkDeletePolicy rel policy recurse key (s, visited) group =
          some ((policyRows rel s group key).foldl (detachRow rel) s, visited) := by
        obtain rfl | rfl := hpolicy <;> rfl
      rwa [hstep]
    · rintro k ⟨hk, g, hg, hkg⟩
      by_cases hrow : k ∈ policyRows rel s group key
      · rw [hdone.kept k fun hchild => hroot k hrow hchild.1]
        exact hrows.detached k hrow
      · obtain rfl | hg := mem_cons.mp hg
        · exact absurd ((hmem k).mpr ⟨hkg, hk⟩) hrow
        · rw [hdone.detached k ⟨(hsame k hrow).trans hk, g, hg, hkg⟩, hrows.kept k hrow]
    · intro k hk
      have hrow : k ∉ policyRows rel s group key := by
        intro hrow
        obtain ⟨hgroup, hchild⟩ := (hmem k).mp hrow
        exact hk ⟨hchild, group, mem_cons_self, hgroup⟩
      rw [hdone.kept k, hrows.kept k hrow]
      rintro ⟨hchild, g, hg, hkg⟩
      exact hk ⟨(hsame k hrow).symm.trans hchild, g, mem_cons_of_mem _ hg, hkg⟩

/-- Detaching the children of a record and deleting it keeps the invariant when none of them
has children. -/
theorem invariant_of_detached (hs : HtreeInvariant rel s)
    (h : Detached rel s s' fun k => nodes rel s k = some (some key))
    (hleaf : ∀ c, nodes rel s c = some (some key) → ∀ k, nodes rel s k ≠ some (some c)) :
    HtreeInvariant rel (s'.delete key) := by
  have hget : ∀ k node, (s'.delete key).get k = some node → k ≠ key ∧ s'.get k = some node := by
    intro k node hk
    rw [get_delete] at hk
    split at hk
    · cases hk
    · exact ⟨‹_›, hk⟩
  have hlinked := h.linked hs.linked
  constructor
  · intro k node hk
    obtain ⟨_, hk⟩ := hget k node hk
    by_cases hchild : nodes rel s k = some (some key)
    · rw [h.detached k hchild, map_eq_some_iff] at hk
      obtain ⟨old, hold, _⟩ := hk
      exact hs.named k old hold
    · rw [h.kept k hchild] at hk
      exact hs.named k node hk
  · exact fun k node parent hk hparent => hlinked k node parent (hget k node hk).2 hparent
  intro k node hk
  have hroot : nodes rel (s'.delete key) k = _ := nodes_of_get hk
  obtain ⟨hne, hk⟩ := hget k node hk
  by_cases hchild : nodes rel s k = some (some key)
  · rw [h.detached k hchild, map_eq_some_iff] at hk
    obtain ⟨old, _, rfl⟩ := hk
    exact ⟨[], .root hroot, rfl⟩
  rw [h.kept k hchild] at hk
  obtain ⟨l, hl, hpath⟩ := hs.paths k node hk
  refine ⟨l, ?_, hpath⟩
  -- the chain of a record that is no child passes neither the deleted record nor a child
  have hchain : ∀ c, c = k ∨ c ∈ l → c ≠ key ∧ nodes rel s c ≠ some (some key) := by
    intro c hc
    have hnotkey : key ∉ l := by
      intro hmem
      obtain hself | ⟨d, hd, l', hl', hdk⟩ := Sub.cases_child ⟨l, hl, .inr hmem⟩
      · exact hne hself.symm
      rw [← hl.unique hl'] at hdk
      obtain rfl | hdl := hdk
      · exact hchild hd
      · obtain hself | ⟨e, he, _⟩ := Sub.cases_child ⟨l, hl, .inr hdl⟩
        · exact hchild (hself ▸ hd)
        · exact hleaf d hd e he
    constructor
    · obtain rfl | hc := hc
      · exact hne
      · exact fun hckey => hnotkey (hckey ▸ hc)
    obtain rfl | hc := hc
    · exact hchild
    intro hcc
    have hsub : Sub (nodes rel s) key k := Sub.of_child hcc ⟨l, hl, .inr hc⟩
    obtain ⟨l', hl', hmem⟩ := hsub
    rw [← hl.unique hl'] at hmem
    obtain hmem | hmem := hmem
    · exact hne hmem.symm
    · exact hnotkey hmem
  apply hl.congr
  intro c hc
  obtain ⟨hckey, hcchild⟩ := hchain c hc
  unfold nodes
  rw [get_delete, if_neg hckey, h.kept c hcchild]

end SuperFunctions.Datafn.Relations.HtreeDelete
