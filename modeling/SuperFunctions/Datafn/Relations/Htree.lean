import SuperFunctions.Datafn.Core.Value
import SuperFunctions.Lib.Forest
import SuperFunctions.Lib.OrderedMap
import SuperFunctions.Lib.Processes

/-!
# Hierarchical relations

The records of an `htree` relation with their parent and their materialized path, and the three
mutations that change them. The server and the client keep the tree with nearly the same code;
`Side` tells where they differ.
-/
namespace SuperFunctions.Datafn.Relations.Htree

open Lib.OrderedMap Lib.Transition Datafn.Core

inductive Side where
  | server
  | client
  deriving DecidableEq

inductive DeletePolicy where
  | restrict
  | cascade
  | setNull
  | detach

/-- The relation, its delete policy on the side of the parent, and the resources of the schema
with their id prefixes. -/
structure HtreeRelation where
  fromResources : List String
  toResources : List String
  onDelete : Option DeletePolicy
  resources : List (String × Option String)

/-- The resource and the id of a record. -/
abbrev Key := String × String

/-- The fields of a record that the relation maintains. -/
structure Node where
  parentId : Option String
  parentResource : Option String
  path : Option String
  deriving DecidableEq

abbrev TreeStore := OMap Key Node

/-! ## Endpoints -/

def endpointIsPolymorphic (endpoint : List String) : Bool := 1 < endpoint.length

/-- `resourceNameFromId` -/
def resourceNameFromId (id : String) : Option String :=
  let name := id.toList.takeWhile (· ≠ ':')
  if name ≠ [] ∧ ':' ∈ id.toList then some (String.ofList name) else none

/-- The candidate with the longest prefix, the first of several. -/
def longestPrefix (candidates : List (String × String)) : Option (String × String) :=
  candidates.foldl (fun best candidate =>
    match best with
    | none => some candidate
    | some b => if b.2.length < candidate.2.length then some candidate else some b) none

def resolveEndpointResource (rel : HtreeRelation) (endpoint : List String) (id : String) :
    Option String :=
  match endpoint with
  | [resource] => some resource
  | _ =>
    let candidates := (rel.resources.filter fun r => r.1 ∈ endpoint).map
      fun r => (r.1, r.2.getD (r.1 ++ ":"))
    match longestPrefix (candidates.filter fun candidate => startsWith id candidate.2) with
    | some candidate => some candidate.1
    | none => (resourceNameFromId id).filter fun name => name ∈ endpoint

/-! ## Paths -/

def joinHtreePath (parentPath : Option String) (parentId : String) : String :=
  if parentId = "" then ""
  else
    match parentPath with
    | some path => if path = "" then parentId else path ++ "-" ++ parentId
    | none => parentId

/-- The path is the old prefix or goes on after it with a dash. -/
def matchesPrefix (oldPrefix path : String) : Bool :=
  path == oldPrefix || startsWith path (oldPrefix ++ "-")

def rewritePath (oldPrefix newPrefix path : String) : String :=
  newPrefix ++ String.ofList (path.toList.drop oldPrefix.toList.length)

def updateHtreeDescendantPaths (s : TreeStore)
    (resource childId oldChildPath newChildPath : String) : TreeStore :=
  let oldPrefix := joinHtreePath (some oldChildPath) childId
  let newPrefix := joinHtreePath (some newChildPath) childId
  s.mapEntries fun key node =>
    match node.path with
    | some path =>
      if key.1 = resource ∧ matchesPrefix oldPrefix path = true then
        { node with path := some (rewritePath oldPrefix newPrefix path) }
      else node
    | none => node

/-- The arguments of one call of `setHtreeParent`. -/
structure Move where
  resource : String
  childId : String
  parentId : Option String
  parentResource : Option String

namespace Move

variable (m : Move)

def child : Key := (m.resource, m.childId)

/-- Where the parent is looked up. -/
def parent : Option Key := m.parentId.map fun id => (m.parentResource.getD m.resource, id)

def newChildPath (s : TreeStore) : String :=
  match m.parent with
  | some parent => joinHtreePath ((s.get parent).bind Node.path) parent.2
  | none => ""

def newChild (rel : HtreeRelation) (s : TreeStore) (child : Node) : Node where
  parentId := m.parentId
  parentResource :=
    if endpointIsPolymorphic rel.fromResources then m.parentResource else child.parentResource
  path := some (m.newChildPath s)

end Move

/-- A record that is not there makes the server's update fail; the client returns. -/
def setHtreeParent (rel : HtreeRelation) (side : Side) (s : TreeStore) (m : Move) :
    Option TreeStore :=
  match s.get m.child with
  | some child =>
    some (updateHtreeDescendantPaths (s.set m.child (m.newChild rel s child)) m.resource m.childId
      (child.path.getD "") (m.newChildPath s))
  | none =>
    match side with
    | .server => none
    | .client => some s

/-! ## `relate` and `unrelate` -/

/-- The calls of `relate`: the parent is the mutation's record in the forward direction. -/
def relateMoves (rel : HtreeRelation) (isForward : Bool) (resource id : String)
    (items : List String) : List Move :=
  items.map fun toId =>
    if isForward then ⟨rel.toResources.headD "", toId, some id, some resource⟩
    else ⟨rel.fromResources.headD "", id, some toId,
      resolveEndpointResource rel rel.fromResources toId⟩

def unrelateMoves (rel : HtreeRelation) (isForward : Bool) (id : String) (items : List String) :
    List Move :=
  items.map fun toId =>
    if isForward then ⟨rel.toResources.headD "", toId, none, none⟩
    else ⟨rel.fromResources.headD "", id, none, none⟩

/-- `validateRelationTargets`, which only the server calls. -/
def validateRelationTargets (rel : HtreeRelation) (isForward : Bool) (s : TreeStore)
    (items : List String) : Bool :=
  let endpoint := if isForward then rel.toResources else rel.fromResources
  items.all fun toId =>
    match resolveEndpointResource rel endpoint toId with
    | some resource => (s.get (resource, toId)).isSome
    | none => false

/-! ## `delete` -/

/-- The store and the visited records of a delete under way. -/
abbrev DeleteState := TreeStore × List Key

/-- The rows of `resources` that reference the deleted record. -/
def policyRows (rel : HtreeRelation) (s : TreeStore) (resources : List String) (deleted : Key) :
    List Key :=
  resources.flatMap fun resource =>
    (s.entries.filter fun e => e.1.1 = resource ∧ e.2.parentId = some deleted.2 ∧
      (endpointIsPolymorphic rel.fromResources = true →
        e.2.parentResource = some deleted.1)).map Prod.fst

/-- The server lists and handles the rows resource by resource, the client all at once. -/
def policyGroups (rel : HtreeRelation) : Side → List (List String)
  | .server => rel.toResources.map fun resource => [resource]
  | .client => [rel.toResources]

def detachNode (rel : HtreeRelation) (node : Node) : Node where
  parentId := none
  parentResource :=
    if endpointIsPolymorphic rel.fromResources then none else node.parentResource
  path := some ""

def detachRow (rel : HtreeRelation) (s : TreeStore) (row : Key) : TreeStore :=
  match s.get row with
  | some node => s.set row (detachNode rel node)
  | none => s

/-- `applyFkDeletePolicy` for one group; `recurse` deletes a record with its policies. -/
def applyFkDeletePolicy (rel : HtreeRelation) (policy : DeletePolicy)
    (recurse : DeleteState → Key → Option DeleteState) (deleted : Key) (st : DeleteState)
    (resources : List String) : Option DeleteState :=
  let rows := policyRows rel st.1 resources deleted
  match policy with
  | .restrict => if rows = [] then some st else none
  | .setNull | .detach => some (rows.foldl (detachRow rel) st.1, st.2)
  | .cascade => rows.foldlM recurse st

def applyRelationDeletePolicies (rel : HtreeRelation) (side : Side)
    (recurse : DeleteState → Key → Option DeleteState) (st : DeleteState) (deleted : Key) :
    Option DeleteState :=
  if deleted.1 ∈ rel.fromResources then
    match rel.onDelete with
    | some policy =>
      (policyGroups rel side).foldlM (applyFkDeletePolicy rel policy recurse deleted) st
    | none => some st
  else some st

/-- `deleteRecordWithRelationPolicies`; the fuel bounds the depth of the recursion. -/
def deleteRecordWithRelationPolicies (rel : HtreeRelation) (side : Side) :
    Nat → DeleteState → Key → Option DeleteState
  | 0, _, _ => none
  | fuel + 1, st, key =>
    if key ∈ st.2 then some st
    else
      (applyRelationDeletePolicies rel side (deleteRecordWithRelationPolicies rel side fuel)
        (st.1, key :: st.2) key).map fun done => (done.1.delete key, done.2)

/-- The server does not mark the record itself as visited, and skips one that is not there. -/
def executeDelete (rel : HtreeRelation) (side : Side) (s : TreeStore) (key : Key) :
    Option TreeStore :=
  let recurse := deleteRecordWithRelationPolicies rel side (s.entries.length + 1)
  match side with
  | .server =>
    match s.get key with
    | some _ =>
      (applyRelationDeletePolicies rel side recurse (s, []) key).map fun done =>
        done.1.delete key
    | none => some s
  | .client => (recurse (s, []) key).map Prod.fst

/-! ## Mutations -/

inductive HtreeMutation where
  | relate (isForward : Bool) (resource id : String) (items : List String)
  | unrelate (isForward : Bool) (id : String) (items : List String)
  | delete (resource id : String)

/-- A mutation that is refused has no next state: its transaction is rolled back. -/
def htreeStep (rel : HtreeRelation) (side : Side) (s : TreeStore) : HtreeMutation → Option TreeStore
  | .relate isForward resource id items =>
    if side = .server ∧ validateRelationTargets rel isForward s items = false then none
    else run (setHtreeParent rel side) s (relateMoves rel isForward resource id items)
  | .unrelate isForward id items =>
    run (setHtreeParent rel side) s (unrelateMoves rel isForward id items)
  | .delete resource id => executeDelete rel side s (resource, id)

end SuperFunctions.Datafn.Relations.Htree

/-!
# The paths of a hierarchical relation

Every record's path is the joined ids of its ancestors from the root. A move keeps this when the
rewritten paths are those of the moved record's descendants and the new parent is none of them;
a delete keeps it when no grandchildren are left behind.
-/
namespace SuperFunctions.Datafn.Relations.HtreePaths

open Lib.Forest Lib.OrderedMap Htree List Option

/-! ## Joined ids -/

/-- The joined ids of a chain. -/
def pathOf (l : List Key) : String := l.foldl (fun path key => joinHtreePath (some path) key.2) ""

/-- What the ids of a chain add to the path above them. -/
def suffixOf : List Key → String
  | [] => ""
  | key :: l => "-" ++ key.2 ++ suffixOf l

theorem joinHtreePath_getD (path : Option String) (id : String) :
    joinHtreePath path id = joinHtreePath (some (path.getD "")) id := by
  cases path with
  | none => simp [joinHtreePath]
  | some path => rfl

theorem joinHtreePath_ne_empty {path : Option String} {id : String} (h : id ≠ "") :
    joinHtreePath path id ≠ "" := by
  unfold joinHtreePath
  rw [if_neg h]
  cases path with
  | none => exact h
  | some path =>
    simp only
    split
    case isTrue => exact h
    case isFalse hpath =>
      intro hjoined
      rw [String.append_eq_empty_iff] at hjoined
      exact h hjoined.2

theorem pathOf_concat (l : List Key) (key : Key) :
    pathOf (l ++ [key]) = joinHtreePath (some (pathOf l)) key.2 := by
  simp [pathOf]

theorem pathOf_append {a : List Key} (ha : pathOf a ≠ "") (b : List Key)
    (hb : ∀ key ∈ b, key.2 ≠ "") : pathOf (a ++ b) = pathOf a ++ suffixOf b := by
  induction b generalizing a with
  | nil => simp [suffixOf]
  | cons key b ih =>
    have hkey : key.2 ≠ "" := hb key mem_cons_self
    have hjoined : pathOf (a ++ [key]) = pathOf a ++ "-" ++ key.2 := by
      rw [pathOf_concat, joinHtreePath, if_neg hkey]
      exact if_neg ha
    have hne : pathOf (a ++ [key]) ≠ "" := by
      rw [pathOf_concat]
      exact joinHtreePath_ne_empty hkey
    have hrest := ih hne fun k hk => hb k (mem_cons_of_mem _ hk)
    rw [append_assoc, singleton_append] at hrest
    rw [hrest, hjoined, suffixOf]
    simp [String.append_assoc]

variable {key : Key}

theorem pathOf_ne_empty {a b : List Key} (h : ∀ k ∈ a ++ key :: b, k.2 ≠ "") :
    pathOf (a ++ key :: b) ≠ "" := by
  have hkey : key.2 ≠ "" := h key (mem_append_right a mem_cons_self)
  have hne : pathOf (a ++ [key]) ≠ "" := by
    rw [pathOf_concat]
    exact joinHtreePath_ne_empty hkey
  have hsplit := pathOf_append hne b fun k hk =>
    h k (mem_append_right a (mem_cons_of_mem _ hk))
  rw [append_assoc, singleton_append] at hsplit
  rw [hsplit]
  intro hempty
  rw [String.append_eq_empty_iff] at hempty
  exact hne hempty.1

theorem rewritePath_append (oldPrefix newPrefix suffix : String) :
    rewritePath oldPrefix newPrefix (oldPrefix ++ suffix) = newPrefix ++ suffix := by
  simp [rewritePath]

/-- The path below a node follows the prefix of the node. -/
theorem rewritePath_pathOf {above above' below : List Key} (hkey : key.2 ≠ "")
    (hbelow : ∀ k ∈ below, k.2 ≠ "") :
    rewritePath (pathOf (above ++ [key])) (pathOf (above' ++ [key])) (pathOf (above ++ key :: below)) =
      pathOf (above' ++ key :: below) := by
  have hsplit : ∀ l, pathOf (l ++ key :: below) = pathOf (l ++ [key]) ++ suffixOf below := by
    intro l
    have hne : pathOf (l ++ [key]) ≠ "" := by
      rw [pathOf_concat]
      exact joinHtreePath_ne_empty hkey
    rw [← pathOf_append hne below hbelow, append_assoc, singleton_append]
  rw [hsplit above, hsplit above', rewritePath_append]

/-! ## The invariant -/

/-- The record a node's foreign key names. -/
def parentKey (rel : HtreeRelation) (node : Node) : Option Key :=
  node.parentId.map fun id =>
    (if endpointIsPolymorphic rel.fromResources then node.parentResource.getD ""
      else rel.fromResources.headD "", id)

def nodes (rel : HtreeRelation) (s : TreeStore) (key : Key) : Option (Option Key) :=
  (s.get key).map (parentKey rel)

theorem from_eq_of_not_polymorphic {rel : HtreeRelation} {resource : String}
    (h : endpointIsPolymorphic rel.fromResources = false)
    (hmem : resource ∈ rel.fromResources) : rel.fromResources.headD "" = resource := by
  simp only [endpointIsPolymorphic, decide_eq_false_iff_not, Nat.not_lt] at h
  cases hlist : rel.fromResources with
  | nil =>
    rw [hlist] at hmem
    cases hmem
  | cons r rest =>
    rw [hlist, length_cons] at h
    have hrest : rest = [] := eq_nil_of_length_eq_zero (by omega)
    rw [hlist, hrest, mem_singleton] at hmem
    rw [headD_cons, hmem]

/-- Every record has a chain of ancestors, and its path is their joined ids. -/
structure HtreeInvariant (rel : HtreeRelation) (s : TreeStore) : Prop where
  named : ∀ key node, s.get key = some node → key.2 ≠ ""
  linked : ∀ key node parent, s.get key = some node → parentKey rel node = some parent →
    key.1 ∈ rel.toResources ∧ parent.1 ∈ rel.fromResources ∧
      (endpointIsPolymorphic rel.fromResources = true → node.parentResource = some parent.1)
  paths : ∀ key node, s.get key = some node →
    ∃ l, Chain (nodes rel s) key l ∧ node.path.getD "" = pathOf l

section Invariant

variable {rel : HtreeRelation} {s : TreeStore}

theorem nodes_of_get {node : Node} (h : s.get key = some node) :
    nodes rel s key = some (parentKey rel node) := by
  simp [nodes, h]

theorem get_of_nodes_isSome (h : (nodes rel s key).isSome = true) :
    ∃ node, s.get key = some node := by
  simpa [nodes, isSome_iff_exists] using h

theorem HtreeInvariant.named_of_chain (hs : HtreeInvariant rel s) {l : List Key}
    (h : Chain (nodes rel s) key l) : ∀ k ∈ l, k.2 ≠ "" := by
  intro k hk
  obtain ⟨node, hnode⟩ := get_of_nodes_isSome (h.mem_isSome hk)
  exact hs.named k node hnode

theorem HtreeInvariant.chain (hs : HtreeInvariant rel s) (h : (nodes rel s key).isSome = true) :
    ∃ l, Chain (nodes rel s) key l := by
  obtain ⟨node, hnode⟩ := get_of_nodes_isSome h
  obtain ⟨l, hl, _⟩ := hs.paths key node hnode
  exact ⟨l, hl⟩

end Invariant

/-! ## Moving a record -/

def oldChildPath (s : TreeStore) (m : Move) : String := ((s.get m.child).bind Node.path).getD ""

def oldPrefix (s : TreeStore) (m : Move) : String :=
  joinHtreePath (some (oldChildPath s m)) m.childId

/-- The new parent is a record that `from` lists and is not in the moved subtree, and the paths
of the child's resource that match its old prefix are exactly those of its descendants. -/
structure MoveSound (rel : HtreeRelation) (s : TreeStore) (m : Move) : Prop where
  parent : ∀ parent ∈ m.parent, m.resource ∈ rel.toResources ∧ parent.1 ∈ rel.fromResources ∧
    m.parentResource = some parent.1 ∧ (s.get parent).isSome = true ∧
      ¬ Sub (nodes rel s) m.child parent
  rewritten : ∀ key node path, s.get key = some node → node.path = some path → key ≠ m.child →
    ((key.1 = m.resource ∧ matchesPrefix (oldPrefix s m) path = true) ↔
      Sub (nodes rel s) m.child key)
  kept : matchesPrefix (oldPrefix s m) (m.newChildPath s) = false

section Move

variable {rel : HtreeRelation} {side : Side} {s s' : TreeStore} {m : Move}

/-- What the rewrite loop makes of a record. -/
def rewriteNode (s : TreeStore) (m : Move) (key : Key) (node : Node) : Node :=
  match node.path with
  | some path =>
    if key.1 = m.resource ∧ matchesPrefix (oldPrefix s m) path = true then
      { node with
        path := some (rewritePath (oldPrefix s m)
          (joinHtreePath (some (m.newChildPath s)) m.childId) path) }
    else node
  | none => node

variable {child : Node}

theorem get_setHtreeParent (hchild : s.get m.child = some child)
    (h : setHtreeParent rel side s m = some s') (key : Key) :
    s'.get key = ((if key = m.child then some (m.newChild rel s child) else s.get key).map
      (rewriteNode s m key)) := by
  unfold setHtreeParent at h
  rw [hchild] at h
  cases h
  have hold : child.path.getD "" = oldChildPath s m := by simp [oldChildPath, hchild]
  rw [updateHtreeDescendantPaths, OMap.get_mapEntries, OMap.get_set, hold]
  rfl

theorem parentKey_rewriteNode (key : Key) (node : Node) :
    parentKey rel (rewriteNode s m key node) = parentKey rel node := by
  unfold rewriteNode
  split
  · split <;> rfl
  · rfl

theorem parentResource_rewriteNode (key : Key) (node : Node) :
    (rewriteNode s m key node).parentResource = node.parentResource := by
  unfold rewriteNode
  split
  · split <;> rfl
  · rfl

theorem parentKey_newChild (hm : MoveSound rel s m) (child : Node) :
    parentKey rel (m.newChild rel s child) = m.parent := by
  cases hparent : m.parentId with
  | none => simp [parentKey, Move.newChild, Move.parent, hparent]
  | some id =>
    have hp : m.parent = some (m.parentResource.getD m.resource, id) := by
      simp [Move.parent, hparent]
    obtain ⟨_, hfrom, hresource, _, _⟩ := hm.parent _ hp
    simp only [parentKey, Move.newChild, hparent, map_some, hp]
    cases hpoly : endpointIsPolymorphic rel.fromResources with
    | true =>
      rw [if_pos rfl, if_pos rfl, hresource]
      rfl
    | false => rw [if_neg (by simp), from_eq_of_not_polymorphic hpoly hfrom]

theorem nodes_setHtreeParent (hm : MoveSound rel s m) (hchild : s.get m.child = some child)
    (h : setHtreeParent rel side s m = some s') (key : Key) :
    nodes rel s' key = if key = m.child then some m.parent else nodes rel s key := by
  unfold nodes
  rw [get_setHtreeParent hchild h key]
  split
  case isTrue hkey =>
    simp [parentKey_rewriteNode, parentKey_newChild hm]
  case isFalse hkey =>
    cases s.get key with
    | none => rfl
    | some node => simp [parentKey_rewriteNode]

theorem chain_newChild (hs : HtreeInvariant rel s) (hm : MoveSound rel s m)
    (hchild : s.get m.child = some child) (h : setHtreeParent rel side s m = some s') :
    ∃ l, Chain (nodes rel s') m.child l ∧ m.newChildPath s = pathOf l := by
  have hnodes := nodes_setHtreeParent hm hchild h
  have hself : nodes rel s' m.child = some m.parent := by rw [hnodes, if_pos rfl]
  cases hparent : m.parent with
  | none =>
    rw [hparent] at hself
    exact ⟨[], .root hself, by simp [Move.newChildPath, hparent, pathOf]⟩
  | some parent =>
    rw [hparent] at hself
    obtain ⟨_, _, _, hexists, hbelow⟩ := hm.parent parent hparent
    obtain ⟨node, hnode⟩ := isSome_iff_exists.mp hexists
    obtain ⟨l, hl, hpath⟩ := hs.paths parent node hnode
    have hl' : Chain (nodes rel s') parent l := by
      apply hl.congr
      intro c hc
      rw [hnodes c, if_neg]
      intro hcm
      apply hbelow
      refine ⟨l, hl, ?_⟩
      rwa [← hcm]
    refine ⟨l ++ [parent], .child hself hl', ?_⟩
    rw [pathOf_concat, ← hpath]
    simp only [Move.newChildPath, hparent, hnode, bind_some]
    exact joinHtreePath_getD node.path parent.2

theorem HtreeInvariant.setHtreeParent (hs : HtreeInvariant rel s) (hm : MoveSound rel s m)
    (h : setHtreeParent rel side s m = some s') : HtreeInvariant rel s' := by
  cases hchild : s.get m.child with
  | none =>
    unfold Htree.setHtreeParent at h
    rw [hchild] at h
    cases side with
    | server => cases h
    | client =>
      cases h
      exact hs
  | some child =>
    have hget := get_setHtreeParent hchild h
    have hnodes := nodes_setHtreeParent hm hchild h
    have hne : ∀ k, k ≠ m.child → nodes rel s' k = nodes rel s k := by
      intro k hk
      rw [hnodes, if_neg hk]
    obtain ⟨above, habove, hpath⟩ := hs.paths m.child child hchild
    have hchildId : m.childId ≠ "" := hs.named m.child child hchild
    have hold : oldPrefix s m = pathOf (above ++ [m.child]) := by
      rw [pathOf_concat, ← hpath]
      unfold oldPrefix oldChildPath
      rw [hchild]
      rfl
    obtain ⟨above', habove', hpath'⟩ := chain_newChild hs hm hchild h
    constructor
    · intro key node hkey
      rw [hget, map_eq_some_iff] at hkey
      obtain ⟨old, hkeyold, _⟩ := hkey
      by_cases hkm : key = m.child
      · rwa [hkm]
      · rw [if_neg hkm] at hkeyold
        exact hs.named key old hkeyold
    · intro key node parent hkey hparent
      rw [hget, map_eq_some_iff] at hkey
      obtain ⟨old, hkeyold, rfl⟩ := hkey
      rw [parentKey_rewriteNode] at hparent
      rw [parentResource_rewriteNode]
      by_cases hkm : key = m.child
      · rw [if_pos hkm] at hkeyold
        cases hkeyold
        rw [parentKey_newChild hm] at hparent
        obtain ⟨hto, hfrom, hresource, _, _⟩ := hm.parent parent hparent
        rw [hkm]
        refine ⟨hto, hfrom, fun hpoly => ?_⟩
        simp only [Move.newChild]
        rw [if_pos hpoly, hresource]
      · rw [if_neg hkm] at hkeyold
        exact hs.linked key old parent hkeyold hparent
    · intro key node hkey
      rw [hget, map_eq_some_iff] at hkey
      obtain ⟨old, hkeyold, rfl⟩ := hkey
      by_cases hkm : key = m.child
      · -- the rewrite loop passes the moved record by
        rw [if_pos hkm] at hkeyold
        cases hkeyold
        refine ⟨above', hkm ▸ habove', ?_⟩
        simp only [rewriteNode, Move.newChild, hm.kept]
        rwa [if_neg (by simp)]
      · rw [if_neg hkm] at hkeyold
        obtain ⟨l, hl, hpathl⟩ := hs.paths key old hkeyold
        by_cases hbelow : m.child ∈ l
        · -- a descendant: its chain and its path go through the moved record
          obtain ⟨above₂, below, rfl, habove₂⟩ := hl.split hbelow
          cases habove.unique habove₂
          refine ⟨above' ++ m.child :: below, habove'.moved hne hl below rfl, ?_⟩
          have hnamed := hs.named_of_chain hl
          have hnonempty := pathOf_ne_empty hnamed
          cases hoptional : old.path with
          | none =>
            rw [hoptional] at hpathl
            exact absurd hpathl.symm hnonempty
          | some path =>
            rw [hoptional] at hpathl
            have hmatches := (hm.rewritten key old path hkeyold hoptional hkm).mpr
              ⟨_, hl, .inr hbelow⟩
            simp only [rewriteNode, hoptional]
            rw [if_pos hmatches]
            simp only [getD_some] at hpathl ⊢
            rw [hpathl, hold, hpath', show joinHtreePath (some (pathOf above')) m.childId =
              pathOf (above' ++ [m.child]) from (pathOf_concat above' m.child).symm]
            exact rewritePath_pathOf hchildId fun k hk =>
              hnamed k (mem_append_right above (mem_cons_of_mem _ hk))
        · -- outside of the moved subtree nothing changes
          have hl' : Chain (nodes rel s') key l := by
            apply hl.congr
            rintro c (rfl | hc)
            · exact hne c hkm
            · exact hne c fun hcm => hbelow (hcm ▸ hc)
          refine ⟨l, hl', ?_⟩
          have hunmatched : rewriteNode s m key old = old := by
            unfold rewriteNode
            split
            case h_1 path hoptional =>
              rw [if_neg]
              intro hmatches
              obtain ⟨l₂, hl₂, hmem⟩ := (hm.rewritten key old path hkeyold hoptional hkm).mp hmatches
              rw [← hl.unique hl₂] at hmem
              obtain hmem | hmem := hmem
              · exact hkm hmem.symm
              · exact hbelow hmem
            case h_2 => rfl
          rwa [hunmatched]

end Move

end SuperFunctions.Datafn.Relations.HtreePaths
