import Mathlib.Data.List.Sort
import Mathlib.Data.List.TakeWhile
import SuperFunctions.Datafn.Core.Schema
import SuperFunctions.Datafn.Core.Value

/-!
# Effective principals

The principals an actor acts as: its memberships, their ancestors in the principal hierarchy, and
the actor itself. The walk over the hierarchy throws at a cycle and below the maximal depth.
-/
namespace SuperFunctions.Datafn.Server.Principals

open Datafn.Core List

/-! ## Tables -/

/-- `row.revokedAt === undefined || row.revokedAt === null` -/
def isGrantActive (revokedAt : Option Value) : Bool :=
  match revokedAt with
  | none => true
  | some .null => true
  | some _ => false

structure MembershipRow where
  actorId : String
  principalId : Option Value
  revokedAt : Option Value
  deriving DecidableEq

structure HierarchyRow where
  principalId : String
  parentPrincipalId : Option Value
  revokedAt : Option Value
  deriving DecidableEq

/-- The membership and hierarchy rows of a namespace. -/
structure PrincipalTables where
  memberships : List MembershipRow
  hierarchy : List HierarchyRow
  deriving DecidableEq

/-! ## Names -/

/-- `normalizePrincipal` of a string. -/
def normalizePrincipal (value : String) : Option String :=
  if trim value = "" then none else some (trim value)

/-- `canonicalizePrincipalFromUserId`, under its several names. -/
def canonicalizePrincipalFromUserId (userId : String) : String :=
  if ':' ∈ userId.toList then userId else "user:" ++ userId

def canonicalizeActorPrincipal (actorId : String) : String :=
  match normalizePrincipal actorId with
  | none => "user:"
  | some normalized => canonicalizePrincipalFromUserId normalized

/-- `uniqueSorted` -/
def uniqueSorted (rt : Runtime) (values : List String) : List String :=
  values.eraseDups.insertionSort fun a b => rt.localeCompare a b ≠ .gt

/-! ## The walk -/

/-- What the handler's cache holds for the namespace. Nothing in the source invalidates it. -/
structure ResolverCache where
  parents : String → Option (List String)
  resolved : String → Option (List String)

def emptyCache : ResolverCache := ⟨fun _ => none, fun _ => none⟩

def getDirectMemberships (t : PrincipalTables) (actorId : String) : List String :=
  (t.memberships.filter fun row => row.actorId = actorId ∧ isGrantActive row.revokedAt).filterMap
    fun row =>
      match row.principalId with
      | some (.str principalId) => normalizePrincipal principalId
      | _ => none

/-- The parents of one principal, from the cache when it has them. -/
def loadParents (rt : Runtime) (cache : ResolverCache) (t : PrincipalTables)
    (principalId : String) : List String :=
  match cache.parents principalId with
  | some parents => parents
  | none =>
    uniqueSorted rt ((t.hierarchy.filter fun row =>
      row.principalId = principalId ∧ isGrantActive row.revokedAt ∧
        normalizePrincipal row.principalId = some principalId).filterMap fun row =>
          match row.parentPrincipalId with
          | some (.str parent) => normalizePrincipal parent
          | _ => none)

/-- The principals found, in order, and those whose parents have been walked. -/
structure Walk where
  effective : List String
  expanded : List String

def addPrincipal (effective : List String) (principalId : String) : List String :=
  if principalId ∈ effective then effective else effective ++ [principalId]

/-- `walk`; the number is how many levels may still be entered. -/
def walk (parents : String → List String) : Nat → List String → Walk → String → Option Walk
  | 0, _, _, _ => none
  | levels + 1, expanding, w, principalId =>
    if principalId ∈ w.expanded then some w
    else if principalId ∈ expanding then none
    else
      ((parents principalId).foldlM (fun w parent =>
        if parent ∈ principalId :: expanding then none
        else
          walk parents levels (principalId :: expanding)
            { w with effective := addPrincipal w.effective parent } parent) w).map fun w =>
              { w with expanded := principalId :: w.expanded }

def maxDepth : Nat := 16

def resolveEffectivePrincipals (rt : Runtime) (cache : ResolverCache) (t : PrincipalTables)
    (actorId : String) : Option (List String) :=
  match cache.resolved actorId with
  | some principals => some principals
  | none =>
    let direct := uniqueSorted rt (getDirectMemberships t actorId)
    (direct.foldlM (walk (loadParents rt cache t) maxDepth []) ⟨direct, []⟩).map fun w =>
      addPrincipal w.effective (canonicalizeActorPrincipal actorId)

/-! ## No principal is blank -/

theorem trim_ne_empty {s : String} (h : ∃ c ∈ s.toList, isSpace c = false) : trim s ≠ "" := by
  intro htrim
  have hnil : (s.toList.dropWhile isSpace).reverse.dropWhile isSpace = [] := by
    have := congrArg String.toList htrim
    simpa [trim] using this
  have hall := dropWhile_eq_nil_iff.mp hnil
  obtain ⟨c, hc, hspace⟩ := h
  by_cases hfront : s.toList.dropWhile isSpace = []
  · have hc' := dropWhile_eq_nil_iff.mp hfront c hc
    rw [hspace] at hc'
    cases hc'
  · have hhead := head_dropWhile_not isSpace hfront
    have hhead' := hall _ (mem_reverse.mpr (head_mem hfront))
    rw [hhead] at hhead'
    cases hhead'

theorem exists_of_trim_ne_empty {s : String} (h : trim s ≠ "") :
    ∃ c ∈ (trim s).toList, isSpace c = false := by
  have hne : (s.toList.dropWhile isSpace).reverse.dropWhile isSpace ≠ [] := by
    intro hnil
    apply h
    simp [trim, hnil]
  refine ⟨_, ?_, head_dropWhile_not isSpace hne⟩
  rw [trim, String.toList_ofList, mem_reverse]
  exact head_mem hne

/-- The principal has a name that is not white space. -/
def IsNamed (principalId : String) : Prop := (normalizePrincipal principalId).isSome = true

variable {principalId : String}

theorem isNamed_of_char (h : ∃ c ∈ principalId.toList, isSpace c = false) :
    IsNamed principalId := by
  unfold IsNamed normalizePrincipal
  rw [if_neg (trim_ne_empty h)]
  rfl

theorem isNamed_of_normalized {value : String} (h : normalizePrincipal value = some principalId) :
    IsNamed principalId := by
  unfold normalizePrincipal at h
  split at h
  · cases h
  case isFalse hne =>
    cases h
    exact isNamed_of_char (exists_of_trim_ne_empty hne)

theorem isNamed_actor (actorId : String) : IsNamed (canonicalizeActorPrincipal actorId) := by
  have hcanonical : ∀ name, IsNamed (canonicalizePrincipalFromUserId name) := by
    intro name
    apply isNamed_of_char
    unfold canonicalizePrincipalFromUserId
    split
    case isTrue hcolon => exact ⟨':', hcolon, by decide⟩
    case isFalse => exact ⟨'u', by rw [String.toList_append]; simp, by decide⟩
  unfold canonicalizeActorPrincipal
  split
  · exact isNamed_of_char ⟨'u', by simp, by decide⟩
  · exact hcanonical _

variable {t : PrincipalTables} {rt : Runtime}

theorem isNamed_parent {parent : String} (h : parent ∈ loadParents rt emptyCache t principalId) :
    IsNamed parent := by
  simp only [loadParents, emptyCache, uniqueSorted, mem_insertionSort, mem_eraseDups,
    mem_filterMap] at h
  obtain ⟨row, _, hrow⟩ := h
  split at hrow
  · exact isNamed_of_normalized hrow
  · cases hrow

theorem isNamed_membership {actorId : String} (h : principalId ∈ getDirectMemberships t actorId) :
    IsNamed principalId := by
  obtain ⟨row, _, hrow⟩ := mem_filterMap.mp h
  split at hrow
  · exact isNamed_of_normalized hrow
  · cases hrow

theorem addPrincipal_named {effective : List String} (h : ∀ p ∈ effective, IsNamed p)
    (hp : IsNamed principalId) : ∀ p ∈ addPrincipal effective principalId, IsNamed p := by
  unfold addPrincipal
  split
  · exact h
  intro p hmem
  obtain hmem | hmem := mem_append.mp hmem
  · exact h p hmem
  · rwa [mem_singleton.mp hmem]

theorem foldlM_preserves {α β : Type} (inv : β → Prop) {step : β → α → Option β} {l : List α}
    (hstep : ∀ b, ∀ a ∈ l, ∀ b', inv b → step b a = some b' → inv b') {b b' : β}
    (hb : inv b) (h : l.foldlM step b = some b') : inv b' := by
  induction l generalizing b with
  | nil =>
    cases h
    exact hb
  | cons a l ih =>
    obtain ⟨m, hm, hrest⟩ := Option.bind_eq_some_iff.mp h
    exact ih (fun b a ha => hstep b a (mem_cons_of_mem _ ha))
      (hstep b a mem_cons_self m hb hm) hrest

theorem walk_named {parents : String → List String}
    (hparents : ∀ p, ∀ parent ∈ parents p, IsNamed parent) (levels : Nat) :
    ∀ (expanding : List String) (w w' : Walk) (principalId : String),
      (∀ p ∈ w.effective, IsNamed p) → walk parents levels expanding w principalId = some w' →
        ∀ p ∈ w'.effective, IsNamed p := by
  induction levels with
  | zero =>
    exact nofun
  | succ levels ih =>
    intro expanding w w' principalId hw h
    rw [walk] at h
    split at h
    · cases h
      exact hw
    split at h
    · cases h
    obtain ⟨done, hdone, rfl⟩ := Option.map_eq_some_iff.mp h
    have hdone' := foldlM_preserves (fun w : Walk => ∀ p ∈ w.effective, IsNamed p) ?_ hw hdone
    · exact hdone'
    intro w parent hparent w' hw hstep
    split at hstep
    · cases hstep
    · exact ih _ _ _ _ (addPrincipal_named hw (hparents principalId parent hparent)) hstep

theorem resolveEffectivePrincipals_named {actorId : String} {principals : List String}
    (h : resolveEffectivePrincipals rt emptyCache t actorId = some principals) :
    ∀ p ∈ principals, IsNamed p := by
  obtain ⟨done, hdone, rfl⟩ := Option.map_eq_some_iff.mp h
  apply addPrincipal_named _ (isNamed_actor actorId)
  refine foldlM_preserves (fun w : Walk => ∀ p ∈ w.effective, IsNamed p) ?_ ?_ hdone
  · intro w p _ w' hw hstep
    exact walk_named (fun p parent hparent => isNamed_parent hparent) maxDepth _ _ _ _ hw hstep
  · intro p hp
    simp only [uniqueSorted, mem_insertionSort, mem_eraseDups] at hp
    exact isNamed_membership hp

end SuperFunctions.Datafn.Server.Principals
