import Mathlib.Data.List.Pairwise
import Mathlib.Data.List.Sort

/-!
# Stable sorting with a comparator

A comparator need only be consistent on the elements that are sorted. The sorted list is then
the only arrangement in which ties stand in their old order, so two sorts of the same elements
agree exactly when their ties agree.
-/
namespace SuperFunctions.Lib.StableSort

open List

open Nat

universe u

variable {α : Type u} {le base seen : α → α → Prop} {l l' : List α}

/-- The comparator is total and transitive on the elements of a list. -/
structure ConsistentOn (le : α → α → Prop) (l : List α) : Prop where
  total : ∀ a ∈ l, ∀ b ∈ l, le a b ∨ le b a
  trans : ∀ a ∈ l, ∀ b ∈ l, ∀ c ∈ l, le a b → le b c → le a c

theorem ConsistentOn.subset (h : ConsistentOn le l) (hl : l' ⊆ l) : ConsistentOn le l' where
  total a ha b hb := h.total a (hl ha) b (hl hb)
  trans a ha b hb c hc := h.trans a (hl ha) b (hl hb) c (hl hc)

/-- The order `le`, with its ties in the order `base`. -/
def WithTies (le base : α → α → Prop) (a b : α) : Prop := le a b ∧ (le b a → base a b)

theorem WithTies.antisymm (hbase : ∀ a b, base a b → ¬ base b a) {a b : α}
    (hab : WithTies le base a b) : ¬ WithTies le base b a :=
  fun hba => hbase a b (hab.2 hba.1) (hba.2 hab.1)

theorem pair_sublist_or {a b : α} (ha : a ∈ l) (hb : b ∈ l) (hne : a ≠ b) :
    List.Sublist [a, b] l ∨ List.Sublist [b, a] l := by
  have hpairs : l.Pairwise fun x y => List.Sublist [x, y] l ∨ List.Sublist [y, x] l :=
    pairwise_iff_forall_sublist.mpr fun h => .inl h
  have : Std.Symm fun x y => List.Sublist [x, y] l ∨ List.Sublist [y, x] l := ⟨fun _ _ h => h.symm⟩
  exact hpairs.forall ha hb hne

theorem rel_or_of_pairwise {R : α → α → Prop} (h : l.Pairwise R) {a b : α} (ha : a ∈ l)
    (hb : b ∈ l) (hne : a ≠ b) : R a b ∨ R b a := by
  obtain hab | hba := pair_sublist_or ha hb hne
  · exact .inl (pairwise_iff_forall_sublist.mp h hab)
  · exact .inr (pairwise_iff_forall_sublist.mp h hba)

section Comparator

variable [DecidableRel le]

theorem pairwise_orderedInsert {a : α} (hc : ConsistentOn le (a :: l))
    (ha : ∀ b ∈ l, base a b) (hl : l.Pairwise (WithTies le base)) :
    (l.orderedInsert le a).Pairwise (WithTies le base) := by
  induction l with
  | nil => exact pairwise_singleton _ a
  | cons b l ih =>
    obtain ⟨hb, hrest⟩ := pairwise_cons.mp hl
    rw [orderedInsert_cons]
    split
    case isTrue hab =>
      refine pairwise_cons.mpr ⟨fun x hx => ⟨?_, fun _ => ha x hx⟩, hl⟩
      obtain rfl | hx := mem_cons.mp hx
      · exact hab
      · exact hc.trans a mem_cons_self b (by simp) x (by simp [hx]) hab (hb x hx).1
    case isFalse hab =>
      have hba : le b a := (hc.total a mem_cons_self b (by simp)).resolve_left hab
      have hc' : ConsistentOn le (a :: l) := by
        apply hc.subset
        intro x hx
        rw [mem_cons] at hx ⊢
        exact hx.imp_right (mem_cons_of_mem b)
      refine pairwise_cons.mpr ⟨fun x hx => ?_,
        ih hc' (fun x hx => ha x (mem_cons_of_mem b hx)) hrest⟩
      obtain rfl | hx := (mem_orderedInsert le).mp hx
      · exact ⟨hba, fun h => absurd h hab⟩
      · exact hb x hx

/-- Sorting is stable: ties keep the order in which the list has them. -/
theorem pairwise_insertionSort (hc : ConsistentOn le l) (hl : l.Pairwise base) :
    (l.insertionSort le).Pairwise (WithTies le base) := by
  induction l with
  | nil => exact List.Pairwise.nil
  | cons a l ih =>
    obtain ⟨ha, hl⟩ := pairwise_cons.mp hl
    have hsorted := ih (hc.subset (subset_cons_self a l)) hl
    apply pairwise_orderedInsert
    · apply hc.subset
      intro x hx
      rw [mem_cons] at hx ⊢
      exact hx.imp_right (mem_insertionSort le).mp
    · intro b hb
      exact ha b ((mem_insertionSort le).mp hb)
    · exact hsorted

theorem pairwise_lt_insertionSort {β : Type*} [LinearOrder β] (key : α → β) {l : List α}
    (h : l.Pairwise fun a b => key a ≠ key b) :
    (l.insertionSort fun a b => key a ≤ key b).Pairwise fun a b => key a < key b := by
  have hc : ConsistentOn (fun a b => key a ≤ key b) l :=
    ⟨fun a _ b _ => le_total _ _, fun a _ b _ c _ => le_trans⟩
  refine (pairwise_insertionSort hc h).imp fun {a b} hab => ?_
  obtain hlt | heq := lt_or_eq_of_le hab.1
  · exact hlt
  · exact absurd heq (hab.2 heq.ge)

theorem eq_insertionSort (hc : ConsistentOn le l) (hbase : ∀ a b, base a b → ¬ base b a)
    (hl : l.Pairwise base) (hperm : l'.Perm l) (hl' : l'.Pairwise (WithTies le base)) :
    l' = l.insertionSort le := by
  apply List.Perm.eq_of_pairwise (fun a b _ _ hab hba => ?_) hl' (pairwise_insertionSort hc hl)
    (hperm.trans (perm_insertionSort le l).symm)
  exact absurd hba (hab.antisymm hbase)

theorem nodup_of_asymm (hbase : ∀ a b, base a b → ¬ base b a) (hl : l.Pairwise base) : l.Nodup :=
  hl.imp fun {a b} hab (heq : a = b) => hbase a b hab (heq ▸ hab)

variable (hc : ConsistentOn le l) (hbase : ∀ a b, base a b → ¬ base b a) (hl : l.Pairwise base)
  (hseen : ∀ a b, seen a b → ¬ seen b a) (hl' : l'.Pairwise seen)
include hc hbase hl hseen hl'

/-- A list is the sort of another exactly when it has the same elements and meets them in
sorted order. -/
theorem eq_insertionSort_iff : l' = l.insertionSort le ↔
    (∀ a, a ∈ l' ↔ a ∈ l) ∧ ∀ a ∈ l, ∀ b ∈ l, WithTies le base a b → seen a b := by
  constructor
  · intro heq
    have hmem : ∀ a, a ∈ l' ↔ a ∈ l := fun a => by rw [heq, mem_insertionSort]
    have hsorted : l'.Pairwise (WithTies le base) := heq ▸ pairwise_insertionSort hc hl
    refine ⟨hmem, fun a ha b hb hab => ?_⟩
    have hne : a ≠ b := fun h => (hab.antisymm hbase) (h ▸ hab)
    obtain h | h := pair_sublist_or ((hmem a).mpr ha) ((hmem b).mpr hb) hne
    · exact pairwise_iff_forall_sublist.mp hl' h
    · exact absurd (pairwise_iff_forall_sublist.mp hsorted h) (hab.antisymm hbase)
  · rintro ⟨hmem, horder⟩
    have hperm : l'.Perm l := (perm_ext_iff_of_nodup (nodup_of_asymm hseen hl')
      (nodup_of_asymm hbase hl)).mpr hmem
    apply eq_insertionSort hc hbase hl hperm
    refine pairwise_iff_forall_sublist.mpr fun {a b} hab => ?_
    have hseenab := pairwise_iff_forall_sublist.mp hl' hab
    have ha : a ∈ l := (hmem a).mp (hab.subset mem_cons_self)
    have hb : b ∈ l := (hmem b).mp (hab.subset (by simp))
    have hne : a ≠ b := fun h => hseen a b hseenab (h ▸ hseenab)
    -- the sorted list has the two in one order; the other order would be seen the other way
    obtain h | h := rel_or_of_pairwise (pairwise_insertionSort hc hl)
      ((mem_insertionSort le).mpr ha) ((mem_insertionSort le).mpr hb) hne
    · exact h
    · exact absurd (horder b hb a ha h) (hseen a b hseenab)

/-- Two sorts are equal exactly when the lists have the same elements and meet ties in the
same order. -/
theorem insertionSort_eq_iff : l'.insertionSort le = l.insertionSort le ↔
    (∀ a, a ∈ l' ↔ a ∈ l) ∧ ∀ a ∈ l, ∀ b ∈ l, le a b → le b a → base a b → seen a b := by
  constructor
  · intro heq
    have hmem : ∀ a, a ∈ l' ↔ a ∈ l := fun a => by
      rw [← mem_insertionSort le, heq, mem_insertionSort]
    refine ⟨hmem, fun a ha b hb hab hba hbaseab => ?_⟩
    have hne : a ≠ b := fun h => hbase a b hbaseab (h ▸ hbaseab)
    obtain h | h := pair_sublist_or ((hmem a).mpr ha) ((hmem b).mpr hb) hne
    · exact pairwise_iff_forall_sublist.mp hl' h
    · have hsub := pair_sublist_insertionSort hba h
      rw [heq] at hsub
      have hties := pairwise_iff_forall_sublist.mp (pairwise_insertionSort hc hl) hsub
      exact absurd (hties.2 hab) (hbase a b hbaseab)
  · rintro ⟨hmem, horder⟩
    have hperm : l'.Perm l := (perm_ext_iff_of_nodup (nodup_of_asymm hseen hl')
      (nodup_of_asymm hbase hl)).mpr hmem
    apply eq_insertionSort hc hbase hl ((perm_insertionSort le l').trans hperm)
    have hties : l'.Pairwise fun a b => le a b → le b a → base a b := by
      refine pairwise_iff_forall_sublist.mpr fun {a b} hsub hab hba => ?_
      have hseenab := pairwise_iff_forall_sublist.mp hl' hsub
      have ha : a ∈ l := (hmem a).mp (hsub.subset mem_cons_self)
      have hb : b ∈ l := (hmem b).mp (hsub.subset (by simp))
      have hne : a ≠ b := fun h => hseen a b hseenab (h ▸ hseenab)
      obtain h | h := rel_or_of_pairwise hl ha hb hne
      · exact h
      · exact absurd (horder b hb a ha hba hab h) (hseen a b hseenab)
    exact (pairwise_insertionSort (hc.subset fun a ha => (hmem a).mp ha) hties).imp
      fun h => ⟨h.1, fun hba => h.2 hba h.1 hba⟩

end Comparator

/-! ## Sorting in parts -/

section Parts

variable [DecidableRel le]

/-- Two sorted lists in one, the first before the second where they tie. -/
def mergeSorted (le : α → α → Prop) [DecidableRel le] (l l' : List α) : List α :=
  l.merge l' fun a b => decide (le a b)

theorem orderedInsert_mergeSorted (a : α) : ∀ l l' : List α, ConsistentOn le (a :: (l ++ l')) →
    (mergeSorted le l l').orderedInsert le a = mergeSorted le (l.orderedInsert le a) l'
  | [], [], _ | x :: l, [], _ => by simp [mergeSorted]
  | [], y :: l', hc => by
    have ih := orderedInsert_mergeSorted a [] l' (hc.subset fun z => by simp; tauto)
    simp only [mergeSorted, nil_merge, orderedInsert_nil] at ih ⊢
    by_cases hay : le a y
    · simp [hay]
    · simp [hay, ih]
  | x :: l, y :: l', hc => by
    have ihl := orderedInsert_mergeSorted a l (y :: l') (hc.subset fun z => by simp; tauto)
    have ihr := orderedInsert_mergeSorted a (x :: l) l' (hc.subset fun z => by simp; tauto)
    have htrans : le a x → le x y → le a y := hc.trans a (by simp) x (by simp) y (by simp)
    have hback : ¬ le a x → le a y → le x y := fun hax =>
      hc.trans x (by simp) a (by simp) y (by simp)
        ((hc.total a (by simp) x (by simp)).resolve_left hax)
    simp only [mergeSorted] at ihl ihr ⊢
    -- the head of the merge is compared first; `a` stands before it on both sides or on neither
    by_cases hxy : le x y <;> by_cases hax : le a x
    · simp [hxy, hax, htrans hax hxy]
    · simp [hxy, hax, ihl]
    · by_cases hay : le a y
      · simp [hxy, hax, hay]
      · simpa [hxy, hax, hay] using ihr
    · have hay : ¬ le a y := fun hay => hxy (hback hax hay)
      simpa [hxy, hax, hay] using ihr

theorem insertionSort_append : ∀ l l' : List α, ConsistentOn le (l ++ l') →
    (l ++ l').insertionSort le = mergeSorted le (l.insertionSort le) (l'.insertionSort le)
  | [], l', _ => by simp [mergeSorted]
  | a :: l, l', hc => by
    have ih := insertionSort_append l l' (hc.subset (subset_cons_self a _))
    rw [cons_append, insertionSort_cons, insertionSort_cons, ih]
    apply orderedInsert_mergeSorted
    apply hc.subset
    intro z hz
    simpa using hz

/-- The first elements of a merge come from the first elements of its lists. -/
theorem take_mergeSorted {n m k : Nat} (hm : n ≤ m) (hk : n ≤ k) (l l' : List α) :
    (mergeSorted le (l.take m) (l'.take k)).take n = (mergeSorted le l l').take n := by
  induction n generalizing m k l l' with
  | zero => rfl
  | succ n ih =>
    obtain ⟨m, rfl⟩ : ∃ m', m = m' + 1 := ⟨m - 1, by omega⟩
    obtain ⟨k, rfl⟩ : ∃ k', k = k' + 1 := ⟨k - 1, by omega⟩
    simp only [mergeSorted] at ih ⊢
    match l, l' with
    | [], l' => simp [take_take, min_eq_left hk]
    | x :: l, [] => simp [take_take, min_eq_left (le_of_succ_le_succ hm)]
    | x :: l, y :: l' =>
      rw [take_succ_cons, take_succ_cons, cons_merge_cons, cons_merge_cons]
      split
      · have hrest := ih (m := m) (k := k + 1) (by omega) (by omega) l (y :: l')
        rw [take_succ_cons] at hrest
        rw [take_succ_cons, take_succ_cons, hrest]
      · have hrest := ih (m := m + 1) (k := k) (by omega) (by omega) (x :: l) l'
        rw [take_succ_cons] at hrest
        rw [take_succ_cons, take_succ_cons, hrest]

/-- The first elements of all parts are found among the first elements of each part. -/
theorem take_insertionSort_parts {n m : Nat} (h : n ≤ m) : ∀ parts : List (List α),
    ConsistentOn le parts.flatten →
    ((parts.flatMap fun part => (part.insertionSort le).take m).insertionSort le).take n =
      (parts.flatten.insertionSort le).take n
  | [], _ => rfl
  | part :: parts, hc => by
    have hpart : ConsistentOn le part := hc.subset fun z => by simp; tauto
    have ih := take_insertionSort_parts h parts (hc.subset fun z => by simp; tauto)
    have hcut : ConsistentOn le (((part.insertionSort le).take m) ++
        parts.flatMap fun part => (part.insertionSort le).take m) := by
      apply hc.subset
      intro z hz
      rw [mem_append, mem_flatMap] at hz
      rw [flatten_cons, mem_append, mem_flatten]
      rcases hz with hz | ⟨other, hother, hz⟩
      · exact .inl ((mem_insertionSort le).mp (mem_of_mem_take hz))
      · exact .inr ⟨other, hother, (mem_insertionSort le).mp (mem_of_mem_take hz)⟩
    have hsorted : ((part.insertionSort le).take m).insertionSort le =
        (part.insertionSort le).take m := by
      apply List.Pairwise.insertionSort_eq
      have hall : part.Pairwise fun _ _ => True := pairwise_of_forall fun _ _ => trivial
      have hpairs := (pairwise_insertionSort hpart hall).imp fun h => h.1
      exact hpairs.sublist (take_sublist _ _)
    rw [flatMap_cons, flatten_cons, insertionSort_append _ _ hcut,
      insertionSort_append _ _ hc, hsorted,
      ← take_mergeSorted (le_refl n) (le_refl n), ih, take_take,
      min_eq_left h, take_mergeSorted (le_refl n) (le_refl n)]

end Parts

/-! ## Strict comparators -/

/-- The comparator is a strict total order on the elements of a list. -/
structure StrictOn (cmp : α → α → Ordering) (l : List α) : Prop where
  swap : ∀ a ∈ l, ∀ b ∈ l, cmp b a = (cmp a b).swap
  apart : l.Pairwise fun a b => cmp a b ≠ .eq
  trans : ∀ a ∈ l, ∀ b ∈ l, ∀ c ∈ l, cmp a b = .lt → cmp b c = .lt → cmp a c = .lt

namespace StrictOn

variable {cmp : α → α → Ordering}

theorem eq_of_eq (h : StrictOn cmp l) {a b : α} (ha : a ∈ l) (hb : b ∈ l)
    (heq : cmp a b = .eq) : a = b := by
  by_contra hne
  rcases rel_or_of_pairwise h.apart ha hb hne with hab | hba
  · exact hab heq
  · apply hba
    rw [h.swap a ha b hb, heq]
    rfl

theorem consistentOn (h : StrictOn cmp l) : ConsistentOn (fun a b => cmp a b ≠ .gt) l where
  total a ha b hb := by
    rw [h.swap a ha b hb]
    cases cmp a b <;> decide
  trans a ha b hb c hc hab hbc := by
    cases hone : cmp a b with
    | gt => exact absurd hone hab
    | eq => rwa [h.eq_of_eq ha hb hone]
    | lt =>
      cases htwo : cmp b c with
      | gt => exact absurd htwo hbc
      | eq => rwa [← h.eq_of_eq hb hc htwo]
      | lt =>
        rw [h.trans a ha b hb c hc hone htwo]
        decide

/-- A strict comparator sorts every arrangement of the elements into one list. -/
theorem insertionSort_perm [DecidableRel fun a b => cmp a b ≠ .gt] (h : StrictOn cmp l)
    (hperm : l'.Perm l) :
    l'.insertionSort (fun a b => cmp a b ≠ .gt) = l.insertionSort fun a b => cmp a b ≠ .gt := by
  have hsorted : ∀ m : List α, m ⊆ l →
      (m.insertionSort fun a b => cmp a b ≠ .gt).Pairwise fun a b => cmp a b ≠ .gt := by
    intro m hm
    have hall : m.Pairwise fun _ _ => True := pairwise_of_forall fun _ _ => trivial
    exact (pairwise_insertionSort (h.consistentOn.subset hm) hall).imp fun h => h.1
  apply List.Perm.eq_of_pairwise (fun a b ha hb hab hba => ?_) (hsorted l' hperm.subset)
    (hsorted l fun a ha => ha)
    ((perm_insertionSort _ l').trans (hperm.trans (perm_insertionSort _ l).symm))
  have ha := hperm.subset ((mem_insertionSort _).mp ha)
  have hb := (mem_insertionSort _).mp hb
  apply h.eq_of_eq ha hb
  rw [h.swap a ha b hb] at hba
  cases hcmp : cmp a b with
  | lt => rw [hcmp] at hba; exact absurd rfl hba
  | gt => exact absurd hcmp hab
  | eq => rfl

end StrictOn

/-! ## Each element once -/

theorem nodup_eraseDups {α : Type} [DecidableEq α] : ∀ l : List α, l.eraseDups.Nodup
  | [] => by simp
  | a :: l => by
    rw [List.eraseDups_cons, List.nodup_cons]
    refine ⟨?_, nodup_eraseDups _⟩
    simp [List.mem_eraseDups]
termination_by l => l.length
decreasing_by
  have hle := List.length_filter_le (fun b => !b == a) l
  simp only [List.length_cons]
  omega

end SuperFunctions.Lib.StableSort
