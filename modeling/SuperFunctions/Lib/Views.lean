import Mathlib.Algebra.BigOperators.Group.List.Basic
import SuperFunctions.Lib.OrderedMap

/-!
# Views of ordered maps

The entries of a map that satisfy a predicate, and what a change of the map makes of them.
-/
namespace SuperFunctions.Lib.OrderedMap

open List

universe u v

variable {α : Type u} {β : Type v}

variable {k : α} {m : OMap α β} {v : β}

namespace OMap

variable (p : α × β → Bool)

/-- The entries of the view. -/
def view (m : OMap α β) : List (α × β) := m.entries.filter p

theorem view_filterEntries (m : OMap α β) (q : α × β → Bool) :
    (m.filterEntries q).view p = (m.view p).filter q := by
  rw [view, view, filterEntries, filter_filter, filter_filter]
  congr 1
  funext e
  exact Bool.and_comm _ _

theorem view_mapValues (m : OMap α β) {f : β → β} (hf : ∀ k v, p (k, f v) = p (k, v)) :
    (m.mapValues f).view p = (m.view p).map fun e => (e.1, f e.2) := by
  rw [view, view, mapValues, filter_map]
  congr 1
  refine filter_congr fun e _ => ?_
  exact hf e.1 e.2

variable {q : α × β → Bool}

theorem find?_view (m : OMap α β) (hq : ∀ e, q e = true → p e = true) :
    m.entries.find? q = (m.view p).find? q := by
  rw [view, find?_filter]
  congr 1
  funext e
  cases hqe : q e with
  | false => simp
  | true => simp [hq e hqe]

theorem filter_view (m : OMap α β) (hq : ∀ e, q e = true → p e = true) :
    m.entries.filter q = (m.view p).filter q := by
  rw [view, filter_filter]
  congr 1
  funext e
  cases hqe : q e with
  | false => rfl
  | true => rw [hq e hqe]; rfl

section
variable [DecidableEq α]

theorem mem_view : (k, v) ∈ m.view p ↔ m.get k = some v ∧ p (k, v) = true := by
  rw [view, mem_filter, mem_entries_iff_get]

theorem entries_set_of_get_none (v : β) (h : m.get k = none) :
    (m.set k v).entries = m.entries ++ [(k, v)] := by
  have hkey : ∀ e ∈ m.entries, e.1 ≠ k := by
    intro e he heq
    have hget := (m.mem_entries_iff_get e.1 e.2).mp he
    rw [heq, h] at hget
    cases hget
  show setEntries k v m.entries = m.entries ++ [(k, v)]
  revert hkey
  generalize m.entries = es
  intro hkey
  induction es with
  | nil => rfl
  | cons e es ih =>
    rw [setEntries, if_neg (hkey e mem_cons_self), cons_append,
      ih fun e' he' => hkey e' (mem_cons_of_mem _ he')]

theorem view_set_new (v : β) (h : m.get k = none) :
    (m.set k v).view p = m.view p ++ [(k, v)].filter p := by
  rw [view, entries_set_of_get_none v h, filter_append]
  rfl

variable {old : β}

private theorem filter_setEntries {es : List (α × β)} (hnd : (es.map Prod.fst).Nodup)
    (hmem : (k, old) ∈ es) (hold : p (k, old) = p (k, v)) :
    (setEntries k v es).filter p = if p (k, v) then setEntries k v (es.filter p) else es.filter p := by
  induction es with
  | nil => cases hmem
  | cons e es ih =>
    rw [map_cons, nodup_cons] at hnd
    rw [setEntries]
    split_ifs with he hv hv
    · have heq : e = (k, old) := by
        rcases mem_cons.mp hmem with heq | hin
        · exact heq.symm
        · exact absurd (he ▸ mem_map_of_mem (f := Prod.fst) hin) hnd.1
      rw [filter_cons_of_pos hv, heq, filter_cons_of_pos (hold.trans hv), setEntries,
        if_pos rfl]
    · have heq : e = (k, old) := by
        rcases mem_cons.mp hmem with heq | hin
        · exact heq.symm
        · exact absurd (he ▸ mem_map_of_mem (f := Prod.fst) hin) hnd.1
      rw [filter_cons_of_neg hv, heq, filter_cons_of_neg (by rw [hold]; exact hv)]
    · have hin : (k, old) ∈ es := by
        rcases mem_cons.mp hmem with heq | hin
        · rw [← heq] at he
          exact absurd rfl he
        · exact hin
      have ih' := ih hnd.2 hin
      rw [if_pos hv] at ih'
      by_cases hp : p e = true
      · rw [filter_cons_of_pos hp, filter_cons_of_pos hp, setEntries, if_neg he, ih']
      · rw [filter_cons_of_neg hp, filter_cons_of_neg hp, ih']
    · have hin : (k, old) ∈ es := by
        rcases mem_cons.mp hmem with heq | hin
        · rw [← heq] at he
          exact absurd rfl he
        · exact hin
      have ih' := ih hnd.2 hin
      rw [if_neg hv] at ih'
      by_cases hp : p e = true
      · rw [filter_cons_of_pos hp, filter_cons_of_pos hp, ih']
      · rw [filter_cons_of_neg hp, filter_cons_of_neg hp, ih']

theorem view_set_inside (h : m.get k = some old) (hold : p (k, old) = true) (hv : p (k, v) = true) :
    (m.set k v).view p = setEntries k v (m.view p) := by
  have hmem := (m.mem_entries_iff_get k old).mpr h
  rw [view, set, filter_setEntries p m.nodup hmem (by rw [hold, hv]), if_pos hv]
  rfl

theorem view_set_outside (h : m.get k = some old) (hold : p (k, old) = false)
    (hv : p (k, v) = false) : (m.set k v).view p = m.view p := by
  have hmem := (m.mem_entries_iff_get k old).mpr h
  rw [view, set, filter_setEntries p m.nodup hmem (by rw [hold, hv]), if_neg (by rw [hv]; decide)]
  rfl

theorem view_delete (m : OMap α β) (k : α) :
    (m.delete k).view p = (m.view p).filter fun e => e.1 ≠ k := by
  rw [view, view, delete, filter_filter, filter_filter]
  congr 1
  funext e
  exact Bool.and_comm _ _

theorem view_delete_outside (h : m.get k = some old) (hold : p (k, old) = false) :
    (m.delete k).view p = m.view p := by
  rw [view_delete, filter_eq_self]
  intro e he
  obtain ⟨hget, hp⟩ := (mem_view p).mp (show (e.1, e.2) ∈ m.view p from he)
  have hne : e.1 ≠ k := by
    intro heq
    rw [heq, h] at hget
    have hentry : e = (k, old) := Prod.ext heq (Option.some.inj hget).symm
    rw [hentry, hold] at hp
    cases hp
  exact decide_eq_true hne

end

end OMap

end SuperFunctions.Lib.OrderedMap

/-!
# Sums over ordered maps

Maps that agree on every key list the same entries in some order, so what is summed over their
entries is the same.
-/
namespace SuperFunctions.Lib.OrderedMap

open List

universe u v

variable {α : Type u} {β : Type v}

variable {k : α}

namespace OMap

theorem nodup_entries (m : OMap α β) : m.entries.Nodup := List.Nodup.of_map _ m.nodup

section
variable [DecidableEq α] {m : OMap α β}

theorem perm_of_get_eq {n : OMap α β} (h : ∀ k, m.get k = n.get k) : m.entries.Perm n.entries := by
  rw [perm_ext_iff_of_nodup m.nodup_entries n.nodup_entries]
  intro e
  exact ((m.mem_entries_iff_get e.1 e.2).trans (by rw [h])).trans
    (n.mem_entries_iff_get e.1 e.2).symm

theorem entries_eq_nil_iff (m : OMap α β) : m.entries = [] ↔ ∀ k, m.get k = none := by
  constructor
  · intro h k
    rw [get, h]
    rfl
  · intro h
    rw [eq_nil_iff_forall_not_mem]
    intro e he
    have hget := (m.mem_entries_iff_get e.1 e.2).mp he
    rw [h] at hget
    cases hget

theorem delete_of_get_none (h : m.get k = none) : m.delete k = m := by
  apply OMap.ext
  show m.entries.filter (fun e => e.1 ≠ k) = m.entries
  rw [filter_eq_self]
  intro e he
  have hne : e.1 ≠ k := by
    intro heq
    have hget := (m.mem_entries_iff_get e.1 e.2).mp he
    rw [heq, h] at hget
    cases hget
  exact decide_eq_true hne

/-! ## Maps filled from a list -/

theorem get_fill {ι : Type*} {key : ι → α} {val : ι → β} {xs : List ι}
    (hkeys : (xs.map key).Nodup) (m : OMap α β) (k : α) (v : β) :
    (xs.foldl (fun m x => m.set (key x) (val x)) m).get k = some v ↔
      (∃ x ∈ xs, key x = k ∧ val x = v) ∨ ((∀ x ∈ xs, key x ≠ k) ∧ m.get k = some v) := by
  induction xs generalizing m with
  | nil => simp
  | cons x rest ih =>
    rw [map_cons, nodup_cons] at hkeys
    rw [foldl_cons, ih hkeys.2, get_set]
    by_cases hk : k = key x
    · have hout : ∀ y ∈ rest, key y ≠ k := by
        intro y hy heq
        exact hkeys.1 (hk ▸ heq ▸ mem_map_of_mem hy)
      rw [if_pos hk]
      constructor
      · rintro (⟨y, hy, heq, -⟩ | ⟨-, hv⟩)
        · exact absurd heq (hout y hy)
        · exact .inl ⟨x, mem_cons_self, hk.symm, Option.some.inj hv⟩
      · rintro (⟨y, hy, heq, hv⟩ | ⟨hnone, -⟩)
        · rcases mem_cons.mp hy with rfl | hin
          · exact .inr ⟨hout, congrArg some hv⟩
          · exact absurd heq (hout y hin)
        · exact absurd hk.symm (hnone x mem_cons_self)
    · rw [if_neg hk]
      simp [Ne.symm hk]

theorem get_fill_empty {ι : Type*} {key : ι → α} {val : ι → β} {xs : List ι}
    (hkeys : (xs.map key).Nodup) (k : α) (v : β) :
    (xs.foldl (fun m x => m.set (key x) (val x)) (empty : OMap α β)).get k = some v ↔
      ∃ x ∈ xs, key x = k ∧ val x = v := by
  rw [get_fill hkeys, get_empty]
  simp

/-! ## Sums of values -/

variable {γ : Type*} [AddCommMonoid γ]

theorem sum_set_new (f : β → γ) (v : β) (h : m.get k = none) :
    ((m.set k v).values.map f).sum = (m.values.map f).sum + f v := by
  rw [values, values, entries_set_of_get_none v h, map_append, map_append,
    sum_append]
  simp

theorem sum_delete {v : β} (f : β → γ) (h : m.get k = some v) :
    (m.values.map f).sum = ((m.delete k).values.map f).sum + f v := by
  have hnone : (m.delete k).get k = none := by rw [get_delete, if_pos rfl]
  have hget : ∀ k', m.get k' = ((m.delete k).set k v).get k' := by
    intro k'
    rw [get_set, get_delete]
    split_ifs with hk
    · rw [hk, h]
    · rfl
  rw [← sum_set_new f v hnone]
  exact ((((perm_of_get_eq hget).map Prod.snd).map f)).sum_eq

/-! ## Sums by key -/

/-- Add each number to what its key has. -/
def addAll (m : OMap α γ) (cs : List (α × γ)) : OMap α γ :=
  cs.foldl (fun m c => m.modify c.1 0 (· + c.2)) m

def sumAt (k : α) (cs : List (α × γ)) : γ := ((cs.filter fun c => c.1 = k).map Prod.snd).sum

theorem get_addAll (m : OMap α γ) (cs : List (α × γ)) (k : α) :
    (m.addAll cs).get k =
      if k ∈ cs.map Prod.fst ∨ (m.get k).isSome then some ((m.get k).getD 0 + sumAt k cs)
      else none := by
  induction cs generalizing m with
  | nil =>
    simp only [addAll, foldl_nil, sumAt, filter_nil, map_nil, sum_nil, add_zero]
    cases m.get k with
    | none => simp
    | some v => simp
  | cons c cs ih =>
    have hrest := ih (m.modify c.1 0 (· + c.2))
    rw [addAll, foldl_cons]
    rw [addAll] at hrest
    rw [hrest, modify, get_set]
    by_cases hk : k = c.1
    · have hsum : sumAt k (c :: cs) = c.2 + sumAt k cs := by
        rw [sumAt, sumAt, filter_cons_of_pos (by simpa using hk.symm), map_cons,
          sum_cons]
      rw [hsum, if_pos hk, Option.isSome_some, if_pos (.inr rfl), Option.getD_some, ← hk]
      simp [hk, add_assoc]
    · have hsum : sumAt k (c :: cs) = sumAt k cs := by
        rw [sumAt, sumAt, filter_cons_of_neg (by simpa using Ne.symm hk)]
      rw [hsum, if_neg hk]
      simp only [map_cons, mem_cons, hk, false_or]

theorem get_addAll_perm {cs cs' : List (α × γ)} (h : cs.Perm cs') (k : α) :
    ((empty : OMap α γ).addAll cs).get k = (empty.addAll cs').get k := by
  have hkeys : k ∈ cs.map Prod.fst ↔ k ∈ cs'.map Prod.fst := (h.map Prod.fst).mem_iff
  have hsum : sumAt k cs = sumAt k cs' := ((h.filter _).map Prod.snd).sum_eq
  rw [get_addAll, get_addAll, hsum]
  simp only [hkeys]

end

end OMap

end SuperFunctions.Lib.OrderedMap
