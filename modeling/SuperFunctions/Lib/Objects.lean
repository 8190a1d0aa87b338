import Mathlib.Data.Finmap

/-!
# Finite objects under spread

An object is a finite map from keys to values. The lemmas characterise every operation
by the lookups of its result, so that later proofs compare objects key by key.
-/
namespace SuperFunctions.Lib.Objects

open Finmap

universe u v

variable {α : Type u} {β : Type v} [DecidableEq α]

/-- A finite map from keys to values, compared extensionally. -/
abbrev Assoc (α : Type u) (β : Type v) := Finmap (fun _ : α => β)

namespace Assoc

/-- `{ ...base, ...top }`: the keys of `top` win. -/
def spread (base top : Assoc α β) : Assoc α β := top ∪ base

theorem lookup_spread (base top : Assoc α β) (k : α) :
    (spread base top).lookup k = (top.lookup k).or (base.lookup k) := by
  unfold spread
  by_cases h : k ∈ top
  · rw [lookup_union_left h]
    obtain ⟨b, hb⟩ := mem_iff.mp h
    rw [hb, Option.some_or]
  · rw [lookup_union_right h, lookup_eq_none.mpr h, Option.none_or]

@[simp] theorem empty_spread (top : Assoc α β) : spread ∅ top = top := union_empty

theorem lookup_insert_ite (s : Assoc α β) (k k' : α) (b : β) :
    (s.insert k b).lookup k' = if k' = k then some b else s.lookup k' := by
  split
  case isTrue h => rw [h, lookup_insert]
  case isFalse h => exact lookup_insert_of_ne s h

theorem lookup_erase_ite (s : Assoc α β) (k k' : α) :
    (s.erase k).lookup k' = if k' = k then none else s.lookup k' := by
  split
  case isTrue h => rw [h, lookup_erase]
  case isFalse h => exact lookup_erase_ne h

/-- Keep the members whose key satisfies `p`. -/
def restrict (p : α → Bool) (s : Assoc α β) : Assoc α β where
  entries := s.entries.filter (fun e => p e.1)
  nodupKeys := by
    rw [← Multiset.nodup_keys]
    exact Multiset.nodup_of_le (Multiset.map_le_map (Multiset.filter_le _ _))
      (Multiset.nodup_keys.mpr s.nodupKeys)

/-- Rewrite every value, seeing its key. -/
def mapEntries {γ : Type*} (f : α → β → γ) (s : Assoc α β) : Assoc α γ where
  entries := s.entries.map (fun e => ⟨e.1, f e.1 e.2⟩)
  nodupKeys := by
    rw [← Multiset.nodup_keys, Multiset.keys, Multiset.map_map]
    exact Multiset.nodup_keys.mpr s.nodupKeys

theorem lookup_mapEntries {γ : Type*} (f : α → β → γ) (s : Assoc α β) (k : α) :
    (mapEntries f s).lookup k = (s.lookup k).map (f k) := by
  apply Option.ext
  intro c
  rw [lookup_eq_some_iff, Option.map_eq_some_iff]
  change ⟨k, c⟩ ∈ s.entries.map (fun e => (⟨e.1, f e.1 e.2⟩ : Sigma fun _ : α => γ)) ↔ _
  rw [Multiset.mem_map]
  constructor
  · rintro ⟨⟨k', b⟩, hmem, heq⟩
    cases heq
    exact ⟨b, lookup_eq_some_iff.mpr hmem, rfl⟩
  · rintro ⟨b, hlookup, rfl⟩
    exact ⟨⟨k, b⟩, lookup_eq_some_iff.mp hlookup, rfl⟩

end Assoc

end SuperFunctions.Lib.Objects
