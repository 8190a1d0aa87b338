import Mathlib.Algebra.GroupWithZero.Nat
import Mathlib.Data.List.Nodup

/-!
# Insertion-ordered maps

A map that lists its entries in the order in which their keys were first set. Setting an
existing key keeps its place. Distinctness of the keys is part of the value.
-/
namespace SuperFunctions.Lib.OrderedMap

open List

open Option

universe u v

/-- Keys of two names. -/
instance lawfulPair : LawfulBEq (String × String) := inferInstance

variable {α : Type u} {β : Type v} [DecidableEq α]

/-- The entries in insertion order, one for each key. -/
@[ext] structure OMap (α : Type u) (β : Type v) where
  entries : List (α × β)
  nodup : (entries.map Prod.fst).Nodup

/-- Overwrite the entry of `k` in place, or append it. -/
def setEntries (k : α) (v : β) : List (α × β) → List (α × β)
  | [] => [(k, v)]
  | e :: es => if e.1 = k then (k, v) :: es else e :: setEntries k v es

theorem mem_keys_setEntries (k a : α) (v : β) (es : List (α × β)) :
    a ∈ (setEntries k v es).map Prod.fst ↔ a = k ∨ a ∈ es.map Prod.fst := by
  induction es with
  | nil => simp [setEntries]
  | cons e es ih =>
    simp only [setEntries]
    split
    case isTrue h => simp [h]
    case isFalse h =>
      rw [map_cons, mem_cons, ih, map_cons, mem_cons]
      tauto

theorem nodup_setEntries (k : α) (v : β) {es : List (α × β)}
    (h : (es.map Prod.fst).Nodup) : ((setEntries k v es).map Prod.fst).Nodup := by
  induction es with
  | nil => simp [setEntries]
  | cons e es ih =>
    rw [map_cons, nodup_cons] at h
    simp only [setEntries]
    split
    case isTrue he => rw [map_cons, nodup_cons]; exact ⟨he ▸ h.1, h.2⟩
    rename_i he
    rw [map_cons, nodup_cons]
    refine ⟨fun hm => ?_, ih h.2⟩
    rcases (mem_keys_setEntries k e.1 v es).mp hm with hk | hk
    · exact he hk
    · exact h.1 hk

namespace OMap

instance [DecidableEq β] : DecidableEq (OMap α β) := fun m n =>
  decidable_of_iff (m.entries = n.entries) ⟨OMap.ext, congrArg OMap.entries⟩

/-- `new Map()` -/
def empty : OMap α β := ⟨[], List.nodup_nil⟩

/-- `map.get(k)` -/
def get (m : OMap α β) (k : α) : Option β := (m.entries.find? (fun e => e.1 = k)).map Prod.snd

/-- `map.set(k, v)` -/
def set (m : OMap α β) (k : α) (v : β) : OMap α β :=
  ⟨setEntries k v m.entries, nodup_setEntries k v m.nodup⟩

/-- `map.delete(k)` -/
def delete (m : OMap α β) (k : α) : OMap α β where
  entries := m.entries.filter (fun e => e.1 ≠ k)
  nodup := m.nodup.sublist ((List.filter_sublist).map _)

/-- The entries that satisfy `p`, in their order. -/
def filterEntries (p : α × β → Bool) (m : OMap α β) : OMap α β where
  entries := m.entries.filter p
  nodup := m.nodup.sublist ((List.filter_sublist).map _)

/-- `[...map.values()]` -/
def values (m : OMap α β) : List β := m.entries.map Prod.snd

/-- `[...map.keys()]` -/
def keys (m : OMap α β) : List α := m.entries.map Prod.fst

@[simp] theorem get_empty (k : α) : (empty : OMap α β).get k = none := rfl

theorem get_set (m : OMap α β) (k k' : α) (v : β) :
    (m.set k v).get k' = if k' = k then some v else m.get k' := by
  obtain ⟨es, hnd⟩ := m
  simp only [get, set]
  clear hnd
  induction es with
  | nil =>
    by_cases h : k' = k
    · simp [setEntries, h]
    · simp [setEntries, h, Ne.symm h]
  | cons e es ih =>
    simp only [setEntries]
    by_cases he : e.1 = k
    · by_cases h : k' = k
      · simp [he, h]
      · simp [he, h, Ne.symm h]
    · by_cases h : e.1 = k'
      · have hk : k' ≠ k := fun hh => he (h.trans hh)
        simp [h, hk]
      · simp [he, h, ih]

theorem set_of_get {m : OMap α β} {k : α} {v : β} (h : m.get k = some v) : m.set k v = m := by
  obtain ⟨es, hnd⟩ := m
  apply OMap.ext
  show setEntries k v es = es
  simp only [get] at h
  clear hnd
  induction es with
  | nil => cases h
  | cons e es ih =>
    rw [setEntries]
    split_ifs with he
    · rw [find?_cons_of_pos (by simpa using he)] at h
      have hv : e.2 = v := some.inj h
      rw [← he, ← hv]
    · rw [find?_cons_of_neg (by simpa using he)] at h
      rw [ih h]

theorem get_delete (m : OMap α β) (k k' : α) :
    (m.delete k).get k' = if k' = k then none else m.get k' := by
  obtain ⟨es, hnd⟩ := m
  simp only [get, delete]
  clear hnd
  induction es with
  | nil => simp
  | cons e es ih =>
    by_cases he : e.1 = k
    · by_cases h : k' = k
      · simp [he, h]
      · simpa [he, h, Ne.symm h] using ih
    · by_cases h : e.1 = k'
      · have hk : k' ≠ k := fun hh => he (h.trans hh)
        simp [h, hk]
      · simpa [he, h] using ih

theorem mem_entries_iff_get (m : OMap α β) (k : α) (v : β) :
    (k, v) ∈ m.entries ↔ m.get k = some v := by
  obtain ⟨es, hnd⟩ := m
  simp only [get]
  induction es with
  | nil => simp
  | cons e es ih =>
    rw [map_cons, nodup_cons] at hnd
    by_cases he : e.1 = k
    · have hout : (k, v) ∉ es := fun hm =>
        hnd.1 (he ▸ mem_map_of_mem (f := Prod.fst) hm)
      subst he
      simp only [mem_cons, hout, or_false, find?_cons, decide_true, map_some,
        some.injEq]
      constructor
      · intro h
        rw [← h]
      · intro h
        rw [← h]
    · have hne : (k, v) ≠ e := fun h => he (by rw [← h])
      simp [hne, he, ih hnd.2]

theorem mem_keys_iff_get (m : OMap α β) (k : α) : k ∈ m.keys ↔ (m.get k).isSome := by
  rw [keys, List.mem_map, isSome_iff_exists]
  constructor
  · rintro ⟨⟨k', v⟩, hm, rfl⟩
    exact ⟨v, (m.mem_entries_iff_get _ v).mp hm⟩
  · rintro ⟨v, hv⟩
    exact ⟨(k, v), (m.mem_entries_iff_get k v).mpr hv, rfl⟩

/-- Rewrite every value in place. -/
def mapValues {γ : Type*} (f : β → γ) (m : OMap α β) : OMap α γ where
  entries := m.entries.map fun e => (e.1, f e.2)
  nodup := by
    rw [List.map_map]
    exact m.nodup

theorem get_mapValues {γ : Type*} (f : β → γ) (m : OMap α β) (k : α) :
    (m.mapValues f).get k = (m.get k).map f := by
  unfold get mapValues
  rw [List.find?_map, Option.map_map, Option.map_map]
  rfl

/-- Rewrite every value in place, seeing its key. -/
def mapEntries {γ : Type*} (f : α → β → γ) (m : OMap α β) : OMap α γ where
  entries := m.entries.map fun e => (e.1, f e.1 e.2)
  nodup := by
    rw [List.map_map]
    exact m.nodup

theorem get_mapEntries {γ : Type*} (f : α → β → γ) (m : OMap α β) (k : α) :
    (m.mapEntries f).get k = (m.get k).map (f k) := by
  unfold get mapEntries
  rw [List.find?_map, Option.map_map, Option.map_map]
  show Option.map _ (m.entries.find? fun e => e.1 = k) = _
  cases h : m.entries.find? (fun e => decide (e.1 = k)) with
  | none => rfl
  | some e =>
    have hk := List.find?_some h
    rw [decide_eq_true_eq] at hk
    simp [hk]

/-- Rewrite the value of `k`, which starts as `d`. -/
def modify (m : OMap α β) (k : α) (d : β) (f : β → β) : OMap α β := m.set k (f ((m.get k).getD d))

theorem getD_modify (m : OMap α β) (k k' : α) (d : β) (f : β → β) :
    ((m.modify k d f).get k').getD d =
      if k' = k then f ((m.get k').getD d) else (m.get k').getD d := by
  unfold modify
  rw [get_set]
  by_cases h : k' = k
  · rw [if_pos h, if_pos h, h, getD_some]
  · rw [if_neg h, if_neg h]

theorem mem_values_iff_get (m : OMap α β) (v : β) : v ∈ m.values ↔ ∃ k, m.get k = some v := by
  unfold values
  rw [List.mem_map]
  constructor
  · rintro ⟨⟨k, w⟩, hmem, rfl⟩
    exact ⟨k, (m.mem_entries_iff_get k w).mp hmem⟩
  · rintro ⟨k, hk⟩
    exact ⟨(k, v), (m.mem_entries_iff_get k v).mpr hk, rfl⟩

theorem find?_none_of_not_mem {es : List (α × β)} {k : α} (h : k ∉ es.map Prod.fst) :
    es.find? (fun e => decide (e.1 = k)) = none := by
  rw [find?_eq_none]
  intro e he hkey
  rw [decide_eq_true_eq] at hkey
  exact h (hkey ▸ mem_map_of_mem he)

theorem filterMap_values {δ : Type*} (f : β → Option δ) (k : α) (m : OMap α β)
    (hf : ∀ a v, m.get a = some v → a ≠ k → f v = none) :
    m.values.filterMap f = (m.get k).toList.filterMap f := by
  have hentries : ∀ a v, (a, v) ∈ m.entries → a ≠ k → f v = none :=
    fun a v hmem => hf a v ((m.mem_entries_iff_get a v).mp hmem)
  obtain ⟨es, hnd⟩ := m
  simp only [values, get]
  clear hf
  induction es with
  | nil => rfl
  | cons e es ih =>
    rw [map_cons, nodup_cons] at hnd
    have hrest := ih hnd.2 fun a v hmem => hentries a v (mem_cons_of_mem _ hmem)
    rw [map_cons, filterMap_cons, find?_cons, hrest]
    by_cases he : e.1 = k
    · rw [find?_none_of_not_mem (he ▸ hnd.1), decide_eq_true he]
      cases hf : f e.2 <;> simp [hf]
    · have hother : f e.2 = none := hentries e.1 e.2 mem_cons_self he
      rw [hother, decide_eq_false he]

/-- Where each entry decides what becomes of its key, an entry of the map decides for its own. -/
theorem get_foldl_entries {γ : Type*} {f : β → Option γ} {step : OMap α γ → α × β → OMap α γ}
    (hstep : ∀ m e k, (step m e).get k = if k = e.1 then f e.2 else m.get k) (m : OMap α β)
    (acc : OMap α γ) (k : α) : (m.entries.foldl step acc).get k =
      match m.get k with
      | some v => f v
      | none => acc.get k := by
  obtain ⟨es, hnd⟩ := m
  simp only [get]
  induction es generalizing acc with
  | nil => rfl
  | cons e es ih =>
    rw [map_cons, nodup_cons] at hnd
    have hrest := ih (step acc e) hnd.2
    have hown := hstep acc e k
    simp only [get] at hrest hown
    rw [foldl_cons, hrest, hown, find?_cons]
    by_cases he : e.1 = k
    · rw [find?_none_of_not_mem (he ▸ hnd.1), decide_eq_true he, if_pos he.symm]
      rfl
    · rw [decide_eq_false he, if_neg fun h => he h.symm]

/-- Where an entry is only set under a key that has none, the first of each key stays. -/
theorem get_foldl_new {γ : Type*} {step : OMap α β → γ → OMap α β} (key : γ → α) (value : γ → β)
    (hstep : ∀ m c, step m c = if (m.get (key c)).isSome then m else m.set (key c) (value c))
    (cs : List γ) (m : OMap α β) (k : α) :
    (cs.foldl step m).get k = (m.get k).or ((cs.find? fun c => key c = k).map value) := by
  induction cs generalizing m with
  | nil => rw [foldl_nil, find?_nil, map_none, or_none]
  | cons c cs ih =>
    rw [foldl_cons, ih, find?_cons, hstep]
    by_cases hkey : key c = k
    · subst hkey
      cases hget : m.get (key c) with
      | some old => simp [hget]
      | none => simp [get_set]
    · rw [decide_eq_false hkey]
      split
      · rfl
      · rw [get_set, if_neg (Ne.symm hkey)]

/-- Set all entries of `upper`. -/
def setAll (m upper : OMap α β) : OMap α β := upper.entries.foldl (fun m e => m.set e.1 e.2) m

theorem get_setAll (m upper : OMap α β) (k : α) :
    (m.setAll upper).get k = (upper.get k).or (m.get k) := by
  rw [setAll, get_foldl_entries (f := some) fun m e k => get_set m e.1 k e.2]
  cases upper.get k <;> rfl

section Lists

variable {γ : Type*}

/-- `map[k].push(v)`, where a missing list starts empty. -/
def push (m : OMap α (List γ)) (k : α) (v : γ) : OMap α (List γ) := m.modify k [] (· ++ [v])

theorem getD_push (m : OMap α (List γ)) (k k' : α) (v : γ) :
    ((m.push k v).get k').getD [] =
      if k' = k then (m.get k').getD [] ++ [v] else (m.get k').getD [] :=
  getD_modify m k k' [] (· ++ [v])

/-- The members of all lists, each with its key. -/
def flatten (m : OMap α (List γ)) : List (α × γ) :=
  m.entries.flatMap fun e => e.2.map fun v => (e.1, v)

theorem filterMap_flatten {δ : Type*} (f : α → γ → Option δ) (k : α)
    (hf : ∀ a v, a ≠ k → f a v = none) (m : OMap α (List γ)) :
    m.flatten.filterMap (fun e => f e.1 e.2) = ((m.get k).getD []).filterMap (f k) := by
  obtain ⟨es, hnd⟩ := m
  simp only [flatten, get]
  induction es with
  | nil => rfl
  | cons e es ih =>
    rw [map_cons, nodup_cons] at hnd
    rw [flatMap_cons, filterMap_append, filterMap_map, ih hnd.2, find?_cons]
    by_cases he : e.1 = k
    · rw [find?_none_of_not_mem (he ▸ hnd.1), decide_eq_true he]
      simp [he]
    · have hnone : e.2.filterMap ((fun e => f e.1 e.2) ∘ fun v => (e.1, v)) = [] := by
        rw [filterMap_eq_nil_iff]
        exact fun v _ => hf e.1 v he
      rw [hnone, decide_eq_false he, nil_append]

end Lists

end OMap

end SuperFunctions.Lib.OrderedMap

/-!
# Keyed tables

A table is an insertion-ordered map from the primary key to the row. A query names rows by a
condition; where several match, the adapter is free to choose one. Two tables are aligned when they
list the same keys with related rows.
-/
namespace SuperFunctions.Lib.KeyedTables

open OrderedMap Option List

universe u v w

variable {κ : Type u} {ρ : Type v} [DecidableEq κ]

/-- The choice among the rows that match: some row whenever there is one. -/
structure Chooser (ρ : Type v) where
  pick : List ρ → Option ρ
  pick_mem : ∀ rows row, pick rows = some row → row ∈ rows
  pick_none : ∀ rows, pick rows = none → rows = []

/-- The choice of the first row. -/
def Chooser.first : Chooser ρ where
  pick := List.head?
  pick_mem := fun _ _ h => List.mem_of_mem_head? h
  pick_none := fun _ h => List.head?_eq_none_iff.mp h

def findOne (c : Chooser ρ) (p : ρ → Bool) (t : OMap κ ρ) : Option ρ := c.pick (t.values.filter p)

variable (key : ρ → κ)

/-- Insert the row, or put it in the place of the one with its key. -/
def upsert (row : ρ) (t : OMap κ ρ) : OMap κ ρ := t.set (key row) row

/-- Change one matching row; `none` is the not-found error. -/
def update (c : Chooser ρ) (p : ρ → Bool) (change : ρ → ρ) (t : OMap κ ρ) : Option (ρ × OMap κ ρ) :=
  (findOne c p t).map fun row => (change row, t.set (key row) (change row))

def deleteMany (p : ρ → Bool) (t : OMap κ ρ) : OMap κ ρ := t.filterEntries fun e => !p e.2

def countWhere (p : ρ → Bool) (t : OMap κ ρ) : Nat := (t.values.filter p).length

/-- Every row is listed under its own key. -/
def Keyed (t : OMap κ ρ) : Prop := ∀ k row, t.get k = some row → key row = k

theorem keyed_empty : Keyed key (OMap.empty : OMap κ ρ) := by
  exact nofun

theorem get_filterEntries (p : ρ → Bool) (t : OMap κ ρ) (k : κ) :
    (t.filterEntries fun e => p e.2).get k = (t.get k).filter p := by
  have hsome : ∀ row, (t.filterEntries fun e => p e.2).get k = some row ↔
      t.get k = some row ∧ p row = true := by
    intro row
    rw [← OMap.mem_entries_iff_get, ← OMap.mem_entries_iff_get]
    exact mem_filter
  apply Option.ext
  intro row
  rw [hsome, filter_eq_some_iff]

theorem get_deleteMany (p : ρ → Bool) (t : OMap κ ρ) (k : κ) :
    (deleteMany p t).get k = (t.get k).filter fun row => !p row :=
  get_filterEntries (fun row => !p row) t k

variable {key} {t : OMap κ ρ} {row : ρ} {k : κ}

theorem Keyed.set (h : Keyed key t) (hrow : key row = k) : Keyed key (t.set k row) := by
  intro k' row' hget
  rw [OMap.get_set] at hget
  split at hget
  · rename_i hk
    cases hget
    rw [hrow, hk]
  · exact h k' row' hget

theorem Keyed.deleteMany (h : Keyed key t) (p : ρ → Bool) : Keyed key (deleteMany p t) := by
  intro k row hget
  rw [get_deleteMany, filter_eq_some_iff] at hget
  exact h k row hget.1

variable {p : ρ → Bool}

theorem mem_values_filter : row ∈ t.values.filter p ↔ (∃ k, t.get k = some row) ∧ p row = true := by
  rw [mem_filter, OMap.mem_values_iff_get]

variable {c : Chooser ρ}

theorem findOne_some (h : findOne c p t = some row) : (∃ k, t.get k = some row) ∧ p row = true :=
  mem_values_filter.mp (c.pick_mem _ _ h)

theorem findOne_none (h : findOne c p t = none) (hget : t.get k = some row) : p row = false := by
  have hnil := c.pick_none _ h
  cases hp : p row with
  | false => rfl
  | true =>
    have hmem : row ∈ t.values.filter p := mem_values_filter.mpr ⟨⟨k, hget⟩, hp⟩
    rw [hnil] at hmem
    cases hmem

theorem findOne_of_key (honly : ∀ k' row, t.get k' = some row → p row = true → k' = k) :
    findOne c p t = (t.get k).filter p := by
  cases hfind : findOne c p t with
  | none =>
    symm
    rw [filter_eq_none_iff]
    intro row hget hp
    rw [findOne_none hfind hget] at hp
    cases hp
  | some row =>
    obtain ⟨⟨k', hget⟩, hp⟩ := findOne_some hfind
    rw [honly k' row hget hp] at hget
    symm
    rw [filter_eq_some_iff]
    exact ⟨hget, hp⟩

variable {q : ρ → Bool}

theorem findOne_key (hkeyed : Keyed key t) (k : κ) :
    findOne c (fun row => decide (key row = k) && q row) t = (t.get k).filter q := by
  have honly : ∀ k' row, t.get k' = some row → (decide (key row = k) && q row) = true → k' = k := by
    intro k' row hget hp
    rw [Bool.and_eq_true, decide_eq_true_iff] at hp
    rw [← hkeyed k' row hget, hp.1]
  rw [findOne_of_key honly]
  cases hget : t.get k with
  | none => rfl
  | some row => simp [Option.filter, hkeyed k row hget]

/-! ## Aligned tables -/

variable {α : Type w}

/-- The same keys in the same order, with related values. -/
def Aligned (rel : α → ρ → Prop) (m : OMap κ α) (t : OMap κ ρ) : Prop :=
  List.Forall₂ (fun e e' => e.1 = e'.1 ∧ rel e.2 e'.2) m.entries t.entries

variable {rel : α → ρ → Prop} {m : OMap κ α} {t : OMap κ ρ}

omit [DecidableEq κ] in
theorem aligned_empty : Aligned rel (OMap.empty : OMap κ α) (OMap.empty : OMap κ ρ) := .nil

theorem forall₂_setEntries {es : List (κ × α)} {rs : List (κ × ρ)} {a : α}
    (h : List.Forall₂ (fun e e' => e.1 = e'.1 ∧ rel e.2 e'.2) es rs) (hrel : rel a row) :
    List.Forall₂ (fun e e' => e.1 = e'.1 ∧ rel e.2 e'.2) (setEntries k a es)
      (setEntries k row rs) := by
  induction h with
  | nil => exact .cons ⟨rfl, hrel⟩ .nil
  | cons he hes ih =>
    rw [setEntries, setEntries, he.1]
    split
    · exact .cons ⟨rfl, hrel⟩ hes
    · exact .cons he ih

theorem Aligned.set (h : Aligned rel m t) {a : α} (hrel : rel a row) :
    Aligned rel (m.set k a) (t.set k row) :=
  forall₂_setEntries h hrel

/-- Where conditions agree on related values, they leave aligned tables. -/
theorem Aligned.filter (h : Aligned rel m t) {p : α → Bool}
    (hsame : ∀ k a row, m.get k = some a → t.get k = some row → rel a row → p a = q row) :
    Aligned rel (m.filterEntries fun e => p e.2) (t.filterEntries fun e => q e.2) := by
  have hentries : ∀ e ∈ m.entries, ∀ e' ∈ t.entries, e.1 = e'.1 → rel e.2 e'.2 →
      p e.2 = q e'.2 := by
    intro e he e' he' hkey hrel
    apply hsame e.1 e.2 e'.2 ((OMap.mem_entries_iff_get m e.1 e.2).mp he) _ hrel
    rw [hkey]
    exact (OMap.mem_entries_iff_get t e'.1 e'.2).mp he'
  show List.Forall₂ _ (m.entries.filter _) (t.entries.filter _)
  revert hentries
  have hall : List.Forall₂ (fun e e' => e.1 = e'.1 ∧ rel e.2 e'.2) m.entries t.entries := h
  generalize m.entries = es at hall
  generalize t.entries = rs at hall
  intro hentries
  induction hall with
  | nil => exact .nil
  | cons he hes ih =>
    rename_i e e' es rs
    have hhead := hentries e mem_cons_self e' mem_cons_self he.1 he.2
    have htail := ih fun a ha b hb =>
      hentries a (mem_cons_of_mem _ ha) b (mem_cons_of_mem _ hb)
    rw [filter_cons, filter_cons, hhead]
    split
    · exact .cons he htail
    · exact htail

theorem Aligned.countWhere (h : Aligned rel m t) {p : α → Bool}
    (hsame : ∀ k a row, m.get k = some a → t.get k = some row → rel a row → p a = q row) :
    countWhere p m = countWhere q t := by
  have hlength := (h.filter hsame).length_eq
  rw [KeyedTables.countWhere, KeyedTables.countWhere, OMap.values, OMap.values, List.filter_map,
    List.filter_map, List.length_map, List.length_map]
  exact hlength

theorem forall₂_find? {es : List (κ × α)} {rs : List (κ × ρ)} (k : κ)
    (h : List.Forall₂ (fun e e' => e.1 = e'.1 ∧ rel e.2 e'.2) es rs) :
    Option.Rel rel ((es.find? fun e => decide (e.1 = k)).map Prod.snd)
      ((rs.find? fun e => decide (e.1 = k)).map Prod.snd) := by
  induction h with
  | nil => exact .none
  | cons he hes ih =>
    rw [find?_cons, find?_cons, he.1]
    split
    · exact .some he.2
    · exact ih

theorem Aligned.get (h : Aligned rel m t) (k : κ) : Option.Rel rel (m.get k) (t.get k) :=
  forall₂_find? k h

theorem Aligned.get_cases (h : Aligned rel m t) (k : κ) :
    (m.get k = none ∧ t.get k = none) ∨
      ∃ a row, m.get k = some a ∧ t.get k = some row ∧ rel a row := by
  have hrel := h.get k
  revert hrel
  cases m.get k with
  | none =>
    cases t.get k with
    | none => exact fun _ => .inl ⟨rfl, rfl⟩
    | some row =>
      exact nofun
  | some a =>
    cases t.get k with
    | none =>
      exact nofun
    | some row =>
      intro hrel
      cases hrel with
      | some hab => exact .inr ⟨a, row, rfl, rfl, hab⟩

end SuperFunctions.Lib.KeyedTables
