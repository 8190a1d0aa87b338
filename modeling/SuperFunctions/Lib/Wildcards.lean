import Mathlib.Computability.Language

/-!
# Patterns with wildcards

A pattern is a list of items: a letter, any one letter, or any word. Its language is the product
of the languages of its items.
-/
namespace SuperFunctions.Lib.Wildcards

open List

inductive Item (α : Type*) where
  | word
  | letter
  | unit (a : α)

variable {α : Type*}

namespace Item

def language : Item α → Language α
  | word => ⊤
  | letter => {w | ∃ a, w = [a]}
  | unit a => {w | w = [a]}

/-- The letters an item takes, when it takes one letter. -/
def Takes : Item α → α → Prop
  | word, _ => False
  | letter, _ => True
  | unit a, b => b = a

end Item

/-- The words that match a pattern. -/
def language (pattern : List (Item α)) : Language α := (pattern.map Item.language).prod

variable {item : Item α} {pattern : List (Item α)} {w : List α}

theorem mem_language_nil : w ∈ language ([] : List (Item α)) ↔ w = [] := by
  simp [language, Language.mem_one]

theorem mem_language_word :
    w ∈ language (.word :: pattern) ↔ ∃ n ≤ w.length, w.drop n ∈ language pattern := by
  constructor
  · intro ⟨u, _, v, hv, hw⟩
    refine ⟨u.length, by rw [← hw]; simp, ?_⟩
    rwa [← hw, drop_left]
  · intro ⟨n, _, hn⟩
    exact ⟨w.take n, trivial, w.drop n, hn, take_append_drop n w⟩

theorem mem_language_single (hitem : item ≠ .word) :
    w ∈ language (item :: pattern) ↔
      ∃ a rest, w = a :: rest ∧ item.Takes a ∧ rest ∈ language pattern := by
  have hone : ∀ u, u ∈ item.language ↔ ∃ a, u = [a] ∧ item.Takes a := by
    intro u
    cases item with
    | word => exact absurd rfl hitem
    | letter => exact ⟨fun ⟨a, ha⟩ => ⟨a, ha, trivial⟩, fun ⟨a, ha, _⟩ => ⟨a, ha⟩⟩
    | unit b =>
      constructor
      · intro hu
        exact ⟨b, hu, rfl⟩
      · intro ⟨a, hu, ha⟩
        have hab : a = b := ha
        rwa [hab] at hu
  constructor
  · intro ⟨u, hu, v, hv, hw⟩
    obtain ⟨a, rfl, ha⟩ := (hone u).mp hu
    exact ⟨a, v, hw.symm, ha, hv⟩
  · intro ⟨a, rest, hw, ha, hrest⟩
    exact ⟨[a], (hone [a]).mpr ⟨a, rfl, ha⟩, rest, hrest, hw.symm⟩

theorem nil_mem_language : [] ∈ language pattern ↔ ∀ item ∈ pattern, item = .word := by
  induction pattern with
  | nil => simp [mem_language_nil]
  | cons item pattern ih =>
    rw [forall_mem_cons, ← ih]
    by_cases hitem : item = .word
    · rw [hitem, mem_language_word]
      simp
    · rw [mem_language_single hitem]
      simp [hitem]

variable {segment : List (Item α)}

theorem mem_language_segment (hsegment : ∀ item ∈ segment, item ≠ .word)
    (h : w ∈ language (segment ++ pattern)) :
    segment.length ≤ w.length ∧ w.drop segment.length ∈ language pattern := by
  induction segment generalizing w with
  | nil => exact ⟨Nat.zero_le _, h⟩
  | cons item segment ih =>
    rw [forall_mem_cons] at hsegment
    obtain ⟨a, rest, rfl, -, hrest⟩ := (mem_language_single hsegment.1).mp h
    obtain ⟨hlength, hdrop⟩ := ih hsegment.2 hrest
    exact ⟨Nat.succ_le_succ hlength, hdrop⟩

/-- Where the word that a segment and the item for any word match starts later, what is behind
them starts later as well: the earliest match of a segment is good enough. -/
theorem mem_language_later (hsegment : ∀ item ∈ segment, item ≠ .word) {k : Nat} (hk : k ≤ w.length)
    (h : w.drop k ∈ language (segment ++ .word :: pattern)) :
    ∃ n, k + segment.length ≤ n ∧ n ≤ w.length ∧ w.drop n ∈ language pattern := by
  obtain ⟨hlength, hdrop⟩ := mem_language_segment hsegment h
  obtain ⟨n, hn, hrest⟩ := mem_language_word.mp hdrop
  rw [drop_drop, length_drop] at hn
  rw [drop_drop, drop_drop, ← Nat.add_assoc] at hrest
  rw [length_drop] at hlength
  exact ⟨k + segment.length + n, by omega, by omega, hrest⟩

end SuperFunctions.Lib.Wildcards
