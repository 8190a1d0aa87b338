import Mathlib.Logic.Relation
import Mathlib.Tactic.Common

/-!
# Walks that mark what they have visited

A depth-first walk of a graph marks each node by a key and passes over a node whose key is
marked. When different nodes have different keys the walk has seen every node within reach.
The loops of such a walk fold over lists and can fail.
-/
namespace SuperFunctions.Lib.MarkedWalk

open Relation List

/-! ## Loops that can fail -/

section Loops

variable {ε α β : Type*} {f : β → α → Except ε β} {P : β → Prop} {l : List α}

theorem foldlM_ok {Q : α → β → Prop}
    (hstep : ∀ x ∈ l, ∀ b b', P b → f b x = .ok b' → P b' ∧ Q x b' ∧ ∀ y, Q y b → Q y b') :
    ∀ {b b'}, P b → l.foldlM f b = .ok b' → P b' ∧ (∀ x ∈ l, Q x b') ∧ ∀ y, Q y b → Q y b' := by
  induction l with
  | nil =>
    intro b b' hb h
    cases h
    exact ⟨hb, fun x hx => absurd hx not_mem_nil, fun _ => id⟩
  | cons x l ih =>
    intro b b' hb h
    rw [foldlM_cons] at h
    cases hx : f b x with
    | error e => rw [hx] at h; cases h
    | ok c =>
      rw [hx] at h
      obtain ⟨hc, hq, hkeep⟩ := hstep x mem_cons_self b c hb hx
      obtain ⟨hb', hqs, hkeep'⟩ := ih (fun y hy => hstep y (mem_cons_of_mem _ hy)) hc h
      refine ⟨hb', fun y hy => ?_, fun y hy => hkeep' y (hkeep y hy)⟩
      rcases mem_cons.mp hy with rfl | hy
      · exact hkeep' _ hq
      · exact hqs y hy

/-- A loop whose steps all end in an accepted error or succeed does so as well. -/
theorem foldlM_ends {E : ε → Prop}
    (hstep : ∀ x ∈ l, ∀ b, P b → (∃ e, f b x = .error e ∧ E e) ∨ ∃ b', f b x = .ok b' ∧ P b') :
    ∀ {b}, P b → (∃ e, l.foldlM f b = .error e ∧ E e) ∨ ∃ b', l.foldlM f b = .ok b' ∧ P b' := by
  induction l with
  | nil => exact fun {b} hb => .inr ⟨b, rfl, hb⟩
  | cons x l ih =>
    intro b hb
    rw [foldlM_cons]
    rcases hstep x mem_cons_self b hb with ⟨e, hx, he⟩ | ⟨c, hx, hc⟩
    · rw [hx]
      exact .inl ⟨e, rfl, he⟩
    · rw [hx]
      exact ih (fun y hy => hstep y (mem_cons_of_mem _ hy)) hc

/-- A loop whose steps all succeed succeeds. -/
theorem foldlM_total (hstep : ∀ x ∈ l, ∀ b, P b → ∃ b', f b x = .ok b' ∧ P b') {b : β} (hb : P b) :
    ∃ b', l.foldlM f b = .ok b' ∧ P b' := by
  have hends := foldlM_ends (E := fun _ => False) (fun x hx c hc => .inr (hstep x hx c hc)) hb
  rcases hends with ⟨_, _, hfalse⟩ | hok
  · exact hfalse.elim
  · exact hok

end Loops

/-! ## What a walk has explored -/

section Walk

variable {ν κ : Type*} (mark : ν → κ) (edge : ν → ν → Prop) (clear : ν → Prop) (root : ν)

/-- What has been marked since `before` is clear, and so is marked all it leads to. -/
structure Explored (before after : List κ) : Prop where
  grows : before ⊆ after
  fresh : ∀ t ∈ after, t ∉ before → ∃ b, ReflTransGen edge root b ∧ mark b = t ∧ clear b ∧
    ∀ c, edge b c → mark c ∈ after

variable {mark edge clear root} {before between after : List κ}

theorem Explored.refl : Explored mark edge clear root before before where
  grows _ ht := ht
  fresh _ ht hnew := absurd ht hnew

theorem Explored.trans (h : Explored mark edge clear root before between)
    (h' : Explored mark edge clear root between after) :
    Explored mark edge clear root before after where
  grows t ht := h'.grows (h.grows ht)
  fresh t ht hnew := by
    by_cases hbetween : t ∈ between
    · obtain ⟨b, hreach, hmark, hclear, hnext⟩ := h.fresh t hbetween hnew
      exact ⟨b, hreach, hmark, hclear, fun c hc => h'.grows (hnext c hc)⟩
    · exact h'.fresh t ht hbetween

/-- A node is explored with all that it leads to. -/
theorem Explored.node {b : ν} (hreach : ReflTransGen edge root b) (hclear : clear b)
    (h : Explored mark edge clear root (mark b :: before) after)
    (hnext : ∀ c, edge b c → mark c ∈ after) :
    Explored mark edge clear root before after where
  grows t ht := h.grows (mem_cons_of_mem _ ht)
  fresh t ht hnew := by
    by_cases hb : t = mark b
    · exact ⟨b, hreach, hb.symm, hclear, hnext⟩
    apply h.fresh t ht
    intro hmem
    rcases mem_cons.mp hmem with h' | h'
    · exact hb h'
    · exact hnew h'

/-- Where keys tell the nodes within reach apart, a walk from the root has seen them all. -/
theorem Explored.all_clear
    (hinj : ∀ a b, ReflTransGen edge root a → ReflTransGen edge root b → mark a = mark b → a = b)
    (h : Explored mark edge clear root [] after) (hroot : mark root ∈ after) {b : ν}
    (hb : ReflTransGen edge root b) : clear b := by
  have hseen : ∀ t ∈ after, ∀ a, ReflTransGen edge root a → mark a = t →
      clear a ∧ ∀ c, edge a c → mark c ∈ after := by
    intro t ht a ha hmark
    obtain ⟨a', hreach, hmark', hclear, hnext⟩ := h.fresh t ht not_mem_nil
    have haa : a' = a := hinj a' a hreach ha (hmark'.trans hmark.symm)
    rw [← haa]
    exact ⟨hclear, hnext⟩
  have hmarked : ∀ a, ReflTransGen edge root a → mark a ∈ after := by
    intro a ha
    induction ha with
    | refl => exact hroot
    | tail ha hstep ih => exact (hseen _ ih _ ha rfl).2 _ hstep
  exact (hseen _ (hmarked b hb) b hb rfl).1

end Walk

/-! ## The order in which a walk meets the nodes -/

section Order

variable {ν : Type*} (next : ν → List ν)

abbrev Edge (a b : ν) : Prop := b ∈ next a

/-- A path of `k` edges. -/
inductive Steps : ν → Nat → ν → Prop
  | none (a : ν) : Steps a 0 a
  | step {a b c : ν} {k : Nat} : b ∈ next a → Steps b k c → Steps a (k + 1) c

/-- The first path to `v`: from the first of the alternatives that lead there, and on from each
node to the first of its successors that leads there, takes `k` edges. -/
inductive FirstAt : List ν → ν → Nat → Prop
  | here (v : ν) (rest : List ν) : FirstAt (v :: rest) v 0
  | within {c v : ν} {rest : List ν} {k : Nat} : c ≠ v → FirstAt (next c) v k →
      FirstAt (c :: rest) v (k + 1)
  | later {c v : ν} {rest : List ν} {k : Nat} : ¬ ReflTransGen (Edge next) c v →
      FirstAt rest v k → FirstAt (c :: rest) v k

/-- A list in which the successors of a node stand behind it. -/
inductive Finished : List ν → Prop
  | nil : Finished []
  | cons {x : ν} {done : List ν} : (∀ y ∈ next x, y ∈ done) → Finished done → Finished (x :: done)

variable {next} {k : Nat}

theorem Steps.reaches {a b : ν} (h : Steps next a k b) : ReflTransGen (Edge next) a b := by
  induction h with
  | none a => exact ReflTransGen.refl
  | step hb _ ih => exact ReflTransGen.head hb ih

theorem Steps.append_edge {a b c : ν} (h : Steps next a k b) (hc : c ∈ next b) :
    Steps next a (k + 1) c := by
  induction h with
  | none a => exact .step hc (.none c)
  | step hb _ ih => exact .step hb (ih hc)

theorem FirstAt.steps {cs : List ν} {v : ν} (h : FirstAt next cs v k) :
    ∃ c ∈ cs, Steps next c k v := by
  induction h with
  | here v rest => exact ⟨v, mem_cons_self, .none v⟩
  | within _ _ ih =>
    obtain ⟨c', hc', hsteps⟩ := ih
    exact ⟨_, mem_cons_self, .step hc' hsteps⟩
  | later _ _ ih =>
    obtain ⟨c', hc', hsteps⟩ := ih
    exact ⟨c', mem_cons_of_mem _ hc', hsteps⟩

/-- What the first alternative leads to is met from there. -/
theorem FirstAt.cons {c v : ν} (h : FirstAt next [c] v k) (rest : List ν) :
    FirstAt next (c :: rest) v k := by
  cases h with
  | here => exact .here c rest
  | within hne hfirst => exact .within hne hfirst
  | later _ hfirst => cases hfirst

theorem FirstAt.cases_cons {c v : ν} {rest : List ν} (h : FirstAt next (c :: rest) v k) :
    FirstAt next [c] v k ∨ (¬ ReflTransGen (Edge next) c v ∧ FirstAt next rest v k) := by
  cases h with
  | here => exact Or.inl (.here c [])
  | within hne hfirst => exact Or.inl (.within hne hfirst)
  | later hnot hfirst => exact Or.inr ⟨hnot, hfirst⟩

theorem Finished.closed {done : List ν} (h : Finished next done) {a b : ν} (ha : a ∈ done)
    (hb : ReflTransGen (Edge next) a b) : b ∈ done := by
  have hedge : ∀ x ∈ done, ∀ y ∈ next x, y ∈ done := by
    clear ha hb
    induction h with
    | nil => exact fun x hx => absurd hx not_mem_nil
    | cons hnext _ ih =>
      intro x hx y hy
      rcases mem_cons.mp hx with rfl | hx
      · exact mem_cons_of_mem _ (hnext y hy)
      · exact mem_cons_of_mem _ (ih x hx y hy)
  induction hb with
  | refl => exact ha
  | tail _ hstep ih => exact hedge _ ih _ hstep

/-- There is no cycle among the nodes of such a list. -/
theorem Finished.acyclic {done : List ν} (h : Finished next done) {a : ν} (ha : a ∈ done) :
    ¬ TransGen (Edge next) a a := by
  induction h with
  | nil => exact absurd ha not_mem_nil
  | @cons x done hnext hdone ih =>
    by_cases hold : a ∈ done
    · exact ih hold
    intro hcycle
    have hax : a = x := (mem_cons.mp ha).resolve_right hold
    obtain ⟨b, hb, hback⟩ := TransGen.head'_iff.mp hcycle
    rw [hax] at hb
    exact hold (hdone.closed (hnext b hb) hback)

end Order

end SuperFunctions.Lib.MarkedWalk
