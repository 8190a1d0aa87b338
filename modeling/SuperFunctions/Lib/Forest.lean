import Mathlib.Data.List.Nodup
import Mathlib.Data.List.Perm.Subperm

/-!
# Forests given by parent pointers

A partial map takes a node to its parent, and a root to no parent. The ancestors of a node from
its root down are a chain; only nodes with a chain are well founded.
-/
namespace SuperFunctions.Lib.Forest

open List

universe u

variable {κ : Type u} {nodes nodes' : κ → Option (Option κ)} {k c : κ} {l above below : List κ}

/-- The ancestors of `k`, the root first. -/
inductive Chain (nodes : κ → Option (Option κ)) : κ → List κ → Prop
  | root {k : κ} (h : nodes k = some none) : Chain nodes k []
  | child {k p : κ} {l : List κ} (h : nodes k = some (some p)) (hp : Chain nodes p l) :
    Chain nodes k (l ++ [p])

section

variable (h : Chain nodes k l)
include h

theorem Chain.unique : ∀ {l'}, Chain nodes k l' → l = l' := by
  induction h with
  | root hroot =>
    intro l' h'
    cases h' with
    | root => rfl
    | child hchild =>
      rw [hroot] at hchild
      cases hchild
  | child hchild _ ih =>
    intro l' h'
    cases h' with
    | root hroot =>
      rw [hchild] at hroot
      cases hroot
    | child hchild' hp' =>
      rw [hchild] at hchild'
      cases hchild'
      rw [ih hp']

theorem Chain.isSome : (nodes k).isSome = true := by
  cases h with
  | root h => rw [h]; rfl
  | child h => rw [h]; rfl

theorem Chain.above_of : ∀ below, l = above ++ c :: below → Chain nodes c above := by
  induction h with
  | root => exact fun below hl => by simp at hl
  | @child k p l _ hp ih =>
    intro below hl
    obtain rfl | ⟨front, last, rfl⟩ := eq_nil_or_concat below
    · obtain ⟨rfl, hpc⟩ := append_inj' hl rfl
      cases hpc
      exact hp
    · rw [concat_eq_append, ← cons_append, ← append_assoc] at hl
      exact ih front (append_inj' hl rfl).1

theorem Chain.split (hc : c ∈ l) :
    ∃ above below, l = above ++ c :: below ∧ Chain nodes c above := by
  obtain ⟨above, below, hl⟩ := append_of_mem hc
  exact ⟨above, below, hl, h.above_of below hl⟩

theorem Chain.not_mem_self : k ∉ l := by
  intro hk
  obtain ⟨above, below, hl, habove⟩ := h.split hk
  have hsame := h.unique habove
  have hlength := congrArg List.length hl
  rw [hsame, length_append, length_cons] at hlength
  omega

theorem Chain.nodup : l.Nodup := by
  induction h with
  | root => exact nodup_nil
  | child _ hp ih =>
    rw [nodup_append]
    refine ⟨ih, nodup_singleton _, fun a ha b hb hab => ?_⟩
    rw [mem_singleton] at hb
    exact hp.not_mem_self (hb ▸ hab ▸ ha)

theorem Chain.mem_isSome (hc : c ∈ l) : (nodes c).isSome = true := by
  obtain ⟨above, below, _, habove⟩ := h.split hc
  exact habove.isSome

theorem Chain.length_lt {keys : List κ} (hkeys : ∀ c, (nodes c).isSome = true → c ∈ keys) :
    l.length < keys.length := by
  have hnodup : (k :: l).Nodup := nodup_cons.mpr ⟨h.not_mem_self, h.nodup⟩
  have hsub : k :: l ⊆ keys := by
    intro c hc
    obtain rfl | hc := mem_cons.mp hc
    · exact hkeys c h.isSome
    · exact hkeys c (h.mem_isSome hc)
  have hle := (subperm_of_subset hnodup hsub).length_le
  rwa [length_cons] at hle

theorem Chain.congr : (∀ c, c = k ∨ c ∈ l → nodes' c = nodes c) → Chain nodes' k l := by
  induction h with
  | root h => exact fun hsame => .root ((hsame _ (.inl rfl)).trans h)
  | @child k p l h hp ih =>
    intro hsame
    refine .child ((hsame _ (.inl rfl)).trans h) (ih fun c hc => hsame c (.inr ?_))
    obtain rfl | hc := hc
    · exact mem_append_right l mem_cons_self
    · exact mem_append_left [p] hc

end

/-- A chain through a node whose own chain changes. -/
theorem Chain.moved {above' : List κ} (hc' : Chain nodes' c above')
    (hsame : ∀ k, k ≠ c → nodes' k = nodes k) (h : Chain nodes k l) :
    ∀ below, l = above ++ c :: below → Chain nodes' k (above' ++ c :: below) := by
  induction h with
  | root => exact fun below hl => by simp at hl
  | @child k p l hk hp ih =>
    intro below hl
    have hne : k ≠ c := by
      intro hkc
      have hself := (Chain.child hk hp).not_mem_self
      rw [hl, hkc] at hself
      exact hself (mem_append_right above mem_cons_self)
    have hk' := (hsame k hne).trans hk
    obtain rfl | ⟨front, last, rfl⟩ := eq_nil_or_concat below
    · obtain ⟨_, hpc⟩ := append_inj' hl rfl
      cases hpc
      exact .child hk' hc'
    · rw [concat_eq_append, ← cons_append, ← append_assoc] at hl ⊢
      obtain ⟨hl', hpc⟩ := append_inj' hl rfl
      cases hpc
      exact .child hk' (ih front hl')

/-! ## Subtrees -/

/-- `k` is `c` or below it. -/
def Sub (nodes : κ → Option (Option κ)) (c k : κ) : Prop :=
  ∃ l, Chain nodes k l ∧ (c = k ∨ c ∈ l)

theorem Sub.isSome (h : Sub nodes c k) : (nodes k).isSome = true := by
  obtain ⟨l, hl, _⟩ := h
  exact hl.isSome

variable {p : κ}

theorem Sub.of_child (hc : nodes c = some (some p)) (h : Sub nodes c k) : Sub nodes p k := by
  obtain ⟨l, hl, hmem⟩ := h
  refine ⟨l, hl, .inr ?_⟩
  obtain rfl | hmem := hmem
  · cases hl with
    | root hroot =>
      rw [hc] at hroot
      cases hroot
    | child hchild =>
      rw [hc] at hchild
      cases hchild
      exact mem_append_right _ mem_cons_self
  · obtain ⟨above, below, rfl, habove⟩ := hl.split hmem
    apply mem_append_left
    cases habove with
    | root hroot =>
      rw [hc] at hroot
      cases hroot
    | child hchild =>
      rw [hc] at hchild
      cases hchild
      exact mem_append_right _ mem_cons_self

theorem Sub.cases_child (h : Sub nodes p k) :
    p = k ∨ ∃ c, nodes c = some (some p) ∧ Sub nodes c k := by
  obtain ⟨l, hl, hmem⟩ := h
  obtain hpk | hmem := hmem
  · exact .inl hpk
  right
  induction hl with
  | root => exact absurd hmem not_mem_nil
  | @child k q l hk hq ih =>
    obtain hmem | hmem := mem_append.mp hmem
    · obtain ⟨c, hc, l', hl', hcl⟩ := ih hmem
      refine ⟨c, hc, l ++ [q], .child hk hq, .inr ?_⟩
      rw [← hq.unique hl'] at hcl
      obtain rfl | hcl := hcl
      · exact mem_append_right l mem_cons_self
      · exact mem_append_left [q] hcl
    · rw [mem_singleton] at hmem
      rw [hmem]
      exact ⟨k, hk, l ++ [q], .child hk hq, .inl rfl⟩

theorem Sub.not_of_child (hc : nodes c = some (some p)) : ¬ Sub nodes c p := by
  rintro ⟨l, hl, hmem⟩
  have hchain := Chain.child hc hl
  obtain rfl | hmem := hmem
  · exact hchain.not_mem_self (mem_append_right l mem_cons_self)
  · exact hchain.not_mem_self (mem_append_left [p] hmem)

/-- The fuel is more than the depth of the subtree. -/
def Fits (nodes : κ → Option (Option κ)) (c : κ) (fuel : Nat) : Prop :=
  0 < fuel ∧ ∀ k above below, Chain nodes k (above ++ c :: below) → below.length + 1 < fuel

theorem Fits.child {fuel : Nat} (h : Fits nodes p (fuel + 1)) (hc : nodes c = some (some p))
    (hchain : Chain nodes c l) : Fits nodes c fuel := by
  cases hchain with
  | root hroot =>
    rw [hc] at hroot
    cases hroot
  | @child _ q l hq hl =>
    rw [hc] at hq
    cases hq
    have hown : Chain nodes c (l ++ [p]) := .child hc hl
    constructor
    · have hself := h.2 c l [] hown
      omega
    · intro k above below hk
      have habove := (hk.above_of below rfl).unique hown
      rw [habove, append_assoc, singleton_append] at hk
      have hbelow := h.2 k l (c :: below) hk
      rw [length_cons] at hbelow
      omega

theorem Fits.of_keys {keys : List κ} (hkeys : ∀ c, (nodes c).isSome = true → c ∈ keys) (c : κ) :
    Fits nodes c (keys.length + 1) := by
  refine ⟨by omega, fun k above below hk => ?_⟩
  have hlt := hk.length_lt hkeys
  rw [length_append, length_cons] at hlt
  omega

/-! ## Cutting subtrees out -/

/-- `nodes'` is `nodes` without the subtrees of the nodes `cut`. -/
structure Pruned (nodes nodes' : κ → Option (Option κ)) (cut : κ → Prop) : Prop where
  gone : ∀ c k, cut c → Sub nodes c k → nodes' k = none
  kept : ∀ k, (∀ c, cut c → ¬ Sub nodes c k) → nodes' k = nodes k

variable {cut : κ → Prop}

section

variable (h : Pruned nodes nodes' cut)
include h

theorem Pruned.cases (k : κ) : nodes' k = none ∨ nodes' k = nodes k := by
  by_cases hcut : ∃ c, cut c ∧ Sub nodes c k
  · obtain ⟨c, hc, hsub⟩ := hcut
    exact .inl (h.gone c k hc hsub)
  · exact .inr (h.kept k fun c hc hsub => hcut ⟨c, hc, hsub⟩)

theorem Pruned.eq_of_isSome (hk : (nodes' k).isSome = true) : nodes' k = nodes k := by
  obtain hnone | hsame := h.cases k
  · rw [hnone] at hk
    cases hk
  · exact hsame

theorem Pruned.chain_old (hk : Chain nodes' k l) : Chain nodes k l := by
  apply hk.congr
  rintro c (rfl | hc)
  · exact (h.eq_of_isSome hk.isSome).symm
  · exact (h.eq_of_isSome (hk.mem_isSome hc)).symm

theorem Pruned.sub_old (hk : Sub nodes' c k) : Sub nodes c k := by
  obtain ⟨l, hl, hmem⟩ := hk
  exact ⟨l, h.chain_old hl, hmem⟩

theorem Pruned.chain_new (hk : Chain nodes k l) (hleft : ∀ c, cut c → ¬ Sub nodes c k) :
    Chain nodes' k l := by
  apply hk.congr
  rintro c (rfl | hc)
  · exact h.kept c hleft
  obtain ⟨above, below, rfl, habove⟩ := hk.split hc
  apply h.kept
  intro d hd hsub
  obtain ⟨l', hl', hmem⟩ := hsub
  rw [← habove.unique hl'] at hmem
  refine hleft d hd ⟨_, hk, .inr ?_⟩
  obtain rfl | hmem := hmem
  · exact hc
  · exact mem_append_left _ hmem

end

variable {nodes'' : κ → Option (Option κ)} {cut' : κ → Prop}

theorem Pruned.trans (h : Pruned nodes nodes' cut) (h' : Pruned nodes' nodes'' cut') :
    Pruned nodes nodes'' fun c => cut c ∨ cut' c := by
  have hnone : ∀ k, nodes' k = none → nodes'' k = none := by
    intro k hk
    obtain hnone | hsame := h'.cases k
    · exact hnone
    · exact hsame.trans hk
  constructor
  · intro c k hc hsub
    by_cases hcut : ∃ d, cut d ∧ Sub nodes d k
    · obtain ⟨d, hd, hdk⟩ := hcut
      exact hnone k (h.gone d k hd hdk)
    · obtain hc | hc := hc
      · exact absurd ⟨c, hc, hsub⟩ hcut
      · obtain ⟨l, hl, hmem⟩ := hsub
        refine h'.gone c k hc ⟨l, h.chain_new hl fun d hd hdk => hcut ⟨d, hd, hdk⟩, hmem⟩
  · intro k hk
    rw [h'.kept k fun c hc hsub => hk c (.inr hc) (h.sub_old hsub)]
    exact h.kept k fun c hc => hk c (.inl hc)

/-- A larger cut is the same when what it adds is gone. -/
theorem Pruned.extend (h : Pruned nodes nodes' cut) (hmono : ∀ c, cut c → cut' c)
    (hgone : ∀ c, cut' c → cut c ∨ nodes' c = none) : Pruned nodes nodes' cut' := by
  constructor
  · intro c k hc hsub
    by_cases hcut : ∃ d, cut d ∧ Sub nodes d k
    · obtain ⟨d, hd, hdk⟩ := hcut
      exact h.gone d k hd hdk
    obtain hc | hnone := hgone c hc
    · exact absurd ⟨c, hc, hsub⟩ hcut
    obtain ⟨l, hl, hmem⟩ := hsub
    have hl' := h.chain_new hl fun d hd hdk => hcut ⟨d, hd, hdk⟩
    have hsome : (nodes' c).isSome = true := by
      obtain rfl | hmem := hmem
      · exact hl'.isSome
      · exact hl'.mem_isSome hmem
    rw [hnone] at hsome
    cases hsome
  · exact fun k hk => h.kept k fun c hc => hk c (hmono c hc)

theorem Pruned.fits {fuel : Nat} (h : Pruned nodes nodes' cut) (hc : Fits nodes c fuel) :
    Fits nodes' c fuel :=
  ⟨hc.1, fun k above below hk => hc.2 k above below (h.chain_old hk)⟩

/-- Cutting out the children and then the node cuts out the node. -/
theorem Pruned.delete (h : Pruned nodes nodes' fun c => nodes c = some (some p))
    (hchain : ∀ k, (nodes k).isSome = true → ∃ l, Chain nodes k l) (hp : nodes'' p = none)
    (hsame : ∀ k, k ≠ p → nodes'' k = nodes' k) : Pruned nodes nodes'' fun c => c = p := by
  constructor
  · rintro c k rfl hsub
    by_cases hk : k = c
    · rwa [hk]
    · rw [hsame k hk]
      obtain hck | ⟨d, hd, hdk⟩ := hsub.cases_child
      · exact absurd hck.symm hk
      · exact h.gone d k hd hdk
  · intro k hk
    have hnot := hk p rfl
    by_cases hkp : k = p
    · rw [hkp] at hnot ⊢
      rw [hp]
      cases hnodes : nodes p with
      | none => rfl
      | some parent =>
        obtain ⟨l, hl⟩ := hchain p (by rw [hnodes]; rfl)
        exact absurd ⟨l, hl, .inl rfl⟩ hnot
    · rw [hsame k hkp]
      exact h.kept k fun c hc hsub => hnot (hsub.of_child hc)

end SuperFunctions.Lib.Forest
