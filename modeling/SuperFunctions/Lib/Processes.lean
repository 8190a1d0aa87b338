import Mathlib.Algebra.BigOperators.Group.List.Basic
import Mathlib.Data.List.Nodup
import Mathlib.Tactic.Abel

/-!
# Guarded runs of a transition system

A system is a partial step function on states and actions. A run is a list of actions, and a
guard is a condition on the state in which each of them is taken. Every list of actions is a
run, so a fact about the last state of every run is a fact about every state reached.
-/
namespace SuperFunctions.Lib.Transition

universe u v

variable {σ : Type u} {ι : Type v} (step : σ → ι → Option σ)

/-- The state after a list of actions, when every one of them is enabled. -/
def run : σ → List ι → Option σ
  | s, [] => some s
  | s, a :: as => (step s a).bind fun s' => run s' as

variable {as : List ι}

theorem run_cons {s s' : σ} {a : ι} (h : run step s (a :: as) = some s') :
    ∃ m, step s a = some m ∧ run step m as = some s' := by
  simpa [run, Option.bind_eq_some_iff] using h

/-- Every action of the run meets `guard` in the state in which it is taken. -/
def Guarded (guard : σ → ι → Prop) : σ → List ι → Prop
  | _, [] => True
  | s, a :: as => guard s a ∧ ∀ m, step s a = some m → Guarded guard m as

instance decidableGuarded (guard : σ → ι → Prop) [∀ s a, Decidable (guard s a)] :
    ∀ (s : σ) (as : List ι), Decidable (Guarded step guard s as)
  | _, [] => isTrue trivial
  | s, a :: as =>
    match h : step s a with
    | none => decidable_of_iff (guard s a) (by simp [Guarded, h])
    | some m =>
      have := decidableGuarded guard m as
      decidable_of_iff (guard s a ∧ Guarded step guard m as) (by simp [Guarded, h])

variable {guard : σ → ι → Prop}

theorem guarded_append {s m : σ} {bs : List ι} (h : Guarded step guard s (as ++ bs))
    (hrun : run step s as = some m) : Guarded step guard s as ∧ Guarded step guard m bs := by
  induction as generalizing s with
  | nil =>
    cases hrun
    exact ⟨trivial, h⟩
  | cons a as ih =>
    obtain ⟨t, ht, hrest⟩ := run_cons step hrun
    obtain ⟨hguard, hafter⟩ := h
    obtain ⟨hleft, hright⟩ := ih (hafter t ht) hrest
    refine ⟨⟨hguard, fun t' ht' => ?_⟩, hright⟩
    have hsame : t = t' := Option.some.inj (ht.symm.trans ht')
    exact hsame ▸ hleft

variable {inv : σ → Prop}

/-- The induction rule: what a guarded step preserves holds at the end of a guarded run. -/
theorem guarded_run_invariant (hstep : ∀ s a s', inv s → guard s a → step s a = some s' → inv s')
    {s s' : σ} (hs : inv s) (hg : Guarded step guard s as) (hr : run step s as = some s') :
    inv s' := by
  induction as generalizing s with
  | nil =>
    cases hr
    exact hs
  | cons a as ih =>
    obtain ⟨m, hm, hrest⟩ := run_cons step hr
    exact ih (hstep s a m hs hg.1 hm) (hg.2 m hm) hrest

/-- The induction rule for runs without a guard. -/
theorem run_invariant (hstep : ∀ s a s', inv s → step s a = some s' → inv s') {s s' : σ}
    (hs : inv s) (hr : run step s as = some s') : inv s' := by
  induction as generalizing s with
  | nil =>
    cases hr
    exact hs
  | cons a as ih =>
    obtain ⟨m, hm, hrest⟩ := run_cons step hr
    exact ih (hstep s a m hs hm) hrest

/-- The rule for guarded steps that are always enabled. -/
theorem guarded_run_progress (hstep : ∀ s a, inv s → guard s a → ∃ s', step s a = some s' ∧ inv s')
    {s : σ} (hs : inv s) (hg : Guarded step guard s as) :
    ∃ s', run step s as = some s' ∧ inv s' := by
  induction as generalizing s with
  | nil => exact ⟨s, rfl, hs⟩
  | cons a as ih =>
    obtain ⟨m, hm, hinv⟩ := hstep s a hs hg.1
    obtain ⟨s', hrun, hend⟩ := ih hinv (hg.2 m hm)
    exact ⟨s', by rw [run, hm]; exact hrun, hend⟩

/-- A forward simulation: what each guarded step does, a step of the other system under the same
action does as well. -/
theorem guarded_run_simulates {τ : Type*} {step' : τ → ι → Option τ} {rel : σ → τ → Prop}
    (hstep : ∀ s a s' t, rel s t → guard s a → step s a = some s' →
      ∃ t', step' t a = some t' ∧ rel s' t') {s s' : σ} {t : τ} (hs : rel s t)
    (hg : Guarded step guard s as) (hr : run step s as = some s') :
    ∃ t', run step' t as = some t' ∧ rel s' t' := by
  induction as generalizing s t with
  | nil =>
    cases hr
    exact ⟨t, rfl, hs⟩
  | cons a as ih =>
    obtain ⟨m, hm, hrest⟩ := run_cons step hr
    obtain ⟨t₁, ht₁, hrel⟩ := hstep s a m t hs hg.1 hm
    obtain ⟨t', ht', hend⟩ := ih hrel (hg.2 m hm) hrest
    refine ⟨t', ?_, hend⟩
    rwa [run, ht₁]

end SuperFunctions.Lib.Transition

/-!
# Concurrent processes over one shared state

Each process is a state of its own. An action starts a process or lets one of them make its next
move on the shared state, so a list of actions is an interleaving and a process that is never
moved again has crashed where it stands.
-/
namespace SuperFunctions.Lib.Processes

open Option

open List

universe u v w x

structure System (σ : Type u) (π : Type v) where
  shared : σ
  procs : List π

inductive Act (ι : Type w) (γ : Type x)
  | spawn (a : ι)
  | move (i : Nat) (choice : γ)

variable {σ : Type u} {π : Type v} {ι : Type w} {γ : Type x} {s : System σ π}

section Step

variable (init : ι → π) (next : σ → Nat → π → γ → Option (σ × π))

/-- One action. A process moves under its own number, so that it can leave its mark in what is
shared. -/
def act : System σ π → Act ι γ → Option (System σ π)
  | s, .spawn a => some ⟨s.shared, s.procs ++ [init a]⟩
  | s, .move i c => (s.procs[i]?).bind fun p =>
      (next s.shared i p c).map fun r => ⟨r.1, s.procs.set i r.2⟩

variable {init next}

theorem act_cases {s' : System σ π} {a : Act ι γ} (h : act init next s a = some s') :
    (∃ b, a = .spawn b ∧ s' = ⟨s.shared, s.procs ++ [init b]⟩) ∨
    ∃ i c p t q, a = .move i c ∧ s.procs[i]? = some p ∧ next s.shared i p c = some (t, q) ∧
      s' = ⟨t, s.procs.set i q⟩ := by
  cases a with
  | spawn b => exact .inl ⟨b, rfl, (some.inj h).symm⟩
  | move i c =>
    obtain ⟨p, hp, hrest⟩ := bind_eq_some_iff.mp h
    obtain ⟨r, hr, hs⟩ := map_eq_some_iff.mp hrest
    exact .inr ⟨i, c, p, r.1, r.2, rfl, hp, hr, hs.symm⟩

end Step

/-- What holds of a process and what is shared holds of every process of the system. -/
def Each (G : σ → Nat → π → Prop) (s : System σ π) : Prop :=
  ∀ i p, s.procs[i]? = some p → G s.shared i p

theorem each_nil (G : σ → Nat → π → Prop) (t : σ) : Each G ⟨t, []⟩ := by
  intro i p h
  simp at h

variable {p q : π} {l : List π} {j : Nat}

theorem append_cases (h : (l ++ [p])[j]? = some q) : l[j]? = some q ∨ j = l.length ∧ q = p := by
  by_cases hj : j < l.length
  · rw [List.getElem?_append_left hj] at h
    exact .inl h
  rw [List.getElem?_append_right (by omega)] at h
  obtain ⟨hzero, hpq⟩ := List.getElem?_eq_some_iff.mp h
  simp only [List.length_singleton] at hzero
  have hlast : j = l.length := by omega
  have hq : q = p := by simpa using hpq.symm
  exact .inr ⟨hlast, hq⟩

variable {i : Nat}

theorem set_cases (h : (l.set i p)[j]? = some q) : j = i ∧ q = p ∨ j ≠ i ∧ l[j]? = some q := by
  by_cases hij : j = i
  · subst hij
    have hlen : j < l.length := by
      have hset := (List.getElem?_eq_some_iff.mp h).1
      rwa [List.length_set] at hset
    rw [List.getElem?_set_self hlen] at h
    exact .inl ⟨rfl, (Option.some.inj h).symm⟩
  · rw [List.getElem?_set_ne (fun heq => hij heq.symm)] at h
    exact .inr ⟨hij, h⟩

theorem moved_mem (q : π) (h : l[i]? = some p) : q ∈ l.set i q :=
  List.mem_set (List.getElem?_eq_some_iff.mp h).1 q

theorem exists_set {P : π → Prop} (q : π) (hp : l[i]? = some p) (h : ∃ r ∈ l, P r) :
    P p ∨ ∃ r ∈ l.set i q, P r := by
  obtain ⟨r, hr, hP⟩ := h
  obtain ⟨j, hj⟩ := mem_iff_getElem?.mp hr
  by_cases hij : i = j
  · subst hij
    have hsame : p = r := some.inj (hp.symm.trans hj)
    exact .inl (hsame ▸ hP)
  · refine .inr ⟨r, mem_iff_getElem?.mpr ⟨j, ?_⟩, hP⟩
    rwa [getElem?_set_ne hij]

theorem each_spawn {G : σ → Nat → π → Prop} (h : Each G s) (hp : G s.shared s.procs.length p) :
    Each G ⟨s.shared, s.procs ++ [p]⟩ := by
  intro i q hq
  rcases append_cases hq with hold | ⟨hlast, hnew⟩
  · exact h i q hold
  · subst hlast hnew
    exact hp

/-- The rule for a move: the process that moved is given, every other one keeps what it had. -/
theorem each_move {G : σ → Nat → π → Prop} {t : σ} (hown : G t i q)
    (hothers : ∀ j r, j ≠ i → s.procs[j]? = some r → G t j r) : Each G ⟨t, s.procs.set i q⟩ := by
  intro j r hr
  rcases set_cases hr with ⟨hmoved, hnew⟩ | ⟨hne, hold⟩
  · subst hmoved hnew
    exact hown
  · exact hothers j r hne hold

/-- What holds of any two processes of the system, a process and itself included. -/
def Pairs (G : Nat → π → Nat → π → Prop) (s : System σ π) : Prop :=
  ∀ i j p q, s.procs[i]? = some p → s.procs[j]? = some q → G i p j q

theorem pairs_nil (G : Nat → π → Nat → π → Prop) (t : σ) : Pairs G ⟨t, []⟩ := by
  intro i j p q h
  simp at h

variable {G : Nat → π → Nat → π → Prop}

theorem pairs_spawn (h : Pairs G s) (hown : G s.procs.length p s.procs.length p)
    (hleft : ∀ j r, s.procs[j]? = some r → G s.procs.length p j r)
    (hright : ∀ j r, s.procs[j]? = some r → G j r s.procs.length p) :
    Pairs G ⟨s.shared, s.procs ++ [p]⟩ := by
  intro i j q r hq hr
  rcases append_cases hq with hleftOld | ⟨hi, hnew⟩
  · rcases append_cases hr with hrightOld | ⟨hj, hlast⟩
    · exact h i j q r hleftOld hrightOld
    · subst hj hlast
      exact hright i q hleftOld
  · subst hi hnew
    rcases append_cases hr with hrightOld | ⟨hj, hlast⟩
    · exact hleft j r hrightOld
    · subst hj hlast
      exact hown

theorem pairs_move {t : σ} (h : Pairs G s) (hown : G i q i q)
    (hleft : ∀ j r, j ≠ i → s.procs[j]? = some r → G i q j r)
    (hright : ∀ j r, j ≠ i → s.procs[j]? = some r → G j r i q) : Pairs G ⟨t, s.procs.set i q⟩ := by
  intro j k a b ha hb
  rcases set_cases ha with ⟨hj, hnew⟩ | ⟨hj, hleftOld⟩
  · subst hj hnew
    rcases set_cases hb with ⟨hk, hlast⟩ | ⟨hk, hrightOld⟩
    · subst hk hlast
      exact hown
    · exact hleft k b hk hrightOld
  · rcases set_cases hb with ⟨hk, hlast⟩ | ⟨hk, hrightOld⟩
    · subst hk hlast
      exact hright j a hj hleftOld
    · exact h j k a b hleftOld hrightOld

section Sums

variable {M : Type*} [AddCommGroup M] (f : π → M)

/-- What the processes add up to. -/
def total (s : System σ π) : M := (s.procs.map f).sum

theorem total_spawn (s : System σ π) (p : π) :
    total f (σ := σ) ⟨s.shared, s.procs ++ [p]⟩ = total f s + f p := by
  simp [total]

theorem sum_map_set (q : π) (h : l[i]? = some p) :
    ((l.set i q).map f).sum = (l.map f).sum + (f q - f p) := by
  induction l generalizing i with
  | nil => simp at h
  | cons r l ih =>
    cases i with
    | zero =>
      have hp : r = p := by simpa using h
      subst hp
      simp only [set_cons_zero, map_cons, sum_cons]
      abel
    | succ i =>
      have hrest : l[i]? = some p := by simpa using h
      simp only [set_cons_succ, map_cons, sum_cons, ih hrest]
      abel

theorem total_move (t : σ) (q : π) (h : s.procs[i]? = some p) :
    total f (σ := σ) ⟨t, s.procs.set i q⟩ = total f s + (f q - f p) :=
  sum_map_set f q h

end Sums

theorem nodup_map_append {α β : Type*} {f : α → β} {l : List α} {a : α} (h : (l.map f).Nodup)
    (ha : ∀ b ∈ l, f b ≠ f a) : ((l ++ [a]).map f).Nodup := by
  rw [map_append]
  refine nodup_append.mpr ⟨h, nodup_singleton _, ?_⟩
  intro x hx y hy
  obtain ⟨b, hb, rfl⟩ := mem_map.mp hx
  rw [mem_singleton.mp hy]
  exact ha b hb

end SuperFunctions.Lib.Processes
