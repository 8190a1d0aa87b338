import Mathlib.Data.List.Basic
import Mathlib.Order.Bounds.Defs
import Mathlib.Order.MinMax

/-!
# Edit distance

The fewest insertions, deletions and substitutions that turn one list into another, by recursion on
both.
-/
namespace SuperFunctions.Lib.EditDistance

open List

variable {α : Type}

/-- One insertion, deletion or substitution. -/
inductive Edit : List α → List α → Prop
  | insert (x : α) (l : List α) : Edit l (x :: l)
  | delete (x : α) (l : List α) : Edit (x :: l) l
  | substitute (x y : α) (l : List α) : Edit (x :: l) (y :: l)
  | cons (x : α) {l l' : List α} (h : Edit l l') : Edit (x :: l) (x :: l')

inductive Edits : Nat → List α → List α → Prop
  | refl (l : List α) : Edits 0 l l
  | step {n : Nat} {a b c : List α} (h : Edit a b) (hs : Edits n b c) : Edits (n + 1) a c

section Edits

variable {a b c : List α} {m n : Nat}

theorem Edit.symm (h : Edit a b) : Edit b a := by
  induction h with
  | insert x l => exact .delete x l
  | delete x l => exact .insert x l
  | substitute x y l => exact .substitute y x l
  | cons x h ih => exact .cons x ih

theorem Edit.append_left (p : List α) (h : Edit a b) : Edit (p ++ a) (p ++ b) := by
  induction p with
  | nil => exact h
  | cons x p ih => exact .cons x ih

theorem Edit.append_right (p : List α) (h : Edit a b) : Edit (a ++ p) (b ++ p) := by
  induction h with
  | insert x l => exact .insert x _
  | delete x l => exact .delete x _
  | substitute x y l => exact .substitute x y _
  | cons x h ih => exact .cons x ih

theorem Edit.reverse (h : Edit a b) : Edit a.reverse b.reverse := by
  induction h with
  | insert x l =>
    simpa using Edit.append_left l.reverse (.insert x [])
  | delete x l =>
    simpa using Edit.append_left l.reverse (.delete x [])
  | substitute x y l =>
    rw [reverse_cons, reverse_cons]
    exact .append_left _ (.substitute x y [])
  | cons x h ih =>
    rw [reverse_cons, reverse_cons]
    exact ih.append_right _

theorem Edits.trans (h : Edits m a b) (h' : Edits n b c) : Edits (m + n) a c := by
  induction h with
  | refl l => simpa using h'
  | @step k a b d hedit _ ih =>
    rw [Nat.add_right_comm]
    exact .step hedit (ih h')

theorem Edits.symm (h : Edits n a b) : Edits n b a := by
  induction h with
  | refl l => exact .refl l
  | step hedit _ ih => exact ih.trans (.step hedit.symm (.refl _))

theorem Edits.map {f : List α → List α} (hf : ∀ {a b}, Edit a b → Edit (f a) (f b))
    (h : Edits n a b) : Edits n (f a) (f b) := by
  induction h with
  | refl l => exact .refl _
  | step hedit _ ih => exact .step (hf hedit) ih

theorem Edit.length_le (h : Edit a b) : a.length ≤ b.length + 1 := by
  induction h with
  | insert x l => exact Nat.le_add_right l.length 2
  | delete x l => exact le_rfl
  | substitute x y l => exact Nat.le_succ _
  | cons x h ih => simpa using ih

theorem Edits.length_le (h : Edits n a b) : a.length ≤ b.length + n := by
  induction h with
  | refl l => omega
  | step hedit _ ih =>
    have hone := hedit.length_le
    omega

theorem edits_insert (b : List α) : Edits b.length [] b := by
  induction b with
  | nil => exact .refl []
  | cons y b ih => exact ih.trans (.step (.insert y b) (.refl _))

end Edits

variable [DecidableEq α]

def editDistance : List α → List α → Nat
  | [], b => b.length
  | _ :: a, [] => a.length + 1
  | x :: a, y :: b =>
    if x = y then editDistance a b
    else min (min (editDistance a b) (editDistance (x :: a) b)) (editDistance a (y :: b)) + 1
termination_by a b => a.length + b.length

theorem editDistance_nil (a : List α) : editDistance a [] = a.length := by
  cases a <;> simp [editDistance]

theorem editDistance_comm (a b : List α) : editDistance a b = editDistance b a := by
  fun_induction editDistance a b with
  | case1 b => rw [editDistance_nil]
  | case2 x a => simp [editDistance]
  | case3 a x b ih => simpa [editDistance] using ih
  | case4 x a y b hne ih₁ ih₂ ih₃ =>
    rw [editDistance, if_neg (Ne.symm hne), ih₁, ih₂, ih₃, min_right_comm]

/-- A unit more changes the distance by one at most. -/
theorem editDistance_cons (a b : List α) (x : α) :
    editDistance (x :: a) b ≤ editDistance a b + 1 ∧
      editDistance a b ≤ editDistance (x :: a) b + 1 := by
  match b with
  | [] =>
    rw [editDistance_nil, editDistance_nil, length_cons]
    omega
  | y :: b =>
    have hright := editDistance_cons b a y
    rw [editDistance_comm (y :: b), editDistance_comm b] at hright
    have hleft := editDistance_cons a b x
    rw [editDistance]
    split
    · omega
    · omega
termination_by a.length + b.length

theorem editDistance_cons_cons (a b : List α) (x y : α) :
    editDistance (x :: a) (y :: b) ≤ editDistance a b + 1 ∧
      editDistance a b ≤ editDistance (x :: a) (y :: b) := by
  have hright := editDistance_cons b a y
  rw [editDistance_comm (y :: b), editDistance_comm b] at hright
  have hleft := editDistance_cons a b x
  rw [editDistance]
  split
  · omega
  · omega

theorem editDistance_edit {a a' : List α} (h : Edit a a') (c : List α) :
    editDistance a c ≤ editDistance a' c + 1 := by
  induction h generalizing c with
  | insert x l => exact (editDistance_cons l c x).2
  | delete x l => exact (editDistance_cons l c x).1
  | substitute x y l =>
    cases c with
    | nil => simp [editDistance_nil]
    | cons z c =>
      have hx := (editDistance_cons_cons l c x z).1
      have hy := (editDistance_cons_cons l c y z).2
      omega
  | @cons x l l' h ih =>
    induction c with
    | nil =>
      have hlength := h.length_le
      simpa [editDistance_nil] using hlength
    | cons z c ihc =>
      have hboth := ih c
      have hone := ih (z :: c)
      rw [editDistance, editDistance]
      split
      · exact hboth
      · omega

theorem editDistance_self (a : List α) : editDistance a a = 0 := by
  induction a with
  | nil => exact editDistance_nil []
  | cons x a ih => rw [editDistance, if_pos rfl, ih]

theorem editDistance_le {a b : List α} {n : Nat} (h : Edits n a b) : editDistance a b ≤ n := by
  induction h with
  | refl l => exact Nat.le_of_eq (editDistance_self l)
  | @step k a b c hedit _ ih =>
    have hone := editDistance_edit hedit c
    omega

theorem edits_editDistance (a b : List α) : Edits (editDistance a b) a b := by
  fun_induction editDistance a b with
  | case1 b => exact edits_insert b
  | case2 x a => exact (edits_insert (x :: a)).symm
  | case3 a x b ih => exact ih.map (.cons x)
  | case4 x a y b hne ih₁ ih₂ ih₃ =>
    rcases min_choice (min (editDistance a b) (editDistance (x :: a) b))
      (editDistance a (y :: b)) with hmin | hmin
    · rw [hmin]
      rcases min_choice (editDistance a b) (editDistance (x :: a) b) with hmin | hmin
      · rw [hmin]
        exact .step (.substitute x y a) (ih₁.map (.cons y))
      · rw [hmin]
        exact ih₂.trans (.step (.insert y b) (.refl _))
    · rw [hmin]
      exact .step (.delete x a) ih₃

theorem isLeast_editDistance (a b : List α) : IsLeast {n | Edits n a b} (editDistance a b) :=
  ⟨edits_editDistance a b, fun _ => editDistance_le⟩

theorem editDistance_reverse (a b : List α) :
    editDistance a.reverse b.reverse = editDistance a b := by
  apply Nat.le_antisymm
  · exact editDistance_le ((edits_editDistance a b).map Edit.reverse)
  · have hback := (edits_editDistance a.reverse b.reverse).map Edit.reverse
    rw [reverse_reverse, reverse_reverse] at hback
    exact editDistance_le hback

theorem editDistance_eq_zero {a b : List α} (h : editDistance a b = 0) : a = b := by
  have hedits := edits_editDistance a b
  rw [h] at hedits
  cases hedits
  rfl

theorem editDistance_triangle (a b c : List α) :
    editDistance a c ≤ editDistance a b + editDistance b c :=
  editDistance_le ((edits_editDistance a b).trans (edits_editDistance b c))

end SuperFunctions.Lib.EditDistance
