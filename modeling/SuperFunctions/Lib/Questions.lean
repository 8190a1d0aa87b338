import Mathlib.Tactic.Common

/-!
# Computations that ask

A computation asks one question after the other and goes on with what it is answered. When the
answers are those of a function it has one result, and when there is a choice of answers it has
the results of all the ways in which they can be given.
-/
namespace SuperFunctions.Lib.Questions

universe u v w

inductive Interaction (Q : Type u) (A : Type v) (R : Type w) where
  | done (result : R)
  | ask (question : Q) (next : A → Interaction Q A R)

namespace Interaction

variable {Q : Type u} {A : Type v} {R S : Type w}

def bind : Interaction Q A R → (R → Interaction Q A S) → Interaction Q A S
  | done result, f => f result
  | ask question next, f => ask question fun answer => (next answer).bind f

/-- The result when every question is answered by `oracle`. -/
def run (oracle : Q → A) : Interaction Q A R → R
  | done result => result
  | ask question next => (next (oracle question)).run oracle

/-- A result that some of the given answers lead to. -/
inductive Yields (answers : Q → A → Prop) : Interaction Q A R → R → Prop where
  | done (result : R) : Yields answers (done result) result
  | ask {question : Q} {answer : A} {next : A → Interaction Q A R} {result : R}
      (hanswer : answers question answer) (hnext : Yields answers (next answer) result) :
      Yields answers (ask question next) result

variable {answers : Q → A → Prop} {oracle : Q → A}

theorem yields_run (horacle : ∀ q, answers q (oracle q)) (c : Interaction Q A R) :
    Yields answers c (c.run oracle) := by
  induction c with
  | done result => exact .done result
  | ask question next ih => exact .ask (horacle question) (ih (oracle question))

theorem eq_run_of_yields (honly : ∀ q a, answers q a → a = oracle q) {c : Interaction Q A R}
    {result : R} (h : Yields answers c result) : result = c.run oracle := by
  induction h with
  | done result => rfl
  | ask hanswer _ ih =>
    rwa [honly _ _ hanswer] at ih

end Interaction

end SuperFunctions.Lib.Questions
