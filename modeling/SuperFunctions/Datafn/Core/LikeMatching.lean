import Mathlib.Data.List.TakeWhile
import Mathlib.Data.Prod.Lex
import SuperFunctions.Lib.Encodings
import SuperFunctions.Lib.Wildcards

/-!
# LIKE patterns

The matcher of `$like` and `$ilike` over UTF-16 code units. It keeps one point to come back to,
the last `%` it has passed, and still finds every match.
-/
namespace SuperFunctions.Datafn.Core.LikeMatching

open Lib.Utf16 Lib.Wildcards List Nat

def percent : UInt16 := 37

def underscore : UInt16 := 95

/-- The variables of the loop. -/
structure Cursor where
  patternIndex : Nat
  targetIndex : Nat
  wildcardIndex : Option Nat
  matchIndex : Nat

inductive Outcome where
  | next (c : Cursor)
  | mismatch
  | done (patternIndex : Nat)

section
variable (source target : Text)

/-- One round of the loop; `source[i]` outside of the text is no code unit. -/
def round (c : Cursor) : Outcome :=
  match target[c.targetIndex]? with
  | none => .done c.patternIndex
  | some unit =>
    let token := source[c.patternIndex]?
    if token = some percent then
      .next { c with
        wildcardIndex := some c.patternIndex
        patternIndex := c.patternIndex + 1
        matchIndex := c.targetIndex }
    else if token = some underscore ∨ token = some unit then
      .next { c with patternIndex := c.patternIndex + 1, targetIndex := c.targetIndex + 1 }
    else
      match c.wildcardIndex with
      | some wildcard =>
        .next { c with
          patternIndex := wildcard + 1
          matchIndex := c.matchIndex + 1
          targetIndex := c.matchIndex + 1 }
      | none => .mismatch

/-- The second loop: past the `%` that follow. -/
def skipWildcards (patternIndex : Nat) : Nat :=
  patternIndex + ((source.drop patternIndex).takeWhile fun unit => unit = percent).length

/-- At most `rounds` rounds; `none` when they are not enough. -/
def scan : Nat → Cursor → Option Bool
  | 0, _ => none
  | rounds + 1, c =>
    match round source target c with
    | .next c' => scan rounds c'
    | .mismatch => some false
    | .done patternIndex => some (skipWildcards source patternIndex = source.length)

end

def start : Cursor := ⟨0, 0, none, 0⟩

def fold (toLowerCase : Text → Text) (caseInsensitive : Bool) (text : Text) : Text :=
  if caseInsensitive then toLowerCase text else text

def likeMatches (toLowerCase : Text → Text) (rounds : Nat) (pattern candidate : Text)
    (caseInsensitive : Bool) : Option Bool :=
  scan (fold toLowerCase caseInsensitive pattern) (fold toLowerCase caseInsensitive candidate)
    rounds start

/-! ## The language of a pattern -/

def item (unit : UInt16) : Item UInt16 :=
  if unit = percent then .word else if unit = underscore then .letter else .unit unit

def patternLanguage (source : Text) : Language UInt16 := language (source.map item)

theorem item_eq_word {unit : UInt16} : item unit = .word ↔ unit = percent := by
  unfold item
  split_ifs with hpercent hunderscore
  · simp [hpercent]
  · simp [hpercent]
  · simp [hpercent]

theorem takes_item {unit a : UInt16} (h : unit ≠ percent) :
    (item unit).Takes a ↔ unit = underscore ∨ unit = a := by
  unfold item
  rw [if_neg h]
  split_ifs with hunderscore
  · simp [Item.Takes, hunderscore]
  · simp only [Item.Takes, hunderscore, false_or]
    exact eq_comm

variable {source target : Text}

theorem nil_mem_patternLanguage : [] ∈ patternLanguage source ↔ ∀ unit ∈ source, unit = percent := by
  rw [patternLanguage, nil_mem_language, forall_mem_map]
  simp only [item_eq_word]

theorem drop_eq_cons {i : Nat} {unit : UInt16} (h : source[i]? = some unit) :
    source.drop i = unit :: source.drop (i + 1) := by
  obtain ⟨hi, hunit⟩ := List.getElem?_eq_some_iff.mp h
  rw [drop_eq_getElem_cons hi, hunit]

/-! ## What a round keeps -/

/-- The candidate can still match: from here on, or from a later place on behind the last `%`. -/
def Open (source target : Text) (c : Cursor) : Prop :=
  target.drop c.targetIndex ∈ patternLanguage (source.drop c.patternIndex) ∨
    ∃ wildcard, c.wildcardIndex = some wildcard ∧ ∃ k, c.matchIndex < k ∧ k ≤ target.length ∧
      target.drop k ∈ patternLanguage (source.drop (wildcard + 1))

/-- Behind the last `%` stand as many items without `%` as code units have been taken. -/
structure Located (source target : Text) (c : Cursor) : Prop where
  pattern_le : c.patternIndex ≤ source.length
  target_le : c.targetIndex ≤ target.length
  segment : ∀ wildcard, c.wildcardIndex = some wildcard → wildcard < c.patternIndex ∧
    ∃ taken : Text, source.drop (wildcard + 1) = taken ++ source.drop c.patternIndex ∧
      c.matchIndex + taken.length = c.targetIndex ∧ percent ∉ taken

/-- How far a loop is from its end: it moves the last `%` on, or the place to come back to, or
the place in the candidate. -/
def remaining (source target : Text) (c : Cursor) : Nat ×ₗ Nat ×ₗ Nat :=
  toLex (source.length - c.wildcardIndex.elim 0 (· + 1),
    toLex (target.length - c.matchIndex, target.length - c.targetIndex))

/-- Every round goes on from a cursor that is as open as before, or tells the answer. -/
structure GoesOn (source target : Text) (c c' : Cursor) : Prop where
  located : Located source target c'
  open_iff : Open source target c ↔ Open source target c'
  remaining_lt : remaining source target c' < remaining source target c

theorem located_start : Located source target start where
  pattern_le := zero_le _
  target_le := zero_le _
  segment _ h := by cases h

theorem open_start : Open source target start ↔ target ∈ patternLanguage source := by
  simp [Open, start]

/-- At a `%` the earliest place behind it is good enough. -/
theorem goesOn_wildcard {c : Cursor} (hc : Located source target c)
    (htarget : c.targetIndex < target.length) (htoken : source[c.patternIndex]? = some percent) :
    GoesOn source target c { c with
      wildcardIndex := some c.patternIndex
      patternIndex := c.patternIndex + 1
      matchIndex := c.targetIndex } := by
  have hpattern : c.patternIndex < source.length := (List.getElem?_eq_some_iff.mp htoken).1
  have hdrop := drop_eq_cons htoken
  have hword : ∀ w, w ∈ patternLanguage (source.drop c.patternIndex) ↔
      ∃ n ≤ w.length, w.drop n ∈ patternLanguage (source.drop (c.patternIndex + 1)) := by
    intro w
    rw [hdrop, patternLanguage, map_cons, item_eq_word.mpr rfl, mem_language_word]
    rfl
  refine ⟨⟨hpattern, hc.target_le, ?_⟩, ⟨?_, ?_⟩, ?_⟩
  · intro wildcard hwildcard
    cases hwildcard
    refine ⟨Nat.lt_succ_self _, [], rfl, rfl, ?_⟩
    exact not_mem_nil
  · have hlater : ∀ k, c.targetIndex ≤ k → k ≤ target.length →
        target.drop k ∈ patternLanguage (source.drop (c.patternIndex + 1)) →
        Open source target { c with
          wildcardIndex := some c.patternIndex
          patternIndex := c.patternIndex + 1
          matchIndex := c.targetIndex } := by
      intro k hk hle hmem
      rcases Nat.eq_or_lt_of_le hk with heq | hlt
      · left
        rwa [← heq] at hmem
      · right
        exact ⟨_, rfl, k, hlt, hle, hmem⟩
    intro hopen
    rcases hopen with hhere | ⟨wildcard, hwildcard, k, hk, hle, hmem⟩
    · obtain ⟨n, hn, hrest⟩ := (hword _).mp hhere
      rw [length_drop] at hn
      rw [drop_drop] at hrest
      exact hlater (c.targetIndex + n) (by omega) (by omega) hrest
    · obtain ⟨-, taken, hsplit, hlength, hnone⟩ := hc.segment wildcard hwildcard
      have hitems : ∀ i ∈ taken.map item, i ≠ Item.word := by
        intro i hi hword
        obtain ⟨unit, hunit, rfl⟩ := mem_map.mp hi
        rw [item_eq_word.mp hword] at hunit
        exact hnone hunit
      rw [hsplit, hdrop, patternLanguage, map_append, map_cons, item_eq_word.mpr rfl] at hmem
      obtain ⟨n, hn, hnle, hrest⟩ := mem_language_later hitems hle hmem
      rw [length_map] at hn
      exact hlater n (by omega) hnle hrest
  · intro hopen
    left
    rcases hopen with hhere | ⟨wildcard, hwildcard, k, hk, hle, hmem⟩
    · exact (hword _).mpr ⟨0, Nat.zero_le _, hhere⟩
    cases hwildcard
    have hk' : c.targetIndex < k := hk
    refine (hword _).mpr ⟨k - c.targetIndex, ?_, ?_⟩
    · rw [length_drop]
      omega
    · rwa [drop_drop, show c.targetIndex + (k - c.targetIndex) = k from by omega]
  · apply Prod.Lex.toLex_lt_toLex.mpr
    left
    cases hwildcard : c.wildcardIndex with
    | none =>
      show source.length - (c.patternIndex + 1) < source.length - 0
      omega
    | some wildcard =>
      have hlt := (hc.segment wildcard hwildcard).1
      show source.length - (c.patternIndex + 1) < source.length - (wildcard + 1)
      omega

theorem mem_taken {c : Cursor} {token unit : UInt16} (htoken : source[c.patternIndex]? = some token)
    (hunit : target[c.targetIndex]? = some unit) (hpercent : token ≠ percent) :
    target.drop c.targetIndex ∈ patternLanguage (source.drop c.patternIndex) ↔
      (token = underscore ∨ token = unit) ∧
        target.drop (c.targetIndex + 1) ∈ patternLanguage (source.drop (c.patternIndex + 1)) := by
  have hitem : item token ≠ .word := fun hword => hpercent (item_eq_word.mp hword)
  rw [drop_eq_cons htoken, drop_eq_cons hunit, patternLanguage, map_cons, mem_language_single hitem]
  constructor
  · intro ⟨a, rest, hcons, htakes, hrest⟩
    cases hcons
    exact ⟨(takes_item hpercent).mp htakes, hrest⟩
  · intro ⟨htakes, hrest⟩
    exact ⟨unit, _, rfl, (takes_item hpercent).mpr htakes, hrest⟩

theorem goesOn_taken {c : Cursor} {token unit : UInt16} (hc : Located source target c)
    (hunit : target[c.targetIndex]? = some unit) (htoken : source[c.patternIndex]? = some token)
    (hpercent : token ≠ percent) (htakes : token = underscore ∨ token = unit) :
    GoesOn source target c { c with
      patternIndex := c.patternIndex + 1
      targetIndex := c.targetIndex + 1 } := by
  have hpattern : c.patternIndex < source.length := (List.getElem?_eq_some_iff.mp htoken).1
  have htarget : c.targetIndex < target.length := (List.getElem?_eq_some_iff.mp hunit).1
  refine ⟨⟨hpattern, htarget, ?_⟩, ?_, ?_⟩
  · intro wildcard hwildcard
    obtain ⟨hlt, taken, hsplit, hlength, hnone⟩ := hc.segment wildcard hwildcard
    refine ⟨Nat.lt_succ_of_lt hlt, taken ++ [token], ?_, ?_, ?_⟩
    · rw [hsplit, drop_eq_cons htoken, append_assoc]
      rfl
    · show c.matchIndex + (taken ++ [token]).length = c.targetIndex + 1
      rw [length_append, length_singleton]
      omega
    · intro hmem
      rcases mem_append.mp hmem with hmem | hmem
      · exact hnone hmem
      · exact hpercent (mem_singleton.mp hmem).symm
  · unfold Open
    rw [mem_taken htoken hunit hpercent]
    simp only [htakes, true_and]
  · apply Prod.Lex.toLex_lt_toLex.mpr
    right
    refine ⟨rfl, Prod.Lex.toLex_lt_toLex.mpr (Or.inr ⟨rfl, ?_⟩)⟩
    show target.length - (c.targetIndex + 1) < target.length - c.targetIndex
    omega

theorem not_mem_refused {c : Cursor} {unit : UInt16} (hunit : target[c.targetIndex]? = some unit)
    (hpercent : source[c.patternIndex]? ≠ some percent)
    (hrefused : ¬(source[c.patternIndex]? = some underscore ∨ source[c.patternIndex]? = some unit)) :
    target.drop c.targetIndex ∉ patternLanguage (source.drop c.patternIndex) := by
  intro hmem
  cases htoken : source[c.patternIndex]? with
  | none =>
    rw [drop_eq_nil_of_le (getElem?_eq_none_iff.mp htoken), drop_eq_cons hunit,
      patternLanguage, map_nil, mem_language_nil] at hmem
    cases hmem
  | some token =>
    rw [htoken] at hpercent hrefused
    have hne : token ≠ percent := fun heq => hpercent (congrArg some heq)
    obtain ⟨htakes, -⟩ := (mem_taken htoken hunit hne).mp hmem
    simp only [Option.some.injEq] at hrefused
    exact hrefused htakes

/-- The loop comes back to the last `%`, which takes one code unit more. -/
theorem goesOn_back {c : Cursor} {wildcard : Nat} (hc : Located source target c)
    (htarget : c.targetIndex < target.length) (hwildcard : c.wildcardIndex = some wildcard)
    (hrefused : target.drop c.targetIndex ∉ patternLanguage (source.drop c.patternIndex)) :
    GoesOn source target c { c with
      patternIndex := wildcard + 1
      matchIndex := c.matchIndex + 1
      targetIndex := c.matchIndex + 1 } := by
  obtain ⟨hlt, taken, hsplit, hlength, hnone⟩ := hc.segment wildcard hwildcard
  have hpattern := hc.pattern_le
  refine ⟨⟨?_, ?_, ?_⟩, ⟨?_, ?_⟩, ?_⟩
  · show wildcard + 1 ≤ source.length
    omega
  · show c.matchIndex + 1 ≤ target.length
    omega
  · intro wildcard' hwildcard'
    have heq : wildcard = wildcard' := Option.some.inj (hwildcard.symm.trans hwildcard')
    rw [← heq]
    exact ⟨lt_succ_self _, [], rfl, rfl, not_mem_nil⟩
  · intro hopen
    rcases hopen with hhere | ⟨wildcard', hwildcard', k, hk, hle, hmem⟩
    · exact absurd hhere hrefused
    have heq : wildcard = wildcard' := Option.some.inj (hwildcard.symm.trans hwildcard')
    rw [← heq] at hmem
    rcases eq_or_lt_of_le (succ_le_of_lt hk) with hnext | hlater
    · left
      rwa [← hnext] at hmem
    · right
      exact ⟨wildcard, hwildcard, k, hlater, hle, hmem⟩
  · intro hopen
    right
    rcases hopen with hhere | ⟨wildcard', hwildcard', k, hk, hle, hmem⟩
    · exact ⟨wildcard, hwildcard, c.matchIndex + 1, lt_succ_self _, by omega, hhere⟩
    · exact ⟨wildcard', hwildcard', k, lt_of_succ_lt hk, hle, hmem⟩
  · apply Prod.Lex.toLex_lt_toLex.mpr
    right
    refine ⟨rfl, Prod.Lex.toLex_lt_toLex.mpr (Or.inl ?_)⟩
    show target.length - (c.matchIndex + 1) < target.length - c.matchIndex
    omega

/-- At the end of the candidate only `%` may be left of the pattern. -/
theorem open_done {c : Cursor} (hc : Located source target c)
    (hend : target.length ≤ c.targetIndex) :
    Open source target c ↔ skipWildcards source c.patternIndex = source.length := by
  have htarget : c.targetIndex = target.length := le_antisymm hc.target_le hend
  have hskip : skipWildcards source c.patternIndex = source.length ↔
      ∀ unit ∈ source.drop c.patternIndex, unit = percent := by
    have hlength : (source.drop c.patternIndex).length = source.length - c.patternIndex :=
      length_drop
    have hle := ( takeWhile_prefix (l := source.drop c.patternIndex)
      fun unit => decide (unit = percent)).length_le
    have hpattern := hc.pattern_le
    have hall : (∀ unit ∈ source.drop c.patternIndex, unit = percent) ↔
        (source.drop c.patternIndex).takeWhile (fun unit => decide (unit = percent)) =
          source.drop c.patternIndex := by
      simp
    rw [hall]
    constructor
    · intro heq
      apply ( takeWhile_prefix _).eq_of_length
      unfold skipWildcards at heq
      omega
    · intro heq
      unfold skipWildcards
      rw [heq]
      omega
  rw [hskip, ← nil_mem_patternLanguage]
  unfold Open
  rw [htarget, drop_length]
  constructor
  · intro hopen
    rcases hopen with hhere | ⟨wildcard, hwildcard, k, hk, hle, hmem⟩
    · exact hhere
    -- what is left of the candidate is too short for the items behind the last `%`
    obtain ⟨-, taken, hsplit, hlength, hnone⟩ := hc.segment wildcard hwildcard
    have hitems : ∀ i ∈ taken.map item, i ≠ Item.word := by
      intro i hi hword
      obtain ⟨unit, hunit, rfl⟩ := mem_map.mp hi
      rw [item_eq_word.mp hword] at hunit
      exact hnone hunit
    rw [hsplit, patternLanguage, map_append] at hmem
    have hshort := (mem_language_segment hitems hmem).1
    rw [length_map, length_drop] at hshort
    omega
  · exact Or.inl

/-! ## The loop ends with the answer -/

theorem scan_answers (c : Cursor) (hc : Located source target c) :
    ∃ rounds answer, (∀ more, scan source target (rounds + more) c = some answer) ∧
      (answer = true ↔ Open source target c) := by
  induction hmeasure : remaining source target c using WellFoundedLT.induction generalizing c with
  | ind measure ih =>
    have hnext : ∀ c', round source target c = .next c' → GoesOn source target c c' →
        ∃ rounds answer, (∀ more, scan source target (rounds + more) c = some answer) ∧
          (answer = true ↔ Open source target c) := by
      intro c' hround hgoes
      have hlt := hgoes.remaining_lt
      rw [hmeasure] at hlt
      obtain ⟨rounds, answer, hscan, hanswer⟩ := ih _ hlt c' hgoes.located rfl
      refine ⟨rounds + 1, answer, fun more => ?_, hanswer.trans hgoes.open_iff.symm⟩
      rw [show rounds + 1 + more = (rounds + more) + 1 from by omega, scan, hround]
      exact hscan more
    have hlast : ∀ answer, (∀ rounds, scan source target (rounds + 1) c = some answer) →
        (answer = true ↔ Open source target c) →
        ∃ rounds answer, (∀ more, scan source target (rounds + more) c = some answer) ∧
          (answer = true ↔ Open source target c) := by
      intro answer hscan hanswer
      refine ⟨1, answer, fun more => ?_, hanswer⟩
      rw [Nat.add_comm]
      exact hscan more
    cases hunit : target[c.targetIndex]? with
    | none =>
      have hround : round source target c = .done c.patternIndex := by
        rw [round, hunit]
      refine hlast (decide (skipWildcards source c.patternIndex = source.length)) ?_ ?_
      · intro rounds
        rw [scan, hround]
      · rw [decide_eq_true_iff]
        exact (open_done hc (getElem?_eq_none_iff.mp hunit)).symm
    | some unit =>
      have htarget : c.targetIndex < target.length := (List.getElem?_eq_some_iff.mp hunit).1
      by_cases hpercent : source[c.patternIndex]? = some percent
      · refine hnext _ ?_ (goesOn_wildcard hc htarget hpercent)
        rw [round, hunit]
        simp only [if_pos hpercent]
      by_cases htakes : source[c.patternIndex]? = some underscore ∨
          source[c.patternIndex]? = some unit
      · obtain ⟨token, htoken, htaken⟩ : ∃ token, source[c.patternIndex]? = some token ∧
            (token = underscore ∨ token = unit) := by
          rcases htakes with h | h
          · exact ⟨_, h, Or.inl rfl⟩
          · exact ⟨_, h, Or.inr rfl⟩
        have hne : token ≠ percent := by
          intro heq
          rw [htoken, heq] at hpercent
          exact hpercent rfl
        refine hnext _ ?_ (goesOn_taken hc hunit htoken hne htaken)
        rw [round, hunit]
        simp only [if_neg hpercent, if_pos htakes]
      have hrefused := not_mem_refused hunit hpercent htakes
      cases hwildcard : c.wildcardIndex with
      | some wildcard =>
        refine hnext _ ?_ (goesOn_back hc htarget hwildcard hrefused)
        rw [round, hunit]
        simp only [if_neg hpercent, if_neg htakes, hwildcard]
      | none =>
        refine hlast false ?_ ?_
        · intro rounds
          rw [scan, round, hunit]
          simp only [if_neg hpercent, if_neg htakes, hwildcard]
        constructor
        · simp
        intro hopen
        rcases hopen with hhere | ⟨wildcard, hsome, -⟩
        · exact absurd hhere hrefused
        · rw [hwildcard] at hsome
          cases hsome

/-- The matcher ends, and tells whether the candidate is in the language of the pattern. Without
regard to case these are their texts in lower case. -/
theorem likeMatches_exact (toLowerCase : Text → Text) (pattern candidate : Text)
    (caseInsensitive : Bool) :
    ∃ rounds answer,
      (∀ more, likeMatches toLowerCase (rounds + more) pattern candidate caseInsensitive =
        some answer) ∧
      (answer = true ↔ fold toLowerCase caseInsensitive candidate ∈
        patternLanguage (fold toLowerCase caseInsensitive pattern)) := by
  have hstart : Located (fold toLowerCase caseInsensitive pattern)
      (fold toLowerCase caseInsensitive candidate) start := located_start
  obtain ⟨rounds, answer, hscan, hanswer⟩ := scan_answers start hstart
  exact ⟨rounds, answer, hscan, hanswer.trans open_start⟩

end SuperFunctions.Datafn.Core.LikeMatching
