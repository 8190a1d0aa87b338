import Mathlib.Algebra.Order.Ring.Unbundled.Rat
import SuperFunctions.Datafn.Client.LocalQuery
import SuperFunctions.Lib.StableSort

/-!
# When a sort is well defined

`sortRecords` compares two numbers as numbers, anything else as texts, and puts an empty value
last without asking whether the other one is empty too. So its comparator is an order only as
long as no null is told apart from an absent field, and no text stands between two numbers that
their texts order the other way round.
-/
namespace SuperFunctions.Datafn.Client.SortOrder

open Lib.StableSort Datafn.Core LocalQuery

/-! ## Values on a scale -/

/-- A value of a column: an empty one, a number, or anything that is compared by its text. -/
inductive Grade where
  | empty
  | number (n : Rat)
  | text (s : String)

section
variable (rt : Runtime)

def grade : Option Json → Grade
  | none => .empty
  | some .null => .empty
  | some (.num n) => .number n
  | some (.str s) => .text s
  | some value => .text (rt.stringOf value)

/-- `String(value)` of a value that is not empty. -/
def Grade.words : Grade → Option String
  | .empty => none
  | .number n => some (rt.stringOf (.num n))
  | .text s => some s

/-- Texts in the order of the locale, before what has none. -/
def compareWords : Option String → Option String → Ordering
  | some s, some t => rt.localeCompare s t
  | some _, none => .lt
  | none, some _ => .gt
  | none, none => .eq

/-- The place of two values in ascending order, all empty values in one place. -/
def rank : Grade → Grade → Ordering
  | .number a, .number b => if a < b then .lt else if b < a then .gt else .eq
  | g, h => compareWords rt (g.words rt) (h.words rt)

def directed : SortDirection → Ordering → Ordering
  | .asc, o => o
  | .desc, o => o.swap

/-- The order of the ids, behind that of the terms. -/
def placed : List SortTerm → Fields → Fields → Ordering
  | [], a, b => rt.localeCompare (idString rt a) (idString rt b)
  | term :: terms, a, b =>
    (directed term.direction
      (rank rt (grade rt (a.lookup term.field)) (grade rt (b.lookup term.field)))).then
        (placed terms a b)

/-- One value is null and the other one absent. -/
def Clash (u v : Option Json) : Prop :=
  Json.isNullish u = true ∧ Json.isNullish v = true ∧ Json.strictEq u v = false

instance (u v : Option Json) : Decidable (Clash u v) := inferInstanceAs (Decidable (_ ∧ _ ∧ _))

/-- No null is compared with an absent field before two records are told apart, and they are
told apart by their ids at the latest. -/
def Apart : List SortTerm → Fields → Fields → Prop
  | [], a, b => rt.localeCompare (idString rt a) (idString rt b) ≠ .eq
  | term :: terms, a, b =>
    ¬ Clash (a.lookup term.field) (b.lookup term.field) ∧
      (rank rt (grade rt (a.lookup term.field)) (grade rt (b.lookup term.field)) = .eq →
        Apart terms a b)

instance decidableApart : ∀ terms a b, Decidable (Apart rt terms a b)
  | [], _, _ => inferInstanceAs (Decidable (_ ≠ _))
  | _ :: terms, a, b =>
    have := decidableApart terms a b
    inferInstanceAs (Decidable (_ ∧ (_ → _)))

/-- A text stands between two numbers whose own texts are the other way round. -/
def Straddles (low high : Rat) (s : String) : Prop :=
  low < high ∧ rt.localeCompare (rt.stringOf (.num high)) s ≠ .gt ∧
    rt.localeCompare s (rt.stringOf (.num low)) ≠ .gt

def Straddled : SortDirection → Grade → Grade → Grade → Prop
  | .asc, .number n, .number m, .text s => Straddles rt n m s
  | .desc, .number n, .number m, .text s => Straddles rt m n s
  | _, _, _, _ => False

/-- The first column that tells three records apart has a text between two such numbers. Where
the text is that of one of the numbers, the other columns decide. -/
def Crossed : List SortTerm → Fields → Fields → Fields → Prop
  | [], _, _, _ => False
  | term :: terms, x, y, z =>
    let u := grade rt (x.lookup term.field)
    let v := grade rt (y.lookup term.field)
    let w := grade rt (z.lookup term.field)
    (rank rt u v = .eq ∧ rank rt v w = .eq ∧ rank rt w u = .eq ∧ Crossed terms x y z) ∨
      (Straddled rt term.direction u v w ∧ (rank rt v w = .eq → placed rt terms y z = .lt) ∧
        (rank rt w u = .eq → placed rt terms z x = .lt))

instance (low high : Rat) (s : String) : Decidable (Straddles rt low high s) :=
  inferInstanceAs (Decidable (_ ∧ _ ∧ _))

instance (d : SortDirection) (u v w : Grade) : Decidable (Straddled rt d u v w) := by
  unfold Straddled
  split <;> infer_instance

instance decidableCrossed : ∀ terms x y z, Decidable (Crossed rt terms x y z)
  | [], _, _, _ => isFalse id
  | _ :: terms, x, y, z =>
    have := decidableCrossed terms x y z
    inferInstanceAs (Decidable ((_ ∧ _ ∧ _ ∧ _) ∨ (_ ∧ (_ → _) ∧ (_ → _))))

structure Orderable (terms : List SortTerm) (records : List Fields) : Prop where
  apart : records.Pairwise (Apart rt terms)
  straight : ∀ x ∈ records, ∀ y ∈ records, ∀ z ∈ records, ¬ Crossed rt terms x y z

/-- The comparator of the sort is a strict total order on the records, and every arrangement of
them is sorted into one list. -/
structure WellDefined (terms : List SortTerm) (records : List Fields) : Prop where
  strict : StrictOn (compareRecords rt terms) records
  sorted : ∀ arranged : List Fields, arranged.Perm records →
    sortRecords rt arranged terms = sortRecords rt records terms

end

variable {rt : Runtime}

/-! ## The scale is an order but for numbers among texts -/

theorem compareWords_swap (s t : Option String) :
    compareWords rt t s = (compareWords rt s t).swap := by
  cases s with
  | none => cases t <;> rfl
  | some s =>
    cases t with
    | none => rfl
    | some t => exact (rt.localeCompare_swap s t).symm

/-- Only two numbers are not compared by their texts. -/
theorem rank_words {g h : Grade} (hmixed : ∀ a b, g = .number a → h ≠ .number b) :
    rank rt g h = compareWords rt (g.words rt) (h.words rt) := by
  cases g <;> cases h
  case number.number a b => exact absurd rfl (hmixed a b rfl)
  all_goals simp only [rank]

theorem rank_swap (g h : Grade) : rank rt h g = (rank rt g h).swap := by
  by_cases hmixed : ∀ a b, g = .number a → h ≠ .number b
  · rw [rank_words hmixed, rank_words fun b a hh hg => hmixed a b hg hh]
    exact compareWords_swap _ _
  push Not at hmixed
  obtain ⟨a, b, rfl, rfl⟩ := hmixed
  rw [rank, rank]
  rcases lt_trichotomy a b with hab | rfl | hba
  · rw [if_neg (lt_asymm hab), if_pos hab, if_pos hab]
    rfl
  · rw [if_neg (lt_irrefl a), if_neg (lt_irrefl a)]
    rfl
  · rw [if_pos hba, if_neg (lt_asymm hba), if_pos hba]
    rfl

theorem rank_self (g : Grade) : rank rt g g = .eq := by
  have h : rank rt g g = (rank rt g g).swap := rank_swap g g
  cases hg : rank rt g g with
  | eq => rfl
  | lt | gt => rw [hg] at h; cases h

theorem placed_swap (terms : List SortTerm) (a b : Fields) :
    placed rt terms b a = (placed rt terms a b).swap := by
  induction terms with
  | nil => exact (rt.localeCompare_swap _ _).symm
  | cons term terms ih =>
    rw [placed, placed, ih, rank_swap, Ordering.swap_then]
    obtain ⟨field, _ | _⟩ := term
    · rfl
    · rfl

variable {t s w : Option String}

section

variable (hst : compareWords rt s t ≠ .gt)
include hst

theorem compareWords_trans (htw : compareWords rt t w ≠ .gt) : compareWords rt s w ≠ .gt := by
  cases s <;> cases t <;> cases w
  case some.some.some s t w => exact rt.localeCompare_trans s t w hst htw
  all_goals first
    | exact hst
    | exact htw
    | exact fun h => by cases h
    | exact absurd rfl hst
    | exact absurd rfl htw

theorem compareWords_eq (hts : compareWords rt t s ≠ .gt) : compareWords rt s t = .eq := by
  rw [compareWords_swap] at hts
  cases hcmp : compareWords rt s t with
  | eq => rfl
  | gt => exact absurd hcmp hst
  | lt => rw [hcmp] at hts; exact absurd rfl hts

/-- Texts that follow each other in a circle are in one place. -/
theorem words_cycle (htw : compareWords rt t w ≠ .gt) (hws : compareWords rt w s ≠ .gt) :
    compareWords rt s t = .eq ∧ compareWords rt t w = .eq ∧ compareWords rt w s = .eq :=
  ⟨compareWords_eq hst (compareWords_trans htw hws),
    compareWords_eq htw (compareWords_trans hws hst),
    compareWords_eq hws (compareWords_trans hst htw)⟩

end

theorem rank_number_ne_gt {a b : Rat} : rank rt (.number a) (.number b) ≠ .gt ↔ a ≤ b := by
  rw [rank]
  split_ifs with hab hba
  · simpa using hab.le
  · simpa using hba
  · simpa using not_lt.mp hba

/-- The three values are in one place. -/
def Level (rt : Runtime) (u v w : Grade) : Prop :=
  rank rt u v = .eq ∧ rank rt v w = .eq ∧ rank rt w u = .eq

variable {u v w : Grade}

theorem Level.rotate (h : Level rt u v w) : Level rt v w u :=
  ⟨h.2.1, h.2.2, h.1⟩

theorem level_of_words (hmixed : ∀ a b, u = .number a → v ≠ .number b)
    (hmixed' : ∀ a b, v = .number a → w ≠ .number b)
    (hmixed'' : ∀ a b, w = .number a → u ≠ .number b) (huv : rank rt u v ≠ .gt)
    (hvw : rank rt v w ≠ .gt) (hwu : rank rt w u ≠ .gt) : Level rt u v w := by
  rw [Level]
  rw [rank_words hmixed] at huv ⊢
  rw [rank_words hmixed'] at hvw ⊢
  rw [rank_words hmixed''] at hwu ⊢
  exact words_cycle huv hvw hwu

theorem numbers_cycle {n m : Rat} {s : String}
    (huv : rank rt (.number n) (.number m) ≠ .gt) (hvw : rank rt (.number m) (.text s) ≠ .gt)
    (hwu : rank rt (.text s) (.number n) ≠ .gt) :
    Level rt (.number n) (.number m) (.text s) ∨
      Straddled rt .asc (.number n) (.number m) (.text s) := by
  rcases eq_or_lt_of_le (rank_number_ne_gt.mp huv) with rfl | hlt
  · left
    refine ⟨rank_self _, ?_, ?_⟩
    · rw [rank_words (by simp)]
      exact compareWords_eq hvw hwu
    · rw [rank_words (by simp)]
      exact compareWords_eq hwu hvw
  · exact Or.inr ⟨hlt, hvw, hwu⟩

/-- Only two numbers and a text can follow each other in a circle. -/
theorem rank_cycle (huv : rank rt u v ≠ .gt) (hvw : rank rt v w ≠ .gt) (hwu : rank rt w u ≠ .gt) :
    Level rt u v w ∨ Straddled rt .asc u v w ∨ Straddled rt .asc v w u ∨
      Straddled rt .asc w u v := by
  cases u <;> cases v <;> cases w
  case number.number.number a b c =>
    left
    have hab := rank_number_ne_gt.mp huv
    have hbc := rank_number_ne_gt.mp hvw
    have hca := rank_number_ne_gt.mp hwu
    obtain rfl : a = b := le_antisymm hab (hbc.trans hca)
    obtain rfl : a = c := le_antisymm hbc hca
    exact ⟨rank_self _, rank_self _, rank_self _⟩
  case number.number.text a b s =>
    exact (numbers_cycle huv hvw hwu).imp_right Or.inl
  case text.number.number s a b =>
    rcases numbers_cycle hvw hwu huv with hlevel | hcross
    · exact Or.inl hlevel.rotate.rotate
    · exact Or.inr (Or.inr (Or.inl hcross))
  case number.text.number b s a =>
    rcases numbers_cycle hwu huv hvw with hlevel | hcross
    · exact Or.inl hlevel.rotate
    · exact Or.inr (Or.inr (Or.inr hcross))
  case number.number.empty => exact absurd (rank_words (by simp)) hwu
  case number.empty.number => exact absurd (rank_words (by simp)) hvw
  case empty.number.number => exact absurd (rank_words (by simp)) huv
  all_goals exact Or.inl (level_of_words (by simp) (by simp) (by simp) huv hvw hwu)

theorem directed_eq {d : SortDirection} {o : Ordering} : directed d o = .eq ↔ o = .eq := by
  cases d <;> cases o <;> decide

/-- A descending column is an ascending one that is read backwards. -/
theorem directed_cycle (d : SortDirection) (huv : directed d (rank rt u v) ≠ .gt)
    (hvw : directed d (rank rt v w) ≠ .gt) (hwu : directed d (rank rt w u) ≠ .gt) :
    Level rt u v w ∨ Straddled rt d u v w ∨ Straddled rt d v w u ∨ Straddled rt d w u v := by
  cases d with
  | asc => exact rank_cycle huv hvw hwu
  | desc =>
    have hback : ∀ {g h : Grade}, directed .desc (rank rt g h) ≠ .gt → rank rt h g ≠ .gt := by
      intro g h hne
      rwa [rank_swap]
    have hdesc : ∀ {f g h : Grade}, Straddled rt .asc f g h → Straddled rt .desc g f h := by
      intro f g h hcross
      cases f <;> cases g <;> cases h <;> exact hcross
    rcases rank_cycle (hback hwu) (hback hvw) (hback huv) with hlevel | hcross | hcross | hcross
    · left
      obtain ⟨huw, hwv, hvu⟩ := hlevel
      refine ⟨?_, ?_, ?_⟩
      · rw [rank_swap, hvu]
        rfl
      · rw [rank_swap, hwv]
        rfl
      · rw [rank_swap, huw]
        rfl
    · exact Or.inr (Or.inr (Or.inr (hdesc hcross)))
    · exact Or.inr (Or.inr (Or.inl (hdesc hcross)))
    · exact Or.inr (Or.inl (hdesc hcross))

/-! ## Circles of records -/

theorem then_lt {o o' : Ordering} : o.then o' = .lt ↔ o ≠ .gt ∧ (o = .eq → o' = .lt) := by
  cases o <;> cases o' <;> decide

variable {terms : List SortTerm}

/-- Three records in a circle are crossed. -/
theorem placed_cycle {x y z : Fields} (hxy : placed rt terms x y = .lt)
    (hyz : placed rt terms y z = .lt) (hzx : placed rt terms z x = .lt) :
    Crossed rt terms x y z ∨ Crossed rt terms y z x ∨ Crossed rt terms z x y := by
  induction terms with
  | nil =>
    have hle : ∀ {a b : Fields}, placed rt [] a b = .lt →
        compareWords rt (some (idString rt a)) (some (idString rt b)) ≠ .gt := by
      intro a b hlt heq
      have heq' : placed rt [] a b = .gt := heq
      rw [heq'] at hlt
      cases hlt
    have hlevel := (words_cycle (hle hxy) (hle hyz) (hle hzx)).1
    have heq : placed rt [] x y = .eq := hlevel
    rw [heq] at hxy
    cases hxy
  | cons term terms ih =>
    rw [placed, then_lt, directed_eq] at hxy hyz hzx
    rcases directed_cycle term.direction hxy.1 hyz.1 hzx.1 with hlevel | hcross | hcross | hcross
    · obtain ⟨huv, hvw, hwu⟩ := hlevel
      rcases ih (hxy.2 huv) (hyz.2 hvw) (hzx.2 hwu) with hrest | hrest | hrest
      · exact Or.inl (Or.inl ⟨huv, hvw, hwu, hrest⟩)
      · exact Or.inr (Or.inl (Or.inl ⟨hvw, hwu, huv, hrest⟩))
      · exact Or.inr (Or.inr (Or.inl ⟨hwu, huv, hvw, hrest⟩))
    · exact Or.inl (Or.inr ⟨hcross, hyz.2, hzx.2⟩)
    · exact Or.inr (Or.inl (Or.inr ⟨hcross, hzx.2, hxy.2⟩))
    · exact Or.inr (Or.inr (Or.inr ⟨hcross, hxy.2, hyz.2⟩))

theorem directed_of_straddled {d : SortDirection} (h : Straddled rt d u v w) :
    directed d (rank rt u v) = .lt ∧ directed d (rank rt v w) ≠ .gt ∧
      directed d (rank rt w u) ≠ .gt := by
  cases d <;> cases u <;> cases v <;> cases w <;>
    first | exact absurd h id | skip
  case asc.number.number.text n m s =>
    refine ⟨?_, h.2.1, h.2.2⟩
    rw [directed, rank, if_pos h.1]
  case desc.number.number.text n m s =>
    refine ⟨?_, ?_, ?_⟩
    · rw [directed, ← rank_swap, rank, if_pos h.1]
    · rw [directed, ← rank_swap]
      exact h.2.2
    · rw [directed, ← rank_swap]
      exact h.2.1

theorem cycle_of_crossed {x y z : Fields} (h : Crossed rt terms x y z) :
    placed rt terms x y = .lt ∧ placed rt terms y z = .lt ∧ placed rt terms z x = .lt := by
  induction terms with
  | nil => exact absurd h id
  | cons term terms ih =>
    simp only [placed, then_lt, directed_eq]
    rcases h with ⟨huv, hvw, hwu, hrest⟩ | ⟨hcross, hyz, hzx⟩
    · obtain ⟨hxy, hyz, hzx⟩ := ih hrest
      rw [huv, hvw, hwu]
      refine ⟨⟨?_, fun _ => hxy⟩, ⟨?_, fun _ => hyz⟩, ⟨?_, fun _ => hzx⟩⟩ <;>
        cases term.direction <;> decide
    · obtain ⟨hlt, hvw, hwu⟩ := directed_of_straddled hcross
      refine ⟨⟨?_, fun heq => ?_⟩, ⟨hvw, hyz⟩, ⟨hwu, hzx⟩⟩
      · rw [hlt]
        decide
      · rw [directed_eq.mpr heq] at hlt
        cases hlt

/-! ## The comparator of the sort -/

variable {u v : Option Json}

theorem rank_eq_of_strictEq (h : Json.strictEq u v = true) :
    rank rt (grade rt u) (grade rt v) = .eq := by
  have hgrade : grade rt u = grade rt v := by
    rcases u with _ | u <;> rcases v with _ | v
    · rfl
    · cases v <;> cases h
    · cases u <;> cases h
    cases u <;> cases v
    case null.null => rfl
    case bool.bool a b => rw [eq_of_beq h]
    case num.num a b => rw [eq_of_beq h]
    case str.str a b => rw [eq_of_beq h]
    all_goals cases h
  rw [hgrade]
  exact rank_self _

theorem isNullish_iff : Json.isNullish u = true ↔ u = none ∨ u = some .null := by
  rcases u with _ | u
  · simp [Json.isNullish]
  · cases u <;> simp [Json.isNullish]

theorem not_clash_self (u : Option Json) : ¬ Clash u u := by
  intro ⟨hempty, _, hdiff⟩
  rcases isNullish_iff.mp hempty with rfl | rfl
  · cases hdiff
  · cases hdiff

theorem Clash.symm (h : Clash u v) : Clash v u := by
  obtain ⟨hu, hv, hdiff⟩ := h
  refine ⟨hv, hu, ?_⟩
  rcases isNullish_iff.mp hu with rfl | rfl <;> rcases isNullish_iff.mp hv with rfl | rfl
  · cases hdiff
  · rfl
  · rfl
  · cases hdiff

theorem compareValues_clash (h : Clash u v) : compareValues rt u v = .gt := by
  unfold compareValues
  rw [if_pos h.1]

theorem compareValues_eq (hstring : ∀ s, rt.stringOf (.str s) = s)
    (hdiff : Json.strictEq u v = false) (hclash : ¬ Clash u v) :
    compareValues rt u v = rank rt (grade rt u) (grade rt v) := by
  rcases u with _ | u <;> rcases v with _ | v
  · cases hdiff
  · cases v
    case null => exact absurd ⟨rfl, rfl, rfl⟩ hclash
    all_goals rfl
  · cases u
    case null => exact absurd ⟨rfl, rfl, rfl⟩ hclash
    all_goals rfl
  · cases u <;> cases v
    case null.null => cases hdiff
    all_goals simp [compareValues, Json.isNullish, rank, grade, Grade.words, compareWords, hstring]

theorem compareRecords_cons {term : SortTerm} {a b : Fields}
    (hdiff : Json.strictEq (a.lookup term.field) (b.lookup term.field) = false) :
    compareRecords rt (term :: terms) a b =
      (directed term.direction
        (compareValues rt (a.lookup term.field) (b.lookup term.field))).then
          (compareRecords rt terms a b) := by
  rw [compareRecords, if_neg (by rw [hdiff]; decide)]
  obtain ⟨field, _ | _⟩ := term
  · rfl
  · rfl

section

variable (hstring : ∀ s, rt.stringOf (.str s) = s)
include hstring

theorem compareRecords_tied {term : SortTerm} {a b : Fields}
    (hclash : ¬ Clash (a.lookup term.field) (b.lookup term.field))
    (hrank : rank rt (grade rt (a.lookup term.field)) (grade rt (b.lookup term.field)) = .eq) :
    compareRecords rt (term :: terms) a b = compareRecords rt terms a b := by
  cases hdiff : Json.strictEq (a.lookup term.field) (b.lookup term.field) with
  | true => rw [compareRecords, if_pos hdiff]
  | false =>
    rw [compareRecords_cons hdiff, compareValues_eq hstring hdiff hclash, directed_eq.mpr hrank]
    rfl

/-- The comparator puts records that stand apart in their places. -/
theorem compareRecords_placed {a b : Fields} (h : Apart rt terms a b) :
    compareRecords rt terms a b = placed rt terms a b ∧ placed rt terms a b ≠ .eq := by
  induction terms with
  | nil => exact ⟨rfl, h⟩
  | cons term terms ih =>
    obtain ⟨hclash, hrest⟩ := h
    by_cases hrank : rank rt (grade rt (a.lookup term.field)) (grade rt (b.lookup term.field)) = .eq
    · rw [compareRecords_tied hstring hclash hrank, placed, directed_eq.mpr hrank]
      exact ih (hrest hrank)
    have hdiff : Json.strictEq (a.lookup term.field) (b.lookup term.field) = false := by
      rw [← Bool.not_eq_true]
      exact fun hsame => hrank (rank_eq_of_strictEq hsame)
    rw [compareRecords_cons hdiff, compareValues_eq hstring hdiff hclash, placed]
    have hne := mt (directed_eq (d := term.direction)).mp hrank
    revert hne
    generalize directed term.direction _ = o
    intro hne
    cases o with
    | eq => exact absurd rfl hne
    | lt | gt => exact ⟨rfl, fun h => nomatch h⟩

theorem compareRecords_alike {a b : Fields} (h : ¬ Apart rt terms a b) :
    compareRecords rt terms b a = compareRecords rt terms a b := by
  induction terms with
  | nil =>
    have heq : rt.localeCompare (idString rt a) (idString rt b) = .eq := not_not.mp h
    have hback := rt.localeCompare_swap (idString rt a) (idString rt b)
    show rt.localeCompare _ _ = rt.localeCompare _ _
    rw [← hback, heq]
    rfl
  | cons term terms ih =>
    by_cases hclash : Clash (a.lookup term.field) (b.lookup term.field)
    · rw [compareRecords_cons hclash.2.2, compareRecords_cons hclash.symm.2.2,
        compareValues_clash hclash, compareValues_clash hclash.symm]
      cases term.direction <;> rfl
    by_cases hrank : rank rt (grade rt (a.lookup term.field)) (grade rt (b.lookup term.field)) = .eq
    · have hback :
          rank rt (grade rt (b.lookup term.field)) (grade rt (a.lookup term.field)) = .eq := by
        rw [rank_swap, hrank]
        rfl
      rw [compareRecords_tied hstring hclash hrank,
        compareRecords_tied hstring (mt Clash.symm hclash) hback]
      exact ih fun hrest => h ⟨hclash, fun _ => hrest⟩
    · exact absurd ⟨hclash, fun heq => absurd heq hrank⟩ h

end

theorem Apart.symm {a b : Fields} (h : Apart rt terms a b) : Apart rt terms b a := by
  induction terms with
  | nil =>
    intro heq
    apply h
    rw [← rt.localeCompare_swap, heq]
    rfl
  | cons term terms ih =>
    obtain ⟨hclash, hrest⟩ := h
    refine ⟨mt Clash.symm hclash, fun heq => ih (hrest ?_)⟩
    rw [rank_swap, heq]
    rfl

theorem compareRecords_self (hstring : ∀ s, rt.stringOf (.str s) = s) (terms : List SortTerm)
    (a : Fields) : compareRecords rt terms a a = .eq := by
  induction terms with
  | nil =>
    have h := rt.localeCompare_swap (idString rt a) (idString rt a)
    show rt.localeCompare _ _ = _
    cases hcmp : rt.localeCompare (idString rt a) (idString rt a) with
    | eq => rfl
    | lt | gt => rw [hcmp] at h; cases h
  | cons term terms ih =>
    rw [compareRecords_tied hstring (not_clash_self _) (rank_self _)]
    exact ih

variable {records : List Fields}

theorem apart_of_mem (hapart : records.Pairwise (Apart rt terms)) {a b : Fields} (ha : a ∈ records)
    (hb : b ∈ records) (hne : a ≠ b) : Apart rt terms a b :=
  (rel_or_of_pairwise hapart ha hb hne).elim id Apart.symm

theorem strictOn_of_orderable (hstring : ∀ s, rt.stringOf (.str s) = s)
    (h : Orderable rt terms records) :
    StrictOn (compareRecords rt terms) records where
  swap a ha b hb := by
    by_cases hab : a = b
    · rw [hab, compareRecords_self hstring]
      rfl
    · have hapart := apart_of_mem h.apart ha hb hab
      rw [(compareRecords_placed hstring hapart).1, (compareRecords_placed hstring hapart.symm).1]
      exact placed_swap terms a b
  apart := h.apart.imp fun {a b} hapart => by
    obtain ⟨heq, hne⟩ := compareRecords_placed hstring hapart
    rwa [heq]
  trans a ha b hb c hc hab hbc := by
    have hplaced : ∀ x ∈ records, ∀ y ∈ records, compareRecords rt terms x y = .lt →
        placed rt terms x y = .lt := by
      intro x hx y hy hlt
      have hne : x ≠ y := by
        rintro rfl
        rw [compareRecords_self hstring] at hlt
        cases hlt
      rwa [← (compareRecords_placed hstring (apart_of_mem h.apart hx hy hne)).1]
    have hxy := hplaced a ha b hb hab
    have hyz := hplaced b hb c hc hbc
    have hne : a ≠ c := by
      rintro rfl
      rw [placed_swap, hxy] at hyz
      cases hyz
    obtain ⟨heq, hdiff⟩ := compareRecords_placed hstring (apart_of_mem h.apart ha hc hne)
    rw [heq]
    cases hac : placed rt terms a c with
    | lt => rfl
    | eq => exact absurd hac hdiff
    | gt =>
      -- the three would stand in a circle
      have hzx : placed rt terms c a = .lt := by
        rw [placed_swap, hac]
        rfl
      rcases placed_cycle hxy hyz hzx with hcross | hcross | hcross
      · exact absurd hcross (h.straight a ha b hb c hc)
      · exact absurd hcross (h.straight b hb c hc a ha)
      · exact absurd hcross (h.straight c hc a ha b hb)

theorem orderable_of_strictOn (hstring : ∀ s, rt.stringOf (.str s) = s)
    (h : StrictOn (compareRecords rt terms) records) : Orderable rt terms records := by
  have hapart : records.Pairwise (Apart rt terms) := by
    refine h.apart.imp_of_mem fun {a b} ha hb hne => ?_
    by_contra hnot
    have hswap := h.swap a ha b hb
    rw [compareRecords_alike hstring hnot] at hswap
    cases hcmp : compareRecords rt terms a b with
    | eq => exact hne hcmp
    | lt | gt => rw [hcmp] at hswap; cases hswap
  refine ⟨hapart, fun x hx y hy z hz hcross => ?_⟩
  obtain ⟨hxy, hyz, hzx⟩ := cycle_of_crossed hcross
  have hcompare : ∀ a ∈ records, ∀ b ∈ records, placed rt terms a b = .lt →
      compareRecords rt terms a b = .lt := by
    intro a ha b hb hlt
    have hne : a ≠ b := by
      rintro rfl
      have hswap : placed rt terms a a = (placed rt terms a a).swap := placed_swap terms a a
      rw [hlt] at hswap
      cases hswap
    rwa [(compareRecords_placed hstring (apart_of_mem hapart ha hb hne)).1]
  have hxz := h.trans x hx y hy z hz (hcompare x hx y hy hxy) (hcompare y hy z hz hyz)
  have hback := h.swap x hx z hz
  rw [hxz, hcompare z hz x hx hzx] at hback
  cases hback

/-! ## The claim on the records -/

/-- A sort is well defined exactly on the records that can be ordered. -/
theorem sortRecords_wellDefined_iff (rt : Runtime) (hstring : ∀ s, rt.stringOf (.str s) = s)
    (terms : List SortTerm) (records : List Fields) :
    WellDefined rt terms records ↔ Orderable rt terms records := by
  constructor
  · intro h
    exact orderable_of_strictOn hstring h.strict
  · intro h
    have hstrict := strictOn_of_orderable hstring h
    exact ⟨hstrict, fun arranged hperm => hstrict.insertionSort_perm hperm⟩

/-- A platform that compares code points and writes whole numbers out. -/
def wholeNumbers : Runtime :=
  { Runtime.codePoints with
    stringOf := fun value =>
      match value with
      | .str s => s
      | .num n => toString n.num
      | .bool b => toString b
      | _ => "" }

def mixedRecords : List Fields :=
  [[("id", .str "a"), ("rank", .num 9), ("name", .str "x")],
    [("id", .str "b"), ("rank", .null), ("name", .bool true)],
    [("id", .str "c"), ("rank", .str "top")],
    [("id", .str "d"), ("rank", .num 10), ("name", .num 1)],
    [("id", .str "e"), ("rank", .null), ("name", .str "y")]]

theorem mixedRecords_wellDefined :
    WellDefined wholeNumbers [⟨"rank", .desc⟩, ⟨"name", .asc⟩] mixedRecords :=
  (sortRecords_wellDefined_iff wholeNumbers (fun _ => rfl) _ _).mpr ⟨by decide, by decide⟩

/-- As numbers 9 is before 10, as texts "10" is before "5" and that before "9". -/
example : Crossed wholeNumbers [⟨"rank", .asc⟩] [("id", .str "a"), ("rank", .num 9)]
    [("id", .str "b"), ("rank", .num 10)] [("id", .str "c"), ("rank", .str "5")] := by decide

/-- A null and an absent field are each behind the other. -/
theorem null_against_absent :
    ¬ ∀ (rt : Runtime) (terms : List SortTerm) (records : List Fields),
      (records.Pairwise fun a b => ∃ i j, a.lookup "id" = some (.str i) ∧
        b.lookup "id" = some (.str j) ∧ i ≠ j) → WellDefined rt terms records := by
  intro h
  have hdefined := h Runtime.codePoints [⟨"score", .asc⟩]
    [[("id", .str "a"), ("score", .null)], [("id", .str "b")]]
    (by
      refine List.pairwise_pair.mpr ⟨"a", "b", rfl, rfl, by decide⟩)
  have hswap := hdefined.strict.swap _ List.mem_cons_self _
    (List.mem_cons_of_mem _ List.mem_cons_self)
  exact absurd hswap (by decide)

end SuperFunctions.Datafn.Client.SortOrder
