import SuperFunctions.Lib.Processes

/-!
# The async list

A list that loads its items. Every load has an abort controller and a number, and its settlement
is shown when neither says that it is stale. What a subscriber calls while a state is published
are the next actions of the run. Subscribers do not throw.
-/
namespace SuperFunctions.Uifn.AsyncLists

open Lib.Transition Nat Option

variable {α ε : Type}

inductive Status
  | idle
  | loading
  | loaded
  | error
deriving DecidableEq

/-- `none` is the error `null`. -/
structure State (α ε : Type) where
  status : Status
  items : List α
  error : Option ε
  requestId : Nat

/-- A load that has not settled: its controller, whether that is aborted, and its number. -/
structure Request where
  controller : Nat
  aborted : Bool
  requestId : Nat
deriving DecidableEq

/-- Controllers are numbered as they are made. The list holds the last of them, 0 is `null`. -/
structure AsyncList (α ε : Type) where
  state : State α ε
  controller : Nat
  destroyed : Bool
  pending : List Request

inductive Act (α ε : Type)
  | load
  | settle (request : Request) (outcome : Except (Option ε) (List α))
  | cancel
  | destroy

def createAsyncList (initialItems : List α) : AsyncList α ε :=
  ⟨⟨.idle, initialItems, none, 0⟩, 0, false, []⟩

def State.settled (state : State α ε) (requestId : Nat) : Except (Option ε) (List α) → State α ε
  | .ok items => ⟨.loaded, items, none, requestId⟩
  | .error reason => { state with status := .error, error := reason, requestId := requestId }

namespace AsyncList

variable (l : AsyncList α ε)

def abort : List Request :=
  l.pending.map fun r => if r.controller = l.controller then { r with aborted := true } else r

def load : AsyncList α ε :=
  if l.destroyed then l
  else
    let requestId := l.state.requestId + 1
    { l with
      state := { l.state with status := .loading, error := none, requestId := requestId }
      controller := l.controller + 1
      pending := ⟨l.controller + 1, false, requestId⟩ :: l.abort }

def settle (r : Request) (outcome : Except (Option ε) (List α)) : Option (AsyncList α ε) :=
  if r ∈ l.pending then
    some { l with
      state := if !l.destroyed && !r.aborted && r.requestId == l.state.requestId then
        l.state.settled r.requestId outcome else l.state
      pending := l.pending.filter (· ≠ r) }
  else none

def cancel : AsyncList α ε := { l with pending := l.abort }

def destroy : AsyncList α ε :=
  if l.destroyed then l else { l with destroyed := true, pending := l.abort }

def step : Act α ε → Option (AsyncList α ε)
  | .load => some l.load
  | .settle r outcome => l.settle r outcome
  | .cancel => some l.cancel
  | .destroy => some l.destroy

def Outstanding : Prop := ∃ r ∈ l.pending, r.aborted = false

instance : Decidable l.Outstanding :=
  inferInstanceAs (Decidable (∃ r ∈ l.pending, r.aborted = false))

/-- Nothing is cancelled or destroyed while a load is outstanding. -/
def Undisturbed : Act α ε → Prop
  | .cancel | .destroy => ¬l.Outstanding
  | _ => True

end AsyncList

/-- What the list is for: `live` is the last load, unless it is cancelled or settled. -/
structure Latest (α ε : Type) where
  state : State α ε
  live : Option Request
  closed : Bool

variable {as : List (Act α ε)}

namespace Latest

variable (a : Latest α ε)

def act : Act α ε → Latest α ε
  | .load =>
    if a.closed then a
    else
      let n := a.state.requestId + 1
      ⟨{ a.state with status := .loading, error := none, requestId := n }, some ⟨n, false, n⟩, false⟩
  | .settle r outcome =>
    if a.live = some r then
      { a with state := a.state.settled a.state.requestId outcome, live := none }
    else a
  | .cancel => { a with live := none }
  | .destroy => { a with live := none, closed := true }

def run (as : List (Act α ε)) : Latest α ε := as.foldl act a

/-- No load up to the `n`-th is live. -/
def Past (n : Nat) : Prop := n ≤ a.state.requestId ∧ ∀ r, a.live = some r → n < r.controller

variable {a} {x : Act α ε} {n : Nat}

theorem act_requestId : a.state.requestId ≤ (a.act x).state.requestId := by
  cases x with
  | load =>
    simp only [act]
    split
    · exact le_refl _
    · exact le_succ _
  | settle n outcome =>
    simp only [act]
    split
    · cases outcome <;> exact le_refl _
    · exact le_refl _
  | cancel | destroy => exact le_refl _

theorem act_past (h : a.Past n) : (a.act x).Past n := by
  refine ⟨h.1.trans act_requestId, fun q hk => ?_⟩
  cases x with
  | load =>
    simp only [act] at hk
    split at hk
    · exact h.2 q hk
    · cases hk
      exact lt_succ_of_le h.1
  | settle r outcome =>
    simp only [act] at hk
    split at hk
    · cases hk
    · exact h.2 q hk
  | cancel => cases hk
  | destroy => cases hk

theorem act_closed (hclosed : a.closed = true) (hlive : a.live = none) : a.act x = a := by
  obtain ⟨state, live, closed⟩ := a
  cases hclosed
  cases hlive
  cases x <;> rfl

theorem run_closed (hclosed : a.closed = true) (hlive : a.live = none) : a.run as = a := by
  induction as with
  | nil => rfl
  | cons x as ih =>
    show (a.act x).run as = a
    rw [act_closed hclosed hlive, ih]

/-- Only a cancel or a destroy of a live load leaves the status behind. -/
theorem act_loading (h : a.state.status = .loading ↔ a.live ≠ none)
    (hx : x = .cancel ∨ x = .destroy → a.live = none) :
    (a.act x).state.status = .loading ↔ (a.act x).live ≠ none := by
  cases x with
  | load =>
    simp only [act]
    split
    · exact h
    · simp
  | settle n outcome =>
    simp only [act]
    split
    · cases outcome <;> simp [State.settled]
    · exact h
  | cancel => simpa [act, hx (.inl rfl)] using h
  | destroy => simpa [act, hx (.inr rfl)] using h

theorem run_requestId : a.state.requestId ≤ (a.run as).state.requestId := by
  induction as generalizing a with
  | nil => exact le_refl _
  | cons x as ih => exact act_requestId.trans (ih (a := a.act x))

theorem run_past (as : List (Act α ε)) (h : a.Past n) : (a.run as).Past n := by
  induction as generalizing a with
  | nil => exact h
  | cons x as ih => exact ih (act_past h)

end Latest

def start (initialItems : List α) : Latest α ε := ⟨⟨.idle, initialItems, none, 0⟩, none, false⟩

structure Shows (l : AsyncList α ε) (a : Latest α ε) : Prop where
  state : l.state = a.state
  controller : l.controller = a.state.requestId
  closed : l.destroyed = a.closed
  fresh : ∀ r ∈ l.pending, r.controller ≤ l.controller
  live : ∀ r ∈ l.pending, r.aborted = false → a.live = some r
  current : ∀ r, a.live = some r →
    r = ⟨l.controller, false, l.controller⟩ ∧ l.destroyed = false ∧ r ∈ l.pending

section Step

variable {l m : AsyncList α ε} {a : Latest α ε} {r : Request}

section

variable (hshow : Shows l a)
include hshow

/-- The abort reaches the last request, and the others were aborted before. -/
theorem mem_abort (h : r ∈ l.abort) : r.aborted = true ∧ r.controller ≤ l.controller := by
  obtain ⟨q, hq, rfl⟩ := List.mem_map.mp h
  have hle := hshow.fresh q hq
  split
  · exact ⟨rfl, hle⟩
  rename_i hother
  refine ⟨?_, hle⟩
  by_contra hlive
  have hlast := (hshow.current q (hshow.live q hq (by simpa using hlive))).1
  exact hother (congrArg Request.controller hlast)

theorem abort_shows (d : Bool) :
    Shows { l with destroyed := d, pending := l.abort } { a with live := none, closed := d } where
  state := hshow.state
  controller := hshow.controller
  closed := rfl
  fresh _ hr := (mem_abort hshow hr).2
  live r hr h := by
    rw [(mem_abort hshow hr).1] at h
    cases h
  current _ h := nomatch h

theorem load_shows : Shows l.load (a.act .load) := by
  unfold AsyncList.load
  simp only [Latest.act, ← hshow.closed, ← hshow.state]
  split
  · exact hshow
  rename_i hopen
  have hid : l.state.requestId = l.controller := by rw [hshow.state, hshow.controller]
  rw [hid]
  refine ⟨rfl, rfl, by simpa using hopen, ?_, ?_, ?_⟩
  · rintro r (_ | ⟨_, hr⟩)
    · exact le_refl _
    · exact le_succ_of_le (mem_abort hshow hr).2
  · rintro r (_ | ⟨_, hr⟩) h
    · rfl
    · rw [(mem_abort hshow hr).1] at h
      cases h
  · intro r h
    cases h
    exact ⟨rfl, by simpa using hopen, List.mem_cons_self⟩

theorem settle_shows {outcome : Except (Option ε) (List α)} (h : l.settle r outcome = some m) :
    Shows m (a.act (.settle r outcome)) := by
  unfold AsyncList.settle at h
  split at h
  case isFalse => cases h
  rename_i hr
  cases h
  have hkept : ∀ q ∈ l.pending.filter (· ≠ r), q ∈ l.pending ∧ q ≠ r :=
    fun q hq => by simpa using hq
  by_cases hlive : a.live = some r
  · obtain ⟨hlast, hopen, -⟩ := hshow.current r hlive
    have hid : r.requestId = l.state.requestId := by
      rw [hlast, hshow.state, hshow.controller]
    have hsettled : (a.state.settled a.state.requestId outcome).requestId = a.state.requestId := by
      cases outcome <;> rfl
    simp only [Latest.act, if_pos hlive, hopen, show r.aborted = false by rw [hlast], hid,
      Bool.not_false, Bool.and_self, beq_self_eq_true, if_true, hshow.state]
    refine ⟨rfl, hshow.controller.trans hsettled.symm, hopen.symm.trans hshow.closed,
      fun q hq => hshow.fresh q (hkept q hq).1, fun q hq hun => ?_, fun _ h => nomatch h⟩
    have hsame := hlive.symm.trans (hshow.live q (hkept q hq).1 hun)
    exact absurd (Option.some.inj hsame).symm (hkept q hq).2
  · have haborted : r.aborted = true := by
      by_contra hun
      exact hlive (hshow.live r hr (by simpa using hun))
    simp only [Latest.act, if_neg hlive, haborted, Bool.not_true, Bool.and_false, Bool.false_and]
    refine ⟨hshow.state, hshow.controller, hshow.closed, fun q hq => hshow.fresh q (hkept q hq).1,
      fun q hq => hshow.live q (hkept q hq).1, fun q hq => ?_⟩
    obtain ⟨hlast, hopen, hmem⟩ := hshow.current q hq
    have hne : q ≠ r := fun he => hlive (he ▸ hq)
    exact ⟨hlast, hopen, List.mem_filter.mpr ⟨hmem, by simpa using hne⟩⟩

theorem destroy_shows : Shows l.destroy (a.act .destroy) := by
  unfold AsyncList.destroy
  split
  · rename_i hd
    refine { hshow with closed := hd, live := fun r hr h => ?_, current := fun _ h => nomatch h }
    have hopen := (hshow.current _ (hshow.live r hr h)).2.1
    rw [hd] at hopen
    cases hopen
  · exact abort_shows hshow true

theorem step_shows {x : Act α ε} (h : l.step x = some m) : Shows m (a.act x) := by
  cases x with
  | load => exact some.inj h ▸ load_shows hshow
  | settle r outcome => exact settle_shows hshow h
  | cancel =>
    cases h
    exact { abort_shows hshow l.destroyed with closed := hshow.closed }
  | destroy => exact some.inj h ▸ destroy_shows hshow

theorem run_shows (h : run AsyncList.step l as = some m) : Shows m (a.run as) := by
  induction as generalizing l a with
  | nil =>
    cases h
    exact hshow
  | cons x as ih =>
    obtain ⟨l', hl', hrest⟩ := run_cons _ h
    exact ih (step_shows hshow hl') hrest

theorem outstanding_iff : l.Outstanding ↔ a.live ≠ none := by
  constructor
  · rintro ⟨r, hr, hun⟩ hnone
    cases hnone.symm.trans (hshow.live r hr hun)
  · intro hlive
    obtain ⟨n, hn⟩ := ne_none_iff_exists'.mp hlive
    obtain ⟨hlast, -, hmem⟩ := hshow.current n hn
    exact ⟨n, hmem, by rw [hlast]⟩

end

theorem start_shows (initialItems : List α) :
    Shows (ε := ε) (createAsyncList initialItems) (start initialItems) :=
  ⟨rfl, rfl, rfl, by simp [createAsyncList], by simp [createAsyncList], by simp [start]⟩

/-- A load, a cancel or a destroy puts every load before it in the past. -/
theorem interrupt_past {x : Act α ε} (hshow : Shows l a)
    (hx : x = .load ∨ x = .cancel ∨ x = .destroy) : (a.act x).Past l.controller := by
  have hid : l.controller ≤ (a.act x).state.requestId := hshow.controller ▸ Latest.act_requestId
  refine ⟨hid, fun k hk => ?_⟩
  rcases hx with rfl | rfl | rfl
  · simp only [Latest.act, ← hshow.closed] at hk
    split at hk
    · rename_i hd
      have hopen := (hshow.current k hk).2.1
      rw [hd] at hopen
      cases hopen
    · cases hk
      exact hshow.controller ▸ lt_succ_self _
  · cases hk
  · cases hk

theorem loading_iff (hshow : Shows l a) (hsame : l.state.status = .loading ↔ l.Outstanding)
    (hguard : Guarded AsyncList.step AsyncList.Undisturbed l as)
    (h : run AsyncList.step l as = some m) : m.state.status = .loading ↔ m.Outstanding := by
  have hstep : ∀ (l : AsyncList α ε) x l', ((∃ a, Shows l a) ∧
      (l.state.status = .loading ↔ l.Outstanding)) → l.Undisturbed x → l.step x = some l' →
      (∃ a, Shows l' a) ∧ (l'.state.status = .loading ↔ l'.Outstanding) := by
    rintro l x l' ⟨⟨a, hshow⟩, hsame⟩ hx hl'
    have hshow' := step_shows hshow hl'
    rw [outstanding_iff hshow, hshow.state] at hsame
    rw [outstanding_iff hshow', hshow'.state]
    refine ⟨⟨_, hshow'⟩, Latest.act_loading hsame fun hcancel => ?_⟩
    by_contra hlive
    rcases hcancel with rfl | rfl
    · exact hx ((outstanding_iff hshow).mpr hlive)
    · exact hx ((outstanding_iff hshow).mpr hlive)
  exact (guarded_run_invariant _ hstep ⟨⟨a, hshow⟩, hsame⟩ hguard h).2

end Step

theorem latest_load_shown (initialItems : List α) {as : List (Act α ε)} {l : AsyncList α ε}
    (hrun : run AsyncList.step (createAsyncList initialItems) as = some l) :
    l.state = ((start initialItems).run as).state ∧
    (∀ bs m, run AsyncList.step l bs = some m → l.state.requestId ≤ m.state.requestId ∧
      (l.destroyed = true → m.state = l.state)) ∧
    (∀ x l', (x = .load ∨ x = .cancel ∨ x = .destroy) → l.step x = some l' →
      ∀ r ∈ l.pending, ∀ bs m, run AsyncList.step l' bs = some m →
        ∀ q outcome m', q.controller = r.controller → m.settle q outcome = some m' →
          m'.state = m.state) ∧
    (Guarded AsyncList.step AsyncList.Undisturbed (createAsyncList initialItems) as →
      (l.state.status = .loading ↔ l.Outstanding)) := by
  have hshow := run_shows (start_shows initialItems) hrun
  have hstart : (createAsyncList (ε := ε) initialItems).state.status = .loading ↔
      (createAsyncList (ε := ε) initialItems).Outstanding := by
    simp [createAsyncList, AsyncList.Outstanding]
  refine ⟨hshow.state, fun bs m hm => ?_, fun x l' hx hl' r hr bs m hm q outcome m' hq hm' => ?_,
    fun hguard => loading_iff (start_shows initialItems) hstart hguard hrun⟩
  · have hlater := run_shows hshow hm
    rw [hlater.state, hshow.state]
    refine ⟨Latest.run_requestId, fun hd => ?_⟩
    have hnone : ((start initialItems).run as).live = none := by
      by_contra hlive
      obtain ⟨n, hn⟩ := ne_none_iff_exists'.mp hlive
      have hopen := (hshow.current n hn).2.1
      rw [hd] at hopen
      cases hopen
    rw [Latest.run_closed (hshow.closed ▸ hd) hnone]
  · have hlater := run_shows (step_shows hshow hl') hm
    have hpast := Latest.run_past bs (interrupt_past hshow hx)
    have hold := hshow.fresh r hr
    rw [(settle_shows hlater hm').state, hlater.state, Latest.act, if_neg]
    intro hlive
    have := hpast.2 q hlive
    omega

/-- The answer to the first of two loads comes last. -/
theorem late_answer_hidden : ∃ l : AsyncList String String,
    run AsyncList.step (createAsyncList ["a"])
      [.load, .load, .settle ⟨2, false, 2⟩ (.ok ["c"]), .settle ⟨1, true, 1⟩ (.ok ["b"])] = some l ∧
    l.state = ((start ["a"]).run
      [.load, .load, .settle ⟨2, false, 2⟩ (.ok ["c"]), .settle ⟨1, true, 1⟩ (.ok ["b"])]).state :=
  ⟨_, rfl, (latest_load_shown ["a"] rfl).1⟩

/-- A cancelled load leaves the status at `loading`. -/
theorem cancelled_load_loading : ¬∀ (as : List (Act String String)) l,
    run AsyncList.step (createAsyncList []) as = some l →
      (l.state.status = .loading ↔ l.Outstanding) := by
  intro h
  exact absurd ((h [.load, .cancel] _ rfl).mp rfl) (by decide)

end SuperFunctions.Uifn.AsyncLists
