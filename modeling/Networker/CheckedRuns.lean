import Mathlib.Data.List.Basic

/-!
Executions that may be stopped by a failed assertion, a thrown exception or
undefined behaviour, and runs of a step function that returns such executions.
Nothing here depends on the program being executed.
-/

namespace Networker.CheckedRuns

/-- `ndebug` is the C preprocessor macro that turns `assert` off. -/
class Build where
  ndebug : Bool

abbrev Build.debug : Build := ⟨false⟩
abbrev Build.release : Build := ⟨true⟩

inductive Fault
  | assertion
  | lengthError
  | undefined
  | abort
deriving DecidableEq, Repr

abbrev Exec := Except Fault

def assert [Build] (p : Prop) [Decidable p] : Exec Unit :=
  if p ∨ Build.ndebug = true then .ok () else .error .assertion

section Exec

variable {α β : Type}

theorem assert_pos [Build] {p : Prop} [Decidable p] (h : p) : assert p = .ok () := by
  simp [assert, h]

-- Neither proof is `rfl` alone: as definitional rewrites they would make `simp` evaluate the
-- decidability of every assertion it meets.
@[simp] theorem ok_bind (a : α) (f : α → Exec β) : (Except.ok a >>= f) = f a := by
  cases h : f a <;> exact h

@[simp] theorem error_bind (e : Fault) (f : α → Exec β) : (Except.error e >>= f) = .error e := by
  cases h : (Except.error e >>= f) <;> exact h.symm

theorem bind_eq_ok {x : Exec α} {f : α → Exec β} {b : β} :
    (x >>= f) = .ok b ↔ ∃ a, x = .ok a ∧ f a = .ok b := by
  cases x with
  | error e => simp
  | ok a => simp

theorem bind_eq_error {x : Exec α} {f : α → Exec β} {e : Fault} :
    (x >>= f) = .error e ↔ x = .error e ∨ ∃ a, x = .ok a ∧ f a = .error e := by
  cases x with
  | error e' => simp
  | ok a => simp

theorem assert_eq_error [Build] {p : Prop} [Decidable p] {e : Fault} (h : assert p = .error e) : e = .assertion := by
  unfold assert at h
  split_ifs at h
  cases h
  rfl

/-- Whatever the build, an assertion that lets the execution go on leaves no trace in it. -/
theorem assert_bind_ok [Build] {p : Prop} [Decidable p] {f : Unit → Exec β} {b : β}
    (h : (assert p >>= f) = .ok b) : f () = .ok b := by
  obtain ⟨_, _, hf⟩ := bind_eq_ok.mp h
  exact hf

theorem exists_ok_of_any {x : Exec α} (p : α → Bool) (h : x.toOption.any p = true) : ∃ a, x = .ok a ∧ p a = true := by
  cases x with
  | error e => cases h
  | ok a => exact ⟨a, rfl, h⟩

end Exec

section Runs

variable {σ ι : Type} (step : σ → ι → Exec σ) (allowed : σ → ι → Prop)

def run : σ → List ι → Exec σ
  | s, [] => .ok s
  | s, i :: is => step s i >>= fun t => run t is

/-- A run whose steps all satisfy `allowed` in the state they start from. -/
inductive Path (s : σ) : List ι → σ → Prop
  | nil : Path s [] s
  | snoc {is : List ι} {t u : σ} (i : ι) :
      Path s is t → allowed t i → step t i = .ok u → Path s (is ++ [i]) u

variable {step allowed}

theorem Path.invariant {P : σ → Prop} {s t : σ} {is : List ι}
    (h : Path step allowed s is t) (h0 : P s)
    (hstep : ∀ t i u, P t → allowed t i → step t i = .ok u → P u) : P t := by
  induction h with
  | nil => exact h0
  | snoc i _ ha hs ih => exact hstep _ i _ ih ha hs

theorem Path.cons {s t u : σ} {i : ι} {is : List ι} (ha : allowed s i) (hs : step s i = .ok t)
    (h : Path step allowed t is u) : Path step allowed s (i :: is) u := by
  induction h with
  | nil => exact Path.snoc i .nil ha hs
  | snoc j _ hj hu ih =>
    rw [← List.cons_append]
    exact Path.snoc j ih hj hu

theorem Path.split {s u : σ} {is js : List ι} (h : Path step allowed s (is ++ js) u) :
    ∃ t, Path step allowed s is t ∧ Path step allowed t js u := by
  generalize hl : is ++ js = l at h
  induction h generalizing js with
  | nil =>
    obtain ⟨rfl, rfl⟩ := List.append_eq_nil_iff.mp hl
    exact ⟨s, .nil, .nil⟩
  | snoc i hp ha hs ih =>
    rcases List.eq_nil_or_concat' js with rfl | ⟨js, j, rfl⟩
    · rw [List.append_nil] at hl
      exact ⟨_, hl ▸ Path.snoc i hp ha hs, .nil⟩
    · rw [← List.append_assoc] at hl
      obtain ⟨hinit, hj⟩ := List.append_inj' hl rfl
      cases hj
      obtain ⟨t, ht, hu⟩ := ih hinit
      exact ⟨t, ht, Path.snoc i hu ha hs⟩

theorem Path.eq_of_nil {s u : σ} (h : Path step allowed s [] u) : s = u := by
  generalize hl : ([] : List ι) = l at h
  cases h with
  | nil => rfl
  | snoc i _ _ _ => exact absurd hl.symm (List.append_ne_nil_of_right_ne_nil _ (List.cons_ne_nil i []))

theorem Path.single {s u : σ} {i : ι} (h : Path step allowed s [i] u) : allowed s i ∧ step s i = .ok u := by
  generalize hl : [i] = l at h
  cases h with
  | nil => cases hl
  | snoc j hp ha hs =>
    obtain ⟨rfl, hj⟩ := List.append_inj' (show [] ++ [i] = _ ++ [j] from hl) rfl
    cases hj
    cases hp.eq_of_nil
    exact ⟨ha, hs⟩

theorem Path.unique {s t t' : σ} {is : List ι} (h : Path step allowed s is t) (h' : Path step allowed s is t') : t = t' := by
  induction h generalizing t' with
  | nil => exact h'.eq_of_nil
  | snoc i _ _ hs ih =>
    obtain ⟨v, hv, hlast⟩ := h'.split
    cases ih hv
    exact Except.ok.inj (hs.symm.trans hlast.single.2)

/-- A run on concrete steps, stopped where a step is not allowed. -/
def guardedRun (step : σ → ι → Exec σ) (allowed : σ → ι → Prop) [∀ s i, Decidable (allowed s i)] :
    σ → List ι → Option σ
  | s, [] => some s
  | s, i :: is =>
    if allowed s i then
      match step s i with
      | .ok t => guardedRun step allowed t is
      | .error _ => none
    else none

theorem Path.of_guardedRun [∀ s i, Decidable (allowed s i)] {s t : σ} {is : List ι}
    (h : guardedRun step allowed s is = some t) : Path step allowed s is t := by
  induction is generalizing s with
  | nil =>
    cases h
    exact .nil
  | cons i is ih =>
    simp only [guardedRun] at h
    split_ifs at h with ha
    split at h
    next u hu => exact .cons ha hu (ih h)
    next => cases h

theorem Path.exists_of_any (step : σ → ι → Exec σ) (allowed : σ → ι → Prop) [∀ s i, Decidable (allowed s i)]
    (s : σ) (is : List ι) (p : σ → Bool)
    (h : (guardedRun step allowed s is).any p = true) : ∃ t, Path step allowed s is t ∧ p t = true := by
  obtain ⟨t, ht, hp⟩ := (Option.any_eq_true p _).mp h
  exact ⟨t, .of_guardedRun ht, hp⟩

end Runs

end Networker.CheckedRuns
