import Mathlib

/-! Deterministic machines with a guarded step, and what holds along their finite runs.
A step returns `none` when the guard of the event refuses it. Nothing here is about one
particular machine: the states, the events and the step are parameters. -/
namespace StepMachine

variable {σ ε : Type*} (step : σ → ε → Option σ)

/-- The state after a list of events, if every guard accepts. -/
def run : σ → List ε → Option σ
  | s, [] => some s
  | s, e :: es => (step s e).bind fun t => run t es

def Reachable (start s : σ) : Prop := ∃ es, run step start es = some s

/-- `P` holds in the start state and in every state the run passes through. -/
def Always (P : σ → Prop) : σ → List ε → Prop
  | s, [] => P s
  | s, e :: es => P s ∧ ∀ t, step s e = some t → Always P t es

/-- Every accepted step of the run meets `C`, a condition on the state before it. -/
def EveryStep (C : σ → ε → Prop) : σ → List ε → Prop
  | _, [] => True
  | s, e :: es => ∀ t, step s e = some t → C s e ∧ EveryStep C t es

variable {step}

theorem run_cons_inv {s u : σ} {e : ε} {es : List ε} (hr : run step s (e :: es) = some u) :
    ∃ t, step s e = some t ∧ run step t es = some u := by
  simpa only [run, Option.bind_eq_some_iff] using hr

theorem run_append (s : σ) (es fs : List ε) :
    run step s (es ++ fs) = (run step s es).bind fun t => run step t fs := by
  induction es generalizing s with
  | nil => rfl
  | cons e es ih => simp only [List.cons_append, run, Option.bind_assoc, ih]

theorem always_head {P : σ → Prop} {s : σ} {es : List ε} (h : Always step P s es) : P s := by
  cases es with
  | nil => exact h
  | cons e es => exact h.1

theorem always_mono {P Q : σ → Prop} (hPQ : ∀ s, P s → Q s) {s : σ} {es : List ε}
    (h : Always step P s es) : Always step Q s es := by
  induction es generalizing s with
  | nil => exact hPQ s h
  | cons e es ih => exact ⟨hPQ s h.1, fun t ht => ih (h.2 t ht)⟩

theorem everyStep_cons {C : σ → ε → Prop} {s t : σ} {e : ε} {es : List ε}
    (hs : step s e = some t) (hC : C s e) (h : EveryStep step C t es) :
    EveryStep step C s (e :: es) := by
  intro u hu
  cases hs.symm.trans hu
  exact ⟨hC, h⟩

theorem everyStep_of_forall {C : σ → ε → Prop} {s : σ} {es : List ε}
    (h : ∀ e ∈ es, ∀ s, C s e) : EveryStep step C s es := by
  induction es generalizing s with
  | nil => trivial
  | cons e es ih =>
    exact fun t _ => ⟨h e (by simp) s, ih fun f hf => h f (by simp [hf])⟩

/-- The run invariant rule, under a condition on the steps taken. -/
theorem always_of_invariant {I : σ → Prop} {C : σ → ε → Prop}
    (hstep : ∀ s e t, I s → C s e → step s e = some t → I t) {s : σ} {es : List ε}
    (hI : I s) (hC : EveryStep step C s es) : Always step I s es := by
  induction es generalizing s with
  | nil => exact hI
  | cons e es ih =>
    refine ⟨hI, fun t ht => ?_⟩
    exact ih (hstep s e t hI (hC t ht).1 ht) (hC t ht).2

theorem always_last {P : σ → Prop} {s t : σ} {es : List ε} (h : Always step P s es)
    (hr : run step s es = some t) : P t := by
  induction es generalizing s with
  | nil => cases hr; exact h
  | cons e es ih =>
    obtain ⟨u, hu, hr⟩ := run_cons_inv hr
    exact ih (h.2 u hu) hr

theorem run_invariant {I : σ → Prop} {C : σ → ε → Prop}
    (hstep : ∀ s e t, I s → C s e → step s e = some t → I t) {s t : σ} {es : List ε}
    (hI : I s) (hC : EveryStep step C s es) (hr : run step s es = some t) : I t :=
  always_last (always_of_invariant hstep hI hC) hr

/-- An invariant of every step is an invariant of every reachable state. -/
theorem reachable_invariant {I : σ → Prop} (hstep : ∀ s e t, I s → step s e = some t → I t)
    {s t : σ} (hI : I s) (hr : Reachable step s t) : I t := by
  obtain ⟨es, hr⟩ := hr
  induction es generalizing s with
  | nil => cases hr; exact hI
  | cons e es ih =>
    obtain ⟨u, hu, hr⟩ := run_cons_inv hr
    exact ih (hstep s e u hI hu) hr

theorem run_concat {s t u : σ} {es : List ε} {e : ε} (hr : run step s es = some t)
    (h : step t e = some u) : run step s (es ++ [e]) = some u := by
  rw [run_append, hr, Option.bind_some, run, h, Option.bind_some, run]

theorem reachable_run {start s t : σ} {es : List ε} (h : Reachable step start s)
    (hr : run step s es = some t) : Reachable step start t := by
  obtain ⟨fs, hs⟩ := h
  refine ⟨fs ++ es, ?_⟩
  rw [run_append, hs]
  exact hr

theorem reachable_step {start s t : σ} {e : ε} (h : Reachable step start s)
    (hs : step s e = some t) : Reachable step start t := by
  have hrun : run step s [e] = some t := by
    rw [run, hs]
    rfl
  exact reachable_run h hrun

/-- An invariant may tell of a state and of the events that have led to it. -/
theorem run_history {I : List ε → σ → Prop} {C : σ → ε → Prop}
    (hstep : ∀ es s e t, I es s → C s e → step s e = some t → I (es ++ [e]) t) {s t : σ}
    {es : List ε} (hI : I [] s) (hC : EveryStep step C s es) (hr : run step s es = some t) :
    I es t := by
  have hrest : ∀ fs gs u, I gs u → EveryStep step C u fs → run step u fs = some t →
      I (gs ++ fs) t := by
    intro fs
    induction fs with
    | nil =>
      intro gs u hu _ hr
      cases hr
      rwa [List.append_nil]
    | cons f fs ih =>
      intro gs u hu hC hr
      obtain ⟨v, hv, hr⟩ := run_cons_inv hr
      have hlast := ih (gs ++ [f]) v (hstep gs u f v hu (hC v hv).1 hv) (hC v hv).2 hr
      rwa [List.append_assoc] at hlast
  exact hrest es [] s hI hC hr

/-- If every step from an invariant state is matched by a step of another machine, guards
included, so is every run. -/
theorem run_abstraction {τ : Type*} {step' : τ → ε → Option τ} {f : σ → τ} {I : σ → Prop}
    (hstep : ∀ s e t, I s → step s e = some t → I t)
    (hsim : ∀ s e, I s → (step s e).map f = step' (f s) e) {s : σ} (hI : I s) (es : List ε) :
    (run step s es).map f = run step' (f s) es := by
  induction es generalizing s with
  | nil => rfl
  | cons e es ih =>
    rw [run, run, ← hsim s e hI]
    cases hs : step s e with
    | none => rfl
    | some t => exact ih (hstep s e t hI hs)

/-- When `P` is exactly what the steps of kind `C` keep: an invariant that implies `P`
survives every step that meets `C`, and a step that misses `C` leaves `P` at once. Then the
runs along which `P` always holds are the runs whose steps all meet `C`. -/
theorem always_iff_everyStep {I P : σ → Prop} {C D : σ → ε → Prop}
    (hIP : ∀ s, I s → P s)
    (hkeep : ∀ s e t, I s → D s e → C s e → step s e = some t → I t)
    (hleave : ∀ s e t, I s → D s e → ¬ C s e → step s e = some t → ¬ P t)
    {s : σ} {es : List ε} (hI : I s) (hD : EveryStep step D s es) :
    Always step P s es ↔ EveryStep step C s es := by
  induction es generalizing s with
  | nil => exact ⟨fun _ => trivial, fun _ => hIP s hI⟩
  | cons e es ih =>
    constructor
    · intro hP t ht
      have hC : C s e := by
        by_contra hn
        exact hleave s e t hI (hD t ht).1 hn ht (always_head (hP.2 t ht))
      have hIt := hkeep s e t hI (hD t ht).1 hC ht
      exact ⟨hC, (ih hIt (hD t ht).2).mp (hP.2 t ht)⟩
    · intro hC
      refine ⟨hIP s hI, fun t ht => ?_⟩
      have hIt := hkeep s e t hI (hD t ht).1 (hC t ht).1 ht
      exact (ih hIt (hD t ht).2).mpr (hC t ht).2

end StepMachine
