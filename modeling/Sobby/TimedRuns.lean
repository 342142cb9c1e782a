import Sobby.StepMachine

/-! Runs whose events take time. What held at some moment of a run, and what happened in it, is
dated by the time that has passed since. The machine and the durations are parameters. -/
namespace TimedRuns

open StepMachine

variable {σ ε : Type*} (step : σ → ε → Option σ) (time : ε → ℕ)

def elapsed (es : List ε) : ℕ := (es.map time).sum

/-- `P` held at a moment of the run, `n` ago at most. -/
def Recently (n : ℕ) (P : σ → Prop) (s : σ) (es : List ε) : Prop :=
  ∃ fs gs t, es = fs ++ gs ∧ elapsed time gs ≤ n ∧ run step s fs = some t ∧ P t

/-- An event of kind `D` ended, `n` ago at most. -/
def Happened (n : ℕ) (D : ε → Prop) (es : List ε) : Prop :=
  ∃ fs e gs, es = fs ++ e :: gs ∧ D e ∧ elapsed time gs ≤ n

variable {step time}

theorem elapsed_append (es fs : List ε) :
    elapsed time (es ++ fs) = elapsed time es + elapsed time fs := by
  rw [elapsed, List.map_append, List.sum_append]
  rfl

theorem elapsed_singleton (e : ε) : elapsed time [e] = time e := by
  rw [elapsed, List.map_singleton, List.sum_singleton]

theorem recently_now {n : ℕ} {P : σ → Prop} {s t : σ} {es : List ε} (hr : run step s es = some t)
    (hP : P t) : Recently step time n P s es :=
  ⟨es, [], t, (List.append_nil es).symm, Nat.zero_le n, hr, hP⟩

theorem recently_later {n : ℕ} {P : σ → Prop} {s : σ} {es : List ε} {e : ε}
    (h : Recently step time n P s es) : Recently step time (n + time e) P s (es ++ [e]) := by
  obtain ⟨fs, gs, t, rfl, htime, hr, hP⟩ := h
  refine ⟨fs, gs ++ [e], t, List.append_assoc fs gs [e], ?_, hr, hP⟩
  rw [elapsed_append, elapsed_singleton]
  omega

theorem recently_mono {n m : ℕ} {P Q : σ → Prop} {s : σ} {es : List ε} (hnm : n ≤ m)
    (hPQ : ∀ t, P t → Q t) (h : Recently step time n P s es) : Recently step time m Q s es := by
  obtain ⟨fs, gs, t, hsplit, htime, hr, hP⟩ := h
  exact ⟨fs, gs, t, hsplit, htime.trans hnm, hr, hPQ t hP⟩

theorem happened_now {n : ℕ} {D : ε → Prop} {e : ε} (es : List ε) (hD : D e) :
    Happened time n D (es ++ [e]) :=
  ⟨es, e, [], rfl, hD, Nat.zero_le n⟩

theorem happened_later {n : ℕ} {D : ε → Prop} {es : List ε} {e : ε} (h : Happened time n D es) :
    Happened time (n + time e) D (es ++ [e]) := by
  obtain ⟨fs, f, gs, rfl, hD, htime⟩ := h
  refine ⟨fs, f, gs ++ [e], by rw [List.append_assoc, List.cons_append], hD, ?_⟩
  rw [elapsed_append, elapsed_singleton]
  omega

theorem happened_mono {n m : ℕ} {D : ε → Prop} {es : List ε} (hnm : n ≤ m)
    (h : Happened time n D es) : Happened time m D es := by
  obtain ⟨fs, e, gs, hsplit, hD, htime⟩ := h
  exact ⟨fs, e, gs, hsplit, hD, htime.trans hnm⟩

end TimedRuns
