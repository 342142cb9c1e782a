import Mathlib

/-! Histories that list their observations newest first: what each observation finds behind it,
and what has been going on since an observation of some kind. -/
namespace Histories

variable {α : Type*}

/-- Every observation meets `P` together with the history it was added to. -/
def Each (P : α → List α → Prop) : List α → Prop
  | [] => True
  | a :: h => P a h ∧ Each P h

/-- An observation of the first kind was made and none of the second kind after it. -/
def Since (begins ends : α → Prop) (h : List α) : Prop :=
  ∃ after a before, h = after ++ a :: before ∧ begins a ∧ ∀ b ∈ after, ¬ ends b

theorem each_split {P : α → List α → Prop} {h newer older : List α} {a : α} (he : Each P h)
    (hs : h = newer ++ a :: older) : P a older := by
  induction newer generalizing h with
  | nil =>
    subst hs
    exact he.1
  | cons b newer ih =>
    subst hs
    exact ih he.2 rfl

theorem since_cons {begins ends : α → Prop} {a : α} {h : List α} :
    Since begins ends (a :: h) ↔ begins a ∨ ¬ ends a ∧ Since begins ends h := by
  constructor
  · rintro ⟨after, b, before, hs, hb, hafter⟩
    cases after with
    | nil =>
      obtain ⟨rfl, rfl⟩ := List.cons.inj hs
      exact Or.inl hb
    | cons c after =>
      obtain ⟨rfl, rfl⟩ := List.cons.inj hs
      refine Or.inr ⟨hafter a (by simp), after, b, before, rfl, hb, ?_⟩
      intro x hx
      exact hafter x (by simp [hx])
  · rintro (ha | ⟨ha, after, b, before, rfl, hb, hafter⟩)
    · exact ⟨[], a, h, rfl, ha, by simp⟩
    · refine ⟨a :: after, b, before, rfl, hb, ?_⟩
      intro x hx
      rcases List.mem_cons.mp hx with rfl | hx
      · exact ha
      · exact hafter x hx

theorem not_since_nil {begins ends : α → Prop} : ¬ Since begins ends [] := by
  rintro ⟨after, a, before, hs, _⟩
  simp at hs

end Histories
