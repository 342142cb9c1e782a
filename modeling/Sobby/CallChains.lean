import Mathlib

/-! The calls that one call leads to, of a function that calls itself at most once. Nothing here
is about one particular function: the arguments are a parameter, and so is the argument of the
nested call. -/
namespace CallChains

variable {α : Type*} {nested : α → Option α}

/-- The arguments of the calls in their order. The last of them makes no nested call. -/
inductive Calls (nested : α → Option α) : α → List α → Prop where
  | last {a : α} : nested a = none → Calls nested a [a]
  | call {a b : α} {calls : List α} : nested a = some b → Calls nested b calls →
      Calls nested a (a :: calls)

def Descends (nested : α → Option α) (m : α → ℕ) : Prop :=
  ∀ a b, nested a = some b → m b < m a

variable {m : α → ℕ}

theorem exists_calls (hm : Descends nested m) (a : α) : ∃ calls, Calls nested a calls := by
  induction hn : m a using Nat.strong_induction_on generalizing a with
  | _ n ih =>
    cases hnested : nested a with
    | none => exact ⟨[a], .last hnested⟩
    | some b =>
      have hlt : m b < n := hn ▸ hm a b hnested
      obtain ⟨calls, hcalls⟩ := ih (m b) hlt b rfl
      exact ⟨a :: calls, .call hnested hcalls⟩

theorem calls_le (hm : Descends nested m) {a : α} {calls : List α} (h : Calls nested a calls) :
    ∀ b ∈ calls, m b ≤ m a := by
  induction h with
  | last _ => simp
  | @call a b calls hnested _ ih =>
    intro c hc
    rcases List.mem_cons.mp hc with rfl | hc
    · exact le_rfl
    · exact (ih c hc).trans (hm a b hnested).le

theorem calls_nodup (hm : Descends nested m) {a : α} {calls : List α} (h : Calls nested a calls) :
    calls.Nodup := by
  induction h with
  | last _ => exact List.nodup_singleton _
  | @call a b calls hnested hcalls ih =>
    refine List.nodup_cons.mpr ⟨fun ha => ?_, ih⟩
    have hle := calls_le hm hcalls a ha
    have hlt := hm a b hnested
    omega

theorem calls_length_le (hm : Descends nested m) {a : α} {calls : List α}
    (h : Calls nested a calls) : calls.length ≤ m a + 1 := by
  induction h with
  | last _ => simp
  | @call a b calls hnested _ ih =>
    have hlt := hm a b hnested
    rw [List.length_cons]
    omega

end CallChains
