import Mathlib

/-! `std::string` and `Glib::ustring` as character sequences, with the operations the server
uses on them. -/
namespace Strings

abbrev Text := List Char

/-- The position of the last occurrence, `none` for `npos`. -/
def rfind : Text → Char → Option ℕ
  | [], _ => none
  | x :: s, c =>
    match rfind s c with
    | some pos => some (pos + 1)
    | none => if x = c then some 0 else none

def substr (s : Text) (pos : ℕ) : Text := s.drop pos

/-- `c_str()` handed to a C function: the text up to the first NUL. -/
def cString (s : Text) : Text := s.takeWhile (· != '\x00')

theorem rfind_none {s : Text} {c : Char} (h : rfind s c = none) : c ∉ s := by
  induction s with
  | nil => simp
  | cons x s ih =>
    simp only [rfind] at h
    cases hs : rfind s c with
    | some pos => simp [hs] at h
    | none =>
      have hx : x ≠ c := by simpa [hs] using h
      simp [ih hs, Ne.symm hx]

theorem rfind_some {s : Text} {c : Char} {pos : ℕ} (h : rfind s c = some pos) :
    ∃ before after, s = before ++ c :: after ∧ before.length = pos ∧ c ∉ after := by
  induction s generalizing pos with
  | nil => cases h
  | cons x s ih =>
    simp only [rfind] at h
    cases hs : rfind s c with
    | some i =>
      obtain ⟨before, after, rfl, hlen, hc⟩ := ih hs
      obtain rfl : i + 1 = pos := by simpa [hs] using h
      exact ⟨x :: before, after, rfl, by simp [hlen], hc⟩
    | none =>
      obtain ⟨rfl, rfl⟩ : x = c ∧ 0 = pos := by simpa [hs] using h
      exact ⟨[], s, rfl, rfl, rfind_none hs⟩

theorem mem_cString {s : Text} {c : Char} (h : c ∈ cString s) : c ∈ s :=
  (List.takeWhile_prefix _).subset h

theorem nul_not_mem_cString (path : Text) : '\x00' ∉ cString path := by
  intro h
  have hx := List.mem_takeWhile_imp h
  simp at hx

theorem cString_self {path : Text} (h : '\x00' ∉ path) : cString path = path := by
  apply List.takeWhile_eq_self_iff.mpr
  intro x hx
  have hne : x ≠ '\x00' := fun he => h (he ▸ hx)
  simpa using hne

end Strings
