import Mathlib

/-! Histories of a written-back store: keys are touched by updates and flushed to a backing
copy. Histories list their observations newest first. A `Reading` says how one observation
counts for one key, so several readings may be taken of one history. -/
namespace UpdateHistory

structure Reading (α κ ν : Type*) where
  /-- The observation updates the key. -/
  touches : α → κ → Bool
  /-- The observation writes the key back, with this value. -/
  flushed : α → κ → Option ν

variable {α κ ν : Type*} (R : Reading α κ ν)

/-- The key was never flushed, or was touched since it was flushed last. -/
def Reading.Pending : List α → κ → Prop
  | [], _ => True
  | a :: h, k => R.touches a k = true ∨ R.flushed a k = none ∧ Pending h k

def Reading.lastFlushed : List α → κ → Option ν
  | [], _ => none
  | a :: h, k => (R.flushed a k).or (lastFlushed h k)

/-- A key that is not pending was flushed with its current value. -/
def Reading.Coherent (current : κ → ν) (h : List α) (k : κ) : Prop :=
  ¬ R.Pending h k → R.lastFlushed h k = some (current k)

/-- One bit for the key says whether it is pending. -/
def Reading.Tracks (dirty : κ → Bool) (h : List α) (k : κ) : Prop :=
  dirty k = true ↔ R.Pending h k

variable {R}

theorem pending_cons_touch {a : α} {k : κ} (ha : R.touches a k = true) (h : List α) :
    R.Pending (a :: h) k := Or.inl ha

theorem pending_cons_flush {a : α} {k : κ} {v : ν} (ht : R.touches a k = false)
    (ha : R.flushed a k = some v) (h : List α) : ¬ R.Pending (a :: h) k := by
  simp [Reading.Pending, ht, ha]

theorem pending_cons_skip {a : α} {k : κ} (ht : R.touches a k = false)
    (ha : R.flushed a k = none) (h : List α) : R.Pending (a :: h) k ↔ R.Pending h k := by
  simp [Reading.Pending, ht, ha]

theorem pending_append_skip {newer : List α} {k : κ}
    (hn : ∀ a ∈ newer, R.touches a k = false ∧ R.flushed a k = none) (h : List α) :
    R.Pending (newer ++ h) k ↔ R.Pending h k := by
  induction newer with
  | nil => rfl
  | cons a newer ih =>
    obtain ⟨ht, hf⟩ := hn a (by simp)
    rw [List.cons_append, pending_cons_skip ht hf]
    exact ih fun b hb => hn b (by simp [hb])

theorem lastFlushed_append_skip {newer : List α} {k : κ}
    (hn : ∀ a ∈ newer, R.flushed a k = none) (h : List α) :
    R.lastFlushed (newer ++ h) k = R.lastFlushed h k := by
  induction newer with
  | nil => rfl
  | cons a newer ih =>
    simp only [List.cons_append, Reading.lastFlushed, hn a (by simp), Option.none_or]
    exact ih fun b hb => hn b (by simp [hb])

theorem flushed_append {newer : List α} {k : κ} {v : ν}
    (htouch : ∀ a ∈ newer, R.touches a k = false) (hmem : ∃ a ∈ newer, R.flushed a k ≠ none)
    (hval : ∀ a ∈ newer, ∀ u, R.flushed a k = some u → u = v) (h : List α) :
    ¬ R.Pending (newer ++ h) k ∧ R.lastFlushed (newer ++ h) k = some v := by
  induction newer with
  | nil => simp at hmem
  | cons a newer ih =>
    have ht := htouch a (by simp)
    rw [List.cons_append]
    cases hf : R.flushed a k with
    | some u =>
      have hu := hval a (by simp) u hf
      exact ⟨pending_cons_flush ht hf _, by simp [Reading.lastFlushed, hf, hu]⟩
    | none =>
      have hmem : ∃ b ∈ newer, R.flushed b k ≠ none := by
        obtain ⟨b, hb, hbf⟩ := hmem
        rcases List.mem_cons.mp hb with rfl | hb
        · exact absurd hf hbf
        · exact ⟨b, hb, hbf⟩
      obtain ⟨hp, hl⟩ := ih (fun b hb => htouch b (by simp [hb])) hmem
        (fun b hb => hval b (by simp [hb]))
      rw [pending_cons_skip ht hf]
      exact ⟨hp, by simp [Reading.lastFlushed, hf, hl]⟩

theorem coherent_cons {old new : κ → ν} {a : α} {h : List α} {k : κ}
    (hc : R.Coherent old h k)
    (hkeep : R.touches a k = false → R.flushed a k = none → new k = old k)
    (hflush : ∀ v, R.touches a k = false → R.flushed a k = some v → v = new k) :
    R.Coherent new (a :: h) k := by
  intro hp
  have ht : R.touches a k = false := by
    by_contra ht
    exact hp (pending_cons_touch (by simpa using ht) h)
  cases hf : R.flushed a k with
  | some v => simp [Reading.lastFlushed, hf, hflush v ht hf]
  | none =>
    rw [pending_cons_skip ht hf] at hp
    simp [Reading.lastFlushed, hf, hc hp, hkeep ht hf]

/-- A bit keeps tracking a key when a touch sets it, a flush clears it and everything else
leaves it alone. -/
theorem tracks_cons {old new : κ → Bool} {a : α} {h : List α} {k : κ} (hd : R.Tracks old h k)
    (htouch : R.touches a k = true → new k = true)
    (hflush : ∀ v, R.touches a k = false → R.flushed a k = some v → new k = false)
    (hskip : R.touches a k = false → R.flushed a k = none → new k = old k) :
    R.Tracks new (a :: h) k := by
  unfold Reading.Tracks
  cases ht : R.touches a k with
  | true => exact iff_of_true (htouch ht) (pending_cons_touch ht h)
  | false =>
    cases hf : R.flushed a k with
    | some v => exact iff_of_false (by simp [hflush v ht hf]) (pending_cons_flush ht hf h)
    | none =>
      rw [pending_cons_skip ht hf, hskip ht hf]
      exact hd

def Reading.TouchesOnly (R : Reading α κ ν) (a : α) (k : κ) : Prop :=
  ∀ j, (R.touches a j = true ↔ j = k) ∧ R.flushed a j = none

theorem tracks_cons_touched {old new : κ → Bool} {a : α} {h : List α} {j k : κ}
    (ha : R.TouchesOnly a k) (hnew : new k = true) (hsame : j ≠ k → new j = old j)
    (hold : j ≠ k → R.Tracks old h j) : R.Tracks new (a :: h) j := by
  by_cases hj : j = k
  · subst hj
    exact iff_of_true hnew (pending_cons_touch ((ha j).1.mpr rfl) h)
  · have ht : R.touches a j = false := by simpa using fun h => hj ((ha j).1.mp h)
    unfold Reading.Tracks
    rw [pending_cons_skip ht (ha j).2, hsame hj]
    exact hold hj

theorem coherent_cons_touched {old new : κ → ν} {a : α} {h : List α} {j k : κ}
    (ha : R.TouchesOnly a k) (hsame : j ≠ k → new j = old j)
    (hold : j ≠ k → R.Coherent old h j) : R.Coherent new (a :: h) j := by
  by_cases hj : j = k
  · subst hj
    exact fun hp => (hp (pending_cons_touch ((ha j).1.mpr rfl) h)).elim
  · refine coherent_cons (hold hj) (fun _ _ => hsame hj) fun v _ hv => ?_
    rw [(ha j).2] at hv
    cases hv

/-- The dirty bit of a coherent history is safe: a clean key is backed by its value. -/
theorem clean_is_backed {current : κ → ν} {dirty : κ → Bool} {h : List α} {k : κ}
    (hd : R.Tracks dirty h k) (hc : R.Coherent current h k) (hk : dirty k = false) :
    R.lastFlushed h k = some (current k) := by
  apply hc
  intro hp
  rw [hd.mpr hp] at hk
  cases hk

end UpdateHistory
