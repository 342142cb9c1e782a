import Mathlib

/-! The sources of a main loop: each attached source has an identifier of its own that is never
given out again, and a connection is such an identifier or empty. A connection outlives its
source; disconnecting it twice, or after the loop dropped the source, does nothing. -/
namespace SourceTable

variable {α : Type*}

structure Sources (α : Type*) where
  source : ℕ → Option α
  next : ℕ
  fresh : ∀ id, next ≤ id → source id = none

def noSources : Sources α := ⟨fun _ => none, 0, fun _ _ => rfl⟩

def Sources.attach (l : Sources α) (a : α) : Sources α where
  source := Function.update l.source l.next (some a)
  next := l.next + 1
  fresh := by
    intro id hid
    rw [Function.update_of_ne (by omega)]
    exact l.fresh id (by omega)

def Sources.destroy (l : Sources α) (id : ℕ) : Sources α where
  source := Function.update l.source id none
  next := l.next
  fresh := by
    intro i hi
    by_cases h : i = id
    · rw [h, Function.update_self]
    · rw [Function.update_of_ne h]
      exact l.fresh i hi

def Sources.connected (l : Sources α) (conn : Option ℕ) : Bool :=
  conn.any fun id => (l.source id).isSome

def Sources.disconnect (l : Sources α) : Option ℕ → Sources α
  | none => l
  | some id => l.destroy id

@[simp] theorem next_attach (l : Sources α) (a : α) : (l.attach a).next = l.next + 1 := rfl

@[simp] theorem next_disconnect (l : Sources α) (conn : Option ℕ) :
    (l.disconnect conn).next = l.next := by
  cases conn <;> rfl

theorem source_lt {l : Sources α} {id : ℕ} {a : α} (h : l.source id = some a) : id < l.next := by
  by_contra hn
  rw [l.fresh id (by omega)] at h
  cases h

theorem source_attach {l : Sources α} {a b : α} {id : ℕ} :
    (l.attach a).source id = some b ↔ (id = l.next ∧ b = a) ∨ l.source id = some b := by
  by_cases h : id = l.next
  · have hf := l.fresh id (by omega)
    simp only [Sources.attach, h, Function.update_self, Option.some.injEq, true_and]
    rw [← h, hf]
    simp [eq_comm]
  · simp [Sources.attach, h]

theorem source_destroy {l : Sources α} {a : α} {i id : ℕ} :
    (l.destroy i).source id = some a ↔ id ≠ i ∧ l.source id = some a := by
  by_cases h : id = i
  · simp [Sources.destroy, h]
  · simp [Sources.destroy, h]

theorem source_disconnect {l : Sources α} {conn : Option ℕ} {a : α} {id : ℕ} :
    (l.disconnect conn).source id = some a ↔ conn ≠ some id ∧ l.source id = some a := by
  cases conn with
  | none => simp [Sources.disconnect]
  | some i =>
    rw [Sources.disconnect, source_destroy, ne_comm]
    simp

theorem destroy_dead {l : Sources α} {id : ℕ} (h : l.source id = none) : l.destroy id = l := by
  have hs : Function.update l.source id none = l.source := by
    rw [← h, Function.update_eq_self]
  cases l
  simp only [Sources.destroy, Sources.mk.injEq, and_true]
  exact hs

/-- Asking whether the connection is alive before disconnecting it makes no difference. -/
theorem disconnect_if_connected (l : Sources α) (conn : Option ℕ) :
    (if l.connected conn then l.disconnect conn else l) = l.disconnect conn := by
  cases conn with
  | none => simp [Sources.disconnect]
  | some id =>
    cases h : l.source id with
    | none => simp [Sources.disconnect, destroy_dead h]
    | some a => simp [Sources.connected, h]

/-- `l'` comes after `l`: an identifier given out before has its old source or none. -/
structure Later (l l' : Sources α) : Prop where
  next_le : l.next ≤ l'.next
  old : ∀ id a, id < l.next → l'.source id = some a → l.source id = some a

theorem later_refl (l : Sources α) : Later l l := ⟨le_rfl, fun _ _ _ h => h⟩

theorem later_trans {l₁ l₂ l₃ : Sources α} (h : Later l₁ l₂) (k : Later l₂ l₃) : Later l₁ l₃ where
  next_le := h.next_le.trans k.next_le
  old := fun id a hid ha => h.old id a hid (k.old id a (hid.trans_le h.next_le) ha)

theorem later_attach (l : Sources α) (a : α) : Later l (l.attach a) where
  next_le := by simp
  old := by
    intro id b hid hb
    rcases source_attach.mp hb with ⟨rfl, _⟩ | hb
    · exact absurd hid (lt_irrefl _)
    · exact hb

theorem later_disconnect (l : Sources α) (conn : Option ℕ) : Later l (l.disconnect conn) where
  next_le := by simp
  old := fun _ _ _ h => (source_disconnect.mp h).2

end SourceTable
