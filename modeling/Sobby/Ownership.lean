import Mathlib

/-! What an owner holds among the objects that are alive: all of it alive, and none of it twice.
Nothing here is about one particular heap: the addresses are a parameter. -/
namespace Ownership

variable {α : Type*} [DecidableEq α]

structure Owned (held : List α) (live : Finset α) : Prop where
  distinct : held.Nodup
  alive : ∀ a ∈ held, a ∈ live

/-- What is alive and not held. -/
def others (held : List α) (live : Finset α) : Finset α := live \ held.toFinset

/-- What is held has been given up for something else, and the rest is as it was. -/
structure Exchange (held held' : List α) (live live' : Finset α) : Prop where
  owned : Owned held' live'
  others_eq : others held' live' = others held live

variable {before old new after held held' : List α} {live live' : Finset α} {a : α}

theorem mem_others : a ∈ others held live ↔ a ∈ live ∧ a ∉ held := by
  rw [others, Finset.mem_sdiff, List.mem_toFinset]

theorem others_nil : others [] live = live := by simp [others]

omit [DecidableEq α] in
theorem Owned.part (h : Owned (before ++ (old ++ after)) live) : Owned old live := by
  obtain ⟨_, hrest, _⟩ := List.nodup_append.mp h.distinct
  exact ⟨(List.nodup_append.mp hrest).1, fun a ha => h.alive a (by simp [ha])⟩

theorem Owned.beside (h : Owned (before ++ (old ++ after)) live) (ha : a ∈ before ∨ a ∈ after) :
    a ∈ others old live := by
  obtain ⟨_, hrest, hapart⟩ := List.nodup_append.mp h.distinct
  obtain ⟨_, _, hapart'⟩ := List.nodup_append.mp hrest
  rw [mem_others]
  rcases ha with ha | ha
  · exact ⟨h.alive a (by simp [ha]), fun ho => hapart a ha a (by simp [ho]) rfl⟩
  · exact ⟨h.alive a (by simp [ha]), fun ho => hapart' a ho a ha rfl⟩

/-- A part may be replaced by anything that leaves what is not held. -/
theorem Owned.splice (h : Owned (before ++ (old ++ after)) live) (hnew : Owned new live')
    (hkept : others old live ⊆ others new live') : Owned (before ++ (new ++ after)) live' := by
  have hbeside {a : α} (ha : a ∈ before ∨ a ∈ after) : a ∈ live' ∧ a ∉ new :=
    mem_others.mp (hkept (h.beside ha))
  obtain ⟨hbefore, hrest, hapart⟩ := List.nodup_append.mp h.distinct
  have hafter := (List.nodup_append.mp hrest).2.1
  constructor
  · refine List.nodup_append.mpr ⟨hbefore, List.nodup_append.mpr ⟨hnew.distinct, hafter, ?_⟩, ?_⟩
    · rintro a ha b hb rfl
      exact (hbeside (Or.inr hb)).2 ha
    · rintro a ha b hb rfl
      rcases List.mem_append.mp hb with hb | hb
      · exact (hbeside (Or.inl ha)).2 hb
      · exact hapart a ha a (List.mem_append_right _ hb) rfl
  · intro a ha
    simp only [List.mem_append] at ha
    rcases ha with ha | ha | ha
    · exact (hbeside (Or.inl ha)).1
    · exact hnew.alive a ha
    · exact (hbeside (Or.inr ha)).1

theorem others_splice_mono (hkept : others old live ⊆ others new live') :
    others (before ++ (old ++ after)) live ⊆ others (before ++ (new ++ after)) live' := by
  intro a ha
  simp only [mem_others, List.mem_append, not_or] at ha ⊢
  obtain ⟨hlive, hbefore, hold, hafter⟩ := ha
  obtain ⟨hlive', hnew⟩ := mem_others.mp (hkept (mem_others.mpr ⟨hlive, hold⟩))
  exact ⟨hlive', hbefore, hnew, hafter⟩

theorem Exchange.refl (h : Owned held live) : Exchange held held live live := ⟨h, rfl⟩

theorem Exchange.within (h : Owned (before ++ (old ++ after)) live)
    (hnew : Exchange old new live live') :
    Exchange (before ++ (old ++ after)) (before ++ (new ++ after)) live live' where
  owned := h.splice hnew.owned hnew.others_eq.ge
  others_eq := (others_splice_mono hnew.others_eq.le).antisymm
    (others_splice_mono hnew.others_eq.ge)

theorem Exchange.cons (h : Owned (a :: old) live) (hnew : Exchange old new live live') :
    Exchange (a :: old) (a :: new) live live' := by
  have hwithin : Exchange ([a] ++ (old ++ [])) ([a] ++ (new ++ [])) live live' :=
    Exchange.within (by simpa using h) hnew
  simpa using hwithin

theorem Exchange.fresh (ha : a ∉ others old live) :
    Exchange old [a] live (insert a (others old live)) where
  owned := ⟨List.nodup_singleton a, by simp⟩
  others_eq := by
    ext b
    rw [mem_others, Finset.mem_insert, List.mem_singleton]
    constructor
    · rintro ⟨rfl | hb, hne⟩
      · exact absurd rfl hne
      · exact hb
    · intro hb
      refine ⟨Or.inr hb, ?_⟩
      rintro rfl
      exact ha hb

theorem Owned.card (h : Owned held live) : (others held live).card + held.length = live.card := by
  have hsub : held.toFinset ⊆ live := fun a ha => h.alive a (List.mem_toFinset.mp ha)
  rw [others, ← List.toFinset_card_of_nodup h.distinct]
  exact Finset.card_sdiff_add_card_eq_card hsub

end Ownership
