import Sobby.KeyedLists

/-! Maps kept as lists in the order of their keys, as far as they differ from lists of keys with
values in any order. Nothing here is about one particular order: the comparison is a parameter. -/
namespace OrderedLists

open KeyedLists (find keys)

structure Comparison (κ : Type*) where
  lt : κ → κ → Bool
  irrefl : ∀ a, lt a a = false
  trans : ∀ a b c, lt a b = true → lt b c = true → lt a c = true

/-- No two of the keys are one key for the map. -/
def Comparison.TellsApart {κ : Type*} (o : Comparison κ) (names : Set κ) : Prop :=
  ∀ a ∈ names, ∀ b ∈ names, a ≠ b → o.lt a b = true ∨ o.lt b a = true

variable {κ α : Type*} [DecidableEq κ] (o : Comparison κ)

/-- `map[k] = a` -/
def place : List (κ × α) → κ → α → List (κ × α)
  | [], k, a => [(k, a)]
  | (k', b) :: m, k, a =>
    if o.lt k' k then (k', b) :: place m k a
    else if o.lt k k' then (k, a) :: (k', b) :: m
    else (k, a) :: m

def Ordered (m : List (κ × α)) : Prop := m.Pairwise fun p q => o.lt p.1 q.1 = true

variable {o} {names : Set κ}

omit [DecidableEq κ] in
theorem Comparison.ne_of_lt {a b : κ} (h : o.lt a b = true) : a ≠ b := by
  rintro rfl
  rw [o.irrefl] at h
  cases h

omit [DecidableEq κ] in
theorem Comparison.asymm {a b : κ} (h : o.lt a b = true) : o.lt b a = false := by
  apply eq_false_of_ne_true
  intro hback
  have hself := o.trans a b a h hback
  rw [o.irrefl] at hself
  cases hself

omit [DecidableEq κ] in
theorem Comparison.TellsApart.eq_of_not_lt (ho : o.TellsApart names) {a b : κ} (ha : a ∈ names)
    (hb : b ∈ names) (h : ¬ o.lt a b = true) (h' : ¬ o.lt b a = true) : a = b := by
  by_contra hne
  rcases ho a ha b hb hne with hlt | hlt
  · exact h hlt
  · exact h' hlt

theorem find_place (ho : o.TellsApart names) {m : List (κ × α)} (hm : ∀ p ∈ m, p.1 ∈ names) {k : κ}
    (hk : k ∈ names) (other : κ) (a : α) :
    find (place o m k a) other = if k = other then some a else find m other := by
  induction m with
  | nil => simp only [place, find]
  | cons p m ih =>
    obtain ⟨k', b⟩ := p
    obtain ⟨hk', hm⟩ := List.forall_mem_cons.mp hm
    have ih := ih hm
    by_cases hlt : o.lt k' k = true
    · rw [place, if_pos hlt, find, ih, find]
      by_cases hk : k = other
      · simp [hk, hk ▸ o.ne_of_lt hlt]
      · simp [hk]
    · by_cases hgt : o.lt k k' = true
      · rw [place, if_neg hlt, if_pos hgt, find]
      · obtain rfl := ho.eq_of_not_lt hk' hk hlt hgt
        rw [place, if_neg hlt, if_neg hgt, find, find]
        by_cases hk : k' = other
        · simp [hk]
        · simp [hk]

omit [DecidableEq κ] in
theorem mem_place {m : List (κ × α)} {k : κ} {a : α} {p : κ × α} (h : p ∈ place o m k a) :
    p = (k, a) ∨ p ∈ m := by
  induction m with
  | nil => exact Or.inl (by simpa [place] using h)
  | cons q m ih =>
    obtain ⟨k', b⟩ := q
    rw [place] at h
    split at h
    · rcases List.mem_cons.mp h with h | h
      · exact Or.inr (by simp [h])
      · rcases ih h with h | h
        · exact Or.inl h
        · exact Or.inr (List.mem_cons_of_mem _ h)
    · split at h
      · exact List.mem_cons.mp h
      · rcases List.mem_cons.mp h with h | h
        · exact Or.inl h
        · exact Or.inr (List.mem_cons_of_mem _ h)

omit [DecidableEq κ] in
theorem ordered_place (ho : o.TellsApart names) {m : List (κ × α)} (hn : ∀ p ∈ m, p.1 ∈ names)
    (h : Ordered o m) {k : κ} (hk : k ∈ names) (a : α) : Ordered o (place o m k a) := by
  induction m with
  | nil => exact List.pairwise_singleton _ _
  | cons p m ih =>
    obtain ⟨k', b⟩ := p
    obtain ⟨hk', hn⟩ := List.forall_mem_cons.mp hn
    obtain ⟨hfirst, hm⟩ := List.pairwise_cons.mp h
    rw [place]
    split
    · next hlt =>
      refine List.pairwise_cons.mpr ⟨?_, ih hn hm⟩
      intro q hq
      rcases mem_place hq with rfl | hq
      · exact hlt
      · exact hfirst q hq
    · next hlt =>
      split
      · next hgt =>
        refine List.pairwise_cons.mpr ⟨?_, h⟩
        intro q hq
        rcases List.mem_cons.mp hq with rfl | hq
        · exact hgt
        · exact o.trans _ _ _ hgt (hfirst q hq)
      · next hgt =>
        obtain rfl := ho.eq_of_not_lt hk' hk hlt hgt
        exact List.pairwise_cons.mpr ⟨hfirst, hm⟩

omit [DecidableEq κ] in
theorem ordered_keys {m : List (κ × α)} :
    Ordered o m ↔ (keys m).Pairwise fun a b => o.lt a b = true := by
  rw [Ordered, keys, List.pairwise_map]

omit [DecidableEq κ] in
theorem nodup_keys {m : List (κ × α)} (h : Ordered o m) : (keys m).Nodup :=
  (ordered_keys.mp h).imp o.ne_of_lt

theorem ordered_ext {m m' : List (κ × α)} (h : Ordered o m) (h' : Ordered o m')
    (hfind : ∀ k, find m k = find m' k) : m = m' := by
  have hnodup := nodup_keys h
  have hmem (k : κ) : k ∈ keys m ↔ k ∈ keys m' := by
    rw [← not_iff_not, ← KeyedLists.find_eq_none, ← KeyedLists.find_eq_none, hfind]
  have hperm : (keys m).Perm (keys m') :=
    (List.perm_ext_iff_of_nodup hnodup (nodup_keys h')).mpr hmem
  have hkeys : keys m = keys m' := by
    refine hperm.eq_of_pairwise ?_ (ordered_keys.mp h) (ordered_keys.mp h')
    intro a b _ _ hab hba
    rw [o.asymm hab] at hba
    cases hba
  exact KeyedLists.ext hkeys hnodup hfind

end OrderedLists
