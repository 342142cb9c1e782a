import Mathlib

/-! Maps kept as lists of keys with values, one value to a key. Nothing here is about one
particular map: the keys, with what makes two of them the same, and the values are parameters. -/
namespace KeyedLists

variable {κ α β : Type*} [DecidableEq κ]

/-- A key that is present keeps its place and gets the new value. -/
def store : List (κ × α) → κ → α → List (κ × α)
  | [], k, a => [(k, a)]
  | (k', b) :: m, k, a => if k' = k then (k, a) :: m else (k', b) :: store m k a

def find : List (κ × α) → κ → Option α
  | [], _ => none
  | (k', b) :: m, k => if k' = k then some b else find m k

abbrev keys (m : List (κ × α)) : List κ := m.map Prod.fst

/-- The values of a list stored one after another. -/
def storeAll : List (κ × α) → List (κ × α) → List (κ × α)
  | [], m => m
  | (k, a) :: l, m => storeAll l (store m k a)

theorem find_store (m : List (κ × α)) (k other : κ) (a : α) :
    find (store m k a) other = if k = other then some a else find m other := by
  induction m with
  | nil => simp only [store, find]
  | cons p m ih =>
    obtain ⟨k', b⟩ := p
    by_cases hk : k' = k
    · subst hk
      by_cases ho : k' = other
      · simp [store, find, ho]
      · simp [store, find, ho]
    · by_cases ho : k' = other
      · subst ho
        simp [store, find, hk, Ne.symm hk]
      · simp [store, find, hk, ho, ih]

theorem store_find {m : List (κ × α)} {k : κ} {a : α} (h : find m k = some a) :
    store m k a = m := by
  induction m with
  | nil => cases h
  | cons p m ih =>
    obtain ⟨k', b⟩ := p
    by_cases hk : k' = k
    · subst hk
      obtain rfl : b = a := by simpa [find] using h
      simp [store]
    · have hm : find m k = some a := by simpa [find, hk] using h
      simp [store, hk, ih hm]

theorem find_eq_none {m : List (κ × α)} {k : κ} : find m k = none ↔ k ∉ keys m := by
  induction m with
  | nil => simp [find]
  | cons p m ih =>
    obtain ⟨k', b⟩ := p
    by_cases hk : k' = k
    · simp [find, hk]
    · simp [find, hk, ih, Ne.symm hk]

theorem find_mem {m : List (κ × α)} {k : κ} {a : α} (h : find m k = some a) : (k, a) ∈ m := by
  induction m with
  | nil => cases h
  | cons p m ih =>
    obtain ⟨k', b⟩ := p
    by_cases hk : k' = k
    · obtain rfl : b = a := by simpa [find, hk] using h
      simp [hk]
    · have hm : find m k = some a := by simpa [find, hk] using h
      exact List.mem_cons_of_mem _ (ih hm)

theorem mem_store {m : List (κ × α)} {k : κ} {a : α} {p : κ × α} (h : p ∈ store m k a) :
    p = (k, a) ∨ p ∈ m := by
  induction m with
  | nil => exact Or.inl (by simpa [store] using h)
  | cons q m ih =>
    obtain ⟨k', b⟩ := q
    by_cases hk : k' = k
    · simp only [store, hk, if_true, List.mem_cons] at h
      rcases h with h | h
      · exact Or.inl h
      · exact Or.inr (List.mem_cons_of_mem _ h)
    · simp only [store, hk, if_false, List.mem_cons] at h
      rcases h with h | h
      · exact Or.inr (by simp [h])
      · rcases ih h with h | h
        · exact Or.inl h
        · exact Or.inr (List.mem_cons_of_mem _ h)

theorem keys_store (m : List (κ × α)) (k : κ) (a : α) :
    keys (store m k a) = if k ∈ keys m then keys m else keys m ++ [k] := by
  induction m with
  | nil => simp [store]
  | cons p m ih =>
    obtain ⟨k', b⟩ := p
    by_cases hk : k' = k
    · simp [store, hk]
    · by_cases hm : k ∈ keys m
      · simp [store, hk, ih, hm]
      · simp [store, hk, ih, hm, Ne.symm hk]

theorem nodup_store {m : List (κ × α)} (h : (keys m).Nodup) (k : κ) (a : α) :
    (keys (store m k a)).Nodup := by
  rw [keys_store]
  split
  · exact h
  · next hk =>
    refine List.nodup_append.mpr ⟨h, List.nodup_singleton k, ?_⟩
    intro x hx y hy hxy
    obtain rfl := List.mem_singleton.mp hy
    exact hk (hxy ▸ hx)

theorem store_new {m : List (κ × α)} {k : κ} (h : k ∉ keys m) (a : α) :
    store m k a = m ++ [(k, a)] := by
  induction m with
  | nil => simp only [store, List.nil_append]
  | cons p m ih =>
    obtain ⟨k', b⟩ := p
    simp only [keys, List.map_cons, List.mem_cons, not_or] at h
    simp [store, Ne.symm h.1, ih h.2]

theorem flatMap_store {γ : Type*} (f : α → List γ) (m : List (κ × α)) (k : κ) :
    ∃ before after, m.flatMap (fun p => f p.2) = before ++ ((find m k).elim [] f ++ after) ∧
      ∀ a, (store m k a).flatMap (fun p => f p.2) = before ++ (f a ++ after) := by
  induction m with
  | nil => exact ⟨[], [], rfl, fun a => by simp [store]⟩
  | cons p m ih =>
    obtain ⟨k', b⟩ := p
    by_cases hk : k' = k
    · exact ⟨[], m.flatMap fun p => f p.2, by simp [find, hk], fun a => by simp [store, hk]⟩
    · obtain ⟨before, after, hm, hstore⟩ := ih
      refine ⟨f b ++ before, after, ?_, fun a => ?_⟩
      · simp [find, hk, hm]
      · simp [store, hk, hstore]

theorem ext {m m' : List (κ × α)} (hkeys : keys m = keys m') (hnodup : (keys m).Nodup)
    (h : ∀ k, find m k = find m' k) : m = m' := by
  induction m generalizing m' with
  | nil => exact (List.map_eq_nil_iff.mp hkeys.symm).symm
  | cons p m ih =>
    obtain ⟨k, a⟩ := p
    cases m' with
    | nil => cases hkeys
    | cons q m' =>
      obtain ⟨k', a'⟩ := q
      simp only [keys, List.map_cons, List.cons.injEq] at hkeys
      obtain ⟨rfl, hkeys⟩ := hkeys
      obtain ⟨hk, hnodup⟩ := List.nodup_cons.mp hnodup
      have ha : a = a' := by simpa [find] using h k
      have hm : m = m' := by
        apply ih hkeys hnodup
        intro other
        by_cases ho : k = other
        · subst ho
          have hk' : k ∉ keys m' := by rwa [keys, ← hkeys]
          rw [find_eq_none.mpr hk, find_eq_none.mpr hk']
        · simpa [find, ho] using h other
      rw [ha, hm]

theorem store_map (f : α → β) (m : List (κ × α)) (k : κ) (a : α) :
    (store m k a).map (Prod.map id f) = store (m.map (Prod.map id f)) k (f a) := by
  induction m with
  | nil => simp [store]
  | cons p m ih =>
    obtain ⟨k', b⟩ := p
    by_cases hk : k' = k
    · simp [store, hk]
    · simp [store, hk, ih]

theorem nodup_storeAll {m : List (κ × α)} (h : (keys m).Nodup) (l : List (κ × α)) :
    (keys (storeAll l m)).Nodup := by
  induction l generalizing m with
  | nil => exact h
  | cons p l ih => exact ih (nodup_store h p.1 p.2)

theorem keys_storeAll {l : List (κ × α)} {l' : List (κ × β)} (hl : keys l = keys l')
    {m : List (κ × α)} {m' : List (κ × β)} (hm : keys m = keys m') :
    keys (storeAll l m) = keys (storeAll l' m') := by
  induction l generalizing l' m m' with
  | nil =>
    obtain rfl := List.map_eq_nil_iff.mp hl.symm
    exact hm
  | cons p l ih =>
    cases l' with
    | nil => cases hl
    | cons q l' =>
      obtain ⟨k, a⟩ := p
      obtain ⟨k', b⟩ := q
      simp only [keys, List.map_cons, List.cons.injEq] at hl
      obtain ⟨rfl, hl⟩ := hl
      apply ih hl
      rw [keys_store, keys_store, hm]

theorem find_storeAll (l m : List (κ × α)) (k : κ) :
    find (storeAll l m) k = (find (storeAll l []) k).or (find m k) := by
  induction l generalizing m with
  | nil => simp [storeAll, find]
  | cons p l ih =>
    obtain ⟨k', a⟩ := p
    rw [storeAll, storeAll, ih (store m k' a), ih (store [] k' a), find_store, find_store]
    by_cases hk : k' = k
    · simp [hk]
    · simp [hk, find]

theorem find_storeAll_eq_none {l : List (κ × α)} {k : κ} :
    find (storeAll l []) k = none ↔ k ∉ keys l := by
  induction l with
  | nil => simp [storeAll, find]
  | cons p l ih =>
    obtain ⟨k', a⟩ := p
    rw [storeAll, find_storeAll, find_store, Option.or_eq_none_iff, ih]
    by_cases hk : k' = k
    · simp [hk]
    · simp [hk, find, Ne.symm hk]

theorem find_storeAll_some {l : List (κ × α)} {k : κ} (h : k ∈ keys l) :
    ∃ a, find (storeAll l []) k = some a := by
  apply Option.ne_none_iff_exists'.mp
  intro hnone
  exact find_storeAll_eq_none.mp hnone h

theorem storeAll_of_nodup {m l : List (κ × α)} (h : (keys (m ++ l)).Nodup) :
    storeAll l m = m ++ l := by
  induction l generalizing m with
  | nil => simp [storeAll]
  | cons p l ih =>
    obtain ⟨k, a⟩ := p
    have hk : k ∉ keys m := by
      intro hmem
      rw [keys, List.map_append] at h
      exact (List.disjoint_of_nodup_append h) hmem (by simp)
    have hnodup : (keys ((m ++ [(k, a)]) ++ l)).Nodup := by simpa using h
    rw [storeAll, store_new hk, ih hnodup, List.append_assoc, List.singleton_append]

theorem find_storeAll_cons (k : κ) (a : α) (l : List (κ × α)) (other : κ) :
    find (storeAll ((k, a) :: l) []) other =
      (find (storeAll l []) other).or (if k = other then some a else none) := by
  rw [storeAll, find_storeAll, find_store]
  simp [find]

/-- A value counts for the outcome unless its key comes again. -/
theorem storeAll_cons_eq_iff {l l' : List (κ × α)} (hkeys : keys l = keys l') (k : κ)
    (a a' : α) :
    storeAll ((k, a) :: l) [] = storeAll ((k, a') :: l') [] ↔
      (k ∈ keys l ∨ a = a') ∧ storeAll l [] = storeAll l' [] := by
  have hnil : (keys ([] : List (κ × α))).Nodup := List.nodup_nil
  constructor
  · intro h
    have hall (other : κ) := congrArg (find · other) h
    simp only [find_storeAll_cons] at hall
    constructor
    · by_cases hk : k ∈ keys l
      · exact Or.inl hk
      · have hk' : k ∉ keys l' := hkeys ▸ hk
        have := hall k
        rw [find_storeAll_eq_none.mpr hk, find_storeAll_eq_none.mpr hk'] at this
        exact Or.inr (by simpa using this)
    · apply ext (keys_storeAll hkeys rfl) (nodup_storeAll hnil l)
      intro other
      have := hall other
      by_cases ho : other ∈ keys l
      · obtain ⟨b, hb⟩ := find_storeAll_some ho
        obtain ⟨b', hb'⟩ := find_storeAll_some (hkeys ▸ ho)
        rw [hb, hb'] at this ⊢
        simpa using this
      · rw [find_storeAll_eq_none.mpr ho, find_storeAll_eq_none.mpr (hkeys ▸ ho)]
  · rintro ⟨hk, htail⟩
    have hcons : keys ((k, a) :: l) = keys ((k, a') :: l') := by simp [hkeys]
    apply ext (keys_storeAll hcons rfl) (nodup_storeAll hnil _)
    intro other
    rw [find_storeAll_cons, find_storeAll_cons, ← htail]
    rcases hk with hk | rfl
    · by_cases ho : k = other
      · subst ho
        obtain ⟨b, hb⟩ := find_storeAll_some hk
        simp [hb]
      · simp [ho]
    · simp

end KeyedLists
