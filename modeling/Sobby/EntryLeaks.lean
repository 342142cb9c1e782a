import Sobby.EntryOwnership

/-! What a configuration leaves behind in its process. The loader overwrites pointers, so of two
elements with one name the entries of the first are never deleted; nothing else is lost. -/
namespace EntryLeaks

open Strings (Text)
open ConfigTree (Node)
open ConfigEntries (Entry EntryMap)
open KeyedLists (store find keys)
open EntryLifetimes
open EntryOwnership
open Ownership
open StepMachine

mutual

def entrySize : Entry → ℕ
  | .value _ _ => 1
  | .parent _ children => 1 + entriesSize children

def entriesSize : EntryMap → ℕ
  | [] => 0
  | (_, entry) :: m => entrySize entry + entriesSize m

end

mutual

def SiblingsDistinct : Node → Prop
  | .element _ children =>
    match valueText children with
    | some _ => True
    | none => SiblingsDistinctAll children
  | _ => True

def SiblingsDistinctAll : List Node → Prop
  | [] => True
  | n :: ns =>
    SiblingsDistinct n ∧ (∀ name ∈ n.elementName, name ∉ ns.filterMap Node.elementName) ∧
      SiblingsDistinctAll ns

end

mutual

theorem addresses_length : (p : Pointer) → (entry : Entry) → p.contents = some entry → p.Whole →
    p.addresses.length = entrySize entry
  | .null, _, hc, _ => by cases hc
  | .value at_ name data, entry, hc, _ => by
    obtain rfl : Entry.value name data = entry := by simpa [Pointer.contents] using hc
    rw [Pointer.addresses, entrySize, List.length_singleton]
  | .parent at_ name children, entry, hc, hwhole => by
    obtain rfl : Entry.parent name (contentsAll children) = entry := by
      simpa [Pointer.contents] using hc
    rw [Pointer.addresses, entrySize, List.length_cons, addressesAll_length children hwhole,
      Nat.add_comm]

theorem addressesAll_length : (m : PointerMap) → WholeAll m →
    (addressesAll m).length = entriesSize (contentsAll m)
  | [], _ => by rw [addressesAll, contentsAll, entriesSize, List.length_nil]
  | (key, p) :: m, hwhole => by
    obtain ⟨entry, hentry⟩ := contents_some hwhole.1
    rw [addressesAll, contentsAll, hentry, entriesSize, List.length_append,
      addresses_length p entry hentry hwhole.1, addressesAll_length m hwhole.2]

end

theorem entrySize_pos (entry : Entry) : 0 < entrySize entry := by
  cases entry with
  | value name data => simp [entrySize]
  | parent name children => simp [entrySize]

theorem entriesSize_store (m : EntryMap) (key : Text) (entry : Entry) :
    entriesSize (store m key entry) + (find m key).elim 0 entrySize =
      entriesSize m + entrySize entry := by
  induction m with
  | nil => simp [store, find, entriesSize]
  | cons q m ih =>
    obtain ⟨key', old⟩ := q
    by_cases hkey : key' = key
    · simp only [store, find, hkey, if_true, entriesSize, Option.elim_some]
      omega
    · simp only [store, find, hkey, if_false, entriesSize]
      omega

theorem entriesSize_store_le (m : EntryMap) (key : Text) (entry : Entry) :
    entriesSize (store m key entry) ≤ entriesSize m + entrySize entry ∧
      (entriesSize (store m key entry) = entriesSize m + entrySize entry ↔ key ∉ keys m) := by
  have hstore := entriesSize_store m key entry
  rw [← KeyedLists.find_eq_none]
  cases hfind : find m key with
  | none =>
    rw [hfind, Option.elim_none] at hstore
    exact ⟨hstore.le, iff_of_true hstore rfl⟩
  | some old =>
    have hpos := entrySize_pos old
    rw [hfind, Option.elim_some] at hstore
    refine ⟨by omega, iff_of_false (by omega) (Option.some_ne_none old)⟩

theorem loadChild_nothing {n : Node} (h : ConfigEntries.loadChild n = none) :
    n.elementName = none ∧ elements n = 0 ∧ SiblingsDistinct n := by
  cases n with
  | element name children =>
    rw [entry_valueText] at h
    cases hvalue : valueText children with
    | none => simp [hvalue] at h
    | some content => simp [hvalue] at h
  | text content => exact ⟨rfl, by simp [elements], trivial⟩
  | comment content => exact ⟨rfl, by simp [elements], trivial⟩
  | cdata content => exact ⟨rfl, by simp [elements], trivial⟩

mutual

theorem loadChild_size : (n : Node) → (key : Text) → (entry : Entry) →
    ConfigEntries.loadChild n = some (key, entry) →
      n.elementName = some key ∧ entrySize entry ≤ elements n ∧
        (entrySize entry = elements n ↔ SiblingsDistinct n)
  | .text _, _, _, h => by simp [ConfigEntries.loadChild] at h
  | .comment _, _, _, h => by simp [ConfigEntries.loadChild] at h
  | .cdata _, _, _, h => by simp [ConfigEntries.loadChild] at h
  | .element name children, key, entry, h => by
    obtain ⟨hle, hiff⟩ := loadChildren_size children []
    rw [entry_valueText] at h
    rw [elements, SiblingsDistinct]
    cases hvalue : valueText children with
    | some content =>
      simp only [hvalue, Option.some.injEq, Prod.mk.injEq] at h
      obtain ⟨rfl, rfl⟩ := h
      simp [Node.elementName, entrySize]
    | none =>
      simp only [hvalue, Option.some.injEq, Prod.mk.injEq] at h
      obtain ⟨rfl, rfl⟩ := h
      simp only [entriesSize, Nat.zero_add] at hle hiff
      refine ⟨rfl, Nat.add_le_add_left hle 1, ?_⟩
      rw [entrySize, Nat.add_left_cancel_iff, hiff]
      simp

theorem loadChildren_size : (ns : List Node) → (m : EntryMap) →
    entriesSize (ConfigEntries.loadChildren ns m) ≤ entriesSize m + elementsAll ns ∧
      (entriesSize (ConfigEntries.loadChildren ns m) = entriesSize m + elementsAll ns ↔
        SiblingsDistinctAll ns ∧ ∀ name ∈ ns.filterMap Node.elementName, name ∉ keys m)
  | [], m => by simp [ConfigEntries.loadChildren, elementsAll, SiblingsDistinctAll]
  | n :: ns, m => by
    rw [ConfigEntries.loadChildren, elementsAll, SiblingsDistinctAll]
    cases hload : ConfigEntries.loadChild n with
    | none =>
      obtain ⟨hname, hzero, hdistinct⟩ := loadChild_nothing hload
      obtain ⟨hle, hiff⟩ := loadChildren_size ns m
      simp only [hzero, Nat.zero_add, List.filterMap_cons_none hname]
      refine ⟨hle, hiff.trans (and_congr_left fun _ => ?_)⟩
      simp [hdistinct, hname]
    | some q =>
      obtain ⟨key, entry⟩ := q
      obtain ⟨hname, hle, hiff⟩ := loadChild_size n key entry hload
      obtain ⟨hstore, hnew⟩ := entriesSize_store_le m key entry
      obtain ⟨hrest, hdistinct⟩ := loadChildren_size ns (store m key entry)
      have hsum : entriesSize (ConfigEntries.loadChildren ns (store m key entry)) =
            entriesSize m + (elements n + elementsAll ns) ↔
          entriesSize (store m key entry) = entriesSize m + entrySize entry ∧
            entrySize entry = elements n ∧
            entriesSize (ConfigEntries.loadChildren ns (store m key entry)) =
              entriesSize (store m key entry) + elementsAll ns := by omega
      refine ⟨by simp only; omega, ?_⟩
      simp only
      rw [hsum, hnew, hiff, hdistinct, List.filterMap_cons_some hname, List.forall_mem_cons]
      have hkeys (name : Text) : name ∉ keys (store m key entry) ↔ name ∉ keys m ∧ key ≠ name := by
        rw [← KeyedLists.find_eq_none, ← KeyedLists.find_eq_none, KeyedLists.find_store]
        by_cases hk : key = name
        · simp [hk]
        · simp [hk]
      constructor
      · rintro ⟨hkey, hn, hns, hfree⟩
        refine ⟨⟨hn, ?_, hns⟩, hkey, fun name hin => ((hkeys name).mp (hfree name hin)).1⟩
        intro name hin hlater
        obtain rfl : key = name := Option.some.inj (hname.symm.trans hin)
        exact ((hkeys key).mp (hfree key hlater)).2 rfl
      · rintro ⟨⟨hn, hapart, hns⟩, hkey, hfree⟩
        refine ⟨hkey, hn, hns, fun name hin => (hkeys name).mpr ⟨hfree name hin, ?_⟩⟩
        rintro rfl
        exact hapart key hname hin

end

section Results

variable (alloc : Allocator) (rightFirst : Bool) (live : Finset Address) (doc : Option Node)

/-- What loading leaves behind, counted: each entry made is one of the tree or is lost. -/
theorem load_destroy : ∃ left, (Config.load alloc live doc).destroy = some left ∧ live ⊆ left ∧
    left.card + entriesSize (ConfigEntries.Config.load doc).entries =
      live.card + elementsAll (rootChildren doc) := by
  obtain ⟨s, hs, hload⟩ := load_grown alloc live doc
  have hsound := load_sound alloc live doc
  have hfresh := alloc.fresh live
  refine ⟨_, hsound.destroy, ?_, ?_⟩
  · intro a ha
    have hin := mem_others.mp (hs.kept (others_nil.ge (Finset.mem_insert_of_mem ha)))
    rw [hload, mem_others, List.mem_cons, not_or]
    refine ⟨hin.1, ?_, hin.2⟩
    rintro rfl
    exact hfresh ha
  · have hcard := hsound.owned.card
    have hlength := addressesAll_length _ hsound.whole
    have hcontents : contentsAll (Config.load alloc live doc).children =
        (ConfigEntries.Config.load doc).entries :=
      congrArg ConfigEntries.Config.entries (load_contents alloc live doc)
    have hlive : (Config.load alloc live doc).live.card =
        live.card + 1 + elementsAll (rootChildren doc) := by
      rw [hload, hs.card, Finset.card_insert_of_notMem hfresh]
    rw [List.length_cons, hlength, hcontents, hlive] at hcard
    omega

theorem load_size :
    entriesSize (ConfigEntries.Config.load doc).entries = elementsAll (rootChildren doc) ↔
      SiblingsDistinctAll (rootChildren doc) := by
  have hchildren := (loadChildren_size (rootChildren doc) []).2
  simp only [entriesSize, Nat.zero_add] at hchildren
  have hnothing : [] = ConfigEntries.loadChildren [] [] := by rw [ConfigEntries.loadChildren]
  have hload : (ConfigEntries.Config.load doc).entries =
      ConfigEntries.loadChildren (rootChildren doc) [] := by
    cases doc with
    | none => exact hnothing
    | some n =>
      cases n with
      | element name children => rfl
      | text content => exact hnothing
      | comment content => exact hnothing
      | cdata content => exact hnothing
  rw [hload, hchildren]
  simp

/-- The destructor gives back all that the constructor and the operations have taken, but for the
entries of elements that are followed by one of the same name. Elements below a value have no
entries: they are not counted, and their names may be the same. -/
theorem destroy_gives_back : ∃ left,
    (∀ es c, run (Config.step alloc rightFirst) (some (Config.load alloc live doc)) es =
      some (some c) → c.destroy = some left) ∧
    live ⊆ left ∧
    left.card + entriesSize (ConfigEntries.Config.load doc).entries =
      live.card + elementsAll (rootChildren doc) ∧
    (left = live ↔ SiblingsDistinctAll (rootChildren doc)) := by
  obtain ⟨left, hleft, hkept, hcard⟩ := load_destroy alloc live doc
  refine ⟨left, ?_, hkept, hcard, ?_⟩
  · intro es c hrun
    exact (run_sound alloc rightFirst (load_sound alloc live doc) hrun).2.trans hleft
  · rw [← load_size]
    constructor
    · rintro rfl
      omega
    · intro hsize
      exact (Finset.eq_of_subset_of_card_le hkept (by omega)).symm

end Results

end EntryLeaks
