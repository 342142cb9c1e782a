import Sobby.ConfigEntries

/-! The objects behind the configuration tree. The map of a parent holds pointers; an entry is
deleted before the one that replaces it exists, so what the pointers point to has to be told from
what is alive. An operation without a result is one whose behaviour is undefined. -/
namespace EntryLifetimes

open Strings (Text)
open ConfigTree (Node)
open ConfigEntries (Entry EntryMap)
open KeyedLists (store find keys)

abbrev Address := ℕ

/-- An `Entry*`, with the object it was made for. -/
inductive Pointer where
  | null
  | value (at_ : Address) (name data : Text)
  | parent (at_ : Address) (name : Text) (children : List (Text × Pointer))

/-- `m_map` -/
abbrev PointerMap := List (Text × Pointer)

mutual

def Pointer.delete : Pointer → Finset Address → Option (Finset Address)
  | .null, live => some live
  | .value at_ _ _, live => if at_ ∈ live then some (live.erase at_) else none
  | .parent at_ _ children, live =>
    if at_ ∈ live then (deleteAll children live).map (·.erase at_) else none

/-- `~ParentEntry` -/
def deleteAll : PointerMap → Finset Address → Option (Finset Address)
  | [], live => some live
  | (_, p) :: m, live => (p.delete live).bind (deleteAll m)

end

mutual

def Pointer.save (live : Finset Address) : Pointer → Option Node
  | .null => none
  | .value at_ name data =>
    if at_ ∈ live then some (.element name (if data = [] then [] else [.text data])) else none
  | .parent at_ name children =>
    if at_ ∈ live then (saveAll live children).map (.element name) else none

def saveAll (live : Finset Address) : PointerMap → Option (List Node)
  | [] => some []
  | (_, p) :: m => (p.save live).bind fun n => (saveAll live m).map (n :: ·)

end

structure ParentEntry where
  children : PointerMap
  live : Finset Address

def ParentEntry.getChild (s : ParentEntry) (name : Text) : Pointer :=
  (find s.children name).getD .null

/-- The cast of a null pointer is null, that of a deleted entry is undefined. -/
def ParentEntry.getValueChild (s : ParentEntry) (name : Text) : Option (Option Text) :=
  match s.getChild name with
  | .null => some none
  | .value at_ _ data => if at_ ∈ s.live then some (some data) else none
  | .parent at_ _ _ => if at_ ∈ s.live then some none else none

structure Allocator where
  alloc : Finset Address → Address
  fresh : ∀ live, alloc live ∉ live

/-- `m_map[name]`, which makes room for a name it does not have. -/
def slot (m : PointerMap) (name : Text) : PointerMap :=
  match find m name with
  | some _ => m
  | none => store m name .null

section Calls

variable {α ε : Type*} (alloc : Allocator) (rightFirst : Bool) (toString : α → Except ε Text)
  (fromString : Text → Except ε α)

/-- Which side of `m_map[name] = new ..` is evaluated first is left to the compiler. The name is a
value, as the callers' are: no name that the replaced entry holds itself. -/
def ParentEntry.setValue (s : ParentEntry) (name : Text) (value : α) :
    Option (ParentEntry × Except ε Unit) :=
  ((s.getChild name).delete s.live).map fun live =>
    match toString value with
    | .ok data =>
      (⟨store s.children name (.value (alloc.alloc live) name data),
        insert (alloc.alloc live) live⟩, .ok ())
    | .error e => (⟨if rightFirst then s.children else slot s.children name, live⟩, .error e)

def ParentEntry.supplyValue (s : ParentEntry) (name : Text) (default : α) :
    Option (ParentEntry × Except ε α) :=
  match s.getValueChild name with
  | none => none
  | some (some data) => some (s, fromString data)
  | some none =>
    (s.setValue alloc rightFirst toString name default).map fun r =>
      (r.1, r.2.map fun _ => default)

end Calls

mutual

def Pointer.addresses : Pointer → List Address
  | .null => []
  | .value at_ _ _ => [at_]
  | .parent at_ _ children => at_ :: addressesAll children

def addressesAll : PointerMap → List Address
  | [] => []
  | (_, p) :: m => p.addresses ++ addressesAll m

end

mutual

def Pointer.Whole : Pointer → Prop
  | .null => False
  | .value _ _ _ => True
  | .parent _ _ children => WholeAll children

def WholeAll : PointerMap → Prop
  | [] => True
  | (_, p) :: m => p.Whole ∧ WholeAll m

end

/-- Every entry below the parent is alive, and each is an object of its own. -/
structure Sound (s : ParentEntry) : Prop where
  whole : WholeAll s.children
  distinct : (addressesAll s.children).Nodup
  alive : ∀ a ∈ addressesAll s.children, a ∈ s.live

structure Tree extends ParentEntry where
  sound : Sound toParentEntry

theorem addressesAll_eq (m : PointerMap) : addressesAll m = m.flatMap fun q => q.2.addresses := by
  induction m with
  | nil => rw [addressesAll, List.flatMap_nil]
  | cons q m ih => rw [addressesAll, ih, List.flatMap_cons]

theorem wholeAll_iff {m : PointerMap} : WholeAll m ↔ ∀ q ∈ m, q.2.Whole := by
  induction m with
  | nil => simp [WholeAll]
  | cons q m ih => simp [WholeAll, ih]

mutual

/-- Deleting what is alive ends the lives of its entries and of no others. -/
theorem delete_alive : (p : Pointer) → (live : Finset Address) → p.addresses.Nodup →
    (∀ a ∈ p.addresses, a ∈ live) → p.delete live = some (live \ p.addresses.toFinset)
  | .null, live, _, _ => by simp [Pointer.delete, Pointer.addresses]
  | .value at_ _ _, live, _, halive => by
    rw [Pointer.delete, if_pos (halive at_ (by simp [Pointer.addresses]))]
    simp [Pointer.addresses, Finset.sdiff_singleton_eq_erase]
  | .parent at_ _ children, live, hnodup, halive => by
    rw [Pointer.addresses, List.nodup_cons] at hnodup
    rw [Pointer.addresses] at halive
    have hchildren := deleteAll_alive children live hnodup.2 fun a ha => halive a (by simp [ha])
    rw [Pointer.delete, if_pos (halive at_ (by simp)), hchildren, Option.map_some]
    congr 1
    ext a
    simp [Pointer.addresses, and_left_comm]

theorem deleteAll_alive : (m : PointerMap) → (live : Finset Address) → (addressesAll m).Nodup →
    (∀ a ∈ addressesAll m, a ∈ live) → deleteAll m live = some (live \ (addressesAll m).toFinset)
  | [], live, _, _ => by simp [deleteAll, addressesAll]
  | (_, p) :: m, live, hnodup, halive => by
    rw [addressesAll, List.nodup_append] at hnodup
    rw [addressesAll] at halive
    obtain ⟨hp, hm, hapart⟩ := hnodup
    have hfirst := delete_alive p live hp fun a ha => halive a (by simp [ha])
    have hrest := deleteAll_alive m (live \ p.addresses.toFinset) hm fun a ha => by
      have hnot : a ∉ p.addresses := fun hin => hapart a hin a ha rfl
      simpa [hnot] using halive a (by simp [ha])
    rw [deleteAll, hfirst, Option.bind_some, hrest]
    congr 1
    ext a
    simp [addressesAll, and_assoc]

end

mutual

theorem delete_subset : (p : Pointer) → (live live' : Finset Address) →
    p.delete live = some live' → live' ⊆ live
  | .null, live, live', h => by
    obtain rfl := Option.some.inj h
    exact Finset.Subset.refl live
  | .value at_ _ _, live, live', h => by
    rw [Pointer.delete] at h
    split at h
    · obtain rfl := Option.some.inj h
      exact Finset.erase_subset _ _
    · cases h
  | .parent at_ _ children, live, live', h => by
    rw [Pointer.delete] at h
    split at h
    · obtain ⟨left, hleft, rfl⟩ := Option.map_eq_some_iff.mp h
      exact (Finset.erase_subset _ _).trans (deleteAll_subset children live left hleft)
    · cases h

theorem deleteAll_subset : (m : PointerMap) → (live live' : Finset Address) →
    deleteAll m live = some live' → live' ⊆ live
  | [], live, live', h => by
    obtain rfl := Option.some.inj h
    exact Finset.Subset.refl live
  | (_, p) :: m, live, live', h => by
    rw [deleteAll] at h
    obtain ⟨left, hleft, h⟩ := Option.bind_eq_some_iff.mp h
    exact (deleteAll_subset m left live' h).trans (delete_subset p live left hleft)

end

mutual

theorem save_alive : (p : Pointer) → (live : Finset Address) → p.Whole →
    (∀ a ∈ p.addresses, a ∈ live) → ∃ n, p.save live = some n
  | .null, _, hwhole, _ => hwhole.elim
  | .value at_ _ _, live, _, halive =>
    ⟨_, by rw [Pointer.save, if_pos (halive at_ (by simp [Pointer.addresses]))]⟩
  | .parent at_ name children, live, hwhole, halive => by
    rw [Pointer.addresses] at halive
    obtain ⟨ns, hns⟩ := saveAll_alive children live hwhole fun a ha => halive a (by simp [ha])
    exact ⟨.element name ns, by rw [Pointer.save, if_pos (halive at_ (by simp)), hns]; rfl⟩

theorem saveAll_alive : (m : PointerMap) → (live : Finset Address) → WholeAll m →
    (∀ a ∈ addressesAll m, a ∈ live) → ∃ ns, saveAll live m = some ns
  | [], _, _, _ => ⟨[], rfl⟩
  | (_, p) :: m, live, hwhole, halive => by
    rw [addressesAll] at halive
    obtain ⟨n, hn⟩ := save_alive p live hwhole.1 fun a ha => halive a (by simp [ha])
    obtain ⟨ns, hns⟩ := saveAll_alive m live hwhole.2 fun a ha => halive a (by simp [ha])
    exact ⟨n :: ns, by rw [saveAll, hn, hns]; rfl⟩

end

def Pointer.root : Pointer → Option Address
  | .null => none
  | .value at_ _ _ => some at_
  | .parent at_ _ _ => some at_

theorem root_mem {p : Pointer} {a : Address} (h : p.root = some a) : a ∈ p.addresses := by
  cases p with
  | null => cases h
  | value at_ name data =>
    obtain rfl := Option.some.inj h
    simp [Pointer.addresses]
  | parent at_ name children =>
    obtain rfl := Option.some.inj h
    simp [Pointer.addresses]

theorem root_some {p : Pointer} (h : p.Whole) : ∃ a, p.root = some a := by
  cases p with
  | null => exact h.elim
  | value at_ name data => exact ⟨at_, rfl⟩
  | parent at_ name children => exact ⟨at_, rfl⟩

section Dangling

variable {p : Pointer} {a : Address} {m : PointerMap} {key : Text} {live : Finset Address}

theorem delete_dead (h : p.root = some a) (ha : a ∉ live) : p.delete live = none := by
  cases p with
  | null => cases h
  | value at_ name data =>
    obtain rfl := Option.some.inj h
    rw [Pointer.delete, if_neg ha]
  | parent at_ name children =>
    obtain rfl := Option.some.inj h
    rw [Pointer.delete, if_neg ha]

theorem save_dead (h : p.root = some a) (ha : a ∉ live) : p.save live = none := by
  cases p with
  | null => cases h
  | value at_ name data =>
    obtain rfl := Option.some.inj h
    rw [Pointer.save, if_neg ha]
  | parent at_ name children =>
    obtain rfl := Option.some.inj h
    rw [Pointer.save, if_neg ha]

theorem deleteAll_dead (hp : (key, p) ∈ m) (h : p.root = some a) (ha : a ∉ live) :
    deleteAll m live = none := by
  induction m generalizing live with
  | nil => cases hp
  | cons q m ih =>
    obtain ⟨key', q⟩ := q
    rw [deleteAll]
    rcases List.mem_cons.mp hp with heq | hp
    · obtain ⟨rfl, rfl⟩ := Prod.mk.inj heq
      rw [delete_dead h ha, Option.bind_none]
    · cases hq : q.delete live with
      | none => rfl
      | some live' => exact ih hp fun hin => ha (delete_subset q live live' hq hin)

theorem saveAll_dead (hp : (key, p) ∈ m) (h : p.root = some a) (ha : a ∉ live) :
    saveAll live m = none := by
  induction m with
  | nil => cases hp
  | cons q m ih =>
    obtain ⟨key', q⟩ := q
    rw [saveAll]
    rcases List.mem_cons.mp hp with heq | hp
    · obtain ⟨rfl, rfl⟩ := Prod.mk.inj heq
      rw [save_dead h ha, Option.bind_none]
    · rw [ih hp]
      cases q.save live with
      | none => rfl
      | some n => rfl

theorem getValueChild_dead {s : ParentEntry} {name : Text} (hp : find s.children name = some p)
    (h : p.root = some a) (ha : a ∉ s.live) : s.getValueChild name = none := by
  rw [ParentEntry.getValueChild, ParentEntry.getChild, hp, Option.getD_some]
  cases p with
  | null => cases h
  | value at_ name data =>
    obtain rfl := Option.some.inj h
    exact if_neg ha
  | parent at_ name children =>
    obtain rfl := Option.some.inj h
    exact if_neg ha

end Dangling

section Soundness

variable {s : ParentEntry} {p : Pointer} {name : Text}

theorem Sound.child (hs : Sound s) (hp : find s.children name = some p) :
    p.Whole ∧ ∀ a ∈ p.addresses, a ∈ s.live := by
  have hmem := KeyedLists.find_mem hp
  refine ⟨wholeAll_iff.mp hs.whole _ hmem, fun a ha => hs.alive a ?_⟩
  rw [addressesAll_eq]
  exact List.mem_flatMap.mpr ⟨_, hmem, ha⟩

theorem addressesAll_store (m : PointerMap) (name : Text) :
    ∃ before after,
      addressesAll m = before ++ (((find m name).getD .null).addresses ++ after) ∧
      ∀ p, addressesAll (store m name p) = before ++ (p.addresses ++ after) := by
  obtain ⟨before, after, hm, hstore⟩ := KeyedLists.flatMap_store Pointer.addresses m name
  refine ⟨before, after, ?_, fun p => by rw [addressesAll_eq, hstore]⟩
  rw [addressesAll_eq, hm]
  cases find m name with
  | none => rfl
  | some p => rfl

theorem Sound.getValueChild (hs : Sound s) (name : Text) : s.getValueChild name ≠ none := by
  rw [ParentEntry.getValueChild, ParentEntry.getChild]
  cases hp : find s.children name with
  | none => exact Option.some_ne_none _
  | some p =>
    obtain ⟨_, halive⟩ := hs.child hp
    cases p with
    | null => exact Option.some_ne_none _
    | value at_ own data =>
      have hat : at_ ∈ s.live := halive at_ (root_mem rfl)
      simp [hat]
    | parent at_ own children =>
      have hat : at_ ∈ s.live := halive at_ (root_mem rfl)
      simp [hat]

theorem Sound.delete_child (hs : Sound s) (name : Text) :
    (s.getChild name).delete s.live =
      some (s.live \ (s.getChild name).addresses.toFinset) := by
  obtain ⟨before, after, hm, _⟩ := addressesAll_store s.children name
  have hdistinct := hs.distinct
  rw [hm, List.nodup_append] at hdistinct
  apply delete_alive _ _ (List.nodup_append.mp hdistinct.2.1).1
  intro a ha
  apply hs.alive
  rw [hm]
  exact List.mem_append_right _ (List.mem_append_left _ ha)

end Soundness

/-- What a caller finds who catches the exception: the tree it had, with every entry alive, which
can be read, saved and destroyed. -/
structure Unharmed (s s' : ParentEntry) : Prop where
  same : s' = s
  alive : ∀ key p, (key, p) ∈ s'.children → ∃ a, p.root = some a ∧ a ∈ s'.live
  reads : ∀ key, s'.getValueChild key ≠ none
  saves : saveAll s'.live s'.children ≠ none
  deletes : deleteAll s'.children s'.live ≠ none

structure Replaced (s s' : ParentEntry) (name : Text) (expected : Text → Prop) : Prop where
  stored : ∃ data, expected data ∧ s'.getValueChild name = some (some data)
  others : ∀ other, other ≠ name → find s'.children other = find s.children other
  sound : Sound s'

/-- All or nothing. `expected` says which text the name may map to afterwards. -/
def Atomic {ε β : Type*} (s : ParentEntry) (name : Text) (expected : Text → Prop)
    (outcome : Option (ParentEntry × Except ε β)) : Prop :=
  ∃ s' result, outcome = some (s', result) ∧
    (∀ e, result = .error e → Unharmed s s') ∧
    ∀ v, result = .ok v → Replaced s s' name expected

theorem atomic_map {ε β γ : Type*} (f : β → γ) {s : ParentEntry} {name : Text}
    {expected : Text → Prop} {outcome : Option (ParentEntry × Except ε β)} :
    Atomic s name expected (outcome.map fun r => (r.1, r.2.map f)) ↔
      Atomic s name expected outcome := by
  constructor
  · rintro ⟨s', result, hrun, herror, hok⟩
    obtain ⟨⟨s'', result'⟩, rfl, heq⟩ := Option.map_eq_some_iff.mp hrun
    obtain ⟨rfl, rfl⟩ := Prod.mk.inj heq
    refine ⟨s'', result', rfl, fun e he => herror e ?_, fun v hv => hok (f v) ?_⟩
    · rw [he]
      rfl
    · rw [hv]
      rfl
  · rintro ⟨s', result, rfl, herror, hok⟩
    refine ⟨s', result.map f, rfl, fun e he => ?_, fun v hv => ?_⟩
    · cases result with
      | error e' => exact herror e' rfl
      | ok v => cases he
    · cases result with
      | error e => cases hv
      | ok v' => exact hok v' rfl

theorem Sound.unharmed {s : ParentEntry} (hs : Sound s) : Unharmed s s where
  same := rfl
  alive := by
    intro key p hp
    obtain ⟨a, ha⟩ := root_some (wholeAll_iff.mp hs.whole _ hp)
    refine ⟨a, ha, hs.alive a ?_⟩
    rw [addressesAll_eq]
    exact List.mem_flatMap.mpr ⟨_, hp, root_mem ha⟩
  reads := hs.getValueChild
  saves := by
    obtain ⟨ns, hns⟩ := saveAll_alive s.children s.live hs.whole hs.alive
    rw [hns]
    exact Option.some_ne_none ns
  deletes := by
    rw [deleteAll_alive s.children s.live hs.distinct hs.alive]
    exact Option.some_ne_none _

theorem exchange_addresses {before old after : List Address} {live : Finset Address} {at_ : Address}
    (hdistinct : (before ++ (old ++ after)).Nodup)
    (halive : ∀ a ∈ before ++ (old ++ after), a ∈ live) (hat : at_ ∉ live \ old.toFinset) :
    (before ++ ([at_] ++ after)).Nodup ∧
      ∀ a ∈ before ++ ([at_] ++ after), a ∈ insert at_ (live \ old.toFinset) := by
  obtain ⟨hbefore, hrest, hapart⟩ := List.nodup_append.mp hdistinct
  obtain ⟨_, hafter, hapart'⟩ := List.nodup_append.mp hrest
  have hkept : ∀ a, a ∈ before ∨ a ∈ after → a ∈ live \ old.toFinset := by
    intro a ha
    rw [Finset.mem_sdiff, List.mem_toFinset]
    rcases ha with ha | ha
    · exact ⟨halive a (by simp [ha]), fun ho => hapart a ha a (by simp [ho]) rfl⟩
    · exact ⟨halive a (by simp [ha]), fun ho => hapart' a ho a ha rfl⟩
  constructor
  · refine List.nodup_append.mpr ⟨hbefore, List.nodup_cons.mpr ⟨?_, hafter⟩, ?_⟩
    · exact fun ha => hat (hkept at_ (Or.inr ha))
    · rintro a ha b hb rfl
      rcases List.mem_cons.mp hb with rfl | hb
      · exact hat (hkept a (Or.inl ha))
      · exact hapart a ha a (List.mem_append_right _ hb) rfl
  · intro a ha
    rw [Finset.mem_insert]
    rcases List.mem_append.mp ha with ha | ha
    · exact Or.inr (hkept a (Or.inl ha))
    · rcases List.mem_cons.mp ha with rfl | ha
      · exact Or.inl rfl
      · exact Or.inr (hkept a (Or.inr ha))

theorem Sound.replaced {s : ParentEntry} (hs : Sound s) (name data : Text) {at_ : Address}
    (hat : at_ ∉ s.live \ (s.getChild name).addresses.toFinset) {expected : Text → Prop}
    (hdata : expected data) :
    Replaced s ⟨store s.children name (.value at_ name data),
      insert at_ (s.live \ (s.getChild name).addresses.toFinset)⟩ name expected := by
  have hfind (other : Text) := KeyedLists.find_store s.children name other (.value at_ name data)
  obtain ⟨before, after, hm, hstore⟩ := addressesAll_store s.children name
  have hdistinct := hs.distinct
  have halive := hs.alive
  rw [hm] at hdistinct halive
  obtain ⟨hdistinct', halive'⟩ := exchange_addresses hdistinct halive hat
  rw [← Pointer.addresses.eq_2 at_ name data, ← hstore] at hdistinct' halive'
  refine ⟨⟨data, hdata, ?_⟩, fun other ho => ?_, ⟨?_, hdistinct', halive'⟩⟩
  · simp [ParentEntry.getValueChild, ParentEntry.getChild, hfind]
  · rw [hfind, if_neg ho.symm]
  · apply wholeAll_iff.mpr
    intro q hq
    rcases KeyedLists.mem_store hq with rfl | hq
    · trivial
    · exact wholeAll_iff.mp hs.whole q hq

section Results

variable {α ε : Type*} (alloc : Allocator) (rightFirst : Bool) (toString : α → Except ε Text)
  (fromString : Text → Except ε α) (t : Tree) (name : Text) (value : α)

theorem setValue_ok {data : Text} (h : toString value = .ok data) :
    ∃ at_, at_ ∉ t.live \ (t.getChild name).addresses.toFinset ∧
      t.setValue alloc rightFirst toString name value =
        some (⟨store t.children name (.value at_ name data),
          insert at_ (t.live \ (t.getChild name).addresses.toFinset)⟩, .ok ()) := by
  rw [ParentEntry.setValue, t.sound.delete_child, Option.map_some, h]
  exact ⟨_, alloc.fresh _, rfl⟩

theorem setValue_error {e : ε} (h : toString value = .error e) :
    t.setValue alloc rightFirst toString name value =
      some (⟨if rightFirst then t.children else slot t.children name,
        t.live \ (t.getChild name).addresses.toFinset⟩, .error e) := by
  rw [ParentEntry.setValue, t.sound.delete_child, Option.map_some, h]

/-- After the exception nothing can be done with what was stored under the name. -/
theorem setValue_error_dangles {p : Pointer} {e : ε} (hp : find t.children name = some p)
    (h : toString value = .error e) :
    ∃ s', t.setValue alloc rightFirst toString name value = some (s', .error e) ∧
      s'.getValueChild name = none ∧ saveAll s'.live s'.children = none ∧
      deleteAll s'.children s'.live = none := by
  have hslot : slot t.children name = t.children := by rw [slot, hp]
  obtain ⟨a, ha⟩ := root_some (t.sound.child hp).1
  have hdead : a ∉ t.live \ (t.getChild name).addresses.toFinset := by
    rw [ParentEntry.getChild, hp, Option.getD_some, Finset.mem_sdiff, not_and_not_right]
    exact fun _ => List.mem_toFinset.mpr (root_mem ha)
  rw [setValue_error alloc rightFirst toString t name value h, hslot, ite_self]
  have hmem := KeyedLists.find_mem hp
  exact ⟨_, rfl, getValueChild_dead hp ha hdead, saveAll_dead hmem ha hdead,
    deleteAll_dead hmem ha hdead⟩

theorem setValue_atomic_iff :
    Atomic t.toParentEntry name (toString value = .ok ·)
        (t.setValue alloc rightFirst toString name value) ↔
      (∃ data, toString value = .ok data) ∨ (find t.children name = none ∧ rightFirst = true) := by
  cases h : toString value with
  | ok data =>
    obtain ⟨at_, hat, hrun⟩ := setValue_ok alloc rightFirst toString t name value h
    refine iff_of_true ⟨_, .ok (), hrun, ?_, ?_⟩ (Or.inl ⟨data, rfl⟩)
    · intro e he
      cases he
    · exact fun _ _ => t.sound.replaced name data hat rfl
  | error e =>
    have hnot : ¬ ∃ data : Text, Except.error e = Except.ok data := by simp
    rw [or_iff_right hnot]
    constructor
    · rintro ⟨s', result, hrun, herror, _⟩
      cases hp : find t.children name with
      | none =>
        refine ⟨rfl, ?_⟩
        by_contra hleft
        rw [setValue_error alloc rightFirst toString t name value h, if_neg hleft] at hrun
        obtain ⟨rfl, rfl⟩ := Prod.mk.inj (Option.some.inj hrun)
        have hsame := congrArg (find · name) (congrArg ParentEntry.children (herror e rfl).same)
        simp [slot, hp, KeyedLists.find_store] at hsame
      | some p =>
        obtain ⟨s'', hrun', hreads, _⟩ :=
          setValue_error_dangles alloc rightFirst toString t name value hp h
        rw [hrun'] at hrun
        obtain ⟨rfl, rfl⟩ := Prod.mk.inj (Option.some.inj hrun)
        exact absurd hreads ((herror e rfl).reads name)
    · rintro ⟨hp, hright⟩
      refine ⟨t.toParentEntry, .error e, ?_, fun _ _ => t.sound.unharmed, fun v hv => by cases hv⟩
      have hnothing : t.live \ (t.getChild name).addresses.toFinset = t.live := by
        rw [ParentEntry.getChild, hp]
        simp [Pointer.addresses]
      rw [setValue_error alloc rightFirst toString t name value h, if_pos hright, hnothing]

def Supplied (data : Text) : Prop :=
  t.getValueChild name = some (some data) ∨
    (t.getValueChild name = some none ∧ toString value = .ok data)

theorem supplyValue_atomic_iff :
    Atomic t.toParentEntry name (Supplied toString t name value)
        (t.supplyValue alloc rightFirst toString fromString name value) ↔
      (∃ data, t.getValueChild name = some (some data)) ∨ (∃ data, toString value = .ok data) ∨
        (find t.children name = none ∧ rightFirst = true) := by
  have hset := setValue_atomic_iff alloc rightFirst toString t name value
  unfold ParentEntry.supplyValue
  cases h : t.getValueChild name with
  | none => exact absurd h (t.sound.getValueChild name)
  | some held =>
    cases held with
    | some data =>
      refine iff_of_true ⟨t.toParentEntry, fromString data, rfl, ?_, ?_⟩ (Or.inl ⟨data, rfl⟩)
      · exact fun _ _ => t.sound.unharmed
      · exact fun _ _ => ⟨⟨data, Or.inl h, h⟩, fun _ _ => rfl, t.sound⟩
    | none =>
      have hnot : ¬ ∃ data : Text, some (none : Option Text) = some (some data) := by simp
      have hexpected : Supplied toString t name value = (toString value = .ok ·) := by
        funext data
        simp [Supplied, h]
      rw [or_iff_right hnot, ← hset, hexpected]
      exact atomic_map fun _ => value

/-- Either the call constructs nothing or no exception comes out of the construction; else the
tree survives only where there was nothing to delete and no room has been made yet. -/
theorem calls_atomic_iff :
    (Atomic t.toParentEntry name (toString value = .ok ·)
        (t.setValue alloc rightFirst toString name value) ↔
      (∃ data, toString value = .ok data) ∨ (find t.children name = none ∧ rightFirst = true)) ∧
    (Atomic t.toParentEntry name (Supplied toString t name value)
        (t.supplyValue alloc rightFirst toString fromString name value) ↔
      (∃ data, t.getValueChild name = some (some data)) ∨ (∃ data, toString value = .ok data) ∨
        (find t.children name = none ∧ rightFirst = true)) :=
  ⟨setValue_atomic_iff alloc rightFirst toString t name value,
    supplyValue_atomic_iff alloc rightFirst toString fromString t name value⟩

end Results

def secret : Tree where
  children := [("password".toList, .value 1 "password".toList "secret".toList)]
  live := {1}
  sound := ⟨by simp [WholeAll, Pointer.Whole], by decide, by decide⟩

def nextAddress : Allocator where
  alloc live := live.sup id + 1
  fresh live h := by
    have hle : live.sup id + 1 ≤ live.sup id := Finset.le_sup (f := id) h
    exact Nat.not_succ_le_self _ hle

def refuse (_ : Text) : Except Unit Text := .error ()

/-- A context that cannot write the new password takes the old one with it. -/
theorem password_dangles :
    ¬ Atomic secret.toParentEntry "password".toList (refuse "new".toList = .ok ·)
        (secret.setValue nextAddress true refuse "password".toList "new".toList) ∧
      ∃ s', secret.setValue nextAddress true refuse "password".toList "new".toList =
          some (s', .error ()) ∧
        s'.getValueChild "password".toList = none ∧ saveAll s'.live s'.children = none ∧
        deleteAll s'.children s'.live = none := by
  obtain ⟨s', hrun, hreads, hlater⟩ :=
    setValue_error_dangles nextAddress true refuse secret "password".toList "new".toList rfl rfl
  refine ⟨?_, s', hrun, hreads, hlater⟩
  rintro ⟨s'', result, hrun', herror, _⟩
  rw [hrun] at hrun'
  obtain ⟨rfl, rfl⟩ := Prod.mk.inj (Option.some.inj hrun')
  exact (herror () rfl).reads _ hreads

mutual

def Pointer.contents : Pointer → Option Entry
  | .null => none
  | .value _ name data => some (.value name data)
  | .parent _ name children => some (.parent name (contentsAll children))

def contentsAll : PointerMap → EntryMap
  | [] => []
  | (key, p) :: m =>
    match p.contents with
    | none => contentsAll m
    | some entry => (key, entry) :: contentsAll m

end

section Contents

variable {m : PointerMap} {name : Text} {p : Pointer}

theorem contents_some (h : p.Whole) : ∃ entry, p.contents = some entry := by
  cases p with
  | null => exact h.elim
  | value at_ name data => exact ⟨_, by rw [Pointer.contents]⟩
  | parent at_ name children => exact ⟨_, by rw [Pointer.contents]⟩

theorem contentsAll_store (hm : WholeAll m) {entry : Entry} (hp : p.contents = some entry) :
    contentsAll (store m name p) = store (contentsAll m) name entry := by
  induction m with
  | nil => simp [store, contentsAll, hp]
  | cons q m ih =>
    obtain ⟨key, q⟩ := q
    obtain ⟨hq, hm⟩ := hm
    obtain ⟨old, hold⟩ := contents_some hq
    by_cases hkey : key = name
    · simp [store, contentsAll, hp, hold, hkey]
    · simp [store, contentsAll, hold, hkey, ih hm]

theorem find_contentsAll (hm : WholeAll m) :
    find (contentsAll m) name = (find m name).bind Pointer.contents := by
  induction m with
  | nil => rfl
  | cons q m ih =>
    obtain ⟨key, q⟩ := q
    obtain ⟨hq, hm⟩ := hm
    obtain ⟨old, hold⟩ := contents_some hq
    by_cases hkey : key = name
    · simp [contentsAll, find, hold, hkey]
    · simp [contentsAll, find, hold, hkey, ih hm]

end Contents

theorem getValueChild_contents (t : Tree) (name : Text) :
    t.getValueChild name = some (ConfigEntries.getValueChild (contentsAll t.children) name) := by
  rw [ParentEntry.getValueChild, ParentEntry.getChild, ConfigEntries.getValueChild,
    find_contentsAll t.sound.whole]
  cases hp : find t.children name with
  | none => rfl
  | some p =>
    obtain ⟨hwhole, halive⟩ := t.sound.child hp
    cases p with
    | null => exact hwhole.elim
    | value at_ own data =>
      have hat : at_ ∈ t.live := halive at_ (root_mem rfl)
      simp [hat, Pointer.contents]
    | parent at_ own children =>
      have hat : at_ ∈ t.live := halive at_ (root_mem rfl)
      simp [hat, Pointer.contents]

theorem calls_contents {α ε : Type*} (alloc : Allocator) (rightFirst : Bool)
    (toString : α → Except ε Text) (fromString : Text → Except ε α) (t : Tree) (name : Text)
    (value : α) {data : Text} (h : toString value = .ok data) :
    (∃ s', t.setValue alloc rightFirst toString name value = some (s', .ok ()) ∧
      contentsAll s'.children = ConfigEntries.setValue (contentsAll t.children) name data) ∧
    ∃ s' result, t.supplyValue alloc rightFirst toString fromString name value =
        some (s', result) ∧
      contentsAll s'.children = ConfigEntries.supplyValue (contentsAll t.children) name data := by
  have hset : ∃ s', t.setValue alloc rightFirst toString name value = some (s', .ok ()) ∧
      contentsAll s'.children = ConfigEntries.setValue (contentsAll t.children) name data := by
    obtain ⟨at_, _, hrun⟩ := setValue_ok alloc rightFirst toString t name value h
    exact ⟨_, hrun, contentsAll_store t.sound.whole (by rw [Pointer.contents])⟩
  refine ⟨hset, ?_⟩
  rw [ParentEntry.supplyValue, getValueChild_contents, ConfigEntries.supplyValue]
  cases ConfigEntries.getValueChild (contentsAll t.children) name with
  | none =>
    obtain ⟨s', hrun, hcontents⟩ := hset
    exact ⟨s', _, by rw [hrun]; rfl, hcontents⟩
  | some held => exact ⟨t.toParentEntry, fromString held, rfl, rfl⟩

end EntryLifetimes
