import Sobby.ConfigPaths
import Sobby.EntryLifetimes
import Sobby.Ownership

/-! The objects of a configuration from its constructor to its destructor. Arguments are references
and may be names that entries hold, so a call may delete the entry that holds its own argument. An
operation without a result is one whose behaviour is undefined, and nothing is known of the objects
after it; one that is refused finds no parent at its path. -/
namespace EntryOwnership

open Strings (Text)
open ConfigTree (Node getChildText isWhiteSpace)
open ConfigEntries (Entry EntryMap)
open KeyedLists (store find keys)
open EntryLifetimes
open Ownership
open StepMachine

/-- A string of the caller's, or the name that the entry at an address holds. -/
structure Argument where
  text : Text
  holder : Option Address

def Argument.alive (x : Argument) (live : Finset Address) : Bool := x.holder.all (· ∈ live)

def Argument.read (x : Argument) (live : Finset Address) : Option Text :=
  if x.alive live then some x.text else none

inductive Call where
  | index (name : Argument)
  | setParent (name : Argument)
  | setValue (name data : Argument)
  | supplyValue (name default : Argument)

def Call.op : Call → ConfigEntries.Op
  | .index name => .index name.text
  | .setParent name => .setParent name.text
  | .setValue name data => .setValue name.text data.text
  | .supplyValue name default => .supplyValue name.text default.text

/-- `get_parent_child`. The cast of a deleted entry is undefined. -/
def getParentChild (s : ParentEntry) (name : Text) :
    Option (Option (Address × Text × PointerMap)) :=
  match s.getChild name with
  | .null => some none
  | .value at_ _ _ => if at_ ∈ s.live then some none else none
  | .parent at_ own children => if at_ ∈ s.live then some (some (at_, own, children)) else none

section Calls

variable (alloc : Allocator) (rightFirst : Bool)

/-- `set_parent` and `set_value` read the name again when the entry that had it is deleted. -/
def replace (s : ParentEntry) (name : Argument)
    (put : Finset Address → Text → Option ParentEntry) : Option ParentEntry :=
  (name.read s.live).bind fun key =>
  ((s.getChild key).delete s.live).bind fun live =>
  (name.read live).bind fun key => put live key

def setParent (s : ParentEntry) (name : Argument) : Option ParentEntry :=
  replace s name fun live key =>
    some ⟨store s.children key (.parent (alloc.alloc live) key []), insert (alloc.alloc live) live⟩

/-- `operator[]` -/
def index (s : ParentEntry) (name : Argument) : Option ParentEntry :=
  (name.read s.live).bind fun key =>
  match getParentChild s key with
  | none => none
  | some (some _) => some s
  | some none => setParent alloc s name

def serialised (data : Text) : Except Empty Text := .ok data

def setValue (s : ParentEntry) (name data : Argument) : Option ParentEntry :=
  replace s name fun live key =>
    (data.read live).bind fun data =>
    (s.setValue alloc rightFirst serialised key data).map Prod.fst

def supplyValue (s : ParentEntry) (name default : Argument) : Option ParentEntry :=
  (name.read s.live).bind fun key =>
  match s.getValueChild key with
  | none => none
  | some (some _) => some s
  | some none => setValue alloc rightFirst s name default

def applyCall (s : ParentEntry) : Call → Option ParentEntry
  | .index name => index alloc s name
  | .setParent name => setParent alloc s name
  | .setValue name data => setValue alloc rightFirst s name data
  | .supplyValue name default => supplyValue alloc rightFirst s name default

def applyAt (call : Call) : List Text → ParentEntry → Option (Option ParentEntry)
  | [], s => some (applyCall alloc rightFirst s call)
  | key :: path, s =>
    match getParentChild s key with
    | none => some none
    | some none => none
    | some (some (at_, own, children)) =>
      (applyAt call path ⟨children, s.live⟩).map fun r => r.map fun s' =>
        ⟨store s.children key (.parent at_ own s'.children), s'.live⟩

mutual

/-- The constructor of a parent from the children of its element. What a name pointed to before
is not deleted. -/
def loadChildren : List Node → ParentEntry → ParentEntry
  | [], s => s
  | n :: ns, s =>
    match loadChild n s.live with
    | none => loadChildren ns s
    | some (key, p, live) => loadChildren ns ⟨store s.children key p, live⟩

def loadChild : Node → Finset Address → Option (Text × Pointer × Finset Address)
  | .element name children, live =>
    let at_ := alloc.alloc live
    let s := loadChildren children ⟨[], insert at_ live⟩
    match getChildText children with
    | none => some (name, .parent at_ name s.children, s.live)
    | some content =>
      if isWhiteSpace content then some (name, .parent at_ name s.children, s.live)
      else some (name, .value at_ name content, insert at_ live)
  | _, _ => none

end

def valueAt (name : Text) : List Text → ParentEntry → Option (Option Text)
  | [], s => s.getValueChild name
  | key :: path, s =>
    match getParentChild s key with
    | none => none
    | some none => some none
    | some (some (_, _, children)) => valueAt name path ⟨children, s.live⟩

structure Config extends ParentEntry where
  root : Address
  rootName : Text

/-- `Config::Config()` -/
def Config.create (live : Finset Address) : Config where
  children := []
  live := insert (alloc.alloc live) live
  root := alloc.alloc live
  rootName := "sobby_config".toList

/-- `Config::Config` of a parsed document, which may lack a root node. -/
def Config.load (live : Finset Address) : Option Node → Config
  | some (.element name children) =>
    { loadChildren alloc children ⟨[], insert (alloc.alloc live) live⟩ with
      root := alloc.alloc live
      rootName := name }
  | _ => Config.create alloc live

/-- `~Config`, by way of `m_root`. -/
def Config.destroy (c : Config) : Option (Finset Address) :=
  (Pointer.parent c.root c.rootName c.children).delete c.live

def Config.save (c : Config) : Option Node :=
  if c.root ∈ c.live then (saveAll c.live c.children).map (.element "sobby_config".toList)
  else none

def Config.contents (c : Config) : ConfigEntries.Config := ⟨c.rootName, contentsAll c.children⟩

/-- The objects under the operations. Nothing is left of them once one was undefined. -/
def Config.step : Option Config → List Text × Call → Option (Option Config)
  | none, _ => some none
  | some c, e =>
    (applyAt alloc rightFirst e.2 e.1 c.toParentEntry).map fun r => r.map fun s =>
      { c with toParentEntry := s }

end Calls

def touched (s : ParentEntry) : Call → List Address × List Argument
  | .index name =>
    match getParentChild s name.text with
    | some (some _) => ([], [name])
    | _ => ((s.getChild name.text).addresses, [name])
  | .setParent name => ((s.getChild name.text).addresses, [name])
  | .setValue name data => ((s.getChild name.text).addresses, [name, data])
  | .supplyValue name default =>
    match s.getValueChild name.text with
    | some (some _) => ([], [name])
    | _ => ((s.getChild name.text).addresses, [name, default])

/-- No argument is held by an entry that the call deletes, or by one that is gone. -/
def Survive (s : ParentEntry) (call : Call) : Prop :=
  ∀ x ∈ (touched s call).2, x.alive (others (touched s call).1 s.live) = true

def SurviveAt (call : Call) : List Text → ParentEntry → Prop
  | [], s => Survive s call
  | key :: path, s =>
    match getParentChild s key with
    | some (some (_, _, children)) => SurviveAt call path ⟨children, s.live⟩
    | _ => True

def ArgumentsSurvive : Option Config → List Text × Call → Prop
  | none, _ => True
  | some c, e => SurviveAt e.2 e.1 c.toParentEntry

theorem read_alive {x : Argument} {live : Finset Address} (h : x.alive live = true) :
    x.read live = some x.text := if_pos h

theorem read_gone {x : Argument} {live : Finset Address} (h : ¬ x.alive live = true) :
    x.read live = none := if_neg h

theorem alive_others {x : Argument} {held : List Address} {live : Finset Address}
    (h : x.alive (others held live) = true) : x.alive live = true := by
  rw [Argument.alive, Option.all_eq_true] at h ⊢
  intro a ha
  have hin := of_decide_eq_true (h a ha)
  exact decide_eq_true (mem_others.mp hin).1

theorem owned_of_sound {s : ParentEntry} (hs : Sound s) : Owned (addressesAll s.children) s.live :=
  ⟨hs.distinct, hs.alive⟩

theorem sound_of_owned {s : ParentEntry} (hw : WholeAll s.children)
    (h : Owned (addressesAll s.children) s.live) : Sound s := ⟨hw, h.distinct, h.alive⟩

/-- The objects have changed to ones that stand for `m`, and no others have. -/
structure Becomes (s s' : ParentEntry) (m : EntryMap) : Prop where
  whole : WholeAll s'.children
  exchange : Exchange (addressesAll s.children) (addressesAll s'.children) s.live s'.live
  contents : contentsAll s'.children = m

section Operations

variable (alloc : Allocator) (rightFirst : Bool) {s : ParentEntry} {p : Pointer} {name : Text}
  {entry : Entry} {call : Call}

theorem becomes_self (hs : Sound s) : Becomes s s (contentsAll s.children) :=
  ⟨hs.whole, Exchange.refl (owned_of_sound hs), rfl⟩

theorem becomes_store (hs : Sound s) {live : Finset Address}
    (hp : Exchange (s.getChild name).addresses p.addresses s.live live) (hw : p.Whole)
    (hc : p.contents = some entry) :
    Becomes s ⟨store s.children name p, live⟩ (store (contentsAll s.children) name entry) := by
  obtain ⟨before, after, hm, hstore⟩ := addressesAll_store s.children name
  have howned := owned_of_sound hs
  rw [hm] at howned
  refine ⟨?_, ?_, contentsAll_store hs.whole hc⟩
  · apply wholeAll_iff.mpr
    intro q hq
    rcases KeyedLists.mem_store hq with rfl | hq
    · exact hw
    · exact wholeAll_iff.mp hs.whole q hq
  · rw [hm, hstore]
    exact Exchange.within howned hp

theorem delete_child (hs : Sound s) (name : Text) :
    (s.getChild name).delete s.live = some (others (s.getChild name).addresses s.live) :=
  hs.delete_child name

theorem replace_alive (hs : Sound s) {x : Argument}
    (h : x.alive (others (s.getChild x.text).addresses s.live) = true)
    (put : Finset Address → Text → Option ParentEntry) :
    replace s x put = put (others (s.getChild x.text).addresses s.live) x.text := by
  rw [replace, read_alive (alive_others h), Option.bind_some, delete_child hs, Option.bind_some,
    read_alive h, Option.bind_some]

/-- The name is read once too often if it goes with what it names. -/
theorem replace_gone (hs : Sound s) {x : Argument}
    (h : ¬ x.alive (others (s.getChild x.text).addresses s.live) = true)
    (put : Finset Address → Text → Option ParentEntry) : replace s x put = none := by
  by_cases hbefore : x.alive s.live = true
  · rw [replace, read_alive hbefore, Option.bind_some, delete_child hs, Option.bind_some,
      read_gone h, Option.bind_none]
  · rw [replace, read_gone hbefore, Option.bind_none]

theorem setParent_becomes (hs : Sound s) {x : Argument}
    (h : x.alive (others (s.getChild x.text).addresses s.live) = true) :
    ∃ s', setParent alloc s x = some s' ∧
      Becomes s s' (ConfigEntries.setParent (contentsAll s.children) x.text) := by
  rw [setParent, replace_alive hs h]
  refine ⟨_, rfl, becomes_store hs ?_ trivial (by simp [Pointer.contents, contentsAll])⟩
  exact Exchange.fresh (alloc.fresh _)

theorem setValue_becomes (hs : Sound s) {x y : Argument}
    (hx : x.alive (others (s.getChild x.text).addresses s.live) = true)
    (hy : y.alive (others (s.getChild x.text).addresses s.live) = true) :
    ∃ s', setValue alloc rightFirst s x y = some s' ∧
      Becomes s s' (ConfigEntries.setValue (contentsAll s.children) x.text y.text) := by
  rw [setValue, replace_alive hs hx, read_alive hy, Option.bind_some, ParentEntry.setValue,
    delete_child hs, Option.map_some, Option.map_some]
  refine ⟨_, rfl, becomes_store hs ?_ trivial (by rw [Pointer.contents])⟩
  exact Exchange.fresh (alloc.fresh _)

theorem getParentChild_sound (hs : Sound s) (name : Text) :
    (getParentChild s name = some none ∧
      ConfigEntries.getParentChild (contentsAll s.children) name = none) ∨
    ∃ at_ own children, getParentChild s name = some (some (at_, own, children)) ∧
      find s.children name = some (.parent at_ own children) ∧
      find (contentsAll s.children) name = some (.parent own (contentsAll children)) := by
  rw [getParentChild, ParentEntry.getChild, ConfigEntries.getParentChild,
    find_contentsAll hs.whole]
  cases hp : find s.children name with
  | none => exact Or.inl ⟨rfl, rfl⟩
  | some p =>
    obtain ⟨hwhole, halive⟩ := hs.child hp
    cases p with
    | null => exact hwhole.elim
    | value at_ own data =>
      have hat : at_ ∈ s.live := halive at_ (root_mem rfl)
      exact Or.inl (by simp [hat, Pointer.contents])
    | parent at_ own children =>
      have hat : at_ ∈ s.live := halive at_ (root_mem rfl)
      exact Or.inr ⟨at_, own, children, by simp [hat, Pointer.contents]⟩

theorem index_becomes (hs : Sound s) {x : Argument} (h : Survive s (.index x)) :
    ∃ s', index alloc s x = some s' ∧
      Becomes s s' (ConfigEntries.index (contentsAll s.children) x.text) := by
  rcases getParentChild_sound hs x.text with ⟨hnone, hcontents⟩ | ⟨at_, own, children, hthere, hp, hc⟩
  · simp only [Survive, touched, hnone, List.forall_mem_singleton] at h
    rw [index, read_alive (alive_others h), Option.bind_some, hnone, ConfigEntries.index, hcontents]
    exact setParent_becomes alloc hs h
  · have hparent : ConfigEntries.getParentChild (contentsAll s.children) x.text =
        some (contentsAll children) := by rw [ConfigEntries.getParentChild, hc]
    simp only [Survive, touched, hthere, List.forall_mem_singleton] at h
    rw [index, read_alive (alive_others h), Option.bind_some, hthere, ConfigEntries.index, hparent]
    exact ⟨s, rfl, becomes_self hs⟩

theorem supplyValue_becomes (hs : Sound s) {x y : Argument} (h : Survive s (.supplyValue x y)) :
    ∃ s', supplyValue alloc rightFirst s x y = some s' ∧
      Becomes s s' (ConfigEntries.supplyValue (contentsAll s.children) x.text y.text) := by
  have hvalue := getValueChild_contents ⟨s, hs⟩ x.text
  simp only at hvalue
  cases hcontents : ConfigEntries.getValueChild (contentsAll s.children) x.text with
  | none =>
    rw [hcontents] at hvalue
    simp only [Survive, touched, hvalue, List.forall_mem_cons] at h
    rw [supplyValue, read_alive (alive_others h.1), Option.bind_some, hvalue,
      ConfigEntries.supplyValue, hcontents]
    exact setValue_becomes alloc rightFirst hs h.1 h.2.1
  | some data =>
    rw [hcontents] at hvalue
    simp only [Survive, touched, hvalue, List.forall_mem_singleton] at h
    rw [supplyValue, read_alive (alive_others h), Option.bind_some, hvalue,
      ConfigEntries.supplyValue, hcontents]
    exact ⟨s, rfl, becomes_self hs⟩

theorem applyCall_becomes (hs : Sound s) (h : Survive s call) :
    ∃ s', applyCall alloc rightFirst s call = some s' ∧
      Becomes s s' (ConfigEntries.applyOp (contentsAll s.children) call.op) := by
  cases call with
  | index x => exact index_becomes alloc hs h
  | setParent x => exact setParent_becomes alloc hs (h x (by simp [touched]))
  | setValue x y =>
    exact setValue_becomes alloc rightFirst hs (h x (by simp [touched])) (h y (by simp [touched]))
  | supplyValue x y => exact supplyValue_becomes alloc rightFirst hs h

theorem setParent_gone (hs : Sound s) {x : Argument}
    (h : ¬ x.alive (others (s.getChild x.text).addresses s.live) = true) :
    setParent alloc s x = none := replace_gone hs h _

theorem setValue_gone (hs : Sound s) {x y : Argument}
    (h : ¬ ∀ z ∈ [x, y], z.alive (others (s.getChild x.text).addresses s.live) = true) :
    setValue alloc rightFirst s x y = none := by
  by_cases hx : x.alive (others (s.getChild x.text).addresses s.live) = true
  · have hy : ¬ y.alive (others (s.getChild x.text).addresses s.live) = true := by
      intro hy
      exact h (by simp [hx, hy])
    rw [setValue, replace_alive hs hx, read_gone hy, Option.bind_none]
  · exact replace_gone hs hx _

theorem applyCall_gone (hs : Sound s) (h : ¬ Survive s call) :
    applyCall alloc rightFirst s call = none := by
  cases call with
  | setParent x => exact setParent_gone alloc hs (by simpa [Survive, touched] using h)
  | setValue x y => exact setValue_gone alloc rightFirst hs h
  | index x =>
    rw [applyCall, index]
    by_cases hbefore : x.alive s.live = true
    · rw [read_alive hbefore, Option.bind_some]
      rcases getParentChild_sound hs x.text with ⟨hnone, _⟩ | ⟨at_, own, children, hthere, _, _⟩
      · simp only [Survive, touched, hnone, List.forall_mem_singleton] at h
        rw [hnone]
        exact setParent_gone alloc hs h
      · simp only [Survive, touched, hthere, List.forall_mem_singleton, others_nil] at h
        exact absurd hbefore h
    · rw [read_gone hbefore, Option.bind_none]
  | supplyValue x y =>
    rw [applyCall, supplyValue]
    by_cases hbefore : x.alive s.live = true
    · rw [read_alive hbefore, Option.bind_some]
      rcases hvalue : s.getValueChild x.text with _ | _ | data
      · rfl
      · simp only [Survive, touched, hvalue] at h
        exact setValue_gone alloc rightFirst hs h
      · simp only [Survive, touched, hvalue, List.forall_mem_singleton, others_nil] at h
        exact absurd hbefore h
    · rw [read_gone hbefore, Option.bind_none]

theorem child_owned (hs : Sound s) {at_ : Address} {own : Text} {children : PointerMap}
    (hp : find s.children name = some (.parent at_ own children)) :
    Owned (at_ :: addressesAll children) s.live ∧ WholeAll children := by
  obtain ⟨before, after, hm, _⟩ := addressesAll_store s.children name
  have howned := owned_of_sound hs
  rw [hm, hp] at howned
  have hpart := howned.part
  rw [Option.getD_some, Pointer.addresses] at hpart
  exact ⟨hpart, (hs.child hp).1⟩

theorem below_sound {at_ : Address} {own : Text} {children : PointerMap} (hs : Sound s)
    (hp : find s.children name = some (.parent at_ own children)) : Sound ⟨children, s.live⟩ := by
  obtain ⟨howned, hwhole⟩ := child_owned hs hp
  exact sound_of_owned hwhole
    ⟨(List.nodup_cons.mp howned.distinct).2, fun a ha => howned.alive a (by simp [ha])⟩

/-- At every path the objects follow their contents. -/
theorem applyAt_becomes (path : List Text) (hs : Sound s) (hcall : SurviveAt call path s) :
    (applyAt alloc rightFirst call path s = none ∧
      ConfigEntries.applyAt call.op path (contentsAll s.children) = none) ∨
    ∃ s' m, applyAt alloc rightFirst call path s = some (some s') ∧
      ConfigEntries.applyAt call.op path (contentsAll s.children) = some m ∧ Becomes s s' m := by
  induction path generalizing s with
  | nil =>
    obtain ⟨s', hrun, hbecomes⟩ := applyCall_becomes alloc rightFirst hs hcall
    exact Or.inr ⟨s', _, by rw [applyAt, hrun], rfl, hbecomes⟩
  | cons key path ih =>
    rcases getParentChild_sound hs key with ⟨hnone, hcontents⟩ | ⟨at_, own, children, h, hp, hc⟩
    · refine Or.inl ⟨by rw [applyAt, hnone], ?_⟩
      rw [ConfigEntries.applyAt]
      split
      · next hfind =>
        rw [ConfigEntries.getParentChild, hfind] at hcontents
        cases hcontents
      · rfl
    · have hbelow : SurviveAt call path ⟨children, s.live⟩ := by simpa only [SurviveAt, h] using hcall
      rcases ih (below_sound hs hp) hbelow with
        ⟨hnone, hcontents⟩ | ⟨s', m, hrun, hcontents, hbecomes⟩
      · refine Or.inl ⟨by simp only [applyAt, h, hnone, Option.map_none], ?_⟩
        simp only [ConfigEntries.applyAt, hc, hcontents, Option.map_none]
      · have hchild : (s.getChild key).addresses = at_ :: addressesAll children := by
          rw [ParentEntry.getChild, hp, Option.getD_some, Pointer.addresses]
        have hcontents' : (Pointer.parent at_ own s'.children).contents = some (.parent own m) := by
          rw [Pointer.contents, hbecomes.contents]
        have hwhole' : (Pointer.parent at_ own s'.children).Whole := hbecomes.whole
        refine Or.inr ⟨⟨store s.children key (.parent at_ own s'.children), s'.live⟩, _, ?_, ?_,
          becomes_store hs ?_ hwhole' hcontents'⟩
        · simp only [applyAt, h, hrun, Option.map_some]
        · simp only [ConfigEntries.applyAt, hc, hcontents, Option.map_some]
        · rw [hchild, Pointer.addresses]
          exact Exchange.cons (child_owned hs hp).1 hbecomes.exchange

theorem applyAt_gone (path : List Text) (hs : Sound s) (hcall : ¬ SurviveAt call path s) :
    applyAt alloc rightFirst call path s = some none := by
  induction path generalizing s with
  | nil => rw [applyAt, applyCall_gone alloc rightFirst hs hcall]
  | cons key path ih =>
    rcases getParentChild_sound hs key with ⟨hnone, _⟩ | ⟨at_, own, children, h, hp, _⟩
    · simp [SurviveAt, hnone] at hcall
    · have hbelow : ¬ SurviveAt call path ⟨children, s.live⟩ := by
        simpa only [SurviveAt, h] using hcall
      simp only [applyAt, h, ih (below_sound hs hp) hbelow, Option.map_some, Option.map_none]

theorem valueAt_contents (path : List Text) (hs : Sound s) :
    valueAt name path s = some ((ConfigPaths.parentAt path (contentsAll s.children)).bind
      (ConfigEntries.getValueChild · name)) := by
  induction path generalizing s with
  | nil => exact getValueChild_contents ⟨s, hs⟩ name
  | cons key path ih =>
    rcases getParentChild_sound hs key with ⟨hnone, hcontents⟩ | ⟨at_, own, children, h, hp, hc⟩
    · rw [valueAt, hnone, ConfigPaths.parentAt, hcontents]
      rfl
    · have hthere : ConfigEntries.getParentChild (contentsAll s.children) key =
          some (contentsAll children) := by rw [ConfigEntries.getParentChild, hc]
      rw [ConfigPaths.parentAt, hthere, Option.bind_some]
      simp only [valueAt, h]
      exact ih (below_sound hs hp)

end Operations

mutual

theorem save_contents : (p : Pointer) → (live : Finset Address) → (entry : Entry) →
    p.contents = some entry → (∀ a ∈ p.addresses, a ∈ live) → p.Whole →
      p.save live = some (.element entry.getName (ConfigEntries.saveEntry entry))
  | .null, _, _, hc, _, _ => by cases hc
  | .value at_ name data, live, entry, hc, halive, _ => by
    obtain rfl : Entry.value name data = entry := by simpa [Pointer.contents] using hc
    rw [Pointer.save, if_pos (halive at_ (by simp [Pointer.addresses])), ConfigEntries.saveEntry,
      Entry.getName]
  | .parent at_ name children, live, entry, hc, halive, hwhole => by
    obtain rfl : Entry.parent name (contentsAll children) = entry := by
      simpa [Pointer.contents] using hc
    rw [Pointer.addresses] at halive
    have hchildren := saveAll_contents children live hwhole fun a ha => halive a (by simp [ha])
    rw [Pointer.save, if_pos (halive at_ (by simp)), hchildren, Option.map_some,
      ConfigEntries.saveEntry, Entry.getName]

theorem saveAll_contents : (m : PointerMap) → (live : Finset Address) → WholeAll m →
    (∀ a ∈ addressesAll m, a ∈ live) →
      saveAll live m = some (ConfigEntries.saveChildren (contentsAll m))
  | [], _, _, _ => by rw [saveAll, contentsAll, ConfigEntries.saveChildren]
  | (key, p) :: m, live, hwhole, halive => by
    rw [addressesAll] at halive
    obtain ⟨entry, hentry⟩ := contents_some hwhole.1
    have hp := save_contents p live entry hentry (fun a ha => halive a (by simp [ha])) hwhole.1
    have hm := saveAll_contents m live hwhole.2 fun a ha => halive a (by simp [ha])
    rw [saveAll, hp, Option.bind_some, hm, Option.map_some, contentsAll, hentry,
      ConfigEntries.saveChildren]

end

structure Config.Sound (c : Config) : Prop where
  whole : WholeAll c.children
  owned : Owned (c.root :: addressesAll c.children) c.live

section Configs

variable (alloc : Allocator) (rightFirst : Bool) {c : Config}

theorem Config.Sound.parent (hc : c.Sound) : EntryLifetimes.Sound c.toParentEntry :=
  sound_of_owned hc.whole
    ⟨(List.nodup_cons.mp hc.owned.distinct).2, fun a ha => hc.owned.alive a (by simp [ha])⟩

theorem Config.Sound.save (hc : c.Sound) : c.save = some c.contents.save := by
  rw [Config.save, if_pos (hc.owned.alive c.root (by simp)),
    saveAll_contents c.children c.live hc.whole hc.parent.alive]
  rfl

theorem Config.Sound.destroy (hc : c.Sound) :
    c.destroy = some (others (c.root :: addressesAll c.children) c.live) := by
  have haddresses : (Pointer.parent c.root c.rootName c.children).addresses =
      c.root :: addressesAll c.children := by rw [Pointer.addresses]
  rw [Config.destroy, delete_alive, haddresses]
  · rfl
  · rw [haddresses]
    exact hc.owned.distinct
  · rw [haddresses]
    exact hc.owned.alive

/-- A step of the objects is one of their contents, and changes nothing else in the process. -/
theorem step_follows (hc : c.Sound) {e : List Text × Call} (he : ArgumentsSurvive (some c) e) :
    (Config.step alloc rightFirst (some c) e = none ∧
      ConfigEntries.Config.step c.contents (e.1, e.2.op) = none) ∨
    ∃ c', Config.step alloc rightFirst (some c) e = some (some c') ∧
      ConfigEntries.Config.step c.contents (e.1, e.2.op) = some c'.contents ∧ c'.Sound ∧
      c'.destroy = c.destroy := by
  obtain ⟨path, call⟩ := e
  rcases applyAt_becomes alloc rightFirst path hc.parent he with
    ⟨hnone, hcontents⟩ | ⟨s', m, hrun, hcontents, hbecomes⟩
  · refine Or.inl ⟨by rw [Config.step, hnone]; rfl, ?_⟩
    rw [ConfigEntries.Config.step, Config.contents, hcontents]
    rfl
  · have hexchange := Exchange.cons hc.owned hbecomes.exchange
    have hsound : Config.Sound { c with toParentEntry := s' } := ⟨hbecomes.whole, hexchange.owned⟩
    refine Or.inr ⟨_, by rw [Config.step, hrun]; rfl, ?_, hsound, ?_⟩
    · rw [ConfigEntries.Config.step, Config.contents, hcontents, Config.contents,
        hbecomes.contents]
      rfl
    · rw [hsound.destroy, hc.destroy, hexchange.others_eq]

theorem step_gone (hc : c.Sound) {e : List Text × Call} (he : ¬ ArgumentsSurvive (some c) e) :
    Config.step alloc rightFirst (some c) e = some none := by
  rw [Config.step, applyAt_gone alloc rightFirst e.1 hc.parent he]
  rfl

def plain (e : List Text × Call) : List Text × ConfigEntries.Op := (e.1, e.2.op)

theorem run_follows (hc : c.Sound) {es : List (List Text × Call)}
    (hes : EveryStep (Config.step alloc rightFirst) ArgumentsSurvive (some c) es) :
    (run (Config.step alloc rightFirst) (some c) es = none ∧
      run ConfigEntries.Config.step c.contents (es.map plain) = none) ∨
    ∃ c', run (Config.step alloc rightFirst) (some c) es = some (some c') ∧
      run ConfigEntries.Config.step c.contents (es.map plain) = some c'.contents ∧ c'.Sound := by
  induction es generalizing c with
  | nil => exact Or.inr ⟨c, rfl, rfl, hc⟩
  | cons e es ih =>
    by_cases he : ArgumentsSurvive (some c) e
    · rcases step_follows alloc rightFirst hc he with
        ⟨hnone, hcontents⟩ | ⟨c', hstep, hcontents, hc', _⟩
      · exact Or.inl ⟨by rw [run, hnone]; rfl, by rw [List.map_cons, run, plain, hcontents]; rfl⟩
      · rw [run, hstep, Option.bind_some, List.map_cons, run, plain, hcontents, Option.bind_some]
        exact ih hc' (hes _ hstep).2
    · exact absurd (hes _ (step_gone alloc rightFirst hc he)).1 he

theorem run_sound (hc : c.Sound) {es : List (List Text × Call)} {c' : Config}
    (hrun : run (Config.step alloc rightFirst) (some c) es = some (some c')) :
    c'.Sound ∧ c'.destroy = c.destroy := by
  have hstep : ∀ r e r', (∀ d, r = some d → d.Sound ∧ d.destroy = c.destroy) →
      Config.step alloc rightFirst r e = some r' →
        ∀ d, r' = some d → d.Sound ∧ d.destroy = c.destroy := by
    intro r e r' hr h d hd
    cases r with
    | none =>
      obtain rfl := Option.some.inj h
      cases hd
    | some c₁ =>
      obtain ⟨hc₁, hsame⟩ := hr c₁ rfl
      by_cases he : ArgumentsSurvive (some c₁) e
      · rcases step_follows alloc rightFirst hc₁ he with ⟨hnone, _⟩ | ⟨c₂, hstep, _, hc₂, hsame'⟩
        · rw [hnone] at h
          cases h
        · obtain rfl := Option.some.inj (hstep.symm.trans h)
          obtain rfl := Option.some.inj hd
          exact ⟨hc₂, hsame'.trans hsame⟩
      · obtain rfl := Option.some.inj ((step_gone alloc rightFirst hc₁ he).symm.trans h)
        cases hd
  refine reachable_invariant hstep ?_ ⟨es, hrun⟩ c' rfl
  rintro d ⟨⟩
  exact ⟨hc, rfl⟩

/-- The runs that stay defined are those whose arguments survive. -/
theorem defined_iff (hc : c.Sound) (es : List (List Text × Call)) :
    Always (Config.step alloc rightFirst) (· ≠ none) (some c) es ↔
      EveryStep (Config.step alloc rightFirst) ArgumentsSurvive (some c) es := by
  have hD : EveryStep (Config.step alloc rightFirst) (fun _ _ => True) (some c) es :=
    everyStep_of_forall fun _ _ _ => trivial
  refine always_iff_everyStep (I := fun r => ∃ d, r = some d ∧ d.Sound) ?_ ?_ ?_ ⟨c, rfl, hc⟩ hD
  · rintro r ⟨d, rfl, _⟩
    exact Option.some_ne_none d
  · rintro r e r' ⟨d, rfl, hd⟩ _ he h
    rcases step_follows alloc rightFirst hd he with ⟨hnone, _⟩ | ⟨d', hstep, _, hd', _⟩
    · rw [hnone] at h
      cases h
    · exact ⟨d', (Option.some.inj (hstep.symm.trans h)).symm, hd'⟩
  · rintro r e r' ⟨d, rfl, hd⟩ _ he h hr
    exact hr (Option.some.inj ((step_gone alloc rightFirst hd he).symm.trans h)).symm

end Configs

def valueText (children : List Node) : Option Text :=
  (getChildText children).filter fun content => !isWhiteSpace content

mutual

/-- How many entries are made of an element. Those below a value are not looked at. -/
def elements : Node → ℕ
  | .element _ children =>
    match valueText children with
    | some _ => 1
    | none => 1 + elementsAll children
  | _ => 0

def elementsAll : List Node → ℕ
  | [] => 0
  | n :: ns => elements n + elementsAll ns

end

theorem loadChild_valueText (alloc : Allocator) (name : Text) (children : List Node)
    (live : Finset Address) :
    loadChild alloc (.element name children) live =
      match valueText children with
      | some content =>
        some (name, .value (alloc.alloc live) name content, insert (alloc.alloc live) live)
      | none =>
        let s := loadChildren alloc children ⟨[], insert (alloc.alloc live) live⟩
        some (name, .parent (alloc.alloc live) name s.children, s.live) := by
  rw [loadChild, valueText]
  cases getChildText children with
  | none => rfl
  | some content =>
    by_cases hb : isWhiteSpace content = true
    · simp [hb, Option.filter]
    · simp [hb, Option.filter]

theorem entry_valueText (name : Text) (children : List Node) :
    ConfigEntries.loadChild (.element name children) =
      match valueText children with
      | some content => some (name, .value name content)
      | none => some (name, .parent name (ConfigEntries.loadChildren children [])) := by
  rw [ConfigEntries.loadChild, valueText]
  cases getChildText children with
  | none => rfl
  | some content =>
    by_cases hb : isWhiteSpace content = true
    · simp [hb, Option.filter]
    · simp [hb, Option.filter]

structure Made (live : Finset Address) (p : Pointer) (live' : Finset Address) (entry : Entry)
    (count : ℕ) : Prop where
  whole : p.Whole
  contents : p.contents = some entry
  owned : Owned p.addresses live'
  kept : live ⊆ others p.addresses live'
  card : live'.card = live.card + count

structure Grown (s s' : ParentEntry) (m : EntryMap) (count : ℕ) : Prop where
  whole : WholeAll s'.children
  contents : contentsAll s'.children = m
  owned : Owned (addressesAll s'.children) s'.live
  kept : others (addressesAll s.children) s.live ⊆ others (addressesAll s'.children) s'.live
  card : s'.live.card = s.live.card + count

section Loading

variable (alloc : Allocator)

/-- The overwritten entry stays alive, with nothing that points to it. -/
theorem grown_store {s : ParentEntry} (hs : Sound s) {p : Pointer} {live : Finset Address}
    {entry : Entry} {count : ℕ} (h : Made s.live p live entry count) (key : Text) :
    Grown s ⟨store s.children key p, live⟩ (store (contentsAll s.children) key entry) count := by
  obtain ⟨before, after, hm, hstore⟩ := addressesAll_store s.children key
  have howned := owned_of_sound hs
  rw [hm] at howned
  have hkept : others ((find s.children key).getD .null).addresses s.live ⊆
      others p.addresses live := Finset.sdiff_subset.trans h.kept
  refine ⟨?_, contentsAll_store hs.whole h.contents, ?_, ?_, h.card⟩
  · apply wholeAll_iff.mpr
    intro q hq
    rcases KeyedLists.mem_store hq with rfl | hq
    · exact h.whole
    · exact wholeAll_iff.mp hs.whole q hq
  · rw [hstore]
    exact howned.splice h.owned hkept
  · rw [hm, hstore]
    exact others_splice_mono hkept

theorem Grown.sound {s s' : ParentEntry} {m : EntryMap} {count : ℕ} (h : Grown s s' m count) :
    Sound s' := sound_of_owned h.whole h.owned

mutual

theorem loadChild_made : (n : Node) → (live : Finset Address) →
    (loadChild alloc n live = none ∧ ConfigEntries.loadChild n = none ∧ elements n = 0) ∨
    ∃ key p live' entry, loadChild alloc n live = some (key, p, live') ∧
      ConfigEntries.loadChild n = some (key, entry) ∧ Made live p live' entry (elements n)
  | .text _, _ => Or.inl ⟨by simp [loadChild], by simp [ConfigEntries.loadChild], by simp [elements]⟩
  | .comment _, _ =>
    Or.inl ⟨by simp [loadChild], by simp [ConfigEntries.loadChild], by simp [elements]⟩
  | .cdata _, _ =>
    Or.inl ⟨by simp [loadChild], by simp [ConfigEntries.loadChild], by simp [elements]⟩
  | .element name children, live => by
    have hfresh := alloc.fresh live
    have hempty : Sound ⟨[], insert (alloc.alloc live) live⟩ :=
      ⟨trivial, by simp [addressesAll], by simp [addressesAll]⟩
    have hbelow := loadChildren_grown children _ hempty
    rw [loadChild_valueText, entry_valueText, elements]
    cases valueText children with
    | some content =>
      refine Or.inr ⟨name, _, _, _, rfl, rfl, trivial, by rw [Pointer.contents], ?_, ?_, ?_⟩
      · exact ⟨by simp [Pointer.addresses], by simp [Pointer.addresses]⟩
      · intro a ha
        rw [mem_others, Pointer.addresses, List.mem_singleton, Finset.mem_insert]
        refine ⟨Or.inr ha, ?_⟩
        rintro rfl
        exact hfresh ha
      · exact Finset.card_insert_of_notMem hfresh
    | none =>
      -- the object of the parent itself is one of those that were there before its children
      have hkept : insert (alloc.alloc live) live ⊆ _ := others_nil.ge.trans hbelow.kept
      refine Or.inr ⟨name, _, _, _, rfl, rfl, hbelow.whole, ?_, ?_, ?_, ?_⟩
      · rw [Pointer.contents, hbelow.contents, contentsAll]
      · have hroot := mem_others.mp (hkept (Finset.mem_insert_self _ _))
        rw [Pointer.addresses]
        refine ⟨List.nodup_cons.mpr ⟨hroot.2, hbelow.owned.distinct⟩, ?_⟩
        intro a ha
        rcases List.mem_cons.mp ha with rfl | ha
        · exact hroot.1
        · exact hbelow.owned.alive a ha
      · intro a ha
        have hin := mem_others.mp (hkept (Finset.mem_insert_of_mem ha))
        rw [mem_others, Pointer.addresses, List.mem_cons, not_or]
        refine ⟨hin.1, ?_, hin.2⟩
        rintro rfl
        exact hfresh ha
      · rw [hbelow.card, Finset.card_insert_of_notMem hfresh, Nat.add_assoc]

theorem loadChildren_grown : (ns : List Node) → (s : ParentEntry) → Sound s →
    Grown s (loadChildren alloc ns s) (ConfigEntries.loadChildren ns (contentsAll s.children))
      (elementsAll ns)
  | [], s, hs => by
    rw [loadChildren, ConfigEntries.loadChildren, elementsAll]
    exact ⟨hs.whole, rfl, owned_of_sound hs, Finset.Subset.refl _, rfl⟩
  | n :: ns, s, hs => by
    rw [loadChildren, ConfigEntries.loadChildren, elementsAll]
    rcases loadChild_made n s.live with ⟨hnone, hcontents, hzero⟩ | ⟨key, p, live, entry, h, hc, hm⟩
    · rw [hnone, hcontents, hzero, Nat.zero_add]
      exact loadChildren_grown ns s hs
    · have hfirst := grown_store hs hm key
      have hrest := loadChildren_grown ns _ hfirst.sound
      rw [h, hc]
      refine ⟨hrest.whole, ?_, hrest.owned, hfirst.kept.trans hrest.kept, ?_⟩
      · rw [hrest.contents, hfirst.contents]
      · rw [hrest.card, hfirst.card, Nat.add_assoc]

end

end Loading

def rootChildren : Option Node → List Node
  | some (.element _ children) => children
  | _ => []

section Results

variable (alloc : Allocator) (rightFirst : Bool) (live : Finset Address) (doc : Option Node)

theorem load_grown : ∃ s,
    Grown ⟨[], insert (alloc.alloc live) live⟩ s (ConfigEntries.Config.load doc).entries
      (elementsAll (rootChildren doc)) ∧
    Config.load alloc live doc =
      { s with root := alloc.alloc live, rootName := (ConfigEntries.Config.load doc).rootName } := by
  have hempty : Sound ⟨[], insert (alloc.alloc live) live⟩ :=
    ⟨trivial, by simp [addressesAll], by simp [addressesAll]⟩
  have hnothing := loadChildren_grown alloc [] _ hempty
  rw [ConfigEntries.loadChildren, loadChildren] at hnothing
  cases doc with
  | none => exact ⟨_, hnothing, rfl⟩
  | some n =>
    cases n with
    | element name children => exact ⟨_, loadChildren_grown alloc children _ hempty, rfl⟩
    | text content => exact ⟨_, hnothing, rfl⟩
    | comment content => exact ⟨_, hnothing, rfl⟩
    | cdata content => exact ⟨_, hnothing, rfl⟩

theorem load_contents :
    (Config.load alloc live doc).contents = ConfigEntries.Config.load doc := by
  obtain ⟨s, hs, hload⟩ := load_grown alloc live doc
  rw [hload, Config.contents, hs.contents]

theorem load_sound : (Config.load alloc live doc).Sound := by
  obtain ⟨s, hs, hload⟩ := load_grown alloc live doc
  have hroot := mem_others.mp (hs.kept (others_nil.ge (Finset.mem_insert_self _ _)))
  rw [hload]
  refine ⟨hs.whole, List.nodup_cons.mpr ⟨hroot.2, hs.owned.distinct⟩, ?_⟩
  intro a ha
  rcases List.mem_cons.mp ha with rfl | ha
  · exact hroot.1
  · exact hs.owned.alive a ha

/-- What can be done with a configuration, each of it with the outcome its contents have. -/
structure Usable (c : Config) : Prop where
  saves : c.save = some c.contents.save
  reads : ∀ path name, valueAt name path c.toParentEntry =
    some ((ConfigPaths.parentAt path c.contents.entries).bind
      (ConfigEntries.getValueChild · name))
  destroys : c.destroy ≠ none

theorem Config.Sound.usable {c : Config} (hc : c.Sound) : Usable c where
  saves := hc.save
  reads path name := valueAt_contents path hc.parent
  destroys := by
    rw [hc.destroy]
    exact Option.some_ne_none _

end Results

theorem sup_succ_fresh (live : Finset Address) : live.sup id + 1 ∉ live := by
  intro h
  have hle : live.sup id + 1 ≤ live.sup id := Finset.le_sup (f := id) h
  exact Nat.not_succ_le_self _ hle

def nextFree : Allocator := ⟨fun live => live.sup id + 1, sup_succ_fresh⟩

def literal (text : String) : Argument := ⟨text.toList, none⟩

/-- The value of the second setting is the name of the first, as its entry holds it. -/
def borrowedName : List (List Text × Call) :=
  [([], .index (literal "settings")),
    (["settings".toList], .setValue (literal "port") (literal "6522")),
    (["settings".toList], .setValue (literal "name") ⟨"port".toList, some 3⟩)]

theorem borrowedName_survives :
    EveryStep (Config.step nextFree false) ArgumentsSurvive (some (Config.load nextFree ∅ none))
      borrowedName := by
  refine everyStep_cons rfl ?_ (everyStep_cons rfl ?_ (everyStep_cons rfl ?_ trivial))
  · show ∀ x ∈ _, _
    decide
  · show ∀ x ∈ _, _
    decide
  · show ∀ x ∈ _, _
    decide

/-- An entry that gets a new value under the name it holds itself. -/
example : run (Config.step nextFree false) (some (Config.load nextFree ∅ none))
    [([], .setValue (literal "port") (literal "6522")),
      ([], .setValue ⟨"port".toList, some 2⟩ (literal "80"))] = some none := rfl

end EntryOwnership
