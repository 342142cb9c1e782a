import Sobby.ConfigPaths
import Sobby.OrderedLists

/-! The order in which the children of a parent are visited. A map goes by the order of its keys,
whatever the order in which they were stored, so a saved document shows nothing of the history of
the tree. The comparison of the names is that of the locale. Spellings that it takes for one name
are one key of the map, so the names in use are to be such that it tells them apart. -/
namespace ConfigOrder

open Strings (Text)
open ConfigTree (Node)
open ConfigEntries
open ConfigPaths
open KeyedLists (store find keys)
open OrderedLists
open PathMaps (Cell)

section Order

variable (o : Comparison Text)

mutual

/-- The entries from `begin` to `end`, at every level. -/
def iterate : EntryMap → EntryMap
  | [] => []
  | (key, entry) :: m => place o (iterate m) key (iterateEntry entry)

def iterateEntry : Entry → Entry
  | .value name data => .value name data
  | .parent name children => .parent name (iterate children)

end

/-- `Config::save` -/
def save (c : Config) : Node :=
  .element "sobby_config".toList (saveChildren (iterate o c.entries))

end Order

mutual

def InOrder (o : Comparison Text) : EntryMap → Prop
  | [] => True
  | (key, entry) :: m => (∀ p ∈ m, o.lt key p.1 = true) ∧ EntryInOrder o entry ∧ InOrder o m

def EntryInOrder (o : Comparison Text) : Entry → Prop
  | .value _ _ => True
  | .parent _ children => InOrder o children

end

mutual

def NamesIn (names : Set Text) : EntryMap → Prop
  | [] => True
  | (key, entry) :: m => key ∈ names ∧ EntryNamesIn names entry ∧ NamesIn names m

def EntryNamesIn (names : Set Text) : Entry → Prop
  | .value _ _ => True
  | .parent _ children => NamesIn names children

end

def Uses (names : Set Text) (e : List Text × Op) : Prop :=
  (∀ key ∈ e.1, key ∈ names) ∧ opName e.2 ∈ names

variable {o : Comparison Text} {names : Set Text}

theorem namesIn_iff {m : EntryMap} :
    NamesIn names m ↔ ∀ p ∈ m, p.1 ∈ names ∧ EntryNamesIn names p.2 := by
  induction m with
  | nil => simp [NamesIn]
  | cons p m ih =>
    obtain ⟨key, entry⟩ := p
    simp only [NamesIn, ih, List.forall_mem_cons, and_assoc]

theorem NamesIn.keys {m : EntryMap} (h : NamesIn names m) : ∀ p ∈ m, p.1 ∈ names :=
  fun p hp => (namesIn_iff.mp h p hp).1

theorem namesIn_find {m : EntryMap} (h : NamesIn names m) {key : Text} {entry : Entry}
    (hfind : find m key = some entry) : key ∈ names ∧ EntryNamesIn names entry :=
  namesIn_iff.mp h _ (KeyedLists.find_mem hfind)

theorem namesIn_store {m : EntryMap} (h : NamesIn names m) {key : Text} (hkey : key ∈ names)
    {entry : Entry} (hentry : EntryNamesIn names entry) : NamesIn names (store m key entry) := by
  apply namesIn_iff.mpr
  intro p hp
  rcases KeyedLists.mem_store hp with rfl | hp
  · exact ⟨hkey, hentry⟩
  · exact namesIn_iff.mp h p hp

theorem namesIn_op {m : EntryMap} (h : NamesIn names m) {op : Op} (hop : opName op ∈ names) :
    NamesIn names (applyOp m op) := by
  have hparent (name : Text) : EntryNamesIn names (.parent name []) := trivial
  cases op with
  | index name =>
    simp only [applyOp, index]
    split
    · exact h
    · exact namesIn_store h hop (hparent name)
  | setParent name => exact namesIn_store h hop (hparent name)
  | setValue name data => exact namesIn_store h hop trivial
  | supplyValue name default =>
    simp only [applyOp, supplyValue]
    split
    · exact h
    · exact namesIn_store h hop trivial

theorem namesIn_applyAt {op : Op} {path : List Text} {m m' : EntryMap} (h : NamesIn names m)
    (hpath : ∀ key ∈ path, key ∈ names) (hop : opName op ∈ names)
    (ha : applyAt op path m = some m') : NamesIn names m' := by
  induction path generalizing m m' with
  | nil =>
    obtain rfl := Option.some.inj ha
    exact namesIn_op h hop
  | cons key path ih =>
    obtain ⟨hkey, hpath⟩ := List.forall_mem_cons.mp hpath
    simp only [applyAt] at ha
    split at ha
    · next name children hfind =>
      obtain ⟨children', hchildren, rfl⟩ := Option.map_eq_some_iff.mp ha
      have hbelow : NamesIn names children := (namesIn_find h hfind).2
      exact namesIn_store h hkey (ih hbelow hpath hchildren)
    · cases ha

theorem namesIn_run {start c : Config} (h : NamesIn names start.entries) {es : List (List Text × Op)}
    (hes : ∀ e ∈ es, Uses names e) (hr : StepMachine.run Config.step start es = some c) :
    NamesIn names c.entries := by
  have hstep : ∀ s e t, NamesIn names s.entries → Uses names e → Config.step s e = some t →
      NamesIn names t.entries := by
    intro s e t hs he hstep
    obtain ⟨entries, ha, rfl⟩ := Option.map_eq_some_iff.mp hstep
    exact namesIn_applyAt hs he.1 he.2 ha
  have hall : StepMachine.EveryStep Config.step (fun _ e => Uses names e) start es :=
    StepMachine.everyStep_of_forall fun e he _ => hes e he
  exact StepMachine.run_invariant (I := fun c => NamesIn names c.entries) hstep h hall hr

theorem inOrder_iff {m : EntryMap} :
    InOrder o m ↔ Ordered o m ∧ ∀ p ∈ m, EntryInOrder o p.2 := by
  induction m with
  | nil => simp [InOrder, Ordered]
  | cons p m ih =>
    obtain ⟨key, entry⟩ := p
    simp only [InOrder, ih, Ordered, List.pairwise_cons, List.forall_mem_cons]
    tauto

mutual

theorem namesIn_iterate : (m : EntryMap) → NamesIn names m → NamesIn names (iterate o m)
  | [], _ => by rw [iterate]; trivial
  | (key, entry) :: m, h => by
    obtain ⟨hkey, hentry, hm⟩ := h
    rw [iterate]
    apply namesIn_iff.mpr
    intro p hp
    rcases mem_place hp with rfl | hp
    · exact ⟨hkey, namesIn_iterateEntry entry hentry⟩
    · exact namesIn_iff.mp (namesIn_iterate m hm) p hp

theorem namesIn_iterateEntry : (entry : Entry) → EntryNamesIn names entry →
    EntryNamesIn names (iterateEntry o entry)
  | .value _ _, _ => by rw [iterateEntry]; trivial
  | .parent _ children, h => by
    rw [iterateEntry]
    exact namesIn_iterate children h

end

theorem find_iterate (ho : o.TellsApart names) {m : EntryMap} (h : NamesIn names m) (key : Text) :
    find (iterate o m) key = (find m key).map (iterateEntry o) := by
  induction m with
  | nil => rw [iterate, find, Option.map_none]
  | cons p m ih =>
    obtain ⟨key', entry⟩ := p
    obtain ⟨hkey, _, hm⟩ := h
    rw [iterate, find_place ho (namesIn_iterate m hm).keys hkey, ih hm, find]
    by_cases hk : key' = key
    · simp [hk]
    · simp [hk]

mutual

theorem iterate_inOrder (ho : o.TellsApart names) : (m : EntryMap) → NamesIn names m → InOrder o (iterate o m)
  | [], _ => by rw [iterate]; trivial
  | (key, entry) :: m, h => by
    obtain ⟨hkey, hentry, hm⟩ := h
    obtain ⟨hordered, hentries⟩ := inOrder_iff.mp (iterate_inOrder ho m hm)
    rw [iterate]
    refine inOrder_iff.mpr ⟨ordered_place ho (namesIn_iterate m hm).keys hordered hkey _, ?_⟩
    intro p hp
    rcases mem_place hp with rfl | hp
    · exact iterateEntry_inOrder ho entry hentry
    · exact hentries p hp

theorem iterateEntry_inOrder (ho : o.TellsApart names) : (entry : Entry) →
    EntryNamesIn names entry → EntryInOrder o (iterateEntry o entry)
  | .value _ _, _ => by rw [iterateEntry]; trivial
  | .parent _ children, h => by
    rw [iterateEntry]
    exact iterate_inOrder ho children h

end

theorem iterate_ordered (ho : o.TellsApart names) {m : EntryMap} (h : NamesIn names m) :
    Ordered o (iterate o m) :=
  (inOrder_iff.mp (iterate_inOrder ho m h)).1

theorem iterate_perm (ho : o.TellsApart names) {m : EntryMap} (hn : NamesIn names m)
    (h : (keys m).Nodup) : (keys (iterate o m)).Perm (keys m) := by
  have hnodup := nodup_keys (iterate_ordered ho hn)
  refine (List.perm_ext_iff_of_nodup hnodup h).mpr fun key => ?_
  rw [← not_iff_not, ← KeyedLists.find_eq_none, ← KeyedLists.find_eq_none, find_iterate ho hn,
    Option.map_eq_none_iff]

theorem cellAt_iterate (ho : o.TellsApart names) (path : List Text) {entry : Entry}
    (h : EntryNamesIn names entry) :
    cellAt path (some (iterateEntry o entry)) = cellAt path (some entry) := by
  induction path generalizing entry with
  | nil =>
    cases entry with
    | value name data => rw [iterateEntry]
    | parent name children => rw [iterateEntry, cellAt, cellAt]
  | cons key path ih =>
    cases entry with
    | value name data => rw [iterateEntry]
    | parent name children =>
      have hchildren : NamesIn names children := h
      rw [iterateEntry, cellAt, cellAt, find_iterate ho hchildren]
      cases hfind : find children key with
      | none => rfl
      | some below => exact ih (namesIn_find hchildren hfind).2

theorem cellAt_outside {path : List Text} {entry : Entry} (h : EntryNamesIn names entry)
    (hpath : ¬ ∀ key ∈ path, key ∈ names) : cellAt path (some entry) = .absent := by
  induction path generalizing entry with
  | nil => simp at hpath
  | cons key path ih =>
    cases entry with
    | value name data => rfl
    | parent name children =>
      have hchildren : NamesIn names children := h
      rw [cellAt]
      cases hfind : find children key with
      | none => exact cellAt_none path
      | some below =>
        obtain ⟨hkey, hbelow⟩ := namesIn_find hchildren hfind
        exact ih hbelow fun hall => hpath (List.forall_mem_cons.mpr ⟨hkey, hall⟩)

theorem getName_iterate (entry : Entry) : (iterateEntry o entry).getName = entry.getName := by
  cases entry with
  | value name data => rw [iterateEntry]
  | parent name children => rw [iterateEntry, Entry.getName, Entry.getName]

mutual

theorem wellNamed_iterate (ho : o.TellsApart names) : (m : EntryMap) → NamesIn names m →
    WellNamed m → WellNamed (iterate o m)
  | [], _, _ => by rw [iterate]; trivial
  | (key, entry) :: m, hn, h => by
    obtain ⟨_, hname, hentry, hm⟩ := h
    refine wellNamed_iff.mpr ⟨nodup_keys (iterate_ordered ho hn), ?_⟩
    obtain ⟨_, hnentry, hnm⟩ := hn
    rw [iterate]
    intro p hp
    rcases mem_place hp with rfl | hp
    · exact ⟨(getName_iterate entry).trans hname, wellNamed_iterateEntry ho entry hnentry hentry⟩
    · exact (wellNamed_iff.mp (wellNamed_iterate ho m hnm hm)).2 p hp

theorem wellNamed_iterateEntry (ho : o.TellsApart names) : (entry : Entry) →
    EntryNamesIn names entry → EntryWellNamed entry → EntryWellNamed (iterateEntry o entry)
  | .value _ _, _, _ => by rw [iterateEntry]; trivial
  | .parent _ children, hn, h => by
    rw [iterateEntry]
    exact wellNamed_iterate ho children hn h

end

/-- An empty value is written as a parent without children. -/
def written : Cell Text → Cell Text
  | .leaf [] => .node
  | c => c

def nodeCell : List Text → Option Node → Cell Text
  | [], some (.element _ [.text content]) => .leaf content
  | [], some (.element _ _) => .node
  | key :: path, some (.element _ children) =>
    nodeCell path (children.find? fun n => n.elementName = some key)
  | _, _ => .absent

theorem nodeCell_none (path : List Text) : nodeCell path none = .absent := by
  cases path with
  | nil => rfl
  | cons key path => rfl

theorem saveChildren_eq_map (m : EntryMap) :
    saveChildren m = m.map fun p => .element p.2.getName (saveEntry p.2) := by
  induction m with
  | nil => rw [saveChildren, List.map_nil]
  | cons p m ih => rw [saveChildren, ih, List.map_cons]

theorem find_saveChildren {m : EntryMap} (h : ∀ p ∈ m, p.2.getName = p.1) (key : Text) :
    (saveChildren m).find? (fun n => n.elementName = some key) =
      (find m key).map fun entry => .element key (saveEntry entry) := by
  induction m with
  | nil => rw [saveChildren, find, List.find?_nil, Option.map_none]
  | cons p m ih =>
    obtain ⟨key', entry⟩ := p
    obtain ⟨hfirst, hm⟩ := List.forall_mem_cons.mp h
    obtain rfl : entry.getName = key' := hfirst
    have hown : (Node.element entry.getName (saveEntry entry)).elementName = some entry.getName :=
      rfl
    rw [saveChildren, find, List.find?_cons, hown]
    by_cases hk : entry.getName = key
    · simp [hk]
    · simp [hk, ih hm]

theorem nodeCell_save (path : List Text) (name : Text) {entry : Entry} (h : EntryWellNamed entry) :
    nodeCell path (some (.element name (saveEntry entry))) = written (cellAt path (some entry)) := by
  induction path generalizing name entry with
  | nil =>
    rcases entry with ⟨own, data⟩ | ⟨own, children⟩
    · cases data with
      | nil => rfl
      | cons c data => rfl
    · cases children with
      | nil => simp [saveEntry, saveChildren, nodeCell, cellAt, written]
      | cons p children => simp [saveEntry, saveChildren, nodeCell, cellAt, written]
  | cons key path ih =>
    rcases entry with ⟨own, data⟩ | ⟨own, children⟩
    · cases data with
      | nil => simp [saveEntry, nodeCell, cellAt, written]
      | cons c data => simp [saveEntry, nodeCell, cellAt, written, Node.elementName]
    · have hchildren : WellNamed children := h
      have hnames := (wellNamed_iff.mp hchildren).2
      rw [saveEntry, nodeCell, find_saveChildren fun p hp => (hnames p hp).1, cellAt]
      cases hfind : find children key with
      | none => rw [Option.map_none, cellAt_none, nodeCell_none, written]; simp
      | some entry =>
        exact ih key (wellNamed_find hchildren hfind).2

def writtenChildren (m : EntryMap) : List (Text × Node) :=
  m.map fun p => (p.1, .element p.1 (saveEntry p.2))

theorem find_writtenChildren (m : EntryMap) (key : Text) :
    find (writtenChildren m) key = (find m key).map fun entry => .element key (saveEntry entry) := by
  induction m with
  | nil => rfl
  | cons p m ih =>
    obtain ⟨key', entry⟩ := p
    rw [writtenChildren, List.map_cons, find, find]
    by_cases hk : key' = key
    · simp [hk]
    · simpa [writtenChildren, hk] using ih

theorem writtenChildren_ordered (ho : o.TellsApart names) {m : EntryMap} (h : NamesIn names m) :
    Ordered o (writtenChildren (iterate o m)) :=
  List.pairwise_map.mpr (iterate_ordered ho h)

theorem saveChildren_written {m : EntryMap} (h : ∀ p ∈ m, p.2.getName = p.1) :
    saveChildren m = (writtenChildren m).map Prod.snd := by
  rw [saveChildren_eq_map, writtenChildren, List.map_map]
  refine List.map_congr_left fun p hp => ?_
  simp only [Function.comp_apply, h p hp]

theorem written_eq_absent {c : Cell Text} : written c = .absent ↔ c = .absent := by
  rcases c with _ | ⟨_ | _⟩ | _
  · simp [written]
  · simp [written]
  · simp [written]
  · simp [written]

theorem written_leaf_eq_node {data : Text} : written (.leaf data) = .node ↔ data = [] := by
  cases data with
  | nil => simp [written]
  | cons c data => simp [written]

theorem written_leaf_inj {data data' : Text} (h : written (.leaf data) = written (.leaf data')) :
    data = data' := by
  cases data with
  | nil => exact (written_leaf_eq_node.mp h.symm).symm
  | cons c data =>
    cases data' with
    | nil => exact written_leaf_eq_node.mp h
    | cons c' data' => simpa [written] using h

theorem find_eq_none_iff_cellAt (children : EntryMap) (key name : Text) :
    find children key = none ↔ cellAt [key] (some (.parent name children)) = .absent := by
  rw [cellAt]
  rcases find children key with _ | _ | _
  · simp [cellAt]
  · simp [cellAt]
  · simp [cellAt]

theorem save_empty {name : Text} {children : EntryMap}
    (h : ∀ key, .absent = written (cellAt [key] (some (.parent name children)))) :
    saveEntry (iterateEntry o (.parent name children)) = [] := by
  have hfind (key : Text) : find children key = none :=
    (find_eq_none_iff_cellAt children key name).mpr (written_eq_absent.mp (h key).symm)
  cases children with
  | nil => rw [iterateEntry, iterate, saveEntry, saveChildren]
  | cons p children =>
    have hfirst := hfind p.1
    simp [find] at hfirst

theorem save_empty_value (name : Text) : saveEntry (iterateEntry o (.value name [])) = [] := by
  rw [iterateEntry, saveEntry, if_pos rfl]

mutual

theorem save_of_cells (ho : o.TellsApart names) : (entry : Entry) → (entry' : Entry) →
    EntryNamesIn names entry → EntryNamesIn names entry' → EntryWellNamed entry →
    EntryWellNamed entry' →
    (∀ path, written (cellAt path (some entry)) = written (cellAt path (some entry'))) →
      saveEntry (iterateEntry o entry) = saveEntry (iterateEntry o entry')
  | .value name data, .value name' data', _, _, _, _, hcells => by
    obtain rfl := written_leaf_inj (hcells [])
    rw [iterateEntry, iterateEntry, saveEntry, saveEntry]
  | .value name data, .parent name' children', _, _, _, _, hcells => by
    obtain rfl := written_leaf_eq_node.mp (hcells [])
    rw [save_empty_value, save_empty fun key => hcells [key]]
  | .parent name children, .value name' data', _, _, _, _, hcells => by
    obtain rfl := written_leaf_eq_node.mp (hcells []).symm
    rw [save_empty_value, save_empty fun key => (hcells [key]).symm]
  | .parent name children, .parent name' children', hn, hn', h, h', hcells => by
    have hbelow := saveAll_of_cells ho children
    have hin : NamesIn names children := hn
    have hin' : NamesIn names children' := hn'
    have hwell : WellNamed children := h
    have hwell' : WellNamed children' := h'
    have hnames := (wellNamed_iff.mp (wellNamed_iterate ho children hin hwell)).2
    have hnames' := (wellNamed_iff.mp (wellNamed_iterate ho children' hin' hwell')).2
    rw [iterateEntry, iterateEntry, saveEntry, saveEntry,
      saveChildren_written fun p hp => (hnames p hp).1,
      saveChildren_written fun p hp => (hnames' p hp).1]
    congr 1
    apply ordered_ext (writtenChildren_ordered ho hin) (writtenChildren_ordered ho hin')
    intro key
    rw [find_writtenChildren, find_writtenChildren, find_iterate ho hin, find_iterate ho hin',
      Option.map_map, Option.map_map]
    have hkey (path : List Text) : written (cellAt path (find children key)) =
        written (cellAt path (find children' key)) := hcells (key :: path)
    cases hfind : find children key with
    | none =>
      have hnone : find children' key = none := by
        apply (find_eq_none_iff_cellAt children' key name').mpr
        apply written_eq_absent.mp
        rw [cellAt, ← hkey [], hfind]
        rfl
      rw [hnone]
    | some entry =>
      cases hfind' : find children' key with
      | none =>
        have hcell := hkey []
        rw [hfind, hfind', cellAt_none, written_eq_absent.mpr rfl, written_eq_absent] at hcell
        cases entry with
        | value own data => cases hcell
        | parent own below => cases hcell
      | some entry' =>
        rw [hfind, hfind'] at hkey
        have hsame := hbelow (key, entry) (KeyedLists.find_mem hfind) entry'
          (namesIn_find hin hfind).2 (namesIn_find hin' hfind').2
          (wellNamed_find hwell hfind).2 (wellNamed_find hwell' hfind').2 hkey
        simp only [Option.map_some, Function.comp_apply, hsame]

theorem saveAll_of_cells (ho : o.TellsApart names) : (m : EntryMap) → ∀ p ∈ m, ∀ entry',
    EntryNamesIn names p.2 → EntryNamesIn names entry' → EntryWellNamed p.2 →
    EntryWellNamed entry' →
    (∀ path, written (cellAt path (some p.2)) = written (cellAt path (some entry'))) →
      saveEntry (iterateEntry o p.2) = saveEntry (iterateEntry o entry')
  | [], p, hp => by cases hp
  | (key, entry) :: m, p, hp => by
    intro entry' hn hn' h h' hcells
    rcases List.mem_cons.mp hp with heq | hp
    · obtain rfl := heq
      exact save_of_cells ho entry entry' hn hn' h h' hcells
    · exact saveAll_of_cells ho m p hp entry' hn hn' h h' hcells

end

/-- The document of a tree, from what is read along the paths of the tree. -/
theorem save_eq_iff (ho : o.TellsApart names) {c c' : Config} (hn : NamesIn names c.entries)
    (hn' : NamesIn names c'.entries) (h : WellNamed c.entries) (h' : WellNamed c'.entries) :
    save o c = save o c' ↔
      ∀ path, (∀ key ∈ path, key ∈ names) →
        written ((pathMap c).cell path) = written ((pathMap c').cell path) := by
  have hcell (d : Config) (hnd : NamesIn names d.entries) (hd : WellNamed d.entries)
      (path : List Text) : nodeCell path (some (save o d)) = written ((pathMap d).cell path) := by
    have hin : EntryNamesIn names (.parent d.rootName d.entries) := hnd
    have hentry : EntryWellNamed (.parent d.rootName d.entries) := hd
    have hsave := nodeCell_save path "sobby_config".toList
      (wellNamed_iterateEntry ho _ hin hentry)
    rw [iterateEntry, saveEntry] at hsave
    have hiterate := cellAt_iterate ho path hin
    rw [iterateEntry] at hiterate
    rw [save, hsave, hiterate]
    rfl
  constructor
  · intro hsame path _
    rw [← hcell c hn h, ← hcell c' hn' h', hsame]
  · intro hcells
    have hall (path : List Text) : written (cellAt path (some (.parent c.rootName c.entries))) =
        written (cellAt path (some (.parent c'.rootName c'.entries))) := by
      by_cases hpath : ∀ key ∈ path, key ∈ names
      · exact hcells path hpath
      · have hout : EntryNamesIn names (.parent c.rootName c.entries) := hn
        have hout' : EntryNamesIn names (.parent c'.rootName c'.entries) := hn'
        rw [cellAt_outside hout hpath, cellAt_outside hout' hpath]
    have hsame := save_of_cells ho (.parent c.rootName c.entries)
      (.parent c'.rootName c'.entries) hn hn' h h' hall
    rw [iterateEntry, iterateEntry, saveEntry, saveEntry] at hsame
    rw [save, save, hsame]

/-- Whatever has been done to two trees, in whatever order, with names that are told apart: they
are saved as the same document if and only if they hold the same along every path of these names,
an empty value counting as an empty parent. Both are written in the order of the names, each child
once. -/
theorem saved_document_tells_contents (ho : o.TellsApart names) {start start' c c' : Config}
    (hs : Started start) (hs' : Started start') (hn : NamesIn names start.entries)
    (hn' : NamesIn names start'.entries) {es es' : List (List Text × Op)}
    (hes : ∀ e ∈ es, Uses names e) (hes' : ∀ e ∈ es', Uses names e)
    (hr : StepMachine.run Config.step start es = some c)
    (hr' : StepMachine.run Config.step start' es' = some c') :
    (save o c = save o c' ↔
      ∀ path, (∀ key ∈ path, key ∈ names) →
        written ((pathMap c).cell path) = written ((pathMap c').cell path)) ∧
    InOrder o (iterate o c.entries) ∧ (keys (iterate o c.entries)).Perm (keys c.entries) := by
  have h := wellNamed_reachable hs ⟨es, hr⟩
  have hin := namesIn_run hn hes hr
  exact ⟨save_eq_iff ho hin (namesIn_run hn' hes' hr') h (wellNamed_reachable hs' ⟨es', hr'⟩),
    iterate_inOrder ho _ hin, iterate_perm ho hin (wellNamed_iff.mp h).1⟩

def codePoints : Comparison Text where
  lt a b := decide (a < b)
  irrefl a := decide_eq_false (lt_irrefl a)
  trans _ _ _ hab hbc := decide_eq_true ((of_decide_eq_true hab).trans (of_decide_eq_true hbc))

theorem codePoints_tellsApart (names : Set Text) : codePoints.TellsApart names :=
  fun _ _ _ _ hne => (lt_or_gt_of_ne hne).imp decide_eq_true decide_eq_true

def nameFirst : List (List Text × Op) :=
  [([], .setValue "name".toList "s".toList), ([], .setValue "port".toList "1".toList)]

def portFirst : List (List Text × Op) :=
  [([], .setValue "port".toList "1".toList), ([], .setValue "name".toList "s".toList)]

theorem stored_in_either_order : ∃ c c', StepMachine.run Config.step Config.empty nameFirst = some c ∧
    StepMachine.run Config.step Config.empty portFirst = some c' ∧ keys c.entries ≠ keys c'.entries ∧
    save codePoints c = save codePoints c' := by
  have hrun : StepMachine.run Config.step Config.empty nameFirst = some _ := rfl
  have hrun' : StepMachine.run Config.step Config.empty portFirst = some _ := rfl
  have hnothing : NamesIn Set.univ Config.empty.entries := trivial
  have huses (e : List Text × Op) : Uses Set.univ e := ⟨fun _ _ => trivial, trivial⟩
  refine ⟨_, _, hrun, hrun', by decide, ?_⟩
  apply (saved_document_tells_contents (codePoints_tellsApart Set.univ) (Or.inl rfl) (Or.inl rfl)
    hnothing hnothing (fun e _ => huses e) (fun e _ => huses e) hrun hrun').1.mpr
  intro path _
  congr 1
  cases path with
  | nil => rfl
  | cons key path =>
    by_cases hname : "name".toList = key
    · subst hname
      rfl
    · by_cases hport : "port".toList = key
      · subst hport
        rfl
      · simp only [pathMap, cellAt, applyOp, setValue, KeyedLists.find_store, if_neg hname,
          if_neg hport]

end ConfigOrder
