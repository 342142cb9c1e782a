import Sobby.StepMachine
import Sobby.ConfigTree

/-! The configuration tree with the name each entry carries. The writer goes by the entries' own
names and the reader by the names of the elements, so a tree comes back only while every entry is
stored under its own name. Names are told apart as `Glib::ustring` does it, for which spellings
that are canonically equivalent are one key. -/
namespace ConfigEntries

open Strings (Text)
open ConfigTree (Node isWhiteSpace getChildText Rereads)
open KeyedLists (store find keys)

/-- `Config::Entry`. The name is `m_name`. -/
inductive Entry where
  | value (name data : Text)
  | parent (name : Text) (children : List (Text × Entry))

/-- `m_map` -/
abbrev EntryMap := List (Text × Entry)

def Entry.getName : Entry → Text
  | .value name _ => name
  | .parent name _ => name

def getValueChild (m : EntryMap) (name : Text) : Option Text :=
  match find m name with
  | some (.value _ data) => some data
  | _ => none

def getParentChild (m : EntryMap) (name : Text) : Option EntryMap :=
  match find m name with
  | some (.parent _ children) => some children
  | _ => none

def setParent (m : EntryMap) (name : Text) : EntryMap := store m name (.parent name [])

/-- `operator[]` -/
def index (m : EntryMap) (name : Text) : EntryMap :=
  match getParentChild m name with
  | some _ => m
  | none => setParent m name

def setValue (m : EntryMap) (name data : Text) : EntryMap := store m name (.value name data)

def supplyValue (m : EntryMap) (name default : Text) : EntryMap :=
  match getValueChild m name with
  | some _ => m
  | none => setValue m name default

/-- Values are given as the texts they are serialised to. -/
inductive Op where
  | index (name : Text)
  | setParent (name : Text)
  | setValue (name data : Text)
  | supplyValue (name default : Text)

def applyOp (m : EntryMap) : Op → EntryMap
  | .index name => index m name
  | .setParent name => setParent m name
  | .setValue name data => setValue m name data
  | .supplyValue name default => supplyValue m name default

/-- An operation on the parent a path of names leads to. That parent is changed in place, and so
the ones above it keep it where it is. -/
def applyAt (op : Op) : List Text → EntryMap → Option EntryMap
  | [], m => some (applyOp m op)
  | key :: path, m =>
    match find m key with
    | some (.parent name children) =>
      (applyAt op path children).map fun children' => store m key (.parent name children')
    | _ => none

mutual

def loadChildren : List Node → EntryMap → EntryMap
  | [], m => m
  | n :: ns, m =>
    match loadChild n with
    | none => loadChildren ns m
    | some (key, entry) => loadChildren ns (store m key entry)

def loadChild : Node → Option (Text × Entry)
  | .element name children =>
    match getChildText children with
    | none => some (name, .parent name (loadChildren children []))
    | some content =>
      if isWhiteSpace content then some (name, .parent name (loadChildren children []))
      else some (name, .value name content)
  | _ => none

end

mutual

def saveChildren : EntryMap → List Node
  | [] => []
  | (_, entry) :: m => .element entry.getName (saveEntry entry) :: saveChildren m

def saveEntry : Entry → List Node
  | .value _ data => if data = [] then [] else [.text data]
  | .parent _ children => saveChildren children

end

/-- `Config` with its root, whose name counts for nothing when it is saved. -/
structure Config where
  rootName : Text
  entries : EntryMap

def Config.empty : Config := ⟨"sobby_config".toList, []⟩

/-- `Config::Config` of a parsed document, which may lack a root node. -/
def Config.load : Option Node → Config
  | some (.element name children) => ⟨name, loadChildren children []⟩
  | _ => Config.empty

def Config.save (c : Config) : Node := .element "sobby_config".toList (saveChildren c.entries)

def Config.step (c : Config) (e : List Text × Op) : Option Config :=
  (applyAt e.2 e.1 c.entries).map fun entries => { c with entries := entries }

def Started (c : Config) : Prop := c = Config.empty ∨ ∃ doc, c = Config.load doc

mutual

/-- Every entry is stored under its own name, once, at every level. -/
def WellNamed : EntryMap → Prop
  | [] => True
  | (key, entry) :: m =>
    key ∉ keys m ∧ entry.getName = key ∧ EntryWellNamed entry ∧ WellNamed m

def EntryWellNamed : Entry → Prop
  | .value _ _ => True
  | .parent _ children => WellNamed children

end

mutual

def NoBlankValue : EntryMap → Prop
  | [] => True
  | (_, entry) :: m => EntryNotBlank entry ∧ NoBlankValue m

def EntryNotBlank : Entry → Prop
  | .value _ data => isWhiteSpace data = false
  | .parent _ children => NoBlankValue children

end

theorem wellNamed_iff {m : EntryMap} :
    WellNamed m ↔
      (keys m).Nodup ∧ ∀ p ∈ m, p.2.getName = p.1 ∧ EntryWellNamed p.2 := by
  induction m with
  | nil => simp [WellNamed]
  | cons p m ih =>
    obtain ⟨key, entry⟩ := p
    simp only [WellNamed, ih, List.map_cons, List.nodup_cons, List.forall_mem_cons]
    constructor
    · rintro ⟨hkey, hname, hentry, hnodup, hm⟩
      exact ⟨⟨hkey, hnodup⟩, ⟨hname, hentry⟩, hm⟩
    · rintro ⟨⟨hkey, hnodup⟩, ⟨hname, hentry⟩, hm⟩
      exact ⟨hkey, hname, hentry, hnodup, hm⟩

theorem wellNamed_store {m : EntryMap} (h : WellNamed m) {entry : Entry}
    (hentry : EntryWellNamed entry) : WellNamed (store m entry.getName entry) := by
  obtain ⟨hnodup, hm⟩ := wellNamed_iff.mp h
  apply wellNamed_iff.mpr
  refine ⟨KeyedLists.nodup_store hnodup _ _, ?_⟩
  intro p hp
  rcases KeyedLists.mem_store hp with rfl | hp
  · exact ⟨rfl, hentry⟩
  · exact hm p hp

theorem wellNamed_find {m : EntryMap} (h : WellNamed m) {key : Text} {entry : Entry}
    (hf : find m key = some entry) : entry.getName = key ∧ EntryWellNamed entry :=
  (wellNamed_iff.mp h).2 _ (KeyedLists.find_mem hf)

theorem wellNamed_setParent {m : EntryMap} (h : WellNamed m) (name : Text) :
    WellNamed (setParent m name) := by
  have hentry : EntryWellNamed (.parent name []) := trivial
  exact wellNamed_store h hentry

theorem wellNamed_setValue {m : EntryMap} (h : WellNamed m) (name data : Text) :
    WellNamed (setValue m name data) := by
  have hentry : EntryWellNamed (.value name data) := trivial
  exact wellNamed_store h hentry

theorem wellNamed_op {m : EntryMap} (h : WellNamed m) (op : Op) : WellNamed (applyOp m op) := by
  cases op with
  | index name =>
    simp only [applyOp, index]
    split
    · exact h
    · exact wellNamed_setParent h name
  | setParent name => exact wellNamed_setParent h name
  | setValue name data => exact wellNamed_setValue h name data
  | supplyValue name default =>
    simp only [applyOp, supplyValue]
    split
    · exact h
    · exact wellNamed_setValue h name default

theorem wellNamed_applyAt {op : Op} {path : List Text} {m m' : EntryMap} (h : WellNamed m)
    (ha : applyAt op path m = some m') : WellNamed m' := by
  induction path generalizing m m' with
  | nil =>
    obtain rfl := Option.some.inj ha
    exact wellNamed_op h op
  | cons key path ih =>
    simp only [applyAt] at ha
    split at ha
    · next name children hf =>
      obtain ⟨children', hchildren, rfl⟩ := Option.map_eq_some_iff.mp ha
      obtain ⟨hname, hentry⟩ := wellNamed_find h hf
      obtain rfl : name = key := hname
      have hentry' : EntryWellNamed (.parent name children') := ih hentry hchildren
      exact wellNamed_store h hentry'
    · cases ha

mutual

theorem wellNamed_loadChild : (n : Node) → ∀ p ∈ loadChild n, p.2.getName = p.1 ∧ EntryWellNamed p.2
  | .element name children => by
    have hchildren := wellNamed_loadChildren children [] trivial
    intro p hp
    rw [loadChild] at hp
    split at hp
    · obtain rfl := Option.some.inj hp
      exact ⟨rfl, hchildren⟩
    · split at hp
      · obtain rfl := Option.some.inj hp
        exact ⟨rfl, hchildren⟩
      · obtain rfl := Option.some.inj hp
        exact ⟨rfl, trivial⟩
  | .text _ => by simp [loadChild]
  | .comment _ => by simp [loadChild]
  | .cdata _ => by simp [loadChild]

theorem wellNamed_loadChildren : (ns : List Node) → (m : EntryMap) → WellNamed m →
    WellNamed (loadChildren ns m)
  | [], m, h => by simpa [loadChildren] using h
  | n :: ns, m, h => by
    have hn := wellNamed_loadChild n
    rw [loadChildren]
    split
    · exact wellNamed_loadChildren ns m h
    · next key entry hload =>
      obtain ⟨hname, hentry⟩ := hn (key, entry) hload
      obtain rfl : entry.getName = key := hname
      exact wellNamed_loadChildren ns _ (wellNamed_store h hentry)

end

mutual

def plain : EntryMap → ConfigTree.ParentEntry
  | [] => []
  | (key, entry) :: m => (key, plainEntry entry) :: plain m

def plainEntry : Entry → ConfigTree.Entry
  | .value _ data => .value data
  | .parent _ children => .parent (plain children)

end

theorem plain_eq_map (m : EntryMap) : plain m = m.map (Prod.map id plainEntry) := by
  induction m with
  | nil => simp [plain]
  | cons p m ih =>
    obtain ⟨key, entry⟩ := p
    rw [plain, ih, List.map_cons, Prod.map_apply, id]

theorem keys_plain (m : EntryMap) : keys (plain m) = keys m := by
  simp [plain_eq_map]

theorem plain_store (m : EntryMap) (key : Text) (entry : Entry) :
    plain (store m key entry) = ConfigTree.put (plain m) key (plainEntry entry) := by
  rw [plain_eq_map, plain_eq_map, KeyedLists.store_map, ConfigTree.put_eq_store]

mutual

theorem plain_loadChild : (n : Node) →
    (loadChild n).map (Prod.map id plainEntry) = ConfigTree.loadChild n
  | .element name children => by
    have hchildren := plain_loadChildren children []
    rw [plain] at hchildren
    cases hc : getChildText children with
    | none => simp [loadChild, ConfigTree.loadChild, hc, plainEntry, hchildren]
    | some content =>
      by_cases hb : isWhiteSpace content = true
      · simp [loadChild, ConfigTree.loadChild, hc, hb, plainEntry, hchildren]
      · simp [loadChild, ConfigTree.loadChild, hc, hb, plainEntry]
  | .text _ => by simp [loadChild, ConfigTree.loadChild]
  | .comment _ => by simp [loadChild, ConfigTree.loadChild]
  | .cdata _ => by simp [loadChild, ConfigTree.loadChild]

/-- Loading with names is loading without them, and naming. -/
theorem plain_loadChildren : (ns : List Node) → (m : EntryMap) →
    plain (loadChildren ns m) = ConfigTree.loadChildren ns (plain m)
  | [], m => by simp only [loadChildren, ConfigTree.loadChildren]
  | n :: ns, m => by
    have hn := plain_loadChild n
    cases hload : loadChild n with
    | none =>
      have hplain : ConfigTree.loadChild n = none := by rw [← hn, hload, Option.map_none]
      rw [loadChildren, hload, ConfigTree.loadChildren, hplain]
      exact plain_loadChildren ns m
    | some p =>
      obtain ⟨key, entry⟩ := p
      have hplain : ConfigTree.loadChild n = some (key, plainEntry entry) := by
        rw [← hn, hload, Option.map_some, Prod.map_apply, id]
      rw [loadChildren, hload, ConfigTree.loadChildren, hplain]
      simp only [← plain_store]
      exact plain_loadChildren ns _

end

mutual

theorem saveChildren_plain : (m : EntryMap) → WellNamed m →
    saveChildren m = ConfigTree.saveChildren (plain m)
  | [], _ => by simp only [saveChildren, plain, ConfigTree.saveChildren]
  | (key, entry) :: m, h => by
    obtain ⟨_, hname, hentry, hm⟩ := h
    rw [saveChildren, plain, ConfigTree.saveChildren, hname, saveEntry_plain entry hentry,
      saveChildren_plain m hm]

theorem saveEntry_plain : (entry : Entry) → EntryWellNamed entry →
    saveEntry entry = ConfigTree.saveEntry (plainEntry entry)
  | .value _ _, _ => by simp only [saveEntry, plainEntry, ConfigTree.saveEntry]
  | .parent _ children, h => by
    rw [saveEntry, plainEntry, ConfigTree.saveEntry, saveChildren_plain children h]

end

mutual

theorem plain_survivesSave : (m : EntryMap) → WellNamed m → NoBlankValue m →
    ConfigTree.SurvivesSave (plain m)
  | [], _, _ => trivial
  | (key, entry) :: m, h, hb => by
    obtain ⟨hkey, _, hentry, hm⟩ := h
    refine ⟨?_, plainEntry_survives entry hentry hb.1, plain_survivesSave m hm hb.2⟩
    rwa [keys_plain]

theorem plainEntry_survives : (entry : Entry) → EntryWellNamed entry → EntryNotBlank entry →
    ConfigTree.EntrySurvives (plainEntry entry)
  | .value _ _, _, hb => hb
  | .parent _ children, h, hb => plain_survivesSave children h hb

end

mutual

theorem plain_injective : (m m' : EntryMap) → WellNamed m → WellNamed m' → plain m = plain m' →
    m = m'
  | [], [], _, _, _ => rfl
  | [], _ :: _, _, _, he => by cases he
  | _ :: _, [], _, _, he => by cases he
  | (key, entry) :: m, (key', entry') :: m', h, h', he => by
    obtain ⟨_, hname, hentry, hm⟩ := h
    obtain ⟨_, hname', hentry', hm'⟩ := h'
    simp only [plain, List.cons.injEq, Prod.mk.injEq] at he
    obtain ⟨⟨rfl, hplain⟩, hrest⟩ := he
    rw [plainEntry_injective entry entry' hentry hentry' (hname.trans hname'.symm) hplain,
      plain_injective m m' hm hm' hrest]

theorem plainEntry_injective : (entry entry' : Entry) → EntryWellNamed entry →
    EntryWellNamed entry' → entry.getName = entry'.getName → plainEntry entry = plainEntry entry' →
    entry = entry'
  | .value _ _, .value _ _, _, _, hname, he => by
    cases hname
    cases he
    rfl
  | .value _ _, .parent _ _, _, _, _, he => by cases he
  | .parent _ _, .value _ _, _, _, _, he => by cases he
  | .parent name children, .parent name' children', h, h', hname, he => by
    have hn : name = name' := hname
    have hchildren : plain children = plain children' := by simpa [plainEntry] using he
    rw [hn, plain_injective children children' h h' hchildren]

end

theorem wellNamed_load (doc : Option Node) : WellNamed (Config.load doc).entries := by
  unfold Config.load
  split
  · exact wellNamed_loadChildren _ [] trivial
  · trivial

theorem wellNamed_reachable {start c : Config} (hs : Started start)
    (hr : StepMachine.Reachable Config.step start c) : WellNamed c.entries := by
  have hstart : WellNamed start.entries := by
    rcases hs with rfl | ⟨doc, rfl⟩
    · trivial
    · exact wellNamed_load doc
  have hkeep : ∀ s e t, WellNamed s.entries → Config.step s e = some t → WellNamed t.entries := by
    intro s e t hwell hstep
    obtain ⟨entries, ha, rfl⟩ := Option.map_eq_some_iff.mp hstep
    exact wellNamed_applyAt hwell ha
  exact StepMachine.reachable_invariant (I := fun c => WellNamed c.entries) hkeep hstart hr

theorem noBlankValue_iff {m : EntryMap} : NoBlankValue m ↔ ∀ p ∈ m, EntryNotBlank p.2 := by
  induction m with
  | nil => simp [NoBlankValue]
  | cons p m ih =>
    obtain ⟨key, entry⟩ := p
    simp only [NoBlankValue, ih, List.forall_mem_cons]

theorem noBlankValue_store {m : EntryMap} (h : NoBlankValue m) (key : Text) {entry : Entry}
    (hentry : EntryNotBlank entry) : NoBlankValue (store m key entry) := by
  apply noBlankValue_iff.mpr
  intro p hp
  rcases KeyedLists.mem_store hp with rfl | hp
  · exact hentry
  · exact noBlankValue_iff.mp h p hp

mutual

theorem notBlank_loadChild : (n : Node) → ∀ p ∈ loadChild n, EntryNotBlank p.2
  | .element name children => by
    have hchildren := noBlankValue_loadChildren children [] trivial
    intro p hp
    rw [loadChild] at hp
    split at hp
    · obtain rfl := Option.some.inj hp
      exact hchildren
    · split at hp
      · obtain rfl := Option.some.inj hp
        exact hchildren
      · next hb =>
        obtain rfl := Option.some.inj hp
        exact eq_false_of_ne_true hb
  | .text _ => by simp [loadChild]
  | .comment _ => by simp [loadChild]
  | .cdata _ => by simp [loadChild]

theorem noBlankValue_loadChildren : (ns : List Node) → (m : EntryMap) → NoBlankValue m →
    NoBlankValue (loadChildren ns m)
  | [], m, h => by simpa [loadChildren] using h
  | n :: ns, m, h => by
    have hn := notBlank_loadChild n
    rw [loadChildren]
    split
    · exact noBlankValue_loadChildren ns m h
    · next key entry hload =>
      exact noBlankValue_loadChildren ns _ (noBlankValue_store h key (hn (key, entry) hload))

end

theorem noBlankValue_load (doc : Option Node) : NoBlankValue (Config.load doc).entries := by
  unfold Config.load
  split
  · exact noBlankValue_loadChildren _ [] trivial
  · trivial

theorem plain_load (doc : Option Node) : plain (Config.load doc).entries = ConfigTree.load doc := by
  have hempty : plain [] = [] := by simp only [plain]
  cases doc with
  | none => exact hempty
  | some n =>
    cases n with
    | element name children =>
      have hchildren := plain_loadChildren children []
      rwa [hempty] at hchildren
    | text content => exact hempty
    | comment content => exact hempty
    | cdata content => exact hempty

theorem save_plain {c : Config} (h : WellNamed c.entries) :
    c.save = ConfigTree.save (plain c.entries) := by
  rw [Config.save, ConfigTree.save, saveChildren_plain c.entries h]

theorem load_save {c : Config} (hwell : WellNamed c.entries) (hblank : NoBlankValue c.entries)
    {read : Node} (hread : Rereads c.save read) : (Config.load (some read)).entries = c.entries := by
  rw [save_plain hwell] at hread
  have hplain : plain (Config.load (some read)).entries = plain c.entries := by
    rw [plain_load, ConfigTree.load_rereads hread,
      ConfigTree.load_save (plain_survivesSave c.entries hwell hblank)]
  exact plain_injective _ _ (wellNamed_load (some read)) hwell hplain

/-- Every tree without blank values comes back from a file as it was, whatever was done to it
before; and what a document was loaded to is loaded again from the document it is saved to. -/
theorem loading_undoes_saving :
    (∀ start c read, Started start → StepMachine.Reachable Config.step start c →
      NoBlankValue c.entries → Rereads c.save read →
        (Config.load (some read)).entries = c.entries) ∧
      ∀ doc read, Rereads (Config.load doc).save read →
        (Config.load (some read)).entries = (Config.load doc).entries := by
  constructor
  · intro start c read hs hr hblank hread
    exact load_save (wellNamed_reachable hs hr) hblank hread
  · intro doc read hread
    exact load_save (wellNamed_load doc) (noBlankValue_load doc) hread

def oneValue (rootName parent name data : Text) : Config :=
  ⟨rootName, [(parent, .parent parent [(name, .value name data)])]⟩

def oneValueFile (parent name data : Text) : Node :=
  .element "sobby_config".toList [.text ['\n'], .element parent
    [.text ['\n'], .element name [.text data], .text ['\n']], .text ['\n']]

theorem oneValue_reachable (rootName parent name data : Text) :
    StepMachine.Reachable Config.step ⟨rootName, []⟩ (oneValue rootName parent name data) := by
  refine ⟨[([], .index parent), ([parent], .supplyValue name data)], ?_⟩
  simp [StepMachine.run, Config.step, oneValue, applyAt, applyOp, index, getParentChild, find,
    setParent, store, supplyValue, getValueChild, setValue]

theorem oneValue_rereads (rootName parent name : Text) {data : Text} (hne : data ≠ [])
    (h : ∀ c ∈ data, ConfigTree.XmlChar c) :
    Rereads (oneValue rootName parent name data).save (oneValueFile parent name data) := by
  have hvalue : Rereads (.element name [.text data]) (.element name [.text data]) :=
    .element (.cons (.text h) .nil)
  have hblank : isWhiteSpace ['\n'] = true := by decide
  have hparent : Rereads (.element parent [.element name [.text data]])
      (.element parent [.text ['\n'], .element name [.text data], .text ['\n']]) := by
    refine .formatted (by simp) (by simp [Node.IsElement]) ?_
    exact .blank hblank (.cons hvalue (.blank hblank .nil))
  simp only [Config.save, oneValue, oneValueFile, saveChildren, saveEntry, Entry.getName, hne,
    if_false]
  refine .formatted (by simp) (by simp [Node.IsElement]) ?_
  exact .blank hblank (.cons hparent (.blank hblank .nil))

theorem supplied_port_comes_back :
    (Config.load (some (oneValueFile "sobby".toList "port".toList ['6', '5', '2', '2']))).entries =
      (oneValue Config.empty.rootName "sobby".toList "port".toList ['6', '5', '2', '2']).entries := by
  have hport : isWhiteSpace ['6', '5', '2', '2'] = false := by decide
  exact loading_undoes_saving.1 Config.empty _ _ (Or.inl rfl)
    (oneValue_reachable Config.empty.rootName "sobby".toList "port".toList ['6', '5', '2', '2'])
    ⟨⟨hport, trivial⟩, trivial⟩
    (oneValue_rereads Config.empty.rootName "sobby".toList "port".toList (by decide)
      (by simp [ConfigTree.XmlChar]))

end ConfigEntries
