import Sobby.Strings
import Sobby.KeyedLists

/-! The configuration tree and its XML form. An element is a value when its first text is not
blank, and a parent otherwise; what is neither an element nor text is passed over. A name stands
for all its spellings that `Glib::ustring` takes for equal. -/
namespace ConfigTree

open Strings (Text)

inductive Node where
  | element (name : Text) (children : List Node)
  | text (content : Text)
  | comment (content : Text)
  | cdata (content : Text)

def Node.IsElement : Node → Prop
  | .element _ _ => True
  | _ => False

def Node.elementName : Node → Option Text
  | .element name _ => some name
  | _ => none

/-- `is_white_space`: blanks in the sense of XML. -/
def isWhiteSpace (s : Text) : Bool :=
  s.all fun c => c = ' ' || c = '\t' || c = '\n' || c = '\r'

/-- `get_child_text`: the first child that is a text node. -/
def getChildText : List Node → Option Text
  | [] => none
  | .text content :: _ => some content
  | _ :: children => getChildText children

/-- An entry carries no name of its own here: it is always the key it is stored under. -/
inductive Entry where
  | value (data : Text)
  | parent (children : List (Text × Entry))

/-- `m_map`. The order of the entries stands for no order of the names. -/
abbrev ParentEntry := List (Text × Entry)

/-- `m_map[name] = entry` -/
def put : ParentEntry → Text → Entry → ParentEntry
  | [], name, entry => [(name, entry)]
  | (n, e) :: m, name, entry =>
    if n = name then (name, entry) :: m else (n, e) :: put m name entry

def getChild : ParentEntry → Text → Option Entry
  | [], _ => none
  | (n, e) :: m, name => if n = name then some e else getChild m name

def getValueChild (m : ParentEntry) (name : Text) : Option Text :=
  match getChild m name with
  | some (.value data) => some data
  | _ => none

def getParentChild (m : ParentEntry) (name : Text) : Option ParentEntry :=
  match getChild m name with
  | some (.parent children) => some children
  | _ => none

def setParent (m : ParentEntry) (name : Text) : ParentEntry := put m name (.parent [])

def subParent (m : ParentEntry) (name : Text) : ParentEntry := (getParentChild m name).getD []

def onParent (m : ParentEntry) (name : Text) (f : ParentEntry → ParentEntry) : ParentEntry :=
  put m name (.parent (f (subParent m name)))

def setValue (m : ParentEntry) (name data : Text) : ParentEntry := put m name (.value data)

mutual

def loadChildren : List Node → ParentEntry → ParentEntry
  | [], m => m
  | n :: ns, m =>
    match loadChild n with
    | none => loadChildren ns m
    | some (name, entry) => loadChildren ns (put m name entry)

def loadChild : Node → Option (Text × Entry)
  | .element name children =>
    match getChildText children with
    | none => some (name, .parent (loadChildren children []))
    | some content =>
      if isWhiteSpace content then some (name, .parent (loadChildren children []))
      else some (name, .value content)
  | _ => none

end

mutual

def saveChildren : ParentEntry → List Node
  | [] => []
  | (name, entry) :: m => .element name (saveEntry entry) :: saveChildren m

/-- Setting the empty text adds no text node. -/
def saveEntry : Entry → List Node
  | .value data => if data = [] then [] else [.text data]
  | .parent children => saveChildren children

end

/-- `Config::Config` of a parsed document, which may lack a root node. -/
def load : Option Node → ParentEntry
  | some (.element _ children) => loadChildren children []
  | _ => []

def save (root : ParentEntry) : Node := .element "sobby_config".toList (saveChildren root)

def XmlChar (c : Char) : Prop :=
  c = '\t' ∨ c = '\n' ∨ c = '\r' ∨ (0x20 ≤ c.toNat ∧ c.toNat ≤ 0xFFFD) ∨ 0x10000 ≤ c.toNat

instance (c : Char) : Decidable (XmlChar c) :=
  inferInstanceAs (Decidable (_ ∨ _ ∨ _ ∨ _ ∨ _))

mutual

/-- What may be parsed from a document that was written: the same nodes, with blank text
between the children of a parent that has only elements as children. -/
inductive Rereads : Node → Node → Prop where
  | text {content : Text} (h : ∀ c ∈ content, XmlChar c) : Rereads (.text content) (.text content)
  | comment {content : Text} : Rereads (.comment content) (.comment content)
  | cdata {content : Text} : Rereads (.cdata content) (.cdata content)
  | element {name : Text} {written read : List Node} (h : RereadsAll written read) :
      Rereads (.element name written) (.element name read)
  | formatted {name : Text} {written read : List Node} (hne : written ≠ [])
      (hel : ∀ n ∈ written, n.IsElement) (h : RereadsSpaced written read) :
      Rereads (.element name written) (.element name read)

inductive RereadsAll : List Node → List Node → Prop where
  | nil : RereadsAll [] []
  | cons {n r : Node} {ns rs : List Node} (h : Rereads n r) (hs : RereadsAll ns rs) :
      RereadsAll (n :: ns) (r :: rs)

inductive RereadsSpaced : List Node → List Node → Prop where
  | nil : RereadsSpaced [] []
  | blank {content : Text} {ns rs : List Node} (hb : isWhiteSpace content = true)
      (hs : RereadsSpaced ns rs) : RereadsSpaced ns (.text content :: rs)
  | cons {n r : Node} {ns rs : List Node} (h : Rereads n r) (hs : RereadsSpaced ns rs) :
      RereadsSpaced (n :: ns) (r :: rs)

end

theorem put_eq_store (m : ParentEntry) (name : Text) (entry : Entry) :
    put m name entry = KeyedLists.store m name entry := by
  induction m with
  | nil => simp only [put, KeyedLists.store]
  | cons p m ih => simp only [put, KeyedLists.store, ih]

theorem getChild_eq_find (m : ParentEntry) (name : Text) :
    getChild m name = KeyedLists.find m name := by
  induction m with
  | nil => simp only [getChild, KeyedLists.find]
  | cons p m ih => simp only [getChild, KeyedLists.find, ih]

theorem getChild_put (m : ParentEntry) (name other : Text) (entry : Entry) :
    getChild (put m name entry) other = if name = other then some entry else getChild m other := by
  rw [getChild_eq_find, getChild_eq_find, put_eq_store, KeyedLists.find_store]

theorem loadChildren_eq_storeAll (ns : List Node) (m : ParentEntry) :
    loadChildren ns m = KeyedLists.storeAll (ns.filterMap loadChild) m := by
  induction ns generalizing m with
  | nil => simp only [loadChildren, List.filterMap_nil, KeyedLists.storeAll]
  | cons n ns ih =>
    cases hchild : loadChild n with
    | none => rw [loadChildren, hchild, List.filterMap_cons_none hchild, ih]
    | some p =>
      rw [List.filterMap_cons_some hchild, KeyedLists.storeAll, ← put_eq_store, ← ih, loadChildren,
        hchild]

theorem loadChild_element (name : Text) {children : List Node}
    (h : ∀ content, getChildText children = some content → isWhiteSpace content = true) :
    loadChild (.element name children) = some (name, .parent (loadChildren children [])) := by
  cases hc : getChildText children with
  | none => simp [loadChild, hc]
  | some content => simp [loadChild, hc, h content hc]

theorem loadChildren_text (content : Text) (ns : List Node) (m : ParentEntry) :
    loadChildren (.text content :: ns) m = loadChildren ns m := by
  simp [loadChildren, loadChild]

mutual

/-- The loader does not see the blank text that formatted output adds. -/
theorem loadChild_rereads {n r : Node} : Rereads n r → loadChild r = loadChild n
  | .text _ => rfl
  | .comment => rfl
  | .cdata => rfl
  | .element h => by
    obtain ⟨hload, htext⟩ := loadChildren_rereadsAll h
    simp only [loadChild, hload, htext]
  | .formatted _ hel h => by
    obtain ⟨hload, hnone, hblank⟩ := loadChildren_rereadsSpaced h hel
    rw [loadChild_element _ hblank, loadChild_element _ (by simp [hnone]), hload]

theorem loadChildren_rereadsAll {ns rs : List Node} : RereadsAll ns rs →
    (∀ m, loadChildren rs m = loadChildren ns m) ∧ getChildText rs = getChildText ns
  | .nil => ⟨fun _ => rfl, rfl⟩
  | .cons h hs => by
    have hchild := loadChild_rereads h
    obtain ⟨hload, htext⟩ := loadChildren_rereadsAll hs
    refine ⟨fun m => by simp only [loadChildren, hchild, hload], ?_⟩
    cases h <;> simp only [getChildText, htext]

theorem loadChildren_rereadsSpaced {ns rs : List Node} : RereadsSpaced ns rs →
    (∀ n ∈ ns, n.IsElement) →
    (∀ m, loadChildren rs m = loadChildren ns m) ∧ getChildText ns = none ∧
      ∀ content, getChildText rs = some content → isWhiteSpace content = true
  | .nil, _ => ⟨fun _ => rfl, rfl, fun _ h => by cases h⟩
  | .blank hb hs, hel => by
    obtain ⟨hload, hnone, _⟩ := loadChildren_rereadsSpaced hs hel
    refine ⟨fun m => by rw [loadChildren_text, hload], hnone, ?_⟩
    intro content hc
    cases hc
    exact hb
  | .cons h hs, hel => by
    have hchild := loadChild_rereads h
    obtain ⟨hload, hnone, hblank⟩ :=
      loadChildren_rereadsSpaced hs fun n hn => hel n (List.mem_cons_of_mem _ hn)
    have hfirst := hel _ List.mem_cons_self
    refine ⟨fun m => by simp only [loadChildren, hchild, hload], ?_, ?_⟩
    · cases h <;> first | exact hnone | exact hfirst.elim
    · cases h <;> first | exact hblank | exact hfirst.elim

end

def reloaded : Entry → Entry
  | .value data => if isWhiteSpace data then .parent [] else .value data
  | .parent children => .parent (loadChildren (saveChildren children) [])

theorem getChildText_saveChildren (m : ParentEntry) : getChildText (saveChildren m) = none := by
  induction m with
  | nil => simp [saveChildren, getChildText]
  | cons p m ih => simpa [saveChildren, getChildText] using ih

theorem loadChild_saveEntry (name : Text) (entry : Entry) :
    loadChild (.element name (saveEntry entry)) = some (name, reloaded entry) := by
  cases entry with
  | value data =>
    by_cases hd : data = []
    · subst hd
      simp [saveEntry, loadChild, getChildText, reloaded, isWhiteSpace, loadChildren]
    · by_cases hb : isWhiteSpace data = true
      · simp [saveEntry, hd, loadChild, getChildText, hb, reloaded, loadChildren]
      · simp [saveEntry, hd, loadChild, getChildText, hb, reloaded]
  | parent children =>
    rw [saveEntry, loadChild_element _ (by simp [getChildText_saveChildren]), reloaded]

mutual

/-- No name twice and no blank value, at any level. -/
def SurvivesSave : ParentEntry → Prop
  | [] => True
  | (name, entry) :: m => name ∉ KeyedLists.keys m ∧ EntrySurvives entry ∧ SurvivesSave m

def EntrySurvives : Entry → Prop
  | .value data => isWhiteSpace data = false
  | .parent children => SurvivesSave children

end

theorem survivesSave_nodup {m : ParentEntry} (h : SurvivesSave m) : (KeyedLists.keys m).Nodup := by
  induction m with
  | nil => exact List.nodup_nil
  | cons p m ih =>
    obtain ⟨hname, _, hm⟩ := h
    exact List.nodup_cons.mpr ⟨hname, ih hm⟩

theorem loadChildren_of_entries {ns : List Node} {m : ParentEntry}
    (h : ns.filterMap loadChild = m) (hnodup : (KeyedLists.keys m).Nodup) :
    loadChildren ns [] = m := by
  rw [loadChildren_eq_storeAll, h, KeyedLists.storeAll_of_nodup (by simpa using hnodup)]
  exact List.nil_append m

mutual

theorem reloaded_survives : (entry : Entry) → EntrySurvives entry → reloaded entry = entry
  | .value data, h => by
    have hdata : isWhiteSpace data = false := h
    simp [reloaded, hdata]
  | .parent children, h => by
    have hchildren := loadChild_saveChildren children h
    rw [reloaded, loadChildren_of_entries hchildren (survivesSave_nodup h)]

theorem loadChild_saveChildren : (m : ParentEntry) → SurvivesSave m →
    (saveChildren m).filterMap loadChild = m
  | [], _ => by simp [saveChildren]
  | (name, entry) :: m, h => by
    obtain ⟨_, hentry, hm⟩ := h
    rw [saveChildren, List.filterMap_cons_some (loadChild_saveEntry name entry),
      reloaded_survives entry hentry, loadChild_saveChildren m hm]

end

theorem load_save {m : ParentEntry} (h : SurvivesSave m) : loadChildren (saveChildren m) [] = m :=
  loadChildren_of_entries (loadChild_saveChildren m h) (survivesSave_nodup h)

theorem getChild_eq_none {m : ParentEntry} {name : Text} (h : name ∉ m.map Prod.fst) :
    getChild m name = none := by
  rw [getChild_eq_find]
  exact KeyedLists.find_eq_none.mpr h

theorem getChild_load_save {m : ParentEntry} (hnodup : (m.map Prod.fst).Nodup)
    (acc : ParentEntry) (name : Text) :
    getChild (loadChildren (saveChildren m) acc) name =
      ((getChild m name).map reloaded).or (getChild acc name) := by
  induction m generalizing acc with
  | nil => simp [saveChildren, loadChildren, getChild]
  | cons p m ih =>
    obtain ⟨n, e⟩ := p
    obtain ⟨hn, hm⟩ := List.nodup_cons.mp hnodup
    have hload : loadChildren (saveChildren ((n, e) :: m)) acc =
        loadChildren (saveChildren m) (put acc n (reloaded e)) := by
      rw [saveChildren, loadChildren, loadChild_saveEntry]
    rw [hload, ih hm, getChild_put]
    by_cases hname : n = name
    · subst hname
      have habs : getChild m n = none := getChild_eq_none hn
      simp [getChild, habs]
    · simp [getChild, hname]

theorem getChild_loadChildren {ns : List Node} {m : ParentEntry} {name : Text} {entry : Entry}
    (h : getChild (loadChildren ns m) name = some entry) :
    getChild m name = some entry ∨ ∃ n ∈ ns, loadChild n = some (name, entry) := by
  induction ns generalizing m with
  | nil => exact Or.inl (by simpa [loadChildren] using h)
  | cons n ns ih =>
    cases hchild : loadChild n with
    | none =>
      rw [loadChildren, hchild] at h
      rcases ih h with hm | ⟨n', hn', hl⟩
      · exact Or.inl hm
      · exact Or.inr ⟨n', List.mem_cons_of_mem n hn', hl⟩
    | some p =>
      obtain ⟨k, e⟩ := p
      rw [loadChildren, hchild] at h
      rcases ih h with hm | ⟨n', hn', hl⟩
      · rw [getChild_put] at hm
        split at hm
        · next hk =>
          cases hm
          exact Or.inr ⟨n, List.mem_cons_self, by rw [hchild, hk]⟩
        · exact Or.inl hm
      · exact Or.inr ⟨n', List.mem_cons_of_mem n hn', hl⟩

theorem load_rereads {root : ParentEntry} {read : Node} (h : Rereads (save root) read) :
    load (some read) = loadChildren (saveChildren root) [] := by
  cases h with
  | element h => exact (loadChildren_rereadsAll h).1 []
  | formatted _ hel h => exact (loadChildren_rereadsSpaced h hel).1 []

def Loaded (m : ParentEntry) : Prop := ∃ ns, m = loadChildren ns []

theorem loaded_load (doc : Option Node) : Loaded (load doc) := by
  have hempty : Loaded [] := ⟨[], by simp [loadChildren]⟩
  cases doc with
  | none => exact hempty
  | some n =>
    cases n with
    | element name children => exact ⟨children, rfl⟩
    | text content => exact hempty
    | comment content => exact hempty
    | cdata content => exact hempty

theorem loaded_value {m : ParentEntry} (hm : Loaded m) {name data : Text}
    (h : getValueChild m name = some data) : isWhiteSpace data = false := by
  obtain ⟨ns, rfl⟩ := hm
  have hget : getChild (loadChildren ns []) name = some (.value data) := by
    unfold getValueChild at h
    split at h
    · next d hd =>
      cases h
      exact hd
    · cases h
  rcases getChild_loadChildren hget with hnil | ⟨n, _, hn⟩
  · cases hnil
  · cases n with
    | element k children =>
      rw [loadChild] at hn
      split at hn
      · cases hn
      · split at hn
        · cases hn
        · next content _ hb =>
          cases hn
          simpa using hb
    | text content => cases hn
    | comment content => cases hn
    | cdata content => cases hn

theorem loaded_subParent {m : ParentEntry} (hm : Loaded m) (name : Text) :
    Loaded (subParent m name) := by
  obtain ⟨ns, rfl⟩ := hm
  have hempty : Loaded [] := ⟨[], by simp [loadChildren]⟩
  unfold subParent getParentChild
  split
  · next children hget =>
    rcases getChild_loadChildren hget with hnil | ⟨n, _, hn⟩
    · cases hnil
    · cases n with
      | element k grandchildren =>
        rw [loadChild] at hn
        split at hn
        · cases hn
          exact ⟨grandchildren, rfl⟩
        · split at hn
          · cases hn
            exact ⟨grandchildren, rfl⟩
          · cases hn
      | text content => cases hn
      | comment content => cases hn
      | cdata content => cases hn
  · exact hempty

end ConfigTree
