import Sobby.ConfigEntries
import Sobby.PathMaps

/-! The configuration tree under the operations of its parents. Read along paths of names it is a
path map, and what a read returns is told by the history of what was stored where. -/
namespace ConfigPaths

open StepMachine
open PathMaps
open ConfigEntries
open Strings (Text)
open KeyedLists (store find)

section Reads

variable {ε α : Type*}

def getValue (m : EntryMap) (name : Text) (fromString : Text → Except ε α) (default : α) :
    Except ε α :=
  match getValueChild m name with
  | some data => fromString data
  | none => .ok default

def parentAt : List Text → EntryMap → Option EntryMap
  | [], m => some m
  | key :: path, m => (getParentChild m key).bind (parentAt path)

def readPath (c : Config) (parent : List Text) (name : Text) (fromString : Text → Except ε α)
    (default : α) : Except ε α :=
  match parentAt parent c.entries with
  | some children => getValue children name fromString default
  | none => .ok default

end Reads

def cellAt : List Text → Option Entry → Cell Text
  | _, none => .absent
  | [], some (.value _ data) => .leaf data
  | [], some (.parent _ _) => .node
  | _ :: _, some (.value _ _) => .absent
  | key :: path, some (.parent _ children) => cellAt path (find children key)

theorem cellAt_none (path : List Text) : cellAt path none = .absent := by
  cases path with
  | nil => rfl
  | cons key path => rfl

theorem cellAt_closed {path : List Text} {name : Text} {entry : Option Entry}
    (h : cellAt (path ++ [name]) entry ≠ .absent) : cellAt path entry = .node := by
  induction path generalizing entry with
  | nil =>
    rcases entry with _ | _ | _
    · exact absurd (cellAt_none _) h
    · exact absurd rfl h
    · rfl
  | cons key path ih =>
    rcases entry with _ | _ | _
    · exact absurd (cellAt_none _) h
    · exact absurd rfl h
    · exact ih h

def pathMap (c : Config) : PathMap Text Text where
  cell path := cellAt path (some (.parent c.rootName c.entries))
  root := rfl
  closed _ _ h := cellAt_closed h

theorem getParentChild_eq_some {m children : EntryMap} {key : Text} :
    getParentChild m key = some children ↔ ∃ own, find m key = some (.parent own children) := by
  rcases hfind : find m key with _ | _ | ⟨own, children'⟩
  · simp [getParentChild, hfind]
  · simp [getParentChild, hfind]
  · simp [getParentChild, hfind]

theorem parentAt_cons {key : Text} {path : List Text} {m children : EntryMap} :
    parentAt (key :: path) m = some children ↔
      ∃ own below, find m key = some (.parent own below) ∧ parentAt path below = some children := by
  rw [parentAt, Option.bind_eq_some_iff]
  constructor
  · rintro ⟨below, hbelow, h⟩
    obtain ⟨own, hfind⟩ := getParentChild_eq_some.mp hbelow
    exact ⟨own, below, hfind, h⟩
  · rintro ⟨own, below, hfind, h⟩
    exact ⟨below, getParentChild_eq_some.mpr ⟨own, hfind⟩, h⟩

theorem parentAt_some {path : List Text} {m children : EntryMap} (h : parentAt path m = some children)
    (rootName name : Text) (rest : List Text) :
    cellAt (path ++ rest) (some (.parent rootName m)) =
      cellAt rest (some (.parent name children)) := by
  induction path generalizing m rootName with
  | nil =>
    obtain rfl := Option.some.inj h
    cases rest with
    | nil => rfl
    | cons key rest => rfl
  | cons key path ih =>
    obtain ⟨own, below, hfind, h⟩ := parentAt_cons.mp h
    rw [List.cons_append, cellAt, hfind]
    exact ih h own

theorem parentAt_none {path : List Text} {m : EntryMap} (h : parentAt path m = none)
    (rootName : Text) : cellAt path (some (.parent rootName m)) ≠ .node := by
  induction path generalizing m rootName with
  | nil => cases h
  | cons key path ih =>
    rw [cellAt]
    rcases hfind : find m key with _ | _ | ⟨own, children⟩
    · rw [cellAt_none]
      simp
    · cases path with
      | nil => simp [cellAt]
      | cons next path => simp [cellAt]
    · rw [parentAt, getParentChild_eq_some.mpr ⟨own, hfind⟩] at h
      exact ih h own

theorem readPath_eq {ε α : Type*} (c : Config) (parent : List Text) (name : Text)
    (fromString : Text → Except ε α) (default : α) :
    readPath c parent name fromString default =
      match (pathMap c).cell (parent ++ [name]) with
      | .leaf data => fromString data
      | _ => .ok default := by
  unfold readPath
  cases hparent : parentAt parent c.entries with
  | none =>
    have habsent : (pathMap c).cell (parent ++ [name]) = .absent := by
      by_contra hthere
      exact parentAt_none hparent c.rootName ((pathMap c).closed _ _ hthere)
    rw [habsent]
  | some children =>
    have hcell : (pathMap c).cell (parent ++ [name]) = cellAt [] (find children name) :=
      parentAt_some hparent c.rootName [] [name]
    rw [hcell]
    rcases hfind : find children name with _ | _ | _
    · simp [getValue, getValueChild, hfind, cellAt]
    · simp [getValue, getValueChild, hfind, cellAt]
    · simp [getValue, getValueChild, hfind, cellAt]

def opName : Op → Text
  | .index name => name
  | .setParent name => name
  | .setValue name _ => name
  | .supplyValue name _ => name

def opAction : Op → Action Text
  | .index _ => .ensureNode
  | .setParent _ => .freshNode
  | .setValue _ data => .setLeaf data
  | .supplyValue _ default => .supplyLeaf default

def event (e : List Text × Op) : Event Text Text := ⟨e.1, opName e.2, opAction e.2⟩

def freshEntry (name : Text) : Option Text → Entry
  | some data => .value name data
  | none => .parent name []

theorem applyOp_cases (m : EntryMap) (op : Op) :
    ((opAction op).writes (cellAt [] (find m (opName op))) = none ∧ applyOp m op = m) ∨
    ∃ x, (opAction op).writes (cellAt [] (find m (opName op))) = some x ∧
      applyOp m op = store m (opName op) (freshEntry (opName op) x) := by
  cases op with
  | index name =>
    rcases hfind : find m name with _ | _ | _
    · simp [opAction, opName, hfind, cellAt, Action.writes, applyOp, index, getParentChild,
        setParent, freshEntry]
    · simp [opAction, opName, hfind, cellAt, Action.writes, applyOp, index, getParentChild,
        setParent, freshEntry]
    · simp [opAction, opName, hfind, cellAt, Action.writes, applyOp, index, getParentChild]
  | setParent name => exact Or.inr ⟨none, rfl, rfl⟩
  | setValue name data => exact Or.inr ⟨some data, rfl, rfl⟩
  | supplyValue name default =>
    rcases hfind : find m name with _ | _ | _
    · simp [opAction, opName, hfind, cellAt, Action.writes, applyOp, supplyValue, getValueChild,
        setValue, freshEntry]
    · simp [opAction, opName, hfind, cellAt, Action.writes, applyOp, supplyValue, getValueChild]
    · simp [opAction, opName, hfind, cellAt, Action.writes, applyOp, supplyValue, getValueChild,
        setValue, freshEntry]

theorem cellAt_fresh (name : Text) (x : Option Text) (path : List Text) :
    cellAt path (some (freshEntry name x)) = if path = [] then Cell.fresh x else .absent := by
  cases path with
  | nil =>
    cases x with
    | none => rfl
    | some data => rfl
  | cons key path =>
    cases x with
    | none => exact cellAt_none path
    | some data => rfl

/-- The new entry takes the place of the old one and of everything below it. -/
theorem cellAt_store (m : EntryMap) (name rootName : Text) (x : Option Text) (path : List Text) :
    cellAt path (some (.parent rootName (store m name (freshEntry name x)))) =
      putCell (fun path => cellAt path (some (.parent rootName m))) [name] x path := by
  cases path with
  | nil => rfl
  | cons key path =>
    rw [cellAt, KeyedLists.find_store]
    by_cases hkey : name = key
    · subst hkey
      rw [if_pos rfl, cellAt_fresh]
      by_cases hpath : path = []
      · subst hpath
        rw [putCell_self, if_pos rfl]
      · rw [if_neg hpath, putCell_below (by simpa using hpath) (by simp)]
    · have hother : ¬ [name] <+: key :: path := by simpa [List.cons_prefix_cons] using hkey
      rw [if_neg hkey, putCell_other hother, cellAt]

theorem applyAt_none {op : Op} {path : List Text} {m : EntryMap} (h : parentAt path m = none) :
    applyAt op path m = none := by
  induction path generalizing m with
  | nil => cases h
  | cons key path ih =>
    rw [applyAt]
    split
    · next name children hfind =>
      rw [parentAt, getParentChild_eq_some.mpr ⟨name, hfind⟩] at h
      rw [ih h]
      rfl
    · rfl

theorem applyAt_some {op : Op} {path : List Text} {m children : EntryMap}
    (h : parentAt path m = some children) :
    ∃ m', applyAt op path m = some m' ∧ parentAt path m' = some (applyOp children op) ∧
      ∀ other, ¬ path <+: other → ∀ rootName,
        cellAt other (some (.parent rootName m')) = cellAt other (some (.parent rootName m)) := by
  induction path generalizing m with
  | nil =>
    obtain rfl := Option.some.inj h
    exact ⟨applyOp m op, rfl, rfl, fun other hno => absurd List.nil_prefix hno⟩
  | cons key path ih =>
    obtain ⟨own, below, hfind, h⟩ := parentAt_cons.mp h
    obtain ⟨m', happly, hparent, hothers⟩ := ih h
    refine ⟨store m key (.parent own m'), ?_, ?_, ?_⟩
    · simp only [applyAt, hfind, happly, Option.map_some]
    · refine parentAt_cons.mpr ⟨own, m', ?_, hparent⟩
      rw [KeyedLists.find_store, if_pos rfl]
    · intro other hno rootName
      cases other with
      | nil => rfl
      | cons next other =>
        rw [cellAt, cellAt, KeyedLists.find_store]
        by_cases hkey : key = next
        · subst hkey
          have hno' : ¬ path <+: other := by simpa [List.cons_prefix_cons] using hno
          rw [if_pos rfl, hfind]
          exact hothers other hno' own
        · rw [if_neg hkey]

theorem applyAt_cells {op : Op} {path : List Text} {m m' children : EntryMap} {rootName : Text}
    (h : parentAt path m = some children) (ha : applyAt op path m = some m') :
    ((opAction op).writes (cellAt (path ++ [opName op]) (some (.parent rootName m))) = none ∧
      ∀ other, cellAt other (some (.parent rootName m')) =
        cellAt other (some (.parent rootName m))) ∨
    ∃ x, (opAction op).writes (cellAt (path ++ [opName op]) (some (.parent rootName m))) = some x ∧
      ∀ other, cellAt other (some (.parent rootName m')) =
        putCell (fun path => cellAt path (some (.parent rootName m))) (path ++ [opName op]) x
          other := by
  obtain ⟨m'', ha', hparent, hothers⟩ := applyAt_some h
  obtain rfl := Option.some.inj (ha'.symm.trans ha)
  have hcell : cellAt (path ++ [opName op]) (some (.parent rootName m)) =
      cellAt [] (find children (opName op)) := parentAt_some h rootName [] _
  rw [hcell]
  rcases applyOp_cases children op with ⟨hwrites, hop⟩ | ⟨x, hwrites, hop⟩
  · refine Or.inl ⟨hwrites, fun other => ?_⟩
    by_cases hunder : path <+: other
    · obtain ⟨rest, rfl⟩ := hunder
      rw [parentAt_some hparent rootName [], parentAt_some h rootName [], hop]
    · exact hothers other hunder rootName
  · refine Or.inr ⟨x, hwrites, fun other => ?_⟩
    by_cases hunder : path <+: other
    · obtain ⟨rest, rfl⟩ := hunder
      rw [parentAt_some hparent rootName [], hop, cellAt_store, putCell_append]
      simp only [parentAt_some h rootName []]
    · have hno : ¬ path ++ [opName op] <+: other :=
        fun hbelow => hunder ((List.prefix_append _ _).trans hbelow)
      rw [putCell_other hno, hothers other hunder rootName]

/-- The nested maps refine the flat one, step by step. -/
theorem step_refines (c : Config) (e : List Text × Op) (writes : List (List Text × Option Text)) :
    (Config.step c e).map pathMap =
      (Recorded.step ⟨pathMap c, writes⟩ (event e)).map Recorded.tree := by
  obtain ⟨path, op⟩ := e
  cases hparent : parentAt path c.entries with
  | none =>
    have hcell : (pathMap c).cell path ≠ .node := parentAt_none hparent c.rootName
    have hrefused : Recorded.step ⟨pathMap c, writes⟩ (event (path, op)) = none := dif_neg hcell
    rw [hrefused, Config.step, applyAt_none hparent]
    rfl
  | some children =>
    have hcell : (pathMap c).cell path = .node := by
      have hnode := parentAt_some hparent c.rootName [] []
      rwa [List.append_nil] at hnode
    obtain ⟨m', happly, _⟩ := applyAt_some hparent
    rw [Config.step, happly]
    rcases applyAt_cells hparent happly with ⟨hwrites, hcells⟩ | ⟨x, hwrites, hcells⟩
    · have hstep : Recorded.step ⟨pathMap c, writes⟩ (event (path, op)) =
          some ⟨pathMap c, writes⟩ := step_keeps hcell hwrites
      have hsame : pathMap { c with entries := m' } = pathMap c := PathMap.ext (funext hcells)
      rw [hstep, Option.map_some, Option.map_some, Option.map_some, hsame]
    · have hstep : Recorded.step ⟨pathMap c, writes⟩ (event (path, op)) =
          some ⟨(pathMap c).put path (opName op) x hcell, _⟩ := step_writes hcell hwrites
      have hsame : pathMap { c with entries := m' } = (pathMap c).put path (opName op) x hcell :=
        PathMap.ext (funext hcells)
      rw [hstep, Option.map_some, Option.map_some, Option.map_some, hsame]

theorem run_refines {start c : Config} {es : List (List Text × Op)}
    (hr : run Config.step start es = some c) (writes : List (List Text × Option Text)) :
    ∃ r, run Recorded.step ⟨pathMap start, writes⟩ (es.map event) = some r ∧
      r.tree = pathMap c := by
  induction es generalizing start writes with
  | nil =>
    obtain rfl := Option.some.inj hr
    exact ⟨_, rfl, rfl⟩
  | cons e es ih =>
    obtain ⟨next, hnext, hr⟩ := run_cons_inv hr
    have hstep := step_refines start e writes
    rw [hnext, Option.map_some] at hstep
    obtain ⟨r, hr', htree⟩ := Option.map_eq_some_iff.mp hstep.symm
    obtain ⟨last, hlast, hsame⟩ := ih hr r.writes
    rw [← htree] at hlast
    exact ⟨last, by simp only [List.map_cons, run, hr', Option.bind_some]; exact hlast, hsame⟩

/-- Reads return what the history says was stored last, and the default where it says nothing. -/
structure ReadsLastStored (start : Config) (writes : List (List Text × Option Text)) (c : Config) :
    Prop where
  stored : ∀ parent name data, LastStored (pathMap start) writes (parent ++ [name]) data →
    ∀ {ε α : Type} (fromString : Text → Except ε α) (default : α),
      readPath c parent name fromString default = fromString data
  missing : ∀ parent name, (∀ data, ¬ LastStored (pathMap start) writes (parent ++ [name]) data) →
    ∀ {ε α : Type} (fromString : Text → Except ε α) (default : α),
      readPath c parent name fromString default = .ok default

def ChangesOwnPaths (c : Config) : Prop :=
  ∀ path op c', Config.step c (path, op) = some c' →
    ∀ parent name, ¬ path ++ [opName op] <+: parent ++ [name] →
      ∀ {ε α : Type} (fromString : Text → Except ε α) (default : α),
        readPath c' parent name fromString default = readPath c parent name fromString default

def IndexKeepsParents (c : Config) : Prop :=
  ∀ path name children, parentAt (path ++ [name]) c.entries = some children →
    Config.step c (path, .index name) = some c

theorem reads_of_tells {start c : Config} {r : Recorded Text Text} (htree : r.tree = pathMap c)
    (hr : Tells (pathMap start) r) : ReadsLastStored start r.writes c where
  stored parent name data hlast ε α fromString default := by
    have hleaf := (hr (parent ++ [name]) data).mpr hlast
    rw [readPath_eq, ← htree, hleaf]
  missing parent name hnone ε α fromString default := by
    rw [readPath_eq, ← htree]
    cases hcell : r.tree.cell (parent ++ [name]) with
    | absent => rfl
    | node => rfl
    | leaf data => exact absurd ((hr (parent ++ [name]) data).mp hcell) (hnone data)

theorem changes_own_paths (c : Config) : ChangesOwnPaths c := by
  intro path op c' hstep parent name hno ε α fromString default
  have hrefines := step_refines c (path, op) []
  rw [hstep, Option.map_some] at hrefines
  obtain ⟨r, hr, htree⟩ := Option.map_eq_some_iff.mp hrefines.symm
  have hcell : (pathMap c').cell (parent ++ [name]) = (pathMap c).cell (parent ++ [name]) := by
    rw [← htree]
    exact step_frame hr hno
  rw [readPath_eq, readPath_eq, hcell]

theorem index_keeps {path : List Text} {name : Text} {m children : EntryMap}
    (h : parentAt (path ++ [name]) m = some children) : applyAt (.index name) path m = some m := by
  induction path generalizing m with
  | nil =>
    obtain ⟨own, below, hfind, _⟩ := parentAt_cons.mp h
    simp only [applyAt, applyOp, index, getParentChild_eq_some.mpr ⟨own, hfind⟩]
  | cons key path ih =>
    obtain ⟨own, below, hfind, h⟩ := parentAt_cons.mp h
    simp only [applyAt, hfind, ih h, Option.map_some, KeyedLists.store_find hfind]

theorem index_keeps_parents (c : Config) : IndexKeepsParents c := by
  intro path name children hparent
  rw [Config.step, index_keeps hparent]
  rfl

/-- Every run of operations makes the tree the path map of its own history. -/
theorem config_is_path_map (start c : Config) (es : List (List Text × Op))
    (hr : run Config.step start es = some c) :
    (∃ r, run Recorded.step ⟨pathMap start, []⟩ (es.map event) = some r ∧ r.tree = pathMap c ∧
      ReadsLastStored start r.writes c) ∧ ChangesOwnPaths c ∧ IndexKeepsParents c := by
  obtain ⟨r, hrun, htree⟩ := run_refines hr []
  have htells := tells_reachable ⟨es.map event, hrun⟩
  exact ⟨⟨r, hrun, htree, reads_of_tells htree htells⟩, changes_own_paths c,
    index_keeps_parents c⟩

def portSet : List (List Text × Op) :=
  [([], .index "sobby".toList), (["sobby".toList], .setValue "port".toList "6522".toList)]

def portDropped : List (List Text × Op) := portSet ++ [([], .setParent "sobby".toList)]

theorem port_set_and_dropped :
    (∃ c, run Config.step Config.empty portSet = some c ∧
      ∀ fromString : Text → Except Text ℕ,
        readPath c ["sobby".toList] "port".toList fromString 0 = fromString "6522".toList) ∧
    ∃ c, run Config.step Config.empty portDropped = some c ∧
      ∀ fromString : Text → Except Text ℕ,
        readPath c ["sobby".toList] "port".toList fromString 0 = .ok 0 := by
  constructor
  · have hrun : run Config.step Config.empty portSet = some _ := rfl
    obtain ⟨⟨r, hr, _, hreads⟩, _⟩ := config_is_path_map Config.empty _ portSet hrun
    have hwrites : (run Recorded.step ⟨pathMap Config.empty, []⟩ (portSet.map event)).map
        Recorded.writes = some [(["sobby".toList, "port".toList], some "6522".toList),
          (["sobby".toList], none)] := by decide
    rw [hr, Option.map_some, Option.some_inj] at hwrites
    refine ⟨_, hrun, fun fromString => hreads.stored _ _ _ ?_ fromString 0⟩
    rw [hwrites]
    exact lastStored_cons.mpr (Or.inl rfl)
  · have hrun : run Config.step Config.empty portDropped = some _ := rfl
    obtain ⟨⟨r, hr, _, hreads⟩, _⟩ := config_is_path_map Config.empty _ portDropped hrun
    have hwrites : (run Recorded.step ⟨pathMap Config.empty, []⟩ (portDropped.map event)).map
        Recorded.writes = some [(["sobby".toList], none),
          (["sobby".toList, "port".toList], some "6522".toList), (["sobby".toList], none)] := by
      decide
    rw [hr, Option.map_some, Option.some_inj] at hwrites
    refine ⟨_, hrun, fun fromString => hreads.missing _ _ ?_ fromString 0⟩
    intro data hlast
    rw [hwrites] at hlast
    rcases lastStored_cons.mp hlast with hsame | ⟨hkept, _⟩
    · cases hsame
    · exact hkept (List.prefix_append _ _)

end ConfigPaths
