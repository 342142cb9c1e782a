import Sobby.StepMachine
import Sobby.UpdateHistory
import Sobby.PathNames
import Sobby.SessionBuffer

/-! The folder autosaver: one flag per document in `m_map`, and a save pass that walks the map
in the order of the addresses and writes every flagged document to a file of its own. -/
namespace FolderAutosave

open StepMachine
open UpdateHistory
open PathNames
open SessionBuffer
open Strings

abbrev FlagMap := Std.ExtTreeMap DocumentInfo Bool

/-- How opening and writing one output stream ends: the device takes the first bytes. -/
inductive StreamOutcome where
  | openFails
  | accepts (bytes : ℕ)
  deriving DecidableEq, Repr

structure Write where
  document : DocumentInfo
  path : Text
  stored : Text
  deriving DecidableEq, Repr

inductive Observation where
  | inserted (d : DocumentInfo)
  | removed (d : DocumentInfo)
  | changed (d : DocumentInfo)
  | wrote (write : Write)
  | signalError (what : Text)
  deriving DecidableEq, Repr

structure AutoSaveFolder where
  folder : Text
  connTimer : Option ℕ
  watched : Finset DocumentInfo
  map : FlagMap

def AutoSaveFolder.onDocumentInsert (f : AutoSaveFolder) (d : DocumentInfo) : AutoSaveFolder :=
  { f with map := f.map.insert d true, watched := insert d f.watched }

def AutoSaveFolder.onDocumentRemove (f : AutoSaveFolder) (d : DocumentInfo) : AutoSaveFolder :=
  { f with map := f.map.erase d }

def AutoSaveFolder.onDocumentChange (f : AutoSaveFolder) (d : DocumentInfo) : AutoSaveFolder :=
  { f with map := f.map.insert d true }

def AutoSaveFolder.create (buffer : ServerBuffer) (folder : Text) (interval : ℕ) :
    AutoSaveFolder :=
  buffer.documents.foldl AutoSaveFolder.onDocumentInsert
    { folder := folder
      connTimer := if 0 < interval then some (interval * 1000 % 2 ^ 32) else none
      watched := ∅
      map := ∅ }

/-- The part of the title behind the last slash. -/
def fileName (title : Text) : Text :=
  match rfind title '/' with
  | some pos => substr title (pos + 1)
  | none => title

def outputPath (folder title : Text) : Text := buildFilename folder (fileName title)

/-- `std::ofstream`: opening a directory for writing fails whatever the device says. -/
def openStream (title : Text) : StreamOutcome → Option ℕ
  | .openFails => none
  | .accepts bytes => if NamesDirectory (cString (fileName title)) then none else some bytes

def couldNotOpen (path : Text) : Text :=
  "Could not open output file '".toList ++ path ++ "' for writing".toList

structure Pass where
  map : FlagMap
  writes : List Write
  error : Option Text

/-- The loop over the remaining keys of `m_map`. The flag is cleared before the file is
opened, and the result of writing to the stream is not looked at. -/
def saveLoop (folder : Text) (buffer : ServerBuffer) (o : DocumentInfo → StreamOutcome) :
    List DocumentInfo → FlagMap → Pass
  | [], m => ⟨m, [], none⟩
  | d :: rest, m =>
    if m[d]? = some true then
      let m := m.insert d false
      let content := (buffer.document d).text
      let path := outputPath folder (buffer.document d).title
      match openStream (buffer.document d).title (o d) with
      | none => ⟨m, [], some (couldNotOpen path)⟩
      | some bytes =>
        let pass := saveLoop folder buffer o rest m
        { pass with writes := ⟨d, path, content.take bytes⟩ :: pass.writes }
    else saveLoop folder buffer o rest m

def AutoSaveFolder.pass (f : AutoSaveFolder) (buffer : ServerBuffer)
    (o : DocumentInfo → StreamOutcome) : Pass :=
  saveLoop f.folder buffer o f.map.keys f.map

def Pass.observations (p : Pass) : List Observation :=
  p.writes.map .wrote ++ (p.error.map .signalError).toList

def AutoSaveFolder.save (f : AutoSaveFolder) (buffer : ServerBuffer)
    (o : DocumentInfo → StreamOutcome) : AutoSaveFolder × List Observation :=
  let pass := f.pass buffer o
  ({ f with map := pass.map }, pass.observations)

def AutoSaveFolder.onTimer (f : AutoSaveFolder) (buffer : ServerBuffer)
    (o : DocumentInfo → StreamOutcome) : AutoSaveFolder × List Observation :=
  f.save buffer o

def AutoSaveFolder.disconnect (f : AutoSaveFolder) (d : DocumentInfo) : AutoSaveFolder :=
  { f with watched := f.watched.erase d }

def AutoSaveFolder.changedEvent (f : AutoSaveFolder) (d : DocumentInfo) : AutoSaveFolder :=
  if d ∈ f.watched then f.onDocumentChange d else f

abbrev Files := Location → Option FileContent

def filesAfter (cwd : Location) (files : Files) : List Observation → Files
  | [] => files
  | .wrote write :: rest =>
    filesAfter cwd
      (Function.update files (resolve cwd write.path) (some (.text write.stored))) rest
  | _ :: rest => filesAfter cwd files rest

structure World where
  buffer : ServerBuffer
  saver : AutoSaveFolder
  cwd : Location
  files : Files
  trace : List Observation

def start (buffer : ServerBuffer) (folder : Text) (interval : ℕ) (cwd : Location)
    (files : Files) : World :=
  ⟨buffer, .create buffer folder interval, cwd, files, []⟩

inductive Event where
  | insert (d : DocumentInfo) (doc : Document)
  | remove (d : DocumentInfo)
  | change (d : DocumentInfo) (text : Text)
  | save (o : DocumentInfo → StreamOutcome)
  | tick (o : DocumentInfo → StreamOutcome)

def World.perform (w : World) (r : AutoSaveFolder × List Observation) : World :=
  { w with
    saver := r.1
    files := filesAfter w.cwd w.files r.2
    trace := r.2.reverse ++ w.trace }

def step (w : World) : Event → Option World
  | .insert d doc =>
    (w.buffer.insert d doc).map fun b =>
      { w with buffer := b, saver := w.saver.onDocumentInsert d, trace := .inserted d :: w.trace }
  | .remove d =>
    (w.buffer.remove d).map fun b =>
      { w with
        buffer := b
        saver := (w.saver.onDocumentRemove d).disconnect d
        trace := .removed d :: w.trace }
  | .change d text =>
    (w.buffer.change d text).map fun b =>
      { w with buffer := b, saver := w.saver.changedEvent d, trace := .changed d :: w.trace }
  | .save o => some (w.perform (w.saver.save w.buffer o))
  | .tick o =>
    if w.saver.connTimer = none then none else some (w.perform (w.saver.onTimer w.buffer o))

def Completes (buffer : ServerBuffer) (o : DocumentInfo → StreamOutcome)
    (d : DocumentInfo) : Prop :=
  ∃ bytes, openStream (buffer.document d).title (o d) = some bytes ∧
    (buffer.document d).text.length ≤ bytes

def fullWrite (folder : Text) (buffer : ServerBuffer) (d : DocumentInfo) : Write :=
  ⟨d, outputPath folder (buffer.document d).title, (buffer.document d).text⟩

theorem getElem?_flag (m : FlagMap) (d k : DocumentInfo) (flag : Bool) :
    (m.insert d flag)[k]? = if k = d then some flag else m[k]? := by
  by_cases h : k = d
  · subst h
    simp
  · have hcmp : compare d k ≠ .eq := by simpa using fun he => h he.symm
    rw [Std.ExtTreeMap.getElem?_insert, if_neg hcmp, if_neg h]

theorem getElem?_clear_of_ne {m : FlagMap} {d k : DocumentInfo} (h : k ≠ d) :
    (m.insert d false)[k]? = m[k]? := by
  rw [getElem?_flag, if_neg h]

theorem mem_flag (m : FlagMap) (d k : DocumentInfo) (flag : Bool) :
    k ∈ m.insert d flag ↔ k = d ∨ k ∈ m := by
  rw [Std.ExtTreeMap.mem_insert, Std.LawfulEqCmp.compare_eq_iff_eq, eq_comm]

theorem mem_drop (m : FlagMap) (d k : DocumentInfo) : k ∈ m.erase d ↔ k ≠ d ∧ k ∈ m := by
  rw [Std.ExtTreeMap.mem_erase, ne_eq, Std.LawfulEqCmp.compare_eq_iff_eq, ne_comm]

section Loop

variable {folder : Text} {buffer : ServerBuffer} {o : DocumentInfo → StreamOutcome}

theorem saveLoop_unflagged {d : DocumentInfo} {m : FlagMap} (h : m[d]? ≠ some true)
    (rest : List DocumentInfo) :
    saveLoop folder buffer o (d :: rest) m = saveLoop folder buffer o rest m := by
  simp [saveLoop, h]

theorem saveLoop_fails {d : DocumentInfo} {m : FlagMap} (h : m[d]? = some true)
    (ho : openStream (buffer.document d).title (o d) = none) (rest : List DocumentInfo) :
    saveLoop folder buffer o (d :: rest) m =
      ⟨m.insert d false, [], some (couldNotOpen (outputPath folder (buffer.document d).title))⟩ := by
  simp [saveLoop, h, ho]

theorem saveLoop_writes {d : DocumentInfo} {m : FlagMap} {bytes : ℕ} (h : m[d]? = some true)
    (ho : openStream (buffer.document d).title (o d) = some bytes) (rest : List DocumentInfo) :
    saveLoop folder buffer o (d :: rest) m =
      let pass := saveLoop folder buffer o rest (m.insert d false)
      { pass with
        writes := ⟨d, outputPath folder (buffer.document d).title,
          (buffer.document d).text.take bytes⟩ :: pass.writes } := by
  simp [saveLoop, h, ho]

theorem saveLoop_map (l : List DocumentInfo) (m : FlagMap) (k : DocumentInfo) :
    (saveLoop folder buffer o l m).map[k]? = m[k]? ∨
      k ∈ l ∧ m[k]? = some true ∧ (saveLoop folder buffer o l m).map[k]? = some false := by
  induction l generalizing m with
  | nil => exact Or.inl rfl
  | cons d rest ih =>
    by_cases hd : m[d]? = some true
    · have hkey : (m.insert d false)[k]? = m[k]? ∨
          k = d ∧ m[k]? = some true ∧ (m.insert d false)[k]? = some false := by
        by_cases hk : k = d
        · subst hk
          exact Or.inr ⟨rfl, hd, by simp⟩
        · exact Or.inl (getElem?_clear_of_ne hk)
      cases ho : openStream (buffer.document d).title (o d) with
      | none =>
        rw [saveLoop_fails hd ho]
        rcases hkey with hk | ⟨rfl, hk⟩
        · exact Or.inl hk
        · exact Or.inr ⟨by simp, hk⟩
      | some bytes =>
        rw [saveLoop_writes hd ho]
        rcases ih (m.insert d false) with h | ⟨hmem, hflag, hclear⟩
        · rcases hkey with hk | ⟨rfl, hm, hk⟩
          · exact Or.inl (h.trans hk)
          · exact Or.inr ⟨by simp, hm, h.trans hk⟩
        · rcases hkey with hk | ⟨_, _, hk⟩
          · exact Or.inr ⟨by simp [hmem], hk ▸ hflag, hclear⟩
          · rw [hk] at hflag
            cases hflag
    · rw [saveLoop_unflagged hd]
      rcases ih m with h | ⟨hmem, h⟩
      · exact Or.inl h
      · exact Or.inr ⟨by simp [hmem], h⟩

theorem saveLoop_write (l : List DocumentInfo) (m : FlagMap) {write : Write}
    (h : write ∈ (saveLoop folder buffer o l m).writes) :
    ∃ d ∈ l, ∃ bytes, openStream (buffer.document d).title (o d) = some bytes ∧
      write = ⟨d, outputPath folder (buffer.document d).title,
        (buffer.document d).text.take bytes⟩ := by
  induction l generalizing m with
  | nil => cases h
  | cons d rest ih =>
    by_cases hd : m[d]? = some true
    · cases ho : openStream (buffer.document d).title (o d) with
      | none =>
        rw [saveLoop_fails hd ho] at h
        cases h
      | some bytes =>
        rw [saveLoop_writes hd ho] at h
        rcases List.mem_cons.mp h with rfl | h
        · exact ⟨d, List.mem_cons_self, bytes, ho, rfl⟩
        · obtain ⟨k, hk, hwrite⟩ := ih _ h
          exact ⟨k, List.mem_cons_of_mem d hk, hwrite⟩
    · rw [saveLoop_unflagged hd] at h
      obtain ⟨k, hk, hwrite⟩ := ih m h
      exact ⟨k, List.mem_cons_of_mem d hk, hwrite⟩

theorem saveLoop_write_mem (l : List DocumentInfo) (m : FlagMap) {write : Write}
    (h : write ∈ (saveLoop folder buffer o l m).writes) : write.document ∈ l := by
  obtain ⟨d, hd, _, _, rfl⟩ := saveLoop_write l m h
  exact hd

theorem saveLoop_cleared (rest : List DocumentInfo) (m : FlagMap) (d : DocumentInfo) :
    (saveLoop folder buffer o rest (m.insert d false)).map[d]? = some false := by
  have hd : (m.insert d false)[d]? = some false := by simp
  rcases @saveLoop_map folder buffer o rest (m.insert d false) d with h | ⟨_, _, h⟩
  · exact h.trans hd
  · exact h

/-- A pass in which every flagged document can be written clears all flags and writes each
flagged document once, with its whole text. -/
theorem saveLoop_complete {l : List DocumentInfo} {m : FlagMap} (hl : l.Nodup)
    (hc : ∀ d ∈ l, m[d]? = some true → Completes buffer o d) :
    (saveLoop folder buffer o l m).error = none ∧
      (saveLoop folder buffer o l m).writes =
        (l.filter fun d => m[d]? = some true).map (fullWrite folder buffer) ∧
      ∀ d ∈ l, (saveLoop folder buffer o l m).map[d]? ≠ some true := by
  induction l generalizing m with
  | nil => simp [saveLoop]
  | cons d rest ih =>
    obtain ⟨hd_rest, hrest⟩ := List.nodup_cons.mp hl
    by_cases hd : m[d]? = some true
    · obtain ⟨bytes, ho, hbytes⟩ := hc d (by simp) hd
      have hsame : ∀ k ∈ rest, (m.insert d false)[k]? = m[k]? := by
        intro k hk
        exact getElem?_clear_of_ne fun h => hd_rest (h ▸ hk)
      obtain ⟨herror, hwrites, hmap⟩ := ih (m := m.insert d false) hrest (by
        intro k hk hflag
        exact hc k (by simp [hk]) (hsame k hk ▸ hflag))
      rw [saveLoop_writes hd ho]
      refine ⟨herror, ?_, ?_⟩
      · have hfilter : (rest.filter fun k => (m.insert d false)[k]? = some true) =
            rest.filter fun k => m[k]? = some true :=
          List.filter_congr fun k hk => by rw [hsame k hk]
        simp [hwrites, hfilter, hd, fullWrite, List.take_of_length_le hbytes]
      · intro k hk
        rcases List.mem_cons.mp hk with rfl | hk
        · simp [saveLoop_cleared]
        · exact hmap k hk
    · rw [saveLoop_unflagged hd]
      obtain ⟨herror, hwrites, hmap⟩ := ih hrest fun k hk => hc k (by simp [hk])
      refine ⟨herror, by simp [hwrites, hd], ?_⟩
      intro k hk
      rcases List.mem_cons.mp hk with rfl | hk
      · rcases @saveLoop_map folder buffer o rest m k with h | ⟨_, _, h⟩
        · rw [h]
          exact hd
        · simp [h]
      · exact hmap k hk

/-- If a flagged document cannot be written completely, some flagged document loses its flag
in the pass without its whole text having been written. -/
theorem saveLoop_lost {l : List DocumentInfo} {m : FlagMap} (hl : l.Nodup)
    (hf : ∃ d ∈ l, m[d]? = some true ∧ ¬ Completes buffer o d) :
    ∃ d ∈ l, m[d]? = some true ∧ (saveLoop folder buffer o l m).map[d]? = some false ∧
      ∀ write ∈ (saveLoop folder buffer o l m).writes, write.document = d →
        write.stored ≠ (buffer.document d).text := by
  induction l generalizing m with
  | nil => simp at hf
  | cons d rest ih =>
    obtain ⟨hd_rest, hrest⟩ := List.nodup_cons.mp hl
    by_cases hd : m[d]? = some true
    · cases ho : openStream (buffer.document d).title (o d) with
      | none =>
        rw [saveLoop_fails hd ho]
        exact ⟨d, by simp, hd, by simp, by simp⟩
      | some bytes =>
        rw [saveLoop_writes hd ho]
        by_cases hbytes : (buffer.document d).text.length ≤ bytes
        · -- the head is written, so the failing document is further on
          obtain ⟨k, hk, hflag, hincomplete⟩ := hf
          have hne : k ≠ d := by
            rintro rfl
            exact hincomplete ⟨bytes, ho, hbytes⟩
          have hk : k ∈ rest := List.mem_of_ne_of_mem hne hk
          obtain ⟨x, hx, hxflag, hxmap, hxwrites⟩ := ih (m := m.insert d false) hrest
            ⟨k, hk, by rw [getElem?_clear_of_ne hne]; exact hflag, hincomplete⟩
          have hxd : x ≠ d := fun h => hd_rest (h ▸ hx)
          rw [getElem?_clear_of_ne hxd] at hxflag
          refine ⟨x, by simp [hx], hxflag, hxmap, ?_⟩
          intro write hw hdoc
          rcases List.mem_cons.mp hw with rfl | hw
          · exact absurd hdoc.symm hxd
          · exact hxwrites write hw hdoc
        · refine ⟨d, by simp, hd, saveLoop_cleared rest m d, ?_⟩
          intro write hw hdoc hstored
          rcases List.mem_cons.mp hw with rfl | hw
          · have hlen := congrArg List.length hstored
            simp only [List.length_take] at hlen
            omega
          · exact hd_rest (hdoc ▸ saveLoop_write_mem rest _ hw)
    · rw [saveLoop_unflagged hd]
      obtain ⟨k, hk, hflag, hincomplete⟩ := hf
      have hne : k ≠ d := by
        rintro rfl
        exact hd hflag
      have hk : k ∈ rest := List.mem_of_ne_of_mem hne hk
      obtain ⟨x, hx, hrest⟩ := ih hrest ⟨k, hk, hflag, hincomplete⟩
      exact ⟨x, by simp [hx], hrest⟩

end Loop

theorem mem_keys_of_flag {m : FlagMap} {d : DocumentInfo} {flag : Bool} (h : m[d]? = some flag) :
    d ∈ m.keys := by
  rw [Std.ExtTreeMap.mem_keys, Std.ExtTreeMap.mem_iff_isSome_getElem?, h]
  rfl

theorem wrote_mem {p : Pass} {write : Write} :
    .wrote write ∈ p.observations ↔ write ∈ p.writes := by
  simp [Pass.observations]

def Unsaved (w : World) (o : DocumentInfo → StreamOutcome) (d : DocumentInfo) : Prop :=
  w.saver.map[d]? = some true ∧
    ∀ write, .wrote write ∈ (w.saver.save w.buffer o).2 → write.document = d →
      write.stored ≠ (w.buffer.document d).text

/-- Asked of a pass with failures: unsaved documents keep their flag and an error is emitted
if there is one. -/
def PassRetries (w : World) (o : DocumentInfo → StreamOutcome) : Prop :=
  (∀ d, Unsaved w o d → (w.saver.save w.buffer o).1.map[d]? = some true) ∧
  ((∃ d, Unsaved w o d) → ∃ what, .signalError what ∈ (w.saver.save w.buffer o).2)

/-- A pass retries what it could not save exactly when there is nothing of the kind: every
flagged document can be opened and written whole. -/
theorem pass_retries_iff_completes (w : World) (o : DocumentInfo → StreamOutcome) :
    PassRetries w o ↔ ∀ d, w.saver.map[d]? = some true → Completes w.buffer o d := by
  have hnodup : w.saver.map.keys.Nodup := Std.ExtTreeMap.nodup_keys
  constructor
  · rintro ⟨hretry, _⟩ d hflag
    by_contra hincomplete
    obtain ⟨x, _, hxflag, hxmap, hxwrites⟩ := @saveLoop_lost w.saver.folder w.buffer o _ _ hnodup
      ⟨d, mem_keys_of_flag hflag, hflag, hincomplete⟩
    have hunsaved : Unsaved w o x :=
      ⟨hxflag, fun write hw hdoc => hxwrites write (wrote_mem.mp hw) hdoc⟩
    have hkept : (saveLoop w.saver.folder w.buffer o w.saver.map.keys w.saver.map).map[x]? =
        some true := hretry x hunsaved
    rw [hxmap] at hkept
    cases hkept
  · intro hall
    obtain ⟨_, hwrites, _⟩ := @saveLoop_complete w.saver.folder w.buffer o _ _ hnodup
      fun d _ hflag => hall d hflag
    have hnone : ∀ d, ¬ Unsaved w o d := by
      rintro d ⟨hflag, hunwritten⟩
      have hmem : fullWrite w.saver.folder w.buffer d ∈ (w.saver.pass w.buffer o).writes := by
        rw [AutoSaveFolder.pass, hwrites]
        exact List.mem_map_of_mem (by simpa [hflag] using mem_keys_of_flag hflag)
      exact hunwritten _ (wrote_mem.mpr hmem) rfl rfl
    exact ⟨fun d hd => (hnone d hd).elim, fun ⟨d, hd⟩ => (hnone d hd).elim⟩

def notes : ServerBuffer where
  documents := [1]
  document := fun _ => ⟨"notes".toList, "text".toList⟩
  nodup := one_nodup

def notesStart : World := start notes "out".toList 60 [] fun _ => none

def acceptsAll : DocumentInfo → StreamOutcome := fun _ => .accepts 1000

/-- The file cannot be opened once: the flag is gone, and the next tick writes nothing. A
full disk is not even reported. -/
theorem failed_write_is_forgotten :
    (∃ w, run step notesStart [.save fun _ => .openFails] = some w ∧
      w.saver.map[1]? = some false ∧ w.files ["out".toList, "notes".toList] = none ∧
      (w.saver.onTimer w.buffer acceptsAll).2 = []) ∧
    (notesStart.saver.save notes fun _ => .accepts 2).2 =
      [.wrote ⟨1, "out/notes".toList, "te".toList⟩] ∧
    ¬ PassRetries notesStart fun _ => .openFails := by
  refine ⟨⟨_, rfl, by decide, rfl, by decide⟩, by decide, ?_⟩
  rintro ⟨hretry, _⟩
  have hobs : (notesStart.saver.save notesStart.buffer fun _ => .openFails).2 =
      [.signalError (couldNotOpen "out/notes".toList)] := by decide
  have hunsaved : Unsaved notesStart (fun _ => .openFails) 1 := by
    refine ⟨by decide, fun write hw => ?_⟩
    rw [hobs] at hw
    simp at hw
  exact absurd (hretry 1 hunsaved) (by decide)

theorem create_insertions (documents : List DocumentInfo) (f : AutoSaveFolder)
    (k : DocumentInfo) :
    ((documents.foldl AutoSaveFolder.onDocumentInsert f).map[k]? =
        if k ∈ documents then some true else f.map[k]?) ∧
      (k ∈ (documents.foldl AutoSaveFolder.onDocumentInsert f).watched ↔
        k ∈ documents ∨ k ∈ f.watched) := by
  induction documents generalizing f with
  | nil => simp
  | cons d documents ih =>
    obtain ⟨hm, hw⟩ := ih (f.onDocumentInsert d)
    rw [List.foldl_cons, hm, hw]
    constructor
    · by_cases hk : k ∈ documents
      · simp [hk]
      · simp [hk, AutoSaveFolder.onDocumentInsert, getElem?_flag]
    · simp only [AutoSaveFolder.onDocumentInsert, Finset.mem_insert, List.mem_cons]
      tauto

/-- Everything a step can do, guards included. A tick and a save are the same pass. -/
theorem step_cases {w w' : World} {e : Event} (h : step w e = some w') :
    (∃ d doc b, e = .insert d doc ∧ w.buffer.insert d doc = some b ∧
      w' = { w with
        buffer := b, saver := w.saver.onDocumentInsert d, trace := .inserted d :: w.trace }) ∨
    (∃ d b, e = .remove d ∧ w.buffer.remove d = some b ∧
      w' = { w with
        buffer := b
        saver := (w.saver.onDocumentRemove d).disconnect d
        trace := .removed d :: w.trace }) ∨
    (∃ d text b, e = .change d text ∧ w.buffer.change d text = some b ∧
      w' = { w with
        buffer := b, saver := w.saver.changedEvent d, trace := .changed d :: w.trace }) ∨
    (∃ o, (e = .save o ∨ e = .tick o) ∧ w' = w.perform (w.saver.save w.buffer o)) := by
  cases e with
  | insert d doc =>
    obtain ⟨b, hb, rfl⟩ := Option.map_eq_some_iff.mp h
    exact Or.inl ⟨d, doc, b, rfl, hb, rfl⟩
  | remove d =>
    obtain ⟨b, hb, rfl⟩ := Option.map_eq_some_iff.mp h
    exact Or.inr (Or.inl ⟨d, b, rfl, hb, rfl⟩)
  | change d text =>
    obtain ⟨b, hb, rfl⟩ := Option.map_eq_some_iff.mp h
    exact Or.inr (Or.inr (Or.inl ⟨d, text, b, rfl, hb, rfl⟩))
  | save o =>
    obtain rfl := Option.some.inj h
    exact Or.inr (Or.inr (Or.inr ⟨o, Or.inl rfl, rfl⟩))
  | tick o =>
    simp only [step] at h
    split at h
    · cases h
    · obtain rfl := Option.some.inj h
      exact Or.inr (Or.inr (Or.inr ⟨o, Or.inr rfl, rfl⟩))

/-- What every run keeps, failures included: the map has exactly the documents of the session
as keys, and each of them is watched. -/
structure Keyed (w : World) : Prop where
  keys : ∀ d, d ∈ w.saver.map ↔ d ∈ w.buffer.documents
  watched : ∀ d ∈ w.buffer.documents, d ∈ w.saver.watched

theorem start_flags (buffer : ServerBuffer) (folder : Text) (interval : ℕ) (cwd : Location)
    (files : Files) (d : DocumentInfo) :
    (start buffer folder interval cwd files).saver.map[d]? =
      if d ∈ buffer.documents then some true else none := by
  rw [start, AutoSaveFolder.create, (create_insertions buffer.documents _ d).1]
  simp

theorem start_keyed (buffer : ServerBuffer) (folder : Text) (interval : ℕ) (cwd : Location)
    (files : Files) : Keyed (start buffer folder interval cwd files) where
  keys := by
    intro d
    rw [Std.ExtTreeMap.mem_iff_isSome_getElem?, start_flags]
    simp [start]
  watched := by
    intro d hd
    exact (create_insertions buffer.documents _ d).2.mpr (Or.inl hd)

theorem pass_keys (f : AutoSaveFolder) (buffer : ServerBuffer) (o : DocumentInfo → StreamOutcome)
    (d : DocumentInfo) : d ∈ (f.save buffer o).1.map ↔ d ∈ f.map := by
  have hmap := @saveLoop_map f.folder buffer o f.map.keys f.map d
  rw [Std.ExtTreeMap.mem_iff_isSome_getElem?, Std.ExtTreeMap.mem_iff_isSome_getElem?]
  rcases hmap with h | ⟨_, hflag, h⟩
  · exact iff_of_eq (congrArg (fun v => v.isSome = true) h)
  · have hcleared : (f.save buffer o).1.map[d]? = some false := h
    simp [hflag, hcleared]

theorem changedEvent_watched {f : AutoSaveFolder} {d : DocumentInfo} (hd : d ∈ f.watched) :
    f.changedEvent d = f.onDocumentChange d :=
  if_pos hd

theorem changedEvent_folder (f : AutoSaveFolder) (d : DocumentInfo) :
    (f.changedEvent d).folder = f.folder := by
  unfold AutoSaveFolder.changedEvent
  split
  · rfl
  · rfl

theorem Keyed.flag_mem {w : World} (hw : Keyed w) {d : DocumentInfo} {flag : Bool}
    (h : w.saver.map[d]? = some flag) : d ∈ w.buffer.documents := by
  rw [← hw.keys d, Std.ExtTreeMap.mem_iff_isSome_getElem?, h]
  rfl

theorem Keyed.flag {w : World} (hw : Keyed w) {d : DocumentInfo} (hd : d ∈ w.buffer.documents)
    (flag : Bool) (k : DocumentInfo) :
    k ∈ w.saver.map.insert d flag ↔ k ∈ w.buffer.documents := by
  have hdk : k = d → k ∈ w.buffer.documents := fun h => h ▸ hd
  rw [mem_flag, hw.keys k]
  exact or_iff_right_of_imp hdk

theorem keyed_step (w : World) (e : Event) (w' : World) (hw : Keyed w)
    (h : step w e = some w') : Keyed w' := by
  obtain ⟨d, doc, b, rfl, hb, rfl⟩ | ⟨d, b, rfl, hb, rfl⟩ | ⟨d, text, b, rfl, hb, rfl⟩ |
    ⟨o, _, rfl⟩ := step_cases h
  · obtain ⟨_, hdocs, _⟩ := insert_spec hb
    constructor
    · intro k
      simp only [hdocs, AutoSaveFolder.onDocumentInsert, mem_flag, hw.keys k, List.mem_append,
        List.mem_singleton, or_comm]
    · intro k hk
      simp only [hdocs, List.mem_append, List.mem_singleton] at hk
      rcases hk with hk | rfl
      · exact Finset.mem_insert_of_mem (hw.watched k hk)
      · exact Finset.mem_insert_self k _
  · obtain ⟨_, hdocs, _⟩ := remove_spec hb
    constructor
    · intro k
      simp only [hdocs, AutoSaveFolder.onDocumentRemove, AutoSaveFolder.disconnect, mem_drop,
        hw.keys k, w.buffer.nodup.mem_erase_iff]
    · intro k hk
      rw [hdocs, w.buffer.nodup.mem_erase_iff] at hk
      exact Finset.mem_erase.mpr ⟨hk.1, hw.watched k hk.2⟩
  · obtain ⟨hd, hdocs, _⟩ := change_spec hb
    rw [changedEvent_watched (hw.watched d hd)]
    constructor
    · intro k
      rw [hdocs]
      exact hw.flag hd true k
    · intro k hk
      exact hw.watched k (hdocs ▸ hk)
  · exact ⟨fun k => (pass_keys w.saver w.buffer o k).trans (hw.keys k), hw.watched⟩

/-- How the history counts for one document: insertions and changes touch it, and a write
brings the stored text to its file. -/
def documentReading : Reading Observation DocumentInfo Text where
  touches
    | .inserted d, k | .changed d, k => decide (d = k)
    | _, _ => false
  flushed
    | .wrote write, k => if write.document = k then some write.stored else none
    | _, _ => none

/-- The invariant of the runs in which every open and every write succeeds. -/
structure Kept (w : World) : Prop extends Keyed w where
  tracks : ∀ d ∈ w.buffer.documents,
    documentReading.Tracks (fun k => decide (w.saver.map[k]? = some true)) w.trace d
  coherent : ∀ d ∈ w.buffer.documents,
    documentReading.Coherent (fun k => (w.buffer.document k).text) w.trace d

def PassSucceeds (w : World) (e : Event) : Prop :=
  ∀ o, e = .save o ∨ e = .tick o →
    ∀ d, w.saver.map[d]? = some true → Completes w.buffer o d

theorem start_kept (buffer : ServerBuffer) (folder : Text) (interval : ℕ) (cwd : Location)
    (files : Files) : Kept (start buffer folder interval cwd files) where
  toKeyed := start_keyed buffer folder interval cwd files
  tracks := by
    intro d hd
    have hflag : (start buffer folder interval cwd files).saver.map[d]? = some true :=
      (start_flags buffer folder interval cwd files d).trans (if_pos hd)
    exact iff_of_true (by simpa using hflag) trivial
  coherent := fun d _ h => (h trivial).elim

theorem complete_writes {f : AutoSaveFolder} {buffer : ServerBuffer}
    {o : DocumentInfo → StreamOutcome}
    (hc : ∀ d, f.map[d]? = some true → Completes buffer o d) :
    (f.save buffer o).2 =
      (f.map.keys.filter fun d => f.map[d]? = some true).map
        fun d => .wrote (fullWrite f.folder buffer d) := by
  have hnodup : f.map.keys.Nodup := Std.ExtTreeMap.nodup_keys
  obtain ⟨herror, hwrites, _⟩ := @saveLoop_complete f.folder buffer o _ f.map hnodup
    fun d _ hflag => hc d hflag
  simp [AutoSaveFolder.save, AutoSaveFolder.pass, Pass.observations, herror, hwrites]

theorem mem_complete_writes {f : AutoSaveFolder} {buffer : ServerBuffer}
    {o : DocumentInfo → StreamOutcome}
    (hc : ∀ d, f.map[d]? = some true → Completes buffer o d) (ob : Observation) :
    ob ∈ (f.save buffer o).2 ↔
      ∃ d, f.map[d]? = some true ∧ ob = .wrote (fullWrite f.folder buffer d) := by
  rw [complete_writes hc]
  simp only [List.mem_map, List.mem_filter, decide_eq_true_eq]
  constructor
  · rintro ⟨d, ⟨_, hflag⟩, rfl⟩
    exact ⟨d, hflag, rfl⟩
  · rintro ⟨d, hflag, rfl⟩
    exact ⟨d, ⟨mem_keys_of_flag hflag, hflag⟩, rfl⟩

theorem complete_clears {f : AutoSaveFolder} {buffer : ServerBuffer}
    {o : DocumentInfo → StreamOutcome}
    (hc : ∀ d, f.map[d]? = some true → Completes buffer o d) {d : DocumentInfo}
    (hd : d ∈ f.map) : (f.save buffer o).1.map[d]? = some false := by
  have hnodup : f.map.keys.Nodup := Std.ExtTreeMap.nodup_keys
  obtain ⟨_, _, hmap⟩ := @saveLoop_complete f.folder buffer o _ f.map hnodup
    fun d _ hflag => hc d hflag
  have hkey : d ∈ (f.save buffer o).1.map := (pass_keys f buffer o d).mpr hd
  rw [Std.ExtTreeMap.mem_iff_isSome_getElem?, Option.isSome_iff_exists] at hkey
  obtain ⟨flag, hflag⟩ := hkey
  have hne : (f.save buffer o).1.map[d]? ≠ some true :=
    hmap d (Std.ExtTreeMap.mem_keys.mpr hd)
  cases flag with
  | false => exact hflag
  | true => exact absurd hflag hne

section CompletePass

variable {f : AutoSaveFolder} {buffer : ServerBuffer} {o : DocumentInfo → StreamOutcome}

theorem complete_touches (hc : ∀ d, f.map[d]? = some true → Completes buffer o d) (k : DocumentInfo)
    (ob : Observation) (hob : ob ∈ (f.save buffer o).2.reverse) :
    documentReading.touches ob k = false := by
  obtain ⟨d, _, rfl⟩ := (mem_complete_writes hc ob).mp (List.mem_reverse.mp hob)
  rfl

theorem complete_skips (hc : ∀ d, f.map[d]? = some true → Completes buffer o d) {k : DocumentInfo}
    (hk : f.map[k]? ≠ some true) (ob : Observation) (hob : ob ∈ (f.save buffer o).2.reverse) :
    documentReading.touches ob k = false ∧ documentReading.flushed ob k = none := by
  refine ⟨complete_touches hc k ob hob, ?_⟩
  obtain ⟨d, hflag, rfl⟩ := (mem_complete_writes hc ob).mp (List.mem_reverse.mp hob)
  have hdk : d ≠ k := fun h => hk (h ▸ hflag)
  simp [documentReading, fullWrite, hdk]

theorem complete_flushes (hc : ∀ d, f.map[d]? = some true → Completes buffer o d) {k : DocumentInfo}
    (hk : f.map[k]? = some true) (trace : List Observation) :
    ¬ documentReading.Pending ((f.save buffer o).2.reverse ++ trace) k ∧
      documentReading.lastFlushed ((f.save buffer o).2.reverse ++ trace) k =
        some (buffer.document k).text := by
  refine flushed_append (complete_touches hc k)
    ⟨_, List.mem_reverse.mpr ((mem_complete_writes hc _).mpr ⟨k, hk, rfl⟩), ?_⟩ ?_ trace
  · simp [documentReading, fullWrite]
  · intro ob hob v hv
    obtain ⟨d, _, rfl⟩ := (mem_complete_writes hc ob).mp (List.mem_reverse.mp hob)
    by_cases hdk : d = k
    · subst hdk
      simpa [documentReading, fullWrite] using hv.symm
    · simp [documentReading, fullWrite, hdk] at hv

end CompletePass

theorem pass_kept {w : World} (hw : Kept w) {o : DocumentInfo → StreamOutcome}
    (hc : ∀ d, w.saver.map[d]? = some true → Completes w.buffer o d) :
    Kept (w.perform (w.saver.save w.buffer o)) := by
  have hkeyed : Keyed (w.perform (w.saver.save w.buffer o)) :=
    ⟨fun k => (pass_keys w.saver w.buffer o k).trans (hw.keys k), hw.watched⟩
  refine { toKeyed := hkeyed, tracks := ?_, coherent := ?_ }
  · intro k hk
    have hclear := complete_clears hc ((hw.keys k).mpr hk)
    apply iff_of_false
    · simp [World.perform, hclear]
    · by_cases hflag : w.saver.map[k]? = some true
      · exact (complete_flushes hc hflag w.trace).1
      · intro hpend
        have hold := (pending_append_skip (complete_skips hc hflag) w.trace).mp hpend
        exact hflag (by simpa using (hw.tracks k hk).mpr hold)
  · intro k hk
    by_cases hflag : w.saver.map[k]? = some true
    · exact fun _ => (complete_flushes hc hflag w.trace).2
    · intro hpend
      have hold := hw.coherent k hk fun h =>
        hpend ((pending_append_skip (complete_skips hc hflag) w.trace).mpr h)
      have hlast := lastFlushed_append_skip (fun ob hob => (complete_skips hc hflag ob hob).2)
        w.trace
      exact hlast.trans hold

theorem inserted_touches (d : DocumentInfo) : documentReading.TouchesOnly (.inserted d) d := by
  intro k
  simp [documentReading, eq_comm]

theorem changed_touches (d : DocumentInfo) : documentReading.TouchesOnly (.changed d) d := by
  intro k
  simp [documentReading, eq_comm]

theorem kept_step (w : World) (e : Event) (w' : World) (hw : Kept w) (hs : PassSucceeds w e)
    (h : step w e = some w') : Kept w' := by
  have hkeyed := keyed_step w e w' hw.toKeyed h
  obtain ⟨d, doc, b, rfl, hb, rfl⟩ | ⟨d, b, rfl, hb, rfl⟩ | ⟨d, text, b, rfl, hb, rfl⟩ |
    ⟨o, he, rfl⟩ := step_cases h
  · obtain ⟨_, hdocs, hdoc⟩ := insert_spec hb
    have hold : ∀ k ∈ b.documents, k ≠ d → k ∈ w.buffer.documents := by
      intro k hk hkd
      simpa [hdocs, hkd] using hk
    refine { toKeyed := hkeyed, tracks := ?_, coherent := ?_ }
    · intro k hk
      refine tracks_cons_touched (inserted_touches d) ?_ (fun hkd => ?_)
        fun hkd => hw.tracks k (hold k hk hkd)
      · simp [AutoSaveFolder.onDocumentInsert]
      · simp [AutoSaveFolder.onDocumentInsert, getElem?_flag, hkd]
    · intro k hk
      refine coherent_cons_touched (inserted_touches d) (fun hkd => ?_)
        fun hkd => hw.coherent k (hold k hk hkd)
      simp [hdoc, hkd]
  · obtain ⟨_, hdocs, hdoc⟩ := remove_spec hb
    have hold : ∀ k ∈ b.documents, k ≠ d ∧ k ∈ w.buffer.documents := by
      intro k hk
      rwa [hdocs, w.buffer.nodup.mem_erase_iff] at hk
    refine { toKeyed := hkeyed, tracks := ?_, coherent := ?_ }
    · intro k hk
      obtain ⟨hkd, hk⟩ := hold k hk
      refine tracks_cons (hw.tracks k hk) (fun ht => by cases ht) (fun _ _ hv => by cases hv)
        fun _ _ => ?_
      have hsame : (w.saver.map.erase d)[k]? = w.saver.map[k]? := by
        rw [Std.ExtTreeMap.getElem?_erase, if_neg]
        simpa using hkd.symm
      simp only [AutoSaveFolder.onDocumentRemove, AutoSaveFolder.disconnect, hsame]
    · intro k hk
      exact coherent_cons (hw.coherent k (hold k hk).2) (fun _ _ => by rw [hdoc])
        fun _ _ hv => by cases hv
  · obtain ⟨hd, hdocs, hdoc⟩ := change_spec hb
    rw [changedEvent_watched (hw.watched d hd)] at hkeyed ⊢
    refine { toKeyed := hkeyed, tracks := ?_, coherent := ?_ }
    · intro k hk
      refine tracks_cons_touched (changed_touches d) ?_ (fun hkd => ?_)
        fun _ => hw.tracks k (hdocs ▸ hk)
      · simp [AutoSaveFolder.onDocumentChange]
      · simp [AutoSaveFolder.onDocumentChange, getElem?_flag, hkd]
    · intro k hk
      refine coherent_cons_touched (changed_touches d) (fun hkd => ?_)
        fun _ => hw.coherent k (hdocs ▸ hk)
      simp [hdoc, hkd]
  · exact pass_kept hw (hs o he)

/-- Asked of every state: the map follows the session, a clear flag means that the last text
written for the document is current, and a pass that can write leaves every flag clear after
writing each document that waits for it once, with its current text. -/
def NoUpdateLost (w : World) : Prop :=
  (∀ d, d ∈ w.saver.map ↔ d ∈ w.buffer.documents) ∧
  (∀ d, w.saver.map[d]? = some false →
    documentReading.lastFlushed w.trace d = some (w.buffer.document d).text) ∧
  ∀ o, (∀ d, w.saver.map[d]? = some true → Completes w.buffer o d) →
    (∀ d ∈ w.buffer.documents, (w.saver.save w.buffer o).1.map[d]? = some false) ∧
    ∀ d ∈ w.buffer.documents, documentReading.Pending w.trace d →
      (w.saver.save w.buffer o).2.count (.wrote (fullWrite w.saver.folder w.buffer d)) = 1 ∧
      ∀ write, .wrote write ∈ (w.saver.save w.buffer o).2 → write.document = d →
        write = fullWrite w.saver.folder w.buffer d

theorem Kept.noUpdateLost {w : World} (hw : Kept w) : NoUpdateLost w := by
  refine ⟨hw.keys, ?_, ?_⟩
  · intro d hclear
    have hd : d ∈ w.buffer.documents := by
      rw [← hw.keys d, Std.ExtTreeMap.mem_iff_isSome_getElem?, hclear]
      rfl
    exact clean_is_backed (hw.tracks d hd) (hw.coherent d hd) (by simp [hclear])
  · intro o hc
    refine ⟨fun d hd => complete_clears hc ((hw.keys d).mpr hd), fun d hd hpend => ⟨?_, ?_⟩⟩
    · have hflag : w.saver.map[d]? = some true := by simpa using (hw.tracks d hd).mpr hpend
      refine List.count_eq_one_of_mem ?_ ((mem_complete_writes hc _).mpr ⟨d, hflag, rfl⟩)
      rw [complete_writes hc]
      have hnodup : w.saver.map.keys.Nodup := Std.ExtTreeMap.nodup_keys
      refine (hnodup.filter _).map ?_
      intro a b hab
      simpa [fullWrite] using congrArg (fun | .wrote write => write.document | _ => 0) hab
    · intro write hw' hdoc
      obtain ⟨k, _, hk⟩ := (mem_complete_writes hc _).mp hw'
      obtain rfl := Observation.wrote.inj hk
      obtain rfl : k = d := hdoc
      rfl

/-- Along every run in which no open and no write fails, the folder saver loses no update. -/
theorem folder_saver_loses_no_update (buffer : ServerBuffer) (folder : Text) (interval : ℕ)
    (cwd : Location) (files : Files) (es : List Event)
    (hs : EveryStep step PassSucceeds (start buffer folder interval cwd files) es) :
    Always step NoUpdateLost (start buffer folder interval cwd files) es :=
  always_mono (fun _ hw => hw.noUpdateLost)
    (always_of_invariant kept_step (start_kept buffer folder interval cwd files) hs)

def twoNotes : ServerBuffer where
  documents := [1, 2]
  document := fun d =>
    if d = 1 then ⟨"notes".toList, "text".toList⟩ else ⟨"plan".toList, "soon".toList⟩
  nodup := two_nodup

def twoNotesStart : World := start twoNotes "out".toList 60 [] fun _ => none

theorem passSucceeds_edit {w : World} {e : Event} (hsave : ∀ o, e ≠ .save o)
    (htick : ∀ o, e ≠ .tick o) : PassSucceeds w e := by
  intro o he
  rcases he with he | he
  · exact absurd he (hsave o)
  · exact absurd he (htick o)

theorem passSucceeds_of_completes {w : World} {e : Event} (h : ∀ d, Completes w.buffer acceptsAll d)
    (he : e = .save acceptsAll ∨ e = .tick acceptsAll) : PassSucceeds w e := by
  intro o ho d _
  rcases he with rfl | rfl
  · rcases ho with ho | ho
    · obtain rfl := Event.save.inj ho
      exact h d
    · cases ho
  · rcases ho with ho | ho
    · cases ho
    · obtain rfl := Event.tick.inj ho
      exact h d

theorem completes_of_short {buffer : ServerBuffer} {d : DocumentInfo}
    (hname : ¬ NamesDirectory (cString (fileName (buffer.document d).title)))
    (htext : (buffer.document d).text.length ≤ 1000) : Completes buffer acceptsAll d := by
  refine ⟨1000, ?_, htext⟩
  simp only [acceptsAll, openStream, hname, if_false]

theorem twoNotes_completes (text : Text) (ht : text.length ≤ 1000) {buffer : ServerBuffer}
    (hb : buffer.document = Function.update twoNotes.document 1 ⟨"notes".toList, text⟩)
    (d : DocumentInfo) : Completes buffer acceptsAll d := by
  have hname : ¬ NamesDirectory (cString (fileName "notes".toList)) := by decide
  by_cases hd : d = 1
  · subst hd
    apply completes_of_short
    · rw [hb, Function.update_self]
      exact hname
    · rw [hb, Function.update_self]
      exact ht
  · have hplan : buffer.document d = ⟨"plan".toList, "soon".toList⟩ := by
      rw [hb, Function.update_of_ne hd]
      exact if_neg hd
    apply completes_of_short
    · rw [hplan]
      decide
    · rw [hplan]
      decide

/-- A tick writes both documents; then one is edited and the other removed, and a signal saves. -/
def twoSaves : List Event :=
  [.tick acceptsAll, .change 1 "new".toList, .remove 2, .save acceptsAll]

theorem notes_saved_twice : EveryStep step PassSucceeds twoNotesStart twoSaves ∧
    Always step NoUpdateLost twoNotesStart twoSaves ∧
    ∃ w, run step twoNotesStart twoSaves = some w ∧
      w.files ["out".toList, "notes".toList] = some (.text "new".toList) ∧
      w.files ["out".toList, "plan".toList] = some (.text "soon".toList) := by
  have hunedited : twoNotes.document =
      Function.update twoNotes.document 1 ⟨"notes".toList, "text".toList⟩ :=
    (Function.update_eq_self 1 twoNotes.document).symm
  have hs : EveryStep step PassSucceeds twoNotesStart twoSaves := by
    apply everyStep_cons rfl
      (passSucceeds_of_completes (twoNotes_completes _ (by decide) hunedited) (Or.inr rfl))
    apply everyStep_cons rfl (passSucceeds_edit (by simp) (by simp))
    apply everyStep_cons rfl (passSucceeds_edit (by simp) (by simp))
    apply everyStep_cons rfl
      (passSucceeds_of_completes (twoNotes_completes "new".toList (by decide) rfl) (Or.inl rfl))
    trivial
  refine ⟨hs, folder_saver_loses_no_update twoNotes "out".toList 60 [] (fun _ => none) _ hs, ?_⟩
  exact ⟨_, rfl, by decide, by decide⟩

end FolderAutosave
