import Sobby.SessionAutosave
import Sobby.FolderFiles

/-! The server with both of its savers on one file system. `Server::save` runs the session saver
and then the folder saver, and neither of them knows the files of the other. -/
namespace ServerSaves

open PathNames
open SessionBuffer
open Strings
open SessionAutosave (AutoSaver SaveOutcome fileAfter)
open FolderAutosave (AutoSaveFolder StreamOutcome Files outputPath Completes filesAfter Keyed)

structure Server where
  buffer : ServerBuffer
  autosaver : Option AutoSaver
  autosaveFolder : Option AutoSaveFolder
  cwd : Location
  files : Files

structure AutosaveSettings where
  autosaveFile : Text
  autosaveFolder : Text
  autosaveInterval : ℕ
  postSaveHook : Text

def notADirectory (folder : Text) : Text :=
  "'".toList ++ folder ++ "' is not a directory".toList

/-- The savers of the constructor of `Server`. Both may be wanted together. -/
def Server.start (settings : AutosaveSettings) (isDirectory : Location → Bool)
    (buffer : ServerBuffer) (cwd : Location) (files : Files) : Except Text Server :=
  let autosaver :=
    if settings.autosaveFile = [] then none
    else some (.create buffer settings.autosaveFile settings.autosaveInterval
      settings.postSaveHook)
  if settings.autosaveFolder = [] then .ok ⟨buffer, autosaver, none, cwd, files⟩
  else if isDirectory (resolve cwd (cString settings.autosaveFolder)) then
    .ok ⟨buffer, autosaver,
      some (.create buffer settings.autosaveFolder settings.autosaveInterval), cwd, files⟩
  else .error (notADirectory settings.autosaveFolder)

/-- Everything an accepted start can be. -/
theorem start_cases {settings : AutosaveSettings} {isDirectory : Location → Bool}
    {buffer : ServerBuffer} {cwd : Location} {files : Files} {s : Server}
    (h : Server.start settings isDirectory buffer cwd files = .ok s) :
    s.buffer = buffer ∧ s.cwd = cwd ∧ s.files = files ∧
      (∀ a, s.autosaver = some a →
        a = .create buffer settings.autosaveFile settings.autosaveInterval settings.postSaveHook) ∧
      ∀ f, s.autosaveFolder = some f →
        f = .create buffer settings.autosaveFolder settings.autosaveInterval := by
  have hsaver : ∀ a, (if settings.autosaveFile = [] then none
      else some (AutoSaver.create buffer settings.autosaveFile settings.autosaveInterval
        settings.postSaveHook)) = some a →
      a = .create buffer settings.autosaveFile settings.autosaveInterval
        settings.postSaveHook := by
    intro a ha
    split at ha
    · cases ha
    · exact (Option.some.inj ha).symm
  simp only [Server.start] at h
  split at h
  · obtain rfl := Except.ok.inj h
    exact ⟨rfl, rfl, rfl, hsaver, by simp⟩
  · split at h
    · obtain rfl := Except.ok.inj h
      exact ⟨rfl, rfl, rfl, hsaver, fun f hf => (Option.some.inj hf).symm⟩
    · cases h

def Server.sessionLocation (s : Server) (a : AutoSaver) : Location :=
  resolve s.cwd (cString a.filename)

def Server.documentLocation (s : Server) (f : AutoSaveFolder) (d : DocumentInfo) : Location :=
  resolve s.cwd (outputPath f.folder (s.buffer.document d).title)

/-- `m_autosaver->save()`, if there is one. -/
def Server.saveSession (s : Server) (o : SaveOutcome) : Server :=
  match s.autosaver with
  | none => s
  | some a =>
    let r := a.save s.buffer o
    { s with
      autosaver := some r.1
      files := Function.update s.files (s.sessionLocation a)
        (fileAfter (s.files (s.sessionLocation a)) r.2) }

/-- `m_autosave_folder->save()`, if there is one. -/
def Server.saveDocuments (s : Server) (o : DocumentInfo → StreamOutcome) : Server :=
  match s.autosaveFolder with
  | none => s
  | some f =>
    let r := f.save s.buffer o
    { s with autosaveFolder := some r.1, files := filesAfter s.cwd s.files r.2 }

structure SaveAnswer where
  session : SaveOutcome
  documents : DocumentInfo → StreamOutcome

def Server.save (s : Server) (o : SaveAnswer) : Server :=
  (s.saveSession o.session).saveDocuments o.documents

def Server.insert (s : Server) (d : DocumentInfo) (doc : Document) : Option Server :=
  (s.buffer.insert d doc).map fun b =>
    { s with
      buffer := b
      autosaver := s.autosaver.map (·.onDocumentInsert d)
      autosaveFolder := s.autosaveFolder.map (·.onDocumentInsert d) }

def Server.remove (s : Server) (d : DocumentInfo) : Option Server :=
  (s.buffer.remove d).map fun b =>
    { s with
      buffer := b
      autosaver := s.autosaver.map fun a => (a.onDocumentRemove d).disconnect d
      autosaveFolder := s.autosaveFolder.map fun f => (f.onDocumentRemove d).disconnect d }

def Server.changeText (s : Server) (d : DocumentInfo) (text : Text) : Option Server :=
  (s.buffer.change d text).map fun b => { s with buffer := b }

def Server.notifySaver (s : Server) (d : DocumentInfo) : Server :=
  { s with autosaver := s.autosaver.map (·.changedEvent d) }

def Server.notifyFolder (s : Server) (d : DocumentInfo) : Server :=
  { s with autosaveFolder := s.autosaveFolder.map (·.changedEvent d) }

/-- The saver of the session is constructed first and so it is told first. -/
def Server.change (s : Server) (d : DocumentInfo) (text : Text) : Option Server :=
  (s.changeText d text).map fun s => (s.notifySaver d).notifyFolder d

def Server.Succeeds (s : Server) (o : SaveAnswer) : Prop :=
  o.session.serialise = .written ∧
    ∀ f, s.autosaveFolder = some f → ∀ d, f.map[d]? = some true → Completes s.buffer o.documents d

theorem saveSession_written (s : Server) {o : SaveOutcome} (h : o.serialise = .written)
    {a : AutoSaver} (ha : s.autosaver = some a) :
    s.saveSession o =
      { s with
        autosaver := some { a with hasModification := false }
        files := Function.update s.files (s.sessionLocation a)
          (some (.session s.buffer.session)) } := by
  obtain ⟨rest, hrest, hsave⟩ := SessionAutosave.save_written h a s.buffer
  simp only [Server.saveSession, ha, hsave, fileAfter, SessionAutosave.fileAfter_fromHook hrest]

theorem saveSession_file (s : Server) {o : SaveOutcome} (h : o.serialise = .written)
    {a : AutoSaver} (ha : s.autosaver = some a) :
    (s.saveSession o).files =
      Function.update s.files (s.sessionLocation a) (some (.session s.buffer.session)) := by
  rw [saveSession_written s h ha]

theorem saveSession_none {s : Server} (h : s.autosaver = none) (o : SaveOutcome) :
    s.saveSession o = s := by
  simp only [Server.saveSession, h]

theorem saveSession_frame (s : Server) (o : SaveOutcome) :
    (s.saveSession o).buffer = s.buffer ∧
      (s.saveSession o).autosaveFolder = s.autosaveFolder ∧ (s.saveSession o).cwd = s.cwd := by
  unfold Server.saveSession
  split
  · exact ⟨rfl, rfl, rfl⟩
  · exact ⟨rfl, rfl, rfl⟩

theorem saveSession_documentLocation (s : Server) (o : SaveOutcome) (f : AutoSaveFolder)
    (d : DocumentInfo) : (s.saveSession o).documentLocation f d = s.documentLocation f d := by
  obtain ⟨hbuffer, _, hcwd⟩ := saveSession_frame s o
  rw [Server.documentLocation, Server.documentLocation, hbuffer, hcwd]

section Documents

variable {s : Server} {f : AutoSaveFolder} {o : DocumentInfo → StreamOutcome}

theorem saveDocuments_files (hf : s.autosaveFolder = some f) :
    (s.saveDocuments o).files = filesAfter s.cwd s.files (f.save s.buffer o).2 := by
  simp only [Server.saveDocuments, hf]

theorem saveDocuments_elsewhere (hf : s.autosaveFolder = some f)
    (hc : ∀ d, f.map[d]? = some true → Completes s.buffer o d) {x : Location}
    (hx : ∀ d, f.map[d]? = some true → s.documentLocation f d ≠ x) :
    (s.saveDocuments o).files x = s.files x := by
  rw [saveDocuments_files hf]
  apply FolderFiles.filesAfter_other
  intro write hw
  obtain ⟨d, hflag, he⟩ := (FolderAutosave.mem_complete_writes hc _).mp hw
  obtain rfl := FolderAutosave.Observation.wrote.inj he
  exact hx d hflag

/-- The file of a flagged document holds the text of a flagged document of the same file. -/
theorem saveDocuments_flagged (hf : s.autosaveFolder = some f)
    (hc : ∀ d, f.map[d]? = some true → Completes s.buffer o d) {d : DocumentInfo}
    (hd : f.map[d]? = some true) :
    ∃ k, f.map[k]? = some true ∧ s.documentLocation f k = s.documentLocation f d ∧
      (s.saveDocuments o).files (s.documentLocation f d) =
        some (.text (s.buffer.document k).text) := by
  have hwrite := (FolderAutosave.mem_complete_writes hc _).mpr ⟨d, hd, rfl⟩
  have hmem : ∃ write, .wrote write ∈ (f.save s.buffer o).2 ∧
      resolve s.cwd write.path = s.documentLocation f d := ⟨_, hwrite, rfl⟩
  obtain ⟨write, hw, hx, hfile⟩ := FolderFiles.filesAfter_last hmem s.files
  obtain ⟨k, hk, he⟩ := (FolderAutosave.mem_complete_writes hc _).mp hw
  obtain rfl := FolderAutosave.Observation.wrote.inj he
  exact ⟨k, hk, hx, by rw [saveDocuments_files hf]; exact hfile⟩

end Documents

/-- After a save the session is in its file unless the folder saver, which comes second, writes a
document to the same file. -/
theorem session_file_survives_iff (s : Server) (o : SaveAnswer) (hs : s.Succeeds o)
    (a : AutoSaver) (ha : s.autosaver = some a) :
    (s.save o).files (s.sessionLocation a) = some (.session s.buffer.session) ↔
      ∀ f, s.autosaveFolder = some f → ∀ d, f.map[d]? = some true →
        s.documentLocation f d ≠ s.sessionLocation a := by
  obtain ⟨hsession, hdocuments⟩ := hs
  obtain ⟨hbuffer, hfolder, _⟩ := saveSession_frame s o.session
  have hfirst : (s.saveSession o.session).files (s.sessionLocation a) =
      some (.session s.buffer.session) := by
    rw [saveSession_file s hsession ha, Function.update_self]
  cases hf : s.autosaveFolder with
  | none =>
    have hnone : (s.saveSession o.session).autosaveFolder = none := hfolder.trans hf
    have hsave : s.save o = s.saveSession o.session := by
      simp only [Server.save, Server.saveDocuments, hnone]
    rw [hsave]
    exact iff_of_true hfirst (by simp)
  | some f =>
    have hsome : (s.saveSession o.session).autosaveFolder = some f := hfolder.trans hf
    have hc : ∀ d, f.map[d]? = some true →
        Completes (s.saveSession o.session).buffer o.documents d := by
      rw [hbuffer]
      exact hdocuments f hf
    constructor
    · intro hfile g hg d hd hsame
      obtain rfl : f = g := Option.some.inj hg
      obtain ⟨k, _, _, hwritten⟩ := saveDocuments_flagged hsome hc hd
      rw [saveSession_documentLocation, hsame] at hwritten
      cases hfile.symm.trans hwritten
    · intro h
      have helse : ∀ d, f.map[d]? = some true →
          (s.saveSession o.session).documentLocation f d ≠ s.sessionLocation a := by
        intro d hd
        rw [saveSession_documentLocation]
        exact h f rfl d hd
      exact (saveDocuments_elsewhere hsome hc helse).trans hfirst

def acceptsAll : SaveAnswer := ⟨SessionAutosave.succeeds, FolderAutosave.acceptsAll⟩

def oneDocument (title : Text) : ServerBuffer where
  documents := [1]
  document := fun _ => ⟨title, "text".toList⟩
  nodup := one_nodup

def bothSavers (file folder title : Text) : Server :=
  ⟨oneDocument title, some (.create (oneDocument title) file 60 []),
    some (.create (oneDocument title) folder 60), [], fun _ => none⟩

theorem bothSavers_accepted {file folder : Text} (hfile : file ≠ []) (hfolder : folder ≠ [])
    (title : Text) :
    Server.start ⟨file, folder, 60, []⟩ (fun _ => true) (oneDocument title) [] (fun _ => none) =
      .ok (bothSavers file folder title) := by
  simp [Server.start, bothSavers, hfolder, hfile]

theorem bothSavers_succeeds (file folder : Text) {title : Text}
    (h : ¬ NamesDirectory (cString (FolderAutosave.fileName title))) :
    (bothSavers file folder title).Succeeds acceptsAll := by
  refine ⟨rfl, ?_⟩
  intro f _ d _
  refine ⟨1000, ?_, by simp [bothSavers, oneDocument]⟩
  simp [FolderAutosave.openStream, acceptsAll, FolderAutosave.acceptsAll, bothSavers, oneDocument, h]

theorem session_survives_notes :
    ((bothSavers "autosave.obby".toList "out".toList "notes".toList).save acceptsAll).files
      ["autosave.obby".toList] = some (.session [⟨"notes".toList, "text".toList⟩]) := by
  have hapart : resolve [] (outputPath "out".toList "notes".toList) ≠
      resolve [] (cString "autosave.obby".toList) := by decide
  refine (session_file_survives_iff (bothSavers "autosave.obby".toList "out".toList "notes".toList)
    acceptsAll (bothSavers_succeeds _ _ (by decide)) _ rfl).mpr ?_
  intro f hf d _
  obtain rfl := Option.some.inj hf
  exact hapart

/-- A document titled like the session file, in the folder of the session file: after the save
the session is in no file. -/
theorem document_replaces_session :
    ∃ s, Server.start ⟨"autosave.obby".toList, ".".toList, 60, []⟩ (fun _ => true)
        (oneDocument "autosave.obby".toList) [] (fun _ => none) = .ok s ∧
      s.Succeeds acceptsAll ∧
      (s.save acceptsAll).files ["autosave.obby".toList] = some (.text "text".toList) ∧
      ∀ a, s.autosaver = some a →
        (s.save acceptsAll).files (s.sessionLocation a) ≠ some (.session s.buffer.session) := by
  refine ⟨_, bothSavers_accepted (by decide) (by decide) _, bothSavers_succeeds _ _ (by decide),
    by decide, ?_⟩
  intro a ha
  obtain rfl := Option.some.inj ha
  decide

end ServerSaves
