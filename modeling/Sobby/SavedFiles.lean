import Sobby.ServerSaves

/-! What the files of both savers hold, operation by operation. A document whose flag is off has
its text in its file, and a session without modification is in the session file. Either may be
broken for a moment, between the change of a text and the handlers that hear of it. -/
namespace SavedFiles

open SessionBuffer
open PathNames
open SessionAutosave (AutoSaver SaveOutcome)
open FolderAutosave (AutoSaveFolder StreamOutcome Completes Keyed getElem?_flag)
open ServerSaves

def folderWorld (s : Server) (f : AutoSaveFolder) : FolderAutosave.World :=
  ⟨s.buffer, f, s.cwd, s.files, []⟩

/-- Both savers hear of every document, and the folder saver has a flag for each. -/
structure Connected (s : Server) : Prop where
  watched : ∀ a, s.autosaver = some a → ∀ d ∈ s.buffer.documents, d ∈ a.watched
  keyed : ∀ f, s.autosaveFolder = some f → Keyed (folderWorld s f)

def SessionApart (s : Server) : Prop :=
  ∀ f, s.autosaveFolder = some f → ∀ a, s.autosaver = some a →
    ∀ d ∈ s.buffer.documents, s.documentLocation f d ≠ s.sessionLocation a

/-- The files of the documents are apart from each other and from the session file. -/
structure NamesApart (s : Server) : Prop where
  documents : ∀ f, s.autosaveFolder = some f → ∀ d ∈ s.buffer.documents,
    ∀ k ∈ s.buffer.documents, s.documentLocation f d = s.documentLocation f k → d = k
  session : SessionApart s

/-- Documents without a flag have their text in their file, some of them excepted. -/
def DocumentsSaved (s : Server) (except : DocumentInfo → Prop) : Prop :=
  ∀ f, s.autosaveFolder = some f → ∀ d ∈ s.buffer.documents, ¬ except d →
    f.map[d]? ≠ some true →
      s.files (s.documentLocation f d) = some (.text (s.buffer.document d).text)

/-- The file holds every document of the session as it is; it may hold removed ones besides. -/
def Covers (file : Option FileContent) (b : ServerBuffer) : Prop :=
  ∃ session, file = some (.session session) ∧ b.session.Sublist session

structure AllSaved (s : Server) : Prop where
  session : ∀ a, s.autosaver = some a →
    s.files (s.sessionLocation a) = some (.session s.buffer.session)
  documents : ∀ f, s.autosaveFolder = some f → ∀ d ∈ s.buffer.documents,
    s.files (s.documentLocation f d) = some (.text (s.buffer.document d).text)

structure Unflagged (s : Server) : Prop where
  session : ∀ a, s.autosaver = some a → a.hasModification = false
  documents : ∀ f, s.autosaveFolder = some f → ∀ d : DocumentInfo, f.map[d]? ≠ some true

def PassCompletes (s : Server) (o : DocumentInfo → StreamOutcome) : Prop :=
  ∀ f, s.autosaveFolder = some f → ∀ d, f.map[d]? = some true → Completes s.buffer o d

def SessionSaved (s : Server) : Prop :=
  ∀ a, s.autosaver = some a → a.hasModification = false →
    Covers (s.files (s.sessionLocation a)) s.buffer

theorem documentsSaved_mono {s : Server} {E F : DocumentInfo → Prop} (hEF : ∀ d, E d → F d)
    (h : DocumentsSaved s E) : DocumentsSaved s F :=
  fun f hf d hd hF => h f hf d hd fun hE => hF (hEF d hE)

theorem flag_mem {s : Server} (hs : Connected s) {f : AutoSaveFolder}
    (hf : s.autosaveFolder = some f) {d : DocumentInfo} {flag : Bool}
    (h : f.map[d]? = some flag) : d ∈ s.buffer.documents :=
  (hs.keyed f hf).flag_mem h

section Start

variable {settings : AutosaveSettings} {isDirectory : Location → Bool} {buffer : ServerBuffer}
  {cwd : Location} {files : FolderAutosave.Files} {s : Server}

theorem start_connected (h : Server.start settings isDirectory buffer cwd files = .ok s) :
    Connected s := by
  obtain ⟨hbuffer, hcwd, hfiles, hsaver, hfolder⟩ := start_cases h
  constructor
  · intro a ha d hd
    rw [hsaver a ha]
    exact SessionAutosave.create_watches buffer _ _ _ d (hbuffer ▸ hd)
  · intro f hf
    obtain rfl := hfolder f hf
    have hk := FolderAutosave.start_keyed buffer settings.autosaveFolder
      settings.autosaveInterval cwd files
    rw [folderWorld, hbuffer]
    exact ⟨hk.keys, hk.watched⟩

theorem start_documentsSaved (h : Server.start settings isDirectory buffer cwd files = .ok s)
    (except : DocumentInfo → Prop) : DocumentsSaved s except := by
  obtain ⟨hbuffer, hcwd, hfiles, _, hfolder⟩ := start_cases h
  intro f hf d hd _ hflag
  obtain rfl := hfolder f hf
  have hset := FolderAutosave.start_flags buffer settings.autosaveFolder
    settings.autosaveInterval cwd files d
  rw [if_pos (hbuffer ▸ hd)] at hset
  exact absurd hset hflag

theorem start_sessionSaved (h : Server.start settings isDirectory buffer cwd files = .ok s) :
    SessionSaved s := by
  obtain ⟨_, _, _, hsaver, _⟩ := start_cases h
  intro a ha hm
  rw [hsaver a ha, SessionAutosave.create_modified] at hm
  cases hm

end Start

section Edits

variable {s s' : Server} {d : DocumentInfo} {except : DocumentInfo → Prop}

theorem insert_connected {doc : Document} (hs : Connected s) (h : s.insert d doc = some s') :
    Connected s' := by
  obtain ⟨b, hb, rfl⟩ := Option.map_eq_some_iff.mp h
  obtain ⟨_, hdocs, _⟩ := insert_spec hb
  constructor
  · intro a' ha' k hk
    obtain ⟨a, ha, rfl⟩ := Option.map_eq_some_iff.mp ha'
    have hk' : k ∈ s.buffer.documents ∨ k = d := by simpa [hdocs] using hk
    apply Finset.mem_insert.mpr
    exact hk'.symm.imp_right fun hk => hs.watched a ha k hk
  · intro f' hf'
    obtain ⟨f, hf, rfl⟩ := Option.map_eq_some_iff.mp hf'
    have hstep : FolderAutosave.step (folderWorld s f) (.insert d doc) =
        some { folderWorld s f with
          buffer := b, saver := f.onDocumentInsert d, trace := [.inserted d] } := by
      simp [FolderAutosave.step, folderWorld, hb]
    have hk := FolderAutosave.keyed_step _ _ _ (hs.keyed f hf) hstep
    exact ⟨hk.keys, hk.watched⟩

theorem insert_documentsSaved {doc : Document} (hs : DocumentsSaved s except)
    (h : s.insert d doc = some s') : DocumentsSaved s' except := by
  obtain ⟨b, hb, rfl⟩ := Option.map_eq_some_iff.mp h
  obtain ⟨_, hdocs, hdocument⟩ := insert_spec hb
  intro f' hf' k hk hE hflag
  obtain ⟨f, hf, rfl⟩ := Option.map_eq_some_iff.mp hf'
  have hkd : k ≠ d := by
    rintro rfl
    exact hflag (by simp [AutoSaveFolder.onDocumentInsert])
  have hk' : k ∈ s.buffer.documents := by simpa [hdocs, hkd] using hk
  have hsame : b.document k = s.buffer.document k := by rw [hdocument, Function.update_of_ne hkd]
  have hold : f.map[k]? ≠ some true := by
    simpa [AutoSaveFolder.onDocumentInsert, getElem?_flag, hkd] using hflag
  have hfile := hs f hf k hk' hE hold
  simpa [Server.documentLocation, hsame, AutoSaveFolder.onDocumentInsert] using hfile

theorem insert_modified {doc : Document} (h : s.insert d doc = some s') {a : AutoSaver}
    (ha : s'.autosaver = some a) : a.hasModification = true := by
  obtain ⟨b, _, rfl⟩ := Option.map_eq_some_iff.mp h
  obtain ⟨a, _, rfl⟩ := Option.map_eq_some_iff.mp ha
  rfl

theorem remove_connected (hs : Connected s) (h : s.remove d = some s') : Connected s' := by
  obtain ⟨b, hb, rfl⟩ := Option.map_eq_some_iff.mp h
  obtain ⟨_, hdocs, _⟩ := remove_spec hb
  constructor
  · intro a' ha' k hk
    obtain ⟨a, ha, rfl⟩ := Option.map_eq_some_iff.mp ha'
    rw [hdocs, s.buffer.nodup.mem_erase_iff] at hk
    exact Finset.mem_erase.mpr ⟨hk.1, hs.watched a ha k hk.2⟩
  · intro f' hf'
    obtain ⟨f, hf, rfl⟩ := Option.map_eq_some_iff.mp hf'
    have hstep : FolderAutosave.step (folderWorld s f) (.remove d) =
        some { folderWorld s f with
          buffer := b
          saver := (f.onDocumentRemove d).disconnect d
          trace := [.removed d] } := by
      simp [FolderAutosave.step, folderWorld, hb]
    have hk := FolderAutosave.keyed_step _ _ _ (hs.keyed f hf) hstep
    exact ⟨hk.keys, hk.watched⟩

theorem remove_documentsSaved (hs : DocumentsSaved s except) (h : s.remove d = some s') :
    DocumentsSaved s' except := by
  obtain ⟨b, hb, rfl⟩ := Option.map_eq_some_iff.mp h
  obtain ⟨_, hdocs, hdocument⟩ := remove_spec hb
  intro f' hf' k hk hE hflag
  obtain ⟨f, hf, rfl⟩ := Option.map_eq_some_iff.mp hf'
  rw [hdocs, s.buffer.nodup.mem_erase_iff] at hk
  have hold : f.map[k]? ≠ some true := by
    intro h
    apply hflag
    have hcmp : compare d k ≠ .eq := by simpa using fun he => hk.1 he.symm
    simp only [AutoSaveFolder.onDocumentRemove, AutoSaveFolder.disconnect,
      Std.ExtTreeMap.getElem?_erase, hcmp, if_false, h]
  have hfile := hs f hf k hk.2 hE hold
  simpa [Server.documentLocation, hdocument, AutoSaveFolder.onDocumentRemove,
    AutoSaveFolder.disconnect] using hfile

theorem remove_modified (hs : ∀ a, s.autosaver = some a → a.hasModification = true)
    (h : s.remove d = some s') {a : AutoSaver} (ha : s'.autosaver = some a) :
    a.hasModification = true := by
  obtain ⟨b, _, rfl⟩ := Option.map_eq_some_iff.mp h
  obtain ⟨a, hold, rfl⟩ := Option.map_eq_some_iff.mp ha
  exact hs a hold

/-- The file may go on holding the removed document. -/
theorem remove_sessionSaved (hs : SessionSaved s) (h : s.remove d = some s') : SessionSaved s' := by
  obtain ⟨b, hb, rfl⟩ := Option.map_eq_some_iff.mp h
  obtain ⟨_, hdocs, hdocument⟩ := remove_spec hb
  intro a' ha' hm
  obtain ⟨a, ha, rfl⟩ := Option.map_eq_some_iff.mp ha'
  obtain ⟨session, hfile, hsub⟩ := hs a ha hm
  refine ⟨session, hfile, ?_⟩
  have hless : b.session.Sublist s.buffer.session := by
    rw [ServerBuffer.session, ServerBuffer.session, hdocs, hdocument]
    exact List.erase_sublist.map _
  exact hless.trans hsub

theorem changeText_connected {text : Strings.Text} (hs : Connected s)
    (h : s.changeText d text = some s') : Connected s' := by
  obtain ⟨b, hb, rfl⟩ := Option.map_eq_some_iff.mp h
  obtain ⟨_, hdocs, _⟩ := change_spec hb
  constructor
  · intro a ha k hk
    exact hs.watched a ha k (hdocs ▸ hk)
  · intro f hf
    have hk := hs.keyed f hf
    constructor
    · intro k
      exact (hk.keys k).trans (by rw [folderWorld, folderWorld, hdocs])
    · intro k hmem
      exact hk.watched k (hdocs ▸ hmem)

theorem changeText_mem {text : Strings.Text} (h : s.changeText d text = some s') :
    d ∈ s'.buffer.documents := by
  obtain ⟨b, hb, rfl⟩ := Option.map_eq_some_iff.mp h
  obtain ⟨hd, hdocs, _⟩ := change_spec hb
  exact hdocs ▸ hd

theorem changeText_documentsSaved {text : Strings.Text} (hs : DocumentsSaved s except)
    (h : s.changeText d text = some s') :
    DocumentsSaved s' fun k => except k ∨ k = d := by
  obtain ⟨b, hb, rfl⟩ := Option.map_eq_some_iff.mp h
  obtain ⟨_, hdocs, hdocument⟩ := change_spec hb
  intro f hf k hk hE hflag
  obtain ⟨hE, hkd⟩ := not_or.mp hE
  have hsame : b.document k = s.buffer.document k := by rw [hdocument, Function.update_of_ne hkd]
  have hfile := hs f hf k (hdocs ▸ hk) hE hflag
  simpa [Server.documentLocation, hsame] using hfile

theorem notifySaver_connected (hs : Connected s) : Connected (s.notifySaver d) := by
  constructor
  · intro a' ha' k hk
    obtain ⟨a, ha, rfl⟩ := Option.map_eq_some_iff.mp ha'
    rw [(SessionAutosave.changedEvent_frame a d).2]
    exact hs.watched a ha k hk
  · exact fun f hf => hs.keyed f hf

theorem notifySaver_documentsSaved (hs : DocumentsSaved s except) :
    DocumentsSaved (s.notifySaver d) except :=
  fun f hf => hs f hf

theorem notifySaver_modified (hs : Connected s) (hd : d ∈ s.buffer.documents) {a : AutoSaver}
    (h : (s.notifySaver d).autosaver = some a) : a.hasModification = true := by
  obtain ⟨a, ha, rfl⟩ := Option.map_eq_some_iff.mp h
  rw [SessionAutosave.changedEvent_watched (hs.watched a ha d hd)]

theorem notifyFolder_connected (hs : Connected s) (hd : d ∈ s.buffer.documents) :
    Connected (s.notifyFolder d) := by
  constructor
  · exact hs.watched
  · intro f' hf'
    obtain ⟨f, hf, rfl⟩ := Option.map_eq_some_iff.mp hf'
    have hk := hs.keyed f hf
    have hwatched : d ∈ f.watched := hk.watched d hd
    rw [FolderAutosave.changedEvent_watched hwatched]
    exact ⟨hk.flag hd true, hk.watched⟩

theorem notifyFolder_documentsSaved (hc : Connected s) (hd : d ∈ s.buffer.documents)
    (hs : DocumentsSaved s fun k => except k ∨ k = d) :
    DocumentsSaved (s.notifyFolder d) except := by
  intro f' hf' k hk hE hflag
  obtain ⟨f, hf, rfl⟩ := Option.map_eq_some_iff.mp hf'
  have hwatched : d ∈ f.watched := (hc.keyed f hf).watched d hd
  rw [FolderAutosave.changedEvent_watched hwatched] at hflag ⊢
  have hkd : k ≠ d := by
    rintro rfl
    exact hflag (by simp [AutoSaveFolder.onDocumentChange])
  have hold : f.map[k]? ≠ some true := by
    simpa [AutoSaveFolder.onDocumentChange, getElem?_flag, hkd] using hflag
  exact hs f hf k hk (not_or.mpr ⟨hE, hkd⟩) hold

theorem change_cases {text : Strings.Text} (h : s.change d text = some s') :
    ∃ t, s.changeText d text = some t ∧ d ∈ t.buffer.documents ∧
      s' = (t.notifySaver d).notifyFolder d := by
  obtain ⟨t, ht, rfl⟩ := Option.map_eq_some_iff.mp h
  exact ⟨t, ht, changeText_mem ht, rfl⟩

theorem change_connected {text : Strings.Text} (hs : Connected s)
    (h : s.change d text = some s') : Connected s' := by
  obtain ⟨t, ht, hd, rfl⟩ := change_cases h
  have htold := notifySaver_connected (d := d) (changeText_connected hs ht)
  exact notifyFolder_connected htold hd

theorem change_modified {text : Strings.Text} (hs : Connected s) (h : s.change d text = some s')
    {a : AutoSaver} (ha : s'.autosaver = some a) : a.hasModification = true := by
  obtain ⟨t, ht, hd, rfl⟩ := change_cases h
  exact notifySaver_modified (changeText_connected hs ht) hd ha

theorem change_documentsSaved {text : Strings.Text} (hc : Connected s)
    (hs : DocumentsSaved s except) (h : s.change d text = some s') : DocumentsSaved s' except := by
  obtain ⟨t, ht, hd, rfl⟩ := change_cases h
  have htold := notifySaver_connected (d := d) (changeText_connected hc ht)
  have hsaved := notifySaver_documentsSaved (d := d) (changeText_documentsSaved hs ht)
  exact notifyFolder_documentsSaved htold hd hsaved

end Edits

section Saves

variable {s : Server} {except : DocumentInfo → Prop}

theorem saveSession_connected (hs : Connected s) {o : SaveOutcome} (h : o.serialise = .written) :
    Connected (s.saveSession o) := by
  cases ha : s.autosaver with
  | none =>
    rw [saveSession_none ha]
    exact hs
  | some a =>
    rw [saveSession_written s h ha]
    constructor
    · intro a' ha' d hd
      obtain rfl := Option.some.inj ha'
      exact hs.watched a ha d hd
    · intro f hf
      have hk := hs.keyed f hf
      exact ⟨hk.keys, hk.watched⟩

theorem saveSession_namesApart (hn : NamesApart s) {o : SaveOutcome} (h : o.serialise = .written) :
    NamesApart (s.saveSession o) := by
  cases ha : s.autosaver with
  | none =>
    rw [saveSession_none ha]
    exact hn
  | some a =>
    rw [saveSession_written s h ha]
    constructor
    · exact hn.documents
    · intro f hf a' ha'
      obtain rfl := Option.some.inj ha'
      exact hn.session f hf a ha

theorem saveSession_documentsSaved (hn : SessionApart s) (hs : DocumentsSaved s except)
    {o : SaveOutcome} (h : o.serialise = .written) : DocumentsSaved (s.saveSession o) except := by
  cases ha : s.autosaver with
  | none =>
    rw [saveSession_none ha]
    exact hs
  | some a =>
    rw [saveSession_written s h ha]
    intro f hf d hd hE hflag
    have hfile := hs f hf d hd hE hflag
    exact (Function.update_of_ne (hn f hf a ha d hd) _ _).trans hfile

theorem saveSession_exact {o : SaveOutcome} (h : o.serialise = .written) {a : AutoSaver}
    (ha : (s.saveSession o).autosaver = some a) :
    (s.saveSession o).files ((s.saveSession o).sessionLocation a) =
      some (.session (s.saveSession o).buffer.session) := by
  cases hold : s.autosaver with
  | none =>
    rw [saveSession_none hold, hold] at ha
    cases ha
  | some a' =>
    rw [saveSession_written s h hold] at ha ⊢
    obtain rfl := Option.some.inj ha
    simp [Server.sessionLocation]

theorem saveDocuments_none (h : s.autosaveFolder = none) (o : DocumentInfo → StreamOutcome) :
    s.saveDocuments o = s := by
  simp only [Server.saveDocuments, h]

theorem saveDocuments_some {f : AutoSaveFolder} (hf : s.autosaveFolder = some f)
    (o : DocumentInfo → StreamOutcome) :
    (s.saveDocuments o).autosaveFolder = some (f.save s.buffer o).1 := by
  simp only [Server.saveDocuments, hf]

theorem saveDocuments_frame (s : Server) (o : DocumentInfo → StreamOutcome) :
    (s.saveDocuments o).buffer = s.buffer ∧ (s.saveDocuments o).autosaver = s.autosaver ∧
      (s.saveDocuments o).cwd = s.cwd := by
  unfold Server.saveDocuments
  split
  · exact ⟨rfl, rfl, rfl⟩
  · exact ⟨rfl, rfl, rfl⟩

theorem saveDocuments_connected (hs : Connected s) (o : DocumentInfo → StreamOutcome) :
    Connected (s.saveDocuments o) := by
  obtain ⟨hbuffer, hsaver, _⟩ := saveDocuments_frame s o
  constructor
  · intro a ha d hd
    exact hs.watched a (hsaver ▸ ha) d (hbuffer ▸ hd)
  · intro f' hf'
    cases hf : s.autosaveFolder with
    | none =>
      rw [saveDocuments_none hf, hf] at hf'
      cases hf'
    | some f =>
      rw [saveDocuments_some hf] at hf'
      obtain rfl := Option.some.inj hf'
      have hk := FolderAutosave.keyed_step (folderWorld s f) (.save o) _ (hs.keyed f hf) rfl
      rw [folderWorld, hbuffer]
      exact ⟨hk.keys, hk.watched⟩

section Files

variable {f : AutoSaveFolder} {o : DocumentInfo → StreamOutcome}

/-- A pass writes the document if it has a flag, and otherwise leaves its file alone. -/
theorem saveDocuments_document (hs : Connected s) (hn : NamesApart s)
    (hf : s.autosaveFolder = some f) (hc : ∀ d, f.map[d]? = some true → Completes s.buffer o d)
    {d : DocumentInfo} (hd : d ∈ s.buffer.documents)
    (h : f.map[d]? ≠ some true →
      s.files (s.documentLocation f d) = some (.text (s.buffer.document d).text)) :
    (s.saveDocuments o).files (s.documentLocation f d) =
      some (.text (s.buffer.document d).text) := by
  have hsame : ∀ k, f.map[k]? = some true →
      s.documentLocation f k = s.documentLocation f d → k = d := by
    intro k hk
    exact hn.documents f hf k (flag_mem hs hf hk) d hd
  by_cases hflag : f.map[d]? = some true
  · obtain ⟨k, hk, hlocation, hfile⟩ := saveDocuments_flagged hf hc hflag
    rw [hfile, hsame k hk hlocation]
  · rw [saveDocuments_elsewhere hf hc]
    · exact h hflag
    · intro k hk hlocation
      exact hflag (hsame k hk hlocation ▸ hk)

end Files

variable {o : DocumentInfo → StreamOutcome}

theorem saveDocuments_documents (hs : Connected s) (hn : NamesApart s)
    (hd : DocumentsSaved s except) (hc : PassCompletes s o) {f : AutoSaveFolder}
    (hf : (s.saveDocuments o).autosaveFolder = some f) {d : DocumentInfo}
    (hmem : d ∈ s.buffer.documents) (hE : ¬ except d) :
    (s.saveDocuments o).files (s.documentLocation f d) =
      some (.text (s.buffer.document d).text) := by
  cases hold : s.autosaveFolder with
  | none =>
    rw [saveDocuments_none hold, hold] at hf
    cases hf
  | some g =>
    rw [saveDocuments_some hold] at hf
    obtain rfl := Option.some.inj hf
    exact saveDocuments_document hs hn hold (hc g hold) hmem (hd g hold d hmem hE)

theorem saveDocuments_sessionFile (hs : Connected s) (hn : NamesApart s)
    (hc : PassCompletes s o) {a : AutoSaver} (ha : s.autosaver = some a) :
    (s.saveDocuments o).files (s.sessionLocation a) = s.files (s.sessionLocation a) := by
  cases hf : s.autosaveFolder with
  | none => rw [saveDocuments_none hf]
  | some f =>
    apply saveDocuments_elsewhere hf (hc f hf)
    intro d hflag
    exact hn.session f hf a ha d (flag_mem hs hf hflag)

theorem saveDocuments_documentsSaved (hs : Connected s) (hn : NamesApart s)
    (hd : DocumentsSaved s except) (hc : PassCompletes s o) :
    DocumentsSaved (s.saveDocuments o) except := by
  obtain ⟨hbuffer, _, hcwd⟩ := saveDocuments_frame s o
  intro f hf d hmem hE _
  rw [Server.documentLocation, hbuffer, hcwd]
  exact saveDocuments_documents hs hn hd hc hf (hbuffer ▸ hmem) hE

end Saves

section Save

variable {s : Server} {except : DocumentInfo → Prop} {o : SaveAnswer}

theorem saveSession_passCompletes (h : s.Succeeds o) :
    PassCompletes (s.saveSession o.session) o.documents := by
  obtain ⟨hbuffer, hfolder, _⟩ := saveSession_frame s o.session
  intro f hf d hflag
  rw [hbuffer]
  exact h.2 f (hfolder ▸ hf) d hflag

theorem save_buffer (s : Server) (o : SaveAnswer) : (s.save o).buffer = s.buffer :=
  (saveDocuments_frame _ _).1.trans (saveSession_frame _ _).1

theorem save_folder {f : AutoSaveFolder} (hf : s.autosaveFolder = some f) :
    ∃ g, (s.save o).autosaveFolder = some g ∧ g.folder = f.folder := by
  have hfolder := (saveSession_frame s o.session).2.1
  refine ⟨(f.save (s.saveSession o.session).buffer o.documents).1, ?_, rfl⟩
  rw [Server.save, saveDocuments_some (hfolder.trans hf)]

theorem save_connected (hs : Connected s) (h : s.Succeeds o) : Connected (s.save o) :=
  saveDocuments_connected (saveSession_connected hs h.1) o.documents

theorem save_documentsSaved (hs : Connected s) (hn : NamesApart s) (hd : DocumentsSaved s except)
    (h : s.Succeeds o) : DocumentsSaved (s.save o) except := by
  apply saveDocuments_documentsSaved
  · exact saveSession_connected hs h.1
  · exact saveSession_namesApart hn h.1
  · exact saveSession_documentsSaved hn.session hd h.1
  · exact saveSession_passCompletes h

theorem save_sessionFile (hs : Connected s) (hn : NamesApart s) (h : s.Succeeds o) {a : AutoSaver}
    (ha : (s.save o).autosaver = some a) :
    (s.save o).files ((s.save o).sessionLocation a) = some (.session (s.save o).buffer.session) := by
  obtain ⟨hbuffer, hsaver, hcwd⟩ := saveDocuments_frame (s.saveSession o.session) o.documents
  rw [Server.save, hsaver] at ha
  have hconnected := saveSession_connected hs h.1
  have happart := saveSession_namesApart hn h.1
  rw [Server.save, Server.sessionLocation, hbuffer, hcwd]
  exact (saveDocuments_sessionFile hconnected happart (saveSession_passCompletes h) ha).trans
    (saveSession_exact h.1 ha)

theorem save_sessionSaved (hs : Connected s) (hn : NamesApart s) (h : s.Succeeds o) :
    SessionSaved (s.save o) := by
  intro a ha _
  exact ⟨_, save_sessionFile hs hn h ha, List.Sublist.refl _⟩

theorem save_unflagged (h : s.Succeeds o) : Unflagged (s.save o) := by
  obtain ⟨hbuffer, hsaver, _⟩ := saveDocuments_frame (s.saveSession o.session) o.documents
  constructor
  · intro a ha
    rw [Server.save, hsaver] at ha
    cases hold : s.autosaver with
    | none =>
      rw [saveSession_none hold, hold] at ha
      cases ha
    | some a' =>
      rw [saveSession_written s h.1 hold] at ha
      obtain rfl := Option.some.inj ha
      rfl
  · intro f hf d
    have hpass := saveSession_passCompletes h
    cases hold : (s.saveSession o.session).autosaveFolder with
    | none =>
      rw [Server.save, saveDocuments_none hold, hold] at hf
      cases hf
    | some g =>
      rw [Server.save, saveDocuments_some hold] at hf
      obtain rfl := Option.some.inj hf
      by_cases hd : d ∈ g.map
      · rw [FolderAutosave.complete_clears (hpass g hold) hd]
        decide
      · intro hflag
        have hkey := FolderAutosave.mem_keys_of_flag hflag
        exact hd ((FolderAutosave.pass_keys g _ _ d).mp (Std.ExtTreeMap.mem_keys.mp hkey))

end Save

/-- One document `notes` in the folder `out`, and the session in `autosave.obby`. -/
def office : Server := bothSavers "autosave.obby".toList "out".toList "notes".toList

theorem office_accepted :
    Server.start ⟨"autosave.obby".toList, "out".toList, 60, []⟩ (fun _ => true)
      (oneDocument "notes".toList) [] (fun _ => none) = .ok office :=
  bothSavers_accepted (by decide) (by decide) "notes".toList

structure OfficeNames (s : Server) : Prop where
  documents : s.buffer.documents = [1]
  titles : ∀ d, (s.buffer.document d).title = "notes".toList
  texts : ∀ d, (s.buffer.document d).text.length ≤ 1000
  folder : s.autosaveFolder.map (·.folder) = some "out".toList
  file : s.autosaver.map (·.filename) = some "autosave.obby".toList
  cwd : s.cwd = []

theorem officeNames_completes {s : Server} (hs : OfficeNames s) (d : DocumentInfo) :
    Completes s.buffer acceptsAll.documents d := by
  have hname : ¬ NamesDirectory (Strings.cString (FolderAutosave.fileName "notes".toList)) := by
    decide
  refine ⟨1000, ?_, hs.texts d⟩
  rw [hs.titles d]
  simp only [FolderAutosave.openStream, acceptsAll, FolderAutosave.acceptsAll, hname, if_false]

theorem officeNames_succeeds {s : Server} (hs : OfficeNames s) : s.Succeeds acceptsAll :=
  ⟨rfl, fun _ _ d _ => officeNames_completes hs d⟩

theorem officeNames_apart {s : Server} (hs : OfficeNames s) : NamesApart s := by
  have hapart : resolve [] (FolderAutosave.outputPath "out".toList "notes".toList) ≠
      resolve [] (Strings.cString "autosave.obby".toList) := by decide
  constructor
  · intro f _ d hd k hk _
    rw [hs.documents, List.mem_singleton] at hd hk
    rw [hd, hk]
  · intro f hf a ha d _
    have hfolder : f.folder = "out".toList := by simpa [hf] using hs.folder
    have hfile : a.filename = "autosave.obby".toList := by simpa [ha] using hs.file
    rw [Server.documentLocation, Server.sessionLocation, hs.cwd, hs.titles d, hfolder, hfile]
    exact hapart

theorem office_names : OfficeNames office :=
  ⟨rfl, fun _ => rfl, by simp [office, bothSavers, oneDocument], rfl, rfl, rfl⟩

end SavedFiles
