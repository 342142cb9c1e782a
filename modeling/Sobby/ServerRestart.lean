import Sobby.FolderConfinement
import Sobby.ServerShutdown
import Sobby.ServerStartup
import Sobby.SettingsPrecedence

/-! What comes back when the server is started again on the files it has left: the session from
the session file, and from the folder the documents by the names of their files. -/
namespace ServerRestart

open StepMachine
open SessionBuffer
open PathNames
open Strings
open ServerSettings (Net6 Parser Options Settings KeepsText effective)
open ServerSaves (Server acceptsAll oneDocument)
open SavedFiles
open ServerShutdown (WritesSucceed Orderly)
open AutosavePeriod (autosaveSettings)
open ConfigTree (ParentEntry)
open FolderAutosave (Files fileName outputPath)
open FolderFiles (diskName)
open ServerStartup

section Names

variable {front name : Text}

theorem basename_append (hslash : '/' ∉ name) (hne : name ≠ []) (hnul : '\x00' ∉ front ++ name)
    (hfront : ∀ x ∈ front.getLast?, x = '/') : pathGetBasename (front ++ name) = name := by
  have hlast : (front ++ name).rdropWhile (· = '/') = front ++ name := by
    apply List.rdropWhile_eq_self_iff.mpr
    intro _
    rw [List.getLast_append_of_ne_nil _ hne, decide_eq_true_eq]
    exact fun he => hslash (he ▸ List.getLast_mem hne)
  have htake : (front ++ name).rtakeWhile (· ≠ '/') = name := by
    rw [List.rtakeWhile, List.reverse_append, List.takeWhile_append_of_pos, List.reverse_append,
      List.reverse_reverse]
    · have hstop : front.reverse.takeWhile (· ≠ '/') = [] := by
        cases hrev : front.reverse with
        | nil => rfl
        | cons x rest =>
          have hx : x = '/' := by
            apply hfront
            rw [← List.head?_reverse, hrev]
            rfl
          simp [hx]
      rw [hstop]
      rfl
    · intro x hx
      have hmem : x ≠ '/' := fun he => hslash (he ▸ List.mem_reverse.mp hx)
      simpa using hmem
  have hwhole : front ++ name ≠ [] := by simp [hne]
  rw [pathGetBasename, cString_self hnul, if_neg hwhole]
  simp only [hlast, if_neg hwhole, htake]

end Names

theorem nul_not_mem_buildFilename (dir name : Text) : '\x00' ∉ buildFilename dir name := by
  have hdir := nul_not_mem_cString dir
  have hname := nul_not_mem_cString name
  unfold buildFilename
  simp only
  split
  · exact hdir
  · split
    · simp [hdir, hname]
    · intro hmem
      rcases List.mem_append.mp hmem with hmem | hmem
      · exact hdir ((List.rdropWhile_prefix _ _).subset hmem)
      · simp [hname] at hmem

theorem basename_outputPath {title : Text} (h : ¬ NamesDirectory (diskName title)) (folder : Text) :
    pathGetBasename (outputPath folder title) = diskName title := by
  have hslash : '/' ∉ diskName title :=
    fun hm => FolderFiles.slash_not_mem_fileName title (mem_cString hm)
  have hne : cString (fileName title) ≠ [] := fun he => h (Or.inl he)
  have hnul := nul_not_mem_buildFilename folder (fileName title)
  rw [outputPath]
  unfold buildFilename at hnul ⊢
  simp only [if_neg hne] at hnul ⊢
  split
  · next hbase =>
    rw [if_pos hbase] at hnul
    refine basename_append hslash hne hnul fun x hx => ?_
    have hall := List.rdropWhile_eq_nil_iff.mp hbase x (List.mem_of_getLast? hx)
    simpa using hall
  · next hbase =>
    rw [if_neg hbase, List.append_cons] at hnul
    rw [List.append_cons]
    refine basename_append hslash hne hnul fun x hx => ?_
    simpa using hx.symm

/-- The libraries read from a file what it holds: a session that was serialised, and any text. -/
structure ReadsBack (env : Environment) (cwd : Location) (files : Files) : Prop where
  sessions : ∀ path port documents, files (resolve cwd (cString path)) = some (.session documents) →
    env.openSession path port = .session documents
  texts : ∀ path text, files (resolve cwd (cString path)) = some (.text text) →
    env.fileGetContents path = .ok text

/-- A command line and a configuration the server can be started with, whatever documents they
name. -/
structure Accepted (net6 : Net6) (p : Parser) (env : Environment) (isDirectory : Location → Bool)
    (cwd : Location) (config : Option ParentEntry) (o : Options) (args : List Text) : Prop where
  settles : ∃ settings, effective net6 p config { o with session := args.head? } = .ok settings ∧
    (settings.autosaveFolder ≠ [] →
      isDirectory (resolve cwd (cString settings.autosaveFolder)) = true)
  port : ∀ port, env.openPort port = .ok ()

section Starts

variable {net6 : Net6} {p : Parser} {env : Environment} {isDirectory : Location → Bool}
  {cwd : Location} {files : Files} {config : Option ParentEntry} {o : Options} {arg : Text}
  {args : List Text}

theorem create_runs (hk : KeepsText net6)
    (h : Accepted net6 p env isDirectory cwd config o (arg :: args)) (harg : arg ≠ [])
    {documents : List Document}
    (hopen : ∀ port, openBuffer env port arg false (arg :: args) = .ok documents) :
    ∃ s, create net6 p env isDirectory cwd files (.ok config) o (arg :: args) [] = .runs s ∧
      s.buffer.session = documents := by
  obtain ⟨settings, hsettings, hdir⟩ := h.settles
  have hsession : settings.session = arg := by
    have htext := (ServerSettings.effective_ok hk hsettings).1 .session
    exact htext.trans (SettingsPrecedence.settled_given harg _)
  obtain ⟨s, hs⟩ : ∃ s, Server.start (autosaveSettings settings) isDirectory (bufferOf documents)
      cwd files = .ok s := by
    unfold Server.start
    by_cases hfolder : settings.autosaveFolder = []
    · exact ⟨_, if_pos hfolder⟩
    · exact ⟨_, (if_neg hfolder).trans (if_pos (hdir hfolder))⟩
  refine ⟨s, ?_, ?_⟩
  · simp only [create, hsettings, if_true, hsession, List.isEmpty_cons, Bool.and_false,
      hopen settings.port, hs]
  · rw [(ServerSaves.start_cases hs).1, session_bufferOf]

theorem open_session (harg : arg ≠ []) {documents : List Document}
    (h : ∀ port, env.openSession arg port = .session documents) (port : ServerSettings.CInt) :
    openBuffer env port arg false (arg :: args) = .ok documents := by
  rw [openBuffer, if_neg harg, h port]

theorem open_documents (harg : arg ≠ [])
    (h : ∀ port, ∃ what, env.openSession arg port = .threw (.std what) [])
    (hport : ∀ port, env.openPort port = .ok ()) {documents : List Document}
    (hload : List.Forall₂ (Loads env) (arg :: args) documents) (port : ServerSettings.CInt) :
    openBuffer env port arg false (arg :: args) = .ok documents := by
  obtain ⟨what, hwhat⟩ := h port
  rw [openBuffer, if_neg harg, hwhat]
  simp only [Bool.false_eq_true, if_false, hport port]
  exact loadFiles_ok.mpr ⟨documents, hload, rfl⟩

end Starts

/-- A server that has returned from an orderly run has everything in its files. -/
theorem returned_saved {settings : ServerSaves.AutosaveSettings} {isDirectory : Location → Bool}
    {buffer : ServerBuffer} {cwd : Location} {files : Files} {s : Server}
    {es : List ServerShutdown.Event} {w : ServerShutdown.World}
    (hs : Server.start settings isDirectory buffer cwd files = .ok s)
    (hC : EveryStep ServerShutdown.step (fun w e => WritesSucceed w e ∧ Orderly w e)
      (ServerShutdown.run s) es)
    (hr : StepMachine.run ServerShutdown.step (ServerShutdown.run s) es = some w)
    (hret : w.phase = .returned) : AllSaved w.server := by
  have hstart : ServerShutdown.Kept (ServerShutdown.run s) := by
    refine ⟨start_connected hs, start_documentsSaved hs _, ?_, ?_⟩
    · intro h
      cases h
    · intro h
      cases h
  exact (run_invariant ServerShutdown.kept_step hstart hC hr).returned hret

def fromFolder (b : ServerBuffer) (d : DocumentInfo) : Document :=
  ⟨diskName (b.document d).title, (b.document d).text⟩

def folderArgs (b : ServerBuffer) (dir : Text) (ds : List DocumentInfo) : List Text :=
  ds.map fun d => outputPath dir (b.document d).title

/-- The files of the documents `d :: ds` are no directories and hold UTF-8, and the first of them
is not taken for a session. -/
structure Loadable (env : Environment) (b : ServerBuffer) (dir : Text) (d : DocumentInfo)
    (ds : List DocumentInfo) : Prop where
  documents : ∀ k ∈ d :: ds, k ∈ b.documents
  names : ∀ k ∈ d :: ds, ¬ NamesDirectory (diskName (b.document k).title)
  utf8 : ∀ k ∈ d :: ds, env.utf8Validate (b.document k).text = true
  plain : ∀ port, ∃ what,
    env.openSession (outputPath dir (b.document d).title) port = .threw (.std what) []

def SessionRestored (net6 : Net6) (env : Environment) (cwd' : Location) (s : Server) : Prop :=
  ∀ p isDirectory config o a arg args, s.autosaver = some a → arg ≠ [] →
    resolve cwd' (cString arg) = s.sessionLocation a →
    Accepted net6 p env isDirectory cwd' config o (arg :: args) →
    ∃ s', create net6 p env isDirectory cwd' s.files (.ok config) o (arg :: args) [] = .runs s' ∧
      s'.buffer.session = s.buffer.session

def DocumentsRestored (net6 : Net6) (env : Environment) (cwd' : Location) (s : Server) : Prop :=
  ∀ p isDirectory config o f dir d ds, s.autosaveFolder = some f →
    resolve cwd' (cString dir) = resolve s.cwd (cString f.folder) →
    Loadable env s.buffer dir d ds →
    Accepted net6 p env isDirectory cwd' config o (folderArgs s.buffer dir (d :: ds)) →
    ∃ s', create net6 p env isDirectory cwd' s.files (.ok config) o
        (folderArgs s.buffer dir (d :: ds)) [] = .runs s' ∧
      s'.buffer.session = (d :: ds).map (fromFolder s.buffer)

theorem outputPath_ne_nil {title : Text} (h : ¬ NamesDirectory (diskName title)) (dir : Text) :
    outputPath dir title ≠ [] := by
  intro hempty
  have hname := basename_outputPath h dir
  rw [hempty] at hname
  apply h
  rw [← hname]
  exact Or.inr (Or.inl rfl)

theorem folder_loads {s : Server} (hsaved : AllSaved s) {f : FolderAutosave.AutoSaveFolder}
    (hf : s.autosaveFolder = some f) {env : Environment} {cwd' : Location} {dir : Text}
    (hdir : resolve cwd' (cString dir) = resolve s.cwd (cString f.folder))
    (hread : ReadsBack env cwd' s.files) {d : DocumentInfo} {ds : List DocumentInfo}
    (hload : Loadable env s.buffer dir d ds) :
    List.Forall₂ (Loads env) (folderArgs s.buffer dir (d :: ds))
      ((d :: ds).map (fromFolder s.buffer)) := by
  rw [folderArgs, List.forall₂_map_left_iff, List.forall₂_map_right_iff, List.forall₂_same]
  intro k hin
  have hnul : '\x00' ∉ outputPath dir (s.buffer.document k).title := nul_not_mem_buildFilename dir _
  have hplace : resolve cwd' (cString (outputPath dir (s.buffer.document k).title)) =
      s.documentLocation f k := by
    rw [cString_self hnul, Server.documentLocation,
      FolderConfinement.resolve_outputPath_enter, FolderConfinement.resolve_outputPath_enter, hdir]
  refine ⟨?_, hload.utf8 k hin, (basename_outputPath (hload.names k hin) dir).symm⟩
  apply hread.texts
  rw [hplace]
  exact hsaved.documents f hf k (hload.documents k hin)

def disk (cwd : Location) (files : Files) : Environment where
  openSession path _ :=
    match files (resolve cwd (cString path)) with
    | some (.session documents) => .session documents
    | _ => .threw (.std "no session".toList) []
  openPort _ := .ok ()
  fileGetContents path :=
    match files (resolve cwd (cString path)) with
    | some (.text text) => .ok text
    | _ => .error (.glib path)
  utf8Validate _ := true

theorem disk_readsBack (cwd : Location) (files : Files) : ReadsBack (disk cwd files) cwd files where
  sessions path port documents h := by simp only [disk, h]
  texts path text h := by simp only [disk, h]

theorem disk_accepted (cwd : Location) (files : Files) (arg : Text) (args : List Text)
    (harg : arg ≠ []) : Accepted ServerSettings.plainContexts ServerSettings.keepingParser
      (disk cwd files) (fun _ => false) cwd none ServerSettings.noOptions (arg :: args) where
  settles := by
    refine ⟨⟨6522, "Standalone obby server".toList, [], "autosave.obby".toList, 0, [], [], [], arg⟩,
      ?_, fun h => absurd rfl h⟩
    rw [ServerSettings.effective_eq ServerSettings.plainContexts_keepsText]
    simp only [List.head?_cons, SettingsPrecedence.settled_given harg]
    rfl
  port _ := rfl

/-- A session that is edited, saved by its timer in the same iteration, and stopped in the next. -/
def oneDay : List ServerShutdown.Event :=
  [.wake, ServerShutdown.edit, .sessionTick acceptsAll.session, .iterationEnds, .wake,
    .term acceptsAll, .iterationEnds]

theorem oneDay_orderly : EveryStep ServerShutdown.step (fun w e => WritesSucceed w e ∧ Orderly w e)
    (ServerShutdown.run office) oneDay := by
  obtain ⟨s, hs⟩ : ∃ s, office.change 1 "new".toList = some s := ⟨_, rfl⟩
  have hnames := ServerShutdown.officeNames_change office_names (by decide) hs
  have happart := officeNames_apart hnames
  have hsucceeds : (s.saveSession acceptsAll.session).Succeeds acceptsAll :=
    ⟨rfl, saveSession_passCompletes (officeNames_succeeds hnames)⟩
  have htick : ServerShutdown.sessionTick s acceptsAll.session =
      some (s.saveSession acceptsAll.session) := by
    obtain rfl := Option.some.inj hs
    rfl
  have hsaved : ServerShutdown.step ⟨s, .dispatching, true⟩ (.sessionTick acceptsAll.session) =
      some ⟨s.saveSession acceptsAll.session, .dispatching, true⟩ := by
    simp only [ServerShutdown.step, ServerShutdown.World.dispatch, htick, if_true, Option.map_some]
  apply everyStep_cons rfl ⟨trivial, ServerShutdown.orderly_wake _⟩
  apply everyStep_cons (ServerShutdown.step_change hs true) ⟨trivial, ServerShutdown.orderly_change _ 1 _⟩
  apply everyStep_cons hsaved ⟨rfl, ServerShutdown.orderly_sessionTick happart.session _⟩
  apply everyStep_cons rfl ⟨trivial, ServerShutdown.orderly_last fun hstopped => by cases hstopped⟩
  apply everyStep_cons rfl ⟨trivial, ServerShutdown.orderly_wake _⟩
  apply everyStep_cons rfl ⟨hsucceeds, ServerShutdown.orderly_signal
    (saveSession_namesApart happart rfl) (Or.inr ⟨acceptsAll, rfl⟩)⟩
  apply everyStep_cons rfl
    ⟨trivial, ServerShutdown.orderly_last fun _ => save_unflagged hsucceeds⟩
  trivial

theorem oneDay_ends : ∃ w a f,
    StepMachine.run ServerShutdown.step (ServerShutdown.run office) oneDay = some w ∧
      w.phase = .returned ∧ w.server.cwd = [] ∧
      w.server.autosaver = some a ∧ a.filename = "autosave.obby".toList ∧
      w.server.autosaveFolder = some f ∧ f.folder = "out".toList ∧
      w.server.buffer.documents = [1] ∧
      w.server.buffer.document 1 = ⟨"notes".toList, "new".toList⟩ :=
  ⟨_, _, _, rfl, rfl, rfl, rfl, rfl, rfl, rfl, rfl, rfl⟩

end ServerRestart
