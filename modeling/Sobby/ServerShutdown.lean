import Sobby.StepMachine
import Sobby.SavedFiles

/-! The main loop and the signal handlers. SIGTERM saves at once and asks the loop to stop, but the
loop first dispatches what else is ready in the iteration, and nothing is saved after it. -/
namespace ServerShutdown

open StepMachine
open SessionBuffer
open PathNames
open Strings (Text)
open SessionAutosave (AutoSaver SaveOutcome)
open FolderAutosave (StreamOutcome)
open ServerSaves
open SavedFiles

/-- Where `Server::run` is: waiting for sources, between two of those that are ready, or done. -/
inductive Phase where
  | waiting
  | dispatching
  | returned
  deriving DecidableEq, Repr

/-- `running` is what `quit` takes back from the main loop. -/
structure World where
  server : Server
  phase : Phase
  running : Bool

def run (s : Server) : World := ⟨s, .waiting, true⟩

inductive Event where
  | wake
  | insert (d : DocumentInfo) (doc : Document)
  | remove (d : DocumentInfo)
  | change (d : DocumentInfo) (text : Text)
  | sessionTick (o : SaveOutcome)
  | folderTick (o : DocumentInfo → StreamOutcome)
  | iterationEnds
  | usr1 (o : SaveAnswer)
  | term (o : SaveAnswer)

/-- `AutoSaver::on_timer`, called by the timer of the constructor only. -/
def sessionTick (s : Server) (o : SaveOutcome) : Option Server :=
  match s.autosaver with
  | none => none
  | some a =>
    if a.connTimer = none then none
    else if a.hasModification then some (s.saveSession o) else some s

/-- `AutoSaveFolder::on_timer` -/
def folderTick (s : Server) (o : DocumentInfo → StreamOutcome) : Option Server :=
  match s.autosaveFolder with
  | none => none
  | some f => if f.connTimer = none then none else some (s.saveDocuments o)

def World.dispatch (w : World) (served : Option Server) : Option World :=
  if w.phase = .dispatching then served.map fun s => { w with server := s } else none

/-- A signal handler runs between two steps of the server. -/
def World.interrupt (w : World) (served : World) : Option World :=
  if w.phase = .returned then none else some served

def step (w : World) : Event → Option World
  | .wake => if w.phase = .waiting then some { w with phase := .dispatching } else none
  | .insert d doc => w.dispatch (w.server.insert d doc)
  | .remove d => w.dispatch (w.server.remove d)
  | .change d text => w.dispatch (w.server.change d text)
  | .sessionTick o => w.dispatch (sessionTick w.server o)
  | .folderTick o => w.dispatch (folderTick w.server o)
  | .iterationEnds =>
    if w.phase = .dispatching then
      some { w with phase := if w.running then .waiting else .returned }
    else none
  | .usr1 o => w.interrupt { w with server := w.server.save o }
  | .term o => w.interrupt { w with server := w.server.save o, running := false }

def Event.Edits : Event → Prop
  | .insert _ _ | .remove _ | .change _ _ => True
  | _ => False

def Event.SavesDocuments : Event → Prop
  | .folderTick _ | .usr1 _ | .term _ => True
  | _ => False

def WritesSucceed (w : World) : Event → Prop
  | .sessionTick o => o.serialise = .written
  | .folderTick o => PassCompletes w.server o
  | .usr1 o | .term o => w.server.Succeeds o
  | _ => True

/-- The session is not saved over a document, no save of documents meets two files of one name, no
document is removed once the loop is to stop and the session saver has nothing to save, and no flag
is left when the last iteration ends. -/
structure Orderly (w : World) (e : Event) : Prop where
  session : ∀ o, e = .sessionTick o → SessionApart w.server
  documents : e.SavesDocuments → NamesApart w.server
  removal : ∀ d, e = .remove d → w.running = true ∨
    ∀ a, w.server.autosaver = some a → a.hasModification = true
  last : e = .iterationEnds → w.running = false → Unflagged w.server

theorem dispatch_cases {w w' : World} {served : Option Server} (h : w.dispatch served = some w') :
    w.phase = .dispatching ∧ ∃ s, served = some s ∧ w' = { w with server := s } := by
  unfold World.dispatch at h
  split at h
  · next hp =>
    obtain ⟨s, hs, rfl⟩ := Option.map_eq_some_iff.mp h
    exact ⟨hp, s, hs, rfl⟩
  · cases h

theorem interrupt_cases {w w' served : World} (h : w.interrupt served = some w') :
    w.phase ≠ .returned ∧ w' = served := by
  unfold World.interrupt at h
  split at h
  · cases h
  · next hp => exact ⟨hp, (Option.some.inj h).symm⟩

theorem sessionTick_cases {s s' : Server} {o : SaveOutcome} (h : sessionTick s o = some s') :
    s' = s ∨ s' = s.saveSession o := by
  unfold sessionTick at h
  split at h
  · cases h
  · split at h
    · cases h
    · split at h
      · exact Or.inr (Option.some.inj h).symm
      · exact Or.inl (Option.some.inj h).symm

theorem folderTick_cases {s s' : Server} {o : DocumentInfo → StreamOutcome}
    (h : folderTick s o = some s') : s' = s.saveDocuments o := by
  unfold folderTick at h
  split at h
  · cases h
  · split at h
    · cases h
    · exact (Option.some.inj h).symm

def SessionExact (s : Server) : Prop :=
  ∀ a, s.autosaver = some a → a.hasModification = false →
    s.files (s.sessionLocation a) = some (.session s.buffer.session)

theorem sessionExact_of_modified {s : Server}
    (h : ∀ a, s.autosaver = some a → a.hasModification = true) : SessionExact s := by
  intro a ha hm
  rw [h a ha] at hm
  cases hm

theorem allSaved_of_unflagged {s : Server} (hu : Unflagged s) (hs : SessionExact s)
    (hd : DocumentsSaved s fun _ => False) : AllSaved s := by
  constructor
  · intro a ha
    exact hs a ha (hu.session a ha)
  · intro f hf d hmem
    exact hd f hf d hmem id (hu.documents f hf d)

structure Kept (w : World) : Prop where
  connected : Connected w.server
  documents : DocumentsSaved w.server fun _ => False
  stopped : w.running = false → SessionExact w.server
  returned : w.phase = .returned → AllSaved w.server

theorem kept_dispatched {w : World} (hp : w.phase = .dispatching) {s : Server}
    (hc : Connected s) (hd : DocumentsSaved s fun _ => False)
    (hs : w.running = false → SessionExact s) : Kept { w with server := s } where
  connected := hc
  documents := hd
  stopped := hs
  returned := fun h => absurd (hp.symm.trans h) (by decide)

theorem kept_sessionTick {w : World} (hw : Kept w) (hp : w.phase = .dispatching)
    (hn : SessionApart w.server) {o : SaveOutcome} (ho : o.serialise = .written) :
    Kept { w with server := w.server.saveSession o } := by
  apply kept_dispatched hp
  · exact saveSession_connected hw.connected ho
  · exact saveSession_documentsSaved hn hw.documents ho
  · intro _ a ha _
    exact saveSession_exact ho ha

theorem kept_folderTick {w : World} (hw : Kept w) (hp : w.phase = .dispatching)
    (hn : NamesApart w.server) {o : DocumentInfo → StreamOutcome}
    (ho : PassCompletes w.server o) : Kept { w with server := w.server.saveDocuments o } := by
  obtain ⟨hbuffer, hsaver, hcwd⟩ := saveDocuments_frame w.server o
  apply kept_dispatched hp
  · exact saveDocuments_connected hw.connected o
  · exact saveDocuments_documentsSaved hw.connected hn hw.documents ho
  · intro hr a ha hm
    rw [hsaver] at ha
    rw [Server.sessionLocation, hcwd, hbuffer]
    exact (saveDocuments_sessionFile hw.connected hn ho ha).trans (hw.stopped hr a ha hm)

/-- Both handlers save; whether the loop goes on makes no difference. -/
theorem kept_signal {w : World} (hw : Kept w) (hp : w.phase ≠ .returned)
    (hn : NamesApart w.server) {o : SaveAnswer} (ho : w.server.Succeeds o) (running : Bool) :
    Kept { w with server := w.server.save o, running := running } where
  connected := save_connected hw.connected ho
  documents := save_documentsSaved hw.connected hn hw.documents ho
  stopped := fun _ _ ha _ => save_sessionFile hw.connected hn ho ha
  returned := fun h => absurd h hp

theorem kept_step (w : World) (e : Event) (w' : World) (hw : Kept w)
    (hC : WritesSucceed w e ∧ Orderly w e) (h : step w e = some w') : Kept w' := by
  obtain ⟨ho, hsession, hdocuments, hremoval, hlast⟩ := hC
  cases e with
  | wake =>
    simp only [step] at h
    split at h
    · obtain rfl := Option.some.inj h
      exact ⟨hw.connected, hw.documents, hw.stopped, fun hp => by cases hp⟩
    · cases h
  | insert d doc =>
    obtain ⟨hp, s, hs, rfl⟩ := dispatch_cases h
    apply kept_dispatched hp
    · exact insert_connected hw.connected hs
    · exact insert_documentsSaved hw.documents hs
    · exact fun _ => sessionExact_of_modified fun a ha => insert_modified hs ha
  | remove d =>
    obtain ⟨hp, s, hs, rfl⟩ := dispatch_cases h
    apply kept_dispatched hp
    · exact remove_connected hw.connected hs
    · exact remove_documentsSaved hw.documents hs
    · intro hr
      rcases hremoval d rfl with hrunning | hmodified
      · rw [hr] at hrunning
        cases hrunning
      · exact sessionExact_of_modified fun a ha => remove_modified hmodified hs ha
  | change d text =>
    obtain ⟨hp, s, hs, rfl⟩ := dispatch_cases h
    apply kept_dispatched hp
    · exact change_connected hw.connected hs
    · exact change_documentsSaved hw.connected hw.documents hs
    · exact fun _ => sessionExact_of_modified fun a ha => change_modified hw.connected hs ha
  | sessionTick o =>
    obtain ⟨hp, s, hs, rfl⟩ := dispatch_cases h
    rcases sessionTick_cases hs with rfl | rfl
    · exact hw
    · exact kept_sessionTick hw hp (hsession o rfl) ho
  | folderTick o =>
    obtain ⟨hp, s, hs, rfl⟩ := dispatch_cases h
    rw [folderTick_cases hs]
    exact kept_folderTick hw hp (hdocuments trivial) ho
  | iterationEnds =>
    simp only [step] at h
    split at h
    · obtain rfl := Option.some.inj h
      refine ⟨hw.connected, hw.documents, hw.stopped, ?_⟩
      intro hp
      cases hr : w.running with
      | true => simp [hr] at hp
      | false => exact allSaved_of_unflagged (hlast rfl hr) (hw.stopped hr) hw.documents
    · cases h
  | usr1 o =>
    obtain ⟨hp, rfl⟩ := interrupt_cases h
    exact kept_signal hw hp (hdocuments trivial) ho w.running
  | term o =>
    obtain ⟨hp, rfl⟩ := interrupt_cases h
    exact kept_signal hw hp (hdocuments trivial) ho false

/-- When `run` has returned, the session and every document are in their files, unless an edit
dispatched after SIGTERM was left unsaved or two files have one name. -/
theorem shutdown_saves_all (settings : AutosaveSettings) (isDirectory : Location → Bool)
    (buffer : ServerBuffer) (cwd : Location) (files : FolderAutosave.Files) (s : Server)
    (hs : Server.start settings isDirectory buffer cwd files = .ok s) (es : List Event)
    (hC : EveryStep step (fun w e => WritesSucceed w e ∧ Orderly w e) (run s) es) :
    Always step (fun w => w.phase = .returned → AllSaved w.server) (run s) es := by
  have hstart : Kept (run s) := by
    refine ⟨start_connected hs, start_documentsSaved hs _, ?_, ?_⟩
    · intro h
      cases h
    · intro h
      cases h
  exact always_mono (fun w hw => hw.returned) (always_of_invariant kept_step hstart hC)

theorem edit_frame {w w' : World} {e : Event} (he : e.Edits) (h : step w e = some w')
    {a : AutoSaver} (ha : w.server.autosaver = some a) :
    w'.server.files = w.server.files ∧ w'.running = w.running ∧ w'.phase = .dispatching ∧
      ∃ a', w'.server.autosaver = some a' ∧
        w'.server.sessionLocation a' = w.server.sessionLocation a := by
  cases e with
  | insert d doc =>
    obtain ⟨hp, s, hs, rfl⟩ := dispatch_cases h
    obtain ⟨b, _, rfl⟩ := Option.map_eq_some_iff.mp hs
    exact ⟨rfl, rfl, hp, a.onDocumentInsert d, by simp [ha], rfl⟩
  | remove d =>
    obtain ⟨hp, s, hs, rfl⟩ := dispatch_cases h
    obtain ⟨b, _, rfl⟩ := Option.map_eq_some_iff.mp hs
    exact ⟨rfl, rfl, hp, (a.onDocumentRemove d).disconnect d, by simp [ha], rfl⟩
  | change d text =>
    obtain ⟨hp, s, hs, rfl⟩ := dispatch_cases h
    obtain ⟨t, ht, _, rfl⟩ := change_cases hs
    obtain ⟨b, _, rfl⟩ := Option.map_eq_some_iff.mp ht
    have hname := (SessionAutosave.changedEvent_frame a d).1
    refine ⟨rfl, rfl, hp, a.changedEvent d, ?_, ?_⟩
    · simp [Server.notifySaver, Server.notifyFolder, ha]
    · rw [Server.sessionLocation, hname, Server.sessionLocation]
      simp only [Server.notifySaver, Server.notifyFolder]
  | wake => exact he.elim
  | sessionTick o => exact he.elim
  | folderTick o => exact he.elim
  | iterationEnds => exact he.elim
  | usr1 o => exact he.elim
  | term o => exact he.elim

/-- What the signal handler does not do for the edits dispatched after it, nothing else does. -/
theorem late_edit_is_lost {w w' : World} {e : Event} (hr : w.running = false)
    (hs : AllSaved w.server) (ha : w.server.autosaver ≠ none) (he : e.Edits)
    (h : step w e = some w') (hne : w'.server.buffer.session ≠ w.server.buffer.session) :
    ∃ t, step w' .iterationEnds = some t ∧ t.phase = .returned ∧ ¬ AllSaved t.server := by
  obtain ⟨a, ha⟩ := Option.ne_none_iff_exists'.mp ha
  obtain ⟨hfiles, hrunning, hphase, a', ha', hlocation⟩ := edit_frame he h ha
  refine ⟨{ w' with phase := .returned }, ?_, rfl, ?_⟩
  · simp [step, hphase, hrunning, hr]
  · intro hall
    have hnew := hall.session a' ha'
    have hold := hs.session a ha
    apply hne
    have hfile : w'.server.files (w'.server.sessionLocation a') =
        some (.session w.server.buffer.session) := by rw [hlocation, hfiles, hold]
    have hboth := hnew.symm.trans hfile
    simpa using hboth

theorem officeNames_change {s s' : Server} {d : DocumentInfo} {text : Text} (hs : OfficeNames s)
    (ht : text.length ≤ 1000) (h : s.change d text = some s') : OfficeNames s' := by
  obtain ⟨t, hchange, _, rfl⟩ := change_cases h
  obtain ⟨b, hb, rfl⟩ := Option.map_eq_some_iff.mp hchange
  obtain ⟨_, hdocs, hdocument⟩ := change_spec hb
  have hfolder : ∀ f : FolderAutosave.AutoSaveFolder, (f.changedEvent d).folder = f.folder :=
    fun f => FolderAutosave.changedEvent_folder f d
  have hfile : ∀ a : AutoSaver, (a.changedEvent d).filename = a.filename :=
    fun a => (SessionAutosave.changedEvent_frame a d).1
  constructor
  · exact hdocs.trans hs.documents
  · intro k
    by_cases hk : k = d
    · simpa [Server.notifyFolder, Server.notifySaver, hdocument, hk] using hs.titles d
    · simpa [Server.notifyFolder, Server.notifySaver, hdocument, hk] using hs.titles k
  · intro k
    by_cases hk : k = d
    · simpa [Server.notifyFolder, Server.notifySaver, hdocument, hk] using ht
    · simpa [Server.notifyFolder, Server.notifySaver, hdocument, hk] using hs.texts k
  · simpa [Server.notifyFolder, Server.notifySaver, Function.comp_def, hfolder] using hs.folder
  · simpa [Server.notifyFolder, Server.notifySaver, Function.comp_def, hfile] using hs.file
  · exact hs.cwd

section Order

variable {w : World} {e : Event}

theorem orderly_wake (w : World) : Orderly w .wake :=
  ⟨by simp, fun h => h.elim, by simp, by simp⟩

theorem orderly_change (w : World) (d : DocumentInfo) (text : Text) : Orderly w (.change d text) :=
  ⟨by simp, fun h => h.elim, by simp, by simp⟩

theorem orderly_sessionTick (hn : SessionApart w.server) (o : SaveOutcome) :
    Orderly w (.sessionTick o) :=
  ⟨fun _ _ => hn, fun h => h.elim, by simp, by simp⟩

theorem orderly_signal (hn : NamesApart w.server) (he : (∃ o, e = .usr1 o) ∨ ∃ o, e = .term o) :
    Orderly w e := by
  rcases he with ⟨o, rfl⟩ | ⟨o, rfl⟩
  · exact ⟨by simp, fun _ => hn, by simp, by simp⟩
  · exact ⟨by simp, fun _ => hn, by simp, by simp⟩

theorem orderly_last (hu : w.running = false → Unflagged w.server) : Orderly w .iterationEnds :=
  ⟨by simp, fun h => h.elim, by simp, fun _ => hu⟩

end Order

theorem step_change {s s' : Server} {d : DocumentInfo} {text : Text} (h : s.change d text = some s')
    (running : Bool) : step ⟨s, .dispatching, running⟩ (.change d text) =
      some ⟨s', .dispatching, running⟩ := by
  simp only [step, World.dispatch, h, if_true, Option.map_some]

def edit : Event := .change 1 "new".toList

theorem edit_before_term_is_saved :
    ∃ w, StepMachine.run step (run office) [.wake, edit, .term acceptsAll, .iterationEnds] =
        some w ∧ w.phase = .returned ∧ AllSaved w.server := by
  have hC : EveryStep step (fun w e => WritesSucceed w e ∧ Orderly w e) (run office)
      [.wake, edit, .term acceptsAll, .iterationEnds] := by
    obtain ⟨s, hs⟩ : ∃ s, office.change 1 "new".toList = some s := ⟨_, rfl⟩
    have hnames := officeNames_change office_names (by decide) hs
    have hunflagged := save_unflagged (officeNames_succeeds hnames)
    apply everyStep_cons rfl ⟨trivial, orderly_wake _⟩
    apply everyStep_cons (step_change hs true) ⟨trivial, orderly_change _ 1 _⟩
    apply everyStep_cons rfl ⟨officeNames_succeeds hnames,
      orderly_signal (officeNames_apart hnames) (Or.inr ⟨acceptsAll, rfl⟩)⟩
    apply everyStep_cons rfl ⟨trivial, orderly_last fun _ => hunflagged⟩
    trivial
  have hall := shutdown_saves_all _ _ _ _ _ _ office_accepted _ hC
  obtain ⟨w, hr, hp⟩ : ∃ w, StepMachine.run step (run office)
      [.wake, edit, .term acceptsAll, .iterationEnds] = some w ∧ w.phase = .returned := ⟨_, rfl, rfl⟩
  exact ⟨w, hr, hp, always_last hall hr hp⟩

/-- Every write succeeds and all names are apart, but the edit that is dispatched after SIGTERM is
in neither file when the server has returned. -/
theorem edit_after_term_is_lost :
    EveryStep step WritesSucceed (run office) [.wake, .term acceptsAll, edit, .iterationEnds] ∧
    ∃ w, StepMachine.run step (run office) [.wake, .term acceptsAll, edit, .iterationEnds] =
        some w ∧ w.phase = .returned ∧ (w.server.buffer.document 1).text = "new".toList ∧
      w.server.files ["out".toList, "notes".toList] = some (.text "text".toList) ∧
      w.server.files ["autosave.obby".toList] =
        some (.session [⟨"notes".toList, "text".toList⟩]) := by
  constructor
  · apply everyStep_cons rfl trivial
    refine everyStep_cons rfl (officeNames_succeeds office_names) ?_
    apply everyStep_cons rfl trivial
    apply everyStep_cons rfl trivial
    trivial
  · refine ⟨_, rfl, rfl, ?_, ?_, ?_⟩
    · decide
    · decide
    · decide

end ServerShutdown
