import Sobby.ServerShutdown
import Sobby.FolderConfinement
import Sobby.FolderQueue
import Sobby.SaveHooks

/-! The files a server can change while its main loop runs: the session file and the direct children
of the folder, as they were configured. Nothing is assumed of the writes; any of them may fail. -/
namespace DiskFootprint

open PathNames
open FileTrees
open SessionBuffer
open Strings (Text cString mem_cString)
open SessionAutosave (AutoSaver SaveOutcome)
open FolderAutosave (AutoSaveFolder StreamOutcome)
open ServerSaves
open SavedFiles
open ServerShutdown

variable {settings : AutosaveSettings} {cwd : Location}

def Given (settings : AutosaveSettings) (cwd x : Location) : Prop :=
  (settings.autosaveFile ≠ [] ∧ x = resolve cwd (cString settings.autosaveFile)) ∨
  (settings.autosaveFolder ≠ [] ∧
    DirectChild (resolve cwd (cString settings.autosaveFolder)) x)

structure Configured (settings : AutosaveSettings) (cwd : Location) (s : Server) : Prop where
  directory : s.cwd = cwd
  saver : ∀ a, s.autosaver = some a →
    settings.autosaveFile ≠ [] ∧ a.filename = settings.autosaveFile ∧
      a.postSaveHook = settings.postSaveHook
  folderSaver : ∀ f, s.autosaveFolder = some f →
    settings.autosaveFolder ≠ [] ∧ f.folder = settings.autosaveFolder

theorem start_configured {isDirectory : Location → Bool} {buffer : ServerBuffer}
    {files : FolderAutosave.Files} {s : Server}
    (h : Server.start settings isDirectory buffer cwd files = .ok s) : Configured settings cwd s := by
  obtain ⟨_, hcwd, _, hsaver, hfolder⟩ := start_cases h
  have hname : ∀ a, s.autosaver = some a →
      a.filename = settings.autosaveFile ∧ a.postSaveHook = settings.postSaveHook := by
    intro a ha
    rw [hsaver a ha]
    exact SaveHooks.create_settings buffer _ _ _
  have hdir : ∀ f, s.autosaveFolder = some f → f.folder = settings.autosaveFolder := by
    intro f hf
    rw [hfolder f hf]
    exact (FolderQueue.create_frame buffer.documents _).1
  have hfile : settings.autosaveFile = [] → s.autosaver = none := by
    intro hnone
    simp only [Server.start, hnone, if_true] at h
    split at h
    · obtain rfl := Except.ok.inj h
      rfl
    · split at h
      · obtain rfl := Except.ok.inj h
        rfl
      · cases h
  have hdirectory : settings.autosaveFolder = [] → s.autosaveFolder = none := by
    intro hnone
    simp only [Server.start, hnone, if_true] at h
    obtain rfl := Except.ok.inj h
    rfl
  refine ⟨hcwd, fun a ha => ⟨fun hnone => ?_, hname a ha⟩, fun f hf => ⟨fun hnone => ?_, hdir f hf⟩⟩
  · rw [hfile hnone] at ha
    cases ha
  · rw [hdirectory hnone] at hf
    cases hf

/-- The savers are the same, whatever they have noted since. -/
structure SameSavers (s s' : Server) : Prop where
  directory : s'.cwd = s.cwd
  saver : ∀ a', s'.autosaver = some a' →
    ∃ a, s.autosaver = some a ∧ a'.filename = a.filename ∧ a'.postSaveHook = a.postSaveHook ∧
      a'.connTimer = a.connTimer
  folderSaver : ∀ f', s'.autosaveFolder = some f' →
    ∃ f, s.autosaveFolder = some f ∧ f'.folder = f.folder ∧ f'.connTimer = f.connTimer

theorem Configured.same {s s' : Server} (hs : Configured settings cwd s) (h : SameSavers s s') :
    Configured settings cwd s' := by
  constructor
  · exact h.directory.trans hs.directory
  · intro a' ha'
    obtain ⟨a, ha, hname, hhook, _⟩ := h.saver a' ha'
    obtain ⟨hne, hfile, hwith⟩ := hs.saver a ha
    exact ⟨hne, hname.trans hfile, hhook.trans hwith⟩
  · intro f' hf'
    obtain ⟨f, hf, hname, _⟩ := h.folderSaver f' hf'
    exact ⟨(hs.folderSaver f hf).1, hname.trans (hs.folderSaver f hf).2⟩

theorem sameSavers_refl (s : Server) : SameSavers s s :=
  ⟨rfl, fun a ha => ⟨a, ha, rfl, rfl, rfl⟩, fun f hf => ⟨f, hf, rfl, rfl⟩⟩

theorem sameSavers_trans {s t u : Server} (h : SameSavers s t) (k : SameSavers t u) :
    SameSavers s u := by
  constructor
  · exact k.directory.trans h.directory
  · intro a'' ha''
    obtain ⟨a', ha', hname', hhook', htimer'⟩ := k.saver a'' ha''
    obtain ⟨a, ha, hname, hhook, htimer⟩ := h.saver a' ha'
    exact ⟨a, ha, hname'.trans hname, hhook'.trans hhook, htimer'.trans htimer⟩
  · intro f'' hf''
    obtain ⟨f', hf', hname', htimer'⟩ := k.folderSaver f'' hf''
    obtain ⟨f, hf, hname, htimer⟩ := h.folderSaver f' hf'
    exact ⟨f, hf, hname'.trans hname, htimer'.trans htimer⟩

section Edits

variable {s s' : Server} {d : DocumentInfo}

theorem told_sameSavers {b : ServerBuffer} {g : AutoSaver → AutoSaver}
    {k : AutoSaveFolder → AutoSaveFolder}
    (hg : ∀ a, (g a).filename = a.filename ∧ (g a).postSaveHook = a.postSaveHook ∧
      (g a).connTimer = a.connTimer)
    (hk : ∀ f, (k f).folder = f.folder ∧ (k f).connTimer = f.connTimer) :
    SameSavers s { s with
      buffer := b, autosaver := s.autosaver.map g, autosaveFolder := s.autosaveFolder.map k } := by
  refine ⟨rfl, ?_, ?_⟩
  · intro a' ha'
    obtain ⟨a, ha, rfl⟩ := Option.map_eq_some_iff.mp ha'
    exact ⟨a, ha, hg a⟩
  · intro f' hf'
    obtain ⟨f, hf, rfl⟩ := Option.map_eq_some_iff.mp hf'
    exact ⟨f, hf, hk f⟩

theorem insert_footprint {doc : Document} (h : s.insert d doc = some s') :
    SameSavers s s' ∧ s'.files = s.files := by
  obtain ⟨b, _, rfl⟩ := Option.map_eq_some_iff.mp h
  exact ⟨told_sameSavers (fun _ => ⟨rfl, rfl, rfl⟩) (fun _ => ⟨rfl, rfl⟩), rfl⟩

theorem remove_footprint (h : s.remove d = some s') : SameSavers s s' ∧ s'.files = s.files := by
  obtain ⟨b, _, rfl⟩ := Option.map_eq_some_iff.mp h
  exact ⟨told_sameSavers (fun _ => ⟨rfl, rfl, rfl⟩) (fun _ => ⟨rfl, rfl⟩), rfl⟩

theorem change_footprint {text : Text} (h : s.change d text = some s') :
    SameSavers s s' ∧ s'.files = s.files := by
  obtain ⟨t, ht, _, rfl⟩ := change_cases h
  obtain ⟨b, _, rfl⟩ := Option.map_eq_some_iff.mp ht
  have hsaver : ∀ a : AutoSaver, (a.changedEvent d).postSaveHook = a.postSaveHook ∧
      (a.changedEvent d).connTimer = a.connTimer := by
    intro a
    unfold AutoSaver.changedEvent
    split
    · exact ⟨rfl, rfl⟩
    · exact ⟨rfl, rfl⟩
  have hfolder : ∀ f : AutoSaveFolder, (f.changedEvent d).connTimer = f.connTimer := by
    intro f
    unfold AutoSaveFolder.changedEvent
    split
    · rfl
    · rfl
  exact ⟨told_sameSavers
    (fun a => ⟨(SessionAutosave.changedEvent_frame a d).1, hsaver a⟩)
    (fun f => ⟨FolderAutosave.changedEvent_folder f d, hfolder f⟩), rfl⟩

end Edits

section Saves

variable {s : Server}

theorem save_attached (a : AutoSaver) (buffer : ServerBuffer) (o : SaveOutcome) :
    (a.save buffer o).1.connTimer = a.connTimer ∧ (a.save buffer o).1.watched = a.watched := by
  cases hr : o.serialise with
  | threw what left =>
    rw [SessionAutosave.save_threw hr]
    exact ⟨rfl, rfl⟩
  | written =>
    obtain ⟨_, _, hsave⟩ := SessionAutosave.save_written hr a buffer
    rw [hsave]
    exact ⟨rfl, rfl⟩

theorem saveSession_sameSavers (s : Server) (o : SaveOutcome) : SameSavers s (s.saveSession o) := by
  obtain ⟨_, hfolder, hcwd⟩ := saveSession_frame s o
  refine ⟨hcwd, ?_, fun f hf => ⟨f, hfolder ▸ hf, rfl, rfl⟩⟩
  intro a' ha'
  cases ha : s.autosaver with
  | none =>
    rw [saveSession_none ha, ha] at ha'
    cases ha'
  | some a =>
    simp only [Server.saveSession, ha] at ha'
    obtain rfl := Option.some.inj ha'
    obtain ⟨hhook, hname⟩ := SaveHooks.save_settings a s.buffer o
    exact ⟨a, rfl, hname, hhook, (save_attached a s.buffer o).1⟩

theorem saveDocuments_sameSavers (s : Server) (o : DocumentInfo → StreamOutcome) :
    SameSavers s (s.saveDocuments o) := by
  obtain ⟨_, hsaver, hcwd⟩ := saveDocuments_frame s o
  refine ⟨hcwd, fun a ha => ⟨a, hsaver ▸ ha, rfl, rfl, rfl⟩, ?_⟩
  intro f' hf'
  cases hf : s.autosaveFolder with
  | none =>
    rw [saveDocuments_none hf, hf] at hf'
    cases hf'
  | some f =>
    rw [saveDocuments_some hf] at hf'
    obtain rfl := Option.some.inj hf'
    exact ⟨f, rfl, rfl, rfl⟩

theorem saveSession_given (hs : Configured settings cwd s) (o : SaveOutcome) {x : Location}
    (hx : (s.saveSession o).files x ≠ s.files x) : Given settings cwd x := by
  cases ha : s.autosaver with
  | none =>
    rw [saveSession_none ha] at hx
    exact absurd rfl hx
  | some a =>
    obtain ⟨hne, hname, _⟩ := hs.saver a ha
    have hlocation : x = s.sessionLocation a := by
      by_contra hother
      simp only [Server.saveSession, ha, Function.update_of_ne hother] at hx
      exact hx rfl
    refine Or.inl ⟨hne, ?_⟩
    rw [hlocation, Server.sessionLocation, hs.directory, hname]

theorem openStream_name {title : Text} {o : StreamOutcome} {bytes : ℕ}
    (h : FolderAutosave.openStream title o = some bytes) :
    ¬ NamesDirectory (FolderFiles.diskName title) := by
  cases o with
  | openFails => cases h
  | accepts n =>
    simp only [FolderAutosave.openStream] at h
    split at h
    · cases h
    · next hname => exact hname

/-- Only what has been opened is written, and a title that leaves the folder opens nothing. -/
theorem saveDocuments_given (hs : Configured settings cwd s) (o : DocumentInfo → StreamOutcome)
    {x : Location} (hx : (s.saveDocuments o).files x ≠ s.files x) : Given settings cwd x := by
  cases hf : s.autosaveFolder with
  | none =>
    rw [saveDocuments_none hf] at hx
    exact absurd rfl hx
  | some f =>
    obtain ⟨hne, hfolder⟩ := hs.folderSaver f hf
    rw [saveDocuments_files hf] at hx
    have hwritten : ∃ write, .wrote write ∈ (f.save s.buffer o).2 ∧ resolve s.cwd write.path = x := by
      by_contra hnone
      refine hx (FolderFiles.filesAfter_other ?_ s.files)
      exact fun write hw he => hnone ⟨write, hw, he⟩
    obtain ⟨write, hw, rfl⟩ := hwritten
    obtain ⟨d, _, bytes, hopen, rfl⟩ :=
      FolderAutosave.saveLoop_write _ _ (FolderAutosave.wrote_mem.mp hw)
    refine Or.inr ⟨hne, FolderFiles.diskName (s.buffer.document d).title, ?_, ?_, ?_⟩
    · rw [FolderFiles.resolve_outputPath hopen, hs.directory, hfolder]
    · exact FolderConfinement.slash_not_mem_diskName _
    · exact openStream_name hopen

end Saves

theorem saveSession_connected {s : Server} (hs : Connected s) (o : SaveOutcome) :
    Connected (s.saveSession o) := by
  obtain ⟨hbuffer, hfolder, _⟩ := saveSession_frame s o
  constructor
  · intro a' ha' d hd
    cases ha : s.autosaver with
    | none =>
      rw [saveSession_none ha, ha] at ha'
      cases ha'
    | some a =>
      simp only [Server.saveSession, ha] at ha'
      obtain rfl := Option.some.inj ha'
      rw [(save_attached a s.buffer o).2]
      exact hs.watched a ha d (hbuffer ▸ hd)
  · intro f hf
    have hk := hs.keyed f (hfolder ▸ hf)
    rw [folderWorld, hbuffer]
    exact ⟨hk.keys, hk.watched⟩

theorem save_kept {s : Server} (hs : Configured settings cwd s) (o : SaveAnswer) :
    Configured settings cwd (s.save o) ∧
      ∀ x, (s.save o).files x ≠ s.files x → Given settings cwd x := by
  have hfirst : Configured settings cwd (s.saveSession o.session) :=
    hs.same (saveSession_sameSavers s o.session)
  refine ⟨hfirst.same (saveDocuments_sameSavers _ o.documents), ?_⟩
  intro x hx
  by_cases hsame : (s.saveSession o.session).files x = s.files x
  · rw [← hsame] at hx
    exact saveDocuments_given hfirst o.documents hx
  · exact saveSession_given hs o.session hsame

structure Keeps (settings : AutosaveSettings) (cwd : Location) (w w' : World) : Prop where
  configured : Configured settings cwd w'.server
  files : ∀ x, w'.server.files x ≠ w.server.files x → Given settings cwd x
  connected : Connected w.server → Connected w'.server

theorem keeps_same {w w' : World} (hs : Configured settings cwd w.server)
    (h : w'.server = w.server) : Keeps settings cwd w w' :=
  ⟨h ▸ hs, fun x hx => absurd (by rw [h]) hx, fun hc => h ▸ hc⟩

theorem keeps_edit {w : World} {s : Server} (hs : Configured settings cwd w.server)
    (h : SameSavers w.server s ∧ s.files = w.server.files)
    (hc : Connected w.server → Connected s) : Keeps settings cwd w { w with server := s } :=
  ⟨hs.same h.1, fun x hx => absurd (congrFun h.2 x) hx, hc⟩

theorem keeps_sessionTick {w : World} {o : SaveOutcome} {s : Server}
    (hs : Configured settings cwd w.server) (h : sessionTick w.server o = some s) :
    Keeps settings cwd w { w with server := s } := by
  rcases sessionTick_cases h with rfl | rfl
  · exact keeps_same hs rfl
  · exact ⟨hs.same (saveSession_sameSavers _ o), fun x hx => saveSession_given hs o hx,
      fun hc => saveSession_connected hc o⟩

theorem keeps_save {w : World} (hs : Configured settings cwd w.server) (o : SaveAnswer)
    (running : Bool) :
    Keeps settings cwd w { w with server := w.server.save o, running := running } := by
  obtain ⟨hconfigured, hfiles⟩ := save_kept hs o
  exact ⟨hconfigured, hfiles, fun hc => saveDocuments_connected (saveSession_connected hc _) _⟩

theorem step_keeps {w w' : World} {e : Event} (hs : Configured settings cwd w.server)
    (h : step w e = some w') : Keeps settings cwd w w' := by
  cases e with
  | wake =>
    simp only [step] at h
    split at h
    · obtain rfl := Option.some.inj h
      exact keeps_same hs rfl
    · cases h
  | insert d doc =>
    obtain ⟨_, s, hi, rfl⟩ := dispatch_cases h
    exact keeps_edit hs (insert_footprint hi) fun hc => insert_connected hc hi
  | remove d =>
    obtain ⟨_, s, hr, rfl⟩ := dispatch_cases h
    exact keeps_edit hs (remove_footprint hr) fun hc => remove_connected hc hr
  | change d text =>
    obtain ⟨_, s, ht, rfl⟩ := dispatch_cases h
    exact keeps_edit hs (change_footprint ht) fun hc => change_connected hc ht
  | sessionTick o =>
    obtain ⟨_, s, ht, rfl⟩ := dispatch_cases h
    exact keeps_sessionTick hs ht
  | folderTick o =>
    obtain ⟨_, s, ht, rfl⟩ := dispatch_cases h
    obtain rfl := folderTick_cases ht
    exact ⟨hs.same (saveDocuments_sameSavers _ o), fun x hx => saveDocuments_given hs o hx,
      fun hc => saveDocuments_connected hc o⟩
  | iterationEnds =>
    simp only [step] at h
    split at h
    · obtain rfl := Option.some.inj h
      exact keeps_same hs rfl
    · cases h
  | usr1 o =>
    obtain ⟨_, rfl⟩ := interrupt_cases h
    exact keeps_save hs o w.running
  | term o =>
    obtain ⟨_, rfl⟩ := interrupt_cases h
    exact keeps_save hs o false

theorem step_buffer {w w' : World} {e : Event} (h : step w e = some w') (he : ¬ e.Edits) :
    w'.server.buffer = w.server.buffer := by
  cases e with
  | wake =>
    simp only [step] at h
    split at h
    · obtain rfl := Option.some.inj h
      rfl
    · cases h
  | insert d doc => exact absurd trivial he
  | remove d => exact absurd trivial he
  | change d text => exact absurd trivial he
  | sessionTick o =>
    obtain ⟨_, s, ht, rfl⟩ := dispatch_cases h
    rcases sessionTick_cases ht with rfl | rfl
    · rfl
    · exact (saveSession_frame _ o).1
  | folderTick o =>
    obtain ⟨_, s, ht, rfl⟩ := dispatch_cases h
    obtain rfl := folderTick_cases ht
    exact (saveDocuments_frame _ o).1
  | iterationEnds =>
    simp only [step] at h
    split at h
    · obtain rfl := Option.some.inj h
      rfl
    · cases h
  | usr1 o =>
    obtain ⟨_, rfl⟩ := interrupt_cases h
    exact save_buffer w.server o
  | term o =>
    obtain ⟨_, rfl⟩ := interrupt_cases h
    exact save_buffer w.server o

theorem dispatch_running {w w' : World} {served : Option Server} (h : w.dispatch served = some w') :
    w'.running = w.running ∧ w'.phase = .dispatching := by
  obtain ⟨hp, s, _, rfl⟩ := dispatch_cases h
  exact ⟨rfl, hp⟩

theorem step_running {w w' : World} {e : Event} (h : step w e = some w') :
    (w'.running = false ↔ w.running = false ∨ ∃ o, e = .term o) ∧
      (w'.phase = .returned → w'.running = false) := by
  have hdispatched : (∀ o, e ≠ .term o) → w'.running = w.running ∧ w'.phase = .dispatching →
      (w'.running = false ↔ w.running = false ∨ ∃ o, e = .term o) ∧
        (w'.phase = .returned → w'.running = false) := by
    rintro he ⟨hrunning, hphase⟩
    refine ⟨?_, fun hp => by rw [hphase] at hp; cases hp⟩
    rw [hrunning]
    exact ⟨Or.inl, fun h => h.resolve_right fun ⟨o, ho⟩ => he o ho⟩
  cases e with
  | wake =>
    simp only [step] at h
    split at h
    · obtain rfl := Option.some.inj h
      exact hdispatched (by simp) ⟨rfl, rfl⟩
    · cases h
  | insert d doc => exact hdispatched (by simp) (dispatch_running h)
  | remove d => exact hdispatched (by simp) (dispatch_running h)
  | change d text => exact hdispatched (by simp) (dispatch_running h)
  | sessionTick o => exact hdispatched (by simp) (dispatch_running h)
  | folderTick o => exact hdispatched (by simp) (dispatch_running h)
  | iterationEnds =>
    simp only [step] at h
    split at h
    · obtain rfl := Option.some.inj h
      refine ⟨by simp, ?_⟩
      intro hp
      cases hrunning : w.running with
      | true => simp [hrunning] at hp
      | false => rfl
    · cases h
  | usr1 o =>
    obtain ⟨hp, rfl⟩ := interrupt_cases h
    exact ⟨by simp, fun hreturned => absurd hreturned hp⟩
  | term o =>
    obtain ⟨hp, rfl⟩ := interrupt_cases h
    exact ⟨by simp, fun _ => rfl⟩

end DiskFootprint
