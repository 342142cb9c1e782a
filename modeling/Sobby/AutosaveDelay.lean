import Sobby.TimedRuns
import Sobby.DiskFootprint

/-! How old the files can be. The timers of the savers come round once in a period, and the main
loop may be late for them. If nothing fails, a file holds what was so a period ago, or later. -/
namespace AutosaveDelay

open StepMachine
open TimedRuns
open SessionBuffer
open PathNames
open Strings (Text)
open SessionAutosave (AutoSaver SaveOutcome)
open FolderAutosave (AutoSaveFolder StreamOutcome)
open ServerSaves
open SavedFiles
open ServerShutdown (sessionTick folderTick SessionExact)
open DiskFootprint (SameSavers)

/-- How many milliseconds ago the timers were started or came round last. -/
structure World where
  server : Server
  sinceSession : ℕ
  sinceFolder : ℕ

def start (s : Server) : World := ⟨s, 0, 0⟩

inductive Event where
  | advance (ms : ℕ)
  | insert (d : DocumentInfo) (doc : Document)
  | remove (d : DocumentInfo)
  | change (d : DocumentInfo) (text : Text)
  | sessionTick (o : SaveOutcome)
  | folderTick (o : DocumentInfo → StreamOutcome)
  | save (o : SaveAnswer)

def Event.time : Event → ℕ
  | .advance ms => ms
  | _ => 0

def sessionPeriod (s : Server) : Option ℕ := s.autosaver.bind AutoSaver.connTimer

def folderPeriod (s : Server) : Option ℕ := s.autosaveFolder.bind AutoSaveFolder.connTimer

def World.onTime (late : ℕ) (w : World) : Bool :=
  (sessionPeriod w.server).all (fun p => w.sinceSession ≤ p + late) &&
    (folderPeriod w.server).all (fun p => w.sinceFolder ≤ p + late)

def World.advance (w : World) (ms : ℕ) : World :=
  { w with sinceSession := w.sinceSession + ms, sinceFolder := w.sinceFolder + ms }

/-- A timer comes round when its period is over, and then begins anew. -/
def step (late : ℕ) (w : World) : Event → Option World
  | .advance ms => if (w.advance ms).onTime late then some (w.advance ms) else none
  | .insert d doc => (w.server.insert d doc).map fun s => { w with server := s }
  | .remove d => (w.server.remove d).map fun s => { w with server := s }
  | .change d text => (w.server.change d text).map fun s => { w with server := s }
  | .sessionTick o =>
    if (sessionPeriod w.server).any (fun p => p ≤ w.sinceSession) then
      (sessionTick w.server o).map fun s => { w with server := s, sinceSession := 0 }
    else none
  | .folderTick o =>
    if (folderPeriod w.server).any (fun p => p ≤ w.sinceFolder) then
      (folderTick w.server o).map fun s => { w with server := s, sinceFolder := 0 }
    else none
  | .save o => some { w with server := w.server.save o }

def Event.SavesDocuments : Event → Prop
  | .folderTick _ | .save _ => True
  | _ => False

def Event.Inserts (d : DocumentInfo) (e : Event) : Prop := ∃ doc, e = .insert d doc

def WritesSucceed (w : World) : Event → Prop
  | .sessionTick o => o.serialise = .written
  | .folderTick o => PassCompletes w.server o
  | .save o => w.server.Succeeds o
  | _ => True

/-- No write fails, the session is not saved over a document, and no save of documents meets two
files of one name. -/
structure Undisturbed (w : World) (e : Event) : Prop where
  writes : WritesSucceed w e
  session : ∀ o, e = .sessionTick o → SessionApart w.server
  documents : e.SavesDocuments → NamesApart w.server

def InSessionFile (s : Server) (a : AutoSaver) (past : World) : Prop :=
  Covers (s.files (s.sessionLocation a)) past.server.buffer

def InOwnFile (s : Server) (f : AutoSaveFolder) (d : DocumentInfo) (past : World) : Prop :=
  d ∈ past.server.buffer.documents ∧
    s.files (s.documentLocation f d) = some (.text (past.server.buffer.document d).text)

/-- Asked of a run and its last state: no file is older than the period of its timer and the
lateness of the loop together, unless the server or the document is younger than that. -/
structure Timely (late : ℕ) (begun : World) (es : List Event) (w : World) : Prop where
  session : ∀ a, w.server.autosaver = some a → ∀ p, a.connTimer = some p →
    elapsed Event.time es ≤ p + late ∨
      Recently (step late) Event.time (p + late) (InSessionFile w.server a) begun es
  documents : ∀ f, w.server.autosaveFolder = some f → ∀ p, f.connTimer = some p →
    ∀ d ∈ w.server.buffer.documents, elapsed Event.time es ≤ p + late ∨
      Happened Event.time (p + late) (Event.Inserts d) es ∨
      Recently (step late) Event.time (p + late) (InOwnFile w.server f d) begun es

structure Kept (late : ℕ) (begun : World) (es : List Event) (w : World) : Prop where
  ran : run (step late) begun es = some w
  onTime : w.onTime late = true
  connected : Connected w.server
  documentsSaved : DocumentsSaved w.server fun _ => False
  sessionSaved : SessionSaved w.server
  session : ∀ a, w.server.autosaver = some a → elapsed Event.time es ≤ w.sinceSession ∨
    Recently (step late) Event.time w.sinceSession (InSessionFile w.server a) begun es
  documents : ∀ f, w.server.autosaveFolder = some f → ∀ d ∈ w.server.buffer.documents,
    elapsed Event.time es ≤ w.sinceFolder ∨
      Happened Event.time w.sinceFolder (Event.Inserts d) es ∨
      Recently (step late) Event.time w.sinceFolder (InOwnFile w.server f d) begun es

theorem onTime_iff {late : ℕ} {w : World} : w.onTime late = true ↔
    (∀ a, w.server.autosaver = some a → ∀ p, a.connTimer = some p → w.sinceSession ≤ p + late) ∧
    ∀ f, w.server.autosaveFolder = some f → ∀ p, f.connTimer = some p →
      w.sinceFolder ≤ p + late := by
  simp only [World.onTime, sessionPeriod, folderPeriod, Bool.and_eq_true, Option.all_eq_true,
    Option.bind_eq_some_iff, decide_eq_true_eq]
  constructor
  · rintro ⟨hs, hf⟩
    exact ⟨fun a ha p hp => hs p ⟨a, ha, hp⟩, fun f hold p hp => hf p ⟨f, hold, hp⟩⟩
  · rintro ⟨hs, hf⟩
    exact ⟨fun p ⟨a, ha, hp⟩ => hs a ha p hp, fun p ⟨f, hold, hp⟩ => hf f hold p hp⟩

section Later

variable {late : ℕ} {begun w w' : World} {es : List Event} {e : Event}

theorem run_later (hr : run (step late) begun es = some w) (h : step late w e = some w') :
    run (step late) begun (es ++ [e]) = some w' := by
  rw [run_append, hr]
  simp only [Option.bind_some, run, h]

theorem elapsed_later {n m : ℕ} (h : elapsed Event.time es ≤ n) (hnm : n + e.time ≤ m) :
    elapsed Event.time (es ++ [e]) ≤ m := by
  rw [elapsed_append, elapsed_singleton]
  omega

theorem session_later (hw : Kept late begun es w) (hn : w.sinceSession + e.time ≤ w'.sinceSession)
    (hsame : SameSavers w.server w'.server)
    (hfile : ∀ a, w.server.autosaver = some a →
      w'.server.files (w.server.sessionLocation a) = w.server.files (w.server.sessionLocation a)) :
    ∀ a, w'.server.autosaver = some a → elapsed Event.time (es ++ [e]) ≤ w'.sinceSession ∨
      Recently (step late) Event.time w'.sinceSession (InSessionFile w'.server a) begun
        (es ++ [e]) := by
  intro a' ha'
  obtain ⟨a, ha, hname, _⟩ := hsame.saver a' ha'
  have hlocation : w'.server.sessionLocation a' = w.server.sessionLocation a := by
    rw [Server.sessionLocation, Server.sessionLocation, hsame.directory, hname]
  rcases hw.session a ha with hyoung | hrecent
  · exact Or.inl (elapsed_later hyoung hn)
  · refine Or.inr (recently_mono hn ?_ (recently_later hrecent))
    intro past hpast
    rw [InSessionFile, hlocation, hfile a ha]
    exact hpast

theorem documents_later (hw : Kept late begun es w) (hn : w.sinceFolder + e.time ≤ w'.sinceFolder)
    (hsame : SameSavers w.server w'.server)
    (hold : ∀ f, w.server.autosaveFolder = some f → ∀ d ∈ w'.server.buffer.documents,
      e.Inserts d ∨ d ∈ w.server.buffer.documents ∧
        (w'.server.buffer.document d).title = (w.server.buffer.document d).title ∧
        w'.server.files (w.server.documentLocation f d) =
          w.server.files (w.server.documentLocation f d)) :
    ∀ f, w'.server.autosaveFolder = some f → ∀ d ∈ w'.server.buffer.documents,
      elapsed Event.time (es ++ [e]) ≤ w'.sinceFolder ∨
        Happened Event.time w'.sinceFolder (Event.Inserts d) (es ++ [e]) ∨
        Recently (step late) Event.time w'.sinceFolder (InOwnFile w'.server f d) begun
          (es ++ [e]) := by
  intro f' hf' d hd
  obtain ⟨f, hf, hname, _⟩ := hsame.folderSaver f' hf'
  rcases hold f hf d hd with hnew | ⟨hmem, htitle, hfile⟩
  · exact Or.inr (Or.inl (happened_now es hnew))
  · have hlocation : w'.server.documentLocation f' d = w.server.documentLocation f d := by
      rw [Server.documentLocation, Server.documentLocation, hsame.directory, hname, htitle]
    rcases hw.documents f hf d hmem with hyoung | hinserted | hrecent
    · exact Or.inl (elapsed_later hyoung hn)
    · exact Or.inr (Or.inl (happened_mono hn (happened_later hinserted)))
    · refine Or.inr (Or.inr (recently_mono hn ?_ (recently_later hrecent)))
      rintro past ⟨hpast, htext⟩
      refine ⟨hpast, ?_⟩
      rw [hlocation, hfile]
      exact htext

theorem onTime_later (hw : w.onTime late = true) (hsame : SameSavers w.server w'.server)
    (hsession : w'.sinceSession ≤ w.sinceSession) (hfolder : w'.sinceFolder ≤ w.sinceFolder) :
    w'.onTime late = true := by
  obtain ⟨hs, hf⟩ := onTime_iff.mp hw
  refine onTime_iff.mpr ⟨?_, ?_⟩
  · intro a' ha' p hp
    obtain ⟨a, ha, _, _, htimer⟩ := hsame.saver a' ha'
    exact hsession.trans (hs a ha p (htimer ▸ hp))
  · intro f' hf' p hp
    obtain ⟨f, hfold, _, htimer⟩ := hsame.folderSaver f' hf'
    exact hfolder.trans (hf f hfold p (htimer ▸ hp))

end Later

section Steps

variable {late : ℕ} {begun w w' : World} {es : List Event}

/-- An edit takes no time and touches no file. -/
theorem kept_edit {e : Event} {s : Server} (hw : Kept late begun es w) (htime : e.time = 0)
    (h : step late w e = some { w with server := s })
    (hsame : SameSavers w.server s ∧ s.files = w.server.files)
    (hold : ∀ d ∈ s.buffer.documents, e.Inserts d ∨ d ∈ w.server.buffer.documents ∧
      (s.buffer.document d).title = (w.server.buffer.document d).title)
    (hconnected : Connected s) (hdocuments : DocumentsSaved s fun _ => False)
    (hsession : SessionSaved s) : Kept late begun (es ++ [e]) { w with server := s } where
  ran := run_later hw.ran h
  onTime := onTime_later hw.onTime hsame.1 le_rfl le_rfl
  connected := hconnected
  documentsSaved := hdocuments
  sessionSaved := hsession
  session := session_later hw (by rw [htime]; exact le_rfl) hsame.1 fun _ _ => congrFun hsame.2 _
  documents := by
    refine documents_later hw (by rw [htime]; exact le_rfl) hsame.1 ?_
    intro f _ d hd
    rcases hold d hd with hnew | ⟨hmem, htitle⟩
    · exact Or.inl hnew
    · exact Or.inr ⟨hmem, htitle, congrFun hsame.2 _⟩

theorem kept_insert {d : DocumentInfo} {doc : Document} (hw : Kept late begun es w)
    (h : step late w (.insert d doc) = some w') : Kept late begun (es ++ [.insert d doc]) w' := by
  obtain ⟨s, hs, rfl⟩ := Option.map_eq_some_iff.mp h
  refine kept_edit hw rfl h (DiskFootprint.insert_footprint hs) ?_ (insert_connected hw.connected hs)
    (insert_documentsSaved hw.documentsSaved hs) ?_
  · obtain ⟨b, hb, rfl⟩ := Option.map_eq_some_iff.mp hs
    obtain ⟨_, hdocs, hdocument⟩ := insert_spec hb
    intro k hk
    by_cases hkd : k = d
    · exact Or.inl ⟨doc, by rw [hkd]⟩
    · refine Or.inr ⟨by simpa [hdocs, hkd] using hk, ?_⟩
      simp only [hdocument, Function.update_of_ne hkd]
  · intro a ha hm
    rw [insert_modified hs ha] at hm
    cases hm

theorem kept_remove {d : DocumentInfo} (hw : Kept late begun es w)
    (h : step late w (.remove d) = some w') : Kept late begun (es ++ [.remove d]) w' := by
  obtain ⟨s, hs, rfl⟩ := Option.map_eq_some_iff.mp h
  refine kept_edit hw rfl h (DiskFootprint.remove_footprint hs) ?_ (remove_connected hw.connected hs)
    (remove_documentsSaved hw.documentsSaved hs) (remove_sessionSaved hw.sessionSaved hs)
  obtain ⟨b, hb, rfl⟩ := Option.map_eq_some_iff.mp hs
  obtain ⟨_, hdocs, hdocument⟩ := remove_spec hb
  intro k hk
  refine Or.inr ⟨List.mem_of_mem_erase (hdocs ▸ hk), ?_⟩
  rw [hdocument]

theorem kept_change {d : DocumentInfo} {text : Text} (hw : Kept late begun es w)
    (h : step late w (.change d text) = some w') :
    Kept late begun (es ++ [.change d text]) w' := by
  obtain ⟨s, hs, rfl⟩ := Option.map_eq_some_iff.mp h
  refine kept_edit hw rfl h (DiskFootprint.change_footprint hs) ?_ (change_connected hw.connected hs)
    (change_documentsSaved hw.connected hw.documentsSaved hs) ?_
  · obtain ⟨t, ht, _, rfl⟩ := change_cases hs
    obtain ⟨b, hb, rfl⟩ := Option.map_eq_some_iff.mp ht
    obtain ⟨_, hdocs, hdocument⟩ := change_spec hb
    intro k hk
    refine Or.inr ⟨hdocs ▸ hk, ?_⟩
    by_cases hkd : k = d
    · subst hkd
      simp [Server.notifySaver, Server.notifyFolder, hdocument]
    · simp [Server.notifySaver, Server.notifyFolder, hdocument, Function.update_of_ne hkd]
  · intro a ha hm
    rw [change_modified hw.connected hs ha] at hm
    cases hm

theorem kept_advance {ms : ℕ} (hw : Kept late begun es w)
    (h : step late w (.advance ms) = some w') : Kept late begun (es ++ [.advance ms]) w' := by
  have hran := run_later hw.ran h
  simp only [step] at h
  split at h
  · next honTime =>
    obtain rfl := Option.some.inj h
    have hsame := DiskFootprint.sameSavers_refl w.server
    refine ⟨hran, honTime, hw.connected, hw.documentsSaved, hw.sessionSaved, ?_, ?_⟩
    · exact session_later hw le_rfl hsame fun _ _ => rfl
    · exact documents_later hw le_rfl hsame fun _ _ d hd => Or.inr ⟨hd, rfl, rfl⟩
  · cases h

theorem saveDocuments_sessionSaved {s : Server} {o : DocumentInfo → StreamOutcome}
    (hs : SessionSaved s) (hc : Connected s) (hn : NamesApart s) (ho : PassCompletes s o) :
    SessionSaved (s.saveDocuments o) := by
  obtain ⟨hbuffer, hsaver, hcwd⟩ := saveDocuments_frame s o
  intro a ha hm
  rw [hsaver] at ha
  rw [Server.sessionLocation, hcwd, hbuffer]
  have hfile := saveDocuments_sessionFile hc hn ho ha
  rw [Server.sessionLocation] at hfile
  rw [hfile]
  exact hs a ha hm

theorem sessionTick_unmodified {s s' : Server} {o : SaveOutcome} (ho : o.serialise = .written)
    (h : sessionTick s o = some s') {a : AutoSaver} (ha : s'.autosaver = some a) :
    a.hasModification = false := by
  unfold sessionTick at h
  split at h
  · cases h
  · next a₀ ha₀ =>
    split at h
    · cases h
    · split at h
      · obtain rfl := Option.some.inj h
        rw [saveSession_written s ho ha₀] at ha
        obtain rfl := Option.some.inj ha
        rfl
      · next hm =>
        obtain rfl := Option.some.inj h
        obtain rfl := Option.some.inj (ha₀.symm.trans ha)
        simpa using hm

theorem saveSession_documentFile {s : Server} {o : SaveOutcome} (ho : o.serialise = .written)
    (hn : SessionApart s) {f : AutoSaveFolder} (hf : s.autosaveFolder = some f) {d : DocumentInfo}
    (hd : d ∈ s.buffer.documents) :
    (s.saveSession o).files (s.documentLocation f d) = s.files (s.documentLocation f d) := by
  cases ha : s.autosaver with
  | none => rw [saveSession_none ha]
  | some a =>
    rw [saveSession_file s ho ha]
    exact Function.update_of_ne (hn f hf a ha d hd) _ _

theorem kept_sessionTick {o : SaveOutcome} (hw : Kept late begun es w)
    (hu : Undisturbed w (.sessionTick o)) (h : step late w (.sessionTick o) = some w') :
    Kept late begun (es ++ [.sessionTick o]) w' := by
  have hran := run_later hw.ran h
  have ho : o.serialise = .written := hu.writes
  have hn : SessionApart w.server := hu.session o rfl
  simp only [step] at h
  split at h
  · obtain ⟨s, hs, rfl⟩ := Option.map_eq_some_iff.mp h
    have hunmodified : ∀ a, s.autosaver = some a → a.hasModification = false :=
      fun a ha => sessionTick_unmodified ho hs ha
    have hboth : SameSavers w.server s ∧ s.buffer = w.server.buffer ∧ Connected s ∧
        (DocumentsSaved s fun _ => False) ∧ SessionSaved s ∧
        ∀ f, w.server.autosaveFolder = some f → ∀ d ∈ w.server.buffer.documents,
          s.files (w.server.documentLocation f d) =
            w.server.files (w.server.documentLocation f d) := by
      rcases ServerShutdown.sessionTick_cases hs with rfl | rfl
      · exact ⟨DiskFootprint.sameSavers_refl _, rfl, hw.connected, hw.documentsSaved,
          hw.sessionSaved, fun _ _ _ _ => rfl⟩
      · refine ⟨DiskFootprint.saveSession_sameSavers _ o, (saveSession_frame _ o).1,
          saveSession_connected hw.connected ho, saveSession_documentsSaved hn hw.documentsSaved ho,
          ?_, fun f hf d hd => saveSession_documentFile ho hn hf hd⟩
        exact fun a ha _ => ⟨_, saveSession_exact ho ha, List.Sublist.refl _⟩
    obtain ⟨hsame, hbuffer, hconnected, hdocuments, hsession, hfiles⟩ := hboth
    refine ⟨hran, onTime_later hw.onTime hsame (Nat.zero_le _) le_rfl, hconnected, hdocuments,
      hsession, ?_, ?_⟩
    · intro a ha
      exact Or.inr (recently_now hran (hsession a ha (hunmodified a ha)))
    · refine documents_later hw le_rfl hsame ?_
      intro f hf d hd
      have hmem : d ∈ w.server.buffer.documents := hbuffer ▸ hd
      exact Or.inr ⟨hmem, by simp only [hbuffer], hfiles f hf d hmem⟩
  · cases h

theorem kept_folderTick {o : DocumentInfo → StreamOutcome} (hw : Kept late begun es w)
    (hu : Undisturbed w (.folderTick o)) (h : step late w (.folderTick o) = some w') :
    Kept late begun (es ++ [.folderTick o]) w' := by
  have hran := run_later hw.ran h
  have ho : PassCompletes w.server o := hu.writes
  have hn : NamesApart w.server := hu.documents trivial
  simp only [step] at h
  split at h
  · obtain ⟨s, hs, rfl⟩ := Option.map_eq_some_iff.mp h
    obtain rfl := ServerShutdown.folderTick_cases hs
    have hsame := DiskFootprint.saveDocuments_sameSavers w.server o
    obtain ⟨hbuffer, _, hcwd⟩ := saveDocuments_frame w.server o
    refine ⟨hran, onTime_later hw.onTime hsame le_rfl (Nat.zero_le _),
      saveDocuments_connected hw.connected o,
      saveDocuments_documentsSaved hw.connected hn hw.documentsSaved ho,
      saveDocuments_sessionSaved hw.sessionSaved hw.connected hn ho, ?_, ?_⟩
    · refine session_later hw le_rfl hsame ?_
      exact fun a ha => saveDocuments_sessionFile hw.connected hn ho ha
    · intro f hf d hd
      refine Or.inr (Or.inr (recently_now hran ⟨hd, ?_⟩))
      have hmem : d ∈ w.server.buffer.documents := hbuffer ▸ hd
      simp only [Server.documentLocation, hbuffer, hcwd]
      exact saveDocuments_documents hw.connected hn hw.documentsSaved ho hf hmem id
  · cases h

/-- A save by signal is as good as a round of both timers. -/
theorem kept_save {o : SaveAnswer} (hw : Kept late begun es w) (hu : Undisturbed w (.save o))
    (h : step late w (.save o) = some w') : Kept late begun (es ++ [.save o]) w' := by
  have hran := run_later hw.ran h
  have ho : w.server.Succeeds o := hu.writes
  have hn : NamesApart w.server := hu.documents trivial
  obtain rfl := Option.some.inj h
  have hsame : SameSavers w.server (w.server.save o) :=
    DiskFootprint.sameSavers_trans (DiskFootprint.saveSession_sameSavers w.server o.session)
      (DiskFootprint.saveDocuments_sameSavers _ o.documents)
  have hdocuments := save_documentsSaved hw.connected hn hw.documentsSaved ho
  have hunflagged := save_unflagged ho
  refine ⟨hran, onTime_later hw.onTime hsame le_rfl le_rfl, save_connected hw.connected ho,
    hdocuments, save_sessionSaved hw.connected hn ho, ?_, ?_⟩
  · intro a ha
    refine Or.inr (recently_now hran ?_)
    exact ⟨_, save_sessionFile hw.connected hn ho ha, List.Sublist.refl _⟩
  · intro f hf d hd
    refine Or.inr (Or.inr (recently_now hran ⟨hd, ?_⟩))
    exact hdocuments f hf d hd id (hunflagged.documents f hf d)

theorem kept_step (es : List Event) (w : World) (e : Event) (w' : World)
    (hw : Kept late begun es w) (hu : Undisturbed w e) (h : step late w e = some w') :
    Kept late begun (es ++ [e]) w' := by
  cases e with
  | advance ms => exact kept_advance hw h
  | insert d doc => exact kept_insert hw h
  | remove d => exact kept_remove hw h
  | change d text => exact kept_change hw h
  | sessionTick o => exact kept_sessionTick hw hu h
  | folderTick o => exact kept_folderTick hw hu h
  | save o => exact kept_save hw hu h

end Steps

section Start

variable {settings : AutosaveSettings} {isDirectory : Location → Bool} {buffer : ServerBuffer}
  {cwd : Location} {files : FolderAutosave.Files} {s : Server}

theorem start_kept (late : ℕ)
    (hs : Server.start settings isDirectory buffer cwd files = .ok s) :
    Kept late (start s) [] (start s) where
  ran := rfl
  onTime := onTime_iff.mpr ⟨fun _ _ _ _ => Nat.zero_le _, fun _ _ _ _ => Nat.zero_le _⟩
  connected := start_connected hs
  documentsSaved := start_documentsSaved hs _
  sessionSaved := start_sessionSaved hs
  session := fun _ _ => Or.inl le_rfl
  documents := fun _ _ _ _ => Or.inl le_rfl

theorem Kept.timely {late : ℕ} {begun w : World} {es : List Event} (hw : Kept late begun es w) :
    Timely late begun es w := by
  obtain ⟨hsession, hfolder⟩ := onTime_iff.mp hw.onTime
  constructor
  · intro a ha p hp
    have hle := hsession a ha p hp
    rcases hw.session a ha with hyoung | hrecent
    · exact Or.inl (hyoung.trans hle)
    · exact Or.inr (recently_mono hle (fun _ h => h) hrecent)
  · intro f hf p hp d hd
    have hle := hfolder f hf p hp
    rcases hw.documents f hf d hd with hyoung | hinserted | hrecent
    · exact Or.inl (hyoung.trans hle)
    · exact Or.inr (Or.inl (happened_mono hle hinserted))
    · exact Or.inr (Or.inr (recently_mono hle (fun _ h => h) hrecent))

/-- If nothing fails, what is on the disk was so one period and one delay of the loop ago, or
later: whatever is edited, and whichever of the saves comes first. -/
theorem files_lag_one_period (late : ℕ)
    (hs : Server.start settings isDirectory buffer cwd files = .ok s) (es : List Event) (w : World)
    (hC : EveryStep (step late) Undisturbed (start s) es)
    (hr : run (step late) (start s) es = some w) : Timely late (start s) es w :=
  (run_history kept_step (start_kept late hs) hC hr).timely

end Start

/-- Both timers come round after a minute and find the first text. The second one comes right
after, and nobody comes to save it for a minute and a half. -/
def lateEdit : List Event :=
  [.advance 60000, .sessionTick acceptsAll.session, .folderTick acceptsAll.documents,
    .change 1 "new".toList, .advance 90000]

theorem undisturbed_advance (w : World) (ms : ℕ) : Undisturbed w (.advance ms) :=
  ⟨trivial, by simp, fun h => h.elim⟩

theorem undisturbed_change (w : World) (d : DocumentInfo) (text : Text) :
    Undisturbed w (.change d text) :=
  ⟨trivial, by simp, fun h => h.elim⟩

theorem lateEdit_undisturbed : EveryStep (step 30000) Undisturbed (start office) lateEdit := by
  have hn := officeNames_apart office_names
  have hsucceeds := officeNames_succeeds office_names
  apply everyStep_cons rfl (undisturbed_advance _ 60000)
  apply everyStep_cons rfl ⟨rfl, fun _ _ => hn.session, fun h => h.elim⟩
  apply everyStep_cons rfl
    ⟨saveSession_passCompletes hsucceeds, by simp, fun _ => saveSession_namesApart hn rfl⟩
  apply everyStep_cons rfl (undisturbed_change _ 1 _)
  apply everyStep_cons rfl (undisturbed_advance _ 90000)
  trivial

theorem office_files_lag : ∃ w, run (step 30000) (start office) lateEdit = some w ∧
    elapsed Event.time lateEdit = 150000 ∧ (w.server.buffer.document 1).text = "new".toList ∧
      w.server.files ["out".toList, "notes".toList] = some (.text "text".toList) ∧
      Timely 30000 (start office) lateEdit w := by
  obtain ⟨w, hr, htext, hfile⟩ : ∃ w, run (step 30000) (start office) lateEdit = some w ∧
      (w.server.buffer.document 1).text = "new".toList ∧
      w.server.files ["out".toList, "notes".toList] = some (.text "text".toList) :=
    ⟨_, rfl, by decide, by decide⟩
  exact ⟨w, hr, rfl, htext, hfile,
    files_lag_one_period 30000 office_accepted _ w lateEdit_undisturbed hr⟩

end AutosaveDelay
