import Sobby.StepMachine
import Sobby.SavedFiles

/-! Saves and changes in elementary steps, between any two of which the handler of SIGUSR1 may run
a whole `Server::save` of its own. The two share the flags, the files and nothing else. -/
namespace InterruptedSaves

open StepMachine
open SessionBuffer
open PathNames
open Strings (Text)
open SessionAutosave (AutoSaver)
open FolderAutosave (AutoSaveFolder Completes openStream outputPath filesAfter saveLoop
  saveLoop_unflagged saveLoop_fails saveLoop_writes getElem?_flag)
open ServerSaves
open SavedFiles

/-- Where the main program is inside an operation. `both` is set if the folder saver comes after
the session saver; the lists are what the iterator of `m_map` has ahead of it. -/
inductive Task where
  | idle
  | serialising (both : Bool)
  | clearing (both : Bool)
  | hooking (both : Bool)
  | testing (rest : List DocumentInfo)
  | unflagging (d : DocumentInfo) (rest : List DocumentInfo)
  | reading (d : DocumentInfo) (rest : List DocumentInfo)
  | opening (d : DocumentInfo) (content : Text) (rest : List DocumentInfo)
  | writing (d : DocumentInfo) (content path : Text) (bytes : ℕ) (rest : List DocumentInfo)
  | advancing (rest : List DocumentInfo)
  | tellingSaver (d : DocumentInfo)
  | tellingFolder (d : DocumentInfo)

structure World where
  server : Server
  task : Task

def start (s : Server) : World := ⟨s, .idle⟩

inductive Event where
  | insert (d : DocumentInfo) (doc : Document)
  | remove (d : DocumentInfo)
  | change (d : DocumentInfo) (text : Text)
  | save
  | sessionTick
  | folderTick
  | advance (o : SaveAnswer)
  | usr1 (o : SaveAnswer)

def putFile (s : Server) (x : Location) (content : Option FileContent) : Server :=
  { s with files := Function.update s.files x content }

/-- `m_has_modification = false` -/
def clearModification (s : Server) : Server :=
  { s with autosaver := s.autosaver.map fun a => { a with hasModification := false } }

/-- `m_map[iter->first] = false` -/
def unflag (s : Server) (d : DocumentInfo) : Server :=
  { s with autosaveFolder := s.autosaveFolder.map fun f => { f with map := f.map.insert d false } }

def beginLoop (s : Server) : Task :=
  match s.autosaveFolder with
  | none => .idle
  | some f => .testing f.map.keys

def afterSession (s : Server) (both : Bool) : Task := if both then beginLoop s else .idle

def beginSave (s : Server) : Task :=
  match s.autosaver with
  | none => beginLoop s
  | some _ => .serialising true

def beginSessionTick (s : Server) : Option Task :=
  match s.autosaver with
  | none => none
  | some a =>
    if a.connTimer = none then none
    else if a.hasModification then some (.serialising false) else some .idle

def beginFolderTick (s : Server) : Option Task :=
  match s.autosaveFolder with
  | none => none
  | some f => if f.connTimer = none then none else some (.testing f.map.keys)

/-- One elementary step of the operation. An exception ends the save it is thrown in. -/
def advance (s : Server) (o : SaveAnswer) : Task → Option World
  | .idle => none
  | .serialising both =>
    s.autosaver.map fun a =>
      match o.session.serialise with
      | .threw _ left => ⟨putFile s (s.sessionLocation a) left, afterSession s both⟩
      | .written =>
        ⟨putFile s (s.sessionLocation a) (some (.session s.buffer.session)), .clearing both⟩
  | .clearing both => some ⟨clearModification s, .hooking both⟩
  | .hooking both => some ⟨s, afterSession s both⟩
  | .testing [] => some ⟨s, .idle⟩
  | .testing (d :: rest) =>
    s.autosaveFolder.map fun f =>
      ⟨s, if f.map[d]? = some true then .unflagging d rest else .advancing rest⟩
  | .unflagging d rest => some ⟨unflag s d, .reading d rest⟩
  | .reading d rest => some ⟨s, .opening d (s.buffer.document d).text rest⟩
  | .opening d content rest =>
    s.autosaveFolder.map fun f =>
      let path := outputPath f.folder (s.buffer.document d).title
      match openStream (s.buffer.document d).title (o.documents d) with
      | none => ⟨s, .idle⟩
      | some bytes =>
        ⟨putFile s (resolve s.cwd path) (some (.text [])), .writing d content path bytes rest⟩
  | .writing _ content path bytes rest =>
    some ⟨putFile s (resolve s.cwd path) (some (.text (content.take bytes))), .advancing rest⟩
  | .advancing rest => some ⟨s, .testing rest⟩
  | .tellingSaver d => some ⟨s.notifySaver d, .tellingFolder d⟩
  | .tellingFolder d => some ⟨s.notifyFolder d, .idle⟩

def World.begin (w : World) (t : Option World) : Option World :=
  match w.task with
  | .idle => t
  | _ => none

def step (w : World) : Event → Option World
  | .insert d doc => w.begin ((w.server.insert d doc).map fun s => ⟨s, .idle⟩)
  | .remove d => w.begin ((w.server.remove d).map fun s => ⟨s, .idle⟩)
  | .change d text => w.begin ((w.server.changeText d text).map fun s => ⟨s, .tellingSaver d⟩)
  | .save => w.begin (some ⟨w.server, beginSave w.server⟩)
  | .sessionTick => w.begin ((beginSessionTick w.server).map fun t => ⟨w.server, t⟩)
  | .folderTick => w.begin ((beginFolderTick w.server).map fun t => ⟨w.server, t⟩)
  | .advance o => advance w.server o w.task
  | .usr1 o => some { w with server := w.server.save o }

/-- The document whose flag and whose file may disagree for the moment. -/
def Unsettled : Task → DocumentInfo → Prop
  | .reading d _, k | .opening d _ _, k | .writing d _ _ _ _, k => k = d
  | .tellingSaver d, k | .tellingFolder d, k => k = d
  | _, _ => False

/-- What an operation has in hand is what the session holds: nothing but its own steps and saves
happens until it has finished. -/
def Sound (s : Server) : Task → Prop
  | .clearing _ => ∀ a, s.autosaver = some a → Covers (s.files (s.sessionLocation a)) s.buffer
  | .testing rest | .advancing rest => rest ⊆ s.buffer.documents
  | .unflagging d rest | .reading d rest => d ∈ s.buffer.documents ∧ rest ⊆ s.buffer.documents
  | .opening d content rest =>
    d ∈ s.buffer.documents ∧ rest ⊆ s.buffer.documents ∧ content = (s.buffer.document d).text
  | .writing d content path bytes rest =>
    d ∈ s.buffer.documents ∧ rest ⊆ s.buffer.documents ∧
      content = (s.buffer.document d).text ∧ content.length ≤ bytes ∧
      ∃ f, s.autosaveFolder = some f ∧ path = outputPath f.folder (s.buffer.document d).title
  | .tellingSaver d | .tellingFolder d => d ∈ s.buffer.documents
  | .idle | .serialising _ | .hooking _ => True

structure Kept (w : World) : Prop where
  connected : Connected w.server
  documents : DocumentsSaved w.server (Unsettled w.task)
  session : (∀ d, w.task ≠ .tellingSaver d) → SessionSaved w.server
  sound : Sound w.server w.task

def AnswersSucceed (w : World) : Event → Prop
  | .advance o =>
    o.session.serialise = .written ∧
      ∀ d content rest, w.task = .opening d content rest → Completes w.server.buffer o.documents d
  | .usr1 o => w.server.Succeeds o
  | _ => True

def Undisturbed (w : World) (e : Event) : Prop := AnswersSucceed w e ∧ NamesApart w.server

section Steps

variable {s : Server} {except : DocumentInfo → Prop} {both : Bool}

theorem putFile_connected (hs : Connected s) (x : Location) (content : Option FileContent) :
    Connected (putFile s x content) := by
  constructor
  · exact hs.watched
  · intro f hf
    have hk := hs.keyed f hf
    exact ⟨hk.keys, hk.watched⟩

theorem putFile_documentsSaved (hn : NamesApart s) (hs : DocumentsSaved s except)
    {d : DocumentInfo} (hd : d ∈ s.buffer.documents) {f : AutoSaveFolder}
    (hf : s.autosaveFolder = some f) (content : Option FileContent) :
    DocumentsSaved (putFile s (s.documentLocation f d) content) fun k => except k ∨ k = d := by
  intro g hg k hk hE hflag
  obtain rfl := Option.some.inj (hf.symm.trans hg)
  obtain ⟨hE, hkd⟩ := not_or.mp hE
  have hne : s.documentLocation f k ≠ s.documentLocation f d := by
    intro h
    exact hkd (hn.documents f hf k hk d hd h)
  exact (Function.update_of_ne hne _ _).trans (hs f hf k hk hE hflag)

theorem putFile_sessionSaved (hn : NamesApart s) (hs : SessionSaved s) {d : DocumentInfo}
    (hd : d ∈ s.buffer.documents) {f : AutoSaveFolder} (hf : s.autosaveFolder = some f)
    (content : Option FileContent) :
    SessionSaved (putFile s (s.documentLocation f d) content) := by
  intro a ha hm
  have hne := (hn.session f hf a ha d hd).symm
  obtain ⟨session, hfile, hsub⟩ := hs a ha hm
  exact ⟨session, (Function.update_of_ne hne _ _).trans hfile, hsub⟩

theorem clearModification_connected (hs : Connected s) : Connected (clearModification s) := by
  constructor
  · intro a' ha'
    obtain ⟨a, ha, rfl⟩ := Option.map_eq_some_iff.mp ha'
    exact hs.watched a ha
  · intro f hf
    have hk := hs.keyed f hf
    exact ⟨hk.keys, hk.watched⟩

theorem unflag_connected (hs : Connected s) {d : DocumentInfo} (hd : d ∈ s.buffer.documents) :
    Connected (unflag s d) := by
  constructor
  · exact hs.watched
  · intro f' hf'
    obtain ⟨f, hf, rfl⟩ := Option.map_eq_some_iff.mp hf'
    have hk := hs.keyed f hf
    exact ⟨hk.flag hd false, hk.watched⟩

theorem unflag_documentsSaved (hs : DocumentsSaved s except) (d : DocumentInfo) :
    DocumentsSaved (unflag s d) fun k => except k ∨ k = d := by
  intro f' hf' k hk hE hflag
  obtain ⟨f, hf, rfl⟩ := Option.map_eq_some_iff.mp hf'
  obtain ⟨hE, hkd⟩ := not_or.mp hE
  have hold : f.map[k]? ≠ some true := by simpa [getElem?_flag, hkd] using hflag
  exact hs f hf k hk hE hold

theorem beginLoop_cases (s : Server) : beginLoop s = .idle ∨
    ∃ f, s.autosaveFolder = some f ∧ beginLoop s = .testing f.map.keys := by
  unfold beginLoop
  split
  · exact Or.inl rfl
  · next f hf => exact Or.inr ⟨f, hf, rfl⟩

theorem kept_beginLoop (hc : Connected s) (hd : DocumentsSaved s fun _ => False)
    (hs : SessionSaved s) : Kept ⟨s, beginLoop s⟩ := by
  rcases beginLoop_cases s with hidle | ⟨f, hf, hloop⟩
  · rw [hidle]
    exact ⟨hc, hd, fun _ => hs, trivial⟩
  · rw [hloop]
    refine ⟨hc, hd, fun _ => hs, ?_⟩
    intro d hmem
    exact ((hc.keyed f hf).keys d).mp (Std.ExtTreeMap.mem_keys.mp hmem)

theorem kept_afterSession (hc : Connected s) (hd : DocumentsSaved s fun _ => False)
    (hs : SessionSaved s) (both : Bool) : Kept ⟨s, afterSession s both⟩ := by
  unfold afterSession
  split
  · exact kept_beginLoop hc hd hs
  · exact ⟨hc, hd, fun _ => hs, trivial⟩

/-- The session is in its file before the flag is cleared, and stays there. -/
theorem kept_serialise (hn : NamesApart s) (hw : Kept ⟨s, .serialising both⟩) {a : AutoSaver}
    (ha : s.autosaver = some a) :
    Kept ⟨putFile s (s.sessionLocation a) (some (.session s.buffer.session)), .clearing both⟩ := by
  have hcovers : ∀ a', s.autosaver = some a' →
      Covers ((putFile s (s.sessionLocation a) (some (.session s.buffer.session))).files
        (s.sessionLocation a')) s.buffer := by
    intro a' ha'
    obtain rfl := Option.some.inj (ha.symm.trans ha')
    exact ⟨_, Function.update_self _ _ _, List.Sublist.refl _⟩
  refine ⟨putFile_connected hw.connected _ _, ?_, ?_, hcovers⟩
  · intro f hf d hd hE hflag
    have hne := hn.session f hf a ha d hd
    exact (Function.update_of_ne hne _ _).trans (hw.documents f hf d hd hE hflag)
  · intro _ a' ha' _
    exact hcovers a' ha'

theorem kept_clear (hw : Kept ⟨s, .clearing both⟩) : Kept ⟨clearModification s, .hooking both⟩ := by
  refine ⟨clearModification_connected hw.connected, hw.documents, ?_, trivial⟩
  intro _ a' ha' _
  obtain ⟨a, ha, rfl⟩ := Option.map_eq_some_iff.mp ha'
  exact hw.sound a ha

theorem kept_unflag {d : DocumentInfo} {rest : List DocumentInfo}
    (hw : Kept ⟨s, .unflagging d rest⟩) : Kept ⟨unflag s d, .reading d rest⟩ := by
  obtain ⟨hd, hrest⟩ := hw.sound
  refine ⟨unflag_connected hw.connected hd, ?_, fun _ => hw.session (by simp), hd, hrest⟩
  have hdocs := unflag_documentsSaved hw.documents d
  exact documentsSaved_mono (fun k hk => hk.resolve_left id) hdocs

theorem kept_open (hn : NamesApart s) {d : DocumentInfo} {content : Text}
    {rest : List DocumentInfo} {f : AutoSaveFolder} {bytes : ℕ}
    (hw : Kept ⟨s, .opening d content rest⟩) (hf : s.autosaveFolder = some f)
    (hbytes : content.length ≤ bytes) :
    Kept ⟨putFile s (s.documentLocation f d) (some (.text [])),
      .writing d content (outputPath f.folder (s.buffer.document d).title) bytes rest⟩ := by
  obtain ⟨hd, hrest, hcontent⟩ := hw.sound
  have hdocs := putFile_documentsSaved hn hw.documents hd hf (some (.text []))
  refine ⟨putFile_connected hw.connected _ _, ?_, ?_, hd, hrest, hcontent, hbytes, f, hf, rfl⟩
  · exact documentsSaved_mono (fun k hk => hk.elim id id) hdocs
  · exact fun _ => putFile_sessionSaved hn (hw.session (by simp)) hd hf _

theorem kept_write (hn : NamesApart s) {d : DocumentInfo} {content path : Text} {bytes : ℕ}
    {rest : List DocumentInfo} (hw : Kept ⟨s, .writing d content path bytes rest⟩) :
    Kept ⟨putFile s (resolve s.cwd path) (some (.text (content.take bytes))), .advancing rest⟩ := by
  obtain ⟨hd, hrest, hcontent, hbytes, f, hf, hpath⟩ := hw.sound
  have hlocation : resolve s.cwd path = s.documentLocation f d :=
    congrArg (resolve s.cwd) hpath
  have htext : content.take bytes = (s.buffer.document d).text := by
    rw [List.take_of_length_le hbytes]
    exact hcontent
  rw [htext, hlocation]
  have hdocs := putFile_documentsSaved hn hw.documents hd hf
    (some (.text (s.buffer.document d).text))
  refine ⟨putFile_connected hw.connected _ _, ?_, ?_, hrest⟩
  · intro g hg k hk _ hflag
    obtain rfl := Option.some.inj (hf.symm.trans hg)
    by_cases hkd : k = d
    · subst hkd
      exact Function.update_self _ _ _
    · exact hdocs f hf k hk (fun h => hkd (h.elim id id)) hflag
  · exact fun _ => putFile_sessionSaved hn (hw.session (by simp)) hd hf _

theorem kept_tellSaver {d : DocumentInfo} (hw : Kept ⟨s, .tellingSaver d⟩) :
    Kept ⟨s.notifySaver d, .tellingFolder d⟩ := by
  have hd : d ∈ s.buffer.documents := hw.sound
  refine ⟨notifySaver_connected hw.connected, ?_, ?_, hd⟩
  · exact notifySaver_documentsSaved hw.documents
  · intro _ a ha hm
    rw [notifySaver_modified hw.connected hd ha] at hm
    cases hm

theorem kept_tellFolder {d : DocumentInfo} (hw : Kept ⟨s, .tellingFolder d⟩) :
    Kept ⟨s.notifyFolder d, .idle⟩ := by
  have hd : d ∈ s.buffer.documents := hw.sound
  refine ⟨notifyFolder_connected hw.connected hd, ?_, fun _ => hw.session (by simp), trivial⟩
  apply notifyFolder_documentsSaved hw.connected hd
  exact documentsSaved_mono (fun k hk => Or.inr hk) hw.documents

theorem kept_advance {t : Task} {w' : World} {o : SaveAnswer} (hw : Kept ⟨s, t⟩)
    (hn : NamesApart s) (ho : AnswersSucceed ⟨s, t⟩ (.advance o))
    (h : advance s o t = some w') : Kept w' := by
  obtain ⟨hwritten, hopens⟩ := ho
  cases t with
  | idle => cases h
  | serialising both =>
    obtain ⟨a, ha, rfl⟩ := Option.map_eq_some_iff.mp h
    rw [hwritten]
    exact kept_serialise hn hw ha
  | clearing both =>
    obtain rfl := Option.some.inj h
    exact kept_clear hw
  | hooking both =>
    obtain rfl := Option.some.inj h
    exact kept_afterSession hw.connected hw.documents (hw.session (by simp)) both
  | testing rest =>
    cases rest with
    | nil =>
      obtain rfl := Option.some.inj h
      exact ⟨hw.connected, hw.documents, fun _ => hw.session (by simp), trivial⟩
    | cons d rest =>
      obtain ⟨f, hf, rfl⟩ := Option.map_eq_some_iff.mp h
      obtain ⟨hd, hrest⟩ := List.cons_subset.mp hw.sound
      split
      · exact ⟨hw.connected, hw.documents, fun _ => hw.session (by simp), hd, hrest⟩
      · exact ⟨hw.connected, hw.documents, fun _ => hw.session (by simp), hrest⟩
  | unflagging d rest =>
    obtain rfl := Option.some.inj h
    exact kept_unflag hw
  | reading d rest =>
    obtain rfl := Option.some.inj h
    obtain ⟨hd, hrest⟩ := hw.sound
    exact ⟨hw.connected, hw.documents, fun _ => hw.session (by simp), hd, hrest, rfl⟩
  | opening d content rest =>
    obtain ⟨f, hf, rfl⟩ := Option.map_eq_some_iff.mp h
    obtain ⟨bytes, hopen, hbytes⟩ := hopens d content rest rfl
    obtain ⟨_, _, hcontent⟩ := hw.sound
    simp only [hopen]
    exact kept_open hn hw hf (hcontent ▸ hbytes)
  | writing d content path bytes rest =>
    obtain rfl := Option.some.inj h
    exact kept_write hn hw
  | advancing rest =>
    obtain rfl := Option.some.inj h
    exact ⟨hw.connected, hw.documents, fun _ => hw.session (by simp), hw.sound⟩
  | tellingSaver d =>
    obtain rfl := Option.some.inj h
    exact kept_tellSaver hw
  | tellingFolder d =>
    obtain rfl := Option.some.inj h
    exact kept_tellFolder hw

/-- The nested save does not move the main program, and what the main program has in hand is still
so after it. -/
theorem kept_usr1 {t : Task} {o : SaveAnswer} (hw : Kept ⟨s, t⟩) (hn : NamesApart s)
    (ho : s.Succeeds o) : Kept ⟨s.save o, t⟩ := by
  refine ⟨save_connected hw.connected ho, save_documentsSaved hw.connected hn hw.documents ho,
    fun _ => save_sessionSaved hw.connected hn ho, ?_⟩
  have hsound := hw.sound
  have hbuffer := save_buffer s o
  cases t with
  | clearing both =>
    intro a ha
    exact ⟨_, save_sessionFile hw.connected hn ho ha, List.Sublist.refl _⟩
  | writing d content path bytes rest =>
    obtain ⟨hd, hrest, hcontent, hbytes, f, hf, hpath⟩ := hsound
    obtain ⟨g, hg, hfolder⟩ := save_folder (o := o) hf
    refine ⟨hbuffer ▸ hd, hbuffer ▸ hrest, hbuffer ▸ hcontent, hbytes, g, hg, ?_⟩
    rw [hfolder, hbuffer]
    exact hpath
  | testing rest => simpa only [Sound, hbuffer] using hsound
  | advancing rest => simpa only [Sound, hbuffer] using hsound
  | unflagging d rest => simpa only [Sound, hbuffer] using hsound
  | reading d rest => simpa only [Sound, hbuffer] using hsound
  | opening d content rest => simpa only [Sound, hbuffer] using hsound
  | tellingSaver d => simpa only [Sound, hbuffer] using hsound
  | tellingFolder d => simpa only [Sound, hbuffer] using hsound
  | idle => trivial
  | serialising both => trivial
  | hooking both => trivial

theorem kept_beginSave (hc : Connected s) (hd : DocumentsSaved s fun _ => False)
    (hs : SessionSaved s) : Kept ⟨s, beginSave s⟩ := by
  unfold beginSave
  split
  · exact kept_beginLoop hc hd hs
  · exact ⟨hc, hd, fun _ => hs, trivial⟩

theorem beginSessionTick_cases {t : Task} (h : beginSessionTick s = some t) :
    t = .serialising false ∨ t = .idle := by
  unfold beginSessionTick at h
  split at h
  · cases h
  · split at h
    · cases h
    · split at h
      · exact Or.inl (Option.some.inj h).symm
      · exact Or.inr (Option.some.inj h).symm

theorem beginFolderTick_loop {t : Task} (h : beginFolderTick s = some t) : t = beginLoop s := by
  unfold beginFolderTick at h
  unfold beginLoop
  split at h
  · cases h
  · split at h
    · cases h
    · exact (Option.some.inj h).symm

end Steps

theorem begin_cases {w w' : World} {t : Option World} (h : w.begin t = some w') :
    w.task = .idle ∧ t = some w' := by
  unfold World.begin at h
  split at h
  · next hidle => exact ⟨hidle, h⟩
  · cases h

theorem kept_step (w : World) (e : Event) (w' : World) (hw : Kept w)
    (hC : Undisturbed w e) (h : step w e = some w') : Kept w' := by
  obtain ⟨ho, hn⟩ := hC
  obtain ⟨s, t⟩ := w
  cases e with
  | insert d doc =>
    obtain ⟨rfl, hb⟩ := begin_cases h
    obtain ⟨s', hs, rfl⟩ := Option.map_eq_some_iff.mp hb
    refine ⟨insert_connected hw.connected hs, insert_documentsSaved hw.documents hs, ?_, trivial⟩
    intro _ a ha hm
    rw [insert_modified hs ha] at hm
    cases hm
  | remove d =>
    obtain ⟨rfl, hb⟩ := begin_cases h
    obtain ⟨s', hs, rfl⟩ := Option.map_eq_some_iff.mp hb
    exact ⟨remove_connected hw.connected hs, remove_documentsSaved hw.documents hs,
      fun _ => remove_sessionSaved (hw.session (by simp)) hs, trivial⟩
  | change d text =>
    obtain ⟨rfl, hb⟩ := begin_cases h
    obtain ⟨s', hs, rfl⟩ := Option.map_eq_some_iff.mp hb
    refine ⟨changeText_connected hw.connected hs, ?_, fun hne => absurd rfl (hne d),
      changeText_mem hs⟩
    exact documentsSaved_mono (fun k hk => hk.resolve_left id)
      (changeText_documentsSaved hw.documents hs)
  | save =>
    obtain ⟨rfl, hb⟩ := begin_cases h
    obtain rfl := Option.some.inj hb
    exact kept_beginSave hw.connected hw.documents (hw.session (by simp))
  | sessionTick =>
    obtain ⟨rfl, hb⟩ := begin_cases h
    obtain ⟨t, ht, rfl⟩ := Option.map_eq_some_iff.mp hb
    rcases beginSessionTick_cases ht with rfl | rfl
    · exact ⟨hw.connected, hw.documents, fun _ => hw.session (by simp), trivial⟩
    · exact hw
  | folderTick =>
    obtain ⟨rfl, hb⟩ := begin_cases h
    obtain ⟨t, ht, rfl⟩ := Option.map_eq_some_iff.mp hb
    rw [beginFolderTick_loop ht]
    exact kept_beginLoop hw.connected hw.documents (hw.session (by simp))
  | advance o => exact kept_advance hw hn ho h
  | usr1 o =>
    obtain rfl := Option.some.inj h
    exact kept_usr1 hw hn ho

/-- Whatever saves ran inside an operation, when it has finished the documents without a flag are
in their files, and so is a session without modification. -/
theorem interrupted_save_loses_nothing (settings : AutosaveSettings)
    (isDirectory : Location → Bool) (buffer : ServerBuffer) (cwd : Location)
    (files : FolderAutosave.Files) (s : Server)
    (hs : Server.start settings isDirectory buffer cwd files = .ok s) (es : List Event)
    (hC : EveryStep step Undisturbed (start s) es) :
    Always step
      (fun w => w.task = .idle →
        (∀ f, w.server.autosaveFolder = some f → ∀ d ∈ w.server.buffer.documents,
          f.map[d]? ≠ some true →
            w.server.files (w.server.documentLocation f d) =
              some (.text (w.server.buffer.document d).text)) ∧
        SessionSaved w.server)
      (start s) es := by
  have hstart : Kept (start s) :=
    ⟨start_connected hs, start_documentsSaved hs _, fun _ => start_sessionSaved hs, trivial⟩
  apply always_mono _ (always_of_invariant kept_step hstart hC)
  intro w hw hidle
  obtain ⟨s, t⟩ := w
  obtain rfl : t = .idle := hidle
  constructor
  · intro f hf d hd hflag
    exact hw.documents f hf d hd id hflag
  · exact hw.session (by simp)

/-- SIGUSR1 arrives when the file of the document is truncated and its text not yet written. -/
def truncatedRun : List Event :=
  [.folderTick, .advance acceptsAll, .advance acceptsAll, .advance acceptsAll,
    .advance acceptsAll, .usr1 acceptsAll, .advance acceptsAll, .advance acceptsAll,
    .advance acceptsAll]

theorem advance_office {w t : World} {es : List Event} (hw : OfficeNames w.server)
    (h : step w (.advance acceptsAll) = some t) (hes : EveryStep step Undisturbed t es) :
    EveryStep step Undisturbed w (.advance acceptsAll :: es) := by
  apply everyStep_cons h _ hes
  exact ⟨⟨rfl, fun d _ _ _ => officeNames_completes hw d⟩, officeNames_apart hw⟩

theorem truncated_notes_written :
    ∃ w, run step (start office) truncatedRun = some w ∧ w.task = .idle ∧
      w.server.files ["out".toList, "notes".toList] = some (.text "text".toList) := by
  have hC : EveryStep step Undisturbed (start office) truncatedRun := by
    have hnames : ∀ s : Server, s.buffer = office.buffer →
        s.autosaveFolder.map (·.folder) = some "out".toList →
        s.autosaver.map (·.filename) = some "autosave.obby".toList → s.cwd = [] →
        OfficeNames s := by
      intro s hbuffer hfolder hfile hcwd
      exact ⟨hbuffer ▸ rfl, hbuffer ▸ office_names.titles, hbuffer ▸ office_names.texts, hfolder,
        hfile, hcwd⟩
    have htruncated := hnames (putFile (unflag office 1) ["out".toList, "notes".toList]
      (some (.text []))) rfl rfl rfl rfl
    apply everyStep_cons rfl ⟨trivial, officeNames_apart office_names⟩
    apply advance_office (hnames _ rfl rfl rfl rfl) rfl
    apply advance_office (hnames _ rfl rfl rfl rfl) rfl
    apply advance_office (hnames _ rfl rfl rfl rfl) rfl
    apply advance_office (hnames _ rfl rfl rfl rfl) rfl
    apply everyStep_cons rfl ⟨officeNames_succeeds htruncated, officeNames_apart htruncated⟩
    apply advance_office (hnames _ rfl rfl rfl rfl) rfl
    apply advance_office (hnames _ rfl rfl rfl rfl) rfl
    apply advance_office (hnames _ rfl rfl rfl rfl) rfl
    trivial
  obtain ⟨w, hr, hidle, f, hf, hflag, hmem, hlocation, htext⟩ :
      ∃ w, run step (start office) truncatedRun = some w ∧ w.task = .idle ∧
        ∃ f, w.server.autosaveFolder = some f ∧ f.map[1]? ≠ some true ∧
          1 ∈ w.server.buffer.documents ∧
          w.server.documentLocation f 1 = ["out".toList, "notes".toList] ∧
          (w.server.buffer.document 1).text = "text".toList :=
    ⟨_, rfl, rfl, _, rfl, by decide, by decide, by decide, rfl⟩
  have hall := interrupted_save_loses_nothing _ _ _ _ _ _ office_accepted _ hC
  have hfile := (always_last hall hr hidle).1 f hf 1 hmem hflag
  rw [hlocation, htext] at hfile
  exact ⟨w, hr, hidle, hfile⟩

def Uninterrupted (o : SaveAnswer) (w w' : World) : Prop :=
  ∃ n, run step w (List.replicate n (.advance o)) = some w'

section Whole

variable {o : SaveAnswer} {s : Server}

theorem uninterrupted_refl (w : World) : Uninterrupted o w w := ⟨0, rfl⟩

theorem uninterrupted_head {w u w' : World} (hu : advance w.server o w.task = some u)
    (h : Uninterrupted o u w') : Uninterrupted o w w' := by
  obtain ⟨n, hn⟩ := h
  refine ⟨n + 1, ?_⟩
  rw [List.replicate_succ, run, step, hu, Option.bind_some, hn]

theorem uninterrupted_trans {w u w' : World} (h : Uninterrupted o w u)
    (h' : Uninterrupted o u w') : Uninterrupted o w w' := by
  obtain ⟨n, hn⟩ := h
  induction n generalizing w with
  | zero =>
    obtain rfl := Option.some.inj hn
    exact h'
  | succ n ih =>
    rw [List.replicate_succ] at hn
    obtain ⟨v, hv, hn⟩ := run_cons_inv hn
    exact uninterrupted_head hv (ih hn)

theorem loop_is_pass (l : List DocumentInfo) {f : AutoSaveFolder}
    (hf : s.autosaveFolder = some f) :
    Uninterrupted o ⟨s, .testing l⟩
      ⟨{ s with
        autosaveFolder :=
          some { f with map := (saveLoop f.folder s.buffer o.documents l f.map).map }
        files := filesAfter s.cwd s.files
          (saveLoop f.folder s.buffer o.documents l f.map).observations }, .idle⟩ := by
  induction l generalizing s f with
  | nil =>
    obtain ⟨buffer, autosaver, folder, cwd, files⟩ := s
    obtain rfl : folder = some f := hf
    exact uninterrupted_head rfl (uninterrupted_refl _)
  | cons d rest ih =>
    by_cases hflag : f.map[d]? = some true
    · have htest : advance s o (.testing (d :: rest)) = some ⟨s, .unflagging d rest⟩ := by
        simp [advance, hf, hflag]
      have hunflag : (unflag s d).autosaveFolder =
          some { f with map := f.map.insert d false } := by simp [unflag, hf]
      apply uninterrupted_head htest
      apply uninterrupted_head rfl
      apply uninterrupted_head rfl
      cases hopen : openStream (s.buffer.document d).title (o.documents d) with
      | none =>
        have hthrow : advance (unflag s d) o (.opening d (s.buffer.document d).text rest) =
            some ⟨unflag s d, .idle⟩ := by
          simp [advance, unflag, hf, hopen]
        apply uninterrupted_head hthrow
        rw [saveLoop_fails hflag hopen]
        have hsame : unflag s d =
            { s with autosaveFolder := some { f with map := f.map.insert d false } } := by
          simp [unflag, hf]
        rw [hsame]
        exact uninterrupted_refl _
      | some bytes =>
        have htruncate : advance (unflag s d) o (.opening d (s.buffer.document d).text rest) =
            some ⟨putFile (unflag s d) (s.documentLocation f d) (some (.text [])),
              .writing d (s.buffer.document d).text
                (outputPath f.folder (s.buffer.document d).title) bytes rest⟩ := by
          simp [advance, unflag, hf, hopen, Server.documentLocation]
        apply uninterrupted_head htruncate
        apply uninterrupted_head rfl
        apply uninterrupted_head rfl
        rw [saveLoop_writes hflag hopen]
        have hrest := ih (s := putFile (putFile (unflag s d) (s.documentLocation f d)
          (some (.text []))) (s.documentLocation f d)
          (some (.text ((s.buffer.document d).text.take bytes)))) hunflag
        simpa [putFile, unflag, FolderAutosave.Pass.observations, filesAfter,
          Server.documentLocation] using hrest
    · have htest : advance s o (.testing (d :: rest)) = some ⟨s, .advancing rest⟩ := by
        simp [advance, hf, hflag]
      apply uninterrupted_head htest
      apply uninterrupted_head rfl
      rw [saveLoop_unflagged hflag]
      exact ih hf

theorem documents_are_saved : Uninterrupted o ⟨s, beginLoop s⟩ ⟨s.saveDocuments o.documents, .idle⟩ := by
  cases hf : s.autosaveFolder with
  | none =>
    rw [beginLoop, hf, saveDocuments_none hf]
    exact uninterrupted_refl _
  | some f =>
    rw [beginLoop, hf, Server.saveDocuments, hf]
    exact loop_is_pass f.map.keys hf

theorem session_is_saved {a : AutoSaver} (ha : s.autosaver = some a) (both : Bool) :
    Uninterrupted o ⟨s, .serialising both⟩
      ⟨s.saveSession o.session, afterSession (s.saveSession o.session) both⟩ := by
  cases hwritten : o.session.serialise with
  | threw what left =>
    have hsave : s.saveSession o.session = putFile s (s.sessionLocation a) left := by
      obtain ⟨buffer, autosaver, folder, cwd, files⟩ := s
      obtain rfl : autosaver = some a := ha
      simp [Server.saveSession, SessionAutosave.save_threw hwritten, SessionAutosave.fileAfter,
        putFile]
    have hthrow : advance s o (.serialising both) =
        some ⟨putFile s (s.sessionLocation a) left, afterSession s both⟩ := by
      simp [advance, ha, hwritten]
    rw [hsave]
    exact uninterrupted_head hthrow (uninterrupted_refl _)
  | written =>
    have hserialise : advance s o (.serialising both) =
        some ⟨putFile s (s.sessionLocation a) (some (.session s.buffer.session)),
          .clearing both⟩ := by
      simp [advance, ha, hwritten]
    apply uninterrupted_head hserialise
    apply uninterrupted_head rfl
    apply uninterrupted_head rfl
    rw [saveSession_written s hwritten ha]
    have hclear : clearModification
        (putFile s (s.sessionLocation a) (some (.session s.buffer.session))) =
        { s with
          autosaver := some { a with hasModification := false }
          files := Function.update s.files (s.sessionLocation a)
            (some (.session s.buffer.session)) } := by
      simp [clearModification, putFile, ha]
    rw [hclear]
    exact uninterrupted_refl _

/-- Without signals the elementary steps are the save of the other models, failures included. -/
theorem uninterrupted_save :
    Uninterrupted o ⟨s, beginSave s⟩ ⟨s.save o, .idle⟩ := by
  cases ha : s.autosaver with
  | none =>
    rw [beginSave, ha, Server.save, saveSession_none ha]
    exact documents_are_saved
  | some a =>
    rw [beginSave, ha]
    exact uninterrupted_trans (session_is_saved ha true) documents_are_saved

theorem uninterrupted_change {s' : Server} {d : DocumentInfo} {text : Text}
    (h : s.change d text = some s') :
    ∃ w, step (start s) (.change d text) = some w ∧ Uninterrupted o w ⟨s', .idle⟩ := by
  obtain ⟨t, ht, _, rfl⟩ := change_cases h
  refine ⟨⟨t, .tellingSaver d⟩, ?_, ?_⟩
  · simp [step, start, World.begin, ht]
  · apply uninterrupted_head rfl
    apply uninterrupted_head rfl
    exact uninterrupted_refl _

end Whole

end InterruptedSaves
