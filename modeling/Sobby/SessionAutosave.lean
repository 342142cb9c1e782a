import Sobby.StepMachine
import Sobby.UpdateHistory
import Sobby.SessionBuffer

/-! The session autosaver: one flag `m_has_modification` stands for the whole session. It is
set by the document signals, cleared by a successful `serialise`, and read by the timer. -/
namespace SessionAutosave

open StepMachine
open UpdateHistory
open SessionBuffer
open Strings (Text)

/-- How a call of `serialise` ends. When it throws, the file holds whatever was left there. -/
inductive SerialiseResult where
  | written
  | threw (what : Text) (left : Option FileContent)
  deriving DecidableEq, Repr

inductive SpawnResult where
  | launched
  | threw (what : Text)
  deriving DecidableEq, Repr

/-- What the environment answers to one `save`. -/
structure SaveOutcome where
  serialise : SerialiseResult
  hook : SpawnResult
  deriving DecidableEq, Repr

inductive Observation where
  | inserted (d : DocumentInfo)
  | removed (d : DocumentInfo)
  | changed (d : DocumentInfo)
  | serialise (session : List Document) (result : SerialiseResult)
  | spawnAsync (argv : List Text) (result : SpawnResult)
  | signalError (what : Text)
  deriving DecidableEq, Repr

/-- `watched` holds the documents whose `changed_event` is connected to `on_document_change`. -/
structure AutoSaver where
  filename : Text
  postSaveHook : Text
  connTimer : Option ℕ
  watched : Finset DocumentInfo
  hasModification : Bool
  deriving DecidableEq

def AutoSaver.onDocumentInsert (a : AutoSaver) (d : DocumentInfo) : AutoSaver :=
  { a with watched := insert d a.watched, hasModification := true }

def AutoSaver.onDocumentRemove (a : AutoSaver) (_ : DocumentInfo) : AutoSaver := a

def AutoSaver.onDocumentChange (a : AutoSaver) : AutoSaver := { a with hasModification := true }

/-- The constructor. The period is an `unsigned int` product. -/
def AutoSaver.create (buffer : ServerBuffer) (filename : Text) (interval : ℕ)
    (postSaveHook : Text) : AutoSaver :=
  buffer.documents.foldl AutoSaver.onDocumentInsert
    { filename := filename
      postSaveHook := postSaveHook
      connTimer := if 0 < interval then some (interval * 1000 % 2 ^ 32) else none
      watched := ∅
      hasModification := true }

def AutoSaver.save (a : AutoSaver) (buffer : ServerBuffer) (o : SaveOutcome) :
    AutoSaver × List Observation :=
  match o.serialise with
  | .threw what _ => (a, [.serialise buffer.session o.serialise, .signalError what])
  | .written =>
    let a := { a with hasModification := false }
    if a.postSaveHook = [] then (a, [.serialise buffer.session .written])
    else
      let argv := [a.postSaveHook, a.filename]
      match o.hook with
      | .launched => (a, [.serialise buffer.session .written, .spawnAsync argv .launched])
      | .threw what =>
        (a, [.serialise buffer.session .written, .spawnAsync argv (.threw what),
          .signalError what])

def AutoSaver.onTimer (a : AutoSaver) (buffer : ServerBuffer) (o : SaveOutcome) :
    AutoSaver × List Observation :=
  if a.hasModification then a.save buffer o else (a, [])

def AutoSaver.disconnect (a : AutoSaver) (d : DocumentInfo) : AutoSaver :=
  { a with watched := a.watched.erase d }

/-- `changed_event` of a document reaches the saver only if it is connected. -/
def AutoSaver.changedEvent (a : AutoSaver) (d : DocumentInfo) : AutoSaver :=
  if d ∈ a.watched then a.onDocumentChange else a

def fileAfter (file : Option FileContent) : List Observation → Option FileContent
  | [] => file
  | .serialise session .written :: rest => fileAfter (some (.session session)) rest
  | .serialise _ (.threw _ left) :: rest => fileAfter left rest
  | _ :: rest => fileAfter file rest

structure World where
  buffer : ServerBuffer
  saver : AutoSaver
  file : Option FileContent
  trace : List Observation

def start (buffer : ServerBuffer) (filename : Text) (interval : ℕ) (postSaveHook : Text)
    (file : Option FileContent) : World :=
  ⟨buffer, .create buffer filename interval postSaveHook, file, []⟩

inductive Event where
  | insert (d : DocumentInfo) (doc : Document)
  | remove (d : DocumentInfo)
  | change (d : DocumentInfo) (text : Text)
  | save (o : SaveOutcome)
  | tick (o : SaveOutcome)
  deriving DecidableEq, Repr

def World.perform (w : World) (r : AutoSaver × List Observation) : World :=
  { w with saver := r.1, file := fileAfter w.file r.2, trace := r.2.reverse ++ w.trace }

def step (w : World) : Event → Option World
  | .insert d doc =>
    (w.buffer.insert d doc).map fun b =>
      { w with buffer := b, saver := w.saver.onDocumentInsert d, trace := .inserted d :: w.trace }
  | .remove d =>
    (w.buffer.remove d).map fun b =>
      { w with
        buffer := b
        saver := (w.saver.onDocumentRemove d).disconnect d
        trace := .removed d :: w.trace }
  | .change d text =>
    (w.buffer.change d text).map fun b =>
      { w with buffer := b, saver := w.saver.changedEvent d, trace := .changed d :: w.trace }
  | .save o => some (w.perform (w.saver.save w.buffer o))
  | .tick o =>
    if w.saver.connTimer = none then none else some (w.perform (w.saver.onTimer w.buffer o))

def Observation.FromHook : Observation → Prop
  | .spawnAsync _ _ | .signalError _ => True
  | _ => False

def Serialises (obs : List Observation) : Prop := ∃ session r, .serialise session r ∈ obs

/-- Every insertion, removal and change counts as an update of the session. -/
def sessionReading : Reading Observation Unit (List Document) where
  touches
    | .inserted _, _ | .removed _, _ | .changed _, _ => true
    | _, _ => false
  flushed
    | .serialise session .written, _ => some session
    | _, _ => none

/-- What the handlers of the code count as an update: `on_document_remove` is empty. -/
def flagReading : Reading Observation Unit (List Document) where
  touches
    | .inserted _, _ | .changed _, _ => true
    | _, _ => false
  flushed := sessionReading.flushed

theorem create_insertions (documents : List DocumentInfo) (a : AutoSaver) :
    (documents.foldl AutoSaver.onDocumentInsert a).watched = a.watched ∪ documents.toFinset ∧
      (a.hasModification = true →
        (documents.foldl AutoSaver.onDocumentInsert a).hasModification = true) := by
  induction documents generalizing a with
  | nil => simp
  | cons d documents ih =>
    obtain ⟨hw, hm⟩ := ih (a.onDocumentInsert d)
    refine ⟨?_, fun _ => hm rfl⟩
    rw [List.foldl_cons, hw]
    ext x
    simp [AutoSaver.onDocumentInsert]

theorem create_watches (buffer : ServerBuffer) (filename hook : Text) (interval : ℕ) :
    ∀ d ∈ buffer.documents, d ∈ (AutoSaver.create buffer filename interval hook).watched := by
  intro d hd
  rw [AutoSaver.create, (create_insertions buffer.documents _).1]
  simp [hd]

theorem create_modified (buffer : ServerBuffer) (filename hook : Text) (interval : ℕ) :
    (AutoSaver.create buffer filename interval hook).hasModification = true :=
  (create_insertions buffer.documents _).2 rfl

theorem changedEvent_watched {a : AutoSaver} {d : DocumentInfo} (hd : d ∈ a.watched) :
    a.changedEvent d = { a with hasModification := true } := by
  simp [AutoSaver.changedEvent, hd, AutoSaver.onDocumentChange]

theorem changedEvent_frame (a : AutoSaver) (d : DocumentInfo) :
    (a.changedEvent d).filename = a.filename ∧ (a.changedEvent d).watched = a.watched := by
  unfold AutoSaver.changedEvent
  split
  · exact ⟨rfl, rfl⟩
  · exact ⟨rfl, rfl⟩

theorem fileAfter_fromHook {obs : List Observation} (h : ∀ ob ∈ obs, ob.FromHook)
    (file : Option FileContent) : fileAfter file obs = file := by
  induction obs with
  | nil => rfl
  | cons ob obs ih =>
    have hob := h ob (by simp)
    have hrest := ih fun b hb => h b (by simp [hb])
    cases ob with
    | spawnAsync argv r => exact hrest
    | signalError what => exact hrest
    | inserted d => exact hob.elim
    | removed d => exact hob.elim
    | changed d => exact hob.elim
    | serialise session r => exact hob.elim

theorem save_threw {a : AutoSaver} {o : SaveOutcome} {what : Text} {left : Option FileContent}
    (h : o.serialise = .threw what left) (buffer : ServerBuffer) :
    a.save buffer o =
      (a, [.serialise buffer.session (.threw what left), .signalError what]) := by
  simp [AutoSaver.save, h]

theorem save_written {o : SaveOutcome} (h : o.serialise = .written) (a : AutoSaver)
    (buffer : ServerBuffer) :
    ∃ rest : List Observation, (∀ ob ∈ rest, ob.FromHook) ∧
      a.save buffer o =
        ({ a with hasModification := false }, .serialise buffer.session .written :: rest) := by
  simp only [AutoSaver.save, h]
  split
  · exact ⟨[], by simp, rfl⟩
  · cases o.hook with
    | launched => exact ⟨_, by simp [Observation.FromHook], rfl⟩
    | threw what => exact ⟨_, by simp [Observation.FromHook], rfl⟩

theorem serialises_save (a : AutoSaver) (buffer : ServerBuffer) (o : SaveOutcome) :
    Serialises (a.save buffer o).2 := by
  cases h : o.serialise with
  | threw what left => exact ⟨buffer.session, .threw what left, by simp [save_threw h]⟩
  | written =>
    obtain ⟨rest, _, hs⟩ := save_written h a buffer
    exact ⟨buffer.session, .written, by simp [hs]⟩

theorem onTimer_serialises (a : AutoSaver) (buffer : ServerBuffer) (o : SaveOutcome) :
    Serialises (a.onTimer buffer o).2 ↔ a.hasModification = true := by
  unfold AutoSaver.onTimer
  split
  · next h => exact iff_of_true (serialises_save a buffer o) h
  · next h => exact iff_of_false (by simp [Serialises]) h

/-- What one save does to the world: it fails and leaves the flag, or it clears the flag. -/
theorem perform_save_cases (w : World) (o : SaveOutcome) :
    (∃ what left, o.serialise = .threw what left ∧
      w.perform (w.saver.save w.buffer o) =
        { w with
          file := left
          trace := .signalError what :: .serialise w.buffer.session (.threw what left) ::
            w.trace }) ∨
    (o.serialise = .written ∧ ∃ newer : List Observation, (∀ ob ∈ newer, ob.FromHook) ∧
      w.perform (w.saver.save w.buffer o) =
        { w with
          saver := { w.saver with hasModification := false }
          file := some (.session w.buffer.session)
          trace := newer ++ .serialise w.buffer.session .written :: w.trace }) := by
  cases h : o.serialise with
  | threw what left =>
    exact Or.inl ⟨what, left, rfl, by simp [World.perform, save_threw h, fileAfter]⟩
  | written =>
    obtain ⟨rest, hrest, hs⟩ := save_written h w.saver w.buffer
    refine Or.inr ⟨rfl, rest.reverse, fun ob hob => hrest ob (List.mem_reverse.mp hob), ?_⟩
    simp [World.perform, hs, fileAfter, fileAfter_fromHook hrest]

/-- Everything a step can do, guards included. -/
theorem step_cases {w w' : World} {e : Event} (h : step w e = some w') :
    (∃ d doc b, e = .insert d doc ∧ w.buffer.insert d doc = some b ∧
      w' = { w with
        buffer := b, saver := w.saver.onDocumentInsert d, trace := .inserted d :: w.trace }) ∨
    (∃ d b, e = .remove d ∧ w.buffer.remove d = some b ∧
      w' = { w with
        buffer := b, saver := w.saver.disconnect d, trace := .removed d :: w.trace }) ∨
    (∃ d text b, e = .change d text ∧ w.buffer.change d text = some b ∧
      w' = { w with
        buffer := b, saver := w.saver.changedEvent d, trace := .changed d :: w.trace }) ∨
    (∃ o, (e = .save o ∨ e = .tick o ∧ w.saver.hasModification = true) ∧
      w' = w.perform (w.saver.save w.buffer o)) ∨
    (∃ o, e = .tick o ∧ w.saver.hasModification = false ∧ w' = w) := by
  cases e with
  | insert d doc =>
    obtain ⟨b, hb, rfl⟩ := Option.map_eq_some_iff.mp h
    exact Or.inl ⟨d, doc, b, rfl, hb, rfl⟩
  | remove d =>
    obtain ⟨b, hb, rfl⟩ := Option.map_eq_some_iff.mp h
    exact Or.inr (Or.inl ⟨d, b, rfl, hb, rfl⟩)
  | change d text =>
    obtain ⟨b, hb, rfl⟩ := Option.map_eq_some_iff.mp h
    exact Or.inr (Or.inr (Or.inl ⟨d, text, b, rfl, hb, rfl⟩))
  | save o =>
    obtain rfl := Option.some.inj h
    exact Or.inr (Or.inr (Or.inr (Or.inl ⟨o, Or.inl rfl, rfl⟩)))
  | tick o =>
    simp only [step] at h
    split at h
    · cases h
    · obtain rfl := Option.some.inj h
      cases hm : w.saver.hasModification with
      | true =>
        refine Or.inr (Or.inr (Or.inr (Or.inl ⟨o, Or.inr ⟨rfl, rfl⟩, ?_⟩)))
        simp [AutoSaver.onTimer, hm]
      | false =>
        refine Or.inr (Or.inr (Or.inr (Or.inr ⟨o, rfl, rfl, ?_⟩)))
        simp [AutoSaver.onTimer, hm, World.perform, fileAfter]

def Observation.Quiet : Observation → Prop
  | .spawnAsync _ _ | .signalError _ | .serialise _ (.threw _ _) => True
  | _ => False

theorem Observation.FromHook.quiet {ob : Observation} (h : ob.FromHook) : ob.Quiet := by
  cases ob with
  | spawnAsync argv r => trivial
  | signalError what => trivial
  | inserted d => exact h.elim
  | removed d => exact h.elim
  | changed d => exact h.elim
  | serialise session r => exact h.elim

theorem Observation.Quiet.skipped {ob : Observation} (h : ob.Quiet) :
    sessionReading.touches ob () = false ∧ flagReading.touches ob () = false ∧
      sessionReading.flushed ob () = none := by
  cases ob with
  | spawnAsync argv r => exact ⟨rfl, rfl, rfl⟩
  | signalError what => exact ⟨rfl, rfl, rfl⟩
  | inserted d => exact h.elim
  | removed d => exact h.elim
  | changed d => exact h.elim
  | serialise session r =>
    cases r with
    | written => exact h.elim
    | threw what left => exact ⟨rfl, rfl, rfl⟩

theorem session_pending_quiet {newer : List Observation} (hn : ∀ ob ∈ newer, ob.Quiet)
    (h : List Observation) :
    sessionReading.Pending (newer ++ h) () ↔ sessionReading.Pending h () :=
  pending_append_skip (fun ob hob => ⟨(hn ob hob).skipped.1, (hn ob hob).skipped.2.2⟩) h

theorem flag_pending_quiet {newer : List Observation} (hn : ∀ ob ∈ newer, ob.Quiet)
    (h : List Observation) : flagReading.Pending (newer ++ h) () ↔ flagReading.Pending h () :=
  pending_append_skip (fun ob hob => (hn ob hob).skipped.2) h

theorem session_lastFlushed_quiet {newer : List Observation} (hn : ∀ ob ∈ newer, ob.Quiet)
    (h : List Observation) :
    sessionReading.lastFlushed (newer ++ h) () = sessionReading.lastFlushed h () :=
  lastFlushed_append_skip (fun ob hob => (hn ob hob).skipped.2.2) h

structure Tracked (w : World) : Prop where
  watched : ∀ d ∈ w.buffer.documents, d ∈ w.saver.watched
  tracks : flagReading.Tracks (fun _ => w.saver.hasModification) w.trace ()
  coherent : sessionReading.Coherent (fun _ => w.buffer.session) w.trace ()

theorem start_tracked (buffer : ServerBuffer) (filename hook : Text) (interval : ℕ)
    (file : Option FileContent) : Tracked (start buffer filename interval hook file) where
  watched := create_watches buffer filename hook interval
  tracks := iff_of_true (create_modified buffer filename hook interval) trivial
  coherent := fun h => (h trivial).elim

theorem save_tracked {w : World} (hw : Tracked w) (o : SaveOutcome) :
    Tracked (w.perform (w.saver.save w.buffer o)) := by
  obtain ⟨what, left, _, hp⟩ | ⟨_, newer, hn, hp⟩ := perform_save_cases w o
  · have hq : ∀ ob ∈ [Observation.signalError what,
        .serialise w.buffer.session (.threw what left)], ob.Quiet := by
      simp [Observation.Quiet]
    rw [hp]
    refine ⟨hw.watched, hw.tracks.trans (flag_pending_quiet hq w.trace).symm, fun hpend => ?_⟩
    rw [← hw.coherent fun h => hpend ((session_pending_quiet hq w.trace).mpr h)]
    exact session_lastFlushed_quiet hq w.trace
  · have hq : ∀ ob ∈ newer, ob.Quiet := fun ob hob => (hn ob hob).quiet
    rw [hp]
    refine ⟨hw.watched, iff_of_false (by simp) ?_, fun _ => ?_⟩
    · rw [flag_pending_quiet hq]
      exact pending_cons_flush rfl rfl w.trace
    · rw [session_lastFlushed_quiet hq]
      rfl

theorem tracked_step (w : World) (e : Event) (w' : World) (hw : Tracked w)
    (h : step w e = some w') : Tracked w' := by
  obtain ⟨d, doc, b, rfl, hb, rfl⟩ | ⟨d, b, rfl, hb, rfl⟩ | ⟨d, text, b, rfl, hb, rfl⟩ |
    ⟨o, _, rfl⟩ | ⟨o, rfl, _, rfl⟩ := step_cases h
  · obtain ⟨_, hdocs, _⟩ := insert_spec hb
    refine ⟨?_, ?_, ?_⟩
    · intro x hx
      rw [hdocs, List.mem_append, List.mem_singleton] at hx
      rcases hx with hx | rfl
      · exact Finset.mem_insert_of_mem (hw.watched x hx)
      · exact Finset.mem_insert_self x _
    · exact tracks_cons hw.tracks (fun _ => rfl) (fun _ ht => by cases ht) (fun ht => by cases ht)
    · exact coherent_cons hw.coherent (fun ht => by cases ht) (fun _ ht => by cases ht)
  · obtain ⟨_, hdocs, _⟩ := remove_spec hb
    refine ⟨?_, ?_, ?_⟩
    · intro x hx
      rw [hdocs, w.buffer.nodup.mem_erase_iff] at hx
      exact Finset.mem_erase.mpr ⟨hx.1, hw.watched x hx.2⟩
    · exact tracks_cons hw.tracks (fun ht => by cases ht) (fun _ _ hv => by cases hv)
        (fun _ _ => rfl)
    · exact coherent_cons hw.coherent (fun ht => by cases ht) (fun _ ht => by cases ht)
  · obtain ⟨hd, hdocs, _⟩ := change_spec hb
    rw [changedEvent_watched (hw.watched d hd)]
    refine ⟨?_, ?_, ?_⟩
    · intro x hx
      exact hw.watched x (hdocs ▸ hx)
    · exact tracks_cons hw.tracks (fun _ => rfl) (fun _ ht => by cases ht) (fun ht => by cases ht)
    · exact coherent_cons hw.coherent (fun ht => by cases ht) (fun _ ht => by cases ht)
  · exact save_tracked hw o
  · exact hw

structure Faithful (w : World) : Prop extends Tracked w where
  seen : sessionReading.Pending w.trace () → flagReading.Pending w.trace ()
  backed : ∀ session, sessionReading.lastFlushed w.trace () = some session →
    w.file = some (.session session)

theorem flag_pending_session (h : List Observation) (hp : flagReading.Pending h ()) :
    sessionReading.Pending h () := by
  induction h with
  | nil => trivial
  | cons ob h ih =>
    rcases hp with ht | ⟨hf, hp⟩
    · apply Or.inl
      cases ob <;> first | rfl | cases ht
    · exact Or.inr ⟨hf, ih hp⟩

theorem Faithful.session_tracks {w : World} (hw : Faithful w) :
    sessionReading.Tracks (fun _ => w.saver.hasModification) w.trace () :=
  hw.tracks.trans ⟨flag_pending_session w.trace, hw.seen⟩

def SerialiseSucceeds (_ : World) (e : Event) : Prop :=
  ∀ o, e = .save o ∨ e = .tick o → o.serialise = .written

def RemovalFlagged (w : World) (e : Event) : Prop :=
  ∀ d, e = .remove d → w.saver.hasModification = true

theorem start_faithful (buffer : ServerBuffer) (filename hook : Text) (interval : ℕ)
    (file : Option FileContent) : Faithful (start buffer filename interval hook file) where
  toTracked := start_tracked buffer filename hook interval file
  seen := fun _ => trivial
  backed := fun session h => by cases h

theorem save_faithful {w : World} (hw : Faithful w) {o : SaveOutcome}
    (hok : o.serialise = .written) : Faithful (w.perform (w.saver.save w.buffer o)) := by
  have ht := save_tracked hw.toTracked o
  obtain ⟨what, left, ho, _⟩ | ⟨_, newer, hn, hp⟩ := perform_save_cases w o
  · rw [hok] at ho
    cases ho
  · have hq : ∀ ob ∈ newer, ob.Quiet := fun ob hob => (hn ob hob).quiet
    rw [hp] at ht ⊢
    refine { toTracked := ht, seen := ?_, backed := ?_ }
    · intro hpend
      rw [session_pending_quiet hq] at hpend
      exact (pending_cons_flush rfl rfl w.trace hpend).elim
    · intro session hsession
      rw [session_lastFlushed_quiet hq] at hsession
      cases hsession
      rfl

theorem faithful_step (w : World) (e : Event) (w' : World) (hw : Faithful w)
    (hs : SerialiseSucceeds w e) (hr : RemovalFlagged w e) (h : step w e = some w') :
    Faithful w' := by
  have ht := tracked_step w e w' hw.toTracked h
  obtain ⟨d, doc, b, rfl, hb, rfl⟩ | ⟨d, b, rfl, hb, rfl⟩ | ⟨d, text, b, rfl, hb, rfl⟩ |
    ⟨o, he, rfl⟩ | ⟨o, rfl, hm, rfl⟩ := step_cases h
  · exact { toTracked := ht, seen := fun _ => pending_cons_touch rfl w.trace, backed := hw.backed }
  · -- the handler is empty: only the flag found set keeps the removal from being forgotten
    have hseen : flagReading.Pending (.removed d :: w.trace) () :=
      (pending_cons_skip rfl rfl w.trace).mpr (hw.tracks.mp (hr d rfl))
    exact { toTracked := ht, seen := fun _ => hseen, backed := hw.backed }
  · exact { toTracked := ht, seen := fun _ => pending_cons_touch rfl w.trace, backed := hw.backed }
  · exact save_faithful hw (hs o (he.imp_right And.left))
  · exact hw

/-- What is asked of the timer in one state: a tick saves exactly when the session was
modified since the last successful save, and a clean flag means an up-to-date file. -/
def TimerFaithful (w : World) : Prop :=
  (∀ o, Serialises (w.saver.onTimer w.buffer o).2 ↔ sessionReading.Pending w.trace ()) ∧
  (w.saver.hasModification = false → w.file = some (.session w.buffer.session))

theorem Faithful.timer {w : World} (hw : Faithful w) : TimerFaithful w := by
  constructor
  · intro o
    rw [onTimer_serialises]
    exact hw.session_tracks
  · intro hm
    exact hw.backed _ (clean_is_backed hw.session_tracks hw.coherent hm)

/-- A removal that finds the flag clear leaves it clear over a file that is out of date. -/
theorem unflagged_removal_loses {w w' : World} {e : Event} (hw : Faithful w)
    (hr : ¬ RemovalFlagged w e) (h : step w e = some w') : ¬ TimerFaithful w' := by
  simp only [RemovalFlagged, not_forall] at hr
  obtain ⟨d, rfl, hm⟩ := hr
  have hm : w.saver.hasModification = false := by simpa using hm
  obtain ⟨b, hb, rfl⟩ := Option.map_eq_some_iff.mp h
  rintro ⟨_, hfile⟩
  have hold := hw.timer.2 hm
  have hnew := hfile hm
  rw [show w.file = _ from hold] at hnew
  exact session_remove_ne hb (FileContent.session.inj (Option.some.inj hnew)).symm

/-- Along a run whose `serialise` calls succeed, the timer saves exactly the modified
sessions if and only if no document is removed while the flag is clear. -/
theorem timer_faithful_iff_removals_flagged (buffer : ServerBuffer) (filename hook : Text)
    (interval : ℕ) (file : Option FileContent) (es : List Event)
    (hs : EveryStep step SerialiseSucceeds (start buffer filename interval hook file) es) :
    Always step TimerFaithful (start buffer filename interval hook file) es ↔
      EveryStep step RemovalFlagged (start buffer filename interval hook file) es :=
  always_iff_everyStep (fun _ hw => hw.timer) faithful_step
    (fun _ _ _ hw _ hr h => unflagged_removal_loses hw hr h)
    (start_faithful buffer filename hook interval file) hs

def notes : ServerBuffer where
  documents := [1]
  document := fun _ => ⟨"notes".toList, "text".toList⟩
  nodup := one_nodup

def notesStart : World := start notes "autosave.obby".toList 60 [] none

def succeeds : SaveOutcome := ⟨.written, .launched⟩

theorem timer_faithful_editing_run :
    EveryStep step SerialiseSucceeds notesStart
      [.tick succeeds, .change 1 "longer text".toList, .remove 1, .tick succeeds] ∧
    Always step TimerFaithful notesStart
      [.tick succeeds, .change 1 "longer text".toList, .remove 1, .tick succeeds] := by
  have hs : EveryStep step SerialiseSucceeds notesStart
      [.tick succeeds, .change 1 "longer text".toList, .remove 1, .tick succeeds] :=
    everyStep_of_forall (by simp [SerialiseSucceeds, succeeds])
  refine ⟨hs, (timer_faithful_iff_removals_flagged notes _ _ _ _ _ hs).mpr ?_⟩
  refine everyStep_cons rfl (fun d hd => ?_) ?_
  · cases hd
  refine everyStep_cons rfl (fun d hd => ?_) ?_
  · cases hd
  refine everyStep_cons rfl (fun d _ => rfl) ?_
  refine everyStep_cons rfl (fun d hd => ?_) trivial
  cases hd

/-- The session is saved, its only document is removed: the flag stays clear, the file keeps
the removed document and the next tick saves nothing. -/
theorem removal_is_never_saved :
    EveryStep step SerialiseSucceeds notesStart [.save succeeds, .remove 1] ∧
    (∃ w, run step notesStart [.save succeeds, .remove 1] = some w ∧
      sessionReading.Pending w.trace () ∧ (w.saver.onTimer w.buffer succeeds).2 = [] ∧
      w.file = some (.session [notes.document 1]) ∧ w.buffer.session = []) ∧
    ¬ Always step TimerFaithful notesStart [.save succeeds, .remove 1] := by
  refine ⟨everyStep_of_forall (by simp [SerialiseSucceeds, succeeds]),
    ⟨_, rfl, Or.inl rfl, rfl, rfl, rfl⟩, fun h => ?_⟩
  have hfile := ((h.2 _ rfl).2 _ rfl).2 rfl
  exact absurd hfile (by decide)

def lastAttempt : List Observation → Option SerialiseResult
  | [] => none
  | .serialise _ r :: _ => some r
  | _ :: h => lastAttempt h

def LastAttemptFailed (h : List Observation) : Prop :=
  ∃ what left, lastAttempt h = some (.threw what left)

theorem lastAttempt_append_fromHook {newer : List Observation}
    (hn : ∀ ob ∈ newer, ob.FromHook) (h : List Observation) :
    lastAttempt (newer ++ h) = lastAttempt h := by
  induction newer with
  | nil => rfl
  | cons ob newer ih =>
    have hob := hn ob (by simp)
    have hrest := ih fun b hb => hn b (by simp [hb])
    cases ob with
    | spawnAsync argv r => exact hrest
    | signalError what => exact hrest
    | inserted d => exact hob.elim
    | removed d => exact hob.elim
    | changed d => exact hob.elim
    | serialise session r => exact hob.elim

structure Armed (w : World) : Prop extends Tracked w where
  failed : LastAttemptFailed w.trace → w.saver.hasModification = true

theorem start_armed (buffer : ServerBuffer) (filename hook : Text) (interval : ℕ)
    (file : Option FileContent) : Armed (start buffer filename interval hook file) where
  toTracked := start_tracked buffer filename hook interval file
  failed := fun _ => create_modified buffer filename hook interval

def FailureFlagged (w : World) (e : Event) : Prop :=
  ∀ o what left, e = .save o → o.serialise = .threw what left → w.saver.hasModification = true

theorem armed_step (w : World) (e : Event) (w' : World) (hw : Armed w)
    (hf : FailureFlagged w e) (h : step w e = some w') : Armed w' := by
  have ht := tracked_step w e w' hw.toTracked h
  obtain ⟨d, doc, b, rfl, hb, rfl⟩ | ⟨d, b, rfl, hb, rfl⟩ | ⟨d, text, b, rfl, hb, rfl⟩ |
    ⟨o, he, rfl⟩ | ⟨o, rfl, hm, rfl⟩ := step_cases h
  · exact { toTracked := ht, failed := fun _ => rfl }
  · exact { toTracked := ht, failed := hw.failed }
  · have hd := hw.watched d (change_spec hb).1
    exact { toTracked := ht, failed := fun _ => by rw [changedEvent_watched hd] }
  · obtain ⟨what, left, ho, hp⟩ | ⟨_, newer, hn, hp⟩ := perform_save_cases w o
    · have hm : w.saver.hasModification = true := by
        rcases he with rfl | ⟨_, hm⟩
        · exact hf o what left rfl ho
        · exact hm
      exact { toTracked := ht, failed := fun _ => by rw [hp]; exact hm }
    · refine { toTracked := ht, failed := ?_ }
      rw [hp]
      rintro ⟨what, left, hl⟩
      rw [lastAttempt_append_fromHook hn] at hl
      cases hl
  · exact hw

/-- What is asked after failures: a failed `serialise` is attempted again by the next tick,
and a hook launch after a successful one, failed or not, is no reason to save again. -/
def RetriesFailures (w : World) : Prop :=
  (LastAttemptFailed w.trace → w.saver.hasModification = true ∧
    ∀ o, Serialises (w.saver.onTimer w.buffer o).2) ∧
  (∀ newer older session, w.trace = newer ++ .serialise session .written :: older →
    (∀ ob ∈ newer, ob.FromHook) → ∀ o, ¬ Serialises (w.saver.onTimer w.buffer o).2)

theorem Armed.retries {w : World} (hw : Armed w) : RetriesFailures w := by
  constructor
  · intro hf
    exact ⟨hw.failed hf, fun o => (onTimer_serialises _ _ _).mpr (hw.failed hf)⟩
  · intro newer older session htrace hn o hs
    have hpend := hw.tracks.mp ((onTimer_serialises _ _ _).mp hs)
    rw [htrace, flag_pending_quiet fun ob hob => (hn ob hob).quiet] at hpend
    exact pending_cons_flush rfl rfl older hpend

theorem unflagged_failure_is_final {w w' : World} {e : Event} (hf : ¬ FailureFlagged w e)
    (h : step w e = some w') : ¬ RetriesFailures w' := by
  simp only [FailureFlagged, not_forall] at hf
  obtain ⟨o, what, left, rfl, ho, hm⟩ := hf
  obtain rfl := Option.some.inj h
  rintro ⟨hretry, _⟩
  obtain ⟨what', left', _, hp⟩ | ⟨hok, _⟩ := perform_save_cases w o
  · rw [hp] at hretry
    exact hm (hretry ⟨what', left', rfl⟩).1
  · rw [ho] at hok
    cases hok

/-- Whatever fails along a run, failed saves are retried if and only if each explicit save
whose `serialise` throws is made while the flag is set. -/
theorem failures_retried_iff_flagged (buffer : ServerBuffer) (filename hook : Text)
    (interval : ℕ) (file : Option FileContent) (es : List Event) :
    Always step RetriesFailures (start buffer filename interval hook file) es ↔
      EveryStep step FailureFlagged (start buffer filename interval hook file) es :=
  always_iff_everyStep (D := fun _ _ => True) (fun _ hw => hw.retries)
    (fun w e w' hw _ hf h => armed_step w e w' hw hf h)
    (fun _ _ _ _ _ hf h => unflagged_failure_is_final hf h)
    (start_armed buffer filename hook interval file) (everyStep_of_forall fun _ _ _ => trivial)

/-- The session is saved and a signal saves it again while the disk is full: the damaged file
stays, the flag is clear and the timer never tries again. -/
theorem failed_explicit_save_is_final :
    (∃ w, run step notesStart [.save succeeds,
        .save ⟨.threw "No space left on device".toList (some .damaged), .launched⟩] = some w ∧
      w.file = some .damaged ∧ w.saver.hasModification = false ∧
      (w.saver.onTimer w.buffer succeeds).2 = []) ∧
    ¬ Always step RetriesFailures notesStart [.save succeeds,
        .save ⟨.threw "No space left on device".toList (some .damaged), .launched⟩] := by
  refine ⟨⟨_, rfl, rfl, rfl, rfl⟩, fun h => ?_⟩
  have hretry := ((h.2 _ rfl).2 _ rfl).1 ⟨_, _, rfl⟩
  exact absurd hretry.1 (by decide)

end SessionAutosave
