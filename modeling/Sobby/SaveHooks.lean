import Sobby.Histories
import Sobby.SessionAutosave

/-! What the saves of the session set off. Each save that reached the file starts the hook once,
with the name of the file, and each failure, of the save or of the hook, is shown once. -/
namespace SaveHooks

open StepMachine
open Histories
open SessionBuffer
open SessionAutosave
open Strings (Text)

/-- What `on_autosave_error` writes to the standard error and to the standard output. -/
def onAutosaveError (interactive : Bool) (what : Text) : Text × Text :=
  ("Autosave failed: ".toList ++ what ++ "\n".toList,
    if interactive then "sobby > ".toList else [])

def shown (interactive : Bool) : List Observation → Text × Text
  | [] => ([], [])
  | .signalError what :: older =>
    ((shown interactive older).1 ++ (onAutosaveError interactive what).1,
      (shown interactive older).2 ++ (onAutosaveError interactive what).2)
  | _ :: older => shown interactive older

def launches (trace : List Observation) : List (List Text) :=
  trace.filterMap fun
    | .spawnAsync argv _ => some argv
    | _ => none

def savedSessions (trace : List Observation) : List (List Document) :=
  trace.filterMap fun
    | .serialise session .written => some session
    | _ => none

def failures (trace : List Observation) : List Text :=
  trace.filterMap fun
    | .serialise _ (.threw what _) => some what
    | .spawnAsync _ (.threw what) => some what
    | _ => none

def signalled (trace : List Observation) : List Text :=
  trace.filterMap fun
    | .signalError what => some what
    | _ => none

def Caused (ob : Observation) (older : List Observation) : Prop :=
  (∀ argv r, ob = .spawnAsync argv r → ∃ session rest, older = .serialise session .written :: rest) ∧
  (∀ what, ob = .signalError what → ∃ cause rest, older = cause :: rest ∧ failures [cause] = [what])

/-- Asked of every state of a server whose saver has this file and this hook. -/
structure SavesReported (filename hook : Text) (interactive : Bool) (w : World) : Prop where
  caused : ∀ newer ob older, w.trace = newer ++ ob :: older → Caused ob older
  launched : launches w.trace =
    if hook = [] then [] else (savedSessions w.trace).map fun _ => [hook, filename]
  errors : (shown interactive w.trace).1 = (failures w.trace).reverse.flatMap fun what =>
    "Autosave failed: ".toList ++ what ++ "\n".toList
  prompts : (shown interactive w.trace).2 =
    if interactive then (failures w.trace).reverse.flatMap fun _ => "sobby > ".toList else []

/-- Everything a save adds to the history. -/
theorem save_trace_cases (w : World) (o : SaveOutcome) :
    (∃ what left, (w.perform (w.saver.save w.buffer o)).trace =
      .signalError what :: .serialise w.buffer.session (.threw what left) :: w.trace) ∨
    (w.saver.postSaveHook = [] ∧ (w.perform (w.saver.save w.buffer o)).trace =
      .serialise w.buffer.session .written :: w.trace) ∨
    (w.saver.postSaveHook ≠ [] ∧ (w.perform (w.saver.save w.buffer o)).trace =
      .spawnAsync [w.saver.postSaveHook, w.saver.filename] .launched ::
        .serialise w.buffer.session .written :: w.trace) ∨
    (w.saver.postSaveHook ≠ [] ∧ ∃ what, (w.perform (w.saver.save w.buffer o)).trace =
      .signalError what :: .spawnAsync [w.saver.postSaveHook, w.saver.filename] (.threw what) ::
        .serialise w.buffer.session .written :: w.trace) := by
  cases hs : o.serialise with
  | threw what left =>
    exact Or.inl ⟨what, left, by simp [World.perform, save_threw hs]⟩
  | written =>
    by_cases hhook : w.saver.postSaveHook = []
    · exact Or.inr (Or.inl ⟨hhook, by simp [World.perform, AutoSaver.save, hs, hhook]⟩)
    · cases ho : o.hook with
      | launched =>
        refine Or.inr (Or.inr (Or.inl ⟨hhook, ?_⟩))
        simp [World.perform, AutoSaver.save, hs, hhook, ho]
      | threw what =>
        refine Or.inr (Or.inr (Or.inr ⟨hhook, what, ?_⟩))
        simp [World.perform, AutoSaver.save, hs, hhook, ho]

theorem save_settings (a : AutoSaver) (buffer : ServerBuffer) (o : SaveOutcome) :
    (a.save buffer o).1.postSaveHook = a.postSaveHook ∧
      (a.save buffer o).1.filename = a.filename := by
  cases hs : o.serialise with
  | threw what left => simp [save_threw hs]
  | written =>
    obtain ⟨rest, _, hsave⟩ := save_written hs a buffer
    simp [hsave]

theorem save_launches {a : AutoSaver} {buffer : ServerBuffer} {o : SaveOutcome} {argv : List Text}
    (h : argv ∈ launches (a.save buffer o).2) :
    a.postSaveHook ≠ [] ∧ argv = [a.postSaveHook, a.filename] := by
  cases hs : o.serialise with
  | threw what left => simp [save_threw hs, launches] at h
  | written =>
    by_cases hhook : a.postSaveHook = []
    · simp [AutoSaver.save, hs, hhook, launches] at h
    · cases ho : o.hook with
      | launched => exact ⟨hhook, by simpa [AutoSaver.save, hs, hhook, ho, launches] using h⟩
      | threw what => exact ⟨hhook, by simpa [AutoSaver.save, hs, hhook, ho, launches] using h⟩

structure Reported (filename hook : Text) (w : World) : Prop where
  sameFile : w.saver.filename = filename
  sameHook : w.saver.postSaveHook = hook
  caused : Each Caused w.trace
  launched : launches w.trace =
    if hook = [] then [] else (savedSessions w.trace).map fun _ => [hook, filename]
  signalled : signalled w.trace = failures w.trace

theorem shown_eq (interactive : Bool) (trace : List Observation) :
    shown interactive trace =
      ((signalled trace).reverse.flatMap fun what => (onAutosaveError interactive what).1,
        (signalled trace).reverse.flatMap fun what => (onAutosaveError interactive what).2) := by
  induction trace with
  | nil => rfl
  | cons ob trace ih =>
    cases ob with
    | signalError what => simp [shown, signalled, ih]
    | inserted d => exact ih
    | removed d => exact ih
    | changed d => exact ih
    | serialise session r => exact ih
    | spawnAsync argv r => exact ih

theorem Reported.saves {filename hook : Text} {w : World} (hw : Reported filename hook w)
    (interactive : Bool) : SavesReported filename hook interactive w where
  caused := fun newer ob older h => each_split hw.caused h
  launched := hw.launched
  errors := by
    rw [shown_eq, hw.signalled]
    rfl
  prompts := by
    rw [shown_eq, hw.signalled]
    cases interactive with
    | true => rfl
    | false => exact List.flatMap_eq_nil_iff.mpr fun _ _ => rfl

theorem caused_other {ob : Observation} {older : List Observation}
    (hs : ∀ argv r, ob ≠ .spawnAsync argv r) (he : ∀ what, ob ≠ .signalError what) :
    Caused ob older :=
  ⟨fun argv r h => absurd h (hs argv r), fun what h => absurd h (he what)⟩

theorem caused_error {cause : Observation} {what : Text} {older : List Observation}
    (h : failures [cause] = [what]) : Caused (.signalError what) (cause :: older) := by
  constructor
  · intro argv r hs
    cases hs
  · intro what' he
    cases he
    exact ⟨cause, older, rfl, h⟩

theorem caused_launch (argv : List Text) (r : SpawnResult) (session : List Document)
    (older : List Observation) :
    Caused (.spawnAsync argv r) (.serialise session .written :: older) :=
  ⟨fun _ _ _ => ⟨session, older, rfl⟩, fun _ h => by cases h⟩

theorem create_settings (buffer : ServerBuffer) (filename hook : Text) (interval : ℕ) :
    (AutoSaver.create buffer filename interval hook).filename = filename ∧
      (AutoSaver.create buffer filename interval hook).postSaveHook = hook := by
  have hkeep : ∀ (documents : List DocumentInfo) (a : AutoSaver),
      (documents.foldl AutoSaver.onDocumentInsert a).filename = a.filename ∧
        (documents.foldl AutoSaver.onDocumentInsert a).postSaveHook = a.postSaveHook := by
    intro documents
    induction documents with
    | nil => exact fun _ => ⟨rfl, rfl⟩
    | cons d documents ih => exact fun a => ih (a.onDocumentInsert d)
  exact hkeep buffer.documents _

theorem start_reported (buffer : ServerBuffer) (filename hook : Text) (interval : ℕ)
    (file : Option FileContent) :
    Reported filename hook (start buffer filename interval hook file) where
  sameFile := (create_settings buffer filename hook interval).1
  sameHook := (create_settings buffer filename hook interval).2
  caused := trivial
  launched := by simp [start, launches, savedSessions]
  signalled := rfl

section Steps

variable {filename hook : Text} {w w' : World}

theorem reported_edit {ob : Observation} (hw : Reported filename hook w)
    (hfile : w'.saver.filename = w.saver.filename)
    (hhook : w'.saver.postSaveHook = w.saver.postSaveHook) (htrace : w'.trace = ob :: w.trace)
    (hob : (∃ d, ob = .inserted d) ∨ (∃ d, ob = .removed d) ∨ ∃ d, ob = .changed d) :
    Reported filename hook w' := by
  have hquiet : Caused ob w.trace := by
    rcases hob with ⟨d, rfl⟩ | ⟨d, rfl⟩ | ⟨d, rfl⟩
    · exact caused_other (by simp) (by simp)
    · exact caused_other (by simp) (by simp)
    · exact caused_other (by simp) (by simp)
  have hsame : launches w'.trace = launches w.trace ∧
      savedSessions w'.trace = savedSessions w.trace ∧
      signalled w'.trace = signalled w.trace ∧ failures w'.trace = failures w.trace := by
    rw [htrace]
    rcases hob with ⟨d, rfl⟩ | ⟨d, rfl⟩ | ⟨d, rfl⟩
    · exact ⟨rfl, rfl, rfl, rfl⟩
    · exact ⟨rfl, rfl, rfl, rfl⟩
    · exact ⟨rfl, rfl, rfl, rfl⟩
  obtain ⟨hlaunches, hsaved, hsignalled, hfailures⟩ := hsame
  refine ⟨hfile.trans hw.sameFile, hhook.trans hw.sameHook, ?_, ?_, ?_⟩
  · rw [htrace]
    exact ⟨hquiet, hw.caused⟩
  · rw [hlaunches, hsaved]
    exact hw.launched
  · rw [hsignalled, hfailures]
    exact hw.signalled

theorem reported_save (hw : Reported filename hook w) (o : SaveOutcome) :
    Reported filename hook (w.perform (w.saver.save w.buffer o)) := by
  obtain ⟨hhook, hfile⟩ := save_settings w.saver w.buffer o
  have hlaunched := hw.launched
  have hsignalled := hw.signalled
  have hserialise : ∀ session r older, Caused (.serialise session r) older :=
    fun session r older => caused_other (by simp) (by simp)
  refine ⟨hfile.trans hw.sameFile, hhook.trans hw.sameHook, ?_, ?_, ?_⟩
  · obtain ⟨what, left, h⟩ | ⟨_, h⟩ | ⟨_, h⟩ | ⟨_, what, h⟩ := save_trace_cases w o
    · rw [h]
      exact ⟨caused_error rfl, hserialise _ _ _, hw.caused⟩
    · rw [h]
      exact ⟨hserialise _ _ _, hw.caused⟩
    · rw [h]
      exact ⟨caused_launch _ _ _ _, hserialise _ _ _, hw.caused⟩
    · rw [h]
      exact ⟨caused_error rfl, caused_launch _ _ _ _, hserialise _ _ _, hw.caused⟩
  · obtain ⟨what, left, h⟩ | ⟨hno, h⟩ | ⟨hyes, h⟩ | ⟨hyes, what, h⟩ := save_trace_cases w o
    · rw [h]
      exact hlaunched
    · rw [hw.sameHook] at hno
      rw [h, if_pos hno]
      rw [if_pos hno] at hlaunched
      exact hlaunched
    · rw [hw.sameHook] at hyes h
      rw [hw.sameFile] at h
      rw [h, if_neg hyes]
      rw [if_neg hyes] at hlaunched
      exact congrArg ([hook, filename] :: ·) hlaunched
    · rw [hw.sameHook] at hyes h
      rw [hw.sameFile] at h
      rw [h, if_neg hyes]
      rw [if_neg hyes] at hlaunched
      exact congrArg ([hook, filename] :: ·) hlaunched
  · obtain ⟨what, left, h⟩ | ⟨_, h⟩ | ⟨_, h⟩ | ⟨_, what, h⟩ := save_trace_cases w o
    · rw [h]
      exact congrArg (what :: ·) hsignalled
    · rw [h]
      exact hsignalled
    · rw [h]
      exact hsignalled
    · rw [h]
      exact congrArg (what :: ·) hsignalled

theorem reported_step (e : Event) (hw : Reported filename hook w) (h : step w e = some w') :
    Reported filename hook w' := by
  obtain ⟨d, doc, b, _, _, rfl⟩ | ⟨d, b, _, _, rfl⟩ | ⟨d, text, b, _, _, rfl⟩ |
    ⟨o, _, rfl⟩ | ⟨o, _, _, rfl⟩ := step_cases h
  · exact reported_edit hw rfl rfl rfl (Or.inl ⟨d, rfl⟩)
  · exact reported_edit hw rfl rfl rfl (Or.inr (Or.inl ⟨d, rfl⟩))
  · refine reported_edit hw (changedEvent_frame w.saver d).1 ?_ rfl (Or.inr (Or.inr ⟨d, rfl⟩))
    show (w.saver.changedEvent d).postSaveHook = w.saver.postSaveHook
    unfold AutoSaver.changedEvent
    split
    · rfl
    · rfl
  · exact reported_save hw o
  · exact hw

end Steps

/-- Whatever is edited, saved and ticked, and whatever fails: the hook is started once for each
save that reached the file and never else, and each failure is shown once, in order. -/
theorem saves_start_hooks (buffer : ServerBuffer) (filename hook : Text) (interval : ℕ)
    (file : Option FileContent) (interactive : Bool) (es : List Event) :
    Always step (SavesReported filename hook interactive)
      (start buffer filename interval hook file) es := by
  have hC : EveryStep step (fun _ _ => True) (start buffer filename interval hook file) es :=
    everyStep_of_forall fun _ _ _ => trivial
  have hI : Always step (Reported filename hook) (start buffer filename interval hook file) es :=
    always_of_invariant (fun w e w' hw _ h => reported_step e hw h)
      (start_reported buffer filename hook interval file) hC
  exact always_mono (fun _ hw => hw.saves interactive) hI

end SaveHooks
