import Sobby.ServerSaves
import Sobby.ServerSettings

/-! The period of the savers: seconds of the command line or the configuration, turned into
milliseconds in `unsigned int` arithmetic by both of them. -/
namespace AutosavePeriod

open SessionBuffer
open ServerSettings
open ServerSaves
open ConfigTree (ParentEntry)
open SessionAutosave (AutoSaver)
open FolderAutosave (AutoSaveFolder)
open PathNames (Location)
open Strings (Text)

/-- What the constructor of `Server` hands to its savers. The `int` becomes an `unsigned int`. -/
def autosaveSettings (s : Settings) : AutosaveSettings :=
  ⟨s.autosaveFile, s.autosaveFolder, s.autosaveInterval.toNat, s.postSaveHook⟩

/-- The number of seconds that was asked for: an `int` of the command line, or else what the
configuration says, read as an `unsigned int`. -/
def Asked (net6 : Net6) (config : Option ParentEntry) (o : Options) (s : ℕ) : Prop :=
  (∃ v, o.autosaveInterval = some v ∧ v.toInt = s) ∨
  ((o.autosaveInterval = none ∨ o.autosaveInterval = some 0) ∧
    ∃ v, fallbackNumber net6 config .autosaveInterval = .ok v ∧ v.toNat = s)

structure RunsEvery (settings : AutosaveSettings) (buffer : ServerBuffer) (s : ℕ) : Prop where
  session : (AutoSaver.create buffer settings.autosaveFile settings.autosaveInterval
    settings.postSaveHook).connTimer = some (1000 * s)
  folder : (AutoSaveFolder.create buffer settings.autosaveFolder
    settings.autosaveInterval).connTimer = some (1000 * s)

theorem session_connTimer (buffer : ServerBuffer) (filename hook : Text) (interval : ℕ) :
    (AutoSaver.create buffer filename interval hook).connTimer =
      if 0 < interval then some (interval * 1000 % 2 ^ 32) else none := by
  have hkeep : ∀ (documents : List DocumentInfo) (a : AutoSaver),
      (documents.foldl AutoSaver.onDocumentInsert a).connTimer = a.connTimer := by
    intro documents
    induction documents with
    | nil => exact fun _ => rfl
    | cons d documents ih => exact fun a => ih (a.onDocumentInsert d)
  exact hkeep _ _

theorem folder_connTimer (buffer : ServerBuffer) (folder : Text) (interval : ℕ) :
    (AutoSaveFolder.create buffer folder interval).connTimer =
      if 0 < interval then some (interval * 1000 % 2 ^ 32) else none := by
  have hkeep : ∀ (documents : List DocumentInfo) (f : AutoSaveFolder),
      (documents.foldl AutoSaveFolder.onDocumentInsert f).connTimer = f.connTimer := by
    intro documents
    induction documents with
    | nil => exact fun _ => rfl
    | cons d documents ih => exact fun f => ih (f.onDocumentInsert d)
  exact hkeep _ _

theorem RunsEvery.started {settings : AutosaveSettings} {isDirectory : Location → Bool}
    {buffer : ServerBuffer} {cwd : Location} {files : FolderAutosave.Files} {server : Server} {s : ℕ}
    (hruns : RunsEvery settings buffer s)
    (h : Server.start settings isDirectory buffer cwd files = .ok server) :
    (∀ a, server.autosaver = some a → a.connTimer = some (1000 * s)) ∧
    ∀ f, server.autosaveFolder = some f → f.connTimer = some (1000 * s) := by
  obtain ⟨_, _, _, hsaver, hfolder⟩ := start_cases h
  refine ⟨fun a ha => ?_, fun f hf => ?_⟩
  · rw [hsaver a ha, hruns.session]
  · rw [hfolder f hf, hruns.folder]

theorem effective_interval {net6 : Net6} {p : Parser} {config : Option ParentEntry} {o : Options}
    {s : Settings} (h : effective net6 p config o = .ok s) :
    ∃ fallback, fallbackNumber net6 config .autosaveInterval = .ok fallback ∧
      s.autosaveInterval = settled 0 o.autosaveInterval fallback := by
  cases config with
  | none =>
    simp only [effective, defaultSettings, secondPass, bind, Except.bind, Except.ok.injEq] at h
    subst h
    exact ⟨0, rfl, orDefault_parse _ 0 o.autosaveInterval 0⟩
  | some root =>
    simp only [effective, defaultSettings, bind, Except.bind] at h
    split at h
    · cases h
    · next defaults hdefaults =>
      split at hdefaults
      · cases hdefaults
      · next port hport =>
        split at hdefaults
        · cases hdefaults
        · next interval hinterval =>
          obtain rfl := Except.ok.inj hdefaults
          simp only [secondPass, unsignedOrDefault_ok hport, unsignedOrDefault_ok hinterval, bind,
            Except.bind, pure, Except.pure, Except.ok.injEq] at h
          subst h
          exact ⟨interval, hinterval, orDefault_parse _ 0 o.autosaveInterval interval⟩

theorem interval_asked {net6 : Net6} {p : Parser} {config : Option ParentEntry} {o : Options}
    {settings : Settings} (h : effective net6 p config o = .ok settings) {s : ℕ} (hs : 1 ≤ s)
    (hasked : Asked net6 config o s) : settings.autosaveInterval.toNat = s := by
  obtain ⟨fallback, hfallback, hinterval⟩ := effective_interval h
  rw [hinterval]
  rcases hasked with ⟨v, hv, hint⟩ | ⟨hnone, v, hv, hnat⟩
  · have hne : v ≠ 0 := by
      rintro rfl
      simp at hint
      omega
    have hnat : v.toNat = s := by
      rw [BitVec.toInt_eq_toNat_cond] at hint
      have hlt := v.isLt
      split at hint
      · omega
      · omega
    rw [hv, settled, Option.getD_some, orDefault, if_neg hne, hnat]
  · obtain rfl := Except.ok.inj (hfallback.symm.trans hv)
    rcases hnone with hnone | hzero
    · rw [hnone, settled, Option.getD_none, orDefault, if_pos rfl, hnat]
    · rw [hzero, settled, Option.getD_some, orDefault, if_pos rfl, hnat]

/-- Every accepted number of seconds is the period of both savers, provided its milliseconds fit
in an `unsigned int`. -/
theorem runs_every_iff (net6 : Net6) (p : Parser) (config : Option ParentEntry) (o : Options)
    (settings : Settings) (h : effective net6 p config o = .ok settings) (s : ℕ) (hs : 1 ≤ s)
    (hasked : Asked net6 config o s) (buffer : ServerBuffer) :
    RunsEvery (autosaveSettings settings) buffer s ↔ s ≤ 4294967 := by
  have hinterval : (autosaveSettings settings).autosaveInterval = s := interval_asked h hs hasked
  have hsession := session_connTimer buffer (autosaveSettings settings).autosaveFile
    (autosaveSettings settings).postSaveHook (autosaveSettings settings).autosaveInterval
  have hfolder := folder_connTimer buffer (autosaveSettings settings).autosaveFolder
    (autosaveSettings settings).autosaveInterval
  rw [hinterval, if_pos (by omega)] at hsession hfolder
  constructor
  · intro hruns
    have hperiod := hruns.session
    rw [hinterval, hsession, Option.some.injEq] at hperiod
    omega
  · intro hle
    have hperiod : s * 1000 % 2 ^ 32 = 1000 * s := by omega
    rw [hperiod] at hsession hfolder
    exact ⟨by rw [hinterval, hsession], by rw [hinterval, hfolder]⟩

def everySeconds (s : CInt) : Options := { noOptions with autosaveInterval := some s }

def emptyBuffer : ServerBuffer := ⟨[], fun _ => ⟨[], []⟩, List.nodup_nil⟩

theorem every_five_minutes :
    ∃ settings, effective plainContexts keepingParser none (everySeconds 300) = .ok settings ∧
      RunsEvery (autosaveSettings settings) emptyBuffer 300 := by
  have hasked : Asked plainContexts none (everySeconds 300) 300 := Or.inl ⟨300, rfl, by decide⟩
  exact ⟨_, rfl, (runs_every_iff plainContexts keepingParser none (everySeconds 300) _ rfl 300
    (by decide) hasked emptyBuffer).mpr (by decide)⟩

/-- Asked to save every seven weeks, both savers save more than once a second. -/
theorem seven_weeks_wrap :
    Asked plainContexts none (everySeconds 4294968) 4294968 ∧
    ∃ settings, effective plainContexts keepingParser none (everySeconds 4294968) = .ok settings ∧
      (AutoSaver.create emptyBuffer settings.autosaveFile settings.autosaveInterval.toNat
        settings.postSaveHook).connTimer = some 704 ∧
      (AutoSaveFolder.create emptyBuffer settings.autosaveFolder
        settings.autosaveInterval.toNat).connTimer = some 704 ∧
      ¬ RunsEvery (autosaveSettings settings) emptyBuffer 4294968 := by
  refine ⟨Or.inl ⟨4294968, rfl, by decide⟩, _, rfl, by decide, by decide, fun h => ?_⟩
  exact absurd h.session (by decide)

/-- A period that does not fit comes out shorter: the savers save too often. -/
theorem wrapped_period_shorter (buffer : ServerBuffer) (settings : AutosaveSettings)
    (h : 4294967 < settings.autosaveInterval) :
    ∃ n, n < 1000 * settings.autosaveInterval ∧
      (AutoSaver.create buffer settings.autosaveFile settings.autosaveInterval
        settings.postSaveHook).connTimer = some n ∧
      (AutoSaveFolder.create buffer settings.autosaveFolder
        settings.autosaveInterval).connTimer = some n := by
  rw [session_connTimer, folder_connTimer, if_pos (by omega)]
  exact ⟨settings.autosaveInterval * 1000 % 2 ^ 32, by omega, rfl, rfl⟩

end AutosavePeriod
