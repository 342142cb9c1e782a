import Sobby.FolderAutosave

/-! What one document that cannot be opened does to the others. The exception ends the whole
loop of a save pass, so it shadows the documents at larger addresses. -/
namespace FolderStarvation

open StepMachine
open PathNames
open SessionBuffer
open Strings
open FolderAutosave

section Loop

variable {folder : Text} {buffer : ServerBuffer} {o : DocumentInfo → StreamOutcome}

/-- The loop goes on as long as the flagged documents can be opened. -/
theorem saveLoop_reaches {before after : List DocumentInfo} {m : FlagMap} {d : DocumentInfo}
    (hl : (before ++ d :: after).Nodup) (hd : m[d]? = some true) (hc : Completes buffer o d)
    (hopen : ∀ k ∈ before, m[k]? = some true → openStream (buffer.document k).title (o k) ≠ none) :
    fullWrite folder buffer d ∈ (saveLoop folder buffer o (before ++ d :: after) m).writes := by
  induction before generalizing m with
  | nil =>
    obtain ⟨bytes, ho, hbytes⟩ := hc
    rw [List.nil_append, saveLoop_writes hd ho]
    simp [fullWrite, List.take_of_length_le hbytes]
  | cons k before ih =>
    obtain ⟨hk, hl⟩ := List.nodup_cons.mp hl
    have hkd : d ≠ k := by
      rintro rfl
      simp at hk
    rw [List.cons_append]
    by_cases hflag : m[k]? = some true
    · cases ho : openStream (buffer.document k).title (o k) with
      | none => exact absurd ho (hopen k (by simp) hflag)
      | some bytes =>
        rw [saveLoop_writes hflag ho]
        refine List.mem_cons_of_mem _ (ih hl (by rwa [getElem?_clear_of_ne hkd]) ?_)
        intro x hx hxflag
        have hxk : x ≠ k := by
          rintro rfl
          simp [hx] at hk
        rw [getElem?_clear_of_ne hxk] at hxflag
        exact hopen x (by simp [hx]) hxflag
    · rw [saveLoop_unflagged hflag]
      exact ih hl hd fun x hx => hopen x (by simp [hx])

/-- The loop does not get past a flagged document that cannot be opened. -/
theorem saveLoop_stops {before after : List DocumentInfo} {m : FlagMap} {k : DocumentInfo}
    (hl : (before ++ k :: after).Nodup) (hk : m[k]? = some true)
    (ho : openStream (buffer.document k).title (o k) = none) {write : Write}
    (hw : write ∈ (saveLoop folder buffer o (before ++ k :: after) m).writes) :
    write.document ∈ before := by
  induction before generalizing m with
  | nil =>
    rw [List.nil_append, saveLoop_fails hk ho] at hw
    cases hw
  | cons x before ih =>
    obtain ⟨hx, hl⟩ := List.nodup_cons.mp hl
    have hkx : k ≠ x := by
      rintro rfl
      simp at hx
    rw [List.cons_append] at hw
    by_cases hflag : m[x]? = some true
    · cases hox : openStream (buffer.document x).title (o x) with
      | none =>
        rw [saveLoop_fails hflag hox] at hw
        cases hw
      | some bytes =>
        rw [saveLoop_writes hflag hox] at hw
        rcases List.mem_cons.mp hw with rfl | hw
        · exact List.mem_cons_self
        · exact List.mem_cons_of_mem x (ih hl (by rwa [getElem?_clear_of_ne hkx]) hw)
    · rw [saveLoop_unflagged hflag] at hw
      exact List.mem_cons_of_mem x (ih hl hk hw)

end Loop

theorem keys_split {m : FlagMap} {d : DocumentInfo} (hd : d ∈ m) :
    ∃ before after, m.keys = before ++ d :: after ∧ ∀ k, k ∈ before ↔ k ∈ m ∧ k < d := by
  obtain ⟨before, after, hs⟩ := List.append_of_mem (Std.ExtTreeMap.mem_keys.mpr hd)
  have hsorted : (before ++ d :: after).Pairwise fun a b => a < b := by
    rw [← hs]
    have hord : m.keys.Pairwise fun a b => compare a b = .lt := Std.ExtTreeMap.ordered_keys
    exact hord.imp fun h => Nat.compare_eq_lt.mp h
  obtain ⟨_, hafter, hbefore⟩ := List.pairwise_append.mp hsorted
  refine ⟨before, after, hs, fun k => ⟨fun hk => ⟨?_, hbefore k hk d (by simp)⟩, ?_⟩⟩
  · rw [← Std.ExtTreeMap.mem_keys, hs]
    simp [hk]
  · rintro ⟨hk, hlt⟩
    rw [← Std.ExtTreeMap.mem_keys, hs, List.mem_append, List.mem_cons] at hk
    rcases hk with hk | rfl | hk
    · exact hk
    · exact absurd hlt (lt_irrefl k)
    · have hgt := (List.pairwise_cons.mp hafter).1 k hk
      exact absurd hlt (lt_asymm hgt)

/-- Asked of a pass: every flagged document whose own file can be written is written, with its
current text, whatever becomes of the others. -/
def ReachesWritable (w : World) (o : DocumentInfo → StreamOutcome) : Prop :=
  ∀ d, w.saver.map[d]? = some true → Completes w.buffer o d →
    .wrote (fullWrite w.saver.folder w.buffer d) ∈ (w.saver.save w.buffer o).2

/-- No flagged document that cannot be opened comes before one that can be written. -/
def Unshadowed (w : World) (o : DocumentInfo → StreamOutcome) : Prop :=
  ∀ k d, w.saver.map[k]? = some true → w.saver.map[d]? = some true →
    openStream (w.buffer.document k).title (o k) = none → Completes w.buffer o d → ¬ k < d

/-- A pass writes all flagged documents that can be written if and only if no flagged document
that cannot be opened has a smaller address than one of them. -/
theorem pass_reaches_iff_unshadowed (w : World) (o : DocumentInfo → StreamOutcome) :
    ReachesWritable w o ↔ Unshadowed w o := by
  have hnodup : w.saver.map.keys.Nodup := Std.ExtTreeMap.nodup_keys
  have hmem : ∀ {k flag}, w.saver.map[k]? = some flag → k ∈ w.saver.map :=
    fun h => Std.ExtTreeMap.mem_keys.mp (mem_keys_of_flag h)
  constructor
  · intro hr k d hk hd ho hc hlt
    have hw := wrote_mem.mp (hr d hd hc)
    obtain ⟨before, after, hs, hbefore⟩ := keys_split (hmem hk)
    rw [AutoSaveFolder.pass, hs] at hw
    have hin : d ∈ before := saveLoop_stops (hs ▸ hnodup) hk ho hw
    exact lt_asymm hlt ((hbefore d).mp hin).2
  · intro hu d hd hc
    obtain ⟨before, after, hs, hbefore⟩ := keys_split (hmem hd)
    apply wrote_mem.mpr
    rw [AutoSaveFolder.pass, hs]
    apply saveLoop_reaches (hs ▸ hnodup) hd hc
    intro k hk hflag ho
    exact hu k d hflag hd ho hc ((hbefore k).mp hk).2

def parentAndNotes : ServerBuffer where
  documents := [1, 2]
  document := fun d =>
    if d = 1 then ⟨"..".toList, "text".toList⟩ else ⟨"notes".toList, "text".toList⟩
  nodup := two_nodup

def parentStart : World := start parentAndNotes "out".toList 60 [] fun _ => none

def edits : ℕ → List Event
  | 0 => []
  | n + 1 => .change 1 "text".toList :: .tick acceptsAll :: edits n

def waitingFlags (flag : Bool) : FlagMap :=
  let flags : FlagMap := ∅
  (flags.insert 1 flag).insert 2 true

def starving (flag : Bool) (trace : List Observation) : World where
  buffer := parentAndNotes
  saver := ⟨"out".toList, some 60000, insert 2 (insert 1 ∅), waitingFlags flag⟩
  cwd := []
  files := fun _ => none
  trace := trace

theorem waitingFlags_insert (old new : Bool) :
    (waitingFlags old).insert 1 new = waitingFlags new := by
  apply Std.ExtTreeMap.ext_getElem?
  intro k
  simp only [waitingFlags, getElem?_flag]
  by_cases h1 : k = 1
  · simp [h1]
  · simp [h1]

theorem waitingFlags_keys (flag : Bool) : (waitingFlags flag).keys = [1, 2] := by
  cases flag <;> decide

theorem starving_edit (flag : Bool) (trace : List Observation) :
    step (starving flag trace) (.change 1 "text".toList) =
      some (starving true (.changed 1 :: trace)) := by
  have hsame : Function.update parentAndNotes.document 1
      { parentAndNotes.document 1 with text := "text".toList } = parentAndNotes.document :=
    Function.update_eq_self 1 parentAndNotes.document
  have hchange : (starving flag trace).buffer.change 1 "text".toList = some parentAndNotes := by
    simp only [starving, ServerBuffer.change, hsame]
    rfl
  have hevent : (starving flag trace).saver.changedEvent 1 = (starving true trace).saver := by
    simp [starving, AutoSaveFolder.changedEvent, AutoSaveFolder.onDocumentChange,
      waitingFlags_insert]
  rw [step, hchange, hevent]
  rfl

theorem starving_tick (trace : List Observation) :
    step (starving true trace) (.tick acceptsAll) =
      some (starving false (.signalError (couldNotOpen "out/..".toList) :: trace)) := by
  have hflag : (waitingFlags true)[1]? = some true := by decide
  have hsave : (starving true trace).saver.save parentAndNotes acceptsAll =
      ((starving false trace).saver, [.signalError (couldNotOpen "out/..".toList)]) := by
    simp only [AutoSaveFolder.save, AutoSaveFolder.pass, starving, waitingFlags_keys]
    rw [saveLoop_fails hflag rfl, waitingFlags_insert]
    rfl
  have htick : step (starving true trace) (.tick acceptsAll) =
      some ((starving true trace).perform
        ((starving true trace).saver.save parentAndNotes acceptsAll)) := rfl
  rw [htick, hsave]
  rfl

theorem starving_run (n : ℕ) (flag : Bool) (trace : List Observation)
    (hunwritten : ∀ write, .wrote write ∉ trace) :
    ∃ flag' trace', run step (starving flag trace) (edits n) = some (starving flag' trace') ∧
      ∀ write, .wrote write ∉ trace' := by
  induction n generalizing flag trace with
  | zero => exact ⟨flag, trace, rfl, hunwritten⟩
  | succ n ih =>
    obtain ⟨flag', trace', hr, hw⟩ := ih false
      (.signalError (couldNotOpen "out/..".toList) :: .changed 1 :: trace)
      (by simpa using hunwritten)
    refine ⟨flag', trace', ?_, hw⟩
    simp only [edits, run, starving_edit, starving_tick, Option.bind_some]
    exact hr

/-- However often the server ticks, edits of the first document in between keep the second, in
need of a save from the start and writable all the time, from being written. -/
theorem second_document_starves :
    (∀ n, ∃ w, run step parentStart (edits n) = some w ∧ w.saver.map[2]? = some true ∧
      Completes w.buffer acceptsAll 2 ∧ ∀ write, .wrote write ∉ w.trace) ∧
    ¬ ReachesWritable parentStart acceptsAll := by
  constructor
  · intro n
    obtain ⟨flag, trace, hr, hw⟩ := starving_run n true [] (by simp)
    have hflag : (waitingFlags flag)[2]? = some true := by cases flag <;> decide
    have hwritable : Completes parentAndNotes acceptsAll 2 := ⟨1000, rfl, by decide⟩
    exact ⟨starving flag trace, hr, hflag, hwritable, hw⟩
  · intro h
    have hw := h 2 (by decide) ⟨1000, rfl, by decide⟩
    exact absurd hw (by decide)

end FolderStarvation
