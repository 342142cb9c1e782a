import Sobby.FolderAutosave

/-! The folder saver as a queue. Its map of flags stands for the set of documents that wait; a
save pass serves them in the order of their addresses until one cannot be opened, and that one
leaves the queue too. -/
namespace FolderQueue

open StepMachine
open PathNames
open SessionBuffer
open FolderAutosave (StreamOutcome Write Observation Files FlagMap AutoSaveFolder Event openStream
  outputPath couldNotOpen saveLoop filesAfter getElem?_flag getElem?_clear_of_ne saveLoop_unflagged
  saveLoop_fails saveLoop_writes saveLoop_map)
open Strings (Text)

structure Device where
  folder : Text
  buffer : ServerBuffer
  outcome : DocumentInfo → StreamOutcome

def Device.accepted (v : Device) (d : DocumentInfo) : Option ℕ :=
  openStream (v.buffer.document d).title (v.outcome d)

def Device.path (v : Device) (d : DocumentInfo) : Text :=
  outputPath v.folder (v.buffer.document d).title

def Device.opens (v : Device) (d : DocumentInfo) : Bool := (v.accepted d).isSome

def Device.write (v : Device) (d : DocumentInfo) : Write :=
  ⟨d, v.path d, (v.buffer.document d).text.take ((v.accepted d).getD 0)⟩

def served (v : Device) (queue : List DocumentInfo) : List DocumentInfo :=
  queue.takeWhile v.opens

def refused (v : Device) (queue : List DocumentInfo) : Option DocumentInfo :=
  (queue.dropWhile v.opens).head?

def left (v : Device) (queue : List DocumentInfo) : List DocumentInfo :=
  (queue.dropWhile v.opens).tail

def report (v : Device) (queue : List DocumentInfo) : List Observation :=
  (served v queue).map (fun d => .wrote (v.write d)) ++
    ((refused v queue).map fun d => .signalError (couldNotOpen (v.path d))).toList

structure World where
  buffer : ServerBuffer
  folder : Text
  connTimer : Option ℕ
  waiting : Finset DocumentInfo
  cwd : Location
  files : Files
  trace : List Observation

def World.queue (w : World) : List DocumentInfo := w.waiting.sort

def World.pass (w : World) (o : DocumentInfo → StreamOutcome) : World :=
  let v : Device := ⟨w.folder, w.buffer, o⟩
  { w with
    waiting := (left v w.queue).toFinset
    files := filesAfter w.cwd w.files (report v w.queue)
    trace := (report v w.queue).reverse ++ w.trace }

def step (w : World) : Event → Option World
  | .insert d doc =>
    (w.buffer.insert d doc).map fun b =>
      { w with buffer := b, waiting := insert d w.waiting, trace := .inserted d :: w.trace }
  | .remove d =>
    (w.buffer.remove d).map fun b =>
      { w with buffer := b, waiting := w.waiting.erase d, trace := .removed d :: w.trace }
  | .change d text =>
    (w.buffer.change d text).map fun b =>
      { w with buffer := b, waiting := insert d w.waiting, trace := .changed d :: w.trace }
  | .save o => some (w.pass o)
  | .tick o => if w.connTimer = none then none else some (w.pass o)

def start (buffer : ServerBuffer) (folder : Text) (interval : ℕ) (cwd : Location)
    (files : Files) : World where
  buffer := buffer
  folder := folder
  connTimer := if 0 < interval then some (interval * 1000 % 2 ^ 32) else none
  waiting := buffer.documents.toFinset
  cwd := cwd
  files := files
  trace := []

def flagged (m : FlagMap) : List DocumentInfo := m.keys.filter fun d => m[d]? = some true

/-- Forgets how the waiting documents are marked. -/
def abstraction (w : FolderAutosave.World) : World where
  buffer := w.buffer
  folder := w.saver.folder
  connTimer := w.saver.connTimer
  waiting := (flagged w.saver.map).toFinset
  cwd := w.cwd
  files := w.files
  trace := w.trace

theorem mem_flagged {m : FlagMap} {d : DocumentInfo} : d ∈ flagged m ↔ m[d]? = some true := by
  rw [flagged, List.mem_filter, decide_eq_true_eq]
  exact and_iff_right_of_imp FolderAutosave.mem_keys_of_flag

theorem flagged_sorted (m : FlagMap) : (flagged m).toFinset.sort = flagged m := by
  have hordered : m.keys.Pairwise fun a b => compare a b = .lt := Std.ExtTreeMap.ordered_keys
  have hle : (flagged m).Pairwise (· ≤ ·) := by
    refine (hordered.filter _).imp ?_
    intro a b hab
    exact (Nat.compare_eq_lt.mp hab).le
  have hnodup : (flagged m).Nodup := (Std.ExtTreeMap.nodup_keys (t := m)).filter _
  exact (List.toFinset_sort (· ≤ ·) hnodup).mpr hle

/-- The flags the walk meets, in the order in which it meets them, tell all it does. -/
theorem saveLoop_queue (v : Device) {l : List DocumentInfo} (hl : l.Nodup) (m : FlagMap) :
    let queue := l.filter fun d => m[d]? = some true
    (saveLoop v.folder v.buffer v.outcome l m).writes = (served v queue).map v.write ∧
      (saveLoop v.folder v.buffer v.outcome l m).error =
        (refused v queue).map (fun d => couldNotOpen (v.path d)) ∧
      ∀ d ∈ l, (saveLoop v.folder v.buffer v.outcome l m).map[d]? = some true ↔
        d ∈ left v queue := by
  induction l generalizing m with
  | nil => simp [saveLoop, served, refused, left]
  | cons d rest ih =>
    obtain ⟨hd_rest, hrest⟩ := List.nodup_cons.mp hl
    have hne : ∀ k ∈ rest, k ≠ d := by
      rintro k hk rfl
      exact hd_rest hk
    by_cases hd : m[d]? = some true
    · have hsame : (rest.filter fun k => (m.insert d false)[k]? = some true) =
          rest.filter fun k => m[k]? = some true := by
        refine List.filter_congr fun k hk => ?_
        rw [getElem?_clear_of_ne (hne k hk)]
      have hqueue : ((d :: rest).filter fun k => m[k]? = some true) =
          d :: rest.filter fun k => m[k]? = some true := by
        simp [hd]
      rw [hqueue]
      cases ho : openStream (v.buffer.document d).title (v.outcome d) with
      | none =>
        have hopens : v.opens d = false := by simp [Device.opens, Device.accepted, ho]
        rw [saveLoop_fails hd ho]
        refine ⟨by simp [served, hopens], by simp [refused, hopens, Device.path], ?_⟩
        intro k hk
        simp only [left, List.dropWhile_cons, hopens, Bool.false_eq_true, if_false, List.tail_cons,
          List.mem_filter, decide_eq_true_eq, getElem?_flag]
        rcases List.mem_cons.mp hk with rfl | hk
        · simp [hd_rest]
        · simp [hne k hk, hk]
      | some bytes =>
        have hopens : v.opens d = true := by simp [Device.opens, Device.accepted, ho]
        obtain ⟨hwrites, herror, hmap⟩ := ih hrest (m.insert d false)
        rw [hsame] at hwrites herror hmap
        rw [saveLoop_writes hd ho]
        refine ⟨?_, ?_, ?_⟩
        · simp [served, hopens, hwrites, Device.write, Device.accepted, ho, Device.path]
        · simp only [refused, List.dropWhile_cons, hopens, if_true]
          exact herror
        · intro k hk
          simp only [left, List.dropWhile_cons, hopens, if_true]
          rcases List.mem_cons.mp hk with rfl | hk
          · refine iff_of_false ?_ ?_
            · rw [FolderAutosave.saveLoop_cleared]
              simp
            · intro hmem
              have hk' := List.mem_of_mem_tail hmem
              exact hd_rest (List.mem_of_mem_filter ((List.dropWhile_sublist _).subset hk'))
          · exact hmap k hk
    · have hqueue : ((d :: rest).filter fun k => m[k]? = some true) =
          rest.filter fun k => m[k]? = some true := by
        simp [hd]
      rw [hqueue, saveLoop_unflagged hd]
      obtain ⟨hwrites, herror, hmap⟩ := ih hrest m
      refine ⟨hwrites, herror, fun k hk => ?_⟩
      rcases List.mem_cons.mp hk with rfl | hk
      · refine iff_of_false ?_ ?_
        · rcases @saveLoop_map v.folder v.buffer v.outcome rest m k with h | ⟨_, h, _⟩
          · rw [h]
            exact hd
          · exact absurd h hd
        · intro hmem
          have hk' := List.mem_of_mem_tail hmem
          exact hd_rest (List.mem_of_mem_filter ((List.dropWhile_sublist _).subset hk'))
      · exact hmap k hk

theorem left_subset (v : Device) {queue : List DocumentInfo} {d : DocumentInfo}
    (h : d ∈ left v queue) : d ∈ queue :=
  (List.dropWhile_sublist _).subset (List.mem_of_mem_tail h)

theorem flagged_pass (f : AutoSaveFolder) (buffer : ServerBuffer)
    (o : DocumentInfo → StreamOutcome) (d : DocumentInfo) :
    d ∈ flagged (f.save buffer o).1.map ↔ d ∈ left ⟨f.folder, buffer, o⟩ (flagged f.map) := by
  obtain ⟨_, _, hmap⟩ := saveLoop_queue ⟨f.folder, buffer, o⟩
    (Std.ExtTreeMap.nodup_keys (t := f.map)) f.map
  rw [mem_flagged]
  by_cases hd : d ∈ f.map.keys
  · exact hmap d hd
  · -- a document without a key is not walked over
    have hsame : (f.save buffer o).1.map[d]? = f.map[d]? := by
      rcases @saveLoop_map f.folder buffer o f.map.keys f.map d with h | ⟨h, _⟩
      · exact h
      · exact absurd h hd
    refine iff_of_false (fun h => hd ?_) fun h => hd ?_
    · rw [hsame] at h
      exact FolderAutosave.mem_keys_of_flag h
    · exact FolderAutosave.mem_keys_of_flag (mem_flagged.mp (left_subset _ h))

theorem pass_report (f : AutoSaveFolder) (buffer : ServerBuffer)
    (o : DocumentInfo → StreamOutcome) :
    (f.save buffer o).2 = report ⟨f.folder, buffer, o⟩ (flagged f.map) := by
  obtain ⟨hwrites, herror, _⟩ := saveLoop_queue ⟨f.folder, buffer, o⟩
    (Std.ExtTreeMap.nodup_keys (t := f.map)) f.map
  simp only [AutoSaveFolder.save, AutoSaveFolder.pass, FolderAutosave.Pass.observations, report]
  rw [hwrites, herror, List.map_map, Option.map_map]
  rfl

theorem abstraction_pass (w : FolderAutosave.World) (o : DocumentInfo → StreamOutcome) :
    abstraction (w.perform (w.saver.save w.buffer o)) = (abstraction w).pass o := by
  have hqueue : (abstraction w).queue = flagged w.saver.map := flagged_sorted w.saver.map
  have hwaiting : (flagged (w.saver.save w.buffer o).1.map).toFinset =
      (left ⟨w.saver.folder, w.buffer, o⟩ (flagged w.saver.map)).toFinset := by
    ext d
    rw [List.mem_toFinset, List.mem_toFinset]
    exact flagged_pass w.saver w.buffer o d
  simp only [World.pass, hqueue]
  simp only [abstraction, FolderAutosave.World.perform]
  rw [hwaiting, pass_report]
  rfl

theorem flagged_insert (m : FlagMap) (d : DocumentInfo) :
    (flagged (m.insert d true)).toFinset = insert d (flagged m).toFinset := by
  ext k
  simp only [List.mem_toFinset, Finset.mem_insert, mem_flagged, getElem?_flag]
  by_cases h : k = d
  · simp [h]
  · simp [h]

theorem flagged_erase (m : FlagMap) (d : DocumentInfo) :
    (flagged (m.erase d)).toFinset = (flagged m).toFinset.erase d := by
  ext k
  simp only [List.mem_toFinset, Finset.mem_erase, mem_flagged, Std.ExtTreeMap.getElem?_erase,
    Std.LawfulEqCmp.compare_eq_iff_eq]
  by_cases h : d = k
  · simp [h]
  · simp [h, Ne.symm h]

/-- Each step of the saver is one of the queue, guards included. -/
theorem step_abstraction (w : FolderAutosave.World) (e : Event) (hw : FolderAutosave.Keyed w) :
    (FolderAutosave.step w e).map abstraction = step (abstraction w) e := by
  cases e with
  | insert d doc =>
    simp only [FolderAutosave.step, step, Option.map_map]
    refine congrArg (fun g => (w.buffer.insert d doc).map g) (funext fun b => ?_)
    simp [abstraction, AutoSaveFolder.onDocumentInsert, flagged_insert]
  | remove d =>
    simp only [FolderAutosave.step, step, Option.map_map]
    refine congrArg (fun g => (w.buffer.remove d).map g) (funext fun b => ?_)
    simp [abstraction, AutoSaveFolder.onDocumentRemove, AutoSaveFolder.disconnect, flagged_erase]
  | change d text =>
    simp only [FolderAutosave.step, step, Option.map_map]
    cases hb : w.buffer.change d text with
    | none => simp [abstraction, hb]
    | some b =>
      have hd := hw.watched d (change_spec hb).1
      simp [abstraction, hb, FolderAutosave.changedEvent_watched hd,
        AutoSaveFolder.onDocumentChange, flagged_insert]
  | save o => exact congrArg some (abstraction_pass w o)
  | tick o =>
    simp only [FolderAutosave.step, step]
    by_cases ht : w.saver.connTimer = none
    · rw [if_pos ht, if_pos (show (abstraction w).connTimer = none from ht)]
      rfl
    · rw [if_neg ht, if_neg (show ¬ (abstraction w).connTimer = none from ht)]
      exact congrArg some (abstraction_pass w o)

theorem create_frame (documents : List DocumentInfo) (f : AutoSaveFolder) :
    (documents.foldl AutoSaveFolder.onDocumentInsert f).folder = f.folder ∧
      (documents.foldl AutoSaveFolder.onDocumentInsert f).connTimer = f.connTimer := by
  induction documents generalizing f with
  | nil => exact ⟨rfl, rfl⟩
  | cons d documents ih => exact ih (f.onDocumentInsert d)

theorem start_abstraction (buffer : ServerBuffer) (folder : Text) (interval : ℕ) (cwd : Location)
    (files : Files) :
    abstraction (FolderAutosave.start buffer folder interval cwd files) =
      start buffer folder interval cwd files := by
  have hwaiting :
      (flagged (FolderAutosave.start buffer folder interval cwd files).saver.map).toFinset =
        buffer.documents.toFinset := by
    ext d
    rw [List.mem_toFinset, List.mem_toFinset, mem_flagged, FolderAutosave.start_flags]
    simp
  obtain ⟨hfolder, htimer⟩ := create_frame buffer.documents
    { folder := folder
      connTimer := if 0 < interval then some (interval * 1000 % 2 ^ 32) else none
      watched := ∅
      map := ∅ }
  simp only [abstraction, hwaiting]
  simp only [FolderAutosave.start, start, AutoSaveFolder.create, hfolder, htimer]

/-- In every run, whatever fails, the saver does what the queue does: it accepts the same
events, writes the same files and reports the same errors in the same order. -/
theorem folder_saver_is_a_queue (buffer : ServerBuffer) (folder : Text) (interval : ℕ)
    (cwd : Location) (files : Files) (es : List Event) :
    (run FolderAutosave.step (FolderAutosave.start buffer folder interval cwd files) es).map
        abstraction =
      run step (start buffer folder interval cwd files) es := by
  rw [← start_abstraction]
  exact run_abstraction FolderAutosave.keyed_step step_abstraction
    (FolderAutosave.start_keyed buffer folder interval cwd files) es

def Attempts (w : FolderAutosave.World) (d : DocumentInfo) (ob : Observation) : Prop :=
  (∃ bytes, ob = .wrote ⟨d, outputPath w.saver.folder (w.buffer.document d).title,
    (w.buffer.document d).text.take bytes⟩) ∨
  ob = .signalError (couldNotOpen (outputPath w.saver.folder (w.buffer.document d).title))

theorem report_attempts (w : FolderAutosave.World) (o : DocumentInfo → StreamOutcome)
    (queue : List DocumentInfo) :
    List.Forall₂ (Attempts w)
      (served ⟨w.saver.folder, w.buffer, o⟩ queue ++
        (refused ⟨w.saver.folder, w.buffer, o⟩ queue).toList)
      (report ⟨w.saver.folder, w.buffer, o⟩ queue) := by
  refine List.rel_append ?_ ?_
  · rw [List.forall₂_map_right_iff, List.forall₂_same]
    exact fun d _ => Or.inl ⟨_, rfl⟩
  · cases refused ⟨w.saver.folder, w.buffer, o⟩ queue with
    | none => exact .nil
    | some d => exact .cons (Or.inr rfl) .nil

/-- A pass splits the queue: what it attempts comes first, and only an empty queue stays. -/
theorem queue_split (v : Device) (queue : List DocumentInfo) :
    (served v queue ++ (refused v queue).toList) ++ left v queue = queue ∧
      (left v queue).length ≤ queue.length - 1 := by
  have hsplit : queue.takeWhile v.opens ++ queue.dropWhile v.opens = queue :=
    List.takeWhile_append_dropWhile
  have hlength := congrArg List.length hsplit
  rw [List.length_append] at hlength
  unfold served refused left
  cases hrest : queue.dropWhile v.opens with
  | nil =>
    rw [hrest] at hsplit
    exact ⟨by simpa using hsplit, Nat.zero_le _⟩
  | cons d rest =>
    rw [hrest] at hsplit hlength
    refine ⟨by simpa using hsplit, ?_⟩
    simp only [List.length_cons, List.tail_cons] at hlength ⊢
    omega

theorem sublist_sorted {m : FlagMap} {l : List DocumentInfo} (h : l.Sublist (flagged m)) :
    l.toFinset.sort = l := by
  have hle : (flagged m).Pairwise (· ≤ ·) := by
    rw [← flagged_sorted m]
    exact Finset.pairwise_sort _ _
  have hnodup : (flagged m).Nodup := (Std.ExtTreeMap.nodup_keys (t := m)).filter _
  exact (List.toFinset_sort (· ≤ ·) (hnodup.sublist h)).mpr (hle.sublist h)

theorem flagged_pass_eq (f : AutoSaveFolder) (buffer : ServerBuffer)
    (o : DocumentInfo → StreamOutcome) :
    flagged (f.save buffer o).1.map = left ⟨f.folder, buffer, o⟩ (flagged f.map) := by
  have hsub : (left ⟨f.folder, buffer, o⟩ (flagged f.map)).Sublist (flagged f.map) :=
    (List.tail_sublist _).trans (List.dropWhile_sublist _)
  rw [← flagged_sorted, ← sublist_sorted hsub]
  congr 1
  ext d
  rw [List.mem_toFinset, List.mem_toFinset]
  exact flagged_pass f buffer o d

theorem passes_attempt (os : List (DocumentInfo → StreamOutcome)) (w : FolderAutosave.World) :
    ∃ w' attempted reports, run FolderAutosave.step w (os.map .save) = some w' ∧
      flagged w.saver.map = attempted ++ flagged w'.saver.map ∧
      w'.trace = reports.reverse ++ w.trace ∧ List.Forall₂ (Attempts w) attempted reports ∧
      (flagged w'.saver.map).length ≤ (flagged w.saver.map).length - os.length := by
  induction os generalizing w with
  | nil => exact ⟨w, [], [], rfl, rfl, rfl, .nil, le_rfl⟩
  | cons o os ih =>
    obtain ⟨w', attempted, reports, hrun, hqueue, htrace, hattempts, hlength⟩ :=
      ih (w.perform (w.saver.save w.buffer o))
    obtain ⟨hsplit, hshort⟩ := queue_split ⟨w.saver.folder, w.buffer, o⟩ (flagged w.saver.map)
    have hleft : flagged (w.perform (w.saver.save w.buffer o)).saver.map =
        left ⟨w.saver.folder, w.buffer, o⟩ (flagged w.saver.map) :=
      flagged_pass_eq w.saver w.buffer o
    have hreport := report_attempts w o (flagged w.saver.map)
    rw [hleft] at hqueue hlength
    refine ⟨w', _, _, hrun, ?_, ?_, List.rel_append hreport hattempts, ?_⟩
    · rw [List.append_assoc, ← hqueue, hsplit]
    · rw [htrace, FolderAutosave.World.perform, pass_report, List.reverse_append,
        List.append_assoc]
    · rw [List.length_cons]
      omega

theorem save_quiet {f : AutoSaveFolder} (h : flagged f.map = []) (buffer : ServerBuffer)
    (o : DocumentInfo → StreamOutcome) : f.save buffer o = (f, []) := by
  have hnone : ∀ d : DocumentInfo, f.map[d]? ≠ some true := by
    intro d hd
    have hmem := mem_flagged.mpr hd
    rw [h] at hmem
    cases hmem
  have hloop : ∀ l : List DocumentInfo,
      saveLoop f.folder buffer o l f.map = ⟨f.map, [], none⟩ := by
    intro l
    induction l with
    | nil => rfl
    | cons d l ih => rw [saveLoop_unflagged (hnone d), ih]
  rw [AutoSaveFolder.save, AutoSaveFolder.pass, hloop]
  rfl

/-- With as many passes as documents wait, and no edit in between, each of them is attempted
exactly once, in the order of the addresses, whatever fails; after that a pass does nothing. -/
theorem passes_settle (w : FolderAutosave.World) (os : List (DocumentInfo → StreamOutcome))
    (h : (flagged w.saver.map).length ≤ os.length) :
    ∃ w' reports, run FolderAutosave.step w (os.map .save) = some w' ∧
      w'.trace = reports.reverse ++ w.trace ∧
      List.Forall₂ (Attempts w) (flagged w.saver.map) reports ∧
      ∀ o, (w'.saver.save w'.buffer o).2 = [] ∧ w'.perform (w'.saver.save w'.buffer o) = w' := by
  obtain ⟨w', attempted, reports, hrun, hqueue, htrace, hattempts, hlength⟩ := passes_attempt os w
  have hnone : flagged w'.saver.map = [] := by
    apply List.length_eq_zero_iff.mp
    omega
  rw [hnone, List.append_nil] at hqueue
  refine ⟨w', reports, hrun, htrace, hqueue ▸ hattempts, fun o => ?_⟩
  rw [save_quiet hnone]
  exact ⟨rfl, rfl⟩

/-- `notes` is refused in the first pass, so `plan` waits for the second. -/
theorem notes_attempted_once :
    (∃ w, run FolderAutosave.step FolderAutosave.twoNotesStart [.save fun _ => .openFails] =
        some w ∧ flagged w.saver.map = [2]) ∧
    ∃ w' reports, run FolderAutosave.step FolderAutosave.twoNotesStart
        ([fun _ => .openFails, FolderAutosave.acceptsAll].map .save) = some w' ∧
      reports = [.signalError (couldNotOpen "out/notes".toList),
        .wrote ⟨2, "out/plan".toList, "soon".toList⟩] ∧
      w'.trace = reports.reverse ++ FolderAutosave.twoNotesStart.trace ∧
      List.Forall₂ (Attempts FolderAutosave.twoNotesStart)
        (flagged FolderAutosave.twoNotesStart.saver.map) reports ∧
      ∀ o, (w'.saver.save w'.buffer o).2 = [] ∧ w'.perform (w'.saver.save w'.buffer o) = w' := by
  refine ⟨⟨_, rfl, by decide⟩, ?_⟩
  obtain ⟨w', reports, hrun, htrace, hattempts, hquiet⟩ := passes_settle
    FolderAutosave.twoNotesStart [fun _ => .openFails, FolderAutosave.acceptsAll] (by decide)
  obtain ⟨w₂, hrun₂, htrace₂⟩ : ∃ w, run FolderAutosave.step FolderAutosave.twoNotesStart
      ([fun _ => .openFails, FolderAutosave.acceptsAll].map .save) = some w ∧
      w.trace = [.wrote ⟨2, "out/plan".toList, "soon".toList⟩,
        .signalError (couldNotOpen "out/notes".toList)] := ⟨_, rfl, by decide⟩
  obtain rfl := Option.some.inj (hrun.symm.trans hrun₂)
  refine ⟨w', reports, hrun, ?_, htrace, hattempts, hquiet⟩
  rw [htrace₂] at htrace
  have hreverse := congrArg List.reverse htrace
  simpa [FolderAutosave.twoNotesStart, FolderAutosave.start] using hreverse.symm

end FolderQueue
