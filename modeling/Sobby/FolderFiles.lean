import Sobby.FolderAutosave

/-! The files a save pass of the folder saver leaves on disk. Their names are cut out of the
document titles, so different documents may be given the same name. -/
namespace FolderFiles

open StepMachine
open PathNames
open SessionBuffer
open Strings
open FolderAutosave

def diskName (title : Text) : Text := cString (fileName title)

theorem slash_not_mem_fileName (title : Text) : '/' ∉ fileName title := by
  unfold fileName
  cases h : rfind title '/' with
  | none => exact rfind_none h
  | some pos =>
    obtain ⟨before, after, rfl, rfl, hafter⟩ := rfind_some h
    have hcut : substr (before ++ '/' :: after) (before.length + 1) = after := by
      simp [substr, List.drop_append]
    simpa only [hcut] using hafter

theorem resolve_outputPath {title : Text} {out : StreamOutcome} {bytes : ℕ}
    (h : openStream title out = some bytes) (cwd : Location) (folder : Text) :
    resolve cwd (outputPath folder title) =
      resolve cwd (cString folder) ++ [diskName title] := by
  have hname : ¬ NamesDirectory (cString (fileName title)) := by
    cases out with
    | openFails => cases h
    | accepts n =>
      simp only [openStream] at h
      split at h
      · cases h
      · next hn => exact hn
  have hslash : '/' ∉ cString (fileName title) :=
    fun hm => slash_not_mem_fileName title (mem_cString hm)
  exact resolve_buildFilename hslash hname cwd folder

theorem filesAfter_other {cwd : Location} {obs : List Observation} {x : Location}
    (h : ∀ write, .wrote write ∈ obs → resolve cwd write.path ≠ x) (files : Files) :
    filesAfter cwd files obs x = files x := by
  induction obs generalizing files with
  | nil => rfl
  | cons ob obs ih =>
    have hrest : ∀ write, .wrote write ∈ obs → resolve cwd write.path ≠ x :=
      fun write hw => h write (by simp [hw])
    cases ob with
    | wrote write =>
      have hne : x ≠ resolve cwd write.path := (h write (by simp)).symm
      rw [filesAfter, ih hrest, Function.update_of_ne hne]
    | inserted d => exact ih hrest files
    | removed d => exact ih hrest files
    | changed d => exact ih hrest files
    | signalError what => exact ih hrest files

/-- The last write to a location is what it holds afterwards. -/
theorem filesAfter_last {cwd : Location} {obs : List Observation} {x : Location}
    (hmem : ∃ write, .wrote write ∈ obs ∧ resolve cwd write.path = x) (files : Files) :
    ∃ write, .wrote write ∈ obs ∧ resolve cwd write.path = x ∧
      filesAfter cwd files obs x = some (.text write.stored) := by
  induction obs generalizing files with
  | nil => simp at hmem
  | cons ob obs ih =>
    by_cases hlater : ∃ write, .wrote write ∈ obs ∧ resolve cwd write.path = x
    · have hlast : ∀ files : Files, ∃ write, .wrote write ∈ ob :: obs ∧
          resolve cwd write.path = x ∧ filesAfter cwd files obs x = some (.text write.stored) := by
        intro files
        obtain ⟨write, hw, hx, hfile⟩ := ih hlater files
        exact ⟨write, List.mem_cons_of_mem ob hw, hx, hfile⟩
      cases ob with
      | wrote write => exact hlast _
      | inserted d => exact hlast files
      | removed d => exact hlast files
      | changed d => exact hlast files
      | signalError what => exact hlast files
    · push Not at hlater
      obtain ⟨write, hw, rfl⟩ := hmem
      rcases List.mem_cons.mp hw with rfl | hw
      · refine ⟨write, List.mem_cons_self, rfl, ?_⟩
        rw [filesAfter, filesAfter_other hlater, Function.update_self]
      · exact absurd rfl (hlater write hw)

theorem filesAfter_written {cwd : Location} {obs : List Observation} {x : Location} {t : Text}
    (hmem : ∃ write, .wrote write ∈ obs ∧ resolve cwd write.path = x)
    (hsame : ∀ write, .wrote write ∈ obs → resolve cwd write.path = x → write.stored = t)
    (files : Files) : filesAfter cwd files obs x = some (.text t) := by
  obtain ⟨write, hw, hx, hfile⟩ := filesAfter_last hmem files
  rw [hfile, hsame write hw hx]

theorem injOn_of_image_subset {α β : Type*} [DecidableEq β] {s : Finset α} {f g : α → β}
    (hf : Set.InjOn f s) (hsub : s.image f ⊆ s.image g) : Set.InjOn g s := by
  have hcard : (s.image f).card = s.card := Finset.card_image_of_injOn hf
  have hle : s.card ≤ (s.image g).card := hcard ▸ Finset.card_le_card hsub
  exact Finset.card_image_iff.mp (le_antisymm Finset.card_image_le hle)

/-- Every document has a file in the folder for itself alone, written in the pass and holding
exactly its text. -/
def OwnFiles (w : World) (o : DocumentInfo → StreamOutcome) : Prop :=
  ∃ assign : DocumentInfo → Location,
    Set.InjOn assign {d | d ∈ w.buffer.documents} ∧
    ∀ d ∈ w.buffer.documents,
      (∃ name, assign d = resolve w.cwd (cString w.saver.folder) ++ [name]) ∧
      (∃ write, .wrote write ∈ (w.saver.save w.buffer o).2 ∧
        resolve w.cwd write.path = assign d) ∧
      (w.perform (w.saver.save w.buffer o)).files (assign d) =
        some (.text (w.buffer.document d).text)

def DistinctNames (buffer : ServerBuffer) : Prop :=
  Set.InjOn (fun d => diskName (buffer.document d).title) {d | d ∈ buffer.documents}

section CompletePass

variable {w : World} {o : DocumentInfo → StreamOutcome}

theorem complete_location (hopen : ∀ d ∈ w.buffer.documents, Completes w.buffer o d)
    {d : DocumentInfo} (hd : d ∈ w.buffer.documents) :
    resolve w.cwd (fullWrite w.saver.folder w.buffer d).path =
      resolve w.cwd (cString w.saver.folder) ++ [diskName (w.buffer.document d).title] := by
  obtain ⟨bytes, hbytes, _⟩ := hopen d hd
  exact resolve_outputPath hbytes w.cwd w.saver.folder

theorem complete_pass_writes (hw : Keyed w)
    (hflagged : ∀ d ∈ w.buffer.documents, w.saver.map[d]? = some true)
    (hopen : ∀ d ∈ w.buffer.documents, Completes w.buffer o d) (write : Write) :
    .wrote write ∈ (w.saver.save w.buffer o).2 ↔
      ∃ d ∈ w.buffer.documents, write = fullWrite w.saver.folder w.buffer d := by
  rw [mem_complete_writes fun d hflag => hopen d (hw.flag_mem hflag)]
  constructor
  · rintro ⟨d, hflag, he⟩
    exact ⟨d, hw.flag_mem hflag, Observation.wrote.inj he⟩
  · rintro ⟨d, hd, rfl⟩
    exact ⟨d, hflagged d hd, rfl⟩

theorem distinctNames_of_ownFiles (hw : Keyed w)
    (hflagged : ∀ d ∈ w.buffer.documents, w.saver.map[d]? = some true)
    (hopen : ∀ d ∈ w.buffer.documents, Completes w.buffer o d) (h : OwnFiles w o) :
    DistinctNames w.buffer := by
  obtain ⟨assign, hinj, hassign⟩ := h
  have hcover : w.buffer.documents.toFinset.image assign ⊆
      w.buffer.documents.toFinset.image fun d =>
        resolve w.cwd (fullWrite w.saver.folder w.buffer d).path := by
    intro x hx
    obtain ⟨d, hd, rfl⟩ := Finset.mem_image.mp hx
    obtain ⟨_, ⟨write, hwrite, hx⟩, _⟩ := hassign d (List.mem_toFinset.mp hd)
    obtain ⟨k, hk, rfl⟩ := (complete_pass_writes hw hflagged hopen write).mp hwrite
    exact Finset.mem_image.mpr ⟨k, List.mem_toFinset.mpr hk, hx⟩
  have hpaths := injOn_of_image_subset (by simpa using hinj) hcover
  intro a ha b hb hab
  apply hpaths (List.mem_toFinset.mpr ha) (List.mem_toFinset.mpr hb)
  have hsame : diskName (w.buffer.document a).title =
      diskName (w.buffer.document b).title := hab
  simp only [complete_location hopen ha, complete_location hopen hb, hsame]

theorem ownFiles_of_distinctNames (hw : Keyed w)
    (hflagged : ∀ d ∈ w.buffer.documents, w.saver.map[d]? = some true)
    (hopen : ∀ d ∈ w.buffer.documents, Completes w.buffer o d) (h : DistinctNames w.buffer) :
    OwnFiles w o := by
  have hwrites := complete_pass_writes hw hflagged hopen
  refine ⟨fun d => resolve w.cwd (cString w.saver.folder) ++
    [diskName (w.buffer.document d).title], ?_, fun d hd => ⟨⟨_, rfl⟩, ?_, ?_⟩⟩
  · intro a ha b hb hab
    exact h ha hb (by simpa using hab)
  · exact ⟨_, (hwrites _).mpr ⟨d, hd, rfl⟩, complete_location hopen hd⟩
  · refine filesAfter_written ⟨_, (hwrites _).mpr ⟨d, hd, rfl⟩, complete_location hopen hd⟩ ?_
      w.files
    intro write hwrite hx
    obtain ⟨k, hk, rfl⟩ := (hwrites write).mp hwrite
    rw [complete_location hopen hk] at hx
    obtain rfl : k = d := h hk hd (by simpa using hx)
    rfl

end CompletePass

/-- After a pass that writes every document of the session, each has a file of its own if and
only if no two of their titles give the same file name. -/
theorem own_files_iff_distinct_names {buffer : ServerBuffer} {folder : Text} {interval : ℕ}
    {cwd : Location} {files : Files} {es : List Event} {w : World}
    (hr : run step (start buffer folder interval cwd files) es = some w)
    {o : DocumentInfo → StreamOutcome}
    (hflagged : ∀ d ∈ w.buffer.documents, w.saver.map[d]? = some true)
    (hopen : ∀ d ∈ w.buffer.documents, Completes w.buffer o d) :
    OwnFiles w o ↔ DistinctNames w.buffer := by
  have hkeyed : Keyed w := reachable_invariant keyed_step
    (start_keyed buffer folder interval cwd files) ⟨es, hr⟩
  constructor
  · exact distinctNames_of_ownFiles hkeyed hflagged hopen
  · exact ownFiles_of_distinctNames hkeyed hflagged hopen

def twoTitles (first second : Text) : ServerBuffer where
  documents := [1, 2]
  document := fun d =>
    if d = 1 then ⟨"draft/".toList ++ first, "one".toList⟩
    else ⟨"final/".toList ++ second, "two".toList⟩
  nodup := two_nodup

def twoTitlesStart (first second : Text) : World :=
  start (twoTitles first second) "out".toList 60 [] fun _ => none

theorem own_files_intro_end : OwnFiles (twoTitlesStart "intro".toList "end".toList) acceptsAll := by
  have hopen : ∀ d ∈ (twoTitles "intro".toList "end".toList).documents,
      Completes (twoTitles "intro".toList "end".toList) acceptsAll d := by
    intro d hd
    rcases List.mem_pair.mp hd with rfl | rfl
    · exact ⟨1000, rfl, by decide⟩
    · exact ⟨1000, rfl, by decide⟩
  have hdistinct : DistinctNames (twoTitles "intro".toList "end".toList) := by
    intro a ha b hb hab
    rcases List.mem_pair.mp ha with rfl | rfl <;> rcases List.mem_pair.mp hb with rfl | rfl
    · rfl
    · exact absurd hab (by decide)
    · exact absurd hab (by decide)
    · rfl
  have hstart : run step (start (twoTitles "intro".toList "end".toList) "out".toList 60 []
      fun _ => none) [] = some (twoTitlesStart "intro".toList "end".toList) := rfl
  exact (own_files_iff_distinct_names hstart (by decide) hopen).mpr hdistinct

/-- The titles `draft/intro` and `final/intro` share one file: the second text is in it and
the first is nowhere. -/
theorem second_intro_overwrites_first :
    (∀ d ∈ (twoTitles "intro".toList "intro".toList).documents,
      (twoTitlesStart "intro".toList "intro".toList).saver.map[d]? = some true ∧
      Completes (twoTitles "intro".toList "intro".toList) acceptsAll d) ∧
    (∃ w, run step (twoTitlesStart "intro".toList "intro".toList) [.save acceptsAll] = some w ∧
      w.files ["out".toList, "intro".toList] = some (.text "two".toList)) ∧
    ¬ OwnFiles (twoTitlesStart "intro".toList "intro".toList) acceptsAll := by
  refine ⟨?_, ⟨_, rfl, by decide⟩, ?_⟩
  · intro d hd
    rcases List.mem_pair.mp hd with rfl | rfl
    · exact ⟨by decide, 1000, rfl, by decide⟩
    · exact ⟨by decide, 1000, rfl, by decide⟩
  · rintro ⟨assign, hinj, hassign⟩
    have hwrites : ((twoTitlesStart "intro".toList "intro".toList).saver.save
        (twoTitles "intro".toList "intro".toList) acceptsAll).2 =
          [.wrote ⟨1, "out/intro".toList, "one".toList⟩,
            .wrote ⟨2, "out/intro".toList, "two".toList⟩] := by decide
    have hplace : ∀ d ∈ [1, 2], assign d = ["out".toList, "intro".toList] := by
      intro d hd
      obtain ⟨_, ⟨write, hw, hx⟩, _⟩ := hassign d hd
      rw [← hx]
      have hw : Observation.wrote write ∈ _ := hwrites ▸ hw
      rcases List.mem_pair.mp hw with h | h
      · obtain rfl := Observation.wrote.inj h
        decide
      · obtain rfl := Observation.wrote.inj h
        decide
    have hsame : assign 1 = assign 2 := (hplace 1 (by decide)).trans (hplace 2 (by decide)).symm
    exact absurd (hinj (by decide) (by decide) hsame) (by decide)

end FolderFiles
