import Sobby.FileTrees
import Sobby.FolderFiles

/-! Where the folder saver writes, whatever the documents are called. The cut at the last slash
leaves one component; if that does not name a child of the folder it names a directory, and a
directory cannot be opened for writing. -/
namespace FolderConfinement

open PathNames
open FileTrees
open SessionBuffer
open Strings
open FolderAutosave
open FolderFiles

/-- What a file system answers to the opens of a pass. Those of the pass itself create no
directories, so the tree may be taken as it is when the pass begins. -/
def answers (t : FileTree) (permits : Location → Bool) (bytes : Location → ℕ) (cwd : Location)
    (folder : Text) (buffer : ServerBuffer) (d : DocumentInfo) : StreamOutcome :=
  match t.openForWriting permits cwd (outputPath folder (buffer.document d).title) with
  | none => .openFails
  | some x => .accepts (bytes x)

section Titles

variable {t : FileTree} {cwd : Location} {folder : Text}

theorem slash_not_mem_diskName (title : Text) : '/' ∉ diskName title :=
  fun hm => slash_not_mem_fileName title (mem_cString hm)

theorem resolve_outputPath_enter (cwd : Location) (folder title : Text) :
    resolve cwd (outputPath folder title) = enter (resolve cwd (cString folder)) (diskName title) := by
  by_cases hempty : cString (fileName title) = []
  · rw [outputPath, buildFilename_empty hempty, diskName, hempty]
    rfl
  · exact enter_buildFilename (slash_not_mem_diskName title) hempty cwd folder

theorem opened_is_child (hfolder : t.isDirectory cwd (cString folder) = true)
    {permits : Location → Bool} {title : Text} {x : Location}
    (h : t.openForWriting permits cwd (outputPath folder title) = some x) :
    DirectChild (resolve cwd (cString folder)) x := by
  obtain ⟨rfl, hkind⟩ := openForWriting_some h
  rw [resolve_outputPath_enter] at hkind ⊢
  exact (enter_cases (isDirectory_resolve hfolder) (slash_not_mem_diskName title)).resolve_right hkind

/-- The saver's own rule for directories is that of the file system. -/
theorem openStream_answers (hfolder : t.isDirectory cwd (cString folder) = true)
    (permits : Location → Bool) (bytes : Location → ℕ) (buffer : ServerBuffer) (d : DocumentInfo) :
    openStream (buffer.document d).title (answers t permits bytes cwd folder buffer d) =
      (t.openForWriting permits cwd (outputPath folder (buffer.document d).title)).map bytes := by
  unfold answers
  cases hopen : t.openForWriting permits cwd (outputPath folder (buffer.document d).title) with
  | none => rfl
  | some x =>
    obtain ⟨rfl, hkind⟩ := openForWriting_some hopen
    rw [resolve_outputPath_enter] at hkind
    have hname : ¬ NamesDirectory (cString (fileName (buffer.document d).title)) :=
      fun h => hkind (enter_directory (isDirectory_resolve hfolder) h)
    simp only [openStream, hname, if_false, Option.map_some]

end Titles

/-- Whatever titles the documents of a session have, each file that is created or truncated in a
save pass is a direct child of the folder, and every other location is left alone. -/
theorem saver_stays_in_folder (t : FileTree) (permits : Location → Bool) (bytes : Location → ℕ)
    (cwd : Location) (files : Files) (f : AutoSaveFolder) (buffer : ServerBuffer)
    (hfolder : t.isDirectory cwd (cString f.folder) = true) :
    (∀ title x, t.openForWriting permits cwd (outputPath f.folder title) = some x →
      DirectChild (resolve cwd (cString f.folder)) x) ∧
    (∀ write, .wrote write ∈ (f.save buffer (answers t permits bytes cwd f.folder buffer)).2 →
      t.openForWriting permits cwd write.path = some (resolve cwd write.path) ∧
        DirectChild (resolve cwd (cString f.folder)) (resolve cwd write.path)) ∧
    ∀ x, ¬ DirectChild (resolve cwd (cString f.folder)) x →
      filesAfter cwd files (f.save buffer (answers t permits bytes cwd f.folder buffer)).2 x =
        files x := by
  have hwrites : ∀ write,
      .wrote write ∈ (f.save buffer (answers t permits bytes cwd f.folder buffer)).2 →
      t.openForWriting permits cwd write.path = some (resolve cwd write.path) ∧
        DirectChild (resolve cwd (cString f.folder)) (resolve cwd write.path) := by
    intro write hw
    obtain ⟨d, _, n, hopen, rfl⟩ := saveLoop_write _ _ (wrote_mem.mp hw)
    rw [openStream_answers hfolder] at hopen
    obtain ⟨x, hx, _⟩ := Option.map_eq_some_iff.mp hopen
    obtain ⟨rfl, _⟩ := openForWriting_some hx
    exact ⟨hx, opened_is_child hfolder hx⟩
  refine ⟨fun title x hx => opened_is_child hfolder hx, hwrites, ?_⟩
  intro x hx
  apply filesAfter_other
  rintro write hw rfl
  exact hx (hwrites write hw).2

def outTree : FileTree where
  kind x := if x = [] ∨ x = ["out".toList] then some .directory else none
  root := by simp
  parent := by
    intro at_ name h
    have hx : at_ ++ [name] = ["out".toList] := by simpa using h
    have hat : at_ = [] := (List.append_eq_singleton_iff.mp hx).elim (·.1) fun h => by simp at h
    simp [hat]

def climbing : ServerBuffer where
  documents := [1]
  document := fun _ => ⟨"../../etc/passwd".toList, "text".toList⟩
  nodup := one_nodup

theorem climbing_stays_in_out :
    DirectChild ["out".toList] ["out".toList, "passwd".toList] ∧
    filesAfter [] (fun _ => none) ((AutoSaveFolder.create climbing "out".toList 60).save climbing
      (answers outTree (fun _ => true) (fun _ => 1000) [] "out".toList climbing)).2
        ["etc".toList, "passwd".toList] = none := by
  have hfolder : outTree.isDirectory [] (cString "out".toList) = true := by decide
  have hopen : outTree.openForWriting (fun _ => true) []
      (outputPath "out".toList "../../etc/passwd".toList) =
        some ["out".toList, "passwd".toList] := by decide
  obtain ⟨hchild, _, hothers⟩ := saver_stays_in_folder outTree (fun _ => true) (fun _ => 1000) []
    (fun _ => none) (.create climbing "out".toList 60) climbing hfolder
  refine ⟨hchild _ _ hopen, hothers _ ?_⟩
  rintro ⟨name, hx, _⟩
  have hout : resolve [] (cString (AutoSaveFolder.create climbing "out".toList 60).folder) =
      ["out".toList] := by decide
  rw [hout] at hx
  simp at hx

end FolderConfinement
