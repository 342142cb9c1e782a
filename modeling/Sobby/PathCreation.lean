import Sobby.FileTrees

/-! Creating the directories on the way to the configuration file. `create_path_to` tests for the
directory, creates the way to it and then the directory itself, without testing again. -/
namespace PathCreation

open Strings
open PathNames
open FileTrees

inductive Code where
  | pathCreationFailed
  deriving DecidableEq, Repr

structure Error where
  code : Code
  message : Text
  deriving DecidableEq, Repr

theorem isDirectory_dot (fs : FileSystem) : fs.isDirectory fs.cwd ['.'] :=
  isDirectory_iff.mpr ⟨fs.cwd, follow_directory fs.dot ['.'] [], fs.dot⟩

theorem isDirectory_root (fs : FileSystem) : fs.isDirectory fs.cwd ['/'] :=
  isDirectory_iff.mpr ⟨[], locate_names trimmed_root fs.toFileTree, fs.root⟩

/-- The working directory comes last: every other path is cut to a shorter one or to it. -/
def wayLength (path : Text) : ℕ := if path = ['.'] then 0 else path.length + 1

theorem wayLength_le (path : Text) : wayLength path ≤ path.length + 1 := by
  unfold wayLength
  split
  · omega
  · exact le_rfl

theorem wayLength_cut {path : Text} (hdot : cString path ≠ ['.']) (hroot : cString path ≠ ['/']) :
    wayLength (pathGetDirname path) < wayLength path := by
  have hpath : path ≠ ['.'] := by
    rintro rfl
    exact hdot rfl
  have hlength : (cString path).length ≤ path.length := (List.takeWhile_prefix _).length_le
  have hsame : pathGetDirname path = pathGetDirname (cString path) := by
    rw [pathGetDirname, pathGetDirname, cString_self (nul_not_mem_cString path)]
  rw [hsame, wayLength.eq_def path, if_neg hpath]
  have hnul : '\x00' ∉ cString path := nul_not_mem_cString path
  generalize cString path = p at hroot hlength hnul
  cases hpos : rfind p '/' with
  | none =>
    rw [pathGetDirname, cString_self hnul, if_neg (rfind_none hpos)]
    exact Nat.succ_pos _
  | some pos =>
    obtain ⟨front, last, rfl, _, hlast⟩ := rfind_some hpos
    rw [List.length_append, List.length_cons] at hlength
    rw [dirname_append hlast hnul]
    split
    · -- there is more than the slash of the root
      have hmore : front.length + last.length ≠ 0 := by
        intro hzero
        obtain ⟨hf, hl⟩ := Nat.add_eq_zero_iff.mp hzero
        apply hroot
        rw [List.length_eq_zero_iff.mp hf, List.length_eq_zero_iff.mp hl, List.nil_append]
      have htwo : wayLength ['/'] = 2 := rfl
      omega
    · have hle := wayLength_le (front.rdropWhile (· = '/'))
      have hcut : (front.rdropWhile (· = '/')).length ≤ front.length :=
        (List.rdropWhile_prefix _ _).length_le
      omega

theorem wayLength_dirname {fs : FileSystem} {path : Text}
    (h : ¬ fs.isDirectory fs.cwd (cString path)) :
    wayLength (pathGetDirname path) < wayLength path := by
  apply wayLength_cut
  · intro hdot
    rw [hdot] at h
    exact h (isDirectory_dot fs)
  · intro hroot
    rw [hroot] at h
    exact h (isDirectory_root fs)

section Creation

variable (permits : Location → Bool) (strerror : Errno → Text)

def createDirectory (fs : FileSystem) (path : Text) : FileSystem × Option Error :=
  match fs.mkdir permits path with
  | .ok fs => (fs, none)
  | .error e =>
    (fs, some ⟨.pathCreationFailed,
      "Could not create directory ".toList ++ path ++ ": ".toList ++ strerror e⟩)

def createPathTo (fs : FileSystem) (path : Text) : FileSystem × Option Error :=
  if fs.isDirectory fs.cwd (cString path) then (fs, none)
  else
    match createPathTo fs (pathGetDirname path) with
    | (fs, some e) => (fs, some e)
    | (fs, none) => createDirectory permits strerror fs (cString path)
termination_by wayLength path
decreasing_by exact wayLength_dirname ‹_›

end Creation

/-- Every location on the way is a directory or missing, and what is missing may be created. -/
structure Creatable (permits : Location → Bool) (t : FileTree) (at_ : Location)
    (way : List Text) : Prop where
  directories : ∀ front, front <+: way → t.kind (front.foldl enter at_) ≠ some .file
  missing : ∀ front, front <+: way → t.kind (front.foldl enter at_) = none →
    permits (front.foldl enter at_)

/-- From the first missing location on, the way uses proper names only. -/
def NamesAfterMissing (t : FileTree) (at_ : Location) (way : List Text) : Prop :=
  ∀ front c, front ++ [c] <+: way → t.kind (front.foldl enter at_) = none → ¬ NamesDirectory c

/-- The way has been made, and nothing else. -/
structure Made (t t' : FileTree) (at_ : Location) (way : List Text) : Prop where
  reached : t'.follow at_ way = .ok (way.foldl enter at_)
  made : ∀ y, y <+: way.foldl enter at_ → t'.kind y = some .directory
  others : ∀ y, ¬ y <+: way.foldl enter at_ → t'.kind y = t.kind y

section Ways

variable {permits : Location → Bool} {t t' : FileTree} {at_ : Location} {way : List Text} {c : Text}

theorem Creatable.front (h : Creatable permits t at_ (way ++ [c])) : Creatable permits t at_ way where
  directories := fun front hfront => h.directories front (hfront.trans (List.prefix_append ..))
  missing := fun front hfront => h.missing front (hfront.trans (List.prefix_append ..))

theorem namesAfterMissing_concat :
    NamesAfterMissing t at_ (way ++ [c]) ↔
      NamesAfterMissing t at_ way ∧ (t.kind (way.foldl enter at_) = none → ¬ NamesDirectory c) := by
  constructor
  · intro h
    exact ⟨fun front d hd => h front d (hd.trans (List.prefix_append ..)),
      h way c List.prefix_rfl⟩
  · rintro ⟨hway, hlast⟩ front d hd
    rcases List.prefix_concat_iff.mp hd with heq | hd
    · obtain ⟨rfl, rfl⟩ := List.append_singleton_inj.mp heq
      exact hlast
    · exact hway front d hd

theorem namesAfterMissing_nil : NamesAfterMissing t at_ [] := by
  intro front c hd
  exact absurd (List.prefix_nil.mp hd) (by simp)

theorem follow_or_missing (hat : t.kind at_ = some .directory) (hc : Creatable permits t at_ way)
    (hn : NamesAfterMissing t at_ way) :
    (t.follow at_ way = .ok (way.foldl enter at_) ∧
      t.kind (way.foldl enter at_) = some .directory) ∨ t.kind (way.foldl enter at_) = none := by
  induction way using List.reverseRecOn with
  | nil => exact Or.inl ⟨rfl, hat⟩
  | append_singleton way c ih =>
    obtain ⟨hway, hlast⟩ := namesAfterMissing_concat.mp hn
    have hfile := hc.directories (way ++ [c]) List.prefix_rfl
    rw [List.foldl_concat] at hfile ⊢
    rcases ih hc.front hway with ⟨hfollow, hdir⟩ | hnone
    · cases hk : t.kind (enter (way.foldl enter at_) c) with
      | none => exact Or.inr rfl
      | some k =>
        cases k with
        | directory => exact Or.inl ⟨follow_concat hfollow hdir c, rfl⟩
        | file => exact absurd hk hfile
    · right
      rw [enter_name (hlast hnone)]
      exact missing_below (by rw [hnone]; decide) c

/-- On a way that can be followed nothing is missing. -/
theorem namesAfterMissing_of_follow {x : Location} (h : t.follow at_ way = .ok x) :
    NamesAfterMissing t at_ way := by
  rintro front c ⟨rest, rfl⟩ hnone
  rw [List.append_assoc, List.singleton_append] at h
  rw [follow_front h] at hnone
  cases hnone

theorem made_self (h : t.follow at_ way = .ok (way.foldl enter at_))
    (hdir : t.kind (way.foldl enter at_) = some .directory) : Made t t at_ way :=
  ⟨h, fun _ hy => prefix_directory hdir hy, fun _ _ => rfl⟩

theorem Made.concat {t'' : FileTree} (hm : Made t t' at_ way) (hname : ¬ NamesDirectory c)
    (hkind : t''.kind =
      Function.update t'.kind (way.foldl enter at_ ++ [c]) (some .directory)) :
    Made t t'' at_ (way ++ [c]) := by
  have hself : t''.kind (way.foldl enter at_ ++ [c]) = some .directory := by
    rw [hkind, Function.update_self]
  have hmono : ∀ y, t'.kind y = some .directory → t''.kind y = some .directory := by
    intro y hy
    by_cases h : y = way.foldl enter at_ ++ [c]
    · rw [h, hself]
    · rw [hkind, Function.update_of_ne h, hy]
  have hend : (way ++ [c]).foldl enter at_ = way.foldl enter at_ ++ [c] := by
    rw [List.foldl_concat, enter_name hname]
  refine ⟨?_, fun y hy => ?_, fun y hy => ?_⟩
  · rw [List.foldl_concat]
    exact follow_concat (follow_mono hmono hm.reached) (hmono _ (hm.made _ List.prefix_rfl)) c
  · rw [hend] at hy
    rcases List.prefix_concat_iff.mp hy with rfl | hy
    · exact hself
    · exact hmono y (hm.made y hy)
  · rw [hend, List.prefix_concat_iff, not_or] at hy
    rw [hkind, Function.update_of_ne hy.1]
    exact hm.others y hy.2

/-- Every ancestor of the place a way leads to lies on the way or above its start. -/
theorem prefix_on_way {y : Location} (h : y <+: way.foldl enter at_) :
    y <+: at_ ∨ ∃ front, front <+: way ∧ y = front.foldl enter at_ := by
  induction way using List.reverseRecOn with
  | nil => exact Or.inl h
  | append_singleton way c ih =>
    rw [List.foldl_concat] at h
    rcases prefix_enter h with hway | rfl
    · rcases ih hway with hstart | ⟨front, hfront, rfl⟩
      · exact Or.inl hstart
      · exact Or.inr ⟨front, hfront.trans (List.prefix_append ..), rfl⟩
    · exact Or.inr ⟨way ++ [c], List.prefix_rfl, (List.foldl_concat ..).symm⟩

end Ways

def MadeOrFailed (fs : FileSystem) (at_ : Location) (way : List Text)
    (result : FileSystem × Option Error) : Prop :=
  (NamesAfterMissing fs.toFileTree at_ way ∧ result.2 = none ∧ result.1.cwd = fs.cwd ∧
      Made fs.toFileTree result.1.toFileTree at_ way) ∨
    (¬ NamesAfterMissing fs.toFileTree at_ way ∧ result.2 ≠ none)

section Paths

variable {permits : Location → Bool} {strerror : Errno → Text} {fs : FileSystem} {path : Text}

theorem origin_directory (fs : FileSystem) (path : Text) :
    fs.kind (origin fs.cwd path) = some .directory := by
  unfold origin
  split
  · exact fs.root
  · exact fs.dot

theorem isDirectory_trimmed (h : Trimmed path) :
    fs.isDirectory fs.cwd path = true ↔
      fs.follow (origin fs.cwd path) (names path) = .ok (resolve fs.cwd path) ∧
        fs.kind (resolve fs.cwd path) = some .directory := by
  rw [isDirectory_iff, locate_names h]
  constructor
  · rintro ⟨x, hx, hk⟩
    have hend : x = resolve fs.cwd path := by
      rw [resolve_names]
      exact follow_eq hx
    exact hend ▸ ⟨hx, hk⟩
  · intro h
    exact ⟨_, h.1, h.2⟩

theorem withoutSlashes_trimmed (h : Trimmed path) : withoutSlashes path = path := by
  unfold withoutSlashes
  split
  · rfl
  · next hne =>
    rcases List.eq_nil_or_concat path with rfl | ⟨front, x, rfl⟩
    · rfl
    · rw [List.concat_eq_append] at h hne ⊢
      apply List.rdropWhile_concat_neg
      intro hx
      obtain rfl : x = '/' := by simpa using hx
      obtain rfl := h.slash front rfl
      exact hne rfl

theorem createDirectory_cases {fs' : FileSystem} {at_ : Location} {way : List Text} {c : Text}
    (htrim : Trimmed path) (hway : names path = way ++ [c]) (hat : origin fs.cwd path = at_)
    (hdir : ¬ fs.isDirectory fs.cwd path) (hc : Creatable permits fs.toFileTree at_ (way ++ [c]))
    (hn : NamesAfterMissing fs.toFileTree at_ way) (hcwd : fs'.cwd = fs.cwd)
    (hm : Made fs.toFileTree fs'.toFileTree at_ way) :
    MadeOrFailed fs at_ (way ++ [c]) (createDirectory permits strerror fs' path) := by
  have hstart : fs.kind at_ = some .directory := hat ▸ origin_directory fs path
  have hend : resolve fs.cwd path = enter (way.foldl enter at_) c := by
    rw [resolve_names, hway, hat, List.foldl_concat]
  have hfile := hc.directories (way ++ [c]) List.prefix_rfl
  have hpermits := hc.missing (way ++ [c]) List.prefix_rfl
  rw [List.foldl_concat] at hfile hpermits
  have hcases := follow_or_missing hstart hc.front hn
  have hx' : fs'.kind (way.foldl enter at_) = some .directory := hm.made _ List.prefix_rfl
  have hlocate : fs'.locate fs'.cwd (withoutSlashes path) =
      .ok (enter (way.foldl enter at_) c) := by
    rw [withoutSlashes_trimmed htrim, locate_names htrim, hcwd, hat, hway]
    exact follow_concat hm.reached hx' c
  generalize hplace : way.foldl enter at_ = x at *
  -- otherwise the test would have found the directory
  have hnot : fs.follow at_ way = .ok x → fs.kind x = some .directory →
      fs.kind (enter x c) ≠ some .directory := by
    intro hfollow hx hk
    apply hdir
    rw [isDirectory_trimmed htrim, hat, hway, hend]
    exact ⟨follow_concat hfollow hx c, hk⟩
  by_cases hname : NamesDirectory c
  · right
    have hnone : fs.kind x = none := by
      refine hcases.resolve_left ?_
      rintro ⟨hfollow, hx⟩
      exact hnot hfollow hx (enter_directory hx hname)
    have hexists : fs'.kind (enter x c) ≠ none := by
      rw [enter_directory hx' hname]
      exact Option.some_ne_none _
    refine ⟨fun h => ?_, ?_⟩
    · rw [namesAfterMissing_concat, hplace] at h
      exact h.2 hnone hname
    · rw [createDirectory, mkdir_exists hlocate hexists]
      exact Option.some_ne_none _
  · left
    rw [enter_name hname] at hlocate hfile hpermits hnot
    have hnew : fs.kind (x ++ [c]) = none := by
      rcases hcases with ⟨hfollow, hx⟩ | hnone
      · cases hk : fs.kind (x ++ [c]) with
        | none => rfl
        | some k =>
          cases k with
          | directory => exact absurd hk (hnot hfollow hx)
          | file => exact absurd hk hfile
      · exact missing_below (by rw [hnone]; decide) c
    have hbeyond : ¬ x ++ [c] <+: x := fun h => by simpa using h.length_le
    have hnew' : fs'.kind (x ++ [c]) = none := by
      rw [hm.others _ (by rwa [hplace]), hnew]
    obtain ⟨fs'', hmkdir, hcwd'', hkind⟩ := mkdir_new hlocate hx' hnew' (hpermits hnew)
    have hmade : Made fs.toFileTree fs''.toFileTree at_ (way ++ [c]) := by
      apply hm.concat hname
      rw [hplace]
      exact hkind
    refine ⟨namesAfterMissing_concat.mpr ⟨hn, fun _ => hname⟩, ?_⟩
    rw [createDirectory, hmkdir]
    exact ⟨rfl, hcwd''.trans hcwd, hmade⟩

theorem dirname_way (htrim : Trimmed path) (hdir : ¬ fs.isDirectory fs.cwd path)
    (hc : Creatable permits fs.toFileTree (origin fs.cwd path) (names path))
    (ih : Creatable permits fs.toFileTree (origin fs.cwd (pathGetDirname path))
        (names (pathGetDirname path)) →
      MadeOrFailed fs (origin fs.cwd (pathGetDirname path)) (names (pathGetDirname path))
        (createPathTo permits strerror fs (pathGetDirname path))) :
    ∃ way c, names path = way ++ [c] ∧
      MadeOrFailed fs (origin fs.cwd path) way
        (createPathTo permits strerror fs (pathGetDirname path)) := by
  have hroot : path ≠ ['/'] := by
    rintro rfl
    exact hdir (isDirectory_root fs)
  obtain ⟨hdot, hat, c, hname⟩ | ⟨hat, c, hname⟩ := dirname_cases htrim hroot fs.cwd
  · refine ⟨[], c, hname, Or.inl ?_⟩
    have hstop : cString ['.'] = ['.'] := rfl
    rw [hdot, createPathTo, if_pos (hstop ▸ isDirectory_dot fs), hat]
    exact ⟨namesAfterMissing_nil, rfl, rfl, made_self rfl fs.dot⟩
  · refine ⟨names (pathGetDirname path), c, hname, ?_⟩
    rw [hname, hat] at hc
    rw [hat]
    exact ih hc.front

/-- Whether the call makes the way is decided by the file system it starts in. -/
theorem createPathTo_cases (strerror : Errno → Text) (htrim : Trimmed path)
    (hc : Creatable permits fs.toFileTree (origin fs.cwd path) (names path)) :
    MadeOrFailed fs (origin fs.cwd path) (names path) (createPathTo permits strerror fs path) := by
  induction path using createPathTo.induct permits strerror fs with
  | case1 path hdir =>
    rw [createPathTo, if_pos hdir]
    rw [cString_self htrim.nul, isDirectory_trimmed htrim, resolve_names] at hdir
    exact Or.inl ⟨namesAfterMissing_of_follow hdir.1, rfl, rfl, made_self hdir.1 hdir.2⟩
  | case2 path hdir fs' e hrun ih =>
    rw [createPathTo, if_neg hdir, hrun]
    rw [cString_self htrim.nul] at hdir
    obtain ⟨way, c, hway, hprev⟩ := dirname_way htrim hdir hc (ih (trimmed_dirname path))
    rw [hrun] at hprev
    rw [hway]
    rcases hprev with ⟨_, hnone, _⟩ | ⟨hn, hsome⟩
    · cases hnone
    · exact Or.inr ⟨fun h => hn (namesAfterMissing_concat.mp h).1, hsome⟩
  | case3 path hdir fs' hrun ih =>
    rw [createPathTo, if_neg hdir, hrun, cString_self htrim.nul]
    rw [cString_self htrim.nul] at hdir
    obtain ⟨way, c, hway, hprev⟩ := dirname_way htrim hdir hc (ih (trimmed_dirname path))
    rw [hrun] at hprev
    rw [hway] at hc ⊢
    rcases hprev with ⟨hn, _, hcwd, hm⟩ | ⟨_, hsome⟩
    · exact createDirectory_cases htrim hway rfl hdir hc hn hcwd hm
    · exact absurd rfl hsome

end Paths

/-- The call returns, the directory is there, and only directories that lie on the way and were
missing have been added. -/
structure CreatesPath (permits : Location → Bool) (strerror : Errno → Text) (fs : FileSystem)
    (dir : Text) : Prop where
  returns : (createPathTo permits strerror fs dir).2 = none
  directory : (createPathTo permits strerror fs dir).1.isDirectory fs.cwd dir
  stays : (createPathTo permits strerror fs dir).1.cwd = fs.cwd
  onlyCreates : ∀ y, (createPathTo permits strerror fs dir).1.kind y ≠ fs.kind y →
    fs.kind y = none ∧ (createPathTo permits strerror fs dir).1.kind y = some .directory ∧
      ∃ front, front <+: names dir ∧ y = front.foldl enter (origin fs.cwd dir)

theorem creates_path_iff (permits : Location → Bool) (strerror : Errno → Text) (fs : FileSystem)
    (file : Text)
    (hc : Creatable permits fs.toFileTree (origin fs.cwd (pathGetDirname file))
      (names (pathGetDirname file))) :
    CreatesPath permits strerror fs (pathGetDirname file) ↔
      NamesAfterMissing fs.toFileTree (origin fs.cwd (pathGetDirname file))
        (names (pathGetDirname file)) := by
  have htrim : Trimmed (pathGetDirname file) := trimmed_dirname file
  generalize pathGetDirname file = dir at *
  rcases createPathTo_cases strerror htrim hc with ⟨hn, hok, hcwd, hm⟩ | ⟨hn, herr⟩
  · refine iff_of_true ⟨hok, ?_, hcwd, fun y hy => ?_⟩ hn
    · rw [← hcwd, isDirectory_trimmed htrim, resolve_names, hcwd]
      exact ⟨hm.reached, hm.made _ List.prefix_rfl⟩
    · have hway : y <+: resolve fs.cwd dir := by
        by_contra h
        rw [resolve_names] at h
        exact hy (hm.others y h)
      rw [resolve_names] at hway
      have hmade := hm.made y hway
      have hold : fs.kind y ≠ some .directory := fun h => hy (hmade.trans h.symm)
      rcases prefix_on_way hway with hstart | ⟨front, hfront, rfl⟩
      · exact absurd (prefix_directory (origin_directory fs dir) hstart) hold
      · refine ⟨?_, hmade, front, hfront, rfl⟩
        cases hk : fs.kind (front.foldl enter (origin fs.cwd dir)) with
        | none => rfl
        | some k =>
          cases k with
          | directory => exact absurd hk hold
          | file => exact absurd hk (hc.directories front hfront)
  · exact iff_of_false (fun h => herr h.returns) hn

def bareRoot : FileSystem where
  kind x := if x = [] then some .directory else none
  root := rfl
  parent := by
    intro at_ name h
    simp at h
  cwd := []
  dot := rfl

theorem bareRoot_creatable (at_ : Location) (way : List Text) :
    Creatable (fun _ => true) bareRoot.toFileTree at_ way := by
  refine ⟨fun front _ h => ?_, fun _ _ _ => rfl⟩
  have hk : (if front.foldl enter at_ = [] then some Kind.directory else none) = some .file := h
  split at hk
  · cases hk
  · cases hk

def messages : Errno → Text
  | .eexist => "File exists".toList
  | .enoent => "No such file or directory".toList
  | .enotdir => "Not a directory".toList
  | .eacces => "Permission denied".toList

theorem sobby_directory_created :
    CreatesPath (fun _ => true) messages bareRoot (pathGetDirname "etc//sobby/conf".toList) := by
  refine (creates_path_iff _ messages bareRoot _ (bareRoot_creatable _ _)).mpr ?_
  have hnames : names (pathGetDirname "etc//sobby/conf".toList) =
      ["etc".toList, "sobby".toList] := by decide
  rw [hnames]
  intro front c hfront _
  have hc : c ∈ ["etc".toList, "sobby".toList] := hfront.subset (by simp)
  simp only [List.mem_cons, List.not_mem_nil, or_false] at hc
  rcases hc with rfl | rfl
  · decide
  · decide

/-- When the turn of `new/.` comes it is there, but the test was made before `new` was. -/
theorem dot_after_missing_fails :
    Creatable (fun _ => true) bareRoot.toFileTree
        (origin bareRoot.cwd (pathGetDirname "new/./conf".toList))
        (names (pathGetDirname "new/./conf".toList)) ∧
      (createPathTo (fun _ => true) messages bareRoot (pathGetDirname "new/./conf".toList)).2 =
        some ⟨.pathCreationFailed, "Could not create directory new/.: File exists".toList⟩ ∧
      ¬ CreatesPath (fun _ => true) messages bareRoot (pathGetDirname "new/./conf".toList) := by
  have hdir : pathGetDirname "new/./conf".toList = "new/.".toList := by decide
  have hnew : pathGetDirname "new/.".toList = "new".toList := by decide
  have hdot : pathGetDirname "new".toList = ".".toList := by decide
  have herr : (createPathTo (fun _ => true) messages bareRoot "new/.".toList).2 =
      some ⟨.pathCreationFailed, "Could not create directory new/.: File exists".toList⟩ := by
    rw [createPathTo, if_neg (by decide), hnew, createPathTo, if_neg (by decide), hdot,
      createPathTo, if_pos (by decide)]
    rfl
  rw [hdir]
  refine ⟨bareRoot_creatable _ _, herr, fun h => ?_⟩
  have hreturns := h.returns
  rw [herr] at hreturns
  cases hreturns

end PathCreation
