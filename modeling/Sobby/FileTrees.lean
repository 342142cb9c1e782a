import Sobby.PathNames

/-! File systems without symbolic links: what stands at each location, and where the system gets
to when it follows a path component by component. -/
namespace FileTrees

open Strings
open PathNames

inductive Kind where
  | directory
  | file
  deriving DecidableEq, Repr

/-- Whatever there is stands in a directory, and the root is one. -/
structure FileTree where
  kind : Location → Option Kind
  root : kind [] = some .directory
  parent : ∀ at_ name, kind (at_ ++ [name]) ≠ none → kind at_ = some .directory

inductive Errno where
  | eexist
  | enoent
  | enotdir
  | eacces
  deriving DecidableEq, Repr

def FileTree.follow (t : FileTree) : Location → List Text → Except Errno Location
  | at_, [] => .ok at_
  | at_, c :: rest =>
    match t.kind at_ with
    | some .directory => t.follow (enter at_ c) rest
    | some .file => .error .enotdir
    | none => .error .enoent

/-- The location a path names, which may be missing. The empty path names none. -/
def FileTree.locate (t : FileTree) (cwd : Location) (path : Text) : Except Errno Location :=
  if path = [] then .error .enoent
  else t.follow (if path.head? = some '/' then [] else cwd) (components path)

def FileTree.stat (t : FileTree) (cwd : Location) (path : Text) : Option Kind :=
  match t.locate cwd path with
  | .error _ => none
  | .ok x => t.kind x

/-- `Glib::file_test` for directories. -/
def FileTree.isDirectory (t : FileTree) (cwd : Location) (path : Text) : Bool :=
  t.stat cwd path = some .directory

def FileTree.openForWriting (t : FileTree) (permits : Location → Bool) (cwd : Location)
    (path : Text) : Option Location :=
  match t.locate cwd path with
  | .error _ => none
  | .ok x => if t.kind x = some .directory then none else if permits x then some x else none

def DirectChild (dir x : Location) : Prop :=
  ∃ name, x = dir ++ [name] ∧ '/' ∉ name ∧ ¬ NamesDirectory name

theorem dropLast_directory (t : FileTree) {x : Location} (h : t.kind x = some .directory) :
    t.kind x.dropLast = some .directory := by
  rcases List.eq_nil_or_concat x with rfl | ⟨at_, name, rfl⟩
  · exact t.root
  · rw [List.concat_eq_append] at h ⊢
    rw [List.dropLast_concat]
    apply t.parent at_ name
    rw [h]
    exact Option.some_ne_none _

theorem follow_cons {t : FileTree} {at_ x : Location} {c : Text} {rest : List Text}
    (h : t.follow at_ (c :: rest) = .ok x) :
    t.kind at_ = some .directory ∧ t.follow (enter at_ c) rest = .ok x := by
  rw [FileTree.follow] at h
  split at h
  · next hk => exact ⟨hk, h⟩
  · cases h
  · cases h

theorem follow_directory {t : FileTree} {at_ : Location} (h : t.kind at_ = some .directory)
    (c : Text) (rest : List Text) : t.follow at_ (c :: rest) = t.follow (enter at_ c) rest := by
  rw [FileTree.follow, h]

theorem follow_eq {t : FileTree} {cs : List Text} {at_ x : Location} (h : t.follow at_ cs = .ok x) :
    x = cs.foldl enter at_ := by
  induction cs generalizing at_ with
  | nil => exact (Except.ok.inj h).symm
  | cons c rest ih => exact ih (follow_cons h).2

theorem follow_append {t : FileTree} {cs rest : List Text} {at_ x : Location}
    (h : t.follow at_ cs = .ok x) : t.follow at_ (cs ++ rest) = t.follow x rest := by
  induction cs generalizing at_ with
  | nil => rw [Except.ok.inj h, List.nil_append]
  | cons c cs ih =>
    obtain ⟨hk, h⟩ := follow_cons h
    rw [List.cons_append, follow_directory hk, ih h]

/-- On a way that can be followed every place but the last is a directory. -/
theorem follow_front {t : FileTree} {front rest : List Text} {c : Text} {at_ x : Location}
    (h : t.follow at_ (front ++ c :: rest) = .ok x) :
    t.kind (front.foldl enter at_) = some .directory := by
  induction front generalizing at_ with
  | nil => exact (follow_cons h).1
  | cons d front ih => exact ih (follow_cons h).2

theorem locate_eq {t : FileTree} {cwd x : Location} {path : Text} (h : t.locate cwd path = .ok x) :
    x = resolve cwd path := by
  unfold FileTree.locate at h
  split at h
  · cases h
  · exact follow_eq h

theorem isDirectory_iff {t : FileTree} {cwd : Location} {path : Text} :
    t.isDirectory cwd path = true ↔
      ∃ x, t.locate cwd path = .ok x ∧ t.kind x = some .directory := by
  rw [FileTree.isDirectory, decide_eq_true_eq, FileTree.stat]
  cases t.locate cwd path with
  | error e => simp
  | ok x => simp

theorem isDirectory_resolve {t : FileTree} {cwd : Location} {path : Text}
    (h : t.isDirectory cwd path = true) : t.kind (resolve cwd path) = some .directory := by
  obtain ⟨x, hx, hk⟩ := isDirectory_iff.mp h
  rwa [← locate_eq hx]

theorem enter_directory {t : FileTree} {dir : Location} (hdir : t.kind dir = some .directory)
    {c : Text} (hc : NamesDirectory c) : t.kind (enter dir c) = some .directory := by
  rcases hc with rfl | rfl | rfl
  · exact hdir
  · exact hdir
  · exact dropLast_directory t hdir

theorem enter_cases {t : FileTree} {dir : Location} (hdir : t.kind dir = some .directory)
    {c : Text} (hc : '/' ∉ c) :
    DirectChild dir (enter dir c) ∨ t.kind (enter dir c) = some .directory := by
  by_cases hname : NamesDirectory c
  · exact Or.inr (enter_directory hdir hname)
  · exact Or.inl ⟨c, enter_name hname dir, hc, hname⟩

theorem openForWriting_some {t : FileTree} {permits : Location → Bool} {cwd x : Location}
    {path : Text} (h : t.openForWriting permits cwd path = some x) :
    x = resolve cwd path ∧ t.kind x ≠ some .directory := by
  unfold FileTree.openForWriting at h
  split at h
  · cases h
  · next hx =>
    split at h
    · cases h
    · next hk =>
      split at h
      · obtain rfl := Option.some.inj h
        exact ⟨locate_eq hx, hk⟩
      · cases h

theorem follow_names {t : FileTree} {cs : List Text} (hlast : ∀ front, cs ≠ front ++ [[]])
    (at_ : Location) : t.follow at_ (cs.filter (· ≠ [])) = t.follow at_ cs := by
  induction cs generalizing at_ with
  | nil => rfl
  | cons c rest ih =>
    have hrest : ∀ front, rest ≠ front ++ [[]] := fun front h => hlast (c :: front) (by rw [h]; rfl)
    by_cases hc : c = []
    · subst hc
      cases rest with
      | nil => exact (hlast [] rfl).elim
      | cons d rest =>
        have hskip : t.follow at_ ([] :: d :: rest) = t.follow at_ (d :: rest) := by
          cases hk : t.kind at_ with
          | none => simp only [FileTree.follow, hk]
          | some k => cases k <;> simp only [FileTree.follow, hk, enter, true_or, if_true]
        rw [List.filter_cons_of_neg (by simp), ih hrest, hskip]
    · rw [List.filter_cons_of_pos (by simpa using hc)]
      simp only [FileTree.follow, ih hrest]

theorem locate_names {cwd : Location} {path : Text} (h : Trimmed path) (t : FileTree) :
    t.locate cwd path = t.follow (origin cwd path) (names path) := by
  rw [FileTree.locate, if_neg h.nonempty]
  by_cases hroot : path = ['/']
  · subst hroot
    exact follow_directory t.root [] [[]] |>.trans (follow_directory t.root [] [])
  · exact (follow_names (trimmed_components h hroot) _).symm

theorem follow_concat {t : FileTree} {cs : List Text} {at_ x : Location} (h : t.follow at_ cs = .ok x)
    (hx : t.kind x = some .directory) (c : Text) :
    t.follow at_ (cs ++ [c]) = .ok (enter x c) := by
  rw [follow_append h, follow_directory hx]
  rfl

/-- More directories lead no elsewhere. -/
theorem follow_mono {t t' : FileTree}
    (hmono : ∀ y, t.kind y = some .directory → t'.kind y = some .directory) {cs : List Text}
    {at_ x : Location} (h : t.follow at_ cs = .ok x) : t'.follow at_ cs = .ok x := by
  induction cs generalizing at_ with
  | nil => exact h
  | cons c rest ih =>
    obtain ⟨hk, h⟩ := follow_cons h
    rw [follow_directory (hmono at_ hk)]
    exact ih h

theorem prefix_directory {t : FileTree} {x y : Location} (hx : t.kind x = some .directory)
    (hy : y <+: x) : t.kind y = some .directory := by
  obtain ⟨rest, rfl⟩ := hy
  induction rest using List.reverseRecOn with
  | nil => simpa using hx
  | append_singleton rest name ih =>
    rw [← List.append_assoc] at hx
    exact ih (t.parent _ name (by rw [hx]; exact Option.some_ne_none _))

theorem missing_below {t : FileTree} {x : Location} (hx : t.kind x ≠ some .directory) (name : Text) :
    t.kind (x ++ [name]) = none := by
  by_contra h
  exact hx (t.parent x name h)

def FileTree.makeDirectory (t : FileTree) (x : Location)
    (hx : t.kind x.dropLast = some .directory) : FileTree where
  kind := Function.update t.kind x (some .directory)
  root := by
    by_cases h : [] = x
    · rw [h, Function.update_self]
    · rw [Function.update_of_ne h, t.root]
  parent := by
    intro at_ name h
    by_cases hat : at_ = x
    · rw [hat, Function.update_self]
    · rw [Function.update_of_ne hat]
      by_cases hname : at_ ++ [name] = x
      · rwa [← hname, List.dropLast_concat] at hx
      · rw [Function.update_of_ne hname] at h
        exact t.parent at_ name h

/-- The tree as a process sees it: its working directory exists. -/
structure FileSystem extends FileTree where
  cwd : Location
  dot : kind cwd = some .directory

def FileSystem.makeDirectory (fs : FileSystem) (x : Location)
    (hx : fs.kind x.dropLast = some .directory) : FileSystem where
  toFileTree := fs.toFileTree.makeDirectory x hx
  cwd := fs.cwd
  dot := by
    by_cases h : fs.cwd = x
    · exact h ▸ Function.update_self ..
    · exact (Function.update_of_ne h _ _).trans fs.dot

def withoutSlashes (path : Text) : Text :=
  if path.rdropWhile (· = '/') = [] then path else path.rdropWhile (· = '/')

/-- The system call. Slashes at the end do not count. -/
def FileSystem.mkdir (fs : FileSystem) (permits : Location → Bool) (path : Text) :
    Except Errno FileSystem :=
  match fs.locate fs.cwd (withoutSlashes path) with
  | .error e => .error e
  | .ok x =>
    if fs.kind x ≠ none then .error .eexist
    else if hx : fs.kind x.dropLast = some .directory then
      if permits x then .ok (fs.makeDirectory x hx) else .error .eacces
    else .error .enoent

theorem mkdir_exists {fs : FileSystem} {permits : Location → Bool} {path : Text} {x : Location}
    (hpath : fs.locate fs.cwd (withoutSlashes path) = .ok x) (hx : fs.kind x ≠ none) :
    fs.mkdir permits path = .error .eexist := by
  simp only [FileSystem.mkdir, hpath, hx, if_true, ne_eq, not_false_eq_true]

theorem mkdir_new {fs : FileSystem} {permits : Location → Bool} {path : Text} {x : Location}
    {name : Text} (hpath : fs.locate fs.cwd (withoutSlashes path) = .ok (x ++ [name]))
    (hdir : fs.kind x = some .directory) (hx : fs.kind (x ++ [name]) = none)
    (hpermits : permits (x ++ [name])) :
    ∃ fs', fs.mkdir permits path = .ok fs' ∧ fs'.cwd = fs.cwd ∧
      fs'.kind = Function.update fs.kind (x ++ [name]) (some .directory) := by
  have hparent : fs.kind (x ++ [name]).dropLast = some .directory := by rwa [List.dropLast_concat]
  refine ⟨fs.makeDirectory (x ++ [name]) hparent, ?_, rfl, rfl⟩
  simp only [FileSystem.mkdir, hpath, hx, hparent, hpermits, ne_eq, not_true_eq_false, if_true,
    if_false, dite_true]

theorem locate_parent {t : FileTree} {cwd x : Location} {path : Text}
    (h : t.locate cwd path = .ok x) (hx : t.kind x ≠ some .directory) :
    t.kind x.dropLast = some .directory := by
  unfold FileTree.locate at h
  split at h
  · cases h
  · generalize (if path.head? = some '/' then ([] : Location) else cwd) = at_ at h
    obtain ⟨front, c, hsplit⟩ : ∃ front c, components path = front ++ [c] := by
      obtain ⟨front, c, hsplit⟩ := (List.eq_nil_or_concat _).resolve_left
        (List.splitOn_ne_nil '/' path)
      exact ⟨front, c, hsplit.trans (List.concat_eq_append ..)⟩
    rw [hsplit] at h
    have hdir := follow_front h
    have hend := follow_eq h
    rw [List.foldl_concat] at hend
    by_cases hc : NamesDirectory c
    · rw [hend] at hx
      exact absurd (enter_directory hdir hc) hx
    · rw [hend, enter_name hc, List.dropLast_concat]
      exact hdir

def FileTree.createFile (t : FileTree) (x : Location)
    (hx : t.kind x.dropLast = some .directory) (hfile : t.kind x ≠ some .directory) :
    FileTree where
  kind := Function.update t.kind x (some .file)
  root := by
    have hne : [] ≠ x := by
      rintro rfl
      exact hfile t.root
    rw [Function.update_of_ne hne, t.root]
  parent := by
    intro at_ name h
    have hat : at_ ++ [name] ≠ x → t.kind at_ = some .directory := by
      intro hne
      rw [Function.update_of_ne hne] at h
      exact t.parent at_ name h
    have hdir : t.kind at_ = some .directory := by
      by_cases hname : at_ ++ [name] = x
      · rwa [← hname, List.dropLast_concat] at hx
      · exact hat hname
    have hne : at_ ≠ x := by
      rintro rfl
      exact hfile hdir
    rw [Function.update_of_ne hne, hdir]

def FileSystem.createFile (fs : FileSystem) (x : Location) : FileSystem :=
  if h : fs.kind x.dropLast = some .directory ∧ fs.kind x ≠ some .directory then
    { toFileTree := fs.toFileTree.createFile x h.1 h.2
      cwd := fs.cwd
      dot := by
        have hne : fs.cwd ≠ x := by
          rintro rfl
          exact h.2 fs.dot
        exact (Function.update_of_ne hne _ _).trans fs.dot }
  else fs

theorem openForWriting_located {t : FileTree} {permits : Location → Bool} {cwd x : Location}
    {path : Text} (h : t.openForWriting permits cwd path = some x) :
    t.locate cwd path = .ok x ∧ t.kind x ≠ some .directory := by
  unfold FileTree.openForWriting at h
  split at h
  · cases h
  · next hx =>
    split at h
    · cases h
    · next hk =>
      split at h
      · obtain rfl := Option.some.inj h
        exact ⟨hx, hk⟩
      · cases h

theorem createFile_spec {fs : FileSystem} {permits : Location → Bool} {x : Location} {path : Text}
    (h : fs.openForWriting permits fs.cwd path = some x) :
    (fs.createFile x).cwd = fs.cwd ∧
      (fs.createFile x).kind = Function.update fs.kind x (some .file) ∧
      (fs.createFile x).locate fs.cwd path = .ok x := by
  obtain ⟨hx, hk⟩ := openForWriting_located h
  have hok : fs.kind x.dropLast = some .directory ∧ fs.kind x ≠ some .directory :=
    ⟨locate_parent hx hk, hk⟩
  have hkind : (fs.createFile x).kind = Function.update fs.kind x (some .file) := by
    rw [FileSystem.createFile, dif_pos hok]
    rfl
  refine ⟨by rw [FileSystem.createFile, dif_pos hok], hkind, ?_⟩
  have hmono : ∀ y, fs.kind y = some .directory → (fs.createFile x).kind y = some .directory := by
    intro y hy
    have hne : y ≠ x := by
      rintro rfl
      exact hk hy
    rw [hkind, Function.update_of_ne hne, hy]
  unfold FileTree.locate at hx ⊢
  split at hx
  · cases hx
  · next hpath =>
    rw [if_neg hpath]
    exact follow_mono hmono hx

theorem mkdir_ok {fs fs' : FileSystem} {permits : Location → Bool} {path : Text}
    (h : fs.mkdir permits path = .ok fs') :
    fs'.cwd = fs.cwd ∧ ∀ y, fs'.kind y ≠ fs.kind y →
      fs.kind y = none ∧ fs'.kind y = some .directory := by
  unfold FileSystem.mkdir at h
  split at h
  · cases h
  · next x hx =>
    split at h
    · cases h
    · next hnone =>
      split at h
      · next hparent =>
        split at h
        · obtain rfl := Except.ok.inj h
          refine ⟨rfl, fun y hy => ?_⟩
          have hyx : y = x := by
            by_contra hne
            exact hy (Function.update_of_ne hne _ _)
          subst hyx
          exact ⟨not_not.mp hnone, Function.update_self ..⟩
        · cases h
      · cases h

end FileTrees
