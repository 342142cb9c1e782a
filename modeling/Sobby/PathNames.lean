import Sobby.Strings

/-! File names: how glib joins them and where the system resolves them. Locations are lists of
components from the root; without symbolic links `..` is the parent of the location so far. -/
namespace PathNames

open Strings

abbrev Location := List Text

def components (path : Text) : Location := path.splitOn '/'

/-- `.` and the empty component stay, `..` goes up. These three name directories. -/
def NamesDirectory (c : Text) : Prop := c = [] ∨ c = ['.'] ∨ c = ['.', '.']

instance (c : Text) : Decidable (NamesDirectory c) :=
  inferInstanceAs (Decidable (_ ∨ _ ∨ _))

def enter (at_ : Location) (c : Text) : Location :=
  if c = [] ∨ c = ['.'] then at_ else if c = ['.', '.'] then at_.dropLast else at_ ++ [c]

def resolve (cwd : Location) (path : Text) : Location :=
  (components path).foldl enter (if path.head? = some '/' then [] else cwd)

/-- `Glib::build_filename` of a directory and one last part without slashes: exactly one
slash between them, and an empty last part is dropped. Both end at the first NUL. -/
def buildFilename (dir name : Text) : Text :=
  let dir := cString dir
  let name := cString name
  if name = [] then dir
  else if dir.rdropWhile (· == '/') = [] then dir ++ name
  else dir.rdropWhile (· == '/') ++ '/' :: name

theorem enter_name {c : Text} (hc : ¬ NamesDirectory c) (at_ : Location) :
    enter at_ c = at_ ++ [c] := by
  simp only [NamesDirectory, not_or] at hc
  simp [enter, hc.1, hc.2.1, hc.2.2]

theorem prefix_enter {at_ y : Location} {c : Text} (h : y <+: enter at_ c) :
    y <+: at_ ∨ y = enter at_ c := by
  unfold enter at h ⊢
  split at h
  · exact Or.inl h
  · split at h
    · exact Or.inl (h.trans (List.dropLast_prefix at_))
    · next hc hup =>
      rw [if_neg hc, if_neg hup]
      exact (List.prefix_concat_iff.mp h).symm

theorem components_join (a b : Text) :
    components (a ++ '/' :: b) = components a ++ components b :=
  List.splitOn_append_cons_self a b

theorem components_name {c : Text} (hc : '/' ∉ c) : components c = [c] :=
  List.splitOn_eq_singleton hc

theorem resolve_name {c : Text} (hc : '/' ∉ c) (cwd : Location) :
    resolve cwd c = enter cwd c := by
  have hhead : c.head? ≠ some '/' := fun h => hc (List.mem_of_mem_head? h)
  rw [resolve, if_neg hhead, components_name hc]
  rfl

theorem resolve_join {a : Text} (ha : a ≠ []) (cwd : Location) (b : Text) :
    resolve cwd (a ++ '/' :: b) = (components b).foldl enter (resolve cwd a) := by
  have hhead : (a ++ '/' :: b).head? = a.head? := by
    cases a with
    | nil => exact (ha rfl).elim
    | cons x a => rfl
  rw [resolve, resolve, hhead, components_join, List.foldl_append]

theorem enter_slashes {slashes : Text} (hs : ∀ x ∈ slashes, x = '/') (at_ : Location)
    (b : Text) : (components (slashes ++ b)).foldl enter at_ = (components b).foldl enter at_ := by
  induction slashes with
  | nil => rfl
  | cons x slashes ih =>
    obtain rfl : x = '/' := hs x (by simp)
    have hsplit : components ('/' :: (slashes ++ b)) = components [] ++ components (slashes ++ b) :=
      components_join [] (slashes ++ b)
    rw [List.cons_append, hsplit, List.foldl_append]
    exact ih fun y hy => hs y (by simp [hy])

theorem resolve_slashes_join {slashes : Text} (hs : ∀ x ∈ slashes, x = '/') (hne : slashes ≠ [])
    (cwd : Location) (b : Text) : resolve cwd (slashes ++ b) = (components b).foldl enter [] := by
  cases slashes with
  | nil => exact (hne rfl).elim
  | cons x slashes =>
    have hhead : (x :: slashes ++ b).head? = some '/' := by simp [hs x (by simp)]
    rw [resolve, if_pos hhead, enter_slashes hs]

theorem resolve_rdropWhile {dir : Text} (hne : dir.rdropWhile (· == '/') ≠ [])
    (cwd : Location) : resolve cwd (dir.rdropWhile (· == '/')) = resolve cwd dir := by
  induction dir using List.reverseRecOn with
  | nil => rfl
  | append_singleton l x ih =>
    by_cases hx : x = '/'
    · subst hx
      rw [List.rdropWhile_concat_pos _ _ _ (by simp)] at hne ⊢
      have hl : l ≠ [] := by
        rintro rfl
        simp at hne
      rw [ih hne, resolve_join hl]
      simp [components, enter]
    · rw [List.rdropWhile_concat_neg _ _ _ (by simpa using hx)]

/-- A last part without slashes is entered from the directory it is joined to. -/
theorem enter_buildFilename {name : Text} (hslash : '/' ∉ cString name)
    (hne : cString name ≠ []) (cwd : Location) (dir : Text) :
    resolve cwd (buildFilename dir name) = enter (resolve cwd (cString dir)) (cString name) := by
  have hlast : components (cString name) = [cString name] := components_name hslash
  unfold buildFilename
  simp only [hne, ↓reduceIte]
  split
  · next hbase =>
    have hs : ∀ x ∈ cString dir, x = '/' := by simpa using hbase
    by_cases hdir : cString dir = []
    · -- an empty directory leaves a relative name
      rw [hdir, List.nil_append, resolve_name hslash]
      rfl
    · have hroot : resolve cwd (cString dir) = [] := by
        simpa [components, enter] using resolve_slashes_join hs hdir cwd []
      rw [resolve_slashes_join hs hdir, hlast, hroot]
      rfl
  · next hbase =>
    rw [resolve_join hbase, hlast, resolve_rdropWhile hbase]
    rfl

theorem resolve_buildFilename {name : Text} (hslash : '/' ∉ cString name)
    (hname : ¬ NamesDirectory (cString name)) (cwd : Location) (dir : Text) :
    resolve cwd (buildFilename dir name) = resolve cwd (cString dir) ++ [cString name] := by
  have hne : cString name ≠ [] := fun h => hname (Or.inl h)
  rw [enter_buildFilename hslash hne, enter_name hname]

theorem buildFilename_empty {name : Text} (h : cString name = []) (dir : Text) :
    buildFilename dir name = cString dir := by
  simp only [buildFilename, h, if_true]

/-- `Glib::path_get_basename` -/
def pathGetBasename (fileName : Text) : Text :=
  if cString fileName = [] then ['.']
  else
    let base := (cString fileName).rdropWhile (· = '/')
    if base = [] then ['/'] else base.rtakeWhile (· ≠ '/')

theorem pathGetBasename_cases (fileName : Text) :
    pathGetBasename fileName = ['/'] ∨ '/' ∉ pathGetBasename fileName := by
  unfold pathGetBasename
  split
  · exact Or.inr (by decide)
  · simp only
    split
    · exact Or.inl rfl
    · refine Or.inr fun h => ?_
      have hlast := List.mem_rtakeWhile_imp h
      simp at hlast

def origin (cwd : Location) (path : Text) : Location :=
  if path.head? = some '/' then [] else cwd

def names (path : Text) : List Text := (components path).filter (· ≠ [])

theorem foldl_names (cs : List Text) (at_ : Location) :
    (cs.filter (· ≠ [])).foldl enter at_ = cs.foldl enter at_ := by
  induction cs generalizing at_ with
  | nil => rfl
  | cons c cs ih =>
    by_cases hc : c = []
    · subst hc
      exact ih at_
    · rw [List.filter_cons_of_pos (by simpa using hc)]
      exact ih (enter at_ c)

theorem resolve_names (cwd : Location) (path : Text) :
    resolve cwd path = (names path).foldl enter (origin cwd path) :=
  (foldl_names (components path) (origin cwd path)).symm

theorem names_join (a b : Text) : names (a ++ '/' :: b) = names a ++ names b := by
  rw [names, components_join, List.filter_append]
  rfl

theorem names_name {c : Text} (hc : '/' ∉ c) (hne : c ≠ []) : names c = [c] := by
  rw [names, components_name hc, List.filter_singleton]
  simp [hne]

theorem names_rdropWhile (path : Text) : names (path.rdropWhile (· = '/')) = names path := by
  induction path using List.reverseRecOn with
  | nil => rfl
  | append_singleton l x ih =>
    by_cases hx : x = '/'
    · subst hx
      rw [List.rdropWhile_concat_pos _ _ _ (by simp), ih, names_join, names, names]
      simp [components]
    · rw [List.rdropWhile_concat_neg _ _ _ (by simpa using hx)]

/-- `Glib::path_get_dirname` -/
def pathGetDirname (fileName : Text) : Text :=
  if '/' ∈ cString fileName then
    let dir := ((cString fileName).rdropWhile (· ≠ '/')).rdropWhile (· = '/')
    if dir = [] then ['/'] else dir
  else ['.']

/-- What is left of a path when its last component is cut: not empty, without NUL, and no slash
at the end but for the root. -/
structure Trimmed (path : Text) : Prop where
  nonempty : path ≠ []
  nul : '\x00' ∉ path
  slash : ∀ front, path = front ++ ['/'] → front = []

theorem last_of_rdropWhile {p : Char → Bool} {path front : Text} {x : Char}
    (h : path.rdropWhile p = front ++ [x]) : ¬ p x := by
  have hne : path.rdropWhile p ≠ [] := by simp [h]
  have hlast := List.rdropWhile_last_not p path hne
  simpa [h] using hlast

theorem trimmed_dot : Trimmed ['.'] := by
  refine ⟨by decide, by decide, fun front h => ?_⟩
  have hlast := congrArg List.getLast? h
  simp at hlast

theorem trimmed_root : Trimmed ['/'] := by
  refine ⟨by decide, by decide, fun front h => ?_⟩
  exact ((List.append_eq_singleton_iff.mp h.symm).resolve_right (by simp)).1

theorem trimmed_dirname (path : Text) : Trimmed (pathGetDirname path) := by
  unfold pathGetDirname
  split
  · simp only
    split
    · exact trimmed_root
    · next hne =>
      refine ⟨hne, fun hm => nul_not_mem_cString path ?_, fun front hfront => ?_⟩
      · exact (List.rdropWhile_prefix _ _).subset ((List.rdropWhile_prefix _ _).subset hm)
      · exact absurd (last_of_rdropWhile hfront) (by simp)
  · exact trimmed_dot

theorem trimmed_components {path : Text} (h : Trimmed path) (hroot : path ≠ ['/'])
    (front : List Text) : components path ≠ front ++ [[]] := by
  intro hcs
  cases hpos : rfind path '/' with
  | none =>
    rw [components_name (rfind_none hpos)] at hcs
    have hlast : path = [] := by simpa using congrArg List.getLast? hcs
    exact h.nonempty hlast
  | some pos =>
    obtain ⟨before, last, rfl, _, hlast⟩ := rfind_some hpos
    rw [components_join, components_name hlast] at hcs
    obtain rfl := (List.append_singleton_inj.mp hcs).2
    exact hroot (by rw [h.slash before rfl]; rfl)

theorem dirname_append {front last : Text} (hlast : '/' ∉ last)
    (hnul : '\x00' ∉ front ++ '/' :: last) :
    pathGetDirname (front ++ '/' :: last) =
      if front.rdropWhile (· = '/') = [] then ['/'] else front.rdropWhile (· = '/') := by
  have hcut : (front ++ '/' :: last).rdropWhile (· ≠ '/') = front ++ ['/'] := by
    clear hnul
    induction last using List.reverseRecOn with
    | nil => exact List.rdropWhile_concat_neg _ _ _ (by simp)
    | append_singleton l x ih =>
      rw [← List.cons_append, ← List.append_assoc, List.rdropWhile_concat_pos]
      · exact ih fun h => hlast (by simp [h])
      · have hx : x ≠ '/' := fun h => hlast (by simp [h])
        simpa using hx
  rw [pathGetDirname, cString_self hnul, if_pos (by simp), hcut,
    List.rdropWhile_concat_pos _ _ _ (by simp)]

theorem dirname_cases {path : Text} (h : Trimmed path) (hroot : path ≠ ['/']) (cwd : Location) :
    (pathGetDirname path = ['.'] ∧ origin cwd path = cwd ∧ ∃ c, names path = [c]) ∨
      (origin cwd path = origin cwd (pathGetDirname path) ∧
        ∃ c, names path = names (pathGetDirname path) ++ [c]) := by
  cases hpos : rfind path '/' with
  | none =>
    have hslash : '/' ∉ path := rfind_none hpos
    refine Or.inl ⟨?_, ?_, path, names_name hslash h.nonempty⟩
    · rw [pathGetDirname, cString_self h.nul, if_neg hslash]
    · exact if_neg fun hhead => hslash (List.mem_of_mem_head? hhead)
  | some pos =>
    obtain ⟨front, last, rfl, _, hlast⟩ := rfind_some hpos
    have hne : last ≠ [] := by
      rintro rfl
      exact hroot (by rw [h.slash front rfl]; rfl)
    right
    rw [dirname_append hlast h.nul, names_join, names_name hlast hne]
    split
    · next hfront =>
      refine ⟨?_, last, ?_⟩
      · have hhead : (front ++ '/' :: last).head? = some '/' := by
          cases front with
          | nil => rfl
          | cons x front =>
            have hx : x = '/' := by simpa using List.rdropWhile_eq_nil_iff.mp hfront x (by simp)
            rw [hx]
            rfl
        rw [origin, if_pos hhead]
        rfl
      · rw [← names_rdropWhile front, hfront]
        rfl
    · next hfront =>
      refine ⟨?_, last, by rw [names_rdropWhile]⟩
      obtain ⟨slashes, hsplit⟩ := List.rdropWhile_prefix (fun x : Char => decide (x = '/')) front
      have hhead : (front ++ '/' :: last).head? = (front.rdropWhile (· = '/')).head? := by
        obtain ⟨x, rest, hx⟩ := List.exists_cons_of_ne_nil hfront
        rw [hx] at hsplit ⊢
        rw [← hsplit]
        rfl
      rw [origin, origin, hhead]

end PathNames
