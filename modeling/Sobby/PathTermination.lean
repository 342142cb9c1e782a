import Sobby.CallChains
import Sobby.PathCreation

/-! `create_path_to` on any file system, links and all, with the paths of its calls. Nothing but
the file test ends the recursion: the root and the working directory are cut to themselves. -/
namespace PathTermination

open Strings
open PathNames
open FileTrees
open PathCreation (Error wayLength)
open CallChains

/-- What the function uses of the system: `Glib::file_test` for directories, and `mkdir` with the
text of `strerror` when it fails. -/
structure System (σ : Type*) where
  fileTest : σ → Text → Bool
  mkdir : σ → Text → Except Text σ

variable {σ : Type*} {sys : System σ} {s : σ}

def System.createDirectory (sys : System σ) (s : σ) (path : Text) : σ × Option Error :=
  match sys.mkdir s path with
  | .ok s => (s, none)
  | .error what =>
    (s, some ⟨.pathCreationFailed,
      "Could not create directory ".toList ++ path ++ ": ".toList ++ what⟩)

/-- With the calls that fuel allows. Their paths come back with the result. -/
def createPathTo (sys : System σ) : ℕ → σ → Text → Option (List Text × σ × Option Error)
  | 0, _, _ => none
  | fuel + 1, s, path =>
    if sys.fileTest s (cString path) then some ([path], s, none)
    else
      match createPathTo sys fuel s (pathGetDirname path) with
      | none => none
      | some (calls, s, some e) => some (path :: calls, s, some e)
      | some (calls, s, none) => some (path :: calls, sys.createDirectory s (cString path))

def nested (sys : System σ) (s : σ) (path : Text) : Option Text :=
  if sys.fileTest s (cString path) then none else some (pathGetDirname path)

structure RootsAreDirectories (sys : System σ) (s : σ) : Prop where
  root : sys.fileTest s ['/']
  dot : sys.fileTest s ['.']

theorem nested_none {path : Text} (h : nested sys s path = none) :
    sys.fileTest s (cString path) = true := by
  unfold nested at h
  split at h
  · next htest => exact htest
  · cases h

theorem nested_some {path next : Text} (h : nested sys s path = some next) :
    ¬ sys.fileTest s (cString path) = true ∧ next = pathGetDirname path := by
  unfold nested at h
  split at h
  · cases h
  · next htest => exact ⟨htest, (Option.some.inj h).symm⟩

/-- Every nested call has less of the way before it. -/
theorem nested_descends (hs : RootsAreDirectories sys s) : Descends (nested sys s) wayLength := by
  intro path next h
  obtain ⟨htest, rfl⟩ := nested_some h
  apply PathCreation.wayLength_cut
  · intro hdot
    rw [hdot] at htest
    exact htest hs.dot
  · intro hroot
    rw [hroot] at htest
    exact htest hs.root

/-- Fuel for its calls is all the fuel the recursion needs. -/
theorem createPathTo_returns {path : Text} {calls : List Text}
    (h : Calls (nested sys s) path calls) :
    ∃ result, ∀ fuel ≥ calls.length, createPathTo sys fuel s path = some (calls, result) := by
  induction h with
  | @last path hnone =>
    refine ⟨(s, none), fun fuel hfuel => ?_⟩
    rw [List.length_singleton] at hfuel
    obtain ⟨fuel, rfl⟩ := Nat.exists_eq_add_one.mpr hfuel
    rw [createPathTo, if_pos (nested_none hnone)]
  | @call path next calls hsome _ ih =>
    obtain ⟨htest, rfl⟩ := nested_some hsome
    obtain ⟨⟨s', e⟩, ih⟩ := ih
    refine ⟨match e with
      | some e => (s', some e)
      | none => sys.createDirectory s' (cString path), fun fuel hfuel => ?_⟩
    rw [List.length_cons] at hfuel
    obtain ⟨fuel, rfl⟩ := Nat.exists_eq_add_one.mpr (Nat.zero_lt_of_lt hfuel)
    rw [createPathTo, if_neg htest, ih fuel (by omega)]
    cases e with
    | none => rfl
    | some e => rfl

theorem calls_fit (hs : RootsAreDirectories sys s) {path : Text} {calls : List Text}
    (h : Calls (nested sys s) path calls) : calls.length ≤ path.length + 2 := by
  have hlength := calls_length_le (nested_descends hs) h
  have hway := PathCreation.wayLength_le path
  omega

/-- `create_path_to` returns, whatever the path, and no two of its calls are about one path. -/
theorem create_path_to_terminates (sys : System σ) (s : σ) (hs : RootsAreDirectories sys s)
    (path : Text) :
    ∃ calls result,
      (∀ fuel ≥ path.length + 2, createPathTo sys fuel s path = some (calls, result)) ∧
      Calls (nested sys s) path calls ∧ calls.Nodup := by
  have hdescends := nested_descends hs
  obtain ⟨calls, hcalls⟩ := exists_calls hdescends path
  obtain ⟨result, hresult⟩ := createPathTo_returns hcalls
  refine ⟨calls, result, fun fuel hfuel => ?_, hcalls, calls_nodup hdescends hcalls⟩
  exact hresult fuel ((calls_fit hs hcalls).trans hfuel)

section Trees

variable (permits : Location → Bool) (strerror : Errno → Text)

def treeSystem : System FileSystem where
  fileTest fs path := fs.isDirectory fs.cwd path
  mkdir fs path := (fs.mkdir permits path).mapError strerror

theorem treeSystem_roots (fs : FileSystem) :
    RootsAreDirectories (treeSystem permits strerror) fs :=
  ⟨PathCreation.isDirectory_root fs, PathCreation.isDirectory_dot fs⟩

theorem createDirectory_tree (fs : FileSystem) (path : Text) :
    (treeSystem permits strerror).createDirectory fs path =
      PathCreation.createDirectory permits strerror fs path := by
  unfold System.createDirectory PathCreation.createDirectory
  cases hmkdir : fs.mkdir permits path with
  | ok fs' => simp [treeSystem, hmkdir, Except.mapError]
  | error e => simp [treeSystem, hmkdir, Except.mapError]

theorem createPathTo_tree {fuel : ℕ} {fs : FileSystem} {path : Text} {calls : List Text}
    {result : FileSystem × Option Error}
    (h : createPathTo (treeSystem permits strerror) fuel fs path = some (calls, result)) :
    result = PathCreation.createPathTo permits strerror fs path := by
  induction fuel generalizing path calls result with
  | zero => cases h
  | succ fuel ih =>
    rw [createPathTo] at h
    rw [PathCreation.createPathTo]
    split at h
    · next htest =>
      obtain ⟨_, rfl⟩ := Prod.mk.inj (Option.some.inj h)
      exact (if_pos htest).symm
    · next htest =>
      have hdir : ¬ fs.isDirectory fs.cwd (cString path) = true := htest
      rw [if_neg hdir]
      split at h
      · cases h
      · next hnested =>
        rw [← ih hnested]
        exact (Prod.mk.inj (Option.some.inj h)).2.symm
      · next hnested =>
        obtain ⟨_, rfl⟩ := Prod.mk.inj (Option.some.inj h)
        rw [← ih hnested]
        exact createDirectory_tree permits strerror _ _

theorem createPathTo_fueled (fs : FileSystem) (path : Text) :
    ∃ calls, createPathTo (treeSystem permits strerror) (path.length + 2) fs path =
      some (calls, PathCreation.createPathTo permits strerror fs path) := by
  have hroots := treeSystem_roots permits strerror fs
  obtain ⟨calls, hcalls⟩ := exists_calls (nested_descends hroots) path
  obtain ⟨result, hresult⟩ := createPathTo_returns hcalls
  have hreturns := hresult _ (calls_fit hroots hcalls)
  refine ⟨calls, ?_⟩
  rw [← createPathTo_tree permits strerror hreturns]
  exact hreturns

end Trees

/-- The calls for a path with repeated and trailing slashes, where nothing is there yet. -/
theorem sobby_calls :
    ∃ result, ∀ fuel ≥ 13, createPathTo (treeSystem (fun _ => true) PathCreation.messages) fuel
      PathCreation.bareRoot "etc//sobby/".toList =
        some (["etc//sobby/".toList, "etc//sobby".toList, "etc".toList, ".".toList], result) := by
  obtain ⟨calls, result, hreturns, _⟩ := create_path_to_terminates
    (treeSystem (fun _ => true) PathCreation.messages) PathCreation.bareRoot
    (treeSystem_roots _ _ _) "etc//sobby/".toList
  have hcalls : (createPathTo (treeSystem (fun _ => true) PathCreation.messages) 13
      PathCreation.bareRoot "etc//sobby/".toList).map Prod.fst =
        some ["etc//sobby/".toList, "etc//sobby".toList, "etc".toList, ".".toList] := by decide
  rw [hreturns 13 le_rfl, Option.map_some, Option.some_inj] at hcalls
  subst hcalls
  exact ⟨result, hreturns⟩

end PathTermination
