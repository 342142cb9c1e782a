import Sobby.PathCreation
import Sobby.SettingsRoundTrip
import Sobby.ServerStartup

/-! The configuration file on the disk. `--write-configfile` makes the way to the file and writes
it, and warns if it cannot, or cannot finish it; in any case the program exits as if all was well. A
later start reads the file with `--configfile` and puts its own options over it. -/
namespace ConfigFiles

open PathNames
open FileTrees
open PathCreation
open ConfigTree
open ServerSettings
open SettingsRoundTrip (configText_reread fallbackText_reread fallbackNumber_reread)
open ServerStartup (Environment Outcome Thrown create exitStatus)
open FolderAutosave (Files)
open Strings

/-- `document` tells what the parser makes of the file at a location: nothing if it is not well
formed, else a document, which may lack a root node. -/
structure Disk where
  fs : FileSystem
  document : Location → Option (Option Node)

/-- What becomes of a file that has been opened, and so emptied, to be written. What a failure
leaves of it the parser may read or not. -/
inductive Written where
  | finished
  | failed (left : Option (Option Node))

/-- What the operating system permits, its error texts, those of the XML library, and how a
document is read after it was written. -/
structure System where
  mayCreate : Location → Bool
  mayWrite : Location → Bool
  mayRead : Location → Bool
  write : Location → Written
  strerror : Errno → Text
  parseError : Text → Text
  writeError : Text → Text
  reread : Node → Node

def failedToLoad (sys : System) (file : Text) : Thrown :=
  .std ("Failed to load config file \"".toList ++ file ++ "\": ".toList ++ sys.parseError file)

/-- `Config::Config`, if there is a file to be read. -/
def readConfig (sys : System) (disk : Disk) (file : Text) :
    Except Thrown (Option ParentEntry) :=
  if file = [] then .ok none
  else
    match disk.fs.locate disk.fs.cwd (cString file) with
    | .error _ => .error (failedToLoad sys file)
    | .ok x =>
      if disk.fs.kind x = some .file ∧ sys.mayRead x = true then
        match disk.document x with
        | none => .error (failedToLoad sys file)
        | some root => .ok (some (load root))
      else .error (failedToLoad sys file)

/-- `write_to_file_formatted` -/
def writeDocument (sys : System) (disk : Disk) (file : Text) (root : Node) : Disk × Option Text :=
  match disk.fs.openForWriting sys.mayWrite disk.fs.cwd (cString file) with
  | none => (disk, some (sys.writeError file))
  | some x =>
    match sys.write x with
    | .finished =>
      (⟨disk.fs.createFile x, Function.update disk.document x (some (some (sys.reread root)))⟩, none)
    | .failed left =>
      (⟨disk.fs.createFile x, Function.update disk.document x left⟩, some (sys.writeError file))

def couldNotWrite (what : Text) : Text := "Could not write config file: ".toList ++ what

/-- `Config::save`, and the warning it prints instead of throwing. -/
def saveConfig (sys : System) (disk : Disk) (root : ParentEntry) (file : Text) :
    Disk × Option Text :=
  match createPathTo sys.mayCreate sys.strerror disk.fs (pathGetDirname file) with
  | (fs, some e) => ({ disk with fs := fs }, some (couldNotWrite e.message))
  | (fs, none) =>
    let r := writeDocument sys { disk with fs := fs } file (save root)
    (r.1, r.2.map couldNotWrite)

/-- What a start has come to when it ends, or when the main loop begins. -/
structure Invocation where
  disk : Disk
  outcome : Outcome
  warning : Option Text

/-- The program from its command line to the main loop. -/
def invoke (sys : System) (net6 : Net6) (p : Parser) (env : Environment) (disk : Disk)
    (files : Files) (configFileRead : Text) (o : Options) (args : List Text)
    (configFileWrite : Text) : Invocation :=
  let outcome := create net6 p env (fun x => disk.fs.kind x = some .directory) disk.fs.cwd files
    (readConfig sys disk configFileRead) o args configFileWrite
  match outcome with
  | .exits written =>
    let r := saveConfig sys disk written configFileWrite
    ⟨r.1, outcome, r.2⟩
  | _ => ⟨disk, outcome, none⟩

def Opens (sys : System) (disk : Disk) (file : Text) : Prop :=
  let r := createPathTo sys.mayCreate sys.strerror disk.fs (pathGetDirname file)
  r.2 = none ∧ r.1.openForWriting sys.mayWrite r.1.cwd (cString file) ≠ none

/-- The settings of a start that has the options `o` over the written settings `s`. -/
structure Carries (s : Settings) (o : Options) (s' : Settings) : Prop where
  texts : ∀ x, s'.text x =
    settled [] (o.text x) (if isWhiteSpace (s.text x) then x.default else s.text x)
  numbers : ∀ x, s'.number x = settled 0 (o.number x) (s.number x)

structure KeepsRest (disk disk' : Disk) (written : Location → Prop) : Prop where
  cwd : disk'.fs.cwd = disk.fs.cwd
  documents : ∀ y, ¬ written y → disk'.document y = disk.document y
  kinds : ∀ y, ¬ written y → disk'.fs.kind y ≠ disk.fs.kind y →
    disk.fs.kind y = none ∧ disk'.fs.kind y = some .directory

/-- Creating the way to a directory only adds directories, whether it succeeds or not. -/
theorem createPathTo_grows (permits : Location → Bool) (strerror : Errno → Text) (fs : FileSystem)
    (path : Text) : (createPathTo permits strerror fs path).1.cwd = fs.cwd ∧
      ∀ y, (createPathTo permits strerror fs path).1.kind y ≠ fs.kind y →
        fs.kind y = none ∧
          (createPathTo permits strerror fs path).1.kind y = some .directory := by
  induction path using createPathTo.induct permits strerror fs with
  | case1 path hdir =>
    rw [createPathTo, if_pos hdir]
    exact ⟨rfl, fun y hy => absurd rfl hy⟩
  | case2 path hdir fs' e hrun ih =>
    rw [createPathTo, if_neg hdir, hrun]
    rw [hrun] at ih
    exact ih
  | case3 path hdir fs' hrun ih =>
    rw [createPathTo, if_neg hdir, hrun]
    rw [hrun] at ih
    simp only [createDirectory]
    cases hmkdir : fs'.mkdir permits (cString path) with
    | error e => exact ih
    | ok fs'' =>
      obtain ⟨hcwd, hkinds⟩ := mkdir_ok hmkdir
      refine ⟨hcwd.trans ih.1, fun y hy => ?_⟩
      by_cases hsame : fs''.kind y = fs'.kind y
      · rw [hsame] at hy ⊢
        exact ih.2 y hy
      · obtain ⟨hnone, hdirectory⟩ := hkinds y hsame
        refine ⟨?_, hdirectory⟩
        by_contra hold
        have hkept : fs'.kind y = fs.kind y := by
          by_contra hne
          exact hold (ih.2 y hne).1
        exact hold (hkept.symm.trans hnone)

section Saving

variable {sys : System} {disk : Disk} {root : ParentEntry} {file : Text}

/-- What there is after a save: the file was not opened, or it was written to some end. -/
theorem saveConfig_cases :
    (¬ Opens sys disk file ∧ ∃ what, saveConfig sys disk root file =
      ({ disk with fs := (createPathTo sys.mayCreate sys.strerror disk.fs (pathGetDirname file)).1 },
        some (couldNotWrite what))) ∨
    (∃ x left warning, Opens sys disk file ∧
      (createPathTo sys.mayCreate sys.strerror disk.fs
        (pathGetDirname file)).1.openForWriting sys.mayWrite disk.fs.cwd (cString file) = some x ∧
      saveConfig sys disk root file =
        (⟨(createPathTo sys.mayCreate sys.strerror disk.fs (pathGetDirname file)).1.createFile x,
          Function.update disk.document x left⟩, warning) ∧
      (warning = none → left = some (some (sys.reread (save root))))) := by
  have hcwd := (createPathTo_grows sys.mayCreate sys.strerror disk.fs (pathGetDirname file)).1
  unfold saveConfig writeDocument Opens
  split
  · next fs e hrun =>
    rw [hrun]
    exact Or.inl ⟨by simp, _, rfl⟩
  · next fs hrun =>
    rw [hrun] at hcwd ⊢
    simp only at hcwd ⊢
    rw [hcwd]
    cases hopen : fs.openForWriting sys.mayWrite disk.fs.cwd (cString file) with
    | none => exact Or.inl ⟨by simp, _, rfl⟩
    | some x =>
      cases hwrite : sys.write x with
      | finished =>
        exact Or.inr ⟨x, _, none, by simp, rfl, by simp only [hwrite, Option.map_none],
          fun _ => rfl⟩
      | failed left =>
        exact Or.inr ⟨x, left, some (couldNotWrite (sys.writeError file)), by simp, rfl,
          by simp only [hwrite, Option.map_some], by simp⟩

theorem saveConfig_keeps :
    KeepsRest disk (saveConfig sys disk root file).1
      fun y => Opens sys disk file ∧ y = resolve disk.fs.cwd (cString file) := by
  obtain ⟨hcwd, hgrows⟩ :=
    createPathTo_grows sys.mayCreate sys.strerror disk.fs (pathGetDirname file)
  obtain ⟨_, what, hsave⟩ | ⟨x, left, warning, hopens, hopen, hsave, _⟩ :=
    @saveConfig_cases sys disk root file
  · rw [hsave]
    exact ⟨hcwd, fun _ _ => rfl, fun y _ => hgrows y⟩
  · rw [hsave]
    have hx : x = resolve disk.fs.cwd (cString file) := (openForWriting_some hopen).1
    rw [← hcwd] at hopen
    obtain ⟨hcwd', hkind, _⟩ := createFile_spec hopen
    have hother : ∀ y, ¬ (Opens sys disk file ∧ y = resolve disk.fs.cwd (cString file)) →
        y ≠ x := by
      rintro y hy rfl
      exact hy ⟨hopens, hx⟩
    refine ⟨hcwd'.trans hcwd, fun y hy => Function.update_of_ne (hother y hy) _ _,
      fun y hy hne => ?_⟩
    simp only [hkind, Function.update_of_ne (hother y hy)] at hne ⊢
    exact hgrows y hne

theorem readConfig_saveConfig (hfile : file ≠ []) (hsaved : (saveConfig sys disk root file).2 = none)
    (hread : sys.mayRead (resolve disk.fs.cwd (cString file)) = true) :
    readConfig sys (saveConfig sys disk root file).1 file =
      .ok (some (load (some (sys.reread (save root))))) := by
  have hcwd := (createPathTo_grows sys.mayCreate sys.strerror disk.fs (pathGetDirname file)).1
  obtain ⟨_, what, hsave⟩ | ⟨x, left, warning, _, hopen, hsave, hwhole⟩ :=
    @saveConfig_cases sys disk root file
  · rw [hsave] at hsaved
    cases hsaved
  · rw [hsave] at hsaved
    obtain rfl := hwhole hsaved
    rw [hsave]
    have hx : x = resolve disk.fs.cwd (cString file) := (openForWriting_some hopen).1
    rw [← hcwd] at hopen
    obtain ⟨hcwd', hkind, hlocate⟩ := createFile_spec hopen
    rw [← hcwd'] at hlocate
    have hmay : sys.mayRead x = true := hx ▸ hread
    simp only [readConfig, hfile, if_false, hlocate, hkind, Function.update_self, hmay, and_self,
      if_true]

end Saving

theorem reread_carries {net6 : Net6} (hk : KeepsText net6) (hi : InvertsNumbers net6)
    {s : Settings} {read : Node} (hr : Rereads (save (writtenConfig net6 s)) read) (p : Parser)
    (o : Options) : ∃ s', effective net6 p (some (load (some read))) o = .ok s' ∧ Carries s o s' := by
  obtain ⟨s', hs'⟩ := effective_exists hk p o fun x => ⟨_, fallbackNumber_reread hi hr x⟩
  obtain ⟨htext, hnumber⟩ := effective_ok hk hs'
  refine ⟨s', hs', fun x => ?_, fun x => ?_⟩
  · rw [htext, fallbackText_reread hk hr]
  · obtain ⟨fallback, hf, hx⟩ := hnumber x
    rw [fallbackNumber_reread hi hr] at hf
    obtain rfl := Except.ok.inj hf
    exact hx

theorem create_writes (net6 : Net6) (p : Parser) (env : Environment) (isDirectory : Location → Bool)
    (cwd : Location) (files : Files) (config : Except Thrown (Option ParentEntry)) (o : Options)
    (args : List Text) {file : Text} (hfile : file ≠ []) :
    (∃ e, create net6 p env isDirectory cwd files config o args file = .fails e) ∨
    ∃ c s, config = .ok c ∧ effective net6 p c { o with session := args.head? } = .ok s ∧
      create net6 p env isDirectory cwd files config o args file =
        .exits (writtenConfig net6 s) := by
  unfold create
  cases config with
  | error e => exact Or.inl ⟨e, rfl⟩
  | ok c =>
    cases hs : effective net6 p c { o with session := args.head? } with
    | error what => exact Or.inl ⟨.std what, by simp only [hs]⟩
    | ok s => exact Or.inr ⟨c, s, rfl, hs, by simp only [hs, hfile, if_false]⟩

def onlyRoot : Location → Option Kind
  | [] => some .directory
  | _ :: _ => none

theorem onlyRoot_parent (at_ : Location) (name : Text) (h : onlyRoot (at_ ++ [name]) ≠ none) :
    onlyRoot at_ = some .directory := by
  cases at_ with
  | nil => rfl
  | cons _ _ => exact absurd rfl h

def emptyTree : FileTree := ⟨onlyRoot, rfl, onlyRoot_parent⟩

def emptyDisk : Disk := ⟨⟨emptyTree, [], rfl⟩, fun _ => none⟩

def permissive (s : Settings) : System where
  mayCreate _ := true
  mayWrite _ := true
  mayRead _ := true
  write _ := .finished
  strerror _ := []
  parseError _ := []
  writeError _ := []
  reread _ := SettingsRoundTrip.readBack s

def offline : Environment := ⟨fun _ _ => .session [], fun _ => .ok (), fun _ => .ok [], fun _ => true⟩

theorem plain_save_is_quiet (s : Settings) (root : ParentEntry) :
    (saveConfig (permissive s) emptyDisk root "sobby.conf".toList).2 = none := by
  have hdir : pathGetDirname "sobby.conf".toList = ['.'] := by decide
  have hway : createPathTo (permissive s).mayCreate (permissive s).strerror emptyDisk.fs ['.'] =
      (emptyDisk.fs, none) := by
    have hstop : cString ['.'] = ['.'] := rfl
    rw [createPathTo, if_pos (hstop ▸ isDirectory_dot emptyDisk.fs)]
  rw [saveConfig, hdir, hway]
  rfl

end ConfigFiles
