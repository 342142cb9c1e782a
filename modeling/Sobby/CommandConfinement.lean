import Sobby.CommandMessages
import Sobby.FileTrees

/-! What the messages of clients can execute. The constructor registers `/command` only for a
configured directory, and the program is the base name of a parameter, looked up from there. -/
namespace CommandConfinement

open StepMachine
open PathNames
open FileTrees
open CommandOutput
open Strings (Text cString mem_cString)

inductive Handler where
  | onRemove
  | onCommand
  deriving DecidableEq, Repr

structure ServerCommand where
  name : Text
  desc : Text
  handler : Handler
  deriving DecidableEq, Repr

/-- The commands the constructor of `CommandExecuter` adds to the map of the server buffer. -/
def addedCommands (commandDir : Text) : List ServerCommand :=
  ⟨"remove".toList, "Removes a document from the session".toList, .onRemove⟩ ::
    if commandDir = [] then []
    else [⟨"command".toList, "Executes a command on the server".toList, .onCommand⟩]

def findCommand (commands : List ServerCommand) (name : Text) : Option Handler :=
  (commands.find? fun c => c.name = name).map ServerCommand.handler

inductive Event where
  | message (user name request : Text) (spawn : SpawnResult)
  | write (fd : Fd) (bytes : Text)
  | close (fd : Fd)
  | callback (io : IoConditions.GCondition) (fd : Fd) (read : ReadResult)
  deriving DecidableEq, Repr

/-- `on_remove` executes nothing, and neither does a command the server has not added. -/
def step (paramlist : Text → Except Text (List Text)) (w : World) : Event → Option World
  | .message user name request spawn =>
    match findCommand (addedCommands w.executer.commandDir) name with
    | some .onCommand => w.onCommand paramlist user request spawn
    | some .onRemove => some w
    | none => some w
  | .write fd bytes => w.write fd bytes
  | .close fd => w.close fd
  | .callback io fd read => w.callback io fd read

/-- The program a spawn without path search executes: the child enters the working directory, and
the name of the program is taken from there. Only a file can be executed. -/
def program (t : FileTree) (mayExecute : Location → Bool) (cwd : Location)
    (workingDirectory : Text) (argv : List Text) : Option Location :=
  if t.isDirectory cwd (cString workingDirectory) then
    match argv with
    | [] => none
    | file :: _ =>
      match t.locate (resolve cwd (cString workingDirectory)) (cString file) with
      | .error _ => none
      | .ok x => if t.kind x = some .file ∧ mayExecute x then some x else none
  else none

def AskedFor (paramlist : Text → Except Text (List Text)) (user request : Text)
    (argv : List Text) : Prop :=
  ∃ script params, paramlist request = .ok (script :: params) ∧
    argv = pathGetBasename script :: user :: params

/-- Asked of every state: what the next message of a client can execute, and that nothing has
been executed without a directory. -/
structure Confined (paramlist : Text → Except Text (List Text)) (t : FileTree)
    (mayExecute : Location → Bool) (cwd : Location) (commandDir : Text) (w : World) : Prop where
  messages : ∀ user name request spawn w',
    step paramlist w (.message user name request spawn) = some w' →
      ∀ dir argv fd, w'.trace = .spawned dir argv fd :: w.trace →
        commandDir ≠ [] ∧ dir = commandDir ∧ AskedFor paramlist user request argv ∧
        ∀ x, program t mayExecute cwd dir argv = some x →
          DirectChild (resolve cwd (cString commandDir)) x
  unconfigured : commandDir = [] → ∀ dir argv fd, .spawned dir argv fd ∉ w.trace

theorem findCommand_onCommand {commandDir name : Text}
    (h : findCommand (addedCommands commandDir) name = some .onCommand) : commandDir ≠ [] := by
  rintro rfl
  obtain ⟨c, hc, hhandler⟩ := Option.map_eq_some_iff.mp h
  have hmem := List.mem_of_find?_eq_some hc
  simp only [addedCommands, if_true, List.mem_singleton] at hmem
  rw [hmem] at hhandler
  cases hhandler

theorem program_some {t : FileTree} {mayExecute : Location → Bool} {cwd x : Location}
    {dir file : Text} {args : List Text}
    (h : program t mayExecute cwd dir (file :: args) = some x) :
    t.kind (resolve cwd (cString dir)) = some .directory ∧
      x = resolve (resolve cwd (cString dir)) (cString file) ∧ t.kind x = some .file := by
  unfold program at h
  split at h
  · next hdir =>
    simp only at h
    split at h
    · cases h
    · next hx =>
      split at h
      · next hfile =>
        obtain rfl := Option.some.inj h
        exact ⟨isDirectory_resolve hdir, locate_eq hx, hfile.1⟩
      · cases h
  · cases h

theorem basename_is_child {t : FileTree} {mayExecute : Location → Bool} {cwd x : Location}
    {dir script : Text} {args : List Text}
    (h : program t mayExecute cwd dir (pathGetBasename script :: args) = some x) :
    DirectChild (resolve cwd (cString dir)) x := by
  obtain ⟨hdir, rfl, hfile⟩ := program_some h
  rcases pathGetBasename_cases script with hroot | hslash
  · -- a path of slashes names the root
    have hx : resolve (resolve cwd (cString dir)) (cString (pathGetBasename script)) = [] := by
      rw [hroot]
      rfl
    rw [hx, t.root] at hfile
    cases hfile
  · have hslash' : '/' ∉ cString (pathGetBasename script) := fun hm => hslash (mem_cString hm)
    rw [resolve_name hslash'] at hfile ⊢
    refine (enter_cases hdir hslash').resolve_right ?_
    rw [hfile]
    decide

structure Serving (commandDir : Text) (w : World) : Prop where
  configured : w.executer.commandDir = commandDir
  unconfigured : commandDir = [] → ∀ dir argv fd, .spawned dir argv fd ∉ w.trace

theorem serving_other {commandDir : Text} {w w' : World} (hw : Serving commandDir w)
    (hdir : w'.executer.commandDir = w.executer.commandDir)
    (htrace : ∀ dir argv fd, .spawned dir argv fd ∈ w'.trace → .spawned dir argv fd ∈ w.trace) :
    Serving commandDir w' where
  configured := hdir.trans hw.configured
  unconfigured := fun h dir argv fd hmem => hw.unconfigured h dir argv fd (htrace dir argv fd hmem)

theorem message_cases {paramlist : Text → Except Text (List Text)} {w w' : World}
    {user name request : Text} {spawn : SpawnResult}
    (h : step paramlist w (.message user name request spawn) = some w') :
    w' = w ∨ (∃ message, w' = w.send message) ∨
    (∃ script params outFd, w.executer.commandDir ≠ [] ∧ paramlist request = .ok (script :: params) ∧
      w' = w.launched outFd (commandArgv user script params)) := by
  simp only [step] at h
  split at h
  · next hfind =>
    obtain ⟨message, rfl⟩ | ⟨script, params, outFd, hlist, _, _, rfl⟩ := onCommand_cases h
    · exact Or.inr (Or.inl ⟨message, rfl⟩)
    · exact Or.inr (Or.inr ⟨script, params, outFd, findCommand_onCommand hfind, hlist, rfl⟩)
  · exact Or.inl (Option.some.inj h).symm
  · exact Or.inl (Option.some.inj h).symm

theorem serving_step (paramlist : Text → Except Text (List Text)) (commandDir : Text) (w : World)
    (e : Event) (w' : World) (hw : Serving commandDir w) (h : step paramlist w e = some w') :
    Serving commandDir w' := by
  cases e with
  | message user name request spawn =>
    obtain rfl | ⟨message, rfl⟩ | ⟨script, params, outFd, hdir, _, rfl⟩ := message_cases h
    · exact hw
    · exact serving_other hw rfl (by simp [World.send])
    · refine ⟨hw.configured, fun hempty => ?_⟩
      exact absurd (hw.configured.trans hempty) hdir
  | write fd bytes =>
    obtain ⟨p, _, rfl⟩ := write_cases h
    exact serving_other hw rfl fun _ _ _ hmem => hmem
  | close fd =>
    obtain ⟨p, _, rfl⟩ := close_cases h
    exact serving_other hw rfl fun _ _ _ hmem => hmem
  | callback io fd read =>
    obtain ⟨p, _, _, ⟨_, _, rfl⟩ | ⟨_, rfl⟩ | ⟨chunk, _, _, _, _, rfl⟩⟩ := callback_cases h
    · exact hw
    · exact serving_other hw rfl (by simp [World.finished])
    · exact serving_other hw rfl (by simp [World.stored])

/-- Only a message can start a program. -/
theorem pipes_spawn_nothing {paramlist : Text → Except Text (List Text)} {w w' : World} {e : Event}
    (h : step paramlist w e = some w')
    (he : ∀ user name request spawn, e ≠ .message user name request spawn) {dir : Text}
    {argv : List Text} {fd : Fd} (hmem : .spawned dir argv fd ∈ w'.trace) :
    .spawned dir argv fd ∈ w.trace := by
  cases e with
  | message user name request spawn => exact absurd rfl (he user name request spawn)
  | write fd bytes =>
    obtain ⟨p, _, rfl⟩ := write_cases h
    exact hmem
  | close fd =>
    obtain ⟨p, _, rfl⟩ := close_cases h
    exact hmem
  | callback io fd read =>
    obtain ⟨p, _, _, ⟨_, _, rfl⟩ | ⟨_, rfl⟩ | ⟨chunk, _, _, _, _, rfl⟩⟩ := callback_cases h
    · exact hmem
    · simpa [World.finished] using hmem
    · simpa [World.stored] using hmem

theorem Serving.confined {commandDir : Text} {w : World} (hw : Serving commandDir w)
    (paramlist : Text → Except Text (List Text)) (t : FileTree) (mayExecute : Location → Bool)
    (cwd : Location) : Confined paramlist t mayExecute cwd commandDir w where
  messages := by
    intro user name request spawn w' h dir argv fd htrace
    obtain rfl | ⟨message, rfl⟩ | ⟨script, params, outFd, hdir, hlist, rfl⟩ := message_cases h
    · exact absurd htrace.symm (List.cons_ne_self _ _)
    · cases htrace
    · obtain ⟨hspawned, _⟩ := List.cons.inj htrace
      obtain ⟨rfl, rfl, rfl⟩ := Observation.spawned.inj hspawned
      refine ⟨hw.configured ▸ hdir, hw.configured, ⟨script, params, hlist, rfl⟩, ?_⟩
      intro x hx
      rw [hw.configured] at hx
      exact basename_is_child hx
  unconfigured := hw.unconfigured

/-- Whatever clients send, only programs of the command directory are executed, in that directory
and for the user who asked, and none if there is no directory. -/
theorem clients_execute_commands_only (paramlist : Text → Except Text (List Text))
    (commandDir : Text) (t : FileTree) (mayExecute : Location → Bool) (cwd : Location)
    (es : List Event) :
    Always (step paramlist) (Confined paramlist t mayExecute cwd commandDir) (start commandDir)
      es := by
  have hstart : Serving commandDir (start commandDir) := ⟨rfl, fun _ _ _ _ h => by cases h⟩
  have hC : EveryStep (step paramlist) (fun _ _ => True) (start commandDir) es :=
    everyStep_of_forall fun _ _ _ => trivial
  have hI : Always (step paramlist) (Serving commandDir) (start commandDir) es :=
    always_of_invariant (fun w e w' hw _ h => serving_step paramlist commandDir w e w' hw h)
      hstart hC
  exact always_mono (fun _ hw => hw.confined paramlist t mayExecute cwd) hI

end CommandConfinement
