import Sobby.ConsoleSession
import Sobby.CommandConfinement
import Sobby.DiskFootprint

/-! The server as a whole: the network, the savers with their hook, the commands of the clients and
the console share one main loop, and signals come between. What clients send reaches the session, the
files of the savers and the programs of the command directory, and nothing else. -/
namespace WholeServer

open StepMachine
open PathNames
open FileTrees
open SessionBuffer
open Strings (Text cString)
open CommandOutput (SpawnResult ReadResult Fd)
open CommandConfinement (Handler addedCommands findCommand program AskedFor Serving)
open ConsoleInput (firstWord)
open DiskFootprint (Given Configured)
open SavedFiles (Connected)
open ServerSaves (Server AutosaveSettings)

/-- What the session makes of the texts of a client: the list of the parameters of a command, and
the document a parameter names. -/
structure Obby where
  paramlist : Text → Except Text (List Text)
  fromString : ServerBuffer → Text → Option DocumentInfo
  found : ∀ b text d, fromString b text = some d → d ∈ b.documents

inductive CommandResult where
  | reply (text : Text)
  | noReply
  | threw (what : Text)
  deriving DecidableEq, Repr

/-- `CommandExecuter::on_remove`. The list is made before the handler begins to catch. -/
def onRemove (o : Obby) (s : Server) (request : Text) : Option (CommandResult × Server) :=
  match o.paramlist request with
  | .error what => some (.threw what, s)
  | .ok [] => some (.reply "no_doc_given".toList, s)
  | .ok (value :: _) =>
    match o.fromString s.buffer value with
    | none => some (.reply "doc_not_found".toList, s)
    | some d => (s.remove d).map fun s => (.noReply, s)

/-- The results, and the arguments of the hooks that saves have started, are newest first. -/
structure World where
  main : ServerShutdown.World
  commands : CommandOutput.World
  console : ConsoleSession.World
  results : List CommandResult
  launches : List (List Text)

structure Setup where
  settings : AutosaveSettings
  isDirectory : Location → Bool
  cwd : Location
  buffer : ServerBuffer
  files : FolderAutosave.Files
  commandDir : Text
  interactive : Bool
  banner : Text

def start (c : Setup) (s : Server) : World :=
  ⟨ServerShutdown.run s, CommandOutput.start c.commandDir,
    ConsoleSession.start c.interactive c.banner, [], []⟩

inductive Event where
  | loop (e : ServerShutdown.Event)
  | message (user name request : Text) (spawn : SpawnResult)
  | write (fd : Fd) (bytes : Text)
  | close (fd : Fd)
  | onOut (io : IoConditions.GCondition) (fd : Fd) (read : ReadResult)
  | input (lines : List Text)
  | endOfInput
  | stdin (users : List Text)

/-- All that `AutoSaver::save` does: the write, the hook and the error it signals. -/
def sessionSave (s : Server) (o : SessionAutosave.SaveOutcome) : List SessionAutosave.Observation :=
  match s.autosaver with
  | none => []
  | some a => (a.save s.buffer o).2

def sessionSaves (s : Server) : ServerShutdown.Event → List SessionAutosave.Observation
  | .sessionTick o => if s.autosaver.any (·.hasModification) then sessionSave s o else []
  | .usr1 o | .term o => sessionSave s o.session
  | _ => []

def folderErrors (s : Server) (o : DocumentInfo → FolderAutosave.StreamOutcome) : List Text :=
  match s.autosaveFolder with
  | none => []
  | some f => ((f.pass s.buffer o).error).toList

/-- What `on_autosave_error` hears of. -/
def autosaveErrors (s : Server) (e : ServerShutdown.Event) : List Text :=
  SaveHooks.signalled (sessionSaves s e) ++
    match e with
    | .folderTick o => folderErrors s o
    | .usr1 o | .term o => folderErrors (s.saveSession o.session) o.documents
    | _ => []

def World.showErrors (w : World) (errors : List Text) : World :=
  { w with console := errors.foldl ConsoleSession.World.showError w.console }

/-- A client's command, in the handler the map of the commands has for its name. -/
def World.onMessage (o : Obby) (w : World) (user name request : Text) (spawn : SpawnResult) :
    Option World :=
  match findCommand (addedCommands w.commands.executer.commandDir) name with
  | none => some w
  | some .onRemove => (onRemove o w.main.server request).map fun r =>
    { w with main := { w.main with server := r.2 }, results := r.1 :: w.results }
  | some .onCommand => (w.commands.onCommand o.paramlist user request spawn).map fun c =>
    { w with commands := c, results := .noReply :: w.results }

/-- The console sees the titles of the session, and `quit` stops the loop for everyone. -/
def World.onStdin (w : World) (users : List Text) : Option World :=
  let titles := w.main.server.buffer.session.map Document.title
  (ConsoleSession.step w.console (.stdin users titles)).map fun c =>
    { w with
      console := c
      main := { w.main with running := w.main.running && c.console.running } }

/-- What the loop dispatches is dispatched within an iteration. -/
def step (o : Obby) (w : World) : Event → Option World
  | .loop e => (ServerShutdown.step w.main e).map fun m =>
    { w with
      main := m
      launches := SaveHooks.launches (sessionSaves w.main.server e) ++ w.launches }.showErrors
        (autosaveErrors w.main.server e)
  | .message user name request spawn =>
    if w.main.phase = .dispatching then w.onMessage o user name request spawn else none
  | .write fd bytes => (w.commands.write fd bytes).map fun c => { w with commands := c }
  | .close fd => (w.commands.close fd).map fun c => { w with commands := c }
  | .onOut io fd read =>
    if w.main.phase = .dispatching then
      (w.commands.callback io fd read).map fun c => { w with commands := c }
    else none
  | .input lines =>
    (ConsoleSession.step w.console (.input lines)).map fun c => { w with console := c }
  | .endOfInput =>
    (ConsoleSession.step w.console .endOfInput).map fun c => { w with console := c }
  | .stdin users => if w.main.phase = .dispatching then w.onStdin users else none

/-- What `/remove` makes of the session. -/
def removed (o : Obby) (b : ServerBuffer) (request : Text) : Option ServerBuffer :=
  match o.paramlist request with
  | .ok (value :: _) =>
    match o.fromString b value with
    | some d => b.remove d
    | none => some b
  | _ => some b

/-- What an event makes of the session alone: the edits of clients, and their `/remove`. -/
def edited (o : Obby) (b : ServerBuffer) : Event → Option ServerBuffer
  | .loop (.insert d doc) => b.insert d doc
  | .loop (.remove d) => b.remove d
  | .loop (.change d text) => b.change d text
  | .message _ name request _ => if name = "remove".toList then removed o b request else some b
  | _ => some b

structure Commanded (o : Obby) (t : FileTree) (mayExecute : Location → Bool) (c : Setup)
    (es : List Event) (dir : Text) (argv : List Text) (fd : Fd) : Prop where
  directory : c.commandDir ≠ [] ∧ dir = c.commandDir
  asked : ∃ user request, .message user "command".toList request (.launched fd) ∈ es ∧
    AskedFor o.paramlist user request argv
  located : ∀ x, program t mayExecute c.cwd dir argv = some x →
    DirectChild (resolve c.cwd (cString c.commandDir)) x

structure Hooked (t : FileTree) (mayExecute : Location → Bool) (c : Setup) (argv : List Text) :
    Prop where
  configured : c.settings.postSaveHook ≠ [] ∧ c.settings.autosaveFile ≠ []
  arguments : argv = [c.settings.postSaveHook, c.settings.autosaveFile]
  located : ∀ x, program t mayExecute c.cwd ['.'] argv = some x →
    x = resolve c.cwd (cString c.settings.postSaveHook)

/-- Asked of a state and of the events that have led to it. -/
structure Contained (o : Obby) (t : FileTree) (mayExecute : Location → Bool) (c : Setup)
    (es : List Event) (w : World) : Prop where
  disk : ∀ x, w.main.server.files x ≠ c.files x → Given c.settings c.cwd x
  commands : ∀ dir argv fd, .spawned dir argv fd ∈ w.commands.trace →
    Commanded o t mayExecute c es dir argv fd
  hooks : ∀ argv ∈ w.launches, Hooked t mayExecute c argv
  session : run (edited o) c.buffer es = some w.main.server.buffer
  connected : Connected w.main.server
  stopped : w.main.running = false ↔
    (∃ answer, .loop (.term answer) ∈ es) ∨ w.console.console.running = false
  typed : w.console.console.running = false → c.interactive = true ∧
    ((∃ lines line, .input lines ∈ es ∧ line ∈ lines ∧ firstWord line = "exit".toList) ∨
      .endOfInput ∈ es)
  returned : w.main.phase = .returned → w.main.running = false
  console : c.interactive = true → ConsoleSession.Converses w.console

theorem onRemove_cases {o : Obby} {s : Server} {request : Text} {r : CommandResult × Server}
    (h : onRemove o s request = some r) : r.2 = s ∨ ∃ d, s.remove d = some r.2 := by
  unfold onRemove at h
  split at h
  · obtain rfl := Option.some.inj h
    exact Or.inl rfl
  · obtain rfl := Option.some.inj h
    exact Or.inl rfl
  · split at h
    · obtain rfl := Option.some.inj h
      exact Or.inl rfl
    · next d _ =>
      obtain ⟨s', hs, rfl⟩ := Option.map_eq_some_iff.mp h
      exact Or.inr ⟨d, hs⟩

theorem findCommand_cases {commandDir name : Text} {handler : Handler}
    (h : findCommand (addedCommands commandDir) name = some handler) :
    (handler = .onRemove ∧ name = "remove".toList) ∨
      (handler = .onCommand ∧ name = "command".toList ∧ commandDir ≠ []) := by
  obtain ⟨c, hc, rfl⟩ := Option.map_eq_some_iff.mp h
  have hname : c.name = name := by simpa using List.find?_some hc
  have hmem := List.mem_of_find?_eq_some hc
  rw [addedCommands, List.mem_cons] at hmem
  rcases hmem with rfl | hmem
  · exact Or.inl ⟨rfl, hname.symm⟩
  · split at hmem
    · cases hmem
    · next hdir =>
      obtain rfl := List.mem_singleton.mp hmem
      exact Or.inr ⟨rfl, hname.symm, hdir⟩

theorem findCommand_none {commandDir name : Text}
    (h : findCommand (addedCommands commandDir) name = none) : name ≠ "remove".toList := by
  rintro rfl
  have hnone := List.find?_eq_none.mp (Option.map_eq_none_iff.mp h)
  exact hnone _ List.mem_cons_self (decide_eq_true rfl)

theorem removed_onRemove {o : Obby} {s : Server} {request : Text} {r : CommandResult × Server}
    (h : onRemove o s request = some r) : removed o s.buffer request = some r.2.buffer := by
  unfold onRemove at h
  unfold removed
  split at h
  · next hlist =>
    obtain rfl := Option.some.inj h
    simp only [hlist]
  · next hlist =>
    obtain rfl := Option.some.inj h
    simp only [hlist]
  · next hlist =>
    simp only [hlist]
    split at h
    · next hfind =>
      obtain rfl := Option.some.inj h
      simp only [hfind]
    · next hfind =>
      obtain ⟨s', hs, rfl⟩ := Option.map_eq_some_iff.mp h
      obtain ⟨b, hb, rfl⟩ := Option.map_eq_some_iff.mp hs
      simp only [hfind, hb]

theorem showErrors_run (console : ConsoleSession.World) (errors : List Text) :
    run ConsoleSession.step console (errors.map .autosaveError) =
      some (errors.foldl ConsoleSession.World.showError console) := by
  induction errors generalizing console with
  | nil => rfl
  | cons what errors ih => exact ih (console.showError what)

theorem showErrors_frame (console : ConsoleSession.World) (errors : List Text) :
    (errors.foldl ConsoleSession.World.showError console).console = console.console ∧
      (errors.foldl ConsoleSession.World.showError console).inputEnded = console.inputEnded := by
  induction errors generalizing console with
  | nil => exact ⟨rfl, rfl⟩
  | cons what errors ih => exact ih (console.showError what)

theorem edited_loop {o : Obby} {m m' : ServerShutdown.World} {e : ServerShutdown.Event}
    (h : ServerShutdown.step m e = some m') :
    edited o m.server.buffer (.loop e) = some m'.server.buffer := by
  have hother : ¬ e.Edits → some m.server.buffer = some m'.server.buffer :=
    fun he => congrArg some (DiskFootprint.step_buffer h he).symm
  cases e with
  | insert d doc =>
    obtain ⟨_, s, hs, rfl⟩ := ServerShutdown.dispatch_cases h
    obtain ⟨b, hb, rfl⟩ := Option.map_eq_some_iff.mp hs
    exact hb
  | remove d =>
    obtain ⟨_, s, hs, rfl⟩ := ServerShutdown.dispatch_cases h
    obtain ⟨b, hb, rfl⟩ := Option.map_eq_some_iff.mp hs
    exact hb
  | change d text =>
    obtain ⟨_, s, hs, rfl⟩ := ServerShutdown.dispatch_cases h
    obtain ⟨t, ht, _, rfl⟩ := SavedFiles.change_cases hs
    obtain ⟨b, hb, rfl⟩ := Option.map_eq_some_iff.mp ht
    exact hb
  | wake => exact hother id
  | sessionTick answer => exact hother id
  | folderTick answer => exact hother id
  | iterationEnds => exact hother id
  | usr1 answer => exact hother id
  | term answer => exact hother id

theorem edited_message {o : Obby} {w w' : World} {user name request : Text} {spawn : SpawnResult}
    (h : w.onMessage o user name request spawn = some w') :
    edited o w.main.server.buffer (.message user name request spawn) =
      some w'.main.server.buffer := by
  unfold World.onMessage at h
  split at h
  · next hfind =>
    obtain rfl := Option.some.inj h
    rw [edited, if_neg (findCommand_none hfind)]
  · next hfind =>
    obtain ⟨r, hr, rfl⟩ := Option.map_eq_some_iff.mp h
    obtain ⟨_, rfl⟩ | ⟨hno, _⟩ := findCommand_cases hfind
    · rw [edited, if_pos rfl]
      exact removed_onRemove hr
    · cases hno
  · next hfind =>
    obtain ⟨commands, _, rfl⟩ := Option.map_eq_some_iff.mp h
    obtain ⟨hno, _⟩ | ⟨_, rfl, _⟩ := findCommand_cases hfind
    · cases hno
    · have hname : "command".toList ≠ "remove".toList := by decide
      rw [edited, if_neg hname]

/-- The session alone goes where the server takes it. -/
theorem edited_step {o : Obby} {w w' : World} {e : Event} (h : step o w e = some w') :
    edited o w.main.server.buffer e = some w'.main.server.buffer := by
  cases e with
  | loop e =>
    obtain ⟨m, hm, rfl⟩ := Option.map_eq_some_iff.mp h
    exact edited_loop hm
  | message user name request spawn =>
    simp only [step] at h
    split at h
    · exact edited_message h
    · cases h
  | write fd bytes =>
    obtain ⟨commands, _, rfl⟩ := Option.map_eq_some_iff.mp h
    rfl
  | close fd =>
    obtain ⟨commands, _, rfl⟩ := Option.map_eq_some_iff.mp h
    rfl
  | onOut io fd read =>
    simp only [step] at h
    split at h
    · obtain ⟨commands, _, rfl⟩ := Option.map_eq_some_iff.mp h
      rfl
    · cases h
  | input lines =>
    obtain ⟨console, _, rfl⟩ := Option.map_eq_some_iff.mp h
    rfl
  | endOfInput =>
    have hmap : (ConsoleSession.step w.console .endOfInput).map
        (fun console => { w with console := console }) = some w' := h
    obtain ⟨console, _, rfl⟩ := Option.map_eq_some_iff.mp hmap
    rfl
  | stdin users =>
    simp only [step] at h
    split at h
    · obtain ⟨console, _, rfl⟩ := Option.map_eq_some_iff.mp h
      rfl
    · cases h

theorem dot_is_here (cwd : Location) : resolve cwd (cString ['.']) = cwd := rfl

theorem hooked_of_configured {c : Setup} {s : Server} (hs : Configured c.settings c.cwd s)
    (t : FileTree) (mayExecute : Location → Bool) {e : ServerShutdown.Event} {argv : List Text}
    (h : argv ∈ SaveHooks.launches (sessionSaves s e)) : Hooked t mayExecute c argv := by
  have hsave : ∀ answer, argv ∈ SaveHooks.launches (sessionSave s answer) →
      ∃ a, s.autosaver = some a ∧ a.postSaveHook ≠ [] ∧ argv = [a.postSaveHook, a.filename] := by
    intro answer hmem
    unfold sessionSave at hmem
    split at hmem
    · cases hmem
    · next a ha => exact ⟨a, ha, SaveHooks.save_launches hmem⟩
  have hany : ∃ a, s.autosaver = some a ∧ a.postSaveHook ≠ [] ∧
      argv = [a.postSaveHook, a.filename] := by
    unfold sessionSaves at h
    split at h
    · split at h
      · exact hsave _ h
      · cases h
    · exact hsave _ h
    · exact hsave _ h
    · cases h
  obtain ⟨a, ha, hhook, rfl⟩ := hany
  obtain ⟨hfile, hname, hwith⟩ := hs.saver a ha
  rw [hwith] at hhook
  refine ⟨⟨hhook, hfile⟩, by rw [hwith, hname], ?_⟩
  intro x hx
  rw [hwith] at hx
  have hlocated := (CommandConfinement.program_some hx).2.1
  rwa [dot_is_here] at hlocated

structure Kept (o : Obby) (t : FileTree) (mayExecute : Location → Bool) (c : Setup)
    (es : List Event) (w : World) : Prop where
  configured : Configured c.settings c.cwd w.main.server
  disk : ∀ x, w.main.server.files x ≠ c.files x → Given c.settings c.cwd x
  connected : Connected w.main.server
  hooks : ∀ argv ∈ w.launches, Hooked t mayExecute c argv
  session : run (edited o) c.buffer es = some w.main.server.buffer
  stopped : w.main.running = false ↔
    (∃ answer, .loop (.term answer) ∈ es) ∨ w.console.console.running = false
  returned : w.main.phase = .returned → w.main.running = false
  serving : Serving c.commandDir w.commands
  asked : ∀ dir argv fd, .spawned dir argv fd ∈ w.commands.trace →
    Commanded o t mayExecute c es dir argv fd
  console : Reachable ConsoleSession.step (ConsoleSession.start c.interactive c.banner) w.console
  heard : ∀ line ∈ w.console.console.received, ∃ lines, .input lines ∈ es ∧ line ∈ lines
  ended : w.console.inputEnded = true → .endOfInput ∈ es

section Steps

variable {o : Obby} {t : FileTree} {mayExecute : Location → Bool} {c : Setup} {es : List Event}
  {w w' : World} {e : Event}

theorem term_append (he : ∀ answer, e ≠ .loop (.term answer)) :
    (∃ answer, Event.loop (.term answer) ∈ es ++ [e]) ↔ ∃ answer, .loop (.term answer) ∈ es := by
  constructor
  · rintro ⟨answer, hmem⟩
    refine ⟨answer, (List.mem_append.mp hmem).resolve_right fun hlast => ?_⟩
    exact he answer (List.mem_singleton.mp hlast).symm
  · rintro ⟨answer, hmem⟩
    exact ⟨answer, List.mem_append_left _ hmem⟩

theorem commanded_append {dir : Text} {argv : List Text} {fd : Fd}
    (h : Commanded o t mayExecute c es dir argv fd) :
    Commanded o t mayExecute c (es ++ [e]) dir argv fd := by
  obtain ⟨hdir, ⟨user, request, hmem, hargv⟩, hlocated⟩ := h
  exact ⟨hdir, ⟨user, request, List.mem_append_left _ hmem, hargv⟩, hlocated⟩

theorem heard_append {line : Text} (h : ∃ lines, Event.input lines ∈ es ∧ line ∈ lines) :
    ∃ lines, Event.input lines ∈ es ++ [e] ∧ line ∈ lines := by
  obtain ⟨lines, hlines, hmem⟩ := h
  exact ⟨lines, List.mem_append_left _ hlines, hmem⟩

theorem kept_commands (hw : Kept o t mayExecute c es w) (h : step o w e = some w')
    (he : ∀ answer, e ≠ .loop (.term answer))
    (hmain : w'.main = w.main) (hconsole : w'.console = w.console)
    (hlaunches : w'.launches = w.launches) (hserving : Serving c.commandDir w'.commands)
    (hasked : ∀ dir argv fd, .spawned dir argv fd ∈ w'.commands.trace →
      .spawned dir argv fd ∈ w.commands.trace ∨ Commanded o t mayExecute c (es ++ [e]) dir argv fd) :
    Kept o t mayExecute c (es ++ [e]) w' where
  configured := hmain ▸ hw.configured
  disk := hmain ▸ hw.disk
  connected := hmain ▸ hw.connected
  hooks := hlaunches ▸ hw.hooks
  session := run_concat hw.session (edited_step h)
  stopped := by
    rw [hmain, hconsole, term_append he]
    exact hw.stopped
  returned := hmain ▸ hw.returned
  serving := hserving
  asked := fun dir argv fd hmem =>
    (hasked dir argv fd hmem).elim (fun hold => commanded_append (hw.asked dir argv fd hold)) id
  console := hconsole ▸ hw.console
  heard := hconsole ▸ fun line hline => heard_append (hw.heard line hline)
  ended := hconsole ▸ fun h => List.mem_append_left _ (hw.ended h)

theorem disk_kept (hw : Kept o t mayExecute c es w) {m : ServerShutdown.World}
    (hk : DiskFootprint.Keeps c.settings c.cwd w.main m) (x : PathNames.Location)
    (hx : m.server.files x ≠ c.files x) : Given c.settings c.cwd x := by
  by_cases hsame : m.server.files x = w.main.server.files x
  · rw [hsame] at hx
    exact hw.disk x hx
  · exact hk.files x hsame

theorem asked_append (hw : Kept o t mayExecute c es w) {dir : Text} {argv : List Text} {fd : Fd}
    (h : .spawned dir argv fd ∈ w.commands.trace) :
    Commanded o t mayExecute c (es ++ [e]) dir argv fd :=
  commanded_append (hw.asked dir argv fd h)

theorem kept_loop {me : ServerShutdown.Event} (hw : Kept o t mayExecute c es w)
    (h : step o w (.loop me) = some w') : Kept o t mayExecute c (es ++ [.loop me]) w' := by
  have hsession := run_concat hw.session (edited_step h)
  obtain ⟨m, hm, rfl⟩ := Option.map_eq_some_iff.mp h
  have hk := DiskFootprint.step_keeps hw.configured hm
  obtain ⟨hrunning, hreturned⟩ := DiskFootprint.step_running hm
  obtain ⟨hconsole, hended⟩ := showErrors_frame w.console (autosaveErrors w.main.server me)
  constructor
  · exact hk.configured
  · exact disk_kept hw hk
  · exact hk.connected hw.connected
  · intro argv hargv
    rcases List.mem_append.mp hargv with hnew | hold
    · exact hooked_of_configured hw.configured t mayExecute hnew
    · exact hw.hooks argv hold
  · exact hsession
  · have hterm : (∃ answer, Event.loop (.term answer) ∈ es ++ [.loop me]) ↔
        (∃ answer, .loop (.term answer) ∈ es) ∨ ∃ answer, me = .term answer := by
      simp only [List.mem_append, List.mem_singleton, Event.loop.injEq, exists_or, eq_comm]
    simp only [World.showErrors, hconsole]
    rw [hrunning, hterm, hw.stopped]
    exact or_right_comm
  · exact hreturned
  · exact hw.serving
  · exact fun dir argv fd => asked_append hw
  · exact reachable_run hw.console (showErrors_run w.console _)
  · simp only [World.showErrors, hconsole]
    exact fun line hline => heard_append (hw.heard line hline)
  · simp only [World.showErrors, hended]
    exact fun h => List.mem_append_left _ (hw.ended h)

theorem kept_remove {user name request : Text} {spawn : SpawnResult} {r : CommandResult × Server}
    (hw : Kept o t mayExecute c es w) (hp : w.main.phase = .dispatching)
    (h : onRemove o w.main.server request = some r)
    (hsession : run (edited o) c.buffer (es ++ [.message user name request spawn]) =
      some r.2.buffer) :
    Kept o t mayExecute c (es ++ [.message user name request spawn])
      { w with main := { w.main with server := r.2 }, results := r.1 :: w.results } := by
  have hkeeps : DiskFootprint.Keeps c.settings c.cwd w.main { w.main with server := r.2 } := by
    rcases onRemove_cases h with hsame | ⟨d, hd⟩
    · exact DiskFootprint.keeps_same hw.configured hsame
    · have hstep : ServerShutdown.step w.main (.remove d) =
          some { w.main with server := r.2 } := by
        simp only [ServerShutdown.step, ServerShutdown.World.dispatch, hp, if_true, hd,
          Option.map_some]
      exact DiskFootprint.step_keeps hw.configured hstep
  constructor
  · exact hkeeps.configured
  · exact disk_kept hw hkeeps
  · exact hkeeps.connected hw.connected
  · exact hw.hooks
  · exact hsession
  · rw [term_append (by simp)]
    exact hw.stopped
  · exact hw.returned
  · exact hw.serving
  · exact fun dir argv fd => asked_append hw
  · exact hw.console
  · exact fun line hline => heard_append (hw.heard line hline)
  · exact fun h => List.mem_append_left _ (hw.ended h)

/-- What `/command` starts is what the client has asked for. -/
theorem onCommand_commanded {user request : Text} {spawn : SpawnResult}
    {commands : CommandOutput.World} (hw : Kept o t mayExecute c es w) (hdir : c.commandDir ≠ [])
    (h : w.commands.onCommand o.paramlist user request spawn = some commands) {dir : Text}
    {argv : List Text} {fd : Fd} (hmem : .spawned dir argv fd ∈ commands.trace) :
    .spawned dir argv fd ∈ w.commands.trace ∨
      Commanded o t mayExecute c (es ++ [.message user "command".toList request spawn]) dir argv
        fd := by
  obtain ⟨message, rfl⟩ | ⟨script, params, outFd, hlist, rfl, _, rfl⟩ :=
    CommandOutput.onCommand_cases h
  · exact Or.inl (by simpa [CommandOutput.World.send] using hmem)
  · rcases List.mem_cons.mp hmem with hnew | hold
    · obtain ⟨rfl, rfl, rfl⟩ := CommandOutput.Observation.spawned.inj hnew
      refine Or.inr ⟨⟨hdir, hw.serving.configured⟩, ⟨user, request, by simp, script, params, hlist,
        rfl⟩, ?_⟩
      intro x hx
      rw [hw.serving.configured] at hx
      exact CommandConfinement.basename_is_child hx
    · exact Or.inl hold

theorem kept_message {user name request : Text} {spawn : SpawnResult}
    (hw : Kept o t mayExecute c es w)
    (h : step o w (.message user name request spawn) = some w') :
    Kept o t mayExecute c (es ++ [.message user name request spawn]) w' := by
  have hstep := h
  have hsession := run_concat hw.session (edited_step h)
  simp only [step] at h
  split at h
  · next hp =>
    unfold World.onMessage at h
    split at h
    · obtain rfl := Option.some.inj h
      exact kept_commands hw hstep (by simp) rfl rfl rfl hw.serving fun _ _ _ hmem => Or.inl hmem
    · next hfind =>
      obtain ⟨r, hr, rfl⟩ := Option.map_eq_some_iff.mp h
      exact kept_remove hw hp hr hsession
    · next hfind =>
      obtain ⟨commands, hc, rfl⟩ := Option.map_eq_some_iff.mp h
      have hmessage : CommandConfinement.step o.paramlist w.commands
          (.message user name request spawn) = some commands := by
        simp only [CommandConfinement.step, hfind]
        exact hc
      have hserving :=
        CommandConfinement.serving_step o.paramlist c.commandDir _ _ _ hw.serving hmessage
      obtain ⟨hno, _⟩ | ⟨_, rfl, hdir⟩ := findCommand_cases hfind
      · cases hno
      · rw [hw.serving.configured] at hdir
        exact kept_commands hw hstep (by simp) rfl rfl rfl hserving
          fun _ _ _ hmem => onCommand_commanded hw hdir hc hmem
  · cases h

theorem kept_console {ce : ConsoleSession.Event} {console : ConsoleSession.World}
    (hw : Kept o t mayExecute c es w) (h : step o w e = some { w with console := console })
    (he : ∀ answer, e ≠ .loop (.term answer))
    (hc : ConsoleSession.step w.console ce = some console)
    (hrunning : console.console.running = w.console.console.running)
    (hheard : ∀ line ∈ console.console.received, ∃ lines, .input lines ∈ es ++ [e] ∧ line ∈ lines)
    (hended : console.inputEnded = true → .endOfInput ∈ es ++ [e]) :
    Kept o t mayExecute c (es ++ [e]) { w with console := console } where
  configured := hw.configured
  disk := hw.disk
  connected := hw.connected
  hooks := hw.hooks
  session := run_concat hw.session (edited_step h)
  stopped := by
    rw [term_append he, hrunning]
    exact hw.stopped
  returned := hw.returned
  serving := hw.serving
  asked := fun _ _ _ => asked_append hw
  console := reachable_step hw.console hc
  heard := hheard
  ended := hended

theorem kept_input {lines : List Text} (hw : Kept o t mayExecute c es w)
    (h : step o w (.input lines) = some w') : Kept o t mayExecute c (es ++ [.input lines]) w' := by
  have hwhole := h
  obtain ⟨console, hc, rfl⟩ := Option.map_eq_some_iff.mp h
  have hstep := hc
  simp only [ConsoleSession.step] at hc
  split at hc
  · cases hc
  · obtain ⟨after, hafter, rfl⟩ := Option.map_eq_some_iff.mp hc
    obtain ⟨_, hrunning, hreceived⟩ := ConsoleSession.input_frame hafter
    refine kept_console hw hwhole (by simp) hstep hrunning ?_ ?_
    · intro line hline
      rw [hreceived] at hline
      rcases List.mem_append.mp hline with hold | hnew
      · exact heard_append (hw.heard line hold)
      · exact ⟨lines, by simp, hnew⟩
    · exact fun hended => List.mem_append_left _ (hw.ended hended)

theorem kept_endOfInput (hw : Kept o t mayExecute c es w) (h : step o w .endOfInput = some w') :
    Kept o t mayExecute c (es ++ [.endOfInput]) w' := by
  have hmap : (ConsoleSession.step w.console .endOfInput).map
      (fun console => { w with console := console }) = some w' := h
  obtain ⟨console, hc, rfl⟩ := Option.map_eq_some_iff.mp hmap
  have hstep := hc
  obtain rfl := Option.some.inj hc
  exact kept_console hw h (by simp) hstep rfl
    (fun line hline => heard_append (hw.heard line hline)) (fun _ => by simp)

theorem kept_stdin {users : List Text} (hw : Kept o t mayExecute c es w)
    (h : step o w (.stdin users) = some w') : Kept o t mayExecute c (es ++ [.stdin users]) w' := by
  have hsession := run_concat hw.session (edited_step h)
  simp only [step] at h
  split at h
  · next hp =>
    obtain ⟨console, hc, rfl⟩ := Option.map_eq_some_iff.mp h
    have hreachable := reachable_step hw.console hc
    obtain ⟨_, hbefore, rfl⟩ := ConsoleSession.stdin_cases hc
    constructor
    · exact hw.configured
    · exact hw.disk
    · exact hw.connected
    · exact hw.hooks
    · exact hsession
    · have hold : w.main.running = false ↔ ∃ answer, .loop (.term answer) ∈ es := by
        rw [hw.stopped, hbefore]
        simp
      rw [term_append (by simp), Bool.and_eq_false_iff, hold]
    · intro hreturned
      rw [hp] at hreturned
      cases hreturned
    · exact hw.serving
    · exact fun dir argv fd => asked_append hw
    · exact hreachable
    · intro line hline
      rw [ConsoleSession.World.onStdin, ConsoleSession.World.print,
        ConsoleSession.onStdin_received] at hline
      exact heard_append (hw.heard line hline)
    · exact fun hended => List.mem_append_left _ (hw.ended hended)
  · cases h

theorem kept_pipes {commands : CommandOutput.World} (ce : CommandConfinement.Event)
    (hw : Kept o t mayExecute c es w) (h : step o w e = some { w with commands := commands })
    (he : ∀ answer, e ≠ .loop (.term answer))
    (hstep : CommandConfinement.step o.paramlist w.commands ce = some commands)
    (hce : ∀ user name request spawn, ce ≠ .message user name request spawn) :
    Kept o t mayExecute c (es ++ [e]) { w with commands := commands } := by
  have hserving := CommandConfinement.serving_step o.paramlist c.commandDir _ ce _ hw.serving hstep
  exact kept_commands hw h he rfl rfl rfl hserving fun dir argv fd hmem =>
    Or.inl (CommandConfinement.pipes_spawn_nothing hstep hce hmem)

theorem kept_step (es : List Event) (w : World) (e : Event) (w' : World)
    (hw : Kept o t mayExecute c es w) (h : step o w e = some w') :
    Kept o t mayExecute c (es ++ [e]) w' := by
  have hwhole := h
  cases e with
  | loop me => exact kept_loop hw h
  | message user name request spawn => exact kept_message hw h
  | write fd bytes =>
    obtain ⟨commands, hc, rfl⟩ := Option.map_eq_some_iff.mp h
    exact kept_pipes (.write fd bytes) hw hwhole (by simp) hc (by simp)
  | close fd =>
    obtain ⟨commands, hc, rfl⟩ := Option.map_eq_some_iff.mp h
    exact kept_pipes (.close fd) hw hwhole (by simp) hc (by simp)
  | onOut io fd read =>
    simp only [step] at h
    split at h
    · obtain ⟨commands, hc, rfl⟩ := Option.map_eq_some_iff.mp h
      exact kept_pipes (.callback io fd read) hw hwhole (by simp) hc (by simp)
    · cases h
  | input lines => exact kept_input hw h
  | endOfInput => exact kept_endOfInput hw h
  | stdin users => exact kept_stdin hw h

end Steps

theorem start_kept {o : Obby} {t : FileTree} {mayExecute : Location → Bool} {c : Setup}
    {s : Server} (hs : Server.start c.settings c.isDirectory c.buffer c.cwd c.files = .ok s) :
    Kept o t mayExecute c [] (start c s) := by
  obtain ⟨hbuffer, _, hfiles, _, _⟩ := ServerSaves.start_cases hs
  constructor
  · exact DiskFootprint.start_configured hs
  · exact fun x hx => absurd (congrFun hfiles x) hx
  · exact SavedFiles.start_connected hs
  · intro argv hargv
    cases hargv
  · exact congrArg some hbuffer.symm
  · simp [start, ServerShutdown.run, ConsoleSession.start, ConsoleInput.start]
  · intro h
    cases h
  · exact ⟨rfl, fun _ _ _ _ h => by cases h⟩
  · intro dir argv fd hmem
    cases hmem
  · exact ⟨[], rfl⟩
  · intro line hline
    cases hline
  · intro h
    cases h

theorem Kept.converses {o : Obby} {t : FileTree} {mayExecute : Location → Bool} {c : Setup}
    {es : List Event} {w : World} (hw : Kept o t mayExecute c es w)
    (hi : c.interactive = true) : ConsoleSession.Converses w.console := by
  have hreachable := hw.console
  rw [hi] at hreachable
  exact (reachable_invariant ConsoleSession.kept_step (ConsoleSession.start_kept c.banner)
    hreachable).converses

/-- The console stops the loop for a line that was typed, or because there will be no more. -/
theorem Kept.typed {o : Obby} {t : FileTree} {mayExecute : Location → Bool} {c : Setup}
    {es : List Event} {w : World} (hw : Kept o t mayExecute c es w)
    (hstopped : w.console.console.running = false) : c.interactive = true ∧
      ((∃ lines line, .input lines ∈ es ∧ line ∈ lines ∧ firstWord line = "exit".toList) ∨
        .endOfInput ∈ es) := by
  have hi : c.interactive = true := by
    by_contra hsilent
    have hreachable := hw.console
    rw [Bool.not_eq_true] at hsilent
    rw [hsilent] at hreachable
    have hrunning := (reachable_invariant ConsoleSession.silent_step ⟨rfl, rfl⟩ hreachable).2
    rw [hstopped] at hrunning
    cases hrunning
  refine ⟨hi, ?_⟩
  have hconverses := hw.converses hi
  rcases hconverses.stops hstopped with hexit | ⟨hended, _⟩
  · obtain ⟨done, pending, hreceived, hlooked, _⟩ := hconverses.order
    rw [hlooked] at hexit
    obtain ⟨line, hline, hfirst⟩ := List.mem_map.mp hexit
    have hmem : line ∈ w.console.console.received := by
      rw [hreceived]
      exact List.mem_append_left _ hline
    obtain ⟨lines, hlines, hin⟩ := hw.heard line hmem
    exact Or.inl ⟨lines, line, hlines, hin, hfirst⟩
  · exact Or.inr (hw.ended hended)

/-- Whatever clients send, commands print, users type and signals interrupt, and whatever fails: the
server changes the files of its savers only, executes the programs of its directory and its hook only,
changes the session by edits and removals only, and stops for SIGTERM, `exit` and the end of the
input only. -/
theorem clients_are_contained (o : Obby) (t : FileTree) (mayExecute : Location → Bool) (c : Setup)
    (s : Server) (hs : Server.start c.settings c.isDirectory c.buffer c.cwd c.files = .ok s)
    (es : List Event) (w : World) (hr : run (step o) (start c s) es = some w) :
    Contained o t mayExecute c es w := by
  have hC : EveryStep (step o) (fun _ _ => True) (start c s) es :=
    everyStep_of_forall fun _ _ _ => trivial
  have hw : Kept o t mayExecute c es w :=
    run_history (fun es w e w' hw _ h => kept_step es w e w' hw h) (start_kept hs) hC hr
  exact ⟨hw.disk, hw.asked, hw.hooks, hw.session, hw.connected, hw.stopped, hw.typed, hw.returned,
    hw.converses⟩

def oneNumber : Obby where
  paramlist request := .ok [request]
  fromString b text := if text = "1".toList ∧ 1 ∈ b.documents then some 1 else none
  found b text d h := by
    split at h
    · next hfound =>
      obtain rfl := Option.some.inj h
      exact hfound.2
    · cases h

def officeSetup : Setup where
  settings := ⟨"autosave.obby".toList, "out".toList, 60, "hook".toList⟩
  isDirectory _ := true
  cwd := []
  buffer := ServerSaves.oneDocument "notes".toList
  files _ := none
  commandDir := "commands".toList
  interactive := true
  banner := []

/-- A signal saves, a client runs a command and removes the document, and the user ends the input. -/
def visit : List Event :=
  [.loop .wake, .loop (.usr1 ServerSaves.acceptsAll),
    .message "user".toList "command".toList "greet".toList (.launched 5),
    .message "user".toList "remove".toList "1".toList (.threw []), .endOfInput,
    .stdin ["user".toList], .loop .iterationEnds]

theorem visit_is_contained : ∃ s w, Server.start officeSetup.settings officeSetup.isDirectory
      officeSetup.buffer officeSetup.cwd officeSetup.files = .ok s ∧
    run (step oneNumber) (start officeSetup s) visit = some w ∧ w.main.phase = .returned ∧
    w.main.server.buffer.documents = [] ∧
    w.launches = [["hook".toList, "autosave.obby".toList]] ∧
    Contained oneNumber FolderConfinement.outTree (fun _ => true) officeSetup visit w := by
  obtain ⟨s, w, hs, hr, hphase, hdocuments, hlaunches⟩ : ∃ s w,
      Server.start officeSetup.settings officeSetup.isDirectory officeSetup.buffer officeSetup.cwd
        officeSetup.files = .ok s ∧
      run (step oneNumber) (start officeSetup s) visit = some w ∧ w.main.phase = .returned ∧
      w.main.server.buffer.documents = [] ∧
      w.launches = [["hook".toList, "autosave.obby".toList]] := ⟨_, _, rfl, rfl, rfl, rfl, rfl⟩
  have hcontained := clients_are_contained oneNumber FolderConfinement.outTree (fun _ => true)
    officeSetup s hs visit w hr
  exact ⟨s, w, hs, hr, hphase, hdocuments, hlaunches, hcontained⟩

end WholeServer
