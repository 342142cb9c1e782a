import Sobby.AutosavePeriod

/-! The constructor of the server after option processing, and what `main` makes of it. What the
session buffer does with a session file, and what the file system and the validation of UTF-8 say,
is the environment's. -/
namespace ServerStartup

open SessionBuffer
open PathNames
open Strings
open ServerSettings (Net6 Parser Options Settings CInt effective writtenConfig)
open ServerSaves (Server)
open AutosavePeriod (autosaveSettings)
open ConfigTree (ParentEntry)
open FolderAutosave (Files)

/-- Exceptions of glib are not `std::exception`s. -/
inductive Thrown where
  | std (what : Text)
  | glib (what : Text)
  deriving DecidableEq, Repr

/-- What comes of `m_server->open(session, port)`: the documents of the session, or an exception
and what is in the buffer once it is closed. -/
inductive Opened where
  | session (documents : List Document)
  | threw (e : Thrown) (left : List Document)

structure Environment where
  openSession : Text → CInt → Opened
  openPort : CInt → Except Thrown Unit
  fileGetContents : Text → Except Thrown Text
  utf8Validate : Text → Bool

def notUtf8 (arg : Text) : Text :=
  "The file '".toList ++ arg ++ ("' does not contain valid UTF-8. Please convert it to UTF-8 " ++
    "before loading it into sobby.").toList

def loadFiles (env : Environment) : List Text → List Document → Except Thrown (List Document)
  | [], documents => .ok documents
  | arg :: args, documents =>
    match env.fileGetContents arg with
    | .error e => .error e
    | .ok content =>
      if env.utf8Validate content then
        loadFiles env args (documents ++ [⟨pathGetBasename arg, content⟩])
      else .error (.std (notUtf8 arg))

/-- The documents the server starts with. Only a `std::exception` of a session that comes from the
command line makes the arguments documents. -/
def openBuffer (env : Environment) (port : CInt) (session : Text) (sessionFromConfig : Bool)
    (args : List Text) : Except Thrown (List Document) :=
  if session = [] then (env.openPort port).map fun _ => []
  else
    match env.openSession session port with
    | .session documents => .ok documents
    | .threw (.glib what) _ => .error (.glib what)
    | .threw (.std what) left =>
      if sessionFromConfig then .error (.std what)
      else
        match env.openPort port with
        | .error e => .error e
        | .ok _ => loadFiles env args left

def bufferOf (documents : List Document) : ServerBuffer where
  documents := List.range documents.length
  document d := documents.getD d ⟨[], []⟩
  nodup := List.nodup_range

inductive Outcome where
  | exits (written : ParentEntry)
  | fails (e : Thrown)
  | runs (s : Server)

/-- `Server::Server`. The configuration is what became of the file that was to be read. -/
def create (net6 : Net6) (p : Parser) (env : Environment) (isDirectory : Location → Bool)
    (cwd : Location) (files : Files) (config : Except Thrown (Option ParentEntry)) (o : Options)
    (args : List Text) (configFileWrite : Text) : Outcome :=
  match config with
  | .error e => .fails e
  | .ok config =>
    match effective net6 p config { o with session := args.head? } with
    | .error what => .fails (.std what)
    | .ok settings =>
      if configFileWrite = [] then
        match openBuffer env settings.port settings.session (config.isSome && args.isEmpty) args with
        | .error e => .fails e
        | .ok documents =>
          match Server.start (autosaveSettings settings) isDirectory (bufferOf documents) cwd files
          with
          | .error what => .fails (.std what)
          | .ok s => .runs s
      else .exits (writtenConfig net6 settings)

/-- What `main` returns, and what it writes to the standard error. A server that runs returns from
`run` without an exception. -/
def exitStatus : Outcome → ℕ × Option Text
  | .exits _ => (0, none)
  | .fails (.std what) => (1, some what)
  | .fails (.glib what) => (1, some what)
  | .runs _ => (0, none)

theorem session_bufferOf (documents : List Document) :
    (bufferOf documents).session = documents := by
  apply List.ext_getElem
  · simp [bufferOf, ServerBuffer.session]
  · intro i hi _
    have hlt : i < documents.length := by simpa [bufferOf, ServerBuffer.session] using hi
    simp [bufferOf, ServerBuffer.session, hlt]

def Loads (env : Environment) (arg : Text) (doc : Document) : Prop :=
  env.fileGetContents arg = .ok doc.text ∧ env.utf8Validate doc.text = true ∧
    doc.title = pathGetBasename arg

/-- The loop ends without an exception exactly if every file can be read and holds UTF-8, and then
there is a document for each argument, in the order of the arguments. -/
theorem loadFiles_ok {env : Environment} {args : List Text} {before documents : List Document} :
    loadFiles env args before = .ok documents ↔
      ∃ loaded, List.Forall₂ (Loads env) args loaded ∧ documents = before ++ loaded := by
  induction args generalizing before with
  | nil =>
    rw [loadFiles, Except.ok.injEq]
    constructor
    · rintro rfl
      exact ⟨[], .nil, (List.append_nil _).symm⟩
    · rintro ⟨loaded, hloaded, rfl⟩
      cases hloaded
      exact (List.append_nil _).symm
  | cons arg args ih =>
    constructor
    · intro h
      rw [loadFiles] at h
      split at h
      · cases h
      · next content hread =>
        split at h
        · next hvalid =>
          obtain ⟨loaded, hloaded, rfl⟩ := ih.mp h
          refine ⟨⟨pathGetBasename arg, content⟩ :: loaded, .cons ⟨hread, hvalid, rfl⟩ hloaded, ?_⟩
          rw [List.append_assoc, List.singleton_append]
        · cases h
    · rintro ⟨loaded, hloaded, rfl⟩
      cases hloaded with
      | cons hdoc hrest =>
        next doc rest =>
        obtain ⟨title, text⟩ := doc
        obtain ⟨hread, hvalid, rfl⟩ := hdoc
        simp only [loadFiles, hread, hvalid, if_true]
        exact ih.mpr ⟨rest, hrest, by rw [List.append_assoc, List.singleton_append]⟩

end ServerStartup
