import Sobby.ConsoleInput
import Sobby.SaveHooks

/-! What the console answers. Each dispatch takes one line, answers its command and shows the
prompt again, and the errors of the savers come between. Lines the stream has read ahead wait for
later dispatches, and when the input ends they are all taken. -/
namespace ConsoleSession

open StepMachine
open ConsoleInput
open Strings (Text)

def prompt : Text := "sobby > ".toList

def newline : Text := "\n".toList

def onCmdHelp : Text :=
  "\thelp           Show this help\n".toList ++
  "\texit           Exits the server\n".toList ++
  "\tusers          Show currently connected users\n".toList ++
  "\tdocuments      Show open documents\n".toList

def listing (names : List Text) (what : Text) : Text :=
  names.flatMap (fun name => " * ".toList ++ name ++ newline) ++
    (toString names.length).toList ++ what

def onCmdUsers (users : List Text) : Text := listing users " users\n".toList

def onCmdDocuments (documents : List Text) : Text := listing documents " documents\n".toList

def call (users documents : List Text) : Command → Text × Bool
  | .help => (onCmdHelp, true)
  | .exit => ([], false)
  | .users => (onCmdUsers users, true)
  | .documents => (onCmdDocuments documents, true)

def answer (users documents : List Text) (command : Text) : Text × Text :=
  match cmdMap command with
  | none => (prompt, command ++ ": Command not found\n".toList)
  | some c =>
    let r := call users documents c
    (r.1 ++ if r.2 then prompt else [], [])

/-- The console with all that has been printed. Its input may end. -/
structure World where
  console : ConsoleInput.World
  inputEnded : Bool
  stdout : Text
  stderr : Text

def start (interactive : Bool) (banner : Text) : World :=
  ⟨ConsoleInput.start interactive, false, banner ++ if interactive then prompt else [], []⟩

/-- The names of the users and the documents are those of the moment. -/
inductive Event where
  | input (lines : List Text)
  | endOfInput
  | stdin (users documents : List Text)
  | autosaveError (what : Text)
  deriving DecidableEq, Repr

def World.print (w : World) (out err : Text) : World :=
  { w with stdout := w.stdout ++ out, stderr := w.stderr ++ err }

/-- `Server::on_autosave_error` -/
def World.showError (w : World) (what : Text) : World :=
  let r := SaveHooks.onAutosaveError w.console.interactive what
  w.print r.2 r.1

/-- What `on_stdin` prints for a line, or at the end of the input. -/
def answerLine (users documents : List Text) : Option Text → Text × Text
  | none => (newline, [])
  | some line => answer users documents ((split line ' ').headD [])

/-- `Server::on_stdin`, which only an interactive server connects. -/
def World.onStdin (w : World) (users documents : List Text) : World :=
  let r := answerLine users documents w.console.getline.1
  { w with console := w.console.onStdin }.print r.1 r.2

/-- At its end the input is ready too, and stays so. -/
def step (w : World) : Event → Option World
  | .input lines =>
    if w.inputEnded then none
    else (ConsoleInput.step w.console (.input lines)).map fun c => { w with console := c }
  | .endOfInput => some { w with inputEnded := true }
  | .stdin users documents =>
    if w.console.interactive ∧ w.console.running ∧ (w.console.unread ≠ [] ∨ w.inputEnded) then
      some (w.onStdin users documents)
    else none
  | .autosaveError what => some (w.showError what)

/-- Asked of every state: lines are taken in the order of their arrival and none is lost, nothing
comes after `exit`, and a user who can type sees the prompt. -/
structure Converses (w : World) : Prop where
  order : ∃ done pending, w.console.received = done ++ pending ∧
    w.console.lookedUp = done.map firstWord ∧
    w.console.buffer ++ w.console.unread = bytesOf pending
  last : "exit".toList ∉ w.console.lookedUp.dropLast
  exits : "exit".toList ∈ w.console.lookedUp → w.console.running = false
  stops : w.console.running = false → "exit".toList ∈ w.console.lookedUp ∨
    w.inputEnded = true ∧ w.console.lookedUp = w.console.received.map firstWord
  prompts : w.console.running = true → ∃ before, w.stdout = before ++ prompt
  catchesUp : w.inputEnded = true → w.console.running = true → ∀ users documents, ∃ n w',
    run step w (List.replicate n (.stdin users documents)) = some w' ∧
      w'.console.running = false ∧
      w'.console.lookedUp = upToExit (w.console.received.map firstWord)

theorem bytesOf_cons (line : Text) (lines : List Text) :
    bytesOf (line :: lines) = line ++ '\n' :: bytesOf lines := by
  simp [bytesOf]

theorem bytesOf_append (lines more : List Text) :
    bytesOf (lines ++ more) = bytesOf lines ++ bytesOf more :=
  List.flatMap_append

structure Backlog (c : ConsoleInput.World) (done ahead waiting : List Text) : Prop where
  received : c.received = done ++ (ahead ++ waiting)
  lookedUp : c.lookedUp = done.map firstWord
  buffer : c.buffer = bytesOf ahead
  unread : c.unread = bytesOf waiting
  complete : ∀ line ∈ ahead ++ waiting, '\n' ∉ line

section Getline

variable {c : ConsoleInput.World} {done ahead waiting : List Text} {line : Text}

theorem mem_bytesOf_cons (line : Text) (lines : List Text) : '\n' ∈ bytesOf (line :: lines) := by
  rw [bytesOf_cons]
  simp

theorem getline_ahead (h : Backlog c done (line :: ahead) waiting) :
    c.getline = (some line, { c with buffer := bytesOf ahead }) := by
  have hline : '\n' ∉ line := h.complete line (by simp)
  have hmem : '\n' ∈ c.buffer := h.buffer ▸ mem_bytesOf_cons line ahead
  have hsplit : c.buffer = line ++ '\n' :: bytesOf ahead := by rw [h.buffer, bytesOf_cons]
  simp only [ConsoleInput.World.getline, hmem, if_true]
  simp only [hsplit, takeWhile_piece hline, dropWhile_piece hline, List.tail_cons]

/-- An empty stream reads all that the descriptor has. -/
theorem getline_waiting (h : Backlog c done [] (line :: waiting)) :
    c.getline = (some line, { c with unread := [], buffer := bytesOf waiting }) := by
  have hline : '\n' ∉ line := h.complete line (by simp)
  have hbuffer : c.buffer = [] := h.buffer
  have hmem : '\n' ∈ line ++ '\n' :: bytesOf waiting := by simp
  simp only [ConsoleInput.World.getline, hbuffer, h.unread, bytesOf_cons, List.not_mem_nil, if_false,
    List.nil_append, hmem, if_true, takeWhile_piece hline, dropWhile_piece hline, List.tail_cons]

theorem getline_end (h : Backlog c done [] []) :
    c.getline = (none, { c with unread := [], buffer := [] }) := by
  have hbuffer : c.buffer = [] := h.buffer
  have hunread : c.unread = [] := h.unread
  simp only [ConsoleInput.World.getline, hbuffer, hunread, List.append_nil, List.not_mem_nil,
    if_false]

theorem commandWord (line : Text) : (split line ' ').headD [] = firstWord line := by
  rw [List.headD_eq_head?_getD, List.head?_eq_some_head (split_ne_nil line ' '), head_split]
  rfl

def Queued (c : ConsoleInput.World) (done pending : List Text) : Prop :=
  ∃ ahead waiting, ahead ++ waiting = pending ∧ Backlog c done ahead waiting

/-- Wherever the next line is, it is the one taken. -/
theorem getline_next {rest : List Text} (h : Queued c done (line :: rest)) :
    ∃ unread buffer, c.getline = (some line, { c with unread := unread, buffer := buffer }) ∧
      ∃ ahead waiting, ahead ++ waiting = rest ∧ buffer = bytesOf ahead ∧
        unread = bytesOf waiting := by
  obtain ⟨ahead, waiting, hp, h⟩ := h
  cases ahead with
  | nil =>
    obtain rfl : waiting = line :: rest := hp
    exact ⟨_, _, getline_waiting h, rest, [], List.append_nil rest, rfl, rfl⟩
  | cons first ahead =>
    obtain ⟨rfl, hrest⟩ := List.cons.inj hp
    exact ⟨c.unread, _, getline_ahead h, ahead, waiting, hrest, rfl, h.unread⟩

theorem execute_queued {rest : List Text} {unread buffer : Text} (h : Queued c done (line :: rest))
    (hrest : ∃ ahead waiting, ahead ++ waiting = rest ∧ buffer = bytesOf ahead ∧
      unread = bytesOf waiting) :
    Queued ({ c with unread := unread, buffer := buffer }.execute (firstWord line))
      (done ++ [line]) rest := by
  obtain ⟨ahead, waiting, hp, hold⟩ := h
  obtain ⟨ahead', waiting', hp', hbuffer, hunread⟩ := hrest
  have hreceived : c.received = done ++ [line] ++ (ahead' ++ waiting') := by
    rw [hold.received, hp, hp', List.append_assoc]
    rfl
  have hlooked : c.lookedUp ++ [firstWord line] = (done ++ [line]).map firstWord := by
    rw [hold.lookedUp, List.map_append]
    rfl
  have hcomplete : ∀ next ∈ ahead' ++ waiting', '\n' ∉ next := by
    intro next hnext
    refine hold.complete next ?_
    rw [hp, ← hp']
    exact List.mem_cons_of_mem line hnext
  refine ⟨ahead', waiting', hp', ?_⟩
  by_cases hexit : firstWord line = "exit".toList
  · rw [hexit] at hlooked
    rw [hexit, execute_exit]
    exact ⟨hreceived, hlooked, hbuffer, hunread, hcomplete⟩
  · rw [execute_other _ hexit]
    exact ⟨hreceived, hlooked, hbuffer, hunread, hcomplete⟩

end Getline

theorem answer_prompts {command : Text} (h : command ≠ "exit".toList) (users documents : List Text) :
    ∃ before, (answer users documents command).1 = before ++ prompt := by
  unfold answer
  split
  · exact ⟨[], rfl⟩
  · next c hc =>
    cases c with
    | exit => exact absurd (cmdMap_exit.mp hc) h
    | help => exact ⟨onCmdHelp, rfl⟩
    | users => exact ⟨onCmdUsers users, rfl⟩
    | documents => exact ⟨onCmdDocuments documents, rfl⟩

structure Serving (w : World) (done pending : List Text) : Prop where
  running : w.console.running = true
  queued : Queued w.console done pending
  stays : "exit".toList ∉ done.map firstWord
  prompts : ∃ before, w.stdout = before ++ prompt

structure Exited (w : World) (done : List Text) (line : Text) (rest : List Text) : Prop where
  running : w.console.running = false
  queued : Queued w.console (done ++ [line]) rest
  exits : firstWord line = "exit".toList
  stays : "exit".toList ∉ done.map firstWord

structure Ended (w : World) (done : List Text) : Prop where
  running : w.console.running = false
  inputEnded : w.inputEnded = true
  queued : Queued w.console done []
  stays : "exit".toList ∉ done.map firstWord

structure Kept (w : World) : Prop where
  interactive : w.console.interactive = true
  stage : (∃ done pending, Serving w done pending) ∨
    (∃ done line rest, Exited w done line rest) ∨ ∃ done, Ended w done

theorem start_kept (banner : Text) : Kept (start true banner) := by
  refine ⟨rfl, Or.inl ⟨[], [], rfl, ⟨[], [], rfl, ?_⟩, by simp, banner, rfl⟩⟩
  exact ⟨rfl, rfl, rfl, rfl, by simp⟩

section Stdin

variable {w : World} {done rest : List Text} {line : Text}

theorem onStdin_next (hi : w.console.interactive = true) (h : Serving w done (line :: rest))
    (users documents : List Text) :
    (w.onStdin users documents).inputEnded = w.inputEnded ∧
      (w.onStdin users documents).console.interactive = true ∧
      (w.onStdin users documents).console.received = w.console.received ∧
      if firstWord line = "exit".toList then Exited (w.onStdin users documents) done line rest
      else Serving (w.onStdin users documents) (done ++ [line]) rest := by
  obtain ⟨unread, buffer, hget, hrest⟩ := getline_next h.queued
  have hqueued := execute_queued h.queued hrest
  have hconsole : w.console.onStdin =
      { w.console with unread := unread, buffer := buffer }.execute (firstWord line) := by
    rw [ConsoleInput.World.onStdin, hget]
    simp only [hi, if_true, head_split, firstWord]
  have hprinted : w.onStdin users documents =
      { w with console := w.console.onStdin }.print
        (answer users documents (firstWord line)).1 (answer users documents (firstWord line)).2 := by
    rw [World.onStdin, hget]
    simp only [answerLine, commandWord]
  rw [hprinted, hconsole]
  by_cases hexit : firstWord line = "exit".toList
  · rw [if_pos hexit]
    refine ⟨rfl, ?_, ?_, ?_, hqueued, hexit, h.stays⟩
    · simp only [World.print, hexit, execute_exit, hi]
    · simp only [World.print, hexit, execute_exit]
    · simp only [World.print, hexit, execute_exit]
  · rw [if_neg hexit]
    have hstays : "exit".toList ∉ (done ++ [line]).map firstWord := by
      simp only [List.map_append, List.map_cons, List.map_nil, List.mem_append,
        List.mem_singleton, not_or]
      exact ⟨h.stays, Ne.symm hexit⟩
    obtain ⟨before, hbefore⟩ := answer_prompts hexit users documents
    refine ⟨rfl, ?_, ?_, ?_, hqueued, hstays, w.stdout ++ before, ?_⟩
    · simp only [World.print, execute_other _ hexit, hi]
    · simp only [World.print, execute_other _ hexit]
    · simp only [World.print, execute_other _ hexit, h.running]
    · simp only [World.print, hbefore, List.append_assoc]

theorem onStdin_end (h : Serving w done []) (hended : w.inputEnded = true)
    (users documents : List Text) :
    Ended (w.onStdin users documents) done ∧
      (w.onStdin users documents).console.interactive = w.console.interactive ∧
      (w.onStdin users documents).console.received = w.console.received := by
  obtain ⟨ahead, waiting, hp, hold⟩ := h.queued
  obtain ⟨rfl, rfl⟩ := List.append_eq_nil_iff.mp hp
  have hconsole : w.console.onStdin =
      { w.console with unread := [], buffer := [], running := false } := by
    rw [ConsoleInput.World.onStdin, getline_end hold]
  have hqueued : Queued w.console.onStdin done [] := by
    rw [hconsole]
    exact ⟨[], [], rfl, hold.received, hold.lookedUp, rfl, rfl, by simp⟩
  refine ⟨⟨?_, hended, hqueued, h.stays⟩, ?_, ?_⟩
  · simp only [World.onStdin, World.print, hconsole]
  · simp only [World.onStdin, World.print, hconsole]
  · simp only [World.onStdin, World.print, hconsole]

end Stdin

theorem stdin_kept {w w' : World} {users documents : List Text} (hw : Kept w)
    (h : step w (.stdin users documents) = some w') : Kept w' := by
  simp only [step] at h
  split at h
  · next hg =>
    obtain ⟨_, hrunning, hready⟩ := hg
    obtain rfl := Option.some.inj h
    obtain ⟨done, pending, hserving⟩ | ⟨done, line, rest, hexited⟩ | ⟨done, hended⟩ := hw.stage
    · cases pending with
      | nil =>
        obtain ⟨ahead, waiting, hp, hold⟩ := hserving.queued
        obtain ⟨rfl, rfl⟩ := List.append_eq_nil_iff.mp hp
        have hended : w.inputEnded = true := hready.resolve_left fun hne => hne hold.unread
        obtain ⟨hdone, hi, _⟩ := onStdin_end hserving hended users documents
        exact ⟨hi.trans hw.interactive, Or.inr (Or.inr ⟨done, hdone⟩)⟩
      | cons line rest =>
        obtain ⟨_, hi, _, hnext⟩ := onStdin_next hw.interactive hserving users documents
        refine ⟨hi, ?_⟩
        split at hnext
        · exact Or.inr (Or.inl ⟨done, line, rest, hnext⟩)
        · exact Or.inl ⟨done ++ [line], rest, hnext⟩
    · rw [hexited.running] at hrunning
      cases hrunning
    · rw [hended.running] at hrunning
      cases hrunning
  · cases h

theorem input_queued {c c' : ConsoleInput.World} {lines done pending : List Text}
    (h : ConsoleInput.step c (.input lines) = some c') (hq : Queued c done pending) :
    Queued c' done (pending ++ lines) := by
  obtain ⟨ahead, waiting, hp, hold⟩ := hq
  simp only [ConsoleInput.step] at h
  split at h
  · next hlines =>
    obtain rfl := Option.some.inj h
    refine ⟨ahead, waiting ++ lines, by rw [← hp, List.append_assoc], ?_⟩
    constructor
    · simp only [hold.received, List.append_assoc]
    · exact hold.lookedUp
    · exact hold.buffer
    · simp only [hold.unread, bytesOf_append]
    · intro line hline
      rw [← List.append_assoc] at hline
      exact (List.mem_append.mp hline).elim (hold.complete line) (hlines line)
  · cases h

theorem input_frame {c c' : ConsoleInput.World} {lines : List Text}
    (h : ConsoleInput.step c (.input lines) = some c') :
    c'.interactive = c.interactive ∧ c'.running = c.running ∧ c'.received = c.received ++ lines := by
  simp only [ConsoleInput.step] at h
  split at h
  · obtain rfl := Option.some.inj h
    exact ⟨rfl, rfl, rfl⟩
  · cases h

theorem input_kept {w w' : World} {lines : List Text} (hw : Kept w)
    (h : step w (.input lines) = some w') : Kept w' := by
  simp only [step] at h
  split at h
  · cases h
  · next hopen =>
    obtain ⟨c, hc, rfl⟩ := Option.map_eq_some_iff.mp h
    obtain ⟨hi, hr, _⟩ := input_frame hc
    refine ⟨hi.trans hw.interactive, ?_⟩
    obtain ⟨done, pending, hs⟩ | ⟨done, line, rest, hx⟩ | ⟨done, he⟩ := hw.stage
    · exact Or.inl ⟨done, pending ++ lines, hr.trans hs.running, input_queued hc hs.queued, hs.stays,
        hs.prompts⟩
    · exact Or.inr (Or.inl ⟨done, line, rest ++ lines, hr.trans hx.running, input_queued hc hx.queued,
        hx.exits, hx.stays⟩)
    · exact absurd he.inputEnded hopen

theorem autosaveError_kept {w : World} (hw : Kept w) (what : Text) :
    Kept (w.showError what) := by
  rw [World.showError, hw.interactive]
  refine ⟨hw.interactive, ?_⟩
  obtain ⟨done, pending, hs⟩ | ⟨done, line, rest, hx⟩ | ⟨done, he⟩ := hw.stage
  · exact Or.inl ⟨done, pending, hs.running, hs.queued, hs.stays, w.stdout, rfl⟩
  · exact Or.inr (Or.inl ⟨done, line, rest, hx.running, hx.queued, hx.exits, hx.stays⟩)
  · exact Or.inr (Or.inr ⟨done, he.running, he.inputEnded, he.queued, he.stays⟩)

theorem endOfInput_kept {w : World} (hw : Kept w) : Kept { w with inputEnded := true } := by
  refine ⟨hw.interactive, ?_⟩
  obtain ⟨done, pending, hs⟩ | ⟨done, line, rest, hx⟩ | ⟨done, he⟩ := hw.stage
  · exact Or.inl ⟨done, pending, hs.running, hs.queued, hs.stays, hs.prompts⟩
  · exact Or.inr (Or.inl ⟨done, line, rest, hx.running, hx.queued, hx.exits, hx.stays⟩)
  · exact Or.inr (Or.inr ⟨done, he.running, rfl, he.queued, he.stays⟩)

theorem kept_step (w : World) (e : Event) (w' : World) (hw : Kept w) (h : step w e = some w') :
    Kept w' := by
  cases e with
  | input lines => exact input_kept hw h
  | endOfInput =>
    obtain rfl := Option.some.inj h
    exact endOfInput_kept hw
  | stdin users documents => exact stdin_kept hw h
  | autosaveError what =>
    obtain rfl := Option.some.inj h
    exact autosaveError_kept hw what

theorem stdin_ready {w : World} (hi : w.console.interactive = true)
    (hr : w.console.running = true) (he : w.inputEnded = true) (users documents : List Text) :
    step w (.stdin users documents) = some (w.onStdin users documents) := by
  simp only [step]
  rw [if_pos ⟨hi, hr, Or.inr he⟩]

theorem upToExit_stays {commands : List Text} (h : "exit".toList ∉ commands) :
    upToExit commands = commands := by
  have hall := upToExit_append h []
  rwa [List.append_nil, upToExit, List.append_nil] at hall

theorem Exited.lookedUp {w : World} {done rest : List Text} {line : Text}
    (h : Exited w done line rest) :
    w.console.lookedUp = done.map firstWord ++ ["exit".toList] := by
  obtain ⟨ahead, waiting, _, hold⟩ := h.queued
  rw [hold.lookedUp, List.map_append, List.map_cons, h.exits, List.map_nil]

theorem Queued.order {c : ConsoleInput.World} {done pending : List Text}
    (h : Queued c done pending) :
    c.received = done ++ pending ∧ c.lookedUp = done.map firstWord ∧
      c.buffer ++ c.unread = bytesOf pending := by
  obtain ⟨ahead, waiting, hp, hold⟩ := h
  refine ⟨by rw [hold.received, hp], hold.lookedUp, ?_⟩
  rw [hold.buffer, hold.unread, ← bytesOf_append, hp]

/-- The backlog is worked off line by line, by induction on what is left of it. -/
theorem works_off (users documents : List Text) (pending : List Text) {w : World} {done : List Text}
    (hi : w.console.interactive = true) (he : w.inputEnded = true) (hs : Serving w done pending) :
    ∃ n w', run step w (List.replicate n (.stdin users documents)) = some w' ∧
      w'.console.running = false ∧
      w'.console.lookedUp = upToExit (w.console.received.map firstWord) := by
  induction pending generalizing w done with
  | nil =>
    have hreceived := hs.queued.order.1
    obtain ⟨hend, _, _⟩ := onStdin_end hs he users documents
    refine ⟨1, w.onStdin users documents, ?_, hend.running, ?_⟩
    · simp only [List.replicate, run, stdin_ready hi hs.running he, Option.bind_some]
    · rw [hend.queued.order.2.1, hreceived, List.append_nil, upToExit_stays hs.stays]
  | cons line rest ih =>
    have hreceived := hs.queued.order.1
    obtain ⟨hended, hi', hsame, hnext⟩ := onStdin_next hi hs users documents
    by_cases hexit : firstWord line = "exit".toList
    · rw [if_pos hexit] at hnext
      refine ⟨1, w.onStdin users documents, ?_, hnext.running, ?_⟩
      · simp only [List.replicate, run, stdin_ready hi hs.running he, Option.bind_some]
      · rw [hnext.lookedUp, hreceived, List.map_append, upToExit_append hs.stays, List.map_cons, hexit]
        rfl
    · rw [if_neg hexit] at hnext
      obtain ⟨n, w', hrun, hstopped, hlooked⟩ := ih hi' (hended.trans he) hnext
      refine ⟨n + 1, w', ?_, hstopped, hlooked.trans (by rw [hsame])⟩
      simp only [List.replicate_succ, run, stdin_ready hi hs.running he, Option.bind_some, hrun]

theorem Kept.converses {w : World} (hw : Kept w) : Converses w := by
  obtain ⟨done, pending, hs⟩ | ⟨done, line, rest, hx⟩ | ⟨done, he⟩ := hw.stage
  · obtain ⟨hreceived, hlooked, hbytes⟩ := hs.queued.order
    constructor
    · exact ⟨done, pending, hreceived, hlooked, hbytes⟩
    · intro hmem
      exact hs.stays (hlooked ▸ List.dropLast_subset _ hmem)
    · intro hmem
      exact absurd (hlooked ▸ hmem) hs.stays
    · intro hr
      rw [hs.running] at hr
      cases hr
    · exact fun _ => hs.prompts
    · exact fun he _ users documents => works_off users documents pending hw.interactive he hs
  · obtain ⟨hreceived, _, hbytes⟩ := hx.queued.order
    constructor
    · exact ⟨done ++ [line], rest, hreceived, hx.queued.order.2.1, hbytes⟩
    · rw [hx.lookedUp, List.dropLast_concat]
      exact hx.stays
    · exact fun _ => hx.running
    · intro _
      rw [hx.lookedUp]
      exact Or.inl (by simp)
    · intro hr
      rw [hx.running] at hr
      cases hr
    · intro _ hr
      rw [hx.running] at hr
      cases hr
  · obtain ⟨hreceived, hlooked, hbytes⟩ := he.queued.order
    constructor
    · exact ⟨done, [], hreceived, hlooked, hbytes⟩
    · intro hmem
      exact he.stays (hlooked ▸ List.dropLast_subset _ hmem)
    · exact fun _ => he.running
    · intro _
      refine Or.inr ⟨he.inputEnded, ?_⟩
      rw [hlooked, hreceived, List.append_nil]
    · intro hr
      rw [he.running] at hr
      cases hr
    · intro _ hr
      rw [he.running] at hr
      cases hr

/-- Whatever is typed ahead, the console takes it line by line and in order, and works off all of
it once the input has ended. -/
theorem lines_are_taken_in_order (banner : Text) (es : List Event) :
    Always step Converses (start true banner) es := by
  have hC : EveryStep step (fun _ _ => True) (start true banner) es :=
    everyStep_of_forall fun _ _ _ => trivial
  have hI : Always step Kept (start true banner) es :=
    always_of_invariant (fun w e w' hw _ h => kept_step w e w' hw h) (start_kept banner) hC
  exact always_mono (fun _ hw => hw.converses) hI

theorem onStdin_received (c : ConsoleInput.World) : c.onStdin.received = c.received := by
  have hget : c.getline.2.received = c.received := by
    simp only [ConsoleInput.World.getline]
    split
    · rfl
    · split
      · rfl
      · rfl
  unfold ConsoleInput.World.onStdin
  split
  · next hc =>
    rw [hc] at hget
    exact hget
  · next line after hc =>
    rw [hc] at hget
    split
    · by_cases hexit : (split line ' ').head (split_ne_nil line ' ') = "exit".toList
      · rw [hexit, execute_exit]
        exact hget
      · rw [execute_other _ hexit]
        exact hget
    · exact hget

theorem stdin_cases {w w' : World} {users documents : List Text}
    (h : step w (.stdin users documents) = some w') :
    w.console.interactive = true ∧ w.console.running = true ∧
      w' = w.onStdin users documents := by
  simp only [step] at h
  split at h
  · next hg => exact ⟨hg.1, hg.2.1, (Option.some.inj h).symm⟩
  · cases h

theorem silent_step (w : World) (e : Event) (w' : World)
    (hw : w.console.interactive = false ∧ w.console.running = true) (h : step w e = some w') :
    w'.console.interactive = false ∧ w'.console.running = true := by
  cases e with
  | input lines =>
    simp only [step] at h
    split at h
    · cases h
    · obtain ⟨c, hc, rfl⟩ := Option.map_eq_some_iff.mp h
      obtain ⟨hi, hr, _⟩ := input_frame hc
      exact ⟨hi.trans hw.1, hr.trans hw.2⟩
  | endOfInput =>
    obtain rfl := Option.some.inj h
    exact hw
  | stdin users documents =>
    obtain ⟨hi, _, _⟩ := stdin_cases h
    rw [hw.1] at hi
    cases hi
  | autosaveError what =>
    obtain rfl := Option.some.inj h
    exact hw

end ConsoleSession
