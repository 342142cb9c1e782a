import Sobby.StepMachine
import Sobby.Strings

/-! The interactive console. The main loop watches the descriptor of the standard input, while
`on_stdin` takes one line at a time from a stream that reads everything the descriptor has. -/
namespace ConsoleInput

open StepMachine
open Strings (Text substr)

/-- `std::string::find` of a character from a position on. -/
def find (s : Text) (c : Char) (pos : ℕ) : Option ℕ :=
  ((s.drop pos).findIdx? (· = c)).map (· + pos)

theorem find_some {s : Text} {c : Char} {pos i : ℕ} (h : find s c pos = some i) :
    ∃ piece, s.drop pos = piece ++ c :: s.drop (i + 1) ∧ c ∉ piece ∧ pos + piece.length = i := by
  obtain ⟨k, hk, rfl⟩ := Option.map_eq_some_iff.mp h
  obtain ⟨hlt, hc, hbefore⟩ := List.findIdx?_eq_some_iff_getElem.mp hk
  have hc' : (s.drop pos)[k] = c := by simpa using hc
  refine ⟨(s.drop pos).take k, ?_, fun hm => ?_, ?_⟩
  · have hrest : (s.drop pos).drop k = c :: s.drop (k + pos + 1) := by
      rw [List.drop_eq_getElem_cons hlt, hc', List.drop_drop, Nat.add_comm pos, Nat.add_right_comm]
    rw [← hrest, List.take_append_drop]
  · obtain ⟨j, hj, hjc⟩ := List.mem_take_iff_getElem.mp hm
    have hno := hbefore j (by omega)
    simp [hjc] at hno
  · rw [List.length_take, Nat.min_eq_left hlt.le, Nat.add_comm]

theorem find_none {s : Text} {c : Char} {pos : ℕ} (h : find s c pos = none) :
    c ∉ s.drop pos := by
  intro hc
  have hno := List.findIdx?_eq_none_iff.mp (Option.map_eq_none_iff.mp h)
  simpa using hno c hc

theorem find_lt {s : Text} {c : Char} {pos i : ℕ} (h : find s c pos = some i) : i < s.length ∧
    pos ≤ i := by
  obtain ⟨piece, hsplit, _, hlen⟩ := find_some h
  have hlength := congrArg List.length hsplit
  simp only [List.length_drop, List.length_append, List.length_cons] at hlength
  omega

/-- The loop of `split` with its two cursors. -/
def splitLoop (line : Text) (separator : Char) (pos prev : ℕ) (res : List Text) : List Text :=
  match _h : find line separator pos with
  | some i => splitLoop line separator (i + 1) (i + 1) (res ++ [(line.drop prev).take (i - prev)])
  | none => res ++ [substr line prev]
termination_by line.length - pos
decreasing_by
  have hlt := find_lt _h
  omega

def split (line : Text) (separator : Char) : List Text := splitLoop line separator 0 0 []

/-- Whenever the loop begins its cursors are at the same place. -/
theorem splitLoop_eq (line : Text) (separator : Char) (pos : ℕ) (res : List Text) :
    splitLoop line separator pos pos res = res ++ (line.drop pos).splitOn separator := by
  induction hn : line.length - pos using Nat.strong_induction_on generalizing pos res with
  | _ n ih =>
    rw [splitLoop]
    split
    · next i hfind =>
      obtain ⟨piece, hsplit, hpiece, hlen⟩ := find_some hfind
      have hlt := find_lt hfind
      have htake : (line.drop pos).take (i - pos) = piece := by
        rw [hsplit, show i - pos = piece.length by omega, List.take_left]
      rw [ih (line.length - (i + 1)) (by omega) (i + 1) _ rfl, htake, hsplit,
        List.splitOn_append_cons_self, List.splitOn_eq_singleton hpiece, List.append_assoc]
    · next hfind =>
      rw [List.splitOn_eq_singleton (find_none hfind)]
      rfl

theorem split_eq (line : Text) (separator : Char) :
    split line separator = line.splitOn separator := by
  rw [split, splitLoop_eq, List.drop_zero, List.nil_append]

theorem split_ne_nil (line : Text) (separator : Char) : split line separator ≠ [] := by
  rw [split_eq]
  exact List.splitOn_ne_nil separator line

theorem takeWhile_self {c : Char} {piece : Text} (h : c ∉ piece) :
    piece.takeWhile (· ≠ c) = piece := by
  apply List.takeWhile_eq_self_iff.mpr
  intro x hx
  have hne : x ≠ c := fun he => h (he ▸ hx)
  simpa using hne

theorem takeWhile_piece {c : Char} {piece : Text} (h : c ∉ piece) (rest : Text) :
    (piece ++ c :: rest).takeWhile (· ≠ c) = piece := by
  rw [List.takeWhile_append, takeWhile_self h]
  simp

theorem dropWhile_piece {c : Char} {piece : Text} (h : c ∉ piece) (rest : Text) :
    (piece ++ c :: rest).dropWhile (· ≠ c) = c :: rest := by
  have hsplit := List.takeWhile_append_dropWhile (p := (· ≠ c)) (l := piece ++ c :: rest)
  rw [takeWhile_piece h] at hsplit
  exact List.append_cancel_left hsplit

theorem head_split (line : Text) (separator : Char) :
    (split line separator).head (split_ne_nil line separator) =
      line.takeWhile (· ≠ separator) := by
  by_cases hmem : separator ∈ line
  · obtain ⟨piece, rest, rfl, hpiece⟩ := List.eq_append_cons_of_mem hmem
    have hsplit : split (piece ++ separator :: rest) separator =
        piece :: rest.splitOn separator := by
      rw [split_eq, List.splitOn_append_cons_self_of_not_mem hpiece]
    simp only [hsplit, List.head_cons, takeWhile_piece hpiece]
  · have hsplit : split line separator = [line] := by
      rw [split_eq, List.splitOn_eq_singleton hmem]
    simp only [hsplit, List.head_cons, takeWhile_self hmem]

inductive Command where
  | exit
  | help
  | users
  | documents
  deriving DecidableEq, Repr

/-- `m_cmd_map` -/
def cmdMap (command : Text) : Option Command :=
  if command = "exit".toList then some .exit
  else if command = "help".toList then some .help
  else if command = "users".toList then some .users
  else if command = "documents".toList then some .documents
  else none

/-- The bytes on the descriptor, those the stream has read ahead, and the history: the complete
lines that have arrived and the commands that have been looked up. -/
structure World where
  interactive : Bool
  unread : Text
  buffer : Text
  running : Bool
  received : List Text
  lookedUp : List Text
  deriving DecidableEq

def start (interactive : Bool) : World := ⟨interactive, [], [], true, [], []⟩

/-- The input arrives in chunks of complete lines. -/
inductive Event where
  | input (lines : List Text)
  | stdin
  deriving DecidableEq, Repr

def bytesOf (lines : List Text) : Text := lines.flatMap (· ++ ['\n'])

/-- `std::getline` looks for the end of a line in what has been read ahead, and if there is none
reads all that the descriptor has. It fails when the input ends. -/
def World.getline (w : World) : Option Text × World :=
  let pending := if '\n' ∈ w.buffer then w.buffer else w.buffer ++ w.unread
  let unread := if '\n' ∈ w.buffer then w.unread else []
  if '\n' ∈ pending then
    (some (pending.takeWhile (· ≠ '\n')),
      { w with unread := unread, buffer := (pending.dropWhile (· ≠ '\n')).tail })
  else (none, { w with unread := unread, buffer := [] })

def World.execute (w : World) (command : Text) : World :=
  let w := { w with lookedUp := w.lookedUp ++ [command] }
  match cmdMap command with
  | some .exit => { w with running := false }
  | _ => w

/-- Only `exit` matters here: the other commands and an unknown one print and return. -/
def World.onStdin (w : World) : World :=
  match w.getline with
  | (none, w) => { w with running := false }
  | (some line, w) =>
    if w.interactive then w.execute ((split line ' ').head (split_ne_nil line ' ')) else w

def step (w : World) : Event → Option World
  | .input lines =>
    if ∀ line ∈ lines, '\n' ∉ line then
      some { w with unread := w.unread ++ bytesOf lines, received := w.received ++ lines }
    else none
  | .stdin => if w.interactive ∧ w.running ∧ w.unread ≠ [] then some w.onStdin else none

def firstWord (line : Text) : Text := line.takeWhile (· ≠ ' ')

def upToExit : List Text → List Text
  | [] => []
  | command :: rest =>
    if command = "exit".toList then [command] else command :: upToExit rest

/-- Asked of every state: with nothing left on the descriptor, the commands looked up are those
of the lines that have arrived. -/
def AllExecuted (w : World) : Prop :=
  w.unread = [] → w.lookedUp = upToExit (w.received.map firstWord)

def OneLineWaits (w : World) (e : Event) : Prop :=
  e = .stdin → ∃ line rest, w.unread = line ++ '\n' :: rest ∧ '\n' ∉ line ∧
    (rest = [] ∨ firstWord line = "exit".toList)

theorem upToExit_append {done : List Text} (h : "exit".toList ∉ done) (rest : List Text) :
    upToExit (done ++ rest) = done ++ upToExit rest := by
  induction done with
  | nil => rfl
  | cons command done ih =>
    rw [List.mem_cons, not_or] at h
    obtain ⟨hne, hdone⟩ := h
    rw [List.cons_append, upToExit, if_neg (Ne.symm hne), ih hdone]
    rfl

theorem upToExit_ne_nil {commands : List Text} (h : commands ≠ []) : upToExit commands ≠ [] := by
  cases commands with
  | nil => exact absurd rfl h
  | cons command rest =>
    rw [upToExit]
    split
    · simp
    · simp

theorem cmdMap_exit {command : Text} : cmdMap command = some .exit ↔ command = "exit".toList := by
  unfold cmdMap
  split
  · next h => simp [h]
  · next h =>
    simp only [h, iff_false]
    split
    · simp
    · split
      · simp
      · split
        · simp
        · simp

theorem execute_exit (w : World) : w.execute "exit".toList =
    { w with lookedUp := w.lookedUp ++ ["exit".toList], running := false } := rfl

theorem execute_other (w : World) {command : Text} (h : command ≠ "exit".toList) :
    w.execute command = { w with lookedUp := w.lookedUp ++ [command] } := by
  have hcmd : cmdMap command ≠ some .exit := fun hexit => h (cmdMap_exit.mp hexit)
  simp only [World.execute]

theorem onStdin_line {w : World} {line rest : Text} (hinteractive : w.interactive = true)
    (hbuffer : w.buffer = []) (hunread : w.unread = line ++ '\n' :: rest) (hline : '\n' ∉ line) :
    w.onStdin = { w with unread := [], buffer := rest }.execute (firstWord line) := by
  have hget : w.getline = (some line, { w with unread := [], buffer := rest }) := by
    have hmem : '\n' ∈ line ++ '\n' :: rest := by simp
    simp only [World.getline, hbuffer, hunread, List.not_mem_nil, if_false, List.nil_append, hmem,
      if_true, takeWhile_piece hline, dropWhile_piece hline, List.tail_cons]
  rw [World.onStdin, hget]
  simp only [hinteractive, if_true, head_split, firstWord]

structure Waiting (w : World) (done pending : List Text) : Prop where
  running : w.running = true
  buffer : w.buffer = []
  received : w.received = done ++ pending
  unread : w.unread = bytesOf pending
  lookedUp : w.lookedUp = done.map firstWord
  stays : "exit".toList ∉ done.map firstWord
  complete : ∀ line ∈ pending, '\n' ∉ line

structure Ended (w : World) (done : List Text) (line : Text) (rest : List Text) : Prop where
  running : w.running = false
  received : w.received = done ++ line :: rest
  lookedUp : w.lookedUp = done.map firstWord ++ ["exit".toList]
  exits : firstWord line = "exit".toList
  stays : "exit".toList ∉ done.map firstWord

structure Served (w : World) : Prop where
  interactive : w.interactive = true
  lines : (∃ done pending, Waiting w done pending) ∨ ∃ done line rest, Ended w done line rest

theorem start_served : Served (start true) :=
  ⟨rfl, Or.inl ⟨[], [], rfl, rfl, rfl, rfl, rfl, by simp, by simp⟩⟩

theorem Served.allExecuted {w : World} (hw : Served w) : AllExecuted w := by
  intro hunread
  obtain ⟨done, pending, h⟩ | ⟨done, line, rest, h⟩ := hw.lines
  · have hnone : pending = [] := by
      cases pending with
      | nil => rfl
      | cons line pending =>
        rw [h.unread] at hunread
        simp [bytesOf] at hunread
    rw [h.lookedUp, h.received, hnone, List.append_nil]
    have hall := upToExit_append h.stays []
    rw [List.append_nil] at hall
    rw [hall, upToExit, List.append_nil]
  · rw [h.lookedUp, h.received, List.map_append, upToExit_append h.stays, List.map_cons, h.exits]
    rfl

theorem input_served {w w' : World} {lines : List Text} (hw : Served w)
    (h : step w (.input lines) = some w') : Served w' := by
  simp only [step] at h
  split at h
  · next hlines =>
    obtain rfl := Option.some.inj h
    refine ⟨hw.interactive, ?_⟩
    obtain ⟨done, pending, h⟩ | ⟨done, line, rest, h⟩ := hw.lines
    · refine Or.inl ⟨done, pending ++ lines, h.running, h.buffer, ?_, ?_, h.lookedUp, h.stays, ?_⟩
      · simp [h.received]
      · simp [h.unread, bytesOf]
      · intro line hline
        exact (List.mem_append.mp hline).elim (h.complete line) (hlines line)
    · exact Or.inr ⟨done, line, rest ++ lines, h.running, by simp [h.received], h.lookedUp, h.exits,
        h.stays⟩
  · cases h

theorem stdin_cases {w w' : World} (hw : Served w) (h : step w .stdin = some w') :
    ∃ done line pending, Waiting w done (line :: pending) ∧
      w' = { w with unread := [], buffer := bytesOf pending }.execute (firstWord line) := by
  simp only [step] at h
  split at h
  · next hg =>
    obtain ⟨hinteractive, hrunning, hunread⟩ := hg
    obtain ⟨done, pending, hwait⟩ | ⟨done, line, rest, hended⟩ := hw.lines
    · cases pending with
      | nil => exact absurd hwait.unread hunread
      | cons line pending =>
        refine ⟨done, line, pending, hwait, ?_⟩
        have hbytes : w.unread = line ++ '\n' :: bytesOf pending := by
          rw [hwait.unread]
          simp [bytesOf]
        rw [← Option.some.inj h]
        exact onStdin_line hinteractive hwait.buffer hbytes (hwait.complete line (by simp))
    · rw [hended.running] at hrunning
      cases hrunning
  · cases h

theorem oneLineWaits_iff {w : World} {done pending : List Text} {line : Text}
    (h : Waiting w done (line :: pending)) :
    OneLineWaits w .stdin ↔ pending = [] ∨ firstWord line = "exit".toList := by
  have hbytes : w.unread = line ++ '\n' :: bytesOf pending := by
    rw [h.unread]
    simp [bytesOf]
  have hline := h.complete line (by simp)
  constructor
  · intro hone
    obtain ⟨line', rest, hunread, hline', hrest⟩ := hone rfl
    rw [hbytes] at hunread
    have hsame := congrArg (List.takeWhile (· ≠ '\n')) hunread
    rw [takeWhile_piece hline, takeWhile_piece hline'] at hsame
    subst hsame
    have hpending : bytesOf pending = rest := (List.cons.inj (List.append_cancel_left hunread)).2
    rcases hrest with hrest | hexit
    · left
      cases pending with
      | nil => rfl
      | cons next pending =>
        rw [hrest] at hpending
        simp [bytesOf] at hpending
    · exact Or.inr hexit
  · intro hcases _
    refine ⟨line, bytesOf pending, hbytes, hline, ?_⟩
    rcases hcases with rfl | hexit
    · exact Or.inl rfl
    · exact Or.inr hexit

theorem Waiting.stays_line {w : World} {done pending : List Text} {line : Text}
    (h : Waiting w done (line :: pending)) (hline : firstWord line ≠ "exit".toList) :
    "exit".toList ∉ (done ++ [line]).map firstWord := by
  simp only [List.map_append, List.map_cons, List.map_nil, List.mem_append, List.mem_singleton,
    not_or]
  exact ⟨h.stays, Ne.symm hline⟩

theorem stdin_served {w w' : World} (hw : Served w) (hone : OneLineWaits w .stdin)
    (h : step w .stdin = some w') : Served w' := by
  obtain ⟨done, line, pending, hwait, rfl⟩ := stdin_cases hw h
  by_cases hexit : firstWord line = "exit".toList
  · rw [hexit, execute_exit]
    refine ⟨hw.interactive, Or.inr ⟨done, line, pending, rfl, hwait.received, ?_, hexit,
      hwait.stays⟩⟩
    simp only [hwait.lookedUp]
  · have hlast : pending = [] := ((oneLineWaits_iff hwait).mp hone).resolve_right hexit
    rw [execute_other _ hexit]
    refine ⟨hw.interactive, Or.inl ⟨done ++ [line], [], hwait.running, ?_, ?_, rfl, ?_,
      hwait.stays_line hexit, by simp⟩⟩
    · rw [hlast]
      rfl
    · rw [hwait.received, hlast, List.append_nil]
    · rw [hwait.lookedUp, List.map_append]
      rfl

theorem more_lines_lost {w w' : World} (hw : Served w) (hone : ¬ OneLineWaits w .stdin)
    (h : step w .stdin = some w') : ¬ AllExecuted w' := by
  obtain ⟨done, line, pending, hwait, rfl⟩ := stdin_cases hw h
  rw [oneLineWaits_iff hwait, not_or] at hone
  obtain ⟨hpending, hexit⟩ := hone
  rw [execute_other _ hexit]
  intro hall
  have hlooked : done.map firstWord ++ [firstWord line] =
      upToExit (w.received.map firstWord) := by
    rw [← hwait.lookedUp]
    exact hall rfl
  have hreceived : w.received.map firstWord =
      (done ++ [line]).map firstWord ++ pending.map firstWord := by
    rw [hwait.received]
    simp
  rw [hreceived, upToExit_append (hwait.stays_line hexit), List.map_append, List.map_cons,
    List.map_nil, List.self_eq_append_right] at hlooked
  have hsome : pending.map firstWord ≠ [] := fun hnil => hpending (List.map_eq_nil_iff.mp hnil)
  exact upToExit_ne_nil hsome hlooked

/-- Every line is executed exactly if the lines arrive one at a time. -/
theorem every_line_executed_iff (es : List Event) :
    Always step AllExecuted (start true) es ↔ EveryStep step OneLineWaits (start true) es := by
  have hD : EveryStep step (fun _ _ => True) (start true) es :=
    everyStep_of_forall fun _ _ _ => trivial
  refine always_iff_everyStep (fun _ hw => hw.allExecuted) ?_ ?_ start_served hD
  · intro w e w' hw _ hone h
    cases e with
    | input lines => exact input_served hw h
    | stdin => exact stdin_served hw hone h
  · intro w e w' hw _ hone h
    cases e with
    | input lines => exact absurd (fun h => by cases h) hone
    | stdin => exact more_lines_lost hw hone h

def typedAhead : List Event := [.input ["users".toList, "help".toList], .stdin]

/-- `help` waits in the stream, and nothing on the descriptor wakes the callback. -/
theorem help_not_executed :
    ¬ Always step AllExecuted (start true) typedAhead ∧
    ∃ w, run step (start true) typedAhead = some w ∧ w.buffer = "help\n".toList ∧
      w.lookedUp = ["users".toList] ∧ step w .stdin = none := by
  have harrive : step (start true) (.input ["users".toList, "help".toList]) =
      some ⟨true, "users\nhelp\n".toList, [], true, ["users".toList, "help".toList], []⟩ := by
    decide
  have hunread : "users\nhelp\n".toList = "users".toList ++ '\n' :: "help\n".toList := by decide
  have hline : World.onStdin
      ⟨true, "users\nhelp\n".toList, [], true, ["users".toList, "help".toList], []⟩ =
      ⟨true, [], "help\n".toList, true, ["users".toList, "help".toList], ["users".toList]⟩ := by
    rw [onStdin_line rfl rfl hunread (by decide)]
    decide
  have hrun : run step (start true) typedAhead =
      some ⟨true, [], "help\n".toList, true, ["users".toList, "help".toList],
        ["users".toList]⟩ := by
    simp only [typedAhead, run, harrive, Option.bind_some]
    rw [step, if_pos ⟨rfl, rfl, by decide⟩, hline]
    rfl
  refine ⟨fun h => ?_, _, hrun, rfl, rfl, rfl⟩
  have hall := always_last h hrun rfl
  exact absurd hall (by decide)

end ConsoleInput
