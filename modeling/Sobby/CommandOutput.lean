import Sobby.StepMachine
import Sobby.PathNames
import Sobby.IoConditions

/-! Commands run for the users of the session. Each running command writes to a pipe of its
own; the main loop calls `on_out` for the read end, which collects the output and sends it when
the command is done. -/
namespace CommandOutput

open StepMachine
open IoConditions
open PathNames (pathGetBasename)
open Strings (Text)

abbrev Fd := ℕ

structure CommandExecuter where
  commandDir : Text
  commandOut : Fd → Option Text

inductive ReadResult where
  | bytes (chunk : Text)
  | error
  deriving DecidableEq, Repr

inductive SpawnResult where
  | launched (outFd : Fd)
  | threw (what : Text)
  deriving DecidableEq, Repr

/-- `finished` also records all that the command has written to its pipe. -/
inductive Observation where
  | sentMessage (message : Text)
  | spawned (workingDirectory : Text) (argv : List Text) (outFd : Fd)
  | chunk (fd : Fd) (bytes : Text)
  | finished (fd : Fd) (message : Text) (written : Text)
  deriving DecidableEq, Repr

def usage : Text := "Usage: /command <script to execute> <params>".toList

/-- The arguments of the script, the name of the user before those of the request. -/
def commandArgv (user script : Text) (params : List Text) : List Text :=
  pathGetBasename script :: user :: params

/-- What `on_out` answers: a chunk it has stored, and the message if the command is done. -/
structure OnOut where
  executer : CommandExecuter
  stored : Option Text
  message : Option Text

def CommandExecuter.append (x : CommandExecuter) (fd : Fd) (chunk : Text) : CommandExecuter :=
  { x with
    commandOut := Function.update x.commandOut fd (some ((x.commandOut fd).getD [] ++ chunk)) }

def CommandExecuter.done (x : CommandExecuter) (fd : Fd) : OnOut where
  executer := { x with commandOut := Function.update x.commandOut fd none }
  stored := none
  message := some ((x.commandOut fd).getD [])

/-- The callback keeps its source as long as it has no message to send. -/
def CommandExecuter.onOut (x : CommandExecuter) (io : GCondition) (fd : Fd)
    (read : ReadResult) : OnOut :=
  if io &&& (gErr ||| gHup) ≠ gNone then x.done fd
  else if io &&& gIn ≠ gNone then
    match read with
    | .error => x.done fd
    | .bytes chunk => if chunk = [] then x.done fd else ⟨x.append fd chunk, some chunk, none⟩
  else ⟨x, none, none⟩

/-- A pipe as the server sees it. The command closes it when it ends, at the latest. -/
structure Pipe where
  written : Text
  unread : Text
  closed : Bool
  deriving DecidableEq, Repr

/-- `running` are the read ends with a live `on_out` source. A read end stays open in the
server; the history is newest first. -/
structure World where
  executer : CommandExecuter
  running : Finset Fd
  pipe : Fd → Option Pipe
  trace : List Observation

def start (commandDir : Text) : World := ⟨⟨commandDir, fun _ => none⟩, ∅, fun _ => none, []⟩

inductive Event where
  | command (user paramlist : Text) (spawn : SpawnResult)
  | write (fd : Fd) (bytes : Text)
  | close (fd : Fd)
  | callback (io : GCondition) (fd : Fd) (read : ReadResult)
  deriving DecidableEq, Repr

def World.send (w : World) (message : Text) : World :=
  { w with trace := .sentMessage message :: w.trace }

/-- `on_command`. The pipe of a new command is not the pipe of a running one. -/
def World.onCommand (w : World) (paramlist : Text → Except Text (List Text)) (user : Text)
    (request : Text) (spawn : SpawnResult) : Option World :=
  match paramlist request with
  | .error what => some (w.send what)
  | .ok [] => some (w.send usage)
  | .ok (script :: params) =>
    match spawn with
    | .threw what => some (w.send what)
    | .launched outFd =>
      if outFd ∈ w.running then none
      else some { w with
        running := insert outFd w.running
        pipe := Function.update w.pipe outFd (some ⟨[], [], false⟩)
        trace := .spawned w.executer.commandDir (commandArgv user script params) outFd :: w.trace }

def World.write (w : World) (fd : Fd) (bytes : Text) : Option World :=
  match w.pipe fd with
  | none => none
  | some p =>
    if p.closed then none
    else some { w with
      pipe := Function.update w.pipe fd (some ⟨p.written ++ bytes, p.unread ++ bytes, false⟩) }

def World.close (w : World) (fd : Fd) : Option World :=
  match w.pipe fd with
  | none => none
  | some p =>
    if p.closed then none
    else some { w with pipe := Function.update w.pipe fd (some { p with closed := true }) }

/-- The main loop calls `on_out` for a live source, whatever the condition it reports. -/
def World.callback (w : World) (io : GCondition) (fd : Fd) (read : ReadResult) : Option World :=
  match w.pipe fd with
  | none => none
  | some p =>
    if fd ∈ w.running then
      let r := w.executer.onOut io fd read
      match r.message with
      | some message => some { w with
          executer := r.executer
          running := w.running.erase fd
          trace := .finished fd message p.written :: w.trace }
      | none =>
        match r.stored with
        | none => some { w with executer := r.executer }
        | some chunk => some { w with
            executer := r.executer
            pipe := Function.update w.pipe fd (some { p with unread := p.unread.drop chunk.length })
            trace := .chunk fd chunk :: w.trace }
    else none

def step (paramlist : Text → Except Text (List Text)) (w : World) : Event → Option World
  | .command user request spawn => w.onCommand paramlist user request spawn
  | .write fd bytes => w.write fd bytes
  | .close fd => w.close fd
  | .callback io fd read => w.callback io fd read

theorem onOut_hup (x : CommandExecuter) {io : GCondition} (h : io &&& (gErr ||| gHup) ≠ gNone)
    (fd : Fd) (read : ReadResult) : x.onOut io fd read = x.done fd := by
  simp [CommandExecuter.onOut, h]

theorem onOut_cases (x : CommandExecuter) {io : GCondition} (h : io &&& (gErr ||| gHup) = gNone)
    (fd : Fd) (read : ReadResult) :
    (io &&& gIn = gNone ∧ x.onOut io fd read = ⟨x, none, none⟩) ∨
    (io &&& gIn ≠ gNone ∧ (read = .error ∨ read = .bytes []) ∧ x.onOut io fd read = x.done fd) ∨
    (∃ chunk, io &&& gIn ≠ gNone ∧ read = .bytes chunk ∧ chunk ≠ [] ∧
      x.onOut io fd read = ⟨x.append fd chunk, some chunk, none⟩) := by
  by_cases hin : io &&& gIn = gNone
  · exact Or.inl ⟨hin, by simp [CommandExecuter.onOut, h, hin]⟩
  · cases read with
    | error => exact Or.inr (Or.inl ⟨hin, Or.inl rfl, by simp [CommandExecuter.onOut, h, hin]⟩)
    | bytes chunk =>
      by_cases hc : chunk = []
      · subst hc
        exact Or.inr (Or.inl ⟨hin, Or.inr rfl, by simp [CommandExecuter.onOut, h, hin]⟩)
      · exact Or.inr (Or.inr ⟨chunk, hin, rfl, hc, by simp [CommandExecuter.onOut, h, hin, hc]⟩)

def World.finished (w : World) (fd : Fd) (written : Text) : World :=
  { w with
    executer := (w.executer.done fd).executer
    running := w.running.erase fd
    trace := .finished fd ((w.executer.commandOut fd).getD []) written :: w.trace }

def World.stored (w : World) (fd : Fd) (p : Pipe) (chunk : Text) : World :=
  { w with
    executer := w.executer.append fd chunk
    pipe := Function.update w.pipe fd (some { p with unread := p.unread.drop chunk.length })
    trace := .chunk fd chunk :: w.trace }

theorem callback_cases {w w' : World} {io : GCondition} {fd : Fd} {read : ReadResult}
    (h : w.callback io fd read = some w') : ∃ p, w.pipe fd = some p ∧ fd ∈ w.running ∧
      ((io &&& (gErr ||| gHup) = gNone ∧ io &&& gIn = gNone ∧ w' = w) ∨
      ((io &&& (gErr ||| gHup) ≠ gNone ∨ io &&& gIn ≠ gNone ∧
        (read = .error ∨ read = .bytes [])) ∧ w' = w.finished fd p.written) ∨
      (∃ chunk, io &&& (gErr ||| gHup) = gNone ∧ io &&& gIn ≠ gNone ∧ read = .bytes chunk ∧
        chunk ≠ [] ∧ w' = w.stored fd p chunk)) := by
  unfold World.callback at h
  cases hp : w.pipe fd with
  | none => simp [hp] at h
  | some p =>
    simp only [hp] at h
    split at h
    · next hg =>
      refine ⟨p, rfl, hg, ?_⟩
      by_cases hup : io &&& (gErr ||| gHup) = gNone
      · rcases onOut_cases w.executer hup fd read with ⟨hin, ho⟩ | ⟨hin, hr, ho⟩ |
          ⟨chunk, hin, hr, hc, ho⟩
        · rw [ho] at h
          exact Or.inl ⟨hup, hin, (Option.some.inj h).symm⟩
        · rw [ho] at h
          exact Or.inr (Or.inl ⟨Or.inr ⟨hin, hr⟩, (Option.some.inj h).symm⟩)
        · rw [ho] at h
          exact Or.inr (Or.inr ⟨chunk, hup, hin, hr, hc, (Option.some.inj h).symm⟩)
      · rw [onOut_hup w.executer hup] at h
        exact Or.inr (Or.inl ⟨Or.inl hup, (Option.some.inj h).symm⟩)
    · cases h

/-- What the main loop and `read` promise of a callback: input is reported when and only when
there are unread bytes or the pipe is closed, hangup when it is closed; a read takes a prefix
of at most 2048 unread bytes, and no bytes only at the end. -/
def PipeBehaves (w : World) (e : Event) : Prop :=
  ∀ io fd read p, e = .callback io fd read → w.pipe fd = some p →
    io &&& gErr = gNone ∧ (io &&& gHup ≠ gNone ↔ p.closed = true) ∧
    (p.unread ≠ [] → io &&& gIn ≠ gNone) ∧
    (io &&& gIn ≠ gNone → p.unread ≠ [] ∨ p.closed = true) ∧
    ∃ chunk, read = .bytes chunk ∧ chunk <+: p.unread ∧ chunk.length ≤ 2048 ∧
      (chunk = [] → p.unread = [] ∧ p.closed = true)

def SendsWholeOutput (w : World) : Prop :=
  ∀ fd message written, .finished fd message written ∈ w.trace → message = written

/-- When the hangup is reported the pipe has been read to its end. -/
def ReadBeforeHangup (w : World) (e : Event) : Prop :=
  ∀ io fd read p, e = .callback io fd read → w.pipe fd = some p → fd ∈ w.running →
    io &&& gHup ≠ gNone → p.unread = []

structure Collects (w : World) : Prop where
  collected : ∀ fd p, fd ∈ w.running → w.pipe fd = some p →
    p.written = (w.executer.commandOut fd).getD [] ++ p.unread
  idle : ∀ fd, fd ∉ w.running → w.executer.commandOut fd = none
  sent : SendsWholeOutput w

theorem start_collects (commandDir : Text) : Collects (start commandDir) where
  collected := fun _ _ _ h => by cases h
  idle := fun _ _ => rfl
  sent := fun _ _ _ h => by cases h

theorem send_collects {w : World} (hw : Collects w) (message : Text) :
    Collects (w.send message) where
  collected := hw.collected
  idle := hw.idle
  sent := by
    intro fd m written h
    rcases List.mem_cons.mp h with h | h
    · cases h
    · exact hw.sent fd m written h

def World.launched (w : World) (outFd : Fd) (argv : List Text) : World :=
  { w with
    running := insert outFd w.running
    pipe := Function.update w.pipe outFd (some ⟨[], [], false⟩)
    trace := .spawned w.executer.commandDir argv outFd :: w.trace }

/-- A request is answered at once, or a command is launched for it. -/
theorem onCommand_cases {w w' : World} {paramlist : Text → Except Text (List Text)}
    {user request : Text} {spawn : SpawnResult}
    (h : w.onCommand paramlist user request spawn = some w') :
    (∃ message, w' = w.send message) ∨
    (∃ script params outFd, paramlist request = .ok (script :: params) ∧
      spawn = .launched outFd ∧ outFd ∉ w.running ∧
      w' = w.launched outFd (commandArgv user script params)) := by
  unfold World.onCommand at h
  split at h
  · exact Or.inl ⟨_, (Option.some.inj h).symm⟩
  · exact Or.inl ⟨_, (Option.some.inj h).symm⟩
  · next script params hlist =>
    split at h
    · exact Or.inl ⟨_, (Option.some.inj h).symm⟩
    · next outFd =>
      split at h
      · cases h
      · next hfree =>
        exact Or.inr ⟨script, params, outFd, hlist, rfl, hfree, (Option.some.inj h).symm⟩

theorem launched_collects {w : World} (hw : Collects w) {outFd : Fd} (hfree : outFd ∉ w.running)
    (argv : List Text) : Collects (w.launched outFd argv) := by
  refine ⟨?_, ?_, ?_⟩
  · intro fd p hfd hp
    by_cases hne : fd = outFd
    · -- the buffer of the new command is empty because its descriptor was not running
      subst hne
      simp only [World.launched, Function.update_self, Option.some.injEq] at hp
      subst hp
      simp [World.launched, hw.idle fd hfree]
    · simp only [World.launched, Function.update_of_ne hne] at hp
      exact hw.collected fd p (Finset.mem_of_mem_insert_of_ne hfd hne) hp
  · intro fd hfd
    exact hw.idle fd fun hmem => hfd (Finset.mem_insert_of_mem hmem)
  · intro fd m written hmem
    rcases List.mem_cons.mp hmem with hmem | hmem
    · cases hmem
    · exact hw.sent fd m written hmem

theorem onCommand_collects {w w' : World} (hw : Collects w)
    {paramlist : Text → Except Text (List Text)} {user request : Text} {spawn : SpawnResult}
    (h : w.onCommand paramlist user request spawn = some w') : Collects w' := by
  obtain ⟨message, rfl⟩ | ⟨script, params, outFd, _, _, hfree, rfl⟩ := onCommand_cases h
  · exact send_collects hw message
  · exact launched_collects hw hfree _

theorem pipe_collects {w : World} (hw : Collects w) {fd : Fd} {p : Pipe}
    (hp : fd ∈ w.running → p.written = (w.executer.commandOut fd).getD [] ++ p.unread) :
    Collects { w with pipe := Function.update w.pipe fd (some p) } := by
  refine ⟨?_, hw.idle, hw.sent⟩
  intro fd' p' hfd' hp'
  by_cases hne : fd' = fd
  · subst hne
    simp only [Function.update_self, Option.some.injEq] at hp'
    subst hp'
    exact hp hfd'
  · simp only [Function.update_of_ne hne] at hp'
    exact hw.collected fd' p' hfd' hp'

theorem write_cases {w w' : World} {fd : Fd} {bytes : Text} (h : w.write fd bytes = some w') :
    ∃ p, w.pipe fd = some p ∧ w' = { w with
      pipe := Function.update w.pipe fd (some ⟨p.written ++ bytes, p.unread ++ bytes, false⟩) } := by
  unfold World.write at h
  split at h
  · cases h
  · next p hp =>
    split at h
    · cases h
    · exact ⟨p, hp, (Option.some.inj h).symm⟩

theorem close_cases {w w' : World} {fd : Fd} (h : w.close fd = some w') :
    ∃ p, w.pipe fd = some p ∧
      w' = { w with pipe := Function.update w.pipe fd (some { p with closed := true }) } := by
  unfold World.close at h
  split at h
  · cases h
  · next p hp =>
    split at h
    · cases h
    · exact ⟨p, hp, (Option.some.inj h).symm⟩

theorem write_collects {w w' : World} (hw : Collects w) {fd : Fd} {bytes : Text}
    (h : w.write fd bytes = some w') : Collects w' := by
  obtain ⟨p, hp, rfl⟩ := write_cases h
  apply pipe_collects hw
  intro hfd
  rw [hw.collected fd p hfd hp, List.append_assoc]

theorem close_collects {w w' : World} (hw : Collects w) {fd : Fd}
    (h : w.close fd = some w') : Collects w' := by
  obtain ⟨p, hp, rfl⟩ := close_cases h
  apply pipe_collects hw
  intro hfd
  exact hw.collected fd p hfd hp

theorem stored_collects {w : World} (hw : Collects w) {fd : Fd} {p : Pipe} {chunk : Text}
    (hfd : fd ∈ w.running) (hp : w.pipe fd = some p) (hchunk : chunk <+: p.unread) :
    Collects (w.stored fd p chunk) := by
  obtain ⟨rest, hrest⟩ := hchunk
  refine ⟨?_, ?_, ?_⟩
  · intro fd' p' hfd' hp'
    by_cases hne : fd' = fd
    · subst hne
      simp only [World.stored, Function.update_self, Option.some.injEq] at hp'
      subst hp'
      simp only [World.stored, CommandExecuter.append, Function.update_self, Option.getD_some]
      rw [hw.collected fd' p hfd hp, ← hrest, List.drop_left, List.append_assoc]
    · simp only [World.stored, Function.update_of_ne hne] at hp'
      simp only [World.stored, CommandExecuter.append, Function.update_of_ne hne]
      exact hw.collected fd' p' hfd' hp'
  · intro fd' hfd'
    have hne : fd' ≠ fd := fun heq => hfd' (heq ▸ hfd)
    simp only [World.stored, CommandExecuter.append, Function.update_of_ne hne]
    exact hw.idle fd' hfd'
  · intro fd' m written hmem
    rcases List.mem_cons.mp hmem with hmem | hmem
    · cases hmem
    · exact hw.sent fd' m written hmem

theorem finished_collects {w : World} (hw : Collects w) {fd : Fd} {p : Pipe}
    (hfd : fd ∈ w.running) (hp : w.pipe fd = some p) (hempty : p.unread = []) :
    Collects (w.finished fd p.written) := by
  refine ⟨?_, ?_, ?_⟩
  · intro fd' p' hfd' hp'
    obtain ⟨hne, hfd'⟩ := Finset.mem_erase.mp hfd'
    simp only [World.finished, CommandExecuter.done, Function.update_of_ne hne]
    exact hw.collected fd' p' hfd' hp'
  · intro fd' hfd'
    by_cases hne : fd' = fd
    · subst hne
      simp [World.finished, CommandExecuter.done]
    · simp only [World.finished, CommandExecuter.done, Function.update_of_ne hne]
      exact hw.idle fd' fun hmem => hfd' (Finset.mem_erase.mpr ⟨hne, hmem⟩)
  · intro fd' m written hmem
    rcases List.mem_cons.mp hmem with hmem | hmem
    · cases hmem
      rw [hw.collected fd p hfd hp, hempty, List.append_nil]
    · exact hw.sent fd' m written hmem

theorem hup_of_errHup : ∀ io : GCondition, io &&& gErr = gNone → io &&& (gErr ||| gHup) ≠ gNone →
    io &&& gHup ≠ gNone := by
  decide

theorem errHup_of_hup : ∀ io : GCondition, io &&& gHup ≠ gNone →
    io &&& (gErr ||| gHup) ≠ gNone := by
  decide

theorem collects_step (paramlist : Text → Except Text (List Text)) (w : World) (e : Event)
    (w' : World) (hw : Collects w) (hb : PipeBehaves w e) (hr : ReadBeforeHangup w e)
    (h : step paramlist w e = some w') : Collects w' := by
  cases e with
  | command user request spawn => exact onCommand_collects hw h
  | write fd bytes => exact write_collects hw h
  | close fd => exact close_collects hw h
  | callback io fd read =>
    obtain ⟨p, hp, hfd, ⟨_, _, rfl⟩ | ⟨hend, rfl⟩ | ⟨chunk, _, _, rfl, _, rfl⟩⟩ := callback_cases h
    · exact hw
    · obtain ⟨herr, hhup, _, _, chunk, hread, _, _, heof⟩ := hb io fd read p rfl hp
      apply finished_collects hw hfd hp
      rcases hend with hup | ⟨_, hnone | hnone⟩
      · exact hr io fd read p rfl hp hfd (hup_of_errHup io herr hup)
      · rw [hread] at hnone
        cases hnone
      · rw [hread] at hnone
        exact (heof (ReadResult.bytes.inj hnone)).1
    · obtain ⟨_, _, _, _, chunk', hread, hprefix, _, _⟩ := hb io fd _ p rfl hp
      cases hread
      exact stored_collects hw hfd hp hprefix

/-- A hangup reported over unread bytes ends the command without them. -/
theorem hangup_loses {paramlist : Text → Except Text (List Text)} {w w' : World} {e : Event}
    (hw : Collects w) (hr : ¬ ReadBeforeHangup w e) (h : step paramlist w e = some w') :
    ¬ SendsWholeOutput w' := by
  simp only [ReadBeforeHangup, not_forall] at hr
  obtain ⟨io, fd, read, p, rfl, hp, hfd, hup, hunread⟩ := hr
  obtain ⟨p', hp', _, ⟨hno, _, _⟩ | ⟨_, rfl⟩ | ⟨_, hno, _⟩⟩ := callback_cases h
  · exact absurd hno (errHup_of_hup io hup)
  · obtain rfl := Option.some.inj (hp.symm.trans hp')
    intro hall
    have heq := hall fd _ p.written List.mem_cons_self
    rw [hw.collected fd p hfd hp] at heq
    exact hunread (List.self_eq_append_right.mp heq)
  · exact absurd hno (errHup_of_hup io hup)

/-- Whatever commands run side by side, and however their writes and the callbacks interleave,
each message is the whole output of its command if and only if every hangup is reported over
a pipe that has been read to its end. -/
theorem whole_output_iff_read_before_hangup (paramlist : Text → Except Text (List Text))
    (commandDir : Text) (es : List Event)
    (hb : EveryStep (step paramlist) PipeBehaves (start commandDir) es) :
    Always (step paramlist) SendsWholeOutput (start commandDir) es ↔
      EveryStep (step paramlist) ReadBeforeHangup (start commandDir) es :=
  always_iff_everyStep (fun _ hw => hw.sent)
    (fun w e w' hw hb hr h => collects_step paramlist w e w' hw hb hr h)
    (fun _ _ _ hw _ hr h => hangup_loses hw hr h) (start_collects commandDir) hb

def oneWord (request : Text) : Except Text (List Text) := .ok [request]

def commands : World := start "/etc/sobby/commands".toList

def greeting : List Event :=
  [.command "user".toList "greet".toList (.launched 5), .write 5 "hello".toList,
    .callback gIn 5 (.bytes "hel".toList), .callback gIn 5 (.bytes "lo".toList), .close 5,
    .callback gHup 5 (.bytes [])]

theorem pipeBehaves_other {w : World} {e : Event} (h : ∀ io fd read, e ≠ .callback io fd read) :
    PipeBehaves w e := fun io fd read _ he => absurd he (h io fd read)

theorem pipeBehaves_callback {w : World} {io : GCondition} {fd : Fd} {chunk : Text} {p : Pipe}
    (hp : w.pipe fd = some p) (herr : io &&& gErr = gNone)
    (hhup : io &&& gHup ≠ gNone ↔ p.closed = true) (hin : io &&& gIn ≠ gNone ↔ p.unread ≠ [])
    (hchunk : chunk <+: p.unread) (hlen : chunk.length ≤ 2048)
    (hend : chunk = [] → p.unread = [] ∧ p.closed = true) :
    PipeBehaves w (.callback io fd (.bytes chunk)) := by
  intro io' fd' read p' he hp'
  cases he
  obtain rfl := Option.some.inj (hp.symm.trans hp')
  exact ⟨herr, hhup, hin.mpr, fun h => Or.inl (hin.mp h), chunk, rfl, hchunk, hlen, hend⟩

theorem greeting_behaves : EveryStep (step oneWord) PipeBehaves commands greeting := by
  apply everyStep_cons rfl (pipeBehaves_other (by simp))
  apply everyStep_cons rfl (pipeBehaves_other (by simp))
  refine everyStep_cons rfl ?_ ?_
  · exact pipeBehaves_callback rfl rfl (by decide) (by decide) (by decide) (by decide) (by decide)
  refine everyStep_cons rfl ?_ ?_
  · exact pipeBehaves_callback rfl rfl (by decide) (by decide) (by decide) (by decide) (by decide)
  apply everyStep_cons rfl (pipeBehaves_other (by simp))
  refine everyStep_cons rfl ?_ trivial
  exact pipeBehaves_callback rfl rfl (by decide) (by decide) (by decide) (by decide) (by decide)

theorem readBeforeHangup_other {w : World} {e : Event}
    (h : ∀ io fd read, e = .callback io fd read → io &&& gHup = gNone) : ReadBeforeHangup w e :=
  fun io fd read _ he _ _ hup => absurd (h io fd read he) hup

theorem greeting_read_before_hangup :
    EveryStep (step oneWord) ReadBeforeHangup commands greeting := by
  apply everyStep_cons rfl (readBeforeHangup_other (by simp))
  apply everyStep_cons rfl (readBeforeHangup_other (by simp))
  apply everyStep_cons rfl (readBeforeHangup_other (by simp [gIn, gHup, gNone]))
  apply everyStep_cons rfl (readBeforeHangup_other (by simp [gIn, gHup, gNone]))
  apply everyStep_cons rfl (readBeforeHangup_other (by simp))
  refine everyStep_cons rfl ?_ trivial
  intro io fd read p he hp _ _
  cases he
  cases hp
  rfl

theorem greeting_sent_whole :
    Always (step oneWord) SendsWholeOutput commands greeting ∧
    (run (step oneWord) commands greeting).map (fun w => w.trace.head?) =
      some (some (.finished 5 "hello".toList "hello".toList)) :=
  ⟨(whole_output_iff_read_before_hangup oneWord _ greeting greeting_behaves).mpr
    greeting_read_before_hangup, by rfl⟩

def hastyGreeting : List Event :=
  [.command "user".toList "greet".toList (.launched 5), .write 5 "hello".toList, .close 5,
    .callback (gIn ||| gHup) 5 (.bytes "hello".toList)]

/-- Input and hangup are reported together: nothing is read and an empty message is sent. -/
theorem hangup_with_input_loses_output :
    EveryStep (step oneWord) PipeBehaves commands hastyGreeting ∧
    (run (step oneWord) commands hastyGreeting).map (fun w => w.trace.head?) =
      some (some (.finished 5 [] "hello".toList)) ∧
    ¬ Always (step oneWord) SendsWholeOutput commands hastyGreeting := by
  refine ⟨?_, rfl, fun h => ?_⟩
  · apply everyStep_cons rfl (pipeBehaves_other (by simp))
    apply everyStep_cons rfl (pipeBehaves_other (by simp))
    apply everyStep_cons rfl (pipeBehaves_other (by simp))
    refine everyStep_cons rfl ?_ trivial
    exact pipeBehaves_callback rfl rfl (by decide) (by decide) (by decide) (by decide) (by decide)
  · have hsent := always_last h rfl
    exact absurd (hsent 5 [] "hello".toList List.mem_cons_self) (by decide)

end CommandOutput
