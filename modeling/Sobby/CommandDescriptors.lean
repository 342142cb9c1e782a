import Sobby.CommandMessages

/-! The read ends of the pipes of commands. The end of a command removes its source and erases
its output, and nothing in the server closes the descriptor. -/
namespace CommandDescriptors

open StepMachine
open Histories
open IoConditions
open CommandOutput
open CommandMessages
open Strings (Text)

def Unsent (w : World) (fd : Fd) : Prop :=
  Since (fun ob => Observation.starts fd ob = true) (fun ob => Observation.ends fd ob = true)
    w.trace

def openEnds (w : World) : Set Fd := {fd | w.pipe fd ≠ none}

theorem mem_openEnds {w : World} {fd : Fd} : fd ∈ openEnds w ↔ w.pipe fd ≠ none := Iff.rfl

structure HoldsUnsentOnly (w : World) : Prop where
  unsent : ∀ fd, fd ∈ openEnds w ↔ Unsent w fd
  bounded : (openEnds w).ncard ≤ w.running.card

/-- The step is not the end of a running command, neither by a hangup or an error condition nor
by a read that fails or finds the end of the file. -/
def EndsNothing (w : World) (e : Event) : Prop :=
  ∀ io fd read, e = .callback io fd read → fd ∈ w.running →
    io &&& (gErr ||| gHup) = gNone ∧ (io &&& gIn ≠ gNone → read ≠ .error ∧ read ≠ .bytes [])

/-- The invariant: running commands are told by the history, and hold the open read ends. -/
structure Balanced (w : World) : Prop where
  told : ∀ fd, fd ∈ w.running ↔ Unsent w fd
  held : ∀ fd, fd ∈ openEnds w ↔ fd ∈ w.running

theorem start_balanced (commandDir : Text) : Balanced (start commandDir) where
  told := fun fd => iff_of_false (Finset.notMem_empty fd) not_since_nil
  held := fun fd => iff_of_false (fun h => h rfl) (Finset.notMem_empty fd)

theorem Balanced.holdsUnsentOnly {w : World} (hw : Balanced w) : HoldsUnsentOnly w where
  unsent := fun fd => (hw.held fd).trans (hw.told fd)
  bounded := by
    have hsame : openEnds w = w.running := Set.ext hw.held
    rw [hsame, Set.ncard_coe_finset]

section Steps

variable {w w' : World} {fd : Fd}

theorem unsent_cons {ob : Observation} (h : w'.trace = ob :: w.trace) (fd : Fd) :
    Unsent w' fd ↔ Observation.starts fd ob = true ∨
      ¬ Observation.ends fd ob = true ∧ Unsent w fd := by
  rw [Unsent, h, since_cons]
  rfl

theorem unsent_other {ob : Observation} (h : w'.trace = ob :: w.trace)
    (hob : ∀ fd, Observation.starts fd ob = false ∧ Observation.ends fd ob = false) (fd : Fd) :
    Unsent w' fd ↔ Unsent w fd := by
  obtain ⟨hstarts, hends⟩ := hob fd
  rw [unsent_cons h, hstarts, hends]
  simp

theorem balanced_other (hw : Balanced w) (hrunning : w'.running = w.running)
    (hunsent : ∀ fd, Unsent w' fd ↔ Unsent w fd)
    (hopen : ∀ fd, fd ∈ openEnds w' ↔ fd ∈ openEnds w) : Balanced w' where
  told := fun fd => by rw [hrunning, hw.told, hunsent]
  held := fun fd => by rw [hopen, hrunning, hw.held]

theorem openEnds_update {p q : Pipe} (hp : w.pipe fd = some p)
    (hpipe : w'.pipe = Function.update w.pipe fd (some q)) (other : Fd) :
    other ∈ openEnds w' ↔ other ∈ openEnds w := by
  rw [mem_openEnds, mem_openEnds, hpipe]
  by_cases h : other = fd
  · rw [h, Function.update_self, hp]
    simp
  · rw [Function.update_of_ne h]

theorem launched_balanced (hw : Balanced w) (outFd : Fd) (argv : List Text) :
    Balanced (w.launched outFd argv) := by
  refine ⟨fun fd => ?_, fun fd => ?_⟩
  · rw [unsent_cons rfl fd]
    simp only [World.launched, Finset.mem_insert, hw.told, Observation.starts, Observation.ends,
      decide_eq_true_eq, Bool.false_eq_true, not_false_eq_true, true_and]
    rw [eq_comm]
  · simp only [World.launched, Finset.mem_insert, ← hw.held, mem_openEnds]
    by_cases h : fd = outFd
    · rw [h, Function.update_self]
      simp
    · rw [Function.update_of_ne h]
      simp [h]

theorem balanced_step (paramlist : Text → Except Text (List Text)) (w : World) (e : Event)
    (w' : World) (hw : Balanced w) (hc : EndsNothing w e) (h : step paramlist w e = some w') :
    Balanced w' := by
  cases e with
  | command user request spawn =>
    obtain ⟨message, rfl⟩ | ⟨script, params, outFd, _, _, _, rfl⟩ := onCommand_cases h
    · exact balanced_other hw rfl (unsent_other rfl fun _ => ⟨rfl, rfl⟩) fun _ => Iff.rfl
    · exact launched_balanced hw outFd _
  | write fd bytes =>
    obtain ⟨p, hp, rfl⟩ := write_cases h
    exact balanced_other hw rfl (fun _ => Iff.rfl) (openEnds_update hp rfl)
  | close fd =>
    obtain ⟨p, hp, rfl⟩ := close_cases h
    exact balanced_other hw rfl (fun _ => Iff.rfl) (openEnds_update hp rfl)
  | callback io fd read =>
    obtain ⟨p, hp, hfd, ⟨_, _, rfl⟩ | ⟨hend, rfl⟩ | ⟨chunk, _, _, rfl, _, rfl⟩⟩ := callback_cases h
    · exact hw
    · obtain ⟨hup, hread⟩ := hc io fd read rfl hfd
      rcases hend with hend | ⟨hin, hend⟩
      · exact absurd hup hend
      · exact (hend.elim (hread hin).1 (hread hin).2).elim
    · exact balanced_other hw rfl (unsent_other rfl fun _ => ⟨rfl, rfl⟩) (openEnds_update hp rfl)

theorem end_leaks {paramlist : Text → Except Text (List Text)} {e : Event}
    (hc : ¬ EndsNothing w e) (h : step paramlist w e = some w') : ¬ HoldsUnsentOnly w' := by
  simp only [EndsNothing, not_forall] at hc
  obtain ⟨io, fd, read, rfl, hfd, hends⟩ := hc
  obtain ⟨p, hp, _, ⟨hup, hin, rfl⟩ | ⟨_, rfl⟩ | ⟨chunk, hup, hin, rfl, hchunk, rfl⟩⟩ :=
    callback_cases h
  · exact absurd ⟨hup, fun h => absurd hin h⟩ hends
  · intro hholds
    have hopen : fd ∈ openEnds (w.finished fd p.written) := by
      show w.pipe fd ≠ none
      rw [hp]
      exact Option.some_ne_none p
    have hunsent := (hholds.unsent fd).mp hopen
    rw [unsent_cons rfl fd] at hunsent
    simp [Observation.starts, Observation.ends] at hunsent
  · exact absurd ⟨hup, fun _ => ⟨by simp, by simpa using hchunk⟩⟩ hends

end Steps

/-- The open read ends are those of the commands that have not been answered for as long as no
command has ended, and no longer. -/
theorem descriptors_balanced_iff (paramlist : Text → Except Text (List Text)) (commandDir : Text)
    (es : List Event) :
    Always (step paramlist) HoldsUnsentOnly (start commandDir) es ↔
      EveryStep (step paramlist) EndsNothing (start commandDir) es := by
  have hD : EveryStep (step paramlist) (fun _ _ => True) (start commandDir) es :=
    everyStep_of_forall fun _ _ _ => trivial
  exact always_iff_everyStep (fun _ hw => hw.holdsUnsentOnly)
    (fun w e w' hw _ hc h => balanced_step paramlist w e w' hw hc h)
    (fun _ _ _ _ _ hc h => end_leaks hc h) (start_balanced commandDir) hD

/-- A command that has greeted and ended leaves its pipe behind. -/
theorem greeting_leaks :
    ¬ Always (step oneWord) HoldsUnsentOnly commands greeting ∧
    ∃ w, run (step oneWord) commands greeting = some w ∧ w.running = ∅ ∧ w.pipe 5 ≠ none := by
  refine ⟨fun h => ?_, _, rfl, by decide, by decide⟩
  have hopen : Unsent _ 5 := ((always_last h rfl).unsent 5).mp (mem_openEnds.mpr (by decide))
  rcases since_cons.mp hopen with hstarts | ⟨hends, _⟩
  · exact absurd hstarts (by decide)
  · exact hends rfl

section PileUp

variable {paramlist : Text → Except Text (List Text)} {request script : Text} {params : List Text}

def silentCommand (user request : Text) (fd : Fd) : List Event :=
  [.command user request (.launched fd), .close fd, .callback gHup fd (.bytes [])]

def closedPipe (w : World) (fd : Fd) : World :=
  { w with pipe := Function.update w.pipe fd (some ⟨[], [], true⟩) }

theorem silentCommand_leaks (hlist : paramlist request = .ok (script :: params)) (user : Text)
    {w : World} {fd : Fd} (hfd : fd ∉ w.running) :
    ∃ w', run (step paramlist) w (silentCommand user request fd) = some w' ∧
      w'.running = w.running ∧ ∀ other, other ∈ openEnds w' ↔ other = fd ∨ other ∈ openEnds w := by
  have hlaunch : step paramlist w (.command user request (.launched fd)) =
      some (w.launched fd (commandArgv user script params)) := by
    simp only [step, World.onCommand, hlist, hfd, if_false]
    rfl
  have hclose : step paramlist (w.launched fd (commandArgv user script params)) (.close fd) =
      some (closedPipe (w.launched fd (commandArgv user script params)) fd) := by
    simp [step, World.close, World.launched, closedPipe]
  have hhup : (gHup : GCondition) &&& (gErr ||| gHup) ≠ gNone := by decide
  have hend : step paramlist (closedPipe (w.launched fd (commandArgv user script params)) fd)
      (.callback gHup fd (.bytes [])) =
      some ((closedPipe (w.launched fd (commandArgv user script params)) fd).finished fd []) := by
    simp [step, World.callback, onOut_hup _ hhup, World.finished, CommandExecuter.done,
      World.launched, closedPipe]
  refine ⟨(closedPipe (w.launched fd (commandArgv user script params)) fd).finished fd [],
    by simp only [silentCommand, run, hlaunch, hclose, hend, Option.bind_some], ?_, ?_⟩
  · exact Finset.erase_insert hfd
  · intro other
    simp only [mem_openEnds, World.finished, closedPipe, World.launched, Function.update_idem]
    by_cases h : other = fd
    · rw [h, Function.update_self]
      simp
    · rw [Function.update_of_ne h]
      simp [h]

/-- Any number of pipes can be open while no command is running. -/
theorem pipes_pile_up (hlist : paramlist request = .ok (script :: params)) (commandDir user : Text)
    (n : ℕ) :
    ∃ es w, run (step paramlist) (start commandDir) es = some w ∧ w.running = ∅ ∧
      (openEnds w).ncard = n := by
  have hruns : ∀ n, ∃ es w, run (step paramlist) (start commandDir) es = some w ∧ w.running = ∅ ∧
      ∀ fd, fd ∈ openEnds w ↔ fd ∈ Finset.range n := by
    intro n
    induction n with
    | zero => exact ⟨[], _, rfl, rfl, fun fd => iff_of_false (fun h => h rfl) (by simp)⟩
    | succ n ih =>
      obtain ⟨es, w, hrun, hrunning, hopen⟩ := ih
      have hfd : n ∉ w.running := by simp [hrunning]
      obtain ⟨w', hrun', hrunning', hopen'⟩ := silentCommand_leaks hlist user hfd
      refine ⟨es ++ silentCommand user request n, w', ?_, hrunning'.trans hrunning, fun fd => ?_⟩
      · rw [run_append, hrun, Option.bind_some, hrun']
      · rw [hopen', hopen, Finset.range_add_one, Finset.mem_insert]
  obtain ⟨es, w, hrun, hrunning, hopen⟩ := hruns n
  refine ⟨es, w, hrun, hrunning, ?_⟩
  have hsame : openEnds w = Finset.range n := Set.ext hopen
  rw [hsame, Set.ncard_coe_finset, Finset.card_range]

end PileUp

end CommandDescriptors
