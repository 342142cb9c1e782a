import Sobby.Histories
import Sobby.CommandOutput

/-! Commands that run side by side. Their output is collected in one map with the descriptors
as keys; each message is made of what was read for its own command and of nothing else. -/
namespace CommandMessages

open StepMachine
open Histories
open IoConditions
open CommandOutput
open Strings (Text)

def Observation.starts (fd : Fd) : Observation → Bool
  | .spawned _ _ f => f = fd
  | _ => false

def Observation.ends (fd : Fd) : Observation → Bool
  | .finished f _ _ => f = fd
  | _ => false

def Observation.isChunk : Observation → Bool
  | .chunk _ _ => true
  | _ => false

/-- What an event has `on_out` read: input is read if there is neither error nor hangup, and what
`read` returns is a chunk unless it is nothing. -/
def chunksRead : Event → List Observation
  | .callback io fd (.bytes bytes) =>
    if io &&& (gErr ||| gHup) = gNone ∧ io &&& gIn ≠ gNone ∧ bytes ≠ [] then [.chunk fd bytes]
    else []
  | _ => []

/-- The command is done: an error or a hangup, a failed read or the end of the file. -/
def Ends (io : GCondition) (read : ReadResult) : Prop :=
  io &&& (gErr ||| gHup) ≠ gNone ∨ io &&& gIn ≠ gNone ∧ (read = .error ∨ read = .bytes [])

def chunks (fd : Fd) : List Observation → Text
  | [] => []
  | .chunk f bytes :: older => if f = fd then chunks fd older ++ bytes else chunks fd older
  | _ :: older => chunks fd older

/-- The output read from a descriptor since the command that owns it was started. -/
def OutputOf (fd : Fd) (trace : List Observation) (output : Text) : Prop :=
  ∃ after dir argv before, trace = after ++ .spawned dir argv fd :: before ∧
    (∀ ob ∈ after, Observation.starts fd ob = false ∧ Observation.ends fd ob = false) ∧
    output = chunks fd after

def FromOwnChunks (ob : Observation) (older : List Observation) : Prop :=
  ∀ fd message written, ob = .finished fd message written → OutputOf fd older message

/-- Asked of every state: what each message is made of, that idle descriptors have no buffer,
that each command that has finished was sent once, and what the next step can do. The chunks of
the history are those `read` returns, none more and none less. -/
structure MessagesApart (paramlist : Text → Except Text (List Text)) (w : World) : Prop where
  messages : ∀ newer older fd message written,
    w.trace = newer ++ .finished fd message written :: older → OutputOf fd older message
  erased : ∀ fd, fd ∉ w.running → w.executer.commandOut fd = none
  balanced : ∀ fd, w.trace.countP (Observation.starts fd) =
    w.trace.countP (Observation.ends fd) + if fd ∈ w.running then 1 else 0
  reads : ∀ e w', step paramlist w e = some w' →
    ∃ new, w'.trace = new ++ w.trace ∧ new.filter Observation.isChunk = chunksRead e
  callbacks : ∀ io fd read w', step paramlist w (.callback io fd read) = some w' →
    (∀ other, other ≠ fd → w'.executer.commandOut other = w.executer.commandOut other) ∧
    (¬ Ends io read → w'.running = w.running ∧
      w'.trace = chunksRead (.callback io fd read) ++ w.trace) ∧
    (Ends io read → w'.running = w.running.erase fd ∧ w'.executer.commandOut fd = none ∧
      ∃ message written, w'.trace = .finished fd message written :: w.trace ∧
        OutputOf fd w.trace message)
  launched : ∀ user request fd w', step paramlist w (.command user request (.launched fd)) = some w' →
    w'.executer = w.executer ∧ (fd ∉ w.running → w'.executer.commandOut fd = none)
  failed : ∀ user request what w', step paramlist w (.command user request (.threw what)) = some w' →
    w'.executer = w.executer ∧ w'.running = w.running ∧ w'.pipe = w.pipe ∧
      ∃ message, w'.trace = .sentMessage message :: w.trace

theorem chunksRead_of_ends {io : GCondition} {read : ReadResult} (h : Ends io read) (fd : Fd) :
    chunksRead (.callback io fd read) = [] := by
  rcases h with hup | ⟨_, rfl | rfl⟩
  · cases read with
    | error => rfl
    | bytes chunk => simp [chunksRead, hup]
  · rfl
  · simp [chunksRead]

theorem callback_reads {w w' : World} {io : GCondition} {fd : Fd} {read : ReadResult}
    (h : w.callback io fd read = some w') : ∃ p, fd ∈ w.running ∧
      ((¬ Ends io read ∧ chunksRead (.callback io fd read) = [] ∧ w' = w) ∨
      (Ends io read ∧ w' = w.finished fd p.written) ∨
      (∃ bytes, ¬ Ends io read ∧ chunksRead (.callback io fd read) = [.chunk fd bytes] ∧
        w' = w.stored fd p bytes)) := by
  obtain ⟨p, _, hfd, ⟨hup, hin, rfl⟩ | ⟨hends, rfl⟩ | ⟨bytes, hup, hin, rfl, hne, rfl⟩⟩ :=
    callback_cases h
  · refine ⟨p, hfd, Or.inl ⟨by simp [Ends, hup, hin], ?_, rfl⟩⟩
    cases read with
    | error => rfl
    | bytes chunk => simp [chunksRead, hin]
  · exact ⟨p, hfd, Or.inr (Or.inl ⟨hends, rfl⟩)⟩
  · refine ⟨p, hfd, Or.inr (Or.inr ⟨bytes, by simp [Ends, hup, hne], ?_, rfl⟩)⟩
    simp [chunksRead, hup, hin, hne]

theorem outputOf_start (fd : Fd) (dir : Text) (argv : List Text) (trace : List Observation) :
    OutputOf fd (.spawned dir argv fd :: trace) [] :=
  ⟨[], dir, argv, trace, rfl, by simp, rfl⟩

theorem outputOf_cons {fd : Fd} {trace : List Observation} {output : Text} {ob : Observation}
    (h : OutputOf fd trace output) (hs : Observation.starts fd ob = false)
    (he : Observation.ends fd ob = false) :
    ∀ {longer}, (∀ after, chunks fd after = output → chunks fd (ob :: after) = longer) →
      OutputOf fd (ob :: trace) longer := by
  intro longer hlonger
  obtain ⟨after, dir, argv, before, rfl, hafter, rfl⟩ := h
  refine ⟨ob :: after, dir, argv, before, rfl, ?_, (hlonger after rfl).symm⟩
  intro x hx
  rcases List.mem_cons.mp hx with rfl | hx
  · exact ⟨hs, he⟩
  · exact hafter x hx

theorem outputOf_chunk {fd : Fd} {trace : List Observation} {output : Text}
    (h : OutputOf fd trace output) (bytes : Text) :
    OutputOf fd (.chunk fd bytes :: trace) (output ++ bytes) :=
  outputOf_cons h rfl rfl fun after ha => by simp [chunks, ha]

theorem outputOf_other {fd : Fd} {trace : List Observation} {output : Text} {ob : Observation}
    (h : OutputOf fd trace output) (hs : Observation.starts fd ob = false)
    (he : Observation.ends fd ob = false) (hc : ∀ bytes, ob ≠ .chunk fd bytes) :
    OutputOf fd (ob :: trace) output := by
  apply outputOf_cons h hs he
  intro after ha
  cases ob with
  | chunk f bytes =>
    have hne : f ≠ fd := by
      rintro rfl
      exact hc bytes rfl
    simp [chunks, hne, ha]
  | sentMessage message => exact ha
  | spawned dir argv f => exact ha
  | finished f message written => exact ha

theorem fromOwnChunks_other {ob : Observation} {older : List Observation}
    (h : ∀ fd message written, ob ≠ .finished fd message written) : FromOwnChunks ob older :=
  fun fd message written he => absurd he (h fd message written)

structure Apart (w : World) : Prop where
  buffers : ∀ fd ∈ w.running, OutputOf fd w.trace ((w.executer.commandOut fd).getD [])
  idle : ∀ fd, fd ∉ w.running → w.executer.commandOut fd = none
  messages : Each FromOwnChunks w.trace
  balanced : ∀ fd, w.trace.countP (Observation.starts fd) =
    w.trace.countP (Observation.ends fd) + if fd ∈ w.running then 1 else 0

theorem start_apart (commandDir : Text) : Apart (start commandDir) where
  buffers := fun _ h => by cases h
  idle := fun _ _ => rfl
  messages := trivial
  balanced := fun _ => rfl

theorem send_apart {w : World} (hw : Apart w) (message : Text) : Apart (w.send message) where
  buffers := by
    intro fd hfd
    exact outputOf_other (hw.buffers fd hfd) rfl rfl (by simp)
  idle := hw.idle
  messages := ⟨fromOwnChunks_other (by simp), hw.messages⟩
  balanced := hw.balanced

theorem launched_apart {w : World} (hw : Apart w) {outFd : Fd} (hfree : outFd ∉ w.running)
    (argv : List Text) : Apart (w.launched outFd argv) where
  buffers := by
    intro fd hfd
    by_cases hne : fd = outFd
    · subst hne
      have hempty : ((w.launched fd argv).executer.commandOut fd).getD [] = [] := by
        simp [World.launched, hw.idle fd hfree]
      rw [hempty]
      exact outputOf_start fd _ argv w.trace
    · have hold : fd ∈ w.running := Finset.mem_of_mem_insert_of_ne hfd hne
      exact outputOf_other (hw.buffers fd hold) (by simp [Observation.starts, Ne.symm hne]) rfl
        (by simp)
  idle := by
    intro fd hfd
    exact hw.idle fd fun h => hfd (Finset.mem_insert_of_mem h)
  messages := ⟨fromOwnChunks_other (by simp), hw.messages⟩
  balanced := by
    intro fd
    have hold := hw.balanced fd
    simp only [World.launched, List.countP_cons, Observation.starts, Observation.ends,
      Finset.mem_insert, decide_eq_true_eq, Bool.false_eq_true, if_false]
    by_cases hne : outFd = fd
    · subst hne
      simp only [hfree, if_false] at hold
      simp only [true_or, if_true]
      omega
    · simp only [hne, Ne.symm hne, false_or, if_false]
      exact hold

theorem stored_apart {w : World} (hw : Apart w) {fd : Fd} (hfd : fd ∈ w.running) (p : Pipe)
    (chunk : Text) : Apart (w.stored fd p chunk) where
  buffers := by
    intro fd' hfd'
    by_cases hne : fd' = fd
    · subst hne
      simp only [World.stored, CommandExecuter.append, Function.update_self, Option.getD_some]
      exact outputOf_chunk (hw.buffers fd' hfd') chunk
    · simp only [World.stored, CommandExecuter.append, Function.update_of_ne hne]
      refine outputOf_other (hw.buffers fd' hfd') rfl rfl fun bytes he => hne ?_
      cases he
      rfl
  idle := by
    intro fd' hfd'
    have hne : fd' ≠ fd := fun h => hfd' (h ▸ hfd)
    simp only [World.stored, CommandExecuter.append, Function.update_of_ne hne]
    exact hw.idle fd' hfd'
  messages := ⟨fromOwnChunks_other (by simp), hw.messages⟩
  balanced := hw.balanced

theorem finished_apart {w : World} (hw : Apart w) {fd : Fd} (hfd : fd ∈ w.running)
    (written : Text) : Apart (w.finished fd written) where
  buffers := by
    intro fd' hfd'
    obtain ⟨hne, hfd'⟩ := Finset.mem_erase.mp hfd'
    simp only [World.finished, CommandExecuter.done, Function.update_of_ne hne]
    exact outputOf_other (hw.buffers fd' hfd') rfl (by simp [Observation.ends, Ne.symm hne])
      (by simp)
  idle := by
    intro fd' hfd'
    by_cases hne : fd' = fd
    · subst hne
      simp [World.finished, CommandExecuter.done]
    · simp only [World.finished, CommandExecuter.done, Function.update_of_ne hne]
      exact hw.idle fd' fun h => hfd' (Finset.mem_erase.mpr ⟨hne, h⟩)
  messages := by
    refine ⟨?_, hw.messages⟩
    rintro _ _ _ ⟨⟩
    exact hw.buffers fd hfd
  balanced := by
    intro fd'
    have hold := hw.balanced fd'
    simp only [World.finished, List.countP_cons, Observation.starts, Observation.ends,
      Finset.mem_erase, decide_eq_true_eq, Bool.false_eq_true, if_false]
    by_cases hne : fd = fd'
    · subst hne
      simp only [hfd, if_true] at hold
      simp only [ne_eq, not_true, false_and, if_true, if_false]
      omega
    · simp only [hne, ne_eq, Ne.symm hne, not_false_eq_true, true_and, if_false]
      exact hold

theorem apart_step (paramlist : Text → Except Text (List Text)) (w : World) (e : Event)
    (w' : World) (hw : Apart w) (h : step paramlist w e = some w') : Apart w' := by
  cases e with
  | command user request spawn =>
    obtain ⟨message, rfl⟩ | ⟨script, params, outFd, _, _, hfree, rfl⟩ := onCommand_cases h
    · exact send_apart hw message
    · exact launched_apart hw hfree _
  | write fd bytes =>
    obtain ⟨p, _, rfl⟩ := write_cases h
    exact ⟨hw.buffers, hw.idle, hw.messages, hw.balanced⟩
  | close fd =>
    obtain ⟨p, _, rfl⟩ := close_cases h
    exact ⟨hw.buffers, hw.idle, hw.messages, hw.balanced⟩
  | callback io fd read =>
    obtain ⟨p, _, hfd, ⟨_, _, rfl⟩ | ⟨_, rfl⟩ | ⟨chunk, _, _, _, _, rfl⟩⟩ := callback_cases h
    · exact hw
    · exact finished_apart hw hfd p.written
    · exact stored_apart hw hfd p chunk

/-- The chunks a step adds to the history are those it reads. -/
theorem step_reads {paramlist : Text → Except Text (List Text)} {w w' : World} {e : Event}
    (h : step paramlist w e = some w') :
    ∃ new, w'.trace = new ++ w.trace ∧ new.filter Observation.isChunk = chunksRead e := by
  cases e with
  | command user request spawn =>
    obtain ⟨message, rfl⟩ | ⟨script, params, outFd, _, _, _, rfl⟩ := onCommand_cases h
    · exact ⟨[.sentMessage message], rfl, rfl⟩
    · exact ⟨[.spawned _ _ outFd], rfl, rfl⟩
  | write fd bytes =>
    obtain ⟨p, _, rfl⟩ := write_cases h
    exact ⟨[], rfl, rfl⟩
  | close fd =>
    obtain ⟨p, _, rfl⟩ := close_cases h
    exact ⟨[], rfl, rfl⟩
  | callback io fd read =>
    obtain ⟨p, _, ⟨_, hnone, rfl⟩ | ⟨hends, rfl⟩ | ⟨bytes, _, hbytes, rfl⟩⟩ := callback_reads h
    · exact ⟨[], rfl, hnone.symm⟩
    · exact ⟨[.finished fd _ p.written], rfl, (chunksRead_of_ends hends fd).symm⟩
    · exact ⟨[.chunk fd bytes], rfl, hbytes.symm⟩

theorem Apart.messagesApart {w : World} (hw : Apart w)
    (paramlist : Text → Except Text (List Text)) : MessagesApart paramlist w where
  messages := by
    intro newer older fd message written hs
    exact each_split hw.messages hs fd message written rfl
  erased := hw.idle
  balanced := hw.balanced
  reads := fun e w' h => step_reads h
  callbacks := by
    intro io fd read w' h
    obtain ⟨p, hfd, ⟨hgoes, hnone, rfl⟩ | ⟨hends, rfl⟩ | ⟨bytes, hgoes, hbytes, rfl⟩⟩ :=
      callback_reads h
    · rw [hnone]
      exact ⟨fun _ _ => rfl, fun _ => ⟨rfl, rfl⟩, fun hends => absurd hends hgoes⟩
    · refine ⟨fun other hne => Function.update_of_ne hne _ _, fun hgoes => absurd hends hgoes, ?_⟩
      intro _
      exact ⟨rfl, Function.update_self _ _ _, _, p.written, rfl, hw.buffers fd hfd⟩
    · rw [hbytes]
      exact ⟨fun other hne => Function.update_of_ne hne _ _, fun _ => ⟨rfl, rfl⟩,
        fun hends => absurd hends hgoes⟩
  launched := by
    intro user request fd w' h
    have h : w.onCommand paramlist user request (.launched fd) = some w' := h
    obtain ⟨message, rfl⟩ | ⟨script, params, outFd, _, _, _, rfl⟩ := onCommand_cases h
    · exact ⟨rfl, hw.idle fd⟩
    · exact ⟨rfl, hw.idle fd⟩
  failed := by
    intro user request what w' h
    have h : w.onCommand paramlist user request (.threw what) = some w' := h
    obtain ⟨message, rfl⟩ | ⟨script, params, outFd, _, hspawn, _, _⟩ := onCommand_cases h
    · exact ⟨rfl, rfl, rfl, message, rfl⟩
    · cases hspawn

/-- Whatever commands run side by side, and whatever their callbacks report and read, each
finished command is sent once, with its own output. -/
theorem commands_do_not_mix (paramlist : Text → Except Text (List Text)) (commandDir : Text)
    (es : List Event) : Always (step paramlist) (MessagesApart paramlist) (start commandDir) es := by
  have hC : EveryStep (step paramlist) (fun _ _ => True) (start commandDir) es :=
    everyStep_of_forall fun _ _ _ => trivial
  have hI : Always (step paramlist) Apart (start commandDir) es :=
    always_of_invariant (fun w e w' hw _ h => apart_step paramlist w e w' hw h)
      (start_apart commandDir) hC
  exact always_mono (fun _ hw => hw.messagesApart paramlist) hI

/-- Two commands take turns; the descriptor of the first is used again by a third. -/
example : (run (step oneWord) commands
    [.command "user".toList "one".toList (.launched 5),
      .command "user".toList "two".toList (.launched 6),
      .callback gIn 5 (.bytes "a".toList), .callback gIn 6 (.bytes "b".toList),
      .callback gIn 5 (.bytes "c".toList), .callback gHup 5 .error,
      .command "user".toList "three".toList (.launched 5), .callback gHup 5 .error]).map
        (fun w => w.trace.filterMap fun
          | .finished fd message _ => some (fd, message)
          | _ => none) = some [(5, []), (5, "ac".toList)] := by
  decide

end CommandMessages
