import Sobby.StepMachine
import Sobby.Strings
import Sobby.IoConditions
import Sobby.SourceTable

/-! The socket selector of the server over the main loop. The selector keeps one entry for each
selected socket; the main loop dispatches live sources, whose callbacks emit `io_event`, and
the handlers of that event call the selector again before the callback returns. -/
namespace SocketSelector

open StepMachine
open IoConditions
open SourceTable
open Strings (Text)

/-- The address of a `net6::socket`. -/
abbrev Socket := ℕ

/-- `net6::socket::socket_type`, the descriptor. -/
abbrev SocketType := ℕ

structure TimeVal where
  tvSec : ℤ
  tvUsec : ℤ
  deriving DecidableEq, Repr

inductive Kind where
  | io
  | timeout
  deriving DecidableEq, Repr

/-- An I/O source belongs to a channel, here the descriptor the channel was created for. -/
inductive Source where
  | io (chan : SocketType) (mask : GCondition) (sock : Socket)
  | timeout (interval : ℕ) (sock : Socket)
  deriving DecidableEq, Repr

def Source.sock : Source → Socket
  | .io _ _ sock => sock
  | .timeout _ sock => sock

def Source.kind : Source → Kind
  | .io _ _ _ => .io
  | .timeout _ _ => .timeout

/-- `ioChan` is the descriptor of the channel, `none` the null pointer. -/
structure SelectedSocket where
  sock : Socket
  cond : IoCondition
  ioChan : Option SocketType
  ioConn : Option ℕ
  timeoutBegin : TimeVal
  timeout : ℕ
  timeConn : Option ℕ
  deriving DecidableEq, Repr

inductive Error where
  | system
  | logicError (what : Text)
  deriving DecidableEq, Repr

/-- `m_map`, with the sources of the main loop and the descriptors in non-blocking mode. -/
structure GSelector where
  map : Socket → Option SelectedSocket
  loop : Sources Source
  nonBlocking : Finset SocketType

/-- Connecting to a null channel creates no source. -/
def connectIo (loop : Sources Source) (chan : Option SocketType) (mask : GCondition)
    (sock : Socket) : Sources Source × Option ℕ :=
  match chan with
  | none => (loop, none)
  | some fd => (loop.attach (.io fd mask sock), some loop.next)

/-- The entry `m_map[&sock]` starts from, once `sock` and `cond` are stored. -/
def newEntry (sock : Socket) (cond : IoCondition) : SelectedSocket :=
  ⟨sock, cond, none, none, ⟨0, 0⟩, 0, none⟩

/-- `setsFlags` tells whether `fcntl` succeeds. Its failure is noticed after the entry exists. -/
def GSelector.addSocket (s : GSelector) (cobj : Socket → SocketType) (sock : Socket)
    (cond : IoCondition) (setsFlags : Bool) : GSelector × Option Error :=
  let sel := newEntry sock cond
  if WantsIo cond then
    if setsFlags then
      let fd := cobj sock
      let io := connectIo s.loop (some fd) (gcond cond) sock
      ({ map := Function.update s.map sock (some { sel with ioChan := some fd, ioConn := io.2 })
         loop := io.1
         nonBlocking := insert fd s.nonBlocking }, none)
    else ({ s with map := Function.update s.map sock (some sel) }, some .system)
  else ({ s with map := Function.update s.map sock (some sel) }, none)

/-- The watch part of `modify_socket`: the loop and the new value of `io_conn`. -/
def rewatch (loop : Sources Source) (sock : Socket) (sel : SelectedSocket)
    (cond : IoCondition) : Sources Source × Option ℕ :=
  if sel.cond &&& ioFlags ≠ cond &&& ioFlags then
    let loop := if loop.connected sel.ioConn then loop.disconnect sel.ioConn else loop
    if WantsIo cond then connectIo loop sel.ioChan (gcond cond) sock else (loop, sel.ioConn)
  else (loop, sel.ioConn)

/-- The timer part of `modify_socket`. -/
def untime (loop : Sources Source) (sel : SelectedSocket) (cond : IoCondition) :
    Sources Source :=
  if sel.cond &&& ioTimeout ≠ cond &&& ioTimeout then
    if loop.connected sel.timeConn then loop.disconnect sel.timeConn else loop
  else loop

def GSelector.modifySocket (s : GSelector) (sock : Socket) (sel : SelectedSocket)
    (cond : IoCondition) : GSelector :=
  let io := rewatch s.loop sock sel cond
  { s with
    map := Function.update s.map sock (some { sel with ioConn := io.2, cond := cond })
    loop := untime io.1 sel cond }

def GSelector.deleteSocket (s : GSelector) (sock : Socket) (sel : SelectedSocket) : GSelector :=
  let loop := if s.loop.connected sel.ioConn then s.loop.disconnect sel.ioConn else s.loop
  let loop := if loop.connected sel.timeConn then loop.disconnect sel.timeConn else loop
  { s with map := Function.update s.map sock none, loop := loop }

def GSelector.get (s : GSelector) (sock : Socket) : IoCondition :=
  match s.map sock with
  | none => ioNone
  | some sel => sel.cond

def GSelector.set (s : GSelector) (cobj : Socket → SocketType) (sock : Socket)
    (cond : IoCondition) (setsFlags : Bool) : GSelector × Option Error :=
  if cond ≠ ioNone then
    match s.map sock with
    | none => s.addSocket cobj sock cond setsFlags
    | some sel => (s.modifySocket sock sel cond, none)
  else
    match s.map sock with
    | none => (s, none)
    | some sel => (s.deleteSocket sock sel, none)

/-- The interval of the main loop's timer is an `unsigned int`. -/
def GSelector.setTimeout (s : GSelector) (sock : Socket) (now : TimeVal) (timeout : ℕ) :
    Except Error GSelector :=
  match s.map sock with
  | none => .error (.logicError
      "Sobby::GSelector::set_timeout:\nSocket is not selected of IO_TIMEOUT".toList)
  | some sel =>
    if sel.cond &&& ioTimeout = ioTimeout then
      let loop := if s.loop.connected sel.timeConn then s.loop.disconnect sel.timeConn else s.loop
      .ok { s with
        map := Function.update s.map sock
          (some { sel with timeoutBegin := now, timeout := timeout, timeConn := some loop.next })
        loop := loop.attach (.timeout (timeout % 2 ^ 32) sel.sock) }
    else .error (.logicError
      "Sobby::GSelector::set_timeout:\nSocket is not selected of IO_TIMEOUT".toList)

/-- What `on_io` emits, and whether it asks to keep its source. -/
def GSelector.onIo (s : GSelector) (cond : GCondition) (sock : Socket) :
    Option IoCondition × Bool :=
  match s.map sock with
  | none => (none, false)
  | some sel =>
    if gcond sel.cond &&& cond = gcond ioNone then (none, true) else (some (ncond cond), true)

def GSelector.onTimeout (s : GSelector) (sock : Socket) : Option IoCondition × Bool :=
  match s.map sock with
  | none => (none, false)
  | some sel =>
    if sel.cond &&& ioTimeout = ioNone then (none, false) else (some ioTimeout, false)

inductive Observation where
  | selected (sock : Socket) (cond : IoCondition) (error : Option Error)
  | timeoutSet (sock : Socket) (installed : Option ℕ)
  | ioEvent (source : ℕ) (sock : Socket) (cond : IoCondition)
  | timeoutEvent (source : ℕ) (sock : Socket) (cond : IoCondition)
  deriving DecidableEq, Repr

structure Dispatch where
  source : ℕ
  keep : Bool
  deriving DecidableEq, Repr

/-- The innermost callback comes first; the history is newest first. -/
structure World where
  selector : GSelector
  running : List Dispatch
  trace : List Observation

def start : World := ⟨⟨fun _ => none, noSources, ∅⟩, [], []⟩

inductive Event where
  | set (sock : Socket) (cond : IoCondition) (setsFlags : Bool)
  | setTimeout (sock : Socket) (now : TimeVal) (timeout : ℕ)
  | dispatchIo (source : ℕ) (cond : GCondition)
  | dispatchTimeout (source : ℕ)
  | handlerReturn
  deriving DecidableEq, Repr

/-- A callback that returns `false` destroys the source it was dispatched for. -/
def World.finish (w : World) (d : Dispatch) : World :=
  if d.keep then w
  else { w with selector := { w.selector with loop := w.selector.loop.destroy d.source } }

/-- A callback that emits goes on when its handlers return, any other returns at once. -/
def World.callback (w : World) (source : ℕ) (event : IoCondition → Observation)
    (r : Option IoCondition × Bool) : World :=
  match r.1 with
  | none => w.finish ⟨source, r.2⟩
  | some cond => { w with running := ⟨source, r.2⟩ :: w.running, trace := event cond :: w.trace }

/-- The main loop dispatches a live source that is not being dispatched already, an I/O source
with a non-empty set of conditions inside its mask. -/
def step (cobj : Socket → SocketType) (w : World) : Event → Option World
  | .set sock cond setsFlags =>
    let r := w.selector.set cobj sock cond setsFlags
    some { w with selector := r.1, trace := .selected sock cond r.2 :: w.trace }
  | .setTimeout sock now timeout =>
    match w.selector.setTimeout sock now timeout with
    | .error _ => some { w with trace := .timeoutSet sock none :: w.trace }
    | .ok s =>
      some { w with
        selector := s
        trace := .timeoutSet sock (some w.selector.loop.next) :: w.trace }
  | .dispatchIo source cond =>
    match w.selector.loop.source source with
    | some (.io _ mask sock) =>
      if source ∉ w.running.map Dispatch.source ∧ cond ≠ gNone ∧ Within cond mask then
        some (w.callback source (.ioEvent source sock) (w.selector.onIo cond sock))
      else none
    | _ => none
  | .dispatchTimeout source =>
    match w.selector.loop.source source with
    | some (.timeout _ sock) =>
      if source ∉ w.running.map Dispatch.source then
        some (w.callback source (.timeoutEvent source sock) (w.selector.onTimeout sock))
      else none
    | _ => none
  | .handlerReturn =>
    match w.running with
    | [] => none
    | d :: running => some (World.finish { w with running := running } d)

def SelectedSocket.conn (sel : SelectedSocket) : Kind → Option ℕ
  | .io => sel.ioConn
  | .timeout => sel.timeConn

def SelectedSocket.Fits (sel : SelectedSocket) : Source → Prop
  | .io chan mask _ => sel.ioChan = some chan ∧ mask = gcond sel.cond
  | .timeout interval _ => WantsTimeout sel.cond ∧ interval = sel.timeout % 2 ^ 32

structure Attached (loop : Sources Source) (sock : Socket) (entry : Option SelectedSocket) :
    Prop where
  key : ∀ sel, entry = some sel → sel.sock = sock
  live : ∀ id src, loop.source id = some src → src.sock = sock →
    ∃ sel, entry = some sel ∧ sel.conn src.kind = some id ∧ sel.Fits src
  issued : ∀ sel k id, entry = some sel → sel.conn k = some id → id < loop.next
  owned : ∀ sel k id src, entry = some sel → sel.conn k = some id →
    loop.source id = some src → src.sock = sock ∧ src.kind = k

theorem attached_nothing (sock : Socket) : Attached noSources sock none where
  key := fun _ h => by cases h
  live := fun _ _ h _ => by cases h
  issued := fun _ _ _ h _ => by cases h
  owned := fun _ _ _ _ h _ _ => by cases h

theorem attached_disconnect {loop : Sources Source} {sock : Socket}
    {entry : Option SelectedSocket} (h : Attached loop sock entry) (conn : Option ℕ) :
    Attached (loop.disconnect conn) sock entry where
  key := h.key
  live := fun id src hid => h.live id src (source_disconnect.mp hid).2
  issued := fun sel k id he hc => by simpa using h.issued sel k id he hc
  owned := fun sel k id src he hc hid => h.owned sel k id src he hc (source_disconnect.mp hid).2

theorem attached_attach_other {loop : Sources Source} {sock : Socket}
    {entry : Option SelectedSocket} (h : Attached loop sock entry) {src : Source}
    (hne : src.sock ≠ sock) : Attached (loop.attach src) sock entry := by
  refine ⟨h.key, ?_, ?_, ?_⟩
  · intro id a hid ha
    rcases source_attach.mp hid with ⟨_, rfl⟩ | hid
    · exact absurd ha hne
    · exact h.live id a hid ha
  · intro sel k id he hc
    have hlt := h.issued sel k id he hc
    rw [next_attach]
    omega
  · intro sel k id a he hc hid
    rcases source_attach.mp hid with ⟨rfl, _⟩ | hid
    · exact absurd (h.issued sel k _ he hc) (lt_irrefl _)
    · exact h.owned sel k id a he hc hid

theorem attached_attach {loop : Sources Source} {sock : Socket} {sel sel' : SelectedSocket}
    {src : Source} (h : Attached loop sock (some sel)) (hsrc : src.sock = sock)
    (hnone : ∀ id a, loop.source id = some a → a.sock = sock → a.kind ≠ src.kind)
    (hkey : sel'.sock = sel.sock) (hconn : sel'.conn src.kind = some loop.next)
    (hother : ∀ k, k ≠ src.kind → sel'.conn k = sel.conn k) (hfits : sel'.Fits src)
    (hkeep : ∀ a : Source, a.kind ≠ src.kind → sel.Fits a → sel'.Fits a) :
    Attached (loop.attach src) sock (some sel') := by
  refine ⟨?_, ?_, ?_, ?_⟩
  · rintro _ ⟨⟩
    exact hkey.trans (h.key sel rfl)
  · intro id a hid ha
    rcases source_attach.mp hid with ⟨rfl, rfl⟩ | hid
    · exact ⟨sel', rfl, hconn, hfits⟩
    · obtain ⟨_, ⟨⟩, hc, hf⟩ := h.live id a hid ha
      have hk := hnone id a hid ha
      exact ⟨sel', rfl, (hother _ hk).trans hc, hkeep a hk hf⟩
  · rintro _ k id ⟨⟩ hc
    rw [next_attach]
    by_cases hk : k = src.kind
    · rw [hk, hconn, Option.some.injEq] at hc
      omega
    · rw [hother k hk] at hc
      have hlt := h.issued sel k id rfl hc
      omega
  · rintro _ k id a ⟨⟩ hc hid
    by_cases hk : k = src.kind
    · rw [hk, hconn, Option.some.injEq] at hc
      rcases source_attach.mp hid with ⟨_, rfl⟩ | hid
      · exact ⟨hsrc, hk.symm⟩
      · exact absurd (source_lt hid) (by omega)
    · rw [hother k hk] at hc
      have hlt := h.issued sel k id rfl hc
      rcases source_attach.mp hid with ⟨rfl, _⟩ | hid
      · exact absurd hlt (lt_irrefl _)
      · exact h.owned sel k id a rfl hc hid

theorem attached_change {loop : Sources Source} {sock : Socket} {sel sel' : SelectedSocket}
    (h : Attached loop sock (some sel)) (hkey : sel'.sock = sel.sock)
    (hconn : ∀ k, sel'.conn k = sel.conn k ∨ (sel'.conn k = none ∧
      ∀ id src, loop.source id = some src → src.sock = sock → src.kind ≠ k))
    (hfits : ∀ id src, loop.source id = some src → src.sock = sock → sel.Fits src →
      sel'.Fits src) :
    Attached loop sock (some sel') := by
  refine ⟨?_, ?_, ?_, ?_⟩
  · rintro _ ⟨⟩
    exact hkey.trans (h.key sel rfl)
  · intro id src hid hsrc
    obtain ⟨_, ⟨⟩, hc, hf⟩ := h.live id src hid hsrc
    rcases hconn src.kind with hk | ⟨_, hn⟩
    · exact ⟨sel', rfl, hk.trans hc, hfits id src hid hsrc hf⟩
    · exact absurd rfl (hn id src hid hsrc)
  · rintro _ k id ⟨⟩ hc
    rcases hconn k with hk | ⟨hk, _⟩
    · exact h.issued sel k id rfl (hk.symm.trans hc)
    · rw [hk] at hc
      cases hc
  · rintro _ k id src ⟨⟩ hc hid
    rcases hconn k with hk | ⟨hk, _⟩
    · exact h.owned sel k id src rfl (hk.symm.trans hc) hid
    · rw [hk] at hc
      cases hc

theorem fits_of_same {sel sel' : SelectedSocket} {src : Source} (hf : sel.Fits src)
    (hio : src.kind = .io → sel'.ioChan = sel.ioChan ∧ gcond sel'.cond = gcond sel.cond)
    (htime : src.kind = .timeout →
      (WantsTimeout sel'.cond ↔ WantsTimeout sel.cond) ∧ sel'.timeout = sel.timeout) :
    sel'.Fits src := by
  cases src with
  | io chan mask sock =>
    obtain ⟨hchan, hmask⟩ := hf
    exact ⟨(hio rfl).1.trans hchan, hmask.trans (hio rfl).2.symm⟩
  | timeout interval sock =>
    obtain ⟨hwants, hinterval⟩ := hf
    exact ⟨(htime rfl).1.mpr hwants, by rw [hinterval, (htime rfl).2]⟩

theorem disconnect_kind {loop : Sources Source} {sock : Socket} {sel : SelectedSocket}
    (h : Attached loop sock (some sel)) (k : Kind) {id : ℕ} {src : Source}
    (hid : (loop.disconnect (sel.conn k)).source id = some src) (hsrc : src.sock = sock) :
    src.kind ≠ k := by
  rintro rfl
  obtain ⟨hne, hid⟩ := source_disconnect.mp hid
  obtain ⟨_, ⟨⟩, hc, _⟩ := h.live id src hid hsrc
  exact hne hc

theorem disconnect_others {loop : Sources Source} {sock : Socket} {sel : SelectedSocket}
    (h : Attached loop sock (some sel)) (k : Kind) {id : ℕ} {src : Source}
    (hid : loop.source id = some src) (hne : src.sock ≠ sock ∨ src.kind ≠ k) :
    (loop.disconnect (sel.conn k)).source id = some src := by
  refine source_disconnect.mpr ⟨fun hc => ?_, hid⟩
  obtain ⟨hs, hk⟩ := h.owned sel k id src rfl hc hid
  rcases hne with hne | hne
  · exact hne hs
  · exact hne hk

theorem attached_connectIo {loop : Sources Source} {sock : Socket} {sel : SelectedSocket}
    (h : Attached loop sock (some sel))
    (hnone : ∀ id a, loop.source id = some a → a.sock = sock → a.kind ≠ .io) :
    Attached (connectIo loop sel.ioChan (gcond sel.cond) sock).1 sock
      (some { sel with ioConn := (connectIo loop sel.ioChan (gcond sel.cond) sock).2 }) := by
  cases hchan : sel.ioChan with
  | none =>
    refine attached_change h rfl ?_ ?_
    · intro k
      cases k with
      | io => exact Or.inr ⟨rfl, hnone⟩
      | timeout => exact Or.inl rfl
    · intro id src hid hsrc hf
      exact fits_of_same hf (fun hk => absurd hk (hnone id src hid hsrc)) fun _ => ⟨Iff.rfl, rfl⟩
  | some fd =>
    refine attached_attach h rfl hnone rfl rfl ?_ ⟨rfl, rfl⟩ ?_
    · intro k hk
      cases k with
      | io => exact absurd rfl hk
      | timeout => rfl
    · intro a ha hf
      exact fits_of_same hf (fun hk => absurd hk ha) fun _ => ⟨Iff.rfl, rfl⟩

theorem rewatch_cases (loop : Sources Source) (sock : Socket) (sel : SelectedSocket)
    (cond : IoCondition) :
    (sel.cond &&& ioFlags = cond &&& ioFlags ∧
      rewatch loop sock sel cond = (loop, sel.ioConn)) ∨
    (sel.cond &&& ioFlags ≠ cond &&& ioFlags ∧ ¬ WantsIo cond ∧
      rewatch loop sock sel cond = (loop.disconnect sel.ioConn, sel.ioConn)) ∨
    (sel.cond &&& ioFlags ≠ cond &&& ioFlags ∧ WantsIo cond ∧
      rewatch loop sock sel cond =
        connectIo (loop.disconnect sel.ioConn) sel.ioChan (gcond cond) sock) := by
  simp only [rewatch, disconnect_if_connected]
  by_cases hio : sel.cond &&& ioFlags = cond &&& ioFlags
  · exact Or.inl ⟨hio, by simp [hio]⟩
  · by_cases hw : WantsIo cond
    · exact Or.inr (Or.inr ⟨hio, hw, by simp [hio, hw]⟩)
    · exact Or.inr (Or.inl ⟨hio, hw, by simp [hio, hw]⟩)

theorem untime_cases (loop : Sources Source) (sel : SelectedSocket) (cond : IoCondition) :
    (sel.cond &&& ioTimeout = cond &&& ioTimeout ∧ untime loop sel cond = loop) ∨
    (sel.cond &&& ioTimeout ≠ cond &&& ioTimeout ∧
      untime loop sel cond = loop.disconnect sel.timeConn) := by
  simp only [untime, disconnect_if_connected]
  by_cases ht : sel.cond &&& ioTimeout = cond &&& ioTimeout
  · exact Or.inl ⟨ht, by simp [ht]⟩
  · exact Or.inr ⟨ht, by simp [ht]⟩

/-- The watch follows the I/O flags of the new selection; the timer is not looked at. -/
theorem attached_rewatch {loop : Sources Source} {sock : Socket} {sel : SelectedSocket}
    (h : Attached loop sock (some sel)) {cond c : IoCondition}
    (hio : c &&& ioFlags = cond &&& ioFlags) (htime : c &&& ioTimeout = sel.cond &&& ioTimeout) :
    Attached (rewatch loop sock sel cond).1 sock
      (some { sel with ioConn := (rewatch loop sock sel cond).2, cond := c }) := by
  have hdrop : Attached (loop.disconnect sel.ioConn) sock (some { sel with cond := c }) := by
    refine attached_change (attached_disconnect h sel.ioConn) rfl (fun k => Or.inl ?_) ?_
    · cases k <;> rfl
    · intro id src hid hsrc hf
      have hnone := disconnect_kind h .io hid hsrc
      exact fits_of_same hf (fun hk => absurd hk hnone) fun _ => ⟨wantsTimeout_congr htime, rfl⟩
  rcases rewatch_cases loop sock sel cond with ⟨hsame, hr⟩ | ⟨_, _, hr⟩ | ⟨_, _, hr⟩
  · rw [hr]
    refine attached_change h rfl (fun k => Or.inl ?_) ?_
    · cases k <;> rfl
    · intro id src hid hsrc hf
      have hmask : gcond c = gcond sel.cond := gcond_congr _ _ (hio.trans hsame.symm)
      exact fits_of_same hf (fun _ => ⟨rfl, hmask⟩) fun _ => ⟨wantsTimeout_congr htime, rfl⟩
  · rw [hr]
    exact hdrop
  · rw [hr, ← gcond_congr _ _ hio]
    exact attached_connectIo hdrop fun id a hid ha => disconnect_kind h .io hid ha

theorem attached_untime {loop : Sources Source} {sock : Socket} {sel : SelectedSocket}
    (h : Attached loop sock (some sel)) {cond : IoCondition}
    (hio : sel.cond &&& ioFlags = cond &&& ioFlags) :
    Attached (untime loop sel cond) sock (some { sel with cond := cond }) := by
  have hmask : gcond cond = gcond sel.cond := gcond_congr _ _ hio.symm
  rcases untime_cases loop sel cond with ⟨hsame, hu⟩ | ⟨_, hu⟩
  · rw [hu]
    refine attached_change h rfl (fun k => Or.inl ?_) ?_
    · cases k <;> rfl
    · intro id src hid hsrc hf
      exact fits_of_same hf (fun _ => ⟨rfl, hmask⟩)
        fun _ => ⟨wantsTimeout_congr hsame.symm, rfl⟩
  · rw [hu]
    refine attached_change (attached_disconnect h sel.timeConn) rfl (fun k => Or.inl ?_) ?_
    · cases k <;> rfl
    · intro id src hid hsrc hf
      have hnone := disconnect_kind h .timeout hid hsrc
      exact fits_of_same hf (fun _ => ⟨rfl, hmask⟩) fun hk => absurd hk hnone

theorem attached_connectIo_other {loop : Sources Source} {other sock : Socket}
    {entry : Option SelectedSocket} (h : Attached loop other entry) (hne : sock ≠ other)
    (chan : Option SocketType) (mask : GCondition) :
    Attached (connectIo loop chan mask sock).1 other entry := by
  cases chan with
  | none => exact h
  | some fd => exact attached_attach_other h hne

theorem attached_rewatch_other {loop : Sources Source} {other sock : Socket}
    {entry : Option SelectedSocket} (h : Attached loop other entry) (hne : sock ≠ other)
    (sel : SelectedSocket) (cond : IoCondition) :
    Attached (rewatch loop sock sel cond).1 other entry := by
  rcases rewatch_cases loop sock sel cond with ⟨_, hr⟩ | ⟨_, _, hr⟩ | ⟨_, _, hr⟩
  · rw [hr]
    exact h
  · rw [hr]
    exact attached_disconnect h sel.ioConn
  · rw [hr]
    exact attached_connectIo_other (attached_disconnect h sel.ioConn) hne _ _

theorem attached_untime_other {loop : Sources Source} {other : Socket}
    {entry : Option SelectedSocket} (h : Attached loop other entry) (sel : SelectedSocket)
    (cond : IoCondition) : Attached (untime loop sel cond) other entry := by
  rcases untime_cases loop sel cond with ⟨_, hu⟩ | ⟨_, hu⟩
  · rw [hu]
    exact h
  · rw [hu]
    exact attached_disconnect h sel.timeConn

/-- A socket without an entry has no live source, so a new entry may be stored as it is. -/
theorem attached_newEntry {loop : Sources Source} {sock : Socket}
    (h : Attached loop sock none) (cond : IoCondition) :
    Attached loop sock (some (newEntry sock cond)) where
  key := by
    rintro _ ⟨⟩
    rfl
  live := by
    intro id src hid hsrc
    obtain ⟨_, he, _⟩ := h.live id src hid hsrc
    cases he
  issued := by
    rintro _ k id ⟨⟩ hc
    cases k <;> cases hc
  owned := by
    rintro _ k id src ⟨⟩ hc
    cases k <;> cases hc

def GSelector.Kept (s : GSelector) : Prop := ∀ sock, Attached s.loop sock (s.map sock)

theorem kept_of_update {s : GSelector} {loop : Sources Source} {sock : Socket}
    {entry : Option SelectedSocket} {nonBlocking : Finset SocketType}
    (hsock : Attached loop sock entry)
    (hother : ∀ other, sock ≠ other → Attached loop other (s.map other)) :
    GSelector.Kept ⟨Function.update s.map sock entry, loop, nonBlocking⟩ := by
  intro other
  by_cases h : sock = other
  · subst h
    simpa using hsock
  · simpa [Function.update_of_ne (Ne.symm h)] using hother other h

theorem addSocket_cases (s : GSelector) (cobj : Socket → SocketType) (sock : Socket)
    (cond : IoCondition) (setsFlags : Bool) :
    (WantsIo cond ∧ setsFlags = true ∧ s.addSocket cobj sock cond setsFlags =
      (⟨Function.update s.map sock (some { newEntry sock cond with
            ioChan := some (cobj sock), ioConn := some s.loop.next }),
        s.loop.attach (.io (cobj sock) (gcond cond) sock),
        insert (cobj sock) s.nonBlocking⟩, none)) ∨
    (WantsIo cond ∧ setsFlags = false ∧ s.addSocket cobj sock cond setsFlags =
      ({ s with map := Function.update s.map sock (some (newEntry sock cond)) },
        some .system)) ∨
    (¬ WantsIo cond ∧ s.addSocket cobj sock cond setsFlags =
      ({ s with map := Function.update s.map sock (some (newEntry sock cond)) }, none)) := by
  by_cases hw : WantsIo cond
  · cases setsFlags with
    | true => exact Or.inl ⟨hw, rfl, by simp [GSelector.addSocket, hw, connectIo]⟩
    | false => exact Or.inr (Or.inl ⟨hw, rfl, by simp [GSelector.addSocket, hw]⟩)
  · exact Or.inr (Or.inr ⟨hw, by simp [GSelector.addSocket, hw]⟩)

theorem addSocket_kept {s : GSelector} (hs : s.Kept) {cobj : Socket → SocketType} {sock : Socket}
    (habs : s.map sock = none) (cond : IoCondition) (setsFlags : Bool) :
    (s.addSocket cobj sock cond setsFlags).1.Kept := by
  have hnew : Attached s.loop sock (some (newEntry sock cond)) :=
    attached_newEntry (habs ▸ hs sock) cond
  obtain ⟨_, _, h⟩ | ⟨_, _, h⟩ | ⟨_, h⟩ := addSocket_cases s cobj sock cond setsFlags
  · rw [h]
    refine kept_of_update ?_ fun other hne => attached_attach_other (hs other) hne
    refine attached_attach hnew rfl ?_ rfl rfl ?_ ⟨rfl, rfl⟩ ?_
    · intro id a hid ha
      obtain ⟨_, he, _⟩ := (hs sock).live id a hid ha
      rw [habs] at he
      cases he
    · intro k hk
      cases k with
      | io => exact absurd rfl hk
      | timeout => rfl
    · intro a ha hf
      exact fits_of_same hf (fun hk => absurd hk ha) fun _ => ⟨Iff.rfl, rfl⟩
  · rw [h]
    exact kept_of_update hnew fun other _ => hs other
  · rw [h]
    exact kept_of_update hnew fun other _ => hs other

theorem mixed_flags : ∀ a b : IoCondition,
    (a &&& ioFlags ||| b &&& ioTimeout) &&& ioFlags = a &&& ioFlags ∧
      (a &&& ioFlags ||| b &&& ioTimeout) &&& ioTimeout = b &&& ioTimeout := by
  decide

theorem untime_mixed (loop : Sources Source) (sel : SelectedSocket) (conn : Option ℕ)
    (cond : IoCondition) :
    untime loop { sel with ioConn := conn, cond := cond &&& ioFlags ||| sel.cond &&& ioTimeout }
      cond = untime loop sel cond := by
  simp only [untime, (mixed_flags cond sel.cond).2]

theorem modifySocket_kept {s : GSelector} (hs : s.Kept) {sock : Socket} {sel : SelectedSocket}
    (hsel : s.map sock = some sel) (cond : IoCondition) :
    (s.modifySocket sock sel cond).Kept := by
  refine kept_of_update ?_ fun other hne =>
    attached_untime_other (attached_rewatch_other (hs other) hne sel cond) sel cond
  obtain ⟨hio, htime⟩ := mixed_flags cond sel.cond
  have h : Attached s.loop sock (some sel) := hsel ▸ hs sock
  have hstep := attached_untime (attached_rewatch h hio htime) hio
  rw [untime_mixed] at hstep
  exact hstep

theorem deleteSocket_kept {s : GSelector} (hs : s.Kept) {sock : Socket} {sel : SelectedSocket}
    (hsel : s.map sock = some sel) : (s.deleteSocket sock sel).Kept := by
  have h : Attached s.loop sock (some sel) := hsel ▸ hs sock
  simp only [GSelector.deleteSocket, disconnect_if_connected]
  refine kept_of_update ?_ fun other _ => attached_disconnect (attached_disconnect (hs other) _) _
  have hnone : ∀ id src, ((s.loop.disconnect sel.ioConn).disconnect sel.timeConn).source id =
      some src → src.sock ≠ sock := by
    intro id src hid hsrc
    have htime := disconnect_kind (attached_disconnect h sel.ioConn) .timeout hid hsrc
    have hio := disconnect_kind h .io (source_disconnect.mp hid).2 hsrc
    cases src with
    | io chan mask s => exact hio rfl
    | timeout interval s => exact htime rfl
  refine ⟨fun _ he => ?_, fun id src hid hsrc => absurd hsrc (hnone id src hid), ?_, ?_⟩
  · cases he
  · intro _ _ _ he
    cases he
  · intro _ _ _ _ he
    cases he

theorem set_cases (s : GSelector) (cobj : Socket → SocketType) (sock : Socket)
    (cond : IoCondition) (setsFlags : Bool) :
    (s.map sock = none ∧ cond = ioNone ∧ s.set cobj sock cond setsFlags = (s, none)) ∨
    (s.map sock = none ∧ cond ≠ ioNone ∧
      s.set cobj sock cond setsFlags = s.addSocket cobj sock cond setsFlags) ∨
    (∃ sel, s.map sock = some sel ∧ cond = ioNone ∧
      s.set cobj sock cond setsFlags = (s.deleteSocket sock sel, none)) ∨
    (∃ sel, s.map sock = some sel ∧ cond ≠ ioNone ∧
      s.set cobj sock cond setsFlags = (s.modifySocket sock sel cond, none)) := by
  by_cases hc : cond = ioNone
  · cases hsel : s.map sock with
    | none => exact Or.inl ⟨rfl, hc, by simp [GSelector.set, hsel, hc]⟩
    | some sel =>
      exact Or.inr (Or.inr (Or.inl ⟨sel, rfl, hc, by simp [GSelector.set, hsel, hc]⟩))
  · cases hsel : s.map sock with
    | none => exact Or.inr (Or.inl ⟨rfl, hc, by simp [GSelector.set, hsel, hc]⟩)
    | some sel =>
      exact Or.inr (Or.inr (Or.inr ⟨sel, rfl, hc, by simp [GSelector.set, hsel, hc]⟩))

theorem set_kept {s : GSelector} (hs : s.Kept) (cobj : Socket → SocketType) (sock : Socket)
    (cond : IoCondition) (setsFlags : Bool) : (s.set cobj sock cond setsFlags).1.Kept := by
  obtain ⟨_, _, h⟩ | ⟨hsel, _, h⟩ | ⟨sel, hsel, _, h⟩ | ⟨sel, hsel, _, h⟩ :=
    set_cases s cobj sock cond setsFlags
  · rw [h]
    exact hs
  · rw [h]
    exact addSocket_kept hs hsel cond setsFlags
  · rw [h]
    exact deleteSocket_kept hs hsel
  · rw [h]
    exact modifySocket_kept hs hsel cond

theorem setTimeout_ok {s s' : GSelector} {sock : Socket} {now : TimeVal} {timeout : ℕ}
    (h : s.setTimeout sock now timeout = .ok s') :
    ∃ sel, s.map sock = some sel ∧ WantsTimeout sel.cond ∧
      s' = { s with
        map := Function.update s.map sock
          (some { sel with
            timeoutBegin := now, timeout := timeout, timeConn := some s.loop.next })
        loop := (s.loop.disconnect sel.timeConn).attach
          (.timeout (timeout % 2 ^ 32) sel.sock) } := by
  unfold GSelector.setTimeout at h
  cases hsel : s.map sock with
  | none => simp [hsel] at h
  | some sel =>
    simp only [hsel, disconnect_if_connected, next_disconnect] at h
    split at h
    · next ht =>
      refine ⟨sel, rfl, ?_, (Except.ok.inj h).symm⟩
      rw [WantsTimeout, ht]
      decide
    · cases h

theorem setTimeout_kept {s s' : GSelector} (hs : s.Kept) {sock : Socket} {now : TimeVal}
    {timeout : ℕ} (h : s.setTimeout sock now timeout = .ok s') : s'.Kept := by
  obtain ⟨sel, hsel, hwants, rfl⟩ := setTimeout_ok h
  have hat : Attached s.loop sock (some sel) := hsel ▸ hs sock
  have hsock : sel.sock = sock := hat.key sel rfl
  refine kept_of_update ?_ fun other hne =>
    attached_attach_other (attached_disconnect (hs other) _) (hsock.trans_ne hne)
  refine attached_attach (attached_disconnect hat sel.timeConn) hsock
    (fun id a hid ha => disconnect_kind hat .timeout hid ha) rfl ?_ ?_ ⟨hwants, rfl⟩ ?_
  · simp [Source.kind, SelectedSocket.conn]
  · intro k hk
    cases k with
    | io => rfl
    | timeout => exact absurd rfl hk
  · intro a ha hf
    exact fits_of_same hf (fun _ => ⟨rfl, rfl⟩) fun hk => absurd hk ha

theorem later_connectIo (loop : Sources Source) (chan : Option SocketType) (mask : GCondition)
    (sock : Socket) : Later loop (connectIo loop chan mask sock).1 := by
  cases chan with
  | none => exact later_refl loop
  | some fd => exact later_attach loop _

theorem addSocket_later (s : GSelector) (cobj : Socket → SocketType) (sock : Socket)
    (cond : IoCondition) (setsFlags : Bool) :
    Later s.loop (s.addSocket cobj sock cond setsFlags).1.loop := by
  obtain ⟨_, _, h⟩ | ⟨_, _, h⟩ | ⟨_, h⟩ := addSocket_cases s cobj sock cond setsFlags
  · rw [h]
    exact later_attach _ _
  · rw [h]
    exact later_refl _
  · rw [h]
    exact later_refl _

theorem modifySocket_later (s : GSelector) (sock : Socket) (sel : SelectedSocket)
    (cond : IoCondition) : Later s.loop (s.modifySocket sock sel cond).loop := by
  have hwatch : Later s.loop (rewatch s.loop sock sel cond).1 := by
    rcases rewatch_cases s.loop sock sel cond with ⟨_, hr⟩ | ⟨_, _, hr⟩ | ⟨_, _, hr⟩
    · rw [hr]
      exact later_refl _
    · rw [hr]
      exact later_disconnect _ _
    · rw [hr]
      exact later_trans (later_disconnect _ _) (later_connectIo _ _ _ _)
  apply later_trans hwatch
  simp only [GSelector.modifySocket]
  rcases untime_cases (rewatch s.loop sock sel cond).1 sel cond with ⟨_, hu⟩ | ⟨_, hu⟩
  · rw [hu]
    exact later_refl _
  · rw [hu]
    exact later_disconnect _ _

theorem deleteSocket_later (s : GSelector) (sock : Socket) (sel : SelectedSocket) :
    Later s.loop (s.deleteSocket sock sel).loop := by
  simp only [GSelector.deleteSocket, disconnect_if_connected]
  exact later_trans (later_disconnect _ _) (later_disconnect _ _)

theorem set_later (s : GSelector) (cobj : Socket → SocketType) (sock : Socket)
    (cond : IoCondition) (setsFlags : Bool) :
    Later s.loop (s.set cobj sock cond setsFlags).1.loop := by
  obtain ⟨_, _, h⟩ | ⟨_, _, h⟩ | ⟨sel, _, _, h⟩ | ⟨sel, _, _, h⟩ :=
    set_cases s cobj sock cond setsFlags
  · rw [h]
    exact later_refl _
  · rw [h]
    exact addSocket_later s cobj sock cond setsFlags
  · rw [h]
    exact deleteSocket_later s sock sel
  · rw [h]
    exact modifySocket_later s sock sel cond

theorem setTimeout_later {s s' : GSelector} {sock : Socket} {now : TimeVal} {timeout : ℕ}
    (h : s.setTimeout sock now timeout = .ok s') : Later s.loop s'.loop := by
  obtain ⟨sel, _, _, rfl⟩ := setTimeout_ok h
  exact later_trans (later_disconnect _ _) (later_attach _ _)

/-- The source of an I/O callback is kept: only timers ask to be destroyed on return. -/
structure Kept (w : World) : Prop where
  selector : w.selector.Kept
  issued : ∀ d ∈ w.running, d.source < w.selector.loop.next
  timers : ∀ d ∈ w.running, d.keep = false →
    ∀ src, w.selector.loop.source d.source = some src → src.kind = .timeout

theorem finish_cases (w : World) (d : Dispatch) :
    (d.keep = true ∧ w.finish d = w) ∨
    (d.keep = false ∧ w.finish d =
      ⟨{ w.selector with loop := w.selector.loop.destroy d.source }, w.running, w.trace⟩) := by
  unfold World.finish
  cases d.keep with
  | true => exact Or.inl ⟨rfl, rfl⟩
  | false => exact Or.inr ⟨rfl, rfl⟩

theorem start_kept : Kept start where
  selector := fun sock => attached_nothing sock
  issued := fun _ hd => by cases hd
  timers := fun _ hd => by cases hd

theorem onIo_live {s : GSelector} (hs : s.Kept) {id : ℕ} {chan : SocketType}
    {mask cond : GCondition} {sock : Socket} (hid : s.loop.source id = some (.io chan mask sock))
    (hne : cond ≠ gNone) (hin : Within cond mask) :
    mask = gcond (s.get sock) ∧ s.onIo cond sock = (some (ncond cond), true) := by
  obtain ⟨sel, hsel, _, _, hmask⟩ := (hs sock).live id _ hid rfl
  have hget : s.get sock = sel.cond := by simp [GSelector.get, hsel]
  refine ⟨by rw [hget, hmask], ?_⟩
  have hcond : gcond sel.cond &&& cond = cond := by
    rw [← hmask, BitVec.and_comm]
    exact hin
  have hnone : gcond ioNone = gNone := by decide
  simp [GSelector.onIo, hsel, hcond, hnone, hne]

/-- The two early returns of `on_timeout` are never taken. -/
theorem onTimeout_live {s : GSelector} (hs : s.Kept) {id interval : ℕ} {sock : Socket}
    (hid : s.loop.source id = some (.timeout interval sock)) :
    s.onTimeout sock = (some ioTimeout, false) := by
  obtain ⟨sel, hsel, _, hwants, _⟩ := (hs sock).live id _ hid rfl
  have hne : sel.cond &&& ioTimeout ≠ ioNone := hwants
  simp [GSelector.onTimeout, hsel, hne]

/-- What a step does to a world in which only selected sockets have live sources. -/
theorem step_cases {cobj : Socket → SocketType} {w w' : World} {e : Event}
    (hs : w.selector.Kept) (h : step cobj w e = some w') :
    (∃ sock cond setsFlags, e = .set sock cond setsFlags ∧
      w' = ⟨(w.selector.set cobj sock cond setsFlags).1, w.running,
        .selected sock cond (w.selector.set cobj sock cond setsFlags).2 :: w.trace⟩) ∨
    (∃ sock now timeout error, e = .setTimeout sock now timeout ∧
      w.selector.setTimeout sock now timeout = .error error ∧
      w' = ⟨w.selector, w.running, .timeoutSet sock none :: w.trace⟩) ∨
    (∃ sock now timeout s, e = .setTimeout sock now timeout ∧
      w.selector.setTimeout sock now timeout = .ok s ∧
      w' = ⟨s, w.running, .timeoutSet sock (some w.selector.loop.next) :: w.trace⟩) ∨
    (∃ id cond chan sock, e = .dispatchIo id cond ∧ id ∉ w.running.map Dispatch.source ∧
      w.selector.loop.source id = some (.io chan (gcond (w.selector.get sock)) sock) ∧
      cond ≠ gNone ∧ Within cond (gcond (w.selector.get sock)) ∧
      w' = ⟨w.selector, ⟨id, true⟩ :: w.running, .ioEvent id sock (ncond cond) :: w.trace⟩) ∨
    (∃ id interval sock, e = .dispatchTimeout id ∧ id ∉ w.running.map Dispatch.source ∧
      w.selector.loop.source id = some (.timeout interval sock) ∧
      w' = ⟨w.selector, ⟨id, false⟩ :: w.running, .timeoutEvent id sock ioTimeout :: w.trace⟩) ∨
    (∃ d running, e = .handlerReturn ∧ w.running = d :: running ∧
      w' = World.finish ⟨w.selector, running, w.trace⟩ d) := by
  cases e with
  | set sock cond setsFlags => exact Or.inl ⟨sock, cond, setsFlags, rfl, (Option.some.inj h).symm⟩
  | setTimeout sock now timeout =>
    simp only [step] at h
    split at h
    · next error he =>
      exact Or.inr (Or.inl ⟨sock, now, timeout, error, rfl, he, (Option.some.inj h).symm⟩)
    · next s hok =>
      exact Or.inr (Or.inr (Or.inl ⟨sock, now, timeout, s, rfl, hok, (Option.some.inj h).symm⟩))
  | dispatchIo id cond =>
    simp only [step] at h
    split at h
    · next chan mask sock hid =>
      split at h
      · next hg =>
        obtain ⟨rfl, hio⟩ := onIo_live hs hid hg.2.1 hg.2.2
        refine Or.inr (Or.inr (Or.inr (Or.inl
          ⟨id, cond, chan, sock, rfl, hg.1, hid, hg.2.1, hg.2.2, ?_⟩)))
        simpa [World.callback, hio] using h.symm
      · cases h
    · cases h
  | dispatchTimeout id =>
    simp only [step] at h
    split at h
    · next interval sock hid =>
      split at h
      · next hg =>
        refine Or.inr (Or.inr (Or.inr (Or.inr (Or.inl ⟨id, interval, sock, rfl, hg, hid, ?_⟩))))
        simpa [World.callback, onTimeout_live hs hid] using h.symm
      · cases h
    · cases h
  | handlerReturn =>
    simp only [step] at h
    split at h
    · cases h
    · next d running hd =>
      exact Or.inr (Or.inr (Or.inr (Or.inr (Or.inr
        ⟨d, running, rfl, hd, (Option.some.inj h).symm⟩))))

theorem kept_of_later {w : World} (hw : Kept w) {s : GSelector} (hs : s.Kept)
    (hl : Later w.selector.loop s.loop) (trace : List Observation) :
    Kept ⟨s, w.running, trace⟩ where
  selector := hs
  issued := fun d hd => (hw.issued d hd).trans_le hl.next_le
  timers := fun d hd hk src hid => hw.timers d hd hk src (hl.old _ _ (hw.issued d hd) hid)

theorem kept_callback {w : World} (hw : Kept w) {id : ℕ} {src : Source} {keep : Bool}
    (hid : w.selector.loop.source id = some src) (hkeep : keep = false → src.kind = .timeout)
    (trace : List Observation) : Kept ⟨w.selector, ⟨id, keep⟩ :: w.running, trace⟩ where
  selector := hw.selector
  issued := by
    intro d hd
    rcases List.mem_cons.mp hd with rfl | hd
    · exact source_lt hid
    · exact hw.issued d hd
  timers := by
    intro d hd hk a ha
    rcases List.mem_cons.mp hd with rfl | hd
    · obtain rfl := Option.some.inj (hid.symm.trans ha)
      exact hkeep hk
    · exact hw.timers d hd hk a ha

theorem kept_step (cobj : Socket → SocketType) (w : World) (e : Event) (w' : World) (hw : Kept w)
    (h : step cobj w e = some w') : Kept w' := by
  obtain ⟨sock, cond, setsFlags, _, rfl⟩ | ⟨sock, now, timeout, error, _, _, rfl⟩ |
    ⟨sock, now, timeout, s, _, hok, rfl⟩ | ⟨id, cond, chan, sock, _, _, hid, _, _, rfl⟩ |
    ⟨id, interval, sock, _, _, hid, rfl⟩ | ⟨d, running, _, hrun, rfl⟩ := step_cases hw.selector h
  · exact kept_of_later hw (set_kept hw.selector cobj sock cond setsFlags) (set_later _ _ _ _ _) _
  · exact ⟨hw.selector, hw.issued, hw.timers⟩
  · exact kept_of_later hw (setTimeout_kept hw.selector hok) (setTimeout_later hok) _
  · exact kept_callback hw hid (fun hk => by cases hk) _
  · exact kept_callback hw hid (fun _ => rfl) _
  · have hsub : ∀ d' ∈ running, d' ∈ w.running := by
      intro d' hd'
      rw [hrun]
      exact List.mem_cons_of_mem d hd'
    rcases finish_cases ⟨w.selector, running, w.trace⟩ d with ⟨_, hf⟩ | ⟨_, hf⟩
    · rw [hf]
      exact ⟨hw.selector, fun d' hd' => hw.issued d' (hsub d' hd'),
        fun d' hd' => hw.timers d' (hsub d' hd')⟩
    · rw [hf]
      refine ⟨fun sock => attached_disconnect (hw.selector sock) (some d.source),
        fun d' hd' => hw.issued d' (hsub d' hd'), fun d' hd' hk src hid => ?_⟩
      exact hw.timers d' (hsub d' hd') hk src (source_destroy.mp hid).2

end SocketSelector
