import Sobby.SocketSelector

/-! What the socket selector delivers. An event never carries more than the conditions last
selected for its socket; a selected condition is watched for exactly when the call that added
the socket's entry asked for I/O, since only that call creates the channel. -/
namespace SelectorDelivery

open StepMachine
open IoConditions
open SourceTable
open SocketSelector

abbrev Calls := List (Socket × IoCondition)

def selections (trace : List Observation) : Calls :=
  trace.filterMap fun
    | .selected sock cond _ => some (sock, cond)
    | _ => none

def lastSelected : Calls → Socket → IoCondition
  | [], _ => ioNone
  | (s, cond) :: older, sock => if s = sock then cond else lastSelected older sock

def OnlySelected : List Observation → Prop
  | [] => True
  | .ioEvent _ sock cond :: older =>
    (cond ≠ ioNone ∧ Within cond (lastSelected (selections older) sock)) ∧ OnlySelected older
  | _ :: older => OnlySelected older

structure DeliversSelected (w : World) : Prop where
  current : ∀ sock, w.selector.get sock = lastSelected (selections w.trace) sock
  events : OnlySelected w.trace
  mask : ∀ id chan mask sock, w.selector.loop.source id = some (.io chan mask sock) →
    w.selector.map sock ≠ none ∧ mask = gcond (w.selector.get sock)
  single : ∀ id id' chan chan' mask mask' sock,
    w.selector.loop.source id = some (.io chan mask sock) →
    w.selector.loop.source id' = some (.io chan' mask' sock) → id = id'

theorem addSocket_map (s : GSelector) (cobj : Socket → SocketType) (sock : Socket)
    (cond : IoCondition) (setsFlags : Bool) :
    ∃ sel, sel.cond = cond ∧
      (s.addSocket cobj sock cond setsFlags).1.map = Function.update s.map sock (some sel) := by
  obtain ⟨_, _, h⟩ | ⟨_, _, h⟩ | ⟨_, h⟩ := addSocket_cases s cobj sock cond setsFlags
  · rw [h]
    exact ⟨_, rfl, rfl⟩
  · rw [h]
    exact ⟨_, rfl, rfl⟩
  · rw [h]
    exact ⟨_, rfl, rfl⟩

theorem set_map_other (s : GSelector) (cobj : Socket → SocketType) {sock other : Socket}
    (cond : IoCondition) (setsFlags : Bool) (hne : sock ≠ other) :
    (s.set cobj sock cond setsFlags).1.map other = s.map other := by
  obtain ⟨_, _, h⟩ | ⟨_, _, h⟩ | ⟨sel, _, _, h⟩ | ⟨sel, _, _, h⟩ :=
    set_cases s cobj sock cond setsFlags
  · rw [h]
  · obtain ⟨sel, _, hmap⟩ := addSocket_map s cobj sock cond setsFlags
    rw [h, hmap, Function.update_of_ne hne.symm]
  · rw [h]
    exact Function.update_of_ne hne.symm _ _
  · rw [h]
    exact Function.update_of_ne hne.symm _ _

theorem set_get (s : GSelector) (cobj : Socket → SocketType) (sock other : Socket)
    (cond : IoCondition) (setsFlags : Bool) :
    (s.set cobj sock cond setsFlags).1.get other = if sock = other then cond else s.get other := by
  by_cases hne : sock = other
  · subst hne
    rw [if_pos rfl]
    obtain ⟨hsel, hc, h⟩ | ⟨_, _, h⟩ | ⟨sel, _, hc, h⟩ | ⟨sel, _, _, h⟩ :=
      set_cases s cobj sock cond setsFlags
    · rw [h, hc]
      simp [GSelector.get, hsel]
    · obtain ⟨sel, hcond, hmap⟩ := addSocket_map s cobj sock cond setsFlags
      simp [h, GSelector.get, hmap, hcond]
    · rw [h, hc]
      simp [GSelector.get, GSelector.deleteSocket]
    · simp [h, GSelector.get, GSelector.modifySocket]
  · simp only [GSelector.get, set_map_other s cobj cond setsFlags hne, if_neg hne]

theorem setTimeout_get {s s' : GSelector} {sock : Socket} {now : TimeVal} {timeout : ℕ}
    (h : s.setTimeout sock now timeout = .ok s') (other : Socket) : s'.get other = s.get other := by
  obtain ⟨sel, hsel, _, rfl⟩ := setTimeout_ok h
  by_cases hne : other = sock
  · subst hne
    simp [GSelector.get, hsel]
  · simp [GSelector.get, Function.update_of_ne hne]

structure Delivers (w : World) : Prop extends Kept w where
  current : ∀ sock, w.selector.get sock = lastSelected (selections w.trace) sock
  events : OnlySelected w.trace

theorem Delivers.selected {w : World} (hw : Delivers w) : DeliversSelected w where
  current := hw.current
  events := hw.events
  mask := by
    intro id chan mask sock hid
    obtain ⟨sel, hsel, _, _, hmask⟩ := (hw.selector sock).live id _ hid rfl
    refine ⟨by simp [hsel], ?_⟩
    simpa [GSelector.get, hsel] using hmask
  single := by
    intro id id' chan chan' mask mask' sock hid hid'
    obtain ⟨sel, hsel, hc, _⟩ := (hw.selector sock).live id _ hid rfl
    obtain ⟨sel', hsel', hc', _⟩ := (hw.selector sock).live id' _ hid' rfl
    obtain rfl := Option.some.inj (hsel.symm.trans hsel')
    exact Option.some.inj (hc.symm.trans hc')

theorem start_delivers : Delivers start where
  toKept := start_kept
  current := fun _ => rfl
  events := trivial

theorem delivers_step (cobj : Socket → SocketType) (w : World) (e : Event) (w' : World)
    (hw : Delivers w) (h : step cobj w e = some w') : Delivers w' := by
  have hk := kept_step cobj w e w' hw.toKept h
  obtain ⟨sock, cond, setsFlags, _, rfl⟩ | ⟨sock, now, timeout, error, _, _, rfl⟩ |
    ⟨sock, now, timeout, s, _, hok, rfl⟩ | ⟨id, cond, chan, sock, _, _, hid, hne, hin, rfl⟩ |
    ⟨id, interval, sock, _, _, hid, rfl⟩ | ⟨d, running, _, hrun, rfl⟩ := step_cases hw.selector h
  · refine ⟨hk, fun other => ?_, hw.events⟩
    rw [set_get, hw.current other]
    rfl
  · exact ⟨hk, hw.current, hw.events⟩
  · exact ⟨hk, fun other => (setTimeout_get hok other).trans (hw.current other), hw.events⟩
  · -- the occurred conditions lie in the mask of the live watch, the mask in the selection
    have hevent := ncond_within _ cond hne hin
    rw [hw.current sock] at hevent
    exact ⟨hk, hw.current, hevent, hw.events⟩
  · exact ⟨hk, hw.current, hw.events⟩
  · rcases finish_cases ⟨w.selector, running, w.trace⟩ d with ⟨_, hf⟩ | ⟨_, hf⟩
    · rw [hf] at hk ⊢
      exact ⟨hk, hw.current, hw.events⟩
    · rw [hf] at hk ⊢
      exact ⟨hk, hw.current, hw.events⟩

/-- Whatever is selected, also by handlers while callbacks run, and whatever the main loop
dispatches, only selected conditions are delivered. -/
theorem only_selected_delivered (cobj : Socket → SocketType) (es : List Event) :
    Always (step cobj) DeliversSelected start es := by
  have hC : EveryStep (step cobj) (fun _ _ => True) start es :=
    everyStep_of_forall fun _ _ _ => trivial
  have hI : Always (step cobj) Delivers start es :=
    always_of_invariant (fun w e w' hw _ h => delivers_step cobj w e w' hw h) start_delivers hC
  exact always_mono (fun _ hw => hw.selected) hI

/-- A handler of socket 7 changes its selection while its own callback still runs: the old
watch is gone, the new one is dispatched when the handler has returned. -/
example : (run (step fun _ => 3) start
    [.set 7 ioIncoming true, .dispatchIo 0 gIn, .set 7 ioOutgoing true, .handlerReturn,
      .dispatchIo 1 gOut]).map World.trace =
    some [.ioEvent 1 7 ioOutgoing, .selected 7 ioOutgoing none, .ioEvent 0 7 ioIncoming,
      .selected 7 ioIncoming none] := by
  decide

def addedWith : Calls → Socket → Option IoCondition
  | [], _ => none
  | (s, cond) :: older, sock =>
    if s = sock then if cond = ioNone then none else some ((addedWith older sock).getD cond)
    else addedWith older sock

/-- Every selected I/O condition is watched: over a channel of the socket's own descriptor,
which has been put into non-blocking mode. -/
def MissesNothing (cobj : Socket → SocketType) (w : World) : Prop :=
  ∀ sock, WantsIo (w.selector.get sock) →
    cobj sock ∈ w.selector.nonBlocking ∧
    ∃ sel id, w.selector.map sock = some sel ∧ sel.ioChan = some (cobj sock) ∧
      w.selector.loop.source id =
        some (.io (cobj sock) (gcond (w.selector.get sock)) sock)

/-- Every socket selected for I/O was so from the call that added its entry on. -/
def AddedForIo (calls : Calls) : Prop :=
  ∀ sock, WantsIo (lastSelected calls sock) →
    ∃ cond, addedWith calls sock = some cond ∧ WantsIo cond

structure Watches (cobj : Socket → SocketType) (s : GSelector) (sock : Socket)
    (added : Option IoCondition) : Prop where
  entry : s.map sock = none ↔ added = none
  channel : ∀ sel cond, s.map sock = some sel → added = some cond → WantsIo cond →
    sel.ioChan = some (cobj sock) ∧ cobj sock ∈ s.nonBlocking
  noChannel : ∀ sel cond, s.map sock = some sel → added = some cond → ¬ WantsIo cond →
    sel.ioChan = none
  watch : ∀ sel fd, s.map sock = some sel → sel.ioChan = some fd → WantsIo sel.cond →
    ∃ id, s.loop.source id = some (.io fd (gcond sel.cond) sock)

theorem watches_frame {cobj : Socket → SocketType} {s s' : GSelector} {sock : Socket}
    {added : Option IoCondition} (h : Watches cobj s sock added)
    (hentry : (s'.map sock).map (fun sel => (sel.ioChan, sel.cond)) =
      (s.map sock).map (fun sel => (sel.ioChan, sel.cond)))
    (hfd : s.nonBlocking ⊆ s'.nonBlocking)
    (hio : ∀ id fd mask, s.loop.source id = some (.io fd mask sock) →
      s'.loop.source id = some (.io fd mask sock)) :
    Watches cobj s' sock added := by
  have hback : ∀ sel', s'.map sock = some sel' →
      ∃ sel, s.map sock = some sel ∧ sel.ioChan = sel'.ioChan ∧ sel.cond = sel'.cond := by
    intro sel' hsel'
    rw [hsel', Option.map_some, eq_comm, Option.map_eq_some_iff] at hentry
    obtain ⟨sel, hsel, heq⟩ := hentry
    exact ⟨sel, hsel, (Prod.mk.inj heq).1, (Prod.mk.inj heq).2⟩
  refine ⟨?_, ?_, ?_, ?_⟩
  · rw [← h.entry, ← Option.map_eq_none_iff, hentry, Option.map_eq_none_iff]
  · intro sel' cond hsel' hadd hw
    obtain ⟨sel, hsel, hchan, _⟩ := hback sel' hsel'
    obtain ⟨hc, hmem⟩ := h.channel sel cond hsel hadd hw
    exact ⟨hchan.symm.trans hc, hfd hmem⟩
  · intro sel' cond hsel' hadd hw
    obtain ⟨sel, hsel, hchan, _⟩ := hback sel' hsel'
    exact hchan.symm.trans (h.noChannel sel cond hsel hadd hw)
  · intro sel' fd hsel' hc hw
    obtain ⟨sel, hsel, hchan, hcond⟩ := hback sel' hsel'
    rw [← hcond] at hw ⊢
    obtain ⟨id, hid⟩ := h.watch sel fd hsel (hchan.trans hc) hw
    exact ⟨id, hio id fd _ hid⟩

theorem rewatch_others {loop : Sources Source} {sock : Socket} {sel : SelectedSocket}
    (h : Attached loop sock (some sel)) (cond : IoCondition) {id : ℕ} {src : Source}
    (hid : loop.source id = some src) (hne : src.sock ≠ sock ∨ src.kind ≠ .io) :
    (rewatch loop sock sel cond).1.source id = some src := by
  have hdrop := disconnect_others h .io hid hne
  rcases rewatch_cases loop sock sel cond with ⟨_, hr⟩ | ⟨_, _, hr⟩ | ⟨_, _, hr⟩
  · rw [hr]
    exact hid
  · rw [hr]
    exact hdrop
  · rw [hr]
    cases sel.ioChan with
    | none => exact hdrop
    | some fd => exact source_attach.mpr (Or.inr hdrop)

theorem untime_others {loop : Sources Source} {sock : Socket} {sel : SelectedSocket}
    (h : Attached loop sock (some sel)) (cond : IoCondition) {id : ℕ} {src : Source}
    (hid : loop.source id = some src) (hne : src.sock ≠ sock ∨ src.kind ≠ .timeout) :
    (untime loop sel cond).source id = some src := by
  rcases untime_cases loop sel cond with ⟨_, hu⟩ | ⟨_, hu⟩
  · rw [hu]
    exact hid
  · rw [hu]
    exact disconnect_others h .timeout hid hne

theorem rewatch_watches {loop : Sources Source} {sock : Socket} {sel : SelectedSocket}
    {cond : IoCondition} {fd : SocketType} (hchan : sel.ioChan = some fd) (hw : WantsIo cond)
    (hold : WantsIo sel.cond → ∃ id, loop.source id = some (.io fd (gcond sel.cond) sock)) :
    ∃ id, (rewatch loop sock sel cond).1.source id = some (.io fd (gcond cond) sock) := by
  rcases rewatch_cases loop sock sel cond with ⟨hsame, hr⟩ | ⟨_, hn, _⟩ | ⟨_, _, hr⟩
  · obtain ⟨id, hid⟩ := hold ((wantsIo_congr hsame).mpr hw)
    rw [gcond_congr _ _ hsame] at hid
    exact ⟨id, by rw [hr]; exact hid⟩
  · exact absurd hw hn
  · refine ⟨(loop.disconnect sel.ioConn).next, ?_⟩
    rw [hr, hchan]
    exact source_attach.mpr (Or.inl ⟨rfl, rfl⟩)

theorem addSocket_watches {cobj : Socket → SocketType} {s : GSelector} {sock : Socket}
    {cond : IoCondition} {setsFlags : Bool}
    (hok : (s.addSocket cobj sock cond setsFlags).2 = none) :
    Watches cobj (s.addSocket cobj sock cond setsFlags).1 sock (some cond) := by
  obtain ⟨hw, _, h⟩ | ⟨_, _, h⟩ | ⟨hw, h⟩ := addSocket_cases s cobj sock cond setsFlags
  · rw [h]
    refine ⟨by simp, ?_, ?_, ?_⟩
    · intro sel c hsel hc _
      obtain rfl := Option.some.inj (by simpa using hsel)
      simp
    · intro sel c hsel hc hn
      cases hc
      exact absurd hw hn
    · intro sel fd hsel hfd _
      obtain rfl := Option.some.inj (by simpa using hsel)
      cases hfd
      exact ⟨s.loop.next, source_attach.mpr (Or.inl ⟨rfl, rfl⟩)⟩
  · rw [h] at hok
    cases hok
  · rw [h]
    refine ⟨by simp, ?_, ?_, ?_⟩
    · intro sel c hsel hc hn
      cases hc
      exact absurd hn hw
    · intro sel c hsel hc _
      obtain rfl := Option.some.inj (by simpa using hsel)
      rfl
    · intro sel fd hsel hfd _
      obtain rfl := Option.some.inj (by simpa using hsel)
      cases hfd

theorem modifySocket_watches {cobj : Socket → SocketType} {s : GSelector} (hs : s.Kept)
    {sock : Socket} {sel : SelectedSocket} (hsel : s.map sock = some sel)
    {added : Option IoCondition} (h : Watches cobj s sock added) (cond : IoCondition) :
    Watches cobj (s.modifySocket sock sel cond) sock added := by
  have hat : Attached s.loop sock (some sel) := hsel ▸ hs sock
  obtain ⟨hio, htime⟩ := mixed_flags cond sel.cond
  have hat' := attached_rewatch hat hio htime
  have hentry : (s.modifySocket sock sel cond).map sock =
      some { sel with ioConn := (rewatch s.loop sock sel cond).2, cond := cond } :=
    Function.update_self _ _ _
  refine ⟨?_, ?_, ?_, ?_⟩
  · rw [hentry, ← h.entry, hsel]
    simp
  · intro sel' c hsel' hc hw
    obtain rfl := Option.some.inj (hentry.symm.trans hsel')
    exact h.channel sel c hsel hc hw
  · intro sel' c hsel' hc hw
    obtain rfl := Option.some.inj (hentry.symm.trans hsel')
    exact h.noChannel sel c hsel hc hw
  · intro sel' fd hsel' hfd hw
    obtain rfl := Option.some.inj (hentry.symm.trans hsel')
    have hchan : sel.ioChan = some fd := hfd
    obtain ⟨id, hid⟩ := rewatch_watches hchan hw (h.watch sel fd hsel hchan)
    refine ⟨id, ?_⟩
    have hkeep := untime_others hat' cond hid (Or.inr (by simp [Source.kind]))
    rw [untime_mixed] at hkeep
    exact hkeep

theorem set_others {s : GSelector} (hs : s.Kept) (cobj : Socket → SocketType) {sock : Socket}
    (cond : IoCondition) (setsFlags : Bool) {id : ℕ} {src : Source}
    (hid : s.loop.source id = some src) (hne : src.sock ≠ sock) :
    (s.set cobj sock cond setsFlags).1.loop.source id = some src := by
  obtain ⟨_, _, h⟩ | ⟨_, _, h⟩ | ⟨sel, hsel, _, h⟩ | ⟨sel, hsel, _, h⟩ :=
    set_cases s cobj sock cond setsFlags
  · rw [h]
    exact hid
  · rw [h]
    obtain ⟨_, _, h⟩ | ⟨_, _, h⟩ | ⟨_, h⟩ := addSocket_cases s cobj sock cond setsFlags
    · rw [h]
      exact source_attach.mpr (Or.inr hid)
    · rw [h]
      exact hid
    · rw [h]
      exact hid
  · have hat : Attached s.loop sock (some sel) := hsel ▸ hs sock
    simp only [h, GSelector.deleteSocket, disconnect_if_connected]
    exact disconnect_others (attached_disconnect hat sel.ioConn) .timeout
      (disconnect_others hat .io hid (Or.inl hne)) (Or.inl hne)
  · have hat : Attached s.loop sock (some sel) := hsel ▸ hs sock
    obtain ⟨hio, htime⟩ := mixed_flags cond sel.cond
    have hkeep := untime_others (attached_rewatch hat hio htime) cond
      (rewatch_others hat cond hid (Or.inl hne)) (Or.inl hne)
    rw [untime_mixed] at hkeep
    rw [h]
    exact hkeep

theorem set_nonBlocking (s : GSelector) (cobj : Socket → SocketType) (sock : Socket)
    (cond : IoCondition) (setsFlags : Bool) :
    s.nonBlocking ⊆ (s.set cobj sock cond setsFlags).1.nonBlocking := by
  obtain ⟨_, _, h⟩ | ⟨_, _, h⟩ | ⟨sel, _, _, h⟩ | ⟨sel, _, _, h⟩ :=
    set_cases s cobj sock cond setsFlags
  · rw [h]
  · rw [h]
    obtain ⟨_, _, h⟩ | ⟨_, _, h⟩ | ⟨_, h⟩ := addSocket_cases s cobj sock cond setsFlags
    · rw [h]
      exact Finset.subset_insert _ _
    · rw [h]
    · rw [h]
  · rw [h]
    exact Finset.Subset.refl _
  · rw [h]
    exact Finset.Subset.refl _

theorem set_watches {cobj : Socket → SocketType} {s : GSelector} (hs : s.Kept) {calls : Calls}
    (h : ∀ other, Watches cobj s other (addedWith calls other)) {sock : Socket}
    {cond : IoCondition} {setsFlags : Bool}
    (hok : (s.set cobj sock cond setsFlags).2 = none) (other : Socket) :
    Watches cobj (s.set cobj sock cond setsFlags).1 other
      (addedWith ((sock, cond) :: calls) other) := by
  by_cases hne : sock = other
  · subst hne
    have hentry := (h sock).entry
    have hgone : ∀ t : GSelector, t.map sock = none → Watches cobj t sock none := by
      intro t ht
      refine ⟨by simp [ht], ?_, ?_, ?_⟩ <;> simp [ht]
    obtain ⟨hsel, hc, hset⟩ | ⟨hsel, hc, hset⟩ | ⟨sel, hsel, hc, hset⟩ | ⟨sel, hsel, hc, hset⟩ :=
      set_cases s cobj sock cond setsFlags
    · rw [hset]
      simp only [addedWith, hc, if_true]
      exact hgone s hsel
    · rw [hset] at hok ⊢
      simp only [addedWith, hc, if_true, if_false, hentry.mp hsel]
      exact addSocket_watches hok
    · rw [hset]
      simp only [addedWith, hc, if_true]
      exact hgone _ (Function.update_self _ _ _)
    · obtain ⟨c, hadd⟩ := Option.ne_none_iff_exists'.mp
        (fun hn => by rw [hentry.mpr hn] at hsel; cases hsel)
      have hmod := modifySocket_watches hs hsel (h sock) cond
      simp only [addedWith, hc, if_true, if_false]
      rw [hset]
      rw [hadd] at hmod ⊢
      exact hmod
  · rw [show addedWith ((sock, cond) :: calls) other = addedWith calls other by
      simp [addedWith, hne]]
    refine watches_frame (h other) ?_ (set_nonBlocking s cobj sock cond setsFlags) ?_
    · rw [set_map_other s cobj cond setsFlags hne]
    · intro id fd mask hid
      exact set_others hs cobj cond setsFlags hid (Ne.symm hne)

theorem setTimeout_watches {cobj : Socket → SocketType} {s s' : GSelector} (hs : s.Kept)
    {sock : Socket} {now : TimeVal} {timeout : ℕ} (hok : s.setTimeout sock now timeout = .ok s')
    {other : Socket} {added : Option IoCondition} (h : Watches cobj s other added) :
    Watches cobj s' other added := by
  obtain ⟨sel, hsel, _, rfl⟩ := setTimeout_ok hok
  have hat : Attached s.loop sock (some sel) := hsel ▸ hs sock
  refine watches_frame h ?_ (Finset.Subset.refl _) ?_
  · by_cases hne : other = sock
    · subst hne
      simp [hsel]
    · simp [Function.update_of_ne hne]
  · intro id fd mask hid
    exact source_attach.mpr (Or.inr
      (disconnect_others hat .timeout hid (Or.inr (by simp [Source.kind]))))

def SetReturns (cobj : Socket → SocketType) (w : World) (e : Event) : Prop :=
  ∀ sock cond setsFlags, e = .set sock cond setsFlags →
    (w.selector.set cobj sock cond setsFlags).2 = none

structure Watching (cobj : Socket → SocketType) (w : World) : Prop extends Delivers w where
  watches : ∀ sock, Watches cobj w.selector sock (addedWith (selections w.trace) sock)

theorem start_watching (cobj : Socket → SocketType) : Watching cobj start where
  toDelivers := start_delivers
  watches := by
    intro sock
    refine ⟨iff_of_true rfl rfl, ?_, ?_, ?_⟩ <;> intro _ _ h <;> cases h

theorem watching_step (cobj : Socket → SocketType) (w : World) (e : Event) (w' : World)
    (hw : Watching cobj w) (hret : SetReturns cobj w e) (h : step cobj w e = some w') :
    Watching cobj w' := by
  have hd := delivers_step cobj w e w' hw.toDelivers h
  obtain ⟨sock, cond, setsFlags, rfl, rfl⟩ | ⟨sock, now, timeout, error, _, _, rfl⟩ |
    ⟨sock, now, timeout, s, _, hok, rfl⟩ | ⟨id, cond, chan, sock, _, _, hid, hne, hin, rfl⟩ |
    ⟨id, interval, sock, _, _, hid, rfl⟩ | ⟨d, running, _, hrun, rfl⟩ := step_cases hw.selector h
  · exact ⟨hd, set_watches hw.selector hw.watches (hret sock cond setsFlags rfl)⟩
  · exact ⟨hd, hw.watches⟩
  · exact ⟨hd, fun other => setTimeout_watches hw.selector hok (hw.watches other)⟩
  · exact ⟨hd, hw.watches⟩
  · exact ⟨hd, hw.watches⟩
  · rcases finish_cases ⟨w.selector, running, w.trace⟩ d with ⟨_, hf⟩ | ⟨hkeep, hf⟩
    · rw [hf] at hd ⊢
      exact ⟨hd, hw.watches⟩
    · rw [hf] at hd ⊢
      refine ⟨hd, fun sock => watches_frame (hw.watches sock) rfl (Finset.Subset.refl _) ?_⟩
      intro id fd mask hid
      apply source_destroy.mpr
      refine ⟨?_, hid⟩
      -- the destroyed source was a timer, never a watch
      rintro rfl
      have hkind := hw.timers d (by simp [hrun]) hkeep _ hid
      cases hkind

def setCalls (es : List Event) : Calls :=
  es.filterMap fun
    | .set sock cond _ => some (sock, cond)
    | _ => none

theorem selections_step {cobj : Socket → SocketType} {w w' : World} {e : Event}
    (hs : w.selector.Kept) (h : step cobj w e = some w') :
    selections w'.trace = setCalls [e] ++ selections w.trace := by
  obtain ⟨sock, cond, setsFlags, rfl, rfl⟩ | ⟨sock, now, timeout, error, rfl, _, rfl⟩ |
    ⟨sock, now, timeout, s, rfl, hok, rfl⟩ | ⟨id, cond, chan, sock, rfl, _, hid, hne, hin, rfl⟩ |
    ⟨id, interval, sock, rfl, _, hid, rfl⟩ | ⟨d, running, rfl, hrun, rfl⟩ := step_cases hs h
  · rfl
  · rfl
  · rfl
  · rfl
  · rfl
  · rcases finish_cases ⟨w.selector, running, w.trace⟩ d with ⟨_, hf⟩ | ⟨_, hf⟩
    · rw [hf]
      rfl
    · rw [hf]
      rfl

theorem selections_run {cobj : Socket → SocketType} {w w' : World} {es : List Event}
    (hw : Kept w) (h : run (step cobj) w es = some w') :
    selections w'.trace = (setCalls es).reverse ++ selections w.trace := by
  induction es generalizing w with
  | nil =>
    cases h
    rfl
  | cons e es ih =>
    obtain ⟨u, hu, hr⟩ := run_cons_inv h
    have hcons : setCalls (e :: es) = setCalls [e] ++ setCalls es := by
      simp only [setCalls, ← List.filterMap_append, List.singleton_append]
    have hsingle : (setCalls [e]).reverse = setCalls [e] := by
      cases e <;> rfl
    rw [ih (kept_step cobj w e u hw hu) hr, selections_step hw.selector hu, hcons,
      List.reverse_append, hsingle, List.append_assoc]

/-- In every state the watches tell which sockets were added for I/O. -/
theorem Watching.misses_nothing_iff {cobj : Socket → SocketType} {w : World}
    (hw : Watching cobj w) :
    MissesNothing cobj w ↔ AddedForIo (selections w.trace) := by
  have hentry : ∀ sock, WantsIo (w.selector.get sock) → ∃ sel cond,
      w.selector.map sock = some sel ∧ w.selector.get sock = sel.cond ∧
        addedWith (selections w.trace) sock = some cond := by
    intro sock hwants
    cases hsel : w.selector.map sock with
    | none =>
      rw [GSelector.get, hsel] at hwants
      exact absurd hwants not_wantsIo_none
    | some sel =>
      obtain ⟨cond, hadd⟩ := Option.ne_none_iff_exists'.mp fun hn => by
        rw [(hw.watches sock).entry.mpr hn] at hsel
        cases hsel
      exact ⟨sel, cond, rfl, by simp [GSelector.get, hsel], hadd⟩
  constructor
  · intro hm sock hwants
    rw [← hw.current sock] at hwants
    obtain ⟨sel, cond, hsel, _, hadd⟩ := hentry sock hwants
    obtain ⟨_, sel', _, hsel', hchan, _⟩ := hm sock hwants
    obtain rfl := Option.some.inj (hsel.symm.trans hsel')
    refine ⟨cond, hadd, ?_⟩
    by_contra hn
    rw [(hw.watches sock).noChannel sel cond hsel hadd hn] at hchan
    cases hchan
  · intro ha sock hwants
    obtain ⟨sel, cond, hsel, hget, hadd⟩ := hentry sock hwants
    obtain ⟨cond', hadd', hio⟩ := ha sock (hw.current sock ▸ hwants)
    obtain rfl := Option.some.inj (hadd.symm.trans hadd')
    obtain ⟨hchan, hfd⟩ := (hw.watches sock).channel sel cond hsel hadd hio
    rw [hget] at hwants ⊢
    obtain ⟨id, hid⟩ := (hw.watches sock).watch sel (cobj sock) hsel hchan hwants
    exact ⟨hfd, sel, id, hsel, hchan, hid⟩

/-- After a run in which no call of `set` throws, every selected I/O condition is watched if
and only if every socket selected for I/O was added for I/O. -/
theorem nothing_missed_iff_added_for_io (cobj : Socket → SocketType) (es : List Event) (w : World)
    (hr : run (step cobj) start es = some w)
    (hret : EveryStep (step cobj) (SetReturns cobj) start es) :
    MissesNothing cobj w ↔ AddedForIo (setCalls es).reverse := by
  have hw : Watching cobj w := run_invariant (watching_step cobj) (start_watching cobj) hret hr
  have hcalls := selections_run start_kept hr
  rw [show selections start.trace = [] from rfl, List.append_nil] at hcalls
  rw [hw.misses_nothing_iff, hcalls]

theorem setReturns_of_sets_flags {cobj : Socket → SocketType} {es : List Event} {w : World}
    (h : ∀ e ∈ es, ∀ sock cond, e ≠ .set sock cond false) :
    EveryStep (step cobj) (SetReturns cobj) w es := by
  refine everyStep_of_forall fun e he s sock cond setsFlags heq => ?_
  subst heq
  cases setsFlags with
  | false => exact absurd rfl (h _ he sock cond)
  | true =>
    obtain ⟨_, _, h⟩ | ⟨_, _, h⟩ | ⟨sel, _, _, h⟩ | ⟨sel, _, _, h⟩ :=
      set_cases s.selector cobj sock cond true
    · rw [h]
    · rw [h]
      obtain ⟨_, _, h⟩ | ⟨_, hf, _⟩ | ⟨_, h⟩ := addSocket_cases s.selector cobj sock cond true
      · rw [h]
      · cases hf
      · rw [h]
    · rw [h]
    · rw [h]

theorem nothing_missed_reader_then_writer :
    ∃ w, run (step fun _ => 3) start
        [.set 7 ioIncoming true, .set 7 (ioIncoming ||| ioOutgoing) true] = some w ∧
      MissesNothing (fun _ => 3) w := by
  have hret : EveryStep (step fun _ => 3) (SetReturns fun _ => 3) start
      [.set 7 ioIncoming true, .set 7 (ioIncoming ||| ioOutgoing) true] :=
    setReturns_of_sets_flags (by simp)
  refine ⟨_, rfl, (nothing_missed_iff_added_for_io _ _ _ rfl hret).mpr ?_⟩
  intro sock hwants
  by_cases h : 7 = sock
  · subst h
    exact ⟨ioIncoming, rfl, by decide⟩
  · simp [setCalls, lastSelected, h, not_wantsIo_none] at hwants

/-- A socket selected for its timeout first and for input later: there is no watch, no channel
and the descriptor still blocks, though `get` reports the selection and nothing was thrown. -/
theorem input_after_timeout_is_missed :
    (∀ w, EveryStep (step fun _ => 3) (SetReturns fun _ => 3) w
      [.set 7 ioTimeout true, .set 7 ioIncoming true]) ∧
    ∃ w, run (step fun _ => 3) start [.set 7 ioTimeout true, .set 7 ioIncoming true] = some w ∧
      w.selector.get 7 = ioIncoming ∧ (w.selector.map 7).map SelectedSocket.ioChan = some none ∧
      w.selector.nonBlocking = ∅ ∧ (∀ id, w.selector.loop.source id = none) ∧
      ¬ MissesNothing (fun _ => 3) w := by
  refine ⟨fun w => setReturns_of_sets_flags (by simp),
    ⟨_, rfl, rfl, rfl, rfl, fun _ => rfl, fun h => ?_⟩⟩
  have hfd := (h 7 (by decide)).1
  exact absurd hfd (Finset.notMem_empty 3)

end SelectorDelivery
