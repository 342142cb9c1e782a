import Sobby.SelectorDelivery

/-! The sockets behind the selector. The selector keeps addresses and never learns that a socket
is gone: a callback of the main loop may reach one that is destroyed, and an entry left behind
may serve a later socket of the same address with the channel of the old one. -/
namespace SelectorLifetimes

open StepMachine
open IoConditions
open SourceTable
open SocketSelector (Socket SocketType GSelector Source Kind SelectedSocket TimeVal
  set_cases setTimeout_ok addSocket_cases rewatch_cases untime_cases step_cases finish_cases
  rewatch untime kept_step start_kept)

/-- `cobj` tells the descriptor of each socket that is alive. -/
structure World where
  net : SocketSelector.World
  cobj : Socket → Option SocketType

def start : World := ⟨SocketSelector.start, fun _ => none⟩

inductive Event where
  | create (sock : Socket) (fd : SocketType)
  | destroy (sock : Socket)
  | use (e : SocketSelector.Event)

/-- The server passes sockets by reference, so it asks for living ones only. The main loop
looks for nothing. -/
def World.Passes (w : World) : SocketSelector.Event → Prop
  | .set sock _ _ => w.cobj sock ≠ none
  | .setTimeout sock _ _ => w.cobj sock ≠ none
  | _ => True

instance (w : World) (e : SocketSelector.Event) : Decidable (w.Passes e) := by
  cases e <;> unfold World.Passes <;> infer_instance

def World.descriptor (w : World) (sock : Socket) : SocketType := (w.cobj sock).getD 0

/-- An address is given out again once its socket is destroyed. -/
def step (w : World) : Event → Option World
  | .create sock fd =>
    if w.cobj sock = none then some { w with cobj := Function.update w.cobj sock (some fd) }
    else none
  | .destroy sock =>
    if w.cobj sock = none then none
    else some { w with cobj := Function.update w.cobj sock none }
  | .use e =>
    if w.Passes e then
      (SocketSelector.step w.descriptor w.net e).map fun net => { w with net := net }
    else none

def emitsOn : SocketSelector.Observation → Option Socket
  | .ioEvent _ sock _ => some sock
  | .timeoutEvent _ sock _ => some sock
  | _ => none

structure CallsLiving (w : World) : Prop where
  sources : ∀ id src, w.net.selector.loop.source id = some src → w.cobj src.sock ≠ none
  events : ∀ e w' ob sock, step w (.use e) = some w' → w'.net.trace = ob :: w.net.trace →
    emitsOn ob = some sock → w.cobj sock ≠ none

structure KnowsLiving (w : World) : Prop where
  entries : ∀ sock sel, w.net.selector.map sock = some sel → w.cobj sock ≠ none
  channels : ∀ sock sel fd, w.net.selector.map sock = some sel → sel.ioChan = some fd →
    w.cobj sock = some fd
  watches : ∀ id fd mask sock, w.net.selector.loop.source id = some (.io fd mask sock) →
    w.cobj sock = some fd

/-- A socket is destroyed only when the main loop has no source for it. -/
def Unwatched (w : World) : Event → Prop
  | .destroy sock => ∀ id src, w.net.selector.loop.source id = some src → src.sock ≠ sock
  | _ => True

/-- A socket is destroyed only when it is selected for nothing. -/
def Deselected (w : World) : Event → Prop
  | .destroy sock => w.net.selector.get sock = ioNone
  | _ => True

structure Changes (s s' : GSelector) (sock : Socket) (fd : SocketType) : Prop where
  others : ∀ other, other ≠ sock → s'.map other = s.map other
  channel : ∀ sel' chan, s'.map sock = some sel' → sel'.ioChan = some chan →
    chan = fd ∨ ∃ sel, s.map sock = some sel ∧ sel.ioChan = some chan
  asked : (∀ sel, s.map sock = some sel → sel.cond ≠ ioNone) →
    ∀ sel', s'.map sock = some sel' → sel'.cond ≠ ioNone
  sources : ∀ id src, s'.loop.source id = some src →
    s.loop.source id = some src ∨ src.sock = sock

theorem changes_nothing (s : GSelector) (sock : Socket) (fd : SocketType) :
    Changes s s sock fd where
  others := fun _ _ => rfl
  channel := fun sel _ hsel hchan => Or.inr ⟨sel, hsel, hchan⟩
  asked := fun h => h
  sources := fun _ _ hid => Or.inl hid

theorem updated_entry {map : Socket → Option SelectedSocket} {sock : Socket}
    {sel sel' : SelectedSocket} (h : Function.update map sock (some sel) sock = some sel') :
    sel' = sel := by
  rw [Function.update_self] at h
  exact (Option.some.inj h).symm

theorem modified_sources {loop : Sources Source} {sock : Socket} {sel : SelectedSocket}
    {cond : IoCondition} {id : ℕ} {src : Source}
    (h : (untime (rewatch loop sock sel cond).1 sel cond).source id = some src) :
    loop.source id = some src ∨ src.sock = sock := by
  have hr : (rewatch loop sock sel cond).1.source id = some src := by
    rcases untime_cases (rewatch loop sock sel cond).1 sel cond with ⟨_, hu⟩ | ⟨_, hu⟩
    · rwa [hu] at h
    · rw [hu] at h
      exact (source_disconnect.mp h).2
  rcases rewatch_cases loop sock sel cond with ⟨_, he⟩ | ⟨_, _, he⟩ | ⟨_, _, he⟩
  · rw [he] at hr
    exact Or.inl hr
  · rw [he] at hr
    exact Or.inl (source_disconnect.mp hr).2
  · rw [he] at hr
    cases hchan : sel.ioChan with
    | none =>
      rw [hchan] at hr
      exact Or.inl (source_disconnect.mp hr).2
    | some fd =>
      rw [hchan] at hr
      rcases source_attach.mp hr with ⟨_, rfl⟩ | hr
      · exact Or.inr rfl
      · exact Or.inl (source_disconnect.mp hr).2

theorem addSocket_changes {s : GSelector} (cobj : Socket → SocketType) (sock : Socket)
    {cond : IoCondition} (hc : cond ≠ ioNone) (setsFlags : Bool) :
    Changes s (s.addSocket cobj sock cond setsFlags).1 sock (cobj sock) := by
  obtain ⟨_, _, h⟩ | ⟨_, _, h⟩ | ⟨_, h⟩ := addSocket_cases s cobj sock cond setsFlags
  · rw [h]
    refine ⟨fun other hne => Function.update_of_ne hne _ _, fun sel' chan hsel hchan => ?_,
      fun _ sel' hsel => ?_, fun id src hid => ?_⟩
    · obtain rfl := updated_entry hsel
      exact Or.inl (Option.some.inj hchan).symm
    · obtain rfl := updated_entry hsel
      exact hc
    · rcases source_attach.mp hid with ⟨_, rfl⟩ | hid
      · exact Or.inr rfl
      · exact Or.inl hid
  · rw [h]
    refine ⟨fun other hne => Function.update_of_ne hne _ _, fun sel' chan hsel hchan => ?_,
      fun _ sel' hsel => ?_, fun id src hid => Or.inl hid⟩
    · obtain rfl := updated_entry hsel
      cases hchan
    · obtain rfl := updated_entry hsel
      exact hc
  · rw [h]
    refine ⟨fun other hne => Function.update_of_ne hne _ _, fun sel' chan hsel hchan => ?_,
      fun _ sel' hsel => ?_, fun id src hid => Or.inl hid⟩
    · obtain rfl := updated_entry hsel
      cases hchan
    · obtain rfl := updated_entry hsel
      exact hc

theorem set_changes (s : GSelector) (cobj : Socket → SocketType) (sock : Socket)
    (cond : IoCondition) (setsFlags : Bool) :
    Changes s (s.set cobj sock cond setsFlags).1 sock (cobj sock) := by
  obtain ⟨_, _, h⟩ | ⟨_, hc, h⟩ | ⟨sel, _, _, h⟩ | ⟨sel, hsel, hc, h⟩ :=
    set_cases s cobj sock cond setsFlags
  · rw [h]
    exact changes_nothing s sock _
  · rw [h]
    exact addSocket_changes cobj sock hc setsFlags
  · rw [h]
    refine ⟨fun other hne => Function.update_of_ne hne _ _, fun sel' chan hsel' _ => ?_,
      fun _ sel' hsel' => ?_, fun id src hid => ?_⟩
    · simp [GSelector.deleteSocket] at hsel'
    · simp [GSelector.deleteSocket] at hsel'
    · simp only [GSelector.deleteSocket, disconnect_if_connected] at hid
      exact Or.inl (source_disconnect.mp (source_disconnect.mp hid).2).2
  · rw [h]
    refine ⟨fun other hne => Function.update_of_ne hne _ _, fun sel' chan hsel' hchan => ?_,
      fun _ sel' hsel' => ?_, fun id src hid => modified_sources hid⟩
    · obtain rfl := updated_entry hsel'
      exact Or.inr ⟨sel, hsel, hchan⟩
    · obtain rfl := updated_entry hsel'
      exact hc

theorem setTimeout_changes {s s' : GSelector} (hs : s.Kept) {sock : Socket} {now : TimeVal}
    {timeout : ℕ} (h : s.setTimeout sock now timeout = .ok s') (fd : SocketType) :
    Changes s s' sock fd := by
  obtain ⟨sel, hsel, _, rfl⟩ := setTimeout_ok h
  have hsock : sel.sock = sock := (hs sock).key sel hsel
  refine ⟨fun other hne => Function.update_of_ne hne _ _, fun sel' chan hsel' hchan => ?_,
    fun hold sel' hsel' => ?_, fun id src hid => ?_⟩
  · obtain rfl := updated_entry hsel'
    exact Or.inr ⟨sel, hsel, hchan⟩
  · obtain rfl := updated_entry hsel'
    exact hold sel hsel
  · rcases source_attach.mp hid with ⟨_, rfl⟩ | hid
    · exact Or.inr hsock
    · exact Or.inl (source_disconnect.mp hid).2

structure Drops (s s' : GSelector) : Prop where
  map : s'.map = s.map
  sources : ∀ id src, s'.loop.source id = some src → s.loop.source id = some src

/-- A step of the selector is about a living socket, or it drops sources; an event it emits is
for the socket of a source. -/
theorem use_cases {w w' : World} {e : SocketSelector.Event} (hs : w.net.selector.Kept)
    (h : step w (.use e) = some w') :
    w'.cobj = w.cobj ∧
    ((∃ sock fd, w.cobj sock = some fd ∧ Changes w.net.selector w'.net.selector sock fd) ∨
      Drops w.net.selector w'.net.selector) ∧
    ∀ ob sock, w'.net.trace = ob :: w.net.trace → emitsOn ob = some sock →
      ∃ id src, w.net.selector.loop.source id = some src ∧ src.sock = sock := by
  simp only [step] at h
  split at h
  case isFalse => cases h
  case isTrue hpass =>
    obtain ⟨net, hnet, rfl⟩ := Option.map_eq_some_iff.mp h
    have hsame : Drops w.net.selector w.net.selector := ⟨rfl, fun _ _ hid => hid⟩
    obtain ⟨sock, cond, setsFlags, rfl, rfl⟩ | ⟨sock, now, timeout, error, rfl, _, rfl⟩ |
      ⟨sock, now, timeout, s, rfl, hok, rfl⟩ | ⟨id, cond, chan, sock, rfl, _, hid, _, _, rfl⟩ |
      ⟨id, interval, sock, rfl, _, hid, rfl⟩ | ⟨d, running, rfl, _, rfl⟩ := step_cases hs hnet
    · obtain ⟨fd, hfd⟩ := Option.ne_none_iff_exists'.mp hpass
      have hch := set_changes w.net.selector w.descriptor sock cond setsFlags
      rw [World.descriptor, hfd] at hch
      refine ⟨rfl, Or.inl ⟨sock, fd, hfd, hch⟩, fun ob s hob hs => ?_⟩
      cases hob
      cases hs
    · refine ⟨rfl, Or.inr hsame, fun ob s hob hs => ?_⟩
      cases hob
      cases hs
    · obtain ⟨fd, hfd⟩ := Option.ne_none_iff_exists'.mp hpass
      refine ⟨rfl, Or.inl ⟨sock, fd, hfd, setTimeout_changes hs hok fd⟩, fun ob t hob ht => ?_⟩
      cases hob
      cases ht
    · refine ⟨rfl, Or.inr hsame, fun ob s hob hs => ?_⟩
      cases hob
      cases hs
      exact ⟨id, _, hid, rfl⟩
    · refine ⟨rfl, Or.inr hsame, fun ob s hob hs => ?_⟩
      cases hob
      cases hs
      exact ⟨id, _, hid, rfl⟩
    · have htrace : (World.mk ((SocketSelector.World.mk w.net.selector running w.net.trace).finish d)
          w.cobj).net.trace = w.net.trace := by
        rcases finish_cases ⟨w.net.selector, running, w.net.trace⟩ d with ⟨_, hf⟩ | ⟨_, hf⟩
        · rw [hf]
        · rw [hf]
      refine ⟨rfl, Or.inr ?_, fun ob s hob _ => ?_⟩
      · rcases finish_cases ⟨w.net.selector, running, w.net.trace⟩ d with ⟨_, hf⟩ | ⟨_, hf⟩
        · rw [hf]
          exact hsame
        · rw [hf]
          exact ⟨rfl, fun id src hid => (source_destroy.mp hid).2⟩
      · exact absurd (htrace.symm.trans hob) (List.cons_ne_self _ _).symm

theorem kept_use {w w' : World} {e : SocketSelector.Event} (hw : SocketSelector.Kept w.net)
    (h : step w (.use e) = some w') : SocketSelector.Kept w'.net := by
  simp only [step] at h
  split at h
  case isFalse => cases h
  case isTrue _ =>
    obtain ⟨net, hnet, rfl⟩ := Option.map_eq_some_iff.mp h
    exact kept_step w.descriptor w.net e net hw hnet

theorem create_ok {w w' : World} {sock : Socket} {fd : SocketType}
    (h : step w (.create sock fd) = some w') :
    w.cobj sock = none ∧ w' = { w with cobj := Function.update w.cobj sock (some fd) } := by
  simp only [step] at h
  split at h
  case isTrue hnone => exact ⟨hnone, (Option.some.inj h).symm⟩
  case isFalse => cases h

theorem destroy_ok {w w' : World} {sock : Socket} (h : step w (.destroy sock) = some w') :
    w' = { w with cobj := Function.update w.cobj sock none } := by
  simp only [step] at h
  split at h
  case isTrue => cases h
  case isFalse => exact (Option.some.inj h).symm

theorem created_other {cobj : Socket → Option SocketType} {sock other : Socket} {fd : SocketType}
    (hnew : cobj sock = none) {a : SocketType} (h : cobj other = some a) :
    Function.update cobj sock (some fd) other = some a := by
  have hne : other ≠ sock := by
    rintro rfl
    rw [hnew] at h
    cases h
  rwa [Function.update_of_ne hne]

structure LivingSources (w : World) : Prop where
  kept : SocketSelector.Kept w.net
  sources : ∀ id src, w.net.selector.loop.source id = some src → w.cobj src.sock ≠ none

theorem LivingSources.calls {w : World} (hw : LivingSources w) : CallsLiving w where
  sources := hw.sources
  events := by
    intro e w' ob sock h hob hs
    obtain ⟨id, src, hid, rfl⟩ := (use_cases hw.kept.selector h).2.2 ob sock hob hs
    exact hw.sources id src hid

theorem start_living : LivingSources start where
  kept := start_kept
  sources := fun _ _ hid => by cases hid

theorem living_step (w : World) (e : Event) (w' : World) (hw : LivingSources w)
    (hC : Unwatched w e) (h : step w e = some w') : LivingSources w' := by
  cases e with
  | create sock fd =>
    obtain ⟨hnew, rfl⟩ := create_ok h
    refine ⟨hw.kept, fun id src hid => ?_⟩
    obtain ⟨a, ha⟩ := Option.ne_none_iff_exists'.mp (hw.sources id src hid)
    exact Option.ne_none_iff_exists'.mpr ⟨a, created_other hnew ha⟩
  | destroy sock =>
    obtain rfl := destroy_ok h
    refine ⟨hw.kept, fun id src hid hnone => hw.sources id src hid ?_⟩
    exact (Function.update_of_ne (hC id src hid) _ _).symm.trans hnone
  | use e =>
    obtain ⟨hcobj, hchange, _⟩ := use_cases hw.kept.selector h
    refine ⟨kept_use hw.kept h, fun id src hid => ?_⟩
    rw [hcobj]
    rcases hchange with ⟨sock, fd, hfd, hch⟩ | hdrop
    · rcases hch.sources id src hid with hold | rfl
      · exact hw.sources id src hold
      · rw [hfd]
        exact Option.some_ne_none fd
    · exact hw.sources id src (hdrop.sources id src hid)

/-- A source whose socket is destroyed stays, and its callback emits on that socket. -/
theorem watched_destroyed {w w' : World} {e : Event} (hC : ¬ Unwatched w e)
    (h : step w e = some w') : ¬ CallsLiving w' := by
  cases e with
  | destroy sock =>
    obtain rfl := destroy_ok h
    intro hw
    apply hC
    rintro id src hid rfl
    exact hw.sources id src hid (Function.update_self _ _ _)
  | create sock fd => exact absurd trivial hC
  | use e => exact absurd trivial hC

structure LivingEntries (w : World) : Prop where
  kept : SocketSelector.Kept w.net
  asked : ∀ sock sel, w.net.selector.map sock = some sel → sel.cond ≠ ioNone
  entries : ∀ sock sel, w.net.selector.map sock = some sel → w.cobj sock ≠ none
  channels : ∀ sock sel fd, w.net.selector.map sock = some sel → sel.ioChan = some fd →
    w.cobj sock = some fd

theorem LivingEntries.knows {w : World} (hw : LivingEntries w) : KnowsLiving w where
  entries := hw.entries
  channels := hw.channels
  watches := by
    intro id fd mask sock hid
    obtain ⟨sel, hsel, _, hchan, _⟩ := (hw.kept.selector sock).live id _ hid rfl
    exact hw.channels sock sel fd hsel hchan

theorem LivingEntries.deselected_iff {w : World} (hw : LivingEntries w) (sock : Socket) :
    w.net.selector.get sock = ioNone ↔ w.net.selector.map sock = none := by
  unfold GSelector.get
  cases hsel : w.net.selector.map sock with
  | none => simp
  | some sel => simp [hw.asked sock sel hsel]

theorem start_entries : LivingEntries start where
  kept := start_kept
  asked := fun _ _ h => by cases h
  entries := fun _ _ h => by cases h
  channels := fun _ _ _ h => by cases h

theorem entries_changed {w w' : World} (hw : LivingEntries w)
    (hkept : SocketSelector.Kept w'.net) (hcobj : w'.cobj = w.cobj) {sock : Socket}
    {fd : SocketType} (hfd : w.cobj sock = some fd)
    (hch : Changes w.net.selector w'.net.selector sock fd) : LivingEntries w' := by
  refine ⟨hkept, fun other sel hsel => ?_, fun other sel hsel => ?_,
    fun other sel chan hsel hchan => ?_⟩
  · by_cases hne : other = sock
    · subst hne
      exact hch.asked (hw.asked other) sel hsel
    · rw [hch.others other hne] at hsel
      exact hw.asked other sel hsel
  · rw [hcobj]
    by_cases hne : other = sock
    · rw [hne, hfd]
      exact Option.some_ne_none fd
    · rw [hch.others other hne] at hsel
      exact hw.entries other sel hsel
  · rw [hcobj]
    by_cases hne : other = sock
    · subst hne
      rcases hch.channel sel chan hsel hchan with rfl | ⟨old, hold, hchan⟩
      · exact hfd
      · exact hw.channels other old chan hold hchan
    · rw [hch.others other hne] at hsel
      exact hw.channels other sel chan hsel hchan

theorem entries_step (w : World) (e : Event) (w' : World) (hw : LivingEntries w)
    (hC : Deselected w e) (h : step w e = some w') : LivingEntries w' := by
  cases e with
  | create sock fd =>
    obtain ⟨hnew, rfl⟩ := create_ok h
    refine ⟨hw.kept, hw.asked, fun other sel hsel => ?_, fun other sel chan hsel hchan => ?_⟩
    · obtain ⟨a, ha⟩ := Option.ne_none_iff_exists'.mp (hw.entries other sel hsel)
      exact Option.ne_none_iff_exists'.mpr ⟨a, created_other hnew ha⟩
    · exact created_other hnew (hw.channels other sel chan hsel hchan)
  | destroy sock =>
    obtain rfl := destroy_ok h
    have hgone : w.net.selector.map sock = none := (hw.deselected_iff sock).mp hC
    have hother : ∀ other sel, w.net.selector.map other = some sel → other ≠ sock := by
      rintro other sel hsel rfl
      rw [hgone] at hsel
      cases hsel
    have hsame : ∀ other sel, w.net.selector.map other = some sel →
        Function.update w.cobj sock none other = w.cobj other :=
      fun other sel hsel => Function.update_of_ne (hother other sel hsel) _ _
    refine ⟨hw.kept, hw.asked, fun other sel hsel hnone => ?_, fun other sel chan hsel hchan => ?_⟩
    · exact hw.entries other sel hsel ((hsame other sel hsel).symm.trans hnone)
    · exact (hsame other sel hsel).trans (hw.channels other sel chan hsel hchan)
  | use e =>
    obtain ⟨hcobj, hchange, _⟩ := use_cases hw.kept.selector h
    have hkept := kept_use hw.kept h
    rcases hchange with ⟨sock, fd, hfd, hch⟩ | hdrop
    · exact entries_changed hw hkept hcobj hfd hch
    · refine ⟨hkept, ?_, ?_, ?_⟩
      · rw [hdrop.map]
        exact hw.asked
      · rw [hdrop.map, hcobj]
        exact hw.entries
      · rw [hdrop.map, hcobj]
        exact hw.channels

theorem selected_destroyed {w w' : World} {e : Event} (hC : ¬ Deselected w e)
    (h : step w e = some w') : ¬ KnowsLiving w' := by
  cases e with
  | destroy sock =>
    obtain rfl := destroy_ok h
    intro hw
    apply hC
    cases hsel : w.net.selector.map sock with
    | none => simp [Deselected, GSelector.get, hsel]
    | some sel => exact absurd (Function.update_self _ _ _) (hw.entries sock sel hsel)
  | create sock fd => exact absurd trivial hC
  | use e => exact absurd trivial hC

/-- The main loop calls back into living sockets exactly as long as each socket is without
sources when it is destroyed; the entries are those of living sockets and watch their own
descriptors exactly as long as each is selected for nothing then. -/
theorem selector_reaches_living_sockets (es : List Event) :
    (Always step CallsLiving start es ↔ EveryStep step Unwatched start es) ∧
    (Always step KnowsLiving start es ↔ EveryStep step Deselected start es) := by
  have hany : EveryStep step (fun _ _ => True) start es :=
    everyStep_of_forall fun _ _ _ => trivial
  constructor
  · exact always_iff_everyStep (fun _ hw => hw.calls)
      (fun w e w' hw _ hC h => living_step w e w' hw hC h)
      (fun _ _ _ _ _ hC h => watched_destroyed hC h) start_living hany
  · exact always_iff_everyStep (fun _ hw => hw.knows)
      (fun w e w' hw _ hC h => entries_step w e w' hw hC h)
      (fun _ _ _ _ _ hC h => selected_destroyed hC h) start_entries hany

/-- A socket that is destroyed while its selection has no source leaves its channel behind, and
the next socket of the same address is watched at the descriptor of the first. -/
theorem reused_address_keeps_channel (sock : Socket) (fd fd' : SocketType) :
    ∃ w, run step start
        [.create sock fd, .use (.set sock ioIncoming true), .use (.set sock ioTimeout true),
          .destroy sock, .create sock fd', .use (.set sock ioIncoming true)] = some w ∧
      w.cobj sock = some fd' ∧
      ∃ id, w.net.selector.loop.source id = some (.io fd (gcond ioIncoming) sock) := by
  have hin : ioIncoming ≠ ioNone ∧ WantsIo ioIncoming := by decide
  have htime : ioTimeout ≠ ioNone ∧ ¬ WantsIo ioTimeout := by decide
  have hio : ioIncoming &&& ioFlags ≠ ioTimeout &&& ioFlags := by decide
  have hoff : ioIncoming &&& ioTimeout ≠ ioTimeout := by decide
  simp only [run, step, start, SocketSelector.start, World.Passes, World.descriptor,
    SocketSelector.step, GSelector.set, GSelector.addSocket, GSelector.modifySocket, rewatch,
    untime, SocketSelector.connectIo, SocketSelector.newEntry, disconnect_if_connected]
  simp only [ne_eq, hin, htime, hio, hio.symm, hoff, hoff.symm, not_false_eq_true, if_true,
    if_false, Function.update_self, Option.map_some, Option.bind_some, reduceCtorEq,
    Option.getD_some, BitVec.and_self, true_and, exists_eq_left', Option.some.injEq]
  exact ⟨_, source_attach.mpr (Or.inl ⟨rfl, rfl⟩)⟩

/-- The loop of `~GSelector` over the keys of `m_map`. -/
def destructor (s : GSelector) (keys : List Socket) : Sources Source :=
  keys.foldl (fun loop sock => loop.disconnect ((s.map sock).bind SelectedSocket.ioConn)) s.loop

theorem destructor_source {s : GSelector} {id : ℕ} {src : Source} (keys : List Socket)
    (loop : Sources Source) :
    (keys.foldl (fun loop sock => loop.disconnect ((s.map sock).bind SelectedSocket.ioConn))
        loop).source id = some src ↔
      loop.source id = some src ∧
      ∀ sock ∈ keys, ∀ sel, s.map sock = some sel → sel.ioConn ≠ some id := by
  induction keys generalizing loop with
  | nil => simp
  | cons sock keys ih =>
    rw [List.foldl_cons, ih, source_disconnect]
    simp only [List.forall_mem_cons]
    have hsock : (s.map sock).bind SelectedSocket.ioConn ≠ some id ↔
        ∀ sel, s.map sock = some sel → sel.ioConn ≠ some id := by
      simp [Option.bind_eq_some_iff]
    rw [hsock]
    tauto

theorem destructor_leaves_timers (cobj : Socket → SocketType) (es : List SocketSelector.Event)
    (w : SocketSelector.World) (keys : List Socket)
    (hrun : run (SocketSelector.step cobj) SocketSelector.start es = some w)
    (hkeys : ∀ sock, w.selector.map sock ≠ none → sock ∈ keys) (id : ℕ) (src : Source) :
    (destructor w.selector keys).source id = some src ↔
      w.selector.loop.source id = some src ∧ src.kind = .timeout := by
  have hw : SocketSelector.Kept w := reachable_invariant (kept_step cobj) start_kept ⟨es, hrun⟩
  rw [destructor, destructor_source]
  refine and_congr_right fun hid => ?_
  obtain ⟨sel, hsel, hconn, _⟩ := (hw.selector src.sock).live id src hid rfl
  have hmem : src.sock ∈ keys := hkeys src.sock (by simp [hsel])
  constructor
  · intro h
    cases hkind : src.kind with
    | timeout => rfl
    | io =>
      rw [hkind] at hconn
      exact absurd hconn (h src.sock hmem sel hsel)
  · intro hkind sock _ sel' hsel' hc
    -- a connection of the other kind holds no timer
    obtain ⟨_, hio⟩ := (hw.selector sock).owned sel' .io id src hsel' hc hid
    rw [hkind] at hio
    cases hio

end SelectorLifetimes
