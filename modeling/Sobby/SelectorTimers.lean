import Sobby.Histories
import Sobby.SelectorDelivery

/-! The timers of the selector. A call of `set_timeout` arms its socket: the timer fires once,
unless the socket stops waiting for its timeout or is armed anew before. -/
namespace SelectorTimers

open StepMachine
open Histories
open IoConditions
open SourceTable
open SocketSelector
open SelectorDelivery

/-- What ends the wait for the timeout of a socket: it fires, it is deselected, alone or with
the whole socket, or the timeout is set anew. -/
def Cancels (sock : Socket) : Observation → Prop
  | .selected s cond _ => s = sock ∧ ¬ WantsTimeout cond
  | .timeoutSet s (some _) => s = sock
  | .timeoutEvent _ s _ => s = sock
  | _ => False

def ArmedSince (trace : List Observation) (sock : Socket) (id : ℕ) : Prop :=
  Since (fun ob => ob = .timeoutSet sock (some id)) (Cancels sock) trace

def installed (trace : List Observation) : List ℕ :=
  trace.filterMap fun
    | .timeoutSet _ id => id
    | _ => none

def fired (trace : List Observation) : List ℕ :=
  trace.filterMap fun
    | .timeoutEvent id _ _ => some id
    | _ => none

def Announced (ob : Observation) (older : List Observation) : Prop :=
  ∀ id sock cond, ob = .timeoutEvent id sock cond → cond = ioTimeout ∧ ArmedSince older sock id

def HasTimer (s : GSelector) (id : ℕ) (sock : Socket) : Prop :=
  ∃ interval, s.loop.source id = some (.timeout interval sock)

/-- Asked of every state: an expiring timer finds its socket waiting for the timeout, events
come from calls that were not cancelled, at most one from each call, and an uncancelled timer
is live, also when the handler that armed it has returned. -/
structure OneShotTimers (cobj : Socket → SocketType) (w : World) : Prop where
  expiring : ∀ id sock, HasTimer w.selector id sock →
    (∃ sel, w.selector.map sock = some sel ∧ WantsTimeout sel.cond) ∧
    w.selector.onTimeout sock = (some ioTimeout, false)
  announced : ∀ newer older id sock cond, w.trace = newer ++ .timeoutEvent id sock cond :: older →
    cond = ioTimeout ∧ ArmedSince older sock id
  separate : (installed w.trace).Nodup
  once : (fired w.trace).Nodup
  live : ∀ sock id, ArmedSince w.trace sock id → HasTimer w.selector id sock
  rearmed : ∀ w', step cobj w .handlerReturn = some w' →
    ∀ sock id, ArmedSince w.trace sock id → HasTimer w'.selector id sock

theorem timer_unique {s : GSelector} (hs : s.Kept) {sock : Socket} {id id' : ℕ}
    (h : HasTimer s id sock) (h' : HasTimer s id' sock) : id = id' := by
  obtain ⟨interval, hid⟩ := h
  obtain ⟨interval', hid'⟩ := h'
  obtain ⟨sel, hsel, hc, _⟩ := (hs sock).live id _ hid rfl
  obtain ⟨sel', hsel', hc', _⟩ := (hs sock).live id' _ hid' rfl
  obtain rfl := Option.some.inj (hsel.symm.trans hsel')
  exact Option.some.inj (hc.symm.trans hc')

theorem timer_sock {s : GSelector} {id : ℕ} {sock sock' : Socket}
    (h : HasTimer s id sock) (h' : HasTimer s id sock') : sock = sock' := by
  obtain ⟨interval, hid⟩ := h
  obtain ⟨interval', hid'⟩ := h'
  rw [hid] at hid'
  cases hid'
  rfl

theorem timer_waits {s : GSelector} (hs : s.Kept) {id : ℕ} {sock : Socket}
    (h : HasTimer s id sock) : ∃ sel, s.map sock = some sel ∧ WantsTimeout sel.cond := by
  obtain ⟨interval, hid⟩ := h
  obtain ⟨sel, hsel, _, hwants, _⟩ := (hs sock).live id _ hid rfl
  exact ⟨sel, hsel, hwants⟩

theorem rewatch_new {loop : Sources Source} {sock : Socket} {sel : SelectedSocket}
    {cond : IoCondition} {id : ℕ} {src : Source}
    (h : (rewatch loop sock sel cond).1.source id = some src) :
    loop.source id = some src ∨ src.kind = .io := by
  rcases rewatch_cases loop sock sel cond with ⟨_, hr⟩ | ⟨_, _, hr⟩ | ⟨_, _, hr⟩
  · rw [hr] at h
    exact Or.inl h
  · rw [hr] at h
    exact Or.inl (source_disconnect.mp h).2
  · rw [hr] at h
    cases hchan : sel.ioChan with
    | none =>
      rw [hchan] at h
      exact Or.inl (source_disconnect.mp h).2
    | some fd =>
      rw [hchan] at h
      rcases source_attach.mp h with ⟨_, rfl⟩ | h
      · exact Or.inr rfl
      · exact Or.inl (source_disconnect.mp h).2

theorem set_new {s : GSelector} {cobj : Socket → SocketType} {sock : Socket} {cond : IoCondition}
    {setsFlags : Bool} {id : ℕ} {src : Source}
    (h : (s.set cobj sock cond setsFlags).1.loop.source id = some src) :
    s.loop.source id = some src ∨ src.kind = .io := by
  obtain ⟨_, _, hset⟩ | ⟨_, _, hset⟩ | ⟨sel, _, _, hset⟩ | ⟨sel, _, _, hset⟩ :=
    set_cases s cobj sock cond setsFlags
  · rw [hset] at h
    exact Or.inl h
  · rw [hset] at h
    obtain ⟨_, _, hadd⟩ | ⟨_, _, hadd⟩ | ⟨_, hadd⟩ := addSocket_cases s cobj sock cond setsFlags
    · rw [hadd] at h
      rcases source_attach.mp h with ⟨_, rfl⟩ | h
      · exact Or.inr rfl
      · exact Or.inl h
    · rw [hadd] at h
      exact Or.inl h
    · rw [hadd] at h
      exact Or.inl h
  · rw [hset] at h
    simp only [GSelector.deleteSocket, disconnect_if_connected] at h
    exact Or.inl (source_disconnect.mp (source_disconnect.mp h).2).2
  · rw [hset] at h
    apply rewatch_new
    simp only [GSelector.modifySocket] at h
    rcases untime_cases (rewatch s.loop sock sel cond).1 sel cond with ⟨_, hu⟩ | ⟨_, hu⟩
    · rw [hu] at h
      exact h
    · rw [hu] at h
      exact (source_disconnect.mp h).2

/-- A socket that is to wait for its timeout keeps its timer. -/
theorem set_keeps_timer {s : GSelector} (hs : s.Kept) (cobj : Socket → SocketType) (sock : Socket)
    {cond : IoCondition} (setsFlags : Bool) {id : ℕ} {t : Socket} (h : HasTimer s id t)
    (hwants : sock = t → WantsTimeout cond) :
    HasTimer (s.set cobj sock cond setsFlags).1 id t := by
  obtain ⟨interval, hid⟩ := h
  refine ⟨interval, ?_⟩
  by_cases hne : sock = t
  · subst hne
    obtain ⟨_, hc, h⟩ | ⟨hsel, _, h⟩ | ⟨sel, hsel, hc, h⟩ | ⟨sel, hsel, _, h⟩ :=
      set_cases s cobj sock cond setsFlags
    · rw [h]
      exact hid
    · -- a socket without an entry has no timer
      obtain ⟨_, he, _⟩ := (hs sock).live id _ hid rfl
      rw [hsel] at he
      cases he
    · exact absurd (hc ▸ hwants rfl) (by decide)
    · have hat : Attached s.loop sock (some sel) := hsel ▸ hs sock
      obtain ⟨_, he, _, hw, _⟩ := hat.live id _ hid rfl
      obtain rfl := Option.some.inj he
      have hkeep : (rewatch s.loop sock sel cond).1.source id = some (.timeout interval sock) :=
        rewatch_others hat cond hid (Or.inr (by simp [Source.kind]))
      rw [h]
      rcases untime_cases (rewatch s.loop sock sel cond).1 sel cond with ⟨_, hu⟩ | ⟨ht, _⟩
      · simp only [GSelector.modifySocket, hu]
        exact hkeep
      · exact absurd (((wantsTimeout_iff _).mp hw).trans
          ((wantsTimeout_iff _).mp (hwants rfl)).symm) ht
  · exact set_others hs cobj cond setsFlags hid (Ne.symm hne)

theorem set_timer {s : GSelector} (hs : s.Kept) (cobj : Socket → SocketType) (sock : Socket)
    (cond : IoCondition) (setsFlags : Bool) (id : ℕ) (t : Socket) :
    HasTimer (s.set cobj sock cond setsFlags).1 id t ↔
      HasTimer s id t ∧ (sock = t → WantsTimeout cond) := by
  have hkept := set_kept hs cobj sock cond setsFlags
  constructor
  · intro h
    have hwants : sock = t → WantsTimeout cond := by
      rintro rfl
      obtain ⟨sel, hsel, hw⟩ := timer_waits hkept h
      have hget := set_get s cobj sock sock cond setsFlags
      rw [if_pos rfl, GSelector.get, hsel] at hget
      exact hget ▸ hw
    obtain ⟨interval, hid⟩ := h
    refine ⟨⟨interval, ?_⟩, hwants⟩
    rcases set_new hid with hid | hkind
    · exact hid
    · cases hkind
  · rintro ⟨h, hwants⟩
    exact set_keeps_timer hs cobj sock setsFlags h hwants

theorem setTimeout_timer {s s' : GSelector} (hs : s.Kept) {sock : Socket} {now : TimeVal}
    {timeout : ℕ} (h : s.setTimeout sock now timeout = .ok s') (id : ℕ) (t : Socket) :
    HasTimer s' id t ↔
      (id = s.loop.next ∧ t = sock) ∨ (t ≠ sock ∧ HasTimer s id t) := by
  obtain ⟨sel, hsel, _, rfl⟩ := setTimeout_ok h
  have hat : Attached s.loop sock (some sel) := hsel ▸ hs sock
  have hsock : sel.sock = sock := hat.key sel rfl
  constructor
  · rintro ⟨interval, hid⟩
    rcases source_attach.mp hid with ⟨rfl, hsrc⟩ | hold
    · cases hsrc
      exact Or.inl ⟨next_disconnect _ _, hsock⟩
    · refine Or.inr ⟨fun ht => ?_, interval, (source_disconnect.mp hold).2⟩
      exact disconnect_kind hat .timeout hold ht rfl
  · rintro (⟨rfl, rfl⟩ | ⟨hne, interval, hid⟩)
    · refine ⟨timeout % 2 ^ 32, source_attach.mpr (Or.inl ⟨(next_disconnect _ _).symm, ?_⟩)⟩
      rw [hsock]
    · exact ⟨interval, source_attach.mpr (Or.inr (disconnect_others hat .timeout hid (Or.inl hne)))⟩

theorem armed_cons {ob : Observation} {trace : List Observation} {sock : Socket} {id : ℕ} :
    ArmedSince (ob :: trace) sock id ↔
      ob = .timeoutSet sock (some id) ∨ ¬ Cancels sock ob ∧ ArmedSince trace sock id :=
  since_cons

structure Timed (w : World) : Prop extends Kept w where
  onceOnly : ∀ d ∈ w.running, ∀ sock, HasTimer w.selector d.source sock → d.keep = false
  waiting : ∀ sock id, ArmedSince w.trace sock id →
    HasTimer w.selector id sock ∧ id ∉ w.running.map Dispatch.source
  armed : ∀ id sock, HasTimer w.selector id sock →
    ArmedSince w.trace sock id ∨ id ∈ w.running.map Dispatch.source
  firing : ∀ id ∈ fired w.trace, id < w.selector.loop.next ∧
    ∀ src, w.selector.loop.source id = some src →
      src.kind = .timeout ∧ id ∈ w.running.map Dispatch.source
  issuedTimers : ∀ id ∈ installed w.trace, id < w.selector.loop.next
  announced : Each Announced w.trace
  separate : (installed w.trace).Nodup
  once : (fired w.trace).Nodup

theorem start_timed : Timed start where
  toKept := start_kept
  onceOnly := fun _ hd => by cases hd
  waiting := fun _ _ h => (not_since_nil h).elim
  armed := fun _ _ ⟨_, hid⟩ => by cases hid
  firing := fun _ hid => by cases hid
  issuedTimers := fun _ hid => by cases hid
  announced := trivial
  separate := List.nodup_nil
  once := List.nodup_nil

theorem announced_other {ob : Observation} {older : List Observation}
    (h : ∀ id sock cond, ob ≠ .timeoutEvent id sock cond) : Announced ob older :=
  fun id sock cond he => absurd he (h id sock cond)

theorem firing_later {w : World} (hw : Timed w) {s : GSelector} (hl : Later w.selector.loop s.loop)
    {id : ℕ}
    (hid : id ∈ fired w.trace) :
    id < s.loop.next ∧ ∀ src, s.loop.source id = some src →
      src.kind = .timeout ∧ id ∈ w.running.map Dispatch.source := by
  obtain ⟨hlt, hfire⟩ := hw.firing id hid
  exact ⟨hlt.trans_le hl.next_le, fun src hsrc => hfire src (hl.old id src hlt hsrc)⟩

theorem firing_callback {w : World} (hw : Timed w) (d : Dispatch) {id : ℕ}
    (hid : id ∈ fired w.trace) :
    id < w.selector.loop.next ∧ ∀ src, w.selector.loop.source id = some src →
      src.kind = .timeout ∧ id ∈ (d :: w.running).map Dispatch.source := by
  obtain ⟨hlt, hfire⟩ := hw.firing id hid
  refine ⟨hlt, fun src hsrc => ?_⟩
  obtain ⟨hkind, hmem⟩ := hfire src hsrc
  exact ⟨hkind, List.mem_cons_of_mem _ hmem⟩

theorem waiting_callback {w : World} (hw : Timed w) {sock : Socket} {id source : ℕ} {keep : Bool}
    (ha : ArmedSince w.trace sock id) (hne : id ≠ source) :
    HasTimer w.selector id sock ∧ id ∉ (⟨source, keep⟩ :: w.running).map Dispatch.source := by
  obtain ⟨hlive, hrun⟩ := hw.waiting sock id ha
  refine ⟨hlive, fun hmem => ?_⟩
  rcases List.mem_cons.mp hmem with he | hmem
  · exact hne he
  · exact hrun hmem

theorem timed_set {cobj : Socket → SocketType} {w : World} (hw : Timed w) (sock : Socket)
    (cond : IoCondition) (setsFlags : Bool) :
    Timed ⟨(w.selector.set cobj sock cond setsFlags).1, w.running,
      .selected sock cond (w.selector.set cobj sock cond setsFlags).2 :: w.trace⟩ := by
  have hl := set_later w.selector cobj sock cond setsFlags
  have hk : Kept ⟨(w.selector.set cobj sock cond setsFlags).1, w.running,
      .selected sock cond (w.selector.set cobj sock cond setsFlags).2 :: w.trace⟩ :=
    kept_of_later hw.toKept (set_kept hw.selector cobj sock cond setsFlags) hl _
  refine { toKept := hk, onceOnly := ?_, waiting := ?_, armed := ?_, firing := ?_,
           issuedTimers := ?_, announced := ?_, separate := hw.separate, once := hw.once }
  · intro d hd t ht
    exact hw.onceOnly d hd t ((set_timer hw.selector cobj sock cond setsFlags _ t).mp ht).1
  · intro t id ha
    rcases armed_cons.mp ha with he | ⟨hc, ha⟩
    · cases he
    · obtain ⟨hlive, hrun⟩ := hw.waiting t id ha
      refine ⟨(set_timer hw.selector cobj sock cond setsFlags id t).mpr ⟨hlive, ?_⟩, hrun⟩
      intro ht
      by_contra hn
      exact hc ⟨ht, hn⟩
  · intro id t ht
    obtain ⟨hlive, hwants⟩ := (set_timer hw.selector cobj sock cond setsFlags id t).mp ht
    rcases hw.armed id t hlive with ha | hrun
    · refine Or.inl (armed_cons.mpr (Or.inr ⟨?_, ha⟩))
      rintro ⟨hst, hn⟩
      exact hn (hwants hst)
    · exact Or.inr hrun
  · intro id hid
    exact firing_later hw hl hid
  · intro id hid
    exact (hw.issuedTimers id hid).trans_le hl.next_le
  · exact ⟨announced_other (by simp), hw.announced⟩

theorem timed_setTimeout {w : World} (hw : Timed w) {sock : Socket} {now : TimeVal} {timeout : ℕ}
    {s : GSelector} (hok : w.selector.setTimeout sock now timeout = .ok s) :
    Timed ⟨s, w.running, .timeoutSet sock (some w.selector.loop.next) :: w.trace⟩ := by
  have hl := setTimeout_later hok
  have hk : Kept ⟨s, w.running, .timeoutSet sock (some w.selector.loop.next) :: w.trace⟩ :=
    kept_of_later hw.toKept (setTimeout_kept hw.selector hok) hl _
  have hnext : s.loop.next = w.selector.loop.next + 1 := by
    obtain ⟨sel, _, _, rfl⟩ := setTimeout_ok hok
    simp
  -- the new timer is not running yet, as every running source was attached before
  have hnew : w.selector.loop.next ∉ w.running.map Dispatch.source := by
    intro hmem
    obtain ⟨d, hd, he⟩ := List.mem_map.mp hmem
    have hlt := hw.issued d hd
    omega
  refine { toKept := hk, onceOnly := ?_, waiting := ?_, armed := ?_, firing := ?_,
           issuedTimers := ?_, announced := ?_, separate := ?_, once := hw.once }
  · intro d hd t ht
    have hlt := hw.issued d hd
    rcases (setTimeout_timer hw.selector hok _ t).mp ht with ⟨he, _⟩ | ⟨_, ht⟩
    · omega
    · exact hw.onceOnly d hd t ht
  · intro t id ha
    rcases armed_cons.mp ha with he | ⟨hc, ha⟩
    · cases he
      exact ⟨(setTimeout_timer hw.selector hok _ _).mpr (Or.inl ⟨rfl, rfl⟩), hnew⟩
    · obtain ⟨hlive, hrun⟩ := hw.waiting t id ha
      have hne : t ≠ sock := fun h => hc h.symm
      exact ⟨(setTimeout_timer hw.selector hok id t).mpr (Or.inr ⟨hne, hlive⟩), hrun⟩
  · intro id t ht
    rcases (setTimeout_timer hw.selector hok id t).mp ht with ⟨rfl, rfl⟩ | ⟨hne, hlive⟩
    · exact Or.inl (armed_cons.mpr (Or.inl rfl))
    · rcases hw.armed id t hlive with ha | hrun
      · exact Or.inl (armed_cons.mpr (Or.inr ⟨fun h => hne h.symm, ha⟩))
      · exact Or.inr hrun
  · intro id hid
    exact firing_later hw hl hid
  · intro id hid
    have hlt : w.selector.loop.next < s.loop.next := by omega
    rcases List.mem_cons.mp hid with rfl | hid
    · exact hlt
    · exact (hw.issuedTimers id hid).trans_le hl.next_le
  · exact ⟨announced_other (by simp), hw.announced⟩
  · refine List.nodup_cons.mpr ⟨fun hmem => ?_, hw.separate⟩
    exact absurd (hw.issuedTimers _ hmem) (lt_irrefl _)

theorem timed_dispatchIo {w : World} (hw : Timed w) {id : ℕ} {chan : SocketType}
    {mask : GCondition} {sock : Socket} {cond : IoCondition}
    (hid : w.selector.loop.source id = some (.io chan mask sock)) :
    Timed ⟨w.selector, ⟨id, true⟩ :: w.running, .ioEvent id sock cond :: w.trace⟩ := by
  have hk : Kept ⟨w.selector, ⟨id, true⟩ :: w.running, .ioEvent id sock cond :: w.trace⟩ :=
    kept_callback hw.toKept hid (fun h => by cases h) _
  have hio : ∀ t, ¬ HasTimer w.selector id t := by
    rintro t ⟨interval, ht⟩
    rw [hid] at ht
    cases ht
  refine { toKept := hk, onceOnly := ?_, waiting := ?_, armed := ?_, firing := ?_,
           issuedTimers := hw.issuedTimers, announced := ?_, separate := hw.separate,
           once := hw.once }
  · intro d hd t ht
    rcases List.mem_cons.mp hd with rfl | hd
    · exact absurd ht (hio t)
    · exact hw.onceOnly d hd t ht
  · intro t id' ha
    rcases armed_cons.mp ha with he | ⟨_, ha⟩
    · cases he
    · have hlive := (hw.waiting t id' ha).1
      exact waiting_callback hw ha fun he => hio t (he ▸ hlive)
  · intro id' t ht
    rcases hw.armed id' t ht with ha | hrun
    · exact Or.inl (armed_cons.mpr (Or.inr ⟨fun h => h, ha⟩))
    · exact Or.inr (List.mem_cons_of_mem _ hrun)
  · intro id' hf
    exact firing_callback hw _ hf
  · exact ⟨announced_other (by simp), hw.announced⟩

/-- The event that is emitted belongs to the call that armed the socket last. -/
theorem timed_dispatchTimeout {w : World} (hw : Timed w) {id interval : ℕ} {sock : Socket}
    (hidle : id ∉ w.running.map Dispatch.source)
    (hid : w.selector.loop.source id = some (.timeout interval sock)) :
    Timed ⟨w.selector, ⟨id, false⟩ :: w.running, .timeoutEvent id sock ioTimeout :: w.trace⟩ := by
  have hk : Kept ⟨w.selector, ⟨id, false⟩ :: w.running,
      .timeoutEvent id sock ioTimeout :: w.trace⟩ :=
    kept_callback hw.toKept hid (fun _ => rfl) _
  have htimer : HasTimer w.selector id sock := ⟨interval, hid⟩
  have harmed : ArmedSince w.trace sock id := by
    rcases hw.armed id sock htimer with ha | hrun
    · exact ha
    · exact absurd hrun hidle
  refine { toKept := hk, onceOnly := ?_, waiting := ?_, armed := ?_, firing := ?_,
           issuedTimers := hw.issuedTimers, announced := ?_, separate := hw.separate,
           once := ?_ }
  · intro d hd t ht
    rcases List.mem_cons.mp hd with rfl | hd
    · rfl
    · exact hw.onceOnly d hd t ht
  · intro t id' ha
    rcases armed_cons.mp ha with he | ⟨hc, ha⟩
    · cases he
    · have hlive := (hw.waiting t id' ha).1
      exact waiting_callback hw ha fun he => hc (timer_sock htimer (he ▸ hlive))
  · intro id' t ht
    by_cases hst : sock = t
    · subst hst
      rw [timer_unique hw.selector ht htimer]
      exact Or.inr List.mem_cons_self
    · rcases hw.armed id' t ht with ha | hrun
      · exact Or.inl (armed_cons.mpr (Or.inr ⟨hst, ha⟩))
      · exact Or.inr (List.mem_cons_of_mem _ hrun)
  · intro id' hf
    rcases List.mem_cons.mp hf with rfl | hf
    · refine ⟨source_lt hid, fun src hsrc => ?_⟩
      obtain rfl := Option.some.inj (hid.symm.trans hsrc)
      exact ⟨rfl, List.mem_cons_self⟩
    · exact firing_callback hw _ hf
  · refine ⟨?_, hw.announced⟩
    rintro _ _ _ ⟨⟩
    exact ⟨rfl, harmed⟩
  · refine List.nodup_cons.mpr ⟨fun hmem => ?_, hw.once⟩
    exact hidle ((hw.firing id hmem).2 _ hid).2

section Finish

variable {w : World} {d : Dispatch} {running : List Dispatch}

theorem mem_running (hrun : w.running = d :: running) {id : ℕ} :
    id ∈ w.running.map Dispatch.source ↔
      id = d.source ∨ id ∈ running.map Dispatch.source := by
  rw [hrun, List.map_cons, List.mem_cons]

theorem timed_kept_source (hw : Timed w) (hrun : w.running = d :: running) (hkeep : d.keep = true)
    (hk : Kept ⟨w.selector, running, w.trace⟩) : Timed ⟨w.selector, running, w.trace⟩ := by
  have hsub : ∀ d' ∈ running, d' ∈ w.running := hrun ▸ fun d' => List.mem_cons_of_mem d
  have hwatch : ∀ t, ¬ HasTimer w.selector d.source t := by
    intro t ht
    rw [hw.onceOnly d (by simp [hrun]) t ht] at hkeep
    cases hkeep
  refine { toKept := hk, onceOnly := fun d' hd' => hw.onceOnly d' (hsub d' hd'),
           waiting := ?_, armed := ?_, firing := ?_, issuedTimers := hw.issuedTimers,
           announced := hw.announced, separate := hw.separate, once := hw.once }
  · intro t id ha
    obtain ⟨hlive, hidle⟩ := hw.waiting t id ha
    exact ⟨hlive, fun hr => hidle ((mem_running hrun).mpr (Or.inr hr))⟩
  · intro id t ht
    rcases hw.armed id t ht with ha | hr
    · exact Or.inl ha
    · rcases (mem_running hrun).mp hr with rfl | hr
      · exact absurd ht (hwatch t)
      · exact Or.inr hr
  · intro id hfired
    obtain ⟨hlt, hfire⟩ := hw.firing id hfired
    refine ⟨hlt, fun src hsrc => ?_⟩
    obtain ⟨hkind, hr⟩ := hfire src hsrc
    rcases (mem_running hrun).mp hr with rfl | hr
    · cases src with
      | io chan mask s => cases hkind
      | timeout interval s => exact absurd ⟨interval, hsrc⟩ (hwatch s)
    · exact ⟨hkind, hr⟩

theorem timed_destroyed_source (hw : Timed w) (hrun : w.running = d :: running)
    (hk : Kept ⟨{ w.selector with loop := w.selector.loop.destroy d.source }, running, w.trace⟩) :
    Timed ⟨{ w.selector with loop := w.selector.loop.destroy d.source }, running, w.trace⟩ := by
  have hsub : ∀ d' ∈ running, d' ∈ w.running := hrun ▸ fun d' => List.mem_cons_of_mem d
  have hold : ∀ {id t}, HasTimer { w.selector with
      loop := w.selector.loop.destroy d.source } id t →
      id ≠ d.source ∧ HasTimer w.selector id t := by
    rintro id t ⟨interval, ht⟩
    exact ⟨(source_destroy.mp ht).1, interval, (source_destroy.mp ht).2⟩
  refine { toKept := hk, onceOnly := ?_, waiting := ?_, armed := ?_, firing := ?_,
           issuedTimers := hw.issuedTimers, announced := hw.announced,
           separate := hw.separate, once := hw.once }
  · intro d' hd' t ht
    exact hw.onceOnly d' (hsub d' hd') t (hold ht).2
  · intro t id ha
    obtain ⟨⟨interval, hlive⟩, hidle⟩ := hw.waiting t id ha
    obtain ⟨hne, hidle⟩ := not_or.mp (mt (mem_running hrun).mpr hidle)
    exact ⟨⟨interval, source_destroy.mpr ⟨hne, hlive⟩⟩, hidle⟩
  · intro id t ht
    obtain ⟨hne, hlive⟩ := hold ht
    have hr := (hw.armed id t hlive).imp_right (mem_running hrun).mp
    exact hr.imp_right fun h => h.resolve_left hne
  · intro id hfired
    obtain ⟨hlt, hfire⟩ := hw.firing id hfired
    refine ⟨hlt, fun src hsrc => ?_⟩
    obtain ⟨hne, hsrc⟩ := source_destroy.mp hsrc
    obtain ⟨hkind, hr⟩ := hfire src hsrc
    exact ⟨hkind, ((mem_running hrun).mp hr).resolve_left hne⟩

theorem timed_finish (hw : Timed w) (hrun : w.running = d :: running)
    (hk : Kept (World.finish ⟨w.selector, running, w.trace⟩ d)) :
    Timed (World.finish ⟨w.selector, running, w.trace⟩ d) := by
  rcases finish_cases ⟨w.selector, running, w.trace⟩ d with ⟨hkeep, hf⟩ | ⟨_, hf⟩
  · rw [hf] at hk ⊢
    exact timed_kept_source hw hrun hkeep hk
  · rw [hf] at hk ⊢
    exact timed_destroyed_source (w := w) hw hrun hk

end Finish

theorem timed_step (cobj : Socket → SocketType) (w : World) (e : Event) (w' : World)
    (hw : Timed w) (h : step cobj w e = some w') : Timed w' := by
  have hk := kept_step cobj w e w' hw.toKept h
  obtain ⟨sock, cond, setsFlags, _, rfl⟩ | ⟨sock, now, timeout, error, _, _, rfl⟩ |
    ⟨sock, now, timeout, s, _, hok, rfl⟩ | ⟨id, cond, chan, sock, _, _, hid, _, _, rfl⟩ |
    ⟨id, interval, sock, _, hidle, hid, rfl⟩ | ⟨d, running, _, hrun, rfl⟩ :=
    step_cases hw.selector h
  · exact timed_set hw sock cond setsFlags
  · refine { hw with toKept := hk, waiting := ?_, armed := ?_, announced := ?_ }
    · intro t id ha
      rcases armed_cons.mp ha with he | ⟨_, ha⟩
      · cases he
      · exact hw.waiting t id ha
    · intro id t ht
      exact (hw.armed id t ht).imp_left fun ha => armed_cons.mpr (Or.inr ⟨fun h => h, ha⟩)
    · exact ⟨announced_other (by simp), hw.announced⟩
  · exact timed_setTimeout hw hok
  · exact timed_dispatchIo hw hid
  · exact timed_dispatchTimeout hw hidle hid
  · exact timed_finish hw hrun hk

theorem Timed.oneShot {cobj : Socket → SocketType} {w : World} (hw : Timed w) :
    OneShotTimers cobj w where
  expiring := by
    intro id sock ht
    refine ⟨timer_waits hw.selector ht, ?_⟩
    obtain ⟨interval, hid⟩ := ht
    exact onTimeout_live hw.selector hid
  announced := by
    intro newer older id sock cond hs
    exact each_split hw.announced hs id sock cond rfl
  separate := hw.separate
  once := hw.once
  live := fun sock id ha => (hw.waiting sock id ha).1
  rearmed := by
    intro w' h sock id ha
    have hw' := timed_step cobj w _ w' hw h
    -- a return leaves no trace
    have htrace : w'.trace = w.trace := by
      obtain ⟨_, _, _, he, _⟩ | ⟨_, _, _, _, he, _⟩ | ⟨_, _, _, _, he, _⟩ |
        ⟨_, _, _, _, he, _⟩ | ⟨_, _, _, he, _⟩ | ⟨d, running, _, _, rfl⟩ :=
        step_cases hw.selector h
      · cases he
      · cases he
      · cases he
      · cases he
      · cases he
      · rcases finish_cases ⟨w.selector, running, w.trace⟩ d with ⟨_, hf⟩ | ⟨_, hf⟩
        · rw [hf]
        · rw [hf]
    exact (hw'.waiting sock id (htrace ▸ ha)).1

/-- Whatever is selected and armed, also by the handlers of the timers themselves, timers fire
once, are cancelled by deselection, removal and rearming, and survive the return of the
handler that arms them. -/
theorem timers_are_one_shot (cobj : Socket → SocketType) (es : List Event) :
    Always (step cobj) (OneShotTimers cobj) start es := by
  have hC : EveryStep (step cobj) (fun _ _ => True) start es :=
    everyStep_of_forall fun _ _ _ => trivial
  have hI : Always (step cobj) Timed start es :=
    always_of_invariant (fun w e w' hw _ h => timed_step cobj w e w' hw h) start_timed hC
  exact always_mono (fun _ hw => hw.oneShot) hI

/-- The handler of the timeout arms its socket again: the second timer outlives the return of
the first callback and fires in its turn. -/
example : (run (step fun _ => 3) start
    [.set 7 ioTimeout true, .setTimeout 7 ⟨0, 0⟩ 500, .dispatchTimeout 0,
      .setTimeout 7 ⟨1, 0⟩ 500, .handlerReturn, .dispatchTimeout 1]).map World.trace =
    some [.timeoutEvent 1 7 ioTimeout, .timeoutSet 7 (some 1), .timeoutEvent 0 7 ioTimeout,
      .timeoutSet 7 (some 0), .selected 7 ioTimeout none] := by
  decide

end SelectorTimers
