import Sobby.SelectorTimers

/-! The time the selector reports for a running timer. It is counted down from the timeout the
entry keeps; the timer of the main loop has the same timeout as an `unsigned int`. -/
namespace SelectorClock

open StepMachine
open IoConditions
open SourceTable
open SocketSelector
open SelectorDelivery
open SelectorTimers

/-- `Glib::TimeVal::operator-=`, which borrows a second where the microseconds run short. -/
def minus (a b : TimeVal) : TimeVal :=
  if a.tvUsec - b.tvUsec < 0 then
    ⟨a.tvSec - b.tvSec - 1, a.tvUsec - b.tvUsec + 1000000⟩
  else ⟨a.tvSec - b.tvSec, a.tvUsec - b.tvUsec⟩

/-- Milliseconds as an `unsigned long`: what is negative becomes huge. -/
def elapsed (begun now : TimeVal) : ℕ :=
  (((minus now begun).tvSec * 1000 + (minus now begun).tvUsec.tdiv 1000) % 2 ^ 64).toNat

/-- The argument `now` is the clock. -/
def getTimeout (s : GSelector) (sock : Socket) (now : TimeVal) : ℕ :=
  match s.map sock with
  | none => 0
  | some sel =>
    if s.loop.connected sel.timeConn then
      if sel.timeout ≤ elapsed sel.timeoutBegin now then 1
      else sel.timeout - elapsed sel.timeoutBegin now
    else 0

structure Reading (v : TimeVal) : Prop where
  normal : 0 ≤ v.tvUsec ∧ v.tvUsec < 1000000
  near : |v.tvSec| < 2 ^ 40

def micros (v : TimeVal) : ℤ := v.tvSec * 1000000 + v.tvUsec

def millisBetween (begun now : TimeVal) : ℕ := ((micros now - micros begun) / 1000).toNat

theorem elapsed_eq {begun now : TimeVal} (hbegun : Reading begun) (hnow : Reading now)
    (h : micros begun ≤ micros now) : elapsed begun now = millisBetween begun now := by
  obtain ⟨⟨hb0, hb1⟩, hbnear⟩ := hbegun
  obtain ⟨⟨hn0, hn1⟩, hnnear⟩ := hnow
  rw [abs_lt] at hbnear hnnear
  unfold elapsed millisBetween minus
  unfold micros at h ⊢
  split
  · next hborrow =>
    simp only
    rw [Int.tdiv_eq_ediv_of_nonneg (by omega)]
    omega
  · next hborrow =>
    simp only
    rw [Int.tdiv_eq_ediv_of_nonneg (by omega)]
    omega

structure CountsDown (remaining : TimeVal → ℕ) (begun : TimeVal) (t : ℕ) : Prop where
  bounded : ∀ now, Reading now → 1 ≤ remaining now ∧ remaining now ≤ max 1 t
  remains : ∀ now, Reading now → micros begun ≤ micros now →
    remaining now = max 1 (t - millisBetween begun now)
  decreasing : ∀ n₁ n₂, Reading n₁ → Reading n₂ → micros begun ≤ micros n₁ →
    micros n₁ ≤ micros n₂ → remaining n₂ ≤ remaining n₁

def Remembers (s : GSelector) (sock : Socket) (begun : TimeVal) (t : ℕ) : Prop :=
  ∃ sel, s.map sock = some sel ∧ sel.timeoutBegin = begun ∧ sel.timeout = t

theorem countsDown_of_live {s : GSelector} (hs : s.Kept) {id : ℕ} {sock : Socket}
    (hlive : HasTimer s id sock) {begun : TimeVal} (hbegun : Reading begun) {t : ℕ}
    (hr : Remembers s sock begun t) : CountsDown (getTimeout s sock) begun t := by
  obtain ⟨interval, hid⟩ := hlive
  obtain ⟨sel, hsel, hconn, _⟩ := (hs sock).live id _ hid rfl
  obtain ⟨sel', hsel', hb, ht⟩ := hr
  obtain rfl := Option.some.inj (hsel.symm.trans hsel')
  have hconnected : s.loop.connected sel.timeConn = true := by
    have hc : sel.timeConn = some id := hconn
    simp [Sources.connected, hc, hid]
  have hget : ∀ now, getTimeout s sock now =
      if t ≤ elapsed begun now then 1 else t - elapsed begun now := by
    intro now
    simp only [getTimeout, hsel, hconnected, if_true, hb, ht]
  have hremains : ∀ now, Reading now → micros begun ≤ micros now →
      getTimeout s sock now = max 1 (t - millisBetween begun now) := by
    intro now hnow hle
    rw [hget, elapsed_eq hbegun hnow hle]
    split
    · omega
    · omega
  refine ⟨fun now _ => ?_, hremains, fun n₁ n₂ h₁ h₂ hle₁ hle₂ => ?_⟩
  · rw [hget]
    split
    · omega
    · omega
  · rw [hremains n₁ h₁ hle₁, hremains n₂ h₂ (hle₁.trans hle₂)]
    have hmono : millisBetween begun n₁ ≤ millisBetween begun n₂ := by
      unfold millisBetween
      omega
    omega

theorem getTimeout_no_timer {s : GSelector} (hs : s.Kept) {sock : Socket}
    (h : ∀ id, ¬ HasTimer s id sock) (now : TimeVal) : getTimeout s sock now = 0 := by
  unfold getTimeout
  split
  · rfl
  · next sel hsel =>
    have hdead : s.loop.connected sel.timeConn = false := by
      cases hconn : sel.timeConn with
      | none => rfl
      | some id =>
        cases hid : s.loop.source id with
        | none => simp [Sources.connected, hid]
        | some src =>
          obtain ⟨hsock, hkind⟩ := (hs sock).owned sel .timeout id src hsel hconn hid
          cases src with
          | io chan mask other => cases hkind
          | timeout interval other =>
            obtain rfl : other = sock := hsock
            exact absurd ⟨interval, hid⟩ (h id)
    simp [hdead]

section Runs

variable {cobj : Socket → SocketType} {id : ℕ} {sock : Socket} {begun : TimeVal} {t : ℕ}

structure Remembered (id : ℕ) (sock : Socket) (begun : TimeVal) (t : ℕ) (s : GSelector) : Prop where
  issued : id < s.loop.next
  kept : HasTimer s id sock → Remembers s sock begun t

theorem remembered_set {s : GSelector} (hs : s.Kept) (h : Remembered id sock begun t s)
    (other : Socket) (cond : IoCondition) (setsFlags : Bool) :
    Remembered id sock begun t (s.set cobj other cond setsFlags).1 := by
  refine ⟨h.issued.trans_le (set_later s cobj other cond setsFlags).next_le, fun hlive => ?_⟩
  obtain ⟨hold, _⟩ := (set_timer hs cobj other cond setsFlags id sock).mp hlive
  obtain ⟨sel, hsel, hb, ht⟩ := h.kept hold
  by_cases hne : other = sock
  · subst hne
    obtain ⟨hnone, _⟩ | ⟨hnone, _⟩ | ⟨sel', _, _, hset⟩ | ⟨sel', hsel', _, hset⟩ :=
      set_cases s cobj other cond setsFlags
    · rw [hsel] at hnone
      cases hnone
    · rw [hsel] at hnone
      cases hnone
    · -- the whole socket is deselected, and its timer with it
      obtain ⟨sel'', hsel'', _⟩ := timer_waits (set_kept hs cobj other cond setsFlags) hlive
      rw [hset] at hsel''
      simp [GSelector.deleteSocket] at hsel''
    · obtain rfl := Option.some.inj (hsel.symm.trans hsel')
      rw [hset]
      exact ⟨_, Function.update_self .., hb, ht⟩
  · refine ⟨sel, ?_, hb, ht⟩
    rw [set_map_other s cobj cond setsFlags hne, hsel]

theorem remembered_setTimeout {s s' : GSelector} (hs : s.Kept) (h : Remembered id sock begun t s)
    {other : Socket} {now : TimeVal} {timeout : ℕ} (hok : s.setTimeout other now timeout = .ok s') :
    Remembered id sock begun t s' := by
  refine ⟨h.issued.trans_le (setTimeout_later hok).next_le, fun hlive => ?_⟩
  rcases (setTimeout_timer hs hok id sock).mp hlive with ⟨hnext, _⟩ | ⟨hne, hold⟩
  · exact absurd h.issued (by omega)
  · obtain ⟨sel, hsel, hb, ht⟩ := h.kept hold
    obtain ⟨_, _, _, rfl⟩ := setTimeout_ok hok
    exact ⟨sel, (Function.update_of_ne hne ..).trans hsel, hb, ht⟩

theorem remembered_finish {w : World} (h : Remembered id sock begun t w.selector) (d : Dispatch) :
    Remembered id sock begun t (w.finish d).selector := by
  rcases finish_cases w d with ⟨_, hf⟩ | ⟨_, hf⟩
  · rw [hf]
    exact h
  · rw [hf]
    refine ⟨h.issued, fun ⟨interval, hid⟩ => h.kept ⟨interval, ?_⟩⟩
    exact (source_destroy.mp hid).2

theorem remembered_step {w w' : World} {e : Event} (hw : Kept w)
    (h : Remembered id sock begun t w.selector) (hstep : step cobj w e = some w') :
    Remembered id sock begun t w'.selector := by
  obtain ⟨other, cond, setsFlags, _, rfl⟩ | ⟨other, now, timeout, error, _, _, rfl⟩ |
    ⟨other, now, timeout, s, _, hok, rfl⟩ | ⟨id', cond, chan, other, _, _, _, _, _, rfl⟩ |
    ⟨id', interval, other, _, _, _, rfl⟩ | ⟨d, running, _, _, rfl⟩ :=
      SocketSelector.step_cases hw.selector hstep
  · exact remembered_set hw.selector h other cond setsFlags
  · exact h
  · exact remembered_setTimeout hw.selector h hok
  · exact h
  · exact h
  · exact remembered_finish (w := ⟨w.selector, running, w.trace⟩) h d

theorem remembered_run {w w' : World} {es : List Event} (hw : Kept w)
    (h : Remembered id sock begun t w.selector) (hrun : run (step cobj) w es = some w') :
    Kept w' ∧ Remembered id sock begun t w'.selector := by
  have hstep : ∀ v e v', (Kept v ∧ Remembered id sock begun t v.selector) →
      step cobj v e = some v' → Kept v' ∧ Remembered id sock begun t v'.selector :=
    fun v e v' hv hs => ⟨kept_step cobj v e v' hv.1 hs, remembered_step hv.1 hv.2 hs⟩
  exact reachable_invariant hstep ⟨hw, h⟩ ⟨es, hrun⟩

theorem remembered_armed {s s' : GSelector} (hok : s.setTimeout sock begun t = .ok s') :
    Remembered s.loop.next sock begun t s' := by
  obtain ⟨sel, _, _, rfl⟩ := setTimeout_ok hok
  refine ⟨by simp, fun _ => ?_⟩
  exact ⟨_, Function.update_self .., rfl, rfl⟩

end Runs

/-- The timer `id` of `sock` was armed by this call of the run, and is live when the run ends. -/
structure LiveSince (cobj : Socket → SocketType) (before : List Event) (begun : TimeVal) (t : ℕ)
    (after : List Event) (w : World) (id : ℕ) (sock : Socket) : Prop where
  armed : ∃ w₀ s, run (step cobj) start before = some w₀ ∧ w₀.selector.loop.next = id ∧
    w₀.selector.setTimeout sock begun t = .ok s
  reached : run (step cobj) start (before ++ .setTimeout sock begun t :: after) = some w
  live : HasTimer w.selector id sock

section Live

variable {cobj : Socket → SocketType} {before after : List Event} {begun : TimeVal} {t : ℕ}
  {w : World} {id : ℕ} {sock : Socket}

theorem kept_reached {es : List Event} (h : run (step cobj) start es = some w) : Kept w :=
  reachable_invariant (kept_step cobj) start_kept ⟨es, h⟩

theorem LiveSince.remembers (h : LiveSince cobj before begun t after w id sock) :
    w.selector.Kept ∧ Remembers w.selector sock begun t := by
  obtain ⟨w₀, s, hbefore, rfl, hok⟩ := h.armed
  have hreached := h.reached
  rw [run_append, hbefore, Option.bind_some] at hreached
  obtain ⟨w₁, hw₁, hafter⟩ := run_cons_inv hreached
  have hkept : Kept w₁ := kept_step cobj _ _ _ (kept_reached hbefore) hw₁
  have hs : w₁.selector = s := by
    simp only [step, hok, Option.some.injEq] at hw₁
    rw [← hw₁]
  have harmed : Remembered w₀.selector.loop.next sock begun t w₁.selector :=
    hs ▸ remembered_armed hok
  obtain ⟨hw, hr⟩ := remembered_run hkept harmed hafter
  exact ⟨hw.selector, hr.kept h.live⟩

/-- Every live timer has been armed by a call of the run. -/
theorem live_timer_armed {es : List Event} (hrun : run (step cobj) start es = some w)
    (hlive : HasTimer w.selector id sock) :
    ∃ before begun t after, es = before ++ .setTimeout sock begun t :: after ∧
      LiveSince cobj before begun t after w id sock := by
  induction es using List.reverseRecOn generalizing w with
  | nil =>
    cases hrun
    obtain ⟨_, hid⟩ := hlive
    cases hid
  | append_singleton es e ih =>
    have hfull := hrun
    rw [run_append] at hrun
    obtain ⟨w₀, hw₀, hstep⟩ := Option.bind_eq_some_iff.mp hrun
    obtain ⟨w₁, hw₁, hend⟩ := run_cons_inv hstep
    obtain rfl := Option.some.inj hend
    have hkept := (kept_reached hw₀).selector
    -- what was live before the step was armed before it
    have hold : HasTimer w₀.selector id sock → ∃ before begun t after,
        es ++ [e] = before ++ .setTimeout sock begun t :: after ∧
          LiveSince cobj before begun t after w₁ id sock := by
      intro h
      obtain ⟨before, begun, t, after, rfl, hl⟩ := ih hw₀ h
      rw [List.append_assoc, List.cons_append] at hfull ⊢
      exact ⟨before, begun, t, after ++ [e], rfl, hl.armed, hfull, hlive⟩
    obtain ⟨other, cond, setsFlags, _, rfl⟩ | ⟨other, now, timeout, error, _, _, rfl⟩ |
      ⟨other, now, timeout, s, rfl, hok, rfl⟩ | ⟨id', cond, chan, other, _, _, _, _, _, rfl⟩ |
      ⟨id', interval, other, _, _, _, rfl⟩ | ⟨d, running, _, _, rfl⟩ :=
        SocketSelector.step_cases hkept hw₁
    · exact hold ((set_timer hkept cobj other cond setsFlags id sock).mp hlive).1
    · exact hold hlive
    · rcases (setTimeout_timer hkept hok id sock).mp hlive with ⟨rfl, rfl⟩ | ⟨_, h⟩
      · exact ⟨es, now, timeout, [], rfl, ⟨w₀, s, hw₀, rfl, hok⟩, hfull, hlive⟩
      · exact hold h
    · exact hold hlive
    · exact hold hlive
    · apply hold
      rcases finish_cases ⟨w₀.selector, running, w₀.trace⟩ d with ⟨_, hf⟩ | ⟨_, hf⟩
      · rwa [hf] at hlive
      · obtain ⟨interval, hid⟩ := hlive
        rw [hf] at hid
        exact ⟨interval, (source_destroy.mp hid).2⟩

end Live

/-- In every state of every run, the time reported for a live timer is counted down from the
timeout it was armed with, and is never the zero that stands for no timeout. -/
theorem timeout_counts_down (cobj : Socket → SocketType) (before after : List Event)
    (begun : TimeVal) (t : ℕ) (w : World) (id : ℕ) (sock : Socket)
    (hlive : LiveSince cobj before begun t after w id sock) (hbegun : Reading begun) :
    CountsDown (getTimeout w.selector sock) begun t := by
  obtain ⟨hkept, hr⟩ := hlive.remembers
  exact countsDown_of_live hkept hlive.live hbegun hr

def waiting (t : ℕ) : World where
  selector := ⟨Function.update (Function.update (fun _ => none) 7 (some (newEntry 7 ioTimeout))) 7
    (some { newEntry 7 ioTimeout with timeoutBegin := ⟨0, 0⟩, timeout := t, timeConn := some 0 }),
    (noSources.disconnect none).attach (.timeout (t % 2 ^ 32) 7), ∅⟩
  running := []
  trace := [.timeoutSet 7 (some 0), .selected 7 ioTimeout none]

theorem waiting_live (t : ℕ) :
    LiveSince (fun _ => 3) [.set 7 ioTimeout true] ⟨0, 0⟩ t [] (waiting t) 0 7 where
  armed := ⟨_, _, rfl, rfl, rfl⟩
  reached := rfl
  live := ⟨t % 2 ^ 32, rfl⟩

theorem second_after_arming : getTimeout (waiting 1500).selector 7 ⟨1, 999⟩ = 500 := by
  have hbegun : Reading ⟨0, 0⟩ := ⟨by decide, by decide⟩
  have hnow : Reading ⟨1, 999⟩ := ⟨by decide, by decide⟩
  exact (timeout_counts_down _ _ _ _ _ _ _ _ (waiting_live 1500) hbegun).remains _ hnow (by decide)

/-- While the timer of the main loop has not expired, what is reported is the rest of its delay
exactly if the timeout fits in the `unsigned int` that the main loop was given. -/
theorem reported_agrees_iff (cobj : Socket → SocketType) (before after : List Event)
    (begun : TimeVal) (t : ℕ) (w : World) (id : ℕ) (sock : Socket)
    (hlive : LiveSince cobj before begun t after w id sock) (hbegun : Reading begun) (delay : ℕ)
    (hdelay : w.selector.loop.source id = some (.timeout delay sock)) (now : TimeVal)
    (hnow : Reading now) (hle : micros begun ≤ micros now)
    (hearly : millisBetween begun now < delay) :
    millisBetween begun now + getTimeout w.selector sock now = delay ↔ t < 2 ^ 32 := by
  obtain ⟨hkept, hr⟩ := hlive.remembers
  have hremains := (countsDown_of_live hkept hlive.live hbegun hr).remains now hnow hle
  obtain ⟨sel, hsel, _, _, hinterval⟩ := (hkept sock).live id _ hdelay rfl
  obtain ⟨sel', hsel', _, ht⟩ := hr
  obtain rfl := Option.some.inj (hsel.symm.trans hsel')
  rw [ht] at hinterval
  rw [hremains]
  generalize millisBetween begun now = e at *
  omega

theorem second_is_reported :
    millisBetween ⟨0, 0⟩ ⟨1, 999⟩ + getTimeout (waiting 1500).selector 7 ⟨1, 999⟩ = 1500 :=
  (reported_agrees_iff _ _ _ _ _ _ _ _ (waiting_live 1500) ⟨by decide, by decide⟩ 1500 rfl ⟨1, 999⟩
    ⟨by decide, by decide⟩ (by decide) (by decide)).mpr (by decide)

/-- Seven weeks and a second: the main loop waits for the second, and the report is of the whole. -/
theorem long_timeout_disagrees :
    LiveSince (fun _ => 3) [.set 7 ioTimeout true] ⟨0, 0⟩ (2 ^ 32 + 1000) []
        (waiting (2 ^ 32 + 1000)) 0 7 ∧
      (waiting (2 ^ 32 + 1000)).selector.loop.source 0 = some (.timeout 1000 7) ∧
      millisBetween ⟨0, 0⟩ ⟨0, 0⟩ < 1000 ∧
      getTimeout (waiting (2 ^ 32 + 1000)).selector 7 ⟨0, 0⟩ = 4294968296 ∧
      millisBetween ⟨0, 0⟩ ⟨0, 0⟩ +
        getTimeout (waiting (2 ^ 32 + 1000)).selector 7 ⟨0, 0⟩ ≠ 1000 := by
  have hget : getTimeout (waiting (2 ^ 32 + 1000)).selector 7 ⟨0, 0⟩ = 4294968296 := by decide
  refine ⟨waiting_live _, by decide, by decide, hget, ?_⟩
  rw [hget]
  decide

end SelectorClock
