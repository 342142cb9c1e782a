import Sobby.SelectorDelivery

/-! What a call of `set` that throws leaves behind. The entry of a new socket is stored before
its descriptor is made non-blocking, the one step that can fail. -/
namespace SelectorErrors

open StepMachine
open IoConditions
open SourceTable
open SocketSelector
open SelectorDelivery

/-- Asked of a call of `set` that throws: nothing is selected, added or removed, and the same
call, once the descriptor works, does what it would have done without the failure. -/
structure AtomicOnError (cobj : Socket → SocketType) (s : GSelector) (sock : Socket)
    (cond : IoCondition) (setsFlags : Bool) : Prop where
  selection : ∀ error, (s.set cobj sock cond setsFlags).2 = some error →
    ∀ other, (s.set cobj sock cond setsFlags).1.get other = s.get other
  sources : ∀ error, (s.set cobj sock cond setsFlags).2 = some error →
    (s.set cobj sock cond setsFlags).1.loop = s.loop
  state : ∀ error, (s.set cobj sock cond setsFlags).2 = some error →
    (s.set cobj sock cond setsFlags).1 = s
  retried : ∀ error, (s.set cobj sock cond setsFlags).2 = some error →
    (s.set cobj sock cond setsFlags).1.set cobj sock cond true = s.set cobj sock cond true

def Throws (s : GSelector) (sock : Socket) (cond : IoCondition) (setsFlags : Bool) : Prop :=
  s.map sock = none ∧ WantsIo cond ∧ setsFlags = false

theorem set_error_iff (s : GSelector) (cobj : Socket → SocketType) (sock : Socket)
    (cond : IoCondition) (setsFlags : Bool) :
    (∃ error, (s.set cobj sock cond setsFlags).2 = some error) ↔
      Throws s sock cond setsFlags := by
  constructor
  · rintro ⟨error, he⟩
    obtain ⟨_, _, h⟩ | ⟨hsel, _, h⟩ | ⟨sel, _, _, h⟩ | ⟨sel, _, _, h⟩ :=
      set_cases s cobj sock cond setsFlags
    · rw [h] at he
      cases he
    · rw [h] at he
      obtain ⟨_, _, hadd⟩ | ⟨hw, hf, _⟩ | ⟨_, hadd⟩ := addSocket_cases s cobj sock cond setsFlags
      · rw [hadd] at he
        cases he
      · exact ⟨hsel, hw, hf⟩
      · rw [hadd] at he
        cases he
    · rw [h] at he
      cases he
    · rw [h] at he
      cases he
  · rintro ⟨hsel, hw, rfl⟩
    have hc : cond ≠ ioNone := by
      rintro rfl
      exact not_wantsIo_none hw
    exact ⟨.system, by simp [GSelector.set, hc, hsel, GSelector.addSocket, hw]⟩

/-- A call that throws has selected the socket already. -/
theorem set_error_selects {s : GSelector} {cobj : Socket → SocketType} {sock : Socket}
    {cond : IoCondition} {setsFlags : Bool} (h : Throws s sock cond setsFlags) :
    (s.set cobj sock cond setsFlags).1.get sock ≠ s.get sock := by
  obtain ⟨hsel, hw, _⟩ := h
  rw [set_get, if_pos rfl, GSelector.get, hsel]
  rintro rfl
  exact not_wantsIo_none hw

/-- `set` is atomic in exactly the states and for exactly the arguments it does not throw on:
whenever it throws, the selector has changed. -/
theorem set_atomic_iff_returns (cobj : Socket → SocketType) (s : GSelector) (sock : Socket)
    (cond : IoCondition) (setsFlags : Bool) :
    AtomicOnError cobj s sock cond setsFlags ↔ ¬ Throws s sock cond setsFlags := by
  constructor
  · intro ha ht
    obtain ⟨error, he⟩ := (set_error_iff s cobj sock cond setsFlags).mpr ht
    exact set_error_selects ht (ha.selection error he sock)
  · intro ht
    have hnone : ∀ error, (s.set cobj sock cond setsFlags).2 ≠ some error := by
      intro error he
      exact ht ((set_error_iff s cobj sock cond setsFlags).mp ⟨error, he⟩)
    constructor
    · exact fun error he => absurd he (hnone error)
    · exact fun error he => absurd he (hnone error)
    · exact fun error he => absurd he (hnone error)
    · exact fun error he => absurd he (hnone error)

/-- The descriptor of a new socket refuses the flag once: the selection is stored all the same,
and the same call repeated on the working descriptor installs no watch, as it would have done. -/
theorem failed_set_is_half_done :
    (∃ w, run (step fun _ => 3) start [.set 7 ioIncoming false] = some w ∧
      w.trace = [.selected 7 ioIncoming (some .system)] ∧ w.selector.get 7 = ioIncoming) ∧
    (∃ w, run (step fun _ => 3) start [.set 7 ioIncoming false, .set 7 ioIncoming true] = some w ∧
      (∀ id, w.selector.loop.source id = none) ∧ w.selector.nonBlocking = ∅) ∧
    (∃ w, run (step fun _ => 3) start [.set 7 ioIncoming true] = some w ∧
      w.selector.loop.source 0 = some (.io 3 (gcond ioIncoming) 7)) ∧
    ¬ AtomicOnError (fun _ => 3) start.selector 7 ioIncoming false := by
  refine ⟨⟨_, rfl, rfl, rfl⟩, ⟨_, rfl, fun _ => rfl, rfl⟩, ⟨_, rfl, rfl⟩, fun h => ?_⟩
  have hget := h.selection .system rfl 7
  exact absurd hget (by decide)

end SelectorErrors
