import Mathlib

/-! Condition sets of the two event layers and the translation between them. Both enumerations
are bit flags; three error bits of the main loop stand for one of the network layer. -/
namespace IoConditions

/-- `net6::io_condition` -/
abbrev IoCondition := BitVec 4

def ioNone : IoCondition := 0
def ioIncoming : IoCondition := 1
def ioOutgoing : IoCondition := 2
def ioError : IoCondition := 4
def ioTimeout : IoCondition := 8

def ioFlags : IoCondition := ioIncoming ||| ioOutgoing ||| ioError

/-- `Glib::IOCondition` -/
abbrev GCondition := BitVec 6

def gNone : GCondition := 0
def gIn : GCondition := 1
def gOut : GCondition := 4
def gErr : GCondition := 8
def gHup : GCondition := 16
def gNval : GCondition := 32

def gcond (cond : IoCondition) : GCondition :=
  (if cond &&& ioIncoming = ioNone then gNone else gIn) |||
  (if cond &&& ioOutgoing = ioNone then gNone else gOut) |||
  (if cond &&& ioError = ioNone then gNone else gHup ||| gNval ||| gErr)

def ncond (cond : GCondition) : IoCondition :=
  (if cond &&& gIn = gNone then ioNone else ioIncoming) |||
  (if cond &&& gOut = gNone then ioNone else ioOutgoing) |||
  (if cond &&& (gHup ||| gNval ||| gErr) = gNone then ioNone else ioError)

def Within {w : ℕ} (a b : BitVec w) : Prop := a &&& b = a

instance {w : ℕ} (a b : BitVec w) : Decidable (Within a b) :=
  inferInstanceAs (Decidable (_ = _))

def WantsIo (cond : IoCondition) : Prop := cond &&& ioFlags ≠ ioNone

instance (cond : IoCondition) : Decidable (WantsIo cond) :=
  inferInstanceAs (Decidable (_ ≠ _))

def WantsTimeout (cond : IoCondition) : Prop := cond &&& ioTimeout ≠ ioNone

instance (cond : IoCondition) : Decidable (WantsTimeout cond) :=
  inferInstanceAs (Decidable (_ ≠ _))

theorem not_wantsIo_none : ¬ WantsIo ioNone := by decide

theorem ncond_within : ∀ (sel : IoCondition) (g : GCondition),
    g ≠ gNone → Within g (gcond sel) → ncond g ≠ ioNone ∧ Within (ncond g) sel := by
  decide +kernel

theorem wantsTimeout_iff : ∀ cond : IoCondition,
    WantsTimeout cond ↔ cond &&& ioTimeout = ioTimeout := by
  decide

theorem gcond_congr : ∀ (a b : IoCondition), a &&& ioFlags = b &&& ioFlags → gcond a = gcond b := by
  decide +kernel

theorem wantsIo_congr {a b : IoCondition} (h : a &&& ioFlags = b &&& ioFlags) :
    WantsIo a ↔ WantsIo b := by
  rw [WantsIo, WantsIo, h]

theorem wantsTimeout_congr {a b : IoCondition} (h : a &&& ioTimeout = b &&& ioTimeout) :
    WantsTimeout a ↔ WantsTimeout b := by
  rw [WantsTimeout, WantsTimeout, h]

end IoConditions
