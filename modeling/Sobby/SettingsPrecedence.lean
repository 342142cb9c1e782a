import Sobby.ServerSettings

/-! Command line over configuration file over built-in default, and where the server departs
from that order: an option given as 0 or as the empty text is taken for one not given. What the
option parser does to the variables of absent options makes no difference. -/
namespace SettingsPrecedence

open ConfigTree
open ServerSettings
open Strings (Text)

def precedence {α : Type} (given config : Option α) (default : α) : α :=
  (given.or config).getD default

def configNumber (net6 : Net6) (config : Option ParentEntry) (x : NumberSetting) : Option CInt :=
  (configText config x.key).bind fun data => (net6.unsignedFrom data).toOption

def TextFollows (config : Option ParentEntry) (o : Options) (s : Settings) (x : TextSetting) :
    Prop :=
  s.text x = precedence (o.text x) (configText config x.key) x.default

/-- The number in the file is the one `get_value<unsigned int>` reads there, and the one in force is
an `int`; the two are compared as integers. So a negative number in the file, or one of `2^31` or
more, is not followed. -/
def NumberFollows (net6 : Net6) (config : Option ParentEntry) (o : Options) (s : Settings)
    (x : NumberSetting) : Prop :=
  (s.number x).toInt =
    precedence ((o.number x).map BitVec.toInt)
      ((configNumber net6 config x).map fun n => (n.toNat : ℤ)) x.default.toNat

def EmptyOverridden (config : Option ParentEntry) (o : Options) (x : TextSetting) : Prop :=
  o.text x = some [] ∧ fallbackText config x ≠ []

def ZeroOverridden (net6 : Net6) (config : Option ParentEntry) (o : Options)
    (x : NumberSetting) : Prop :=
  o.number x = some 0 ∧ fallbackNumber net6 config x ≠ .ok 0

def FitsInt (net6 : Net6) (config : Option ParentEntry) (o : Options) (x : NumberSetting) :
    Prop :=
  o.number x = none → ∀ n, configNumber net6 config x = some n → n.toNat < 2 ^ 31

theorem settled_given {α : Type} [DecidableEq α] {zero v : α} (h : v ≠ zero) (fallback : α) :
    settled zero (some v) fallback = v := by
  simp [settled, orDefault, h]

theorem settled_zero {α : Type} [DecidableEq α] (zero fallback : α) :
    settled zero (some zero) fallback = fallback := by
  simp [settled, orDefault]

theorem settled_absent {α : Type} [DecidableEq α] (zero fallback : α) :
    settled zero none fallback = fallback := by
  simp [settled, orDefault]

theorem textFollows_iff {config : Option ParentEntry} {o : Options} {s : Settings}
    {x : TextSetting} (h : s.text x = settled [] (o.text x) (fallbackText config x)) :
    TextFollows config o s x ↔ ¬ EmptyOverridden config o x := by
  unfold TextFollows EmptyOverridden
  rw [h]
  cases ho : o.text x with
  | none => simp [settled_absent, precedence, fallbackText]
  | some v =>
    by_cases hv : v = []
    · subst hv
      simp [settled_zero, precedence]
    · simp [settled_given hv, precedence, hv]

theorem toInt_eq_toNat_iff (n : CInt) : n.toInt = (n.toNat : ℤ) ↔ n.toNat < 2 ^ 31 := by
  have hn := n.isLt
  rw [BitVec.toInt_eq_toNat_cond]
  split
  · omega
  · omega

theorem fallbackNumber_cases {net6 : Net6} {config : Option ParentEntry} {x : NumberSetting}
    {fallback : CInt} (h : fallbackNumber net6 config x = .ok fallback) :
    configNumber net6 config x = some fallback ∨
      (configNumber net6 config x = none ∧ fallback = x.default) := by
  unfold fallbackNumber at h
  unfold configNumber
  cases hc : configText config x.key with
  | none =>
    rw [hc] at h
    exact Or.inr ⟨rfl, (Except.ok.inj h).symm⟩
  | some data =>
    rw [hc] at h
    simp only at h
    simp [h, Except.toOption]

theorem default_toInt (x : NumberSetting) : x.default.toInt = (x.default.toNat : ℤ) := by
  cases x <;> decide

theorem numberFollows_iff {net6 : Net6} {config : Option ParentEntry} {o : Options} {s : Settings}
    {x : NumberSetting} {fallback : CInt} (hf : fallbackNumber net6 config x = .ok fallback)
    (h : s.number x = settled 0 (o.number x) fallback) :
    NumberFollows net6 config o s x ↔
      ¬ ZeroOverridden net6 config o x ∧ FitsInt net6 config o x := by
  unfold NumberFollows ZeroOverridden FitsInt
  rw [h, hf]
  cases ho : o.number x with
  | none =>
    rcases fallbackNumber_cases hf with hc | ⟨hc, rfl⟩
    · simp [settled_absent, precedence, hc, toInt_eq_toNat_iff]
    · simp [settled_absent, precedence, hc, default_toInt]
  | some v =>
    by_cases hv : v = 0
    · subst hv
      have hzero : fallback.toInt = 0 ↔ fallback = 0 := by
        rw [← BitVec.toInt_inj]
        rfl
      simp [settled_zero, precedence, hzero]
    · have hne : ¬ v = 0#32 := hv
      rw [settled_given hv]
      simp [precedence, hne]

/-- For each setting the sources decide in their order if and only if no zero-like option is
given over another value, and a number that comes from the configuration file is below 2^31. -/
theorem sources_in_order_iff {net6 : Net6} (hk : KeepsText net6) (p : Parser)
    (config : Option ParentEntry) (o : Options) (s : Settings)
    (h : effective net6 p config o = .ok s) :
    (∀ x, TextFollows config o s x ↔ ¬ EmptyOverridden config o x) ∧
    (∀ x, NumberFollows net6 config o s x ↔
      ¬ ZeroOverridden net6 config o x ∧ FitsInt net6 config o x) := by
  obtain ⟨htext, hnumber⟩ := effective_ok hk h
  refine ⟨fun x => textFollows_iff (htext x), fun x => ?_⟩
  obtain ⟨fallback, hf, hx⟩ := hnumber x
  exact numberFollows_iff hf hx

def office : ParentEntry :=
  [("settings".toList, .parent
    [("autosave_interval".toList, .value "60".toList), ("password".toList, .value "secret".toList)])]

def officeNamed : Options := { noOptions with name := some "Office".toList }

def officeOpened : Options :=
  { noOptions with autosaveInterval := some 0, password := some [] }

def officeSettings (name : Text) : Settings :=
  ⟨6522, name, [], "autosave.obby".toList, 60, [], "secret".toList, [], []⟩

theorem office_named_settings :
    effective plainContexts keepingParser (some office) officeNamed =
      .ok (officeSettings "Office".toList) := rfl

theorem office_sources_in_order :
    (∀ x, TextFollows (some office) officeNamed (officeSettings "Office".toList) x) ∧
    ∀ x, NumberFollows plainContexts (some office) officeNamed
      (officeSettings "Office".toList) x := by
  obtain ⟨htext, hnumber⟩ := sources_in_order_iff plainContexts_keepsText keepingParser
    (some office) officeNamed _ office_named_settings
  refine ⟨fun x => (htext x).mpr ?_, fun x => (hnumber x).mpr ⟨?_, ?_⟩⟩
  · rintro ⟨hgiven, _⟩
    cases x <;> cases hgiven
  · rintro ⟨hgiven, _⟩
    cases x <;> cases hgiven
  · intro _ n hn
    cases x with
    | port => cases hn
    | autosaveInterval =>
      have hsixty : configNumber plainContexts (some office) .autosaveInterval = some 60 := rfl
      rw [hsixty] at hn
      cases hn
      decide

/-- `--autosave-interval=0 --password=` changes nothing: the interval stays at a minute, though
0 is documented to disable autosave, and the password of the configuration stays in force. -/
theorem zero_options_are_ignored :
    effective plainContexts keepingParser (some office) officeOpened =
      .ok (officeSettings "Standalone obby server".toList) ∧
    ¬ NumberFollows plainContexts (some office) officeOpened
      (officeSettings "Standalone obby server".toList) .autosaveInterval ∧
    ¬ TextFollows (some office) officeOpened
      (officeSettings "Standalone obby server".toList) .password := by
  refine ⟨rfl, fun h => ?_, fun h => ?_⟩
  · have hzero : (60 : ℤ) = 0 := h
    omega
  · have hempty : "secret".toList = [] := h
    exact absurd hempty (by decide)

/-- The second pass undoes what either kind of parser does to the variables of absent options:
errors and effective settings are the same. -/
theorem parsers_settle_alike {net6 : Net6} (hk : KeepsText net6) (p q : Parser)
    (config : Option ParentEntry) (o : Options) :
    effective net6 p config o = effective net6 q config o := by
  rw [effective_eq hk p, effective_eq hk q]

def resettingParser : Parser := ⟨fun _ => true, fun _ => true⟩

theorem office_settled_after_reset :
    (officeNamed.parse resettingParser (officeSettings "Office".toList)).password = [] ∧
    effective plainContexts resettingParser (some office) officeNamed =
      .ok (officeSettings "Office".toList) := by
  refine ⟨rfl, ?_⟩
  rw [parsers_settle_alike plainContexts_keepsText resettingParser keepingParser]
  exact office_named_settings

end SettingsPrecedence
