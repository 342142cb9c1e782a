import Sobby.ConfigTree

/-! The settings of the server: defaults from the configuration, the command line over them,
the defaults once more for what looks as if it was not given, and the configuration file that
is written from the result. -/
namespace ServerSettings

open ConfigTree
open Strings (Text)

/-- `int` and `unsigned int`, which convert into each other bit by bit. -/
abbrev CInt := BitVec 32

/-- The default serialisation contexts of the network library. -/
structure Net6 where
  intTo : CInt → Text
  unsignedFrom : Text → Except Text CInt
  stringTo : Text → Text
  stringFrom : Text → Text

def ustringTo (text : Text) : Text := text

def ustringFrom (text : Text) : Text := text

def getUnsigned (net6 : Net6) (entry : ParentEntry) (name : Text) (default : CInt) :
    Except Text CInt :=
  match getValueChild entry name with
  | none => .ok default
  | some data => net6.unsignedFrom data

def getString (net6 : Net6) (entry : ParentEntry) (name default : Text) : Text :=
  match getValueChild entry name with
  | none => default
  | some data => net6.stringFrom data

def getUstring (entry : ParentEntry) (name default : Text) : Text :=
  match getValueChild entry name with
  | none => default
  | some data => ustringFrom data

structure Settings where
  port : CInt
  name : Text
  autosaveFolder : Text
  autosaveFile : Text
  autosaveInterval : CInt
  postSaveHook : Text
  password : Text
  commandDir : Text
  session : Text
  deriving DecidableEq, Repr

/-- Default options, from the configuration if there is one. A number that cannot be read
throws. -/
def defaultSettings (net6 : Net6) : Option ParentEntry → Except Text Settings
  | some root => do
    let entry := subParent root "settings".toList
    let port ← getUnsigned net6 entry "port".toList 6522
    let autosaveInterval ← getUnsigned net6 entry "autosave_interval".toList 0
    return {
      port := port
      name := getUstring entry "name".toList "Standalone obby server".toList
      autosaveFolder := getString net6 entry "autosave_directory".toList []
      autosaveFile := getString net6 entry "autosave_file".toList "autosave.obby".toList
      autosaveInterval := autosaveInterval
      postSaveHook := getString net6 entry "post_save_hook".toList []
      password := getUstring entry "password".toList []
      commandDir := getUstring entry "command_directory".toList []
      session := getString net6 entry "session".toList [] }
  | none =>
    .ok {
      port := 6522
      name := "Standalone obby server".toList
      autosaveFolder := []
      autosaveFile := "autosave.obby".toList
      autosaveInterval := 0
      postSaveHook := []
      password := []
      commandDir := []
      session := [] }

inductive TextSetting where
  | name
  | autosaveFolder
  | autosaveFile
  | postSaveHook
  | password
  | commandDir
  | session
  deriving DecidableEq, Repr

inductive NumberSetting where
  | port
  | autosaveInterval
  deriving DecidableEq, Repr

/-- The command line; the session is its first argument that is no option. -/
structure Options where
  port : Option CInt
  name : Option Text
  autosaveFolder : Option Text
  autosaveFile : Option Text
  autosaveInterval : Option CInt
  postSaveHook : Option Text
  password : Option Text
  commandDir : Option Text
  session : Option Text
  deriving DecidableEq, Repr

def noOptions : Options := ⟨none, none, none, none, none, none, none, none, none⟩

/-- Whether the option parser resets the variable of an option that is not given. -/
structure Parser where
  resetsText : TextSetting → Bool
  resetsNumber : NumberSetting → Bool

def parseOption {α : Type} (resets : Bool) (zero : α) (given : Option α) (old : α) : α :=
  match given with
  | some v => v
  | none => if resets then zero else old

def Options.parse (o : Options) (p : Parser) (s : Settings) : Settings where
  port := parseOption (p.resetsNumber .port) 0 o.port s.port
  name := parseOption (p.resetsText .name) [] o.name s.name
  autosaveFolder := parseOption (p.resetsText .autosaveFolder) [] o.autosaveFolder s.autosaveFolder
  autosaveFile := parseOption (p.resetsText .autosaveFile) [] o.autosaveFile s.autosaveFile
  autosaveInterval :=
    parseOption (p.resetsNumber .autosaveInterval) 0 o.autosaveInterval s.autosaveInterval
  postSaveHook := parseOption (p.resetsText .postSaveHook) [] o.postSaveHook s.postSaveHook
  password := parseOption (p.resetsText .password) [] o.password s.password
  commandDir := parseOption (p.resetsText .commandDir) [] o.commandDir s.commandDir
  session := o.session.getD s.session

/-- A zero or empty variable is taken for one that was not given. -/
def orDefault {α : Type} [DecidableEq α] (zero v default : α) : α :=
  if v = zero then default else v

def unsignedOrDefault (net6 : Net6) (entry : ParentEntry) (v : CInt) (name : Text)
    (default : CInt) : Except Text CInt :=
  if v = 0 then getUnsigned net6 entry name default else .ok v

/-- The second pass, for everything that is 0 or empty after parsing. -/
def secondPass (net6 : Net6) (s : Settings) : Option ParentEntry → Except Text Settings
  | some root => do
    let entry := subParent root "settings".toList
    let port ← unsignedOrDefault net6 entry s.port "port".toList 6522
    let autosaveInterval ←
      unsignedOrDefault net6 entry s.autosaveInterval "autosave_interval".toList 0
    return {
      port := port
      name := orDefault [] s.name
        (getString net6 entry "name".toList "Standalone obby server".toList)
      autosaveFolder := orDefault [] s.autosaveFolder
        (getString net6 entry "autosave_directory".toList [])
      autosaveFile := orDefault [] s.autosaveFile
        (getString net6 entry "autosave_file".toList "autosave.obby".toList)
      autosaveInterval := autosaveInterval
      postSaveHook := orDefault [] s.postSaveHook
        (getString net6 entry "post_save_hook".toList [])
      password := orDefault [] s.password (getUstring entry "password".toList [])
      commandDir := orDefault [] s.commandDir (getUstring entry "command_directory".toList [])
      session := orDefault [] s.session (getString net6 entry "session".toList []) }
  | none =>
    .ok {
      port := orDefault 0 s.port 6522
      name := orDefault [] s.name "Standalone obby server".toList
      autosaveFolder := orDefault [] s.autosaveFolder []
      autosaveFile := orDefault [] s.autosaveFile "autosave.obby".toList
      autosaveInterval := orDefault 0 s.autosaveInterval 0
      postSaveHook := orDefault [] s.postSaveHook []
      password := orDefault [] s.password []
      commandDir := orDefault [] s.commandDir []
      session := orDefault [] s.session [] }

/-- The settings after option processing, or the error that ends it. -/
def effective (net6 : Net6) (p : Parser) (config : Option ParentEntry) (o : Options) :
    Except Text Settings := do
  let s ← defaultSettings net6 config
  secondPass net6 (o.parse p s) config

def writtenConfig (net6 : Net6) (s : Settings) : ParentEntry :=
  onParent [] "settings".toList fun entry =>
    let entry := setValue entry "port".toList (net6.intTo s.port)
    let entry := setValue entry "name".toList (ustringTo s.name)
    let entry := setValue entry "autosave_file".toList (net6.stringTo s.autosaveFile)
    let entry := setValue entry "autosave_directory".toList (net6.stringTo s.autosaveFolder)
    let entry := setValue entry "autosave_interval".toList (net6.intTo s.autosaveInterval)
    let entry := setValue entry "post_save_hook".toList (net6.stringTo s.postSaveHook)
    let entry := setValue entry "password".toList (ustringTo s.password)
    let entry := setValue entry "command_directory".toList (net6.stringTo s.commandDir)
    setValue entry "session".toList (net6.stringTo s.session)

def TextSetting.key : TextSetting → Text
  | .name => "name".toList
  | .autosaveFolder => "autosave_directory".toList
  | .autosaveFile => "autosave_file".toList
  | .postSaveHook => "post_save_hook".toList
  | .password => "password".toList
  | .commandDir => "command_directory".toList
  | .session => "session".toList

def TextSetting.default : TextSetting → Text
  | .name => "Standalone obby server".toList
  | .autosaveFile => "autosave.obby".toList
  | _ => []

def NumberSetting.key : NumberSetting → Text
  | .port => "port".toList
  | .autosaveInterval => "autosave_interval".toList

def NumberSetting.default : NumberSetting → CInt
  | .port => 6522
  | .autosaveInterval => 0

def Settings.text (s : Settings) : TextSetting → Text
  | .name => s.name
  | .autosaveFolder => s.autosaveFolder
  | .autosaveFile => s.autosaveFile
  | .postSaveHook => s.postSaveHook
  | .password => s.password
  | .commandDir => s.commandDir
  | .session => s.session

def Settings.number (s : Settings) : NumberSetting → CInt
  | .port => s.port
  | .autosaveInterval => s.autosaveInterval

def Options.text (o : Options) : TextSetting → Option Text
  | .name => o.name
  | .autosaveFolder => o.autosaveFolder
  | .autosaveFile => o.autosaveFile
  | .postSaveHook => o.postSaveHook
  | .password => o.password
  | .commandDir => o.commandDir
  | .session => o.session

def Options.number (o : Options) : NumberSetting → Option CInt
  | .port => o.port
  | .autosaveInterval => o.autosaveInterval

theorem settings_ext {s t : Settings} (htext : ∀ x, s.text x = t.text x)
    (hnumber : ∀ x, s.number x = t.number x) : s = t := by
  cases s
  cases t
  simp only [Settings.mk.injEq]
  exact ⟨hnumber .port, htext .name, htext .autosaveFolder, htext .autosaveFile,
    hnumber .autosaveInterval, htext .postSaveHook, htext .password, htext .commandDir,
    htext .session⟩

def configText (config : Option ParentEntry) (name : Text) : Option Text :=
  config.bind fun root => getValueChild (subParent root "settings".toList) name

def fallbackText (config : Option ParentEntry) (x : TextSetting) : Text :=
  (configText config x.key).getD x.default

def fallbackNumber (net6 : Net6) (config : Option ParentEntry) (x : NumberSetting) :
    Except Text CInt :=
  match configText config x.key with
  | none => .ok x.default
  | some data => net6.unsignedFrom data

/-- The contexts for strings return the stored text. -/
structure KeepsText (net6 : Net6) : Prop where
  stored : ∀ text, net6.stringTo text = text
  returned : ∀ text, net6.stringFrom text = text

theorem getUstring_eq (entry : ParentEntry) (name default : Text) :
    getUstring entry name default = (getValueChild entry name).getD default := by
  unfold getUstring
  cases getValueChild entry name <;> rfl

theorem getString_eq {net6 : Net6} (hk : KeepsText net6) (entry : ParentEntry)
    (name default : Text) :
    getString net6 entry name default = (getValueChild entry name).getD default := by
  unfold getString
  cases getValueChild entry name with
  | none => rfl
  | some data => exact hk.returned data

/-- What two passes and a parse in between come to. -/
def settled {α : Type} [DecidableEq α] (zero : α) (given : Option α) (fallback : α) : α :=
  orDefault zero (given.getD zero) fallback

theorem orDefault_parse {α : Type} [DecidableEq α] (resets : Bool) (zero : α) (given : Option α)
    (fallback : α) :
    orDefault zero (parseOption resets zero given fallback) fallback =
      settled zero given fallback := by
  cases given with
  | some v => rfl
  | none =>
    cases resets with
    | true => rfl
    | false => simp [parseOption, settled, orDefault]

theorem orDefault_session (given : Option Text) (fallback : Text) :
    orDefault [] (given.getD fallback) fallback = settled [] given fallback := by
  cases given with
  | some v => rfl
  | none => simp [settled, orDefault]

theorem unsignedOrDefault_ok {net6 : Net6} {entry : ParentEntry} {name : Text}
    {default fallback : CInt} (h : getUnsigned net6 entry name default = .ok fallback) (v : CInt) :
    unsignedOrDefault net6 entry v name default = .ok (orDefault 0 v fallback) := by
  unfold unsignedOrDefault orDefault
  rw [h]
  split <;> rfl

/-- The two passes in one: the error of a number that cannot be read, or each setting settled
between the command line and its fallback. -/
theorem effective_eq {net6 : Net6} (hk : KeepsText net6) (p : Parser)
    (config : Option ParentEntry) (o : Options) :
    effective net6 p config o =
      (fallbackNumber net6 config .port).bind fun port =>
      (fallbackNumber net6 config .autosaveInterval).bind fun autosaveInterval =>
      .ok {
        port := settled 0 o.port port
        name := settled [] o.name (fallbackText config .name)
        autosaveFolder := settled [] o.autosaveFolder (fallbackText config .autosaveFolder)
        autosaveFile := settled [] o.autosaveFile (fallbackText config .autosaveFile)
        autosaveInterval := settled 0 o.autosaveInterval autosaveInterval
        postSaveHook := settled [] o.postSaveHook (fallbackText config .postSaveHook)
        password := settled [] o.password (fallbackText config .password)
        commandDir := settled [] o.commandDir (fallbackText config .commandDir)
        session := settled [] o.session (fallbackText config .session) } := by
  cases config with
  | none =>
    simp only [effective, defaultSettings, secondPass, Options.parse, bind, Except.bind,
      orDefault_parse, orDefault_session]
    rfl
  | some root =>
    cases hp : fallbackNumber net6 (some root) .port with
    | error what =>
      have hport : getUnsigned net6 (subParent root "settings".toList) "port".toList 6522 =
          .error what := hp
      simp only [effective, defaultSettings, hport, bind, Except.bind]
    | ok port =>
      have hport : getUnsigned net6 (subParent root "settings".toList) "port".toList 6522 =
          .ok port := hp
      cases hi : fallbackNumber net6 (some root) .autosaveInterval with
      | error what =>
        have hinterval : getUnsigned net6 (subParent root "settings".toList)
            "autosave_interval".toList 0 = .error what := hi
        simp only [effective, defaultSettings, hport, hinterval, bind, Except.bind]
      | ok interval =>
        have hinterval : getUnsigned net6 (subParent root "settings".toList)
            "autosave_interval".toList 0 = .ok interval := hi
        simp only [effective, defaultSettings, secondPass, Options.parse, hport, hinterval,
          getString_eq hk, getUstring_eq, bind, Except.bind, pure, Except.pure,
          unsignedOrDefault_ok hport, unsignedOrDefault_ok hinterval, orDefault_parse,
          orDefault_session]
        rfl

theorem effective_ok {net6 : Net6} (hk : KeepsText net6) {p : Parser}
    {config : Option ParentEntry} {o : Options} {s : Settings}
    (h : effective net6 p config o = .ok s) :
    (∀ x, s.text x = settled [] (o.text x) (fallbackText config x)) ∧
    ∀ x, ∃ fallback, fallbackNumber net6 config x = .ok fallback ∧
      s.number x = settled 0 (o.number x) fallback := by
  rw [effective_eq hk] at h
  cases hp : fallbackNumber net6 config .port with
  | error what => simp [hp, Except.bind] at h
  | ok port =>
    cases hi : fallbackNumber net6 config .autosaveInterval with
    | error what => simp [hp, hi, Except.bind] at h
    | ok interval =>
      simp only [hp, hi, Except.bind, Except.ok.injEq] at h
      subst h
      constructor
      · intro x
        cases x <;> rfl
      · intro x
        cases x with
        | port => exact ⟨port, hp, rfl⟩
        | autosaveInterval => exact ⟨interval, hi, rfl⟩

theorem effective_exists {net6 : Net6} (hk : KeepsText net6) (p : Parser)
    {config : Option ParentEntry} (o : Options)
    (h : ∀ x, ∃ fallback, fallbackNumber net6 config x = .ok fallback) :
    ∃ s, effective net6 p config o = .ok s := by
  obtain ⟨port, hp⟩ := h .port
  obtain ⟨interval, hi⟩ := h .autosaveInterval
  rw [effective_eq hk, hp, hi]
  exact ⟨_, rfl⟩

/-- Numbers are read back as they were stored, and their texts are not blank. -/
structure InvertsNumbers (net6 : Net6) : Prop where
  inverse : ∀ n, net6.unsignedFrom (net6.intTo n) = .ok n
  visible : ∀ n, isWhiteSpace (net6.intTo n) = false

def decimalDigits (digits : Text) (negative : Bool) : Except Text CInt :=
  let n := Nat.ofDigitChars 10 digits 0
  if digits ≠ [] ∧ digits.all Char.isDigit = true ∧ n < 2 ^ 32 then
    .ok (BitVec.ofInt 32 (if negative then -n else n))
  else .error "conversion error".toList

def plainContexts : Net6 where
  intTo n :=
    if n.toInt < 0 then '-' :: Nat.toDigits 10 n.toInt.natAbs else Nat.toDigits 10 n.toInt.natAbs
  unsignedFrom
    | '-' :: digits => decimalDigits digits true
    | digits => decimalDigits digits false
  stringTo text := text
  stringFrom text := text

def keepingParser : Parser := ⟨fun _ => false, fun _ => false⟩

theorem plainContexts_keepsText : KeepsText plainContexts := ⟨fun _ => rfl, fun _ => rfl⟩

theorem decimalDigits_toDigits {n : ℕ} (hn : n < 2 ^ 32) (negative : Bool) :
    decimalDigits (Nat.toDigits 10 n) negative =
      .ok (BitVec.ofInt 32 (if negative then -n else n)) := by
  have hall : (Nat.toDigits 10 n).all Char.isDigit = true := by
    rw [List.all_eq_true]
    intro c hc
    exact Nat.isDigit_of_mem_toDigits (by decide) (by decide) hc
  simp only [decimalDigits, Nat.ofDigitChars_ten_toDigits]
  exact if_pos ⟨Nat.toDigits_ne_nil, hall, hn⟩

theorem plainContexts_inverse (n : CInt) :
    plainContexts.unsignedFrom (plainContexts.intTo n) = .ok n := by
  have hbound : n.toInt.natAbs < 2 ^ 32 := by
    have hlo := n.le_toInt
    have hhi := n.toInt_lt
    omega
  simp only [plainContexts]
  by_cases hneg : n.toInt < 0
  · rw [if_pos hneg]
    simp only [decimalDigits_toDigits hbound, if_true]
    rw [show -(n.toInt.natAbs : ℤ) = n.toInt by omega, BitVec.ofInt_toInt]
  · rw [if_neg hneg]
    split
    · next digits hd =>
      have hminus : ('-').isDigit = true :=
        Nat.isDigit_of_mem_toDigits (b := 10) (by decide) (by decide) (hd ▸ List.mem_cons_self)
      exact absurd hminus (by decide)
    · rw [decimalDigits_toDigits hbound]
      simp only [Bool.false_eq_true, if_false]
      rw [show (n.toInt.natAbs : ℤ) = n.toInt by omega, BitVec.ofInt_toInt]

theorem plainContexts_invertsNumbers : InvertsNumbers plainContexts where
  inverse := plainContexts_inverse
  visible := by
    intro n
    have hdigits : isWhiteSpace (Nat.toDigits 10 n.toInt.natAbs) = false := by
      cases hd : Nat.toDigits 10 n.toInt.natAbs with
      | nil => exact absurd hd Nat.toDigits_ne_nil
      | cons c digits =>
        have hc : c.isDigit = true :=
          Nat.isDigit_of_mem_toDigits (by decide) (by decide) (hd ▸ List.mem_cons_self)
        have hblank : ∀ b : Char, b.isDigit = false → c ≠ b := by
          rintro b hb rfl
          rw [hc] at hb
          cases hb
        simp [isWhiteSpace, hblank ' ' rfl, hblank '\t' rfl, hblank '\n' rfl, hblank '\r' rfl]
    simp only [plainContexts]
    split
    · rfl
    · exact hdigits

end ServerSettings
