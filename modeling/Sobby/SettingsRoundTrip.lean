import Sobby.ServerSettings

/-! Settings written to a configuration file and read back by a server that is given nothing
else. A blank text is no value for the loader, so it comes back as the built-in default. -/
namespace SettingsRoundTrip

open ConfigTree
open ServerSettings
open Strings (Text)

def writtenEntries (net6 : Net6) (s : Settings) : ParentEntry :=
  [("port".toList, .value (net6.intTo s.port)),
    ("name".toList, .value s.name),
    ("autosave_file".toList, .value (net6.stringTo s.autosaveFile)),
    ("autosave_directory".toList, .value (net6.stringTo s.autosaveFolder)),
    ("autosave_interval".toList, .value (net6.intTo s.autosaveInterval)),
    ("post_save_hook".toList, .value (net6.stringTo s.postSaveHook)),
    ("password".toList, .value s.password),
    ("command_directory".toList, .value (net6.stringTo s.commandDir)),
    ("session".toList, .value (net6.stringTo s.session))]

theorem writtenConfig_eq (net6 : Net6) (s : Settings) :
    writtenConfig net6 s = [("settings".toList, .parent (writtenEntries net6 s))] := rfl

theorem writtenEntries_nodup (net6 : Net6) (s : Settings) :
    ((writtenEntries net6 s).map Prod.fst).Nodup := by
  simp only [writtenEntries, List.map_cons, List.map_nil]
  decide

theorem getChild_writtenEntries_text {net6 : Net6} (hk : KeepsText net6) (s : Settings)
    (x : TextSetting) : getChild (writtenEntries net6 s) x.key = some (.value (s.text x)) := by
  cases x with
  | name => rfl
  | password => rfl
  | autosaveFolder => exact congrArg (some ∘ Entry.value) (hk.stored s.autosaveFolder)
  | autosaveFile => exact congrArg (some ∘ Entry.value) (hk.stored s.autosaveFile)
  | postSaveHook => exact congrArg (some ∘ Entry.value) (hk.stored s.postSaveHook)
  | commandDir => exact congrArg (some ∘ Entry.value) (hk.stored s.commandDir)
  | session => exact congrArg (some ∘ Entry.value) (hk.stored s.session)

theorem getChild_writtenEntries_number (net6 : Net6) (s : Settings) (x : NumberSetting) :
    getChild (writtenEntries net6 s) x.key = some (.value (net6.intTo (s.number x))) := by
  cases x <;> rfl

/-- What a server finds in the configuration that was written and read back. -/
theorem configText_reread {net6 : Net6} {s : Settings} {read : Node}
    (hr : Rereads (save (writtenConfig net6 s)) read) {key data : Text}
    (hkey : getChild (writtenEntries net6 s) key = some (.value data)) :
    configText (some (load (some read))) key = if isWhiteSpace data then none else some data := by
  have hsub : subParent (load (some read)) "settings".toList =
      loadChildren (saveChildren (writtenEntries net6 s)) [] := by
    rw [load_rereads hr, subParent, getParentChild,
      getChild_load_save (by rw [writtenConfig_eq]; simp), writtenConfig_eq]
    simp [getChild, reloaded]
  have hget := getChild_load_save (writtenEntries_nodup net6 s) [] key
  rw [hkey] at hget
  rw [configText, Option.bind_some, hsub, getValueChild, hget]
  by_cases hb : isWhiteSpace data = true
  · simp [reloaded, hb]
  · simp [reloaded, hb]

theorem fallbackNumber_reread {net6 : Net6} (hi : InvertsNumbers net6) {s : Settings} {read : Node}
    (hr : Rereads (save (writtenConfig net6 s)) read) (x : NumberSetting) :
    fallbackNumber net6 (some (load (some read))) x = .ok (s.number x) := by
  have htext := configText_reread hr (getChild_writtenEntries_number net6 s x)
  rw [hi.visible] at htext
  simp only [fallbackNumber, htext, Bool.false_eq_true, if_false, hi.inverse]

theorem fallbackText_reread {net6 : Net6} (hk : KeepsText net6) {s : Settings} {read : Node}
    (hr : Rereads (save (writtenConfig net6 s)) read) (x : TextSetting) :
    fallbackText (some (load (some read))) x =
      if isWhiteSpace (s.text x) then x.default else s.text x := by
  rw [fallbackText, configText_reread hr (getChild_writtenEntries_text hk s x)]
  split <;> rfl

theorem default_blank_iff (x : TextSetting) : isWhiteSpace x.default = true ↔ x.default = [] := by
  cases x <;> decide

theorem fallbackText_blank (doc : Option (Option Node)) (x : TextSetting)
    (h : fallbackText (doc.map load) x = []) : x.default = [] := by
  unfold fallbackText at h
  cases hc : configText (doc.map load) x.key with
  | none => simpa [hc] using h
  | some data =>
    rw [hc, Option.getD_some] at h
    subst h
    cases doc with
    | none => cases hc
    | some root =>
      have hvisible := loaded_value (loaded_subParent (loaded_load root) "settings".toList) hc
      cases hvisible

theorem effective_text_empty {net6 : Net6} (hk : KeepsText net6) {p : Parser}
    {doc : Option (Option Node)} {o : Options} {s : Settings}
    (h : effective net6 p (doc.map load) o = .ok s) {x : TextSetting} (hx : s.text x = []) :
    x.default = [] := by
  rw [(effective_ok hk h).1 x, settled, orDefault] at hx
  split at hx
  · exact fallbackText_blank doc x hx
  · next hne => exact absurd hx hne

/-- Whatever settings a server writes, a server that reads them back and is given no other
option has the same settings if and only if none of their texts is blank but not empty. -/
theorem written_settings_reproduced_iff {net6 : Net6} (hk : KeepsText net6)
    (hi : InvertsNumbers net6) (p p' : Parser) (doc : Option (Option Node)) (o : Options)
    (s : Settings) (h : effective net6 p (doc.map load) o = .ok s) (read : Node)
    (hr : Rereads (save (writtenConfig net6 s)) read) :
    effective net6 p' (some (load (some read))) noOptions = .ok s ↔
      ∀ x, isWhiteSpace (s.text x) = true → s.text x = [] := by
  have hnone : ∀ x, noOptions.text x = none := by
    intro x
    cases x <;> rfl
  constructor
  · intro hsame x hblank
    have hx := (effective_ok hk hsame).1 x
    rw [hnone, settled, orDefault, Option.getD_none, if_pos rfl, fallbackText_reread hk hr,
      if_pos hblank] at hx
    rw [hx] at hblank ⊢
    exact (default_blank_iff x).mp hblank
  · intro hvisible
    obtain ⟨s', hs'⟩ := effective_exists hk p' noOptions
      fun x => ⟨_, fallbackNumber_reread hi hr x⟩
    rw [hs']
    obtain ⟨htext, hnumber⟩ := effective_ok hk hs'
    refine congrArg Except.ok (settings_ext (fun x => ?_) fun x => ?_)
    · rw [htext, hnone, settled, orDefault, Option.getD_none, if_pos rfl,
        fallbackText_reread hk hr]
      split
      · next hblank =>
        have hempty := hvisible x hblank
        rw [hempty, effective_text_empty hk h hempty]
      · rfl
    · obtain ⟨fallback, hf, hx⟩ := hnumber x
      rw [fallbackNumber_reread hi hr] at hf
      cases hf
      rw [hx]
      cases x <;> simp [noOptions, Options.number, settled, orDefault]

def withPassword (password : Text) : Options := { noOptions with password := some password }

def protectedSettings (password : Text) : Settings :=
  ⟨6522, "Standalone obby server".toList, [], "autosave.obby".toList, 0, [], password, [], []⟩

def readBack (s : Settings) : Node :=
  .element "sobby_config".toList
    [.text "\n  ".toList,
      .element "settings".toList (saveChildren (writtenEntries plainContexts s)),
      .text "\n".toList]

theorem rereads_values {m : ParentEntry}
    (h : ∀ p ∈ m, ∃ data, p.2 = .value data ∧ ∀ c ∈ data, XmlChar c) :
    RereadsAll (saveChildren m) (saveChildren m) := by
  induction m with
  | nil =>
    rw [saveChildren]
    exact .nil
  | cons p m ih =>
    obtain ⟨name, entry⟩ := p
    obtain ⟨data, hentry, hdata⟩ := h _ List.mem_cons_self
    simp only at hentry
    subst hentry
    have hrest := ih fun q hq => h q (List.mem_cons_of_mem _ hq)
    simp only [saveChildren, saveEntry]
    refine .cons (.element ?_) hrest
    by_cases hd : data = []
    · rw [if_pos hd]
      exact .nil
    · rw [if_neg hd]
      exact .cons (.text hdata) .nil

theorem xmlChar_intTo (n : CInt) : ∀ c ∈ plainContexts.intTo n, XmlChar c := by
  have hdigits : ∀ c ∈ Nat.toDigits 10 n.toInt.natAbs, XmlChar c := by
    intro c hc
    have hdigit := Nat.isDigit_of_mem_toDigits (by decide) (by decide) hc
    simp only [Char.isDigit, Bool.and_eq_true, decide_eq_true_eq, ge_iff_le, UInt32.le_iff_toNat_le]
      at hdigit
    obtain ⟨hlo, hhi⟩ := hdigit
    refine Or.inr (Or.inr (Or.inr (Or.inl ⟨?_, ?_⟩)))
    · exact le_trans (by decide) hlo
    · exact le_trans hhi (by decide)
  simp only [plainContexts]
  split
  · intro c hc
    rcases List.mem_cons.mp hc with rfl | hc
    · decide
    · exact hdigits c hc
  · exact hdigits

theorem readBack_rereads {s : Settings} (h : ∀ x, ∀ c ∈ s.text x, XmlChar c) :
    Rereads (save (writtenConfig plainContexts s)) (readBack s) := by
  rw [writtenConfig_eq]
  simp only [save, saveChildren, saveEntry, readBack]
  refine .formatted (by simp) (by simp [Node.IsElement]) ?_
  refine .blank rfl (.cons (.element (rereads_values ?_)) (.blank rfl .nil))
  intro p hp
  simp only [writtenEntries, List.mem_cons, List.not_mem_nil, or_false] at hp
  rcases hp with rfl | rfl | rfl | rfl | rfl | rfl | rfl | rfl | rfl
  · exact ⟨_, rfl, xmlChar_intTo s.port⟩
  · exact ⟨_, rfl, h .name⟩
  · exact ⟨_, rfl, h .autosaveFile⟩
  · exact ⟨_, rfl, h .autosaveFolder⟩
  · exact ⟨_, rfl, xmlChar_intTo s.autosaveInterval⟩
  · exact ⟨_, rfl, h .postSaveHook⟩
  · exact ⟨_, rfl, h .password⟩
  · exact ⟨_, rfl, h .commandDir⟩
  · exact ⟨_, rfl, h .session⟩

theorem protectedSettings_representable {password : Text} (h : ∀ c ∈ password, XmlChar c)
    (x : TextSetting) : ∀ c ∈ (protectedSettings password).text x, XmlChar c := by
  cases x with
  | password => exact h
  | name => simp [Settings.text, protectedSettings, XmlChar]
  | autosaveFile => simp [Settings.text, protectedSettings, XmlChar]
  | autosaveFolder => simp [Settings.text, protectedSettings]
  | postSaveHook => simp [Settings.text, protectedSettings]
  | commandDir => simp [Settings.text, protectedSettings]
  | session => simp [Settings.text, protectedSettings]

theorem protected_settings_reproduced :
    effective plainContexts keepingParser
      (some (load (some (readBack (protectedSettings "secret".toList))))) noOptions =
      .ok (protectedSettings "secret".toList) :=
  (written_settings_reproduced_iff plainContexts_keepsText plainContexts_invertsNumbers
    keepingParser keepingParser none (withPassword "secret".toList)
    (protectedSettings "secret".toList) rfl _
    (readBack_rereads (protectedSettings_representable (by simp [XmlChar])))).mpr
      (by intro x; cases x <;> decide)

/-- A password of one space is written to the file and is gone when the file is read. -/
theorem blank_password_is_lost :
    effective plainContexts keepingParser none (withPassword [' ']) =
      .ok (protectedSettings [' ']) ∧
    Rereads (save (writtenConfig plainContexts (protectedSettings [' '])))
      (readBack (protectedSettings [' '])) ∧
    effective plainContexts keepingParser
      (some (load (some (readBack (protectedSettings [' ']))))) noOptions =
      .ok (protectedSettings []) ∧
    protectedSettings [' '] ≠ protectedSettings [] :=
  ⟨rfl, readBack_rereads (protectedSettings_representable (by simp [XmlChar])), rfl, by decide⟩

end SettingsRoundTrip
