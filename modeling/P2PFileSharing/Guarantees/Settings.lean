import P2PFileSharing.Guarantees.SplitJoin
import P2PFileSharing.Model.Launch

/-!
# What settings are read

A line of `settings.config` assigns the second of its pieces to the member that the first one
names, and a later line overwrites an earlier one. A line without a piece, a known key without a
value and a factor that is no number are all that the reader does not survive; any other key is
passed over.
-/

namespace P2PFileSharing

inductive SettingKey
  | replicationFactor | serverIp | ensureQueryHitFile | largeFileTransfer
  deriving DecidableEq, Repr

/-- How a line names a member. -/
def SettingKey.text : SettingKey → Str
  | .replicationFactor => replicationFactorKey
  | .serverIp => serverIpKey
  | .ensureQueryHitFile => ensureQueryHitFileKey
  | .largeFileTransfer => largeFileTransferKey

variable {line : Str} {lines : List Str} {s s' : Settings} {k : SettingKey}

/-- What a line assigns to a member. -/
def assignedValue (k : SettingKey) (line : Str) : Option Str :=
  match splitString line [' '] with
  | key :: value :: _ => if key = k.text then some value else none
  | _ => none

/-- What is assigned to a member last. -/
def lastValue (k : SettingKey) (lines : List Str) : Option Str :=
  (lines.filterMap (assignedValue k)).getLast?

/-- The reader survives a line. -/
structure ReadableSetting (line : Str) : Prop where
  nonempty : line ≠ []
  value : ∀ k : SettingKey, (splitString line [' ']).head? = some k.text →
    (assignedValue k line).isSome
  number : ∀ value, assignedValue .replicationFactor line = some value → ∃ n, stoi value = .ok n

/-- The members with these values, or else as they were. -/
def Settings.update (s : Settings) (value : SettingKey → Option Str) : Settings where
  replicationFactor :=
    ((value .replicationFactor).bind fun v => (stoi v).toOption).getD s.replicationFactor
  registerServerIp := (value .serverIp).getD s.registerServerIp
  ensureQueryhitFile := (value .ensureQueryHitFile).getD s.ensureQueryhitFile
  largeFileName := (value .largeFileTransfer).getD s.largeFileName

/-! ## One line -/

/-- The member that a line names. -/
def keyOf (key : Str) : Option SettingKey :=
  if key = replicationFactorKey then some .replicationFactor
  else if key = serverIpKey then some .serverIp
  else if key = ensureQueryHitFileKey then some .ensureQueryHitFile
  else if key = largeFileTransferKey then some .largeFileTransfer
  else none

/-- One assignment. -/
def Settings.assign (s : Settings) (value : Str) : SettingKey → Except Fault Settings
  | .replicationFactor => (stoi value).map fun factor => { s with replicationFactor := factor }
  | .serverIp => .ok { s with registerServerIp := value }
  | .ensureQueryHitFile => .ok { s with ensureQueryhitFile := value }
  | .largeFileTransfer => .ok { s with largeFileName := value }

theorem keyOf_eq_some {key : Str} : keyOf key = some k ↔ key = k.text := by
  constructor
  · intro h
    rw [keyOf] at h
    split at h
    · cases h
      assumption
    · split at h
      · cases h
        assumption
      · split at h
        · cases h
          assumption
        · split at h
          · cases h
            assumption
          · cases h
  · rintro rfl
    cases k <;> decide

theorem SettingKey.text_injective : Function.Injective SettingKey.text := by
  intro k k' h
  have hkey := keyOf_eq_some.mpr h
  rw [keyOf_eq_some.mpr rfl] at hkey
  exact Option.some.inj hkey

theorem splitString_blank_ne_nil (h : line ≠ []) : splitString line [' '] ≠ [] :=
  splitStringFrom_ne_nil h [] 0

/-- What is read of the pieces of a line. -/
def Settings.read (s : Settings) : List Str → Except Fault Settings
  | [] => .error .missingField
  | key :: rest =>
      match keyOf key with
      | none => .ok s
      | some k =>
          match rest with
          | [] => .error .missingField
          | value :: _ => s.assign value k

theorem readSetting_eq (s : Settings) (line : Str) :
    readSetting s line = s.read (splitString line [' ']) := by
  rw [readSetting]
  generalize splitString line [' '] = pieces
  cases pieces with
  | nil => rfl
  | cons key rest =>
      simp only [field, List.getElem?_cons_zero, bind, Except.bind, Settings.read, keyOf]
      split
      · cases rest with
        | nil => rfl
        | cons value rest =>
            simp only [List.getElem?_cons_succ, List.getElem?_cons_zero, Settings.assign]
            cases stoi value <;> rfl
      · split
        · cases rest <;> rfl
        · split
          · cases rest <;> rfl
          · split
            · cases rest <;> rfl
            · rfl

/-- One assignment, and what the members are then. -/
theorem assign_iff {value : Str} {values : SettingKey → Option Str}
    (h : ∀ k', values k' = if k' = k then some value else none) :
    s.assign value k = .ok s' ↔
      (k = .replicationFactor → ∃ n, stoi value = .ok n) ∧ s' = s.update values := by
  have hupdate : s.update values =
      s.update fun k' => if k' = k then some value else none := by
    rw [show values = _ from funext h]
  rw [hupdate]
  cases k with
  | replicationFactor =>
      rw [Settings.assign]
      cases hvalue : stoi value with
      | error f => exact ⟨nofun, fun h => absurd (h.1 rfl) (by rintro ⟨n, hn⟩; cases hn)⟩
      | ok n =>
          have hfactor : (stoi value).toOption = some n := by rw [hvalue]; rfl
          have hnext : s.update (fun k' => if k' = .replicationFactor then some value else none) =
              { s with replicationFactor := n } := by
            simp [Settings.update, hfactor]
          rw [hnext]
          exact ⟨fun h => ⟨fun _ => ⟨n, rfl⟩, (Except.ok.inj h).symm⟩, fun h => h.2 ▸ rfl⟩
  | serverIp | ensureQueryHitFile | largeFileTransfer =>
      exact ⟨fun h => ⟨nofun, (Except.ok.inj h).symm⟩, fun h => h.2 ▸ rfl⟩

/-- The loop of `LoadSettings` on one line. -/
theorem readSetting_iff :
    readSetting s line = .ok s' ↔
      ReadableSetting line ∧ s' = s.update fun k => assignedValue k line := by
  rw [readSetting_eq]
  cases hpieces : splitString line [' '] with
  | nil =>
      refine ⟨nofun, fun h => absurd hpieces (splitString_blank_ne_nil h.1.nonempty)⟩
  | cons key rest =>
      have hline : line ≠ [] := by
        rintro rfl
        cases hpieces
      rw [Settings.read]
      cases hkey : keyOf key with
      | none =>
          have hnot : ∀ k : SettingKey, key ≠ k.text := by
            intro k hk
            rw [keyOf_eq_some.mpr hk] at hkey
            cases hkey
          have hnone : ∀ k, assignedValue k line = none := by
            intro k
            rw [assignedValue, hpieces]
            cases rest with
            | nil => rfl
            | cons value rest => exact if_neg (hnot k)
          have hsame : (s.update fun k => assignedValue k line) = s := by
            simp [Settings.update, hnone]
          rw [hsame]
          refine ⟨fun h => ⟨⟨hline, ?_, ?_⟩, (Except.ok.inj h).symm⟩, fun h => h.2 ▸ rfl⟩
          · intro k hk
            rw [hpieces] at hk
            exact absurd (Option.some.inj hk) (hnot k)
          · intro value hvalue
            rw [hnone] at hvalue
            cases hvalue
      | some k =>
          obtain rfl := keyOf_eq_some.mp hkey
          cases rest with
          | nil =>
              refine ⟨nofun, fun h => ?_⟩
              have hvalue := h.1.value k (by rw [hpieces]; rfl)
              rw [assignedValue, hpieces] at hvalue
              cases hvalue
          | cons value rest =>
              have hvalues : ∀ k', assignedValue k' line = if k' = k then some value else none := by
                intro k'
                rw [assignedValue, hpieces]
                by_cases hk : k' = k
                · rw [hk]
                  exact (if_pos rfl).trans (if_pos rfl).symm
                · rw [if_neg hk]
                  exact if_neg fun h => hk (SettingKey.text_injective h).symm
              refine (assign_iff hvalues).trans (and_congr_left fun _ => ?_)
              constructor
              · intro hnumber
                refine ⟨hline, ?_, ?_⟩
                · intro k' hk'
                  rw [hpieces] at hk'
                  rw [hvalues, if_pos (SettingKey.text_injective (Option.some.inj hk')).symm]
                  rfl
                · intro v hv
                  rw [hvalues] at hv
                  split at hv
                  · next h =>
                      cases hv
                      exact hnumber h.symm
                  · cases hv
              · rintro h rfl
                exact h.number value (by rw [hvalues, if_pos rfl])

/-! ## All lines -/

theorem update_update (value value' : SettingKey → Option Str)
    (hnumber : ∀ v, value' .replicationFactor = some v → ∃ n, stoi v = .ok n) :
    (s.update value).update value' = s.update fun k => (value' k).or (value k) := by
  have hvalue : ∀ (k : SettingKey) (old : Str),
      (value' k).getD ((value k).getD old) = ((value' k).or (value k)).getD old := by
    intro k old
    cases value' k <;> rfl
  simp only [Settings.update, hvalue, Settings.mk.injEq, and_true]
  cases hfactor : value' .replicationFactor with
  | none => rfl
  | some v =>
      obtain ⟨n, hn⟩ := hnumber v hfactor
      have hsome : (stoi v).toOption = some n := by rw [hn]; rfl
      simp only [Option.bind_some, Option.some_or, hsome, Option.getD_some]

theorem lastValue_append (k : SettingKey) (lines : List Str) (line : Str) :
    lastValue k (lines ++ [line]) = (assignedValue k line).or (lastValue k lines) := by
  rw [lastValue, List.filterMap_append, List.getLast?_append]
  cases hvalue : assignedValue k line with
  | none =>
      rw [List.filterMap_cons_none hvalue]
      rfl
  | some v =>
      rw [List.filterMap_cons_some hvalue]
      rfl

/-- `LoadSettings` reads a file if and only if it survives each line, and then each member has
the last value that the file gives it. -/
theorem settings_read (text : Str) :
    loadSettings text = .ok s ↔
      (∀ line ∈ getlines text, ReadableSetting line) ∧
        s = initialSettings.update fun k => lastValue k (getlines text) := by
  rw [loadSettings]
  generalize getlines text = lines
  induction lines using List.reverseRecOn generalizing s with
  | nil => exact ⟨fun h => ⟨nofun, (Except.ok.inj h).symm⟩, fun h => h.2 ▸ rfl⟩
  | append_singleton lines line ih =>
      have hlast : (lines ++ [line]).foldlM readSetting initialSettings = .ok s ↔
          ∃ s₀, lines.foldlM readSetting initialSettings = .ok s₀ ∧
            readSetting s₀ line = .ok s := by
        rw [List.foldlM_append]
        cases lines.foldlM readSetting initialSettings with
        | error f => exact ⟨nofun, fun ⟨_, h, _⟩ => nomatch h⟩
        | ok s₀ =>
            show [line].foldlM readSetting s₀ = .ok s ↔ _
            rw [List.foldlM_cons]
            cases hline : readSetting s₀ line with
            | error f =>
                refine ⟨nofun, ?_⟩
                rintro ⟨s₁, hs₁, h⟩
                cases hs₁
                rw [hline] at h
                cases h
            | ok s' =>
                constructor
                · intro h
                  exact ⟨s₀, rfl, hline.trans h⟩
                · rintro ⟨s₁, hs₁, h⟩
                  cases hs₁
                  exact hline.symm.trans h
      rw [hlast]
      simp only [ih, readSetting_iff, List.mem_append, List.mem_singleton, lastValue_append]
      constructor
      · rintro ⟨s₀, ⟨hlines, rfl⟩, hline, rfl⟩
        refine ⟨?_, update_update _ _ hline.number⟩
        intro line' hline'
        rcases hline' with h | rfl
        · exact hlines line' h
        · exact hline
      · rintro ⟨hall, rfl⟩
        have hline := hall line (.inr rfl)
        exact ⟨_, ⟨fun line' h => hall line' (.inl h), rfl⟩, hline,
          (update_update _ _ hline.number).symm⟩

/-- The reader does not survive an empty line, wherever it is. -/
example : loadSettings "server_ip 10.0.0.9\n\nreplication_factor 1".toList =
    .error .missingField := by decide

end P2PFileSharing
