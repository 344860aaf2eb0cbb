/-
# Lives of piles

Piles begin without objects and with accepted settings. Configuring and starting find a pile without
segments and leave it so; purging and stopping give up all segments. None of the four gives out a
generation, so that generations are never used again.

* `Pile.IsNew` : the piles that come about; `isNew_create`, `isNew_build` are the ways.
* `Sound.configure`, `Sound.configureFrom`, `Sound.start` : the contents stay.
* `Sound.purge`, `Sound.stop` : the contents are cleared.
-/
import ObjectPile.Pile.Builder
import ObjectPile.Pile.Lifecycle
import ObjectPile.Proofs.Piles

namespace ObjectPile

/-! ## New piles -/

/-- The numbers of a builder are words of their types. -/
def Builder.IsTyped (b : Builder) : Prop := ∀ n ∈ b.maxMemoryLimit, n ≤ maxWord

/-- The options of a builder are numbers that a document could hold. -/
theorem Builder.isSigned_options (b : Builder) : b.options.IsSigned := by
  have hsaturate : ∀ n : Nat, -(maxSigned : Int) - 1 ≤ saturate n ∧ saturate n ≤ maxSigned := by
    intro n
    unfold saturate maxSigned
    omega
  intro n hn
  unfold ConfigSection.numbers options at hn
  simp only [List.mem_append, Option.mem_toList, Option.map_eq_some_iff] at hn
  rcases hn with (((⟨m, -, rfl⟩ | ⟨m, -, rfl⟩) | ⟨m, -, rfl⟩) | hn) | hn
  · exact hsaturate m
  · exact hsaturate m
  · exact hsaturate m
  · simp at hn
  · cases hsizes : b.chunkSizes with
    | none => simp [hsizes] at hn
    | some sizes =>
      simp only [hsizes, Option.map_some, List.mem_map] at hn
      obtain ⟨m, -, rfl⟩ := hn
      exact hsaturate m

/-- Settings that a builder gives are accepted. -/
theorem Builder.accepted_settings {b : Builder} (hb : b.IsTyped) {settings : Settings}
    (h : b.settings = .ok settings) : settings.Accepted := by
  obtain ⟨applied, happly, h⟩ := Settings.exists_of_bind_eq_ok h
  have haccepted : applied.Accepted := .apply .standard b.isSigned_options happly
  cases hlimit : b.maxMemoryLimit with
  | none =>
    rw [hlimit] at h
    obtain rfl := Except.ok.inj h
    exact haccepted
  | some bytes =>
    rw [hlimit] at h
    exact .withMaxMemoryLimit haccepted (hb bytes hlimit) h

namespace Pile

/-- **The piles that come about**: with accepted settings, without objects and not started. -/
inductive IsNew : Pile → Prop
  | ofSettings {id : Nat} {name : Option String} {settings : Settings} {state : PileState} :
      settings.Accepted → state = .created ∨ state = .configured →
        IsNew (.ofSettings id name settings state)

/-- A pile with standard settings is new. -/
theorem isNew_create (id : Nat) (name : Option String) : (create id name).IsNew :=
  .ofSettings .standard (.inl rfl)

/-- A pile that is built is new. -/
theorem isNew_build {b : Builder} (hb : b.IsTyped) {id : Nat} {p : Pile}
    (h : b.build id = .ok p) : p.IsNew := by
  unfold Builder.build at h
  cases hsettings : b.settings with
  | error e =>
    rw [hsettings] at h
    simp [Except.map] at h
  | ok settings =>
    rw [hsettings] at h
    obtain rfl := Except.ok.inj h
    exact .ofSettings (b.accepted_settings hb hsettings) (.inr rfl)

/-- New piles are sound and have no contents. -/
theorem IsNew.sound {p : Pile} (h : p.IsNew) :
    p.Sound ∧ p.nextGeneration = 1 ∧ p.lookup = fun _ => none := by
  cases h with
  | ofSettings haccepted hstate =>
    exact ⟨sound_of_slots_eq haccepted rfl Nat.one_pos rfl rfl rfl rfl, rfl,
      lookup_of_slots_eq rfl⟩

/-! ## Configuring and starting -/

/-- An operation that leaves the contents of a pile. -/
structure Keeps (p p' : Pile) : Prop where
  sound : p'.Sound
  id_eq : p'.id = p.id
  nextGeneration_eq : p'.nextGeneration = p.nextGeneration
  lookup_eq : p'.lookup = p.lookup

/-- An operation that clears the contents of a pile. -/
structure Clears (p p' : Pile) : Prop where
  sound : p'.Sound
  id_eq : p'.id = p.id
  nextGeneration_eq : p'.nextGeneration = p.nextGeneration
  lookup_eq : p'.lookup = fun _ => none

namespace Sound

variable {p p' : Pile}

theorem keeps_self (h : p.Sound) : p.Keeps p := ⟨h, rfl, rfl, rfl⟩

/-- A pile that has no segments before and after keeps its contents. -/
theorem keeps_of_idle (h : p.Sound) (hstate : p.state ≠ .started)
    (haccepted : p'.settings.Accepted) (hpolicy : p'.policy = .ofSettings p'.settings)
    (hid : p'.id = p.id) (hgeneration : p'.nextGeneration = p.nextGeneration)
    (hslots : p'.slots = p.slots) (hsegments : p'.segmentCount = p.segmentCount)
    (hobjects : p'.objectCount = p.objectCount) (hbytes : p'.utilizedBytes = p.utilizedBytes) :
    p.Keeps p' := by
  obtain ⟨hempty, hzero, hzero', hzero''⟩ := h.counts_of_idle hstate
  refine ⟨?_, hid, hgeneration, ?_⟩
  · exact sound_of_slots_eq haccepted hpolicy (by rw [hgeneration]; exact h.generation_pos)
      (hslots.trans hempty) (hsegments.trans hzero) (hobjects.trans hzero') (hbytes.trans hzero'')
  · rw [lookup_of_slots_eq (hslots.trans hempty), lookup_of_slots_eq hempty]

/-- A pile that can be configured is not started. -/
theorem not_started_of_isConfigurable (h : p.isConfigurable = true) : p.state ≠ .started := by
  intro hstate
  simp [isConfigurable, hstate] at h

/-- Configuring keeps the contents. -/
theorem configure (h : p.Sound) {options : ConfigSection} (hsigned : options.IsSigned) :
    p.Keeps (p.configure options).pile := by
  unfold Pile.configure
  by_cases hconfigurable : p.isConfigurable = true
  · rw [if_pos hconfigurable]
    cases happly : p.settings.apply options with
    | error e => exact h.keeps_self
    | ok settings =>
      exact h.keeps_of_idle (not_started_of_isConfigurable hconfigurable)
        (.apply h.accepted hsigned happly) rfl rfl rfl rfl rfl rfl rfl
  · rw [if_neg hconfigurable]
    exact h.keeps_self

/-- Configuring from a document keeps the contents. -/
theorem configureFrom (h : p.Sound) {document : ConfigDocument}
    (hsigned : ∀ options ∈ document.sections, options.IsSigned) :
    p.Keeps (p.configureFrom document).pile := by
  unfold Pile.configureFrom
  cases hsection : document.section? p.name with
  | some options => exact h.configure (hsigned options (List.mem_of_find?_eq_some hsection))
  | none =>
    by_cases hconfigurable : p.isConfigurable = true
    · simp only [if_pos hconfigurable]
      exact h.keeps_of_idle (not_started_of_isConfigurable hconfigurable) h.accepted h.policy_eq rfl
        rfl rfl rfl rfl rfl
    · simp only [if_neg hconfigurable]
      exact h.keeps_self

/-- Starting keeps the contents. -/
theorem start (h : p.Sound) : p.Keeps p.start.pile := by
  have hkeeps : p.state ≠ .started → p.Keeps { p with state := .started } := fun hstate =>
    h.keeps_of_idle hstate h.accepted h.policy_eq rfl rfl rfl rfl rfl rfl
  unfold Pile.start
  cases hstate : p.state with
  | created => exact hkeeps (by simp [hstate])
  | configured => exact hkeeps (by simp [hstate])
  | started => exact h.keeps_self
  | stopped => exact h.keeps_self

/-! ## Purging and stopping -/

/-- Purging clears the contents. -/
theorem purge (h : p.Sound) : p.Clears p.purge.pile :=
  ⟨sound_of_slots_eq h.accepted h.policy_eq h.generation_pos rfl rfl rfl rfl, rfl, rfl,
    lookup_of_slots_eq rfl⟩

/-- Stopping clears the contents. -/
theorem stop (h : p.Sound) : p.Clears p.stop.pile := by
  unfold Pile.stop
  by_cases hstate : p.state = .stopped
  · rw [if_pos hstate]
    exact ⟨h, rfl, rfl, lookup_of_slots_eq (h.idle (by simp [hstate]))⟩
  · rw [if_neg hstate]
    exact ⟨sound_of_slots_eq h.accepted h.policy_eq h.generation_pos rfl rfl rfl rfl, rfl, rfl,
      lookup_of_slots_eq rfl⟩

end Sound

end Pile

end ObjectPile
