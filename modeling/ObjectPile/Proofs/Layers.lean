/-
# Sections laid over each other

A section gives values for some of the options of a pile. Applying a section after another one comes
to applying a single one, which gives what the second gives and for the rest what the first gives,
though the checks between options are then made once and not also in between. The six options are
spelled and read in different ways, but each is read for itself, so that the law is one about a
single option; the checks between options look at nothing but the settings that come of it.

* `ConfigSection.given?`, `Settings.value`, `ConfigOption.read` : what a section gives for an
  option, the value that settings have for it, and how one becomes the other.
* `Settings.apply_eq_ok_iff` : applying a section as reading option by option.
* `ConfigSection.Layers` : one section gives what two give together.
* `Settings.apply_layers` : the law of layers, and what follows for one section.
-/
import ObjectPile.Proofs.Settings

namespace ObjectPile

/-! ## Options -/

namespace ConfigOption

/-- What a section gives for an option. -/
def Spelling : ConfigOption → Type
  | .allocMode => String
  | .freeChunkSizes => SizesSpec
  | .freeListSize | .maxSegmentLimit | .segmentSize | .maxMemoryLimit => Int

/-- The values of an option. -/
def Value : ConfigOption → Type
  | .allocMode => AllocationMode
  | .freeChunkSizes => ChunkSizes
  | .freeListSize | .maxSegmentLimit | .segmentSize | .maxMemoryLimit => Nat

/-- The value that a spelling stands for, if it passes the checks of the option. -/
def read : (option : ConfigOption) → option.Spelling → Except ConfigError option.Value
  | .allocMode => AllocationMode.ofText
  | .freeListSize => Settings.count .freeListSize
  | .maxSegmentLimit => Settings.positive .maxSegmentLimit
  | .segmentSize => Settings.segmentSizeOf
  | .maxMemoryLimit => Settings.positive .maxMemoryLimit
  | .freeChunkSizes => Settings.chunkSizesOf

end ConfigOption

/-- What a section gives for an option, if anything. -/
def ConfigSection.given? (c : ConfigSection) : (option : ConfigOption) → Option option.Spelling
  | .allocMode => c.allocMode
  | .freeListSize => c.freeListSize
  | .maxSegmentLimit => c.maxSegmentLimit
  | .segmentSize => c.segmentSize
  | .maxMemoryLimit => c.maxMemoryLimit
  | .freeChunkSizes => c.freeChunkSizes

namespace Settings

/-- The value that settings have for an option. -/
def value (s : Settings) : (option : ConfigOption) → option.Value
  | .allocMode => s.allocMode
  | .freeListSize => s.freeListSize
  | .maxSegmentLimit => s.maxSegmentLimit
  | .segmentSize => s.segmentSize
  | .maxMemoryLimit => s.maxMemoryLimit
  | .freeChunkSizes => s.chunkSizes

/-- **A section is accepted if every option that it gives is, and the values pass the checks between
options.** The settings have these values, and the old ones for the other options. -/
theorem apply_eq_ok_iff {x y : Settings} {c : ConfigSection} : x.apply c = .ok y ↔
    (∀ option, setting option.read (x.value option) (c.given? option) = .ok (y.value option)) ∧
      y.validate = .ok y := by
  unfold apply
  simp only [bind_eq_ok_iff]
  constructor
  · rintro ⟨allocMode, hmode, freeListSize, hcount, maxSegmentLimit, hlimit, segmentSize, hsegment,
      maxMemoryLimit, hmemory, chunkSizes, hsizes, h⟩
    obtain ⟨hlargest, hfits, rfl⟩ := validate_eq_ok_iff.1 h
    refine ⟨?_, h⟩
    intro option
    cases option with
    | allocMode => exact hmode
    | freeListSize => exact hcount
    | maxSegmentLimit => exact hlimit
    | segmentSize => exact hsegment
    | maxMemoryLimit => exact hmemory
    | freeChunkSizes => exact hsizes
  · rintro ⟨hread, h⟩
    exact ⟨_, hread .allocMode, _, hread .freeListSize, _, hread .maxSegmentLimit, _,
      hread .segmentSize, _, hread .maxMemoryLimit, _, hread .freeChunkSizes, h⟩

/-! ## Layers of one option -/

section Layers

variable {α β : Type} {read : α → Except ConfigError β} {x y z : β} {a b : Option α}

/-- An option that is not given keeps its value. -/
theorem eq_of_setting_none (h : setting read x none = .ok y) : y = x := (Except.ok.inj h).symm

/-- Giving an option the same value again changes nothing. -/
theorem setting_again (h : setting read x a = .ok y) : setting read y a = .ok y := by
  cases a with
  | none => rfl
  | some spelling => exact h

/-- **What is given last counts**, and if nothing is, what was given before. -/
theorem setting_or (hfirst : setting read x a = .ok y) (hsecond : setting read y b = .ok z) :
    setting read x (b.or a) = .ok z := by
  cases b with
  | none =>
    rw [eq_of_setting_none hsecond]
    exact hfirst
  | some spelling => exact hsecond

end Layers

end Settings

/-! ## Layers of sections -/

namespace ConfigSection

/-- A section that gives for each option what `b` gives, and what `a` gives where `b` gives nothing.
The name of the pile does not matter. -/
def Layers (m a b : ConfigSection) : Prop :=
  ∀ option, m.given? option = (b.given? option).or (a.given? option)

/-- The sections `a` and `b` as one, with `b` on top. -/
def layer (a b : ConfigSection) : ConfigSection where
  name := b.name.or a.name
  allocMode := b.allocMode.or a.allocMode
  freeListSize := b.freeListSize.or a.freeListSize
  maxSegmentLimit := b.maxSegmentLimit.or a.maxSegmentLimit
  segmentSize := b.segmentSize.or a.segmentSize
  maxMemoryLimit := b.maxMemoryLimit.or a.maxMemoryLimit
  freeChunkSizes := b.freeChunkSizes.or a.freeChunkSizes

theorem layers_layer (a b : ConfigSection) : (a.layer b).Layers a b := by
  intro option
  cases option <;> rfl

end ConfigSection

namespace Settings

/-- **The law of layers.** If one section is accepted and another one on top of it, then so is every
section that layers the two, with the same settings. A section that was accepted is accepted again
and changes nothing then; and the options that it does not give have kept their values. -/
theorem apply_layers {x y : Settings} {a : ConfigSection} (h : x.apply a = .ok y) :
    (∀ (b : ConfigSection) (z : Settings), y.apply b = .ok z →
        ∀ m : ConfigSection, m.Layers a b → x.apply m = .ok z) ∧
      y.apply a = .ok y ∧
      ∀ option, a.given? option = none → y.value option = x.value option := by
  obtain ⟨hread, hvalid⟩ := apply_eq_ok_iff.1 h
  refine ⟨?_, ?_, ?_⟩
  · intro b z hb m hm
    obtain ⟨hreadb, hvalidb⟩ := apply_eq_ok_iff.1 hb
    refine apply_eq_ok_iff.2 ⟨?_, hvalidb⟩
    intro option
    rw [hm option]
    exact setting_or (hread option) (hreadb option)
  · exact apply_eq_ok_iff.2 ⟨fun option => setting_again (hread option), hvalid⟩
  · intro option hnone
    have hkept := hread option
    rw [hnone] at hkept
    exact eq_of_setting_none hkept

/-- A section that asks for small segments, just large enough for its classes. -/
def tightSection : ConfigSection :=
  { name := some "jobs", allocMode := some "favor-speed", segmentSize := some 65537,
    freeChunkSizes := some (.list [16, 65536]) }

/-- The standard settings with that section. -/
def tightSettings : Settings :=
  { standard with allocMode := .favorSpeed, segmentSize := 65552, chunkSizes := ⟨[16, 65536]⟩ }

/-- A section that asks for larger segments and a memory limit of one of them. -/
def singleSection : ConfigSection :=
  { segmentSize := some 100000, maxMemoryLimit := some 100000,
    freeChunkSizes := some (.text "32, 48") }

/-- The settings with that section on top. -/
def singleSettings : Settings :=
  { tightSettings with segmentSize := 100000, maxMemoryLimit := 100000, chunkSizes := ⟨[32, 48]⟩ }

/-- One section after the other and both in one come to the same. -/
theorem apply_layers_single : standard.apply tightSection = .ok tightSettings ∧
    tightSettings.apply singleSection = .ok singleSettings ∧
    standard.apply (tightSection.layer singleSection) = .ok singleSettings ∧
    tightSettings.apply tightSection = .ok tightSettings ∧
    tightSettings.value .freeListSize = standard.value .freeListSize := by
  have htight : standard.apply tightSection = .ok tightSettings := by decide
  have hsingle : tightSettings.apply singleSection = .ok singleSettings := by decide
  obtain ⟨hlayers, hagain, hkept⟩ := apply_layers htight
  exact ⟨htight, hsingle, hlayers _ _ hsingle _ (ConfigSection.layers_layer _ _), hagain,
    hkept .freeListSize rfl⟩

end Settings

end ObjectPile
