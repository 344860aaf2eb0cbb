/-
# Checked settings

Taking settings over, with every check made on the way: that a segment size within its bounds is not
zero, and that no class exceeds the largest word when its size is rounded up. A computation here has
three ends: it fails a check, or it is answered with an error, or with a result.

* `Settings.checkedApply`, `Settings.checkedWithMaxMemoryLimit`, `Builder.checkedBuild` : the ways
  to settings.
* `Settings.Sound.checkedApply_eq` : a section whose classes can be rounded up passes all checks.
* `Builder.checkedBuild_eq` : building a pile passes all checks.
-/
import ObjectPile.Proofs.Checks
import ObjectPile.Proofs.Lifecycle

namespace ObjectPile

/-! ## Answers -/

/-- An answer that no check stands before. -/
def answer {ε α : Type} (result : Except ε α) : ExceptT ε Checked α := ExceptT.mk (.ok result)

theorem lift_bind {ε α β : Type} {check : Checked α} {a : α} (h : check = .ok a)
    (f : α → ExceptT ε Checked β) : (ExceptT.lift check >>= f) = f a := by
  rw [h]
  rfl

/-- Going on from an answer passes all checks if it does so from every result. -/
theorem answer_bind {ε α β : Type} {result : Except ε α} {f : α → ExceptT ε Checked β}
    {g : α → Except ε β} (h : ∀ a, result = .ok a → f a = answer (g a)) :
    (answer result >>= f) = answer (result >>= g) := by
  cases result with
  | error e => rfl
  | ok a => exact h a rfl

/-! ## Settings -/

/-- Checks the constraints between options. The largest class is rounded up for that. -/
def Settings.checkedValidate (s : Settings) : ExceptT ConfigError Checked Settings := do
  ExceptT.lift (require (roundUp s.chunkSizes.largest ≤ maxWord) .overflow)
  answer s.validate

/-- The settings with every option that a section gives. -/
def Settings.checkedApply (s : Settings) (options : ConfigSection) :
    ExceptT ConfigError Checked Settings := do
  let allocMode ← answer (setting AllocationMode.ofText s.allocMode options.allocMode)
  let freeListSize ← answer (setting (count .freeListSize) s.freeListSize options.freeListSize)
  let maxSegmentLimit ←
    answer (setting (positive .maxSegmentLimit) s.maxSegmentLimit options.maxSegmentLimit)
  let segmentSize ← answer (setting segmentSizeOf s.segmentSize options.segmentSize)
  ExceptT.lift (require (segmentSize ≠ 0) .zeroSegmentSize)
  let maxMemoryLimit ←
    answer (setting (positive .maxMemoryLimit) s.maxMemoryLimit options.maxMemoryLimit)
  let chunkSizes ← answer (setting chunkSizesOf s.chunkSizes options.freeChunkSizes)
  checkedValidate
    ⟨allocMode, freeListSize, maxSegmentLimit, segmentSize, maxMemoryLimit, chunkSizes⟩

/-- The settings with another memory limit. -/
def Settings.checkedWithMaxMemoryLimit (s : Settings) (bytes : Nat) :
    ExceptT ConfigError Checked Settings :=
  if bytes = 0 then answer (.error (.invalidValue .maxMemoryLimit "0" .notPositive))
  else checkedValidate { s with maxMemoryLimit := bytes }

/-- The policy that settings ask for. Every class is rounded up for that. -/
def AllocationPolicy.checkedOfSettings (s : Settings) : Checked AllocationPolicy := do
  require (∀ n ∈ s.chunkSizes.toList, roundUp n ≤ maxWord) .overflow
  return .ofSettings s

/-- The sizes of classes that a section gives, if they are accepted. -/
def ConfigSection.classSizes (options : ConfigSection) : List Nat :=
  match options.freeChunkSizes.map Settings.chunkSizesOf with
  | some (.ok sizes) => sizes.toList
  | _ => []

/-- The sizes of classes that a section gives can be rounded up to a word. -/
def ConfigSection.SizesFit (options : ConfigSection) : Prop :=
  ∀ n ∈ options.classSizes, n ≤ 18446744073709551600

instance (options : ConfigSection) : Decidable options.SizesFit :=
  inferInstanceAs (Decidable (∀ n ∈ options.classSizes, _))

/-- A size that is not too close to the largest word can be rounded up. -/
theorem roundUp_le_maxWord {n : Nat} (h : n ≤ 18446744073709551600) : roundUp n ≤ maxWord :=
  Nat.le_trans (roundUp_le h (by decide)) (by decide)

namespace Settings

theorem checkedValidate_eq {s : Settings} (h : roundUp s.chunkSizes.largest ≤ maxWord) :
    s.checkedValidate = answer s.validate :=
  lift_bind (require_eq h .overflow) _

/-- The largest size is one of the sizes, if there is any. -/
theorem largest_mem {c : ChunkSizes} (h : c.toList ≠ []) : c.largest ∈ c.toList := by
  unfold ChunkSizes.largest
  rw [List.getLastD_eq_getLast?, List.getLast?_eq_some_getLast h]
  exact List.getLast_mem h

namespace Sound

variable {s : Settings}

/-- The classes of sound settings are far below the largest word. -/
theorem roundUp_le_maxWord (h : s.Sound) {n : Nat} (hn : n ∈ s.chunkSizes.toList) :
    roundUp n ≤ maxWord := by
  have hfit := h.sizes_fit n hn
  have hmax := h.le_maxSegmentSize
  unfold maxSegmentSize at hmax
  unfold maxWord
  omega

/-- **A section whose classes can be rounded up passes all checks.** -/
theorem checkedApply_eq (h : s.Sound) {options : ConfigSection} (hfit : options.SizesFit) :
    s.checkedApply options = answer (s.apply options) := by
  unfold checkedApply Settings.apply
  refine answer_bind fun allocMode _ => answer_bind fun freeListSize _ => ?_
  refine answer_bind fun maxSegmentLimit _ => answer_bind fun segmentSize hsegment => ?_
  have hne : segmentSize ≠ 0 := by
    have hmin : minSegmentSize ≤ segmentSize := by
      rcases setting_cases hsegment with ⟨-, rfl⟩ | ⟨n, -, hn⟩
      · exact h.minSegmentSize_le
      · exact (segmentSizeOf_eq_ok hn).2.1
    unfold minSegmentSize at hmin
    omega
  rw [lift_bind (require_eq hne .zeroSegmentSize)]
  refine answer_bind fun maxMemoryLimit _ => answer_bind fun chunkSizes hsizes => ?_
  apply checkedValidate_eq
  rcases setting_cases hsizes with ⟨-, rfl⟩ | ⟨spec, hgiven, hspec⟩
  · exact h.roundUp_le_maxWord (largest_mem h.sizes_ne_nil)
  · apply ObjectPile.roundUp_le_maxWord
    apply hfit
    unfold ConfigSection.classSizes
    rw [hgiven, Option.map_some, hspec]
    exact largest_mem (chunkSizesOf_eq_ok hspec).1

/-- Setting a memory limit passes all checks. -/
theorem checkedWithMaxMemoryLimit_eq (h : s.Sound) (bytes : Nat) :
    s.checkedWithMaxMemoryLimit bytes = answer (s.withMaxMemoryLimit bytes) := by
  unfold checkedWithMaxMemoryLimit Settings.withMaxMemoryLimit
  split
  · rfl
  · exact checkedValidate_eq (h.roundUp_le_maxWord (largest_mem h.sizes_ne_nil))

/-- The classes of sound settings can all be rounded up. -/
theorem checkedOfSettings_eq (h : s.Sound) :
    AllocationPolicy.checkedOfSettings s = .ok (.ofSettings s) :=
  require_bind (fun _ hn => h.roundUp_le_maxWord hn) ..

end Sound

/-- Sizes that are accepted as a list are numbers of the list. -/
theorem mem_of_mapM_chunkSizeOf {ns : List Int} {sizes : List Nat}
    (h : ns.mapM chunkSizeOf = .ok sizes) : ∀ m ∈ sizes, ∃ n ∈ ns, n.toNat = m := by
  induction ns generalizing sizes with
  | nil =>
    obtain rfl : [] = sizes := Except.ok.inj h
    simp
  | cons n ns ih =>
    rw [List.mapM_cons] at h
    obtain ⟨m, hm, h⟩ := exists_of_bind_eq_ok h
    obtain ⟨ms, hms, h⟩ := exists_of_bind_eq_ok h
    obtain rfl : m :: ms = sizes := Except.ok.inj h
    unfold chunkSizeOf at hm
    split at hm
    · simp at hm
    · intro k hk
      rcases List.mem_cons.1 hk with rfl | hk
      · exact ⟨n, List.mem_cons_self, Except.ok.inj hm⟩
      · obtain ⟨l, hl, rfl⟩ := ih hms k hk
        exact ⟨l, List.mem_cons_of_mem _ hl, rfl⟩

end Settings

/-! ## Builders -/

/-- The settings that the options amount to. -/
def Builder.checkedSettings (b : Builder) : ExceptT ConfigError Checked Settings := do
  let settings ← Settings.standard.checkedApply b.options
  match b.maxMemoryLimit with
  | none => answer (.ok settings)
  | some bytes => settings.checkedWithMaxMemoryLimit bytes

/-- The pile with a number and the options given. -/
def Builder.checkedBuild (b : Builder) (id : Nat) : ExceptT ConfigError Checked Pile := do
  let settings ← b.checkedSettings
  let policy ← ExceptT.lift (AllocationPolicy.checkedOfSettings settings)
  answer (.ok { Pile.ofSettings id b.name settings .configured with policy := policy })

/-- The classes that a section gives as numbers are far from the largest word. -/
theorem ConfigSection.sizesFit_of_list {options : ConfigSection} (h : options.IsSigned)
    {ns : List Int} (hgiven : options.freeChunkSizes = some (.list ns)) : options.SizesFit := by
  unfold SizesFit classSizes
  rw [hgiven, Option.map_some]
  cases hsizes : Settings.chunkSizesOf (.list ns) with
  | error e => simp
  | ok sizes =>
    obtain ⟨list, hlist, hofList⟩ := Settings.exists_of_bind_eq_ok hsizes
    intro m hm
    have hmem : m ∈ list := (Settings.ofList_eq_ok_iff.1 hofList).2.2.2 ▸ hm
    obtain ⟨n, hn, rfl⟩ := Settings.mem_of_mapM_chunkSizeOf hlist m hmem
    have hbound := (h n (by simp [numbers, hgiven, hn])).2
    unfold maxSigned at hbound
    omega

theorem Builder.sizesFit_options (b : Builder) : b.options.SizesFit := by
  cases hsizes : b.chunkSizes with
  | none => simp [ConfigSection.SizesFit, ConfigSection.classSizes, options, hsizes]
  | some sizes =>
    have hgiven : b.options.freeChunkSizes = some (.list (sizes.toList.map saturate)) := by
      simp [options, hsizes]
    exact ConfigSection.sizesFit_of_list b.isSigned_options hgiven

/-- **Building a pile passes all checks.** -/
theorem Builder.checkedBuild_eq {b : Builder} (hb : b.IsTyped) (id : Nat) :
    b.checkedBuild id = answer (b.build id) := by
  have hsettings : b.checkedSettings = answer b.settings := by
    unfold checkedSettings settings
    rw [Settings.sound_standard.checkedApply_eq b.sizesFit_options]
    refine answer_bind fun settings hok => ?_
    have hsound := (Settings.Accepted.apply .standard b.isSigned_options hok).sound
    cases b.maxMemoryLimit with
    | none => rfl
    | some bytes => exact hsound.checkedWithMaxMemoryLimit_eq bytes
  unfold checkedBuild build
  rw [hsettings]
  refine answer_bind fun settings hok => ?_
  rw [lift_bind (b.accepted_settings hb hok).sound.checkedOfSettings_eq]
  rfl

end ObjectPile
