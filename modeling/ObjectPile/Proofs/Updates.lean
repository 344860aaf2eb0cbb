/-
# Settings after any updates

Settings change by sections and by memory limits. Each update checks the options it is given and
then the constraints between all options, whichever of them it changed; one that fails leaves the
settings as they were. Whatever is tried and in whatever order, the settings are in order at all
times: each option is within its bounds, the options fit each other, and the classes that are made
of the sizes, rounded up and without repeats, are such that exactly the payloads up to the longest
one allowed ask for a chunk that a segment has room for.

* `Settings.Update`, `Settings.ofUpdates` : trying updates one after the other.
* `Settings.InOrder` : what can be relied on.
* `Settings.accepted_updated`, `Settings.accepted_ofUpdates` : one update, and a run of them.
* `Settings.inOrder_of_updates` : the settings are in order at all times.
-/
import ObjectPile.Proofs.Layers

namespace ObjectPile

namespace Settings

/-! ## Updates -/

/-- What can be tried to change settings. -/
inductive Update where
  | apply (options : ConfigSection)
  | withMaxMemoryLimit (bytes : Nat)

/-- The numbers of an update are words of their types. -/
def Update.IsTyped : Update → Prop
  | .apply options => options.IsSigned
  | .withMaxMemoryLimit bytes => bytes ≤ maxWord

instance : (update : Update) → Decidable update.IsTyped
  | .apply options => inferInstanceAs (Decidable options.IsSigned)
  | .withMaxMemoryLimit bytes => inferInstanceAs (Decidable (bytes ≤ maxWord))

/-- The settings with an update, or what is wrong with it. -/
def attempt (s : Settings) : Update → Except ConfigError Settings
  | .apply options => s.apply options
  | .withMaxMemoryLimit bytes => s.withMaxMemoryLimit bytes

/-- The settings after an update was tried. One that fails leaves them as they were. -/
def updated (s : Settings) (update : Update) : Settings :=
  match s.attempt update with
  | .ok s' => s'
  | .error _ => s

/-- What becomes of the standard settings by some updates. -/
def ofUpdates (updates : List Update) : Settings := updates.foldl updated standard

/-- Trying an update leads from accepted settings to accepted ones. -/
theorem accepted_updated {s : Settings} (h : s.Accepted) {update : Update}
    (htyped : update.IsTyped) : (s.updated update).Accepted := by
  unfold updated
  cases hattempt : s.attempt update with
  | error e => exact h
  | ok s' =>
    cases update with
    | apply options => exact .apply h htyped hattempt
    | withMaxMemoryLimit bytes => exact .withMaxMemoryLimit h htyped hattempt

/-- **The settings after any updates are accepted ones.** -/
theorem accepted_ofUpdates {updates : List Update} (htyped : ∀ update ∈ updates, update.IsTyped) :
    (ofUpdates updates).Accepted := by
  induction updates using List.reverseRecOn with
  | nil => exact .standard
  | append_singleton updates update ih =>
    have hbefore := ih fun update' h => htyped update' (List.mem_append_left _ h)
    have hlast := htyped update (List.mem_append_right _ List.mem_cons_self)
    unfold ofUpdates at *
    rw [List.foldl_append]
    exact accepted_updated hbefore hlast

/-! ## What accepted settings have in common -/

/-- Sizes that are accepted in either spelling are positive. -/
theorem pos_of_chunkSizesOf {spec : SizesSpec} {c : ChunkSizes} (h : chunkSizesOf spec = .ok c) :
    ∀ n ∈ c.toList, 0 < n := by
  have hpos : ∀ given, ChunkSizes.ofList given = .ok c → ∀ n ∈ c.toList, 0 < n := by
    intro given hgiven n hn
    obtain ⟨-, hzero, -, hlist⟩ := ofList_eq_ok_iff.1 hgiven
    rw [hlist] at hn
    exact Nat.pos_of_ne_zero fun h => hzero (h ▸ hn)
  cases spec with
  | text s =>
    obtain ⟨sizes, -, h⟩ := exists_of_bind_eq_ok h
    exact hpos sizes h
  | list ns =>
    obtain ⟨sizes, -, h⟩ := exists_of_bind_eq_ok h
    exact hpos sizes h

theorem Accepted.sizes_pos {s : Settings} (h : s.Accepted) : ∀ n ∈ s.chunkSizes.toList, 0 < n := by
  induction h with
  | standard => decide
  | @apply s s' options _ _ happly ih =>
    have hread := (apply_eq_ok_iff.1 happly).1 .freeChunkSizes
    rcases setting_cases hread with ⟨-, hkept⟩ | ⟨spec, -, hspec⟩
    · have hsizes : s'.chunkSizes = s.chunkSizes := hkept
      rw [hsizes]
      exact ih
    · exact pos_of_chunkSizesOf hspec
  | withMaxMemoryLimit _ _ hlimit ih =>
    unfold Settings.withMaxMemoryLimit at hlimit
    split at hlimit
    · simp at hlimit
    · obtain ⟨-, -, rfl⟩ := validate_eq_ok_iff.1 hlimit
      exact ih

/-- **What can be relied on in the settings of a pile** and in the classes made of them. -/
structure InOrder (s : Settings) : Prop where
  segmentSize_mod : s.segmentSize % 16 = 0
  le_segmentSize : 65536 ≤ s.segmentSize
  segmentSize_le : s.segmentSize ≤ 2 ^ 31
  one_le_maxSegmentLimit : 1 ≤ s.maxSegmentLimit
  segmentSize_le_maxMemoryLimit : s.segmentSize ≤ s.maxMemoryLimit
  sizes_ne_nil : s.chunkSizes.toList ≠ []
  sizes_pos : ∀ n ∈ s.chunkSizes.toList, 0 < n
  sizes_ascending : s.chunkSizes.toList.Pairwise (· < ·)
  capacities_ne_nil : (AllocationPolicy.ofSettings s).classes.capacities ≠ []
  capacities_ascending : (AllocationPolicy.ofSettings s).classes.capacities.Pairwise (· < ·)
  capacities_aligned : ∀ c ∈ (AllocationPolicy.ofSettings s).classes.capacities,
    c % 16 = 0 ∧ 16 ≤ c
  /-- A segment has room for the chunk of a payload exactly if the payload is not too long. -/
  chunkSize_le_iff : ∀ n, ((AllocationPolicy.ofSettings s).classes.classify n).chunkSize ≤
    s.segmentSize ↔ n ≤ s.maxPayloadLength

/-- In sound settings the length of a payload says whether a segment has room for its chunk. -/
theorem Sound.chunkSize_classify_le_iff {s : Settings} (h : s.Sound) (n : Nat) :
    ((AllocationPolicy.ofSettings s).classes.classify n).chunkSize ≤ s.segmentSize ↔
      n ≤ s.maxPayloadLength := by
  have hp := h.policy
  have hmin := h.minSegmentSize_le
  unfold minSegmentSize at hmin
  unfold maxPayloadLength headerSize
  constructor
  · intro hle
    -- a chunk that a segment has room for is not one that was cut at the largest word
    have hroom := (hp.classes.chunkSize_bounds hp.segmentSize_lt_maxWord hle).2.2
    unfold headerSize at hroom
    omega
  · intro hle
    refine hp.classes.chunkSize_le hp.segmentSize_mod hp.classes_fit ?_
    show n + 16 ≤ s.segmentSize
    omega

theorem Accepted.inOrder {s : Settings} (h : s.Accepted) : s.InOrder where
  segmentSize_mod := h.sound.segmentSize_mod
  le_segmentSize := h.sound.minSegmentSize_le
  segmentSize_le := h.sound.le_maxSegmentSize
  one_le_maxSegmentLimit := h.sound.maxSegmentLimit_pos
  segmentSize_le_maxMemoryLimit := h.sound.segmentSize_le_limit
  sizes_ne_nil := h.sound.sizes_ne_nil
  sizes_pos := h.sizes_pos
  sizes_ascending := h.sound.sizes_ascending
  capacities_ne_nil := h.sound.policy.classes.nonempty
  capacities_ascending := h.sound.policy.classes.ascending
  capacities_aligned c hc :=
    ⟨h.sound.policy.classes.aligned c hc, h.sound.policy.classes.minCapacity_le c hc⟩
  chunkSize_le_iff := h.sound.chunkSize_classify_le_iff

/-- **Settings are in order at all times**, whatever updates were tried. -/
theorem inOrder_of_updates {updates : List Update} (htyped : ∀ update ∈ updates, update.IsTyped) :
    (ofUpdates updates).InOrder :=
  (accepted_ofUpdates htyped).inOrder

/-- Updates of which every other one fails: classes that are too large for the segments, a memory
limit below them, and segments above it. -/
def contested : List Update :=
  [.apply { segmentSize := some 65537, freeChunkSizes := some (.text "1, 17,65536") },
    .apply { segmentSize := some 65536 }, .withMaxMemoryLimit 70000, .withMaxMemoryLimit 65551,
    .apply { freeListSize := some 0, maxSegmentLimit := some 3 },
    .apply { segmentSize := some 70001, freeChunkSizes := some (.list [70000]) }]

/-- Two of the three sizes that are left have classes at the edges of what there can be. -/
theorem inOrder_contested : (∀ update ∈ contested, update.IsTyped) ∧
    ofUpdates contested = { standard with
      freeListSize := 0
      maxSegmentLimit := 3
      segmentSize := 65552
      maxMemoryLimit := 70000
      chunkSizes := ⟨[1, 17, 65536]⟩ } ∧
    (ofUpdates contested).InOrder := by
  have htyped : ∀ update ∈ contested, update.IsTyped := by decide
  exact ⟨htyped, by decide, inOrder_of_updates htyped⟩

end Settings

end ObjectPile
