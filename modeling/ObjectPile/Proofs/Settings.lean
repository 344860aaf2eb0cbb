/-
# Accepted settings

The settings that a pile can have are the standard ones and what comes of them by applying sections
and setting memory limits. Each step checks the options it is given; this module shows that the
checks are enough for everything that segments and piles rely on.

* `Settings.Accepted` : the settings that can come about.
* `Settings.Accepted.sound` : what all of them have in common.
* `Settings.Sound.policy` : the allocation policy they ask for is in order.
-/
import ObjectPile.Proofs.Classes

namespace ObjectPile

/-! ## Numbers of a section -/

/-- All numbers that a section gives. -/
def ConfigSection.numbers (options : ConfigSection) : List Int :=
  options.freeListSize.toList ++ options.maxSegmentLimit.toList ++ options.segmentSize.toList ++
    options.maxMemoryLimit.toList ++
    match options.freeChunkSizes with
    | some (.list ns) => ns
    | _ => []

/-- The numbers of a section are signed words of 64 bits, as those of every document are. -/
def ConfigSection.IsSigned (options : ConfigSection) : Prop :=
  ∀ n ∈ options.numbers, -(maxSigned : Int) - 1 ≤ n ∧ n ≤ maxSigned

instance (options : ConfigSection) : Decidable options.IsSigned :=
  inferInstanceAs (Decidable (∀ n ∈ options.numbers, _))

namespace Settings

/-- The settings that can come about: the standard ones, and what sections and memory limits make of
settings that came about. -/
inductive Accepted : Settings → Prop
  | standard : Accepted .standard
  | apply {s s' : Settings} {options : ConfigSection} : Accepted s → options.IsSigned →
      s.apply options = .ok s' → Accepted s'
  | withMaxMemoryLimit {s s' : Settings} {bytes : Nat} : Accepted s → bytes ≤ maxWord →
      s.withMaxMemoryLimit bytes = .ok s' → Accepted s'

/-! ## What the checks establish -/

/-- What each option satisfies by itself. -/
structure OptionsSound (s : Settings) : Prop where
  segmentSize_mod : s.segmentSize % 16 = 0
  minSegmentSize_le : minSegmentSize ≤ s.segmentSize
  le_maxSegmentSize : s.segmentSize ≤ maxSegmentSize
  maxSegmentLimit_pos : 0 < s.maxSegmentLimit
  maxMemoryLimit_le : s.maxMemoryLimit ≤ maxWord
  sizes_ne_nil : s.chunkSizes.toList ≠ []
  sizes_ascending : s.chunkSizes.toList.Pairwise (· < ·)

/-- What the options of settings satisfy together. -/
structure Sound (s : Settings) : Prop extends OptionsSound s where
  segmentSize_le_limit : s.segmentSize ≤ s.maxMemoryLimit
  sizes_fit : ∀ n ∈ s.chunkSizes.toList, roundUp n + headerSize ≤ s.segmentSize

/-- A computation that succeeds does so step by step. -/
theorem exists_of_bind_eq_ok {ε α β : Type} {x : Except ε α} {f : α → Except ε β} {b : β}
    (h : x >>= f = .ok b) : ∃ a, x = .ok a ∧ f a = .ok b := by
  cases x with
  | error e => simp [bind, Except.bind] at h
  | ok a => exact ⟨a, rfl, h⟩

/-- A computation succeeds exactly if it does so step by step. -/
theorem bind_eq_ok_iff {ε α β : Type} {x : Except ε α} {f : α → Except ε β} {b : β} :
    x >>= f = .ok b ↔ ∃ a, x = .ok a ∧ f a = .ok b := by
  constructor
  · exact exists_of_bind_eq_ok
  · rintro ⟨a, rfl, h⟩
    exact h

/-- An option that is not given keeps its value, and one that is given is read. -/
theorem setting_cases {α β : Type} {read : α → Except ConfigError β} {current value : β}
    {option : Option α} (h : setting read current option = .ok value) :
    (option = none ∧ value = current) ∨ ∃ a, option = some a ∧ read a = .ok value := by
  cases option with
  | none => exact .inl ⟨rfl, (Except.ok.inj h).symm⟩
  | some a => exact .inr ⟨a, rfl, h⟩

theorem positive_eq_ok {option : ConfigOption} {n : Int} {m : Nat}
    (h : positive option n = .ok m) : 0 < n ∧ m = n.toNat := by
  unfold positive at h
  split at h
  · simp at h
  · rename_i hn
    exact ⟨by omega, (Except.ok.inj h).symm⟩

/-- A segment size that is accepted is aligned and within its bounds. -/
theorem segmentSizeOf_eq_ok {n : Int} {size : Nat} (h : segmentSizeOf n = .ok size) :
    size % 16 = 0 ∧ minSegmentSize ≤ size ∧ size ≤ maxSegmentSize := by
  obtain ⟨m, -, h⟩ := exists_of_bind_eq_ok h
  simp only at h
  split at h
  · rename_i hbounds
    have hsize : roundUp m = size := Except.ok.inj h
    rw [← hsize]
    exact ⟨roundUp_mod m, hbounds⟩
  · simp [throw, throwThe, MonadExceptOf.throw] at h

theorem pairwise_of_isAscending (ns : List Nat) (h : ChunkSizes.isAscending ns = true) :
    ns.Pairwise (· < ·) := by
  fun_induction ChunkSizes.isAscending ns with
  | case1 m n ns ih =>
    simp only [Bool.and_eq_true, decide_eq_true_eq] at h
    have hrest := ih h.2
    refine List.pairwise_cons.2 ⟨?_, hrest⟩
    intro k hk
    rcases List.mem_cons.1 hk with rfl | hk
    · exact h.1
    · exact Nat.lt_trans h.1 ((List.pairwise_cons.1 hrest).1 k hk)
  | case2 ns hshort =>
    match ns, hshort with
    | [], _ => exact List.Pairwise.nil
    | [n], _ => exact List.pairwise_singleton _ n
    | m :: n :: ns, hshort => exact absurd rfl (hshort m n ns)

/-- Lists of sizes are accepted as they are if they ascend and there is a size. -/
theorem ofList_eq_ok_iff {given : List Nat} {sizes : ChunkSizes} :
    ChunkSizes.ofList given = .ok sizes ↔ given ≠ [] ∧ 0 ∉ given ∧
      ChunkSizes.isAscending given = true ∧ sizes.toList = given := by
  unfold ChunkSizes.ofList
  constructor
  · intro h
    split at h
    · simp at h
    · rename_i hne
      split at h
      · simp at h
      · rename_i hzero
        split at h
        · rename_i hascending
          obtain rfl := Except.ok.inj h
          exact ⟨hne, hzero, hascending, rfl⟩
        · simp at h
  · rintro ⟨hne, hzero, hascending, rfl⟩
    rw [if_neg hne, if_neg hzero, if_pos hascending]

/-- Sizes that are accepted as a list ascend, and there is one. -/
theorem ofList_eq_ok {sizes : List Nat} {c : ChunkSizes} (h : ChunkSizes.ofList sizes = .ok c) :
    c.toList ≠ [] ∧ c.toList.Pairwise (· < ·) := by
  obtain ⟨hne, -, hascending, hlist⟩ := ofList_eq_ok_iff.1 h
  rw [hlist]
  exact ⟨hne, pairwise_of_isAscending sizes hascending⟩

theorem chunkSizesOf_eq_ok {spec : SizesSpec} {c : ChunkSizes} (h : chunkSizesOf spec = .ok c) :
    c.toList ≠ [] ∧ c.toList.Pairwise (· < ·) := by
  cases spec with
  | text s =>
    obtain ⟨sizes, -, h⟩ := exists_of_bind_eq_ok h
    exact ofList_eq_ok h
  | list ns =>
    obtain ⟨sizes, -, h⟩ := exists_of_bind_eq_ok h
    exact ofList_eq_ok h

/-- The last of ascending numbers is the largest. -/
theorem le_getLastD (ns : List Nat) (h : ns.Pairwise (· < ·)) : ∀ n ∈ ns, n ≤ ns.getLastD 0 := by
  intro n hn
  rcases List.eq_nil_or_concat ns with rfl | ⟨ms, m, rfl⟩
  · simp at hn
  · rw [List.concat_eq_append] at *
    rw [List.getLastD_concat]
    rcases List.mem_append.1 hn with hn | hn
    · exact Nat.le_of_lt ((List.pairwise_append.1 h).2.2 n hn m List.mem_cons_self)
    · exact Nat.le_of_eq (List.mem_singleton.1 hn)

/-- Settings pass the checks between options if the classes fit into a segment and a segment into the
memory limit. -/
theorem validate_eq_ok_iff {s s' : Settings} : s.validate = .ok s' ↔
    satAdd (roundUp s.chunkSizes.largest) headerSize ≤ s.segmentSize ∧
      s.segmentSize ≤ s.maxMemoryLimit ∧ s = s' := by
  unfold validate
  split
  · rename_i hclasses
    simp [Nat.not_le.2 hclasses]
  · rename_i hclasses
    split
    · rename_i hlimit
      simp [Nat.not_le.2 hlimit]
    · rename_i hlimit
      simp [Nat.not_lt.1 hclasses, Nat.not_lt.1 hlimit]

/-- A sum that is compared with the size of a segment is not cut off, as segments are far smaller than
a word. -/
theorem satAdd_le_iff {n size : Nat} (hsize : size ≤ maxSegmentSize) :
    satAdd n headerSize ≤ size ↔ n + headerSize ≤ size := by
  unfold satAdd maxWord maxSegmentSize at *
  omega

/-- Settings that pass the checks between options are sound if each option is. -/
theorem sound_of_validate {s s' : Settings} (hs : s.OptionsSound)
    (h : s.validate = .ok s') : s'.Sound := by
  obtain ⟨hlargest, hlimit, rfl⟩ := validate_eq_ok_iff.1 h
  rw [satAdd_le_iff hs.le_maxSegmentSize] at hlargest
  refine ⟨hs, hlimit, ?_⟩
  intro n hn
  have hle : n ≤ s.chunkSizes.largest := le_getLastD _ hs.sizes_ascending n hn
  exact Nat.le_trans (Nat.add_le_add_right (roundUp_mono hle) headerSize) hlargest

theorem sound_standard : standard.Sound where
  segmentSize_mod := by decide
  minSegmentSize_le := by decide
  le_maxSegmentSize := by decide
  maxSegmentLimit_pos := by decide
  maxMemoryLimit_le := by decide
  sizes_ne_nil := by decide
  sizes_ascending := by decide
  segmentSize_le_limit := by decide
  sizes_fit := by decide

/-- A section keeps settings sound. -/
theorem Sound.apply {s s' : Settings} {options : ConfigSection} (hs : s.Sound)
    (hsigned : options.IsSigned) (h : s.apply options = .ok s') : s'.Sound := by
  obtain ⟨allocMode, -, h⟩ := exists_of_bind_eq_ok h
  obtain ⟨freeListSize, -, h⟩ := exists_of_bind_eq_ok h
  obtain ⟨maxSegmentLimit, hsegments, h⟩ := exists_of_bind_eq_ok h
  obtain ⟨segmentSize, hsegment, h⟩ := exists_of_bind_eq_ok h
  obtain ⟨maxMemoryLimit, hmemory, h⟩ := exists_of_bind_eq_ok h
  obtain ⟨chunkSizes, hsizes, h⟩ := exists_of_bind_eq_ok h
  have hsegment' : segmentSize % 16 = 0 ∧ minSegmentSize ≤ segmentSize ∧
      segmentSize ≤ maxSegmentSize := by
    rcases setting_cases hsegment with ⟨-, rfl⟩ | ⟨n, -, hn⟩
    · exact ⟨hs.segmentSize_mod, hs.minSegmentSize_le, hs.le_maxSegmentSize⟩
    · exact segmentSizeOf_eq_ok hn
  have hsizes' : chunkSizes.toList ≠ [] ∧ chunkSizes.toList.Pairwise (· < ·) := by
    rcases setting_cases hsizes with ⟨-, rfl⟩ | ⟨spec, -, hspec⟩
    · exact ⟨hs.sizes_ne_nil, hs.sizes_ascending⟩
    · exact chunkSizesOf_eq_ok hspec
  apply sound_of_validate _ h
  refine ⟨hsegment'.1, hsegment'.2.1, hsegment'.2.2, ?_, ?_, hsizes'.1, hsizes'.2⟩
  · rcases setting_cases hsegments with ⟨-, rfl⟩ | ⟨n, -, hn⟩
    · exact hs.maxSegmentLimit_pos
    · have := positive_eq_ok hn
      show 0 < maxSegmentLimit
      omega
  · rcases setting_cases hmemory with ⟨-, rfl⟩ | ⟨n, hgiven, hn⟩
    · exact hs.maxMemoryLimit_le
    · -- the only option without a bound of its own: here the type of the numbers is needed
      have hmem : n ∈ options.numbers := by simp [ConfigSection.numbers, hgiven]
      have hbound := (hsigned n hmem).2
      obtain ⟨hpos, rfl⟩ := positive_eq_ok hn
      unfold maxSigned at hbound
      simp only [maxWord]
      omega

/-- Another memory limit keeps settings sound. -/
theorem Sound.withMaxMemoryLimit {s s' : Settings} {bytes : Nat} (hs : s.Sound)
    (hbytes : bytes ≤ maxWord) (h : s.withMaxMemoryLimit bytes = .ok s') : s'.Sound := by
  unfold Settings.withMaxMemoryLimit at h
  split at h
  · simp at h
  · apply sound_of_validate _ h
    exact { hs.toOptionsSound with maxMemoryLimit_le := hbytes }

/-- **All settings that can come about are sound.** -/
theorem Accepted.sound {s : Settings} (h : s.Accepted) : s.Sound := by
  induction h with
  | standard => exact sound_standard
  | apply _ hsigned happly ih => exact ih.apply hsigned happly
  | withMaxMemoryLimit _ hbytes hlimit ih => exact ih.withMaxMemoryLimit hbytes hlimit

/-- The standard settings with two small classes in place of the standard ones. -/
def twoClasses : Settings := { standard with chunkSizes := ⟨[16, 64]⟩ }

theorem accepted_twoClasses : twoClasses.Accepted :=
  @Accepted.apply .standard _ { freeChunkSizes := some (.list [16, 64]) } .standard (by decide) rfl

end Settings

/-! ## The policy of sound settings -/

/-- What segments rely on in their policy. -/
structure AllocationPolicy.Sound (policy : AllocationPolicy) : Prop where
  classes : policy.classes.WellFormed
  classes_fit : ∀ c ∈ policy.classes.capacities, c + headerSize ≤ policy.segmentSize
  segmentSize_mod : policy.segmentSize % 16 = 0
  le_maxSegmentSize : policy.segmentSize ≤ maxSegmentSize

/-- The size of a segment is far below the largest word. -/
theorem AllocationPolicy.Sound.segmentSize_lt_maxWord {policy : AllocationPolicy}
    (hp : policy.Sound) : policy.segmentSize < maxWord :=
  Nat.lt_of_le_of_lt hp.le_maxSegmentSize (by decide)

/-- There are far fewer lists than words of four bytes. -/
theorem AllocationPolicy.Sound.listCount_lt {policy : AllocationPolicy} (hp : policy.Sound) :
    policy.classes.listCount < 4294967295 := by
  have hnd : policy.classes.capacities.Nodup :=
    hp.classes.ascending.imp fun h => Nat.ne_of_lt h
  -- different capacities below the segment size: there are not more of them than that
  have hsub : policy.classes.capacities ⊆ List.range policy.segmentSize := by
    intro c hc
    have := hp.classes_fit c hc
    unfold headerSize at this
    exact List.mem_range.2 (by omega)
  have hlen := (hnd.subperm hsub).length_le
  have hmax := hp.le_maxSegmentSize
  rw [List.length_range] at hlen
  unfold maxSegmentSize at hmax
  unfold ClassTable.listCount
  omega

/-- Sound settings ask for a sound policy. -/
theorem Settings.Sound.policy {s : Settings} (h : s.Sound) :
    (AllocationPolicy.ofSettings s).Sound := by
  have hfit : ∀ n ∈ s.chunkSizes.toList,
      ClassTable.capacityOf n + headerSize ≤ s.segmentSize := by
    intro n hn
    have hround := h.sizes_fit n hn
    -- the smallest room is a matter of 16 bytes, which every segment has
    have hmin := h.minSegmentSize_le
    unfold minSegmentSize at hmin
    unfold ClassTable.capacityOf minCapacity headerSize at *
    omega
  have hmax := h.le_maxSegmentSize
  refine ⟨?_, ?_, h.segmentSize_mod, hmax⟩
  · apply ClassTable.wellFormed_ofSizes _ h.sizes_ne_nil h.sizes_ascending
    intro n hn
    have := hfit n hn
    unfold maxSegmentSize at hmax
    unfold maxWord
    omega
  · intro c hc
    obtain ⟨n, hn, rfl⟩ := List.mem_map.1 ((ClassTable.mem_dropRepeats c _).1 hc)
    exact hfit n hn

end ObjectPile
