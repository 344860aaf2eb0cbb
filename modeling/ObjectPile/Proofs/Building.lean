/-
# What builders make of the values they are given

A builder may be told any word for each of its options, and each as often as one likes. The values
pass through the numbers of a document, which end at half of the words: a larger one is replaced by
the largest of these. For the segment size and for the sizes of classes that makes no difference, as
the checks refuse both long before; the memory limit takes another way. But nothing bounds the number
of free chunks and the number of segments, so that for these two a larger value is taken for the
largest one without a word.

* `Builder.Call`, `Builder.ofCalls` : calling a builder.
* `Builder.value?_ofCalls` : a builder keeps what it was given last.
* `Builder.settings_eq_ok_iff` : which values are accepted, and the settings that come of them.
* `Builder.Kept`, `Builder.kept_of_calls` : what can be relied on after any calls.
* `Builder.saturated` : a number of free chunks that is accepted and not kept.
-/
import ObjectPile.Proofs.CheckedSettings

namespace ObjectPile

namespace Builder

/-! ## Calls -/

/-- The options of a builder. -/
inductive Field where
  | name
  | allocMode
  | freeListSize
  | maxSegmentLimit
  | segmentSize
  | maxMemoryLimit
  | chunkSizes
  deriving DecidableEq, Repr

/-- The values of an option. -/
def Field.Value : Field → Type
  | .name => String
  | .allocMode => AllocationMode
  | .chunkSizes => ChunkSizes
  | _ => Nat

/-- What a builder can be told. -/
inductive Call where
  | name (s : String)
  | allocMode (mode : AllocationMode)
  | freeListSize (n : Nat)
  | maxSegmentLimit (n : Nat)
  | segmentSize (bytes : Nat)
  | maxMemoryLimit (bytes : Nat)
  | chunkSizes (sizes : ChunkSizes)

/-- The sizes of classes in a call have been accepted as such. All numbers are allowed. -/
def Call.IsTyped : Call → Prop
  | .chunkSizes sizes => ChunkSizes.ofList sizes.toList = .ok sizes
  | _ => True

instance : (call : Call) → Decidable call.IsTyped
  | .chunkSizes sizes =>
    inferInstanceAs (Decidable (ChunkSizes.ofList sizes.toList = .ok sizes))
  | .name _ | .allocMode _ | .freeListSize _ | .maxSegmentLimit _ | .segmentSize _
  | .maxMemoryLimit _ => inferInstanceAs (Decidable True)

/-- The value that a call gives to an option. -/
def Call.value? : Call → (field : Field) → Option field.Value
  | .name s, .name => some s
  | .allocMode mode, .allocMode => some mode
  | .freeListSize n, .freeListSize => some n
  | .maxSegmentLimit n, .maxSegmentLimit => some n
  | .segmentSize n, .segmentSize => some n
  | .maxMemoryLimit n, .maxMemoryLimit => some n
  | .chunkSizes sizes, .chunkSizes => some sizes
  | _, _ => none

/-- The value that a builder has for an option. -/
def value? (b : Builder) : (field : Field) → Option field.Value
  | .name => b.name
  | .allocMode => b.allocMode
  | .freeListSize => b.freeListSize
  | .maxSegmentLimit => b.maxSegmentLimit
  | .segmentSize => b.segmentSize
  | .maxMemoryLimit => b.maxMemoryLimit
  | .chunkSizes => b.chunkSizes

/-- The builder after a call. -/
def give (b : Builder) : Call → Builder
  | .name s => { b with name := some s }
  | .allocMode mode => { b with allocMode := some mode }
  | .freeListSize n => { b with freeListSize := some n }
  | .maxSegmentLimit n => { b with maxSegmentLimit := some n }
  | .segmentSize n => { b with segmentSize := some n }
  | .maxMemoryLimit n => { b with maxMemoryLimit := some n }
  | .chunkSizes sizes => { b with chunkSizes := some sizes }

/-- The builder after some calls. -/
def ofCalls (calls : List Call) : Builder := calls.foldl give {}

/-- The value that some calls give last to an option. -/
def lastGiven (calls : List Call) (field : Field) : Option field.Value :=
  calls.reverse.findSome? (·.value? field)

/-- A call gives its option a value and leaves the others. -/
theorem value?_give (b : Builder) (call : Call) (field : Field) :
    (b.give call).value? field = (call.value? field).or (b.value? field) := by
  cases call <;> cases field <;> rfl

/-- **A builder keeps what it was given last.** -/
theorem value?_ofCalls (calls : List Call) (field : Field) :
    (ofCalls calls).value? field = lastGiven calls field := by
  induction calls using List.reverseRecOn with
  | nil => cases field <;> rfl
  | append_singleton calls call ih =>
    unfold ofCalls lastGiven at *
    rw [List.foldl_append, List.foldl_cons, List.foldl_nil, value?_give, ih, List.reverse_append,
      List.reverse_cons, List.reverse_nil, List.nil_append, List.singleton_append,
      List.findSome?_cons]
    cases call.value? field <;> rfl

/-! ## Options as they are read -/

/-- The numbers of things that come of a given number, or of none: the given one, cut at the largest
number of a document. -/
theorem setting_count {option : ConfigOption} {current : Nat} (hcurrent : current ≤ maxSigned)
    (given : Option Nat) : Settings.setting (Settings.count option) current (given.map saturate) =
      .ok (min (given.getD current) maxSigned) := by
  cases given with
  | none => exact congrArg Except.ok (Nat.min_eq_left hcurrent).symm
  | some n =>
    show Settings.count option (saturate n) = .ok (min n maxSigned)
    unfold Settings.count saturate maxSigned
    rw [if_neg (by omega), Except.ok.injEq]
    omega

/-- Of the numbers that may not be zero, all others are accepted. -/
theorem positive_saturate_iff {option : ConfigOption} {k n : Nat} :
    Settings.positive option (saturate k) = .ok n ↔ 0 < k ∧ min k maxSigned = n := by
  unfold Settings.positive saturate maxSigned
  split
  · simp
    omega
  · rw [Except.ok.injEq]
    omega

theorem setting_positive_iff {option : ConfigOption} {current : Nat} (hpos : 0 < current)
    (hcurrent : current ≤ maxSigned) (given : Option Nat) {n : Nat} :
    Settings.setting (Settings.positive option) current (given.map saturate) = .ok n ↔
      0 < given.getD current ∧ min (given.getD current) maxSigned = n := by
  cases given with
  | none =>
    show Except.ok current = .ok n ↔ 0 < current ∧ min current maxSigned = n
    rw [Nat.min_eq_left hcurrent, Except.ok.injEq, and_iff_right hpos]
  | some k => exact positive_saturate_iff

/-- A segment size is accepted if it is within the bounds, which the largest number of a document is
not. -/
theorem segmentSizeOf_saturate_iff {k size : Nat} :
    Settings.segmentSizeOf (saturate k) = .ok size ↔
      (minSegmentSize ≤ roundUp k ∧ roundUp k ≤ maxSegmentSize) ∧ roundUp k = size := by
  unfold Settings.segmentSizeOf
  rw [Settings.bind_eq_ok_iff]
  have hbounds : ∀ n, 0 < k → min k maxSigned = n → (roundUp n = roundUp k ∨
      (maxSegmentSize < roundUp n ∧ maxSegmentSize < roundUp k)) := by
    intro n _ hn
    have hle := le_roundUp k
    have hround := le_roundUp n
    rcases Nat.le_total k maxSigned with hsmall | hlarge
    · left
      rw [← hn, Nat.min_eq_left hsmall]
    · right
      rw [Nat.min_eq_right hlarge] at hn
      unfold maxSegmentSize maxSigned at *
      omega
  constructor
  · rintro ⟨n, hn, hsize⟩
    obtain ⟨hpos, hmin⟩ := positive_saturate_iff.1 hn
    simp only at hsize
    split at hsize
    · rename_i hwithin
      have hsize : roundUp n = size := Except.ok.inj hsize
      rcases hbounds n hpos hmin with heq | ⟨hlarge, -⟩
      · rw [← heq]
        exact ⟨hwithin, hsize⟩
      · exact absurd hwithin.2 (Nat.not_le.2 hlarge)
    · simp [throw, throwThe, MonadExceptOf.throw] at hsize
  · rintro ⟨hwithin, rfl⟩
    have hpos : 0 < k := by
      rcases Nat.eq_zero_or_pos k with rfl | hpos
      · exact absurd hwithin.1 (by decide)
      · exact hpos
    refine ⟨_, positive_saturate_iff.2 ⟨hpos, rfl⟩, ?_⟩
    rcases hbounds _ hpos rfl with heq | ⟨-, hlarge⟩
    · simp only [heq]
      exact if_pos hwithin
    · exact absurd hwithin.2 (Nat.not_le.2 hlarge)

theorem setting_segmentSizeOf_iff (given : Option Nat) {size : Nat} :
    Settings.setting Settings.segmentSizeOf Settings.standard.segmentSize (given.map saturate) =
        .ok size ↔
      (minSegmentSize ≤ (given.map roundUp).getD Settings.standard.segmentSize ∧
        (given.map roundUp).getD Settings.standard.segmentSize ≤ maxSegmentSize) ∧
          (given.map roundUp).getD Settings.standard.segmentSize = size := by
  cases given with
  | none =>
    show Except.ok Settings.standard.segmentSize = .ok size ↔
      (minSegmentSize ≤ Settings.standard.segmentSize ∧
        Settings.standard.segmentSize ≤ maxSegmentSize) ∧ Settings.standard.segmentSize = size
    rw [Except.ok.injEq, and_iff_right (by decide)]
  | some k => exact segmentSizeOf_saturate_iff

theorem setting_allocMode (given : Option AllocationMode) :
    Settings.setting AllocationMode.ofText Settings.standard.allocMode
      (given.map AllocationMode.name) = .ok (given.getD Settings.standard.allocMode) := by
  cases given with
  | none => rfl
  | some mode => cases mode <;> decide

/-! ## Classes as they are read -/

/-- The sizes with every one cut at the largest number of a document. -/
def cutSizes (sizes : ChunkSizes) : List Nat := sizes.toList.map (min · maxSigned)

theorem mapM_saturate (ns : List Nat) :
    (ns.map saturate).mapM Settings.chunkSizeOf = .ok (ns.map (min · maxSigned)) := by
  induction ns with
  | nil => rfl
  | cons n ns ih =>
    have hread : Settings.chunkSizeOf (saturate n) = .ok (min n maxSigned) := by
      unfold Settings.chunkSizeOf saturate maxSigned
      rw [if_neg (by omega), Except.ok.injEq]
      omega
    rw [List.map_cons, List.mapM_cons, hread, ih]
    rfl

/-- Sizes that a builder hands over are read as they are cut. -/
theorem chunkSizesOf_saturate (sizes : ChunkSizes) :
    Settings.chunkSizesOf (.list (sizes.toList.map saturate)) =
      ChunkSizes.ofList (cutSizes sizes) := by
  unfold Settings.chunkSizesOf
  simp only [mapM_saturate]
  rfl

/-- If the largest size is below the largest number of a document, no size is cut. -/
theorem cutSizes_eq {sizes : ChunkSizes} (hascending : sizes.toList.Pairwise (· < ·))
    (hlargest : sizes.largest ≤ maxSigned) : cutSizes sizes = sizes.toList := by
  refine (List.map_congr_left ?_).trans (List.map_id _)
  intro n hn
  exact Nat.min_eq_left (Nat.le_trans (Settings.le_getLastD _ hascending n hn) hlargest)

/-- The largest of the sizes that are cut is the largest size, cut. -/
theorem largest_of_cutSizes {sizes cut : ChunkSizes} (h : cut.toList = cutSizes sizes) :
    cut.largest = min sizes.largest maxSigned := by
  unfold ChunkSizes.largest
  rw [h, cutSizes, List.getLastD_eq_getLast?, List.getLastD_eq_getLast?, List.getLast?_map]
  cases sizes.toList.getLast? with
  | none => exact (Nat.zero_min _).symm
  | some n => rfl

/-- **Sizes of which the largest fits into a segment are read as they are.** -/
theorem chunkSizesOf_saturate_iff {sizes cut : ChunkSizes} {bound : Nat}
    (haccepted : ChunkSizes.ofList sizes.toList = .ok sizes) (hbound : bound < maxSigned) :
    (Settings.chunkSizesOf (.list (sizes.toList.map saturate)) = .ok cut ∧
        roundUp cut.largest ≤ bound) ↔ cut = sizes ∧ roundUp sizes.largest ≤ bound := by
  have hascending := (Settings.ofList_eq_ok haccepted).2
  rw [chunkSizesOf_saturate]
  constructor
  · rintro ⟨hread, hfits⟩
    have hcut := (Settings.ofList_eq_ok_iff.1 hread).2.2.2
    have hlargest := largest_of_cutSizes hcut
    have hround := le_roundUp cut.largest
    rw [cutSizes_eq hascending (by omega), haccepted] at hread
    obtain rfl := Except.ok.inj hread
    exact ⟨rfl, hfits⟩
  · rintro ⟨rfl, hfits⟩
    have hround := le_roundUp cut.largest
    rw [cutSizes_eq hascending (by omega)]
    exact ⟨haccepted, hfits⟩

theorem setting_chunkSizesOf_iff {given : Option ChunkSizes} {cut : ChunkSizes} {bound : Nat}
    (haccepted : ∀ sizes ∈ given, ChunkSizes.ofList sizes.toList = .ok sizes)
    (hbound : bound < maxSigned) :
    (Settings.setting Settings.chunkSizesOf Settings.standard.chunkSizes
          (given.map fun sizes => .list (sizes.toList.map saturate)) = .ok cut ∧
        roundUp cut.largest ≤ bound) ↔
      cut = given.getD Settings.standard.chunkSizes ∧
        roundUp (given.getD Settings.standard.chunkSizes).largest ≤ bound := by
  cases given with
  | none =>
    show (Except.ok Settings.standard.chunkSizes = .ok cut ∧ _) ↔
      cut = Settings.standard.chunkSizes ∧ roundUp Settings.standard.chunkSizes.largest ≤ bound
    rw [Except.ok.injEq, eq_comm]
    constructor
    · rintro ⟨rfl, hfits⟩
      exact ⟨rfl, hfits⟩
    · rintro ⟨rfl, hfits⟩
      exact ⟨rfl, hfits⟩
  | some sizes => exact chunkSizesOf_saturate_iff (haccepted sizes rfl) hbound

/-! ## Settings as they come about -/

/-- The settings with the values given, and the standard ones for what is not given. -/
def asked (given : (field : Field) → Option field.Value) : Settings where
  allocMode := (given .allocMode).getD Settings.standard.allocMode
  freeListSize := (given .freeListSize).getD Settings.standard.freeListSize
  maxSegmentLimit := (given .maxSegmentLimit).getD Settings.standard.maxSegmentLimit
  segmentSize := (Option.map roundUp (given .segmentSize)).getD Settings.standard.segmentSize
  maxMemoryLimit := (given .maxMemoryLimit).getD Settings.standard.maxMemoryLimit
  chunkSizes := (given .chunkSizes).getD Settings.standard.chunkSizes

end Builder

namespace Settings

/-- The settings with the two counts cut at the largest number of a document. -/
def cut (s : Settings) : Settings :=
  { s with
    freeListSize := min s.freeListSize maxSigned
    maxSegmentLimit := min s.maxSegmentLimit maxSigned }

/-- What is checked of the settings that a builder is asked for. -/
structure Fits (s : Settings) : Prop where
  maxSegmentLimit_pos : 0 < s.maxSegmentLimit
  minSegmentSize_le : minSegmentSize ≤ s.segmentSize
  le_maxSegmentSize : s.segmentSize ≤ maxSegmentSize
  /-- A segment has room for a chunk of the largest class. -/
  classes_le : roundUp s.chunkSizes.largest + headerSize ≤ s.segmentSize
  /-- The memory limit allows one segment. -/
  segmentSize_le : s.segmentSize ≤ s.maxMemoryLimit

end Settings

namespace Builder

/-- The settings that a builder is asked for, with any memory limit. -/
def askedUnlimited (b : Builder) : Settings := { asked b.value? with maxMemoryLimit := maxWord }

/-- The options of a builder without its memory limit are accepted if they fit, and cut. -/
theorem apply_options_iff {b : Builder}
    (haccepted : ∀ sizes ∈ b.chunkSizes, ChunkSizes.ofList sizes.toList = .ok sizes) {s : Settings} :
    Settings.standard.apply b.options = .ok s ↔
      b.askedUnlimited.Fits ∧ b.askedUnlimited.cut = s := by
  have hstandard : Settings.standard.freeListSize ≤ maxSigned ∧
    0 < Settings.standard.maxSegmentLimit ∧ Settings.standard.maxSegmentLimit ≤ maxSigned := by decide
  have hbelow : ∀ {size : Nat}, size ≤ maxSegmentSize → size - headerSize < maxSigned := by
    intro size hsize
    unfold maxSegmentSize maxSigned at *
    omega
  constructor
  · intro h
    obtain ⟨allocMode, hmode, h⟩ := Settings.exists_of_bind_eq_ok h
    obtain ⟨freeListSize, hcount, h⟩ := Settings.exists_of_bind_eq_ok h
    obtain ⟨maxSegmentLimit, hlimit, h⟩ := Settings.exists_of_bind_eq_ok h
    obtain ⟨segmentSize, hsegment, h⟩ := Settings.exists_of_bind_eq_ok h
    obtain ⟨maxMemoryLimit, hmemory, h⟩ := Settings.exists_of_bind_eq_ok h
    obtain ⟨chunkSizes, hclasses, h⟩ := Settings.exists_of_bind_eq_ok h
    obtain rfl := Except.ok.inj ((setting_allocMode b.allocMode).symm.trans hmode)
    obtain rfl := Except.ok.inj ((setting_count hstandard.1 b.freeListSize).symm.trans hcount)
    obtain ⟨hpos, rfl⟩ := (setting_positive_iff hstandard.2.1 hstandard.2.2 _).1 hlimit
    obtain ⟨⟨hmin, hmax⟩, rfl⟩ := (setting_segmentSizeOf_iff b.segmentSize).1 hsegment
    obtain rfl := Except.ok.inj hmemory
    obtain ⟨hfits, hword, rfl⟩ := Settings.validate_eq_ok_iff.1 h
    obtain ⟨rfl, -⟩ := (setting_chunkSizesOf_iff haccepted (hbelow hmax)).1
      ⟨hclasses, Nat.le_sub_of_add_le ((Settings.satAdd_le_iff hmax).1 hfits)⟩
    exact ⟨⟨hpos, hmin, hmax, (Settings.satAdd_le_iff hmax).1 hfits, hword⟩, rfl⟩
  · rintro ⟨hfits, rfl⟩
    have hmax := hfits.le_maxSegmentSize
    obtain ⟨hclasses, -⟩ := (setting_chunkSizesOf_iff haccepted (hbelow hmax)).2
      ⟨rfl, Nat.le_sub_of_add_le hfits.classes_le⟩
    have hlimit : Settings.setting (Settings.positive .maxSegmentLimit)
        Settings.standard.maxSegmentLimit (b.maxSegmentLimit.map saturate) = .ok _ :=
      (setting_positive_iff hstandard.2.1 hstandard.2.2 _).2 ⟨hfits.maxSegmentLimit_pos, rfl⟩
    have hsegment := (setting_segmentSizeOf_iff b.segmentSize).2
      ⟨⟨hfits.minSegmentSize_le, hmax⟩, rfl⟩
    refine Settings.bind_eq_ok_iff.2 ⟨_, setting_allocMode _, ?_⟩
    refine Settings.bind_eq_ok_iff.2 ⟨_, setting_count hstandard.1 _, ?_⟩
    refine Settings.bind_eq_ok_iff.2 ⟨_, hlimit, ?_⟩
    refine Settings.bind_eq_ok_iff.2 ⟨_, hsegment, ?_⟩
    refine Settings.bind_eq_ok_iff.2 ⟨_, rfl, ?_⟩
    refine Settings.bind_eq_ok_iff.2 ⟨_, hclasses, ?_⟩
    exact Settings.validate_eq_ok_iff.2
      ⟨(Settings.satAdd_le_iff hmax).2 hfits.classes_le, hfits.segmentSize_le, rfl⟩

/-- **The settings that a builder is asked for are accepted exactly if they fit**, and what comes of
them are these settings, with the two counts cut. -/
theorem settings_eq_ok_iff {b : Builder}
    (haccepted : ∀ sizes ∈ b.chunkSizes, ChunkSizes.ofList sizes.toList = .ok sizes) {s : Settings} :
    b.settings = .ok s ↔ (asked b.value?).Fits ∧ (asked b.value?).cut = s := by
  unfold settings
  rw [Settings.bind_eq_ok_iff]
  cases hgiven : b.maxMemoryLimit with
  | none =>
    have hasked : asked b.value? = b.askedUnlimited := by
      unfold askedUnlimited asked value?
      rw [hgiven]
      rfl
    rw [hasked]
    constructor
    · rintro ⟨applied, happly, h⟩
      obtain rfl := Except.ok.inj h
      exact (apply_options_iff haccepted).1 happly
    · intro h
      exact ⟨s, (apply_options_iff haccepted).2 h, rfl⟩
  | some bytes =>
    have hasked : asked b.value? = { b.askedUnlimited with maxMemoryLimit := bytes } := by
      unfold askedUnlimited asked value?
      rw [hgiven]
      rfl
    rw [hasked]
    simp only
    unfold Settings.withMaxMemoryLimit
    constructor
    · rintro ⟨applied, happly, h⟩
      obtain ⟨hfits, rfl⟩ := (apply_options_iff haccepted).1 happly
      split at h
      · simp at h
      · obtain ⟨-, hlimit, rfl⟩ := Settings.validate_eq_ok_iff.1 h
        exact ⟨{ hfits with segmentSize_le := hlimit }, rfl⟩
    · rintro ⟨hfits, rfl⟩
      have hmin := hfits.minSegmentSize_le
      have hmax := hfits.le_maxSegmentSize
      have hlimit : b.askedUnlimited.segmentSize ≤ bytes := hfits.segmentSize_le
      refine ⟨_, (apply_options_iff haccepted).2 ⟨{ hfits with segmentSize_le := ?_ }, rfl⟩, ?_⟩
      · exact Nat.le_trans hmax (show maxSegmentSize ≤ maxWord by decide)
      · rw [if_neg]
        · exact Settings.validate_eq_ok_iff.2
            ⟨Nat.le_trans (Nat.min_le_left _ _) hfits.classes_le, hlimit, rfl⟩
        · intro hzero
          rw [hzero] at hlimit
          exact absurd (Nat.le_trans hmin hlimit) (by decide)

/-! ## What can be relied on -/

/-- **What can be relied on after some calls of a builder.** -/
structure Kept (calls : List Call) (id : Nat) : Prop where
  /-- A pile is built exactly if the values given last fit; it has these, with the two counts cut. -/
  build_eq_ok_iff : ∀ p, (ofCalls calls).build id = .ok p ↔
    (asked (lastGiven calls)).Fits ∧
      p = .ofSettings id (lastGiven calls .name) (asked (lastGiven calls)).cut .configured
  /-- Unless one of the two counts is a number that no document can hold, the settings are those that
  were asked for. -/
  settings_eq : ∀ p, (ofCalls calls).build id = .ok p →
    (asked (lastGiven calls)).freeListSize ≤ maxSigned →
      (asked (lastGiven calls)).maxSegmentLimit ≤ maxSigned →
        p.settings = asked (lastGiven calls)
  /-- A segment size that no document can hold is refused. -/
  refuses_segmentSize : ∀ bytes : Nat, lastGiven calls .segmentSize = some bytes →
    maxSigned < bytes → ∃ e, (ofCalls calls).build id = .error e
  /-- So is every class of such a size. -/
  refuses_class : ∀ sizes : ChunkSizes, lastGiven calls .chunkSizes = some sizes →
    ∀ n ∈ sizes.toList, maxSigned < n → ∃ e, (ofCalls calls).build id = .error e

/-- The sizes that are given last are accepted ones if all are. -/
theorem ofList_of_lastGiven {calls : List Call} (htyped : ∀ call ∈ calls, call.IsTyped)
    {sizes : ChunkSizes} (h : lastGiven calls .chunkSizes = some sizes) :
    ChunkSizes.ofList sizes.toList = .ok sizes := by
  obtain ⟨call, hcall, hvalue⟩ := List.exists_of_findSome?_eq_some h
  have hcalltyped := htyped call (List.mem_reverse.1 hcall)
  cases call with
  | chunkSizes given =>
    obtain rfl : given = sizes := Option.some.inj hvalue
    exact hcalltyped
  | name | allocMode | freeListSize | maxSegmentLimit | segmentSize | maxMemoryLimit =>
    exact absurd hvalue nofun

/-- A computation that does not succeed fails. -/
theorem exists_error_of_ne_ok {ε α : Type} {x : Except ε α} (h : ∀ a, x ≠ .ok a) :
    ∃ e, x = .error e := by
  cases x with
  | error e => exact ⟨e, rfl⟩
  | ok a => exact absurd rfl (h a)

/-- **A pile is built exactly if the values given last fit.** -/
theorem build_ofCalls_iff {calls : List Call} (htyped : ∀ call ∈ calls, call.IsTyped) {id : Nat}
    {p : Pile} : (ofCalls calls).build id = .ok p ↔ (asked (lastGiven calls)).Fits ∧
      p = .ofSettings id (lastGiven calls .name) (asked (lastGiven calls)).cut .configured := by
  have hvalues : (ofCalls calls).value? = lastGiven calls := funext (value?_ofCalls calls)
  have hname : (ofCalls calls).name = lastGiven calls .name := value?_ofCalls calls .name
  have hsettings : ∀ settings, (ofCalls calls).settings = .ok settings ↔
      (asked (lastGiven calls)).Fits ∧ (asked (lastGiven calls)).cut = settings := by
    intro settings
    rw [← hvalues]
    apply settings_eq_ok_iff
    intro sizes hsizes
    exact ofList_of_lastGiven htyped ((value?_ofCalls calls .chunkSizes).symm.trans hsizes)
  unfold build
  rw [hname]
  constructor
  · intro h
    cases hok : (ofCalls calls).settings with
    | error e =>
      rw [hok] at h
      exact absurd h nofun
    | ok settings =>
      obtain ⟨hfits, rfl⟩ := (hsettings settings).1 hok
      rw [hok] at h
      exact ⟨hfits, (Except.ok.inj h).symm⟩
  · rintro ⟨hfits, rfl⟩
    rw [(hsettings _).2 ⟨hfits, rfl⟩]
    rfl

/-- **A builder keeps what fits**, the two counts up to the largest number of a document, and refuses
everything else. -/
theorem kept_of_calls {calls : List Call} (htyped : ∀ call ∈ calls, call.IsTyped) (id : Nat) :
    Kept calls id := by
  constructor
  · intro p
    exact build_ofCalls_iff htyped
  · intro p hp hfree hsegments
    obtain ⟨-, rfl⟩ := (build_ofCalls_iff htyped).1 hp
    show (asked (lastGiven calls)).cut = _
    unfold Settings.cut
    rw [Nat.min_eq_left hfree, Nat.min_eq_left hsegments]
  · intro bytes hgiven hlarge
    apply exists_error_of_ne_ok
    intro p hp
    have hmax := ((build_ofCalls_iff htyped).1 hp).1.le_maxSegmentSize
    have hround := le_roundUp bytes
    have hasked : (asked (lastGiven calls)).segmentSize = roundUp bytes := by
      unfold asked
      rw [hgiven]
      rfl
    unfold maxSegmentSize maxSigned at *
    omega
  · intro sizes hgiven n hn hlarge
    apply exists_error_of_ne_ok
    intro p hp
    have hfits := ((build_ofCalls_iff htyped).1 hp).1
    have hmax := hfits.le_maxSegmentSize
    have hclasses := hfits.classes_le
    have hasked : (asked (lastGiven calls)).chunkSizes = sizes := by
      unfold asked
      rw [hgiven]
      rfl
    rw [hasked] at hclasses
    have hround := le_roundUp sizes.largest
    have hascending := (Settings.ofList_eq_ok (ofList_of_lastGiven htyped hgiven)).2
    have hle : n ≤ sizes.largest := Settings.le_getLastD _ hascending n hn
    unfold maxSegmentSize maxSigned at *
    omega

/-- Calls that give the segment size twice, and a memory limit that no document can hold. -/
def told : List Call :=
  [.segmentSize 100000, .name "jobs", .segmentSize 65537, .allocMode .favorSpeed,
    .chunkSizes ⟨[20, 64]⟩, .maxMemoryLimit 9223372036854775813]

/-- The pile has the values given last. -/
theorem kept_of_told : ∃ p, (ofCalls told).build 1 = .ok p ∧ p.name = some "jobs" ∧
    p.settings = { Settings.standard with
      allocMode := .favorSpeed
      segmentSize := 65552
      maxMemoryLimit := 9223372036854775813
      chunkSizes := ⟨[20, 64]⟩ } := by
  have hkept : Kept told 1 := kept_of_calls (by decide) 1
  have hbuilt := (hkept.build_eq_ok_iff _).2 ⟨⟨by decide, by decide, by decide, by decide,
    by decide⟩, rfl⟩
  exact ⟨_, hbuilt, rfl, by decide⟩

/-- **A number of free chunks that is accepted and not kept.** The largest word is given, which no
document can hold, and the pile has the largest number of a document. -/
theorem saturated : ∃ p, (ofCalls [.freeListSize maxWord]).build 1 = .ok p ∧
    lastGiven [.freeListSize maxWord] .freeListSize = some maxWord ∧
    p.settings.freeListSize = maxSigned ∧ maxSigned < maxWord :=
  ⟨_, rfl, rfl, by decide, by decide⟩

end Builder

end ObjectPile
