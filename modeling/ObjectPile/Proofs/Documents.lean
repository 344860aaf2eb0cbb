/-
# Sections of a document

The sections of a document stand below one key of a table: in an array, or as a single value. They
are judged one after the other, and then together. A document is accepted if every value is well
formed and no two sections have the same name, where having none counts as a name too. A value that
is not well formed is an error whatever the names are; and of the names that are given twice the
error has the first one that comes again later.

* `ConfigSection.WellFormed` : the values that spell a section; `isSome_ofValue?_iff`.
* `ConfigDocument.Recurs` : a section has the name of a later one; `repeated?_eq_some_iff`.
* `ConfigDocument.ofSections_eq_ok_iff` : which sections make a document.
* `ConfigDocument.section?_eq_some_iff` : a section is found by its name.
* `ConfigDocument.judged_ofTable` : what becomes of the values below the key.
-/
import ObjectPile.Config.Document
import Mathlib

namespace ObjectPile

/-! ## Values that spell sections -/

namespace ConfigSection

open Toml (Value Table)

/-- Texts are strings, and date-times in their normal form. -/
inductive IsText : Value → Prop
  | string (s : String) : IsText (.string s)
  | datetime (d : Toml.Datetime) : IsText (.datetime d)

/-- A value that is an integer. -/
inductive IsInteger : Value → Prop
  | integer (n : Int) : IsInteger (.integer n)

/-- **The values that the option of a key can have.** -/
inductive Suits : String → Value → Prop
  | name {v : Value} : IsText v → Suits "name" v
  | allocMode {v : Value} : IsText v → Suits ConfigOption.allocMode.key v
  | freeListSize {v : Value} : IsInteger v → Suits ConfigOption.freeListSize.key v
  | maxSegmentLimit {v : Value} : IsInteger v → Suits ConfigOption.maxSegmentLimit.key v
  | segmentSize {v : Value} : IsInteger v → Suits ConfigOption.segmentSize.key v
  | maxMemoryLimit {v : Value} : IsInteger v → Suits ConfigOption.maxMemoryLimit.key v
  | sizesText {v : Value} : IsText v → Suits ConfigOption.freeChunkSizes.key v
  | sizesList {items : List Value} : (∀ v ∈ items, IsInteger v) →
      Suits ConfigOption.freeChunkSizes.key (.array items)

/-- **The values that spell a section**: tables with nothing but options, and arrays with a value
for every option in its turn. -/
inductive WellFormed : Value → Prop
  | table {t : Table} : (∀ entry ∈ t, Suits entry.1 entry.2) → WellFormed (.table t)
  | array {items : List Value} : List.Forall₂ Suits keys items → WellFormed (.array items)

theorem isSome_string?_iff {v : Value} : (string? v).isSome = true ↔ IsText v := by
  constructor
  · intro h
    cases v with
    | string s => exact .string s
    | datetime d => exact .datetime d
    | _ => exact absurd h Bool.false_ne_true
  · rintro (s | d) <;> rfl

theorem isSome_integer?_iff {v : Value} : (integer? v).isSome = true ↔ IsInteger v := by
  constructor
  · intro h
    cases v with
    | integer n => exact .integer n
    | _ => exact absurd h Bool.false_ne_true
  · rintro ⟨n⟩
    rfl

/-- A list is read if each of its items is; what comes of them is the list then. -/
theorem mapM_eq_some_iff {α β : Type} {f : α → Option β} {as : List α} {bs : List β} :
    as.mapM f = some bs ↔ (∀ a ∈ as, (f a).isSome = true) ∧ as.filterMap f = bs := by
  induction as generalizing bs with
  | nil => simp
  | cons a as ih =>
    rw [List.mapM_cons, List.forall_mem_cons]
    cases ha : f a with
    | none => simp
    | some b =>
      rw [List.filterMap_cons_some ha]
      simp only [Option.bind_eq_bind, Option.bind_some, Option.bind_eq_some_iff, ih,
        Option.pure_def, Option.some.injEq, Option.isSome_some, true_and]
      constructor
      · rintro ⟨rest, ⟨hall, rfl⟩, rfl⟩
        exact ⟨hall, rfl⟩
      · rintro ⟨hall, rfl⟩
        exact ⟨_, ⟨hall, rfl⟩, rfl⟩

theorem isSome_mapM_iff {α β : Type} {f : α → Option β} {as : List α} :
    (as.mapM f).isSome = true ↔ ∀ a ∈ as, (f a).isSome = true := by
  rw [Option.isSome_iff_exists]
  simp only [mapM_eq_some_iff, exists_and_left, exists_eq', and_true]

theorem isSome_sizes?_iff {v : Value} : (sizes? v).isSome = true ↔
    IsText v ∨ ∃ items : List Value, (∀ item ∈ items, IsInteger item) ∧ v = .array items := by
  constructor
  · intro h
    cases v with
    | array items =>
      rw [sizes?, Option.isSome_map, isSome_mapM_iff] at h
      exact .inr ⟨items, fun item hitem => isSome_integer?_iff.1 (h item hitem), rfl⟩
    | string s => exact .inl (.string s)
    | datetime d => exact .inl (.datetime d)
    | _ => exact absurd h Bool.false_ne_true
  · rintro (htext | ⟨items, hitems, rfl⟩)
    · cases htext <;> rfl
    · rw [sizes?, Option.isSome_map, isSome_mapM_iff]
      exact fun item hitem => isSome_integer?_iff.2 (hitems item hitem)

/-- **A section takes the values that suit its options**, whatever it has already. -/
theorem isSome_set?_iff {c : ConfigSection} {key : String} {v : Value} :
    (c.set? key v).isSome = true ↔ Suits key v := by
  constructor
  · intro h
    unfold set? at h
    split_ifs at h with hname hmode hlist hlimit hsize hmemory hsizes
    all_goals try rw [Option.isSome_map] at h
    · exact hname ▸ .name (isSome_string?_iff.1 h)
    · exact hmode ▸ .allocMode (isSome_string?_iff.1 h)
    · exact hlist ▸ .freeListSize (isSome_integer?_iff.1 h)
    · exact hlimit ▸ .maxSegmentLimit (isSome_integer?_iff.1 h)
    · exact hsize ▸ .segmentSize (isSome_integer?_iff.1 h)
    · exact hmemory ▸ .maxMemoryLimit (isSome_integer?_iff.1 h)
    · rcases isSome_sizes?_iff.1 h with htext | ⟨items, hitems, rfl⟩
      · exact hsizes ▸ .sizesText htext
      · exact hsizes ▸ .sizesList hitems
    · exact absurd h Bool.false_ne_true
  · rintro (htext | htext | hint | hint | hint | hint | htext | hitems)
    · simpa [set?] using isSome_string?_iff.2 htext
    · simpa [set?, ConfigOption.key] using isSome_string?_iff.2 htext
    · simpa [set?, ConfigOption.key] using isSome_integer?_iff.2 hint
    · simpa [set?, ConfigOption.key] using isSome_integer?_iff.2 hint
    · simpa [set?, ConfigOption.key] using isSome_integer?_iff.2 hint
    · simpa [set?, ConfigOption.key] using isSome_integer?_iff.2 hint
    · simpa [set?, ConfigOption.key] using isSome_sizes?_iff.2 (.inl htext)
    · simpa [set?, ConfigOption.key] using isSome_sizes?_iff.2 (.inr ⟨_, hitems, rfl⟩)

/-- A table is read if each value suits its key. -/
theorem isSome_ofTable?_iff {t : Table} :
    (ofTable? t).isSome = true ↔ ∀ entry ∈ t, Suits entry.1 entry.2 := by
  unfold ofTable?
  generalize ({} : ConfigSection) = c
  induction t generalizing c with
  | nil => simp
  | cons entry t ih =>
    rw [List.foldlM_cons, List.forall_mem_cons, ← isSome_set?_iff (c := c)]
    cases c.set? entry.1 entry.2 with
    | none => simp
    | some c' => simpa using ih c'

/-- **Sections are read from the values that spell them, and from no others.** -/
theorem isSome_ofValue?_iff {v : Value} : (ofValue? v).isSome = true ↔ WellFormed v := by
  constructor
  · intro h
    cases v with
    | table t => exact .table (isSome_ofTable?_iff.1 h)
    | array items =>
      rw [ofValue?] at h
      split_ifs at h with hlength
      · rw [isSome_ofTable?_iff] at h
        exact .array (List.forall₂_iff_zip.2 ⟨hlength.symm, fun hmem => h _ hmem⟩)
      · exact absurd h Bool.false_ne_true
    | _ => exact absurd h Bool.false_ne_true
  · rintro (hentries | hitems)
    · exact isSome_ofTable?_iff.2 hentries
    · obtain ⟨hlength, hzip⟩ := List.forall₂_iff_zip.1 hitems
      rw [ofValue?, if_pos hlength.symm, isSome_ofTable?_iff]
      exact fun entry hentry => hzip hentry

end ConfigSection

/-! ## Names that are given twice -/

namespace ConfigDocument

open ConfigSection (WellFormed)
open Toml (Value Table)

/-- **The section at a place has the name of a later one.** -/
def Recurs (sections : List ConfigSection) (i : Nat) : Prop :=
  ∃ j c d, i < j ∧ sections[i]? = some c ∧ sections[j]? = some d ∧ d.name = c.name

section Recurs

variable {c : ConfigSection} {sections : List ConfigSection} {i : Nat}

theorem recurs_zero_iff : Recurs (c :: sections) 0 ↔ ∃ d ∈ sections, d.name = c.name := by
  constructor
  · rintro ⟨j, c', d, hj, hc, hd, hname⟩
    obtain ⟨j, rfl⟩ := Nat.exists_eq_add_one.2 hj
    obtain rfl := Option.some.inj hc
    exact ⟨d, List.mem_of_getElem? hd, hname⟩
  · rintro ⟨d, hd, hname⟩
    obtain ⟨j, hj⟩ := List.getElem?_of_mem hd
    exact ⟨j + 1, c, d, Nat.succ_pos j, rfl, hj, hname⟩

theorem recurs_succ_iff : Recurs (c :: sections) (i + 1) ↔ Recurs sections i := by
  constructor
  · rintro ⟨j, c', d, hj, hc, hd, hname⟩
    obtain ⟨j, rfl⟩ := Nat.exists_eq_add_one.2 (Nat.zero_lt_of_lt hj)
    exact ⟨j, c', d, Nat.lt_of_succ_lt_succ hj, hc, hd, hname⟩
  · rintro ⟨j, c', d, hj, hc, hd, hname⟩
    exact ⟨j + 1, c', d, Nat.succ_lt_succ hj, hc, hd, hname⟩

/-- No name is found twice if none is given twice. -/
theorem repeated?_eq_none_iff :
    repeated? sections = none ↔ (sections.map ConfigSection.name).Nodup := by
  induction sections with
  | nil => simp [repeated?]
  | cons c sections ih =>
    rw [repeated?, List.map_cons, List.nodup_cons, ← ih]
    split <;> simp_all

/-- **The name that is found is that of the first section with a later namesake.** -/
theorem repeated?_eq_some_iff {name : Option String} : repeated? sections = some name ↔
    ∃ i c, sections[i]? = some c ∧ c.name = name ∧ Recurs sections i ∧
      ∀ k < i, ¬Recurs sections k := by
  induction sections with
  | nil => simp [repeated?]
  | cons c sections ih =>
    rw [repeated?]
    split
    · rename_i h
      have hzero : Recurs (c :: sections) 0 := recurs_zero_iff.2 (by simpa using h)
      constructor
      · rintro ⟨⟩
        exact ⟨0, c, rfl, rfl, hzero, fun k hk => absurd hk (Nat.not_lt_zero k)⟩
      · rintro ⟨i, c', hc, rfl, -, hfirst⟩
        obtain rfl : i = 0 := Nat.eq_zero_of_not_pos fun hpos => hfirst 0 hpos hzero
        obtain rfl := Option.some.inj hc
        rfl
    · rename_i h
      have hzero : ¬Recurs (c :: sections) 0 := fun hrecurs => h (by
        simpa using recurs_zero_iff.1 hrecurs)
      rw [ih]
      constructor
      · rintro ⟨i, c', hc, hname, hrecurs, hfirst⟩
        refine ⟨i + 1, c', hc, hname, recurs_succ_iff.2 hrecurs, ?_⟩
        intro k hk
        cases k with
        | zero => exact hzero
        | succ k => exact fun hk' => hfirst k (Nat.lt_of_succ_lt_succ hk) (recurs_succ_iff.1 hk')
      · rintro ⟨i, c', hc, hname, hrecurs, hfirst⟩
        cases i with
        | zero => exact absurd hrecurs hzero
        | succ i =>
          refine ⟨i, c', hc, hname, recurs_succ_iff.1 hrecurs, ?_⟩
          exact fun k hk hk' => hfirst (k + 1) (Nat.succ_lt_succ hk) (recurs_succ_iff.2 hk')

end Recurs

/-! ## Documents of sections -/

section Sections

variable {sections : List ConfigSection} {d : ConfigDocument}

/-- **Sections make a document if no two of them have the same name.** -/
theorem ofSections_eq_ok_iff : ofSections sections = .ok d ↔
    (sections.map ConfigSection.name).Nodup ∧ d = ⟨sections⟩ := by
  unfold ofSections
  rw [← repeated?_eq_none_iff]
  cases repeated? sections with
  | none => simp [eq_comm]
  | some name => simp

/-- If they do not, the error has the first name with a later namesake. -/
theorem ofSections_eq_error_iff {e : ConfigError} : ofSections sections = .error e ↔
    ∃ name, repeated? sections = some name ∧ e = .duplicateSection name := by
  unfold ofSections
  cases repeated? sections with
  | none => simp
  | some name => simp [eq_comm]

/-- **Where no two sections have the same name, a section is found by its name.** -/
theorem section?_eq_some_iff (h : (d.sections.map ConfigSection.name).Nodup)
    {name : Option String} {c : ConfigSection} :
    d.section? name = some c ↔ c ∈ d.sections ∧ c.name = name := by
  unfold section?
  constructor
  · intro hfound
    exact ⟨List.mem_of_find?_eq_some hfound, by simpa using List.find?_some hfound⟩
  · rintro ⟨hmem, rfl⟩
    cases hfound : d.sections.find? fun c' => c'.name == c.name with
    | none => exact absurd (beq_self_eq_true c.name) (List.find?_eq_none.1 hfound c hmem)
    | some c' =>
      have hname : c'.name = c.name := by simpa using List.find?_some hfound
      exact congrArg some (List.inj_on_of_nodup_map h (List.mem_of_find?_eq_some hfound) hmem hname)

end Sections

/-! ## Documents of values -/

/-- The values that stand for sections: those of an array, or a single one. -/
def spelled : Option Value → List Value
  | none => []
  | some (.array items) => items
  | some v => [v]

/-- The sections that values spell. -/
def sectionsIn (values : List Value) : List ConfigSection :=
  values.filterMap ConfigSection.ofValue?

theorem sectionsOf?_eq (v : Option Value) :
    sectionsOf? v = (spelled v).mapM ConfigSection.ofValue? := by
  have hsingle : ∀ v : Value,
      (ConfigSection.ofValue? v).map ([·]) = [v].mapM ConfigSection.ofValue? := by
    intro v
    cases h : ConfigSection.ofValue? v <;> simp [h]
  cases v with
  | none => rfl
  | some v => cases v <;> first | rfl | exact hsingle _

/-- **What becomes of the values that stand for the sections of a document.** -/
structure Judged (values : List Value) (result : Except ConfigError ConfigDocument) : Prop where
  /-- A document is accepted if all values are well formed and all names different. -/
  ok_iff : ∀ d, result = .ok d ↔ (∀ v ∈ values, WellFormed v) ∧
    ((sectionsIn values).map ConfigSection.name).Nodup ∧ d.sections = sectionsIn values
  /-- A value that is not well formed is an error, whatever the names are. -/
  malformed_iff : result = .error .malformed ↔ ∃ v ∈ values, ¬WellFormed v
  /-- Of the names that are given twice, the error has that of the first section that has a later
  namesake. -/
  duplicate_iff : ∀ name, result = .error (.duplicateSection name) ↔
    (∀ v ∈ values, WellFormed v) ∧ ∃ i c, (sectionsIn values)[i]? = some c ∧ c.name = name ∧
      Recurs (sectionsIn values) i ∧ ∀ k < i, ¬Recurs (sectionsIn values) k
  /-- The sections of a document are found by their names. -/
  found_iff : ∀ d, result = .ok d → ∀ name c,
    d.section? name = some c ↔ c ∈ sectionsIn values ∧ c.name = name

/-- The values are read if all of them are well formed. -/
theorem mapM_ofValue?_eq_some_iff {values : List Value} {sections : List ConfigSection} :
    values.mapM ConfigSection.ofValue? = some sections ↔
      (∀ v ∈ values, WellFormed v) ∧ sectionsIn values = sections := by
  simp only [ConfigSection.mapM_eq_some_iff, ConfigSection.isSome_ofValue?_iff]
  rfl

/-- **The values below the key of a table are judged one by one and then together.** -/
theorem judged_ofTable (t : Table) : Judged (spelled (t.get? sectionKey)) (ofTable t) := by
  unfold ofTable
  rw [sectionsOf?_eq]
  generalize spelled (t.get? sectionKey) = values
  cases hread : values.mapM ConfigSection.ofValue? with
  | none =>
    have hbad : ¬∀ v ∈ values, WellFormed v := by
      intro hall
      rw [mapM_ofValue?_eq_some_iff.2 ⟨hall, rfl⟩] at hread
      exact Option.some_ne_none _ hread
    refine ⟨?_, ?_, ?_, ?_⟩
    · simp [hbad]
    · simpa using hbad
    · simp [hbad]
    · simp
  | some sections =>
    obtain ⟨hall, rfl⟩ := mapM_ofValue?_eq_some_iff.1 hread
    have hok : ∀ d, ofSections (sectionsIn values) = .ok d ↔
        ((sectionsIn values).map ConfigSection.name).Nodup ∧ d.sections = sectionsIn values := by
      intro d
      rw [ofSections_eq_ok_iff]
      cases d
      simp
    refine ⟨?_, ?_, ?_, ?_⟩
    · exact fun d => (hok d).trans (and_iff_right hall).symm
    · simp only [ofSections_eq_error_iff, reduceCtorEq, and_false, exists_false, false_iff]
      rintro ⟨v, hv, hbad⟩
      exact hbad (hall v hv)
    · intro name
      rw [and_iff_right hall, ← repeated?_eq_some_iff]
      simp [ofSections_eq_error_iff]
    · intro d hd name c
      obtain ⟨hnodup, hsections⟩ := (hok d).1 hd
      rw [← hsections] at hnodup ⊢
      exact section?_eq_some_iff hnodup

end ConfigDocument

end ObjectPile
