/-
# Reading a document at a path

The keys of a path are its parts between points, apart from the empty ones. They are followed from
the root of a text, from table to table. They may lead to a table, whose sections make the document;
or there is nothing of the name of a key, and the document is empty; or there is something else than
a table, and the path is invalid.

* `ConfigDocument.Joins` : the parts of a path; `exists_joins`, `pathKeys_eq`.
* `ConfigDocument.Reaches` : where keys lead from a table; `follow_eq_iff`, `follow_eq_table_iff`.
* `ConfigDocument.ReadsAt` : what a document at a path can be relied on for.
* `ConfigDocument.readsAt_of_parse` : texts are read so.
-/
import ObjectPile.Proofs.Documents
import ObjectPile.Proofs.Spellings

namespace ObjectPile

namespace Text

/-- Texts without the separator are the parts of what they make together. -/
theorem splitOn_intercalate {sep : Char} {parts : List (List Char)} (hne : parts ≠ [])
    (h : ∀ part ∈ parts, sep ∉ part) : splitOn sep ([sep].intercalate parts) = parts := by
  induction parts with
  | nil => exact absurd rfl hne
  | cons part parts ih =>
    cases parts with
    | nil =>
      rw [List.intercalate_singleton]
      exact splitOn_of_not_mem (h part List.mem_cons_self)
    | cons part' parts =>
      rw [List.intercalate_cons_cons, List.append_assoc, List.singleton_append,
        splitOn_append_cons (h part List.mem_cons_self),
        ih (List.cons_ne_nil _ _) fun q hq => h q (List.mem_cons_of_mem _ hq)]

/-- There is no separator in the parts of a text. -/
theorem not_mem_of_mem_splitOn {sep : Char} {cs part : List Char} (h : part ∈ splitOn sep cs) :
    sep ∉ part := by
  induction cs generalizing part with
  | nil =>
    obtain rfl := List.mem_singleton.1 h
    exact List.not_mem_nil
  | cons c cs ih =>
    rw [splitOn] at h
    split at h
    · rcases List.mem_cons.1 h with rfl | h
      · exact List.not_mem_nil
      · exact ih h
    · rename_i hc
      split at h
      · rename_i hnil
        exact absurd hnil (splitOn_ne_nil sep cs)
      · rename_i first parts hparts
        rw [hparts] at ih
        rcases List.mem_cons.1 h with rfl | h
        · rw [List.mem_cons, not_or]
          exact ⟨Ne.symm hc, ih List.mem_cons_self⟩
        · exact ih (List.mem_cons_of_mem _ h)

end Text

/-- An error about a path as an error about another one. -/
def ConfigError.atPath (path : String) : ConfigError → ConfigError
  | .invalidPath _ => .invalidPath path
  | e => e

namespace ConfigDocument

open Toml (Value Table)

/-! ## Paths -/

/-- **A path consists of parts with a point between each two.** -/
def Joins (parts : List String) (path : String) : Prop :=
  parts ≠ [] ∧ (∀ part ∈ parts, '.' ∉ part.toList) ∧ ".".intercalate parts = path

/-- Every path has parts. -/
theorem exists_joins (path : String) : ∃ parts, Joins parts path := by
  refine ⟨(Text.splitOn '.' path.toList).map String.ofList, ?_, ?_, ?_⟩
  · simpa using Text.splitOn_ne_nil '.' path.toList
  · intro part hpart
    obtain ⟨cs, hcs, rfl⟩ := List.mem_map.1 hpart
    rw [String.toList_ofList]
    exact Text.not_mem_of_mem_splitOn hcs
  · rw [← String.toList_inj, String.toList_intercalate, List.map_map]
    simpa [Function.comp_def] using Text.intercalate_splitOn '.' path.toList

/-- **The keys of a path are its parts that are not empty.** -/
theorem pathKeys_eq {parts : List String} {path : String} (h : Joins parts path) :
    pathKeys path = parts.filter (· ≠ "") := by
  obtain ⟨hne, hpoints, rfl⟩ := h
  have hsplit : Text.splitOn '.' (".".intercalate parts).toList = parts.map String.toList := by
    rw [String.toList_intercalate]
    refine Text.splitOn_intercalate (by simpa using hne) ?_
    intro part hpart
    obtain ⟨s, hs, rfl⟩ := List.mem_map.1 hpart
    exact hpoints s hs
  unfold pathKeys
  rw [hsplit, List.filter_map, List.map_map]
  have hback : (String.ofList ∘ String.toList) = id := funext fun _ => String.ofList_toList
  rw [hback, List.map_id]
  refine List.filter_congr ?_
  intro s _
  rw [Bool.eq_iff_iff]
  simp [← String.toList_eq_nil_iff]

/-! ## Following keys -/

/-- **Keys that lead from one table to another**: each in its turn is the key of a table. -/
inductive Leads : List String → Table → Table → Prop
  | nil (t : Table) : Leads [] t t
  | cons {key : String} {keys : List String} {t inner target : Table} :
      t.get? key = some (.table inner) → Leads keys inner target → Leads (key :: keys) t target

/-- **Where keys lead**: all of them to a table; or those before one of them to a table where that
is the key of something else than a table, or no key. -/
inductive Reaches : List String → Table → Destination → Prop
  | table {keys : List String} {root t : Table} : Leads keys root t → Reaches keys root (.table t)
  | blocked {before after : List String} {key : String} {root t : Table} {v : Value} :
      Leads before root t → t.get? key = some v → (∀ inner, v ≠ .table inner) →
        Reaches (before ++ key :: after) root .blocked
  | missing {before after : List String} {key : String} {root t : Table} :
      Leads before root t → t.get? key = none → Reaches (before ++ key :: after) root .missing

section Follow

variable {keys : List String} {root t : Table} {d : Destination}

theorem follow_append (h : Leads keys root t) (after : List String) :
    follow (keys ++ after) root = follow after t := by
  induction h with
  | nil t => rfl
  | cons hkey _ ih =>
    rw [List.cons_append, follow, hkey]
    exact ih

theorem follow_of_reaches (h : Reaches keys root d) : follow keys root = d := by
  cases h with
  | table hleads =>
    have hfollow := follow_append hleads []
    rwa [List.append_nil] at hfollow
  | blocked hleads hkey hother =>
    rw [follow_append hleads, follow, hkey]
    split
    · rename_i inner htable
      exact absurd (Option.some.inj htable) (hother inner)
    · rfl
    · rename_i hnone
      exact absurd hnone (Option.some_ne_none _)
  | missing hleads hkey => rw [follow_append hleads, follow, hkey]

/-- The keys that reach a table lead to it. -/
theorem Reaches.leads (h : Reaches keys root (.table t)) : Leads keys root t := by
  cases h with
  | table hleads => exact hleads

/-- One more key in front of those that lead somewhere. -/
theorem Reaches.cons {key : String} {inner : Table} (hkey : root.get? key = some (.table inner))
    (h : Reaches keys inner d) : Reaches (key :: keys) root d := by
  cases h with
  | table hleads => exact .table (.cons hkey hleads)
  | blocked hleads hv hother =>
    rw [← List.cons_append]
    exact .blocked (.cons hkey hleads) hv hother
  | missing hleads hnone =>
    rw [← List.cons_append]
    exact .missing (.cons hkey hleads) hnone

/-- All keys lead somewhere. -/
theorem exists_reaches (keys : List String) (root : Table) : ∃ d, Reaches keys root d := by
  induction keys generalizing root with
  | nil => exact ⟨_, .table (.nil root)⟩
  | cons key keys ih =>
    cases hkey : root.get? key with
    | none =>
      have h : Reaches ([] ++ key :: keys) root .missing := .missing (.nil root) hkey
      exact ⟨_, h⟩
    | some v =>
      by_cases htable : ∃ inner, v = .table inner
      · obtain ⟨inner, rfl⟩ := htable
        obtain ⟨d, hd⟩ := ih inner
        exact ⟨d, hd.cons hkey⟩
      · have h : Reaches ([] ++ key :: keys) root .blocked :=
          .blocked (.nil root) hkey (not_exists.1 htable)
        exact ⟨_, h⟩

/-- **Keys are followed to where they lead.** -/
theorem follow_eq_iff : follow keys root = d ↔ Reaches keys root d := by
  constructor
  · rintro rfl
    obtain ⟨d, hd⟩ := exists_reaches keys root
    rwa [follow_of_reaches hd]
  · exact follow_of_reaches

/-- Keys are followed to a table if they lead to it. -/
theorem follow_eq_table_iff : follow keys root = .table t ↔ Leads keys root t := by
  rw [follow_eq_iff]
  exact ⟨Reaches.leads, .table⟩

end Follow

/-! ## Reading -/

section Reading

variable {root t : Table} {path : String}

/-- The table that the keys of a path lead to is the one that is read. -/
theorem ofTableAt_of_leads (h : Leads (pathKeys path) root t) :
    ofTableAt root path = ofTable t := by
  rw [ofTableAt, follow_eq_table_iff.2 h]

/-- Without keys a path means the table itself. -/
theorem ofTableAt_empty (t : Table) : ofTableAt t "" = ofTable t :=
  ofTableAt_of_leads (.nil t)

/-- The errors of a table are not about paths. -/
theorem ofTable_ne_invalidPath (t : Table) (p : String) : ofTable t ≠ .error (.invalidPath p) := by
  unfold ofTable ofSections
  split
  · simp
  · split <;> simp

theorem mapError_atPath_ofTable (t : Table) (path : String) :
    (ofTable t).mapError (ConfigError.atPath path) = ofTable t := by
  cases h : ofTable t with
  | ok d => rfl
  | error e =>
    cases e with
    | invalidPath p => exact absurd h (ofTable_ne_invalidPath t p)
    | _ => rfl

/-- A table has no sections if there is nothing below their key, or an empty array. -/
theorem ofTable_eq_empty_iff : ofTable t = .ok ⟨[]⟩ ↔
    t.get? sectionKey = none ∨ t.get? sectionKey = some (.array []) := by
  have hspelled : ∀ v : Option Value, spelled v = [] ↔ v = none ∨ v = some (.array []) := by
    intro v
    cases v with
    | none => simp [spelled]
    | some v => cases v <;> simp [spelled]
  rw [(judged_ofTable t).ok_iff, ← hspelled]
  generalize spelled (t.get? sectionKey) = values
  constructor
  · rintro ⟨hall, -, hnone⟩
    refine List.eq_nil_iff_forall_not_mem.2 ?_
    intro v hv
    have hsome := ConfigSection.isSome_ofValue?_iff.2 (hall v hv)
    rw [List.filterMap_eq_nil_iff.1 hnone.symm v hv] at hsome
    exact absurd hsome Bool.false_ne_true
  · rintro rfl
    simp [sectionsIn]

/-- A single section may stand in an array or by itself. -/
theorem ofTable_single {t' : Table} {single : Table}
    (h : t.get? sectionKey = some (.table single))
    (h' : t'.get? sectionKey = some (.array [.table single])) : ofTable t = ofTable t' := by
  unfold ofTable
  rw [sectionsOf?_eq, sectionsOf?_eq, h, h']
  rfl

theorem ofTableAt_eq_invalidPath_iff {p : String} :
    ofTableAt root path = .error (.invalidPath p) ↔
      p = path ∧ Reaches (pathKeys path) root .blocked := by
  rw [← follow_eq_iff, ofTableAt]
  cases follow (pathKeys path) root with
  | table t => simp [ofTable_ne_invalidPath]
  | blocked => simp [eq_comm]
  | missing => simp

theorem ofTableAt_eq_empty_iff : ofTableAt root path = .ok ⟨[]⟩ ↔
    Reaches (pathKeys path) root .missing ∨ ∃ t, Leads (pathKeys path) root t ∧
      (t.get? sectionKey = none ∨ t.get? sectionKey = some (.array [])) := by
  simp only [← follow_eq_iff, ← follow_eq_table_iff, ofTableAt]
  cases follow (pathKeys path) root with
  | table t => simp [ofTable_eq_empty_iff]
  | blocked => simp
  | missing => simp

/-- Of a path nothing but its keys matters, except that an error has the path as it stands. -/
theorem ofTableAt_of_keys {other : String} (h : pathKeys other = pathKeys path) :
    ofTableAt root other = (ofTableAt root path).mapError (ConfigError.atPath other) := by
  rw [ofTableAt, ofTableAt, h]
  cases follow (pathKeys path) root with
  | table t => exact (mapError_atPath_ofTable t other).symm
  | blocked => rfl
  | missing => rfl

end Reading

/-- **What reading at a path comes to**, if these are the keys of the path. -/
structure ReadsAt (root : Table) (path : String) (keys : List String)
    (result : Except ConfigError ConfigDocument) : Prop where
  /-- The path is invalid, as it stands, if its keys find something else than a table. -/
  invalidPath_iff : ∀ p, result = .error (.invalidPath p) ↔ p = path ∧ Reaches keys root .blocked
  /-- The document is empty if the keys find nothing, or a table without sections. -/
  empty_iff : result = .ok ⟨[]⟩ ↔ Reaches keys root .missing ∨ ∃ t, Leads keys root t ∧
    (t.get? sectionKey = none ∨ t.get? sectionKey = some (.array []))
  /-- A table that the keys lead to is read as if it were the root. -/
  table_eq : ∀ t, Leads keys root t → result = ofTableAt t ""
  /-- Empty parts make no difference, except that an error has the path as it stands. -/
  same_keys : ∀ other parts, Joins parts other → parts.filter (· ≠ "") = keys →
    ofTableAt root other = result.mapError (ConfigError.atPath other)
  /-- A single table is as good as an array of that table. -/
  single_eq : ∀ t single, Leads keys root t → t.get? sectionKey = some (.table single) →
    ∀ t', t'.get? sectionKey = some (.array [.table single]) → result = ofTableAt t' ""
  /-- The values that stand for the sections are judged one by one and then together. -/
  judged : ∀ t, Leads keys root t → Judged (spelled (t.get? sectionKey)) result

/-- **A table is read at every path along the keys of the path.** -/
theorem readsAt {path : String} {parts : List String} (h : Joins parts path) (root : Table) :
    ReadsAt root path (parts.filter (· ≠ "")) (ofTableAt root path) := by
  rw [← pathKeys_eq h]
  refine ⟨?_, ofTableAt_eq_empty_iff, ?_, ?_, ?_, ?_⟩
  · exact fun p => ofTableAt_eq_invalidPath_iff
  · intro t hleads
    rw [ofTableAt_of_leads hleads, ofTableAt_empty]
  · intro other parts' hother hsame
    exact ofTableAt_of_keys (by rw [pathKeys_eq hother, hsame, pathKeys_eq h])
  · intro t single hleads hsingle t' hone
    rw [ofTableAt_of_leads hleads, ofTableAt_empty]
    exact ofTable_single hsingle hone
  · intro t hleads
    rw [ofTableAt_of_leads hleads]
    exact judged_ofTable t

/-- **A text is read at every path along the keys of the path**: its parts between points, apart
from the empty ones. -/
theorem readsAt_of_parse {text : String} {root : Table} (hparse : Toml.parse? text = some root)
    (path : String) : ∃ parts, Joins parts path ∧
      ReadsAt root path (parts.filter (· ≠ "")) (ofTomlAt text path) := by
  obtain ⟨parts, hparts⟩ := exists_joins path
  refine ⟨parts, hparts, ?_⟩
  rw [ofTomlAt, hparse]
  exact readsAt hparts root

/-- A text with two sections below a table and a number beside it. -/
def nested : String :=
  "[app]\nlimit = 3\n[[app.store.pile]]\nname = 'jobs'\n[[app.store.pile]]\nsegment-size = 65537\n"

/-- The sections are found in spite of the empty parts of the path; and no path leads through the
number. -/
theorem readsAt_nested : ∃ root, Toml.parse? nested = some root ∧
    ofTomlAt nested ".app..store." =
      .ok ⟨[{ name := some "jobs" }, { segmentSize := some 65537 }]⟩ ∧
    ReadsAt root ".app..store." ["app", "store"] (ofTomlAt nested ".app..store.") ∧
    ofTableAt root "app.store" = ofTomlAt nested ".app..store." ∧
    ofTomlAt nested "app.limit..pile" = .error (.invalidPath "app.limit..pile") ∧
    Reaches ["app", "limit", "pile"] root .blocked := by
  obtain ⟨root, hparse⟩ : ∃ root, Toml.parse? nested = some root :=
    Option.isSome_iff_exists.1 (by decide +kernel)
  have hfound : ofTomlAt nested ".app..store." =
    .ok ⟨[{ name := some "jobs" }, { segmentSize := some 65537 }]⟩ := by decide +kernel
  have hinvalid : ofTomlAt nested "app.limit..pile" = .error (.invalidPath "app.limit..pile") := by
    decide +kernel
  obtain ⟨parts, hparts, hreads⟩ := readsAt_of_parse hparse ".app..store."
  rw [← pathKeys_eq hparts, show pathKeys ".app..store." = ["app", "store"] by decide +kernel]
    at hreads
  obtain ⟨parts', hparts', hreads'⟩ := readsAt_of_parse hparse "app.limit..pile"
  rw [← pathKeys_eq hparts',
    show pathKeys "app.limit..pile" = ["app", "limit", "pile"] by decide +kernel] at hreads'
  have hstore : Joins ["app", "store"] "app.store" :=
    ⟨List.cons_ne_nil _ _, by decide, by decide +kernel⟩
  have hsame := hreads.same_keys "app.store" _ hstore (by decide)
  rw [hfound] at hsame
  exact ⟨root, hparse, hfound, hreads, hsame.trans hfound.symm, hinvalid,
    ((hreads'.invalidPath_iff _).1 hinvalid).2⟩

end ConfigDocument

end ObjectPile
