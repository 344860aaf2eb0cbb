/-
# Registries of documents

A registry is made of a document: an unnamed pile first, and then a pile for each named section in
the order of the document. Each of them has the standard settings with its own section on top, so no
pile takes anything from the section of another one; and it is the pile that one would have got by
making it alone and configuring it from the document. The first section that is bad, the unnamed one
before all others, is the reason if no registry comes of a document.

* `ConfigSection.IsGood` : sections that are accepted.
* `Registry.Made` : the piles of named sections; `addNamed_of_good`, `addNamed_of_fault`.
* `Registry.FirstFault` : which of the bad sections is told of.
* `Registry.Mirrors` : what can be relied on in a registry.
* `Registry.mirrors_of_document` : a registry mirrors its document, or fails for its first fault.
-/
import ObjectPile.Proofs.Documents
import ObjectPile.Proofs.Programs

namespace ObjectPile

/-- A section that the standard settings accept. -/
def ConfigSection.IsGood (c : ConfigSection) : Prop := ∃ s, Settings.standard.apply c = .ok s

/-- The settings that a document has for the pile of a name. -/
def ConfigDocument.settingsFor (document : ConfigDocument) (name : Option String) :
    Except ConfigError Settings :=
  match document.section? name with
  | some c => Settings.standard.apply c
  | none => .ok .standard

/-! ## Piles with a section on top -/

namespace Pile

variable {name : Option String} {c : ConfigSection} {s : Settings} {e : ConfigError}

/-- A new pile with the section for it. -/
theorem configure_create (hname : c.name = name) (h : Settings.standard.apply c = .ok s)
    (id : Nat) : ((create id name).configure c).result = .ok () ∧
      ((create id name).configure c).pile = .ofSettings id name s .configured := by
  have hready : (create id name).isConfigurable = true := rfl
  have hsettings : (create id name).settings.apply c = .ok s := h
  unfold configure
  simp only [hready, if_true, hsettings, hname]
  cases name <;> exact ⟨trivial, rfl⟩

/-- A new pile with a bad section. -/
theorem configure_create_of_error (h : Settings.standard.apply c = .error e) (id : Nat)
    (name : Option String) : ((create id name).configure c).result = .error (.config e) := by
  have hready : (create id name).isConfigurable = true := rfl
  have hsettings : (create id name).settings.apply c = .error e := h
  unfold configure
  simp only [hready, if_true, hsettings]
  rfl

/-- A new pile with what a document has for it. -/
theorem configureFrom_create {document : ConfigDocument} (h : document.settingsFor name = .ok s)
    (id : Nat) : ((create id name).configureFrom document).result = .ok () ∧
      ((create id name).configureFrom document).pile = .ofSettings id name s .configured := by
  have hready : (create id name).isConfigurable = true := rfl
  have hname : (create id name).name = name := rfl
  unfold ConfigDocument.settingsFor at h
  unfold configureFrom
  rw [hname]
  cases hfound : document.section? name with
  | some c =>
    rw [hfound] at h
    exact configure_create (by simpa using List.find?_some hfound) h id
  | none =>
    rw [hfound] at h
    obtain rfl := Except.ok.inj h
    simp only [hready, if_true]
    exact ⟨trivial, rfl⟩

/-- A new pile for which a document has a bad section. -/
theorem configureFrom_create_of_error {document : ConfigDocument}
    (h : document.settingsFor name = .error e) (id : Nat) :
    ((create id name).configureFrom document).result = .error (.config e) := by
  have hname : (create id name).name = name := rfl
  unfold ConfigDocument.settingsFor at h
  unfold configureFrom
  rw [hname]
  cases hfound : document.section? name with
  | some c =>
    rw [hfound] at h
    exact configure_create_of_error h id name
  | none =>
    rw [hfound] at h
    exact absurd h nofun

end Pile

/-- The number of the next pile is that of no pile yet. -/
theorem Depot.nextId_ne {d : Depot} {id : Nat} {p : Pile} (h : d.pile? id = some p) :
    id ≠ d.nextId := by
  have hholds := Depot.holds_iff_isSome.2 (Option.isSome_of_eq_some h)
  unfold Depot.Holds at hholds
  unfold Depot.nextId
  omega

namespace Registry

/-! ## The piles of named sections -/

/-- The piles with one more, which has these settings. -/
def withPile (d : Depot) (name : Option String) (s : Settings) : Depot :=
  (d.add fun id => .ofSettings id name s .configured).2

section WithPile

variable {d : Depot} {name : Option String} {s : Settings}

@[simp] theorem nextId_withPile : (withPile d name s).nextId = d.nextId + 1 := by
  simp [withPile, Depot.add, Depot.nextId]

theorem pile?_withPile_self :
    (withPile d name s).pile? d.nextId = some (.ofSettings d.nextId name s .configured) :=
  (d.pile?_add _ _).trans (if_pos rfl)

theorem pile?_withPile_of_eq {id : Nat} {p : Pile} (h : d.pile? id = some p) :
    (withPile d name s).pile? id = some p :=
  (d.pile?_add _ _).trans ((if_neg (Depot.nextId_ne h)).trans h)

end WithPile

/-- **Piles made for the named sections of a list**, one after the other: with the names, the
numbers and the piles before and after. -/
inductive Made : Depot → List ConfigSection → List (String × Nat) → Depot → Prop
  | nil (d : Depot) : Made d [] [] d
  | skip {d d' : Depot} {c : ConfigSection} {rest : List ConfigSection}
      {named : List (String × Nat)} : c.name = none → Made d rest named d' →
        Made d (c :: rest) named d'
  | make {d d' : Depot} {c : ConfigSection} {rest : List ConfigSection}
      {named : List (String × Nat)} {name : String} {s : Settings} : c.name = some name →
        Settings.standard.apply c = .ok s →
        Made (withPile d (some name) s) rest named d' →
        Made d (c :: rest) ((name, d.nextId) :: named) d'

section AddWith

variable {d : Depot} {name : Option String} (operation : Pile → Outcome Unit)

/-- A pile that is made with an operation that succeeds. -/
theorem addWith_of_ok {p : Pile} (hresult : (operation (.create d.nextId name)).result = .ok ())
    (hpile : (operation (.create d.nextId name)).pile = p) :
    (addWith d name operation).result = .ok d.nextId ∧
      (addWith d name operation).depot = (d.add fun _ => p).2 := by
  unfold addWith
  simp only [hresult, hpile]
  exact ⟨rfl, trivial⟩

/-- A pile that is made with an operation that fails. -/
theorem addWith_of_error {e : PileError}
    (hresult : (operation (.create d.nextId name)).result = .error e) :
    (addWith d name operation).result = .error e := by
  unfold addWith
  simp only [hresult]
  rfl

end AddWith

/-- What is wrong with a section, if it has a name and is bad. -/
def namedFault? (c : ConfigSection) : Option ConfigError :=
  match c.name, Settings.standard.apply c with
  | some _, .error e => some e
  | _, _ => none

section NamedFault

variable {c : ConfigSection} {e : ConfigError}

theorem namedFault?_eq_some_iff :
    namedFault? c = some e ↔ c.name ≠ none ∧ Settings.standard.apply c = .error e := by
  unfold namedFault?
  cases c.name <;> cases Settings.standard.apply c <;> simp

theorem namedFault?_eq_none_iff : namedFault? c = none ↔ (c.name ≠ none → c.IsGood) := by
  unfold namedFault? ConfigSection.IsGood
  cases c.name <;> cases Settings.standard.apply c <;> simp

end NamedFault

section Steps

variable {d : Depot} {c : ConfigSection} {rest : List ConfigSection}

theorem addNamed_skip (hname : c.name = none) : addNamed d (c :: rest) = addNamed d rest := by
  rw [addNamed, hname]

theorem addNamed_fail {name : String} {e : ConfigError} (hname : c.name = some name)
    (happly : Settings.standard.apply c = .error e) :
    (addNamed d (c :: rest)).result = .error (.config e) := by
  have hone := Pile.configure_create_of_error happly d.nextId (some name)
  rw [addNamed, hname]
  simp only [addWith_of_error (fun p => p.configure c) hone]

theorem addNamed_make {name : String} {s : Settings} (hname : c.name = some name)
    (happly : Settings.standard.apply c = .ok s) :
    (addNamed d (c :: rest)).result =
        (addNamed (withPile d (some name) s) rest).result.map ((name, d.nextId) :: ·) ∧
      (addNamed d (c :: rest)).depot = (addNamed (withPile d (some name) s) rest).depot := by
  obtain ⟨hone, hpile⟩ := Pile.configure_create hname happly d.nextId
  obtain ⟨hid, hdepot⟩ := addWith_of_ok (fun p => p.configure c) hone hpile
  rw [addNamed, hname]
  simp only [hid, hdepot]
  exact ⟨rfl, rfl⟩

end Steps

section AddNamed

variable {sections : List ConfigSection} {e : ConfigError}

/-- **Piles are made for named sections up to the first that is bad.** -/
theorem addNamed_of_fault (h : sections.findSome? namedFault? = some e) (d : Depot) :
    (addNamed d sections).result = .error (.config e) := by
  induction sections generalizing d with
  | nil => exact absurd h nofun
  | cons c rest ih =>
    rw [List.findSome?_cons] at h
    cases hfault : namedFault? c with
    | some e' =>
      rw [hfault] at h
      obtain rfl := Option.some.inj h
      obtain ⟨hname, happly⟩ := namedFault?_eq_some_iff.1 hfault
      obtain ⟨name, hname⟩ := Option.ne_none_iff_exists'.1 hname
      exact addNamed_fail hname happly
    | none =>
      rw [hfault] at h
      cases hname : c.name with
      | none =>
        rw [addNamed_skip hname]
        exact ih h d
      | some name =>
        obtain ⟨s, happly⟩ := namedFault?_eq_none_iff.1 hfault (by simp [hname])
        rw [(addNamed_make hname happly).1, ih h]
        rfl

/-- If none is bad, a pile is made for each of them. -/
theorem addNamed_of_good (h : sections.findSome? namedFault? = none) (d : Depot) :
    ∃ named, (addNamed d sections).result = .ok named ∧
      Made d sections named (addNamed d sections).depot := by
  induction sections generalizing d with
  | nil => exact ⟨[], rfl, .nil d⟩
  | cons c rest ih =>
    have hgood := List.findSome?_eq_none_iff.1 h
    have hrest : rest.findSome? namedFault? = none :=
      List.findSome?_eq_none_iff.2 fun c' hc' => hgood c' (List.mem_cons_of_mem _ hc')
    cases hname : c.name with
    | none =>
      rw [addNamed_skip hname]
      obtain ⟨named, hresult, hmade⟩ := ih hrest d
      exact ⟨named, hresult, .skip hname hmade⟩
    | some name =>
      obtain ⟨s, happly⟩ :=
        namedFault?_eq_none_iff.1 (hgood c List.mem_cons_self) (by simp [hname])
      obtain ⟨hresult, hdepot⟩ := addNamed_make hname happly
      obtain ⟨named, hothers, hmade⟩ := ih hrest _
      rw [hresult, hdepot, hothers]
      exact ⟨_, rfl, .make hname happly hmade⟩

end AddNamed

namespace Made

variable {d d' : Depot} {sections : List ConfigSection} {named : List (String × Nat)}

/-- The names are those of the sections, in the order of the document. -/
theorem map_fst (h : Made d sections named d') :
    named.map Prod.fst = sections.filterMap ConfigSection.name := by
  induction h with
  | nil d => rfl
  | skip hname _ ih => rw [ih, List.filterMap_cons_none hname]
  | make hname _ _ ih => rw [List.map_cons, ih, List.filterMap_cons_some hname]

/-- No name comes twice, as none does in the document. -/
theorem nodup_fst (h : Made d sections named d')
    (hnodup : (sections.map ConfigSection.name).Nodup) : (named.map Prod.fst).Nodup := by
  have hsplit : sections.filterMap ConfigSection.name =
      (sections.map ConfigSection.name).filterMap id := by
    rw [List.filterMap_map]
    rfl
  rw [h.map_fst, hsplit]
  refine hnodup.filterMap ?_
  rintro _ _ name rfl h
  exact h.symm

/-- The piles are numbered one after the other. -/
theorem map_snd (h : Made d sections named d') :
    named.map Prod.snd = List.range' d.nextId named.length := by
  induction h with
  | nil d => rfl
  | skip _ _ ih => exact ih
  | make _ _ _ ih =>
    rw [List.map_cons, ih, List.length_cons, List.range'_succ, nextId_withPile]

/-- The piles that there were stay as they are. -/
theorem pile?_eq (h : Made d sections named d') {id : Nat} {p : Pile}
    (hpile : d.pile? id = some p) : d'.pile? id = some p := by
  induction h with
  | nil d => exact hpile
  | skip _ _ ih => exact ih hpile
  | make _ _ _ ih => exact ih (pile?_withPile_of_eq hpile)

/-- **Each named section has its pile.** -/
theorem exists_pile (h : Made d sections named d') {c : ConfigSection} (hc : c ∈ sections)
    {name : String} (hname : c.name = some name) : ∃ id s, (name, id) ∈ named ∧
      Settings.standard.apply c = .ok s ∧
      d'.pile? id = some (.ofSettings id (some name) s .configured) := by
  induction h with
  | nil d => exact absurd hc List.not_mem_nil
  | skip hnone _ ih =>
    rcases List.mem_cons.1 hc with rfl | hc
    · exact absurd (hnone.symm.trans hname) nofun
    · exact ih hc
  | @make d d' c' rest named name' s hname' happly hmade ih =>
    rcases List.mem_cons.1 hc with rfl | hc
    · obtain rfl := Option.some.inj (hname'.symm.trans hname)
      exact ⟨d.nextId, s, List.mem_cons_self, happly, hmade.pile?_eq pile?_withPile_self⟩
    · obtain ⟨id, s', hmem, happly', hpile⟩ := ih hc
      exact ⟨id, s', List.mem_cons_of_mem _ hmem, happly', hpile⟩

end Made

/-! ## Registries -/

/-- **The first fault of a document**: that of its unnamed section, or else that of the first bad
one among the named sections. -/
inductive FirstFault (sections : List ConfigSection) (e : ConfigError) : Prop
  | unnamed {c : ConfigSection} : c ∈ sections → c.name = none →
      Settings.standard.apply c = .error e → FirstFault sections e
  | named {before after : List ConfigSection} {c : ConfigSection} :
      (∀ c' ∈ sections, c'.name = none → c'.IsGood) → sections = before ++ c :: after →
        (∀ c' ∈ before, c'.IsGood) → c.name ≠ none → Settings.standard.apply c = .error e →
          FirstFault sections e

/-- **What can be relied on in a registry that is made of a document.** -/
structure Mirrors (document : ConfigDocument) (r : Registry) (d : Depot) : Prop where
  /-- The names are in order. -/
  names_ascending : r.names.Pairwise (· < ·)
  /-- They are the names of the sections. -/
  mem_names_iff : ∀ name, name ∈ r.names ↔ ∃ c ∈ document.sections, c.name = some name
  /-- Each named section has its pile, with the standard settings and that section on top. -/
  named : ∀ c ∈ document.sections, ∀ name, c.name = some name → ∃ id s,
    r.get? (some name) = some id ∧ Settings.standard.apply c = .ok s ∧
      d.pile? id = some (.ofSettings id (some name) s .configured)
  /-- There is no other named pile. -/
  get?_eq_none : ∀ name, name ∉ r.names → r.get? (some name) = none
  /-- The unnamed pile has the unnamed section on top, if there is one. -/
  unnamed : ∃ id s, r.get? none = some id ∧
    (∀ c ∈ document.sections, c.name = none → Settings.standard.apply c = .ok s) ∧
    ((∀ c ∈ document.sections, c.name ≠ none) → s = .standard) ∧
    d.pile? id = some (.ofSettings id none s .configured)
  /-- No two piles have the same number. -/
  nodup_all : r.all.Nodup
  /-- A pile of the same name that is made alone gets the same settings from the document. -/
  alone : ∀ name id p, r.get? name = some id → d.pile? id = some p → ∀ other,
    ((Pile.create other name).configureFrom document).result = .ok () ∧
      ((Pile.create other name).configureFrom document).pile.settings = p.settings

section OfDocument

variable {d : Depot} {document : ConfigDocument} {s : Settings} {e : ConfigError}

theorem ofDocument_of_unnamed_fault (h : document.settingsFor none = .error e) (d : Depot) :
    (ofDocument d document).result = .error (.config e) := by
  have hone := Pile.configureFrom_create_of_error h d.nextId
  unfold ofDocument
  simp only [addWith_of_error (fun p => p.configureFrom document) hone]

theorem ofDocument_of_named_fault (hunnamed : document.settingsFor none = .ok s)
    (h : document.sections.findSome? namedFault? = some e) (d : Depot) :
    (ofDocument d document).result = .error (.config e) := by
  obtain ⟨hone, hpile⟩ := Pile.configureFrom_create hunnamed d.nextId
  obtain ⟨hid, -⟩ := addWith_of_ok (fun p => p.configureFrom document) hone hpile
  unfold ofDocument
  simp only [hid, addNamed_of_fault h]

/-- If no section is bad, the unnamed pile is made and then those of the named sections. -/
theorem ofDocument_of_good (hunnamed : document.settingsFor none = .ok s)
    (h : document.sections.findSome? namedFault? = none) (d : Depot) :
    ∃ named, (ofDocument d document).result = .ok ⟨d.nextId, named⟩ ∧
      Made (withPile d none s) document.sections named (ofDocument d document).depot := by
  obtain ⟨hone, hpile⟩ := Pile.configureFrom_create hunnamed d.nextId
  obtain ⟨hid, hdepot⟩ := addWith_of_ok (fun p => p.configureFrom document) hone hpile
  obtain ⟨named, hresult, hmade⟩ := addNamed_of_good h (withPile d none s)
  have hdepot' : (addWith d none fun p => p.configureFrom document).depot = withPile d none s :=
    hdepot
  unfold ofDocument
  simp only [hid, hdepot', hresult]
  exact ⟨named, rfl, hmade⟩

end OfDocument

section Documents

variable {document : ConfigDocument} (hnodup : (document.sections.map ConfigSection.name).Nodup)
include hnodup

/-- A section is the one that the document has for the pile of its name. -/
theorem settingsFor_of_mem {c : ConfigSection} (hc : c ∈ document.sections) :
    document.settingsFor c.name = Settings.standard.apply c := by
  unfold ConfigDocument.settingsFor
  rw [(ConfigDocument.section?_eq_some_iff hnodup).2 ⟨hc, rfl⟩]

/-- Without a section of its name a pile gets the standard settings. -/
theorem settingsFor_of_not_mem {name : Option String}
    (h : ∀ c ∈ document.sections, c.name ≠ name) : document.settingsFor name = .ok .standard := by
  unfold ConfigDocument.settingsFor
  cases hfound : document.section? name with
  | none => rfl
  | some c =>
    obtain ⟨hc, hname⟩ := (ConfigDocument.section?_eq_some_iff hnodup).1 hfound
    exact absurd hname (h c hc)

/-- What the document has for the unnamed pile is good, if its unnamed section is. -/
theorem exists_settingsFor_none (h : ∀ c ∈ document.sections, c.name = none → c.IsGood) :
    ∃ s, document.settingsFor none = .ok s := by
  by_cases hsome : ∃ c ∈ document.sections, c.name = none
  · obtain ⟨c, hc, hname⟩ := hsome
    have hsettings := settingsFor_of_mem hnodup hc
    rw [hname] at hsettings
    rw [hsettings]
    exact h c hc hname
  · exact ⟨_, settingsFor_of_not_mem hnodup fun c hc hname => hsome ⟨c, hc, hname⟩⟩

/-- **No registry is made of a document with a fault**; the first fault is the reason. -/
theorem ofDocument_of_fault {e : ConfigError} (h : FirstFault document.sections e) (d : Depot) :
    (ofDocument d document).result = .error (.config e) := by
  cases h with
  | unnamed hc hname happly =>
    have hsettings := settingsFor_of_mem hnodup hc
    rw [hname, happly] at hsettings
    exact ofDocument_of_unnamed_fault hsettings d
  | named hgood hsections hbefore hname happly =>
    obtain ⟨s, hs⟩ := exists_settingsFor_none hnodup hgood
    refine ofDocument_of_named_fault hs (List.findSome?_eq_some_iff.2 ?_) d
    refine ⟨_, _, _, hsections, namedFault?_eq_some_iff.2 ⟨hname, happly⟩, ?_⟩
    exact fun c' hc' => namedFault?_eq_none_iff.2 fun _ => hbefore c' hc'

/-- Some registry is made of a document without one. -/
theorem exists_registry (h : ∀ c ∈ document.sections, c.IsGood) (d : Depot) :
    ∃ s named, document.settingsFor none = .ok s ∧
      (ofDocument d document).result = .ok ⟨d.nextId, named⟩ ∧
      Made (withPile d none s) document.sections named (ofDocument d document).depot := by
  obtain ⟨s, hs⟩ := exists_settingsFor_none hnodup fun c hc _ => h c hc
  have hnone : document.sections.findSome? namedFault? = none :=
    List.findSome?_eq_none_iff.2 fun c hc => namedFault?_eq_none_iff.2 fun _ => h c hc
  obtain ⟨named, hresult, hmade⟩ := ofDocument_of_good hs hnone d
  exact ⟨s, named, hs, hresult, hmade⟩

end Documents

/-- A document that is not without faults has a first one. -/
theorem good_or_firstFault (sections : List ConfigSection) :
    (∀ c ∈ sections, c.IsGood) ∨ ∃ e, FirstFault sections e := by
  by_cases hunnamed : ∀ c ∈ sections, c.name = none → c.IsGood
  · have hgood : ∀ c ∈ sections, namedFault? c = none → c.IsGood := by
      intro c hc hnone
      by_cases hname : c.name = none
      · exact hunnamed c hc hname
      · exact namedFault?_eq_none_iff.1 hnone hname
    cases hfault : sections.findSome? namedFault? with
    | none => exact .inl fun c hc => hgood c hc (List.findSome?_eq_none_iff.1 hfault c hc)
    | some e =>
      obtain ⟨before, c, after, hsections, hc, hbefore⟩ := List.findSome?_eq_some_iff.1 hfault
      obtain ⟨hname, happly⟩ := namedFault?_eq_some_iff.1 hc
      refine .inr ⟨e, .named hunnamed hsections ?_ hname happly⟩
      intro c' hc'
      exact hgood c' (hsections ▸ List.mem_append_left _ hc') (hbefore c' hc')
  · push Not at hunnamed
    obtain ⟨c, hc, hname, hbad⟩ := hunnamed
    cases happly : Settings.standard.apply c with
    | error e => exact .inr ⟨e, .unnamed hc hname happly⟩
    | ok s => exact absurd ⟨s, happly⟩ hbad

/-! ## What can be relied on -/

/-- Where no name is given twice, the number of a name is the one that stands beside it. -/
theorem lookup_of_mem {named : List (String × Nat)} (hnodup : (named.map Prod.fst).Nodup)
    {name : String} {id : Nat} (h : (name, id) ∈ named) : named.lookup name = some id := by
  induction named with
  | nil => exact absurd h List.not_mem_nil
  | cons entry rest ih =>
    rw [List.map_cons, List.nodup_cons] at hnodup
    rcases List.mem_cons.1 h with rfl | h
    · exact List.lookup_cons_self
    · have hne : name ≠ entry.1 := by
        rintro rfl
        exact hnodup.1 (List.mem_map.2 ⟨_, h, rfl⟩)
      rw [List.lookup_cons, beq_false_of_ne hne]
      exact ih hnodup.2 h

/-- A name that does not stand there has no number. -/
theorem lookup_eq_none {named : List (String × Nat)} {name : String}
    (h : name ∉ named.map Prod.fst) : named.lookup name = none := by
  rw [List.lookup_eq_none_iff]
  intro entry hentry
  have hne : name ≠ entry.1 := by
    rintro rfl
    exact h (List.mem_map_of_mem hentry)
  simpa using hne

/-- The names are in ascending order, if none comes twice. -/
theorem pairwise_names {r : Registry} (hnodup : (r.named.map Prod.fst).Nodup) :
    r.names.Pairwise (· < ·) := by
  have htrans : ∀ a b c : String, decide (a ≤ b) → decide (b ≤ c) → decide (a ≤ c) := by
    simpa using fun a b c => le_trans
  have htotal : ∀ a b : String, decide (a ≤ b) || decide (b ≤ a) := by
    simpa using le_total
  have hsorted : r.names.Pairwise (· ≤ ·) := by
    simpa [names] using List.pairwise_mergeSort htrans htotal (r.named.map Prod.fst)
  have hdistinct : r.names.Nodup := (List.mergeSort_perm _ _).nodup_iff.2 hnodup
  exact (hsorted.and hdistinct).imp fun h => lt_of_le_of_ne h.1 h.2

section OfMade

variable {document : ConfigDocument} (hnodup : (document.sections.map ConfigSection.name).Nodup)
  {d d' : Depot} {s : Settings} {named : List (String × Nat)}
  (hunnamed : document.settingsFor none = .ok s)
  (hmade : Made (withPile d none s) document.sections named d')
include hnodup hunnamed hmade

/-- Each pile of the registry has the settings that the document has for its name. -/
theorem settingsFor_of_get? {name : Option String} {id : Nat} {p : Pile}
    (hid : get? ⟨d.nextId, named⟩ name = some id) (hp : d'.pile? id = some p) :
    document.settingsFor name = .ok p.settings := by
  cases name with
  | none =>
    obtain rfl := Option.some.inj hid
    obtain rfl := Option.some.inj ((hmade.pile?_eq pile?_withPile_self).symm.trans hp)
    exact hunnamed
  | some name =>
    have hname : name ∈ named.map Prod.fst := by
      by_contra hnot
      exact absurd (hid.symm.trans (lookup_eq_none hnot)) nofun
    rw [hmade.map_fst, List.mem_filterMap] at hname
    obtain ⟨c, hc, hname⟩ := hname
    obtain ⟨id', s', hentry, happly, hpile⟩ := hmade.exists_pile hc hname
    obtain rfl := Option.some.inj (hid.symm.trans (lookup_of_mem (hmade.nodup_fst hnodup) hentry))
    obtain rfl := Option.some.inj (hpile.symm.trans hp)
    rw [← hname, settingsFor_of_mem hnodup hc]
    exact happly

/-- **A registry that is made of a document mirrors it.** -/
theorem mirrors_of_made : Mirrors document ⟨d.nextId, named⟩ d' where
  names_ascending := pairwise_names (hmade.nodup_fst hnodup)
  mem_names_iff name := by
    unfold names
    rw [List.mem_mergeSort, hmade.map_fst, List.mem_filterMap]
  named c hc name hname := by
    obtain ⟨id, s', hentry, happly, hpile⟩ := hmade.exists_pile hc hname
    exact ⟨id, s', lookup_of_mem (hmade.nodup_fst hnodup) hentry, happly, hpile⟩
  get?_eq_none name hname := lookup_eq_none fun h => hname (List.mem_mergeSort.2 h)
  unnamed := by
    refine ⟨d.nextId, s, rfl, ?_, ?_, hmade.pile?_eq pile?_withPile_self⟩
    · intro c hc hname
      rw [← settingsFor_of_mem hnodup hc, hname]
      exact hunnamed
    · intro hnone
      exact Except.ok.inj (hunnamed.symm.trans (settingsFor_of_not_mem hnodup hnone))
  nodup_all := by
    show (d.nextId :: named.map Prod.snd).Nodup
    rw [hmade.map_snd, nextId_withPile, ← List.range'_succ]
    exact List.nodup_range'
  alone name id p hid hp other := by
    have hsettings := settingsFor_of_get? hnodup hunnamed hmade hid hp
    obtain ⟨hresult, hother⟩ := Pile.configureFrom_create hsettings other
    exact ⟨hresult, by rw [hother]; rfl⟩

end OfMade

/-- **A registry mirrors its document.** It is made exactly if all sections are good, and otherwise
the first fault is the reason that it is not. -/
theorem mirrors_of_document {sections : List ConfigSection} {document : ConfigDocument}
    (hdocument : ConfigDocument.ofSections sections = .ok document) (d : Depot) :
    ((∃ r, (ofDocument d document).result = .ok r) ↔ ∀ c ∈ sections, c.IsGood) ∧
      (∀ e, (ofDocument d document).result = .error e ↔
        ∃ cause, e = .config cause ∧ FirstFault sections cause) ∧
      ∀ r, (ofDocument d document).result = .ok r →
        Mirrors document r (ofDocument d document).depot := by
  obtain ⟨hnodup, rfl⟩ := ConfigDocument.ofSections_eq_ok_iff.1 hdocument
  have hfails : ∀ {cause}, FirstFault sections cause →
      (ofDocument d ⟨sections⟩).result = .error (.config cause) := fun h =>
    @ofDocument_of_fault ⟨sections⟩ hnodup _ h d
  rcases good_or_firstFault sections with hgood | ⟨cause, hfault⟩
  · obtain ⟨s, named, hunnamed, hresult, hmade⟩ := exists_registry hnodup hgood d
    refine ⟨⟨fun _ => hgood, fun _ => ⟨_, hresult⟩⟩, ?_, ?_⟩
    · intro e
      constructor
      · intro herror
        exact absurd (hresult.symm.trans herror) nofun
      · rintro ⟨cause, rfl, hfault⟩
        exact hfails hfault
    · intro r hr
      obtain rfl := Except.ok.inj (hresult.symm.trans hr)
      exact mirrors_of_made hnodup hunnamed hmade
  · have hresult := hfails hfault
    refine ⟨⟨?_, ?_⟩, ?_, ?_⟩
    · rintro ⟨r, hr⟩
      exact absurd (hresult.symm.trans hr) nofun
    · intro hgood
      obtain ⟨s, named, -, hok, -⟩ := exists_registry hnodup hgood d
      exact ⟨_, hok⟩
    · intro e
      constructor
      · intro herror
        exact ⟨cause, (Except.error.inj (hresult.symm.trans herror)).symm, hfault⟩
      · rintro ⟨cause', rfl, hfault'⟩
        exact hfails hfault'
    · intro r hr
      exact absurd (hresult.symm.trans hr) nofun

/-- Sections out of order, the unnamed one between two others. -/
def unordered : List ConfigSection :=
  [{ name := some "zebra", freeListSize := some 7 }, { maxSegmentLimit := some 3 },
    { name := some "alpha" }]

/-- Sections of which the last two are bad, the unnamed one after a named one. -/
def faulty : List ConfigSection :=
  [{ name := some "zebra" }, { name := some "alpha", freeListSize := some (-7) },
    { segmentSize := some 16 }]

/-- The names come in order, and of two bad sections it is the unnamed one that is told of. -/
theorem mirrors_of_document_unordered :
    ConfigDocument.ofSections unordered = .ok ⟨unordered⟩ ∧
      ConfigDocument.ofSections faulty = .ok ⟨faulty⟩ ∧
      (∃ r, (ofDocument {} ⟨unordered⟩).result = .ok r ∧ r.names = ["alpha", "zebra"] ∧
        Mirrors ⟨unordered⟩ r (ofDocument {} ⟨unordered⟩).depot) ∧
      (ofDocument {} ⟨faulty⟩).result =
        .error (.config (.invalidValue .segmentSize "16" .segmentSizeBounds)) := by
  have hdocument : ConfigDocument.ofSections unordered = .ok ⟨unordered⟩ := by decide +kernel
  have hfaulty : ConfigDocument.ofSections faulty = .ok ⟨faulty⟩ := by decide +kernel
  have hgood : ∀ c ∈ unordered, c.IsGood := by
    simp only [unordered, List.forall_mem_cons]
    exact ⟨⟨_, rfl⟩, ⟨_, rfl⟩, ⟨_, rfl⟩, List.forall_mem_nil _⟩
  obtain ⟨hiff, -, hmirrors⟩ := mirrors_of_document hdocument {}
  obtain ⟨r, hr⟩ := hiff.2 hgood
  have hfault : FirstFault faulty (.invalidValue .segmentSize "16" .segmentSizeBounds) :=
    .unnamed (List.mem_cons_of_mem _ (List.mem_cons_of_mem _ List.mem_cons_self)) rfl
      (by decide +kernel)
  refine ⟨hdocument, hfaulty, ⟨r, hr, ?_, hmirrors r hr⟩, ?_⟩
  · refine (hmirrors r hr).names_ascending.eq_of_mem_iff (by decide +kernel) fun name => ?_
    rw [(hmirrors r hr).mem_names_iff]
    simp [unordered, or_comm, eq_comm]
  · exact ((mirrors_of_document hfaulty {}).2.1 _).2 ⟨_, rfl, hfault⟩

end Registry

end ObjectPile
