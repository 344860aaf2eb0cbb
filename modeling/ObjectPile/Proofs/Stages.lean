/-
# Stages of a life

A pile is created, maybe configured, then started and in the end stopped, and it never goes back.
From its start on its name, its settings and its policy are settled. It holds objects only while it
is started: before and after that its table and its figures are empty, a put answers with the
invalid pointer, and no pointer leads anywhere. All of this holds after every run, whatever the
operations were called with and however many of them failed.

* `PileState.rank` : the order of the states.
* `Pile.Precedes` : what an earlier stage of a life settles about a later one.
* `Pile.Staged` : what a pile allows and refuses at its stage.
* `Pile.precedes_perform`, `Ordered.perform` : one operation keeps to the order.
* `Pile.stages_of_run` : every run does.
-/
import ObjectPile.Proofs.Pointers

namespace ObjectPile

/-- The place of a state in the order of a life. -/
def PileState.rank : PileState → Nat
  | .created => 0
  | .configured => 1
  | .started => 2
  | .stopped => 3

namespace Pile

/-! ## Earlier and later stages -/

/-- **What an earlier stage of a life settles about a later one.** -/
structure Precedes (p p' : Pile) : Prop where
  id_eq : p'.id = p.id
  rank_le : p.state.rank ≤ p'.state.rank
  /-- A stopped pile stays stopped. -/
  stopped : p.state = .stopped → p'.state = .stopped
  /-- Once a pile was started, nothing about it is configured any more. -/
  settled : p.state = .started ∨ p.state = .stopped →
    p'.name = p.name ∧ p'.settings = p.settings ∧ p'.policy = p.policy

variable {p p' p'' : Pile} {q : Pointer}

theorem Precedes.refl (p : Pile) : p.Precedes p where
  id_eq := rfl
  rank_le := Nat.le_refl _
  stopped hstate := hstate
  settled _ := ⟨rfl, rfl, rfl⟩

theorem Precedes.trans (h : p.Precedes p') (h' : p'.Precedes p'') : p.Precedes p'' := by
  refine ⟨h'.id_eq.trans h.id_eq, Nat.le_trans h.rank_le h'.rank_le,
    fun hstate => h'.stopped (h.stopped hstate), ?_⟩
  intro hstate
  -- what was started by the first stage was started by the second
  have hstate' : p'.state = .started ∨ p'.state = .stopped := by
    have hrank := h.rank_le
    rcases hstate with hstate | hstate
    · rw [hstate] at hrank
      cases hlater : p'.state with
      | created => simp [hlater, PileState.rank] at hrank
      | configured => simp [hlater, PileState.rank] at hrank
      | started => exact .inl rfl
      | stopped => exact .inr rfl
    · exact .inr (h.stopped hstate)
  obtain ⟨hname, hsettings, hpolicy⟩ := h.settled hstate
  obtain ⟨hname', hsettings', hpolicy'⟩ := h'.settled hstate'
  exact ⟨hname'.trans hname, hsettings'.trans hsettings, hpolicy'.trans hpolicy⟩

/-- What leaves the frame of a pile leaves its stage. -/
theorem SameFrame.precedes (h : p.SameFrame p') : p.Precedes p' where
  id_eq := h.id_eq
  rank_le := by rw [h.state_eq]
  stopped hstate := h.state_eq.trans hstate
  settled _ := ⟨h.name_eq, h.settings_eq, h.policy_eq⟩

/-- Nothing is settled about a pile that can still be configured. -/
theorem precedes_of_isConfigurable (hconfigurable : p.isConfigurable = true) (hid : p'.id = p.id)
    (hrank : p.state.rank ≤ p'.state.rank) : p.Precedes p' := by
  have hstate : ¬(p.state = .started ∨ p.state = .stopped) := by
    rintro (hstate | hstate) <;> simp [isConfigurable, hstate] at hconfigurable
  exact ⟨hid, hrank, fun hstopped => absurd (.inr hstopped) hstate,
    fun hsettled => absurd hsettled hstate⟩

theorem rank_le_of_isConfigurable (h : p.isConfigurable = true) : p.state.rank ≤ 1 := by
  unfold isConfigurable at h
  cases hstate : p.state <;> simp [hstate, PileState.rank] at h ⊢

/-! ## What is kept -/

/-- A pile without segments, and with figures that say so. -/
structure Blank (p : Pile) : Prop where
  slots_eq : p.slots = #[]
  objectCount_eq : p.objectCount = 0
  utilizedBytes_eq : p.utilizedBytes = 0
  segmentCount_eq : p.segmentCount = 0

/-- The policy of a pile is the one that its settings ask for, and outside of its working life it
holds nothing. -/
structure Ordered (p : Pile) : Prop where
  policy_eq : p.policy = .ofSettings p.settings
  blank : p.state ≠ .started → p.Blank

theorem IsNew.ordered (h : p.IsNew) : p.Ordered := by
  cases h with
  | ofSettings => exact ⟨rfl, fun _ => ⟨rfl, rfl, rfl, rfl⟩⟩

/-- Putting leaves the frame of a pile. -/
theorem sameFrame_put (p : Pile) (payload : List UInt8) (version : CodecVersion) :
    p.SameFrame (p.put payload version).pile := by
  unfold put
  simp only
  split
  · exact ⟨rfl, rfl, rfl, rfl, rfl⟩
  · split
    · exact ⟨rfl, rfl, rfl, rfl, rfl⟩
    · split
      · exact ⟨rfl, rfl, rfl, rfl, rfl⟩
      · split
        · exact ⟨rfl, rfl, rfl, rfl, rfl⟩
        · exact ⟨rfl, rfl, rfl, rfl, rfl⟩

/-- Deleting leaves the frame of a pile. -/
theorem sameFrame_delete (p : Pile) (q : Pointer) : p.SameFrame (p.delete q).pile := by
  unfold delete
  split
  · exact ⟨rfl, rfl, rfl, rfl, rfl⟩
  · exact ⟨rfl, rfl, rfl, rfl, rfl⟩
  · simp only [releaseIfEmpty]
    split
    · exact ⟨rfl, rfl, rfl, rfl, rfl⟩
    · exact ⟨rfl, rfl, rfl, rfl, rfl⟩

/-! ## Outside of the working life -/

section Idle

variable (hstate : p.state ≠ .started)
include hstate

/-- A put answers with the invalid pointer, before anything is asked about the payload. -/
theorem put_of_ne_started (payload : List UInt8) (version : CodecVersion) :
    p.put payload version = .unchanged p (.ok .invalid) := by
  unfold put
  exact if_pos hstate

/-- Nothing is found behind a pointer that no chunk can have. -/
theorem view_of_generation_eq_zero {α : Type} (f : Segment → LiveChunk → α)
    (hq : q.generation = 0) : p.view q f = .ok none := by
  unfold view
  rw [if_pos hstate, if_neg]
  simp [Pointer.isValid, hq]

/-- Every other pointer is an access violation. -/
theorem view_of_generation_ne_zero {α : Type} (f : Segment → LiveChunk → α)
    (hq : q.generation ≠ 0) : p.view q f = .error (.accessViolation q) := by
  unfold view
  rw [if_pos hstate, if_pos]
  simpa [Pointer.isValid] using hq

theorem denies_of_ne_started (hq : q.generation ≠ 0) : p.Denies q :=
  denies_of_view fun _ f => view_of_generation_ne_zero hstate f hq

end Idle

/-- **All operations overlook a pointer**: they find nothing and do nothing, without an error. -/
structure Overlooks (p : Pile) (q : Pointer) : Prop where
  getVersioned_eq : p.getVersioned q = .ok none
  get_eq : p.get q = .ok none
  lengthOf_eq : p.lengthOf q = .ok none
  withPayload_eq : ∀ (α : Type) (f : List UInt8 → CodecVersion → α), p.withPayload q f = .ok none
  rawBuffer_eq : p.rawBuffer q = .ok none
  delete_eq : p.delete q = .unchanged p (.ok ())

theorem overlooks_of_ne_started (hstate : p.state ≠ .started) (hq : q.generation = 0) :
    p.Overlooks q := by
  have hview : ∀ (α : Type) (f : Segment → LiveChunk → α), p.view q f = .ok none :=
    fun α f => view_of_generation_eq_zero hstate f hq
  refine ⟨hview _ _, ?_, hview _ _, fun α f => hview _ _, hview _ _, ?_⟩
  · have hversioned : p.getVersioned q = .ok none := hview _ _
    unfold Pile.get
    rw [hversioned]
    rfl
  · unfold Pile.delete
    rw [hview]

/-! ## One operation -/

theorem precedes_configure (p : Pile) (options : ConfigSection) :
    p.Precedes (p.configure options).pile := by
  unfold configure
  split
  · rename_i hconfigurable
    split
    · exact .refl p
    · exact precedes_of_isConfigurable hconfigurable rfl (rank_le_of_isConfigurable hconfigurable)
  · exact .refl p

theorem precedes_configureFrom (p : Pile) (document : ConfigDocument) :
    p.Precedes (p.configureFrom document).pile := by
  unfold configureFrom
  split
  · exact p.precedes_configure _
  · split
    · rename_i hconfigurable
      exact precedes_of_isConfigurable hconfigurable rfl (rank_le_of_isConfigurable hconfigurable)
    · exact .refl p

theorem precedes_start (p : Pile) : p.Precedes p.start.pile := by
  have hstarted : p.isConfigurable = true → p.Precedes { p with state := .started } :=
    fun hconfigurable => precedes_of_isConfigurable hconfigurable rfl
      (Nat.le_succ_of_le (rank_le_of_isConfigurable hconfigurable))
  unfold start
  cases hstate : p.state with
  | created => exact hstarted (by simp [isConfigurable, hstate])
  | configured => exact hstarted (by simp [isConfigurable, hstate])
  | started | stopped => exact .refl p

theorem precedes_stop (p : Pile) : p.Precedes p.stop.pile := by
  unfold stop
  split
  · exact .refl p
  · refine ⟨rfl, ?_, fun _ => rfl, fun _ => ⟨rfl, rfl, rfl⟩⟩
    show p.state.rank ≤ 3
    cases p.state <;> decide

/-- **One operation leads to a later stage, or to the same.** -/
theorem precedes_perform (p : Pile) (op : Operation) : p.Precedes (p.perform op).2 := by
  cases op with
  | configure options => exact p.precedes_configure options
  | configureFrom document => exact p.precedes_configureFrom document
  | start => exact p.precedes_start
  | put payload version => exact (p.sameFrame_put payload version).precedes
  | get q | getVersioned q | withPayload q | lengthOf q | rawBuffer q => exact .refl p
  | delete q => exact (p.sameFrame_delete q).precedes
  | purge => exact SameFrame.precedes ⟨rfl, rfl, rfl, rfl, rfl⟩
  | stop => exact p.precedes_stop

namespace Ordered

/-- What leaves the frame of a pile, and all of it outside of its working life, keeps the order. -/
theorem of_sameFrame (h : p.Ordered) (hframe : p.SameFrame p')
    (hidle : p.state ≠ .started → p' = p) : p'.Ordered := by
  constructor
  · rw [hframe.policy_eq, hframe.settings_eq]
    exact h.policy_eq
  · intro hstate
    rw [hframe.state_eq] at hstate
    rw [hidle hstate]
    exact h.blank hstate

theorem configure (h : p.Ordered) (options : ConfigSection) :
    (p.configure options).pile.Ordered := by
  unfold Pile.configure
  split
  · rename_i hconfigurable
    have hblank := h.blank (Sound.not_started_of_isConfigurable hconfigurable)
    split
    · exact h
    · exact ⟨rfl, fun _ => ⟨hblank.1, hblank.2, hblank.3, hblank.4⟩⟩
  · exact h

theorem configureFrom (h : p.Ordered) (document : ConfigDocument) :
    (p.configureFrom document).pile.Ordered := by
  unfold Pile.configureFrom
  split
  · exact h.configure _
  · split
    · rename_i hconfigurable
      have hblank := h.blank (Sound.not_started_of_isConfigurable hconfigurable)
      exact ⟨h.policy_eq, fun _ => ⟨hblank.1, hblank.2, hblank.3, hblank.4⟩⟩
    · exact h

theorem start (h : p.Ordered) : p.start.pile.Ordered := by
  have hstarted : ({ p with state := .started } : Pile).Ordered :=
    ⟨h.policy_eq, fun hne => absurd rfl hne⟩
  unfold Pile.start
  cases hstate : p.state with
  | created | configured => exact hstarted
  | started | stopped => exact h

theorem stop (h : p.Ordered) : p.stop.pile.Ordered := by
  unfold Pile.stop
  split
  · exact h
  · exact ⟨h.policy_eq, fun _ => ⟨rfl, rfl, rfl, rfl⟩⟩

/-- **One operation keeps a pile in order.** -/
theorem perform (h : p.Ordered) (op : Operation) : (p.perform op).2.Ordered := by
  cases op with
  | configure options => exact h.configure options
  | configureFrom document => exact h.configureFrom document
  | start => exact h.start
  | put payload version =>
    refine h.of_sameFrame (p.sameFrame_put payload version) ?_
    intro hstate
    show (p.put payload version).pile = p
    rw [put_of_ne_started hstate]
    rfl
  | get q | getVersioned q | withPayload q | lengthOf q | rawBuffer q => exact h
  | delete q =>
    refine h.of_sameFrame (p.sameFrame_delete q) ?_
    intro hstate
    show (p.delete q).pile = p
    by_cases hq : q.generation = 0
    · rw [(overlooks_of_ne_started hstate hq).delete_eq]
      rfl
    · rw [(denies_of_ne_started hstate hq).delete_eq]
      rfl
  | purge => exact ⟨h.policy_eq, fun _ => ⟨rfl, rfl, rfl, rfl⟩⟩
  | stop => exact h.stop

end Ordered

/-! ## Runs -/

/-- **A run leads to a later stage, or to the same.** -/
theorem precedes_after (p : Pile) (ops : List Operation) : p.Precedes (p.after ops) := by
  induction ops generalizing p with
  | nil => exact .refl p
  | cons op ops ih => exact (p.precedes_perform op).trans (ih (p.perform op).2)

/-- A run keeps a pile in order. -/
theorem Ordered.after (h : p.Ordered) (ops : List Operation) : (p.after ops).Ordered := by
  induction ops generalizing p with
  | nil => exact h
  | cons op ops ih => exact ih (h.perform op)

/-- **What a pile allows and refuses at its stage.** -/
structure Staged (p : Pile) : Prop where
  /-- The policy is the one that the settings ask for. -/
  policy_eq : p.policy = .ofSettings p.settings
  state_purge : p.purge.pile.state = p.state
  configurable : ∀ options, (p.configure options).result = .ok () →
    p.state = .created ∨ p.state = .configured
  configurableFrom : ∀ document, (p.configureFrom document).result = .ok () →
    p.state = .created ∨ p.state = .configured
  /-- Outside of its working life a pile holds nothing. -/
  blank : p.state ≠ .started → p.Blank
  allocatedBytes_eq : p.state ≠ .started → p.allocatedBytes = 0
  put_eq : p.state ≠ .started → ∀ payload version,
    p.put payload version = .unchanged p (.ok .invalid)
  overlooks : p.state ≠ .started → ∀ q, q.generation = 0 → p.Overlooks q
  denies : p.state ≠ .started → ∀ q, q.generation ≠ 0 → p.Denies q

theorem isConfigurable_of_configure {options : ConfigSection}
    (h : (p.configure options).result = .ok ()) : p.isConfigurable = true := by
  by_contra hnot
  unfold configure at h
  rw [if_neg hnot] at h
  simp [Outcome.unchanged] at h

theorem isConfigurable_of_configureFrom {document : ConfigDocument}
    (h : (p.configureFrom document).result = .ok ()) : p.isConfigurable = true := by
  unfold configureFrom at h
  split at h
  · exact isConfigurable_of_configure h
  · by_contra hnot
    rw [if_neg hnot] at h
    simp [Outcome.unchanged] at h

/-- A pile can be configured as long as it was only created or configured. -/
theorem isConfigurable_iff :
    p.isConfigurable = true ↔ p.state = .created ∨ p.state = .configured := by
  simp [isConfigurable]

/-- A pile in order allows and refuses what its stage asks for. -/
theorem Ordered.staged (h : p.Ordered) : p.Staged where
  policy_eq := h.policy_eq
  state_purge := rfl
  configurable _ hresult := isConfigurable_iff.1 (isConfigurable_of_configure hresult)
  configurableFrom _ hresult := isConfigurable_iff.1 (isConfigurable_of_configureFrom hresult)
  blank := h.blank
  allocatedBytes_eq hstate := by
    unfold allocatedBytes
    rw [(h.blank hstate).segmentCount_eq]
    simp [satMul]
  put_eq hstate := put_of_ne_started hstate
  overlooks hstate _ hq := overlooks_of_ne_started hstate hq
  denies hstate _ hq := denies_of_ne_started hstate hq

/-- **The stages of a life.** Whatever is asked of a pile, it allows and refuses what its stage asks
for, and whatever is asked of it afterwards, it never goes back to an earlier stage. -/
theorem stages_of_run (hnew : p.IsNew) (before after : List Operation) :
    (p.after before).Staged ∧ (p.after before).Precedes (p.after (before ++ after)) := by
  rw [after_append]
  exact ⟨(hnew.ordered.after before).staged, (p.after before).precedes_after after⟩

/-- A pile that was stopped while it held an object refuses to be configured and started again. -/
theorem stages_of_stopped :
    ((create 1 none).after [.start, .put [1, 2, 3] .raw, .stop]).Blank ∧
      ((create 1 none).after [.start, .put [1, 2, 3] .raw, .stop]).Precedes
        ((create 1 none).after [.start, .put [1, 2, 3] .raw, .stop,
          .configure { freeListSize := some 5 }, .start, .put [4] .raw]) := by
  obtain ⟨hstaged, hprecedes⟩ := stages_of_run (isNew_create 1 none)
    [.start, .put [1, 2, 3] .raw, .stop]
    [.configure { freeListSize := some 5 }, .start, .put [4] .raw]
  exact ⟨hstaged.blank (by decide +kernel), hprecedes⟩

end Pile

end ObjectPile
