/-
# Validity of pointers

The promise that a pile makes about its pointers, for every run of operations on it: a pointer that
was given out and not taken back leads to exactly what was stored under it, whichever way it is
read, and can be deleted; every other pointer, whether it was forged, taken back, or belongs to
another pile, is refused by every operation alike.

* `Pile.Holds`, `Pile.Denies` : what a pile answers for a good pointer and for any other one.
* `Session.Sound.ledger_run` : the entry of a pointer stays until the pointer is taken back.
* `Session.pointers_of_run` : which pointers are good along a run is what its record says.
* `Session.recycled` : a run in which two pointers name one chunk.
-/
import ObjectPile.Proofs.Runs

namespace ObjectPile

namespace Pile

/-- **All operations find the payload behind a pointer.** -/
structure Holds (p : Pile) (q : Pointer) (payload : List UInt8) (version : CodecVersion) :
    Prop where
  getVersioned_eq : p.getVersioned q = .ok (some (payload, version))
  get_eq : p.get q = .ok (some payload)
  lengthOf_eq : p.lengthOf q = .ok (some payload.length)
  withPayload_eq : ∀ (α : Type) (f : List UInt8 → CodecVersion → α),
    p.withPayload q f = .ok (some (f payload version))
  rawBuffer_eq : ∃ b, p.rawBuffer q = .ok (some b) ∧ b.payload = payload ∧
    b.length = payload.length ∧ b.length ≤ b.capacity ∧ b.version = version
  delete_eq : (p.delete q).result = .ok ()

/-- **All operations refuse a pointer**, and deleting through it changes nothing. -/
structure Denies (p : Pile) (q : Pointer) : Prop where
  getVersioned_eq : p.getVersioned q = .error (.accessViolation q)
  get_eq : p.get q = .error (.accessViolation q)
  lengthOf_eq : p.lengthOf q = .error (.accessViolation q)
  withPayload_eq : ∀ (α : Type) (f : List UInt8 → CodecVersion → α),
    p.withPayload q f = .error (.accessViolation q)
  rawBuffer_eq : p.rawBuffer q = .error (.accessViolation q)
  delete_eq : p.delete q = .unchanged p (.error (.accessViolation q))

end Pile

/-- The payload of a live chunk lies in the room of the chunk. -/
theorem Segment.Reachable.length_le_capacity {policy : AllocationPolicy} {s : Segment}
    (hp : policy.Sound) (h : Reachable policy s) {offset generation : Nat} {chunk : LiveChunk}
    (hresolve : s.resolve? offset generation = some chunk) : chunk.length ≤ chunk.capacity := by
  obtain ⟨v, hrep, hsettled⟩ := h.exists_represents hp
  obtain ⟨c, hc, version, payload, -, hlive, rfl⟩ :=
    (hrep.resolve?_eq_some_iff hp hsettled).1 hresolve
  have hroom := hrep.carved.length_add_le hc hlive
  exact Nat.le_sub_of_add_le hroom

namespace Pile

variable {p : Pile} {q : Pointer} {payload : List UInt8} {version : CodecVersion}

/-- A started pile holds what its contents say. -/
theorem Sound.holds (h : p.Sound) (hstate : p.state = .started)
    (hlookup : p.lookup q = some (payload, version)) : p.Holds q payload version := by
  have hview : ∀ (α : Type) (f : Segment → LiveChunk → α), ∃ s chunk,
      p.slot? q.segment = some s ∧ s.resolve? q.offset q.generation = some chunk ∧
        s.payload chunk = payload ∧ chunk.length = payload.length ∧ chunk.version = version ∧
          p.view q f = .ok (some (f s chunk)) := fun α f => view_of_lookup_eq_some f hstate hlookup
  have hwith : ∀ (α : Type) (f : List UInt8 → CodecVersion → α),
      p.withPayload q f = .ok (some (f payload version)) := by
    intro α f
    obtain ⟨s, chunk, -, -, hpayload, -, hversion, heq⟩ :=
      hview α fun s chunk => f (s.payload chunk) chunk.version
    rw [hpayload, hversion] at heq
    exact heq
  have hversioned : p.getVersioned q = .ok (some (payload, version)) := hwith _ _
  refine ⟨hversioned, ?_, ?_, hwith, ?_, (h.delete hstate hlookup).1⟩
  · unfold Pile.get
    rw [hversioned]
    rfl
  · obtain ⟨s, chunk, -, -, -, hlength, -, heq⟩ := hview _ fun _ chunk => chunk.length
    rw [hlength] at heq
    exact heq
  · obtain ⟨s, chunk, hslot, hresolve, hpayload, hlength, hversion, heq⟩ :=
      hview RawBuffer fun s chunk =>
        ⟨s.memory, chunk.offset + headerSize, chunk.capacity, chunk.length, chunk.version⟩
    refine ⟨_, heq, hpayload, hlength, ?_, hversion⟩
    exact (h.reachable _ s hslot).length_le_capacity h.policy hresolve

/-- A pointer that nothing can be looked at through is denied. -/
theorem denies_of_view (hview : ∀ (α : Type) (f : Segment → LiveChunk → α),
    p.view q f = .error (.accessViolation q)) : p.Denies q := by
  refine ⟨hview _ _, ?_, hview _ _, fun α f => hview _ _, hview _ _, ?_⟩
  · have hversioned : p.getVersioned q = .error (.accessViolation q) := hview _ _
    unfold Pile.get
    rw [hversioned]
    rfl
  · unfold Pile.delete
    rw [hview]

/-- A started pile denies what its contents do not have. -/
theorem denies_of_lookup_eq_none (hstate : p.state = .started) (hlookup : p.lookup q = none) :
    p.Denies q :=
  denies_of_view fun _ f => view_of_lookup_eq_none f hstate hlookup

end Pile

/-! ## Entries of the ledger -/

/-- An operation that does not take a pointer back. -/
def Operation.Spares (q : Pointer) : Operation → Prop
  | .delete r => r ≠ q
  | .purge | .stop => False
  | _ => True

instance (q : Pointer) : (op : Operation) → Decidable (op.Spares q)
  | .delete r => inferInstanceAs (Decidable (r ≠ q))
  | .purge | .stop => inferInstanceAs (Decidable False)
  | .configure _ | .configureFrom _ | .start | .put .. | .get _ | .getVersioned _
  | .withPayload _ | .lengthOf _ | .rawBuffer _ => inferInstanceAs (Decidable True)

/-- An answer changes the entry of a pointer that it does not give out by nothing but taking it
back. -/
theorem Ledger.record_eq_or {ledger : Ledger} {q : Pointer} (op : Operation) {response : Response}
    (hne : response.issued? ≠ some q) : ledger.record op response q = ledger q ∨
      ¬op.Spares q ∧ ledger.record op response q = none := by
  unfold Ledger.record
  split
  · left
    cases hgiven : response.issued? with
    | none => rfl
    | some r =>
      have hqr : q ≠ r := by
        rintro rfl
        exact hne hgiven
      exact Function.update_of_ne hqr _ _
  · rename_i r
    by_cases hqr : q = r
    · subst hqr
      exact .inr ⟨fun h => h rfl, Function.update_self q _ _⟩
    · exact .inl (Function.update_of_ne hqr _ _)
  · exact .inr ⟨id, rfl⟩
  · exact .inr ⟨id, rfl⟩
  · exact .inl rfl

/-- No answer brings a pointer onto the ledger but one that gives it out. -/
theorem Ledger.record_eq_none {ledger : Ledger} {q : Pointer} (h : ledger q = none)
    (op : Operation) {response : Response} (hne : response.issued? ≠ some q) :
    ledger.record op response q = none := by
  rcases Ledger.record_eq_or op hne with hsame | ⟨-, hnone⟩
  · exact hsame.trans h
  · exact hnone

namespace Session

/-- What the pile of a session answers for a pointer is what the ledger says. -/
def Answers (session : Session) (q : Pointer) : Prop :=
  match session.ledger q with
  | some (payload, version) => session.pile.Holds q payload version
  | none => session.pile.Denies q

variable {session : Session}

theorem Sound.answers (h : session.Sound) (hstate : session.pile.state = .started) (q : Pointer) :
    session.Answers q := by
  unfold Answers
  rw [h.ledger_eq]
  cases hlookup : session.pile.lookup q with
  | some object => exact h.pile.holds hstate hlookup
  | none => exact Pile.denies_of_lookup_eq_none hstate hlookup

/-- A pointer that was given out keeps its entry unless it is taken back: if the next operation
stores something, the pointer it gives out is a new one. -/
theorem ledger_step {q : Pointer} (hq : q ∈ session.issued) (op : Operation)
    (hnodup : (session.step op).issued.Nodup) :
    (session.step op).ledger q = session.ledger q ∨
      ¬op.Spares q ∧ (session.step op).ledger q = none := by
  refine Ledger.record_eq_or op ?_
  intro hgiven
  have hdisjoint := (List.nodup_append.1 hnodup).2.2
  exact hdisjoint q (by simp [hgiven]) q hq rfl

/-- **The entry of a pointer that was given out stays until it is taken back**, and there is none
afterwards. -/
theorem Sound.ledger_run (h : session.Sound) {ops : List Operation}
    (htyped : ∀ op ∈ ops, op.IsTyped) (hputs : (session.run ops).issued.length < maxWord)
    {q : Pointer} (hq : q ∈ session.issued) : (session.run ops).ledger q = session.ledger q ∨
      (∃ op ∈ ops, ¬op.Spares q) ∧ (session.run ops).ledger q = none := by
  -- the session is sound before each operation, so the next pointer is a new one
  induction ops generalizing session with
  | nil => exact .inl rfl
  | cons op ops ih =>
    have hle := length_issued_le_run session (op :: ops)
    have hstep := h.step (htyped op List.mem_cons_self) (by omega)
    have hrest := ih hstep (fun op' hop' => htyped op' (List.mem_cons_of_mem _ hop')) hputs
      (List.mem_append_right _ hq)
    rcases hrest with hrest | ⟨⟨op', hop', htaken⟩, hnone⟩
    · rcases ledger_step hq op hstep.nodup with hsame | ⟨htaken, hnone⟩
      · exact .inl (hrest.trans hsame)
      · exact .inr ⟨⟨op, List.mem_cons_self, htaken⟩, hrest.trans hnone⟩
    · exact .inr ⟨⟨op', List.mem_cons_of_mem _ hop', htaken⟩, hnone⟩

/-! ## Pointers that were taken back -/

/-- A pointer that was given out and taken back. -/
def Stale (session : Session) (q : Pointer) : Prop :=
  q ∈ session.issued ∧ session.ledger q = none

/-- A pointer that was given out stays on record as such. -/
theorem mem_issued_run {q : Pointer} (hq : q ∈ session.issued) (ops : List Operation) :
    q ∈ (session.run ops).issued := by
  induction ops generalizing session with
  | nil => exact hq
  | cons op ops ih => exact ih (List.mem_append_right _ hq)

/-- A stale pointer is stale after every run. -/
theorem Sound.stale_run (h : session.Sound) {ops : List Operation}
    (htyped : ∀ op ∈ ops, op.IsTyped) (hputs : (session.run ops).issued.length < maxWord)
    {q : Pointer} (hq : session.Stale q) : (session.run ops).Stale q := by
  obtain ⟨hissued, hnone⟩ := hq
  refine ⟨mem_issued_run hissued ops, ?_⟩
  rcases h.ledger_run htyped hputs hissued with hsame | ⟨-, hlost⟩
  · exact hsame.trans hnone
  · exact hlost

/-- **Pointers along a run.** Whenever the pile is started, it holds for every pointer what the
ledger has for it and denies all others; no pointer is given out twice; and a pointer that was taken
back, at whatever time, stays so. -/
theorem pointers_of_run {p : Pile} (hnew : p.IsNew) {ops : List Operation}
    (htyped : ∀ op ∈ ops, op.IsTyped) (hputs : ((new p).run ops).issued.length < maxWord) :
    (((new p).run ops).pile.state = .started → ∀ q, ((new p).run ops).Answers q) ∧
      ((new p).run ops).issued.Nodup ∧
      ∀ before after, ops = before ++ after →
        ∀ q, ((new p).run before).Stale q → ((new p).run ops).Stale q := by
  have hsound := (sound_new hnew).run htyped hputs
  refine ⟨fun hstate q => hsound.answers hstate q, hsound.nodup, ?_⟩
  -- what comes after the pointer was taken back is a run of its own
  rintro before after rfl q hq
  rw [run_append] at hputs ⊢
  have hle := length_issued_le_run ((new p).run before) after
  have hbefore := (sound_new hnew).run
    (fun op hop => htyped op (List.mem_append_left _ hop)) (by omega)
  exact hbefore.stale_run (fun op hop => htyped op (List.mem_append_right _ hop)) hputs hq

/-- A run that stores in the chunk of a deleted object and deletes through a forged pointer. -/
def recycling : List Operation :=
  [.configure { freeChunkSizes := some (.list [16, 64]) }, .start, .put [1, 2, 3] .raw,
    .put (List.replicate 17 7) .raw, .delete ⟨1, 0, 0, 1⟩, .put [4] .raw, .delete ⟨2, 0, 0, 3⟩]

/-- The session after that run. -/
def recycled : Session := (new (.create 1 none)).run recycling

/-- The new object is found, and the pointer to the deleted one is dead, though both name the same
chunk. -/
theorem pointers_of_recycling : recycled.pile.Holds ⟨1, 0, 0, 3⟩ [4] .raw ∧
    recycled.pile.Denies ⟨1, 0, 0, 1⟩ ∧ recycled.issued.Nodup ∧ recycled.Stale ⟨1, 0, 0, 1⟩ := by
  have htyped : ∀ op ∈ recycling, op.IsTyped := by decide
  have hputs : recycled.issued.length < maxWord := by decide +kernel
  obtain ⟨hanswers, hnodup, hstale⟩ :=
    pointers_of_run (Pile.isNew_create 1 none) htyped hputs
  have hstate : recycled.pile.state = .started := by decide +kernel
  have hfound : recycled.ledger ⟨1, 0, 0, 3⟩ = some ([4], .raw) := by decide +kernel
  have hlost : recycled.ledger ⟨1, 0, 0, 1⟩ = none := by decide +kernel
  have hholds : recycled.Answers ⟨1, 0, 0, 3⟩ := hanswers hstate _
  have hdenies : recycled.Answers ⟨1, 0, 0, 1⟩ := hanswers hstate _
  unfold Answers at hholds hdenies
  rw [hfound] at hholds
  rw [hlost] at hdenies
  refine ⟨hholds, hdenies, hnodup, ?_⟩
  refine hstale (recycling.take 5) (recycling.drop 5) rfl _ ⟨?_, ?_⟩
  · decide +kernel
  · decide +kernel

end Session

end ObjectPile
