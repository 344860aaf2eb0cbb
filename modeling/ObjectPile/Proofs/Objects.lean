/-
# Values kept in a pile

A value is stored as the payload that its codec makes of it, with the version of the codec beside it
in the header of the chunk. The header is written again whenever a chunk is reused, split or merged;
but what a pointer was given out for stays on record until it is taken back. So a value comes back
from its codec after whatever else was asked of the pile, and to a codec of another version the pile
refuses it, without a look at the payload.

* `Pile.Decodes` : what is loaded depends on how the codec decodes.
* `Pile.decodes_iff` : that is so for payloads of the codec's own version alone.
* `Errand` : operations, and storing and loading values.
* `Session.lookup_of_stores` : what was stored is found unless it was taken back.
* `Session.objects_of_run` : what becomes of anything that was stored.
-/
import ObjectPile.Codec.Json
import ObjectPile.Pile.Object
import ObjectPile.Proofs.Buffers

namespace ObjectPile

/-! ## Loading -/

/-- A codec decodes a value from the payload that it encodes it to. -/
def Codec.RoundTrips {α : Type} (codec : Codec α) (v : α) : Prop :=
  ∀ payload, codec.encode v = .ok payload → codec.decode payload = .ok v

namespace Pile

variable {p : Pile} {q : Pointer}

/-- **What is loaded depends on how the codec decodes.** -/
def Decodes {α : Type} (p : Pile) (codec : Codec α) (q : Pointer) : Prop :=
  ∃ decode, p.getObject { codec with decode := decode } q ≠ p.getObject codec q

section Loading

variable {α : Type} (codec : Codec α) {payload : List UInt8} {version : CodecVersion}

/-- A payload of another version is refused. -/
theorem getObject_of_version_ne (h : p.getVersioned q = .ok (some (payload, version)))
    (hne : codec.version ≠ version) :
    p.getObject codec q = .error (.codecMismatch codec.version version) := by
  unfold getObject
  rw [h]
  exact if_pos hne.symm

/-- A payload of the version of a codec is decoded. -/
theorem getObject_of_version_eq (h : p.getVersioned q = .ok (some (payload, codec.version))) :
    p.getObject codec q = (codec.decode payload).mapError .codec >>= fun v => .ok (some v) := by
  unfold getObject
  rw [h]
  exact if_neg (not_not.2 rfl)

/-- Where there is no payload of its version, it is all one how a codec decodes. -/
theorem getObject_congr (h : ∀ payload, p.getVersioned q ≠ .ok (some (payload, codec.version)))
    (decode : List UInt8 → Except CodecError α) :
    p.getObject { codec with decode := decode } q = p.getObject codec q := by
  cases hfound : p.getVersioned q with
  | error e =>
    unfold getObject
    rw [hfound]
    rfl
  | ok found =>
    cases found with
    | none =>
      unfold getObject
      rw [hfound]
      rfl
    | some object =>
      obtain ⟨payload, version⟩ := object
      have hne : codec.version ≠ version := by
        rintro rfl
        exact h payload hfound
      rw [getObject_of_version_ne codec hfound hne,
        getObject_of_version_ne { codec with decode := decode } hfound hne]

/-- **A codec decodes payloads of its own version and no others.** -/
theorem decodes_iff :
    p.Decodes codec q ↔ ∃ payload, p.getVersioned q = .ok (some (payload, codec.version)) := by
  constructor
  · rintro ⟨decode, hne⟩
    by_contra hnone
    exact hne (getObject_congr codec (not_exists.1 hnone) decode)
  · rintro ⟨payload, hfound⟩
    -- ways to decode that fail for different reasons cannot both come to the same
    by_contra hsame
    have hfail : ∀ e, p.getObject codec q = .error (.codec e) := by
      intro e
      have heq := not_not.1 (not_exists.1 hsame fun _ => .error e)
      rw [← heq]
      exact getObject_of_version_eq { codec with decode := fun _ => .error e } hfound
    have hcause := (hfail .decode).symm.trans (hfail (.encode .keyNotString))
    simp at hcause

end Loading

/-- What is found behind pointers is the contents of the pile. -/
theorem Sound.getVersioned_eq_some_iff (h : p.Sound) {payload : List UInt8}
    {version : CodecVersion} :
    p.getVersioned q = .ok (some (payload, version)) ↔ p.lookup q = some (payload, version) := by
  constructor
  · intro hfound
    by_cases hstate : p.state = .started
    · cases hlookup : p.lookup q with
      | none =>
        rw [(denies_of_lookup_eq_none hstate hlookup).getVersioned_eq] at hfound
        exact absurd hfound (by simp)
      | some object =>
        rw [(h.holds hstate hlookup).getVersioned_eq] at hfound
        exact Option.some.inj (Except.ok.inj hfound) ▸ rfl
    · -- before the start and after the end no answer has a payload
      unfold getVersioned withPayload view at hfound
      rw [if_pos hstate] at hfound
      split at hfound <;> simp at hfound
  · intro hlookup
    exact (h.holds (h.started_of_lookup hlookup) hlookup).getVersioned_eq

end Pile

/-! ## Errands -/

/-- Operations, and storing and loading values through codecs. -/
inductive Errand : Type 1 where
  | operation (op : Operation)
  | putObject {α : Type} (codec : Codec α) (v : α)
  | getObject {α : Type} (codec : Codec α) (q : Pointer)

namespace Errand

/-- The numbers that an errand is given are words of their types. -/
def IsTyped : Errand → Prop
  | operation op => op.IsTyped
  | _ => True

/-- An errand that does not take a pointer back. -/
def Spares (q : Pointer) : Errand → Prop
  | operation op => op.Spares q
  | _ => True

instance : (errand : Errand) → Decidable errand.IsTyped
  | operation op => inferInstanceAs (Decidable op.IsTyped)
  | putObject _ _ | getObject _ _ => inferInstanceAs (Decidable True)

instance (q : Pointer) : (errand : Errand) → Decidable (errand.Spares q)
  | operation op => inferInstanceAs (Decidable (op.Spares q))
  | putObject _ _ | getObject _ _ => inferInstanceAs (Decidable True)

/-- What an errand asks of the pile, if it changes the pile at all: the payload is made of the value
beforehand. -/
def operation? : Errand → Option Operation
  | operation op => some op
  | putObject codec v => (codec.encode v).toOption.map fun payload => .put payload codec.version
  | getObject _ _ => none

/-- **An errand that stores something** in a pile and gets a pointer to it. -/
inductive Stores (p : Pile) (q : Pointer) : Errand → CodecVersion → Prop
  | put {payload : List UInt8} {version : CodecVersion} : (p.put payload version).result = .ok q →
      Stores p q (.operation (.put payload version)) version
  | putObject {α : Type} {codec : Codec α} {v : α} :
      (p.putObject codec v).result = .ok q → Stores p q (.putObject codec v) codec.version

end Errand

/-- The operations that some errands come down to. -/
def operations (errands : List Errand) : List Operation := errands.filterMap Errand.operation?

namespace Pile

/-- The pile after an errand. -/
def carry (p : Pile) : Errand → Pile
  | .operation op => (p.perform op).2
  | .putObject codec v => (p.putObject codec v).pile
  | .getObject _ _ => p

/-- The pile after some errands. -/
def carryAll (p : Pile) (errands : List Errand) : Pile := errands.foldl carry p

theorem carry_eq (p : Pile) (errand : Errand) :
    p.carry errand = p.after errand.operation?.toList := by
  cases errand with
  | operation op => rfl
  | putObject codec v =>
    simp only [carry, putObject, Errand.operation?]
    cases codec.encode v <;> rfl
  | getObject codec q => rfl

/-- Errands do to a pile what the operations do that they come down to. -/
theorem carryAll_eq (p : Pile) (errands : List Errand) :
    p.carryAll errands = p.after (operations errands) := by
  induction errands generalizing p with
  | nil => rfl
  | cons errand errands ih =>
    have hhead : operations (errand :: errands) =
        errand.operation?.toList ++ operations errands := by
      unfold operations
      cases hop : errand.operation? <;> simp [hop]
    rw [hhead, after_append, ← carry_eq, ← ih]
    rfl

end Pile

namespace Errand

variable {p : Pile} {q : Pointer} {version : CodecVersion} {errand : Errand}

theorem operation?_putObject_eq_some_iff {α : Type} {codec : Codec α} {v : α}
    {payload : List UInt8} : (putObject codec v).operation? = some (.put payload version) ↔
      codec.encode v = .ok payload ∧ codec.version = version := by
  simp only [operation?]
  cases codec.encode v with
  | error e => simp [Except.toOption]
  | ok payload' => simp [Except.toOption]

/-- Whatever is stored is stored as a payload. -/
theorem Stores.exists_put (h : errand.Stores p q version) : ∃ payload,
    errand.operation? = some (.put payload version) ∧ (p.put payload version).result = .ok q := by
  cases h with
  | put hresult => exact ⟨_, rfl, hresult⟩
  | @putObject α codec v hresult =>
    unfold Pile.putObject at hresult
    cases hencode : codec.encode v with
    | error e =>
      rw [hencode] at hresult
      simp [Outcome.unchanged] at hresult
    | ok payload =>
      rw [hencode] at hresult
      exact ⟨payload, operation?_putObject_eq_some_iff.2 ⟨hencode, rfl⟩, hresult⟩

/-- An errand is an operation, or it comes down to putting if to anything. -/
theorem operation_cases {op : Operation} (h : errand.operation? = some op) :
    errand = .operation op ∨ ∃ payload version, op = .put payload version := by
  cases errand with
  | operation op' => exact .inl (congrArg _ (Option.some.inj h))
  | putObject codec v =>
    obtain ⟨payload, -, rfl⟩ := Option.map_eq_some_iff.1 h
    exact .inr ⟨payload, codec.version, rfl⟩
  | getObject codec r => exact absurd h (Option.some_ne_none op).symm

theorem IsTyped.operation (h : errand.IsTyped) {op : Operation}
    (hop : errand.operation? = some op) : op.IsTyped := by
  rcases operation_cases hop with rfl | ⟨payload, version, rfl⟩
  · exact h
  · trivial

theorem Spares.operation (h : errand.Spares q) {op : Operation}
    (hop : errand.operation? = some op) : op.Spares q := by
  rcases operation_cases hop with rfl | ⟨payload, version, rfl⟩
  · exact h
  · trivial

end Errand

theorem isTyped_operations {errands : List Errand} (h : ∀ errand ∈ errands, errand.IsTyped) :
    ∀ op ∈ operations errands, op.IsTyped := by
  intro op hmem
  obtain ⟨errand, herrand, hop⟩ := List.mem_filterMap.1 hmem
  exact (h errand herrand).operation hop

namespace Session

/-! ## Values along runs -/

variable {session : Session} {q : Pointer}

/-- The pile after some errands is that of the session of their operations. -/
theorem carryAll_eq_run (p : Pile) (errands : List Errand) :
    p.carryAll errands = ((new p).run (operations errands)).pile := by
  rw [p.carryAll_eq, pile_run]
  rfl

/-- What is put on a started pile is on record. -/
theorem Sound.ledger_put (h : session.Sound) (hputs : session.issued.length < maxWord)
    (hstate : session.pile.state = .started) {payload : List UInt8} {version : CodecVersion}
    (hresult : (session.pile.put payload version).result = .ok q) :
    q ∈ (session.step (.put payload version)).issued ∧
      (session.step (.put payload version)).ledger q = some (payload, version) := by
  have hmax : session.pile.nextGeneration ≤ maxWord := by
    rw [h.nextGeneration_eq]
    exact hputs
  have hput := h.pile.putAt_of_put hstate hmax hresult
  have hissued : Response.issued? (.pointer (session.pile.put payload version).result) =
      some q := by
    rw [hresult]
    exact if_pos (hput.isValid h.pile)
  constructor
  · exact List.mem_append_left _ (by simp [hissued])
  · show session.ledger.record (.put payload version)
      (.pointer (session.pile.put payload version).result) q = some (payload, version)
    simp only [Ledger.record, hissued]
    exact Function.update_self q _ _

/-- What is put on a started pile is found after every run, unless it was taken back. -/
theorem Sound.ledger_run_put (h : session.Sound) (hstate : session.pile.state = .started)
    {payload : List UInt8} {version : CodecVersion}
    (hresult : (session.pile.put payload version).result = .ok q) {ops : List Operation}
    (htyped : ∀ op ∈ ops, op.IsTyped)
    (hputs : (session.run (.put payload version :: ops)).issued.length < maxWord) :
    (session.run (.put payload version :: ops)).ledger q = some (payload, version) ∨
      (∃ op ∈ ops, ¬op.Spares q) ∧
        (session.run (.put payload version :: ops)).ledger q = none := by
  have hle := length_issued_le_run session (.put payload version :: ops)
  have hless : session.issued.length < maxWord := Nat.lt_of_le_of_lt hle hputs
  obtain ⟨hissued, hledger⟩ := h.ledger_put hless hstate hresult
  have hrun := (h.put hless payload version).ledger_run htyped hputs hissued
  rwa [hledger] at hrun

/-- What an errand stored in a started pile is found after all errands, unless it was taken back. -/
theorem lookup_of_stores {p : Pile} (hnew : p.IsNew) {before after : List Errand} {first : Errand}
    (htyped : ∀ errand ∈ before ++ first :: after, errand.IsTyped)
    (hputs : ((new p).run (operations (before ++ first :: after))).issued.length < maxWord)
    (hstate : (p.carryAll before).state = .started) {version : CodecVersion}
    (hstores : first.Stores (p.carryAll before) q version) :
    ∃ payload, first.operation? = some (.put payload version) ∧
      (p.carryAll (before ++ first :: after)).Sound ∧
      ((p.carryAll (before ++ first :: after)).lookup q = some (payload, version) ∨
        (∃ errand ∈ after, ¬errand.Spares q) ∧
          (p.carryAll (before ++ first :: after)).lookup q = none) := by
  obtain ⟨payload, hop, hresult⟩ := hstores.exists_put
  refine ⟨payload, hop, ?_⟩
  have hops : operations (before ++ first :: after) =
      operations before ++ .put payload version :: operations after := by
    unfold operations
    rw [List.filterMap_append, List.filterMap_cons_some hop]
  have hall := isTyped_operations htyped
  rw [carryAll_eq_run] at hstate hresult ⊢
  have hsound := (sound_new hnew).run hall hputs
  rw [← hsound.ledger_eq]
  refine ⟨hsound.pile, ?_⟩
  -- the run goes on from the session before the object was stored
  rw [hops] at hall hputs ⊢
  rw [run_append] at hputs ⊢
  have hle := length_issued_le_run ((new p).run (operations before))
    (.put payload version :: operations after)
  have hbefore := (sound_new hnew).run
    (fun op hop => hall op (List.mem_append_left _ hop)) (Nat.lt_of_le_of_lt hle hputs)
  have hafter : ∀ op ∈ operations after, op.IsTyped := fun op hop =>
    hall op (List.mem_append_right _ (List.mem_cons_of_mem _ hop))
  rcases hbefore.ledger_run_put hstate hresult hafter hputs with hkept | ⟨⟨op, hmem, htaken⟩, hnone⟩
  · exact .inl hkept
  · obtain ⟨errand, herrand, hop'⟩ := List.mem_filterMap.1 hmem
    exact .inr ⟨⟨errand, herrand, fun hspares => htaken (hspares.operation hop')⟩, hnone⟩

/-- **Values kept along a run.** What an errand stored in a started pile, raw payloads as well as
values, is not decoded by any codec of another version, whatever errands come after it. As long as
they do not take its pointer back, such a codec is told the version of the object; and a value that
was stored through a codec comes back from it, if the codec decodes what it encodes the value to. -/
theorem objects_of_run {p : Pile} (hnew : p.IsNew) {before after : List Errand} {first : Errand}
    (htyped : ∀ errand ∈ before ++ first :: after, errand.IsTyped)
    (hputs : ((new p).run (operations (before ++ first :: after))).issued.length < maxWord)
    (hstate : (p.carryAll before).state = .started) {version : CodecVersion}
    (hstores : first.Stores (p.carryAll before) q version) :
    (∀ {β : Type} (other : Codec β), other.version ≠ version →
        ¬(p.carryAll (before ++ first :: after)).Decodes other q) ∧
      ((∀ errand ∈ after, errand.Spares q) →
        (∀ {β : Type} (other : Codec β), other.version ≠ version →
          (p.carryAll (before ++ first :: after)).getObject other q =
            .error (.codecMismatch other.version version)) ∧
        ∀ {α : Type} (codec : Codec α) (v : α), first = .putObject codec v → codec.RoundTrips v →
          (p.carryAll (before ++ first :: after)).getObject codec q = .ok (some v)) := by
  obtain ⟨payload, hop, hsound, hkept⟩ := lookup_of_stores hnew htyped hputs hstate hstores
  generalize p.carryAll (before ++ first :: after) = p' at hsound hkept ⊢
  constructor
  · intro β other hne hdecodes
    obtain ⟨payload', hfound⟩ := (Pile.decodes_iff other).1 hdecodes
    rw [hsound.getVersioned_eq_some_iff] at hfound
    rcases hkept with hkept | ⟨-, hnone⟩
    · rw [hkept] at hfound
      exact hne (Prod.mk.inj (Option.some.inj hfound)).2.symm
    · simp [hnone] at hfound
  · intro hspares
    have hlookup : p'.lookup q = some (payload, version) := by
      rcases hkept with hkept | ⟨⟨errand, herrand, htaken⟩, -⟩
      · exact hkept
      · exact absurd (hspares errand herrand) htaken
    have hfound := hsound.getVersioned_eq_some_iff.2 hlookup
    refine ⟨fun other hne => Pile.getObject_of_version_ne other hfound hne, ?_⟩
    rintro α codec v rfl hrounds
    obtain ⟨hencode, rfl⟩ := Errand.operation?_putObject_eq_some_iff.1 hop
    rw [Pile.getObject_of_version_eq codec hfound, hrounds payload hencode]
    rfl

/-- Errands before a text is stored: a chunk for it is free, in front of another value. -/
def clearing : List Errand :=
  [.operation (.configure { freeChunkSizes := some (.list [16, 32, 48]) }), .operation .start,
    .operation (.put (List.replicate 48 1) .raw),
    .putObject (Codec.json .string) (.string "next"), .operation (.put [9] .raw),
    .operation (.delete ⟨1, 0, 0, 1⟩)]

/-- A text that takes the front of the free chunk. -/
def keepsake : Errand := .putObject (Codec.plainText .string) (.string "plain")

/-- Errands after that: the rest of the chunk is filled, merged with the one behind it and split
again, and there is a delete through the pointer to the chunk from before. -/
def bustling : List Errand :=
  [.operation (.put [7] .raw), .operation (.delete ⟨1, 0, 64, 2⟩),
    .getObject (Codec.json .string) ⟨1, 0, 0, 4⟩, .operation (.delete ⟨1, 0, 32, 5⟩),
    .operation (.delete ⟨1, 0, 0, 1⟩), .putObject (Codec.json .integers) (.array [.integer 8]),
    .operation .start]

/-- The text comes back from its codec, and the codec of the value that took the chunk next to it is
told another version. -/
theorem objects_of_bustling :
    ((Pile.create 1 none).carryAll (clearing ++ keepsake :: bustling)).getObject
        (Codec.plainText .string) ⟨1, 0, 0, 4⟩ = .ok (some (.string "plain")) ∧
      ((Pile.create 1 none).carryAll (clearing ++ keepsake :: bustling)).getObject
        (Codec.json .value) ⟨1, 0, 0, 4⟩ =
          .error (.codecMismatch .json Codec.plainTextVersion) ∧
      ¬((Pile.create 1 none).carryAll (clearing ++ keepsake :: bustling)).Decodes
        (Codec.json .value) ⟨1, 0, 0, 4⟩ := by
  have htyped : ∀ errand ∈ clearing ++ keepsake :: bustling, errand.IsTyped := by decide
  have hputs : ((new (.create 1 none)).run
      (operations (clearing ++ keepsake :: bustling))).issued.length < maxWord := by
    decide +kernel
  have hstate : ((Pile.create 1 none).carryAll clearing).state = .started := by decide +kernel
  have hstores : keepsake.Stores ((Pile.create 1 none).carryAll clearing) ⟨1, 0, 0, 4⟩
      Codec.plainTextVersion := .putObject (by decide +kernel)
  have hspares : ∀ errand ∈ bustling, errand.Spares ⟨1, 0, 0, 4⟩ := by decide
  have hrounds : (Codec.plainText .string).RoundTrips (.string "plain") := by
    intro payload hencode
    obtain rfl := Except.ok.inj hencode
    rfl
  obtain ⟨hblind, hkept⟩ := objects_of_run (Pile.isNew_create 1 none) htyped hputs hstate hstores
  obtain ⟨hother, hsame⟩ := hkept hspares
  have hne : (Codec.json .value).version ≠ Codec.plainTextVersion := by decide
  exact ⟨hsame _ _ rfl hrounds, hother _ hne, hblind _ hne⟩

end Session

end ObjectPile
