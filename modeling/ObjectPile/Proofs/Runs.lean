/-
# Runs of piles

A session is a pile together with a record of what was asked of it and what it answered: the ledger
holds the payload for each pointer that was given out and not taken back since. The record is kept
from the answers alone. Along every run the contents of the pile are what the ledger says, whatever
pointers the operations were called with, and no pointer is given out twice.

* `Operation`, `Response`, `Pile.perform` : what can be asked of a pile, and its answers.
* `Pile.after`, `Pile.answers` : the pile after some operations, and its answers to them.
* `Session.step`, `Session.run` : the record of an operation, and of a run.
* `Session.Sound.step`, `Session.Sound.run` : the ledger agrees with the pile at all times.
-/
import ObjectPile.Proofs.Deleting
import ObjectPile.Proofs.Lifecycle
import ObjectPile.Proofs.Putting

namespace ObjectPile

/-! ## Operations -/

/-- What can be asked of a pile. -/
inductive Operation where
  | configure (options : ConfigSection)
  | configureFrom (document : ConfigDocument)
  | start
  | put (payload : List UInt8) (version : CodecVersion)
  | get (q : Pointer)
  | getVersioned (q : Pointer)
  | withPayload (q : Pointer)
  | lengthOf (q : Pointer)
  | rawBuffer (q : Pointer)
  | delete (q : Pointer)
  | purge
  | stop

/-- What a pile answers. -/
inductive Response where
  | done (result : Except PileError Unit)
  | pointer (result : Except PileError Pointer)
  | payload (result : Except PileError (Option (List UInt8)))
  | versioned (result : Except PileError (Option (List UInt8 × CodecVersion)))
  | length (result : Except PileError (Option Nat))
  | buffer (result : Except PileError (Option RawBuffer))

/-- The numbers that an operation is given are words of their types. -/
def Operation.IsTyped : Operation → Prop
  | .configure options => options.IsSigned
  | .configureFrom document => ∀ options ∈ document.sections, options.IsSigned
  | _ => True

instance : (op : Operation) → Decidable op.IsTyped
  | .configure options => inferInstanceAs (Decidable options.IsSigned)
  | .configureFrom document =>
    inferInstanceAs (Decidable (∀ options ∈ document.sections, options.IsSigned))
  | .start | .put .. | .get _ | .getVersioned _ | .withPayload _ | .lengthOf _ | .rawBuffer _
  | .delete _ | .purge | .stop => inferInstanceAs (Decidable True)

/-- The answer of a pile to an operation, and the pile afterwards. -/
def Pile.perform (p : Pile) : Operation → Response × Pile
  | .configure options => (.done (p.configure options).result, (p.configure options).pile)
  | .configureFrom document =>
    (.done (p.configureFrom document).result, (p.configureFrom document).pile)
  | .start => (.done p.start.result, p.start.pile)
  | .put payload version =>
    (.pointer (p.put payload version).result, (p.put payload version).pile)
  | .get q => (.payload (p.get q), p)
  | .getVersioned q => (.versioned (p.getVersioned q), p)
  | .withPayload q =>
    (.versioned (p.withPayload q fun payload version => (payload, version)), p)
  | .lengthOf q => (.length (p.lengthOf q), p)
  | .rawBuffer q => (.buffer (p.rawBuffer q), p)
  | .delete q => (.done (p.delete q).result, (p.delete q).pile)
  | .purge => (.done p.purge.result, p.purge.pile)
  | .stop => (.done p.stop.result, p.stop.pile)

/-- The pile after some operations. -/
def Pile.after (p : Pile) (ops : List Operation) : Pile :=
  ops.foldl (fun p op => (p.perform op).2) p

/-- A run in two parts is one part after the other. -/
theorem Pile.after_append (p : Pile) (before after : List Operation) :
    p.after (before ++ after) = (p.after before).after after := List.foldl_append

/-- The answers of a pile to some operations. -/
def Pile.answers : Pile → List Operation → List Response
  | _, [] => []
  | p, op :: ops => (p.perform op).1 :: (p.perform op).2.answers ops

theorem Pile.answers_append (p : Pile) (before after : List Operation) :
    p.answers (before ++ after) = p.answers before ++ (p.after before).answers after := by
  induction before generalizing p with
  | nil => rfl
  | cons op ops ih => exact congrArg ((p.perform op).1 :: ·) (ih (p.perform op).2)

/-! ## Records -/

/-- The pointer that an answer gives out. The invalid pointer is none. -/
def Response.issued? : Response → Option Pointer
  | .pointer (.ok q) => if q.isValid then some q else none
  | _ => none

/-- Which pointers name an object, and its payload and version. -/
abbrev Ledger := Pointer → Option (List UInt8 × CodecVersion)

/-- The ledger after an operation was answered. -/
def Ledger.record (ledger : Ledger) : Operation → Response → Ledger
  | .put payload version, response =>
    match response.issued? with
    | some q => Function.update ledger q (some (payload, version))
    | none => ledger
  | .delete q, .done (.ok ()) => Function.update ledger q none
  | .purge, _ => fun _ => none
  | .stop, _ => fun _ => none
  | _, _ => ledger

/-- A pile with the record of its run. -/
structure Session where
  pile : Pile
  ledger : Ledger
  /-- The pointers given out so far, the last one first. -/
  issued : List Pointer

namespace Session

/-- The session of a pile that nothing was asked of. -/
def new (p : Pile) : Session := ⟨p, fun _ => none, []⟩

/-- The session after an operation. -/
def step (session : Session) (op : Operation) : Session :=
  let (response, pile) := session.pile.perform op
  ⟨pile, session.ledger.record op response, response.issued?.toList ++ session.issued⟩

/-- The session after a run. -/
def run (session : Session) (ops : List Operation) : Session := ops.foldl step session

/-- **What holds along every run**: the ledger says what the pile contains, and the pointers that
were given out carry different generations that the pile is past. -/
structure Sound (session : Session) : Prop where
  pile : session.pile.Sound
  ledger_eq : session.ledger = session.pile.lookup
  nextGeneration_eq : session.pile.nextGeneration = session.issued.length + 1
  generation_lt : ∀ q ∈ session.issued, q.generation < session.pile.nextGeneration
  nodup : session.issued.Nodup

theorem sound_new {p : Pile} (h : p.IsNew) : (new p).Sound := by
  obtain ⟨hsound, hgeneration, hlookup⟩ := h.sound
  exact ⟨hsound, hlookup.symm, hgeneration, by simp [new], List.nodup_nil⟩

namespace Sound

variable {session : Session}

/-- An answer that gives no pointer out leaves the record of those. -/
theorem of_keeps (h : session.Sound) {p : Pile} (hp : session.pile.Keeps p) :
    Sound ⟨p, session.ledger, session.issued⟩ := by
  refine ⟨hp.sound, h.ledger_eq.trans hp.lookup_eq.symm, ?_, ?_, h.nodup⟩
  · exact hp.nextGeneration_eq.trans h.nextGeneration_eq
  · intro q hq
    rw [hp.nextGeneration_eq]
    exact h.generation_lt q hq

theorem of_clears (h : session.Sound) {p : Pile} (hp : session.pile.Clears p) :
    Sound ⟨p, fun _ => none, session.issued⟩ := by
  refine ⟨hp.sound, hp.lookup_eq.symm, ?_, ?_, h.nodup⟩
  · exact hp.nextGeneration_eq.trans h.nextGeneration_eq
  · intro q hq
    rw [hp.nextGeneration_eq]
    exact h.generation_lt q hq

/-- Storing keeps a session sound. -/
theorem put (h : session.Sound) (hputs : session.issued.length < maxWord) (payload : List UInt8)
    (version : CodecVersion) : (session.step (.put payload version)).Sound := by
  have hmax : session.pile.nextGeneration ≤ maxWord := by
    rw [h.nextGeneration_eq]
    exact hputs
  unfold step Pile.perform
  simp only [Ledger.record]
  rcases h.pile.put hmax payload version with ⟨q, hresult, hput⟩ | ⟨hpile, hinvalid⟩
  · have hissued : Response.issued? (.pointer (session.pile.put payload version).result) =
        some q := by
      rw [hresult]
      exact if_pos (hput.isValid h.pile)
    rw [hissued]
    show Sound ⟨_, Function.update session.ledger q _, q :: session.issued⟩
    refine ⟨hput.sound, ?_, ?_, ?_, ?_⟩
    · rw [hput.lookup_eq, h.ledger_eq]
    · rw [hput.nextGeneration_eq, h.nextGeneration_eq]
      rfl
    · intro r hr
      rw [hput.nextGeneration_eq]
      rcases List.mem_cons.1 hr with rfl | hr
      · rw [hput.generation_eq]
        exact Nat.lt_succ_self _
      · exact Nat.lt_succ_of_lt (h.generation_lt r hr)
    · -- the generation of the new pointer is one that the pile was not past before
      refine List.nodup_cons.2 ⟨?_, h.nodup⟩
      intro hmem
      have := h.generation_lt q hmem
      rw [hput.generation_eq] at this
      exact Nat.lt_irrefl _ this
  · have hissued : Response.issued? (.pointer (session.pile.put payload version).result) = none := by
      cases hresult : (session.pile.put payload version).result with
      | error e => rfl
      | ok q =>
        rw [hinvalid q hresult]
        rfl
    rw [hissued, hpile]
    exact h

/-- Deleting keeps a session sound, whatever pointer it is called with. -/
theorem delete (h : session.Sound) (q : Pointer) : (session.step (.delete q)).Sound := by
  show Sound ⟨(session.pile.delete q).pile,
    session.ledger.record (.delete q) (.done (session.pile.delete q).result), session.issued⟩
  by_cases hstate : session.pile.state = .started
  · cases hlookup : session.pile.lookup q with
    | some object =>
      obtain ⟨payload, version⟩ := object
      obtain ⟨hresult, hdeleted⟩ := h.pile.delete hstate hlookup
      rw [hresult]
      refine ⟨hdeleted.sound, ?_, ?_, ?_, h.nodup⟩
      · rw [hdeleted.lookup_eq, ← h.ledger_eq]
        rfl
      · exact hdeleted.nextGeneration_eq.trans h.nextGeneration_eq
      · intro r hr
        rw [hdeleted.nextGeneration_eq]
        exact h.generation_lt r hr
    | none =>
      have hview := Pile.view_of_lookup_eq_none (fun _ chunk => chunk) hstate hlookup
      unfold Pile.delete
      rw [hview]
      exact h
  · -- on a pile that is not started nothing is deleted, even if the answer is not an error
    have hunchanged : (session.pile.delete q).pile = session.pile := by
      unfold Pile.delete Pile.view
      rw [if_pos hstate]
      by_cases hvalid : q.isValid = true
      · rw [if_pos hvalid]
        rfl
      · rw [if_neg hvalid]
        rfl
    have hnone : session.ledger = fun _ => none := by
      rw [h.ledger_eq]
      exact Pile.lookup_of_slots_eq (h.pile.idle hstate)
    have hrecord : session.ledger.record (.delete q) (.done (session.pile.delete q).result) =
        session.ledger := by
      cases (session.pile.delete q).result with
      | error e => rfl
      | ok u =>
        rw [hnone]
        exact Function.update_eq_self q _
    rw [hrecord, hunchanged]
    exact h

/-- **One operation keeps a session sound.** -/
theorem step (h : session.Sound) {op : Operation} (hop : op.IsTyped)
    (hputs : session.issued.length < maxWord) : (session.step op).Sound := by
  cases op with
  | configure options => exact h.of_keeps (h.pile.configure hop)
  | configureFrom document => exact h.of_keeps (h.pile.configureFrom hop)
  | start => exact h.of_keeps h.pile.start
  | put payload version => exact h.put hputs payload version
  | get q => exact h
  | getVersioned q => exact h
  | withPayload q => exact h
  | lengthOf q => exact h
  | rawBuffer q => exact h
  | delete q => exact h.delete q
  | purge => exact h.of_clears h.pile.purge
  | stop => exact h.of_clears h.pile.stop

end Sound

/-! ## Runs -/

/-- What was given out stays on record. -/
theorem length_issued_le_step (session : Session) (op : Operation) :
    session.issued.length ≤ (session.step op).issued.length := by
  unfold step
  simp only [List.length_append]
  omega

theorem length_issued_le_run (session : Session) (ops : List Operation) :
    session.issued.length ≤ (session.run ops).issued.length := by
  induction ops generalizing session with
  | nil => exact Nat.le_refl _
  | cons op ops ih =>
    exact Nat.le_trans (session.length_issued_le_step op) (ih (session.step op))

/-- **A run keeps a session sound**, as long as no more pointers are given out than there are
generations. -/
theorem Sound.run {session : Session} (h : session.Sound) {ops : List Operation}
    (htyped : ∀ op ∈ ops, op.IsTyped) (hputs : (session.run ops).issued.length < maxWord) :
    (session.run ops).Sound := by
  induction ops generalizing session with
  | nil => exact h
  | cons op ops ih =>
    have hle := length_issued_le_run session (op :: ops)
    have hstep := h.step (htyped op List.mem_cons_self) (by omega)
    exact ih hstep (fun op' hop' => htyped op' (List.mem_cons_of_mem _ hop')) hputs

/-- The record does not change what becomes of the pile. -/
theorem pile_run (session : Session) (ops : List Operation) :
    (session.run ops).pile = session.pile.after ops := by
  induction ops generalizing session with
  | nil => rfl
  | cons op ops ih => exact ih (session.step op)

/-- A run in two parts is one part after the other. -/
theorem run_append (session : Session) (before after : List Operation) :
    session.run (before ++ after) = (session.run before).run after := List.foldl_append

end Session

end ObjectPile
