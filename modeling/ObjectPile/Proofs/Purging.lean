/-
# Purging

Purging drops all segments of a pile at once. Deleting every object comes to the same by a longer
way: chunks are merged, cursors move back and segments are given up one after the other, in whatever
order the objects go. What may be left different is the hint where to store next, which purging
resets and deleting does not. A pile without segments never looks at it, and the next put that
succeeds sets it anew.

* `Pile.Twin` : two piles that differ in the hint at most.
* `Twin.perform` : twins answer every operation alike and stay twins.
* `Sound.twin_purge` : a pile whose objects are all deleted is a twin of the purged one.
* `Session.purge_like_deletes` : no later operations tell the two apart.
-/
import ObjectPile.Proofs.Commuting
import ObjectPile.Proofs.Figures
import ObjectPile.Proofs.Refusals

namespace ObjectPile

namespace Pile

/-! ## What callers see -/

/-- What can be read off a pile between two operations. -/
structure Readout where
  name : Option String
  state : PileState
  settings : Settings
  objectCount : Nat
  segmentCount : Nat
  allocatedBytes : Nat
  utilizedBytes : Nat
  overheadBytes : Nat

def readout (p : Pile) : Readout where
  name := p.name
  state := p.state
  settings := p.settings
  objectCount := p.objectCount
  segmentCount := p.segmentCount
  allocatedBytes := p.allocatedBytes
  utilizedBytes := p.utilizedBytes
  overheadBytes := p.overheadBytes

/-- The answers to some operations, each with what can be read off the pile after it. -/
def transcript : Pile → List Operation → List (Response × Readout)
  | _, [] => []
  | p, op :: ops => ((p.perform op).1, (p.perform op).2.readout) :: (p.perform op).2.transcript ops

/-- **No caller can tell two piles apart**: whatever is asked of both, the answers and the figures
are the same all along, and so is what becomes of values stored and loaded through codecs. Once a
payload is stored in both they are the same pile. -/
structure Indistinguishable (p p' : Pile) : Prop where
  readout_eq : p'.readout = p.readout
  transcript_eq : ∀ ops, p'.transcript ops = p.transcript ops
  putObject_eq : ∀ ops {α : Type} (codec : Codec α) (v : α),
    ((p'.after ops).putObject codec v).result = ((p.after ops).putObject codec v).result
  getObject_eq : ∀ ops {α : Type} (codec : Codec α) (q : Pointer),
    (p'.after ops).getObject codec q = (p.after ops).getObject codec q
  eq_of_put : ∀ ops payload version, ¬Refused ((p.after ops).put payload version).result →
    ((p'.after ops).put payload version).pile = ((p.after ops).put payload version).pile

/-! ## Twins -/

/-- The pile with another hint where to store next. -/
def withHint (p : Pile) (k : Nat) : Pile := { p with putHint := k }

@[simp] theorem state_withHint (p : Pile) (k : Nat) : (p.withHint k).state = p.state := rfl

@[simp] theorem settings_withHint (p : Pile) (k : Nat) : (p.withHint k).settings = p.settings := rfl

@[simp] theorem canGrow_withHint (p : Pile) (k : Nat) : (p.withHint k).canGrow = p.canGrow := rfl

@[simp] theorem isConfigurable_withHint (p : Pile) (k : Nat) :
    (p.withHint k).isConfigurable = p.isConfigurable := rfl

/-- **Two piles that differ in the hint at most**, and not even there if they have segments. -/
inductive Twin (p : Pile) : Pile → Prop
  | same : Twin p p
  | hint (k : Nat) : p.slots = #[] → Twin p (p.withHint k)

variable {p p' : Pile} {payload : List UInt8} {version : CodecVersion} {q : Pointer} {k : Nat}

theorem Twin.readout_eq (h : p.Twin p') : p'.readout = p.readout := by
  cases h <;> rfl

/-- Reading does not look at the hint. -/
theorem Twin.view_eq (h : p.Twin p') {α : Type} (q : Pointer) (f : Segment → LiveChunk → α) :
    p'.view q f = p.view q f := by
  cases h <;> rfl

theorem Twin.getVersioned_eq (h : p.Twin p') (q : Pointer) :
    p'.getVersioned q = p.getVersioned q := h.view_eq q _

theorem Twin.getObject_eq (h : p.Twin p') {α : Type} (codec : Codec α) (q : Pointer) :
    p'.getObject codec q = p.getObject codec q := by
  unfold getObject
  rw [h.getVersioned_eq]

/-! ## Storing -/

/-- A pile without segments stores in a new one, if the limits allow it. -/
theorem put_of_slots_eq (h : p.slots = #[]) : p.put payload version =
    if p.state ≠ .started then .unchanged p (.ok .invalid)
    else if p.settings.maxPayloadLength < payload.length then
      .unchanged p (.error (.payloadTooLarge payload.length p.settings.maxPayloadLength))
    else if p.canGrow then
      p.putInNewSegment (p.policy.classes.classify payload.length) payload version
    else
      ⟨.error (.outOfSpace payload.length p.segmentCount p.allocatedBytes), p,
        [.outOfSpace p.displayName payload.length p.segmentCount p.allocatedBytes]⟩ := by
  have hnone : p.findRoom? (p.policy.classes.classify payload.length) = none := by
    unfold findRoom? searchOrder
    rw [h]
    rfl
  unfold put
  simp only [hnone]

/-- **Without segments the hint is not looked at**: a put is answered alike, and if it is not refused
it leaves the same pile. -/
theorem put_withHint (h : p.slots = #[]) (k : Nat) (payload : List UInt8) (version : CodecVersion) :
    ((p.withHint k).put payload version).result = (p.put payload version).result ∧
      (((p.withHint k).put payload version).pile = (p.put payload version).pile ∨
        Refused (p.put payload version).result ∧ (p.put payload version).pile = p ∧
          ((p.withHint k).put payload version).pile = p.withHint k) := by
  rw [put_of_slots_eq h, put_of_slots_eq (p := p.withHint k) h]
  by_cases hstate : p.state = .started
  · have hstate' : (p.withHint k).state = .started := hstate
    rw [if_neg (not_not.2 hstate), if_neg (not_not.2 hstate'), settings_withHint]
    by_cases hlong : p.settings.maxPayloadLength < payload.length
    · rw [if_pos hlong, if_pos hlong]
      exact ⟨rfl, .inr ⟨nofun, rfl, rfl⟩⟩
    · rw [if_neg hlong, if_neg hlong, canGrow_withHint]
      by_cases hgrow : p.canGrow = true
      · -- the slot of the new segment becomes the hint
        rw [if_pos hgrow, if_pos hgrow]
        exact ⟨rfl, .inl rfl⟩
      · rw [if_neg hgrow, if_neg hgrow]
        exact ⟨rfl, .inr ⟨nofun, rfl, rfl⟩⟩
  · have hstate' : ¬(p.withHint k).state = .started := hstate
    rw [if_pos hstate, if_pos hstate']
    refine ⟨rfl, .inr ⟨?_, rfl, rfl⟩⟩
    intro q hq
    exact (Except.ok.inj hq).symm

theorem Twin.put (h : p.Twin p') (payload : List UInt8) (version : CodecVersion) :
    (p'.put payload version).result = (p.put payload version).result ∧
      Twin (p.put payload version).pile (p'.put payload version).pile := by
  cases h with
  | same => exact ⟨rfl, .same⟩
  | hint k hslots =>
    obtain ⟨hresult, hpile⟩ := put_withHint hslots k payload version
    refine ⟨hresult, ?_⟩
    rcases hpile with hpile | ⟨-, hpile, hpile'⟩
    · rw [hpile]
      exact .same
    · rw [hpile, hpile']
      exact .hint k hslots

/-- After a put that succeeds twins are the same pile. -/
theorem Twin.eq_of_put (h : p.Twin p') (hput : ¬Refused (p.put payload version).result) :
    (p'.put payload version).pile = (p.put payload version).pile := by
  cases h with
  | same => rfl
  | hint k hslots =>
    exact (put_withHint hslots k payload version).2.resolve_right fun hrefused => hput hrefused.1

theorem Twin.putObject_eq (h : p.Twin p') {α : Type} (codec : Codec α) (v : α) :
    (p'.putObject codec v).result = (p.putObject codec v).result := by
  unfold putObject
  cases codec.encode v with
  | error e => rfl
  | ok payload => exact (h.put payload codec.version).1

/-! ## The other operations -/

/-- Without segments nothing is deleted. -/
theorem pile_delete_of_slots_eq (h : p.slots = #[]) (q : Pointer) : (p.delete q).pile = p := by
  unfold delete
  cases hview : p.view q fun _ chunk => chunk with
  | error e => rfl
  | ok found =>
    cases found with
    | none => rfl
    | some chunk =>
      obtain ⟨s, -, hslot, -⟩ := exists_of_view_eq_ok hview
      unfold slot? at hslot
      simp [h] at hslot

theorem Twin.delete (h : p.Twin p') (q : Pointer) :
    (p'.delete q).result = (p.delete q).result ∧ Twin (p.delete q).pile (p'.delete q).pile := by
  have hresult : (p'.delete q).result = (p.delete q).result := by
    unfold Pile.delete
    rw [h.view_eq]
    cases p.view q fun _ chunk => chunk with
    | error e => rfl
    | ok found => cases found <;> rfl
  refine ⟨hresult, ?_⟩
  cases h with
  | same => exact .same
  | hint k hslots =>
    rw [pile_delete_of_slots_eq hslots, pile_delete_of_slots_eq (p := p.withHint k) hslots]
    exact .hint k hslots

theorem Twin.configure (h : p.Twin p') (options : ConfigSection) :
    (p'.configure options).result = (p.configure options).result ∧
      Twin (p.configure options).pile (p'.configure options).pile := by
  cases h with
  | same => exact ⟨rfl, .same⟩
  | hint k hslots =>
    unfold Pile.configure
    rw [isConfigurable_withHint, settings_withHint]
    split
    · cases p.settings.apply options with
      | error e => exact ⟨rfl, .hint k hslots⟩
      | ok settings => exact ⟨rfl, .hint k hslots⟩
    · exact ⟨rfl, .hint k hslots⟩

theorem Twin.configureFrom (h : p.Twin p') (document : ConfigDocument) :
    (p'.configureFrom document).result = (p.configureFrom document).result ∧
      Twin (p.configureFrom document).pile (p'.configureFrom document).pile := by
  have hname : p'.name = p.name := by cases h <;> rfl
  unfold Pile.configureFrom
  rw [hname]
  cases document.section? p.name with
  | some options => exact h.configure options
  | none =>
    cases h with
    | same => exact ⟨rfl, .same⟩
    | hint k hslots =>
      by_cases hguard : p.isConfigurable = true
      · have hguard' : (p.withHint k).isConfigurable = true := hguard
        simp only
        rw [if_pos hguard, if_pos hguard']
        exact ⟨rfl, .hint k hslots⟩
      · have hguard' : ¬(p.withHint k).isConfigurable = true := hguard
        simp only
        rw [if_neg hguard, if_neg hguard']
        exact ⟨rfl, .hint k hslots⟩

theorem Twin.start (h : p.Twin p') :
    p'.start.result = p.start.result ∧ Twin p.start.pile p'.start.pile := by
  cases h with
  | same => exact ⟨rfl, .same⟩
  | hint k hslots =>
    unfold Pile.start
    rw [state_withHint]
    cases p.state <;> exact ⟨rfl, .hint k hslots⟩

theorem Twin.stop (h : p.Twin p') :
    p'.stop.result = p.stop.result ∧ Twin p.stop.pile p'.stop.pile := by
  cases h with
  | same => exact ⟨rfl, .same⟩
  | hint k hslots =>
    unfold Pile.stop
    rw [state_withHint]
    split
    · exact ⟨rfl, .hint k hslots⟩
    · exact ⟨rfl, .same⟩

/-- Purging makes twins the same pile. -/
theorem Twin.purge (h : p.Twin p') : p'.purge.pile = p.purge.pile := by
  cases h <;> rfl

/-- **Twins answer every operation alike and stay twins.** -/
theorem Twin.perform (h : p.Twin p') (op : Operation) :
    (p'.perform op).1 = (p.perform op).1 ∧ Twin (p.perform op).2 (p'.perform op).2 := by
  unfold Pile.perform
  cases op with
  | configure options =>
    obtain ⟨hresult, htwin⟩ := h.configure options
    exact ⟨congrArg Response.done hresult, htwin⟩
  | configureFrom document =>
    obtain ⟨hresult, htwin⟩ := h.configureFrom document
    exact ⟨congrArg Response.done hresult, htwin⟩
  | start =>
    obtain ⟨hresult, htwin⟩ := h.start
    exact ⟨congrArg Response.done hresult, htwin⟩
  | put payload version =>
    obtain ⟨hresult, htwin⟩ := h.put payload version
    exact ⟨congrArg Response.pointer hresult, htwin⟩
  | get q =>
    refine ⟨congrArg Response.payload ?_, h⟩
    unfold Pile.get
    rw [h.getVersioned_eq]
  | getVersioned q => exact ⟨congrArg Response.versioned (h.getVersioned_eq q), h⟩
  | withPayload q => exact ⟨congrArg Response.versioned (h.view_eq q _), h⟩
  | lengthOf q => exact ⟨congrArg Response.length (h.view_eq q _), h⟩
  | rawBuffer q => exact ⟨congrArg Response.buffer (h.view_eq q _), h⟩
  | delete q =>
    obtain ⟨hresult, htwin⟩ := h.delete q
    exact ⟨congrArg Response.done hresult, htwin⟩
  | purge =>
    refine ⟨rfl, ?_⟩
    simp only
    rw [h.purge]
    exact .same
  | stop =>
    obtain ⟨hresult, htwin⟩ := h.stop
    exact ⟨congrArg Response.done hresult, htwin⟩

/-- Twins stay twins. -/
theorem Twin.after (h : p.Twin p') (ops : List Operation) : Twin (p.after ops) (p'.after ops) := by
  induction ops generalizing p p' with
  | nil => exact h
  | cons op ops ih => exact ih (h.perform op).2

theorem Twin.transcript_eq (h : p.Twin p') (ops : List Operation) :
    p'.transcript ops = p.transcript ops := by
  induction ops generalizing p p' with
  | nil => rfl
  | cons op ops ih =>
    obtain ⟨hanswer, htwin⟩ := h.perform op
    rw [transcript, transcript, hanswer, htwin.readout_eq, ih htwin]

/-- **No caller can tell twins apart.** -/
theorem Twin.indistinguishable (h : p.Twin p') : p.Indistinguishable p' where
  readout_eq := h.readout_eq
  transcript_eq := h.transcript_eq
  putObject_eq ops _ codec v := (h.after ops).putObject_eq codec v
  getObject_eq ops _ codec q := (h.after ops).getObject_eq codec q
  eq_of_put ops _ _ := (h.after ops).eq_of_put

end Pile

/-! ## Deleting everything -/

/-- A segment with live chunks has an answer. -/
theorem Segment.Reachable.exists_lookup {policy : AllocationPolicy} {s : Segment}
    (hp : policy.Sound) (h : Reachable policy s) (hpos : 0 < s.liveCount) :
    ∃ offset generation, (s.lookup offset generation).isSome := by
  obtain ⟨v, hrep, hsettled⟩ := h.exists_represents hp
  rw [hrep.liveCount_eq hp hsettled, hrep.liveChunks_eq hp hsettled,
    List.length_pos_iff_exists_mem] at hpos
  obtain ⟨⟨offset, size, content⟩, hc⟩ := hpos
  obtain ⟨-, hlive⟩ := List.mem_filter.1 hc
  cases content with
  | live generation version payload =>
    refine ⟨offset, generation, ?_⟩
    rw [(hrep.lookup_eq_some_iff hp hsettled).2 ⟨size, hc⟩]
    rfl
  | free => simp [Chunk.isLive] at hlive
  | taken => simp [Chunk.isLive] at hlive

namespace Pile

variable {p p' : Pile} {qs : List Pointer}

/-- A sound pile without contents has no segments. -/
theorem Sound.slots_eq (h : p.Sound) (hlookup : ∀ q, p.lookup q = none) : p.slots = #[] := by
  have hnone : ∀ i, p.slot? i = none := by
    intro i
    rw [Option.eq_none_iff_forall_ne_some]
    intro s hs
    obtain ⟨offset, generation, hfound⟩ :=
      (h.reachable i s hs).exists_lookup h.policy (h.liveCount_pos i s hs)
    have hq := hlookup ⟨p.id, i, offset, generation⟩
    unfold lookup at hq
    rw [if_pos rfl, hs, Option.bind_some] at hq
    simp [hq] at hfound
  have hvacant : ∀ i : Nat, p.slots[i]?.join.isSome = (#[] : Array (Option Segment))[i]?.join.isSome
      := by
    intro i
    have hi : p.slots[i]?.join = none := hnone i
    rw [hi]
    rfl
  exact Array.eq_empty_of_size_eq_zero (size_eq_of_trimmed (by simp [Trimmed]) h.trimmed hvacant)

/-- The figures of a sound pile without segments are zero. -/
theorem Sound.counts_of_slots_eq (h : p.Sound) (hslots : p.slots = #[]) :
    p.segmentCount = 0 ∧ p.objectCount = 0 ∧ p.utilizedBytes = 0 := by
  refine ⟨?_, ?_, ?_⟩
  · rw [h.segmentCount_eq, hslots]
    rfl
  · rw [h.objectCount_eq, hslots]
    rfl
  · rw [h.utilizedBytes_eq, hslots]
    rfl

/-- Objects that are deleted one after the other are gone, and no others. -/
theorem Sound.lookup_deleteAll (h : p.Sound) (hstate : p.state = .started) (hnodup : qs.Nodup)
    (hlive : ∀ q ∈ qs, (p.lookup q).isSome) (hall : p.deleteAll qs = .ok p') (r : Pointer) :
    p'.lookup r = if r ∈ qs then none else p.lookup r := by
  induction qs generalizing p with
  | nil =>
    obtain rfl := Except.ok.inj hall
    rw [if_neg List.not_mem_nil]
  | cons q qs ih =>
    obtain ⟨⟨payload, version⟩, hlookup⟩ :=
      Option.isSome_iff_exists.1 (hlive q List.mem_cons_self)
    obtain ⟨hresult, hdeleted⟩ := h.delete hstate hlookup
    obtain ⟨hnot, hnodup⟩ := List.nodup_cons.1 hnodup
    unfold Pile.deleteAll at hall
    rw [hresult] at hall
    have hlive' := hdeleted.isSome_lookup hnot fun r hr => hlive r (List.mem_cons_of_mem _ hr)
    rw [ih hdeleted.sound (hdeleted.frame.state_eq.trans hstate) hnodup hlive' hall,
      hdeleted.lookup_eq, Function.update_apply]
    by_cases hrq : r = q
    · simp [hrq]
    · simp [hrq]

/-- **A pile whose objects are all deleted is a twin of the purged one.** -/
theorem Sound.twin_purge (h : p.Sound) (hstate : p.state = .started) (hnodup : qs.Nodup)
    (hlive : ∀ q, q ∈ qs ↔ (p.lookup q).isSome) :
    ∃ p', p.deleteAll qs = .ok p' ∧ p.purge.pile.Twin p' := by
  obtain ⟨p', hall, hdeleted⟩ := h.deleteAll hstate hnodup fun q => (hlive q).1
  have hlookup : ∀ q, p'.lookup q = none := by
    intro q
    rw [h.lookup_deleteAll hstate hnodup (fun q => (hlive q).1) hall]
    by_cases hq : q ∈ qs
    · rw [if_pos hq]
    · rw [if_neg hq]
      rwa [hlive, Option.not_isSome_iff_eq_none] at hq
  have hslots := hdeleted.sound.slots_eq hlookup
  obtain ⟨hsegments, hobjects, hbytes⟩ := hdeleted.sound.counts_of_slots_eq hslots
  refine ⟨p', hall, ?_⟩
  have heq : p' = p.purge.pile.withHint p'.putHint := by
    obtain ⟨hid, hname, hsettings, hpolicy, hsame⟩ := hdeleted.frame
    have hgeneration := hdeleted.nextGeneration_eq
    cases p'
    simp only at *
    unfold Pile.purge releaseAll withHint
    simp only [Pile.mk.injEq, and_true]
    exact ⟨hid, hname, hsettings, hpolicy, hsame, hslots, hgeneration, hobjects, hbytes, hsegments⟩
  rw [heq]
  exact .hint p'.putHint rfl

end Pile

namespace Session

/-- What a ledger has was given out. -/
def Recorded (session : Session) : Prop := ∀ q, session.ledger q ≠ none → q ∈ session.issued

theorem Recorded.step {session : Session} (h : session.Recorded) (op : Operation) :
    (session.step op).Recorded := by
  intro q hq
  by_cases hgiven : (session.pile.perform op).1.issued? = some q
  · refine List.mem_append_left _ ?_
    show q ∈ (session.pile.perform op).1.issued?.toList
    rw [hgiven, Option.mem_toList]
  · refine List.mem_append_right _ (h q ?_)
    intro hnone
    exact hq (Ledger.record_eq_none hnone op hgiven)

theorem Recorded.run {session : Session} (h : session.Recorded) (ops : List Operation) :
    (session.run ops).Recorded := by
  induction ops generalizing session with
  | nil => exact h
  | cons op ops ih => exact ih (h.step op)

/-- Whatever leads to an object after a run was given out on the way. -/
theorem mem_issued_of_run {p : Pile} (hnew : p.IsNew) {ops : List Operation}
    (htyped : ∀ op ∈ ops, op.IsTyped) (hputs : ((new p).run ops).issued.length < maxWord)
    {q : Pointer} (hq : (((new p).run ops).pile.lookup q).isSome) :
    q ∈ ((new p).run ops).issued := by
  have hsound := (sound_new hnew).run htyped hputs
  have hrecorded : (new p).Recorded := fun q hq => absurd rfl hq
  refine hrecorded.run ops q ?_
  rw [hsound.ledger_eq]
  exact Option.isSome_iff_ne_none.1 hq

/-- **Purging is deleting everything.** Whenever a pile is started, all its objects can be deleted one
after the other in any order, and the pile that is left is one that no caller can tell from the purged
one, whatever is asked of the two later. -/
theorem purge_like_deletes {p : Pile} (hnew : p.IsNew) {ops : List Operation}
    (htyped : ∀ op ∈ ops, op.IsTyped) (hputs : ((new p).run ops).issued.length < maxWord)
    (hstate : ((new p).run ops).pile.state = .started) {qs : List Pointer} (hnodup : qs.Nodup)
    (hlive : ∀ q, q ∈ qs ↔ (((new p).run ops).pile.lookup q).isSome) :
    ∃ p', ((new p).run ops).pile.deleteAll qs = .ok p' ∧
      ((new p).run ops).pile.purge.pile.Indistinguishable p' := by
  have hsound := ((sound_new hnew).run htyped hputs).pile
  obtain ⟨p', hall, htwin⟩ := hsound.twin_purge hstate hnodup hlive
  exact ⟨p', hall, htwin.indistinguishable⟩

/-- Both segments of the run are given up on the way, the second one first. -/
theorem purge_of_spread :
    ∃ p', ((new (.create 1 none)).run spread).pile.deleteAll
        [⟨1, 1, 32, 3⟩, ⟨1, 1, 0, 2⟩, ⟨1, 1, 64, 4⟩, ⟨1, 0, 0, 1⟩] = .ok p' ∧
      ((new (.create 1 none)).run spread).pile.purge.pile.Indistinguishable p' := by
  have hnew := Pile.isNew_create 1 none
  have htyped : ∀ op ∈ spread, op.IsTyped := by decide
  have hputs : ((new (.create 1 none)).run spread).issued.length < maxWord := by decide +kernel
  have hissued : ∀ q ∈ ((new (.create 1 none)).run spread).issued,
      q ∈ [(⟨1, 1, 32, 3⟩ : Pointer), ⟨1, 1, 0, 2⟩, ⟨1, 1, 64, 4⟩, ⟨1, 0, 0, 1⟩] := by
    decide +kernel
  have hfound : ∀ q ∈ [(⟨1, 1, 32, 3⟩ : Pointer), ⟨1, 1, 0, 2⟩, ⟨1, 1, 64, 4⟩, ⟨1, 0, 0, 1⟩],
      (((new (.create 1 none)).run spread).pile.lookup q).isSome := by decide +kernel
  exact purge_like_deletes hnew htyped hputs (by decide +kernel) (by decide)
    fun q => ⟨hfound q, fun hq => hissued q (mem_issued_of_run hnew htyped hputs hq)⟩

end Session

end ObjectPile
