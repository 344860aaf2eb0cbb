/-
# Checked operations on piles

The operations of a pile with every check made on the way, those on its segments included. Here a
pile is changed in place: a segment that is asked for room is written back to its slot whether it
had room or not, and the counter of generations and the figures are handed on from one attempt to
the next. On sound piles all checks pass, and what comes out is what `Pile.perform` answers.

* `Pile.checkedPut`, `Pile.checkedDelete`, `Pile.checkedView`, `Pile.checkedConfigure` : the
  operations.
* `Sound.checkedPut_eq`, `Sound.checkedDelete_eq`, ... : on sound piles their checks pass.
* `Session.checks_of_run` : no run of a new pile fails a check.
-/
import ObjectPile.Proofs.CheckedSegments
import ObjectPile.Proofs.CheckedSettings
import ObjectPile.Proofs.Runs

namespace ObjectPile

namespace Pile

/-! ## The operations -/

/-- Writes a segment back to its slot. -/
def setSlot (p : Pile) (i : Nat) (s : Segment) : Pile :=
  { p with slots := p.slots.setIfInBounds i (some s) }

/-- Stores a payload in the segment with a slot number, if that has room, and counts it; gives the
pointer to it, the segment and the pile. -/
def checkedStoreIn (p : Pile) (s : Segment) (i : Nat) (request : ChunkRequest)
    (payload : List UInt8) (version : CodecVersion) :
    Checked (Option Pointer × Segment × Pile) := do
  match ← s.checkedStore p.policy request payload version p.nextGeneration with
  | (none, s, next) => return (none, s, { p with nextGeneration := next })
  | (some (offset, generation), s, next) =>
    let p := { p with
      nextGeneration := next
      objectCount := p.objectCount + 1
      utilizedBytes := p.utilizedBytes + payload.length
      putHint := i }
    return (some ⟨p.id, ← narrow i, ← narrow offset, generation⟩, s, p)

/-- Asks the segments in some slots one after the other for room. -/
def checkedAsk (request : ChunkRequest) (payload : List UInt8) (version : CodecVersion) :
    List Nat → Pile → Checked (Option Pointer × Pile)
  | [], p => return (none, p)
  | i :: is, p =>
    match p.slot? i with
    | none => checkedAsk request payload version is p
    | some s => do
      match ← p.checkedStoreIn s i request payload version with
      | (some q, s, p) => return (some q, p.setSlot i s)
      | (none, s, p) => checkedAsk request payload version is (p.setSlot i s)

/-- Asks all segments for room, two times beginning with the one that took the last payload and a
last time from the first slot on. -/
def checkedAskAll (p : Pile) (request : ChunkRequest) (payload : List UInt8)
    (version : CodecVersion) : Checked (Option Pointer × Pile) := do
  let order := p.searchOrder
  match ← checkedAsk request payload version order p with
  | (some q, p) => return (some q, p)
  | (none, p) =>
    match ← checkedAsk request payload version order p with
    | (some q, p) => return (some q, p)
    | (none, p) => checkedAsk request payload version (List.range p.slots.size) p

/-- Puts a segment into a slot that is vacant or comes after the last one. -/
def checkedOccupy (slots : Array (Option Segment)) (i : Nat) (s : Segment) :
    Checked (Array (Option Segment)) := do
  if i = slots.size then return slots.push (some s)
  else
    require (i < slots.size) .noSuchSlot
    require (slots[i]?.join.isNone = true) .slotTaken
    return slots.setIfInBounds i (some s)

/-- Stores a payload in a new segment. -/
def checkedPutInNew (p : Pile) (request : ChunkRequest) (payload : List UInt8)
    (version : CodecVersion) : Checked (Pointer × Pile) := do
  require (p.policy.segmentSize % 16 = 0) .misaligned
  let i := vacantSlot p.slots
  match ← p.checkedStoreIn (Segment.empty p.policy) i request payload version with
  | (none, _, _) => throw .noRoom
  | (some q, s, p) =>
    let slots ← checkedOccupy p.slots i s
    return (q, { p with slots := slots, segmentCount := p.segmentCount + 1 })

/-- Stores a payload. -/
def checkedPut (p : Pile) (payload : List UInt8) (version : CodecVersion) :
    Checked (Except PileError Pointer × Pile) := do
  let request := p.policy.classes.classify payload.length
  if p.state ≠ .started then return (.ok .invalid, p)
  else if p.settings.maxPayloadLength < payload.length then
    return (.error (.payloadTooLarge payload.length p.settings.maxPayloadLength), p)
  else
    match ← p.checkedAskAll request payload version with
    | (some q, p) => return (.ok q, p)
    | (none, p) =>
      if p.canGrow then
        let (q, p) ← p.checkedPutInNew request payload version
        return (.ok q, p)
      else
        return (.error (.outOfSpace payload.length p.segmentCount p.allocatedBytes), p)

/-- Looks at the chunk that a pointer names. -/
def checkedView {α : Type} (p : Pile) (q : Pointer) (f : Segment → LiveChunk → Checked α) :
    Checked (Except PileError (Option α)) :=
  if p.state ≠ .started then
    return if q.isValid then .error (.accessViolation q) else .ok none
  else if q.pile ≠ p.id then return .error (.accessViolation q)
  else
    match p.slot? q.segment with
    | none => return .error (.accessViolation q)
    | some s => do
      match ← s.checkedResolve q.offset q.generation with
      | none => return .error (.accessViolation q)
      | some chunk => return .ok (some (← f s chunk))

/-- The payload of an object and its version. -/
def checkedGetVersioned (p : Pile) (q : Pointer) :
    Checked (Except PileError (Option (List UInt8 × CodecVersion))) :=
  p.checkedView q fun s chunk => return (← s.checkedPayload chunk, chunk.version)

/-- Removes the object that a pointer names. -/
def checkedDelete (p : Pile) (q : Pointer) : Checked (Except PileError Unit × Pile) := do
  match ← p.checkedView q fun s chunk =>
    return (chunk, ← s.checkedRelease p.policy chunk) with
  | .error e => return (.error e, p)
  | .ok none => return (.ok (), p)
  | .ok (some (chunk, s)) =>
    let p := { p.setSlot q.segment s with
      objectCount := p.objectCount - 1
      utilizedBytes := p.utilizedBytes - chunk.length }
    return (.ok (), (p.releaseIfEmpty q.segment).1)

/-- Applies a section on top of the settings. -/
def checkedConfigure (p : Pile) (options : ConfigSection) :
    Checked (Except PileError Unit × Pile) :=
  if p.isConfigurable then do
    match ← (p.settings.checkedApply options).run with
    | .error e => return (.error (.config e), p)
    | .ok settings =>
      let policy ← AllocationPolicy.checkedOfSettings settings
      return (.ok (), { p with
        name := options.name <|> p.name
        settings := settings
        policy := policy
        state := .configured })
  else return (.error (p.notPermitted .configure), p)

/-- Applies the section of a document for the pile. -/
def checkedConfigureFrom (p : Pile) (document : ConfigDocument) :
    Checked (Except PileError Unit × Pile) :=
  match document.section? p.name with
  | some options => p.checkedConfigure options
  | none =>
    if p.isConfigurable then return (.ok (), { p with state := .configured })
    else return (.error (p.notPermitted .configure), p)

/-- The answer of a pile to an operation, and the pile afterwards. Starting, purging and stopping
make no check. -/
def checkedPerform (p : Pile) : Operation → Checked (Response × Pile)
  | .configure options => do
    let (result, p) ← p.checkedConfigure options
    return (.done result, p)
  | .configureFrom document => do
    let (result, p) ← p.checkedConfigureFrom document
    return (.done result, p)
  | .put payload version => do
    let (result, p) ← p.checkedPut payload version
    return (.pointer result, p)
  | .get q => do
    let result ← p.checkedGetVersioned q
    return (.payload (result.map fun found => found.map Prod.fst), p)
  | .getVersioned q => return (.versioned (← p.checkedGetVersioned q), p)
  | .withPayload q => return (.versioned (← p.checkedGetVersioned q), p)
  | .lengthOf q => return (.length (← p.checkedView q fun _ chunk => return chunk.length), p)
  | .rawBuffer q => return (.buffer (← p.checkedView q Segment.checkedBuffer), p)
  | .delete q => do
    let (result, p) ← p.checkedDelete q
    return (.done result, p)
  | op => return p.perform op

/-! ## Putting -/

/-- The slots after a segment is written to one of them. -/
theorem slot?_setSlot {p : Pile} {i : Nat} (hi : i < p.slots.size) (s : Segment) (j : Nat) :
    (p.setSlot i s).slot? j = if j = i then some s else p.slot? j := by
  unfold setSlot slot?
  simp only
  rw [Array.getElem?_setIfInBounds]
  by_cases hij : i = j
  · subst hij
    rw [if_pos rfl, if_pos hi, if_pos rfl]
    rfl
  · rw [if_neg hij, if_neg (Ne.symm hij)]

/-- A segment that is written back as it was leaves the pile as it was. -/
theorem setSlot_self {p : Pile} {i : Nat} {s : Segment} (h : p.slot? i = some s) :
    p.setSlot i s = p := by
  obtain ⟨hlt, hget⟩ := Array.getElem?_eq_some_iff.1 (Option.join_eq_some_iff.1 h)
  have hsame : p.slots.setIfInBounds i (some s) = p.slots := by
    simp [Array.setIfInBounds, hlt, ← hget]
  unfold setSlot
  rw [hsame]

/-- A segment in which a payload is stored is written back to its slot. -/
theorem setSlot_countPut {p : Pile} {i : Nat} {s : Segment} (h : p.slot? i = some s)
    (placement : Placement) (payload : List UInt8) (version : CodecVersion) :
    (p.countPut i payload.length).setSlot i (s.storeAt p.policy
      (p.policy.classes.classify payload.length) placement payload version p.nextGeneration) =
      (p.putInSlot i placement (p.policy.classes.classify payload.length) payload version).pile := by
  have hmodify := modify_eq_setIfInBounds (fun s => s.storeAt p.policy
    (p.policy.classes.classify payload.length) placement payload version p.nextGeneration) h
  unfold putInSlot setSlot countPut
  simp only [nextPointer, ClassTable.length_classify]
  rw [← hmodify]

theorem lt_of_mem_searchOrder {p : Pile} {i : Nat} (h : i ∈ p.searchOrder) : i < p.slots.size := by
  obtain ⟨k, hk, rfl⟩ := List.mem_map.1 h
  have hk' := List.mem_range.1 hk
  exact Nat.mod_lt _ (by omega)

theorem lt_size_occupy {slots : Array (Option Segment)} {i : Nat} (h : i ≤ slots.size)
    (s : Segment) : i < (occupy slots i s).size := by
  unfold occupy
  split
  · rw [Array.size_push]
    omega
  · rw [Array.size_setIfInBounds]
    omega

theorem checkedOccupy_eq {slots : Array (Option Segment)} {i : Nat} (hi : i ≤ slots.size)
    (hvacant : slots[i]?.join = none) (s : Segment) :
    checkedOccupy slots i s = .ok (occupy slots i s) := by
  unfold checkedOccupy occupy
  split
  · rfl
  · rw [require_bind (by omega), require_bind (by rw [hvacant]; rfl)]
    rfl

namespace Sound

variable {p : Pile} {payload : List UInt8} {version : CodecVersion}

/-- Storing in a segment passes its checks. -/
theorem checkedStoreIn_eq (h : p.Sound) (hmax : p.nextGeneration ≤ maxWord) {s : Segment}
    (hs : Segment.Reachable p.policy s) {i : Nat} (hi : i < 4294967296) :
    p.checkedStoreIn s i (p.policy.classes.classify payload.length) payload version =
      .ok ((s.store? p.policy (p.policy.classes.classify payload.length) payload version
        p.nextGeneration).elim (none, s, p) fun (offset, s') =>
          (some (p.nextPointer i offset), s', p.countPut i payload.length)) := by
  obtain ⟨v, hrep, -⟩ := hs.exists_represents h.policy
  have hne : p.nextGeneration ≠ 0 := Nat.ne_of_gt h.generation_pos
  unfold checkedStoreIn
  rw [hrep.checkedStore_eq h.policy payload version hne hmax, ok_bind]
  cases hstore : s.store? p.policy (p.policy.classes.classify payload.length) payload version
    p.nextGeneration with
  | none => rfl
  | some stored =>
    obtain ⟨offset, s'⟩ := stored
    obtain ⟨placement, hand, -, rfl, hrep'⟩ := hrep.store? h.policy hne hmax hstore
    have hstop := hrep'.carved.stop_le h.policy
      (c := ⟨hand.start, hand.size, .live p.nextGeneration version payload⟩) (by simp [Hand.put])
    unfold Chunk.stop at hstop
    simp only [Option.elim] at hstop ⊢
    rw [narrow_eq hi, ok_bind, narrow_eq (by omega), ok_bind]
    rfl

/-- Asking segments for room passes its checks, and leaves the pile alone unless one has room. -/
theorem checkedAsk_eq (h : p.Sound) (hmax : p.nextGeneration ≤ maxWord) {is : List Nat}
    (his : ∀ i ∈ is, i < 4294967296) :
    checkedAsk (p.policy.classes.classify payload.length) payload version is p =
      .ok ((is.findSome? (p.roomIn? (p.policy.classes.classify payload.length))).elim (none, p)
        fun (i, placement) => (some (p.nextPointer i placement.offset),
          (p.putInSlot i placement (p.policy.classes.classify payload.length) payload
            version).pile)) := by
  induction is with
  | nil => rfl
  | cons i is ih =>
    have hrest := ih fun j hj => his j (List.mem_cons_of_mem _ hj)
    rw [checkedAsk, List.findSome?_cons]
    cases hslot : p.slot? i with
    | none =>
      have hroom : p.roomIn? (p.policy.classes.classify payload.length) i = none := by
        unfold roomIn?
        rw [hslot]
        rfl
      rw [hroom]
      exact hrest
    | some s =>
      simp only
      rw [h.checkedStoreIn_eq hmax (h.reachable i s hslot) (his i List.mem_cons_self), ok_bind]
      unfold Segment.store?
      have hroom : p.roomIn? (p.policy.classes.classify payload.length) i =
          (s.place? p.policy (p.policy.classes.classify payload.length)).map fun placement =>
            (i, placement) := by
        unfold roomIn?
        rw [hslot]
        rfl
      rw [hroom]
      cases s.place? p.policy (p.policy.classes.classify payload.length) with
      | none =>
        simp only [Option.map_none, Option.elim]
        rw [setSlot_self hslot]
        exact hrest
      | some placement =>
        simp only [Option.map_some, Option.elim]
        rw [setSlot_countPut hslot]
        rfl

/-- Asking all segments for room passes its checks. -/
theorem checkedAskAll_eq (h : p.Sound) (hmax : p.nextGeneration ≤ maxWord)
    (hslots : p.slots.size ≤ 4294967296) :
    p.checkedAskAll (p.policy.classes.classify payload.length) payload version =
      .ok ((p.findRoom? (p.policy.classes.classify payload.length)).elim (none, p)
        fun (i, placement) => (some (p.nextPointer i placement.offset),
          (p.putInSlot i placement (p.policy.classes.classify payload.length) payload
            version).pile)) := by
  have horder : ∀ i ∈ p.searchOrder, i < 4294967296 := by
    intro i hi
    exact Nat.lt_of_lt_of_le (lt_of_mem_searchOrder hi) hslots
  have hrange : ∀ i ∈ List.range p.slots.size, i < 4294967296 := by
    intro i hi
    exact Nat.lt_of_lt_of_le (List.mem_range.1 hi) hslots
  unfold checkedAskAll findRoom?
  simp only [h.checkedAsk_eq hmax horder, ok_bind]
  cases hfound : p.searchOrder.findSome? (p.roomIn? (p.policy.classes.classify payload.length)) with
  | some room => rfl
  | none =>
    simp only [Option.elim_none]
    rw [h.checkedAsk_eq hmax horder, ok_bind, hfound]
    exact h.checkedAsk_eq hmax hrange

/-- Storing in a new segment passes its checks. -/
theorem checkedPutInNew_eq (h : p.Sound) (hmax : p.nextGeneration ≤ maxWord)
    (hroom : payload.length + headerSize ≤ p.policy.segmentSize)
    (hi : vacantSlot p.slots < 4294967296) :
    p.checkedPutInNew (p.policy.classes.classify payload.length) payload version =
      .ok (p.nextPointer (vacantSlot p.slots) 0,
        (p.putInNewSegment (p.policy.classes.classify payload.length) payload version).pile) := by
  obtain ⟨hle, hvacant⟩ := vacantSlot_spec p.slots
  unfold checkedPutInNew
  simp only
  rw [require_bind h.policy.segmentSize_mod, h.checkedStoreIn_eq hmax .empty hi, ok_bind,
    Segment.store?_empty h.policy hroom version p.nextGeneration]
  simp only [Option.elim_some]
  have hslots : (p.countPut (vacantSlot p.slots) payload.length).slots = p.slots := rfl
  rw [hslots, checkedOccupy_eq hle hvacant, ok_bind]
  unfold Pile.putInNewSegment countPut
  simp only [nextPointer, ClassTable.length_classify, pure, Except.pure]

/-- **Storing a payload passes its checks** as long as slots have numbers of 32 bits. -/
theorem checkedPut_eq (h : p.Sound) (hmax : p.nextGeneration ≤ maxWord)
    (hslots : p.slots.size ≤ 4294967296)
    (hslots' : (p.put payload version).pile.slots.size ≤ 4294967296) :
    p.checkedPut payload version = .ok ((p.put payload version).result,
      (p.put payload version).pile) := by
  unfold checkedPut Pile.put at *
  simp only at hslots' ⊢
  by_cases hstate : p.state = .started
  · rw [if_neg (not_not.2 hstate)] at hslots' ⊢
    rw [if_neg (not_not.2 hstate)]
    by_cases hlong : p.settings.maxPayloadLength < payload.length
    · rw [if_pos hlong, if_pos hlong]
      rfl
    · rw [if_neg hlong] at hslots' ⊢
      rw [if_neg hlong, h.checkedAskAll_eq hmax hslots, ok_bind]
      cases hfound : p.findRoom? (p.policy.classes.classify payload.length) with
      | some room => rfl
      | none =>
        rw [hfound] at hslots'
        simp only [Option.elim_none] at hslots' ⊢
        by_cases hgrow : p.canGrow = true
        · rw [if_pos hgrow] at hslots' ⊢
          -- the number of the new slot is one of those that the table has afterwards
          have hi := Nat.lt_of_lt_of_le (lt_size_occupy (vacantSlot_spec p.slots).1 _) hslots'
          rw [if_pos hgrow, h.checkedPutInNew_eq hmax (h.length_le_of_not_lt hlong) hi]
          rfl
        · rw [if_neg hgrow, if_neg hgrow]
          rfl
  · rw [if_pos hstate, if_pos hstate]
    rfl

end Sound

/-! ## Reading and deleting -/

/-- Looking at a chunk passes its checks if what is done with it does. -/
theorem Sound.checkedView_eq {p : Pile} (h : p.Sound) {α : Type} {q : Pointer}
    {f : Segment → LiveChunk → Checked α} {g : Segment → LiveChunk → α}
    (hf : ∀ s v, s.Represents p.policy v → v.Settled → ∀ chunk,
      s.resolve? q.offset q.generation = some chunk → f s chunk = .ok (g s chunk)) :
    p.checkedView q f = .ok (p.view q g) := by
  unfold checkedView view
  split
  · rfl
  · split
    · rfl
    · cases hslot : p.slot? q.segment with
      | none => rfl
      | some s =>
        obtain ⟨v, hrep, hsettled⟩ := (h.reachable _ s hslot).exists_represents h.policy
        simp only
        rw [hrep.checkedResolve_eq h.policy, ok_bind]
        cases hresolve : s.resolve? q.offset q.generation with
        | none => rfl
        | some chunk =>
          simp only
          rw [hf s v hrep hsettled chunk hresolve]
          rfl

/-- A chunk is released in its segment, and the segment is written back to its slot. -/
theorem setSlot_release {p : Pile} {i : Nat} {s : Segment} (h : p.slot? i = some s)
    (chunk : LiveChunk) :
    { p.setSlot i (s.release p.policy chunk) with
      objectCount := p.objectCount - 1
      utilizedBytes := p.utilizedBytes - chunk.length } = p.deleteIn i chunk := by
  have hmodify := modify_eq_setIfInBounds (fun s => s.release p.policy chunk) h
  unfold deleteIn setSlot
  simp only
  rw [← hmodify]

namespace Sound

variable {p : Pile}

/-- Reading a payload passes its checks. -/
theorem checkedGetVersioned_eq (h : p.Sound) (q : Pointer) :
    p.checkedGetVersioned q = .ok (p.getVersioned q) := by
  refine h.checkedView_eq ?_
  intro s v hrep hsettled chunk hresolve
  rw [hrep.checkedPayload_eq h.policy hsettled hresolve]
  rfl

/-- **Deleting passes its checks**, whatever pointer it is called with. -/
theorem checkedDelete_eq (h : p.Sound) (q : Pointer) :
    p.checkedDelete q = .ok ((p.delete q).result, (p.delete q).pile) := by
  have hview : p.checkedView q (fun s chunk => return (chunk, ← s.checkedRelease p.policy chunk)) =
      .ok (p.view q fun s chunk => (chunk, s.release p.policy chunk)) := by
    refine h.checkedView_eq ?_
    intro s v hrep hsettled chunk hresolve
    rw [hrep.checkedRelease_eq h.policy hsettled hresolve]
    rfl
  unfold checkedDelete Pile.delete
  rw [hview, ok_bind]
  unfold view
  by_cases hstate : p.state = .started
  · by_cases hpile : q.pile = p.id
    · simp only [hstate, hpile, ne_eq, not_true_eq_false, if_false]
      cases hslot : p.slot? q.segment with
      | none => rfl
      | some s =>
        simp only
        cases hresolve : s.resolve? q.offset q.generation with
        | none => rfl
        | some chunk =>
          simp only
          rw [setSlot_release hslot]
          rfl
    · simp only [hstate, hpile, ne_eq, not_true_eq_false, not_false_eq_true, if_false, if_true]
      rfl
  · simp only [hstate, ne_eq, not_false_eq_true, if_true]
    cases q.isValid <;> rfl

/-! ## Configuring -/

/-- Configuring passes its checks if the classes can be rounded up. -/
theorem checkedConfigure_eq (h : p.Sound) {options : ConfigSection} (hsigned : options.IsSigned)
    (hfit : options.SizesFit) :
    p.checkedConfigure options = .ok ((p.configure options).result, (p.configure options).pile) := by
  unfold checkedConfigure Pile.configure
  split
  · rw [h.accepted.sound.checkedApply_eq hfit]
    cases happly : p.settings.apply options with
    | error e => rfl
    | ok settings =>
      have hsound := (Settings.Accepted.apply h.accepted hsigned happly).sound
      show (do
        let policy ← AllocationPolicy.checkedOfSettings settings
        return _) = _
      rw [hsound.checkedOfSettings_eq, ok_bind]
      rfl
  · rfl

/-- Configuring from a document passes its checks if the classes can be rounded up. -/
theorem checkedConfigureFrom_eq (h : p.Sound) {document : ConfigDocument}
    (hsigned : ∀ options ∈ document.sections, options.IsSigned)
    (hfit : ∀ options ∈ document.sections, options.SizesFit) :
    p.checkedConfigureFrom document =
      .ok ((p.configureFrom document).result, (p.configureFrom document).pile) := by
  unfold checkedConfigureFrom Pile.configureFrom
  cases hsection : document.section? p.name with
  | some options =>
    have hmem := List.mem_of_find?_eq_some hsection
    exact h.checkedConfigure_eq (hsigned options hmem) (hfit options hmem)
  | none =>
    simp only
    split <;> rfl

end Sound

end Pile

/-! ## Runs -/

/-- The sizes of classes that an operation is given can be rounded up to a word. -/
def Operation.SizesFit : Operation → Prop
  | .configure options => options.SizesFit
  | .configureFrom document => ∀ options ∈ document.sections, options.SizesFit
  | _ => True

instance : (op : Operation) → Decidable op.SizesFit
  | .configure options => inferInstanceAs (Decidable options.SizesFit)
  | .configureFrom document =>
    inferInstanceAs (Decidable (∀ options ∈ document.sections, options.SizesFit))
  | .start | .put .. | .get _ | .getVersioned _ | .withPayload _ | .lengthOf _ | .rawBuffer _
  | .delete _ | .purge | .stop => inferInstanceAs (Decidable True)

/-- **On a sound pile every operation passes its checks.** -/
theorem Pile.Sound.checkedPerform_eq {p : Pile} (h : p.Sound) {op : Operation} (hop : op.IsTyped)
    (hfit : op.SizesFit) (hmax : p.nextGeneration ≤ maxWord) (hslots : p.slots.size ≤ 4294967296)
    (hslots' : (p.perform op).2.slots.size ≤ 4294967296) :
    p.checkedPerform op = .ok (p.perform op) := by
  unfold checkedPerform perform
  cases op with
  | configure options =>
    simp only
    rw [h.checkedConfigure_eq hop hfit]
    rfl
  | configureFrom document =>
    simp only
    rw [h.checkedConfigureFrom_eq hop hfit]
    rfl
  | start => rfl
  | put payload version =>
    simp only
    rw [h.checkedPut_eq hmax hslots hslots']
    rfl
  | get q =>
    simp only
    rw [h.checkedGetVersioned_eq]
    rfl
  | getVersioned q =>
    simp only
    rw [h.checkedGetVersioned_eq]
    rfl
  | withPayload q =>
    simp only
    rw [h.checkedGetVersioned_eq]
    rfl
  | lengthOf q =>
    have hview : p.checkedView q (fun _ chunk => return chunk.length) = .ok (p.lengthOf q) :=
      h.checkedView_eq fun _ _ _ _ _ _ => rfl
    simp only
    rw [hview]
    rfl
  | rawBuffer q =>
    have hview : p.checkedView q Segment.checkedBuffer = .ok (p.rawBuffer q) :=
      h.checkedView_eq fun _ _ hrep hsettled _ hresolve =>
        hrep.checkedBuffer_eq h.policy hsettled hresolve
    simp only
    rw [hview]
    rfl
  | delete q =>
    simp only
    rw [h.checkedDelete_eq]
    rfl
  | purge => rfl
  | stop => rfl

/-- The session after an operation. -/
def Session.checkedStep (session : Session) (op : Operation) : Checked Session := do
  let (response, pile) ← session.pile.checkedPerform op
  return ⟨pile, session.ledger.record op response, response.issued?.toList ++ session.issued⟩

/-- The session after a run. -/
def Session.checkedRun (session : Session) (ops : List Operation) : Checked Session :=
  ops.foldlM checkedStep session

namespace Session

/-- An operation of a sound session passes its checks. -/
theorem Sound.checkedStep_eq {session : Session} (h : session.Sound) {op : Operation}
    (hop : op.IsTyped) (hfit : op.SizesFit) (hputs : session.issued.length < maxWord)
    (hslots : session.pile.slots.size ≤ 4294967296)
    (hslots' : (session.step op).pile.slots.size ≤ 4294967296) :
    session.checkedStep op = .ok (session.step op) := by
  have hmax : session.pile.nextGeneration ≤ maxWord := by
    rw [h.nextGeneration_eq]
    exact hputs
  unfold checkedStep
  rw [h.pile.checkedPerform_eq hop hfit hmax hslots hslots']
  rfl

/-- A run of a sound session passes its checks. -/
theorem Sound.checkedRun_eq {session : Session} (h : session.Sound) {ops : List Operation}
    (htyped : ∀ op ∈ ops, op.IsTyped) (hfit : ∀ op ∈ ops, op.SizesFit)
    (hputs : (session.run ops).issued.length < maxWord)
    (hslots : ∀ before, before <+: ops →
      (session.run before).pile.slots.size ≤ 4294967296) :
    session.checkedRun ops = .ok (session.run ops) := by
  induction ops generalizing session with
  | nil => rfl
  | cons op ops ih =>
    have hle := length_issued_le_run session (op :: ops)
    have hmem := List.mem_cons_self (a := op) (l := ops)
    have hstep := h.step (htyped op hmem) (by omega)
    have hfirst := h.checkedStep_eq (htyped op hmem) (hfit op hmem) (by omega)
      (hslots [] (List.nil_prefix ..)) (hslots [op] (by simp))
    unfold checkedRun at ih ⊢
    rw [List.foldlM_cons, hfirst, ok_bind]
    refine ih hstep ?_ ?_ hputs ?_
    · exact fun op' hop' => htyped op' (List.mem_cons_of_mem _ hop')
    · exact fun op' hop' => hfit op' (List.mem_cons_of_mem _ hop')
    · intro before hbefore
      exact hslots (op :: before) (List.cons_prefix_cons.2 ⟨rfl, hbefore⟩)

/-- **No run fails a check.** A new pile passes every check of every run, and comes to what it comes
to without checks, as long as fewer pointers are given out than there are generations, slots have
numbers of 32 bits, and no class is given that is too close to the largest word to be rounded up.
The length of a payload in memory is far from that word. -/
theorem checks_of_run {p : Pile} (hnew : p.IsNew) {ops : List Operation}
    (htyped : ∀ op ∈ ops, op.IsTyped) (hfit : ∀ op ∈ ops, op.SizesFit)
    (hputs : ((new p).run ops).issued.length < maxWord)
    (hslots : ∀ before, before <+: ops →
      ((new p).run before).pile.slots.size ≤ 4294967296) :
    AllocationPolicy.checkedOfSettings p.settings = .ok p.policy ∧
      (new p).checkedRun ops = .ok ((new p).run ops) := by
  have hsound := sound_new hnew
  refine ⟨?_, hsound.checkedRun_eq htyped hfit hputs hslots⟩
  have hpolicy : p.policy = .ofSettings p.settings := hsound.pile.policy_eq
  rw [hpolicy]
  exact hsound.pile.accepted.sound.checkedOfSettings_eq

/-- A run that merges three chunks into one and stores in the front of it. -/
def churn : List Operation :=
  [.configure { segmentSize := some 65536, freeChunkSizes := some (.text "16, 40") }, .start,
    .put [1, 2, 3] .raw, .put [] .json, .put [4] .raw, .put (List.replicate 50 7) .raw,
    .delete ⟨1, 0, 0, 1⟩, .delete ⟨1, 0, 64, 3⟩, .delete ⟨1, 0, 32, 2⟩, .put [5] .raw,
    .rawBuffer ⟨1, 0, 0, 5⟩, .get ⟨1, 7, 8, 9⟩, .delete ⟨1, 0, 96, 4⟩, .purge, .put [] .raw, .stop]

theorem checks_of_churn :
    (new (.create 1 none)).checkedRun churn = .ok ((new (.create 1 none)).run churn) := by
  have htyped : ∀ op ∈ churn, op.IsTyped := by decide +kernel
  have hfit : ∀ op ∈ churn, op.SizesFit := by decide +kernel
  have hputs : ((new (.create 1 none)).run churn).issued.length < maxWord := by decide +kernel
  have hslots : ∀ before ∈ churn.inits,
      ((new (.create 1 none)).run before).pile.slots.size ≤ 4294967296 := by decide +kernel
  exact (checks_of_run (Pile.isNew_create 1 none) htyped hfit hputs
    fun before hbefore => hslots before ((List.mem_inits ..).2 hbefore)).2

end Session

end ObjectPile
