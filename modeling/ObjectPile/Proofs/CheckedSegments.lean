/-
# Checked operations on segments

Storing, following a pointer and releasing, with every check made on the way. In a segment that
represents a view all of them pass: where a chunk is read, written, marked or unlinked, it is one of
the view, or in hand, and what the view says of it is what the check asks for.

* `Segment.checkedStore`, `Segment.checkedResolve`, `Segment.checkedRelease` : the operations.
* `Represents.checkedStore_eq` : storing passes its checks and does what `Segment.store?` does.
* `Represents.checkedRelease_eq` : releasing a live chunk passes its checks.
-/
import ObjectPile.Pile.Read
import ObjectPile.Proofs.Checks
import ObjectPile.Proofs.Reachable

namespace ObjectPile

namespace Segment

/-! ## The operations -/

/-- The first chunk of at least `size` bytes among the next `limit` ones of a list. -/
def checkedFindFit (s : Segment) (size : Nat) : Nat → Option Nat → Checked (Option Nat)
  | 0, _ => return none
  | _ + 1, none => return none
  | limit + 1, some offset => do
    if size ≤ (← s.checkedChunkSize offset) then return some offset
    else s.checkedFindFit size limit (ofLink (← s.checkedWord offset nextField))

/-- The first chunk on the first of `n` lists, from a given one on, that is not empty. -/
def checkedFirstHead (s : Segment) (list : Nat) : Nat → Checked (Option Nat)
  | 0 => return none
  | n + 1 => do
    match (← s.checkedList list).head with
    | some offset => return some offset
    | none => s.checkedFirstHead (list + 1) n

/-- The free chunk that serves a request, if there is one. -/
def checkedReusable (s : Segment) (policy : AllocationPolicy) (request : ChunkRequest) :
    Checked (Option Nat) := do
  let oversized := policy.classes.oversized
  match policy.mode with
  | .favorSpeed =>
    let l ← s.checkedList request.list
    if request.list = oversized then s.checkedFindFit request.chunkSize oversizedLimit l.head
    else return l.head
  | .reuseSpace =>
    match ← s.checkedFirstHead request.list (oversized - request.list) with
    | some offset => return some offset
    | none => s.checkedFindFit request.chunkSize maxWord (← s.checkedList oversized).head

/-- Makes a free chunk of the bytes from an offset on and puts it on its list. -/
def checkedAddFree (s : Segment) (policy : AllocationPolicy) (offset size : Nat) :
    Checked Segment := do
  (← s.checkedWriteHeader offset size .raw untracked 0).checkedFile policy offset size

/-- Takes a free chunk off its list and gives back what a request does not need of it; also gives
the size of the chunk that remains. -/
def checkedReuse (s : Segment) (policy : AllocationPolicy) (request : ChunkRequest)
    (offset : Nat) : Checked (Segment × Nat) := do
  let s ← s.checkedUnlink offset
  let available ← s.checkedChunkSize offset
  match policy.mode with
  | .favorSpeed => return (s, available)
  | .reuseSpace =>
    require (request.chunkSize ≤ available) .tooSmall
    let remainder := available - request.chunkSize
    if policy.classes.smallestChunk ≤ remainder then
      let rest := offset + request.chunkSize
      let s ← s.checkedMark rest true
      return (← s.checkedAddFree policy rest remainder, request.chunkSize)
    else return (s, available)

/-- Takes the bytes at the bump cursor, if the segment has as many. -/
def checkedExtend (s : Segment) (size : Nat) : Checked (Option (Nat × Nat) × Segment) :=
  if s.bump + size ≤ s.size then
    return (some (s.bump, size), ← checkedMark { s with bump := s.bump + size } s.bump true)
  else return (none, s)

/-- Takes a chunk for a request, if there is one; gives its offset and its size. -/
def checkedAllocate (s : Segment) (policy : AllocationPolicy) (request : ChunkRequest) :
    Checked (Option (Nat × Nat) × Segment) := do
  match ← s.checkedReusable policy request with
  | some offset =>
    let (s, size) ← s.checkedReuse policy request offset
    return (some (offset, size), s)
  | none => s.checkedExtend request.chunkSize

/-- Stores a payload if the segment has room and stamps it with the next generation, which is a word
and drawn only then; gives the offset and the generation, the segment and the counter. -/
def checkedStore (s : Segment) (policy : AllocationPolicy) (request : ChunkRequest)
    (payload : List UInt8) (version : CodecVersion) (next : Nat) :
    Checked (Option (Nat × Nat) × Segment × Nat) := do
  require (payload.length = request.length) .lengthMismatch
  match ← s.checkedAllocate policy request with
  | (none, s) => return (none, s, next)
  | (some (offset, size), s) =>
    require (next % (maxWord + 1) ≠ 0) .zeroGeneration
    let s ← s.checkedWriteHeader offset size version payload.length next
    let s ← s.checkedWrite (offset + headerSize) payload
    return (some (offset, next), { s with liveCount := s.liveCount + 1 }, next + 1)

/-- The live chunk at an offset, if it was stamped with this generation. -/
def checkedResolve (s : Segment) (offset generation : Nat) : Checked (Option LiveChunk) :=
  if generation ≠ 0 ∧ offset % 16 = 0 ∧ offset < s.bump ∧ s.isStart offset = true then do
    if (← s.checkedGeneration offset) = generation then
      let word ← s.checkedWord offset sizeField
      return some ⟨offset, word / 16 * 16, ← s.checkedWord offset lengthField, .ofBits word⟩
    else return none
  else return none

/-- The payload of a live chunk. -/
def checkedPayload (s : Segment) (chunk : LiveChunk) : Checked (List UInt8) := do
  require (chunk.offset + headerSize + chunk.length ≤ s.size) .outsideSegment
  return s.payload chunk

/-- All the room that a live chunk has for its payload. -/
def checkedBuffer (s : Segment) (chunk : LiveChunk) : Checked RawBuffer := do
  require (headerSize ≤ chunk.size ∧ chunk.offset + chunk.size ≤ s.size) .outsideSegment
  require (chunk.length ≤ chunk.capacity) .bufferTooShort
  return ⟨s.memory, chunk.offset + headerSize, chunk.capacity, chunk.length, chunk.version⟩

/-- Merges with the chunk that follows, if that is free. -/
def Merge.checkedWithNext (m : Merge) : Checked Merge :=
  let next := m.start + m.size
  if next < m.segment.bump then do
    if (← m.segment.checkedGeneration next) = 0 then
      let nextSize ← m.segment.checkedChunkSize next
      let s ← m.segment.checkedUnlink next
      return ⟨← s.checkedMark next false, m.start, m.size + nextSize⟩
    else return m
  else return m

/-- Merges with the chunk that precedes, if that is free. -/
def Merge.checkedWithPrevious (m : Merge) : Checked Merge :=
  match m.segment.startBefore? m.start with
  | none => return m
  | some previous => do
    if (← m.segment.checkedGeneration previous) = 0 then
      let previousSize ← m.segment.checkedChunkSize previous
      require (previous + previousSize = m.start) .notAdjacent
      let s ← m.segment.checkedUnlink previous
      return ⟨← s.checkedMark m.start false, previous, m.size + previousSize⟩
    else return m

/-- Returns the bytes: behind the cursor if they end at it, else as a free chunk. -/
def Merge.checkedFinish (m : Merge) (policy : AllocationPolicy) : Checked Segment :=
  if m.start + m.size = m.segment.bump then
    return { ← m.segment.checkedMark m.start false with bump := m.start }
  else m.segment.checkedAddFree policy m.start m.size

/-- Frees a live chunk. -/
def checkedRelease (s : Segment) (policy : AllocationPolicy) (chunk : LiveChunk) :
    Checked Segment := do
  let generation ← s.checkedGeneration chunk.offset
  require ((← s.checkedResolve chunk.offset generation) = some chunk) .notLive
  require (0 < s.liveCount) .noLiveChunk
  let s := { s with liveCount := s.liveCount - 1 }
  match policy.mode with
  | .favorSpeed => s.checkedAddFree policy chunk.offset chunk.size
  | .reuseSpace =>
    let merge : Merge := ⟨s, chunk.offset, chunk.size⟩
    (← (← merge.checkedWithNext).checkedWithPrevious).checkedFinish policy

/-! ## Searching -/

theorem Linked.checkedFindFit_eq {s : Segment} {p : Option Nat} {os : List Nat}
    (h : s.Linked p os none) (hroom : ∀ o ∈ os, o + headerSize + minCapacity ≤ s.size)
    (size limit : Nat) :
    s.checkedFindFit size limit os.head? = .ok (s.findFit? size limit os.head?) := by
  induction os generalizing p limit with
  | nil => cases limit <;> rfl
  | cons o os ih =>
    cases limit with
    | zero => rfl
    | succ limit =>
      obtain ⟨-, hnext, hrest⟩ := h
      have ho := hroom o List.mem_cons_self
      unfold headerSize minCapacity at ho
      rw [List.head?_cons, checkedFindFit, findFit?,
        checkedChunkSize_eq (by unfold headerSize; omega), ok_bind]
      split
      · rfl
      · rw [checkedWord_eq (by unfold nextField; omega), ok_bind, ← next, hnext, Option.or_none]
        exact ih hrest (fun x hx => hroom x (List.mem_cons_of_mem _ hx)) limit

theorem checkedFirstHead_eq {s : Segment} {list n : Nat} (h : list + n ≤ s.freeLists.size) :
    s.checkedFirstHead list n = .ok (s.firstHead? list n) := by
  induction n generalizing list with
  | zero => rfl
  | succ n ih =>
    rw [checkedFirstHead, firstHead?, checkedList_eq (by omega), ok_bind]
    cases (s.freeList list).head with
    | none => exact ih (by omega)
    | some o => rfl

namespace Represents

variable {policy : AllocationPolicy} {s : Segment} {cs pre post : List Chunk}
  {lists : Nat → List Nat} {v : View} {d : Chunk}

/-- A chunk has room for a header and for its links. -/
theorem room (hp : policy.Sound) (h : Represents policy s ⟨cs, lists⟩) (hd : d ∈ cs) :
    d.start + headerSize + minCapacity ≤ s.size := by
  have hsize := h.carved.size_ge hp hd
  have hstop := h.carved.tiling.stop_le hd
  have hbump := h.carved.bump_le
  unfold Chunk.stop at hstop
  unfold headerSize minCapacity
  omega

theorem room_of_mem_list (hp : policy.Sound) (h : Represents policy s ⟨cs, lists⟩) {i o : Nat}
    (ho : o ∈ lists i) : o + headerSize + minCapacity ≤ s.size := by
  obtain ⟨c, hc, rfl⟩ := h.listed.exists_start ho
  exact h.room hp hc

/-- Searching a free chunk for a request passes its checks. -/
theorem checkedReusable_eq (hp : policy.Sound) (h : Represents policy s v) (n : Nat) :
    s.checkedReusable policy (policy.classes.classify n) =
      .ok (s.reusable? policy (policy.classes.classify n)) := by
  have hlist := policy.classes.list_classify_lt n
  have hover : policy.classes.oversized < s.freeLists.size := by
    rw [h.listed.count]
    exact Nat.lt_succ_self _
  -- the oversized chunks are all there is to look at one after the other
  have hfind : ∀ limit, s.checkedFindFit (policy.classes.classify n).chunkSize limit
      (s.freeList policy.classes.oversized).head =
        .ok (s.findFit? (policy.classes.classify n).chunkSize limit
          (s.freeList policy.classes.oversized).head) := by
    intro limit
    rw [h.listed.head]
    exact (h.listed.linked _).checkedFindFit_eq (fun o ho => h.room_of_mem_list hp ho) _ limit
  unfold checkedReusable reusable?
  cases policy.mode with
  | favorSpeed =>
    simp only
    rw [checkedList_eq (by rwa [h.listed.count]), ok_bind]
    split
    · rename_i heq
      rw [heq]
      exact hfind _
    · rfl
  | reuseSpace =>
    simp only
    rw [checkedFirstHead_eq, ok_bind]
    · cases s.firstHead? (policy.classes.classify n).list
        (policy.classes.oversized - (policy.classes.classify n).list) with
      | some o => rfl
      | none =>
        simp only
        rw [checkedList_eq hover, ok_bind]
        exact hfind _
    · unfold ClassTable.listCount at hlist
      unfold ClassTable.oversized at *
      omega

/-! ## Free chunks -/

theorem size_unlink (hp : policy.Sound) (h : Represents policy s ⟨cs, lists⟩) (hd : d ∈ cs)
    (hfree : d.content = .free) : (s.unlink d.start).size = s.size :=
  (h.listed.unlink hp h.carved hd hfree).1.size_eq.trans h.carved.size_eq.symm

/-- Taking a free chunk off its list passes its checks. -/
theorem checkedUnlink_eq (hp : policy.Sound) (h : Represents policy s ⟨pre ++ d :: post, lists⟩)
    (hd : d.content = .free) : s.checkedUnlink d.start = .ok (s.unlink d.start) := by
  have hdm : d ∈ pre ++ d :: post := by simp
  refine Segment.checkedUnlink_eq (h.isFree_of_free hdm hd) (h.room hp hdm) ?_
  intro hword
  obtain ⟨i, as, bs, happ, hlist, hprevious, hnext⟩ := h.listed.exists_append hdm hd hword
  replace happ : lists i = as ++ d.start :: bs := happ
  rw [hlist, hprevious, hnext, h.listed.count, h.listed.length]
  refine ⟨h.listed.lt_listCount (o := d.start) (by simp [happ]), by simp [happ], ?_, ?_⟩
  · intro o ho
    exact h.room_of_mem_list hp (i := i) (by simp [happ, List.mem_of_head? ho])
  · intro o ho
    exact h.room_of_mem_list hp (i := i) (by simp [happ, List.mem_of_getLast? ho])

-- an empty segment has no chunk to take off a list, and the checks notice
example : ((empty (.ofSettings .standard)).checkedUnlink 0).map (fun _ => ()) = .error .emptyList := by
  decide +kernel

/-- Making a free chunk of one of the row passes its checks. -/
theorem checkedAddFree_eq (hp : policy.Sound)
    (h : Represents policy s ⟨pre ++ d :: post, lists⟩) :
    s.checkedAddFree policy d.start d.size = .ok (s.addFree policy d.start d.size) := by
  have hdm : d ∈ pre ++ d :: post := by simp
  have hroom := h.room hp hdm
  have hstop := h.carved.stop_le hp hdm
  have hlist := policy.classes.listForChunk_lt d.size
  have hcount := hp.listCount_lt
  have hsize := h.carved.size_ge hp hdm
  unfold Chunk.stop at hstop
  unfold checkedAddFree Segment.addFree
  rw [checkedWriteHeader_eq (by omega) (h.carved.tiling.aligned d hdm) (by omega) _ (by decide) _,
    ok_bind]
  refine checkedFile_eq (h.carved.tiling.smallest_le d hdm) ?_ (by omega) (by omega) ?_ ?_
  · rwa [freeLists_writeHeader, h.listed.count]
  · rwa [size_writeHeader]
  · intro o ho
    simp only [freeList, freeLists_writeHeader] at ho
    rw [← freeList, h.listed.head] at ho
    rw [size_writeHeader]
    exact h.room_of_mem_list hp (List.mem_of_head? ho)

/-! ## Storing -/

/-- Taking a free chunk that is large enough passes its checks. -/
theorem checkedReuse_eq (hp : policy.Sound) (h : Represents policy s ⟨pre ++ d :: post, lists⟩)
    (hd : d.content = .free) {n : Nat} (hfits : (policy.classes.classify n).chunkSize ≤ d.size) :
    s.checkedReuse policy (policy.classes.classify n) d.start =
      .ok (s.take policy (policy.classes.classify n) (.reuse d.start)) := by
  obtain ⟨hmod, hsmall, -⟩ := h.chunkSize_bounds hp (.reuse rfl hd hfits)
  have hdm : d ∈ pre ++ d :: post := by simp
  have hroom := h.room hp hdm
  have hstop := h.carved.tiling.stop_le hdm
  have hbump := h.carved.bump_le
  have hpos := hp.classes.le_smallestChunk
  obtain ⟨hcarved, hlisted, -⟩ := h.listed.unlink hp h.carved hdm hd
  have hunlinked : Represents policy (s.unlink d.start)
      ⟨pre ++ d :: post, unlinkFrom lists d.start⟩ := ⟨hcarved, hlisted⟩
  have hsame := h.size_unlink hp hdm hd
  have htaken := h.takeFree hp hd
  unfold Chunk.stop at hstop
  unfold checkedReuse Segment.take
  rw [h.checkedUnlink_eq hp hd, ok_bind, checkedChunkSize_eq (by omega), ok_bind,
    hunlinked.chunkSize_eq hdm (by simp [hd])]
  simp only [h.chunkSize_eq hdm (by simp [hd])]
  cases policy.mode with
  | favorSpeed => rfl
  | reuseSpace =>
    simp only
    rw [require_bind hfits]
    split
    · rename_i hle
      have hsplit := htaken.split rfl hmod hsmall hle hfits
      rw [List.append_cons] at hsplit
      rw [checkedMark_eq (by omega), ok_bind, hsplit.checkedAddFree_eq hp]
      rfl
    · rfl

/-- Finding and taking a chunk passes its checks. -/
theorem checkedAllocate_eq (hp : policy.Sound) (h : Represents policy s v) (n : Nat) :
    s.checkedAllocate policy (policy.classes.classify n) =
      .ok ((s.place? policy (policy.classes.classify n)).elim (none, s) fun placement =>
        (some (placement.offset, (s.take policy (policy.classes.classify n) placement).2),
          (s.take policy (policy.classes.classify n) placement).1)) := by
  unfold checkedAllocate place?
  rw [h.checkedReusable_eq hp, ok_bind]
  cases hfound : s.reusable? policy (policy.classes.classify n) with
  | some o =>
    obtain ⟨cs, lists⟩ := v
    obtain ⟨d, hd, rfl, hfree, hfits⟩ := h.exists_of_reusable? hp hfound
    obtain ⟨pre, post, rfl⟩ := List.append_of_mem hd
    simp only
    rw [h.checkedReuse_eq hp hfree hfits]
    rfl
  | none =>
    simp only
    unfold checkedExtend
    split
    · rename_i hfits
      have hoffers : v.Offers policy (policy.classes.classify n) (.extend v.stop)
          ⟨v.chunks.reverse, v.stop, (policy.classes.classify n).chunkSize, [], v.lists⟩ :=
        .extend (by rwa [h.stop_eq_bump, ← h.carved.size_eq])
      obtain ⟨-, hsmall, -⟩ := h.chunkSize_bounds hp hoffers
      have hpos := hp.classes.le_smallestChunk
      rw [checkedMark_eq]
      · rfl
      · show s.bump / 16 < s.size / 16
        omega
    · rfl

/-- **Storing passes its checks.** -/
theorem checkedStore_eq (hp : policy.Sound) (h : Represents policy s v) (payload : List UInt8)
    (version : CodecVersion) {next : Nat} (hne : next ≠ 0) (hmax : next ≤ maxWord) :
    s.checkedStore policy (policy.classes.classify payload.length) payload version next =
      .ok ((s.store? policy (policy.classes.classify payload.length) payload version next).elim
        (none, s, next) fun (offset, s') => (some (offset, next), s', next + 1)) := by
  have hword : next % (maxWord + 1) ≠ 0 := by rwa [Nat.mod_eq_of_lt (Nat.lt_succ_of_le hmax)]
  unfold checkedStore Segment.store?
  rw [require_bind (by rw [ClassTable.length_classify]), h.checkedAllocate_eq hp, ok_bind]
  cases hplace : s.place? policy (policy.classes.classify payload.length) with
  | none => rfl
  | some placement =>
    obtain ⟨hand, ho⟩ := h.offers_of_place? hp hplace
    obtain ⟨-, -, hroom⟩ := h.chunkSize_bounds hp ho
    obtain ⟨hview, hsize⟩ := h.take hp ho
    -- what is written lies in the chunk in hand
    have hdm : (⟨hand.start, hand.size, .taken⟩ : Chunk) ∈ hand.view.chunks := by
      simp [Hand.view, Hand.put]
    have hle := Nat.le_trans hroom ho.le_size
    have hmod := hview.carved.tiling.aligned _ hdm
    have hstop := hview.carved.tiling.stop_le hdm
    have hbump := hview.carved.bump_le
    have hlimit := hview.carved.stop_le hp hdm
    unfold Chunk.stop at hstop hlimit
    simp only at hstop hlimit hmod
    simp only [Option.elim, Option.map_some, Segment.storeAt, ← ho.start_eq, hsize]
    generalize (s.take policy (policy.classes.classify payload.length) placement).1 = s' at *
    rw [require_bind hword, checkedWriteHeader_eq (by omega) hmod (by omega) _ (by omega) _,
      ok_bind, checkedWrite_eq, ok_bind]
    · simp only [pure, Except.pure]
    · rw [size_writeHeader]
      omega

/-! ## Following a pointer -/

/-- Following a pointer passes its checks: a mark below the cursor is that of a chunk. -/
theorem checkedResolve_eq (hp : policy.Sound) (h : Represents policy s v)
    (offset generation : Nat) :
    s.checkedResolve offset generation = .ok (s.resolve? offset generation) := by
  unfold checkedResolve resolve?
  by_cases hmark : generation ≠ 0 ∧ offset % 16 = 0 ∧ offset < s.bump ∧ s.isStart offset = true
  · obtain ⟨hne, hmod, hlt, hstart⟩ := hmark
    obtain ⟨c, hc, rfl⟩ := (h.carved.isStart_iff hmod).1 hstart
    have hroom := h.room hp hc
    unfold headerSize minCapacity at hroom
    rw [if_pos ⟨hne, hmod, hlt, hstart⟩, checkedGeneration_eq (by unfold headerSize; omega), ok_bind]
    by_cases hgen : s.generation c.start = generation
    · rw [if_pos hgen, if_pos ⟨hne, hmod, hlt, hstart, hgen⟩,
        checkedWord_eq (by unfold sizeField; omega), ok_bind,
        checkedWord_eq (by unfold lengthField; omega), ok_bind]
      rfl
    · rw [if_neg hgen, if_neg fun hand => hgen hand.2.2.2.2]
      rfl
  · rw [if_neg hmark, if_neg fun hand =>
      hmark ⟨hand.1, hand.2.1, hand.2.2.1, hand.2.2.2.1⟩]
    rfl

/-- A live chunk lies inside the segment and has room for its payload. -/
theorem bounds_of_resolve? (hp : policy.Sound) (h : Represents policy s v) (hsettled : v.Settled)
    {offset generation : Nat} {chunk : LiveChunk}
    (hresolve : s.resolve? offset generation = some chunk) :
    chunk.length + headerSize ≤ chunk.size ∧ chunk.offset + chunk.size ≤ s.size := by
  obtain ⟨c, hc, version, payload, rfl, hlive, rfl⟩ :=
    (h.resolve?_eq_some_iff hp hsettled).1 hresolve
  have hshows := h.carved.shows c hc
  unfold Shows at hshows
  rw [hlive] at hshows
  have hstop := h.carved.tiling.stop_le hc
  have hbump := h.carved.bump_le
  unfold Chunk.stop at hstop
  exact ⟨hshows.2.2.2.2.2.1, Nat.le_trans hstop hbump⟩

/-- Reading a payload passes its checks. -/
theorem checkedPayload_eq (hp : policy.Sound) (h : Represents policy s v) (hsettled : v.Settled)
    {offset generation : Nat} {chunk : LiveChunk}
    (hresolve : s.resolve? offset generation = some chunk) :
    s.checkedPayload chunk = .ok (s.payload chunk) := by
  obtain ⟨hroom, hstop⟩ := h.bounds_of_resolve? hp hsettled hresolve
  exact require_bind (by omega) ..

/-- Reading all the room of a payload passes its checks. -/
theorem checkedBuffer_eq (hp : policy.Sound) (h : Represents policy s v) (hsettled : v.Settled)
    {offset generation : Nat} {chunk : LiveChunk}
    (hresolve : s.resolve? offset generation = some chunk) :
    s.checkedBuffer chunk = .ok ⟨s.memory, chunk.offset + headerSize, chunk.capacity, chunk.length,
      chunk.version⟩ := by
  obtain ⟨hroom, hstop⟩ := h.bounds_of_resolve? hp hsettled hresolve
  unfold checkedBuffer
  rw [require_bind ⟨by omega, hstop⟩, require_bind (by unfold LiveChunk.capacity; omega)]
  rfl

end Represents

/-! ## Releasing -/

namespace Merge.Holds

variable {policy : AllocationPolicy} {m : Merge} {h : Hand}

/-- Merging with the chunk after passes its checks. -/
theorem checkedWithNext_eq (hp : policy.Sound) (hm : m.Holds policy h) :
    m.checkedWithNext = .ok m.withNext := by
  have hrep := hm.row
  have hnext := hm.add_size_eq
  unfold checkedWithNext Merge.withNext
  simp only
  by_cases hlt : m.start + m.size < m.segment.bump
  · cases hafter : h.after with
    | nil =>
      rw [hafter] at hnext
      simp only [List.head?_nil, Option.map_none, Option.getD_none] at hnext
      omega
    | cons d after =>
      rw [hafter] at hrep hnext
      have hstart : m.start + m.size = d.start := hnext
      have hd : d ∈ h.before.reverse ++ ⟨h.start, h.size, .taken⟩ :: d :: after := by simp
      have hroom := hrep.room hp hd
      rw [if_pos hlt, hstart, checkedGeneration_eq (by omega), ok_bind]
      by_cases hzero : m.segment.generation d.start = 0
      · have hcontent := hrep.free_of_isFree hd (hm.lone d (by simp [hafter])) (isFree_iff.2 hzero)
        have hsame := hrep.size_unlink hp hd hcontent
        unfold headerSize minCapacity at hroom
        rw [if_pos hzero, if_pos ⟨hstart ▸ hlt, isFree_iff.2 hzero⟩,
          checkedChunkSize_eq (by unfold headerSize; omega), ok_bind]
        rw [List.append_cons] at hrep
        rw [hrep.checkedUnlink_eq hp hcontent, ok_bind, checkedMark_eq (by omega), ok_bind]
        rfl
      · rw [if_neg hzero, if_neg fun hand => hzero (isFree_iff.1 hand.2)]
        rfl
  · rw [if_neg hlt, if_neg fun hand => hlt hand.1]
    rfl

/-- Merging with the chunk before passes its checks. -/
theorem checkedWithPrevious_eq (hp : policy.Sound) (hm : m.Holds policy h) :
    m.checkedWithPrevious = .ok m.withPrevious := by
  have hrep := hm.row
  unfold checkedWithPrevious Merge.withPrevious
  rw [hm.startBefore?_eq hp]
  cases hb : h.before with
  | nil => rfl
  | cons d before =>
    rw [hb, List.reverse_cons, List.append_assoc] at hrep
    have hd : d ∈ before.reverse ++ d :: ⟨h.start, h.size, .taken⟩ :: h.after := by simp
    have hroom := hrep.room hp hd
    simp only [List.head?_cons, Option.map_some]
    rw [checkedGeneration_eq (by omega), ok_bind]
    by_cases hzero : m.segment.generation d.start = 0
    · have hcontent := hrep.free_of_isFree hd (hm.lone d (by simp [hb])) (isFree_iff.2 hzero)
      have hsame := hrep.size_unlink hp hd hcontent
      -- the chunk before stops where the one in hand starts
      have hadjacent : d.start + d.size = m.start := hrep.stop_eq.trans hm.start_eq.symm
      have hhand := hrep.room hp (d := ⟨h.start, h.size, .taken⟩) (by simp)
      unfold headerSize minCapacity at hroom hhand
      simp only [← hm.start_eq] at hhand
      rw [if_pos hzero, if_pos (isFree_iff.2 hzero),
        checkedChunkSize_eq (by unfold headerSize; omega), ok_bind,
        hrep.chunkSize_eq hd (by simp [hcontent]), require_bind hadjacent,
        hrep.checkedUnlink_eq hp hcontent, ok_bind, checkedMark_eq (by omega), ok_bind]
      rfl
    · rw [if_neg hzero, if_neg fun hand => hzero (isFree_iff.1 hand)]
      rfl

/-- Returning the bytes passes its checks. -/
theorem checkedFinish_eq (hp : policy.Sound) (hm : m.Holds policy h) :
    m.checkedFinish policy = .ok (m.finish policy) := by
  have hrep := hm.row
  have hroom := hrep.room hp (d := ⟨h.start, h.size, .taken⟩) (by simp)
  unfold headerSize minCapacity at hroom
  unfold checkedFinish Merge.finish
  split
  · rw [hm.start_eq, checkedMark_eq (by simp only at hroom; omega)]
    rfl
  · rw [hm.start_eq, hm.size_eq]
    exact hrep.checkedAddFree_eq hp

end Merge.Holds

/-- **Releasing a live chunk passes its checks.** -/
theorem Represents.checkedRelease_eq {policy : AllocationPolicy} {s : Segment} {v : View}
    (hp : policy.Sound) (h : Represents policy s v) (hsettled : v.Settled)
    {offset generation : Nat} {chunk : LiveChunk}
    (hresolve : s.resolve? offset generation = some chunk) :
    s.checkedRelease policy chunk = .ok (s.release policy chunk) := by
  obtain ⟨c, hc, version, payload, rfl, hlive, rfl⟩ :=
    (h.resolve?_eq_some_iff hp hsettled).1 hresolve
  have hisLive : c.isLive = true := (c.isLive_eq_true_iff).2 ⟨_, _, _, hlive⟩
  have hgen : s.generation c.start = generation := (Segment.resolve?_eq_some_iff.1 hresolve).2.2.2.2.1
  have hpos : 0 < s.liveCount := by
    rw [h.carved.liveCount_eq]
    exact List.countP_pos_iff.2 ⟨c, hc, hisLive⟩
  have hroom : c.start + headerSize ≤ s.size := by
    have := h.room hp hc
    omega
  obtain ⟨cs, lists⟩ := v
  obtain ⟨pre, post, rfl⟩ := List.append_of_mem hc
  have htaken := h.takeLive hp hisLive
  unfold checkedRelease Segment.release
  rw [checkedGeneration_eq hroom, ok_bind, h.checkedResolve_eq hp, ok_bind, hgen,
    require_bind hresolve, require_bind hpos]
  cases policy.mode with
  | favorSpeed => exact htaken.checkedAddFree_eq (d := { c with content := .taken }) hp
  | reuseSpace =>
    have hlone : Hand.Lone ⟨pre.reverse, c.start, c.size, post, lists⟩ := by
      intro d hd
      rw [List.reverse_reverse] at hd
      exact hsettled d (mem_of_mem_append hd)
    have hm : Merge.Holds policy ⟨{ s with liveCount := s.liveCount - 1 }, c.start, c.size⟩
        ⟨pre.reverse, c.start, c.size, post, lists⟩ :=
      ⟨rfl, rfl, by simpa [Hand.view, Hand.put] using htaken, hlone⟩
    simp only
    rw [hm.checkedWithNext_eq hp, ok_bind, (hm.withNext hp).checkedWithPrevious_eq hp, ok_bind]
    exact ((hm.withNext hp).withPrevious hp).checkedFinish_eq hp

end Segment

end ObjectPile
