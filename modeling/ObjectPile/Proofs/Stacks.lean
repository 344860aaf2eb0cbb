/-
# Stacks

Where speed is favoured, a segment does no more than a machine of a cursor and one bounded stack for
each list would do: releasing pushes the chunk on the stack of its list or forgets it for good, and
storing pops a stack or moves the cursor. The links in the bytes of the free chunks, by which chunks
are also taken out of the middle of a list, do not show.

* `Stacks` : the machine.
* `Segment.stacks` : the machine that a segment amounts to.
* `Reachable.stacks_execute` : storing and releasing in a segment are those of its machine.
* `Segment.refines_stacks` : a segment and the machine give the same answers along every run.
-/
import ObjectPile.Proofs.Boundaries
import ObjectPile.Proofs.Outlines

namespace ObjectPile

/-! ## Commands -/

/-- What a segment is asked to do. -/
inductive Command where
  | store (payload : List UInt8) (version : CodecVersion) (generation : Nat)
  | release (offset generation : Nat)

/-- Payloads are stamped with a word that is not zero. -/
def Command.IsTyped : Command → Prop
  | .store _ _ generation => generation ≠ 0 ∧ generation ≤ maxWord
  | .release _ _ => True

instance Command.decidableIsTyped : (command : Command) → Decidable command.IsTyped
  | .store _ _ generation => inferInstanceAs (Decidable (generation ≠ 0 ∧ generation ≤ maxWord))
  | .release _ _ => inferInstanceAs (Decidable True)

/-- What a segment answers to a command. -/
inductive Answer where
  | stored (offset : Nat)
  /-- There is no room for the payload. -/
  | refused
  | released
  /-- No live chunk was named. -/
  | unknown
  deriving DecidableEq, Repr

/-- Answers commands one after the other. -/
def play {State : Type} (step : State → Command → Answer × State) :
    State → List Command → List Answer × State
  | state, [] => ([], state)
  | state, command :: commands =>
    let (answer, state) := step state command
    let (answers, state) := play step state commands
    (answer :: answers, state)

/-- The state after a run and more is that after more from the state after the run. -/
theorem play_append {State : Type} (step : State → Command → Answer × State) (state : State)
    (before after : List Command) :
    (play step state (before ++ after)).2 = (play step (play step state before).2 after).2 := by
  induction before generalizing state with
  | nil => rfl
  | cons command before ih => exact ih _

/-! ## The machine -/

/-- A chunk on a stack. -/
@[ext] structure Entry where
  offset : Nat
  size : Nat
  deriving DecidableEq, Repr

/-- **A cursor and bounded stacks.** -/
@[ext] structure Stacks where
  bump : Nat
  /-- The stack of each list, the top first. -/
  stack : Nat → List Entry
  /-- The generation and the size of the chunk in use at an offset. -/
  inUse : Nat → Option (Nat × Nat)

namespace Stacks

/-- The machine at the start. -/
def empty : Stacks := ⟨0, fun _ => [], fun _ => none⟩

/-- Pushes a chunk on the stack of its list if that holds fewer than it may. -/
def push (policy : AllocationPolicy) (stack : Nat → List Entry) (e : Entry) : Nat → List Entry :=
  let list := policy.classes.listForChunk e.size
  if (stack list).length < policy.freeListSize then
    Function.update stack list (e :: stack list)
  else stack

/-- The chunk that serves a request, and the stack without it: the top one, or for an oversized
request the first one large enough among the top ones. -/
def pop? (policy : AllocationPolicy) (request : ChunkRequest) (stack : List Entry) :
    Option (Entry × List Entry) :=
  if request.list = policy.classes.oversized then
    ((stack.take Segment.oversizedLimit).find? fun e => request.chunkSize ≤ e.size).map fun e =>
      (e, stack.erase e)
  else
    match stack with
    | [] => none
    | e :: stack => some (e, stack)

/-- Serves a request from the stack of its list, or else at the cursor. -/
def store (policy : AllocationPolicy) (m : Stacks) (request : ChunkRequest) (generation : Nat) :
    Answer × Stacks :=
  match pop? policy request (m.stack request.list) with
  | some (e, stack) =>
    (.stored e.offset,
      { m with
        stack := Function.update m.stack request.list stack
        inUse := Function.update m.inUse e.offset (some (generation, e.size)) })
  | none =>
    if m.bump + request.chunkSize ≤ policy.segmentSize then
      (.stored m.bump,
        { m with
          bump := m.bump + request.chunkSize
          inUse := Function.update m.inUse m.bump (some (generation, request.chunkSize)) })
    else (.refused, m)

/-- Pushes the chunk in use at an offset, if it has this generation. -/
def release (policy : AllocationPolicy) (m : Stacks) (offset generation : Nat) : Answer × Stacks :=
  match m.inUse offset with
  | none => (.unknown, m)
  | some (stamp, size) =>
    if stamp = generation then
      (.released,
        { m with
          stack := push policy m.stack ⟨offset, size⟩
          inUse := Function.update m.inUse offset none })
    else (.unknown, m)

def execute (policy : AllocationPolicy) (m : Stacks) : Command → Answer × Stacks
  | .store payload _ generation =>
    m.store policy (policy.classes.classify payload.length) generation
  | .release offset generation => m.release policy offset generation

end Stacks

/-- Storing and releasing in a segment, with an answer. -/
def Segment.execute (policy : AllocationPolicy) (s : Segment) : Command → Answer × Segment
  | .store payload version generation =>
    match s.store? policy (policy.classes.classify payload.length) payload version generation with
    | some (offset, s) => (.stored offset, s)
    | none => (.refused, s)
  | .release offset generation =>
    match s.resolve? offset generation with
    | some chunk => (.released, s.release policy chunk)
    | none => (.unknown, s)

/-! ## The machine of a view -/

/-- The generation and the size of a live chunk. -/
def Chunk.stamp? (c : Chunk) : Option (Nat × Nat) :=
  match c.content with
  | .live generation _ _ => some (generation, c.size)
  | _ => none

/-- The generation and the size of the live chunk at an offset. -/
def stampAt (offset : Nat) (cs : List Chunk) : Option (Nat × Nat) :=
  (cs.find? fun c => c.start == offset).bind Chunk.stamp?

/-- The chunk at an offset as an entry. -/
def entryAt (cs : List Chunk) (offset : Nat) : Entry := ⟨offset, sizeAt offset cs⟩

/-- The machine that a view amounts to. -/
def View.stacks (v : View) : Stacks where
  bump := v.stop
  stack i := (v.lists i).map (entryAt v.chunks)
  inUse o := stampAt o v.chunks

/-- The machine that a segment amounts to. -/
def Segment.stacks (s : Segment) : Stacks := s.view.stacks

section Rows

variable {pre post cs : List Chunk} {c d : Chunk} {content : Content}

theorem entryAt_injective (cs : List Chunk) : Function.Injective (entryAt cs) := fun _ _ h =>
  congrArg Entry.offset h

/-- A chunk that comes to hold something else keeps its size. -/
theorem entryAt_replace (pre post : List Chunk) (d : Chunk) (content : Content) :
    entryAt (pre ++ { d with content := content } :: post) = entryAt (pre ++ d :: post) := by
  funext o
  unfold entryAt sizeAt
  rw [List.find?_append, List.find?_append, List.find?_cons, List.find?_cons]
  cases pre.find? fun c => c.start == o with
  | some c => rfl
  | none => cases hstart : d.start == o <;> rfl

theorem stampAt_replace (hne : ∀ c ∈ pre, c.start ≠ d.start) :
    (fun o => stampAt o (pre ++ { d with content := content } :: post)) =
      Function.update (fun o => stampAt o (pre ++ d :: post)) d.start
        ({ d with content := content } : Chunk).stamp? := by
  funext o
  rw [Function.update_apply]
  unfold stampAt
  rw [List.find?_append, List.find?_append]
  split
  · rename_i heq
    have hnone : pre.find? (fun c => c.start == o) = none := by
      rw [List.find?_eq_none]
      intro c hc
      simpa [heq] using hne c hc
    rw [hnone, List.find?_cons_of_pos (by simp [heq])]
    rfl
  · rename_i hno
    rw [List.find?_cons_of_neg (by simpa using Ne.symm hno),
      List.find?_cons_of_neg (by simpa using Ne.symm hno)]

/-- A chunk that is added changes the size of no other one. -/
theorem entryAt_concat {o : Nat} (hne : c.start ≠ o) : entryAt (cs ++ [c]) o = entryAt cs o := by
  unfold entryAt sizeAt
  rw [List.find?_append, List.find?_cons_of_neg (by simpa using hne), List.find?_nil,
    Option.or_none]

theorem stampAt_concat (hne : ∀ d ∈ cs, d.start ≠ c.start) :
    (fun o => stampAt o (cs ++ [c])) =
      Function.update (fun o => stampAt o cs) c.start c.stamp? := by
  funext o
  rw [Function.update_apply]
  unfold stampAt
  rw [List.find?_append]
  split
  · rename_i heq
    have hnone : cs.find? (fun d => d.start == o) = none := by
      rw [List.find?_eq_none]
      intro d hd
      simpa [heq] using hne d hd
    rw [hnone, List.find?_cons_of_pos (by simp [heq])]
    rfl
  · rename_i hno
    rw [List.find?_cons_of_neg (by simpa using Ne.symm hno), List.find?_nil, Option.or_none]

end Rows

namespace Segment

variable {policy : AllocationPolicy} {s s' : Segment} {v : View} {payload : List UInt8}
  {version : CodecVersion} {generation offset : Nat} {request : ChunkRequest}

/-! ## Lists are stacks -/

/-- Filing on a list is pushing on its stack. -/
theorem map_fileOn (policy : AllocationPolicy) (lists : Nat → List Nat) (entry : Nat → Entry)
    (o : Nat) : (fun i => (fileOn policy lists o (entry o).size i).map entry) =
      Stacks.push policy (fun i => (lists i).map entry) (entry o) := by
  funext i
  unfold fileOn Stacks.push
  simp only [List.length_map]
  by_cases hroom : (lists (policy.classes.listForChunk (entry o).size)).length < policy.freeListSize
  · rw [if_neg (Nat.not_le.2 hroom), if_pos hroom, Function.update_apply, Function.update_apply]
    split <;> rfl
  · rw [if_pos (Nat.le_of_not_lt hroom), if_neg hroom]

/-- A header says how large the chunk at an offset of a list is. -/
theorem Represents.size_entryAt (hp : policy.Sound) (h : Represents policy s v) {i o : Nat}
    (ho : o ∈ v.lists i) : (entryAt v.chunks o).size = s.chunkSize o := by
  obtain ⟨c, hc, rfl, hfree, -⟩ := h.listed.free_of_mem i o ho
  obtain ⟨pre, post, hchunks⟩ := List.append_of_mem hc
  have htiling := h.carved.tiling
  rw [h.chunkSize_eq hc (by simp [hfree])]
  unfold entryAt
  rw [hchunks] at htiling ⊢
  refine sizeAt_append ?_
  intro d hd
  exact htiling.start_ne (Carved.smallest_pos hp) (List.mem_append_left _ hd)

/-- **Popping a stack finds what the search for a free chunk finds.** -/
theorem Represents.pop?_eq (hp : policy.Sound) (hmode : policy.mode = .favorSpeed)
    (h : Represents policy s v) (request : ChunkRequest) :
    Stacks.pop? policy request (v.stacks.stack request.list) =
      (s.reusable? policy request).map fun o =>
        (entryAt v.chunks o, (unlinkFrom v.lists o request.list).map (entryAt v.chunks)) := by
  rw [h.listed.reusable?_of_favorSpeed hmode]
  unfold Stacks.pop? View.stacks unlinkFrom
  simp only [← List.map_take]
  split
  · -- the search reads the sizes from the headers, the machine from its entries
    rename_i hlist
    rw [List.find?_map, ← hlist, Option.map_map]
    have hsame : ∀ o ∈ (v.lists request.list).take oversizedLimit,
        (decide (request.chunkSize ≤ s.chunkSize o)) =
          ((fun e : Entry => decide (request.chunkSize ≤ e.size)) ∘ entryAt v.chunks) o := by
      intro o ho
      rw [Function.comp_apply, h.size_entryAt hp (List.mem_of_mem_take ho)]
    rw [List.find?_congr hsame]
    congr 1
    funext o
    rw [Function.comp_apply, List.map_erase (entryAt_injective v.chunks)]
  · cases hlist : v.lists request.list with
    | nil => rfl
    | cons o os => simp

/-- Taking a chunk off its list changes no other stack. -/
theorem Represents.map_unlinkFrom (h : Represents policy s v) {i o : Nat} (ho : o ∈ v.lists i)
    (entry : Nat → Entry) : (fun j => (unlinkFrom v.lists o j).map entry) =
      Function.update (fun j => (v.lists j).map entry) i ((unlinkFrom v.lists o i).map entry) := by
  funext j
  rw [Function.update_apply]
  split
  · rename_i heq
    rw [heq]
  · rename_i hne
    have hnot : o ∉ v.lists j := fun hmem => hne (h.listed.eq_of_mem hmem ho)
    rw [unlinkFrom, List.erase_of_not_mem hnot]

/-! ## Pointers -/

/-- The chunks in use are the live ones. -/
theorem Represents.stampAt_eq_some_iff (hp : policy.Sound) (h : Represents policy s v)
    {size : Nat} : stampAt offset v.chunks = some (generation, size) ↔
      ∃ c ∈ v.chunks, ∃ version payload, c.start = offset ∧
        c.content = .live generation version payload ∧ c.size = size := by
  unfold stampAt
  rw [Option.bind_eq_some_iff]
  constructor
  · rintro ⟨c, hfound, hstamp⟩
    have hstart : c.start = offset := by simpa using List.find?_some hfound
    unfold Chunk.stamp? at hstamp
    cases hcontent : c.content with
    | live g version payload =>
      rw [hcontent] at hstamp
      obtain ⟨rfl, rfl⟩ := Prod.mk.inj (Option.some.inj hstamp)
      exact ⟨c, List.mem_of_find?_eq_some hfound, version, payload, hstart, hcontent, rfl⟩
    | free => simp [hcontent] at hstamp
    | taken => simp [hcontent] at hstamp
  · rintro ⟨c, hc, version, payload, rfl, hcontent, rfl⟩
    refine ⟨c, ?_, ?_⟩
    · have hsome : (v.chunks.find? fun d => d.start == c.start).isSome := by
        rw [List.find?_isSome]
        exact ⟨c, hc, by simp⟩
      obtain ⟨d, hfound⟩ := Option.isSome_iff_exists.1 hsome
      have hstart : d.start = c.start := by simpa using List.find?_some hfound
      rw [hfound, h.carved.eq_of_start_eq hp (List.mem_of_find?_eq_some hfound) hc hstart]
    · unfold Chunk.stamp?
      rw [hcontent]

/-! ## Steps -/

/-- A chunk comes to hold something else, and the lists change. -/
theorem Represents.stacks_replace {pre post : List Chunk} {d : Chunk} {lists : Nat → List Nat}
    (hp : policy.Sound) (h : Represents policy s ⟨pre ++ d :: post, lists⟩) (content : Content)
    (lists' : Nat → List Nat) :
    View.stacks ⟨pre ++ { d with content := content } :: post, lists'⟩ =
      ⟨View.stop ⟨pre ++ d :: post, lists⟩,
        fun i => (lists' i).map (entryAt (pre ++ d :: post)),
        Function.update (fun o => stampAt o (pre ++ d :: post)) d.start
          ({ d with content := content } : Chunk).stamp?⟩ ∧
      entryAt (pre ++ d :: post) d.start = ⟨d.start, d.size⟩ := by
  have hne : ∀ c ∈ pre, c.start ≠ d.start := fun c hc =>
    h.carved.tiling.start_ne (Carved.smallest_pos hp) (List.mem_append_left _ hc)
  constructor
  · unfold View.stacks
    rw [entryAt_replace, stampAt_replace hne]
    simp [View.stop]
  · unfold entryAt
    rw [sizeAt_append hne]

/-- A free chunk that serves a request is filled. -/
theorem Represents.stacks_fill {pre post : List Chunk} {d : Chunk} {lists : Nat → List Nat}
    (hp : policy.Sound) (hmode : policy.mode = .favorSpeed)
    (h : Represents policy s ⟨pre ++ d :: post, lists⟩)
    (hfound : s.reusable? policy request = some d.start) (generation : Nat) (version : CodecVersion)
    (payload : List UInt8) :
    View.stacks ⟨pre ++ { d with content := .live generation version payload } :: post,
        unlinkFrom lists d.start⟩ =
      { View.stacks ⟨pre ++ d :: post, lists⟩ with
        stack := Function.update (View.stacks ⟨pre ++ d :: post, lists⟩).stack request.list
          ((unlinkFrom lists d.start request.list).map (entryAt (pre ++ d :: post)))
        inUse := Function.update (View.stacks ⟨pre ++ d :: post, lists⟩).inUse d.start
          (some (generation, d.size)) } := by
  have hlists := h.map_unlinkFrom (h.mem_of_reusable? hmode hfound) (entryAt (pre ++ d :: post))
  rw [(h.stacks_replace hp _ _).1]
  exact Stacks.ext rfl hlists rfl

/-- A live chunk is freed and filed. -/
theorem Represents.stacks_free {pre post : List Chunk} {d : Chunk} {lists : Nat → List Nat}
    (hp : policy.Sound) (h : Represents policy s ⟨pre ++ d :: post, lists⟩) :
    View.stacks ⟨pre ++ d.freed :: post, fileOn policy lists d.start d.size⟩ =
      { View.stacks ⟨pre ++ d :: post, lists⟩ with
        stack := Stacks.push policy (View.stacks ⟨pre ++ d :: post, lists⟩).stack ⟨d.start, d.size⟩
        inUse := Function.update (View.stacks ⟨pre ++ d :: post, lists⟩).inUse d.start none } := by
  obtain ⟨hstacks, hentry⟩ := h.stacks_replace hp .free (fileOn policy lists d.start d.size)
  have hpush := map_fileOn policy lists (entryAt (pre ++ d :: post)) d.start
  rw [hentry] at hpush
  unfold Chunk.freed
  rw [hstacks]
  exact Stacks.ext rfl hpush rfl

/-- A chunk is added at the cursor. -/
theorem Represents.stacks_concat (hp : policy.Sound) (h : Represents policy s v) (size : Nat)
    (content : Content) : View.stacks ⟨v.chunks ++ [⟨v.stop, size, content⟩], v.lists⟩ =
      ⟨v.stop + size, v.stacks.stack, Function.update v.stacks.inUse v.stop
        (⟨v.stop, size, content⟩ : Chunk).stamp?⟩ := by
  have hne : ∀ d ∈ v.chunks, d.start ≠ v.stop := by
    intro d hd
    rw [h.stop_eq_bump]
    exact Nat.ne_of_lt (h.start_lt_bump hp hd)
  have hstack : ∀ i, (v.lists i).map (entryAt (v.chunks ++ [⟨v.stop, size, content⟩])) =
      (v.lists i).map (entryAt v.chunks) := by
    intro i
    refine List.map_congr_left ?_
    intro o ho
    obtain ⟨d, hd, rfl⟩ := h.listed.exists_start ho
    exact entryAt_concat (Ne.symm (hne d hd))
  refine Stacks.ext ?_ (funext hstack) (stampAt_concat hne)
  simp [View.stacks, View.stop]

/-- **Storing in a segment is storing in its machine.** -/
theorem Reachable.stacks_store (hp : policy.Sound) (hmode : policy.mode = .favorSpeed)
    (h : Reachable policy s) (payload : List UInt8) (version : CodecVersion)
    (hgen : generation ≠ 0) (hmax : generation ≤ maxWord) :
    s.stacks.execute policy (.store payload version generation) =
      ((s.execute policy (.store payload version generation)).1,
        (s.execute policy (.store payload version generation)).2.stacks) := by
  obtain ⟨hrep, -⟩ := h.represents_view hp
  have hbump := hrep.stop_eq_bump
  have hpop := hrep.pop?_eq hp hmode (policy.classes.classify payload.length)
  unfold Stacks.execute Segment.execute Stacks.store Segment.stacks
  simp only
  rw [hpop]
  cases hstore : s.store? policy (policy.classes.classify payload.length) payload version
    generation with
  | none =>
    obtain ⟨hnone, hfull⟩ := place?_eq_none_iff.1 (Option.map_eq_none_iff.1 hstore)
    rw [hrep.carved.size_eq, ← hbump] at hfull
    rw [hnone, Option.map_none]
    exact if_neg (Nat.not_le.2 hfull)
  | some stored =>
    obtain ⟨offset, s'⟩ := stored
    simp only
    rcases h.store_cases hp hmode hgen hmax hstore with
      ⟨pre, d, post, hs, -, rfl, hfound, hview⟩ | ⟨hnone, hfits, rfl, hview⟩
    · -- a free chunk is filled, all of it
      rw [hs] at hrep
      have hentry := (hrep.stacks_replace hp d.content s.listed).2
      rw [hfound, hs, hview, hrep.stacks_fill hp hmode hfound]
      simp only [Option.map_some, hentry]
    · -- a chunk is added at the cursor
      rw [← hbump] at hfits
      rw [hnone, hview, ← hbump]
      have hconcat := hrep.stacks_concat hp (policy.classes.classify payload.length).chunkSize
        (.live generation version payload)
      exact (if_pos hfits).trans (congrArg (Prod.mk _) hconcat.symm)

/-- **Releasing in a segment is releasing in its machine.** -/
theorem Reachable.stacks_release (hp : policy.Sound) (hmode : policy.mode = .favorSpeed)
    (h : Reachable policy s) (offset generation : Nat) :
    s.stacks.execute policy (.release offset generation) =
      ((s.execute policy (.release offset generation)).1,
        (s.execute policy (.release offset generation)).2.stacks) := by
  obtain ⟨hrep, hsettled⟩ := h.represents_view hp
  unfold Stacks.execute Segment.execute Stacks.release Segment.stacks
  simp only
  cases hresolve : s.resolve? offset generation with
  | none =>
    -- a chunk in use may have another generation, but not this one
    have hnone : ∀ size, s.view.stacks.inUse offset ≠ some (generation, size) := by
      intro size hstamp
      obtain ⟨c, hc, version, payload, hstart, hcontent, -⟩ :=
        (hrep.stampAt_eq_some_iff hp).1 hstamp
      have hsome := (hrep.resolve?_eq_some_iff hp hsettled).2
        ⟨c, hc, version, payload, hstart, hcontent, rfl⟩
      rw [hresolve] at hsome
      simp at hsome
    cases hstamp : s.view.stacks.inUse offset with
    | none => rfl
    | some e =>
      obtain ⟨stamp, size⟩ := e
      refine if_neg ?_
      rintro rfl
      exact hnone size hstamp
  | some chunk =>
    obtain ⟨pre, d, post, version, payload, hs, hcontent, rfl, hview⟩ :=
      h.view_release hp hmode hresolve
    rw [hs] at hrep ⊢
    have hstamp : (View.stacks ⟨pre ++ d :: post, s.listed⟩).inUse d.start =
        some (generation, d.size) :=
      (hrep.stampAt_eq_some_iff hp).2 ⟨d, by simp, version, payload, rfl, hcontent, rfl⟩
    rw [hstamp, hview, hrep.stacks_free hp]
    exact if_pos rfl

/-- A step leads to a reachable segment. -/
theorem Reachable.execute (h : Reachable policy s) {command : Command} (htyped : command.IsTyped) :
    Reachable policy (s.execute policy command).2 := by
  unfold Segment.execute
  cases command with
  | store payload version generation =>
    simp only
    split
    · rename_i offset s' hstore
      exact h.store htyped.1 htyped.2 hstore
    · exact h
  | release offset generation =>
    simp only
    split
    · rename_i chunk hresolve
      exact h.release hresolve
    · exact h

/-- **A step of a segment is a step of its machine.** -/
theorem Reachable.stacks_execute (hp : policy.Sound) (hmode : policy.mode = .favorSpeed)
    (h : Reachable policy s) {command : Command} (htyped : command.IsTyped) :
    s.stacks.execute policy command =
      ((s.execute policy command).1, (s.execute policy command).2.stacks) := by
  cases command with
  | store payload version generation =>
    exact h.stacks_store hp hmode payload version htyped.1 htyped.2
  | release offset generation => exact h.stacks_release hp hmode offset generation

/-- A step leaves the boundaries or adds one at the end. -/
theorem Reachable.extents_execute (hp : policy.Sound) (hmode : policy.mode = .favorSpeed)
    (h : Reachable policy s) {command : Command} (htyped : command.IsTyped) :
    s.extents <+: (s.execute policy command).2.extents := by
  unfold Segment.execute
  cases command with
  | store payload version generation =>
    simp only
    split
    · rename_i offset s' hstore
      rcases h.extents_store hp hmode htyped.1 htyped.2 hstore with heq | ⟨-, heq⟩
      · rw [heq]
      · rw [heq]
        exact List.prefix_append _ _
    · exact List.prefix_refl _
  | release offset generation =>
    simp only
    split
    · rename_i chunk hresolve
      rw [h.extents_release hp hmode hresolve]
    · exact List.prefix_refl _

/-! ## Runs -/

/-- A run leads to a reachable segment. -/
theorem reachable_play (h : Reachable policy s) {commands : List Command}
    (htyped : ∀ command ∈ commands, command.IsTyped) :
    Reachable policy (play (Segment.execute policy) s commands).2 := by
  induction commands generalizing s with
  | nil => exact h
  | cons command commands ih =>
    obtain ⟨hcommand, hcommands⟩ := List.forall_mem_cons.1 htyped
    exact ih (h.execute hcommand) hcommands

/-- **A run of a segment is a run of its machine.** -/
theorem Reachable.stacks_play (hp : policy.Sound) (hmode : policy.mode = .favorSpeed)
    (h : Reachable policy s) {commands : List Command}
    (htyped : ∀ command ∈ commands, command.IsTyped) :
    play (Stacks.execute policy) s.stacks commands =
      ((play (Segment.execute policy) s commands).1,
        (play (Segment.execute policy) s commands).2.stacks) := by
  induction commands generalizing s with
  | nil => rfl
  | cons command commands ih =>
    obtain ⟨hcommand, hcommands⟩ := List.forall_mem_cons.1 htyped
    unfold play
    rw [h.stacks_execute hp hmode hcommand]
    simp only
    rw [ih (h.execute hcommand) hcommands]

/-- A run leaves the boundaries or adds some at the end. -/
theorem Reachable.extents_play (hp : policy.Sound) (hmode : policy.mode = .favorSpeed)
    (h : Reachable policy s) {commands : List Command}
    (htyped : ∀ command ∈ commands, command.IsTyped) :
    s.extents <+: (play (Segment.execute policy) s commands).2.extents := by
  induction commands generalizing s with
  | nil => exact List.prefix_refl _
  | cons command commands ih =>
    obtain ⟨hcommand, hcommands⟩ := List.forall_mem_cons.1 htyped
    exact (h.extents_execute hp hmode hcommand).trans (ih (h.execute hcommand) hcommands)

/-- **A segment shows a machine**: it has its cursor, and on its lists the chunks of its stacks. -/
structure Mirrors (s : Segment) (m : Stacks) : Prop where
  bump_eq : s.bump = m.bump
  listed_eq : ∀ i, (s.listed i).map (fun o => ⟨o, s.chunkSize o⟩) = m.stack i
  length_eq : ∀ i, (s.freeList i).length = (m.stack i).length

/-- A reachable segment shows the machine that it amounts to. -/
theorem Reachable.mirrors (hp : policy.Sound) (h : Reachable policy s) : s.Mirrors s.stacks := by
  obtain ⟨hrep, -⟩ := h.represents_view hp
  refine ⟨hrep.stop_eq_bump.symm, ?_, ?_⟩
  · intro i
    refine List.map_congr_left ?_
    intro o ho
    exact Entry.ext rfl (hrep.size_entryAt hp ho).symm
  · intro i
    rw [hrep.listed.length]
    exact (List.length_map _).symm

/-- **The chunks of a segment belong to classes** unless they are larger than all classes ask for. -/
structure Classed (policy : AllocationPolicy) (s : Segment) : Prop where
  /-- A chunk that is not larger than some class asks for is exactly as large as some class does. -/
  exists_class : ∀ o ∈ s.offsets, ∀ c ∈ policy.classes.capacities,
    s.chunkSize o ≤ c + headerSize → ∃ d ∈ policy.classes.capacities, s.chunkSize o = d + headerSize
  /-- A payload of a class gets a chunk of exactly that class. -/
  chunkSize_eq : ∀ (payload : List UInt8) (version : CodecVersion) (generation offset capacity : Nat)
    (s' : Segment), generation ≠ 0 → generation ≤ maxWord →
    policy.classes.capacities[(policy.classes.classify payload.length).list]? = some capacity →
    s.store? policy (policy.classes.classify payload.length) payload version generation =
      some (offset, s') → s'.chunkSize offset = capacity + headerSize

theorem Reachable.classed (hp : policy.Sound) (hmode : policy.mode = .favorSpeed)
    (h : Reachable policy s) : s.Classed policy := by
  refine ⟨?_, ?_⟩
  · intro o ho c hc hle
    rcases h.sized hp hmode _ (h.mem_extents hp ho) with hclass | hlt
    · exact hclass
    · exact absurd (hlt c hc) (Nat.not_lt.2 hle)
  · intro payload version generation offset capacity s' hgen hmax hclass hstore
    exact h.chunkSize_of_store hp hmode hgen hmax hstore hclass

theorem stacks_empty (policy : AllocationPolicy) : (empty policy).stacks = Stacks.empty := by
  have hrep := represents_empty policy
  unfold Segment.stacks view
  rw [chunks_empty, hrep.listed_eq]
  rfl

/-- **Where speed is favoured, a segment refines a machine of a cursor and bounded stacks.** Along
every run of storing and releasing both give the same answers and come to the same cursor and the
same chunks on the lists; boundaries between chunks are kept from any point of the run to its end;
and chunks belong to classes. -/
theorem refines_stacks {settings : Settings} (hs : settings.Accepted)
    (hmode : settings.allocMode = .favorSpeed) {commands : List Command}
    (htyped : ∀ command ∈ commands, command.IsTyped) :
    let policy : AllocationPolicy := .ofSettings settings
    let run := play (execute policy) (empty policy) commands
    let machine := play (Stacks.execute policy) Stacks.empty commands
    run.1 = machine.1 ∧ run.2.Mirrors machine.2 ∧ run.2.Classed policy ∧
      ∀ before, before <+: commands →
        (play (execute policy) (empty policy) before).2.Lasts run.2 := by
  intro policy run machine
  have hp : policy.Sound := hs.sound.policy
  have hempty : Reachable policy (empty policy) := .empty
  have hplay := hempty.stacks_play hp hmode htyped
  have hreach := reachable_play hempty htyped
  rw [stacks_empty] at hplay
  have hmachine : machine = (run.1, run.2.stacks) := hplay
  rw [hmachine]
  refine ⟨rfl, hreach.mirrors hp, hreach.classed hp hmode, ?_⟩
  rintro before ⟨after, rfl⟩
  obtain ⟨hbefore, hafter⟩ := List.forall_mem_append.1 htyped
  have hreach' := reachable_play hempty hbefore
  rw [play_append] at hreach
  simp only [run, play_append]
  exact hreach'.lasts hp hreach (hreach'.extents_play hp hmode hafter)

end Segment

namespace Settings

/-- The standard settings with two small classes, in favour of speed and with short lists. -/
def speedy : Settings := { twoClasses with allocMode := .favorSpeed, freeListSize := 2 }

theorem accepted_speedy : speedy.Accepted :=
  @Accepted.apply .twoClasses _ { allocMode := some "FavorSpeed", freeListSize := some 2 }
    accepted_twoClasses (by decide) (by rfl)

end Settings

namespace Segment

/-- A run in which an oversized chunk is taken from below the top of its stack. -/
def dug : List Command :=
  [.store [1, 2, 3] .raw 1, .store (List.replicate 100 7) .raw 2,
    .store (List.replicate 200 7) .raw 3, .store [] .raw 4, .release 160 3, .release 32 2,
    .store (List.replicate 150 7) .raw 5, .release 0 1, .release 384 4, .store [9] .raw 6,
    .release 0 1]

/-- The machine tells the answers: the second chunk of a stack is taken when the first one is too
small, and a chunk that was released is not known any more. -/
theorem answers_of_dug : (play (execute (.ofSettings .speedy)) (empty (.ofSettings .speedy)) dug).1 =
    [.stored 0, .stored 32, .stored 160, .stored 384, .released, .released, .stored 160, .released,
      .released, .stored 384, .unknown] := by
  have htyped : ∀ command ∈ dug, command.IsTyped := by decide
  refine (refines_stacks Settings.accepted_speedy rfl htyped).1.trans ?_
  decide +kernel

end Segment

end ObjectPile
