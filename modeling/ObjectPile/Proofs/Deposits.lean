/-
# What is stored stands

A run of storing and releasing leaves a log of the commands and their answers. From the log alone
one can tell what stands: the payloads that were stored and whose offsets were not released since.
This is what the pointers of the segment find, no more and no less, whatever the bytes in it look
like: a payload may well hold the bytes of a header, and the headers of chunks that were merged or
given back are still there, but no pointer leads to them.

* `Stands` : a payload was stored at an offset that was not released since.
* `Segment.Accounts.execute`, `Segment.Accounts.play` : the answers of a segment are what stands,
  after a command and along a run.
* `Reachable.keeps_execute`, `Reachable.keeps_play` : a live chunk and its bytes are kept until the
  chunk is released.
* `Segment.undisturbed_of_play` : what a segment holds at the end of every run.
-/
import ObjectPile.Proofs.Frames
import ObjectPile.Proofs.Stacks

namespace ObjectPile

/-! ## Logs -/

/-- A payload was stored at an offset, and the offset was not released since. -/
def Stands (log : List (Command × Answer)) (offset generation : Nat) (payload : List UInt8)
    (version : CodecVersion) : Prop :=
  ∃ before after,
    log = before ++ (.store payload version generation, .stored offset) :: after ∧
      ∀ g, (.release offset g, .released) ∉ after

variable {log : List (Command × Answer)} {entry : Command × Answer} {offset generation : Nat}
  {payload : List UInt8} {version : CodecVersion}

theorem not_stands_nil : ¬ Stands [] offset generation payload version := by
  rintro ⟨before, after, hlog, -⟩
  simp at hlog

/-- What stands is what was stored last or what stood before and was not released. -/
theorem stands_concat : Stands (log ++ [entry]) offset generation payload version ↔
    entry = (.store payload version generation, .stored offset) ∨
      (Stands log offset generation payload version ∧
        ∀ g, entry ≠ (.release offset g, .released)) := by
  constructor
  · rintro ⟨before, after, hlog, hafter⟩
    rcases List.eq_nil_or_concat after with rfl | ⟨after, last, rfl⟩
    · obtain ⟨-, hentry⟩ := List.append_inj' hlog rfl
      exact .inl (List.head_eq_of_cons_eq hentry)
    · right
      rw [List.concat_eq_append, ← List.cons_append, ← List.append_assoc] at hlog
      obtain ⟨rfl, hentry⟩ := List.append_inj' hlog rfl
      obtain rfl := List.head_eq_of_cons_eq hentry
      refine ⟨⟨before, after, rfl, ?_⟩, ?_⟩
      · intro g hmem
        exact hafter g (by simp [hmem])
      · rintro g rfl
        exact hafter g (by simp)
  · rintro (rfl | ⟨⟨before, after, rfl, hafter⟩, hentry⟩)
    · exact ⟨log, [], rfl, by simp⟩
    · refine ⟨before, after ++ [entry], by simp, ?_⟩
      intro g hmem
      rcases List.mem_append.1 hmem with hmem | hmem
      · exact hafter g hmem
      · exact hentry g (List.mem_singleton.1 hmem).symm

/-- A release is followed by nothing that stands at its offset. -/
theorem not_stands_of_released (g : Nat) :
    ¬ Stands (log ++ [(.release offset g, .released)]) offset generation payload version := by
  rw [stands_concat]
  rintro (heq | ⟨-, hne⟩)
  · simp at heq
  · exact hne g rfl

namespace Segment

variable {policy : AllocationPolicy} {s s' : Segment}

/-! ## One generation at an offset -/

/-- At an offset only one generation finds something. -/
theorem lookup_eq_none_of_ne {chunk : LiveChunk} (h : s.resolve? offset generation = some chunk)
    {g : Nat} (hne : g ≠ generation) : s.lookup offset g = none := by
  obtain ⟨-, -, -, -, hgen, -⟩ := resolve?_eq_some_iff.1 h
  have hnone : s.resolve? offset g = none := by
    rw [Option.eq_none_iff_forall_ne_some]
    intro other hother
    obtain ⟨-, -, -, -, hgen', -⟩ := resolve?_eq_some_iff.1 hother
    exact hne (hgen'.symm.trans hgen)
  unfold lookup
  rw [hnone]
  rfl

/-- Nothing is found at an offset before a payload is stored there. -/
theorem Reachable.lookup_eq_none_of_store? (hp : policy.Sound) (h : Reachable policy s)
    (hgen : generation ≠ 0) (hmax : generation ≤ maxWord)
    (hstore : s.store? policy (policy.classes.classify payload.length) payload version generation =
      some (offset, s')) (g : Nat) : s.lookup offset g = none := by
  obtain ⟨v, hrep, hsettled⟩ := h.exists_represents hp
  obtain ⟨v', hrep', -, size, before, after, hlive, hlive'⟩ :=
    hrep.exists_of_store? hp hsettled hgen hmax hstore
  -- the new chunk starts there afterwards, and no two live chunks start together
  have hnodup := hrep'.nodup_live hp
  rw [hlive', List.map_append, List.map_cons, List.nodup_middle, List.nodup_cons,
    ← List.map_append, ← hlive] at hnodup
  rw [Option.eq_none_iff_forall_ne_some]
  rintro ⟨p, ver⟩ hsome
  obtain ⟨n, hmem⟩ := (hrep.lookup_eq_some_iff hp hsettled).1 hsome
  exact hnodup.1 (List.mem_map.2 ⟨_, hmem, rfl⟩)

/-! ## What pointers find -/

/-- **The answers of a segment are what stands by a log.** -/
def Accounts (s : Segment) (log : List (Command × Answer)) : Prop :=
  ∀ offset generation payload version, s.lookup offset generation = some (payload, version) ↔
    Stands log offset generation payload version

theorem accounts_empty (policy : AllocationPolicy) : (empty policy).Accounts [] := by
  intro offset generation payload version
  rw [lookup_empty]
  exact iff_of_false (by simp) not_stands_nil

namespace Accounts

/-- A command that is answered without a change. -/
theorem concat (h : s.Accounts log) (hstored : ∀ o, entry.2 ≠ .stored o)
    (hreleased : entry.2 ≠ .released) : s.Accounts (log ++ [entry]) := by
  intro o g p ver
  rw [stands_concat, h o g p ver]
  constructor
  · intro hstands
    refine .inr ⟨hstands, ?_⟩
    rintro g' rfl
    exact hreleased rfl
  · rintro (rfl | ⟨hstands, -⟩)
    · exact absurd rfl (hstored o)
    · exact hstands

/-- A payload is stored. -/
theorem store (hp : policy.Sound) (hreach : Reachable policy s) (h : s.Accounts log)
    (hgen : generation ≠ 0) (hmax : generation ≤ maxWord)
    (hstore : s.store? policy (policy.classes.classify payload.length) payload version generation =
      some (offset, s')) :
    s'.Accounts (log ++ [(.store payload version generation, .stored offset)]) := by
  have hstored := hreach.stored hp hgen hmax hstore
  have hfresh := hreach.lookup_eq_none_of_store? hp hgen hmax hstore
  intro o g p ver
  rw [stands_concat, ← h o g p ver, hstored.lookup_eq]
  by_cases heq : o = offset ∧ g = generation
  · obtain ⟨rfl, rfl⟩ := heq
    rw [if_pos ⟨rfl, rfl⟩, hfresh]
    simp [eq_comm]
  · rw [if_neg heq]
    constructor
    · intro hsome
      exact .inr ⟨hsome, by simp⟩
    · rintro (hentry | ⟨hsome, -⟩)
      · simp only [Prod.mk.injEq, Command.store.injEq, Answer.stored.injEq] at hentry
        exact absurd ⟨hentry.2.symm, hentry.1.2.2.symm⟩ heq
      · exact hsome

/-- A chunk is released. -/
theorem release (hp : policy.Sound) (hreach : Reachable policy s) (h : s.Accounts log)
    {chunk : LiveChunk} (hresolve : s.resolve? offset generation = some chunk) :
    (s.release policy chunk).Accounts (log ++ [(.release offset generation, .released)]) := by
  have hreleased := hreach.released hp hresolve
  intro o g p ver
  rw [hreleased.lookup_eq]
  by_cases ho : o = offset
  · -- nothing stands there any more, and nothing is found under another generation either
    subst ho
    refine iff_of_false ?_ (not_stands_of_released generation)
    by_cases hg : g = generation
    · rw [if_pos ⟨rfl, hg⟩]
      simp
    · rw [if_neg fun heq => hg heq.2, lookup_eq_none_of_ne hresolve hg]
      simp
  · rw [if_neg fun heq => ho heq.1, stands_concat, h o g p ver]
    constructor
    · intro hstands
      refine .inr ⟨hstands, ?_⟩
      rintro g' heq
      simp only [Prod.mk.injEq, Command.release.injEq, and_true] at heq
      exact ho heq.1.symm
    · rintro (heq | ⟨hstands, -⟩)
      · simp at heq
      · exact hstands

/-- **A command that is answered.** -/
theorem execute (hp : policy.Sound) (hreach : Reachable policy s) (h : s.Accounts log)
    {command : Command} (htyped : command.IsTyped) :
    (s.execute policy command).2.Accounts (log ++ [(command, (s.execute policy command).1)]) := by
  unfold Segment.execute
  cases command with
  | store payload version generation =>
    simp only
    split
    · rename_i offset s' hstore
      exact h.store hp hreach htyped.1 htyped.2 hstore
    · exact h.concat (by simp) (by simp)
  | release offset generation =>
    simp only
    split
    · rename_i chunk hresolve
      exact h.release hp hreach hresolve
    · exact h.concat (by simp) (by simp)

/-- **Along every run the answers of a segment are what stands.** -/
theorem play (hp : policy.Sound) (hreach : Reachable policy s) (h : s.Accounts log)
    {commands : List Command} (htyped : ∀ command ∈ commands, command.IsTyped) :
    (ObjectPile.play (Segment.execute policy) s commands).2.Accounts
      (log ++ commands.zip (ObjectPile.play (Segment.execute policy) s commands).1) := by
  induction commands generalizing s log with
  | nil => simpa [ObjectPile.play] using h
  | cons command commands ih =>
    obtain ⟨hcommand, hcommands⟩ := List.forall_mem_cons.1 htyped
    have hrest := ih (hreach.execute hcommand) (h.execute hp hreach hcommand) hcommands
    rw [List.append_assoc] at hrest
    exact hrest

end Accounts

/-! ## What is kept -/

variable {c : Chunk} {command : Command} {commands : List Command}

/-- **A command keeps a live chunk and its bytes** unless it is the release of that chunk. -/
theorem Reachable.keeps_execute (hp : policy.Sound) (h : Reachable policy s)
    (htyped : command.IsTyped) (hc : c ∈ s.view.live)
    (hcontent : c.content = .live generation version payload)
    (hne : command ≠ .release c.start generation) :
    c ∈ (s.execute policy command).2.view.live ∧
      s.SameOn (s.execute policy command).2 c.start c.stop := by
  unfold Segment.execute
  cases command with
  | store payload version generation =>
    simp only
    split
    · rename_i offset s' hstore
      obtain ⟨hspares, hlive⟩ := h.spares_store hp htyped.1 htyped.2 hstore
      exact ⟨hlive c hc, hspares c hc⟩
    · exact ⟨hc, .refl _ _ _⟩
  | release offset g =>
    simp only
    split
    · rename_i chunk hresolve
      obtain ⟨hspares, hlive⟩ := h.spares_release hp hresolve
      have hstart : c.start ≠ offset := by
        rintro rfl
        -- the pointer would name this chunk under another generation
        have hfound := (h.resolve?_eq_some_iff hp).2 ⟨c, hc, version, payload, rfl, hcontent, rfl⟩
        obtain ⟨-, -, -, -, hgen, -⟩ := Segment.resolve?_eq_some_iff.1 hfound
        obtain ⟨-, -, -, -, hgen', -⟩ := Segment.resolve?_eq_some_iff.1 hresolve
        exact hne (by rw [← hgen, hgen'])
      exact ⟨hlive c hc hstart, hspares c (hlive c hc hstart)⟩
    · exact ⟨hc, .refl _ _ _⟩

/-- **A run keeps a live chunk and its bytes** until it releases that chunk. -/
theorem Reachable.keeps_play (hp : policy.Sound) (h : Reachable policy s)
    (htyped : ∀ command ∈ commands, command.IsTyped) (hc : c ∈ s.view.live)
    (hcontent : c.content = .live generation version payload)
    (hnot : .release c.start generation ∉ commands) :
    c ∈ (play (Segment.execute policy) s commands).2.view.live ∧
      s.SameOn (play (Segment.execute policy) s commands).2 c.start c.stop := by
  induction commands generalizing s with
  | nil => exact ⟨hc, .refl _ _ _⟩
  | cons command commands ih =>
    obtain ⟨hcommand, hcommands⟩ := List.forall_mem_cons.1 htyped
    rw [List.mem_cons, not_or] at hnot
    obtain ⟨hne, hnot⟩ := hnot
    obtain ⟨hlive, hsame⟩ := h.keeps_execute hp hcommand hc hcontent (Ne.symm hne)
    obtain ⟨hlive', hsame'⟩ := ih (h.execute hcommand) hcommands hlive hnot
    exact ⟨hlive', hsame.trans hsame'⟩

/-! ## Runs -/

/-- **A segment holds what was stored in it, undisturbed.** -/
structure Undisturbed (s : Segment) (log : List (Command × Answer)) : Prop where
  /-- A pointer finds something exactly if something stands at its offset and was stamped with its
  generation. -/
  isSome_resolve?_iff : ∀ offset generation, (s.resolve? offset generation).isSome = true ↔
    ∃ payload version, Stands log offset generation payload version
  /-- It finds the length, the version and the bytes that were stored. -/
  read : ∀ offset generation payload version, Stands log offset generation payload version →
    ∃ chunk, s.resolve? offset generation = some chunk ∧ chunk.offset = offset ∧
      chunk.length = payload.length ∧ chunk.version = version ∧ s.payload chunk = payload
  /-- The chunks that pointers find have room for their payloads and lie before the cursor. -/
  within : ∀ offset generation chunk, s.resolve? offset generation = some chunk →
    chunk.length + headerSize ≤ chunk.size ∧ chunk.offset + chunk.size ≤ s.bump ∧ s.bump ≤ s.size
  /-- Two of them have no byte in common. -/
  apart : ∀ offset generation chunk offset' generation' chunk',
    s.resolve? offset generation = some chunk → s.resolve? offset' generation' = some chunk' →
      chunk ≠ chunk' → chunk.offset + chunk.size ≤ chunk'.offset ∨
        chunk'.offset + chunk'.size ≤ chunk.offset

theorem Accounts.undisturbed (hp : policy.Sound) (hreach : Reachable policy s)
    (h : s.Accounts log) : s.Undisturbed log := by
  obtain ⟨hrep, hsettled⟩ := hreach.represents_view hp
  refine ⟨?_, ?_, ?_, ?_⟩
  · intro offset generation
    have hlookup : (s.resolve? offset generation).isSome =
        (s.lookup offset generation).isSome := Option.isSome_map.symm
    rw [hlookup, Option.isSome_iff_exists]
    constructor
    · rintro ⟨⟨payload, version⟩, hsome⟩
      exact ⟨payload, version, (h _ _ _ _).1 hsome⟩
    · rintro ⟨payload, version, hstands⟩
      exact ⟨_, (h _ _ _ _).2 hstands⟩
  · intro offset generation payload version hstands
    obtain ⟨size, hmem⟩ :=
      (hrep.lookup_eq_some_iff hp hsettled).1 ((h _ _ _ _).2 hstands)
    have hc := (List.mem_filter.1 hmem).1
    have hsize : headerSize ≤ size := Nat.le_of_add_left_le (hrep.carved.length_add_le hc rfl)
    obtain ⟨hresolve, hread⟩ := hrep.resolve?_of_live hc hsize rfl
    exact ⟨_, hresolve, rfl, rfl, rfl, hread⟩
  · intro offset generation chunk hresolve
    obtain ⟨c, hc, version, payload, rfl, hcontent, rfl⟩ :=
      (hreach.resolve?_eq_some_iff hp).1 hresolve
    have hmem := List.mem_of_mem_filter hc
    exact ⟨hrep.carved.length_add_le hmem hcontent, hrep.carved.tiling.stop_le hmem,
      hrep.carved.bump_le⟩
  · intro offset generation chunk offset' generation' chunk' hresolve hresolve' hne
    obtain ⟨c, hc, version, payload, rfl, hcontent, rfl⟩ :=
      (hreach.resolve?_eq_some_iff hp).1 hresolve
    obtain ⟨d, hd, version', payload', rfl, hcontent', rfl⟩ :=
      (hreach.resolve?_eq_some_iff hp).1 hresolve'
    have hcmem := List.mem_of_mem_filter hc
    have hdmem := List.mem_of_mem_filter hd
    refine hrep.carved.tiling.apart hcmem hdmem ?_
    intro hstart
    obtain rfl := hrep.carved.eq_of_start_eq hp hcmem hdmem hstart
    obtain ⟨rfl, rfl, rfl⟩ := Content.live.inj (hcontent.symm.trans hcontent')
    exact hne rfl

/-- **Segments isolate what is stored in them.** Along every run of storing and releasing, in either
mode, whatever bytes are stored and whatever generations they are stamped with: at the end pointers
find exactly what stands, as it was stored and each in bytes of its own; and from any point of the
run to its end no byte of a live chunk changes unless that chunk is released. -/
theorem undisturbed_of_play {settings : Settings} (hs : settings.Accepted)
    {commands : List Command} (htyped : ∀ command ∈ commands, command.IsTyped) :
    let policy : AllocationPolicy := .ofSettings settings
    let run := play (execute policy) (empty policy) commands
    run.2.Undisturbed (commands.zip run.1) ∧
      ∀ before after, commands = before ++ after →
        let earlier := (play (execute policy) (empty policy) before).2
        ∀ offset generation chunk, earlier.resolve? offset generation = some chunk →
          .release offset generation ∉ after →
            run.2.resolve? offset generation = some chunk ∧
              earlier.SameOn run.2 chunk.offset (chunk.offset + chunk.size) := by
  intro policy run
  have hp : policy.Sound := hs.sound.policy
  have hempty : Reachable policy (empty policy) := .empty
  constructor
  · exact ((accounts_empty policy).play hp hempty htyped).undisturbed hp
      (reachable_play hempty htyped)
  · rintro before after rfl earlier offset generation chunk hresolve hnot
    obtain ⟨hbefore, hafter⟩ := List.forall_mem_append.1 htyped
    have hearlier : Reachable policy earlier := reachable_play hempty hbefore
    obtain ⟨c, hc, version, payload, rfl, hcontent, rfl⟩ :=
      (hearlier.resolve?_eq_some_iff hp).1 hresolve
    obtain ⟨hkept, hsame⟩ := hearlier.keeps_play hp hafter hc hcontent hnot
    have hlast : run.2 = (play (execute policy) earlier after).2 := play_append _ _ _ _
    rw [hlast]
    refine ⟨((reachable_play hearlier hafter).resolve?_eq_some_iff hp).2 ?_, hsame⟩
    exact ⟨c, hkept, version, payload, rfl, hcontent, rfl⟩

/-- A payload that looks like a chunk with the header of a live one, 32 bytes after the start of the
segment, and a chunk whose header is left behind the cursor when it is released. -/
def imitating : List Command :=
  [.store (List.replicate 16 7 ++ [32, 0, 0, 0, 4, 0, 0, 0, 2, 0, 0, 0, 0, 0, 0, 0, 1, 2, 3, 4])
      .raw 1,
    .store [1, 2, 3] .json 2, .release 80 2]

/-- Neither header is taken for that of a chunk, and the first chunk stays as it was. -/
theorem undisturbed_imitating :
    let run := play (execute (.ofSettings .twoClasses)) (empty (.ofSettings .twoClasses)) imitating
    run.2.Undisturbed (imitating.zip run.1) ∧
      (run.2.generation 32 = 2 ∧ run.2.resolve? 32 2 = none) ∧
      (run.2.generation 80 = 2 ∧ run.2.resolve? 80 2 = none) ∧
      (play (execute (.ofSettings .twoClasses)) (empty (.ofSettings .twoClasses))
        (imitating.take 1)).2.SameOn run.2 0 80 := by
  have htyped : ∀ command ∈ imitating, command.IsTyped := by decide
  obtain ⟨hundisturbed, hkept⟩ := undisturbed_of_play Settings.accepted_twoClasses htyped
  refine ⟨hundisturbed, by decide +kernel, by decide +kernel, ?_⟩
  have hresolve : (play (execute (.ofSettings .twoClasses)) (empty (.ofSettings .twoClasses))
      (imitating.take 1)).2.resolve? 0 1 = some ⟨0, 80, 36, .raw⟩ := by decide +kernel
  exact (hkept _ (imitating.drop 1) rfl 0 1 _ hresolve (by simp [imitating])).2

end Segment

end ObjectPile
