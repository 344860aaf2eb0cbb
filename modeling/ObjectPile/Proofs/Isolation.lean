/-
# Piles do not interfere

The history of a program records how each of its piles came about and every answer that a pile gave,
in the order in which the piles were asked. What concerns one pile is a part of that record: the
operations that this pile was asked for, and its answers. Whatever else the program did in between,
with whatever pointers, the pile answered as it would have done alone, and it is now what it would be
alone. A pointer carries the number of the pile that gave it out, and every other pile refuses it,
though it may have given out one with the same segment, offset and generation.

* `Pile.pile_of_issued`, `Pile.denies_of_pile_ne` : a pile signs its pointers and refuses others.
* `History.step`, `History.run` : the record of a deed, and of a program.
* `History.Sound.step` : one deed keeps every pile as it would be alone.
* `History.isolated_of_run` : no program makes piles interfere.
-/
import ObjectPile.Proofs.Programs
import ObjectPile.Proofs.Stages

namespace ObjectPile

/-! ## Numbers in pointers -/

namespace Pile

variable {p : Pile} {q : Pointer}

/-- **A pile signs the pointers that it gives out.** -/
theorem pile_of_issued {op : Operation} (h : (p.perform op).1.issued? = some q) :
    q.pile = p.id ∧ q.isValid = true := by
  have hvalid : ∀ result : Except PileError Pointer,
      Response.issued? (.pointer result) = some q → result = .ok q ∧ q.isValid = true := by
    intro result hissued
    unfold Response.issued? at hissued
    split at hissued
    · rename_i r hresult
      obtain rfl := Response.pointer.inj hresult
      split at hissued
      · rename_i hr
        obtain rfl := Option.some.inj hissued
        exact ⟨rfl, hr⟩
      · exact absurd hissued.symm (Option.some_ne_none q)
    · exact absurd hissued.symm (Option.some_ne_none q)
  cases op with
  | put payload version =>
    obtain ⟨hput, hq⟩ := hvalid _ h
    refine ⟨?_, hq⟩
    unfold put at hput
    simp only at hput
    split at hput
    · obtain rfl := Except.ok.inj hput
      simp [Pointer.isValid, Pointer.invalid] at hq
    · split at hput
      · simp [Outcome.unchanged] at hput
      · split at hput
        · obtain rfl := Except.ok.inj hput
          rfl
        · split at hput
          · obtain rfl := Except.ok.inj hput
            rfl
          · simp at hput
  | _ => exact absurd h.symm (Option.some_ne_none q)

/-- A pile in its working life refuses every pointer of another pile, whatever else it says. -/
theorem denies_of_started (hstate : p.state = .started) (hpile : q.pile ≠ p.id) : p.Denies q := by
  refine denies_of_view ?_
  intro α f
  unfold view
  rw [if_neg (not_not.2 hstate), if_pos hpile]

/-- **A pile refuses the pointers that other piles give out**, at every stage of its life. -/
theorem denies_of_pile_ne (hpile : q.pile ≠ p.id) (hvalid : q.isValid = true) : p.Denies q := by
  by_cases hstate : p.state = .started
  · exact denies_of_started hstate hpile
  · exact denies_of_ne_started hstate (by simpa [Pointer.isValid] using hvalid)

end Pile

/-- A pile has the number that it was made for. -/
theorem Birth.id_eq {birth : Birth} {id : Nat} {p : Pile} (h : birth.pile? id = some p) :
    p.id = id := by
  cases birth with
  | standard name =>
    obtain rfl := Option.some.inj h
    rfl
  | built b =>
    have hbuild : (b.settings.map fun settings =>
        Pile.ofSettings id b.name settings .configured).toOption = some p := h
    cases hsettings : b.settings with
    | error e =>
      rw [hsettings] at hbuild
      exact absurd hbuild.symm (Option.some_ne_none p)
    | ok settings =>
      rw [hsettings] at hbuild
      obtain rfl := Option.some.inj hbuild
      rfl

/-! ## Histories -/

/-- An operation that a pile was asked for, and its answer. -/
structure Visit where
  pile : Nat
  operation : Operation
  response : Response

/-- The piles of a program, with the record of how they came about and of what they answered. -/
structure History where
  depot : Depot := {}
  /-- How each pile came about, in the order of their numbers. -/
  births : List Birth := []
  /-- What the piles answered, the first answer first. -/
  visits : List Visit := []

namespace History

/-- The history after a deed. -/
def step (h : History) (deed : Deed) : History :=
  match deed with
  | .make birth =>
    match birth.pile? h.depot.nextId with
    | some _ => ⟨h.depot.does deed, h.births ++ [birth], h.visits⟩
    | none => h
  | .ask id op =>
    match h.depot.pile? id with
    | some p => ⟨h.depot.does deed, h.births, h.visits ++ [⟨id, op, (p.perform op).1⟩]⟩
    | none => h

/-- The history after an instruction. -/
def execute (h : History) (instruction : Instruction) : History :=
  (h.depot.deeds instruction).foldl step h

/-- The history of a program. -/
def run (instructions : List Instruction) : History := instructions.foldl execute {}

/-- The visits of one pile. -/
def visitsOf (h : History) (n : Nat) : List Visit := h.visits.filter fun v => v.pile = n

/-- The operations that one pile was asked for. -/
def operationsOf (h : History) (n : Nat) : List Operation := (h.visitsOf n).map Visit.operation

/-- What one pile answered. -/
def responsesOf (h : History) (n : Nat) : List Response := (h.visitsOf n).map Visit.response

variable {h : History}

section Step

variable {birth : Birth} {id : Nat} {p : Pile}

theorem step_make (hbirth : birth.pile? h.depot.nextId = some p) : h.step (.make birth) =
    ⟨(h.depot.add fun _ => p).2, h.births ++ [birth], h.visits⟩ := by
  simp only [step, hbirth, Depot.does_make hbirth]

theorem step_make_of_none (hbirth : birth.pile? h.depot.nextId = none) :
    h.step (.make birth) = h := by
  simp only [step, hbirth]

theorem step_ask (hpile : h.depot.pile? id = some p) (op : Operation) : h.step (.ask id op) =
    ⟨h.depot.set id (p.perform op).2, h.births,
      h.visits ++ [⟨id, op, (p.perform op).1⟩]⟩ := by
  simp only [step, hpile, Depot.does_ask hpile]

theorem step_ask_of_none (hpile : h.depot.pile? id = none) (op : Operation) :
    h.step (.ask id op) = h := by
  simp only [step, hpile]

end Step

/-- The record of a deed is made on the side. -/
theorem depot_step (h : History) (deed : Deed) : (h.step deed).depot = h.depot.does deed := by
  cases deed with
  | make birth =>
    cases hbirth : birth.pile? h.depot.nextId with
    | some p => rw [step_make hbirth, Depot.does_make hbirth]
    | none => rw [step_make_of_none hbirth, Depot.does_make_of_none hbirth]
  | ask id op =>
    cases hpile : h.depot.pile? id with
    | some p => rw [step_ask hpile, Depot.does_ask hpile]
    | none => rw [step_ask_of_none hpile, Depot.does_ask_of_none hpile]

theorem depot_foldl_step (h : History) (deeds : List Deed) :
    (deeds.foldl step h).depot = deeds.foldl Depot.does h.depot := by
  induction deeds generalizing h with
  | nil => rfl
  | cons deed deeds ih => rw [List.foldl_cons, List.foldl_cons, ih, depot_step]

/-- The piles of a history are those of its program. -/
theorem depot_foldl_execute (h : History) (instructions : List Instruction) :
    (instructions.foldl execute h).depot = instructions.foldl Depot.execute h.depot := by
  induction instructions generalizing h with
  | nil => rfl
  | cons instruction instructions ih =>
    rw [List.foldl_cons, List.foldl_cons, ih, Depot.execute_eq, ← depot_foldl_step]
    rfl

/-! ## What one deed keeps -/

/-- The pile of a number, which came about in some way, is what it would be if it were the only one,
and so are its answers. -/
def AsAlone (h : History) (n : Nat) (birth : Birth) : Prop :=
  ∃ p : Pile, birth.pile? n = some p ∧ h.depot.pile? n = some (p.after (h.operationsOf n)) ∧
    h.responsesOf n = p.answers (h.operationsOf n)

/-- **What holds of every history**: each pile is what it would be alone, and every pointer that was
given out is signed. -/
structure Sound (h : History) : Prop where
  size_eq : h.depot.piles.size = h.births.length
  visited : ∀ v ∈ h.visits, h.depot.Holds v.pile
  alone : ∀ i birth, h.births[i]? = some birth → h.AsAlone (i + 1) birth
  signed : ∀ v ∈ h.visits, ∀ q, v.response.issued? = some q → q.pile = v.pile ∧ q.isValid = true

theorem sound_empty : Sound {} where
  size_eq := rfl
  visited v hv := absurd hv List.not_mem_nil
  alone i birth hbirth := by simp at hbirth
  signed v hv := absurd hv List.not_mem_nil

namespace Sound

theorem nextId_eq (hs : h.Sound) : h.depot.nextId = h.births.length + 1 :=
  congrArg (· + 1) hs.size_eq

/-- The piles that there are have the numbers from one on. -/
theorem holds_iff (hs : h.Sound) (n : Nat) :
    h.depot.Holds n ↔ 0 < n ∧ n ≤ h.births.length := by
  have hsize := hs.size_eq
  unfold Depot.Holds
  omega

/-- The pile of a number has that number. -/
theorem id_eq (hs : h.Sound) {n : Nat} {p : Pile} (hpile : h.depot.pile? n = some p) :
    p.id = n := by
  have hholds := Depot.holds_iff_isSome.2 (Option.isSome_of_eq_some hpile)
  obtain ⟨hpos, hle⟩ := (hs.holds_iff n).1 hholds
  obtain ⟨i, rfl⟩ := Nat.exists_eq_add_one.2 hpos
  obtain ⟨p₀, hbirth, halone, -⟩ := hs.alone i _ (List.getElem?_eq_getElem hle)
  obtain rfl := Option.some.inj (hpile.symm.trans halone)
  rw [(p₀.precedes_after _).id_eq, Birth.id_eq hbirth]

/-- Making a pile leaves the others as they are. -/
theorem make (hs : h.Sound) {birth : Birth} {p : Pile}
    (hbirth : birth.pile? h.depot.nextId = some p) :
    Sound ⟨(h.depot.add fun _ => p).2, h.births ++ [birth], h.visits⟩ := by
  have hid := hs.nextId_eq
  refine ⟨?_, ?_, ?_, hs.signed⟩
  · simp [Depot.add, hs.size_eq]
  · intro v hv
    have hholds := hs.visited v hv
    rw [Depot.holds_iff_isSome] at hholds ⊢
    rw [Depot.pile?_add]
    split
    · rfl
    · exact hholds
  · intro i birth' hi
    show ∃ p' : Pile, _ ∧ Depot.pile? _ (i + 1) = some (p'.after (h.operationsOf (i + 1))) ∧
      h.responsesOf (i + 1) = p'.answers (h.operationsOf (i + 1))
    rw [Depot.pile?_add, hid]
    rcases Nat.lt_trichotomy i h.births.length with hlt | heq | hgt
    · rw [List.getElem?_append_left hlt] at hi
      rw [if_neg (by omega)]
      exact hs.alone i birth' hi
    · -- nothing was asked of the new pile, as there was no pile of its number
      rw [heq, List.getElem?_concat_length] at hi
      obtain rfl := Option.some.inj hi
      have hnone : h.visitsOf (h.births.length + 1) = [] := by
        rw [visitsOf, List.filter_eq_nil_iff]
        intro v hv
        have hle := ((hs.holds_iff v.pile).1 (hs.visited v hv)).2
        simp only [decide_eq_true_eq]
        omega
      rw [heq, if_pos rfl]
      unfold operationsOf responsesOf
      rw [hnone]
      exact ⟨p, hid ▸ hbirth, rfl, rfl⟩
    · rw [List.getElem?_eq_none (by simp; omega)] at hi
      exact absurd hi.symm (Option.some_ne_none _)

/-- Asking a pile leaves the others as they are. -/
theorem ask (hs : h.Sound) {id : Nat} {p : Pile} (hpile : h.depot.pile? id = some p)
    (op : Operation) : Sound ⟨h.depot.set id (p.perform op).2, h.births,
      h.visits ++ [⟨id, op, (p.perform op).1⟩]⟩ := by
  refine ⟨?_, ?_, ?_, ?_⟩
  · simp [Depot.set, hs.size_eq]
  · intro v hv
    rw [Depot.holds_iff_isSome, Depot.pile?_set hpile]
    split
    · rfl
    · rename_i hne
      rcases List.mem_append.1 hv with hv | hv
      · exact Depot.holds_iff_isSome.1 (hs.visited v hv)
      · exact absurd (congrArg Visit.pile (List.mem_singleton.1 hv)) hne
  · intro i birth hi
    obtain ⟨p₀, hbirth, halone, hanswers⟩ := hs.alone i birth hi
    refine ⟨p₀, hbirth, ?_⟩
    rw [Depot.pile?_set hpile]
    unfold operationsOf responsesOf visitsOf at *
    simp only [List.filter_append, List.map_append]
    split
    · -- one operation more on that pile, and its answer
      rename_i hhere
      rw [hhere] at halone hanswers ⊢
      obtain rfl := Option.some.inj (hpile.symm.trans halone)
      rw [List.filter_cons_of_pos (by simp), List.filter_nil, Pile.after_append,
        Pile.answers_append, hanswers]
      exact ⟨rfl, rfl⟩
    · rename_i hne
      rw [List.filter_cons_of_neg (by simpa using Ne.symm hne), List.filter_nil, List.map_nil,
        List.map_nil, List.append_nil, List.append_nil]
      exact ⟨halone, hanswers⟩
  · intro v hv q hq
    rcases List.mem_append.1 hv with hv | hv
    · exact hs.signed v hv q hq
    · obtain rfl := List.mem_singleton.1 hv
      obtain ⟨hsigned, hvalid⟩ := Pile.pile_of_issued hq
      exact ⟨hsigned.trans (hs.id_eq hpile), hvalid⟩

/-- **One deed keeps every pile as it would be alone.** -/
theorem step (hs : h.Sound) (deed : Deed) : (h.step deed).Sound := by
  cases deed with
  | make birth =>
    cases hbirth : birth.pile? h.depot.nextId with
    | some p =>
      rw [step_make hbirth]
      exact hs.make hbirth
    | none => rwa [step_make_of_none hbirth]
  | ask id op =>
    cases hpile : h.depot.pile? id with
    | some p =>
      rw [step_ask hpile]
      exact hs.ask hpile op
    | none => rwa [step_ask_of_none hpile]

/-- One instruction does as well, as it comes down to deeds. -/
theorem execute (hs : h.Sound) (instruction : Instruction) : (h.execute instruction).Sound :=
  List.foldlRecOn _ History.step hs fun _ ht deed _ => ht.step deed

end Sound

/-- **The history of every program is sound.** -/
theorem sound_run (instructions : List Instruction) : (run instructions).Sound :=
  List.foldlRecOn _ execute sound_empty fun _ ht instruction _ => ht.execute instruction

/-! ## Isolation -/

/-- **The piles of a program do not interfere.** -/
structure Isolated (h : History) : Prop where
  /-- The piles are numbered from one on, in the order in which they came about. So the numbers are
  words as long as there are no more piles than words. -/
  holds_iff : ∀ n, h.depot.Holds n ↔ 0 < n ∧ n ≤ h.births.length
  /-- A pile answers what it would answer if it were the only one, and becomes what it would. -/
  alone : ∀ i birth, h.births[i]? = some birth → h.AsAlone (i + 1) birth
  /-- A pointer that one pile gave out is refused by all others, at whatever stage they are. -/
  foreign : ∀ v ∈ h.visits, ∀ q, v.response.issued? = some q →
    ∀ n p, h.depot.pile? n = some p → n ≠ v.pile → p.Denies q
  /-- A pile in its working life refuses every pointer with the number of another pile. -/
  strange : ∀ n p, h.depot.pile? n = some p → p.state = .started →
    ∀ q, q.pile ≠ n → p.Denies q

/-- **No program makes its piles interfere.** -/
theorem isolated_of_run (instructions : List Instruction) :
    (run instructions).depot = instructions.foldl Depot.execute {} ∧ (run instructions).Isolated := by
  have hs := sound_run instructions
  refine ⟨depot_foldl_execute {} instructions, hs.holds_iff, hs.alone, ?_, ?_⟩
  · intro v hv q hq n p hpile hne
    obtain ⟨hsigned, hvalid⟩ := hs.signed v hv q hq
    refine Pile.denies_of_pile_ne ?_ hvalid
    rw [hsigned, hs.id_eq hpile]
    exact hne.symm
  · intro n p hpile hstate q hq
    refine Pile.denies_of_started hstate ?_
    rwa [hs.id_eq hpile]

/-- Two piles of a registry and a third one, which is asked for the object of the second: the pointers
that are given out differ in nothing but the number of the pile. -/
example :
    let h := run [.configureRegistry ⟨[{ name := some "first" }]⟩, .create none,
      .startAll ⟨1, [("first", 2)]⟩, .perform 3 .start, .perform 2 (.put [1] .raw),
      .perform 3 (.put [2] .raw), .perform 3 (.get ⟨2, 0, 0, 1⟩), .stopAll ⟨1, [("first", 2)]⟩]
    (h.visits.map Visit.pile, h.visits.filterMap fun v => v.response.issued?) =
      ([1, 2, 1, 2, 3, 2, 3, 3, 1, 2], [⟨2, 0, 0, 1⟩, ⟨3, 0, 0, 1⟩]) := by
  decide +kernel

end History

end ObjectPile
