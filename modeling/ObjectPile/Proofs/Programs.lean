/-
# Programs

A program makes piles, one at a time or as the members of a registry, and asks things of them, one
pile at a time or all piles of a registry in turn. Whatever it does comes down to single deeds: one
more pile is made, or one operation is carried out on one pile. How many deeds there are to an
instruction may depend on the answers, since a registry stops at the first failure.

* `Depot.perform_eq`, `Depot.pile?_set`, `Depot.pile?_add` : one pile is changed or made, and no
  other one.
* `Deed`, `Depot.does` : what befalls one pile.
* `Instruction`, `Depot.execute` : what programs do.
* `Depot.deeds`, `Depot.execute_eq` : every instruction comes down to its deeds.
-/
import ObjectPile.Registry
import ObjectPile.Proofs.Runs

namespace ObjectPile

/-! ## Piles of a depot -/

namespace Depot

variable {d : Depot} {n id : Nat} {p : Pile}

/-- The piles with another one in place of the pile of a number. -/
def set (d : Depot) (id : Nat) (p : Pile) : Depot := ⟨d.piles.setIfInBounds (id - 1) p⟩

theorem holds_iff_isSome : d.Holds n ↔ (d.pile? n).isSome = true := by
  unfold Holds pile?
  by_cases hn : n = 0
  · simp [hn]
  · rw [if_neg hn, isSome_getElem?]
    omega

/-- Changing the pile of a number changes no other one. -/
theorem pile?_set (hpile : d.pile? id = some p) (p' : Pile) (n : Nat) :
    (d.set id p').pile? n = if n = id then some p' else d.pile? n := by
  obtain ⟨hid, hlt⟩ := holds_iff_isSome.2 (Option.isSome_of_eq_some hpile)
  unfold pile? set
  by_cases hn : n = 0
  · rw [if_pos hn, if_pos hn, if_neg (by omega)]
  · rw [if_neg hn, if_neg hn, Array.getElem?_setIfInBounds]
    by_cases heq : n = id
    · rw [if_pos (by rw [heq]), if_pos hlt, if_pos heq]
    · rw [if_neg (by omega), if_neg heq]

/-- Making a pile changes no other one. -/
theorem pile?_add (d : Depot) (make : Nat → Pile) (n : Nat) :
    (d.add make).2.pile? n = if n = d.nextId then some (make d.nextId) else d.pile? n := by
  unfold add pile? nextId
  by_cases hn : n = 0
  · rw [if_pos hn, if_pos hn, if_neg (by omega)]
  · rw [if_neg hn, if_neg hn, Array.getElem?_push]
    by_cases heq : n = d.piles.size + 1
    · rw [if_pos (by omega), if_pos heq]
    · rw [if_neg (by omega), if_neg heq]

/-- A pile that is changed as soon as it is made might have been made as it is then. -/
theorem set_add (d : Depot) (p p' : Pile) :
    (d.add fun _ => p).2.set d.nextId p' = (d.add fun _ => p').2 := by
  have hpush : (d.piles.push p).setIfInBounds d.piles.size p' = d.piles.push p' := by
    simp [Array.setIfInBounds, Array.set_push]
  exact congrArg Depot.mk hpush

/-- **An operation on the pile of a number** answers what the pile answers and changes that pile. -/
theorem perform_eq {α : Type} (hpile : d.pile? id = some p) (h : d.Holds id)
    (operation : Pile → ObjectPile.Outcome α) : d.perform id h operation =
      ⟨(operation p).result, d.set id (operation p).pile, (operation p).events⟩ := by
  unfold pile? at hpile
  rw [if_neg (Nat.ne_of_gt h.1), Array.getElem?_eq_some_iff] at hpile
  obtain ⟨hlt, rfl⟩ := hpile
  unfold perform set
  simp [Array.swapAt, Array.setIfInBounds, hlt]

end Depot

/-! ## Deeds -/

/-- How a pile comes about. -/
inductive Birth where
  /-- With standard settings. -/
  | standard (name : Option String)
  /-- With the options of a builder. -/
  | built (b : Builder)

/-- The pile of a number that comes about so, unless its options are bad. -/
def Birth.pile? (id : Nat) : Birth → Option Pile
  | .standard name => some (.create id name)
  | .built b => (b.build id).toOption

/-- The least that a program does: to make a pile, or to ask one pile for an operation. -/
inductive Deed where
  | make (birth : Birth)
  | ask (id : Nat) (op : Operation)

namespace Depot

/-- The piles after a deed. -/
def does (d : Depot) : Deed → Depot
  | .make birth =>
    match birth.pile? d.nextId with
    | some p => (d.add fun _ => p).2
    | none => d
  | .ask id op =>
    match d.pile? id with
    | some p => d.set id (p.perform op).2
    | none => d

section Does

variable {d : Depot} {id : Nat} {p : Pile} {birth : Birth}

theorem does_make (h : birth.pile? d.nextId = some p) :
    d.does (.make birth) = (d.add fun _ => p).2 := by
  simp only [does, h]

theorem does_make_of_none (h : birth.pile? d.nextId = none) : d.does (.make birth) = d := by
  simp only [does, h]

theorem does_ask (h : d.pile? id = some p) (op : Operation) :
    d.does (.ask id op) = d.set id (p.perform op).2 := by
  simp only [does, h]

theorem does_ask_of_none (h : d.pile? id = none) (op : Operation) : d.does (.ask id op) = d := by
  simp only [does, h]

end Does

/-- The deeds of asking piles for an operation one after the other, up to the first that fails. -/
def deedsOfAll (op : Operation) (operation : Pile → ObjectPile.Outcome Unit) (d : Depot) :
    List Nat → List Deed
  | [] => []
  | id :: ids =>
    if h : d.Holds id then
      let one := d.perform id h operation
      match one.result with
      | .error _ => [.ask id op]
      | .ok () => .ask id op :: deedsOfAll op operation one.depot ids
    else deedsOfAll op operation d ids

/-- The deeds of making the piles of named sections, up to the first that fails. -/
def deedsOfNamed (d : Depot) : List ConfigSection → List Deed
  | [] => []
  | options :: rest =>
    match options.name with
    | none => deedsOfNamed d rest
    | some name =>
      let one := Registry.addWith d (some name) fun p => p.configure options
      .make (.standard (some name)) :: .ask d.nextId (.configure options) ::
        match one.result with
        | .error _ => []
        | .ok _ => deedsOfNamed one.depot rest

/-- The deeds of making a registry. -/
def deedsOfDocument (d : Depot) (document : ConfigDocument) : List Deed :=
  let one := Registry.addWith d none fun p => p.configureFrom document
  .make (.standard none) :: .ask d.nextId (.configureFrom document) ::
    match one.result with
    | .error _ => []
    | .ok _ => deedsOfNamed one.depot document.sections

variable {op : Operation} {operation : Pile → ObjectPile.Outcome Unit}

/-- Asking piles one after the other comes down to its deeds. -/
theorem performAll_eq (hop : ∀ p : Pile, (p.perform op).2 = (operation p).pile) (d : Depot)
    (ids : List Nat) : (Registry.performAll operation d ids).depot =
      (d.deedsOfAll op operation ids).foldl does d := by
  induction ids generalizing d with
  | nil => rfl
  | cons id ids ih =>
    unfold Registry.performAll deedsOfAll
    split
    · rename_i h
      obtain ⟨p, hpile⟩ := Option.isSome_iff_exists.1 (holds_iff_isSome.1 h)
      have hdoes := does_ask hpile op
      rw [hop] at hdoes
      simp only [perform_eq hpile h]
      cases (operation p).result with
      | error e => exact hdoes.symm
      | ok u => rw [List.foldl_cons, hdoes, ← ih]
    · exact ih d

/-- Making a pile with an operation carried out on it is two deeds. -/
theorem addWith_eq (op : Operation) (operation : Pile → ObjectPile.Outcome Unit)
    (hop : ∀ p : Pile, (p.perform op).2 = (operation p).pile) (d : Depot) (name : Option String) :
    (Registry.addWith d name operation).depot =
      (d.does (.make (.standard name))).does (.ask d.nextId op) := by
  have hpile : (d.add fun _ => Pile.create d.nextId name).2.pile? d.nextId =
      some (.create d.nextId name) := (d.pile?_add _ _).trans (if_pos rfl)
  rw [does_make rfl, does_ask hpile, set_add, hop]
  rfl

/-- Making the piles of named sections comes down to its deeds. -/
theorem addNamed_eq (d : Depot) (sections : List ConfigSection) :
    (Registry.addNamed d sections).depot = (d.deedsOfNamed sections).foldl does d := by
  induction sections generalizing d with
  | nil => rfl
  | cons options rest ih =>
    unfold Registry.addNamed deedsOfNamed
    cases options.name with
    | none => exact ih d
    | some name =>
      have hadd := addWith_eq (.configure options) _ (fun _ => rfl) d (some name)
      simp only [List.foldl_cons, ← hadd]
      cases (Registry.addWith d (some name) fun p => p.configure options).result with
      | error e => rfl
      | ok id => exact ih _

/-- Making a registry comes down to its deeds. -/
theorem ofDocument_eq (d : Depot) (document : ConfigDocument) :
    (Registry.ofDocument d document).depot = (d.deedsOfDocument document).foldl does d := by
  have hadd := addWith_eq (.configureFrom document) _ (fun _ => rfl) d none
  unfold Registry.ofDocument deedsOfDocument
  simp only [List.foldl_cons, ← hadd]
  cases (Registry.addWith d none fun p => p.configureFrom document).result with
  | error e => rfl
  | ok id =>
    simp only [← addNamed_eq]
    cases (Registry.addNamed _ document.sections).result <;> rfl

end Depot

/-! ## Instructions -/

/-- What a program does: it makes piles and registries of piles, asks single piles for operations,
and starts and stops the piles of registries. A registry that is dropped stops its piles. -/
inductive Instruction where
  | create (name : Option String)
  | build (b : Builder)
  | createRegistry
  | configureRegistry (document : ConfigDocument)
  | perform (id : Nat) (op : Operation)
  | startAll (r : Registry)
  | stopAll (r : Registry)

/-- The outcome of an operation with its answer for a result. -/
def Operation.outcome (op : Operation) (p : Pile) : Outcome Response :=
  ⟨.ok (p.perform op).1, (p.perform op).2, []⟩

namespace Depot

/-- The piles after an instruction. -/
def execute (d : Depot) : Instruction → Depot
  | .create name => (d.create name).2
  | .build b => (d.build b).2
  | .createRegistry => (Registry.create d).2
  | .configureRegistry document => (Registry.ofDocument d document).depot
  | .perform id op => if h : d.Holds id then (d.perform id h op.outcome).depot else d
  | .startAll r => (r.startAll d).depot
  | .stopAll r => (r.stopAll d).depot

/-- The deeds that an instruction comes down to. -/
def deeds (d : Depot) : Instruction → List Deed
  | .create name => [.make (.standard name)]
  | .build b => [.make (.built b)]
  | .createRegistry => [.make (.standard none)]
  | .configureRegistry document => d.deedsOfDocument document
  | .perform id op => [.ask id op]
  | .startAll r => d.deedsOfAll .start Pile.start r.all
  | .stopAll r => d.deedsOfAll .stop Pile.stop r.all

/-- **Every instruction comes down to its deeds.** -/
theorem execute_eq (d : Depot) (instruction : Instruction) :
    d.execute instruction = (d.deeds instruction).foldl does d := by
  cases instruction with
  | create name => rfl
  | build b =>
    show (d.build b).2 = d.does (.make (.built b))
    have hbirth : (Birth.built b).pile? d.nextId = (b.build d.nextId).toOption := rfl
    unfold Depot.build
    cases hbuild : b.build d.nextId with
    | error e =>
      rw [hbuild] at hbirth
      exact (does_make_of_none hbirth).symm
    | ok p =>
      rw [hbuild] at hbirth
      exact (does_make hbirth).symm
  | createRegistry => rfl
  | configureRegistry document => exact d.ofDocument_eq document
  | perform id op =>
    show (if h : d.Holds id then (d.perform id h op.outcome).depot else d) = d.does (.ask id op)
    split
    · rename_i h
      obtain ⟨p, hpile⟩ := Option.isSome_iff_exists.1 (holds_iff_isSome.1 h)
      rw [perform_eq hpile h, does_ask hpile]
      rfl
    · rename_i h
      rw [holds_iff_isSome, Option.not_isSome_iff_eq_none] at h
      exact (does_ask_of_none h op).symm
  | startAll r => exact performAll_eq (fun _ => rfl) d r.all
  | stopAll r => exact performAll_eq (fun _ => rfl) d r.all

end Depot

end ObjectPile
