/-
# Size classes

A table of size classes decides how large a chunk a payload gets and on which list of free chunks a
freed chunk is kept. Each class has a capacity, a multiple of the alignment; the capacities ascend.
List `i` belongs to class `i` and one more list to chunks larger than every class.

* `ClassTable.ofSizes` makes the table of a list of sizes.
* `ClassTable.classify` answers for a payload, `ClassTable.listForChunk` for a free chunk.
-/
import ObjectPile.Size

namespace ObjectPile

/-- Where a payload is to be stored. -/
structure ChunkRequest where
  /-- The list of free chunks on which to look first. -/
  list : Nat
  /-- The size of the chunk, its header included. -/
  chunkSize : Nat
  /-- The length of the payload. -/
  length : Nat
  deriving DecidableEq, Repr, Inhabited

/-- The capacities of the size classes, in ascending order. -/
structure ClassTable where
  capacities : List Nat
  deriving DecidableEq, Repr, Inhabited

namespace ClassTable

/-- The number of items before the first one that fails a test. -/
def leading (p : Nat → Bool) (ns : List Nat) : Nat := (ns.takeWhile p).length

/-- Drops every item that equals the one before it. -/
def dropRepeats : List Nat → List Nat
  | [] => []
  | [n] => [n]
  | m :: n :: ns => if m = n then dropRepeats (n :: ns) else m :: dropRepeats (n :: ns)

/-- The capacity of the class for payloads of a size. -/
def capacityOf (size : Nat) : Nat := max (roundUp size) minCapacity

/-- The table with a class for each of the ascending sizes; sizes with one capacity share it. -/
def ofSizes (sizes : List Nat) : ClassTable := ⟨dropRepeats (sizes.map capacityOf)⟩

/-- The list of chunks larger than every class. -/
def oversized (t : ClassTable) : Nat := t.capacities.length

/-- The number of lists of free chunks. -/
def listCount (t : ClassTable) : Nat := t.capacities.length + 1

/-- The size of the smallest chunk there is. -/
def smallestChunk (t : ClassTable) : Nat :=
  satAdd (t.capacities.headD minCapacity) headerSize

/-- The chunk for a payload: that of the first class with room for it, or else one of its own
size. -/
def classify (t : ClassTable) (length : Nat) : ChunkRequest :=
  let i := leading (fun capacity => capacity < length) t.capacities
  match t.capacities[i]? with
  | some capacity => ⟨i, satAdd capacity headerSize, length⟩
  | none => ⟨t.oversized, satAdd (capacityOf length) headerSize, length⟩

/-- The list for a free chunk: that of the last class it has room for. The list of the last class
holds its chunks alone, all larger ones go on the list of oversized chunks. -/
def listForChunk (t : ClassTable) (chunkSize : Nat) : Nat :=
  let capacity := chunkSize - headerSize
  let fitting := leading (fun c => c ≤ capacity) t.capacities
  if fitting = t.capacities.length ∧ (t.capacities.getLast?.any fun c => c < capacity) then
    t.oversized
  else fitting - 1

/-! ## First facts -/

@[simp] theorem length_classify (t : ClassTable) (n : Nat) : (t.classify n).length = n := by
  simp only [classify]
  split <;> rfl

theorem leading_le (p : Nat → Bool) (ns : List Nat) : leading p ns ≤ ns.length :=
  (List.takeWhile_prefix p).length_le

/-- A payload is always sent to a list of the table. -/
theorem list_classify_lt (t : ClassTable) (n : Nat) : (t.classify n).list < t.listCount := by
  simp only [classify, listCount]
  split
  · rename_i h
    exact Nat.lt_succ_of_lt (List.getElem?_eq_some_iff.1 h).1
  · exact Nat.lt_succ_self _

/-- A free chunk is always sent to a list of the table. -/
theorem listForChunk_lt (t : ClassTable) (n : Nat) : t.listForChunk n < t.listCount := by
  have := leading_le (fun c => c ≤ n - headerSize) t.capacities
  unfold listForChunk listCount
  simp only [oversized]
  split <;> omega

end ClassTable

end ObjectPile
