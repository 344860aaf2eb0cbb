/-
# Loading what was stored as JSON

A value without doubles comes back from its JSON text, its members in ascending order of their keys;
so a value that is stored through the codec is loaded again at any time until its pointer is taken
back. But reading has a bound that writing does not have: of values that are nested deeper than
`Json.maxDepth` a text is made and kept, and it is never read again.

* `Json.depth` : how deep arrays and objects are nested.
* `Json.Spells` : a tree that spells a value, as a text and as the contents of a tree.
* `Json.IsPlain.exists_spells` : values without doubles have one.
* `Json.Returns`, `Json.returns_of_isPlain` : what becomes of values that are stored.
* `Json.nest_lost` : some do not come back.
-/
import ObjectPile.Proofs.Members
import ObjectPile.Proofs.Objects
import ObjectPile.Proofs.Tokens

namespace ObjectPile.Json

open Token (Reads)

/-! ## Nesting -/

mutual

/-- How deep arrays and objects are nested in a value. -/
def depth : Json → Nat
  | .array items => itemsDepth items + 1
  | .object members => membersDepth members + 1
  | .null => 0
  | .boolean _ => 0
  | .integer _ => 0
  | .double _ => 0
  | .string _ => 0

/-- The greatest depth of the items. -/
def itemsDepth : List Json → Nat
  | [] => 0
  | v :: vs => max (depth v) (itemsDepth vs)

/-- The greatest depth of the values of the members. -/
def membersDepth : List (String × Json) → Nat
  | [] => 0
  | (_, v) :: rest => max (depth v) (membersDepth rest)

end

/-! ## Trees that spell values -/

/-- **A tree spells a value**: its tokens are read from the text of the value, and the value is that
of the tree wherever there is room for it. -/
structure Spells (t : Tree) (v : Json) : Prop where
  reads : Reads v.chars t.tokens
  value?_eq : ∀ room, t.value? room = if v.depth ≤ room then some v else none

/-- A key with a tree spells a member. -/
def SpellsMember (m : List Piece × Tree) (member : String × Json) : Prop :=
  m.1 = Piece.ofText member.1 ∧ Spells m.2 member.2

/-- A tree without parts spells a value. -/
theorem Spells.leaf {t : Tree} {v : Json} (hreads : Reads v.chars t.tokens) (hdepth : v.depth = 0)
    (hvalue : ∀ room, t.value? room = some v) : Spells t v where
  reads := hreads
  value?_eq room := by
    rw [hvalue, hdepth, if_pos (Nat.zero_le room)]

section Items

variable {trees : List Tree} {items : List Json}

theorem reads_items (h : List.Forall₂ Spells trees items) :
    List.Forall₂ Reads (itemChars items) (Tree.itemTokens trees) := by
  induction h with
  | nil => exact .nil
  | cons hfirst _ ih => exact .cons hfirst.reads ih

theorem itemValues?_eq (h : List.Forall₂ Spells trees items) (room : Nat) :
    Tree.itemValues? room trees = if itemsDepth items ≤ room then some items else none := by
  induction h with
  | nil => exact (if_pos (Nat.zero_le room)).symm
  | cons hfirst _ ih =>
    rw [Tree.itemValues?, hfirst.value?_eq, ih, itemsDepth]
    simp only [Nat.max_le]
    split_ifs <;> first | rfl | omega

/-- Trees that spell the items make an array that spells the array. -/
theorem Spells.array (h : List.Forall₂ Spells trees items) :
    Spells (.array trees) (.array items) where
  reads := by
    have hitems := Token.reads_commaSeparated (reads_items h)
    exact .mark Token.isMark_beginArray (hitems.append_mark Token.isMark_endArray .nil)
  value?_eq room := by
    cases room with
    | zero => rfl
    | succ room =>
      rw [Tree.value?, itemValues?_eq h, depth]
      simp only [Nat.add_le_add_iff_right]
      split_ifs <;> rfl

end Items

section Members

variable {trees : List (List Piece × Tree)} {members : List (String × Json)}

theorem reads_members (h : List.Forall₂ SpellsMember trees members) :
    List.Forall₂ Reads (memberChars members) (Tree.memberTokens trees) := by
  induction h with
  | nil => exact .nil
  | cons hfirst _ ih =>
    obtain ⟨hkey, hvalue⟩ := hfirst
    refine .cons ?_ ih
    rw [hkey]
    exact (Token.reads_quoted _).append_mark Token.isMark_colon hvalue.reads

theorem memberValues?_eq (h : List.Forall₂ SpellsMember trees members) (room : Nat) :
    Tree.memberValues? room trees = if membersDepth members ≤ room then some members else none := by
  induction h with
  | nil => exact (if_pos (Nat.zero_le room)).symm
  | cons hfirst _ ih =>
    obtain ⟨hkey, hvalue⟩ := hfirst
    rw [Tree.memberValues?, hkey, Tree.text?_ofText, hvalue.value?_eq, ih, membersDepth]
    simp only [Nat.max_le]
    split_ifs <;> first | rfl | omega

/-- Keys with trees that spell the members make an object that spells the object. -/
theorem Spells.object (h : List.Forall₂ SpellsMember trees members) :
    Spells (.object trees) (.object members) where
  reads := by
    have hmembers := Token.reads_commaSeparated (reads_members h)
    exact .mark Token.isMark_beginObject (hmembers.append_mark Token.isMark_endObject .nil)
  value?_eq room := by
    cases room with
    | zero => rfl
    | succ room =>
      rw [Tree.value?, memberValues?_eq h, depth]
      simp only [Nat.add_le_add_iff_right]
      split_ifs <;> rfl

end Members

/-- Parts that there are for each one of a list make a list. -/
theorem exists_forall₂ {α β : Type} {R : α → β → Prop} {bs : List β}
    (h : ∀ b ∈ bs, ∃ a, R a b) : ∃ as, List.Forall₂ R as bs := by
  induction bs with
  | nil => exact ⟨[], .nil⟩
  | cons b bs ih =>
    rw [List.forall_mem_cons] at h
    obtain ⟨a, ha⟩ := h.1
    obtain ⟨as, has⟩ := ih h.2
    exact ⟨a :: as, .cons ha has⟩

/-- **Values without doubles are spelled by trees**, however deep they are nested. -/
theorem IsPlain.exists_spells {v : Json} (h : v.IsPlain) : ∃ t, Spells t v := by
  induction h with
  | null => exact ⟨.null, .leaf Token.reads_null rfl fun _ => rfl⟩
  | boolean b =>
    refine ⟨.boolean b, .leaf ?_ rfl fun _ => rfl⟩
    cases b with
    | true => exact Token.reads_true
    | false => exact Token.reads_false
  | @integer n hlow hhigh =>
    exact ⟨.number (.ofInt n), .leaf (Token.reads_intChars n) rfl
      fun _ => Numeral.value?_ofInt hlow hhigh⟩
  | string s =>
    refine ⟨.string (Piece.ofText s), .leaf (Token.reads_quoted s) rfl fun room => ?_⟩
    rw [Tree.value?, Tree.text?_ofText]
    rfl
  | array _ ih =>
    obtain ⟨trees, htrees⟩ := exists_forall₂ ih
    exact ⟨.array trees, .array htrees⟩
  | object _ _ ih =>
    obtain ⟨trees, htrees⟩ := exists_forall₂ (R := SpellsMember) fun m hm => by
      obtain ⟨t, ht⟩ := ih m hm
      exact ⟨(Piece.ofText m.1, t), rfl, ht⟩
    exact ⟨.object trees, .object htrees⟩

/-! ## Storing and loading -/

/-- The tree that spells a value is read from its bytes. -/
theorem Spells.parse?_bytes {t : Tree} {v : Json} (h : Spells t v) :
    Tree.parse? v.bytes = some t := by
  unfold Tree.parse? bytes
  rw [h.reads.lex?]
  exact Tree.ofTokens?_tokens t

/-- Any value is written. -/
theorem encode_eq (v : Json) : (Codec.json .value).encode v = .ok v.bytes := rfl

/-- **A text is read if the value is not nested too deep.** -/
theorem IsPlain.decode_bytes {v : Json} (h : v.IsPlain) :
    (Codec.json .value).decode v.bytes =
      if v.depth ≤ maxDepth then .ok v.sorted else .error .decode := by
  obtain ⟨t, ht⟩ := h.exists_spells
  have hread : Shape.value.read? v.bytes = if v.depth ≤ maxDepth then some v.sorted else none := by
    unfold Shape.read?
    rw [ht.parse?_bytes]
    show (t.value? maxDepth >>= fun w => some w.sorted) = _
    rw [ht.value?_eq]
    split_ifs <;> rfl
  unfold Codec.json
  simp only [hread]
  split_ifs <;> rfl

/-- Errands, among which a value is stored. -/
def storing (v : Json) (before after : List Errand) : List Errand :=
  before ++ .putObject (Codec.json .value) v :: after

/-- **A value is stored on a started pile** after some errands of a new one, and its pointer is not
taken back by those that follow. -/
structure StoredAmid (v : Json) (p : Pile) (before after : List Errand) (q : Pointer) : Prop where
  isNew : p.IsNew
  typed : ∀ errand ∈ v.storing before after, errand.IsTyped
  puts : ((Session.new p).run (operations (v.storing before after))).issued.length < maxWord
  started : (p.carryAll before).state = .started
  stored : ((p.carryAll before).putObject (Codec.json .value) v).result = .ok q
  spares : ∀ errand ∈ after, errand.Spares q

/-- What is loaded in the end is what is decoded of the text. -/
theorem StoredAmid.getObject_eq {v : Json} {p : Pile} {before after : List Errand} {q : Pointer}
    (h : v.StoredAmid p before after q) :
    (p.carryAll (v.storing before after)).getObject (Codec.json .value) q =
      ((Codec.json .value).decode v.bytes).mapError .codec >>= fun w => .ok (some w) := by
  have hstores : (Errand.putObject (Codec.json .value) v).Stores (p.carryAll before) q .json :=
    .putObject h.stored
  obtain ⟨payload, hop, hsound, hkept⟩ :=
    Session.lookup_of_stores h.isNew h.typed h.puts h.started hstores
  obtain ⟨hencode, -⟩ := Errand.operation?_putObject_eq_some_iff.1 hop
  obtain rfl := Except.ok.inj hencode
  rcases hkept with hkept | ⟨⟨errand, herrand, htaken⟩, -⟩
  · exact Pile.getObject_of_version_eq _ (hsound.getVersioned_eq_some_iff.2 hkept)
  · exact absurd (h.spares errand herrand) htaken

/-- **What becomes of a value that is stored as JSON.** -/
structure Returns (v : Json) : Prop where
  /-- Each value has a text. -/
  encode_eq : (Codec.json .value).encode v = .ok v.bytes
  /-- Nothing keeps it out of a pile where there is room for the text. -/
  putObject_eq : ∀ p : Pile, p.putObject (Codec.json .value) v = p.put v.bytes .json
  /-- The value comes back from the text with its members in order. -/
  decode_eq : v.depth ≤ maxDepth → (Codec.json .value).decode v.bytes = .ok v.sorted
  /-- Nothing else about it is changed. -/
  alike : v.Alike v.sorted
  isOrdered : v.sorted.IsOrdered
  /-- A value that is in order comes back just as it is. -/
  sorted_eq : v.IsOrdered → v.sorted = v
  /-- So it is loaded, whatever was done to the pile. -/
  loaded : v.depth ≤ maxDepth → ∀ {p : Pile} {before after : List Errand} {q : Pointer},
    v.StoredAmid p before after q →
      (p.carryAll (v.storing before after)).getObject (Codec.json .value) q = .ok (some v.sorted)
  /-- The text of a value that is nested too deep is never read. -/
  lost : maxDepth < v.depth → (Codec.json .value).decode v.bytes = .error .decode ∧
    ∀ {p : Pile} {before after : List Errand} {q : Pointer}, v.StoredAmid p before after q →
      (p.carryAll (v.storing before after)).getObject (Codec.json .value) q =
        .error (.codec .decode)

/-- **Values without doubles return**, if they are nested no deeper than is read. -/
theorem returns_of_isPlain {v : Json} (h : v.IsPlain) : v.Returns where
  encode_eq := v.encode_eq
  putObject_eq _ := rfl
  decode_eq hdepth := by
    rw [h.decode_bytes, if_pos hdepth]
  alike := h.alike_sorted
  isOrdered := isOrdered_sorted v
  sorted_eq := sorted_of_isOrdered
  loaded hdepth _ _ _ _ hstored := by
    rw [hstored.getObject_eq, h.decode_bytes, if_pos hdepth]
    rfl
  lost hdepth := by
    have hfails : (Codec.json .value).decode v.bytes = .error .decode := by
      rw [h.decode_bytes, if_neg (Nat.not_le.2 hdepth)]
    refine ⟨hfails, fun hstored => ?_⟩
    rw [hstored.getObject_eq, hfails]
    rfl

/-- A value with keys out of order, integers at both ends and characters that are escaped. -/
def parcel : Json :=
  .object [("to", .string "\x01\t\"é\\"), ("at", .array [.integer (-9223372036854775808),
    .integer 18446744073709551615, .object []])]

/-- Errands that start a pile. -/
def starting : List Errand := [.operation (.configure {}), .operation .start]

/-- Errands that store another value and take its pointer back. -/
def passing : List Errand :=
  [.putObject (Codec.json .string) (.string "next"), .operation (.delete ⟨1, 0, 144, 2⟩)]

/-- The value comes back with its keys in order. -/
theorem returns_of_parcel : parcel.IsPlain ∧ parcel.depth = 3 ∧
    parcel.StoredAmid (.create 1 none) starting passing ⟨1, 0, 0, 1⟩ ∧
    ((Pile.create 1 none).carryAll (parcel.storing starting passing)).getObject
        (Codec.json .value) ⟨1, 0, 0, 1⟩ =
      .ok (some (.object [("at", .array [.integer (-9223372036854775808),
        .integer 18446744073709551615, .object []]), ("to", .string "\x01\t\"é\\")])) := by
  have hplain : parcel.IsPlain := by
    refine .object (by decide) ?_
    simp only [List.forall_mem_cons]
    refine ⟨.string _, .array ?_, List.forall_mem_nil _⟩
    simp only [List.forall_mem_cons]
    exact ⟨.integer (by decide) (by decide), .integer (by decide) (by decide),
      .object .nil (List.forall_mem_nil _), List.forall_mem_nil _⟩
  have hstored : parcel.StoredAmid (.create 1 none) starting passing ⟨1, 0, 0, 1⟩ :=
    ⟨Pile.isNew_create 1 none, by decide, by decide +kernel, by decide +kernel,
      by decide +kernel, by decide⟩
  exact ⟨hplain, rfl, hstored, (returns_of_isPlain hplain).loaded (by decide) hstored⟩

/-- Arrays in one another around an empty one. -/
def nest : Nat → Json
  | 0 => .array []
  | n + 1 => .array [nest n]

theorem isPlain_nest (n : Nat) : (nest n).IsPlain := by
  induction n with
  | zero => exact .array nofun
  | succ n ih => exact .array (List.forall_mem_singleton.2 ih)

theorem isOrdered_nest (n : Nat) : (nest n).IsOrdered := by
  induction n with
  | zero => exact .array nofun
  | succ n ih => exact .array (List.forall_mem_singleton.2 ih)

theorem depth_nest (n : Nat) : (nest n).depth = n + 1 := by
  induction n with
  | zero => rfl
  | succ n ih => rw [nest, depth, itemsDepth, itemsDepth, ih, Nat.max_eq_left (Nat.zero_le _)]

/-- **Some values do not come back**: this one is written and stored, and what is kept of it is not
read. -/
theorem nest_lost : (nest 127).IsPlain ∧ (nest 127).IsOrdered ∧
    (Codec.json .value).encode (nest 127) = .ok (nest 127).bytes ∧
    (Codec.json .value).decode (nest 127).bytes = .error .decode ∧
    ((Pile.create 1 none).carryAll starting).state = .started ∧
    (((Pile.create 1 none).carryAll starting).putObject (Codec.json .value) (nest 127)).result =
      .ok ⟨1, 0, 0, 1⟩ ∧
    ((Pile.create 1 none).carryAll ((nest 127).storing starting [])).getObject
      (Codec.json .value) ⟨1, 0, 0, 1⟩ = .error (.codec .decode) := by
  have hstored : (nest 127).StoredAmid (.create 1 none) starting [] ⟨1, 0, 0, 1⟩ :=
    ⟨Pile.isNew_create 1 none, by decide, by decide +kernel, by decide +kernel,
      by decide +kernel, List.forall_mem_nil _⟩
  have hdeep : ¬(nest 127).depth ≤ maxDepth := by
    rw [depth_nest]
    decide
  have hfails : (Codec.json .value).decode (nest 127).bytes = .error .decode := by
    rw [(isPlain_nest 127).decode_bytes, if_neg hdeep]
  refine ⟨isPlain_nest 127, isOrdered_nest 127, encode_eq _, hfails, hstored.started,
    hstored.stored, ?_⟩
  rw [hstored.getObject_eq, hfails]
  rfl

end ObjectPile.Json
