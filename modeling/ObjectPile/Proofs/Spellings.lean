/-
# Spellings of chunk sizes

Chunk sizes can be given as a list of integers or as a text with commas, and a text is what they are
shown as. The grammar of the texts is given here apart from the way they are read: between the
commas stand numbers with blanks around them, or blanks alone, which count for nothing. Reading a
text gives the numbers that it lists, in their order; what is written is such a text again; and a
list and a text of the same numbers are accepted or refused together.

* `Decimal.Spells` : the characters of an integer.
* `ChunkSizes.Lists` : the texts that list some integers.
* `ChunkSizes.lists_iff` : the parts of a text are the numbers that it lists.
* `ChunkSizes.ofText_eq_ok_iff` : which texts are accepted, and the sizes that come of them.
* `ChunkSizes.lists_listing` : integers with commas and spaces between them are such a text.
* `ChunkSizes.spellings_agree` : reading, writing, and the two spellings in a section.
-/
import ObjectPile.Proofs.Layers

namespace ObjectPile

/-! ## Numbers -/

namespace Decimal

/-- **A row of characters spells an integer**: its decimal digits, possibly behind zeros, with a
plus sign or without; the digits of a number below zero stand behind a minus sign. -/
inductive Spells : List Char → Int → Prop
  | unsigned {ds : List Nat} : ds ≠ [] → (∀ d ∈ ds, d < 10) →
      Spells (ds.map digitChar) (ofDigits ds)
  | plus {ds : List Nat} : ds ≠ [] → (∀ d ∈ ds, d < 10) →
      Spells ('+' :: ds.map digitChar) (ofDigits ds)
  | minus {ds : List Nat} : (∀ d ∈ ds, d < 10) → 0 < ofDigits ds →
      Spells ('-' :: ds.map digitChar) (-(ofDigits ds : Int))

/-- An integer is spelled as it is written. -/
theorem spells_intChars (n : Int) : Spells (intChars n) n := by
  cases n with
  | ofNat n =>
    have h := Spells.unsigned (digits_ne_nil n) fun d hd => digits_lt hd
    rwa [ofDigits_digits] at h
  | negSucc n =>
    have hpos : 0 < ofDigits (digits (n + 1)) := by
      rw [ofDigits_digits]
      exact Nat.succ_pos n
    have h := Spells.minus (fun d hd => digits_lt hd) hpos
    rwa [ofDigits_digits] at h

/-- The characters of digits are neither blank nor any sign of a list. -/
theorem digitChar_ne {d : Nat} (h : d < 10) : Text.isBlank (digitChar d) = false ∧
    digitChar d ≠ ',' ∧ digitChar d ≠ '+' := by
  have : d = 0 ∨ d = 1 ∨ d = 2 ∨ d = 3 ∨ d = 4 ∨ d = 5 ∨ d = 6 ∨ d = 7 ∨ d = 8 ∨ d = 9 := by
    omega
  rcases this with h | h | h | h | h | h | h | h | h | h <;> subst h <;> decide

/-- A character that is read as a digit is that of the digit. -/
theorem eq_digitChar {c : Char} {d : Nat} (h : digitOfChar? c = some d) :
    d < 10 ∧ c = digitChar d := by
  unfold digitOfChar? at h
  split at h
  · rename_i hc
    have hlow : 48 ≤ c.toNat := hc.1
    have hhigh : c.toNat ≤ 57 := hc.2
    obtain rfl := Option.some.inj h
    refine ⟨by omega, ?_⟩
    unfold digitChar
    rw [Nat.add_sub_cancel' hlow, Char.ofNat_toNat]
  · simp at h

namespace Spells

variable {cs : List Char} {n : Int}

theorem ne_nil (h : Spells cs n) : cs ≠ [] := by
  cases h with
  | unsigned hne _ => simpa using hne
  | plus _ _ => exact List.cons_ne_nil _ _
  | minus _ _ => exact List.cons_ne_nil _ _

/-- There are no blanks and no commas in a number. -/
theorem no_blank (h : Spells cs n) : ∀ c ∈ cs, Text.isBlank c = false ∧ c ≠ ',' := by
  have hdigits : ∀ ds : List Nat, (∀ d ∈ ds, d < 10) →
      ∀ c ∈ ds.map digitChar, Text.isBlank c = false ∧ c ≠ ',' := by
    intro ds hds c hc
    obtain ⟨d, hd, rfl⟩ := List.mem_map.1 hc
    exact ⟨(digitChar_ne (hds d hd)).1, (digitChar_ne (hds d hd)).2.1⟩
  cases h with
  | unsigned _ hds => exact hdigits _ hds
  | plus _ hds => exact List.forall_mem_cons.2 ⟨by decide, hdigits _ hds⟩
  | minus hds _ => exact List.forall_mem_cons.2 ⟨by decide, hdigits _ hds⟩

end Spells

end Decimal

/-! ## Blanks and commas -/

namespace Text

/-- Without blanks around it a text is what was between them. -/
theorem trim_of_blanks {before cs after : List Char} (hbefore : ∀ c ∈ before, isBlank c = true)
    (hafter : ∀ c ∈ after, isBlank c = true) (hcs : ∀ c ∈ cs, isBlank c = false) :
    trim (before ++ cs ++ after) = cs := by
  have hafter' : ∀ c ∈ after.reverse, isBlank c = true := by
    intro c hc
    exact hafter c (List.mem_reverse.1 hc)
  unfold trim
  rw [List.append_assoc, List.dropWhile_append_of_pos hbefore]
  cases cs with
  | nil => rw [List.nil_append, List.dropWhile_eq_nil_iff.2 hafter]; rfl
  | cons c cs =>
    have hfirst : isBlank c ≠ true := by simp [hcs c List.mem_cons_self]
    have hlast : (c :: cs).reverse.dropWhile isBlank = (c :: cs).reverse := by
      rw [List.dropWhile_eq_self_iff]
      intro hlen
      have hmem : (c :: cs).reverse[0] ∈ c :: cs := List.mem_reverse.1 (List.getElem_mem hlen)
      rw [hcs _ hmem]
      exact Bool.false_ne_true
    rw [List.cons_append, List.dropWhile_cons_of_neg hfirst, ← List.cons_append,
      List.reverse_append, List.dropWhile_append_of_pos hafter', hlast, List.reverse_reverse]

/-- A text is what is left of it without the blanks around it, and the blanks. -/
theorem exists_trim (cs : List Char) : ∃ before after : List Char,
    (∀ c ∈ before, isBlank c = true) ∧ (∀ c ∈ after, isBlank c = true) ∧
      cs = before ++ trim cs ++ after := by
  refine ⟨cs.takeWhile isBlank, (((cs.dropWhile isBlank).reverse).takeWhile isBlank).reverse,
    ?_, ?_, ?_⟩
  · intro c hc
    exact List.mem_takeWhile_imp hc
  · intro c hc
    exact List.mem_takeWhile_imp (List.mem_reverse.1 hc)
  · unfold trim
    rw [List.append_assoc, ← List.reverse_append, List.takeWhile_append_dropWhile,
      List.reverse_reverse, List.takeWhile_append_dropWhile]

/-- The parts of a text with the separators between them are the text. -/
theorem intercalate_splitOn (sep : Char) (cs : List Char) :
    [sep].intercalate (splitOn sep cs) = cs := by
  induction cs with
  | nil => rfl
  | cons c cs ih =>
    rw [splitOn]
    split
    · rename_i hc
      obtain ⟨part, parts, hparts⟩ := List.exists_cons_of_ne_nil (splitOn_ne_nil sep cs)
      rw [hparts] at ih ⊢
      rw [List.intercalate_cons_cons, ih, hc]
      rfl
    · split
      · rename_i hnil
        exact absurd hnil (splitOn_ne_nil sep cs)
      · rename_i part parts hparts
        rw [hparts] at ih
        rw [← ih]
        cases parts with
        | nil => simp only [List.intercalate_singleton]
        | cons part' parts => simp only [List.intercalate_cons_cons, List.cons_append]

end Text

namespace ChunkSizes

open Decimal (Spells digitChar ofDigits)

/-! ## Reading numbers -/

theorem le_foldl_digits (ds : List Nat) (n : Nat) :
    n ≤ ds.foldl (fun n d => 10 * n + d) n := by
  induction ds generalizing n with
  | nil => exact Nat.le_refl n
  | cons d ds ih => exact Nat.le_trans (by omega) (ih (10 * n + d))

/-- Digits are read as the number they stand for, unless that is too large. -/
theorem readDigits_map {ds : List Nat} (hds : ∀ d ∈ ds, d < 10) {n : Nat} (hn : n ≤ maxWord) :
    readDigits n (ds.map digitChar) =
      if ds.foldl (fun n d => 10 * n + d) n ≤ maxWord then
        .ok (ds.foldl (fun n d => 10 * n + d) n)
      else .error .tooLarge := by
  induction ds generalizing n with
  | nil => exact (if_pos hn).symm
  | cons d ds ih =>
    rw [List.map_cons, readDigits, Decimal.digitOfChar?_digitChar (hds d List.mem_cons_self),
      List.foldl_cons]
    by_cases hword : 10 * n + d ≤ maxWord
    · simp only [if_pos hword]
      exact ih (fun e he => hds e (List.mem_cons_of_mem _ he)) hword
    · -- further digits only make the number larger
      have hle := le_foldl_digits ds (10 * n + d)
      simp only [if_neg hword]
      rw [if_neg (by omega)]

/-- Whatever is read as a number consists of digits. -/
theorem exists_digits_of_readDigits {cs : List Char} {n m : Nat} (h : readDigits n cs = .ok m) :
    ∃ ds : List Nat, (∀ d ∈ ds, d < 10) ∧ cs = ds.map digitChar ∧
      ds.foldl (fun n d => 10 * n + d) n = m := by
  induction cs generalizing n with
  | nil => exact ⟨[], by simp, rfl, Except.ok.inj h⟩
  | cons c cs ih =>
    rw [readDigits] at h
    cases hc : Decimal.digitOfChar? c with
    | none => simp [hc] at h
    | some d =>
      obtain ⟨hd, rfl⟩ := Decimal.eq_digitChar hc
      simp only [hc] at h
      split at h
      · obtain ⟨ds, hds, rfl, hvalue⟩ := ih h
        refine ⟨d :: ds, ?_, rfl, hvalue⟩
        intro e he
        rcases List.mem_cons.1 he with rfl | he
        · exact hd
        · exact hds e he
      · simp at h

/-- Without a plus sign in front the digits are read at once. -/
theorem readSize_of_ne {c : Char} (h : c ≠ '+') (cs : List Char) :
    readSize (c :: cs) = readDigits 0 (c :: cs) := by
  unfold readSize
  split
  · rename_i heq
    exact absurd (List.cons.inj heq).1 h
  · rfl

/-- **A number is read if it is a word**: one below zero has a sign that is no digit, and a larger
one is too large. -/
theorem readSize_of_spells {cs : List Char} {n : Int} (h : Spells cs n) : readSize cs =
    if n < 0 then .error .invalidDigit
    else if n ≤ maxWord then .ok n.toNat
    else .error .tooLarge := by
  -- the two spellings without a minus sign come to the same digits
  have hdigits : ∀ ds : List Nat, (∀ d ∈ ds, d < 10) → readDigits 0 (ds.map digitChar) =
      if (ofDigits ds : Int) < 0 then .error .invalidDigit
      else if (ofDigits ds : Int) ≤ maxWord then .ok (ofDigits ds : Int).toNat
      else .error .tooLarge := by
    intro ds hds
    rw [if_neg (show ¬(ofDigits ds : Int) < 0 by omega), Int.toNat_natCast,
      readDigits_map hds (Nat.zero_le _)]
    simp only [Int.ofNat_le]
    rfl
  cases h with
  | unsigned hne hds =>
    rename_i ds
    rw [← hdigits ds hds]
    cases ds with
    | nil => exact absurd rfl hne
    | cons d ds => exact readSize_of_ne (Decimal.digitChar_ne (hds d List.mem_cons_self)).2.2 _
  | plus hne hds =>
    rename_i ds
    rw [← hdigits ds hds]
    cases ds with
    | nil => exact absurd rfl hne
    | cons d ds => rfl
  | minus hds hpos =>
    rw [if_pos (by omega)]
    exact readSize_of_ne (by decide) _

/-- A size is read as the number that it spells. -/
theorem readSize_eq_ok_iff {cs : List Char} {n : Int} (h : Spells cs n) {m : Nat} :
    readSize cs = .ok m ↔ n = m ∧ m ≤ maxWord := by
  rw [readSize_of_spells h]
  split
  · simp only [reduceCtorEq, false_iff]
    omega
  · split
    · rw [Except.ok.injEq]
      omega
    · simp only [reduceCtorEq, false_iff]
      omega

/-- Whatever is read as a size spells it. -/
theorem spells_of_readSize {cs : List Char} {n : Nat} (hne : cs ≠ [])
    (h : readSize cs = .ok n) : Spells cs n := by
  unfold readSize at h
  split at h
  · rename_i c cs
    obtain ⟨ds, hds, hcs, rfl⟩ := exists_digits_of_readDigits h
    rw [hcs]
    refine .plus ?_ hds
    rintro rfl
    simp at hcs
  · obtain ⟨ds, hds, rfl, rfl⟩ := exists_digits_of_readDigits h
    exact .unsigned (by simpa using hne) hds

/-- The errors apart, a part of a list is read as a size. -/
theorem readPart_eq_ok_iff_readSize {part : List Char} {n : Nat} :
    readPart part = .ok n ↔ readSize part = .ok n := by
  unfold readPart
  cases readSize part <;> simp [Except.mapError]

/-- A part of a list is accepted if it spells a word. -/
theorem readPart_eq_ok_iff {part : List Char} (hne : part ≠ []) {n : Nat} :
    readPart part = .ok n ↔ Spells part n ∧ n ≤ maxWord := by
  rw [readPart_eq_ok_iff_readSize]
  constructor
  · intro h
    have hspells := spells_of_readSize hne h
    exact ⟨hspells, ((readSize_eq_ok_iff hspells).1 h).2⟩
  · rintro ⟨hspells, hword⟩
    exact (readSize_eq_ok_iff hspells).2 ⟨rfl, hword⟩

/-- A part that is accepted spells no other integer. -/
theorem eq_of_readPart {part : List Char} {n : Int} {m : Nat} (hspells : Spells part n)
    (h : readPart part = .ok m) : n = m :=
  ((readSize_eq_ok_iff hspells).1 (readPart_eq_ok_iff_readSize.1 h)).1

/-! ## Lists of numbers -/

/-- **What stands between two commas**: blanks alone, or a number with blanks around it. -/
inductive Piece : List Char → Option Int → Prop
  | blank {cs : List Char} : (∀ c ∈ cs, Text.isBlank c = true) → Piece cs none
  | number {before cs after : List Char} {n : Int} : (∀ c ∈ before, Text.isBlank c = true) →
      (∀ c ∈ after, Text.isBlank c = true) → Spells cs n → Piece (before ++ cs ++ after) (some n)

/-- **A text lists some integers**, in their order, with commas between them. -/
inductive Lists : List Char → List Int → Prop
  | last {cs : List Char} {n? : Option Int} : Piece cs n? → Lists cs n?.toList
  | more {cs t : List Char} {n? : Option Int} {ns : List Int} : Piece cs n? → Lists t ns →
      Lists (cs ++ ',' :: t) (n?.toList ++ ns)

theorem ne_comma_of_isBlank {c : Char} (h : Text.isBlank c = true) : c ≠ ',' := by
  rintro rfl
  exact absurd h (by decide)

/-- There are no commas between two commas. -/
theorem Piece.not_mem {cs : List Char} {n? : Option Int} (h : Piece cs n?) : ',' ∉ cs := by
  intro hmem
  cases h with
  | blank hcs => exact ne_comma_of_isBlank (hcs _ hmem) rfl
  | number hbefore hafter hspells =>
    rcases List.mem_append.1 hmem with hmem | hmem
    · rcases List.mem_append.1 hmem with hmem | hmem
      · exact ne_comma_of_isBlank (hbefore _ hmem) rfl
      · exact (hspells.no_blank _ hmem).2 rfl
    · exact ne_comma_of_isBlank (hafter _ hmem) rfl

/-- Without the blanks, nothing is left or the number is. -/
theorem piece_iff {cs : List Char} {n? : Option Int} : Piece cs n? ↔
    (Text.trim cs = [] ∧ n? = none) ∨ ∃ n, Spells (Text.trim cs) n ∧ n? = some n := by
  constructor
  · intro h
    cases h with
    | blank hcs =>
      have htrim : Text.trim (cs ++ [] ++ []) = [] :=
        Text.trim_of_blanks hcs (by simp) (by simp)
      rw [List.append_nil, List.append_nil] at htrim
      exact .inl ⟨htrim, rfl⟩
    | number hbefore hafter hspells =>
      refine .inr ⟨_, ?_, rfl⟩
      rwa [Text.trim_of_blanks hbefore hafter fun c hc => (hspells.no_blank c hc).1]
  · obtain ⟨before, after, hbefore, hafter, hcs⟩ := Text.exists_trim cs
    rintro (⟨hnil, rfl⟩ | ⟨n, hspells, rfl⟩)
    · rw [hnil, List.append_nil] at hcs
      refine .blank ?_
      intro c hc
      rw [hcs] at hc
      exact (List.mem_append.1 hc).elim (hbefore c) (hafter c)
    · have hpiece := Piece.number hbefore hafter hspells
      rwa [← hcs] at hpiece

/-- The pieces without the blanks around them and without those that are blank. -/
def filled (pieces : List (List Char)) : List (List Char) :=
  (pieces.map Text.trim).filter fun part => !part.isEmpty

/-- One more piece gives one more number or none. -/
theorem forall₂_filled_cons_iff {cs : List Char} {pieces : List (List Char)} {ns : List Int} :
    List.Forall₂ Spells (filled (cs :: pieces)) ns ↔
      ∃ n? rest, Piece cs n? ∧ List.Forall₂ Spells (filled pieces) rest ∧
        ns = n?.toList ++ rest := by
  simp only [piece_iff]
  cases htrim : Text.trim cs with
  | nil =>
    have hfilled : filled (cs :: pieces) = filled pieces := by simp [filled, htrim]
    rw [hfilled]
    constructor
    · intro h
      exact ⟨none, ns, .inl ⟨rfl, rfl⟩, h, rfl⟩
    · rintro ⟨n?, rest, ⟨-, rfl⟩ | ⟨n, hspells, -⟩, hrest, rfl⟩
      · exact hrest
      · exact absurd rfl hspells.ne_nil
  | cons c part =>
    have hfilled : filled (cs :: pieces) = (c :: part) :: filled pieces := by
      simp [filled, htrim]
    rw [hfilled, List.forall₂_cons_left_iff]
    constructor
    · rintro ⟨n, rest, hspells, hrest, rfl⟩
      exact ⟨some n, rest, .inr ⟨n, hspells, rfl⟩, hrest, rfl⟩
    · rintro ⟨n?, rest, ⟨hnil, -⟩ | ⟨n, hspells, rfl⟩, hrest, rfl⟩
      · exact absurd hnil (List.cons_ne_nil _ _)
      · exact ⟨n, rest, hspells, hrest, rfl⟩

theorem lists_intercalate {pieces : List (List Char)} (hne : pieces ≠ []) {ns : List Int}
    (h : List.Forall₂ Spells (filled pieces) ns) : Lists ([','].intercalate pieces) ns := by
  induction pieces generalizing ns with
  | nil => exact absurd rfl hne
  | cons cs pieces ih =>
    obtain ⟨n?, rest, hpiece, hrest, rfl⟩ := forall₂_filled_cons_iff.1 h
    cases pieces with
    | nil =>
      obtain rfl : rest = [] := List.forall₂_nil_left_iff.1 hrest
      rw [List.intercalate_singleton, List.append_nil]
      exact .last hpiece
    | cons cs' pieces =>
      rw [List.intercalate_cons_cons, List.append_assoc]
      exact .more hpiece (ih (List.cons_ne_nil _ _) hrest)

/-- **The parts of a text between its commas are the numbers that it lists.** -/
theorem lists_iff {t : List Char} {ns : List Int} :
    Lists t ns ↔ List.Forall₂ Spells (filled (Text.splitOn ',' t)) ns := by
  constructor
  · intro h
    induction h with
    | last hpiece =>
      rw [Text.splitOn_of_not_mem hpiece.not_mem]
      exact forall₂_filled_cons_iff.2 ⟨_, [], hpiece, .nil, (List.append_nil _).symm⟩
    | more hpiece _ ih =>
      rw [Text.splitOn_append_cons hpiece.not_mem]
      exact forall₂_filled_cons_iff.2 ⟨_, _, hpiece, ih, rfl⟩
  · intro h
    have hlists := lists_intercalate (Text.splitOn_ne_nil _ _) h
    rwa [Text.intercalate_splitOn] at hlists

/-! ## Reading texts -/

/-- A computation on each item succeeds if each of them does. -/
theorem mapM_eq_ok_iff {ε α β : Type} {f : α → Except ε β} {as : List α} {bs : List β} :
    as.mapM f = .ok bs ↔ List.Forall₂ (fun a b => f a = .ok b) as bs := by
  induction as generalizing bs with
  | nil =>
    rw [List.mapM_nil, List.forall₂_nil_left_iff]
    constructor
    · intro h
      exact (Except.ok.inj h).symm
    · rintro rfl
      rfl
  | cons a as ih =>
    rw [List.mapM_cons, List.forall₂_cons_left_iff, Settings.bind_eq_ok_iff]
    constructor
    · rintro ⟨b, hb, h⟩
      obtain ⟨rest, hrest, h⟩ := Settings.exists_of_bind_eq_ok h
      exact ⟨b, rest, hb, ih.1 hrest, (Except.ok.inj h).symm⟩
    · rintro ⟨b, rest, hb, hrest, rfl⟩
      exact ⟨b, hb, Settings.bind_eq_ok_iff.2 ⟨rest, ih.2 hrest, rfl⟩⟩

theorem ne_nil_of_mem_filled {pieces : List (List Char)} {part : List Char}
    (h : part ∈ filled pieces) : part ≠ [] := by
  have hne := (List.mem_filter.1 h).2
  rintro rfl
  exact absurd hne (by decide)

/-- **A text is read as the numbers that it lists**, if all of them are words. -/
theorem mapM_readPart_eq_ok_iff {t : String} {ns : List Nat} :
    (parts t).mapM readPart = .ok ns ↔
      Lists t.toList (ns.map Int.ofNat) ∧ ∀ n ∈ ns, n ≤ maxWord := by
  rw [mapM_eq_ok_iff, lists_iff, show parts t = filled (Text.splitOn ',' t.toList) from rfl]
  have hne : ∀ part ∈ filled (Text.splitOn ',' t.toList), part ≠ [] :=
    fun part => ne_nil_of_mem_filled
  generalize filled (Text.splitOn ',' t.toList) = pieces at hne
  induction pieces generalizing ns with
  | nil =>
    rw [List.forall₂_nil_left_iff, List.forall₂_nil_left_iff, List.map_eq_nil_iff]
    constructor
    · rintro rfl
      exact ⟨rfl, by simp⟩
    · exact And.left
  | cons part pieces ih =>
    cases ns with
    | nil => simp
    | cons n ns =>
      have hpieces := fun q hq => hne q (List.mem_cons_of_mem _ hq)
      have hpart := readPart_eq_ok_iff (hne part List.mem_cons_self) (n := n)
      rw [List.forall₂_cons, List.map_cons, List.forall₂_cons, List.forall_mem_cons]
      exact (and_congr hpart (ih hpieces)).trans and_and_and_comm

/-- A text that is read lists nothing else. -/
theorem eq_of_mapM_readPart {t : String} {ns : List Int} {ms : List Nat} (h : Lists t.toList ns)
    (hread : (parts t).mapM readPart = .ok ms) : ns = ms.map Int.ofNat := by
  replace h : List.Forall₂ Spells (parts t) ns := lists_iff.1 h
  rw [mapM_eq_ok_iff] at hread
  generalize parts t = pieces at h hread
  induction h generalizing ms with
  | nil =>
    obtain rfl := List.forall₂_nil_left_iff.1 hread
    rfl
  | cons hn _ ih =>
    obtain ⟨m, rest, hm, hrest, rfl⟩ := List.forall₂_cons_left_iff.1 hread
    rw [eq_of_readPart hn hm, ih hrest]
    rfl

/-- Sizes as they come about: they have been accepted as a list of words. -/
def IsTyped (s : ChunkSizes) : Prop := ofList s.toList = .ok s ∧ ∀ n ∈ s.toList, n ≤ maxWord

instance (s : ChunkSizes) : Decidable s.IsTyped := instDecidableAnd

/-- **A text is accepted if it lists sizes that are accepted.** -/
theorem ofText_eq_ok_iff {t : String} {s : ChunkSizes} :
    ofText t = .ok s ↔ Lists t.toList (s.toList.map Int.ofNat) ∧ s.IsTyped := by
  unfold ofText IsTyped
  rw [Settings.bind_eq_ok_iff]
  constructor
  · rintro ⟨ns, hread, haccepted⟩
    obtain ⟨hlists, hword⟩ := mapM_readPart_eq_ok_iff.1 hread
    obtain ⟨-, -, -, rfl⟩ := Settings.ofList_eq_ok_iff.1 haccepted
    exact ⟨hlists, haccepted, hword⟩
  · rintro ⟨hlists, haccepted, hword⟩
    exact ⟨s.toList, mapM_readPart_eq_ok_iff.2 ⟨hlists, hword⟩, haccepted⟩

/-! ## Writing texts -/

/-- Integers in decimal, with a comma and a space between each two. -/
def listing (ns : List Int) : String :=
  String.ofList ((ns.map Decimal.intChars).intersperse [',', ' ']).flatten

/-- A blank more in front makes no difference. -/
theorem Lists.blank_cons {t : List Char} {ns : List Int} (h : Lists t ns) :
    Lists (' ' :: t) ns := by
  have hpiece : ∀ {cs n?}, Piece cs n? → Piece (' ' :: cs) n? := by
    intro cs n? h
    have hblank : ∀ {cs : List Char}, (∀ c ∈ cs, Text.isBlank c = true) →
        ∀ c ∈ ' ' :: cs, Text.isBlank c = true := fun hcs =>
      List.forall_mem_cons.2 ⟨by decide, hcs⟩
    cases h with
    | blank hcs => exact .blank (hblank hcs)
    | number hbefore hafter hspells => exact .number (hblank hbefore) hafter hspells
  cases h with
  | last h => exact .last (hpiece h)
  | more h ht => exact .more (hpiece h) ht

/-- **What is written lists the integers that were given.** -/
theorem lists_listing (ns : List Int) : Lists (listing ns).toList ns := by
  have hnumber : ∀ n : Int, Piece (Decimal.intChars n) (some n) := by
    intro n
    have h : Piece ([] ++ Decimal.intChars n ++ []) (some n) :=
      .number (by simp) (by simp) (Decimal.spells_intChars n)
    rwa [List.nil_append, List.append_nil] at h
  unfold listing
  rw [String.toList_ofList]
  induction ns with
  | nil => exact .last (.blank (by simp))
  | cons n ns ih =>
    cases ns with
    | nil =>
      have h := Lists.last (hnumber n)
      simpa using h
    | cons m ns => exact .more (hnumber n) ih.blank_cons

/-- Sizes are written as the integers that they are. -/
theorem text_eq_listing (s : ChunkSizes) : s.text = listing (s.toList.map Int.ofNat) := by
  unfold text listText listing
  rw [List.map_map]
  rfl

/-- **Sizes are read back from their text.** -/
theorem ofText_text {s : ChunkSizes} (h : s.IsTyped) : ofText s.text = .ok s := by
  rw [text_eq_listing]
  exact ofText_eq_ok_iff.2 ⟨lists_listing _, h⟩

end ChunkSizes

/-! ## The two spellings in a section -/

/-- A section with chunk sizes in some spelling. -/
def ConfigSection.withSizes (c : ConfigSection) (spec : SizesSpec) : ConfigSection :=
  { c with freeChunkSizes := some spec }

namespace Settings

open ChunkSizes (Lists)

/-- Integers that are not negative are accepted one by one, and no others are. -/
theorem mapM_chunkSizeOf_eq_ok_iff {ns : List Int} {ms : List Nat} :
    ns.mapM chunkSizeOf = .ok ms ↔ ns = ms.map Int.ofNat := by
  have hread : ∀ (n : Int) (m : Nat), chunkSizeOf n = .ok m ↔ n = Int.ofNat m := by
    intro n m
    unfold chunkSizeOf
    split
    · rename_i hneg
      simp
      omega
    · rename_i hneg
      rw [Except.ok.injEq]
      show n.toNat = m ↔ n = (m : Int)
      omega
  rw [ChunkSizes.mapM_eq_ok_iff]
  simp only [hread]
  rw [← List.forall₂_map_right_iff, List.forall₂_eq_eq_eq]

/-- Integers that are not negative are natural numbers. -/
theorem map_toNat_of_nonneg {ns : List Int} (h : ∀ n ∈ ns, 0 ≤ n) :
    (ns.map Int.toNat).map Int.ofNat = ns := by
  rw [List.map_map]
  refine (List.map_congr_left ?_).trans (List.map_id ns)
  intro n hn
  exact Int.toNat_of_nonneg (h n hn)

/-- **A list and a text of the same numbers give the same sizes**, or the same error. -/
theorem chunkSizesOf_text {t : String} {ns : List Int} (h : Lists t.toList ns)
    (hword : ∀ n ∈ ns, n ≤ maxWord) (hnonneg : ∀ n ∈ ns, 0 ≤ n) :
    chunkSizesOf (.text t) = chunkSizesOf (.list ns) := by
  have hnat := map_toNat_of_nonneg hnonneg
  have hlist : ns.mapM chunkSizeOf = .ok (ns.map Int.toNat) :=
    mapM_chunkSizeOf_eq_ok_iff.2 hnat.symm
  have htext : (ChunkSizes.parts t).mapM ChunkSizes.readPart = .ok (ns.map Int.toNat) := by
    refine ChunkSizes.mapM_readPart_eq_ok_iff.2 ⟨hnat.symm ▸ h, ?_⟩
    intro m hm
    obtain ⟨n, hn, rfl⟩ := List.mem_map.1 hm
    have := hword n hn
    omega
  unfold chunkSizesOf ChunkSizes.ofText
  simp only [hlist, htext]

/-- With a negative number neither spelling gives any sizes. -/
theorem chunkSizesOf_ne_ok {t : String} {ns : List Int} (h : Lists t.toList ns)
    (hneg : ¬∀ n ∈ ns, 0 ≤ n) (s : ChunkSizes) :
    chunkSizesOf (.text t) ≠ .ok s ∧ chunkSizesOf (.list ns) ≠ .ok s := by
  have hnat : ∀ ms : List Nat, ns ≠ ms.map Int.ofNat := by
    rintro ms rfl
    apply hneg
    intro n hn
    obtain ⟨m, -, rfl⟩ := List.mem_map.1 hn
    exact Int.natCast_nonneg m
  constructor
  · intro hok
    obtain ⟨ms, hread, -⟩ := exists_of_bind_eq_ok hok
    exact hnat ms (ChunkSizes.eq_of_mapM_readPart h hread)
  · intro hok
    obtain ⟨ms, hread, -⟩ := exists_of_bind_eq_ok hok
    exact hnat ms (mapM_chunkSizeOf_eq_ok_iff.1 hread)

/-- Sections that differ in the spelling of the same sizes come to the same. -/
theorem apply_withSizes_congr {spec spec' : SizesSpec} (h : chunkSizesOf spec = chunkSizesOf spec')
    (x : Settings) (c : ConfigSection) :
    x.apply (c.withSizes spec) = x.apply (c.withSizes spec') := by
  unfold apply ConfigSection.withSizes setting
  simp only [h]

/-- A section whose sizes are refused is refused. -/
theorem toOption_apply_withSizes {spec : SizesSpec} (h : ∀ s, chunkSizesOf spec ≠ .ok s)
    (x : Settings) (c : ConfigSection) : (x.apply (c.withSizes spec)).toOption = none := by
  cases happly : x.apply (c.withSizes spec) with
  | error e => rfl
  | ok y => exact absurd ((apply_eq_ok_iff.1 happly).1 .freeChunkSizes) (h _)

end Settings

namespace ChunkSizes

/-- **All spellings of chunk sizes agree.** Sizes are read back from what they are written as. A
text that is accepted gives sizes that can be written and read back, and these are the integers that
it lists and no others. And a list of numbers in a section and any text that lists the same numbers,
of which there is always one, are accepted alike, with the same settings, or both refused; with the
same error, if no number is negative. -/
theorem spellings_agree :
    (∀ s : ChunkSizes, s.IsTyped → ofText s.text = .ok s) ∧
      (∀ (t : String) (s : ChunkSizes), ofText t = .ok s →
        ofText s.text = .ok s ∧ ∀ ns, Lists t.toList ns ↔ ns = s.toList.map Int.ofNat) ∧
      ∀ ns : List Int, (∀ n ∈ ns, n ≤ maxWord) →
        Lists (listing ns).toList ns ∧
          ∀ t : String, Lists t.toList ns → ∀ (x : Settings) (c : ConfigSection),
            (x.apply (c.withSizes (.text t))).toOption =
                (x.apply (c.withSizes (.list ns))).toOption ∧
              ((∀ n ∈ ns, 0 ≤ n) →
                x.apply (c.withSizes (.text t)) = x.apply (c.withSizes (.list ns))) := by
  refine ⟨fun s => ofText_text, ?_, ?_⟩
  · intro t s h
    obtain ⟨hlists, htyped⟩ := ofText_eq_ok_iff.1 h
    refine ⟨ofText_text htyped, ?_⟩
    intro ns
    constructor
    · intro hother
      exact eq_of_mapM_readPart hother (mapM_readPart_eq_ok_iff.2 ⟨hlists, htyped.2⟩)
    · rintro rfl
      exact hlists
  · intro ns hword
    refine ⟨lists_listing ns, ?_⟩
    intro t hlists x c
    have hsame : (∀ n ∈ ns, 0 ≤ n) →
        x.apply (c.withSizes (.text t)) = x.apply (c.withSizes (.list ns)) := fun hnonneg =>
      Settings.apply_withSizes_congr (Settings.chunkSizesOf_text hlists hword hnonneg) x c
    refine ⟨?_, hsame⟩
    by_cases hnonneg : ∀ n ∈ ns, 0 ≤ n
    · rw [hsame hnonneg]
    · have hrefused := Settings.chunkSizesOf_ne_ok hlists hnonneg
      rw [Settings.toOption_apply_withSizes fun s => (hrefused s).1,
        Settings.toOption_apply_withSizes fun s => (hrefused s).2]

/-- Three sizes with blanks of several kinds, a sign, a zero in front and parts that are empty. -/
def spaced : String := ",7,\u2003+016\t, ,32,"

/-- They are the sizes of a list of three, in a section with other options too; a number below zero
is refused in both spellings, with an error of its own in each. -/
theorem spellings_agree_spaced :
    ofText spaced = .ok ⟨[7, 16, 32]⟩ ∧ ofText "7, 16, 32" = .ok ⟨[7, 16, 32]⟩ ∧
      Lists spaced.toList [7, 16, 32] ∧
      Settings.standard.apply (Settings.tightSection.withSizes (.text spaced)) =
        Settings.standard.apply (Settings.tightSection.withSizes (.list [7, 16, 32])) ∧
      (Settings.standard.apply (Settings.tightSection.withSizes (.text "-7, 16"))).toOption =
        (Settings.standard.apply (Settings.tightSection.withSizes (.list [-7, 16]))).toOption ∧
      Settings.standard.apply (Settings.tightSection.withSizes (.text "-7, 16")) ≠
        Settings.standard.apply (Settings.tightSection.withSizes (.list [-7, 16])) := by
  obtain ⟨hback, hread, hspec⟩ := spellings_agree
  have hsizes := hback ⟨[7, 16, 32]⟩ (by decide)
  rw [show text ⟨[7, 16, 32]⟩ = "7, 16, 32" by decide +kernel] at hsizes
  have hspaced : ofText spaced = .ok ⟨[7, 16, 32]⟩ := by decide +kernel
  have hlists : Lists spaced.toList [7, 16, 32] := ((hread _ _ hspaced).2 _).2 rfl
  have hsame := ((hspec [7, 16, 32] (by decide)).2 _ hlists .standard Settings.tightSection).2
  obtain ⟨hnegative, hrefused⟩ := hspec [-7, 16] (by decide)
  rw [show listing [-7, 16] = "-7, 16" by decide +kernel] at hnegative
  exact ⟨hspaced, hsizes, hlists, hsame (by decide),
    (hrefused _ hnegative .standard Settings.tightSection).1, by decide +kernel⟩

end ChunkSizes

end ObjectPile
