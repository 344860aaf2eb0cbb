/-
# The tokens of written texts

What is written of strings, integers and their lists is split into tokens again. A number is over
where no byte comes that it could go on with, so texts are read in front of others that begin with
no such byte: the end of all, or a mark. A string comes back in pieces, bytes or units, which
together are its text; and an integer as its digits.

* `Token.Closes` : what may follow a number.
* `Token.Reads` : a text is read as some tokens.
* `Token.reads_quoted`, `Token.reads_intChars` : strings and integers.
* `Token.reads_commaSeparated` : texts with commas between them.
* `Tree.text?_ofText`, `Numeral.value?_ofInt` : the contents of the tokens.
-/
import ObjectPile.Json.Writer
import ObjectPile.Proofs.Trees

namespace ObjectPile

/-- The number of an integer as it is written. -/
def Numeral.ofInt (n : Int) : Numeral := ⟨decide (n < 0), Decimal.digits n.natAbs, none, none⟩

/-- The characters below the space that are escaped by a letter. -/
def Piece.lettered : List Char := ['\x08', '\x0c', '\n', '\r', '\t']

/-- The pieces of a character as it is written. -/
def Piece.ofChar (c : Char) : List Piece :=
  if c.toNat < 0x20 ∧ c ∉ Piece.lettered then [.unit c.toNat]
  else (String.utf8EncodeChar c).map .byte

/-- The pieces of a string as it is written. -/
def Piece.ofText (s : String) : List Piece := s.toList.flatMap Piece.ofChar

/-- No digits stand behind a zero in front. -/
theorem Decimal.eq_nil_of_digits {n : Nat} {ds : List Nat} (h : digits n = 0 :: ds) : ds = [] := by
  induction n using Nat.strongRecOn generalizing ds with
  | _ n ih =>
    rw [digits] at h
    split at h
    · exact (List.cons.inj h).2.symm
    · obtain ⟨d, ds', hdigits⟩ := List.exists_cons_of_ne_nil (digits_ne_nil (n / 10))
      rw [hdigits, List.cons_append] at h
      obtain ⟨rfl, -⟩ := List.cons.inj h
      -- all of the number but its last digit would be zero
      obtain rfl := ih (n / 10) (by omega) hdigits
      have hzero : n / 10 = 0 := by
        rw [← ofDigits_digits (n / 10), hdigits]
        rfl
      omega

namespace Token

open Json (escape quoted hexChar)
open Text (utf8 utf8_append utf8_cons utf8_nil)

/-! ## Reading in front of others -/

/-- A byte that a number could go on with. -/
def goesOn (b : UInt8) : Bool := isDigit b || b == 0x2E || b == 0x65 || b == 0x45

/-- **No number goes on** with what comes next. -/
def Closes (rest : List UInt8) : Prop := ∀ b ∈ rest.head?, goesOn b = false

/-- **A text is read as some tokens**, if none of them goes on behind it. -/
def Reads (cs : List Char) (ts : List Token) : Prop :=
  ∀ done rest, Closes rest → lexFrom done (utf8 cs ++ rest) = lexFrom (ts.reverse ++ done) rest

theorem closes_nil : Closes [] := nofun

theorem closes_cons {b : UInt8} (h : goesOn b = false) (rest : List UInt8) : Closes (b :: rest) :=
  fun _ hb => Option.some.inj hb ▸ h

theorem lexFrom_cons {b : UInt8} {rest rest' : List UInt8} {t : Token}
    (hspace : isSpace b = false) (h : next? b rest = some (t, rest')) (done : List Token) :
    lexFrom done (b :: rest) = lexFrom (t :: done) rest' := by
  rw [lexFrom, if_neg (by simp [hspace])]
  split
  · rename_i heq
    simp [h] at heq
  · rename_i t' rest'' heq
    obtain ⟨rfl, rfl⟩ := Prod.mk.inj (Option.some.inj (heq.symm.trans h))
    rfl

/-- Whatever is read as tokens is a text with these tokens. -/
theorem Reads.lex? {cs : List Char} {ts : List Token} (h : Reads cs ts) :
    lex? (utf8 cs) = some ts := by
  have hall := h [] [] closes_nil
  rw [List.append_nil, List.append_nil] at hall
  rw [Token.lex?, hall, lexFrom, List.reverse_reverse]

/-- A character is a mark of its own. -/
def IsMark (c : Char) (t : Token) : Prop :=
  ∃ b, String.utf8EncodeChar c = [b] ∧ mark? b = some t

section Marks

variable {c : Char} {t : Token} {cs ds : List Char} {ts us : List Token}

theorem mark?_eq_some {b : UInt8} (h : mark? b = some t) :
    isSpace b = false ∧ goesOn b = false := by
  unfold mark? at h
  split_ifs at h
  all_goals
    subst b
    decide

theorem IsMark.closes (h : IsMark c t) (cs : List Char) (rest : List UInt8) :
    Closes (utf8 (c :: cs) ++ rest) := by
  obtain ⟨b, hb, hmark⟩ := h
  rw [utf8_cons, hb]
  exact closes_cons (mark?_eq_some hmark).2 _

theorem Reads.nil : Reads [] [] := fun _ _ _ => rfl

theorem Reads.mark (hmark : IsMark c t) (h : Reads cs ts) : Reads (c :: cs) (t :: ts) := by
  obtain ⟨b, hb, hmark⟩ := hmark
  intro done rest hrest
  have hnext : next? b (utf8 cs ++ rest) = some (t, utf8 cs ++ rest) := by
    unfold next?
    rw [hmark]
  rw [utf8_cons, hb, List.append_assoc, List.singleton_append,
    lexFrom_cons (mark?_eq_some hmark).1 hnext, h _ _ hrest, List.reverse_cons, List.append_assoc]
  rfl

/-- A text is read in front of a mark. -/
theorem Reads.append_mark (h : Reads cs ts) (hmark : IsMark c t) (h' : Reads ds us) :
    Reads (cs ++ c :: ds) (ts ++ t :: us) := by
  intro done rest hrest
  rw [utf8_append, List.append_assoc, h _ _ (hmark.closes ds rest), Reads.mark hmark h' _ _ hrest,
    List.reverse_append, List.append_assoc]

end Marks

theorem isMark_beginArray : IsMark '[' .beginArray := ⟨0x5B, by decide, rfl⟩
theorem isMark_endArray : IsMark ']' .endArray := ⟨0x5D, by decide, rfl⟩
theorem isMark_beginObject : IsMark '\x7b' .beginObject := ⟨0x7B, by decide, rfl⟩
theorem isMark_endObject : IsMark '\x7d' .endObject := ⟨0x7D, by decide, rfl⟩
theorem isMark_comma : IsMark ',' .comma := ⟨0x2C, by decide, rfl⟩
theorem isMark_colon : IsMark ':' .colon := ⟨0x3A, by decide, rfl⟩

/-- **Texts with commas between them** are read as their tokens with commas between them. -/
theorem reads_commaSeparated {parts : List (List Char)} {tokens : List (List Token)}
    (h : List.Forall₂ Reads parts tokens) :
    Reads (Json.commaSeparated parts) (commaSeparated tokens) := by
  induction h with
  | nil => exact .nil
  | @cons part tokens parts tokenss hfirst hrest ih =>
    cases hrest with
    | nil => exact hfirst
    | cons hnext hrest => exact hfirst.append_mark isMark_comma ih

/-! ## Words -/

theorem reads_null : Reads ['n', 'u', 'l', 'l'] [.null] := fun done _ _ =>
  lexFrom_cons rfl rfl done

theorem reads_true : Reads ['t', 'r', 'u', 'e'] [.boolean true] := fun done _ _ =>
  lexFrom_cons rfl rfl done

theorem reads_false : Reads ['f', 'a', 'l', 's', 'e'] [.boolean false] := fun done _ _ =>
  lexFrom_cons rfl rfl done

/-! ## Strings -/

/-- Bytes that stand for themselves in a string. -/
def IsPlainByte (b : UInt8) : Prop := 0x20 ≤ b.toNat ∧ b ≠ 0x22 ∧ b ≠ 0x5C

theorem lexString_bytes {bs : List UInt8} (h : ∀ b ∈ bs, IsPlainByte b) (done : List Piece)
    (rest : List UInt8) :
    lexString done (bs ++ rest) = lexString ((bs.map .byte).reverse ++ done) rest := by
  induction bs generalizing done with
  | nil => rfl
  | cons b bs ih =>
    obtain ⟨hspace, hquote, hslash⟩ := h b List.mem_cons_self
    have hlow : ¬b < 0x20 := by
      rw [UInt8.lt_iff_toNat_lt]
      exact Nat.not_lt.2 hspace
    rw [List.cons_append, lexString.eq_def]
    simp only [if_neg hquote, if_neg hslash, if_neg hlow]
    rw [ih (fun b' hb' => h b' (List.mem_cons_of_mem _ hb'))]
    simp

/-- The bytes of a character that is not escaped stand for themselves. -/
theorem isPlainByte_of_mem {c : Char} (hlow : 0x20 ≤ c.toNat) (hquote : c ≠ '"') (hslash : c ≠ '\\')
    {b : UInt8} (h : b ∈ String.utf8EncodeChar c) : IsPlainByte b := by
  have hquote' : c.toNat ≠ 0x22 := fun heq => hquote (Char.toNat_inj.1 heq)
  have hslash' : c.toNat ≠ 0x5C := fun heq => hslash (Char.toNat_inj.1 heq)
  have hbyte : ∀ n, 0x20 ≤ n → n < 0x100 → n ≠ 0x22 → n ≠ 0x5C → IsPlainByte (.ofNat n) := by
    intro n hlow hhigh hne hne'
    have hn : (UInt8.ofNat n).toNat = n := UInt8.toNat_ofNat_of_lt' hhigh
    refine ⟨by rw [hn]; exact hlow, ?_, ?_⟩
    · intro heq
      rw [heq] at hn
      exact hne hn.symm
    · intro heq
      rw [heq] at hn
      exact hne' hn.symm
  unfold String.utf8EncodeChar at h
  simp only [Char.toNat_val] at h
  split_ifs at h
  all_goals
    simp only [List.mem_cons, List.not_mem_nil, or_false] at h
    rcases h with rfl | rfl | rfl | rfl <;> apply hbyte <;> omega

/-- The four digits of a control character are read as its number. -/
theorem lexString_control {n : Nat} (h : n < 0x20) (done : List Piece) (rest : List UInt8) :
    lexString done (utf8 ['\\', 'u', '0', '0', hexChar (n / 16), hexChar (n % 16)] ++ rest) =
      lexString (.unit n :: done) rest := by
  interval_cases n
  all_goals
    rw [lexString.eq_def]
    rfl

/-- **A character between quotes** is read as its pieces. -/
theorem lexString_escape (c : Char) (done : List Piece) (rest : List UInt8) :
    lexString done (utf8 (escape c) ++ rest) =
      lexString ((Piece.ofChar c).reverse ++ done) rest := by
  by_cases hletter : c ∈ ['"', '\\', '\x08', '\x0c', '\n', '\r', '\t']
  · simp only [List.mem_cons, List.not_mem_nil, or_false] at hletter
    rcases hletter with rfl | rfl | rfl | rfl | rfl | rfl | rfl
    all_goals
      rw [lexString.eq_def]
      rfl
  · simp only [List.mem_cons, List.not_mem_nil, or_false, not_or] at hletter
    obtain ⟨hquote, hslash, hrest⟩ := hletter
    have hlettered : c ∉ Piece.lettered := by simpa [Piece.lettered] using hrest
    obtain ⟨h08, h0c, hn, hr, ht⟩ := hrest
    unfold escape Piece.ofChar
    simp only [if_neg hquote, if_neg hslash, if_neg h08, if_neg h0c, if_neg hn, if_neg hr,
      if_neg ht]
    by_cases hcontrol : c.toNat < 0x20
    · rw [if_pos hcontrol, if_pos ⟨hcontrol, hlettered⟩]
      exact lexString_control hcontrol done rest
    · rw [if_neg hcontrol, if_neg fun h => hcontrol h.1, utf8_cons, utf8_nil, List.append_nil]
      exact lexString_bytes
        (fun b hb => isPlainByte_of_mem (Nat.not_lt.1 hcontrol) hquote hslash hb) done rest

theorem lexString_flatMap (cs : List Char) (done : List Piece) (rest : List UInt8) :
    lexString done (utf8 (cs.flatMap escape) ++ 0x22 :: rest) =
      some (done.reverse ++ cs.flatMap Piece.ofChar, rest) := by
  induction cs generalizing done with
  | nil =>
    rw [lexString.eq_def]
    simp
  | cons c cs ih =>
    rw [List.flatMap_cons, utf8_append, List.append_assoc, lexString_escape, ih, List.flatMap_cons]
    simp

/-- **A text between quotes** is read as a string. -/
theorem reads_quoted (s : String) : Reads (quoted s) [.string (Piece.ofText s)] := by
  intro done rest _
  have hbytes : utf8 (quoted s) ++ rest =
      0x22 :: (utf8 (s.toList.flatMap escape) ++ 0x22 :: rest) := by
    have hquote : String.utf8EncodeChar '"' = [0x22] := by decide
    unfold quoted
    rw [utf8_cons, utf8_append, utf8_cons, utf8_nil, hquote]
    simp
  have hnext : next? 0x22 (utf8 (s.toList.flatMap escape) ++ 0x22 :: rest) =
      some (.string (Piece.ofText s), rest) := by
    have hstring : next? 0x22 (utf8 (s.toList.flatMap escape) ++ 0x22 :: rest) =
      (lexString [] (utf8 (s.toList.flatMap escape) ++ 0x22 :: rest)).map
        fun r => (.string r.1, r.2) := rfl
    rw [hstring, lexString_flatMap]
    rfl
  rw [hbytes, lexFrom_cons rfl hnext]
  rfl

/-! ## Numbers -/

/-- The byte of a digit. -/
def digitByte (d : Nat) : UInt8 := .ofNat (0x30 + d)

theorem digitByte_spec {d : Nat} (h : d < 10) :
    String.utf8EncodeChar (Decimal.digitChar d) = [digitByte d] ∧
      isDigit (digitByte d) = true ∧ digitValue (digitByte d) = d := by
  interval_cases d <;> decide

theorem lexDigits_cons {b : UInt8} (h : isDigit b = true) (s : List UInt8) :
    lexDigits (b :: s) = (digitValue b :: (lexDigits s).1, (lexDigits s).2) := by
  unfold lexDigits
  rw [List.takeWhile_cons_of_pos h, List.dropWhile_cons_of_pos h, List.map_cons]

section Closing

variable {rest : List UInt8} (hrest : Closes rest)
include hrest

theorem lexDigits_of_closes : lexDigits rest = ([], rest) := by
  cases rest with
  | nil => rfl
  | cons b rest =>
    have hb : isDigit b ≠ true := by
      have hgoes := hrest b rfl
      simp only [goesOn, Bool.or_eq_false_iff] at hgoes
      simp [hgoes]
    unfold lexDigits
    rw [List.takeWhile_cons_of_neg hb, List.dropWhile_cons_of_neg hb]
    rfl

theorem lexDigits_map {ds : List Nat} (hds : ∀ d ∈ ds, d < 10) :
    lexDigits (utf8 (ds.map Decimal.digitChar) ++ rest) = (ds, rest) := by
  induction ds with
  | nil => exact lexDigits_of_closes hrest
  | cons d ds ih =>
    obtain ⟨hbyte, hdigit, hvalue⟩ := digitByte_spec (hds d List.mem_cons_self)
    rw [List.map_cons, utf8_cons, hbyte, List.singleton_append, List.cons_append,
      lexDigits_cons hdigit, ih fun e he => hds e (List.mem_cons_of_mem _ he), hvalue]

theorem lexFraction_of_closes : lexFraction rest = some (none, rest) := by
  cases rest with
  | nil => rfl
  | cons b rest =>
    have hgoes := hrest b rfl
    simp only [goesOn, Bool.or_eq_false_iff, beq_eq_false_iff_ne] at hgoes
    exact if_neg hgoes.1.1.2

theorem lexPower_of_closes : lexPower rest = some (none, rest) := by
  cases rest with
  | nil => rfl
  | cons b rest =>
    have hgoes := hrest b rfl
    simp only [goesOn, Bool.or_eq_false_iff, beq_eq_false_iff_ne] at hgoes
    exact if_neg (not_or.2 ⟨hgoes.1.2, hgoes.2⟩)

/-- A number in decimal is read as its digits. -/
theorem lexMagnitude_chars (negative : Bool) (n : Nat) :
    lexMagnitude negative (utf8 (Decimal.chars n) ++ rest) =
      some (⟨negative, Decimal.digits n, none, none⟩, rest) := by
  unfold lexMagnitude
  rw [Decimal.chars, lexDigits_map hrest fun d hd => Decimal.digits_lt hd]
  split
  · rename_i heq
    exact absurd (congrArg Prod.fst heq) (Decimal.digits_ne_nil n)
  · rename_i heq
    exact absurd (Decimal.eq_nil_of_digits (congrArg Prod.fst heq)) (List.cons_ne_nil _ _)
  · rename_i heq
    obtain ⟨rfl, rfl⟩ := Prod.mk.inj heq
    rw [lexFraction_of_closes hrest]
    show (lexPower rest >>= fun _ => _) = _
    rw [lexPower_of_closes hrest]
    rfl

end Closing

/-- A number below zero is read behind its sign. -/
theorem next?_sign (rest : List UInt8) :
    next? 0x2D rest = (lexMagnitude true rest).map fun r => (.number r.1, r.2) := rfl

theorem next?_digitByte {d : Nat} (h : d < 10) (rest : List UInt8) :
    isSpace (digitByte d) = false ∧ next? (digitByte d) rest =
      (lexMagnitude false (digitByte d :: rest)).map fun r => (.number r.1, r.2) := by
  interval_cases d <;> exact ⟨rfl, rfl⟩

/-- **An integer in decimal** is read as a number. -/
theorem reads_intChars (n : Int) : Reads (Decimal.intChars n) [.number (.ofInt n)] := by
  intro done rest hrest
  cases n with
  | ofNat n =>
    show lexFrom done (utf8 (Decimal.chars n) ++ rest) =
      lexFrom (.number ⟨false, Decimal.digits n, none, none⟩ :: done) rest
    have hall := lexMagnitude_chars hrest false n
    -- the first digit decides that a number is read
    obtain ⟨d, ds, hdigits⟩ := List.exists_cons_of_ne_nil (Decimal.digits_ne_nil n)
    have hd : d < 10 := Decimal.digits_lt (hdigits ▸ List.mem_cons_self)
    have hbytes : utf8 (Decimal.chars n) = digitByte d :: utf8 (ds.map Decimal.digitChar) := by
      rw [Decimal.chars, hdigits, List.map_cons, utf8_cons, (digitByte_spec hd).1]
      rfl
    rw [hbytes, List.cons_append] at hall ⊢
    obtain ⟨hspace, hnext⟩ := next?_digitByte hd (utf8 (ds.map Decimal.digitChar) ++ rest)
    rw [hall] at hnext
    exact lexFrom_cons hspace hnext done
  | negSucc n =>
    have hnumeral : Numeral.ofInt (.negSucc n) = ⟨true, Decimal.digits (n + 1), none, none⟩ := by
      rw [Numeral.ofInt, decide_eq_true (Int.negSucc_lt_zero n), Int.natAbs_negSucc]
    rw [hnumeral]
    show lexFrom done (0x2D :: (utf8 (Decimal.chars (n + 1)) ++ rest)) = lexFrom (_ :: done) rest
    have hnext := next?_sign (utf8 (Decimal.chars (n + 1)) ++ rest)
    rw [lexMagnitude_chars hrest] at hnext
    exact lexFrom_cons rfl hnext done

end Token

/-! ## Contents -/

namespace Tree

/-- Bytes come back as they are. -/
theorem pieceBytes?_bytes (bs done : List UInt8) (pieces : List Piece) :
    pieceBytes? done (bs.map .byte ++ pieces) = pieceBytes? (bs.reverse ++ done) pieces := by
  induction bs generalizing done with
  | nil => rfl
  | cons b bs ih =>
    rw [List.map_cons, List.cons_append, pieceBytes?, ih, List.reverse_cons, List.append_assoc]
    rfl

theorem pieceBytes?_ofChar (c : Char) (done : List UInt8) (pieces : List Piece) :
    pieceBytes? done (Piece.ofChar c ++ pieces) =
      pieceBytes? ((String.utf8EncodeChar c).reverse ++ done) pieces := by
  unfold Piece.ofChar
  split
  · rename_i hcontrol
    have hlow := hcontrol.1
    have hleading : ¬isLeading c.toNat = true := by
      simp only [isLeading, Bool.and_eq_true, decide_eq_true_eq]
      omega
    have htrailing : ¬isTrailing c.toNat = true := by
      simp only [isTrailing, Bool.and_eq_true, decide_eq_true_eq]
      omega
    rw [List.singleton_append, pieceBytes?.eq_def]
    simp only [if_neg hleading, if_neg htrailing, codePoint, Char.ofNat_toNat]
  · exact pieceBytes?_bytes _ done pieces

theorem pieceBytes?_flatMap (cs : List Char) (done : List UInt8) :
    pieceBytes? done (cs.flatMap Piece.ofChar) = some (done.reverse ++ Text.utf8 cs) := by
  induction cs generalizing done with
  | nil => simp [pieceBytes?]
  | cons c cs ih =>
    rw [List.flatMap_cons, pieceBytes?_ofChar, ih, Text.utf8_cons]
    simp

/-- **A string comes back from its pieces.** -/
theorem text?_ofText (s : String) : text? (Piece.ofText s) = some s := by
  unfold text? Piece.ofText
  rw [pieceBytes?_flatMap]
  exact (Text.ofUtf8?_utf8 s.toList).trans (congrArg some String.ofList_toList)

end Tree

/-- **An integer that is a word comes back from its digits.** -/
theorem Numeral.value?_ofInt {n : Int} (hlow : -(maxSigned : Int) - 1 ≤ n) (hhigh : n ≤ maxWord) :
    (ofInt n).value? = some (.integer n) := by
  have hvalue : (ofInt n).integer? = some n := by
    unfold ofInt integer?
    simp only [Decimal.ofDigits_digits, decide_eq_true_eq]
    split
    · rw [if_pos (by omega)]
      exact congrArg some (by omega)
    · rw [if_pos (by omega)]
      exact congrArg some (by omega)
  unfold value?
  rw [hvalue]

end ObjectPile
