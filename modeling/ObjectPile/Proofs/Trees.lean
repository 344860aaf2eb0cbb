/-
# The tokens of a tree

A tree is spelled by its tokens with a comma between each two parts of an array or object. The
machine that builds trees takes them one by one and comes to a stop behind the tree, whatever is
still open around it.

* `Tree.tokens` : the tokens that spell a tree.
* `Tree.State.Leads` : tokens lead the machine from one state to another.
* `Tree.ofTokens?_tokens` : every tree is built of its tokens again.
-/
import ObjectPile.Json.Tree
import Mathlib

namespace ObjectPile

/-- The parts with a comma between each two. -/
def Token.commaSeparated : List (List Token) → List Token
  | [] => []
  | [part] => part
  | part :: parts => part ++ .comma :: commaSeparated parts

theorem Token.commaSeparated_cons_cons (part part' : List Token) (parts : List (List Token)) :
    commaSeparated (part :: part' :: parts) = part ++ .comma :: commaSeparated (part' :: parts) :=
  rfl

namespace Tree

open Token (commaSeparated commaSeparated_cons_cons)

mutual

/-- The tokens that spell a tree. -/
def tokens : Tree → List Token
  | .null => [.null]
  | .boolean b => [.boolean b]
  | .number x => [.number x]
  | .string pieces => [.string pieces]
  | .array items => .beginArray :: (commaSeparated (itemTokens items) ++ [.endArray])
  | .object members => .beginObject :: (commaSeparated (memberTokens members) ++ [.endObject])

/-- The tokens of the items. -/
def itemTokens : List Tree → List (List Token)
  | [] => []
  | t :: ts => tokens t :: itemTokens ts

/-- The tokens of the members, each a key, a colon and a value. -/
def memberTokens : List (List Piece × Tree) → List (List Token)
  | [] => []
  | (key, t) :: rest => (.string key :: .colon :: tokens t) :: memberTokens rest

end

/-! ## The machine -/

namespace State

/-- **Tokens lead from one state to another.** -/
def Leads (ts : List Token) (s s' : State) : Prop := ts.foldlM step? s = some s'

namespace Leads

variable {t : Token} {ts us : List Token} {s s' s'' : State} {tree : Tree}
  {outer outer' : List Frame}

theorem refl (s : State) : Leads [] s s := rfl

theorem step (hstep : s.step? t = some s') (h : Leads ts s' s'') : Leads (t :: ts) s s'' := by
  unfold Leads
  rw [List.foldlM_cons, hstep]
  exact h

theorem trans (h : Leads ts s s') (h' : Leads us s' s'') : Leads (ts ++ us) s s'' := by
  unfold Leads
  rw [List.foldlM_append, h]
  exact h'

/-- What may stand in an array may also be its first item, for no value begins with the end of an
array. -/
theorem firstItem (h : Leads ts (.value (.items [] :: outer)) (.after tree outer')) :
    Leads ts (.firstItem outer) (.after tree outer') := by
  cases ts with
  | nil => exact absurd h nofun
  | cons t ts =>
    cases t with
    | endArray => exact absurd h nofun
    | _ => exact h

/-- What may be another member of an object may also be its first one. -/
theorem firstKey (h : Leads ts (.nextKey [] outer) (.after tree outer')) :
    Leads ts (.firstKey outer) (.after tree outer') := by
  cases ts with
  | nil => exact absurd h nofun
  | cons t ts =>
    cases t with
    | string key => exact h
    | _ => exact absurd h nofun

end Leads

mutual

/-- **The tokens of a tree lead behind it**, where a value may begin. -/
theorem leads_tokens : (t : Tree) → (outer : List Frame) →
    Leads t.tokens (.value outer) (.after t outer)
  | .null, _ | .boolean _, _ | .number _, _ | .string _, _ => rfl
  | .array [], _ | .object [], _ => rfl
  | .array (t :: ts), outer => by
    rw [tokens]
    exact .step rfl (leads_items (t :: ts) (List.cons_ne_nil _ _) [] outer).firstItem
  | .object (m :: ms), outer => by
    rw [tokens]
    exact .step rfl (leads_members (m :: ms) (List.cons_ne_nil _ _) [] outer).firstKey

/-- The tokens of some items lead from behind the items before them to the end of the array. -/
theorem leads_items : (items : List Tree) → items ≠ [] → (done : List Tree) →
    (outer : List Frame) → Leads (commaSeparated (itemTokens items) ++ [.endArray])
      (.value (.items done :: outer)) (.after (.array (done.reverse ++ items)) outer)
  | [], hne, _, _ => absurd rfl hne
  | [t], _, done, outer => by
    rw [← List.reverse_cons]
    exact (leads_tokens t (.items done :: outer)).trans (.step rfl (.refl _))
  | t :: t' :: ts, _, done, outer => by
    have hrest := leads_items (t' :: ts) (List.cons_ne_nil _ _) (t :: done) outer
    rw [List.reverse_cons, List.append_assoc] at hrest
    rw [itemTokens, itemTokens, commaSeparated_cons_cons, ← itemTokens, List.append_assoc]
    exact (leads_tokens t (.items done :: outer)).trans (.step rfl hrest)

/-- The tokens of some members lead from behind the members before them to the end of the object. -/
theorem leads_members : (members : List (List Piece × Tree)) → members ≠ [] →
    (done : List (List Piece × Tree)) → (outer : List Frame) →
      Leads (commaSeparated (memberTokens members) ++ [.endObject]) (.nextKey done outer)
        (.after (.object (done.reverse ++ members)) outer)
  | [], hne, _, _ => absurd rfl hne
  | [(key, t)], _, done, outer => by
    rw [← List.reverse_cons]
    have hend : Leads [.endObject] (.after t (.members done key :: outer))
      (.after (.object ((key, t) :: done).reverse) outer) := .step rfl (.refl _)
    exact .step rfl (.step rfl ((leads_tokens t _).trans hend))
  | (key, t) :: (key', t') :: ms, _, done, outer => by
    have hrest := leads_members ((key', t') :: ms) (List.cons_ne_nil _ _) ((key, t) :: done) outer
    rw [List.reverse_cons, List.append_assoc] at hrest
    rw [memberTokens, memberTokens, commaSeparated_cons_cons, ← memberTokens, List.append_assoc]
    have hnext : Leads
      (.comma :: (commaSeparated (memberTokens ((key', t') :: ms)) ++ [.endObject]))
      (.after t (.members done key :: outer)) _ := .step rfl hrest
    exact .step rfl (.step rfl ((leads_tokens t _).trans hnext))

end

end State

/-- **Every tree is built of its tokens again.** -/
theorem ofTokens?_tokens (t : Tree) : ofTokens? t.tokens = some t := by
  unfold ofTokens?
  rw [State.leads_tokens t []]
  rfl

end Tree

end ObjectPile
