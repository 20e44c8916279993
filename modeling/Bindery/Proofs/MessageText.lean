import Bindery.Diagnostic
import Bindery.Proofs.JsonText

/-! # The text of messages

A template is put together from characters and placeholders (`Piece`).  It is filled one argument
after the other, so the text that stands for one placeholder is searched for the next.

* Where every opening brace of the template belongs to a placeholder and no argument but the last
  has an opening brace, no placeholder comes about on the way: every argument stands in its places
  as it is (`fill_pieces`).  All messages have such templates (`Message.template_eq`).
* An argument that is itself a placeholder gives way to a later argument (`fill_placeholder`). -/

namespace Bindery.Text

/-! ### Placeholders -/

theorem placeholder_eq (index : Nat) : placeholder index = '{' :: (Nat.toDigits 10 index ++ ['}']) := by
  simp [placeholder, Nat.repr, toString]

theorem brace_not_mem_digits (index : Nat) : '{' ∉ Nat.toDigits 10 index ++ ['}'] := by
  intro h
  rcases List.mem_append.1 h with h | h
  · exact absurd (Json.isDigit_of_mem_toDigits h) (by decide)
  · exact absurd (List.mem_singleton.1 h) (by decide)

/-- No placeholder is the beginning of another. -/
theorem eq_of_placeholder_begins {i j : Nat} {rest : List Char}
    (h : placeholder i <+: placeholder j ++ rest) : i = j := by
  obtain ⟨tail, h⟩ := h
  simp only [placeholder_eq, List.cons_append, List.append_assoc, List.cons.injEq, true_and] at h
  have digits : ∀ n (rest : List Char),
      takeDigits (Nat.toDigits 10 n ++ ('}' :: rest)) = (Nat.toDigits 10 n, '}' :: rest) :=
    fun n rest => Json.takeDigits_append (fun c => Json.isDigit_of_mem_toDigits) (by simp [Char.isDigit])
  have hdigits := congrArg (fun text => (takeDigits text).1) h
  simp only [List.nil_append, digits] at hdigits
  rw [← Json.digitsValue_toDigits i, hdigits, Json.digitsValue_toDigits]

/-! ### Replacing -/

section replacing

variable (index : Nat) (replacement : List Char)

theorem replaceAll_nil (pattern : List Char) : replaceAll pattern replacement [] = [] := by
  rw [replaceAll]

/-- Text without an opening brace is passed over. -/
theorem replaceAll_append {text : List Char} (h : '{' ∉ text) (rest : List Char) :
    replaceAll (placeholder index) replacement (text ++ rest) =
      text ++ replaceAll (placeholder index) replacement rest := by
  induction text with
  | nil => rfl
  | cons c text ih =>
    have hc : '{' ≠ c := fun hc => h (hc ▸ List.mem_cons_self)
    rw [List.cons_append, replaceAll, if_neg, ih fun h' => h (List.mem_cons_of_mem _ h')]
    · rfl
    · simp [placeholder_eq, List.isPrefixOf, hc]

theorem replaceAll_placeholder_self (rest : List Char) :
    replaceAll (placeholder index) replacement (placeholder index ++ rest) =
      replacement ++ replaceAll (placeholder index) replacement rest := by
  have hdrop : (placeholder index ++ rest).drop (placeholder index).length = rest := by simp
  have hbegins : (placeholder index).isPrefixOf (placeholder index ++ rest) = true :=
    List.isPrefixOf_iff_prefix.2 (List.prefix_append _ _)
  generalize hpattern : placeholder index = pattern at *
  obtain ⟨tail, rfl⟩ : ∃ tail, pattern = '{' :: tail := ⟨_, hpattern ▸ placeholder_eq index⟩
  rw [List.cons_append] at hdrop hbegins ⊢
  rw [replaceAll, if_pos ⟨hbegins, by simp⟩, hdrop]

theorem replaceAll_placeholder_ne {other : Nat} (h : index ≠ other) (rest : List Char) :
    replaceAll (placeholder index) replacement (placeholder other ++ rest) =
      placeholder other ++ replaceAll (placeholder index) replacement rest := by
  have hbegins : ¬ (placeholder index).isPrefixOf (placeholder other ++ rest) = true := fun hbegins =>
    h (eq_of_placeholder_begins (List.isPrefixOf_iff_prefix.1 hbegins))
  rw [placeholder_eq other, List.cons_append] at hbegins ⊢
  rw [replaceAll, if_neg fun h => hbegins h.1,
    replaceAll_append index replacement (brace_not_mem_digits other)]
  rfl

end replacing

/-! ### Templates -/

/-- A part of a template. -/
inductive Piece where
  | char (c : Char)
  /-- The placeholder for the argument of this position. -/
  | slot (index : Nat)
deriving DecidableEq

namespace Piece

/-- How a part is written in the template. -/
def text : Piece → List Char
  | char c => [c]
  | slot index => placeholder index

/-- What stands for a part once the arguments are in their places.  A placeholder without an
argument stays as it is. -/
def filled (args : List String) : Piece → List Char
  | char c => [c]
  | slot index => (args[index]?).elim (placeholder index) String.toList

variable {pieces : List Piece} (hpieces : char '{' ∉ pieces)
include hpieces

/-- One more argument is put in. -/
theorem replaceAll_filled {done : List String} (hdone : ∀ arg ∈ done, '{' ∉ arg.toList)
    (arg : String) :
    replaceAll (placeholder done.length) arg.toList (pieces.flatMap (filled done)) =
      pieces.flatMap (filled (done ++ [arg])) := by
  induction pieces with
  | nil => exact replaceAll_nil _ _
  | cons piece pieces ih =>
    have ih := ih fun h => hpieces (List.mem_cons_of_mem _ h)
    rw [List.flatMap_cons, List.flatMap_cons, ← ih]
    cases piece with
    | char c =>
      have hc : '{' ∉ [c] := fun h => hpieces (by rw [List.mem_singleton.1 h]; exact List.mem_cons_self)
      exact replaceAll_append _ _ hc _
    | slot index =>
      simp only [filled]
      rcases Nat.lt_trichotomy index done.length with hlt | rfl | hgt
      · rw [List.getElem?_append_left hlt, List.getElem?_eq_getElem hlt]
        exact replaceAll_append _ _ (hdone _ (List.getElem_mem hlt)) _
      · simpa using replaceAll_placeholder_self _ _ _
      · rw [List.getElem?_eq_none (Nat.le_of_lt hgt),
          List.getElem?_eq_none (by simpa using Nat.succ_le_of_lt hgt)]
        exact replaceAll_placeholder_ne _ _ (Nat.ne_of_lt hgt) _

theorem fillFrom_filled (done rest : List String)
    (hargs : ∀ arg ∈ (done ++ rest).dropLast, '{' ∉ arg.toList) :
    fillFrom done.length rest (pieces.flatMap (filled done)) =
      pieces.flatMap (filled (done ++ rest)) := by
  induction rest generalizing done with
  | nil => rw [List.append_nil, fillFrom]
  | cons arg rest ih =>
    have hdone : ∀ a ∈ done, '{' ∉ a.toList := fun a ha => hargs a (by
      rw [List.dropLast_append_of_ne_nil (by simp)]
      exact List.mem_append_left _ ha)
    rw [fillFrom, replaceAll_filled hpieces hdone]
    have hnext := ih (done ++ [arg]) (by simpa using hargs)
    simpa using hnext

end Piece

/-- Every argument stands in its places as it is, if the opening braces of the template are those of
placeholders and no argument but the last has any. -/
theorem fill_pieces {pieces : List Piece} (hpieces : .char '{' ∉ pieces) {args : List String}
    (hargs : ∀ arg ∈ args.dropLast, '{' ∉ arg.toList) :
    fill (String.ofList (pieces.flatMap Piece.text)) args =
      String.ofList (pieces.flatMap (Piece.filled args)) := by
  have hstart : pieces.flatMap (Piece.filled []) = pieces.flatMap Piece.text :=
    congrArg (fun f => pieces.flatMap f) (funext fun piece => by cases piece <;> rfl)
  rw [fill, String.toList_ofList, ← hstart]
  exact congrArg String.ofList (Piece.fillFrom_filled hpieces [] args hargs)

/-- The last argument may well be a placeholder. -/
theorem fill_pieces_last :
    fill (String.ofList ([.slot 1, .char '.', .slot 0, .slot 2].flatMap Piece.text)) ["a", "{0}"] =
      "{0}.a{2}" :=
  (fill_pieces (by decide) (by decide)).trans (by decide)

/-- An argument that is a placeholder gives way to the argument of that placeholder. -/
theorem fill_placeholder :
    fill Message.noSuchMember.template ["{1}", "z"] = "'z' contains no such member 'z'." := by
  decide +kernel

/-- The parts of a template whose placeholders have one digit. -/
def Piece.ofTemplate : List Char → List Piece
  | '{' :: digit :: '}' :: rest => .slot (digit.toNat - '0'.toNat) :: ofTemplate rest
  | c :: rest => .char c :: ofTemplate rest
  | [] => []

end Bindery.Text

/-- In the template of a message every opening brace belongs to a placeholder. -/
theorem Bindery.Message.template_eq (message : Message) :
    ∃ pieces : List Text.Piece, .char '{' ∉ pieces ∧
      message.template = String.ofList (pieces.flatMap Text.Piece.text) := by
  obtain ⟨text, htext, hpieces⟩ : ∃ text, message.template = String.ofList text ∧
      .char '{' ∉ Text.Piece.ofTemplate text ∧
        (Text.Piece.ofTemplate text).flatMap Text.Piece.text = text := by
    cases message <;> exact ⟨_, (rfl : _ = String.ofList _), by decide +kernel⟩
  exact ⟨_, hpieces.1, by rw [htext, hpieces.2]⟩
