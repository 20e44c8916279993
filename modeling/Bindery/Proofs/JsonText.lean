import Mathlib.Data.List.Forall2
import Mathlib.Data.List.TakeDrop
import Bindery.Json.Parser
import Bindery.Json.Printer

/-!
# Reading what was written

The reader inverts the writer, up to two things that the text does not keep: a string that is no
text is written empty, and a number comes back with the digits and the exponent of its text.
`reread` is a value after both changes, and `parse?_render` says that the text of a value is read as
just that.

* A piece of text is read with whatever follows it left over, so each lemma is about the text and a
  rest. A number is over only where the rest does not carry it on (`Closes`).
* The fuel of the reader is bounded by the length of the text: every value and every separator takes
  a character.
-/

namespace Bindery.Json

/-- Whether a text that stands right after a number leaves the number as it is. -/
def Closes (rest : List Char) : Prop :=
  ∀ c ∈ rest.head?, c.isDigit = false ∧ c ≠ '.' ∧ c ≠ 'e' ∧ c ≠ 'E'

theorem closes_nil : Closes [] := by simp [Closes]

theorem closes_cons {c : Char} {rest : List Char}
    (h : c.isDigit = false ∧ c ≠ '.' ∧ c ≠ 'e' ∧ c ≠ 'E') : Closes (c :: rest) := by
  simpa [Closes] using h

/-! ### Digits -/

theorem takeDigits_append {digits rest : List Char} (hdigits : ∀ c ∈ digits, c.isDigit)
    (hrest : ∀ c ∈ rest.head?, c.isDigit = false) :
    Text.takeDigits (digits ++ rest) = (digits, rest) := by
  have htake : rest.takeWhile Char.isDigit = [] := by cases rest <;> simp_all
  have hdrop : rest.dropWhile Char.isDigit = rest := by cases rest <;> simp_all
  rw [Text.takeDigits, List.span_eq_takeWhile_dropWhile, List.takeWhile_append_of_pos hdigits,
    List.dropWhile_append_of_pos hdigits, htake, hdrop, List.append_nil]

variable {n : Nat}

theorem isDigit_of_mem_toDigits {c : Char} (h : c ∈ Nat.toDigits 10 n) : c.isDigit :=
  Nat.isDigit_of_mem_toDigits (by decide) (by decide) h

theorem digitsValue_toDigits (n : Nat) : Text.digitsValue (Nat.toDigits 10 n) = n := by
  rw [Text.digitsValue, ← Nat.ofDigitChars_eq_foldl, Nat.ofDigitChars_ten_toDigits]

theorem head?_toDigits_ne_zero (h : n ≠ 0) : (Nat.toDigits 10 n).head? ≠ some '0' := by
  induction n using Nat.strongRecOn with
  | _ n ih =>
    rw [Nat.toDigits_eq_if (by decide)]
    split
    · simpa [Nat.digitChar_eq_zero] using h
    · have hne : Nat.toDigits 10 (n / 10) ≠ [] := Nat.toDigits_ne_nil
      rw [List.head?_append_of_ne_nil _ hne]
      exact ih (n / 10) (by omega) (by omega)

namespace Number

theorem le_ofDigitChars (digits : List Char) (n : Nat) : n ≤ Nat.ofDigitChars 10 digits n := by
  induction digits generalizing n with
  | nil => simp
  | cons c rest ih =>
    rw [Nat.ofDigitChars_cons]
    exact Nat.le_trans (by omega) (ih _)

theorem appendDigits_eq {digits : List Char} {n : Nat}
    (h : Nat.ofDigitChars 10 digits n ≤ maxDigits) :
    appendDigits n digits = (Nat.ofDigitChars 10 digits n, 0) := by
  induction digits generalizing n with
  | nil => simp [appendDigits]
  | cons c rest ih =>
    rw [Nat.ofDigitChars_cons] at h ⊢
    have hle := Nat.le_trans (le_ofDigitChars rest _) h
    simp only [appendDigits, if_pos hle]
    exact ih h

/-! ### Numbers -/

/-- Whether digits and a point are laid out in the way numbers are written. -/
structure Layout.Formed (l : Layout) : Prop where
  whole_ne : l.whole ≠ []
  isDigit_whole : ∀ c ∈ l.whole, c.isDigit
  isDigit_fraction : ∀ c ∈ l.fraction, c.isDigit
  no_zeros : l.whole.head? = some '0' → l.whole.length ≤ 1

theorem layout_formed (n : Number) : n.layout.Formed := by
  have hdigits : ∀ c ∈ Nat.toDigits 10 n.digits, c.isDigit := fun c => isDigit_of_mem_toDigits
  have hzeros (count : Nat) : ∀ c ∈ List.replicate count '0', c.isDigit := by
    intro c hc
    rw [List.eq_of_mem_replicate hc]
    decide
  have hne : Nat.toDigits 10 n.digits ≠ [] := Nat.toDigits_ne_nil
  simp only [layout]
  generalize (((Nat.toDigits 10 n.digits).length : Int) + n.exponent) = place
  split
  · refine ⟨hne, hdigits, by simp, fun h => ?_⟩
    by_cases hzero : n.digits = 0
    · simp [hzero, Nat.toDigits_zero]
    · exact absurd h (head?_toDigits_ne_zero hzero)
  split
  · exact ⟨by simp, by simp, by simp, by simp⟩
  next hzero =>
  have hhead := head?_toDigits_ne_zero hzero
  -- the first digits, as many as there are before the point
  have hfirst (count : Nat) (hcount : count ≠ 0) (exponent : Option Int) : Layout.Formed
      ⟨(Nat.toDigits 10 n.digits).take count, (Nat.toDigits 10 n.digits).drop count, exponent⟩ := by
    refine ⟨by simp [hne, hcount], fun c hc => hdigits c (List.mem_of_mem_take hc),
      fun c hc => hdigits c (List.mem_of_mem_drop hc), fun h => ?_⟩
    rw [List.head?_take, if_neg hcount] at h
    exact absurd h hhead
  split
  · refine ⟨by simp [hne], ?_, by simp, fun h => ?_⟩
    · intro c hc
      rcases List.mem_append.1 hc with hc | hc
      · exact hdigits c hc
      · exact hzeros _ c hc
    · rw [List.head?_append_of_ne_nil _ hne] at h
      exact absurd h hhead
  split
  · exact hfirst place.toNat (by omega) none
  split
  · refine ⟨by simp, by simp, fun c hc => ?_, by simp⟩
    rcases List.mem_append.1 hc with hc | hc
    · exact hzeros _ c hc
    · exact hdigits c hc
  · exact hfirst 1 (by omega) _

/-- The number that is read from the text of a number. -/
def reread (n : Number) : Number :=
  .ofDigits n.negative n.layout.whole n.layout.fraction n.layout.exponent

theorem reread_ofInt {n : Int} (h : n.natAbs ≤ maxDigits) : (ofInt n).reread = ofInt n := by
  have hvalue : Nat.ofDigitChars 10 (Nat.toDigits 10 n.natAbs) 0 = n.natAbs :=
    Nat.ofDigitChars_ten_toDigits
  have happend := appendDigits_eq (hvalue.symm ▸ h)
  rw [hvalue] at happend
  simp [reread, ofInt, layout, ofDigits, happend, appendDigits]

theorem takeMinus_chars (n : Number) (rest : List Char) :
    takeMinus (n.chars ++ rest) = (n.negative, n.layout.chars ++ rest) := by
  unfold chars
  split
  · next h => simp [takeMinus, h]
  · next h =>
    obtain ⟨hne, hwhole, -, -⟩ := n.layout_formed
    obtain ⟨c, digits, hcons⟩ := List.exists_cons_of_ne_nil hne
    have hminus : c ≠ '-' := by
      rintro rfl
      exact absurd (hwhole '-' (by simp [hcons])) (by decide)
    simp [takeMinus, Layout.chars, hcons, hminus, h]

variable {rest : List Char}

theorem parseFraction_append {fraction : List Char} (hfraction : ∀ c ∈ fraction, c.isDigit)
    (hrest : ∀ c ∈ rest.head?, c.isDigit = false ∧ c ≠ '.') :
    parseFraction (fractionChars fraction ++ rest) = some (fraction, rest) := by
  cases fraction with
  | nil =>
    cases rest with
    | nil => rfl
    | cons c rest => simp_all [parseFraction, fractionChars]
  | cons c fraction =>
    have htake := takeDigits_append hfraction fun c hc => (hrest c hc).1
    simp_all [parseFraction, fractionChars]

theorem takeSign_intChars (n : Int) (rest : List Char) :
    Text.takeSign (intChars n ++ rest) = (decide (n < 0), Nat.toDigits 10 n.natAbs ++ rest) := by
  unfold intChars
  split
  · next h => simp [Text.takeSign, h]
  · next h =>
    cases hdigits : Nat.toDigits 10 n.natAbs with
    | nil => exact absurd hdigits Nat.toDigits_ne_nil
    | cons c digits =>
      have hc : c.isDigit := isDigit_of_mem_toDigits (n := n.natAbs) (by simp [hdigits])
      have hminus : c ≠ '-' := by rintro rfl; exact absurd hc (by decide)
      have hplus : c ≠ '+' := by rintro rfl; exact absurd hc (by decide)
      simp [Text.takeSign, hminus, hplus, h]

theorem parseExponent_append (hrest : Closes rest) (exponent : Option Int) :
    parseExponent (exponentChars exponent ++ rest) = some (exponent, rest) := by
  cases exponent with
  | none =>
    cases rest with
    | nil => rfl
    | cons c rest => simp_all [parseExponent, exponentChars, Closes]
  | some exponent =>
    have htake := takeDigits_append (fun c => isDigit_of_mem_toDigits (n := exponent.natAbs))
      fun c hc => (hrest c hc).1
    have hne : (Nat.toDigits 10 exponent.natAbs).isEmpty = false :=
      List.isEmpty_eq_false_iff.2 Nat.toDigits_ne_nil
    rw [exponentChars, List.cons_append, parseExponent, if_neg (by decide), takeSign_intChars]
    simp only [htake, hne, digitsValue_toDigits, Bool.false_eq_true, if_false, Option.some.injEq,
      Prod.mk.injEq, and_true, decide_eq_true_eq]
    split <;> omega

theorem head?_exponentChars_append (exponent : Option Int) (hrest : Closes rest) :
    ∀ c ∈ (exponentChars exponent ++ rest).head?, c.isDigit = false ∧ c ≠ '.' := by
  cases exponent with
  | none => exact fun c hc => ⟨(hrest c hc).1, (hrest c hc).2.1⟩
  | some exponent => simp [exponentChars]

theorem head?_fractionChars_append (fraction : List Char)
    (hrest : ∀ c ∈ rest.head?, c.isDigit = false ∧ c ≠ '.') :
    ∀ c ∈ (fractionChars fraction ++ rest).head?, c.isDigit = false := by
  cases fraction with
  | nil => exact fun c hc => (hrest c hc).1
  | cons c fraction => simp [fractionChars]

theorem parseNumber_chars (n : Number) (hrest : Closes rest) :
    parseNumber (n.chars ++ rest) = some (n.reread, rest) := by
  obtain ⟨hne, hwhole, hfraction, hzeros⟩ := n.layout_formed
  have hexponent := parseExponent_append hrest n.layout.exponent
  have hclose := head?_exponentChars_append n.layout.exponent hrest
  have hparse := parseFraction_append hfraction hclose
  have htake := takeDigits_append hwhole (head?_fractionChars_append n.layout.fraction hclose)
  unfold parseNumber
  rw [takeMinus_chars]
  simp only [Layout.chars, List.append_assoc, htake]
  rw [if_neg (by simpa using ⟨hne, hzeros⟩), hparse]
  simp [hexponent, reread]

end Number

/-! ### Strings -/

/-- The two ways to spell a character: by itself, or a control character by its code. -/
inductive Spells : Piece → Char → Prop where
  | char (c : Char) : Spells (.char c) c
  | code {c : Char} (h : c.toNat < 0x20) : Spells (.code c.toNat) c

theorem hexDigit?_hexChar : ∀ digit < 16, hexDigit? (hexChar digit) = some digit := by decide

theorem hexCode?_control (h : n < 0x20) :
    hexCode? '0' '0' (hexChar (n / 16)) (hexChar (n % 16)) = some n := by
  have hhigh := hexDigit?_hexChar (n / 16) (by omega)
  have hlow := hexDigit?_hexChar (n % 16) (by omega)
  have hzero : hexDigit? '0' = some 0 := by decide
  simp only [hexCode?, hzero, hhigh, hlow, bind, Option.bind, pure]
  congr 1
  omega

theorem pieces_stringChar (c : Char) (text : List Char) :
    ∃ piece, Spells piece c ∧ pieces (stringChar c ++ text) =
      (pieces text).map fun (tail, rest) => (piece :: tail, rest) := by
  -- the seven short escapes, which all read as the character itself
  have hshort {e : Char} (he : shortEscape? e = some c) (hu : e ≠ 'u') :
      pieces (['\\', e] ++ text) =
        (pieces text).map fun (tail, rest) => (.char c :: tail, rest) := by
    simp [pieces, hu, he]
    cases pieces text <;> rfl
  unfold stringChar
  split
  case h_8 c hquote hslash _ _ _ _ _ =>
    split
    · next hc =>
      refine ⟨_, .code hc, ?_⟩
      simp [pieces, hexCode?_control hc]
      cases pieces text <;> rfl
    · next hc =>
      refine ⟨_, .char _, ?_⟩
      rw [List.singleton_append, pieces.eq_def]
      cases hpieces : pieces text <;> simp_all
  all_goals exact ⟨_, .char _, hshort (by decide) (by decide)⟩

theorem exists_pieces (chars rest : List Char) :
    ∃ found, List.Forall₂ Spells found chars ∧
      pieces (chars.flatMap stringChar ++ '"' :: rest) = some (found, rest) := by
  induction chars with
  | nil => exact ⟨[], .nil, rfl⟩
  | cons c chars ih =>
    obtain ⟨found, hfound, heq⟩ := ih
    obtain ⟨piece, hpiece, hcons⟩ := pieces_stringChar c (chars.flatMap stringChar ++ '"' :: rest)
    refine ⟨piece :: found, .cons hpiece hfound, ?_⟩
    rw [List.flatMap_cons, List.append_assoc, hcons, heq]
    rfl

theorem joinPieces_code {unit : Nat} (h : unit < 0x20) (rest : List Piece) :
    joinPieces (.code unit :: rest) = (joinPieces rest).map (Char.ofNat unit :: ·) := by
  have hhigh : isHighSurrogate unit = false := by simp [isHighSurrogate]; omega
  have hlow : isLowSurrogate unit = false := by simp [isLowSurrogate]; omega
  rcases rest with - | ⟨_ | _, rest⟩ <;> simp [joinPieces, hhigh, hlow]

theorem joinPieces_of_spells {found : List Piece} {chars : List Char}
    (h : List.Forall₂ Spells found chars) : joinPieces found = some chars := by
  induction h with
  | nil => rfl
  | cons hpiece _ ih =>
    cases hpiece with
    | char c => simp [joinPieces, ih]
    | code hc => simp [joinPieces_code hc, ih, Char.ofNat_toNat]

/-- The string that is read from the text of a string. -/
def rereadText (text : Text) : Text := some (text.getD "")

theorem parseText_textChars (text : Text) (rest : List Char) :
    ∃ tail, textChars text ++ rest = '"' :: tail ∧
      parseText tail = some (rereadText text, rest) := by
  obtain ⟨found, hfound, hpieces⟩ := exists_pieces (text.getD "").toList rest
  refine ⟨_, by rw [textChars, List.cons_append, List.cons_append], ?_⟩
  simp [parseText, hpieces, joinPieces_of_spells hfound, rereadText]

/-! ### Values -/

mutual

/-- The value that is read from the text of a value. -/
def reread : Json → Json
  | null => .null
  | bool value => .bool value
  | number n => .number n.reread
  | string text => .string (rereadText text)
  | array items => .array (rereadItems items)
  | object members => .object (rereadMembers members)

def rereadItems : List Json → List Json
  | [] => []
  | item :: rest => reread item :: rereadItems rest

def rereadMembers : List (Text × Json) → List (Text × Json)
  | [] => []
  | (name, value) :: rest => (rereadText name, reread value) :: rereadMembers rest

end

variable {c : Char}

theorem skipBlanks_cons (h : isJsonBlank c = false) (rest : List Char) :
    skipBlanks (c :: rest) = c :: rest := by
  simp [skipBlanks, h]

theorem Number.exists_chars (n : Number) :
    ∃ c rest, n.chars = c :: rest ∧ (c.isDigit ∨ c = '-') := by
  obtain ⟨hne, hwhole, -, -⟩ := n.layout_formed
  obtain ⟨c, digits, hcons⟩ := List.exists_cons_of_ne_nil hne
  unfold chars
  split
  · exact ⟨'-', _, rfl, .inr rfl⟩
  · refine ⟨c, digits ++ fractionChars n.layout.fraction ++ exponentChars n.layout.exponent, ?_,
      .inl (hwhole c (by simp [hcons]))⟩
    rw [Layout.chars, hcons, List.cons_append, List.cons_append]

theorem not_blank_of_number (h : c.isDigit ∨ c = '-') : isJsonBlank c = false := by
  by_contra hblank
  simp only [isJsonBlank, Bool.not_eq_false, Bool.or_eq_true, beq_iff_eq] at hblank
  rcases hblank with ((rfl | rfl) | rfl) | rfl <;> exact absurd h (by decide)

/-- No value starts with a blank or a closing bracket. -/
theorem exists_chars (value : Json) :
    ∃ c rest, value.chars = c :: rest ∧ isJsonBlank c = false ∧ c ≠ ']' := by
  match value with
  | null => exact ⟨_, _, rfl, by decide, by decide⟩
  | bool true => exact ⟨_, _, rfl, by decide, by decide⟩
  | bool false => exact ⟨_, _, rfl, by decide, by decide⟩
  | string _ => exact ⟨_, _, rfl, by decide, by decide⟩
  | array [] => exact ⟨_, _, rfl, by decide, by decide⟩
  | array (_ :: _) => exact ⟨_, _, rfl, by decide, by decide⟩
  | object [] => exact ⟨_, _, rfl, by decide, by decide⟩
  | object (_ :: _) => exact ⟨_, _, rfl, by decide, by decide⟩
  | number n =>
    obtain ⟨c, rest, hchars, hc⟩ := n.exists_chars
    refine ⟨c, rest, by rw [chars, hchars], not_blank_of_number hc, ?_⟩
    rintro rfl
    exact absurd hc (by decide)

theorem parseValue_number (hc : c.isDigit ∨ c = '-') (fuel : Nat) (text : List Char) :
    parseValue (fuel + 1) (c :: text) =
      (parseNumber (c :: text)).map fun (n, rest) => (.number n, rest) := by
  rw [parseValue, skipBlanks_cons (not_blank_of_number hc)]
  split <;> simp_all

theorem parseValue_string {text rest : List Char} {value : Text} (fuel : Nat)
    (h : parseText text = some (value, rest)) :
    parseValue (fuel + 1) ('"' :: text) = some (.string value, rest) := by
  rw [parseValue, skipBlanks_cons (by decide)]
  simp [h]

variable {fuel : Nat} {items : List Json}

theorem parseValue_array {text rest : List Char} (hblank : isJsonBlank c = false) (hclose : c ≠ ']')
    (h : parseItems fuel (c :: text) = some (items, rest)) :
    parseValue (fuel + 1) ('[' :: c :: text) = some (.array items, rest) := by
  rw [parseValue, skipBlanks_cons (by decide)]
  simp [skipBlanks_cons hblank, hclose, h]

theorem parseValue_object {text rest : List Char} {members : List (Text × Json)}
    (h : parseMembers fuel ('"' :: text) = some (members, rest)) :
    parseValue (fuel + 1) ('{' :: '"' :: text) = some (.object members, rest) := by
  rw [parseValue, skipBlanks_cons (by decide)]
  simp [skipBlanks_cons (c := '"') (by decide), h]

theorem parseItems_last {text rest : List Char} {item : Json}
    (h : parseValue fuel text = some (item, ']' :: rest)) :
    parseItems (fuel + 1) text = some ([item], rest) := by
  simp [parseItems, h, skipBlanks_cons (c := ']') (by decide)]

theorem parseItems_more {text next rest : List Char} {item : Json}
    (h : parseValue fuel text = some (item, ',' :: next))
    (hitems : parseItems fuel next = some (items, rest)) :
    parseItems (fuel + 1) text = some (item :: items, rest) := by
  simp [parseItems, h, skipBlanks_cons (c := ',') (by decide), hitems]

section

variable {text behind rest : List Char} {name : Text} {value : Json} {fuel : Nat}
  (hname : parseText text = some (name, ':' :: behind))

include hname

theorem parseMembers_last (h : parseValue fuel behind = some (value, '}' :: rest)) :
    parseMembers (fuel + 1) ('"' :: text) = some ([(name, value)], rest) := by
  simp [parseMembers, hname, h, skipBlanks_cons (c := '"') (by decide),
    skipBlanks_cons (c := ':') (by decide), skipBlanks_cons (c := '}') (by decide)]

theorem parseMembers_more {next : List Char} {members : List (Text × Json)}
    (h : parseValue fuel behind = some (value, ',' :: next))
    (hmembers : parseMembers fuel next = some (members, rest)) :
    parseMembers (fuel + 1) ('"' :: text) = some ((name, value) :: members, rest) := by
  simp [parseMembers, hname, h, hmembers, skipBlanks_cons (c := '"') (by decide),
    skipBlanks_cons (c := ':') (by decide), skipBlanks_cons (c := ',') (by decide)]

end

theorem closes_itemChars (items : List Json) (rest : List Char) :
    Closes (itemChars items ++ rest) := by
  cases items <;> exact closes_cons (by decide)

theorem closes_memberChars (members : List (Text × Json)) (rest : List Char) :
    Closes (memberChars members ++ rest) := by
  rcases members with - | ⟨⟨_, _⟩, _⟩ <;> exact closes_cons (by decide)

mutual

theorem parseValue_chars (value : Json) (fuel : Nat) (rest : List Char)
    (hfuel : value.chars.length ≤ fuel) (hrest : Closes rest) :
    parseValue fuel (value.chars ++ rest) = some (value.reread, rest) := by
  obtain ⟨c, text, hchars, -, -⟩ := value.exists_chars
  obtain ⟨fuel, rfl⟩ : ∃ n, fuel = n + 1 := ⟨fuel - 1, by simp [hchars] at hfuel; omega⟩
  match value with
  | null | bool true | bool false | array [] | object [] => rfl
  | number n =>
    obtain ⟨c, text, hchars, hc⟩ := n.exists_chars
    have hparse := n.parseNumber_chars hrest
    rw [hchars, List.cons_append] at hparse
    rw [chars, hchars, List.cons_append, parseValue_number hc, hparse]
    rfl
  | string text =>
    obtain ⟨tail, htail, hparse⟩ := parseText_textChars text rest
    rw [chars, htail]
    exact parseValue_string fuel hparse
  | array (item :: items) =>
    have hitems := parseItems_chars (item :: items) fuel rest (by simp) hfuel
    obtain ⟨c, text, hchars, hblank, hclose⟩ := item.exists_chars
    rw [itemChars, List.cons_append, List.tail_cons, hchars] at hitems
    rw [chars, hchars]
    exact parseValue_array hblank hclose hitems
  | object ((name, value) :: members) =>
    exact parseValue_object
      (parseMembers_chars ((name, value) :: members) fuel rest (by simp) hfuel)

theorem parseItems_chars (items : List Json) (fuel : Nat) (rest : List Char) (hne : items ≠ [])
    (hfuel : (itemChars items).length ≤ fuel + 1) :
    parseItems fuel ((itemChars items).tail ++ rest) = some (rereadItems items, rest) := by
  match items with
  | item :: items =>
    have hpos : 0 < (itemChars items).length := by cases items <;> simp [itemChars]
    simp only [itemChars, List.length_cons, List.length_append, List.cons_append] at hfuel
    obtain ⟨fuel, rfl⟩ : ∃ n, fuel = n + 1 := ⟨fuel - 1, by omega⟩
    have hitem := parseValue_chars item fuel (itemChars items ++ rest) (by omega)
      (closes_itemChars items rest)
    rw [itemChars, List.cons_append, List.tail_cons, List.append_assoc]
    cases items with
    | nil => exact parseItems_last hitem
    | cons next items =>
      exact parseItems_more hitem (parseItems_chars (next :: items) fuel rest (by simp) (by omega))

theorem parseMembers_chars (members : List (Text × Json)) (fuel : Nat) (rest : List Char)
    (hne : members ≠ []) (hfuel : (memberChars members).length ≤ fuel + 1) :
    parseMembers fuel ((memberChars members).tail ++ rest) =
      some (rereadMembers members, rest) := by
  match members with
  | (name, value) :: members =>
    have hpos : 0 < (memberChars members).length := by
      rcases members with - | ⟨⟨_, _⟩, _⟩ <;> simp [memberChars]
    simp only [memberChars, List.length_cons, List.length_append, List.cons_append] at hfuel
    obtain ⟨fuel, rfl⟩ : ∃ n, fuel = n + 1 := ⟨fuel - 1, by omega⟩
    have hvalue := parseValue_chars value fuel (memberChars members ++ rest) (by omega)
      (closes_memberChars members rest)
    obtain ⟨tail, htail, hname⟩ :=
      parseText_textChars name (':' :: (value.chars ++ (memberChars members ++ rest)))
    have htext : (memberChars ((name, value) :: members)).tail ++ rest = '"' :: tail := by
      simpa [memberChars] using htail
    rw [htext]
    cases members with
    | nil => exact parseMembers_last hname hvalue
    | cons next members =>
      exact parseMembers_more hname hvalue
        (parseMembers_chars (next :: members) fuel rest (by simp) (by omega))

end

/-- The text of a value is read as that value, reread. -/
theorem parse?_render (value : Json) : parse? value.render = some value.reread := by
  have hvalue := parseValue_chars value (value.chars.length + 1) [] (by omega) closes_nil
  rw [List.append_nil] at hvalue
  rw [parse?, render, String.toList_ofList, hvalue]
  rfl

end Bindery.Json
