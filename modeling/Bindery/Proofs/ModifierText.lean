import Mathlib.Data.List.TakeWhile
import Bindery.Syntax.Modifiers

/-!
# Modifiers read back

Every set of modifiers is read back from its text, whichever of its 32 bits are set
(`read?_text`). The text is a list of parts between bars with a blank on both sides of each bar. No
part holds a bar or a blank, so splitting at the bars and trimming gives the parts again; each
named part is read as its bit, the hexadecimal one as the bits without a name, and together they
are all bits of the set.
-/

namespace Bindery

theorem mapM_map_eq_some {α β γ : Type} {f : β → Option γ} {write : α → β} {value : α → γ}
    {list : List α} (h : ∀ a ∈ list, f (write a) = some (value a)) :
    (list.map write).mapM f = some (list.map value) := by
  induction list with
  | nil => rfl
  | cons a list ih =>
    have hrest := ih fun other hother => h other (List.mem_cons_of_mem a hother)
    simp [h a (by simp), hrest]

namespace Text

theorem trim_padded {left part right : List Char} (hleft : ∀ c ∈ left, isBlank c)
    (hpart : ∀ c ∈ part, isBlank c = false) (hright : ∀ c ∈ right, isBlank c) :
    trim (left ++ part ++ right) = part := by
  have hkeep {text : List Char} (htext : ∀ c ∈ text, isBlank c = false) (hne : text ≠ [])
      (rest : List Char) : (text ++ rest).dropWhile isBlank = text ++ rest := by
    obtain ⟨c, tail, rfl⟩ := List.exists_cons_of_ne_nil hne
    simp [htext c (by simp)]
  have hright' : ∀ c ∈ right.reverse, isBlank c := by simpa using hright
  rw [trim, List.append_assoc, List.dropWhile_append_of_pos hleft]
  by_cases hne : part = []
  · simp [hne, List.dropWhile_eq_nil_iff.2 hright]
  · have hback : part.reverse.dropWhile isBlank = part.reverse := by
      simpa using hkeep (by simpa using hpart) (List.reverse_ne_nil_iff.2 hne) []
    rw [hkeep hpart hne right, List.reverse_append, List.dropWhile_append_of_pos hright', hback,
      List.reverse_reverse]

theorem trim_ne_nil {text : List Char} {c : Char} (hc : c ∈ text) (h : isBlank c = false) :
    trim text ≠ [] := by
  intro htrim
  have hblank : ∀ x ∈ text.dropWhile isBlank, isBlank x := by
    simpa [trim, List.dropWhile_eq_nil_iff] using htrim
  have hmem : c ∈ text.dropWhile isBlank := by
    rw [← List.takeWhile_append_dropWhile (p := isBlank) (l := text)] at hc
    rcases List.mem_append.1 hc with hc | hc
    · exact absurd (List.mem_takeWhile_imp hc) (by simp [h])
    · exact hc
  simpa [h] using hblank c hmem

end Text

namespace Modifiers

/-! ### Parts -/

/-- Whether a text can stand between two bars: it holds no bar and no blank, and is not empty. -/
structure IsPart (part : List Char) : Prop where
  ne_nil : part ≠ []
  no_bar : '|' ∉ part
  no_blank : ∀ c ∈ part, Text.isBlank c = false

/-- A part without bars is split off at the bar after it, or stands alone. -/
theorem splitBars_part {part : List Char} (h : '|' ∉ part) (rest : List Char) :
    splitBars part = [part] ∧ splitBars (part ++ '|' :: rest) = part :: splitBars rest := by
  induction part with
  | nil => exact ⟨rfl, rfl⟩
  | cons c part ih =>
    have hc : c ≠ '|' := fun hc => h (by simp [hc])
    have hpart := ih fun hmem => h (List.mem_cons_of_mem c hmem)
    simp [splitBars, hpart]

theorem map_trim_splitBars (left : List Char) (hleft : ∀ c ∈ left, c = ' ')
    {parts : List (List Char)} (hne : parts ≠ []) (hparts : ∀ part ∈ parts, IsPart part) :
    (splitBars (left ++ List.intercalate [' ', '|', ' '] parts)).map Text.trim = parts := by
  have hblank {c : Char} (hc : c = ' ') : Text.isBlank c := by
    rw [hc]
    decide
  induction parts generalizing left with
  | nil => exact absurd rfl hne
  | cons part parts ih =>
    obtain ⟨-, hbar, hpart⟩ := hparts part (by simp)
    have hleftBar : '|' ∉ left := fun hmem => absurd (hleft _ hmem) (by decide)
    have htrim (right : List Char) (hright : ∀ c ∈ right, c = ' ') :
        Text.trim (left ++ part ++ right) = part :=
      Text.trim_padded (fun c hc => hblank (hleft c hc)) hpart fun c hc => hblank (hright c hc)
    by_cases hlast : parts = []
    · have hsplit : splitBars (left ++ part) = [left ++ part] :=
        (splitBars_part (by simp [hleftBar, hbar]) []).1
      have hlone := htrim [] (by simp)
      simp_all
    · have hsplit : splitBars (left ++ part ++ [' '] ++ '|' :: ([' '] ++ _)) = _ :=
        (splitBars_part (by simp [hleftBar, hbar])
          ([' '] ++ List.intercalate [' ', '|', ' '] parts)).2
      have hrest : (splitBars ([' '] ++ List.intercalate [' ', '|', ' '] parts)).map Text.trim =
          parts :=
        ih [' '] (by simp) hlast fun other hother => hparts other (by simp [hother])
      rw [List.intercalate_cons_of_ne_nil hlast]
      simp only [List.append_assoc, List.cons_append, List.nil_append] at hsplit hrest ⊢
      rw [hsplit, List.map_cons, hrest]
      simpa using htrim [' '] (by simp)

/-! ### Hexadecimal numbers -/

theorem exists_digit_of_mem {n : Nat} {c : Char} (h : c ∈ Nat.toDigits 16 n) :
    ∃ digit < 16, c = digit.digitChar := by
  induction n using Nat.strongRecOn with
  | _ n ih =>
    rw [Nat.toDigits_eq_if (by decide)] at h
    split at h
    · next hn => exact ⟨n, hn, by simpa using h⟩
    · rcases List.mem_append.1 h with h | h
      · exact ih (n / 16) (by omega) h
      · exact ⟨n % 16, by omega, by simpa using h⟩

theorem hexDigit?_digitChar : ∀ digit < 16, Json.hexDigit? digit.digitChar = some digit := by decide

theorem mapM_hexDigit? (n : Nat) : ∃ digits, (Nat.toDigits 16 n).mapM Json.hexDigit? = some digits ∧
    digits ≠ [] ∧ digits.foldl (fun value digit => 16 * value + digit) 0 = n := by
  induction n using Nat.strongRecOn with
  | _ n ih =>
    rw [Nat.toDigits_eq_if (by decide)]
    split
    · next hn => exact ⟨[n], by simp [hexDigit?_digitChar n hn], by simp, by simp⟩
    · obtain ⟨digits, hdigits, -, hvalue⟩ := ih (n / 16) (by omega)
      have hlast := hexDigit?_digitChar (n % 16) (by omega)
      refine ⟨digits ++ [n % 16], by simp [hdigits, hlast], by simp, ?_⟩
      rw [List.foldl_append, hvalue]
      simp only [List.foldl_cons, List.foldl_nil]
      omega

theorem readHex?_toDigits {n : Nat} (h : n < UInt32.size) :
    readHex? (Nat.toDigits 16 n) = some ⟨UInt32.ofNat n⟩ := by
  obtain ⟨digits, hdigits, hne, hvalue⟩ := mapM_hexDigit? n
  unfold readHex?
  split
  · next rest heq =>
    obtain ⟨digit, -, hplus⟩ := exists_digit_of_mem (n := n) (c := '+') (by simp [heq])
    exact absurd hplus.symm (Nat.digitChar_ne '+' (by decide))
  · have hbounds : (digits.isEmpty || decide (UInt32.size ≤ n)) = false := by
      rw [List.isEmpty_eq_false_iff.2 hne, decide_eq_false (Nat.not_le.2 h), Bool.or_self]
    simp only [hdigits, hvalue, hbounds, bind, Option.bind]
    rfl

theorem isPart_hex (n : Nat) : IsPart ('0' :: 'x' :: Nat.toDigits 16 n) := by
  have hdigits : ∀ digit < 16, digit.digitChar ≠ '|' ∧ Text.isBlank digit.digitChar = false := by
    decide
  have hchars : ∀ c ∈ '0' :: 'x' :: Nat.toDigits 16 n, c ≠ '|' ∧ Text.isBlank c = false := by
    intro c hc
    rcases List.mem_cons.1 hc with rfl | hc
    · decide
    rcases List.mem_cons.1 hc with rfl | hc
    · decide
    obtain ⟨digit, hdigit, rfl⟩ := exists_digit_of_mem hc
    exact hdigits digit hdigit
  exact ⟨by simp, fun h => (hchars '|' h).1 rfl, fun c hc => (hchars c hc).2⟩

/-! ### Bits -/

/-- The parts that the text of a set is made of, each with what it stands for. -/
def parts (m : Modifiers) : List (List Char × Modifiers) :=
  let rest := m.bits &&& ~~~known
  ((named.filter fun entry => m.contains entry.2).map fun entry => (entry.1.toList, entry.2)) ++
    if rest = 0 then [] else [('0' :: 'x' :: Nat.toDigits 16 rest.toNat, ⟨rest⟩)]

theorem toList_text (m : Modifiers) :
    m.text.toList = List.intercalate [' ', '|', ' '] (m.parts.map (·.1)) := by
  simp only [text, parts, String.toList_intercalate]
  congr 1
  split <;> simp

theorem named_spec : ∀ entry ∈ named, entry.1.toList ≠ [] ∧ '|' ∉ entry.1.toList ∧
    (entry.1.toList.all fun c => !Text.isBlank c) ∧ readPart? entry.1.toList = some entry.2 := by
  decide +kernel

theorem part_spec {m : Modifiers} {part : List Char × Modifiers} (h : part ∈ m.parts) :
    IsPart part.1 ∧ readPart? part.1 = some part.2 := by
  simp only [parts] at h
  rcases List.mem_append.1 h with h | h
  · obtain ⟨entry, hentry, rfl⟩ := List.mem_map.1 h
    obtain ⟨hne, hbar, hblank, hread⟩ := named_spec entry (List.mem_filter.1 hentry).1
    exact ⟨⟨hne, hbar, fun c hc => by simpa using List.all_eq_true.1 hblank c hc⟩, hread⟩
  · split at h
    · simp at h
    · obtain rfl := List.mem_singleton.1 h
      refine ⟨isPart_hex _, ?_⟩
      rw [readPart?, readHex?_toDigits (UInt32.toNat_lt_size _), UInt32.ofNat_toNat]

theorem and_or_left (a b c : UInt32) : a &&& (b ||| c) = a &&& b ||| a &&& c := by
  apply UInt32.eq_of_toBitVec_eq
  simp [BitVec.and_or_distrib_left]

/-- A named bit is in a set or not. -/
theorem and_named (m : Modifiers) :
    ∀ entry ∈ named, m.bits &&& entry.2.bits = if m.contains entry.2 then entry.2.bits else 0 := by
  have hbit (index : Nat) {flag : Modifiers} (hflag : flag.bits.toBitVec = BitVec.twoPow 32 index)
      (hne : flag.bits ≠ 0) :
      m.bits &&& flag.bits = if m.contains flag then flag.bits else 0 := by
    have hand : m.bits &&& flag.bits = flag.bits ∨ m.bits &&& flag.bits = 0 := by
      have htwo := BitVec.and_twoPow m.bits.toBitVec index
      rw [← hflag, ← UInt32.toBitVec_and] at htwo
      split at htwo
      · exact .inl (UInt32.eq_of_toBitVec_eq htwo)
      · exact .inr (UInt32.eq_of_toBitVec_eq htwo)
    rcases hand with hand | hand
    · simp [contains, hand]
    · simp [contains, hand, hne.symm]
  intro entry hentry
  simp only [named, List.mem_cons, List.not_mem_nil, or_false] at hentry
  rcases hentry with rfl | rfl | rfl | rfl | rfl | rfl
  · exact hbit 0 (by decide) (by decide)
  · exact hbit 1 (by decide) (by decide)
  · exact hbit 2 (by decide) (by decide)
  · exact hbit 3 (by decide) (by decide)
  · exact hbit 4 (by decide) (by decide)
  · exact hbit 5 (by decide) (by decide)

theorem foldl_union_filter {m : Modifiers} {entries : List (String × Modifiers)}
    (h : ∀ entry ∈ entries,
      m.bits &&& entry.2.bits = if m.contains entry.2 then entry.2.bits else 0)
    (bits : UInt32) :
    ((entries.filter fun entry => m.contains entry.2).map (·.2)).foldl union ⟨bits⟩ =
      ⟨entries.foldl (fun bits entry => bits ||| (m.bits &&& entry.2.bits)) bits⟩ := by
  induction entries generalizing bits with
  | nil => rfl
  | cons entry entries ih =>
    have hentry := h entry (by simp)
    have hrest := ih fun other hother => h other (List.mem_cons_of_mem _ hother)
    rw [List.foldl_cons, hentry, ← hrest]
    by_cases hcontains : m.contains entry.2 <;> simp [hcontains, union]

theorem foldl_union_parts (m : Modifiers) : (m.parts.map (·.2)).foldl union none = m := by
  have hnamed : ((named.filter fun entry => m.contains entry.2).map (·.2)).foldl union none =
      ⟨m.bits &&& known⟩ := by
    have hknown : known = 1 ||| 2 ||| 4 ||| 8 ||| 16 ||| 32 := by decide
    rw [none, foldl_union_filter m.and_named, hknown]
    simp [named, and_or_left, isPublic, isPrivate, isProtected, isStatic, isConst, isLowLevel]
  have hall : m.bits &&& known ||| m.bits &&& ~~~known = m.bits := by
    rw [← and_or_left, UInt32.or_not_self, UInt32.and_neg_one]
  simp only [parts, List.map_append, List.map_map, List.foldl_append]
  rw [show (·.2) ∘ (fun entry : String × Modifiers => (entry.1.toList, entry.2)) = (·.2) from rfl,
    hnamed]
  split
  · next hrest => simp_all
  · simp [union, hall]

/-- Every set of modifiers is read back from its text. -/
theorem read?_text (m : Modifiers) : read? m.text = some m := by
  have hfold := foldl_union_parts m
  by_cases hparts : m.parts = []
  · have htext : m.text.toList = [] := by simp [toList_text, hparts, List.intercalate_nil]
    have hnone : none = m := by simpa [hparts] using hfold
    simp [read?, htext, hnone, Text.trim]
  · have hspec : ∀ part ∈ m.parts.map (·.1), IsPart part := by
      intro part hpart
      obtain ⟨entry, hentry, rfl⟩ := List.mem_map.1 hpart
      exact (part_spec hentry).1
    have hsplit : (splitBars m.text.toList).map Text.trim = m.parts.map (·.1) := by
      rw [toList_text]
      exact map_trim_splitBars [] (by simp) (by simpa using hparts) hspec
    have hread : (m.parts.map (·.1)).mapM readPart? = some (m.parts.map (·.2)) :=
      mapM_map_eq_some fun part hpart => (part_spec hpart).2
    have htrim : Text.trim m.text.toList ≠ [] := by
      obtain ⟨part, rest, hcons⟩ := List.exists_cons_of_ne_nil hparts
      have hmem : part ∈ m.parts := by simp [hcons]
      obtain ⟨⟨hne, -, hblank⟩, -⟩ := part_spec hmem
      obtain ⟨c, tail, htail⟩ := List.exists_cons_of_ne_nil hne
      refine Text.trim_ne_nil ?_ (hblank c (by simp [htail]))
      rw [toList_text, hcons, List.map_cons, htail, List.intercalate_cons_cons_left]
      simp
    rw [← hsplit, List.mapM_map, Function.comp_def] at hread
    simp only [read?, List.isEmpty_iff, htrim, if_false]
    simp [hread, hfold]

end Modifiers
end Bindery
