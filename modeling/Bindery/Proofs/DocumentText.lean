import Bindery.Proofs.JsonText
import Bindery.Proofs.ModifierText
import Bindery.Proofs.TreeLinks
import Mathlib.Algebra.Group.Nat.Defs

/-!
# Documents read back

The text of a document is read as that document (`read?_write`), whichever kinds, optional fields,
modifiers and strings its nodes have. Only numbers have bounds (`Node.Fits`): the numbers of nodes
have 32 bits, integers 64, and a decimal is finite and the one that is read from its own text.

The fields of a node other than a literal are strings, flags, numbers and lists of numbers, which
the text keeps as they are (`Json.IsKept`). A node is therefore read from the fields it was written
with, each found under its name: `nodeOf?_nodeParts` goes through the kinds. The number of a decimal
may come back with other digits, so literals are read from what their text gives
(`literal?_reread`).
-/

namespace Bindery

/-! ### Integers are finite decimals -/

namespace Decimal

variable {d : Decimal} {num den e : Nat}

theorem roundAt_le {scale : Int} {k : Nat} (hscale : scale + 1074 ≤ k) (h : num / den < 2 * leadingBit) :
    roundAt scale num den ≤ (k + 2) * leadingBit := by
  unfold roundAt leadingBit at *
  refine Nat.le_trans (Nat.min_le_left ..) ?_
  have hk : (scale + 1074).toNat ≤ k := by omega
  split <;> grind

/-- A ratio below `2 ^ e` rounds to a decimal whose exponent field is at most `e + 1024`. -/
theorem roundRatio_le (hden : den ≠ 0) (h : num < den * 2 ^ e) :
    roundRatio num den ≤ (e + 1024) * leadingBit := by
  by_cases hnum : num = 0
  · simp [roundRatio, hnum]
  have hlog : num.log2 < den.log2 + 1 + e := by
    apply (Nat.pow_lt_pow_iff_right (a := 2) (by decide)).1
    calc 2 ^ num.log2 ≤ num := Nat.log2_self_le hnum
      _ < den * 2 ^ e := h
      _ ≤ 2 ^ (den.log2 + 1) * 2 ^ e := Nat.mul_le_mul_right _ (Nat.le_of_lt Nat.lt_log2_self)
      _ = 2 ^ (den.log2 + 1 + e) := (Nat.pow_add ..).symm
  simp only [roundRatio, hnum, if_false, Nat.shiftLeft_eq]
  generalize hscale : max ((num.log2 : Int) - den.log2 - 53) (-1074) = scale
  -- the scaled ratio has at most 54 bits before the point
  have hratio : num * 2 ^ (-scale).toNat < den * 2 ^ scale.toNat * 2 ^ 54 := by
    calc num * 2 ^ (-scale).toNat
        < 2 ^ (num.log2 + 1) * 2 ^ (-scale).toNat :=
          Nat.mul_lt_mul_of_pos_right Nat.lt_log2_self (Nat.two_pow_pos _)
      _ = 2 ^ (num.log2 + 1 + (-scale).toNat) := (Nat.pow_add ..).symm
      _ ≤ 2 ^ (den.log2 + scale.toNat + 54) := Nat.pow_le_pow_right (by decide) (by omega)
      _ = 2 ^ den.log2 * 2 ^ scale.toNat * 2 ^ 54 := by rw [Nat.pow_add, Nat.pow_add]
      _ ≤ den * 2 ^ scale.toNat * 2 ^ 54 :=
          Nat.mul_le_mul_right _ (Nat.mul_le_mul_right _ (Nat.log2_self_le hden))
  generalize num * 2 ^ (-scale).toNat = num at hratio ⊢
  generalize den * 2 ^ scale.toNat = den at hratio ⊢
  split
  · next hlt =>
    exact Nat.le_trans (roundAt_le (k := e + 1021) (by omega) hlt) (by unfold leadingBit; omega)
  · refine roundAt_le (k := e + 1022) (by omega) (Nat.div_lt_of_lt_mul ?_)
    unfold leadingBit
    grind

variable {negative : Bool}

theorem magnitude_ofMagnitude {magnitude : Nat} (h : magnitude < signBit) :
    (ofMagnitude negative magnitude).magnitude = magnitude := by
  simp only [ofMagnitude, Decimal.magnitude, signBit] at *
  cases negative <;> simp <;> omega

theorem magnitude_neg (d : Decimal) : d.neg.magnitude = d.magnitude := by
  have hxor : d.neg.bits.toNat = d.bits.toNat ^^^ 2 ^ 63 := by simp [neg]
  have hbit : signBit = 2 ^ 63 := rfl
  rw [magnitude, hxor, hbit, Nat.xor_mod_two_pow, Nat.mod_self, Nat.xor_zero, magnitude, hbit]

theorem unitCount_le {f : Nat} (h : d.magnitude ≤ f * leadingBit) :
    d.unitCount ≤ 2 ^ (53 + f) := by
  have hfield : d.exponentField ≤ f := by unfold exponentField leadingBit at *; omega
  have hsignificand : d.significand ≤ 2 ^ 53 := by
    unfold significand leadingBit
    split
    · unfold exponentField leadingBit at *; omega
    · omega
  calc d.unitCount ≤ 2 ^ 53 * 2 ^ f := by
        rw [unitCount, Nat.shiftLeft_eq]
        exact Nat.mul_le_mul hsignificand (Nat.pow_le_pow_right (by decide) (by omega))
    _ = 2 ^ (53 + f) := (Nat.pow_add ..).symm

theorem magnitude_ofRatio (hden : den ≠ 0) (h : num < den * 2 ^ e) (he : e ≤ 1000) :
    (ofRatio negative num den).magnitude ≤ (e + 1024) * leadingBit := by
  have hround := roundRatio_le hden h
  rwa [ofRatio, magnitude_ofMagnitude (by unfold leadingBit signBit at *; omega)]

theorem isFinite_of_le {f : Nat} (h : d.magnitude ≤ f * leadingBit) (hf : f ≤ 2024) :
    d.isFinite := by
  rw [isFinite, decide_eq_true_eq]
  unfold infinityMagnitude leadingBit at *
  omega

theorem isNaN_of_isFinite (h : d.isFinite) : d.isNaN = false := by
  simp only [isFinite, decide_eq_true_eq] at h
  simp only [isNaN, decide_eq_false_iff_not]
  omega

theorem mul_eq_ofRatio {a b : Decimal} (ha : a.isFinite) (hb : b.isFinite) :
    a.mul b = ofRatio (a.isNegative != b.isNegative) (a.unitCount * b.unitCount)
      (unitsPerOne * unitsPerOne) := by
  simp [mul, lift, isNaN_of_isFinite, ha, hb]

/-- An integer of at most 64 bits is finite, also after the scaling by which it is read. -/
theorem isFinite_scaleTen_zero {n : Nat} (h : n < 2 ^ e) (he : e ≤ 64) :
    ((ofInt n).scaleTen 0).isFinite := by
  have hmagnitude : (ofInt n).magnitude ≤ (e + 1024) * leadingBit :=
    magnitude_ofRatio (by decide) (by simpa using h) (by omega)
  have hone : (powerOfTen 0).isFinite ∧ (powerOfTen 0).unitCount = unitsPerOne := by decide +kernel
  have hproduct : (ofInt n).unitCount * (powerOfTen 0).unitCount <
      unitsPerOne * unitsPerOne * 2 ^ 1000 := by
    rw [hone.2]
    calc (ofInt n).unitCount * unitsPerOne
        ≤ 2 ^ (53 + (e + 1024)) * unitsPerOne :=
          Nat.mul_le_mul_right unitsPerOne (unitCount_le hmagnitude)
      _ < unitsPerOne * unitsPerOne * 2 ^ 1000 := by
          simp only [unitsPerOne, Nat.one_shiftLeft, ← Nat.pow_add]
          exact Nat.pow_lt_pow_right (by decide) (by omega)
  unfold scaleTen
  split
  · rfl
  rw [if_neg (by decide), if_pos (by decide), Int.toNat_zero,
    mul_eq_ofRatio (isFinite_of_le hmagnitude (by omega)) hone.1]
  exact isFinite_of_le (magnitude_ofRatio (by decide +kernel) hproduct (by decide)) (by decide)

end Decimal

theorem Json.Number.isFinite_ofInt {n : Int} (h : n.natAbs ≤ maxDigits) :
    (Number.ofInt n).toDecimal.isFinite := by
  have hlt : n.natAbs < 2 ^ 64 := by unfold maxDigits at h; omega
  have hfinite := Decimal.isFinite_scaleTen_zero hlt (by decide)
  simp only [toDecimal, ofInt]
  by_cases hn : n < 0
  · simpa [hn, Decimal.isFinite, Decimal.magnitude_neg] using hfinite
  · simpa [hn] using hfinite

/-! ### Values that the text keeps -/

/-- Whether all numbers of a list have 32 bits. -/
def AreSmall (ids : List NodeId) : Prop := ∀ id ∈ ids, id < 2 ^ 32

theorem areSmall_cons {id : NodeId} {ids : List NodeId} :
    AreSmall (id :: ids) ↔ id < 2 ^ 32 ∧ AreSmall ids := List.forall_mem_cons

theorem areSmall_append {ids others : List NodeId} :
    AreSmall (ids ++ others) ↔ AreSmall ids ∧ AreSmall others := List.forall_mem_append

namespace Json

theorem reread_obj (members : List (String × Json)) :
    (obj members).reread = obj (members.map fun member => (member.1, member.2.reread)) := by
  have hmembers : rereadMembers (members.map fun member => (some member.1, member.2)) =
      members.map fun member => (some member.1, member.2.reread) := by
    induction members with
    | nil => rfl
    | cons member members ih => simp [rereadMembers, rereadText, ih]
  simp [obj, reread, hmembers]

theorem isSound_obj (members : List (String × Json)) :
    (obj members).isSound = members.all fun member => member.2.isSound := by
  rw [obj, isSound]
  induction members with
  | nil => rfl
  | cons member members ih => simp [membersAreSound, ih]

theorem depth_obj_le {members : List (String × Json)} {levels : Nat}
    (h : ∀ member ∈ members, member.2.depth ≤ levels) : (obj members).depth ≤ levels + 1 := by
  have hmembers : membersDepth (members.map fun member => (some member.1, member.2)) ≤ levels := by
    induction members with
    | nil => exact Nat.zero_le _
    | cons member members ih =>
      have hrest := ih fun other hother => h other (by simp [hother])
      exact Nat.max_le.2 ⟨h member (by simp), hrest⟩
  rw [obj, depth]
  omega

/-- Whether a value is the same after it was written and read, is sound, and has at most `levels`
levels. -/
structure IsKept (levels : Nat) (value : Json) : Prop where
  reread_eq : value.reread = value
  isSound : value.isSound
  depth_le : value.depth ≤ levels

section

variable {levels : Nat}

theorem isKept_str (text : String) : IsKept levels (str text) := ⟨rfl, rfl, Nat.zero_le _⟩

theorem isKept_bool (value : Bool) : IsKept levels (.bool value) := ⟨rfl, rfl, Nat.zero_le _⟩

theorem isKept_int {n : Int} (h : n.natAbs ≤ Number.maxDigits) : IsKept levels (int n) := by
  refine ⟨?_, ?_, Nat.zero_le _⟩
  · rw [int, reread, Number.reread_ofInt h]
  · rw [int, Json.isSound, Number.isFinite_ofInt h]

theorem isKept_nat {n : Nat} (h : n < 2 ^ 32) : IsKept levels (nat n) :=
  isKept_int (by unfold Number.maxDigits; omega)

theorem isKept_option {α : Type} {encode : α → Json} {value : Option α}
    (h : ∀ a ∈ value, IsKept levels (encode a)) : IsKept levels (option encode value) := by
  cases value with
  | none => exact ⟨rfl, rfl, Nat.zero_le _⟩
  | some a => exact h a rfl

theorem isKept_maybe {id : Option NodeId} (h : AreSmall id.toList) :
    IsKept levels (option nat id) :=
  isKept_option fun child hchild => isKept_nat (h child (by simpa using hchild))

theorem isKept_nats {numbers : List NodeId} (h : AreSmall numbers) :
    IsKept (levels + 1) (nats numbers) := by
  have hitems : rereadItems (numbers.map nat) = numbers.map nat ∧ areSound (numbers.map nat) ∧
      listDepth (numbers.map nat) ≤ levels := by
    induction numbers with
    | nil => exact ⟨rfl, rfl, Nat.zero_le _⟩
    | cons n numbers ih =>
      obtain ⟨hsmall, hrest⟩ := areSmall_cons.1 h
      obtain ⟨hreread, hsound, hdepth⟩ := ih hrest
      have hn : IsKept levels (nat n) := isKept_nat hsmall
      exact ⟨by simp [rereadItems, hn.reread_eq, hreread], by simp [areSound, hn.isSound, hsound],
        Nat.max_le.2 ⟨hn.depth_le, hdepth⟩⟩
  obtain ⟨hreread, hsound, hdepth⟩ := hitems
  refine ⟨by rw [nats, reread, hreread], by rwa [nats, Json.isSound], ?_⟩
  rw [nats, depth]
  omega

theorem isKept_obj {members : List (String × Json)}
    (h : ∀ member ∈ members, IsKept levels member.2) : IsKept (levels + 1) (obj members) := by
  refine ⟨?_, ?_, depth_obj_le fun member hmember => (h member hmember).depth_le⟩
  · rw [reread_obj]
    congr 1
    conv_rhs => rw [← List.map_id members]
    exact List.map_congr_left fun member hmember => by simp [(h member hmember).reread_eq]
  · rw [isSound_obj, List.all_eq_true]
    exact fun member hmember => (h member hmember).isSound

end

end Json

namespace Document

open Json

/-! ### Scalars -/

theorem int?_int (n : Int) : (int n).int? = some n := by
  have hzero : (decide (n < 0) && n.natAbs == 0) = false := by
    rw [Bool.and_eq_false_iff, decide_eq_false_iff_not, beq_eq_false_iff_ne]
    omega
  have hvalue : (if decide (n < 0) = true then -(n.natAbs : Int) else n.natAbs) = n := by
    simp only [decide_eq_true_eq]
    split <;> omega
  simp only [int, Json.int?, Number.toInt?, Number.ofInt, hzero, hvalue, Bool.not_true, Bool.or_self,
    Bool.false_eq_true, if_false]

theorem nodeId?_nat {n : Nat} (h : n < 2 ^ 32) : nodeId? (.nat n) = some n := by
  have hn : (n : Int) < UInt32.size := Int.ofNat_lt.2 h
  have hbounds : (decide (0 ≤ (n : Int)) && decide ((n : Int) < UInt32.size)) = true := by
    rw [decide_eq_true (Int.natCast_nonneg n), decide_eq_true hn, Bool.and_self]
  rw [nodeId?, nat, int?_int, Option.bind_eq_bind, Option.bind_some, if_pos hbounds,
    Int.toNat_natCast]

theorem nodeIds?_nats {ids : List NodeId} (h : AreSmall ids) : nodeIds? (.nats ids) = some ids := by
  have hids := mapM_map_eq_some fun id hid => nodeId?_nat (h id hid)
  rw [List.map_id'] at hids
  exact hids

theorem orNull?_option {α : Type} {read : Json → Option α} {encode : α → Json} {value : Option α}
    (h : ∀ a ∈ value, read (encode a) = some a) (hnull : read .null = none) :
    orNull? read (option encode value) = some value := by
  cases value with
  | none => rfl
  | some a =>
    have ha := h a rfl
    unfold orNull? option
    split <;> simp_all

theorem orNull?_nat {id : Option NodeId} (h : AreSmall id.toList) :
    orNull? nodeId? (.option .nat id) = some id :=
  orNull?_option (fun child hchild => nodeId?_nat (h child (by simpa using hchild))) rfl

theorem string?_str (text : String) : (str text).string? = some text := rfl

theorem bool?_bool (value : Bool) : (Json.bool value).bool? = some value := rfl

theorem modifiers?_text (m : Modifiers) : modifiers? (.str m.text) = some m := by
  simp [modifiers?, str, string?, Modifiers.read?_text]

theorem binaryOp?_name (operator : BinaryOp) : binaryOp? (.str operator.name) = some operator := by
  cases operator <;> decide

theorem unaryOp?_name (operator : UnaryOp) : unaryOp? (.str operator.name) = some operator := by
  cases operator <;> decide

variable {node : Node}

/-! ### Nodes -/

/-- The fields of a node other than a literal. -/
theorem isKept_fields (literal : Literal → Json) (hids : AreSmall node.children)
    (hliteral : ∀ value, node ≠ .literal value) :
    ∀ field ∈ (nodeParts literal node).2, IsKept 1 field.2 := by
  have htext {name : Option String} : IsKept 1 (.option .str name) :=
    isKept_option fun name _ => isKept_str name
  have hoperator {operator : Option BinaryOp} :
      IsKept 1 (.option (fun op => .str op.name) operator) :=
    isKept_option fun operator _ => isKept_str operator.name
  cases node
  case literal value => exact absurd rfl (hliteral value)
  all_goals
    simp only [Node.children, areSmall_append, areSmall_cons] at hids
    simp only [nodeParts, List.forall_mem_cons, isKept_str, isKept_bool, isKept_nat, isKept_nats,
      isKept_maybe, htext, hoperator, hids, true_and]
    simp

theorem field_ne_kind (literal : Literal → Json) (node : Node) :
    ∀ field ∈ (nodeParts literal node).2, field.1 ≠ "kind" := by
  cases node <;> simp [nodeParts]

/-- The members of an object with these fields. -/
abbrev named (fields : List (String × Json)) : List (Text × Json) :=
  fields.map fun field => (some field.1, field.2)

theorem valuesOf_nil (name : String) :
    valuesOf (named []) name = [] := rfl

theorem valuesOf_cons (name : String) (field : String × Json) (rest : List (String × Json)) :
    valuesOf (named (field :: rest)) name =
      if field.1 = name then field.2 :: valuesOf (named rest) name else valuesOf (named rest) name := by
  by_cases h : field.1 = name <;> simp [valuesOf, h]

theorem valuesOf_eq_nil {name : String} {fields : List (String × Json)}
    (h : ∀ field ∈ fields, field.1 ≠ name) :
    valuesOf (named fields) name = [] := by
  induction fields with
  | nil => rfl
  | cons field rest ih =>
    have hrest := ih fun other hother => h other (by simp [hother])
    rw [valuesOf_cons, if_neg (h field (by simp)), hrest]

variable {literal : Literal → Json}

theorem nodeOf?_nodeParts (hids : AreSmall node.children)
    (hliteral : ∀ value, node = .literal value → literal? (literal value) = some value) :
    nodeOf? (nodeParts literal node).1
      (named (("kind", .str (nodeParts literal node).1) :: (nodeParts literal node).2)) =
        some node := by
  have htext {name : Option String} : orNull? string? (.option .str name) = some name :=
    orNull?_option (fun name _ => string?_str name) rfl
  have hoperator {operator : Option BinaryOp} :
      orNull? binaryOp? (.option (fun op => .str op.name) operator) = some operator :=
    orNull?_option (fun operator _ => binaryOp?_name operator) rfl
  -- the kind is a fixed text in each case, so the branch of the reader is found first
  cases node <;> dsimp only [nodeParts] <;> unfold nodeOf? <;> dsimp only
  all_goals
    simp only [Node.children, areSmall_append, areSmall_cons] at hids
    simp only [required, optional, valuesOf_cons, valuesOf_nil, String.reduceEq, if_true, if_false,
      string?_str, bool?_bool, modifiers?_text, binaryOp?_name, unaryOp?_name, htext, hoperator,
      nodeId?_nat, nodeIds?_nats, orNull?_nat, hids, hliteral, Option.bind_eq_bind,
      Option.bind_some, Option.pure_def]

theorem node?_nodeJson (hids : AreSmall node.children)
    (hliteral : ∀ value, node = .literal value → literal? (literal value) = some value)
    (hfields : ∀ field ∈ (nodeParts literal node).2, field.2.isSound ∧ field.2.depth ≤ 1) :
    node? (nodeJson literal node) = some node := by
  have hsound : (nodeJson literal node).isSound := by
    rw [nodeJson, isSound_obj, List.all_cons, Bool.and_eq_true, List.all_eq_true]
    exact ⟨rfl, fun field hfield => (hfields field hfield).1⟩
  have hdepth : (nodeJson literal node).depth ≤ 2 := by
    refine depth_obj_le fun field hfield => ?_
    rcases List.mem_cons.1 hfield with rfl | hfield
    · exact Nat.zero_le 1
    · exact (hfields field hfield).2
  have hguard : (!(nodeJson literal node).isSound ||
      decide (maxDepth < (nodeJson literal node).depth)) = false := by
    have hlevels : ¬ maxDepth < (nodeJson literal node).depth := by unfold maxDepth; omega
    simp [hsound, hlevels]
  have hobject : nodeJson literal node = .object (named
      (("kind", .str (nodeParts literal node).1) :: (nodeParts literal node).2)) := rfl
  unfold node?
  rw [hguard, hobject]
  simp only [required, Bool.false_eq_true, if_false, valuesOf_cons, if_true,
    valuesOf_eq_nil (field_ne_kind literal node), string?_str, Option.bind_eq_bind,
    Option.bind_some]
  exact nodeOf?_nodeParts hids hliteral

end Document

/-! ### Literals -/

/-- Whether the decimal that is read from the text of a decimal is that decimal. -/
def Decimal.ReadsBack (x : Decimal) : Prop :=
  (Json.parse? (Json.number (.ofDecimal x)).render).bind Document.decimal? = some x

instance (x : Decimal) : Decidable x.ReadsBack := inferInstanceAs (Decidable (_ = _))

/-- Whether a literal is one that a document can hold: an integer of 64 bits, or a finite decimal
that its text gives back. -/
def Literal.Fits : Literal → Prop
  | .int n => fitsInt n
  | .decimal x => x.isFinite ∧ x.ReadsBack
  | _ => True

/-- Whether the numbers of a node are ones that a document can hold. -/
structure Node.Fits (node : Node) : Prop where
  ids : AreSmall node.children
  literal : ∀ value, node = .literal value → value.Fits

namespace Document

open Json

theorem literal?_obj (type : String) (value : Json) :
    literal? (obj [("type", str type), ("value", value)]) = literalOf? type (some value) := by
  simp [literal?, obj, required, optional, valuesOf, choice?, str]

theorem reread_literal (type : String) (value : Json) (hsound : value.reread.isSound)
    (hdepth : value.reread.depth = 0) :
    let reread := (obj [("type", str type), ("value", value)]).reread
    literal? reread = literalOf? type (some value.reread) ∧ reread.isSound ∧ reread.depth ≤ 1 := by
  have hreread : (obj [("type", str type), ("value", value)]).reread =
      obj [("type", str type), ("value", value.reread)] := by
    rw [reread_obj]
    rfl
  rw [hreread]
  refine ⟨literal?_obj type value.reread, ?_, depth_obj_le ?_⟩
  · simp [isSound_obj, hsound, str, isSound]
  · simp [hdepth, str, depth]

theorem literal?_reread {value : Literal} (h : value.Fits) :
    literal? (literalJson value).reread = some value ∧ (literalJson value).reread.isSound ∧
      (literalJson value).reread.depth ≤ 1 := by
  cases value with
  | null => exact ⟨rfl, rfl, by decide⟩
  | bool value =>
    obtain ⟨hread, hrest⟩ := reread_literal "bool" (.bool value) rfl rfl
    exact ⟨hread, hrest⟩
  | int n =>
    have hn : n.natAbs ≤ Number.maxDigits := by
      simp only [Literal.Fits, fitsInt, Bool.and_eq_true, decide_eq_true_eq] at h
      unfold minInt maxInt at h
      unfold Number.maxDigits
      omega
    have hkept : IsKept 0 (int n) := isKept_int hn
    obtain ⟨hread, hrest⟩ := reread_literal "int" (int n)
      (by rw [hkept.reread_eq, hkept.isSound]) (by rw [hkept.reread_eq]; rfl)
    refine ⟨hread.trans ?_, hrest⟩
    have hfits : fitsInt n := h
    simp [literalOf?, hkept.reread_eq, int?, int?_int, hfits]
  | decimal x =>
    obtain ⟨hfinite, hback⟩ := h
    rw [Decimal.ReadsBack, parse?_render, Option.bind_some, reread] at hback
    have hsound : (Number.ofDecimal x).reread.toDecimal.isFinite := by
      by_contra hinfinite
      simp [decimal?, hinfinite] at hback
    obtain ⟨hread, hrest⟩ := reread_literal "decimal" (.number (.ofDecimal x)) hsound rfl
    rw [literalJson, if_pos hfinite]
    exact ⟨hread.trans (by simp [literalOf?, reread, hback]), hrest⟩
  | char c =>
    obtain ⟨hread, hrest⟩ := reread_literal "char" (str (String.ofList [c])) rfl rfl
    exact ⟨hread.trans (by simp [literalOf?, char?, reread, str, rereadText, string?]), hrest⟩
  | string text =>
    obtain ⟨hread, hrest⟩ := reread_literal "string" (str text) rfl rfl
    exact ⟨hread, hrest⟩

theorem node?_reread {node : Node} (h : node.Fits) :
    node? (nodeJson literalJson node).reread = some node := by
  by_cases hnode : ∃ value, node = .literal value
  · obtain ⟨value, rfl⟩ := hnode
    obtain ⟨hread, hsound, hdepth⟩ := literal?_reread (h.literal value rfl)
    have hreread : (nodeJson literalJson (.literal value)).reread =
        nodeJson (fun value => (literalJson value).reread) (.literal value) := by
      rw [nodeJson, reread_obj]
      rfl
    rw [hreread]
    refine node?_nodeJson h.ids ?_ ?_
    · rintro _ ⟨⟩
      exact hread
    · intro field hfield
      obtain rfl := List.mem_singleton.1 hfield
      exact ⟨hsound, hdepth⟩
  · have hother : ∀ value, node ≠ .literal value := fun value hvalue => hnode ⟨value, hvalue⟩
    have hfields := isKept_fields literalJson h.ids hother
    have hkept : IsKept 2 (nodeJson literalJson node) := by
      refine isKept_obj fun field hfield => ?_
      rcases List.mem_cons.1 hfield with rfl | hfield
      · exact isKept_str _
      · exact hfields field hfield
    rw [hkept.reread_eq]
    exact node?_nodeJson h.ids (fun value hvalue => absurd hvalue (hother value))
      fun field hfield => ⟨(hfields field hfield).isSound, (hfields field hfield).depth_le⟩

theorem rereadItems_eq_map (items : List Json) : rereadItems items = items.map reread := by
  induction items with
  | nil => rfl
  | cons item items ih => rw [rereadItems, ih, List.map_cons]

theorem read?_write {d : Document} (h : ∀ node ∈ d.nodes, node.Fits) : read? d.write = some d := by
  have hnodes : (d.nodes.map fun node => (nodeJson literalJson node).reread).mapM node? =
      some d.nodes := by
    rw [mapM_map_eq_some fun node hnode => node?_reread (h node hnode), List.map_id']
  have hreread : (d.toJsonWith literalJson).reread = obj [("fileName", str d.fileName),
      ("nodes", .array (d.nodes.map fun node => (nodeJson literalJson node).reread))] := by
    simp only [toJsonWith, reread_obj, List.map_cons, List.map_nil, reread, rereadItems_eq_map,
      List.map_map]
    rfl
  rw [read?, write, parse?_render, hreread]
  simp [ofJson?, obj, required, valuesOf, ofParts?, str, string?, array?, hnodes]

theorem toDocument_of_ofDocument {d : Document} {t : Tree} (h : Tree.ofDocument d = .ok t) :
    t.toDocument = d := by
  obtain ⟨_, _, _, _, hname, hnodes, _, _⟩ := Tree.ofDocument_ok h
  rw [Tree.toDocument, hname, hnodes]

/-- The document of an accepted tree gives that tree again, with all its links, and the text of a
document is read as that document. -/
theorem round_trip :
    (∀ (d : Document) (t : Tree), Tree.ofDocument d = .ok t →
      Tree.ofDocument t.toDocument = .ok t) ∧
    ∀ d : Document, (∀ node ∈ d.nodes, node.Fits) → read? d.write = some d :=
  ⟨fun _ _ h => by rw [toDocument_of_ofDocument h, h], fun _ h => read?_write h⟩

/-- A field with an escaped name, a modifier without a name and the decimal nearest to `0.1`. -/
def escapedDocument : Document := ⟨"a\\b", [
  .literal (.decimal ⟨0x3fb999999999999a⟩),
  .fieldDeclaration "q\"\n\x01é" ⟨0x80000011⟩ none (some 0), .compilationUnit [1]]⟩

theorem round_trip_escaped :
    (∃ t, Tree.ofDocument escapedDocument = .ok t ∧ Tree.ofDocument t.toDocument = .ok t) ∧
    read? escapedDocument.write = some escapedDocument := by
  obtain ⟨t, ht⟩ : ∃ t, Tree.ofDocument escapedDocument = .ok t := ⟨_, rfl⟩
  refine ⟨⟨t, ht, round_trip.1 _ t ht⟩, round_trip.2 _ fun node hnode => ?_⟩
  simp only [escapedDocument, List.mem_cons, List.not_mem_nil, or_false] at hnode
  rcases hnode with rfl | rfl | rfl
  · refine ⟨by simp [AreSmall], ?_⟩
    rintro _ ⟨⟩
    exact ⟨by decide, by decide +kernel⟩
  · exact ⟨by simp [AreSmall], by simp⟩
  · exact ⟨by simp [AreSmall], by simp⟩

end Document
end Bindery
