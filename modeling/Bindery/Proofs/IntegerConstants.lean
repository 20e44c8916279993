import Bindery.Proofs.RegionChains
import Bindery.Types.Folding
import Mathlib.Logic.Relation

/-! # Constants of integer arithmetic

A recursive reading of constant fields that knows nothing of requests, ledgers and orders.

* An initializer that consists of integers, names of constants, signs and the five arithmetic
  operators spells an `IntTerm` (`Program.Spells`); a field with such an initializer defines it
  (`Program.DefinesTerm`).
* `IntTerm.eval?` computes a term from the values of the constants it names.  Every intermediate
  result has to be in range, divisors are not zero, quotients are truncated, and the least integer
  has no remainder by `-1`.
* `Program.Denotes field n`: computing the constants that the field names, then the field, gives
  `n`.

A field that denotes a number has no cycle below it (`Denotes.acyclic`), and the number is the only
one (`Denotes.unique`). -/

namespace Bindery

/-! ### Arithmetic in range -/

theorem fitsInt_iff {n : Int} : fitsInt n = true ↔ minInt ≤ n ∧ n ≤ maxInt := by simp [fitsInt]

/-- The integer, if it is in range. -/
def inRange? (n : Int) : Option Int := if minInt ≤ n ∧ n ≤ maxInt then some n else none

theorem fitsInt_of_inRange? {n m : Int} (h : inRange? n = some m) : fitsInt m = true := by
  obtain ⟨hn, ⟨⟩⟩ := Option.ite_none_right_eq_some.1 h
  exact fitsInt_iff.2 hn

theorem checkedInt_eq (n : Int) : Value.checkedInt n = (inRange? n).map .int := by
  simp only [Value.checkedInt, inRange?, fitsInt_iff]
  split <;> rfl

inductive ArithmeticOp where
  | add | subtract | multiply | divide | modulo

namespace ArithmeticOp

def operator : ArithmeticOp → BinaryOp
  | add => .add
  | subtract => .subtract
  | multiply => .multiply
  | divide => .divide
  | modulo => .modulo

def of? : BinaryOp → Option ArithmeticOp
  | .add => some add
  | .subtract => some subtract
  | .multiply => some multiply
  | .divide => some divide
  | .modulo => some modulo
  | _ => none

variable {op : ArithmeticOp}

theorem operator_of? {operator : BinaryOp} (h : of? operator = some op) :
    op.operator = operator := by
  cases operator <;> simp [of?] at h <;> subst h <;> rfl

theorem operator_injective {a b : ArithmeticOp} (h : a.operator = b.operator) : a = b := by
  cases a <;> cases b <;> first | rfl | cases h

/-- The result of an operation, where it has one. -/
def result? : ArithmeticOp → Int → Int → Option Int
  | add, a, b => inRange? (a + b)
  | subtract, a, b => inRange? (a - b)
  | multiply, a, b => inRange? (a * b)
  | divide, a, b => if b = 0 then none else inRange? (a.tdiv b)
  | modulo, a, b => if b = 0 ∨ a = minInt ∧ b = -1 then none else some (a.tmod b)

variable {a b : Int}

/-- Only the least integer divided by `-1` leaves the range. -/
theorem fitsInt_tdiv (ha : fitsInt a = true) (hb : b ≠ 0) :
    fitsInt (a.tdiv b) = true ↔ ¬(a = minInt ∧ b = -1) := by
  rw [fitsInt_iff] at ha ⊢
  unfold minInt maxInt at *
  have habs := Int.natAbs_tdiv a b
  change _ = a.natAbs / b.natAbs at habs
  constructor
  · rintro ⟨-, h⟩ ⟨rfl, rfl⟩
    revert h
    decide
  · intro hne
    by_cases hone : b.natAbs = 1
    · rcases (show b = 1 ∨ b = -1 by omega) with rfl | rfl
      · rwa [Int.tdiv_one]
      · rw [Int.tdiv_neg, Int.tdiv_one]
        omega
    · have hhalf : a.natAbs / b.natAbs ≤ a.natAbs / 2 := Nat.div_le_div_left (by omega) (by omega)
      omega

theorem fitsInt_tmod (ha : fitsInt a = true) (b : Int) : fitsInt (a.tmod b) = true := by
  rw [fitsInt_iff] at ha ⊢
  unfold minInt maxInt at *
  have habs : (a.tmod b).natAbs ≤ a.natAbs := by
    rw [Int.natAbs_tmod]
    exact Nat.mod_le _ _
  rcases Int.le_total 0 a with hpos | hneg
  · have := Int.tmod_nonneg b hpos
    omega
  · have hmod : a.tmod b = -((-a).tmod b) := by rw [Int.neg_tmod, Int.neg_neg]
    have := Int.tmod_nonneg b (show 0 ≤ -a by omega)
    omega

theorem fitsInt_result? {n : Int} (ha : fitsInt a = true)
    (h : op.result? a b = some n) : fitsInt n = true := by
  cases op with
  | add | subtract | multiply => exact fitsInt_of_inRange? h
  | divide =>
    rw [result?, Option.ite_none_left_eq_some] at h
    exact fitsInt_of_inRange? h.2
  | modulo =>
    rw [result?, Option.ite_none_left_eq_some] at h
    obtain rfl := Option.some.inj h.2
    exact fitsInt_tmod ha b

/-- Folding carries out the operation. -/
theorem foldInts_eq (op : ArithmeticOp) (ha : fitsInt a = true) :
    Value.foldInts op.operator a b = (op.result? a b).map .int := by
  cases op with
  | add | subtract | multiply => exact checkedInt_eq _
  | divide =>
    simp only [operator, Value.foldInts, result?]
    split
    · rfl
    · exact checkedInt_eq _
  | modulo =>
    simp only [operator, Value.foldInts, result?]
    by_cases hb : b = 0
    · simp [hb]
    · by_cases hmin : a = minInt ∧ b = -1
      · have hfits : fitsInt (a.tdiv b) = false := by
          simpa using fun h => (fitsInt_tdiv ha hb).1 h hmin
        rw [hfits, if_pos (by simp), if_pos (.inr hmin)]
        rfl
      · simp [hb, hmin, (fitsInt_tdiv ha hb).2 hmin]

end ArithmeticOp

/-! ### Terms -/

/-- An initializer of integer arithmetic. -/
inductive IntTerm where
  | literal (n : Int)
  | constant (field : SymbolId)
  | plus (operand : IntTerm)
  | negate (operand : IntTerm)
  | binary (op : ArithmeticOp) (left right : IntTerm)

namespace IntTerm

/-- The constants that the term names. -/
def constants : IntTerm → List SymbolId
  | literal _ => []
  | constant field => [field]
  | plus operand | negate operand => operand.constants
  | binary _ left right => left.constants ++ right.constants

/-- The value of a term, given those of the constants it names. -/
def eval? (value : SymbolId → Option Int) : IntTerm → Option Int
  | literal n => some n
  | constant field => value field
  | plus operand => operand.eval? value
  | negate operand => (operand.eval? value).bind fun n => inRange? (-n)
  | binary op left right =>
    (left.eval? value).bind fun a => (right.eval? value).bind fun b => op.result? a b

variable {value value' : SymbolId → Option Int} {term : IntTerm}

theorem eval?_congr (h : ∀ field ∈ term.constants, value field = value' field) :
    term.eval? value = term.eval? value' := by
  induction term with
  | literal => rfl
  | constant field => exact h field (by simp [constants])
  | plus operand ih => exact ih h
  | negate operand ih => rw [eval?, eval?, ih h]
  | binary op left right ihl ihr =>
    rw [eval?, eval?, ihl fun field hfield => h field (List.mem_append_left _ hfield),
      ihr fun field hfield => h field (List.mem_append_right _ hfield)]

/-- Every constant that is named is needed. -/
theorem exists_value_of_eval? {n : Int} (h : term.eval? value = some n) {field : SymbolId}
    (hfield : field ∈ term.constants) : ∃ m, value field = some m := by
  induction term generalizing n with
  | literal => simp [constants] at hfield
  | constant other =>
    obtain rfl : field = other := by simpa [constants] using hfield
    exact ⟨n, h⟩
  | plus operand ih => exact ih h hfield
  | negate operand ih =>
    obtain ⟨m, hm, -⟩ := Option.bind_eq_some_iff.1 h
    exact ih hm hfield
  | binary op left right ihl ihr =>
    obtain ⟨a, ha, h⟩ := Option.bind_eq_some_iff.1 h
    obtain ⟨b, hb, -⟩ := Option.bind_eq_some_iff.1 h
    rcases List.mem_append.1 hfield with hfield | hfield
    · exact ihl ha hfield
    · exact ihr hb hfield

end IntTerm

/-! ### Fields and what they define -/

namespace Program

variable (p : Program)

/-- The expression at a node of the chain is the term. -/
inductive Spells (chain : Chain) : NodeId → IntTerm → Prop
  | literal (hnode : p.tree.node? node = some (.literal (.int n))) (hfits : fitsInt n = true) :
      Spells chain node (.literal n)
  | constant (hnode : p.tree.node? node = some (.identifier name))
      (hlookup : chain.lookup p name node = .ok (.symbols found))
      (haccessible : (found.filterM fun symbol => chain.isAccessible p symbol) = .ok (field :: rest))
      (hconstant : field ∈ p.symbols.constantFields) : Spells chain node (.constant field)
  | plus (hnode : p.tree.node? node = some (.unary .plus operand))
      (hoperand : Spells chain operand term) : Spells chain node (.plus term)
  | negate (hnode : p.tree.node? node = some (.unary .negate operand))
      (hoperand : Spells chain operand term) : Spells chain node (.negate term)
  | binary (hnode : p.tree.node? node = some (.binary op.operator left right))
      (hleft : Spells chain left a) (hright : Spells chain right b) : Spells chain node (.binary op a b)

/-- The field is a constant of type `int` whose initializer is the term. -/
inductive DefinesTerm (field : SymbolId) (term : IntTerm) : Prop
  | intro (hfield : p.symbols.field? field = .ok (some data)) (hconstant : data.isConstant = true)
      (htype : data.type = some type) (hint : p.tree.node? type = some (.typeName "int" [] false))
      (hinitializer : data.initializer = some initializer)
      (hchain : p.initializerScope field = .ok (some chain))
      (hspells : p.Spells chain initializer term)

/-- Every constant field is a constant of integer arithmetic. -/
def IntegerConstants : Prop :=
  ∀ field ∈ p.symbols.constantFields, ∃ term, p.DefinesTerm field term

/-- The initializer of the first field names the second. -/
def Needs (field other : SymbolId) : Prop := ∃ term, p.DefinesTerm field term ∧ other ∈ term.constants

/-- No cycle is reached from the field. -/
def Acyclic (field : SymbolId) : Prop :=
  ∀ other, Relation.ReflTransGen p.Needs field other → ¬Relation.TransGen p.Needs other other

/-- Computing the constants that the field names, then the field itself, gives the number. -/
inductive Denotes : SymbolId → Int → Prop
  | intro (hdefines : p.DefinesTerm field term)
      (hvalue : ∀ other m, other ∈ term.constants → value other = some m → Denotes other m)
      (heval : term.eval? value = some n) : Denotes field n

variable {p} {field : SymbolId} {term : IntTerm} {m n : Int}

variable {chain : Chain} {node : NodeId}

theorem Spells.unique {a b : IntTerm} (ha : p.Spells chain node a) (hb : p.Spells chain node b) :
    a = b := by
  induction ha generalizing b with
  | literal hnode => cases hb <;> simp_all
  | constant hnode hlookup haccessible => cases hb <;> simp_all
  | plus hnode _ ih =>
    cases hb with
    | plus hnode' hoperand =>
      obtain rfl : _ = _ := by simpa [hnode] using hnode'
      rw [ih hoperand]
    | _ => simp_all
  | negate hnode _ ih =>
    cases hb with
    | negate hnode' hoperand =>
      obtain rfl : _ = _ := by simpa [hnode] using hnode'
      rw [ih hoperand]
    | _ => simp_all
  | binary hnode _ _ ihl ihr =>
    cases hb with
    | binary hnode' hleft hright =>
      obtain ⟨hop, rfl, rfl⟩ : _ ∧ _ ∧ _ := by simpa [hnode] using hnode'
      rw [ihl hleft, ihr hright, ArithmeticOp.operator_injective hop]
    | _ => simp_all

variable {value : SymbolId → Option Int}

/-- Values stay in range. -/
theorem Spells.fits (h : p.Spells chain node term)
    (hvalue : ∀ other k, other ∈ term.constants → value other = some k → fitsInt k = true)
    (heval : term.eval? value = some n) : fitsInt n = true := by
  induction h generalizing n with
  | literal _ hfits =>
    obtain rfl := Option.some.inj heval
    exact hfits
  | constant => exact hvalue _ n (by simp [IntTerm.constants]) heval
  | plus _ _ ih => exact ih hvalue heval
  | negate =>
    obtain ⟨k, -, hk⟩ := Option.bind_eq_some_iff.1 heval
    exact fitsInt_of_inRange? hk
  | binary _ _ _ ihl _ =>
    obtain ⟨a, ha, heval⟩ := Option.bind_eq_some_iff.1 heval
    obtain ⟨b, -, hb⟩ := Option.bind_eq_some_iff.1 heval
    refine ArithmeticOp.fitsInt_result? (ihl (fun other k hother => ?_) ha) hb
    exact hvalue other k (List.mem_append_left _ hother)

theorem DefinesTerm.unique {a b : IntTerm} (ha : p.DefinesTerm field a) (hb : p.DefinesTerm field b) :
    a = b := by
  obtain ⟨hfield, -, -, -, hinitializer, hchain, hspells⟩ := ha
  obtain ⟨hfield', -, -, -, hinitializer', hchain', hspells'⟩ := hb
  obtain rfl : _ = _ := by simpa [hfield] using hfield'
  obtain rfl : _ = _ := by simpa [hinitializer] using hinitializer'
  obtain rfl : _ = _ := by simpa [hchain] using hchain'
  exact hspells.unique hspells'

/-- What the named constants denote decides what the field denotes. -/
theorem denotes_iff (hdefines : p.DefinesTerm field term)
    (hvalue : ∀ other ∈ term.constants, ∀ k, value other = some k ↔ p.Denotes other k) :
    p.Denotes field n ↔ term.eval? value = some n := by
  constructor
  · rintro ⟨hdefines', hvalue', heval⟩
    obtain rfl := hdefines.unique hdefines'
    rw [← heval]
    refine IntTerm.eval?_congr fun other hother => ?_
    obtain ⟨k, hk⟩ := IntTerm.exists_value_of_eval? heval hother
    rw [hk]
    exact (hvalue other hother k).2 (hvalue' other k hother hk)
  · exact fun heval => .intro hdefines (fun other k hother hk => (hvalue other hother k).1 hk) heval

theorem Denotes.unique (hm : p.Denotes field m) (hn : p.Denotes field n) : m = n := by
  induction hm generalizing n with
  | @intro field term value m hdefines hvalue heval ih =>
    cases hn with
    | @intro _ _ value' _ hdefines' hvalue' heval' =>
    obtain rfl := hdefines.unique hdefines'
    have heq : term.eval? value = term.eval? value' := IntTerm.eval?_congr fun other hother => by
      obtain ⟨k, hk⟩ := IntTerm.exists_value_of_eval? heval hother
      obtain ⟨k', hk'⟩ := IntTerm.exists_value_of_eval? heval' hother
      rw [hk, hk', ih other k hother hk (hvalue' other k' hother hk')]
    exact Option.mem_unique heval (heq.trans heval')

/-- What a field with a number needs has numbers as well. -/
theorem Denotes.of_needs (h : p.Denotes field n) {other : SymbolId} (hneeds : p.Needs field other) :
    ∃ k, p.Denotes other k := by
  obtain ⟨term, hdefines, hother⟩ := hneeds
  obtain ⟨hdefines', hvalue, heval⟩ := h
  obtain rfl := hdefines.unique hdefines'
  obtain ⟨k, hk⟩ := IntTerm.exists_value_of_eval? heval hother
  exact ⟨k, hvalue other k hother hk⟩

/-- A number is found in finitely many steps, so nothing it is made of needs itself. -/
theorem Denotes.not_onCycle (h : p.Denotes field n) : ¬Relation.TransGen p.Needs field field := by
  induction h with
  | @intro field term value n hdefines hvalue heval ih =>
    intro hcycle
    obtain ⟨other, hneeds, hback⟩ := Relation.TransGen.head'_iff.1 hcycle
    have hturn : Relation.TransGen p.Needs other other := Relation.TransGen.tail' hback hneeds
    obtain ⟨term', hdefines', hother⟩ := hneeds
    obtain rfl := hdefines.unique hdefines'
    obtain ⟨k, hk⟩ := IntTerm.exists_value_of_eval? heval hother
    exact ih other k hother hk hturn

theorem Denotes.acyclic (h : p.Denotes field n) : p.Acyclic field := by
  intro other hreach
  obtain ⟨k, hk⟩ : ∃ k, p.Denotes other k := by
    induction hreach with
    | refl => exact ⟨n, h⟩
    | tail _ hneeds ih =>
      obtain ⟨k, hk⟩ := ih
      exact hk.of_needs hneeds
  exact hk.not_onCycle

theorem Denotes.fits (h : p.Denotes field n) : fitsInt n = true := by
  induction h with
  | intro hdefines hvalue heval ih =>
    obtain ⟨-, -, -, -, -, -, hspells⟩ := hdefines
    exact hspells.fits ih heval

/-! ### Reading terms -/

variable (p)

/-- The term that an expression spells, at most `depth` levels deep. -/
def spelled? (chain : Chain) : Nat → NodeId → Option IntTerm
  | 0, _ => none
  | depth + 1, node =>
    match p.tree.node? node with
    | some (.literal (.int n)) => if fitsInt n then some (.literal n) else none
    | some (.identifier name) =>
      match chain.lookup p name node with
      | .ok (.symbols found) =>
        match found.filterM fun symbol => chain.isAccessible p symbol with
        | .ok (field :: _) =>
          if field ∈ p.symbols.constantFields then some (.constant field) else none
        | _ => none
      | _ => none
    | some (.unary .plus operand) => (spelled? chain depth operand).map .plus
    | some (.unary .negate operand) => (spelled? chain depth operand).map .negate
    | some (.binary operator left right) =>
      match ArithmeticOp.of? operator, spelled? chain depth left, spelled? chain depth right with
      | some op, some a, some b => some (.binary op a b)
      | _, _, _ => none
    | _ => none

/-- The term that a field defines. -/
def defined? (field : SymbolId) : Option IntTerm :=
  match p.symbols.field? field, p.initializerScope field with
  | .ok (some data), .ok (some chain) =>
    match data.isConstant, data.type.bind p.tree.node?, data.initializer with
    | true, some (.typeName "int" [] false), some initializer =>
      p.spelled? chain p.tree.size initializer
    | _, _, _ => none
  | _, _ => none

variable {p}

theorem spells_of_spelled? {depth : Nat} (h : p.spelled? chain depth node = some term) :
    p.Spells chain node term := by
  fun_induction spelled? p chain depth node generalizing term with
  | case2 depth node n hnode hfits =>
    obtain rfl := Option.some.inj h
    exact .literal hnode hfits
  | case4 depth node name hnode found hlookup field rest haccessible hconstant =>
    obtain rfl := Option.some.inj h
    exact .constant hnode hlookup haccessible hconstant
  | case8 depth node operand hnode ih =>
    obtain ⟨t, ht, rfl⟩ := Option.map_eq_some_iff.1 h
    exact .plus hnode (ih ht)
  | case9 depth node operand hnode ih =>
    obtain ⟨t, ht, rfl⟩ := Option.map_eq_some_iff.1 h
    exact .negate hnode (ih ht)
  | case10 depth node operator left right hnode op a b hb ha hop ihl ihr =>
    obtain rfl := Option.some.inj h
    obtain rfl := ArithmeticOp.operator_of? hop
    exact .binary hnode (ihl ha) (ihr hb)
  | _ => simp at h

theorem defines_of_defined? (h : p.defined? field = some term) : p.DefinesTerm field term := by
  unfold defined? at h
  split at h
  · next data chain hfield hchain =>
    split at h
    · next initializer hconstant htype hinitializer =>
      obtain ⟨type, htype, hint⟩ := Option.bind_eq_some_iff.1 htype
      exact .intro hfield hconstant htype hint hinitializer hchain (spells_of_spelled? h)
    · simp at h
  · simp at h

theorem integerConstants_of_all
    (h : p.symbols.constantFields.all fun field => (p.defined? field).isSome) :
    p.IntegerConstants := by
  intro field hfield
  obtain ⟨term, hterm⟩ := Option.isSome_iff_exists.1 (List.all_eq_true.1 h field hfield)
  exact ⟨term, defines_of_defined? hterm⟩

end Program
end Bindery
