import Bindery.Proofs.BoundStatements

/-! # The statements of one function

A statement belongs to the function whose code it stands in, and the body of a local function to
that function: `Tree.Around m n` says that `n` is `m` or stands in it, in the same function.  The
global statements are one function, with the compilation unit around them.

What the scope of a statement knows about its function can be read off the tree (`Chain.Fits`):

* its flags tell in which clauses of `try` statements the statement stands (`Tree.InClause`,
  `Tree.InNestedFinally`);
* its frames list the loops around it, and the nodes around it that open a scope of statements, from
  the inside out (`Tree.Lists`).

This holds where code starts and is kept by each step to a part, so it holds for every bound
statement (`Compilation.BoundIn.fits`). -/

namespace Bindery

/-! ### Syntax -/

/-- The clauses of a `try` statement. -/
inductive Clause where
  | tried
  | caught
  | final
deriving DecidableEq, Repr

/-- The flag of a clause. -/
def Clause.flag : Clause → Flags → Bool
  | tried, f => f.inTry
  | caught, f => f.inCatch
  | final, f => f.inFinally

namespace Node

def clause? : Clause → Node → Option NodeId
  | .tried, tryStatement body _ _ => some body
  | .caught, tryStatement _ catchBody _ => catchBody
  | .final, tryStatement _ _ finallyBody => finallyBody
  | _, _ => none

/-- The parts that stand where one statement is expected. -/
def lone : Node → List NodeId
  | ifStatement _ thenStatement elseStatement => thenStatement :: elseStatement.toList
  | whileStatement _ body => [body]
  | tryStatement body catchBody finallyBody => body :: (catchBody.toList ++ finallyBody.toList)
  | localFunction _ _ _ body => [body]
  | methodDeclaration _ _ _ _ body => [body]
  | _ => []

theorem mem_children_of_clause? {kind : Node} {k : Clause} {part : NodeId}
    (h : kind.clause? k = some part) : part ∈ kind.children := by
  cases kind <;> cases k <;> simp_all [clause?, children]

theorem mem_children_of_mem_lone {kind : Node} {part : NodeId} (h : part ∈ kind.lone) :
    part ∈ kind.children := by
  cases kind <;> simp_all [lone, children]

end Node

namespace Tree

variable (t : Tree)

/-- The statements that a node consists of, in its function. -/
def ownStatements (n : NodeId) : List NodeId :=
  match t.node? n with
  | some (.compilationUnit members) => t.globalStatementsOf members
  | some (.localFunction ..) => []
  | some kind => kind.statements
  | none => []

/-- The second node is the first or a statement in it, in the same function. -/
def Around : NodeId → NodeId → Prop := Relation.ReflTransGen fun m n => n ∈ t.ownStatements m

/-- The node is or stands in such a clause of a `try` statement of its function. -/
def InClause (k : Clause) (n : NodeId) : Prop :=
  ∃ m kind part, t.node? m = some kind ∧ kind.clause? k = some part ∧ t.Around part n

/-- The node is or stands in the finally body of a `try` statement that stands in a finally body of
the same function itself. -/
def InNestedFinally (n : NodeId) : Prop :=
  ∃ m kind part, t.node? m = some kind ∧ kind.clause? .final = some part ∧ t.InClause .final m ∧
    t.Around part n

def IsLoop (n : NodeId) : Prop := ∃ condition body, t.node? n = some (.whileStatement condition body)

/-- The node stands where one statement is expected. -/
def StandsAlone (n : NodeId) : Prop := ∃ m kind, t.node? m = some kind ∧ n ∈ kind.lone

/-- The node opens a scope of statements: a block, the compilation unit, or a declaration that
stands alone. -/
def OpensScope (n : NodeId) : Prop :=
  match t.node? n with
  | some (.block _) | some (.compilationUnit _) => True
  | some (.localDeclaration ..) | some (.localFunction ..) | some (.labeled ..) => t.StandsAlone n
  | _ => False

/-- The innermost of the nodes with a property around a node, in its function. -/
def Innermost (P : NodeId → Prop) (n m : NodeId) : Prop :=
  P m ∧ t.Around m n ∧ ∀ other, P other → t.Around other n → t.Around other m

/-- The nodes with a property around a node, in its function, from the inside out. -/
structure Lists (P : NodeId → Prop) (list : List NodeId) (n : NodeId) : Prop where
  mem_iff : ∀ m, m ∈ list ↔ P m ∧ t.Around m n
  inside_out : list.Pairwise fun m outer => t.Around outer m

/-- The same without the node itself. -/
structure ListsOutside (P : NodeId → Prop) (list : List NodeId) (n : NodeId) : Prop where
  mem_iff : ∀ m, m ∈ list ↔ P m ∧ ∃ k, n ∈ t.ownStatements k ∧ t.Around m k
  inside_out : list.Pairwise fun m outer => t.Around outer m

variable {t} {P Q : NodeId → Prop} {list : List NodeId} {n : NodeId}

/-! ### Owners -/

/-- Statements are children of their owner, or global statements. -/
theorem mem_children_or_global {a b : NodeId} (h : b ∈ t.ownStatements a) :
    (∃ kind, t.node? a = some kind ∧ b ∈ kind.statements ∧
      ∀ name returnType parameters body, kind ≠ .localFunction name returnType parameters body) ∨
    ∃ members m, t.node? a = some (.compilationUnit members) ∧ m ∈ members ∧
      t.node? m = some (.globalStatement b) := by
  unfold ownStatements at h
  split at h
  · next members hnode =>
    obtain ⟨m, hm, hglobal⟩ := exists_of_mem_globalStatementsOf h
    exact .inr ⟨members, m, hnode, hm, hglobal⟩
  · simp at h
  · next kind _ hother hnode => exact .inl ⟨kind, hnode, h, fun _ _ _ _ heq => hother _ _ _ _ heq⟩
  · simp at h

theorem lt_of_mem_ownStatements {a b : Nat} (h : b ∈ t.ownStatements a) : b < a := by
  rcases mem_children_or_global h with ⟨kind, hnode, hpart, -⟩ | ⟨members, m, hnode, hm, hglobal⟩
  · exact t.child_lt hnode (Node.mem_children_of_mem_statements hpart)
  · have hmember : m < a := t.child_lt hnode (by simpa using hm)
    exact Nat.lt_trans (t.child_lt hglobal (by simp)) hmember

/-- Around a node are the node itself and what is around its owner. -/
theorem around_iff {m : NodeId} :
    t.Around m n ↔ m = n ∨ ∃ k, n ∈ t.ownStatements k ∧ t.Around m k := by
  constructor
  · intro h
    rcases Relation.ReflTransGen.cases_tail h with rfl | ⟨k, hk, hstep⟩
    · exact .inl rfl
    · exact .inr ⟨k, hstep, hk⟩
  · rintro (rfl | ⟨k, hstep, hk⟩)
    · exact .refl
    · exact .tail hk hstep

/-- A node inside a loop is the loop or stands in its body. -/
theorem around_loop_iff {w condition body : NodeId}
    (hnode : t.node? w = some (.whileStatement condition body)) :
    t.Around w n ↔ w = n ∨ t.Around body n := by
  have hown : t.ownStatements w = [body] := by simp [ownStatements, hnode]
  constructor
  · intro h
    rcases Relation.ReflTransGen.cases_head h with rfl | ⟨part, hpart, hrest⟩
    · exact .inl rfl
    · rw [hown, List.mem_singleton] at hpart
      exact .inr (hpart ▸ hrest)
  · rintro (rfl | h)
    · exact .refl
    · exact .head (by simp [hown]) h

/-! ### Lists -/

namespace Lists

/-- The first of the list is the innermost. -/
theorem innermost (h : t.Lists P list n) {m : NodeId} (hm : list.head? = some m) :
    t.Innermost P n m := by
  obtain ⟨rest, rfl⟩ := List.head?_eq_some_iff.1 hm
  obtain ⟨hP, haround⟩ := (h.mem_iff m).1 List.mem_cons_self
  refine ⟨hP, haround, fun other hother hmore => ?_⟩
  rcases List.mem_cons.1 ((h.mem_iff other).2 ⟨hother, hmore⟩) with rfl | hmem
  · exact .refl
  · exact (List.pairwise_cons.1 h.inside_out).1 other hmem

end Lists

namespace ListsOutside

theorem cons (h : t.ListsOutside P list n) (hn : P n) : t.Lists P (n :: list) n := by
  refine ⟨fun m => ?_, List.pairwise_cons.2 ⟨fun m hm => ?_, h.inside_out⟩⟩
  · rw [List.mem_cons, h.mem_iff, around_iff]
    constructor
    · rintro (rfl | ⟨hP, hmore⟩)
      · exact ⟨hn, .inl rfl⟩
      · exact ⟨hP, .inr hmore⟩
    · rintro ⟨hP, rfl | hmore⟩
      · exact .inl rfl
      · exact .inr ⟨hP, hmore⟩
  · obtain ⟨-, k, hk, haround⟩ := (h.mem_iff m).1 hm
    exact haround.tail hk

theorem same (h : t.ListsOutside P list n) (hn : ¬ P n) : t.Lists P list n := by
  refine ⟨fun m => ?_, h.inside_out⟩
  rw [h.mem_iff, around_iff]
  constructor
  · rintro ⟨hP, hmore⟩
    exact ⟨hP, .inr hmore⟩
  · rintro ⟨hP, rfl | hmore⟩
    · exact absurd hP hn
    · exact ⟨hP, hmore⟩

/-- Nothing is around a node that no node owns. -/
theorem nil (h : ∀ k, n ∉ t.ownStatements k) : t.ListsOutside P [] n :=
  ⟨fun m => by simp [h], .nil⟩

end ListsOutside

theorem le_root {k : Nat} (h : k < t.size) : k ≤ t.root := Nat.le_sub_one_of_lt h

/-- Nothing is around the compilation unit. -/
theorem not_mem_ownStatements_root (k : Nat) : t.root ∉ t.ownStatements k := by
  intro h
  have hlt : k < t.size := by
    rcases mem_children_or_global h with ⟨_, hnode, -⟩ | ⟨_, _, hnode, -⟩ <;>
      exact lt_size_of_node? hnode
  exact Nat.not_lt.2 (le_root hlt) (lt_of_mem_ownStatements h)

theorem not_inClause_root (k : Clause) : ¬ t.InClause k t.root := by
  rintro ⟨m, kind, part, hm, hpart, haround⟩
  rcases around_iff.1 haround with rfl | ⟨owner, howner, -⟩
  · exact Nat.not_lt.2 (le_root (lt_size_of_node? hm))
      (t.child_lt hm (Node.mem_children_of_clause? hpart))
  · exact not_mem_ownStatements_root owner howner

section linked

variable (linked : t.Linked)
include linked

/-- Every statement has at most one owner. -/
theorem owner_unique {a b n : NodeId} (ha : n ∈ t.ownStatements a) (hb : n ∈ t.ownStatements b) :
    a = b := by
  rcases mem_children_or_global ha with ⟨kind, hkind, hpart, -⟩ | ⟨members, m, hroot, hm, hglobal⟩ <;>
  rcases mem_children_or_global hb with ⟨kind', hkind', hpart', -⟩ |
    ⟨members', m', hroot', hm', hglobal'⟩
  · exact linked.parent_unique hkind hkind' (Node.mem_children_of_mem_statements hpart)
      (Node.mem_children_of_mem_statements hpart')
  · obtain rfl := linked.parent_unique hkind hglobal' (Node.mem_children_of_mem_statements hpart)
      (by simp)
    obtain rfl := Option.mem_unique hkind hglobal'
    simp at hpart
  · obtain rfl := linked.parent_unique hkind' hglobal (Node.mem_children_of_mem_statements hpart')
      (by simp)
    obtain rfl := Option.mem_unique hkind' hglobal
    simp at hpart'
  · have hchild : n ∈ (Node.globalStatement n).children := List.mem_singleton_self n
    obtain rfl := linked.parent_unique hglobal hglobal' hchild hchild
    exact linked.parent_unique hroot hroot' (by simpa using hm)
      (by simpa using hm')

/-- What is around the owner is what is outside. -/
theorem Lists.outside {a b : NodeId} (hb : b ∈ t.ownStatements a) (h : t.Lists P list a) :
    t.ListsOutside P list b := by
  refine ⟨fun m => ?_, h.inside_out⟩
  rw [h.mem_iff]
  refine and_congr_right fun _ => ⟨fun haround => ⟨a, hb, haround⟩, ?_⟩
  rintro ⟨k, hk, haround⟩
  exact owner_unique linked hb hk ▸ haround

variable {a b : NodeId} {kind : Node} (hnode : t.node? a = some kind) (hchild : b ∈ kind.children)
include hnode hchild

/-- Children of other nodes than statements and global statements have no owner. -/
theorem not_mem_ownStatements (hkind : b ∉ t.ownStatements a)
    (hglobal : kind ≠ .globalStatement b) (k : NodeId) : b ∉ t.ownStatements k := by
  intro hk
  rcases mem_children_or_global hk with ⟨kind', hnode', hpart, -⟩ | ⟨members, m, -, -, hm⟩
  · obtain rfl := linked.parent_unique hnode hnode' hchild (Node.mem_children_of_mem_statements hpart)
    exact hkind hk
  · obtain rfl := linked.parent_unique hnode hm hchild (by simp)
    exact hglobal (Option.mem_unique hnode hm)

/-- A node that stands alone does so in its parent. -/
theorem standsAlone_iff : t.StandsAlone b ↔ b ∈ kind.lone := by
  constructor
  · rintro ⟨m, other, hm, hlone⟩
    obtain rfl := linked.parent_unique hnode hm hchild (Node.mem_children_of_mem_lone hlone)
    obtain rfl := Option.mem_unique hnode hm
    exact hlone
  · exact fun hlone => ⟨a, kind, hnode, hlone⟩

/-- A node in a clause is a clause of its parent, or its owner is in one. -/
theorem inClause_iff (k : Clause) :
    t.InClause k b ↔ kind.clause? k = some b ∨ ∃ m, b ∈ t.ownStatements m ∧ t.InClause k m := by
  constructor
  · rintro ⟨m, other, part, hm, hpart, haround⟩
    rcases around_iff.1 haround with rfl | ⟨owner, howner, haround⟩
    · obtain rfl := linked.parent_unique hnode hm hchild (Node.mem_children_of_clause? hpart)
      obtain rfl := Option.mem_unique hnode hm
      exact .inl hpart
    · exact .inr ⟨owner, howner, m, other, part, hm, hpart, haround⟩
  · rintro (hpart | ⟨owner, howner, m, other, part, hm, hpart, haround⟩)
    · exact ⟨a, kind, b, hnode, hpart, .refl⟩
    · exact ⟨m, other, part, hm, hpart, haround.tail howner⟩

theorem inNestedFinally_iff : t.InNestedFinally b ↔
    kind.clause? .final = some b ∧ t.InClause .final a ∨
      ∃ m, b ∈ t.ownStatements m ∧ t.InNestedFinally m := by
  constructor
  · rintro ⟨m, other, part, hm, hpart, hfinal, haround⟩
    rcases around_iff.1 haround with rfl | ⟨owner, howner, haround⟩
    · obtain rfl := linked.parent_unique hnode hm hchild (Node.mem_children_of_clause? hpart)
      obtain rfl := Option.mem_unique hnode hm
      exact .inl ⟨hpart, hfinal⟩
    · exact .inr ⟨owner, howner, m, other, part, hm, hpart, hfinal, haround⟩
  · rintro (⟨hpart, hfinal⟩ | ⟨owner, howner, m, other, part, hm, hpart, hfinal, haround⟩)
    · exact ⟨a, kind, b, hnode, hpart, hfinal, .refl⟩
    · exact ⟨m, other, part, hm, hpart, hfinal, haround.tail howner⟩

end linked

end Tree

/-! ### Frames of one function -/

/-- The node that a scope of statements was made for. -/
def Frame.designator? (f : Frame) : Option NodeId :=
  match f.kind with
  | .localScope designator _ => some designator
  | _ => none

namespace Chain

/-- The loops that the function knows, from the inside out. -/
def loopsIn (chain : Chain) : List NodeId := (inFunction chain).filterMap Frame.loop?

/-- The nodes whose scopes the function knows, from the inside out. -/
def scopesIn (chain : Chain) : List NodeId := (inFunction chain).filterMap Frame.designator?

theorem loop?_eq_head? (chain : Chain) : loop? chain = (loopsIn chain).head? := by
  unfold loop? loopsIn
  rw [List.head?_filterMap]

section push

variable (chain : Chain) (node : NodeId) (f : Flags)

@[simp] theorem loopsIn_push_loop : loopsIn (chain.push (.loop node) f) = node :: loopsIn chain := rfl

@[simp] theorem loopsIn_push_localScope (store : Nat) :
    loopsIn (chain.push (.localScope node store) f) = loopsIn chain := rfl

@[simp] theorem loopsIn_push_plain (clause : Option NodeId) :
    loopsIn (chain.push (.plain clause) f) = loopsIn chain := rfl

@[simp] theorem loopsIn_push_inMethod (member : Member) :
    loopsIn (chain.push (.inMethod member) f) = [] := rfl

@[simp] theorem loopsIn_push_code (member : Member) (store : Nat) :
    loopsIn (chain.push (.code node member store) f) = loopsIn chain := rfl

@[simp] theorem scopesIn_push_loop : scopesIn (chain.push (.loop node) f) = scopesIn chain := rfl

@[simp] theorem scopesIn_push_localScope (store : Nat) :
    scopesIn (chain.push (.localScope node store) f) = node :: scopesIn chain := rfl

@[simp] theorem scopesIn_push_plain (clause : Option NodeId) :
    scopesIn (chain.push (.plain clause) f) = scopesIn chain := rfl

@[simp] theorem scopesIn_push_inMethod (member : Member) :
    scopesIn (chain.push (.inMethod member) f) = [] := rfl

@[simp] theorem scopesIn_push_code (member : Member) (store : Nat) :
    scopesIn (chain.push (.code node member store) f) = scopesIn chain := rfl

theorem flags_push_loop : flags (chain.push (.loop node) {}) = flags chain := by
  simp [push, flags, FrameKind.flags, Flags.union]

theorem flags_push_localScope (store : Nat) :
    flags (chain.push (.localScope node store) {}) = flags chain := by
  simp [push, flags, FrameKind.flags, Flags.union]

end push

/-! ### Scopes and syntax -/

variable {p : Program}

/-- The scope of a node knows what is around the node in its function.  A compilation unit inside of
code is no statement, and what scopes are listed for it does not matter. -/
structure Fits (p : Program) (scope : Chain) (node : NodeId) : Prop where
  flag : ∀ k : Clause, k.flag (flags scope) = true ↔ p.tree.InClause k node
  nested : (flags scope).inNestedFinally = true ↔ p.tree.InNestedFinally node
  loops : p.tree.Lists p.tree.IsLoop (loopsIn scope) node
  scopes : (∀ members, p.tree.node? node ≠ some (.compilationUnit members)) →
    p.tree.Lists p.tree.OpensScope (scopesIn scope) node

/-- The chain that a node opens its scope on knows it of what is outside. -/
structure FitsAround (p : Program) (base : Chain) (node : NodeId) (alone : Bool) : Prop where
  flag : ∀ k : Clause, k.flag (flags base) = true ↔ p.tree.InClause k node
  nested : (flags base).inNestedFinally = true ↔ p.tree.InNestedFinally node
  loops : p.tree.ListsOutside p.tree.IsLoop (loopsIn base) node
  scopes : p.tree.ListsOutside p.tree.OpensScope (scopesIn base) node
  alone_iff : alone = true ↔ p.tree.StandsAlone node

theorem FitsAround.opened {base : Chain} {node : NodeId} {alone : Bool}
    (h : FitsAround p base node alone) : Fits p (opened p 0 alone base node) node := by
  have same : (∀ condition body, p.tree.node? node ≠ some (.whileStatement condition body)) →
      p.tree.Lists p.tree.IsLoop (loopsIn base) node := fun hnot =>
    h.loops.same fun hloop => hnot _ _ hloop.choose_spec.choose_spec
  unfold Chain.opened
  cases hnode : p.tree.node? node with
  | none => exact ⟨h.flag, h.nested, same (by simp [hnode]),
    fun _ => h.scopes.same (by simp [Tree.OpensScope, hnode])⟩
  | some kind =>
    rw [hnode] at same
    cases kind with
    | block statements =>
      refine ⟨?_, ?_, same (by simp), fun _ => h.scopes.cons (by simp [Tree.OpensScope, hnode])⟩
      · simpa only [flags_push_localScope] using h.flag
      · simpa only [flags_push_localScope] using h.nested
    | whileStatement condition body =>
      refine ⟨?_, ?_, h.loops.cons ⟨condition, body, hnode⟩,
        fun _ => h.scopes.same (by simp [Tree.OpensScope, hnode])⟩
      · simpa only [flags_push_loop] using h.flag
      · simpa only [flags_push_loop] using h.nested
    | localDeclaration | localFunction | labeled =>
      have opens : p.tree.OpensScope node ↔ p.tree.StandsAlone node := by
        simp [Tree.OpensScope, hnode]
      dsimp only
      split
      · next halone =>
        refine ⟨?_, ?_, same (by simp), fun _ => h.scopes.cons (opens.2 (h.alone_iff.1 halone))⟩
        · simpa only [flags_push_localScope] using h.flag
        · simpa only [flags_push_localScope] using h.nested
      · next halone =>
        exact ⟨h.flag, h.nested, same (by simp),
          fun _ => h.scopes.same fun hopens => halone (h.alone_iff.2 (opens.1 hopens))⟩
    | compilationUnit members =>
      exact ⟨h.flag, h.nested, same (by simp), fun hnot => absurd hnode (hnot members)⟩
    | _ =>
      exact ⟨h.flag, h.nested, same (by simp),
        fun _ => h.scopes.same (by simp [Tree.OpensScope, hnode])⟩

/-- The flags of a clause say which one it is. -/
theorem flag_of_mem_clauses {scope : Chain} {body : NodeId} {catchBody finallyBody : Option NodeId}
    (hnodup : (Node.tryStatement body catchBody finallyBody).children.Nodup)
    {clause : NodeId × Flags} (h : clause ∈ clauses scope body catchBody finallyBody) :
    (∀ k : Clause, k.flag clause.2 = true ↔
      (Node.tryStatement body catchBody finallyBody).clause? k = some clause.1) ∧
    (clause.2.inNestedFinally = true ↔
      (Node.tryStatement body catchBody finallyBody).clause? .final = some clause.1 ∧
        (flags scope).inFinally = true) := by
  obtain ⟨part, f⟩ := clause
  refine ⟨fun k => ?_, ?_⟩
  · cases catchBody <;> cases finallyBody <;> cases k <;>
      simp [clauses, Node.clause?, Clause.flag] at h hnodup ⊢ <;> grind
  · cases catchBody <;> cases finallyBody <;>
      simp [clauses, Node.clause?] at h hnodup ⊢ <;> grind

section step

variable (linked : p.tree.Linked) {scope : Chain} {node : NodeId}
include linked

/-- A part that belongs to the function of its statement and is no clause. -/
theorem Fits.part {part : NodeId} {kind : Node} (h : Fits p scope node)
    (hnode : p.tree.node? node = some kind) (hpart : part ∈ kind.children)
    (hown : part ∈ p.tree.ownStatements node) (hscope : ∀ members, kind ≠ .compilationUnit members)
    {base : Chain} {alone : Bool} (halone : alone = true ↔ part ∈ kind.lone)
    (hloops : loopsIn base = loopsIn scope) (hscopes : scopesIn base = scopesIn scope)
    (hflag : ∀ k : Clause, k.flag (flags base) = true ↔
      kind.clause? k = some part ∨ k.flag (flags scope) = true)
    (hnested : (flags base).inNestedFinally = true ↔
      kind.clause? .final = some part ∧ (flags scope).inFinally = true ∨
        (flags scope).inNestedFinally = true) : FitsAround p base part alone := by
  have owner : ∀ {Q : NodeId → Prop}, (∃ m, part ∈ p.tree.ownStatements m ∧ Q m) ↔ Q node := by
    intro Q
    refine ⟨fun ⟨m, hm, hQ⟩ => Tree.owner_unique linked hm hown ▸ hQ, fun hQ => ⟨node, hown, hQ⟩⟩
  refine ⟨fun k => ?_, ?_, ?_, ?_, ?_⟩
  · rw [hflag, Tree.inClause_iff linked hnode hpart, owner, h.flag]
  · rw [hnested, Tree.inNestedFinally_iff linked hnode hpart, owner, h.nested]
    exact or_congr_left (and_congr_right fun _ => h.flag .final)
  · rw [hloops]
    exact h.loops.outside linked hown
  · rw [hscopes]
    exact (h.scopes fun members hmembers => hscope members
      (Option.mem_unique hnode hmembers)).outside linked hown
  · rw [halone, Tree.standsAlone_iff linked hnode hpart]

/-- A node that no statement of its function consists of. -/
theorem fitsAround_of_start {part : NodeId} {kind : Node} (hnode : p.tree.node? node = some kind)
    (hpart : part ∈ kind.children) (hown : part ∉ p.tree.ownStatements node)
    (hglobal : kind ≠ .globalStatement part) (hclause : ∀ k, kind.clause? k = none)
    {base : Chain} {alone : Bool} (halone : alone = true ↔ part ∈ kind.lone)
    (hloops : loopsIn base = []) (hscopes : scopesIn base = [])
    (hflag : ∀ k : Clause, k.flag (flags base) = false)
    (hnested : (flags base).inNestedFinally = false) : FitsAround p base part alone := by
  have no := Tree.not_mem_ownStatements linked hnode hpart hown hglobal
  refine ⟨fun k => ?_, ?_, ?_, ?_, ?_⟩
  · rw [hflag, Tree.inClause_iff linked hnode hpart]
    simp [hclause, no]
  · rw [hnested, Tree.inNestedFinally_iff linked hnode hpart]
    simp [hclause, no]
  · rw [hloops]
    exact .nil no
  · rw [hscopes]
    exact .nil no
  · rw [halone, Tree.standsAlone_iff linked hnode hpart]

/-- Each step to a part keeps scopes fitting. -/
theorem Fits.mem_parts (h : Fits p scope node) {q : Part} (hq : q ∈ parts p 0 scope node) :
    FitsAround p q.chain q.node q.alone := by
  obtain ⟨kind, hnode, hstatement⟩ := hasStatement_of_mem_parts hq
  have hpart := Node.mem_children_of_mem_statements hstatement
  unfold parts at hq
  rw [hnode] at hq
  cases kind with
  | block | labeled | ifStatement | whileStatement =>
    obtain ⟨_, hmem, rfl⟩ := List.mem_map.1 hq
    refine h.part linked hnode hpart ?_ (by simp) ?_ rfl rfl ?_ ?_
    · simpa [Tree.ownStatements, hnode] using hstatement
    · simp_all [Node.lone]
    · exact fun k => by cases k <;> simp [Node.clause?]
    · simp [Node.clause?]
  | tryStatement =>
    obtain ⟨clause, hmem, rfl⟩ := List.mem_map.1 hq
    obtain ⟨hflag, hnested⟩ := flag_of_mem_clauses (linked.nodup_children hnode) hmem
    refine h.part linked hnode hpart ?_ (by simp) ?_ rfl rfl (fun k => ?_) ?_
    · simpa [Tree.ownStatements, hnode] using hstatement
    · simpa [Node.lone] using hpart
    · rw [← hflag k]
      cases k <;> simp [Clause.flag, push, flags, FrameKind.flags, Flags.union, or_comm]
    · rw [← hnested]
      simp [push, flags, FrameKind.flags, Flags.union, or_comm]
  | localFunction =>
    obtain ⟨function, -, rfl⟩ := List.mem_map.1 hq
    refine fitsAround_of_start linked hnode hpart ?_ (by simp) ?_ ?_ rfl rfl ?_ ?_
    · simp [Tree.ownStatements, hnode]
    · exact fun k => by cases k <;> rfl
    · simp [Node.lone]
    · exact fun k => by cases k <;> rfl
    · rfl
  | _ => simp at hq

theorem Fits.step {a b : Place} (h : Fits p a.scope a.node) (hstep : Place.Step p a b) :
    Fits p b.scope b.node := by
  obtain ⟨q, hq, rfl⟩ := hstep
  exact (h.mem_parts linked hq).opened

/-- Inside of a place with a fitting scope, all scopes fit. -/
theorem Fits.inside {a b : Place} (h : Fits p a.scope a.node) (hinside : Place.Inside p a b) :
    Fits p b.scope b.node := by
  induction hinside with
  | refl => exact h
  | tail _ hstep ih => exact ih.step linked hstep

end step

/-! ### Where code starts -/

/-- The chain of a region begins a function. -/
theorem region_facts {region outer : Chain} {method : SymbolId} {f : Flags} {root : NodeId}
    (h : region = (outer.push (.inMethod (.symbol method)) f).push (.code root (.symbol method) 0) {}) :
    loopsIn region = [] ∧ scopesIn region = [] ∧ (∀ k : Clause, k.flag (flags region) = false) ∧
      (flags region).inNestedFinally = false := by
  subst h
  exact ⟨rfl, rfl, fun k => by cases k <;> rfl, rfl⟩

/-- The scope that a region lists for its root. -/
theorem Mapped.scope_root {region own : Chain} {root : NodeId} {scopes : List (NodeId × Chain)}
    (mapped : Mapped p region root scopes) (hown : region.innerOrSelf p root = .ok own) :
    own = opened p 0 true region root ∨ ∃ members,
      p.tree.node? root = some (.compilationUnit members) ∧
        own = region.push (.localScope root 0) {} := by
  obtain ⟨kind, hnode⟩ := Tree.exists_node_of_lt mapped.isRegion.root_lt
  by_cases hkind : kind.isStatement = true
  · have heq := (mapped.site hnode hkind).innerOrSelf_eq mapped
    exact .inl (ok_unique hown heq)
  · have hscopes := mapped.scopes_eq
    unfold rootScopes at hscopes
    rw [Tree.fetch_of_node? hnode] at hscopes
    rw [mapped.innerOrSelf_eq (.refl region)] at hown
    obtain rfl := Except.ok.inj hown
    cases kind with
    | compilationUnit members =>
      obtain rfl := Except.ok.inj hscopes
      exact .inr ⟨members, hnode, by simp [scopeAt]⟩
    | _ =>
      first
        | exact absurd rfl hkind
        | (obtain rfl := Except.ok.inj hscopes
           exact .inl (by simp [opened, hnode, scopeAt, Node.isStatement]))

end Chain

/-- Scopes fit where code starts. -/
theorem Program.CodeStart.fits {p : Program} (formed : p.Formed) {region chain own : Chain}
    {root node : NodeId} (h : CodeStart p region root chain node)
    (hown : chain.innerOrSelf p node = .ok own) : Chain.Fits p own node := by
  have linked := formed.linked
  obtain ⟨scopes, first, mapped, hfirst⟩ := h.exists_scope formed
  obtain ⟨outer, method, f, hregion⟩ := h.region_eq formed
  obtain ⟨hloops, hscopes, hflag, hnested⟩ := Chain.region_facts hregion
  cases h with
  | body hdata hbody hscope =>
    obtain ⟨x, hx, hkind⟩ := exists_of_method? hdata
    obtain ⟨-, n, modifiers, parameters, -, hnode⟩ := formed.table.declared_body hx hkind hbody
    have around : Chain.FitsAround p region root true := by
      refine Chain.fitsAround_of_start linked hnode (by simp) ?_ (by simp) ?_ ?_ hloops
        hscopes hflag hnested
      · simp [Tree.ownStatements, hnode]
      · exact fun k => by cases k <;> rfl
      · simp [Node.lone]
    rcases mapped.scope_root hown with rfl | ⟨members, hunit, rfl⟩
    · exact around.opened
    · refine ⟨?_, ?_, around.loops.same (by simp [Tree.IsLoop, hunit]),
        fun hnot => absurd hunit (hnot members)⟩
      · simpa only [Chain.flags_push_localScope] using around.flag
      · simpa only [Chain.flags_push_localScope] using around.nested
  | global hentry hdata hisEntry hscope hmem =>
    obtain ⟨members, hroot⟩ := linked.root_eq
    have hmembers : p.tree.members = members := by simp [Tree.members, hroot]
    have hmem : node ∈ p.tree.globalStatementsOf members := hmembers ▸ hmem
    have heq := (mapped.global linked hroot hmem).innerOrSelf_eq mapped
    obtain rfl := ok_unique heq hown
    obtain ⟨m, hm, hnode⟩ := Tree.exists_of_mem_globalStatementsOf hmem
    have hchild : node ∈ (Node.globalStatement node).children := List.mem_singleton_self node
    have hmine : node ∈ p.tree.ownStatements p.tree.root := by
      simpa [Tree.ownStatements, hroot] using hmem
    have owner : ∀ {Q : NodeId → Prop},
        (∃ m, node ∈ p.tree.ownStatements m ∧ Q m) ↔ Q p.tree.root := by
      refine fun {Q} => ⟨?_, fun hQ => ⟨_, hmine, hQ⟩⟩
      rintro ⟨k, hk, hQ⟩
      exact Tree.owner_unique linked hk hmine ▸ hQ
    -- around the global statements is the compilation unit, and nothing else
    have around : Chain.FitsAround p (Chain.globalScopeOf p region) node false := by
      unfold Chain.globalScopeOf
      refine ⟨fun k => ?_, ?_, ?_, ?_, ?_⟩
      · rw [Chain.flags_push_localScope, hflag, Tree.inClause_iff linked hnode hchild, owner]
        cases k <;> simp [Node.clause?, Tree.not_inClause_root]
      · rw [Chain.flags_push_localScope, hnested, Tree.inNestedFinally_iff linked hnode hchild, owner]
        have : ¬ p.tree.InNestedFinally p.tree.root := by
          rintro ⟨k, kind, part, hk, hpart, -, haround⟩
          exact Tree.not_inClause_root .final ⟨k, kind, part, hk, hpart, haround⟩
        simp [Node.clause?, this]
      · rw [Chain.loopsIn_push_localScope, hloops]
        have hlists : p.tree.Lists p.tree.IsLoop [] p.tree.root :=
          (Tree.ListsOutside.nil Tree.not_mem_ownStatements_root).same (by simp [Tree.IsLoop, hroot])
        exact hlists.outside linked hmine
      · rw [Chain.scopesIn_push_localScope, hscopes]
        have hlists : p.tree.Lists p.tree.OpensScope [p.tree.root] p.tree.root :=
          (Tree.ListsOutside.nil Tree.not_mem_ownStatements_root).cons
            (by simp [Tree.OpensScope, hroot])
        exact hlists.outside linked hmine
      · rw [Tree.standsAlone_iff linked hnode hchild]
        simp [Node.lone]
    exact around.opened

/-- The scope of every bound statement fits. -/
theorem Compilation.BoundIn.fits {d : Document} {options : Options} {c : Compilation}
    {scope : GlobalScope} {F : Findings} (h : Compiles d options c scope F) {b : BoundAt}
    (hb : c.BoundIn scope b) : ∃ own, b.chain.innerOrSelf c.program b.node = .ok own ∧
      Chain.Fits c.program own b.node := by
  obtain ⟨region, root, scopes, chain, start, first, own, origin⟩ := hb.origin h
  have hfirst := origin.codeStart.fits h.formed origin.first_eq.inner_eq
  exact ⟨own, origin.own_eq.inner_eq, Chain.Fits.inside h.formed.linked hfirst origin.inside⟩

end Bindery
