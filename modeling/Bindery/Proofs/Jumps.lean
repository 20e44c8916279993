import Bindery.Proofs.CompilationReports

/-! # Jumps

No jump leaves its function.  `break` and `continue` are bound to the innermost loop whose body they
stand in, and `goto` to a label of the innermost scope around it that declares the name.  Where the
function has no such loop or label, the jump is bound to an error and reported. -/

namespace Bindery

/-! ### Targets -/

namespace Tree

variable (t : Tree)

/-- The body of the loop contains the node, in the same function. -/
def LoopAround (w n : NodeId) : Prop :=
  ∃ condition body, t.node? w = some (.whileStatement condition body) ∧ t.Around body n

/-- The innermost loop around a node. -/
def InnermostLoop (n w : NodeId) : Prop :=
  t.LoopAround w n ∧ ∀ other, t.LoopAround other n → other = w ∨ t.LoopAround other w

/-- The statements that a scope is made of. -/
def scopeStatements (s : NodeId) : List NodeId :=
  match t.node? s with
  | some (.block statements) => statements
  | some (.compilationUnit members) => t.globalStatementsOf members
  | _ => [s]

/-- Nothing but labels stands between the first statement and the second. -/
def AfterLabels : NodeId → NodeId → Prop :=
  Relation.ReflTransGen fun m n => ∃ label, t.node? m = some (.labeled label n)

/-- The statement has that label, and belongs to the scope. -/
def Declares (s : NodeId) (name : String) (m : NodeId) : Prop :=
  ∃ first ∈ t.scopeStatements s, t.AfterLabels first m ∧ ∃ rest, t.node? m = some (.labeled name rest)

/-- A scope around a node, in its function, in which the name is a label. -/
def LabelAround (name : String) (s n : NodeId) : Prop :=
  t.OpensScope s ∧ t.Around s n ∧ ∃ m, t.Declares s name m

/-- The innermost scope around a node in which the name is a label. -/
def InnermostLabel (name : String) (n s : NodeId) : Prop :=
  t.LabelAround name s n ∧ ∀ other, t.LabelAround name other n → t.Around other s

variable {t} {n w s m : NodeId} {name : String}

/-- A node that is no loop itself has the loops around it that its function lists. -/
theorem loopAround_iff (hn : ¬ t.IsLoop n) : t.LoopAround w n ↔ t.IsLoop w ∧ t.Around w n := by
  constructor
  · rintro ⟨condition, body, hw, haround⟩
    exact ⟨⟨condition, body, hw⟩, (around_loop_iff hw).2 (.inr haround)⟩
  · rintro ⟨⟨condition, body, hw⟩, haround⟩
    rcases (around_loop_iff hw).1 haround with rfl | haround
    · exact absurd ⟨condition, body, hw⟩ hn
    · exact ⟨condition, body, hw, haround⟩

theorem innermostLoop_of_innermost (hn : ¬ t.IsLoop n) (h : t.Innermost t.IsLoop n w) :
    t.InnermostLoop n w := by
  refine ⟨(loopAround_iff hn).2 ⟨h.1, h.2.1⟩, fun other hother => ?_⟩
  obtain ⟨⟨condition, body, hnode⟩, haround⟩ := (loopAround_iff hn).1 hother
  rcases (around_loop_iff hnode).1 (h.2.2 other ⟨condition, body, hnode⟩ haround) with rfl | haround
  · exact .inl rfl
  · exact .inr ⟨condition, body, hnode, haround⟩

/-- The labels of a scope belong to statements of the same function. -/
theorem Declares.around (h : t.Declares s name m) : t.Around s m := by
  obtain ⟨first, hfirst, hlabels, -⟩ := h
  have hstart : t.Around s first := by
    unfold scopeStatements at hfirst
    split at hfirst
    · next hnode => exact .single (by simpa [ownStatements, hnode] using hfirst)
    · next hnode => exact .single (by simpa [ownStatements, hnode] using hfirst)
    · exact List.mem_singleton.1 hfirst ▸ .refl
  induction hlabels with
  | refl => exact hstart
  | tail _ hstep ih =>
    obtain ⟨label, hnode⟩ := hstep
    exact ih.tail (by simp [ownStatements, hnode])

end Tree

/-! ### Labels of scopes -/

namespace LocalDeclarations

variable {t : Tree}

/-- A statement declares its label and those after it. -/
theorem mem_labels_ofStatement (store : Nat) (node : Nat) (label : Label) :
    label ∈ (ofStatement t store node).labels ↔ ∃ m name rest, t.AfterLabels node m ∧
      t.node? m = some (.labeled name rest) ∧ label = ⟨name, m, .declared⟩ := by
  induction node using Nat.strongRecOn with
  | ind node ih =>
    have none : (∀ name rest, t.node? node ≠ some (.labeled name rest)) →
        ¬ ∃ m name rest, t.AfterLabels node m ∧ t.node? m = some (.labeled name rest) ∧
          label = ⟨name, m, .declared⟩ := by
      rintro hnot ⟨m, name, rest, hafter, hm, -⟩
      rcases Relation.ReflTransGen.cases_head hafter with rfl | ⟨_, ⟨other, hnode⟩, -⟩
      · exact hnot name rest hm
      · exact hnot other _ hnode
    rw [ofStatement]
    split
    · next hnode => exact iff_of_false (by simp) (none (by simp [hnode]))
    · next hnode => exact iff_of_false (by simp) (none (by simp [hnode]))
    · next name statement hnode =>
      have hlt := t.child_lt hnode (List.mem_singleton_self statement)
      simp only [append, List.mem_append, List.mem_singleton, ih statement hlt]
      constructor
      · rintro (rfl | ⟨m, other, rest, hafter, hm, rfl⟩)
        · exact ⟨node, name, statement, .refl, hnode, rfl⟩
        · exact ⟨m, other, rest, .head ⟨name, hnode⟩ hafter, hm, rfl⟩
      · rintro ⟨m, other, rest, hafter, hm, rfl⟩
        rcases Relation.ReflTransGen.cases_head hafter with rfl | ⟨next, ⟨label, hnode'⟩, hafter⟩
        · obtain ⟨rfl, rfl⟩ := Node.labeled.inj (Option.mem_unique hnode hm)
          exact .inl rfl
        · obtain ⟨rfl, rfl⟩ := Node.labeled.inj (Option.mem_unique hnode hnode')
          exact .inr ⟨m, other, rest, hafter, hm, rfl⟩
    · next hother =>
      exact iff_of_false (by simp) (none fun name rest hnode => hother name rest hnode)

theorem labels_foldl_append (list : List LocalDeclarations) (first : LocalDeclarations) :
    (list.foldl append first).labels = first.labels ++ list.flatMap (·.labels) := by
  induction list generalizing first with
  | nil => simp
  | cons a rest ih => simp [ih, append]

/-- What a scope declares as labels. -/
theorem exists_collect (store : Nat) {s : NodeId} {kind : Node} (hs : t.node? s = some kind) :
    ∃ found, collect t store s = .ok found ∧ ∀ label, label ∈ found.labels ↔
      ∃ m name, t.Declares s name m ∧ label = ⟨name, m, .declared⟩ := by
  refine ⟨((t.scopeStatements s).map (ofStatement t store)).foldl append {}, ?_, fun label => ?_⟩
  · unfold collect Tree.scopeStatements
    rw [Tree.fetch_of_node? hs, hs]
    cases kind <;> rfl
  · rw [labels_foldl_append]
    simp only [List.nil_append, List.mem_flatMap, List.mem_map, exists_exists_and_eq_and,
      mem_labels_ofStatement]
    constructor
    · rintro ⟨first, hfirst, m, name, rest, hafter, hm, rfl⟩
      exact ⟨m, name, ⟨first, hfirst, hafter, rest, hm⟩, rfl⟩
    · rintro ⟨m, name, ⟨first, hfirst, hafter, rest, hm⟩, rfl⟩
      exact ⟨first, hfirst, m, name, rest, hafter, hm, rfl⟩

end LocalDeclarations

namespace Chain

variable {p : Program}

theorem exists_node_of_opensScope {t : Tree} {s : NodeId} (h : t.OpensScope s) :
    ∃ kind, t.node? s = some kind := by
  unfold Tree.OpensScope at h
  split at h
  all_goals first | exact ⟨_, by assumption⟩ | exact h.elim

theorem findDeclared?_cons {α : Type} {frame : Frame} {found : Option LocalDeclarations}
    (h : frame.declarations? p = .ok found) (rest : List Frame)
    (find? : LocalDeclarations → Option α) :
    findDeclared? p (frame :: rest) find? = match found.bind find? with
      | some a => .ok (some a)
      | none => findDeclared? p rest find? := by
  unfold findDeclared?
  rw [List.findSomeM?, h]
  change (match found.bind find? with
    | some a => pure (some a)
    | none => _ : Except Fault (Option α)) = _
  cases found.bind find? <;> rfl

/-- The first scope of the frames in which a name is a label gives the label. -/
theorem findLabel_spec (name : String) (frames : List Frame)
    (h : ∀ s ∈ frames.filterMap Frame.designator?, p.tree.OpensScope s) :
    (findDeclared? p frames (·.findLabel? name) = .ok none ∧
      ∀ s ∈ frames.filterMap Frame.designator?, ∀ m, ¬ p.tree.Declares s name m) ∨
    ∃ inner s outer m, frames.filterMap Frame.designator? = inner ++ s :: outer ∧
      (∀ s ∈ inner, ∀ m, ¬ p.tree.Declares s name m) ∧ p.tree.Declares s name m ∧
        findDeclared? p frames (·.findLabel? name) = .ok (some ⟨name, m, .declared⟩) := by
  induction frames with
  | nil => exact .inl ⟨rfl, by simp⟩
  | cons frame rest ih =>
    cases hkind : frame.kind with
    | localScope s store =>
      have hframe : frame.designator? = some s := by simp [Frame.designator?, hkind]
      rw [List.filterMap_cons_some hframe] at h ⊢
      obtain ⟨kind, hs⟩ := exists_node_of_opensScope (h s (by simp))
      obtain ⟨found, hfound, hlabels⟩ := LocalDeclarations.exists_collect store hs
      have hdeclarations : frame.declarations? p = .ok (some found) := by
        simp [Frame.declarations?, hkind, hfound, Functor.map, Except.map]
      rw [findDeclared?_cons hdeclarations, Option.bind_some]
      cases hlabel : found.findLabel? name with
      | some label =>
        obtain ⟨m, name', hdeclares, rfl⟩ :=
          (hlabels label).1 (List.mem_of_find?_eq_some hlabel)
        obtain rfl : name' = name := by simpa using List.find?_some hlabel
        exact .inr ⟨[], s, _, m, rfl, by simp, hdeclares, rfl⟩
      | none =>
        have hnone : ∀ m, ¬ p.tree.Declares s name m := fun m hdeclares => by
          simpa using List.find?_eq_none.1 hlabel _ ((hlabels _).2 ⟨m, name, hdeclares, rfl⟩)
        rcases ih fun s hs => h s (List.mem_cons_of_mem _ hs) with
          ⟨hfind, hrest⟩ | ⟨inner, s', outer, m, hlist, hinner, hdeclares, hfind⟩
        · exact .inl ⟨hfind, List.forall_mem_cons.2 ⟨hnone, hrest⟩⟩
        · exact .inr ⟨s :: inner, s', outer, m, by simp [hlist],
            List.forall_mem_cons.2 ⟨hnone, hinner⟩, hdeclares, hfind⟩
    | _ =>
      have hframe : frame.designator? = none := by simp [Frame.designator?, hkind]
      have hdeclarations : frame.declarations? p = .ok none := by
        simp [Frame.declarations?, hkind, pure, Except.pure]
      rw [List.filterMap_cons_none hframe] at h ⊢
      rw [findDeclared?_cons hdeclarations]
      exact ih h

/-- A name is looked up as a label in the innermost scope around a statement that declares it. -/
theorem Fits.lookupLabel?_spec {scope : Chain} {n : NodeId} (hfits : Fits p scope n)
    (hn : ∀ members, p.tree.node? n ≠ some (.compilationUnit members)) (name : String) :
    (lookupLabel? p scope name = .ok none ∧ ∀ s, ¬ p.tree.LabelAround name s n) ∨
      ∃ s m, p.tree.InnermostLabel name n s ∧ p.tree.Declares s name m ∧
        lookupLabel? p scope name = .ok (some ⟨name, m, .declared⟩) := by
  have hlists := hfits.scopes hn
  rcases findLabel_spec name (inFunction scope) fun s hs => ((hlists.mem_iff s).1 hs).1 with
    ⟨hfind, hnone⟩ | ⟨inner, s, outer, m, hlist, hinner, hdeclares, hfind⟩
  · refine .inl ⟨hfind, ?_⟩
    rintro s ⟨hopens, haround, m, hm⟩
    exact hnone s ((hlists.mem_iff s).2 ⟨hopens, haround⟩) m hm
  · have hsplit : scopesIn scope = inner ++ s :: outer := hlist
    obtain ⟨hopens, haround⟩ := (hlists.mem_iff s).1 (by simp [hsplit])
    refine .inr ⟨s, m, ⟨⟨hopens, haround, m, hdeclares⟩, ?_⟩, hdeclares, hfind⟩
    rintro other ⟨hopens', haround', m', hm'⟩
    -- the others come later in the list, so they are further out
    have hmem := (hlists.mem_iff other).2 ⟨hopens', haround'⟩
    rw [hsplit] at hmem
    have hpairs := hlists.inside_out
    rw [hsplit] at hpairs
    rcases List.mem_append.1 hmem with hmem | hmem
    · exact absurd hm' (hinner other hmem m')
    · rcases List.mem_cons.1 hmem with rfl | hmem
      · exact .refl
      · exact (List.pairwise_cons.1 (List.pairwise_append.1 hpairs).2.1).1 other hmem

/-- The loop that the scope of a statement knows is the innermost around it. -/
theorem Fits.loop?_spec {scope : Chain} {n : NodeId} (hfits : Fits p scope n)
    (hn : ¬ p.tree.IsLoop n) :
    (loop? scope = none ∧ ∀ w, ¬ p.tree.LoopAround w n) ∨
      ∃ w, p.tree.InnermostLoop n w ∧ loop? scope = some w := by
  rw [loop?_eq_head?]
  cases hlist : loopsIn scope with
  | nil =>
    refine .inl ⟨rfl, fun w hw => ?_⟩
    have hmem := (hfits.loops.mem_iff w).2 ((Tree.loopAround_iff hn).1 hw)
    simp [hlist] at hmem
  | cons w rest =>
    exact .inr ⟨w, Tree.innermostLoop_of_innermost hn (hfits.loops.innermost (by simp [hlist])), rfl⟩

end Chain

/-! ### Bound jumps -/

namespace Program

variable {p : Program}

/-- A jump is bound to its target, or to an error. -/
theorem eq_of_jump {target : Option Label} {statement : Label → Statement} {node : NodeId}
    {message : Message} {name : String} {s : Statement} {t t' : BindState}
    (h : p.jump target statement node message name t = .ok s t') :
    s = (target.map statement).getD (.error node) := by
  cases target with
  | some label => exact (EStateM.Result.ok.inj h).1.symm
  | none =>
    obtain ⟨_, _, -, h⟩ := exists_of_run_bind h
    exact (EStateM.Result.ok.inj h).1.symm

end Program

def Node.isJump : Node → Bool
  | .breakStatement | .continueStatement | .goto _ => true
  | _ => false

def Statement.isJump : Statement → Bool
  | .breakTo _ | .continueTo _ | .goto _ => true
  | _ => false

/-- What comes of running `m` is no jump. -/
def GoesOn (m : BindM Statement) : Prop := ∀ ⦃s a t⦄, m s = .ok a t → a.isJump = false

namespace GoesOn

variable {m m' : BindM Statement}

theorem pure {a : Statement} (h : a.isJump = false) : GoesOn (Pure.pure a) := fun _ _ _ hrun =>
  (EStateM.Result.ok.inj hrun).1 ▸ h

theorem throw {fault : Fault} : GoesOn (MonadExcept.throw fault) := fun _ _ _ hrun => by cases hrun

theorem bind {α : Type} {x : BindM α} {k : α → BindM Statement} (h : ∀ a, GoesOn (k a)) :
    GoesOn (x >>= k) := by
  intro s a t hrun
  obtain ⟨b, _, -, hrun⟩ := exists_of_run_bind hrun
  exact h b hrun

theorem ite {c : Prop} [Decidable c] (h : GoesOn m) (h' : GoesOn m') :
    GoesOn (if c then m else m') := by
  split
  · exact h
  · exact h'

end GoesOn

namespace Program

variable {p : Program} {ask : Asker}

theorem bindLocalDeclaration_goesOn (chain : Chain) (name : String) (type : Option NodeId)
    (isConstant : Bool) (initializer : Option NodeId) (node : NodeId) :
    GoesOn (p.bindLocalDeclaration ask chain name type isConstant initializer node) := by
  refine .bind fun target => ?_
  cases target with
  | none => exact .throw
  | some target =>
    refine .bind fun existing => ?_
    extract_lets rest
    have hrest : GoesOn (rest ()) :=
      .bind fun _ => .bind fun _ => .bind fun _ => .bind fun _ =>
        .ite (.bind fun _ => .bind fun _ => .pure rfl) (.pure rfl)
    exact .ite (.bind fun _ => hrest) hrest

theorem bindReturn_goesOn (chain : Chain) (expression : Option NodeId) (node : NodeId) :
    GoesOn (p.bindReturn ask chain expression node) := by
  unfold bindReturn
  extract_lets _ rest
  have hrest : GoesOn (rest ()) := by
    refine .bind fun target => ?_
    cases expression with
    | none => exact .ite (.bind fun _ => .bind fun _ => .pure rfl) (.pure rfl)
    | some expression =>
      exact .ite (.bind fun _ => .bind fun _ => .pure rfl) (.bind fun _ => .bind fun _ => .pure rfl)
  exact .ite (.bind fun _ => hrest) hrest

/-- Only jumps are bound to jumps. -/
theorem statementStep_goesOn (scope : Chain) (node : NodeId) {kind : Node}
    (hkind : kind.isJump = false) :
    GoesOn (p.statementStep ask scope node kind) := by
  cases kind with
  | breakStatement | continueStatement | goto _ => cases hkind
  | block statements => exact .bind fun _ => .bind fun _ => .bind fun _ => .pure rfl
  | localDeclaration => exact bindLocalDeclaration_goesOn ..
  | localFunction => exact .bind fun _ => .bind fun _ => .pure rfl
  | expressionStatement => exact .bind fun _ => .pure rfl
  | ifStatement | tryStatement => exact .bind fun _ => .bind fun _ => .bind fun _ => .pure rfl
  | whileStatement =>
    cases hloop : Chain.loop? scope with
    | none => simpa only [statementStep, hloop] using GoesOn.throw
    | some loop =>
      simpa only [statementStep, hloop] using GoesOn.bind fun _ => .bind fun _ => .pure rfl
  | returnStatement => exact bindReturn_goesOn ..
  | labeled name statement =>
    refine .bind fun label => ?_
    cases label with
    | none => exact .throw
    | some label =>
      refine .bind fun found => ?_
      exact .ite (.bind fun _ => .bind fun _ => .pure rfl) (.bind fun _ => .pure rfl)
  | _ =>
    simp only [statementStep]
    exact .ite (.bind fun _ => .pure rfl) (.bind fun _ => .pure rfl)

end Program

/-- The statement is bound to a jump to the innermost loop around it, or to an error if there is
none. -/
def BoundAt.JumpsOut (p : Program) (b : BoundAt) (jump : NodeId → Statement) : Prop :=
  (∃ w, p.tree.InnermostLoop b.node w ∧ b.statement = jump w) ∨
    (∀ w, ¬ p.tree.LoopAround w b.node) ∧ b.statement = .error b.node

/-- The statement is bound to a jump to a label of the innermost scope around it that declares the
name, or to an error if there is none. -/
def BoundAt.JumpsTo (p : Program) (b : BoundAt) (name : String) : Prop :=
  (∃ s m, p.tree.InnermostLabel name b.node s ∧ p.tree.Declares s name m ∧ p.tree.Around s m ∧
      b.statement = .goto ⟨name, m, .declared⟩) ∨
    (∀ s, ¬ p.tree.LabelAround name s b.node) ∧ b.statement = .error b.node

namespace Compilation

variable {d : Document} {options : Options} {c : Compilation} {scope : GlobalScope} {F : Findings}

variable {b : BoundAt}

/-- What binding a statement does in its scope. -/
theorem BoundIn.step (h : Compiles d options c scope F) (hb : c.BoundIn scope b) {kind : Node}
    (hnode : c.program.tree.node? b.node = some kind) :
    ∃ own t t', b.chain.innerOrSelf c.program b.node = .ok own ∧ Chain.Fits c.program own b.node ∧
      c.program.statementStep c.program.answer own b.node kind t = .ok b.statement t' := by
  obtain ⟨own, hown, hfits⟩ := hb.fits h
  obtain ⟨_, _, _, _, _, _, _, origin⟩ := hb.origin h
  obtain ⟨t, t', hrun⟩ := origin.runs
  rw [Program.bindStatement_eq hnode, hown] at hrun
  exact ⟨own, t, t', hown, hfits, hrun⟩

theorem BoundIn.exists_node (h : Compiles d options c scope F) (hb : c.BoundIn scope b) :
    ∃ kind, c.program.tree.node? b.node = some kind := by
  obtain ⟨_, _, _, _, _, _, _, origin⟩ := hb.origin h
  obtain ⟨t, t', hrun⟩ := origin.runs
  cases hnode : c.program.tree.node? b.node with
  | some kind => exact ⟨kind, rfl⟩
  | none =>
    rw [Program.bindStatement_eq_of_missing hnode] at hrun
    obtain ⟨own, -, hrun⟩ := exists_of_run_lift hrun
    cases hrun

/-- A statement that is bound to a jump is a jump. -/
theorem BoundIn.isJump (h : Compiles d options c scope F) (hb : c.BoundIn scope b)
    (hjump : b.statement.isJump = true) :
    ∃ kind, c.program.tree.node? b.node = some kind ∧ kind.isJump = true := by
  obtain ⟨kind, hnode⟩ := hb.exists_node h
  obtain ⟨own, t, t', -, -, hrun⟩ := hb.step h hnode
  refine ⟨kind, hnode, Bool.of_not_eq_false fun hkind => ?_⟩
  simp [Program.statementStep_goesOn own b.node hkind hrun] at hjump

theorem jumpsOut_of_jump {own : Chain} {t t' : BindState} (hfits : Chain.Fits c.program own b.node)
    (hloop : ¬ c.program.tree.IsLoop b.node) {label : NodeId → Label} {jump : Label → Statement}
    {message : Message} {name : String}
    (hrun : c.program.jump ((Chain.loop? own).map label) jump b.node message name t =
      .ok b.statement t') : b.JumpsOut c.program fun w => jump (label w) := by
  have hs := Program.eq_of_jump hrun
  rcases hfits.loop?_spec hloop with ⟨hnone, hno⟩ | ⟨w, hw, hsome⟩
  · exact .inr ⟨hno, by simpa [hnone] using hs⟩
  · exact .inl ⟨w, hw, by simpa [hsome] using hs⟩

/-- Jumps never leave their function.  Every `break` and `continue` is bound to the innermost loop
whose body it stands in, every `goto` to a label of the innermost scope around it that declares the
name, in the same function each; those that have no such target, and no others, are bound to errors
and reported. Nothing else is bound to a jump. -/
theorem jumps_stay_in_function (h : Compiles d options c scope F) :
    (∀ n, c.program.InCode n → ∃ b, c.BoundIn scope b ∧ b.node = n) ∧
    (∀ b, c.BoundIn scope b →
      (c.program.tree.node? b.node = some .breakStatement →
        b.JumpsOut c.program fun w => .breakTo (.breakOf w)) ∧
      (c.program.tree.node? b.node = some .continueStatement →
        b.JumpsOut c.program fun w => .continueTo (.continueOf w)) ∧
      (∀ name, c.program.tree.node? b.node = some (.goto name) → b.JumpsTo c.program name) ∧
      (b.statement.isJump = true →
        ∃ kind, c.program.tree.node? b.node = some kind ∧ kind.isJump = true)) ∧
    c.ReportsExactly scope .jumpOutsideLoop (fun n => c.program.InCode n ∧
      (c.program.tree.node? n = some .breakStatement ∨
        c.program.tree.node? n = some .continueStatement) ∧
      ∀ w, ¬ c.program.tree.LoopAround w n) ∧
    c.ReportsExactly scope .undefinedLabel (fun n => c.program.InCode n ∧
      ∃ name, c.program.tree.node? n = some (.goto name) ∧
        ∀ s, ¬ c.program.tree.LabelAround name s n) := by
  have linked := h.formed.linked
  refine ⟨fun n hn => exists_boundIn h hn, fun b hb => ⟨fun hnode => ?_, fun hnode => ?_,
    fun name hnode => ?_, hb.isJump h⟩, ?_, ?_⟩
  · obtain ⟨own, t, t', -, hfits, hrun⟩ := hb.step h hnode
    exact jumpsOut_of_jump hfits (by simp [Tree.IsLoop, hnode]) hrun
  · obtain ⟨own, t, t', -, hfits, hrun⟩ := hb.step h hnode
    exact jumpsOut_of_jump hfits (by simp [Tree.IsLoop, hnode]) hrun
  · obtain ⟨own, t, t', -, hfits, hrun⟩ := hb.step h hnode
    obtain ⟨label, hlabel, hrun⟩ := exists_of_run_lift hrun
    have hs := Program.eq_of_jump hrun
    rcases hfits.lookupLabel?_spec (by simp [hnode]) name with
      ⟨hnone, hno⟩ | ⟨s, m, hinner, hdeclares, hsome⟩
    · obtain rfl := ok_unique hlabel hnone
      exact .inr ⟨hno, hs⟩
    · obtain rfl := ok_unique hlabel hsome
      exact .inl ⟨s, m, hinner, hdeclares, hdeclares.around, hs⟩
  · refine reportsExactly_of_owes h (by simp [Message.MayOccur]) fun {own n} hfits => ?_
    rw [Place.exists_owes_loop_iff linked]
    refine and_congr_right fun hnode => ?_
    have hloop : ¬ c.program.tree.IsLoop n := by
      rcases hnode with hnode | hnode <;> simp [Tree.IsLoop, hnode]
    rcases hfits.loop?_spec hloop with ⟨hnone, hno⟩ | ⟨w, hw, hsome⟩
    · exact iff_of_true hnone hno
    · exact iff_of_false (by simp [hsome]) fun hno => hno w hw.1
  · refine reportsExactly_of_owes h (by simp [Message.MayOccur]) fun hfits => ?_
    rw [Place.exists_owes_label_iff linked]
    refine exists_congr fun name => and_congr_right fun hnode => ?_
    rcases hfits.lookupLabel?_spec (by simp [hnode]) name with
      ⟨hnone, hno⟩ | ⟨s, m, hinner, hdeclares, hsome⟩
    · exact iff_of_true hnone hno
    · exact iff_of_false (by simp [hsome]) fun hno => hno s hinner.1

theorem jumps_stay_in_function_break : ∃ c scope F b, Compiles breakDocument {} c scope F ∧
    c.BoundIn scope b ∧ c.program.tree.node? b.node = some .breakStatement ∧
      b.statement = .breakTo (.breakOf 3) := by
  obtain ⟨c, scope, F, h, hnodes, hcode⟩ := exists_compiles_break
  obtain ⟨hall, hjumps, -⟩ := jumps_stay_in_function h
  obtain ⟨b, hb, hnode⟩ := hall 1 hcode
  have hbreak : c.program.tree.node? b.node = some .breakStatement := by rw [hnode, hnodes]; rfl
  have haround : c.program.tree.LoopAround 3 b.node := by
    refine ⟨0, 2, hnodes 3, .single ?_⟩
    have htry : c.program.tree.node? 2 = some (.tryStatement 1 none none) := hnodes 2
    simp [Tree.ownStatements, htry, hnode]
  refine ⟨c, scope, F, b, h, hb, hbreak, ?_⟩
  rcases (hjumps b hb).1 hbreak with ⟨w, hw, hstatement⟩ | ⟨hno, -⟩
  · obtain ⟨condition, body, hloop, -⟩ := hw.1
    rw [hnodes] at hloop
    -- the loop at 3 is the only one
    obtain rfl : w = 3 := by
      rcases w with _ | _ | _ | _ | _ | _ | w <;> simp [breakDocument] at hloop ⊢
    exact hstatement
  · exact absurd haround (hno 3)

end Compilation
end Bindery
