import Bindery.Fault
import Mathlib.Data.List.Forall2

/-! # Outcomes of computations that may fault

`Ends excused m s Q` says what comes of running `m` from the state `s`: a value and a state that
satisfy `Q`, or a fault that `excused` allows.

* `Succeeds` excuses nothing: the computation ends with a value.
* `Yields` is the same for questions that only look at a state.

The lemmas follow the shape of `do` blocks, so the outcome of a block is put together from the
outcomes of its steps. -/

namespace Bindery

variable {σ α β : Type} {excused : Fault → Prop}

/-- What comes of running `m` from `s`. -/
def Ends (excused : Fault → Prop) (m : EStateM Fault σ α) (s : σ) (Q : α → σ → Prop) : Prop :=
  match m s with
  | .ok a s' => Q a s'
  | .error fault _ => excused fault

/-- `m` ends with a value. -/
abbrev Succeeds (m : EStateM Fault σ α) (s : σ) (Q : α → σ → Prop) : Prop :=
  Ends (fun _ => False) m s Q

/-- A question that is answered, by something that satisfies `Q`. -/
def Yields (x : Except Fault α) (Q : α → Prop) : Prop := ∃ a, x = .ok a ∧ Q a

namespace Ends

variable {m : EStateM Fault σ α} {x : Except Fault α} {list : List α} {a : α}
  {k : α → EStateM Fault σ β} {Q : α → σ → Prop} {s : σ}

theorem pure (h : Q a s) :
    Ends excused (Pure.pure a) s Q := h

theorem of_eq {t : σ} (hm : m s = .ok a t) (h : Q a t) : Ends excused m s Q := by
  unfold Ends
  rw [hm]
  exact h

theorem bind {R : α → σ → Prop} {Q : β → σ → Prop} (hm : Ends excused m s R)
    (hk : ∀ a s', R a s' → Ends excused (k a) s' Q) :
    Ends excused (m >>= k) s Q := by
  unfold Ends at hm
  change Ends excused (EStateM.bind m k) s Q
  unfold Ends EStateM.bind
  cases h : m s with
  | ok a s' =>
    rw [h] at hm
    exact hk a s' hm
  | error fault s' =>
    rw [h] at hm
    exact hm

variable {Q' : α → σ → Prop}

theorem imp (hm : Ends excused m s Q) (h : ∀ a s', Q a s' → Q' a s') :
    Ends excused m s Q' := by
  unfold Ends at hm ⊢
  split at hm
  · exact h _ _ hm
  · exact hm

theorem and (hm : Ends excused m s Q) (hm' : Ends excused m s Q') :
    Ends excused m s fun a s' => Q a s' ∧ Q' a s' := by
  unfold Ends at hm hm' ⊢
  cases h : m s with
  | ok a s' =>
    rw [h] at hm hm'
    exact ⟨hm, hm'⟩
  | error fault s' =>
    rw [h] at hm
    exact hm

theorem map {f : α → β} {Q : β → σ → Prop} (hm : Ends excused m s fun a s' => Q (f a) s') :
    Ends excused (f <$> m) s Q := by
  unfold Ends at hm
  change Ends excused (EStateM.map f m) s Q
  unfold Ends EStateM.map
  cases h : m s with
  | ok a s' => rw [h] at hm; exact hm
  | error fault s' => rw [h] at hm; exact hm

variable {R : α → Prop}

theorem bind_lift {Q : β → σ → Prop} (hx : Yields x R) (hk : ∀ a, R a → Ends excused (k a) s Q) :
    Ends excused (liftM x >>= k) s Q := by
  obtain ⟨a, rfl, ha⟩ := hx
  exact hk a ha

theorem bind_get {k : σ → EStateM Fault σ β} {Q : β → σ → Prop} (h : Ends excused (k s) s Q) :
    Ends excused (MonadState.get >>= k) s Q := h

theorem of_modify {f : σ → σ} {Q : Unit → σ → Prop} (h : Q () (f s)) :
    Ends excused (modify f : EStateM Fault σ Unit) s Q := h

theorem bind_modify {f : σ → σ} {k : Unit → EStateM Fault σ β} {Q : β → σ → Prop}
    (h : Ends excused (k ()) (f s) Q) :
    Ends excused ((modify f : EStateM Fault σ Unit) >>= k) s Q := h

theorem of_ok {s' : σ} (hm : Ends excused m s Q) (h : m s = .ok a s') : Q a s' := by
  unfold Ends at hm
  rw [h] at hm
  exact hm

theorem excused_of_error {s' : σ} {fault : Fault} (hm : Ends excused m s Q)
    (h : m s = .error fault s') :
    excused fault := by
  unfold Ends at hm
  rw [h] at hm
  exact hm

/-- `m` answers and leaves the state alone. -/
def Reads (excused : Fault → Prop) (m : EStateM Fault σ α) (s : σ) (Q : α → Prop) : Prop :=
  Ends excused m s fun a s' => s' = s ∧ Q a

theorem bind_reads {Q : β → σ → Prop} (hm : Reads excused m s R)
    (hk : ∀ a, R a → Ends excused (k a) s Q) : Ends excused (m >>= k) s Q :=
  bind hm fun a _ ⟨hs, ha⟩ => hs ▸ hk a ha

variable {Q : α → Prop}

theorem Reads.pure (h : Q a) :
    Reads excused (Pure.pure a) s Q := ⟨rfl, h⟩

theorem Reads.lift (hx : Yields x Q) :
    Reads excused (liftM x) s Q := by
  obtain ⟨a, rfl, ha⟩ := hx
  exact ⟨rfl, ha⟩

variable {f : α → EStateM Fault σ Bool}

theorem Reads.anyM (h : ∀ a ∈ list, Reads excused (f a) s fun _ => True) :
    Reads excused (list.anyM f) s fun _ => True := by
  induction list with
  | nil => exact Reads.pure trivial
  | cons a rest ih =>
    rw [List.anyM]
    refine bind_reads (h a (by simp)) fun b _ => ?_
    cases b with
    | true => exact Reads.pure trivial
    | false => exact ih fun a ha => h a (List.mem_cons_of_mem _ ha)

theorem Reads.findM? {P : α → Prop}
    (h : ∀ a ∈ list, Reads excused (f a) s fun b => b = true → P a) :
    Reads excused (list.findM? f) s fun found => ∀ a, found = some a → a ∈ list ∧ P a := by
  induction list with
  | nil => exact Reads.pure (by simp)
  | cons a rest ih =>
    rw [List.findM?]
    refine bind_reads (h a (by simp)) fun b hb => ?_
    cases b with
    | true =>
      refine Reads.pure ?_
      rintro _ ⟨rfl⟩
      exact ⟨List.mem_cons_self, hb rfl⟩
    | false =>
      refine imp (ih fun a ha => h a (List.mem_cons_of_mem _ ha)) ?_
      rintro found s' ⟨hs, hfound⟩
      exact ⟨hs, fun c hc => ⟨List.mem_cons_of_mem _ (hfound c hc).1, (hfound c hc).2⟩⟩

/-- A property that every item hands on from state to state. -/
theorem forM {f : α → EStateM Fault σ PUnit} {I : List α → σ → Prop} (start : I list s)
    (step : ∀ a rest s, I (a :: rest) s → Ends excused (f a) s fun _ s' => I rest s') :
    Ends excused (list.forM f) s fun _ s' => I [] s' := by
  induction list generalizing s with
  | nil => exact start
  | cons a rest ih => exact bind (step a rest s start) fun _ s' hs' => ih hs'

/-- A property of states that every item keeps. -/
theorem mapM {f : α → EStateM Fault σ β} {I : σ → Prop} (start : I s)
    (step : ∀ a ∈ list, ∀ s, I s → Ends excused (f a) s fun _ s' => I s') :
    Ends excused (list.mapM f) s fun _ s' => I s' := by
  induction list generalizing s with
  | nil => exact start
  | cons a rest ih =>
    rw [List.mapM_cons]
    refine bind (step a List.mem_cons_self s start) fun _ s' hs' => ?_
    refine bind (ih hs' fun b hb => step b (List.mem_cons_of_mem _ hb)) fun _ s'' hs'' => ?_
    exact pure hs''

end Ends

namespace Succeeds

theorem exists_ok {m : EStateM Fault σ α} {s : σ} {Q : α → σ → Prop} (h : Succeeds m s Q) :
    ∃ a s', m s = .ok a s' ∧ Q a s' := by
  unfold Succeeds Ends at h
  split at h
  · next a s' hm => exact ⟨a, s', hm, h⟩
  · exact h.elim

end Succeeds

variable {list : List α} {b : β} {s t : σ} {k : α → EStateM Fault σ β}

/-- The first of two computations ended, and the second went on from there. -/
theorem exists_of_run_bind {m : EStateM Fault σ α}
    (h : (m >>= k) s = .ok b t) : ∃ a s', m s = .ok a s' ∧ k a s' = .ok b t := by
  simp only [bind, EStateM.bind] at h
  cases hm : m s with
  | ok a s' =>
    rw [hm] at h
    exact ⟨a, s', rfl, h⟩
  | error fault s' => simp [hm] at h

/-- A computation ended, and its value was made into another. -/
theorem exists_of_run_bind_pure {m : EStateM Fault σ α} {g : α → β}
    (h : (m >>= fun a => pure (g a)) s = .ok b t) : ∃ a, m s = .ok a t ∧ g a = b := by
  obtain ⟨a, s', ha, h⟩ := exists_of_run_bind h
  obtain ⟨hb, rfl⟩ := EStateM.Result.ok.inj h
  exact ⟨a, ha, hb⟩

variable {x : Except Fault α}

/-- A question was answered, and the rest went on from there. -/
theorem exists_of_run_lift
    (h : ((liftM x : EStateM Fault σ α) >>= k) s = .ok b t) : ∃ a, x = .ok a ∧ k a s = .ok b t := by
  cases x with
  | ok a => exact ⟨a, rfl, h⟩
  | error fault => cases h

/-- The results of a list of computations, one for each item. -/
theorem forall₂_of_run_mapM {f : α → EStateM Fault σ β} {results : List β}
    (h : list.mapM f s = .ok results t) :
    List.Forall₂ (fun a b => ∃ s' t', f a s' = .ok b t') list results := by
  induction list generalizing s t results with
  | nil =>
    obtain ⟨rfl, -⟩ := EStateM.Result.ok.inj h
    exact .nil
  | cons a rest ih =>
    rw [List.mapM_cons] at h
    obtain ⟨b, s₁, hb, h⟩ := exists_of_run_bind h
    obtain ⟨bs, hbs, rfl⟩ := exists_of_run_bind_pure h
    exact .cons ⟨s, s₁, hb⟩ (ih hbs)

/-! ### Questions -/

theorem ok_unique {ε : Type} {x : Except ε α} {a a' : α} (h : x = .ok a) (h' : x = .ok a') : a = a' :=
  Except.ok.inj (h.symm.trans h')

/-- The first of two questions was answered, and the second from its answer. -/
theorem exists_of_bind_eq_ok {k : α → Except Fault β} (h : x >>= k = .ok b) :
    ∃ a, x = .ok a ∧ k a = .ok b := by
  cases x with
  | ok a => exact ⟨a, rfl, h⟩
  | error fault => cases h

theorem exists_of_bind_pure_eq_ok {g : α → β} (h : (x >>= fun a => pure (g a)) = .ok b) :
    ∃ a, x = .ok a ∧ g a = b := by
  obtain ⟨a, ha, h⟩ := exists_of_bind_eq_ok h
  exact ⟨a, ha, Except.ok.inj h⟩

/-- The answers to a list of questions, one for each item. -/
theorem forall₂_of_mapM {f : α → Except Fault β} {results : List β} (h : list.mapM f = .ok results) :
    List.Forall₂ (fun a b => f a = .ok b) list results := by
  induction list generalizing results with
  | nil =>
    obtain rfl := Except.ok.inj h
    exact .nil
  | cons a rest ih =>
    rw [List.mapM_cons] at h
    obtain ⟨b, hb, h⟩ := exists_of_bind_eq_ok h
    obtain ⟨bs, hbs, rfl⟩ := exists_of_bind_pure_eq_ok h
    exact .cons hb (ih hbs)

variable {f : α → Except Fault (Option β)}

/-- The first answer in a list is given by one of its items, and the items before it give none. -/
theorem exists_of_findSomeM? (h : list.findSomeM? f = .ok (some b)) :
    ∃ before a after, list = before ++ a :: after ∧ (∀ c ∈ before, f c = .ok none) ∧
      f a = .ok (some b) := by
  induction list with
  | nil => cases h
  | cons a rest ih =>
    rw [List.findSomeM?] at h
    obtain ⟨found, hfound, h⟩ := exists_of_bind_eq_ok h
    cases found with
    | none =>
      obtain ⟨before, c, after, rfl, hbefore, hanswer⟩ := ih h
      exact ⟨a :: before, c, after, rfl, by simpa using ⟨hfound, hbefore⟩, hanswer⟩
    | some c =>
      rw [← h]
      exact ⟨[], a, rest, rfl, by simp, hfound⟩

/-- What a list of choices keeps. -/
theorem eq_filterMap_of_filterMapM {g : α → Option β}
    (hg : ∀ {a : α} {b : Option β}, f a = .ok b → g a = b) {kept : List β}
    (h : list.filterMapM f = .ok kept) : kept = list.filterMap g := by
  have aux : ∀ (list : List α) (acc : List β), List.filterMapM.loop f list acc = .ok kept →
      kept = acc.reverse ++ list.filterMap g := by
    intro list
    induction list with
    | nil =>
      intro acc h
      obtain rfl := Except.ok.inj h
      simp
    | cons a rest ih =>
      intro acc h
      rw [List.filterMapM.loop] at h
      obtain ⟨found, hfound, h⟩ := exists_of_bind_eq_ok h
      cases found with
      | none => rw [ih acc h, List.filterMap_cons_none (hg hfound)]
      | some b =>
        rw [ih (b :: acc) h, List.filterMap_cons_some (hg hfound)]
        simp
  simpa using aux list [] h

namespace Yields

variable {x : Except Fault α} {list : List α} {a : α} {f : α → Except Fault Bool} {Q : α → Prop}

theorem pure (h : Q a) : Yields (Pure.pure a) Q := ⟨a, rfl, h⟩

theorem ok (h : Q a) : Yields (.ok a) Q := ⟨a, rfl, h⟩

theorem bind {k : α → Except Fault β} {R : α → Prop} {Q : β → Prop} (hx : Yields x R)
    (hk : ∀ a, R a → Yields (k a) Q) : Yields (x >>= k) Q := by
  obtain ⟨a, rfl, ha⟩ := hx
  exact hk a ha

theorem map {f : α → β} {Q : β → Prop} (hx : Yields x fun a => Q (f a)) : Yields (f <$> x) Q := by
  obtain ⟨a, rfl, ha⟩ := hx
  exact ⟨f a, rfl, ha⟩

theorem imp {Q' : α → Prop} (hx : Yields x Q) (h : ∀ a, Q a → Q' a) : Yields x Q' := by
  obtain ⟨a, hx, ha⟩ := hx
  exact ⟨a, hx, h a ha⟩

theorem of_ok (hx : Yields x Q) (h : x = .ok a) : Q a := by
  obtain ⟨b, hb, hpost⟩ := hx
  rw [h] at hb
  obtain rfl := Except.ok.inj hb
  exact hpost

theorem findSomeM? {f : α → Except Fault (Option β)} {Q : β → Prop}
    (h : ∀ a ∈ list, Yields (f a) fun b => ∀ c, b = some c → Q c) :
    Yields (list.findSomeM? f) fun b => ∀ c, b = some c → Q c := by
  induction list with
  | nil => exact pure (by simp)
  | cons a rest ih =>
    rw [List.findSomeM?]
    refine bind (h a (by simp)) fun b hb => ?_
    cases b with
    | none => exact ih fun a ha => h a (List.mem_cons_of_mem _ ha)
    | some c => exact pure hb

theorem findM? (h : ∀ a ∈ list, Yields (f a) fun _ => True) :
    Yields (list.findM? f) fun b => ∀ a, b = some a → a ∈ list ∧ f a = .ok true := by
  induction list with
  | nil => exact pure (by simp)
  | cons a rest ih =>
    rw [List.findM?]
    obtain ⟨b, hb, -⟩ := h a (by simp)
    rw [hb]
    cases b with
    | true =>
      refine ⟨some a, rfl, ?_⟩
      rintro _ ⟨rfl⟩
      exact ⟨List.mem_cons_self, hb⟩
    | false =>
      refine imp (ih fun a ha => h a (List.mem_cons_of_mem _ ha)) fun b hb c hc => ?_
      exact ⟨List.mem_cons_of_mem _ (hb c hc).1, (hb c hc).2⟩

theorem filterAuxM {acc : List α} (h : ∀ a ∈ list, Yields (f a) fun _ => True) :
    Yields (list.filterAuxM f acc) fun kept => ∀ a ∈ kept, a ∈ acc ∨ a ∈ list := by
  induction list generalizing acc with
  | nil => exact pure fun _ => .inl
  | cons a rest ih =>
    rw [List.filterAuxM]
    refine bind (h a (by simp)) fun b _ => ?_
    refine imp (ih fun a ha => h a (List.mem_cons_of_mem _ ha)) fun kept hkept c hc => ?_
    cases b <;> grind

theorem filterM (h : ∀ a ∈ list, Yields (f a) fun _ => True) :
    Yields (list.filterM f) fun kept => ∀ a ∈ kept, a ∈ list := by
  refine bind (filterAuxM h) fun kept hkept => pure fun a ha => ?_
  simpa using hkept a (List.mem_reverse.1 ha)

theorem mapM {f : α → Except Fault β} {Q : α → β → Prop} (h : ∀ a ∈ list, Yields (f a) (Q a)) :
    Yields (list.mapM f) fun results => List.Forall₂ Q list results := by
  induction list with
  | nil => exact pure .nil
  | cons a rest ih =>
    rw [List.mapM_cons]
    refine bind (h a (by simp)) fun b hb => ?_
    refine bind (ih fun a ha => h a (List.mem_cons_of_mem _ ha)) fun bs hbs => ?_
    exact pure (.cons hb hbs)

end Yields

variable {f : α → Except Fault Bool}

/-- A choice by questions is made without looking at the state. -/
theorem filterM_lift {kept : List α} (h : list.filterM f = .ok kept) (s : σ) :
    (list.filterM fun a => liftM (f a) : EStateM Fault σ (List α)) s = .ok kept s := by
  have haux : ∀ {list acc : List α} {result : List α}, list.filterAuxM f acc = .ok result →
      (list.filterAuxM (fun a => liftM (f a)) acc : EStateM Fault σ (List α)) s = .ok result s := by
    intro list
    induction list with
    | nil =>
      intro acc result h
      obtain rfl := Except.ok.inj h
      rfl
    | cons a rest ih =>
      intro acc result h
      rw [List.filterAuxM] at h ⊢
      obtain ⟨b, hb, h⟩ := exists_of_bind_eq_ok h
      rw [hb]
      exact ih h
  obtain ⟨result, hresult, rfl⟩ := exists_of_bind_pure_eq_ok h
  simp only [List.filterM, bind, EStateM.bind, haux hresult]
  rfl

/-- A search whose questions leave the state alone is a question. -/
theorem findM?_lift (f : α → Except Fault Bool) (list : List α) :
    (list.findM? fun a => liftM (f a) : EStateM Fault σ (Option α)) = liftM (list.findM? f) := by
  induction list with
  | nil => rfl
  | cons a rest ih =>
    rw [List.findM?, List.findM?, ih]
    cases f a with
    | error fault => rfl
    | ok b => cases b <;> rfl

theorem mem_of_findM? {a : α} (h : list.findM? f = .ok (some a)) : a ∈ list := by
  induction list with
  | nil => cases Except.ok.inj h
  | cons first rest ih =>
    rw [List.findM?] at h
    obtain ⟨b, -, h⟩ := exists_of_bind_eq_ok h
    cases b with
    | true =>
      obtain rfl := Option.some.inj (Except.ok.inj h)
      exact List.mem_cons_self
    | false => exact List.mem_cons_of_mem _ (ih h)

theorem findM?_append_of_some {a : α} (h : list.findM? f = .ok (some a)) (rest : List α) :
    (list ++ rest).findM? f = .ok (some a) := by
  induction list with
  | nil => cases Except.ok.inj h
  | cons first list ih =>
    rw [List.findM?] at h
    obtain ⟨b, hb, h⟩ := exists_of_bind_eq_ok h
    rw [List.cons_append, List.findM?, hb]
    cases b with
    | true => exact h
    | false => exact ih h

end Bindery
