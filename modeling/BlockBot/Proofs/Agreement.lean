import BlockBot.Proofs.Steps

/-!
# Runs that agree

Two runs over blocks that differ only in what no code shows tell different things and may fail with
different labels, but they agree in the rest: the statements that they emit, the remembered values,
and the depth of every failure. No emission looks at the imports, so these need not be the same; a
relation between them goes through a run if it goes through one request (`Lasting`). Each operation
of a session keeps the agreement, and so does each step of a run whose inner blocks run alike.
-/

namespace BlockBot

open BlockBot.Json BlockBot.Code

/-! ## Sessions -/

/-- Two sessions that no emission can tell apart, with imports in the relation `I`. -/
structure Session.Alike (I : List Import → List Import → Prop) (s s' : Session) : Prop where
  options : s'.options = s.options
  imports : I s.imports s'.imports
  remembered : s'.remembered = s.remembered
  depth : s'.depth = s.depth

/-- Two sessions that differ at most in what they told. -/
abbrev Session.Agrees : Session → Session → Prop :=
  Session.Alike Eq

/-- A relation between imports that still holds when both sides were asked for one more. -/
def Lasting (I : List Import → List Import → Prop) : Prop :=
  ∀ {is js : List Import} (i : Import), I is js → I (is.insert i) (js.insert i)

theorem lasting_eq : Lasting Eq :=
  fun i h => congrArg (List.insert i) h

theorem lasting_subset : Lasting (· ⊆ ·) := by
  intro is js i h j hj
  rw [List.mem_insert_iff] at hj ⊢
  exact hj.imp_right (@h j)

theorem Session.imports_register (s : Session) (i : Import) :
    (s.register i).imports = s.imports.insert i := by
  unfold Session.register List.insert
  split <;> rfl

theorem Session.remembered_register (s : Session) (i : Import) :
    (s.register i).remembered = s.remembered := by
  unfold Session.register
  split <;> rfl

namespace Session.Alike

variable {I : List Import → List Import → Prop} {s s' t : Session}

theorem refl (hI : ∀ is, I is is) (s : Session) : s.Alike I s :=
  ⟨rfl, hI s.imports, rfl, rfl⟩

theorem note (h : s.Alike I s') (n n' : Notice) : (s.note n).Alike I (s'.note n') :=
  ⟨h.options, h.imports, h.remembered, h.depth⟩

theorem note_left (h : s.Alike I s') (n : Notice) : (s.note n).Alike I s' :=
  ⟨h.options, h.imports, h.remembered, h.depth⟩

theorem register (hI : Lasting I) (h : s.Alike I s') (i : Import) :
    (s.register i).Alike I (s'.register i) where
  options := by rw [s.options_register, s'.options_register, h.options]
  imports := by
    rw [s.imports_register, s'.imports_register]
    exact hI i h.imports
  remembered := by rw [s.remembered_register, s'.remembered_register, h.remembered]
  depth := by rw [(SameLevel.register s i).depth, (SameLevel.register s' i).depth, h.depth]

theorem deeper (h : s.Alike I s') : s.deeper.Alike I s'.deeper :=
  ⟨h.options, h.imports, h.remembered, congrArg (· + 1) h.depth⟩

theorem leave (h : s.Alike I s') : s.leave.Alike I s'.leave :=
  ⟨h.options, h.imports, h.remembered, congrArg (· - 1) h.depth⟩

theorem after (hI : Lasting I) (h : s.Alike I s') (label label' : String) (e : Effect) :
    (s.after label e).Alike I (s'.after label' e) := by
  cases e with
  | keep => exact h
  | note notice => exact h.note _ _
  | register i => exact h.register hI i
  | record name value =>
      exact ⟨h.options, h.imports, congrArg (Entries.insert name value) h.remembered, h.depth⟩

end Session.Alike

/-! ## Results -/

/-- Two results correspond: both are values in the relation `R`, or both are failures at the same
depth. -/
inductive SameResult {α β : Type} (R : α → β → Prop) :
    Except CompileError α → Except CompileError β → Prop
  | ok {a b} : R a b → SameResult R (.ok a) (.ok b)
  | cyclic {label label' depth} :
      SameResult R (.error (.cyclic label depth)) (.error (.cyclic label' depth))

namespace SameResult

theorem map {α β : Type} {x y : Except CompileError α} (h : SameResult Eq x y) (f : α → β) :
    SameResult Eq (x.map f) (y.map f) := by
  cases h with
  | ok heq => exact .ok (congrArg f heq)
  | cyclic => exact .cyclic

theorem eq_ok_iff {α : Type} {x y : Except CompileError α} (h : SameResult Eq x y) (a : α) :
    y = .ok a ↔ x = .ok a := by
  cases h with
  | ok heq => rw [heq]
  | cyclic => simp

theorem cyclic_iff {α : Type} {x y : Except CompileError α} (h : SameResult Eq x y)
    (depth : Nat) :
    (∃ label, y = .error (.cyclic label depth)) ↔ ∃ label, x = .error (.cyclic label depth) := by
  cases h with
  | ok heq => simp
  | cyclic => simp

end SameResult

/-- Two runs end with results that correspond and with sessions that are alike. -/
structure SameRun {α β : Type} (I : List Import → List Import → Prop) (R : α → β → Prop)
    (x : Except CompileError α × Session) (y : Except CompileError β × Session) : Prop where
  result : SameResult R x.1 y.1
  session : x.2.Alike I y.2

section

variable {I : List Import → List Import → Prop}

/-- Runs that correspond are continued by runs that correspond. -/
theorem SameRun.proceed {α β γ δ : Type} {R : α → β → Prop} {S : γ → δ → Prop}
    {x : Except CompileError α × Session} {y : Except CompileError β × Session}
    {f : α → Emit γ} {f' : β → Emit δ} (h : SameRun I R x y)
    (hf : ∀ {a b s s'}, R a b → s.Alike I s' → SameRun I S (f a s) (f' b s')) :
    SameRun I S (proceed x f) (proceed y f') := by
  obtain ⟨x, s⟩ := x
  obtain ⟨y, s'⟩ := y
  obtain ⟨hresult, hsession⟩ := h
  cases hresult with
  | ok hab => exact hf hab hsession
  | cyclic => exact ⟨.cyclic, hsession⟩

/-! ## Blocks -/

variable {s s' : Session}

theorem emitPlain_alike (hI : Lasting I) (hs : s.Alike I s') (label label' : String) (kind : Kind)
    (data : Fields) :
    (emitPlain label kind data s).1 = (emitPlain label' kind data s').1 ∧
      (emitPlain label kind data s).2.Alike I (emitPlain label' kind data s').2 := by
  refine ⟨(emitPlain_fst (by rw [hs.options]) (by rw [hs.options]) hs.remembered _ _ _ _).symm, ?_⟩
  rw [emitPlain_snd, emitPlain_snd]
  exact hs.after hI label label' _

/-- The level is opened in both runs or in neither. -/
theorem emitBody_same (hs : s.Alike I s') (label label' : String) {inner inner' : Emit (List Stmt)}
    (hinner : ∀ {s s'}, s.Alike I s' → SameRun I Eq (inner s) (inner' s')) :
    SameRun I Eq (emitBody label inner s) (emitBody label' inner' s') := by
  rcases Nat.lt_or_ge s.depth s.options.maxDepth with hopen | hdeep
  · have hopen' : s'.depth < s'.options.maxDepth := by rwa [hs.depth, hs.options]
    rw [emitBody_of_open hopen, emitBody_of_open hopen']
    have hrun := hinner hs.deeper
    exact ⟨hrun.result, hrun.session.leave⟩
  · have hdeep' : s'.options.maxDepth ≤ s'.depth := by rwa [hs.depth, hs.options]
    rw [emitBody_of_deep hdeep, emitBody_of_deep hdeep', hs.depth]
    exact ⟨.cyclic, hs⟩

/-- Blocks with the same kind and data, and with bodies that run alike, run alike. -/
theorem emitBlock_same (hI : Lasting I) (hs : s.Alike I s') (id id' : Option String) (kind : Kind)
    (data : Fields) {children children' : List Block}
    (hbody : ∀ {s s'}, s.Alike I s' →
      SameRun I Eq (emitBlocks children s) (emitBlocks children' s')) :
    SameRun I Eq (emitBlock ⟨id, kind, data, children⟩ s)
      (emitBlock ⟨id', kind, data, children'⟩ s') := by
  cases hopens : opensBody kind data with
  | false =>
      rw [emitBlock_of_plain hopens, emitBlock_of_plain hopens]
      obtain ⟨hstmts, hsession⟩ := emitPlain_alike hI hs (Block.mk id kind data children).label
        (Block.mk id' kind data children').label kind data
      exact ⟨.ok hstmts, hsession⟩
  | true =>
      rw [emitBlock_of_opens hopens, emitBlock_of_opens hopens]
      have hrun := emitBody_same hs (Block.mk id kind data children).label
        (Block.mk id' kind data children').label hbody
      exact ⟨hrun.result.map _, hrun.session⟩

theorem emitBlocks_same (hI : Lasting I) (bs : List Block) (hs : s.Alike I s') :
    SameRun I Eq (emitBlocks bs s) (emitBlocks bs s') := by
  induction bs using Block.forest_induction generalizing s s' with
  | nil =>
      rw [emitBlocks, emitBlocks]
      exact ⟨.ok rfl, hs⟩
  | cons id kind data children bs ihChildren ih =>
      rw [emitBlocks_cons, emitBlocks_cons]
      refine (emitBlock_same hI hs id id kind data ihChildren).proceed fun hstmts hs => ?_
      refine (ih hs).proceed fun hrest hs => ?_
      exact ⟨.ok (by rw [hstmts, hrest]), hs⟩

theorem emitHandlers_same (hI : Lasting I) (handlers : List Handler) (hs : s.Alike I s') :
    SameRun I Eq (emitHandlers handlers s) (emitHandlers handlers s') := by
  induction handlers generalizing s s' with
  | nil => exact ⟨.ok rfl, hs⟩
  | cons handler handlers ih =>
      rw [emitHandlers_cons, emitHandlers_cons]
      refine (emitBlocks_same hI handler.actions (hs.note _ _)).proceed fun hstmts hs => ?_
      refine (ih hs).proceed fun hrest hs => ?_
      exact ⟨.ok (by rw [hstmts, hrest]), hs⟩

end

end BlockBot
