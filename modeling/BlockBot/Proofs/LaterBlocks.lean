import BlockBot.Proofs.ImportSection

/-!
# Later blocks never change earlier handlers

All root blocks are routed before any of them is emitted, and all handlers share one session. Still
nothing flows back: routing has no effect on later runs but for the imports that it asks for, and an
emission never looks at imports. So the blocks from some event on can be left out, and what is
emitted for the blocks before them stays the same.
-/

namespace BlockBot

open BlockBot.Json BlockBot.Code

variable {s t u : Session}

/-! ## Handlers -/

/-- Handlers are emitted one after the other, so the first ones do not depend on the others. -/
theorem emitHandlers_append_eq_ok {handlers handlers' : List Handler}
    {emitted : List (Handler × List Stmt)}
    (h : emitHandlers (handlers ++ handlers') s = (.ok emitted, t)) :
    ∃ first rest u, emitHandlers handlers s = (.ok first, u) ∧
      emitHandlers handlers' u = (.ok rest, t) ∧ emitted = first ++ rest := by
  induction handlers generalizing s emitted with
  | nil => exact ⟨[], emitted, s, rfl, h, rfl⟩
  | cons handler handlers ih =>
      obtain ⟨stmts, others, u, hstmts, hothers, rfl⟩ := emitHandlers_cons_eq_ok h
      obtain ⟨first, rest, w, hfirst, hrest, rfl⟩ := ih hothers
      refine ⟨(handler, stmts) :: first, rest, w, ?_, hrest, rfl⟩
      rw [emitHandlers_cons, hstmts]
      simp only [proceed, hfirst]

/-! ## Routing -/

/-- A session that no emission can tell from an earlier one, with all imports of that one. -/
abbrev Session.FewerImports : Session → Session → Prop :=
  Session.Alike (· ⊆ ·)

theorem Session.FewerImports.trans (h : s.FewerImports t) (h' : t.FewerImports u) :
    s.FewerImports u :=
  ⟨h'.options.trans h.options, List.Subset.trans h.imports h'.imports,
    h'.remembered.trans h.remembered, h'.depth.trans h.depth⟩

/-- An effect that remembers nothing is seen in the imports alone. -/
theorem Session.fewerImports_after (s : Session) (label : String) {e : Effect}
    (h : ∀ name value, e ≠ .record name value) : s.FewerImports (s.after label e) := by
  cases e with
  | keep => exact .refl List.Subset.refl s
  | note notice => exact ⟨rfl, List.Subset.refl _, rfl, rfl⟩
  | register i =>
      have hlevel := SameLevel.register s i
      refine ⟨hlevel.options, fun j hj => ?_, s.remembered_register i, hlevel.depth⟩
      exact (s.mem_imports_register i j).mpr (.inl hj)
  | record name value => exact absurd rfl (h name value)

theorem Routing.foldl_fewerImports (bs : List Block) (r : Routing) :
    r.session.FewerImports (bs.foldl Routing.add r).session := by
  induction bs generalizing r with
  | nil => exact .refl List.Subset.refl r.session
  | cons b bs ih =>
      obtain ⟨e, hrecord, hsession⟩ := r.add_session b
      have hfirst := r.session.fewerImports_after b.label hrecord
      rw [← hsession] at hfirst
      exact hfirst.trans (ih (r.add b))

/-- Root blocks that start with an event leave the handlers before them alone. -/
theorem route_append {a b : List Block} (hb : ∀ e ∈ b.head?, e.kind = .event) (s : Session) :
    ∃ later, (route (a ++ b) s).1 = (route a s).1 ++ later ∧
      (route a s).2.FewerImports (route (a ++ b) s).2 := by
  have hlead : (cut b).1 = [] := by
    cases b with
    | nil => rfl
    | cons e b => rw [cut_of_event (hb e rfl)]
  have hhandlers := Routing.handlers_foldl_add b (a.foldl Routing.add { session := s })
  rw [hlead, List.filter_nil, Routing.handlersWith_nil, ← List.foldl_append] at hhandlers
  refine ⟨_, hhandlers, ?_⟩
  have hsession := Routing.foldl_fewerImports b (a.foldl Routing.add { session := s })
  rw [← List.foldl_append] at hsession
  exact hsession

/-! ## Programs -/

theorem Import.statements_sublist {is js : List Import} (h : ∀ i ∈ is, i ∈ js) :
    (Import.statements is).Sublist (Import.statements js) := by
  unfold Import.statements
  refine List.Sublist.map _ (List.monotone_filter_right _ fun i hi => ?_)
  rw [List.contains_iff_mem] at hi ⊢
  exact h i hi

/-- What is emitted for root blocks is emitted first for more of them. -/
theorem emitProgram_append {a b : List Block} (hb : ∀ e ∈ b.head?, e.kind = .event)
    {emitted : List (Handler × List Stmt)} (h : emitProgram (a ++ b) s = (.ok emitted, t)) :
    ∃ first rest u, emitProgram a s = (.ok first, u) ∧ emitted = first ++ rest ∧
      ∀ i ∈ u.imports, i ∈ t.imports := by
  obtain ⟨later, hhandlers, hsession⟩ := route_append hb s
  have hrun : emitHandlers (route (a ++ b) s).1
      ((route (a ++ b) s).2.note (.routed (a ++ b).length (route (a ++ b) s).1.length)) =
        (.ok emitted, t) := h
  rw [hhandlers] at hrun
  obtain ⟨first, rest, u, hfirst, hrest, rfl⟩ := emitHandlers_append_eq_ok hrun
  -- The same handlers, run in the session in which only the earlier blocks were routed.
  have hsame := emitHandlers_same lasting_subset (route a s).1
    (hsession.note (.routed a.length (route a s).1.length)
      (.routed (a ++ b).length ((route a s).1 ++ later).length))
  rw [hfirst] at hsame
  have hresult : (emitProgram a s).1 = .ok first := (hsame.result.eq_ok_iff first).mp rfl
  have himports : (emitProgram a s).2.imports ⊆ u.imports := hsame.session.imports
  refine ⟨first, rest, (emitProgram a s).2, Prod.ext hresult rfl, rfl, fun i hi => ?_⟩
  exact (emitHandlers_mem_imports hrest i).mpr (.inl (himports hi))

/-- The sections of a program, as they are rendered for its root blocks. -/
def Rendered (options : Options) (bs : List Block) (program : String)
    (sections : List String) : Prop :=
  ∃ emitted s, emitProgram bs (.new options) = (.ok emitted, s) ∧
    sections = sectionsOf options emitted ∧ program = assemble options s.statements sections

namespace Rendered

variable {options : Options} {bs : List Block} {program : String} {sections : List String}

theorem sections_eq (h : Rendered options bs program sections) :
    (emitProgram bs (.new options)).1.map (sectionsOf options) = .ok sections := by
  obtain ⟨emitted, s, hrun, rfl, -⟩ := h
  rw [hrun]
  rfl

theorem importLines_eq (h : Rendered options bs program sections) :
    importLines program = (emitProgram bs (.new options)).2.statements := by
  obtain ⟨emitted, s, hrun, -, rfl⟩ := h
  rw [hrun, Session.statements, importLines_assemble]

end Rendered

/-- Later blocks, from an event on, never change what is before them: if all blocks compile, so do
the earlier ones, their sections come first and unchanged in the whole program, and the imports of
their program are among its imports, in the same order. -/
theorem compile_append_later {options : Options} {a b : List Block} {program : String}
    (hb : ∀ e ∈ b.head?, e.kind = .event) (h : compile options (a ++ b) = .ok program) :
    ∃ earlier sections sections', compile options a = .ok earlier ∧
      Rendered options a earlier sections ∧
      Rendered options (a ++ b) program sections' ∧ sections <+: sections' ∧
      (importLines earlier).Sublist (importLines program) := by
  obtain ⟨emitted, t, hrun, rfl⟩ := compile_eq_ok.mp h
  obtain ⟨first, rest, u, hfirst, rfl, himports⟩ := emitProgram_append hb hrun
  refine ⟨_, _, _, compile_eq_ok.mpr ⟨first, u, hfirst, rfl⟩, ⟨first, u, hfirst, rfl, rfl⟩,
    ⟨first ++ rest, t, hrun, rfl, rfl⟩, ?_, ?_⟩
  · unfold sectionsOf
    rw [List.map_append]
    exact List.prefix_append _ _
  · rw [Session.statements, Session.statements, importLines_assemble, importLines_assemble]
    exact Import.statements_sublist himports

/-- A handler that reads a variable. -/
def earlierBlocks : List Block :=
  [⟨none, .event, [("eventType", .string "follow")], []⟩,
   ⟨none, .setting, [("settingType", .string "getVariable"), ("variableName", .string "x")], []⟩]

/-- A handler that searches the message, sets the variable and waits. -/
def laterBlocks : List Block :=
  [⟨none, .event,
    [("eventType", .string "message.text"), ("matchMode", .string "regex"),
     ("pattern", .string "a")], []⟩,
   ⟨none, .setting,
    [("settingType", .string "setVariable"), ("value", .bool true),
     ("variableName", .string "x")], []⟩,
   ⟨none, .control, [("controlType", .string "wait")], []⟩]

theorem compile_append_later_imports :
    (∀ e ∈ laterBlocks.head?, e.kind = .event) ∧ ∃ program,
      compile {} (earlierBlocks ++ laterBlocks) = .ok program ∧
      importLines program = ["import re", "import time"] ∧
      ∃ earlier sections sections', compile {} earlierBlocks = .ok earlier ∧
        Rendered {} earlierBlocks earlier sections ∧
        Rendered {} (earlierBlocks ++ laterBlocks) program sections' ∧
        sections =
          [textOfLines
            ["# Event handler 1: follow",
             "@on(\"follow\")",
             "def handle_follow_1(event, reply_messages):",
             "    message = message_text(event)",
             "    user_id = sender_id(event)",
             "    postback_data = postback_payload(event)",
             "    variables = user_variables.setdefault(user_id, \x7b\x7d)",
             "    var_x = variables.get(\"x\")"]] ∧
        sections <+: sections' ∧ sections'.length = 2 ∧
        importLines earlier = [] ∧ (importLines earlier).Sublist (importLines program) := by
  have hevent : ∀ e ∈ laterBlocks.head?, e.kind = .event := by
    rintro e ⟨⟩
    rfl
  obtain ⟨earlier, sections, sections', hearlier, hfirst, hwhole, hsections, himports⟩ :=
    compile_append_later hevent
      (show compile {} (earlierBlocks ++ laterBlocks) = .ok _ from rfl)
  refine ⟨hevent, _, rfl, hwhole.importLines_eq.trans (by decide +kernel), earlier, sections,
    sections', hearlier, hfirst, hwhole, ?_, hsections, ?_,
    hfirst.importLines_eq.trans (by decide +kernel), himports⟩
  · exact Except.ok.inj (hfirst.sections_eq.symm.trans (by decide +kernel))
  · have hlength := congrArg (Except.map List.length) hwhole.sections_eq
    exact Except.ok.inj (hlength.symm.trans (by decide +kernel))

end BlockBot
