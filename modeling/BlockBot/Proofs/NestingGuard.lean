import BlockBot.Proofs.OtherOptions

/-!
# The nesting guard

A compilation fails for one reason only: a branch or loop with as many others around it as the
options allow, whether there is anything in its body or not. `Block.openers` lists the branches and
loops that an emission comes to, in the order in which it comes to them and with the number of those
around each. The first one that is too deep decides the failure, and nothing after it matters.
-/

namespace BlockBot

open BlockBot.Json BlockBot.Code

mutual

/-- A branch or loop, and those that the emission of its body comes to. -/
def Block.openersOf (depth : Nat) : Block → List (Nat × Block)
  | ⟨id, kind, data, children⟩ =>
      if opensBody kind data then
        (depth, ⟨id, kind, data, children⟩) :: Block.openers (depth + 1) children
      else []

/-- The branches and loops that the emission of blocks comes to, each before those in its body and
with the number of branches and loops around it; `depth` of them are around the blocks
themselves. -/
def Block.openers (depth : Nat) : List Block → List (Nat × Block)
  | [] => []
  | b :: bs => Block.openersOf depth b ++ Block.openers depth bs

end

/-- The first branch or loop that has exactly `limit` others around it. -/
def firstAt? (limit : Nat) (opened : List (Nat × Block)) : Option Block :=
  (opened.find? fun p => p.1 == limit).map Prod.snd

theorem firstAt?_cons (limit depth : Nat) (b : Block) (opened : List (Nat × Block)) :
    firstAt? limit ((depth, b) :: opened) = if depth = limit then some b
      else firstAt? limit opened := by
  unfold firstAt?
  by_cases h : depth = limit
  · rw [if_pos h, List.find?_cons_of_pos (by simpa using h), Option.map_some]
  · rw [if_neg h, List.find?_cons_of_neg (by simpa using h)]

theorem firstAt?_append (limit : Nat) (opened opened' : List (Nat × Block)) :
    firstAt? limit (opened ++ opened') = (firstAt? limit opened).or (firstAt? limit opened') := by
  unfold firstAt?
  rw [List.find?_append, Option.map_or]

theorem firstAt?_eq_none {limit : Nat} {opened : List (Nat × Block)} :
    firstAt? limit opened = none ↔ ∀ p ∈ opened, p.1 ≠ limit := by
  simp [firstAt?]

theorem mem_of_firstAt?_eq_some {limit : Nat} {opened : List (Nat × Block)} {b : Block}
    (h : firstAt? limit opened = some b) : (limit, b) ∈ opened := by
  obtain ⟨⟨depth, c⟩, hfind, rfl⟩ := Option.map_eq_some_iff.mp h
  have hdepth : depth = limit := by simpa using List.find?_some hfind
  exact hdepth ▸ List.mem_of_find?_eq_some hfind

/-- What is nested deeper than a limit stands in something that is nested exactly so deep. -/
theorem Block.openers_at {limit depth : Nat} {bs : List Block} {p : Nat × Block}
    (hp : p ∈ openers depth bs) (hdepth : depth ≤ limit) (hlimit : limit ≤ p.1) :
    ∃ q ∈ openers depth bs, q.1 = limit := by
  induction bs using Block.forest_induction generalizing depth with
  | nil => simp [openers] at hp
  | cons id kind data children bs ihChildren ih =>
      rw [openers, openersOf] at hp ⊢
      by_cases hopens : opensBody kind data = true
      · simp only [if_pos hopens, List.cons_append, List.mem_cons, List.mem_append] at hp ⊢
        by_cases hhere : depth = limit
        · exact ⟨_, .inl rfl, hhere⟩
        · rcases hp with rfl | hp | hp
          · exact absurd (Nat.le_antisymm hdepth hlimit) hhere
          · obtain ⟨q, hq, heq⟩ := ihChildren hp (by omega)
            exact ⟨q, .inr (.inl hq), heq⟩
          · obtain ⟨q, hq, heq⟩ := ih hp hdepth
            exact ⟨q, .inr (.inr hq), heq⟩
      · rw [if_neg hopens, List.nil_append] at hp ⊢
        exact ih hp hdepth

/-! ## Runs -/

/-- How a run over the branches and loops `opened` ends: it fails at the first of them that is
nested `limit` deep, and succeeds if there is none. -/
inductive Guarded {α : Type} (limit : Nat) (opened : List (Nat × Block)) :
    Except CompileError α → Prop
  | fails {b} :
      firstAt? limit opened = some b → Guarded limit opened (.error (.cyclic b.label limit))
  | succeeds {a} : firstAt? limit opened = none → Guarded limit opened (.ok a)

namespace Guarded

variable {α β : Type} {limit : Nat} {opened opened' : List (Nat × Block)}

theorem plain (a : α) : Guarded limit [] (.ok a) :=
  .succeeds rfl

theorem map {x : Except CompileError α} (h : Guarded limit opened x) (f : α → β) :
    Guarded limit opened (x.map f) := by
  cases h with
  | fails hfirst => exact .fails hfirst
  | succeeds hnone => exact .succeeds hnone

/-- One run after another. -/
theorem proceed {x : Except CompileError α × Session} {f : α → Emit β}
    (hx : Guarded limit opened x.1) (hf : ∀ a, Guarded limit opened' (f a x.2).1) :
    Guarded limit (opened ++ opened') (proceed x f).1 := by
  obtain ⟨x, s⟩ := x
  cases hx with
  | fails hfirst =>
      refine .fails ?_
      rw [firstAt?_append, hfirst, Option.some_or]
  | @succeeds a hnone =>
      have hfirst : firstAt? limit (opened ++ opened') = firstAt? limit opened' := by
        rw [firstAt?_append, hnone, Option.none_or]
      have hrest := hf a
      change Guarded limit (opened ++ opened') (f a s).1
      generalize (f a s).1 = y at hrest ⊢
      cases hrest with
      | fails hsome => exact .fails (hfirst.trans hsome)
      | succeeds hnone => exact .succeeds (hfirst.trans hnone)

/-- Two runs over the same branches and loops fail alike. -/
theorem error_iff {x : Except CompileError α} {y : Except CompileError β}
    (hx : Guarded limit opened x) (hy : Guarded limit opened y) (e : CompileError) :
    x = .error e ↔ y = .error e := by
  cases hx with
  | fails hfirst =>
      cases hy with
      | fails hfirst' =>
          obtain rfl := Option.some.inj (hfirst.symm.trans hfirst')
          simp
      | succeeds hnone => simp [hnone] at hfirst
  | succeeds hnone =>
      cases hy with
      | fails hfirst => simp [hnone] at hfirst
      | succeeds _ => simp

end Guarded

/-- A body is entered unless it is nested as deep as the options allow. -/
theorem emitBody_guarded {b : Block} {opened : List (Nat × Block)} {inner : Emit (List Stmt)}
    {s : Session} {limit depth : Nat} (hlimit : s.options.maxDepth = limit)
    (hdepth : s.depth = depth) (h : depth ≤ limit)
    (hinner : depth < limit → Guarded limit opened (inner s.deeper).1) :
    Guarded limit ((depth, b) :: opened) (emitBody b.label inner s).1 := by
  subst hlimit hdepth
  rcases Nat.lt_or_ge s.depth s.options.maxDepth with hopen | hdeep
  · have hfirst : firstAt? s.options.maxDepth ((s.depth, b) :: opened) =
        firstAt? s.options.maxDepth opened := by
      rw [firstAt?_cons, if_neg (Nat.ne_of_lt hopen)]
    have hbody := hinner hopen
    rw [emitBody_of_open hopen]
    generalize (inner s.deeper).1 = x at hbody ⊢
    cases hbody with
    | fails hsome => exact .fails (hfirst.trans hsome)
    | succeeds hnone => exact .succeeds (hfirst.trans hnone)
  · have heq : s.depth = s.options.maxDepth := Nat.le_antisymm h hdeep
    rw [emitBody_of_deep hdeep, heq]
    exact .fails (by rw [firstAt?_cons, if_pos rfl])

/-- A run over blocks fails at the first branch or loop that is too deep, and for no other
reason. -/
theorem emitBlocks_guarded (bs : List Block) {s : Session} {limit depth : Nat}
    (hlimit : s.options.maxDepth = limit) (hdepth : s.depth = depth) (h : depth ≤ limit) :
    Guarded limit (Block.openers depth bs) (emitBlocks bs s).1 := by
  induction bs using Block.forest_induction generalizing s depth with
  | nil =>
      rw [emitBlocks, Block.openers]
      exact .plain _
  | cons id kind data children bs ihChildren ih =>
      have hfirst : Guarded limit (Block.openersOf depth ⟨id, kind, data, children⟩)
          (emitBlock ⟨id, kind, data, children⟩ s).1 := by
        cases hopens : opensBody kind data with
        | false =>
            rw [emitBlock_of_plain hopens, Block.openersOf, if_neg (by simp [hopens])]
            exact .plain _
        | true =>
            rw [emitBlock_of_opens hopens, Block.openersOf, if_pos hopens]
            refine (emitBody_guarded hlimit hdepth h fun hlt => ?_).map _
            exact ihChildren hlimit (congrArg (· + 1) hdepth) hlt
      -- the first block leaves the level as it was, so the others are guarded alike
      have hlevel := emitBlock_sameLevel (emitBlocks_sameLevel children) id kind data s
      have hothers := ih (hlevel.options ▸ hlimit) (hlevel.depth ▸ hdepth) h
      rw [emitBlocks_cons, Block.openers, ← List.append_nil (Block.openers depth bs)]
      exact hfirst.proceed fun stmts => hothers.proceed fun rest => .plain _

/-! ## Programs -/

theorem emitHandlers_guarded (handlers : List Handler) {s : Session} {limit : Nat}
    (hlimit : s.options.maxDepth = limit) (hdepth : s.depth = 0) :
    Guarded limit (handlers.flatMap fun h => Block.openers 0 h.actions)
      (emitHandlers handlers s).1 := by
  induction handlers generalizing s with
  | nil => exact .plain _
  | cons h handlers ih =>
      have hlevel :=
        emitBlocks_sameLevel h.actions (s.note (.emitting h.functionName h.actions.length))
      have hfirst := emitBlocks_guarded h.actions
        (s := s.note (.emitting h.functionName h.actions.length)) hlimit hdepth (Nat.zero_le _)
      have hothers := ih (hlevel.options ▸ hlimit) (hlevel.depth ▸ hdepth)
      rw [emitHandlers_cons, List.flatMap_cons,
        ← List.append_nil (handlers.flatMap fun h => Block.openers 0 h.actions)]
      exact hfirst.proceed fun stmts => hothers.proceed fun rest => .plain _

/-- The branches and loops of a program, handler by handler. -/
def programOpeners (options : Options) (bs : List Block) : List (Nat × Block) :=
  (route bs (.new options)).1.flatMap fun h => Block.openers 0 h.actions

/-- What is nested too deep in a program stands in, or is, something that has as many others around
it as are allowed. -/
theorem programOpeners_at {options : Options} {bs : List Block} {p : Nat × Block}
    (hp : p ∈ programOpeners options bs) (hlimit : options.maxDepth ≤ p.1) :
    firstAt? options.maxDepth (programOpeners options bs) ≠ none := by
  obtain ⟨h, hh, hp⟩ := List.mem_flatMap.mp hp
  obtain ⟨q, hq, heq⟩ := Block.openers_at hp (Nat.zero_le _) hlimit
  exact fun hnone => firstAt?_eq_none.mp hnone q (List.mem_flatMap.mpr ⟨h, hh, hq⟩) heq

/-- A compilation fails at the first branch or loop that is too deep, and for no other reason. -/
theorem compile_guarded (options : Options) (bs : List Block) :
    Guarded options.maxDepth (programOpeners options bs) (compile options bs) := by
  have hlevel := route_sameLevel bs (.new options)
  have hrun :
      Guarded options.maxDepth (programOpeners options bs) (emitProgram bs (.new options)).1 :=
    emitHandlers_guarded _ (congrArg Options.maxDepth hlevel.options) hlevel.depth
  unfold compile compileNoting
  generalize emitProgram bs (.new options) = run at hrun ⊢
  obtain ⟨x, s⟩ := run
  cases hrun with
  | fails hfirst => exact .fails hfirst
  | succeeds hnone => exact .succeeds hnone

/-- The nesting guard is exact, and it is the only way to fail: a compilation fails if and only if
some branch or loop has at least as many others around it as the options allow, and the failure
names the first one that has exactly as many. A program that compiles is the same under every higher
limit. -/
theorem compile_nesting_guard (options : Options) (bs : List Block) :
    ((∃ e, compile options bs = .error e) ↔
      ∃ p ∈ programOpeners options bs, options.maxDepth ≤ p.1) ∧
    (∀ e, compile options bs = .error e →
      ∃ b, firstAt? options.maxDepth (programOpeners options bs) = some b ∧
        e = .cyclic b.label options.maxDepth) ∧
    ∀ program, compile options bs = .ok program →
      ∀ depth, options.maxDepth ≤ depth →
        compile (options.withMaxDepth depth) bs = .ok program := by
  have hguarded := compile_guarded options bs
  refine ⟨⟨?_, ?_⟩, ?_, ?_⟩
  · rintro ⟨e, he⟩
    rw [he] at hguarded
    cases hguarded with
    | fails hfirst => exact ⟨_, mem_of_firstAt?_eq_some hfirst, Nat.le_refl _⟩
  · rintro ⟨p, hp, hlimit⟩
    generalize compile options bs = x at hguarded
    cases hguarded with
    | fails hfirst => exact ⟨_, rfl⟩
    | succeeds hnone => exact absurd hnone (programOpeners_at hp hlimit)
  · intro e he
    rw [he] at hguarded
    cases hguarded with
    | fails hfirst => exact ⟨_, hfirst, rfl⟩
  · intro program hprogram depth hdepth
    obtain ⟨emitted, s, hrun, rfl⟩ := compile_eq_ok.mp hprogram
    have hallows : options.Allows (options.withMaxDepth depth) := ⟨rfl, rfl, hdepth⟩
    exact compile_under hallows rfl hrun

/-- Two loops after an event. In the first one stands a branch with an empty loop in it. -/
def nestedBlocks : List Block :=
  [⟨none, .event, [("eventType", .string "follow")], []⟩,
   ⟨some "a", .control, [("controlType", .string "loop")],
    [⟨some "b", .control, [("controlType", .string "if")],
      [⟨some "c", .control, [("controlType", .string "loop")], []⟩]⟩]⟩,
   ⟨some "d", .control, [("controlType", .string "loop")],
    [⟨some "e", .control, [("controlType", .string "if")], []⟩]⟩]

/-- With two levels the empty loop is too deep; with three there is a program, and it is the same
with four. -/
theorem compile_nesting_guard_nested :
    compile { maxDepth := 2 } nestedBlocks = .error (.cyclic "c" 2) ∧
      (∃ b, firstAt? 2 (programOpeners { maxDepth := 2 } nestedBlocks) = some b ∧
        CompileError.cyclic "c" 2 = .cyclic b.label 2) ∧
      ∃ program, compile { maxDepth := 3 } nestedBlocks = .ok program ∧
        compile { maxDepth := 4 } nestedBlocks = .ok program := by
  have hfails : compile { maxDepth := 2 } nestedBlocks = .error (.cyclic "c" 2) := rfl
  refine ⟨hfails, (compile_nesting_guard { maxDepth := 2 } nestedBlocks).2.1 _ hfails, _, rfl, ?_⟩
  exact (compile_nesting_guard { maxDepth := 3 } nestedBlocks).2.2 _ rfl 4 (by decide)

end BlockBot
