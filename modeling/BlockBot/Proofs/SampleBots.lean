import BlockBot.Proofs.DrawnBlocks
import BlockBot.Proofs.Flattening
import BlockBot.Proofs.NestingGuard
import BlockBot.Proofs.Registration
import BlockBot.Sample.Keystream

/-!
# Sample bots compile

Whatever the stream of words, a sample of some depth compiles, nested and flat, under all options
that allow this depth, and nothing of it is missing in the program: there is one section for each
drawn handler, with one statement for each of its actions, and so on in the bodies of branches and
loops (`Becomes`).
-/

namespace BlockBot

open BlockBot.Json BlockBot.Code

/-! ## Levels of branches and loops -/

namespace Block

/-- The number of levels of branches and loops in several trees. -/
def nesting : List Block → Nat
  | [] => 0
  | ⟨_, kind, data, children⟩ :: bs =>
    max (nesting children + if opensBody kind data then 1 else 0) (nesting bs)

theorem nesting_cons (b : Block) (bs : List Block) :
    nesting (b :: bs) = max (nesting b.children + if opensBody b.kind b.data then 1
      else 0) (nesting bs) := by
  obtain ⟨id, kind, data, children⟩ := b
  rw [nesting]

theorem nesting_le {limit : Nat} {bs : List Block}
    (h : ∀ b ∈ bs, nesting b.children + (if opensBody b.kind b.data then 1 else 0) ≤ limit) :
    nesting bs ≤ limit := by
  induction bs with
  | nil =>
      rw [nesting]
      exact Nat.zero_le limit
  | cons b bs ih =>
      rw [List.forall_mem_cons] at h
      rw [nesting_cons]
      exact Nat.max_le.mpr ⟨h.1, ih h.2⟩

theorem levels_le {limit : Nat} {bs : List Block} (h : ∀ b ∈ bs, levels b.children < limit) :
    levels bs ≤ limit := by
  induction bs with
  | nil =>
      rw [levels]
      exact Nat.zero_le limit
  | cons b bs ih =>
      obtain ⟨id, kind, data, children⟩ := b
      rw [List.forall_mem_cons] at h
      rw [levels]
      exact Nat.max_le.mpr ⟨h.1, ih h.2⟩

/-- There is a level for each branch or loop that an emission comes to. -/
theorem openers_lt {depth : Nat} {bs : List Block} {p : Nat × Block} (hp : p ∈ openers depth bs) :
    p.1 < depth + nesting bs := by
  induction bs using Block.forest_induction generalizing depth with
  | nil => simp [openers] at hp
  | cons id kind data children bs ihChildren ih =>
      rw [openers, openersOf, List.mem_append] at hp
      rw [nesting]
      by_cases hopens : opensBody kind data = true
      · rw [if_pos hopens, List.mem_cons] at hp
        rw [if_pos hopens]
        rcases hp with (rfl | hp) | hp
        · show depth < _
          omega
        · have := ihChildren hp
          omega
        · have := ih hp
          omega
      · rw [if_neg hopens] at hp
        rcases hp with hp | hp
        · cases hp
        · have := ih hp
          omega

end Block

/-- Handlers whose actions are not nested deeper than the options allow are compiled. -/
theorem exists_compile_eq_ok {options : Options} {bs : List Block}
    (h : ∀ handler ∈ (route bs (.new options)).1,
      Block.nesting handler.actions ≤ options.maxDepth) :
    ∃ program, compile options bs = .ok program := by
  have hguarded := compile_guarded options bs
  generalize compile options bs = result at hguarded ⊢
  cases hguarded with
  | @fails b hfirst =>
      -- a branch or loop that is too deep would need one level more than there are
      obtain ⟨handler, hmem, hopened⟩ := List.mem_flatMap.mp (mem_of_firstAt?_eq_some hfirst)
      have hlt := Block.openers_lt hopened
      have hle := h handler hmem
      simp only at hlt
      omega
  | @succeeds program _ => exact ⟨program, rfl⟩

/-- What compiles and is not too deep compiles to the same from its flat form. -/
theorem compileGraph_flatten_of_depth {options : Options} {bs : List Block} {program : String}
    (h : compile options bs = .ok program) (hdepth : Block.DepthAtMost options.maxDepth bs) :
    compileGraph options (Graph.flatten bs) = .ok program := by
  refine compileGraph_eq_ok.mpr
    ⟨Graph.renumber 0 bs, Graph.resolve_flatten_eq_ok.mpr ⟨rfl, hdepth⟩, ?_⟩
  exact (compile_eq_ok_of_withoutIds_eq (Graph.withoutIds_renumber 0 bs) program).mpr h

/-! ## One statement for each block -/

/-- `Becomes bs stmts`: each of the blocks has become one statement, in their order, and so have
those in their bodies. -/
inductive Becomes : List Block → List Stmt → Prop
  | done : Becomes [] []
  | line {b bs s text t stmts} :
      Says b s text t → Becomes bs stmts → Becomes (b :: bs) (.line text :: stmts)
  | branch {id data children bs body stmts} :
      controlKind? data = some .branch → Becomes children body →
      Becomes bs stmts →
      Becomes (⟨id, .control, data, children⟩ :: bs) (.branch (branchCondition data) body :: stmts)
  | loop {id data children bs body stmts} : controlKind? data = some .loop → Becomes children body →
      Becomes bs stmts →
      Becomes (⟨id, .control, data, children⟩ :: bs) (.loop (loopCount data) body :: stmts)

/-- Nothing of the segments is missing in what was emitted: each of them, an event block with its
actions, has become a handler with its trigger and all its actions, and each action has become a
statement. -/
structure Transcribes (options : Options) (segments : List Segment)
    (emitted : List (Handler × List Stmt)) : Prop where
  events : ∀ g ∈ segments, g.event.kind = .event
  handlers : emitted.map (fun p => (some p.1.trigger, p.1.actions)) =
    segments.map fun g => (Routing.triggerOf? options g.event, g.others)
  statements : ∀ p ∈ emitted, Becomes p.1.actions p.2

namespace Sample

/-! ## Drawn actions -/

namespace DrawnAction

variable {depth : Nat} {b : Block} {bs : List Block}

theorem nesting_le (h : DrawnAction depth b) :
    Block.nesting b.children + (if opensBody b.kind b.data then 1 else 0) ≤ depth := by
  induction h with
  | reply hkind hchildren _ => simp [hchildren, opensBody_eq, hkind, Block.nesting]
  | setting hkind hchildren _ => simp [hchildren, opensBody_eq, hkind, Block.nesting]
  | wait hkind hchildren hcontrol => simp [hchildren, opensBody_eq, hcontrol, Block.nesting]
  | branch hkind hcontrol _ _ ih =>
      rw [if_pos (by simp [opensBody_eq, hkind, hcontrol])]
      exact Nat.succ_le_succ (Block.nesting_le ih)
  | loop hkind hcontrol _ ih =>
      rw [if_pos (by simp [opensBody_eq, hkind, hcontrol])]
      exact Nat.succ_le_succ (Block.nesting_le ih)

theorem levels_lt (h : DrawnAction depth b) : Block.levels b.children < depth + 1 := by
  induction h with
  | reply _ hchildren _ => simp [hchildren, Block.levels]
  | setting _ hchildren _ => simp [hchildren, Block.levels]
  | wait _ hchildren _ => simp [hchildren, Block.levels]
  | branch _ _ _ _ ih => exact Nat.lt_succ_of_le (Block.levels_le ih)
  | loop _ _ _ ih => exact Nat.lt_succ_of_le (Block.levels_le ih)

theorem isAction (h : DrawnAction depth b) : b.isAction = true := by
  cases h with
  | reply hkind => simp [Block.isAction, hkind]
  | setting hkind => simp [Block.isAction, hkind]
  | wait hkind => simp [Block.isAction, hkind]
  | branch hkind => simp [Block.isAction, hkind]
  | loop hkind => simp [Block.isAction, hkind]

theorem not_idle (h : DrawnAction depth b) : isIdle b.kind b.data ≠ true := by
  unfold isIdle
  cases h with
  | reply hkind _ hreply => simp [hkind, hreply]
  | setting hkind _ hsetting => simp [hkind, hsetting]
  | wait hkind _ hcontrol => simp [hkind, hcontrol]
  | branch hkind hcontrol => simp [hkind, hcontrol]
  | loop hkind hcontrol => simp [hkind, hcontrol]

/-- The body of a branch or loop consists of drawn actions. -/
theorem children (h : DrawnAction depth b) : ∃ inner, ∀ c ∈ b.children, DrawnAction inner c := by
  cases h with
  | reply _ hchildren => exact ⟨0, by simp [hchildren]⟩
  | setting _ hchildren => exact ⟨0, by simp [hchildren]⟩
  | wait _ hchildren => exact ⟨0, by simp [hchildren]⟩
  | branch _ _ _ hbody => exact ⟨_, hbody⟩
  | loop _ _ hbody => exact ⟨_, hbody⟩

/-- Every block that the emission of drawn actions comes to is a drawn action. -/
theorem of_reached (h : ∀ b ∈ bs, DrawnAction depth b) (hb : b ∈ Block.reached bs) :
    ∃ d, DrawnAction d b := by
  induction bs using Block.forest_induction generalizing depth with
  | nil => simp [Block.reached] at hb
  | cons id kind data children bs ihChildren ih =>
      rw [List.forall_mem_cons] at h
      rw [Block.reached, Block.reachedFrom, List.mem_append, List.mem_cons] at hb
      rcases hb with (rfl | hb) | hb
      · exact ⟨depth, h.1⟩
      · obtain ⟨inner, hinner⟩ := h.1.children
        by_cases hopens : opensBody kind data = true
        · rw [if_pos hopens] at hb
          exact ihChildren hinner hb
        · rw [if_neg hopens] at hb
          cases hb
      · exact ih h.2 hb

theorem oneLineConditions (h : ∀ b ∈ bs, DrawnAction depth b) : OneLineConditions bs := by
  intro b hb hkind hcontrol
  obtain ⟨d, hd⟩ := of_reached h hb
  cases hd with
  | reply hkind' => simp [hkind] at hkind'
  | setting hkind' => simp [hkind] at hkind'
  | wait _ _ hcontrol' => simp [hcontrol] at hcontrol'
  | branch _ _ hone => exact hone
  | loop _ hcontrol' => simp [hcontrol] at hcontrol'

/-- Of drawn actions nothing is skipped. -/
theorem becomes {s t : Session} {stmts : List Stmt} (h : ∀ b ∈ bs, DrawnAction depth b)
    (hemits : Emits bs s stmts t) : Becomes bs stmts := by
  induction hemits generalizing depth with
  | done => exact .done
  | skipped hidle _ _ =>
      rw [List.forall_mem_cons] at h
      exact absurd hidle h.1.not_idle
  | line hsaid _ ih =>
      rw [List.forall_mem_cons] at h
      exact .line hsaid (ih h.2)
  | branch hcontrol _ _ _ ihBody ih =>
      rw [List.forall_mem_cons] at h
      obtain ⟨inner, hinner⟩ := h.1.children
      exact .branch hcontrol (ihBody hinner) (ih h.2)
  | loop hcontrol _ _ _ ihBody ih =>
      rw [List.forall_mem_cons] at h
      obtain ⟨inner, hinner⟩ := h.1.children
      exact .loop hcontrol (ihBody hinner) (ih h.2)

end DrawnAction

/-! ## Drawn handlers -/

theorem DrawnEvent.exists_trigger {e : Block} (h : DrawnEvent e) (options : Options) :
    ∃ trigger, Routing.triggerOf? options e = some trigger := by
  obtain ⟨t, ht⟩ := h.trigger
  have htag : (ofTag? t.tag : Option Trigger) = some t := LawfulTagged.ofTag?_tag t
  refine ⟨t, ?_⟩
  rw [Routing.triggerOf?, ht, Option.bind_some, Options.trigger?, htag]

section Segments

variable {depth : Nat} {segments : List Segment}

theorem DrawnSegment.not_event {g : Segment} (h : DrawnSegment depth g) :
    ∀ b ∈ g.others, b.kind ≠ .event := by
  intro b hb hkind
  have haction := (h.actions b hb).isAction
  simp [Block.isAction, hkind] at haction

/-- A bot is cut where one drawn handler ends and the next begins. -/
theorem cut_segments (h : ∀ g ∈ segments, DrawnSegment depth g) :
    cut (segments.flatMap Segment.blocks) = ([], segments) := by
  have hothers : ∀ (others rest : List Block), (∀ b ∈ others, b.kind ≠ .event) →
      cut (others ++ rest) = (others ++ (cut rest).1, (cut rest).2) := by
    intro others rest hothers
    induction others with
    | nil => rfl
    | cons b others ih =>
        rw [List.forall_mem_cons] at hothers
        rw [List.cons_append, cut_of_other hothers.1, ih hothers.2]
        rfl
  induction segments with
  | nil => rfl
  | cons g segments ih =>
      rw [List.forall_mem_cons] at h
      rw [List.flatMap_cons, Segment.blocks, List.cons_append, cut_of_event h.1.event.kind,
        hothers _ _ h.1.not_event, ih h.2, List.append_nil]

/-- Every drawn handler becomes a handler, with all its actions. -/
theorem map_handlersFrom (h : ∀ g ∈ segments, DrawnSegment depth g) (options : Options)
    (start : Nat) :
    (handlersFrom options start segments).map
        (fun handler => (some handler.trigger, handler.actions)) =
      segments.map fun g => (Routing.triggerOf? options g.event, g.others) := by
  induction segments generalizing start with
  | nil => rfl
  | cons g segments ih =>
      rw [List.forall_mem_cons] at h
      obtain ⟨trigger, htrigger⟩ := h.1.event.exists_trigger options
      have hroot : rootTrigger? options g.event = some trigger :=
        (rootTrigger?_of_event h.1.event.kind).trans htrigger
      have hactions : g.others.filter Block.isAction = g.others :=
        List.filter_eq_self.mpr fun b hb => (h.1.actions b hb).isAction
      rw [handlersFrom_cons_some hroot, List.map_cons, List.map_cons, ih h.2, htrigger,
        Segment.handler, hactions]

theorem map_route (h : ∀ g ∈ segments, DrawnSegment depth g) (options : Options) :
    (route (segments.flatMap Segment.blocks) (.new options)).1.map
        (fun handler => (some handler.trigger, handler.actions)) =
      segments.map fun g => (Routing.triggerOf? options g.event, g.others) := by
  rw [route_eq_handlersFrom, cut_segments h]
  exact map_handlersFrom h options 0

theorem drawn_of_mem_route (h : ∀ g ∈ segments, DrawnSegment depth g) {options : Options}
    {handler : Handler}
    (hmem : handler ∈ (route (segments.flatMap Segment.blocks) (.new options)).1) :
    ∀ b ∈ handler.actions, DrawnAction depth b := by
  have hpair :=
    List.mem_map_of_mem (f := fun handler : Handler => (some handler.trigger, handler.actions)) hmem
  rw [map_route h] at hpair
  obtain ⟨g, hg, heq⟩ := List.mem_map.mp hpair
  obtain ⟨-, hactions⟩ := Prod.mk.inj heq
  rw [← hactions]
  exact (h g hg).actions

/-- Root blocks of drawn handlers: events without a body, and actions. -/
theorem root_cases (h : ∀ g ∈ segments, DrawnSegment depth g) {b : Block}
    (hb : b ∈ segments.flatMap Segment.blocks) : DrawnEvent b ∨ DrawnAction depth b := by
  obtain ⟨g, hg, hmem⟩ := List.mem_flatMap.mp hb
  rcases List.mem_cons.mp hmem with rfl | hmem
  · exact .inl (h g hg).event
  · exact .inr ((h g hg).actions b hmem)

theorem nesting_segments (h : ∀ g ∈ segments, DrawnSegment depth g) :
    Block.nesting (segments.flatMap Segment.blocks) ≤ depth := by
  refine Block.nesting_le fun b hb => ?_
  rcases root_cases h hb with hevent | haction
  · simp [hevent.children, opensBody_eq, hevent.kind, Block.nesting]
  · exact haction.nesting_le

theorem depth_segments (h : ∀ g ∈ segments, DrawnSegment depth g) :
    Block.DepthAtMost depth (segments.flatMap Segment.blocks) := by
  refine Block.levels_le_iff.mp (Block.levels_le fun b hb => ?_)
  rcases root_cases h hb with hevent | haction
  · simp [hevent.children, Block.levels]
  · exact haction.levels_lt

/-- What a program has for drawn handlers. -/
theorem transcribes_of_compile (h : ∀ g ∈ segments, DrawnSegment depth g) {options : Options}
    {program : String}
    (hcompile : compile options (segments.flatMap Segment.blocks) = .ok program) :
    (registrations (linesIn program)).length = segments.length ∧
      ∃ imports emitted, program =
        assemble options (Import.statements imports) (sectionsOf options emitted) ∧
        Transcribes options segments emitted := by
  obtain ⟨emitted, s, hrun, rfl⟩ := compile_eq_ok.mp hcompile
  obtain ⟨hhandlers, hactions⟩ := emitProgram_emits hrun
  have hroute : ∀ p ∈ emitted, p.1 ∈ (route (segments.flatMap Segment.blocks) (.new options)).1 :=
    fun p hp => hhandlers ▸ List.mem_map_of_mem hp
  have hmap : emitted.map (fun p => (some p.1.trigger, p.1.actions)) =
      segments.map fun g => (Routing.triggerOf? options g.event, g.others) := by
    rw [← map_route h options, ← hhandlers, List.map_map]
    rfl
  have hindented : ∀ p ∈ emitted, p.1.Indented options p.2 := by
    intro p hp
    obtain ⟨s, t, -, hemits⟩ := hactions p hp
    obtain ⟨data, hguard⟩ := route_guard (hroute p hp)
    exact hemits.indented (DrawnAction.oneLineConditions (drawn_of_mem_route h (hroute p hp)))
      fun condition hcondition => oneLine_guardOf (hguard ▸ hcondition)
  refine ⟨?_, s.imports, emitted, rfl, ⟨fun g hg => (h g hg).event.kind, hmap, ?_⟩⟩
  · rw [Session.statements, (registrations_assemble s.imports hindented).1, List.length_map]
    simpa using congrArg List.length hmap
  · intro p hp
    obtain ⟨s, t, -, hemits⟩ := hactions p hp
    exact DrawnAction.becomes (drawn_of_mem_route h (hroute p hp)) hemits

end Segments

/-- Every sample compiles, whatever the stream of words, under all options that allow its depth. It
is nested at most as deep as was asked for, and its nested and its flat form compile to one program,
which registers as many handlers as were asked for and in which nothing of the sample is missing. -/
theorem compile_botOf (shape : Shape) (words : Nat → UInt32) (options : Options)
    (h : shape.maxDepth ≤ options.maxDepth) :
    Block.nesting (botOf shape words) ≤ shape.maxDepth ∧
      Block.DepthAtMost shape.maxDepth (botOf shape words) ∧
      ∃ program, compile options (botOf shape words) = .ok program ∧
        compileGraph options (Graph.flatten (botOf shape words)) = .ok program ∧
        (registrations (linesIn program)).length = shape.handlers ∧
        ∃ segments imports emitted, botOf shape words = segments.flatMap Segment.blocks ∧
          program = assemble options (Import.statements imports) (sectionsOf options emitted) ∧
          Transcribes options segments emitted := by
  obtain ⟨segments, hlength, hbot, hdrawn⟩ := always_bot shape words 0
  change botOf shape words = _ at hbot
  rw [hbot, ← hlength]
  have hdepth := depth_segments hdrawn
  have hnesting : ∀ handler ∈ (route (segments.flatMap Segment.blocks) (.new options)).1,
      Block.nesting handler.actions ≤ options.maxDepth := by
    intro handler hmem
    have hactions := drawn_of_mem_route hdrawn hmem
    exact (Block.nesting_le fun b hb => (hactions b hb).nesting_le).trans h
  obtain ⟨program, hcompile⟩ := exists_compile_eq_ok hnesting
  obtain ⟨hregistrations, imports, emitted, hprogram, htranscribes⟩ :=
    transcribes_of_compile hdrawn hcompile
  refine ⟨nesting_segments hdrawn, hdepth, program, hcompile, ?_, hregistrations, segments,
    imports, emitted, rfl, hprogram, htranscribes⟩
  exact compileGraph_flatten_of_depth hcompile fun d b hb => (hdepth d b hb).trans h

theorem compile_botOf_seed :
    (3 ≤ 3 ∧ Block.DepthAtMost 3 (botOf {} (keystream (Key.ofSeed 7)))) ∧
      ∃ program, compile { maxDepth := 3 } (botOf {} (keystream (Key.ofSeed 7))) = .ok program ∧
        compileGraph { maxDepth := 3 } (Graph.flatten (botOf {} (keystream (Key.ofSeed 7)))) =
          .ok program ∧
        (registrations (linesIn program)).length = 5 := by
  obtain ⟨-, hdepth, program, hcompile, hflat, hlength, -⟩ :=
    compile_botOf {} (keystream (Key.ofSeed 7)) { maxDepth := 3 } (Nat.le_refl 3)
  exact ⟨⟨Nat.le_refl 3, hdepth⟩, program, hcompile, hflat, hlength⟩

end Sample

end BlockBot
