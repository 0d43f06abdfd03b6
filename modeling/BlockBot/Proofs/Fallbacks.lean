import BlockBot.Proofs.LaterBlocks
import BlockBot.Proofs.LiteralReading

/-!
# Fallbacks follow the order of emission

A line that reads a variable may carry a value for the case that it was never set: the block's own
default, or the value that the last setting before it gives. What counts as before is the order in
which blocks become code, through bodies and from one handler to the next. The table of a session is
only a summary of the settings so far (`Recalls`), so the fallback is stated without it: by the last
assignment in a list of blocks (`HasFallback`).
-/

namespace BlockBot

open BlockBot.Json BlockBot.Code

/-! ## Names and assignments -/

/-- The variable of a setting: the one that it names, or the one called `variable` if its name is
missing or blank. -/
def NamesVariable (data : Fields) (name : String) : Prop :=
  data.HoldsText "variableName" name ∨
    (∀ text, ¬ data.HoldsText "variableName" text) ∧ name = "variable"

/-- A block that gives a variable a value which is known when the program is written. -/
def Block.Assigns (name : String) (b : Block) : Prop :=
  b.kind = .setting ∧ b.data.Stores "settingType" "setVariable" ∧
    ¬ b.data.Stores "valueSource" "message" ∧ NamesVariable b.data name

section

variable {data : Fields} {name : String} {v : Value} {b : Block}

theorem namesVariable_iff : NamesVariable data name ↔ name = variableName data := by
  unfold NamesVariable variableName
  cases htext : data.text? "variableName" with
  | none => simp [Fields.text?_eq_none.mp htext]
  | some text =>
      have hheld := Fields.text?_eq_some.mp htext
      rw [← Fields.text?_eq_some, htext]
      refine ⟨?_, fun h => .inl (congrArg some h.symm)⟩
      rintro (h | ⟨hnone, -⟩)
      · exact (Option.some.inj h).symm
      · exact absurd hheld (hnone text)

theorem takesMessage_iff : takesMessage data = true ↔ data.Stores "valueSource" "message" := by
  unfold takesMessage
  rw [beq_iff_eq, Fields.text?_eq_some]
  exact and_iff_left ⟨'m', by simp, by decide⟩

theorem nonNull?_eq_some {key : String} :
    nonNull? (data.value? key) = some v ↔ data.HoldsValue key v := by
  unfold nonNull? Fields.HoldsValue
  rw [Option.filter_eq_some_iff]
  refine and_congr_right fun _ => ?_
  cases v <;> simp [Value.isNull]

theorem nonNull?_eq_none {key : String} :
    nonNull? (data.value? key) = none ↔ ∀ v, ¬ data.HoldsValue key v := by
  rw [Option.eq_none_iff_forall_ne_some]
  exact forall_congr' fun v => not_congr nonNull?_eq_some

theorem Block.assigns_iff : b.Assigns name ↔ b.kind = .setting ∧
    settingKind? b.data = some .setVariable ∧ takesMessage b.data = false ∧
      name = variableName b.data := by
  unfold Assigns
  rw [settingKind?_eq_some, ← takesMessage_iff, namesVariable_iff, Bool.not_eq_true]
  rfl

instance : Decidable (b.Assigns name) :=
  decidable_of_iff _ Block.assigns_iff.symm

end

/-- The last of several blocks that gives a variable such a value. -/
def lastAssignment? (earlier : List Block) (name : String) : Option Block :=
  (earlier.filter fun b => b.Assigns name).getLast?

/-- The value for a variable that was never set, for a block after others: its own default, or else
the value of the last assignment, if they are there and not `null`. -/
def HasFallback (earlier : List Block) (data : Fields) (v : Value) : Prop :=
  data.HoldsValue "defaultValue" v ∨
    (∀ w, ¬ data.HoldsValue "defaultValue" w) ∧ ∃ name b, NamesVariable data name ∧
      lastAssignment? earlier name = some b ∧ b.data.HoldsValue "value" v

theorem lastAssignment?_concat_of_assigns {b : Block} {name : String} (h : b.Assigns name)
    (earlier : List Block) : lastAssignment? (earlier ++ [b]) name = some b := by
  unfold lastAssignment?
  rw [List.filter_append, List.filter_cons_of_pos (by simpa using h), List.filter_nil,
    List.getLast?_concat]

theorem lastAssignment?_concat_of_other {b : Block} {name : String} (h : ¬ b.Assigns name)
    (earlier : List Block) :
    lastAssignment? (earlier ++ [b]) name = lastAssignment? earlier name := by
  unfold lastAssignment?
  rw [List.filter_append, List.filter_cons_of_neg (by simpa using h), List.filter_nil,
    List.append_nil]

/-- Only settings matter. -/
theorem hasFallback_settings {earlier : List Block} {data : Fields} {v : Value} :
    HasFallback (earlier.filter fun b => b.kind = .setting) data v ↔
      HasFallback earlier data v := by
  have hlast : ∀ name, lastAssignment? (earlier.filter fun b => b.kind = .setting) name =
      lastAssignment? earlier name := by
    intro name
    unfold lastAssignment?
    rw [List.filter_filter]
    refine congrArg List.getLast? (List.filter_congr fun b _ => ?_)
    rw [Bool.eq_iff_iff, Bool.and_eq_true, decide_eq_true_iff, decide_eq_true_iff]
    exact and_iff_left_of_imp And.left
  unfold HasFallback
  simp only [hlast]

/-! ## The table of a session -/

/-- The session remembers the last assignment to each variable. -/
def Session.Recalls (s : Session) (earlier : List Block) : Prop :=
  ∀ name, s.lastValue? name = (lastAssignment? earlier name).map fun b => assignedValue b.data

namespace Session.Recalls

variable {s t : Session} {earlier : List Block} {b : Block}

theorem of_remembered (h : s.Recalls earlier) (heq : t.remembered = s.remembered) :
    t.Recalls earlier := by
  intro name
  rw [← h name, Session.lastValue?, heq, Session.lastValue?]

theorem keep (h : s.Recalls earlier) (hb : ∀ name, ¬ b.Assigns name) :
    s.Recalls (earlier ++ [b]) := by
  intro name
  rw [lastAssignment?_concat_of_other (hb name), h name]

theorem record (h : s.Recalls earlier) (hb : b.Assigns (variableName b.data)) :
    (s.record (variableName b.data) (assignedValue b.data)).Recalls (earlier ++ [b]) := by
  intro name
  unfold Session.lastValue? Session.record
  by_cases hname : variableName b.data = name
  · subst hname
    rw [lastAssignment?_concat_of_assigns hb, Entries.get?_insert_self]
    rfl
  · have hother : ¬ b.Assigns name := fun h => hname (Block.assigns_iff.mp h).2.2.2.symm
    rw [lastAssignment?_concat_of_other hother, Entries.get?_insert_of_ne hname]
    exact h name

/-- The fallback that a session gives is the one of the blocks that it recalls. -/
theorem fallback?_eq_some (h : s.Recalls earlier) {data : Fields} {v : Value} :
    fallback? data s = some v ↔ HasFallback earlier data v := by
  have hlast : nonNull? (s.lastValue? (variableName data)) = some v ↔
      ∃ name b, NamesVariable data name ∧ lastAssignment? earlier name = some b ∧
        b.data.HoldsValue "value" v := by
    simp only [namesVariable_iff, exists_and_left, exists_eq_left, ← nonNull?_eq_some]
    rw [h (variableName data)]
    cases lastAssignment? earlier (variableName data) with
    | none => simp [nonNull?]
    | some b =>
        simp only [Option.map_some, Option.some.injEq, exists_eq_left', assignedValue]
        -- a missing value counts as `null`
        cases b.data.value? "value" <;> exact Iff.rfl
  unfold fallback? HasFallback
  rw [← nonNull?_eq_some, ← hlast, ← nonNull?_eq_none]
  cases nonNull? (data.value? "defaultValue") with
  | none => simp
  | some w => simp

end Session.Recalls

/-- A block that says a line leaves the session with what it assigns. -/
theorem Says.recalls {b : Block} {s t : Session} {text : String} {earlier : List Block}
    (h : Says b s text t) (hs : s.Recalls earlier) : t.Recalls (earlier ++ [b]) := by
  cases h with
  | @reply _ _ _ kind _ _ =>
      refine (hs.keep fun name h => by cases h.1).of_remembered ?_
      cases kind.import? with
      | none => rfl
      | some i => exact s.remembered_register i
  | @setVariable id data children _ hkind =>
      cases htakes : takesMessage data with
      | true =>
          refine hs.keep fun name h => ?_
          exact h.2.2.1 (takesMessage_iff.mp htakes)
      | false =>
          exact hs.record (b := ⟨id, .setting, data, children⟩)
            (Block.assigns_iff.mpr ⟨rfl, hkind, htakes, rfl⟩)
  | getVariable hkind | saveUserData hkind =>
      refine hs.keep fun name h => ?_
      have hset := (Block.assigns_iff.mp h).2.1
      simp [hkind] at hset
  | wait _ => exact (hs.keep fun name h => by cases h.1).of_remembered (s.remembered_register _)

/-! ## Blocks and their lines -/

mutual

/-- The first line of a statement, and those of the statements in its body. -/
def Code.Stmt.firstLinesOf : Stmt → List String
  | .line text => [text]
  | .guard condition stmts => ("if " ++ condition ++ ":") :: Stmt.firstLines stmts
  | .branch condition stmts => ("if " ++ condition ++ ":") :: Stmt.firstLines stmts
  | .loop count stmts => ("for _ in range(" ++ toString count ++ "):") :: Stmt.firstLines stmts

/-- The first lines of statements, each before those in its body. -/
def Code.Stmt.firstLines : List Stmt → List String
  | [] => []
  | stmt :: stmts => stmt.firstLinesOf ++ Stmt.firstLines stmts

end

/-- A line that reads the variable of a block after others, with the fallback of its place. -/
def ReadsWithFallback (earlier : List Block) (b : Block) (line : String) : Prop :=
  ∃ default, line = getLine b.data default ∧ ∀ v, default = some v ↔ HasFallback earlier b.data v

/-- Blocks with their first lines, in the order of emission and after others: every block that reads
a variable has the fallback of its place. -/
def ReadsInOrder (earlier : List Block) : List (Block × String) → Prop
  | [] => True
  | (b, line) :: said =>
    (b.kind = .setting → b.data.Stores "settingType" "getVariable" →
      ReadsWithFallback earlier b line) ∧ ReadsInOrder (earlier ++ [b]) said

theorem ReadsInOrder.append {earlier : List Block} {said said' : List (Block × String)}
    (h : ReadsInOrder earlier said) (h' : ReadsInOrder (earlier ++ said.map Prod.fst) said') :
    ReadsInOrder earlier (said ++ said') := by
  induction said generalizing earlier with
  | nil => simpa using h'
  | cons p said ih =>
      obtain ⟨b, line⟩ := p
      refine ⟨h.1, ih h.2 ?_⟩
      simpa using h'

/-- The other blocks may be left out of the list. -/
theorem ReadsInOrder.settings {earlier : List Block} {said : List (Block × String)}
    (h : ReadsInOrder earlier said) :
    ReadsInOrder (earlier.filter fun b => b.kind = .setting)
      (said.filter fun p => p.1.kind = .setting) := by
  induction said generalizing earlier with
  | nil => trivial
  | cons p said ih =>
      obtain ⟨b, line⟩ := p
      have hrest := ih h.2
      rw [List.filter_append] at hrest
      by_cases hb : b.kind = .setting
      · rw [List.filter_cons_of_pos (by simpa using hb)]
        rw [List.filter_cons_of_pos (by simpa using hb), List.filter_nil] at hrest
        refine ⟨fun hkind hget => ?_, hrest⟩
        obtain ⟨default, hline, hdefault⟩ := h.1 hkind hget
        exact ⟨default, hline, fun v => (hdefault v).trans hasFallback_settings.symm⟩
      · rw [List.filter_cons_of_neg (by simpa using hb)]
        rw [List.filter_cons_of_neg (by simpa using hb), List.filter_nil, List.append_nil] at hrest
        exact hrest

theorem ReadsInOrder.at_block {earlier : List Block} {before after : List (Block × String)}
    {b : Block} {line : String} (h : ReadsInOrder earlier (before ++ (b, line) :: after))
    (hkind : b.kind = .setting) (hget : b.data.Stores "settingType" "getVariable") :
    ReadsWithFallback (earlier ++ before.map Prod.fst) b line := by
  induction before generalizing earlier with
  | nil => simpa using h.1 hkind hget
  | cons p before ih => simpa using ih h.2

/-! ## Emission -/

/-- What emissions say for the blocks that they come to, after other blocks, and what the session
recalls then. -/
structure Tells (earlier reached : List Block) (lines : List String) (t : Session)
    (said : List (Block × String)) : Prop where
  blocks : said.map Prod.fst = reached.filter fun b => b.Recognised
  lines : said.map Prod.snd = lines
  reads : ReadsInOrder earlier said
  recalls : t.Recalls (earlier ++ said.map Prod.fst)

/-- One emission after another. -/
theorem Tells.append {earlier reached reached' : List Block} {lines lines' : List String}
    {t u : Session} {said said' : List (Block × String)} (h : Tells earlier reached lines t said)
    (h' : Tells (earlier ++ said.map Prod.fst) reached' lines' u said') :
    Tells earlier (reached ++ reached') (lines ++ lines') u (said ++ said') where
  blocks := by rw [List.map_append, h.blocks, h'.blocks, List.filter_append]
  lines := by rw [List.map_append, h.lines, h'.lines]
  reads := h.reads.append h'.reads
  recalls := by simpa using h'.recalls

/-- A block with its line. -/
theorem Tells.single {earlier : List Block} {b : Block} {line : String} {t : Session}
    (hb : b.Recognised)
    (hline : b.kind = .setting → b.data.Stores "settingType" "getVariable" →
      ReadsWithFallback earlier b line)
    (ht : t.Recalls (earlier ++ [b])) : Tells earlier [b] [line] t [(b, line)] where
  blocks := by rw [List.filter_cons_of_pos (by simpa using hb)]; rfl
  lines := rfl
  reads := ⟨hline, trivial⟩
  recalls := ht

/-- A line that reads a variable has the fallback that the session recalls. -/
theorem Says.readsWithFallback {b : Block} {s t : Session} {text : String} {earlier : List Block}
    (h : Says b s text t) (hs : s.Recalls earlier) (hkind : b.kind = .setting)
    (hget : b.data.Stores "settingType" "getVariable") : ReadsWithFallback earlier b text := by
  have hget : settingKind? b.data = some .getVariable := settingKind?_eq_some.mpr hget
  cases h with
  | getVariable _ => exact ⟨_, rfl, fun v => hs.fallback?_eq_some⟩
  | setVariable hset => simp [hset] at hget
  | saveUserData hsave => simp [hsave] at hget
  | reply _ => simp at hkind
  | wait _ => simp at hkind

/-- A branch or loop: its header, what its body says, and what is said after it. -/
theorem tells_opened {b : Block} {bs earlier : List Block} {header : String}
    {body lines : List String} {s u t : Session} (hopens : opensBody b.kind b.data = true)
    (hs : s.Recalls earlier)
    (hbody : ∀ {earlier}, s.deeper.Recalls earlier →
      ∃ inner, Tells earlier (Block.reached b.children) body u inner)
    (hrest : ∀ {earlier}, u.leave.Recalls earlier →
      ∃ outer, Tells earlier (Block.reached bs) lines t outer) :
    ∃ said, Tells earlier (Block.reached (b :: bs)) (header :: (body ++ lines)) t said := by
  have hcontrol : b.kind = .control := (opensBody_iff.mp hopens).1
  have hrecognised : b.Recognised := by
    rw [← isIdle_eq_false, ← Bool.not_eq_true]
    intro hidle
    rw [opensBody_of_isIdle hidle] at hopens
    exact Bool.false_ne_true hopens
  have hkeep : s.Recalls (earlier ++ [b]) := by
    refine hs.keep fun name h => ?_
    have hkind := h.1
    simp [hcontrol] at hkind
  have hfirst : Tells earlier [b] [header] s [(b, header)] :=
    .single hrecognised (fun hkind => by simp [hcontrol] at hkind) hkeep
  obtain ⟨inner, hinner⟩ := hbody (hkeep.of_remembered rfl)
  obtain ⟨outer, houter⟩ := hrest (hinner.recalls.of_remembered rfl)
  rw [Block.reached_cons_of_opens hopens]
  exact ⟨_, hfirst.append (hinner.append houter)⟩

theorem Emits.tells {bs : List Block} {s t : Session} {stmts : List Stmt} {earlier : List Block}
    (h : Emits bs s stmts t) (hs : s.Recalls earlier) :
    ∃ said, Tells earlier (Block.reached bs) (Stmt.firstLines stmts) t said := by
  induction h generalizing earlier with
  | done => exact ⟨[], rfl, rfl, trivial, by simpa using hs⟩
  | @skipped b _ _ _ _ _ hidle _ ih =>
      have hother : ¬ b.Recognised := by
        rw [← isIdle_eq_false, hidle]
        exact Bool.true_eq_false.mp
      obtain ⟨said, hsaid⟩ := ih (hs.of_remembered rfl)
      refine ⟨said, ?_, hsaid.lines, hsaid.reads, hsaid.recalls⟩
      rw [Block.reached_cons_of_plain (opensBody_of_isIdle hidle),
        List.filter_cons_of_neg (by simpa using hother), hsaid.blocks]
  | line hline _ ih =>
      obtain ⟨said, hsaid⟩ := ih (hline.recalls hs)
      have hfirst := Tells.single (.inl hline.isSimple) (hline.readsWithFallback hs)
        (hline.recalls hs)
      rw [Block.reached_cons_of_plain hline.not_opensBody]
      exact ⟨_, hfirst.append hsaid⟩
  | @branch id data children _ _ _ _ _ _ hkind _ _ _ ihBody ih =>
      exact tells_opened (b := ⟨id, .control, data, children⟩) (by simp [opensBody_eq, hkind]) hs
        ihBody ih
  | @loop id data children _ _ _ _ _ _ hkind _ _ _ ihBody ih =>
      exact tells_opened (b := ⟨id, .control, data, children⟩) (by simp [opensBody_eq, hkind]) hs
        ihBody ih

theorem emitHandlers_tells {handlers : List Handler} {s t : Session}
    {emitted : List (Handler × List Stmt)} {earlier : List Block}
    (h : emitHandlers handlers s = (.ok emitted, t)) (hs : s.Recalls earlier) :
    ∃ said, Tells earlier (handlers.flatMap fun h => Block.reached h.actions)
      (emitted.flatMap fun p => Stmt.firstLines p.2) t said := by
  induction handlers generalizing s emitted earlier with
  | nil =>
      obtain ⟨rfl, rfl⟩ := by simpa [emitHandlers] using h
      exact ⟨[], rfl, rfl, trivial, by simpa using hs⟩
  | cons handler handlers ih =>
      obtain ⟨stmts, rest, u, hstmts, hrest, rfl⟩ := emitHandlers_cons_eq_ok h
      obtain ⟨first, hfirst⟩ := (emitBlocks_emits hstmts).tells (hs.of_remembered rfl)
      obtain ⟨others, hothers⟩ := ih hrest hfirst.recalls
      exact ⟨first ++ others, hfirst.append hothers⟩

/-! ## Lines with and without a default -/

/-- Lines with different defaults differ, and so do lines with and without one. -/
theorem getLine_injective (data : Fields) : Function.Injective (getLine data) := by
  have hparts : ∀ default, getLine data default =
      ident (variableName data) ++ " = variables.get(" ++ textLiteral (variableName data) ++
        ((default.map fun v => ", " ++ literal v).getD "" ++ ")") := by
    intro default
    cases default <;>
      simp only [getLine, Option.map_some, Option.map_none, Option.getD_some, Option.getD_none,
        String.append_assoc]
  intro default default' h
  rw [hparts, hparts, String.append_right_inj, String.append_left_inj] at h
  cases default with
  | none =>
      cases default' with
      | none => rfl
      | some w => simp at h
  | some v =>
      cases default' with
      | none => simp at h
      | some w =>
          have hliteral : literal v = literal w := by simpa using h
          rw [literal_injective hliteral]

theorem getLine_some {data : Fields} {name : String} (h : NamesVariable data name) (v : Value) :
    getLine data (some v) =
      ident name ++ " = variables.get(" ++ textLiteral name ++ ", " ++ literal v ++ ")" := by
  rw [namesVariable_iff.mp h]
  simp only [getLine, String.append_assoc]

theorem getLine_none {data : Fields} {name : String} (h : NamesVariable data name) :
    getLine data none = ident name ++ " = variables.get(" ++ textLiteral name ++ ")" := by
  rw [namesVariable_iff.mp h]
  simp only [getLine, String.append_empty]

/-- What a line that reads a variable shows. -/
structure ShowsFallback (earlier : List Block) (data : Fields) (line name : String) : Prop where
  default : ∀ v, line = ident name ++ " = variables.get(" ++ textLiteral name ++ ", " ++
    literal v ++ ")" ↔ HasFallback earlier data v
  bare : line = ident name ++ " = variables.get(" ++ textLiteral name ++ ")" ↔
    ∀ v, ¬ HasFallback earlier data v

theorem ReadsWithFallback.shows {earlier : List Block} {b : Block} {line name : String}
    (h : ReadsWithFallback earlier b line) (hname : NamesVariable b.data name) :
    ShowsFallback earlier b.data line name := by
  obtain ⟨default, rfl, hdefault⟩ := h
  refine ⟨fun v => ?_, ?_⟩
  · rw [← getLine_some hname, (getLine_injective b.data).eq_iff, hdefault]
  · rw [← getLine_none hname, (getLine_injective b.data).eq_iff, Option.eq_none_iff_forall_ne_some]
    exact forall_congr' fun v => not_congr (hdefault v)

/-! ## Programs -/

/-- The blocks that become code, in the order of emission, each with the first line of its
statement. -/
structure Said (options : Options) (bs : List Block) (program : String)
    (said : List (Block × String)) : Prop where
  blocks : said.map Prod.fst = (emittedBlocks options bs).filter fun b => b.Recognised
  lines : ∃ emitted s, emitProgram bs (.new options) = (.ok emitted, s) ∧
    program = assemble options s.statements (sectionsOf options emitted) ∧
    said.map Prod.snd = emitted.flatMap fun p => Stmt.firstLines p.2

/-- Fallbacks follow the order of emission: in the list of all settings that become lines, a line
that reads a variable carries the default of its block if there is one, or else the value of the
last assignment before it to the same variable if there is one, and otherwise none. -/
theorem compile_fallbacks {options : Options} {bs : List Block} {program : String}
    (h : compile options bs = .ok program) :
    ∃ said, Said options bs program said ∧
      ∀ before b line after,
        said.filter (fun p => p.1.kind = .setting) = before ++ (b, line) :: after →
        b.data.Stores "settingType" "getVariable" → ∀ name, NamesVariable b.data name →
          ShowsFallback (before.map Prod.fst) b.data line name := by
  obtain ⟨emitted, t, hrun, hprogram⟩ := compile_eq_ok.mp h
  have hstart : (route bs (.new options)).2.Recalls [] := by
    intro name
    have hsession := Routing.foldl_fewerImports bs { session := .new options }
    exact congrArg (Entries.get? name) hsession.remembered
  obtain ⟨said, hsaid⟩ := emitHandlers_tells hrun (hstart.of_remembered rfl)
  refine ⟨said, ⟨hsaid.blocks, emitted, t, hrun, hprogram, hsaid.lines⟩, ?_⟩
  intro before b line after hsettings hget name hname
  have hreads := hsaid.reads.settings
  rw [hsettings] at hreads
  have hmem : (b, line) ∈ said.filter fun p => p.1.kind = .setting := by
    rw [hsettings]
    exact List.mem_append_right _ List.mem_cons_self
  have hkind : b.kind = .setting := by simpa using (List.mem_filter.mp hmem).2
  exact (hreads.at_block hkind hget).shows hname

/-- A variable is set in a loop and then to the message; in between stands a handler that is
dropped. The next handler reads the variable, sets it to nothing, and reads it twice more. -/
def fallbackBlocks : List Block :=
  [⟨none, .event, [("eventType", .string "follow")], []⟩,
   ⟨none, .control, [("controlType", .string "loop")],
    [⟨none, .setting, [("settingType", .string "setVariable"), ("value", .bool true)], []⟩,
     ⟨none, .setting,
      [("settingType", .string "setVariable"), ("valueSource", .string "message")], []⟩]⟩,
   ⟨none, .event, [("eventType", .string "unheard")], []⟩,
   ⟨none, .setting, [("settingType", .string "setVariable"), ("value", .bool false)], []⟩,
   ⟨none, .event, [("eventType", .string "join")], []⟩,
   ⟨none, .setting,
    [("settingType", .string "getVariable"), ("variableName", .string "variable")], []⟩,
   ⟨none, .setting, [("settingType", .string "setVariable")], []⟩,
   ⟨none, .setting, [("settingType", .string "getVariable")], []⟩,
   ⟨none, .setting, [("defaultValue", .string "d"), ("settingType", .string "getVariable")], []⟩]

theorem compile_fallbacks_cancelled :
    ∃ program, compile {} fallbackBlocks = .ok program ∧
      ∃ said, Said {} fallbackBlocks program said ∧
        said.map Prod.snd =
          ["for _ in range(5):",
           "variables[\"variable\"] = True",
           "variables[\"variable\"] = message",
           "var_variable = variables.get(\"variable\", True)",
           "variables[\"variable\"] = None",
           "var_variable = variables.get(\"variable\")",
           "var_variable = variables.get(\"variable\", \"d\")"] ∧
        ∀ before b line after,
          said.filter (fun p => p.1.kind = .setting) = before ++ (b, line) :: after →
          b.data.Stores "settingType" "getVariable" → ∀ name, NamesVariable b.data name →
            ShowsFallback (before.map Prod.fst) b.data line name := by
  obtain ⟨said, hsaid, hreads⟩ :=
    compile_fallbacks (show compile {} fallbackBlocks = .ok _ from rfl)
  refine ⟨_, rfl, said, hsaid, ?_, hreads⟩
  obtain ⟨emitted, s, hrun, -, hlines⟩ := hsaid.lines
  have hall : Except.ok (said.map Prod.snd) = (emitProgram fallbackBlocks (.new {})).1.map
      (List.flatMap fun p => Stmt.firstLines p.2) := by
    rw [hrun, hlines]
    rfl
  refine Except.ok.inj (hall.trans ?_)
  decide +kernel

end BlockBot
