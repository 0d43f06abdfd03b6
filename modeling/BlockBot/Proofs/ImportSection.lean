import BlockBot.Proofs.Agreement
import BlockBot.Proofs.Registration

/-!
# The import section is what the code needs

Imports are asked for along the way: by the router for a pattern that is searched for, and by the
emission for replies and waits, at any depth. What a session has at the end is the union of these
requests, in no particular order, and the section is written from it in a fixed one. So the section,
as it is read from the lines of the program, has exactly the imports that some emitted block or some
event with a known trigger needs; a block that is dropped leaves nothing behind.
-/

namespace BlockBot

open BlockBot.Json BlockBot.Code BlockBot.Text

/-! ## What code needs -/

/-- The blocks that become code: the actions of the handlers, and what stands in the bodies of
branches and loops. -/
def emittedBlocks (options : Options) (bs : List Block) : List Block :=
  (route bs (.new options)).1.flatMap fun h => Block.reached h.actions

/-- A root event for texts in which a pattern is to be searched for. -/
def Block.Searches (options : Options) (b : Block) : Prop :=
  rootTrigger? options b = some .messageText ∧ (b.data.text? "pattern").isSome ∧
    (b.data.text? "matchMode").bind ofTag? = some MatchMode.regex

def Block.IsWait (b : Block) : Prop :=
  b.kind = .control ∧ controlKind? b.data = some .wait

def Block.IsReply (kind : ReplyKind) (b : Block) : Prop :=
  b.kind = .reply ∧ replyKind? b.data = some kind

/-- Whether the code of a program uses what an import declares. -/
def Import.Needed (options : Options) (bs : List Block) : Import → Prop
  | .regex => ∃ b ∈ bs, b.Searches options
  | .time => ∃ b ∈ emittedBlocks options bs, b.IsWait
  | .flexMessage => ∃ b ∈ emittedBlocks options bs, b.IsReply .flex
  | .imageMessage => ∃ b ∈ emittedBlocks options bs, b.IsReply .image
  | .stickerMessage => ∃ b ∈ emittedBlocks options bs, b.IsReply .sticker

instance (options : Options) (b : Block) : Decidable (b.Searches options) :=
  inferInstanceAs (Decidable (_ ∧ _ ∧ _))

instance (b : Block) : Decidable b.IsWait :=
  inferInstanceAs (Decidable (_ ∧ _))

instance (kind : ReplyKind) (b : Block) : Decidable (b.IsReply kind) :=
  inferInstanceAs (Decidable (_ ∧ _))

instance (options : Options) (bs : List Block) :
    DecidablePred (Import.Needed options bs) := fun i =>
  match i with
  | .regex => inferInstanceAs (Decidable (∃ b ∈ bs, b.Searches options))
  | .time => inferInstanceAs (Decidable (∃ b ∈ emittedBlocks options bs, b.IsWait))
  | .flexMessage => inferInstanceAs (Decidable (∃ b ∈ emittedBlocks options bs, b.IsReply .flex))
  | .imageMessage => inferInstanceAs (Decidable (∃ b ∈ emittedBlocks options bs, b.IsReply .image))
  | .stickerMessage =>
    inferInstanceAs (Decidable (∃ b ∈ emittedBlocks options bs, b.IsReply .sticker))

/-! ## Asking for imports -/

namespace Session

theorem mem_imports_register (s : Session) (i j : Import) :
    j ∈ (s.register i).imports ↔ j ∈ s.imports ∨ j = i := by
  rw [imports_register, List.mem_insert_iff, or_comm]

theorem mem_imports_foldl_register (is : List Import) (s : Session) (j : Import) :
    j ∈ (is.foldl register s).imports ↔ j ∈ s.imports ∨ j ∈ is := by
  induction is generalizing s with
  | nil => simp
  | cons i is ih => rw [List.foldl_cons, ih, mem_imports_register, List.mem_cons, or_assoc]

end Session

/-- The statements depend on what is imported, and not on how often and when it was asked for. -/
theorem Import.statements_congr {is js : List Import} (h : ∀ i, i ∈ is ↔ i ∈ js) :
    Import.statements is = Import.statements js := by
  unfold statements
  refine congrArg (List.map statement) (List.filter_congr fun i _ => ?_)
  rw [Bool.eq_iff_iff, List.contains_iff_mem, List.contains_iff_mem, h i]

/-! ## Emission -/

/-- What the code of one block needs. -/
def Block.import? (b : Block) : Option Import :=
  match b.kind with
  | .reply => (replyKind? b.data).bind ReplyKind.import?
  | .control => if controlKind? b.data = some .wait then some .time else none
  | _ => none

theorem Block.import?_of_isIdle {b : Block} (h : isIdle b.kind b.data = true) :
    b.import? = none := by
  unfold isIdle at h
  unfold import?
  cases hkind : b.kind with
  | reply =>
      rw [hkind] at h
      simp [show replyKind? b.data = none by simpa using h]
  | control =>
      rw [hkind] at h
      simp [show controlKind? b.data = none by simpa using h]
  | _ => rfl

/-- Among the blocks that an emission comes to, one asks for an import. -/
def Asked (bs : List Block) (i : Import) : Prop :=
  ∃ b ∈ Block.reached bs, b.import? = some i

theorem asked_cons_of_plain {b : Block} (h : opensBody b.kind b.data = false) (bs : List Block)
    (i : Import) : Asked (b :: bs) i ↔ b.import? = some i ∨ Asked bs i := by
  unfold Asked
  rw [Block.reached_cons_of_plain h, List.exists_mem_cons_iff]

/-- A branch or loop asks for nothing itself. -/
theorem asked_cons_of_opens {b : Block} (h : opensBody b.kind b.data = true) (bs : List Block)
    (i : Import) : Asked (b :: bs) i ↔ Asked b.children i ∨ Asked bs i := by
  have hnone : b.import? = none := by
    obtain ⟨hkind, hcontrol | hcontrol⟩ := opensBody_iff.mp h
    · simp [Block.import?, hkind, hcontrol]
    · simp [Block.import?, hkind, hcontrol]
  unfold Asked
  rw [Block.reached_cons_of_opens h, List.exists_mem_cons_iff, hnone]
  simp only [List.mem_append, or_and_right, exists_or, reduceCtorEq, false_or]

theorem Says.not_opensBody {b : Block} {s t : Session} {text : String} (h : Says b s text t) :
    opensBody b.kind b.data = false := by
  cases h with
  | wait hkind => simp [opensBody_eq, hkind]
  | _ => rfl

theorem Says.mem_imports {b : Block} {s t : Session} {text : String} (h : Says b s text t)
    (i : Import) : i ∈ t.imports ↔ i ∈ s.imports ∨ b.import? = some i := by
  unfold Block.import?
  cases h with
  | @reply _ _ _ kind _ hkind =>
      cases himport : kind.import? with
      | none => simp [hkind, himport]
      | some j => simp [hkind, himport, Session.mem_imports_register, eq_comm]
  | @setVariable _ data _ _ _ => cases takesMessage data <;> simp [Session.record]
  | getVariable _ => simp
  | saveUserData _ => simp
  | wait hkind => simp [hkind, Session.mem_imports_register, eq_comm]

/-- An emission asks for what the blocks need that it comes to, and for nothing else. -/
theorem Emits.mem_imports {bs : List Block} {s t : Session} {stmts : List Stmt}
    (h : Emits bs s stmts t) (i : Import) : i ∈ t.imports ↔ i ∈ s.imports ∨ Asked bs i := by
  induction h with
  | done => simp [Asked, Block.reached]
  | skipped hidle _ ih =>
      rw [ih, asked_cons_of_plain (opensBody_of_isIdle hidle), Block.import?_of_isIdle hidle]
      simp [Session.note]
  | line hsaid _ ih =>
      rw [ih, asked_cons_of_plain hsaid.not_opensBody, hsaid.mem_imports, or_assoc]
  | branch hkind _ _ _ ihBody ih =>
      rw [ih, asked_cons_of_opens (by simp [opensBody_eq, hkind]), ← or_assoc]
      exact or_congr_left ihBody
  | loop hkind _ _ _ ihBody ih =>
      rw [ih, asked_cons_of_opens (by simp [opensBody_eq, hkind]), ← or_assoc]
      exact or_congr_left ihBody

theorem emitHandlers_mem_imports {handlers : List Handler} {s t : Session}
    {emitted : List (Handler × List Stmt)} (h : emitHandlers handlers s = (.ok emitted, t))
    (i : Import) :
    i ∈ t.imports ↔ i ∈ s.imports ∨ ∃ handler ∈ handlers, Asked handler.actions i := by
  induction handlers generalizing s emitted with
  | nil =>
      obtain ⟨rfl, rfl⟩ := by simpa [emitHandlers] using h
      simp
  | cons handler handlers ih =>
      obtain ⟨stmts, rest, u, hstmts, hrest, rfl⟩ := emitHandlers_cons_eq_ok h
      have hfirst := (emitBlocks_emits hstmts).mem_imports i
      rw [ih hrest, hfirst, List.exists_mem_cons_iff, ← or_assoc]
      rfl

/-! ## Routing -/

theorem Handler.mem_imports_guardOf (trigger : Trigger) (data : Fields) (s : Session) (i : Import) :
    i ∈ (Handler.guardOf trigger data s).2.imports ↔
      i ∈ s.imports ∨ (i = .regex ∧ trigger = .messageText ∧ (data.text? "pattern").isSome ∧
        (data.text? "matchMode").bind ofTag? = some MatchMode.regex) := by
  unfold Handler.guardOf
  cases trigger with
  | messageText =>
      unfold Handler.pattern?
      cases data.text? "pattern" with
      | none => simp
      | some pattern =>
          cases hmode : (data.text? "matchMode").bind (ofTag? : String → Option MatchMode) with
          | none => simp [registerPattern]
          | some mode => cases mode <;> simp [registerPattern, Session.mem_imports_register]
  | _ => simp

theorem Routing.mem_imports_add (r : Routing) (b : Block) (i : Import) :
    i ∈ (r.add b).session.imports ↔
      i ∈ r.session.imports ∨ (i = .regex ∧ b.Searches r.session.options) := by
  unfold Block.Searches
  by_cases hevent : b.kind = .event
  · cases htrigger : rootTrigger? r.session.options b with
    | none =>
        rw [add_of_event hevent htrigger]
        simp [Session.note]
    | some trigger =>
        rw [add_of_trigger htrigger]
        simp only [Option.some.injEq]
        exact Handler.mem_imports_guardOf trigger b.data r.session i
  · rw [rootTrigger?_of_other hevent]
    cases haction : b.isAction with
    | true =>
        rw [add_of_isAction haction]
        obtain ⟨handlers, isOpen, session⟩ := r
        cases handlers with
        | nil => simp [addAction, Session.note]
        | cons last handlers => cases isOpen <;> simp [addAction, Session.note]
    | false =>
        obtain ⟨notice, hadd⟩ := add_of_other (r := r) hevent haction
        rw [hadd]
        simp [Session.note]

theorem mem_imports_route (bs : List Block) (s : Session) (i : Import) :
    i ∈ (route bs s).2.imports ↔ i ∈ s.imports ∨ (i = .regex ∧ ∃ b ∈ bs, b.Searches s.options) := by
  have hfold : ∀ (bs : List Block) (r : Routing), i ∈ (bs.foldl Routing.add r).session.imports ↔
      i ∈ r.session.imports ∨ (i = .regex ∧ ∃ b ∈ bs, b.Searches r.session.options) := by
    intro bs
    induction bs with
    | nil => simp
    | cons b bs ih =>
        intro r
        rw [List.foldl_cons, ih, r.mem_imports_add b, (r.add_sameLevel b).options,
          List.exists_mem_cons_iff, or_assoc, ← and_or_left]
  exact hfold bs { session := s }

/-! ## Programs -/

theorem emittedBlocks_import {options : Options} {bs : List Block} {i : Import} :
    (∃ handler ∈ (route bs (.new options)).1, Asked handler.actions i) ↔
      ∃ b ∈ emittedBlocks options bs, b.import? = some i := by
  unfold Asked emittedBlocks
  simp only [List.mem_flatMap]
  constructor
  · rintro ⟨handler, hhandler, b, hb, hi⟩
    exact ⟨b, ⟨handler, hhandler, hb⟩, hi⟩
  · rintro ⟨b, ⟨handler, hhandler, hb⟩, hi⟩
    exact ⟨handler, hhandler, b, hb, hi⟩

/-- What one block needs, import by import. -/
def Block.Needs (b : Block) : Import → Prop
  | .regex => False
  | .time => b.IsWait
  | .flexMessage => b.IsReply .flex
  | .imageMessage => b.IsReply .image
  | .stickerMessage => b.IsReply .sticker

theorem Block.import?_eq_some {b : Block} {i : Import} : b.import? = some i ↔ b.Needs i := by
  unfold import? Needs IsWait IsReply
  cases hkind : b.kind with
  | reply =>
      cases replyKind? b.data with
      | none => cases i <;> simp
      | some kind => cases i <;> cases kind <;> simp [ReplyKind.import?]
  | control =>
      by_cases hwait : controlKind? b.data = some .wait
      · cases i <;> simp [hwait]
      · cases i <;> simp [hwait]
  | _ => cases i <;> simp

/-- At the end of a compilation the session has the imports that its code needs. -/
theorem mem_imports_emitProgram {options : Options} {bs : List Block} {s : Session}
    {emitted : List (Handler × List Stmt)} (h : emitProgram bs (.new options) = (.ok emitted, s))
    (i : Import) : i ∈ s.imports ↔ i.Needed options bs := by
  have hstart : i ∉ (Session.new options).imports := List.not_mem_nil
  have hrun : i ∈ s.imports ↔ i ∈ (route bs (.new options)).2.imports ∨
      ∃ handler ∈ (route bs (.new options)).1, Asked handler.actions i :=
        emitHandlers_mem_imports h i
  rw [hrun, emittedBlocks_import, mem_imports_route]
  simp only [hstart, false_or, Block.import?_eq_some]
  cases i with
  | regex =>
      simp only [Block.Needs, and_false, exists_false, or_false, true_and]
      exact Iff.rfl
  | _ =>
      simp only [reduceCtorEq, false_and, false_or]
      exact Iff.rfl

/-! ## The section as it stands in the program -/

/-- The lines below the header of the imports, up to the next blank line. -/
def importLines (program : String) : List String :=
  ((linesIn program).dropWhile (· != importsHeader)).tail.takeWhile (· != "")

/-- A line of a template that is not the header of the imports, in whatever unit it is written. -/
structure BeforeImports (line : String) : Prop where
  oneLine : OneLine line
  other : line.toList.dropWhile (· == ' ') ≠ importsHeader.toList

namespace BeforeImports

variable {line : String}

theorem of_chars {cs : List Char} (h : '\n' ∉ cs)
    (hother : cs.dropWhile (· == ' ') ≠ importsHeader.toList) :
    BeforeImports (String.ofList cs) where
  oneLine := .of_chars h
  other := by rwa [String.toList_ofList (l := cs)]

theorem ne_header (h : BeforeImports line) : line ≠ importsHeader := by
  rintro rfl
  exact h.other rfl

theorem rescaled (h : BeforeImports line) {unit : String} {width : Nat}
    (hunit : unit = String.ofList (List.replicate width ' ')) :
    BeforeImports (rescaledLine unit line) where
  oneLine := h.oneLine.rescaled hunit
  other := by
    rw [dropWhile_rescaledLine hunit]
    exact h.other

end BeforeImports

theorem beforeImports_preamble :
    ∃ lines, preamble = textOfLines lines ∧ ∀ line ∈ lines, BeforeImports line := by
  refine ⟨_, rfl, ?_⟩
  simp only [List.forall_mem_cons]
  -- one goal for each line, and one for the end of the list
  and_intros
  all_goals first | exact .of_chars (by decide) (by decide) | simp

/-- Below the imports comes a blank line, whether there are sections or not. -/
theorem sections_start (sections : List String) (last : String) :
    ∃ rest, String.join (sections.map ("\n\n" ++ ·)) ++ ("\n\n" ++ last) =
      textOfLines [""] ++ rest := by
  have hblank : ∀ text : String, "\n\n" ++ text = textOfLines [""] ++ ("\n" ++ text) := by
    intro text
    rw [← String.append_assoc]
    rfl
  cases sections with
  | nil => exact ⟨_, by rw [List.map_nil, String.join_nil, String.empty_append, hblank]⟩
  | cons text sections =>
      exact ⟨_, by rw [List.map_cons, String.join_cons, hblank, String.append_assoc,
        String.append_assoc]⟩

/-- A program is whole lines up to the blank one below its imports, whatever its sections are. -/
theorem assemble_eq_append (options : Options) {first : List String}
    (hfirst : preamble = textOfLines first) (hone : ∀ line ∈ first, OneLine line)
    (statements sections : List String) :
    ∃ rest, assemble options statements sections =
      textOfLines (templateLines options.unit first ++ ["", ""] ++ importsHeader ::
        (statements ++ [""])) ++ rest := by
  obtain ⟨rest, hrest⟩ := sections_start sections (reindent options.unit (epilogue options.port))
  refine ⟨rest, ?_⟩
  have hblank : "\n\n" = textOfLines ["", ""] := rfl
  unfold assemble
  rw [String.append_assoc, String.append_assoc, hrest, hfirst, reindent_textOfLines hone,
    ← List.cons_append, textOfLines_append, textOfLines_append, textOfLines_append, ← hblank]
  simp only [String.append_assoc]

theorem importLines_assemble (options : Options) (imports : List Import) (sections : List String) :
    importLines (assemble options (Import.statements imports) sections) =
      Import.statements imports := by
  obtain ⟨first, hfirst, hbefore⟩ := beforeImports_preamble
  obtain ⟨rest, hrest⟩ :=
    assemble_eq_append options hfirst (fun line hline => (hbefore line hline).oneLine)
    (Import.statements imports) sections
  have htemplate : ∀ line ∈ templateLines options.unit first, BeforeImports line :=
    forall_mem_templateLines hbefore fun _ h => h.rescaled rfl
  have hblank : BeforeImports "" := .of_chars (by decide) (by decide)
  have habove : ∀ line ∈ templateLines options.unit first ++ ["", ""], BeforeImports line :=
    List.forall_mem_append.mpr ⟨htemplate, List.forall_mem_cons.mpr ⟨hblank, by simpa using hblank⟩⟩
  have hstatements := inert_statements imports
  have hone : ∀ line ∈ templateLines options.unit first ++ ["", ""] ++
      importsHeader :: (Import.statements imports ++ [""]), OneLine line :=
    List.forall_mem_append.mpr ⟨fun line hline => (habove line hline).oneLine,
      List.forall_mem_cons.mpr ⟨.of_chars (by decide),
        List.forall_mem_append.mpr ⟨fun line hline => (hstatements line hline).oneLine,
          by simpa using hblank.oneLine⟩⟩⟩
  have hother : ∀ line ∈ templateLines options.unit first ++ ["", ""],
      (line != importsHeader) = true :=
    fun line hline => bne_iff_ne.mpr (habove line hline).ne_header
  have hnonempty : ∀ line ∈ Import.statements imports, (line != "") = true := by
    intro line hline
    obtain ⟨i, -, rfl⟩ := List.mem_map.mp hline
    cases i <;> rfl
  unfold importLines
  rw [hrest, linesIn_textOfLines_append hone, List.append_assoc,
    List.dropWhile_append_of_pos hother, List.cons_append, List.dropWhile_cons_of_neg (by simp),
    List.tail_cons, List.append_assoc, List.takeWhile_append_of_pos hnonempty, List.cons_append,
    List.takeWhile_cons_of_neg (by simp), List.append_nil]

/-! ## Programs and their imports -/

/-- The import section of a program, as it is read from the text, is the one that its code needs. -/
structure ImportsNeeded (options : Options) (bs : List Block) (program : String) : Prop where
  /-- The lines below the header are the needed imports in a fixed order. -/
  lines : importLines program =
    ([.regex, .time, .flexMessage, .imageMessage, .stickerMessage].filter fun i : Import =>
      i.Needed options bs).map Import.statement
  nodup : (importLines program).Nodup
  /-- There are no other imports: around the section stand the fixed parts and the handlers. -/
  rest : ∃ emitted, program = assemble options (importLines program) (sectionsOf options emitted) ∧
    emitted.map Prod.fst = (route bs (.new options)).1

theorem Import.statements_nodup (imports : List Import) : (Import.statements imports).Nodup := by
  have hall : (Import.all.map Import.statement).Nodup := by decide
  exact hall.sublist (List.filter_sublist.map Import.statement)

/-- A search in a text handler, and a wait and a flexible message in a loop; the sticker stands
below a reply, where nobody looks. -/
def importingBlocks : List Block :=
  [⟨none, .event, [("eventType", .string "message.text"), ("matchMode", .string "regex"),
    ("pattern", .string "h.?i")], []⟩,
   ⟨none, .control, [("controlType", .string "loop")],
    [⟨none, .control, [("controlType", .string "wait")], []⟩,
     ⟨none, .reply, [("replyType", .string "flex")],
      [⟨none, .reply, [("replyType", .string "sticker")], []⟩]⟩,
     ⟨none, .control, [("controlType", .string "wait")], []⟩]⟩]

end BlockBot
