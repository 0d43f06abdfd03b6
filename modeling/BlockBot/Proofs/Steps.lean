import BlockBot.Program
import BlockBot.Proofs.Recognition
import BlockBot.Proofs.Trees

/-!
# One block at a time

Emitting a block is one of two things. Most blocks are plain: they cannot fail, and their children
are not looked at (`emitPlain`). Branches and loops emit their children one level deeper and put a
header above them (`wrapBody`). Facts about the emission of blocks need one lemma for each of the
two.

What a plain block does to a session is one of four things, and which one it is depends on its kind
and its data alone (`plainEffect`). What it says depends on the session by the default texts of the
options and by the values that are remembered, and by nothing else (`emitPlain_fst`). All relations
between sessions are followed through a run by these two facts. The first of them is here: whatever
happens, a run ends on the level on which it began, and under the same options.
-/

namespace BlockBot

open BlockBot.Json BlockBot.Code

/-! ## Runs -/

/-- Continues a run unless it failed. -/
def proceed {α β : Type} (x : Except CompileError α × Session) (f : α → Emit β) :
    Except CompileError β × Session :=
  match x with
  | (.error e, s) => (.error e, s)
  | (.ok a, s) => f a s

/-- A continued run succeeds if both parts do. -/
theorem proceed_eq_ok {α β : Type} {x : Except CompileError α × Session} {f : α → Emit β} {b : β}
    {t : Session} (h : proceed x f = (.ok b, t)) : ∃ a s, x = (.ok a, s) ∧ f a s = (.ok b, t) := by
  rcases x with ⟨_ | a, s⟩
  · simp [proceed] at h
  · exact ⟨a, s, rfl, h⟩

theorem emitBlocks_cons (b : Block) (bs : List Block) (s : Session) :
    emitBlocks (b :: bs) s = proceed (emitBlock b s) fun stmts s =>
      proceed (emitBlocks bs s) fun rest s => (.ok (stmts ++ rest), s) := by
  rw [emitBlocks]
  rcases emitBlock b s with ⟨_ | stmts, t⟩
  · rfl
  · simp only [proceed]
    rcases emitBlocks bs t with ⟨_ | rest, u⟩
    · rfl
    · rfl

theorem emitHandlers_cons (h : Handler) (handlers : List Handler) (s : Session) :
    emitHandlers (h :: handlers) s =
      proceed (emitBlocks h.actions (s.note (.emitting h.functionName h.actions.length)))
        fun stmts s => proceed (emitHandlers handlers s) fun rest s =>
          (.ok ((h, stmts) :: rest), s) := by
  rw [emitHandlers]
  rcases emitBlocks h.actions (s.note (.emitting h.functionName h.actions.length))
    with ⟨_ | stmts, t⟩
  · rfl
  · simp only [proceed]
    rcases emitHandlers handlers t with ⟨_ | rest, u⟩
    · rfl
    · rfl

theorem emitBlocks_cons_eq_ok {b : Block} {bs : List Block} {s t : Session} {stmts : List Stmt}
    (h : emitBlocks (b :: bs) s = (.ok stmts, t)) :
    ∃ first rest u, emitBlock b s = (.ok first, u) ∧ emitBlocks bs u = (.ok rest, t) ∧
      stmts = first ++ rest := by
  rw [emitBlocks_cons] at h
  obtain ⟨first, u, hfirst, h⟩ := proceed_eq_ok h
  obtain ⟨rest, v, hrest, h⟩ := proceed_eq_ok h
  obtain ⟨rfl, rfl⟩ := by simpa using h
  exact ⟨first, rest, u, hfirst, hrest, rfl⟩

theorem emitHandlers_cons_eq_ok {h : Handler} {handlers : List Handler} {s t : Session}
    {emitted : List (Handler × List Stmt)}
    (hok : emitHandlers (h :: handlers) s = (.ok emitted, t)) :
    ∃ stmts rest u,
      emitBlocks h.actions (s.note (.emitting h.functionName h.actions.length)) = (.ok stmts, u) ∧
        emitHandlers handlers u = (.ok rest, t) ∧ emitted = (h, stmts) :: rest := by
  rw [emitHandlers_cons] at hok
  obtain ⟨stmts, u, hstmts, hok⟩ := proceed_eq_ok hok
  obtain ⟨rest, v, hrest, hok⟩ := proceed_eq_ok hok
  obtain ⟨rfl, rfl⟩ := by simpa using hok
  exact ⟨stmts, rest, u, hstmts, hrest, rfl⟩

/-- A program is assembled from what was emitted. -/
theorem compile_eq_ok {options : Options} {bs : List Block} {program : String} :
    compile options bs = .ok program ↔
      ∃ emitted s, emitProgram bs (.new options) = (.ok emitted, s) ∧
        program = assemble options s.statements (sectionsOf options emitted) := by
  unfold compile compileNoting
  rcases emitProgram bs (.new options) with ⟨_ | emitted, s⟩
  · simp
  · constructor
    · exact fun h => ⟨emitted, s, rfl, (Except.ok.inj h).symm⟩
    · rintro ⟨_, _, hrun, rfl⟩
      obtain ⟨rfl, rfl⟩ := by simpa using hrun
      rfl

/-! ## Blocks -/

/-- Emits a block without a body, whatever its children are. -/
def emitPlain (label : String) (kind : Kind) (data : Fields) (s : Session) : List Stmt × Session :=
  match kind with
  | .reply => emitReply label data s
  | .setting => emitSetting label data s
  | .event => ([], s.note (.nestedEvent label))
  | .unknown name => ([], s.note (.unknownKind label name))
  | .control =>
    match controlKind? data with
    | some .wait => ([.line (waitLine data)], s.register .time)
    | _ => ([], s.note (.unknownControl label))

/-- The statement of a branch or loop, for the statements of its body. -/
def wrapBody (data : Fields) : List Stmt → List Stmt :=
  if controlKind? data = some .loop then fun stmts => [.loop (loopCount data) stmts]
  else fun stmts => [.branch (branchCondition data) stmts]

section

variable {kind : Kind} {data : Fields}

theorem emitBlock_of_plain (h : opensBody kind data = false) (id : Option String)
    (children : List Block) (s : Session) :
    emitBlock ⟨id, kind, data, children⟩ s =
      (.ok (emitPlain (Block.mk id kind data children).label kind data s).1,
        (emitPlain (Block.mk id kind data children).label kind data s).2) := by
  simp only [emitBlock, emitPlain]
  cases kind with
  | control =>
      rw [opensBody_eq] at h
      cases hkind : controlKind? data with
      | none => rfl
      | some control =>
          cases control with
          | wait => rfl
          | branch => simp [hkind] at h
          | loop => simp [hkind] at h
  | _ => rfl

theorem emitBlock_of_opens (h : opensBody kind data = true) (id : Option String)
    (children : List Block) (s : Session) :
    emitBlock ⟨id, kind, data, children⟩ s =
      ((emitBody (Block.mk id kind data children).label (emitBlocks children) s).1.map
          (wrapBody data),
        (emitBody (Block.mk id kind data children).label (emitBlocks children) s).2) := by
  obtain ⟨rfl, hkind⟩ := opensBody_iff.mp h
  rcases hkind with hkind | hkind
  · simp [emitBlock, wrapBody, hkind]
  · simp [emitBlock, wrapBody, hkind]

end

/-! ## Bodies -/

/-- The session in a body that was opened. -/
def Session.deeper (s : Session) : Session :=
  { s with depth := s.depth + 1 }

section

variable {s : Session}

theorem emitBody_of_deep (h : s.options.maxDepth ≤ s.depth) (label : String)
    (inner : Emit (List Stmt)) :
    emitBody label inner s = (.error (.cyclic label s.depth), s) := by
  unfold emitBody Session.enter
  rw [if_pos h]

theorem emitBody_of_open (h : s.depth < s.options.maxDepth) (label : String)
    (inner : Emit (List Stmt)) :
    emitBody label inner s = ((inner s.deeper).1, (inner s.deeper).2.leave) := by
  unfold emitBody Session.enter
  rw [if_neg (Nat.not_le.mpr h)]
  rfl

/-- A body is emitted one level deeper, if that level may be opened, and the level is left again. -/
theorem emitBody_eq_ok {label : String} {inner : Emit (List Stmt)} {t : Session}
    {stmts : List Stmt} (h : emitBody label inner s = (.ok stmts, t)) :
    s.depth < s.options.maxDepth ∧ ∃ u, inner s.deeper = (.ok stmts, u) ∧ t = u.leave := by
  rcases Nat.lt_or_ge s.depth s.options.maxDepth with hopen | hdeep
  · rw [emitBody_of_open hopen] at h
    obtain ⟨hstmts, hsession⟩ := Prod.mk.inj h
    exact ⟨hopen, (inner s.deeper).2, Prod.ext hstmts rfl, hsession.symm⟩
  · rw [emitBody_of_deep hdeep] at h
    simp at h

/-- A branch or a loop is emitted if a level may be opened for its body and the body is emitted. -/
theorem emitBlock_eq_ok_of_opens {id : Option String} {kind : Kind} {data : Fields}
    {children : List Block} {t : Session} {stmts : List Stmt} (hopens : opensBody kind data = true)
    (h : emitBlock ⟨id, kind, data, children⟩ s = (.ok stmts, t)) :
    s.depth < s.options.maxDepth ∧ ∃ body u, emitBlocks children s.deeper = (.ok body, u) ∧
      stmts = wrapBody data body ∧ t = u.leave := by
  rw [emitBlock_of_opens hopens] at h
  rcases hrun : emitBody (Block.mk id kind data children).label (emitBlocks children) s
    with ⟨_ | body, v⟩
  · simp [hrun, Except.map] at h
  · rw [hrun] at h
    obtain ⟨rfl, rfl⟩ := by simpa [Except.map] using h
    obtain ⟨hdepth, u, hu, rfl⟩ := emitBody_eq_ok hrun
    exact ⟨hdepth, body, u, hu, rfl, rfl⟩

end

/-! ## Effects -/

/-- What one step does to a session: nothing, or it tells something about the block with a label,
asks for an import, or remembers a value. -/
inductive Effect where
  | keep
  | note (notice : String → Notice)
  | register (i : Import)
  | record (name : String) (value : Value)

/-- The session after an effect of the block with this label. -/
def Session.after (s : Session) (label : String) : Effect → Session
  | .keep => s
  | .note notice => s.note (notice label)
  | .register i => s.register i
  | .record name value => s.record name value

/-- What emitting a block without a body does to a session. -/
def plainEffect (kind : Kind) (data : Fields) : Effect :=
  match kind with
  | .reply => (replyKind? data).elim (.note .unknownReply) fun kind =>
      kind.import?.elim .keep .register
  | .setting => (settingKind? data).elim (.note .unknownSetting) fun kind =>
      if kind = .setVariable ∧ takesMessage data = false then
        .record (variableName data) (assignedValue data)
      else .keep
  | .event => .note .nestedEvent
  | .unknown name => .note (.unknownKind · name)
  | .control =>
      if controlKind? data = some .wait then .register .time else .note .unknownControl

theorem emitPlain_snd (label : String) (kind : Kind) (data : Fields) (s : Session) :
    (emitPlain label kind data s).2 = s.after label (plainEffect kind data) := by
  cases kind with
  | reply =>
      unfold emitPlain emitReply plainEffect
      cases replyKind? data with
      | none => rfl
      | some kind => cases kind <;> rfl
  | setting =>
      unfold emitPlain emitSetting plainEffect
      cases settingKind? data with
      | none => rfl
      | some kind =>
          cases kind with
          | setVariable => cases takesMessage data <;> rfl
          | getVariable => rfl
          | saveUserData => rfl
  | event => rfl
  | unknown name => rfl
  | control =>
      unfold emitPlain plainEffect
      cases controlKind? data with
      | none => rfl
      | some kind => cases kind <;> rfl

/-- A block that is skipped leaves nothing but a notice. -/
theorem emitPlain_of_isIdle {kind : Kind} {data : Fields} (h : isIdle kind data = true)
    (label : String) (s : Session) :
    ∃ notice, emitPlain label kind data s = ([], s.note notice) := by
  cases kind with
  | reply =>
      have hnone : replyKind? data = none := by simpa [isIdle] using h
      exact ⟨.unknownReply label, by simp [emitPlain, emitReply, hnone]⟩
  | setting =>
      have hnone : settingKind? data = none := by simpa [isIdle] using h
      exact ⟨.unknownSetting label, by simp [emitPlain, emitSetting, hnone]⟩
  | control =>
      have hnone : controlKind? data = none := by simpa [isIdle] using h
      exact ⟨.unknownControl label, by simp [emitPlain, hnone]⟩
  | event => exact ⟨_, rfl⟩
  | unknown name => exact ⟨_, rfl⟩

/-- Of the options, a message needs the default texts. -/
theorem replyMessage_congr {o o' : Options} (htext : o'.defaultText = o.defaultText)
    (hurl : o'.placeholderImageUrl = o.placeholderImageUrl) (kind : ReplyKind) (data : Fields) :
    replyMessage kind data o' = replyMessage kind data o := by
  unfold replyMessage
  rw [htext, hurl]

theorem Session.options_register (s : Session) (i : Import) :
    (s.register i).options = s.options := by
  unfold Session.register
  split <;> rfl

/-- What a block says depends on the default texts and on what is remembered. -/
theorem emitPlain_fst {s s' : Session} (htext : s'.options.defaultText = s.options.defaultText)
    (hurl : s'.options.placeholderImageUrl = s.options.placeholderImageUrl)
    (hlast : s'.remembered = s.remembered) (label label' : String) (kind : Kind) (data : Fields) :
    (emitPlain label' kind data s').1 = (emitPlain label kind data s).1 := by
  cases kind with
  | reply =>
      unfold emitPlain emitReply
      cases replyKind? data with
      | none => rfl
      | some kind =>
          have hmessage := replyMessage_congr htext hurl kind data
          cases hi : kind.import? with
          | none => simp only [hi, hmessage]
          | some i => simp only [hi, Session.options_register, hmessage]
  | setting =>
      unfold emitPlain emitSetting
      cases settingKind? data with
      | none => rfl
      | some kind =>
          cases kind with
          | setVariable => rfl
          | getVariable => simp only [fallback?, Session.lastValue?, hlast]
          | saveUserData => rfl
  | event => rfl
  | unknown name => rfl
  | control =>
      unfold emitPlain
      cases controlKind? data with
      | none => rfl
      | some kind => cases kind <;> rfl

/-! ## Levels -/

/-- Two moments of a compilation on the same level. -/
structure Session.SameLevel (s t : Session) : Prop where
  options : t.options = s.options
  depth : t.depth = s.depth

namespace Session.SameLevel

variable {s t u : Session}

theorem refl (s : Session) : s.SameLevel s := ⟨rfl, rfl⟩

theorem trans (h : s.SameLevel t) (h' : t.SameLevel u) : s.SameLevel u :=
  ⟨h'.options.trans h.options, h'.depth.trans h.depth⟩

theorem register (s : Session) (i : Import) : s.SameLevel (s.register i) := by
  refine ⟨s.options_register i, ?_⟩
  unfold Session.register
  split <;> rfl

theorem after (s : Session) (label : String) (e : Effect) : s.SameLevel (s.after label e) := by
  cases e with
  | keep => exact .refl s
  | note notice => exact ⟨rfl, rfl⟩
  | register i => exact .register s i
  | record name value => exact ⟨rfl, rfl⟩

end Session.SameLevel

/-- The level of a body is left again, also after a failure in it. -/
theorem emitBody_sameLevel (label : String) {inner : Emit (List Stmt)}
    (hinner : ∀ s : Session, s.SameLevel (inner s).2) (s : Session) :
    s.SameLevel (emitBody label inner s).2 := by
  rcases Nat.lt_or_ge s.depth s.options.maxDepth with hopen | hdeep
  · rw [emitBody_of_open hopen]
    refine ⟨(hinner s.deeper).options, ?_⟩
    change (inner s.deeper).2.depth - 1 = s.depth
    rw [(hinner s.deeper).depth]
    exact Nat.add_sub_cancel s.depth 1
  · rw [emitBody_of_deep hdeep]
    exact .refl s

theorem proceed_sameLevel {α β : Type} {s : Session} {x : Except CompileError α × Session}
    {f : α → Emit β} (hx : s.SameLevel x.2) (hf : ∀ a (t : Session), t.SameLevel (f a t).2) :
    s.SameLevel (proceed x f).2 := by
  rcases x with ⟨_ | a, t⟩
  · exact hx
  · exact hx.trans (hf a t)

theorem emitBlock_sameLevel {children : List Block}
    (hbody : ∀ s : Session, s.SameLevel (emitBlocks children s).2) (id : Option String)
    (kind : Kind) (data : Fields) (s : Session) :
    s.SameLevel (emitBlock ⟨id, kind, data, children⟩ s).2 := by
  cases hopens : opensBody kind data with
  | false =>
      rw [emitBlock_of_plain hopens, emitPlain_snd]
      exact .after s _ _
  | true =>
      rw [emitBlock_of_opens hopens]
      exact emitBody_sameLevel _ hbody s

/-- A run over blocks ends on the level on which it began, whether it fails or not. -/
theorem emitBlocks_sameLevel (bs : List Block) (s : Session) :
    s.SameLevel (emitBlocks bs s).2 := by
  induction bs using Block.forest_induction generalizing s with
  | nil =>
      rw [emitBlocks]
      exact .refl s
  | cons id kind data children bs ihChildren ih =>
      rw [emitBlocks_cons]
      refine proceed_sameLevel (emitBlock_sameLevel ihChildren id kind data s) fun stmts t => ?_
      exact proceed_sameLevel (ih t) fun rest u => .refl u

end BlockBot
