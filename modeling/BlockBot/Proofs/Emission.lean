import BlockBot.Proofs.Routing

/-!
# What a successful emission does

`Emits` is the relation between blocks and the statements that they become, with one case for each
thing that can happen to a block: it is skipped, it says one line (`Says`), or it opens a body.
Emitting blocks succeeds only where the relation holds (`emitBlocks_emits`), so facts about emitted
code are proved by induction on it. The same is said of the handlers of a program and of the program
itself.
-/

namespace BlockBot

open BlockBot.Json BlockBot.Code

/-- `Says b s text t`: the block `b` is a reply, a setting or a wait of a known sub-type, and
emitting it takes the session from `s` to `t` and gives the line `text`. -/
inductive Says : Block → Session → String → Session → Prop
  | reply {id data children kind s} : replyKind? data = some kind →
      Says ⟨id, .reply, data, children⟩ s
        ("reply_messages.append(" ++ replyMessage kind data s.options ++ ")")
        (kind.import?.elim s s.register)
  | setVariable {id data children s} : settingKind? data = some .setVariable →
      Says ⟨id, .setting, data, children⟩ s (setLine data)
        (if takesMessage data then s else s.record (variableName data) (assignedValue data))
  | getVariable {id data children s} : settingKind? data = some .getVariable →
      Says ⟨id, .setting, data, children⟩ s (getLine data (fallback? data s)) s
  | saveUserData {id data children s} : settingKind? data = some .saveUserData →
      Says ⟨id, .setting, data, children⟩ s (saveLine data) s
  | wait {id data children s} : controlKind? data = some .wait →
      Says ⟨id, .control, data, children⟩ s (waitLine data) (s.register .time)

/-- `Emits bs s stmts t`: emitting the blocks `bs`, in their order, takes the session from `s` to
`t` and gives the statements `stmts`. -/
inductive Emits : List Block → Session → List Stmt → Session → Prop
  | done {s} : Emits [] s [] s
  | skipped {b bs s notice stmts t} : isIdle b.kind b.data = true →
      Emits bs (s.note notice) stmts t → Emits (b :: bs) s stmts t
  | line {b bs s text u stmts t} : Says b s text u → Emits bs u stmts t →
      Emits (b :: bs) s (.line text :: stmts) t
  | branch {id data children bs s body u stmts t} : controlKind? data = some .branch →
      s.depth < s.options.maxDepth → Emits children s.deeper body u → Emits bs u.leave stmts t →
      Emits (⟨id, .control, data, children⟩ :: bs) s
        (.branch (branchCondition data) body :: stmts) t
  | loop {id data children bs s body u stmts t} : controlKind? data = some .loop →
      s.depth < s.options.maxDepth → Emits children s.deeper body u → Emits bs u.leave stmts t →
      Emits (⟨id, .control, data, children⟩ :: bs) s (.loop (loopCount data) body :: stmts) t

/-! ## Successful emissions -/

section

variable {kind : Kind} {data : Fields}

/-- A block without a body that is not skipped says one line. -/
theorem says_emitPlain (hplain : opensBody kind data = false) (hidle : isIdle kind data = false)
    (id : Option String) (children : List Block) (label : String) (s : Session) :
    ∃ text, (emitPlain label kind data s).1 = [.line text] ∧
      Says ⟨id, kind, data, children⟩ s text (emitPlain label kind data s).2 := by
  cases kind with
  | reply =>
      cases hkind : replyKind? data with
      | none => simp [isIdle, hkind] at hidle
      | some kind =>
          -- the options are those from before the request for an import
          refine ⟨"reply_messages.append(" ++ replyMessage kind data s.options ++ ")", ?_⟩
          have hsays : Says ⟨id, .reply, data, children⟩ s _ _ := .reply hkind
          unfold emitPlain emitReply
          cases himport : kind.import? with
          | none => simpa [hkind, himport] using hsays
          | some i => simpa [hkind, himport, Session.options_register] using hsays
  | setting =>
      unfold emitPlain emitSetting
      cases hkind : settingKind? data with
      | none => simp [isIdle, hkind] at hidle
      | some kind =>
          cases kind with
          | setVariable => exact ⟨_, rfl, .setVariable hkind⟩
          | getVariable => exact ⟨_, rfl, .getVariable hkind⟩
          | saveUserData => exact ⟨_, rfl, .saveUserData hkind⟩
  | control =>
      unfold emitPlain
      rw [opensBody_eq] at hplain
      cases hkind : controlKind? data with
      | none => simp [isIdle, hkind] at hidle
      | some kind =>
          cases kind with
          | wait => exact ⟨_, rfl, .wait hkind⟩
          | branch => simp [hkind] at hplain
          | loop => simp [hkind] at hplain
  | event => simp [isIdle] at hidle
  | unknown name => simp [isIdle] at hidle

/-- A block with a body in front of others. -/
theorem Emits.opened {id : Option String} {children bs : List Block} {s u t : Session}
    {body rest : List Stmt} (hopens : opensBody kind data = true)
    (hdepth : s.depth < s.options.maxDepth) (hbody : Emits children s.deeper body u)
    (hrest : Emits bs u.leave rest t) :
    Emits (⟨id, kind, data, children⟩ :: bs) s (wrapBody data body ++ rest) t := by
  obtain ⟨rfl, hkind | hkind⟩ := opensBody_iff.mp hopens
  · simpa [wrapBody, hkind] using Emits.branch hkind hdepth hbody hrest
  · simpa [wrapBody, hkind] using Emits.loop hkind hdepth hbody hrest

/-- One block in front of others, given what its body emits. -/
theorem emitBlock_emits {id : Option String} {children bs : List Block} {s u t : Session}
    {stmts rest : List Stmt}
    (hbody : ∀ {s stmts t}, emitBlocks children s = (.ok stmts, t) → Emits children s stmts t)
    (h : emitBlock ⟨id, kind, data, children⟩ s = (.ok stmts, u)) (hrest : Emits bs u rest t) :
    Emits (⟨id, kind, data, children⟩ :: bs) s (stmts ++ rest) t := by
  cases hopens : opensBody kind data with
  | true =>
      obtain ⟨hdepth, body, v, hv, rfl, rfl⟩ := emitBlock_eq_ok_of_opens hopens h
      exact .opened hopens hdepth (hbody hv) hrest
  | false =>
      rw [emitBlock_of_plain hopens] at h
      obtain ⟨rfl, rfl⟩ := by simpa using h
      cases hidle : isIdle kind data with
      | true =>
          obtain ⟨notice, hnotice⟩ :=
            emitPlain_of_isIdle hidle (Block.mk id kind data children).label s
          rw [hnotice] at hrest ⊢
          exact .skipped hidle hrest
      | false =>
          obtain ⟨text, htext, hsays⟩ := says_emitPlain hopens hidle id children
            (Block.mk id kind data children).label s
          rw [htext]
          exact .line hsays hrest

end

theorem emitBlocks_emits {bs : List Block} {s t : Session} {stmts : List Stmt}
    (h : emitBlocks bs s = (.ok stmts, t)) : Emits bs s stmts t := by
  induction bs using Block.forest_induction generalizing s stmts t with
  | nil =>
      rw [emitBlocks] at h
      obtain ⟨rfl, rfl⟩ := by simpa using h
      exact .done
  | cons id kind data children bs ihChildren ih =>
      obtain ⟨first, rest, u, hfirst, hrest, rfl⟩ := emitBlocks_cons_eq_ok h
      exact emitBlock_emits ihChildren hfirst (ih hrest)

/-! ## Programs -/

/-- The handlers are emitted one after the other, all of them under the same options. -/
theorem emitHandlers_emits {handlers : List Handler} {s t : Session}
    {emitted : List (Handler × List Stmt)} (h : emitHandlers handlers s = (.ok emitted, t)) :
    emitted.map Prod.fst = handlers ∧
      ∀ p ∈ emitted, ∃ u v, u.options = s.options ∧ Emits p.1.actions u p.2 v := by
  induction handlers generalizing s emitted with
  | nil =>
      obtain ⟨rfl, rfl⟩ := by simpa [emitHandlers] using h
      simp
  | cons handler handlers ih =>
      obtain ⟨stmts, rest, u, hstmts, hrest, rfl⟩ := emitHandlers_cons_eq_ok h
      have hlevel := emitBlocks_sameLevel handler.actions
        (s.note (.emitting handler.functionName handler.actions.length))
      rw [hstmts] at hlevel
      obtain ⟨hhandlers, hothers⟩ := ih hrest
      refine ⟨by rw [List.map_cons, hhandlers], ?_⟩
      intro p hp
      rcases List.mem_cons.mp hp with rfl | hp
      · exact ⟨s.note _, u, rfl, emitBlocks_emits hstmts⟩
      · obtain ⟨a, b, hoptions, hactions⟩ := hothers p hp
        exact ⟨a, b, hoptions.trans hlevel.options, hactions⟩

/-- The handlers of a program are those that were routed, and they are emitted under its options. -/
theorem emitProgram_emits {options : Options} {bs : List Block} {s : Session}
    {emitted : List (Handler × List Stmt)}
    (h : emitProgram bs (.new options) = (.ok emitted, s)) :
    emitted.map Prod.fst = (route bs (.new options)).1 ∧
      ∀ p ∈ emitted, ∃ u v, u.options = options ∧ Emits p.1.actions u p.2 v := by
  obtain ⟨hhandlers, hactions⟩ := emitHandlers_emits h
  refine ⟨hhandlers, fun p hp => ?_⟩
  obtain ⟨u, v, hoptions, hemits⟩ := hactions p hp
  exact ⟨u, v, hoptions.trans (route_sameLevel bs (.new options)).options, hemits⟩

end BlockBot
