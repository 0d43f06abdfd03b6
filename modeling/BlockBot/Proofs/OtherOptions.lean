import BlockBot.Proofs.Routing

/-!
# Compiling under other options

Of all options, an emission reads the default texts and the limit of nesting, and routing reads the
aliases; the width of indentation and the port are for the layout alone. What was emitted under some
options is emitted under others that say the same texts and allow as much nesting
(`Options.Allows`), statement by statement, and the session is the same but for its options. Other
aliases do no harm either, if the event blocks have the same triggers by them (`Relabelled`).
-/

namespace BlockBot

open BlockBot.Json BlockBot.Code

/-- Options `o'` under which everything is emitted that is emitted under `o`. -/
structure Options.Allows (o o' : Options) : Prop where
  defaultText : o'.defaultText = o.defaultText
  placeholderImageUrl : o'.placeholderImageUrl = o.placeholderImageUrl
  maxDepth : o.maxDepth ≤ o'.maxDepth

/-- The session under other options. -/
def Session.under (s : Session) (o : Options) : Session :=
  { s with options := o }

namespace Session

variable (s : Session) (o : Options)

theorem register_under (i : Import) : (s.under o).register i = (s.register i).under o := by
  unfold register
  by_cases h : s.imports.contains i = true
  · rw [if_pos h, if_pos (show (s.under o).imports.contains i = true from h)]
  · rw [if_neg h, if_neg (show ¬ (s.under o).imports.contains i = true from h)]
    rfl

theorem after_under (label : String) (e : Effect) :
    (s.under o).after label e = (s.after label e).under o := by
  cases e with
  | register i => exact s.register_under o i
  | _ => rfl

end Session

/-! ## Blocks -/

variable {s t : Session} {o : Options}

theorem emitPlain_under (h : s.options.Allows o) (label : String) (kind : Kind) (data : Fields) :
    emitPlain label kind data (s.under o) =
      ((emitPlain label kind data s).1, (emitPlain label kind data s).2.under o) := by
  have hstmts : (emitPlain label kind data (s.under o)).1 = (emitPlain label kind data s).1 :=
    @emitPlain_fst s (s.under o) h.defaultText h.placeholderImageUrl rfl label label kind data
  refine Prod.ext hstmts ?_
  rw [emitPlain_snd, emitPlain_snd, Session.after_under]

theorem emitBlock_under (h : s.options.Allows o) {id : Option String} {kind : Kind} {data : Fields}
    {children : List Block} {stmts : List Stmt}
    (hbody : ∀ {s stmts t}, s.options.Allows o → emitBlocks children s = (.ok stmts, t) →
      emitBlocks children (s.under o) = (.ok stmts, t.under o))
    (hok : emitBlock ⟨id, kind, data, children⟩ s = (.ok stmts, t)) :
    emitBlock ⟨id, kind, data, children⟩ (s.under o) = (.ok stmts, t.under o) := by
  cases hopens : opensBody kind data with
  | false =>
      rw [emitBlock_of_plain hopens] at hok ⊢
      obtain ⟨rfl, rfl⟩ := by simpa using hok
      rw [emitPlain_under h]
  | true =>
      -- the level that was opened may be opened under the other options too
      obtain ⟨hdepth, body, u, hu, rfl, rfl⟩ := emitBlock_eq_ok_of_opens hopens hok
      have hopen : (s.under o).depth < (s.under o).options.maxDepth :=
        Nat.lt_of_lt_of_le hdepth h.maxDepth
      have hrun : emitBlocks children (s.under o).deeper = (.ok body, u.under o) :=
        hbody (s := s.deeper) h hu
      rw [emitBlock_of_opens hopens, emitBody_of_open hopen, hrun]
      rfl

theorem emitBlocks_under {bs : List Block} {stmts : List Stmt} (h : s.options.Allows o)
    (hok : emitBlocks bs s = (.ok stmts, t)) :
    emitBlocks bs (s.under o) = (.ok stmts, t.under o) := by
  induction bs using Block.forest_induction generalizing s stmts t with
  | nil =>
      rw [emitBlocks] at hok ⊢
      obtain ⟨rfl, rfl⟩ := by simpa using hok
      rfl
  | cons id kind data children bs ihChildren ih =>
      obtain ⟨first, rest, u, hfirst, hrest, rfl⟩ := emitBlocks_cons_eq_ok hok
      have hlevel := emitBlock_sameLevel (emitBlocks_sameLevel children) id kind data s
      rw [hfirst] at hlevel
      have hu : u.options.Allows o := hlevel.options ▸ h
      rw [emitBlocks_cons, emitBlock_under h ihChildren hfirst]
      simp only [proceed, ih hu hrest]

/-! ## Blocks with another event type -/

/-- A root block that stands for another under other options: at most the event type differs, and
only if both have the same trigger. -/
structure Relabelled (o o' : Options) (b b' : Block) : Prop where
  same : b' = b ∨ ∃ tag, b.kind = .event ∧ b' = b.withText "eventType" tag
  trigger : b.kind = .event → Routing.triggerOf? o' b' = Routing.triggerOf? o b

namespace Relabelled

variable {o o' : Options} {b b' : Block}

theorem refl (h : o'.eventAliases = o.eventAliases) (b : Block) : Relabelled o o' b b where
  same := .inl rfl
  trigger _ := by
    unfold Routing.triggerOf? Options.trigger?
    rw [h]

theorem kind (h : Relabelled o o' b b') : b'.kind = b.kind := by
  rcases h.same with rfl | ⟨tag, -, rfl⟩ <;> rfl

theorem label (h : Relabelled o o' b b') : b'.label = b.label := by
  rcases h.same with rfl | ⟨tag, -, rfl⟩ <;> rfl

theorem eq_of_action (h : Relabelled o o' b b') (hkind : b.kind ≠ .event) : b' = b := by
  rcases h.same with rfl | ⟨tag, hevent, -⟩
  · rfl
  · exact absurd hevent hkind

theorem sameAt (h : Relabelled o o' b b') {key : String} (hkey : "eventType" ≠ key) :
    Fields.SameAt key b'.data b.data := by
  rcases h.same with rfl | ⟨tag, -, rfl⟩
  · rfl
  · exact Block.sameAt_withData hkey _

/-- The guard of a handler is made of other fields. -/
theorem guardOf (h : Relabelled o o' b b') (trigger : Trigger) (s : Session) :
    Handler.guardOf trigger b'.data s = Handler.guardOf trigger b.data s := by
  have hpattern : Handler.pattern? b'.data = Handler.pattern? b.data := by
    unfold Handler.pattern?
    rw [(h.sameAt (by decide)).text?, (h.sameAt (by decide)).text?, (h.sameAt (by decide)).flag?]
  have hpayload : Handler.payload? b'.data = Handler.payload? b.data := by
    unfold Handler.payload?
    rw [(h.sameAt (by decide)).text?, (h.sameAt (by decide)).text?]
  cases trigger with
  | messageText => simp only [Handler.guardOf, hpattern]
  | postback => simp only [Handler.guardOf, hpayload]
  | _ => rfl

end Relabelled

/-! ## Programs -/

theorem Handler.guardOf_under (trigger : Trigger) (data : Fields) (s : Session) (o : Options) :
    Handler.guardOf trigger data (s.under o) =
      ((Handler.guardOf trigger data s).1, (Handler.guardOf trigger data s).2.under o) := by
  rw [guardOf_eq trigger data s "", guardOf_eq trigger data (s.under o) "", Session.after_under]

/-- The state of routing under other options. -/
def Routing.under (r : Routing) (o : Options) : Routing :=
  { r with session := r.session.under o }

/-- Routing takes a block under its options as it takes another under others. -/
theorem Routing.add_relabelled {r : Routing} {b b' : Block}
    (h : Relabelled r.session.options o b b') : (r.under o).add b' = (r.add b).under o := by
  unfold add
  rw [h.kind]
  cases hkind : b.kind with
  | event =>
      rw [show (r.under o).session.options = o from rfl, h.trigger hkind]
      cases triggerOf? r.session.options b with
      | none => simp only [h.label]; rfl
      | some trigger =>
          simp only [openHandler, Routing.under, h.guardOf, Handler.guardOf_under]
  | unknown name => simp only [h.label]; rfl
  | reply | control | setting =>
      obtain rfl := h.eq_of_action (by simp [hkind])
      obtain ⟨handlers, isOpen, session⟩ := r
      cases handlers with
      | nil => rfl
      | cons last handlers => cases isOpen <;> rfl

theorem Routing.foldl_relabelled {f : Block → Block} (bs : List Block) {r : Routing}
    (h : ∀ b, Relabelled r.session.options o b (f b)) :
    (bs.map f).foldl Routing.add (r.under o) = (bs.foldl Routing.add r).under o := by
  induction bs generalizing r with
  | nil => rfl
  | cons b bs ih =>
      rw [List.map_cons, List.foldl_cons, List.foldl_cons, Routing.add_relabelled (h b)]
      exact ih fun c => (r.add_sameLevel b).options ▸ h c

theorem route_relabelled {f : Block → Block} (h : ∀ b, Relabelled s.options o b (f b))
    (bs : List Block) :
    route (bs.map f) (s.under o) = ((route bs s).1, (route bs s).2.under o) := by
  have hend := Routing.foldl_relabelled bs (r := { session := s }) h
  unfold route
  rw [show Routing.mk [] false (s.under o) = Routing.under { session := s } o from rfl, hend]
  rfl

/-- The handlers of a program depend on the aliases alone. -/
theorem route_new (o o' : Options) (h : o'.eventAliases = o.eventAliases) (bs : List Block) :
    (route bs (.new o')).1 = (route bs (.new o)).1 := by
  have hroute := route_relabelled (s := .new o) (Relabelled.refl h) bs
  rw [List.map_id'] at hroute
  change (route bs ((Session.new o).under o')).1 = _
  rw [hroute]

theorem emitHandlers_under {handlers : List Handler} {emitted : List (Handler × List Stmt)}
    (h : s.options.Allows o) (hok : emitHandlers handlers s = (.ok emitted, t)) :
    emitHandlers handlers (s.under o) = (.ok emitted, t.under o) := by
  induction handlers generalizing s emitted with
  | nil =>
      obtain ⟨rfl, rfl⟩ := by simpa [emitHandlers] using hok
      rfl
  | cons handler handlers ih =>
      obtain ⟨stmts, rest, u, hstmts, hrest, rfl⟩ := emitHandlers_cons_eq_ok hok
      have hlevel := emitBlocks_sameLevel handler.actions
        (s.note (.emitting handler.functionName handler.actions.length))
      rw [hstmts] at hlevel
      have hu : u.options.Allows o := hlevel.options ▸ h
      have hrun : emitBlocks handler.actions
          ((s.under o).note (.emitting handler.functionName handler.actions.length)) =
            (.ok stmts, u.under o) := emitBlocks_under (by exact h) hstmts
      rw [emitHandlers_cons, hrun]
      simp only [proceed, ih hu hrest]

/-- Under other options a program is laid out anew from what was emitted. -/
theorem compile_relabelled_of_ok {o o' : Options} {f : Block → Block} {bs : List Block}
    {emitted : List (Handler × List Stmt)} {s : Session} (hallows : o.Allows o')
    (h : ∀ b, Relabelled o o' b (f b)) (hok : emitProgram bs (.new o) = (.ok emitted, s)) :
    compile o' (bs.map f) = .ok (assemble o' s.statements (sectionsOf o' emitted)) := by
  refine compile_eq_ok.mpr ⟨emitted, s.under o', ?_, rfl⟩
  unfold emitProgram at hok ⊢
  rw [show Session.new o' = (Session.new o).under o' from rfl, route_relabelled h, List.length_map]
  exact emitHandlers_under ((route_sameLevel bs (.new o)).options.symm ▸ hallows) hok

theorem compile_under {o o' : Options} {bs : List Block} {emitted : List (Handler × List Stmt)}
    {s : Session} (hallows : o.Allows o') (haliases : o'.eventAliases = o.eventAliases)
    (hok : emitProgram bs (.new o) = (.ok emitted, s)) :
    compile o' bs = .ok (assemble o' s.statements (sectionsOf o' emitted)) := by
  have hcompile := compile_relabelled_of_ok hallows (Relabelled.refl haliases) hok
  rwa [List.map_id'] at hcompile

end BlockBot
