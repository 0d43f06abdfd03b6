import BlockBot.Proofs.Steps

/-!
# Levels in the course of a run

A run over blocks shows its session only at the end. `watchBlocks` is the same run with its moments
written down: each time that a body is opened, a block without a body is emitted or a body is
closed, the session is kept as it stands before. From one moment to the next a session changes by
what is done and by nothing else (`Course`), so that what holds of all moments holds throughout the
run, also where it fails in the middle of several bodies.
-/

namespace BlockBot

open BlockBot.Json BlockBot.Code

/-- What is done to a session at a moment of a run. A body that is nested too deep is asked for but
not opened. -/
inductive Deed where
  | enter
  | plain
  | leave
  deriving DecidableEq

/-- A moment of a run, with the session before what is done. -/
structure Moment where
  deed : Deed
  session : Session

/-- A step of a compilation with its moments. -/
abbrev Watch (α : Type) := Session → (Except CompileError α × Session) × List Moment

/-- Emits the body of a block as `emitBody` does. -/
def watchBody (label : String) (inner : Watch (List Stmt)) : Watch (List Stmt) := fun s =>
  match s.enter label with
  | .error e => ((.error e, s), [⟨.enter, s⟩])
  | .ok t =>
    let ((result, u), moments) := inner t
    ((result, u.leave), ⟨.enter, s⟩ :: moments ++ [⟨.leave, u⟩])

mutual

/-- Emits a block as `emitBlock` does. -/
def watchBlock : Block → Watch (List Stmt)
  | ⟨id, kind, data, children⟩, s =>
    let label := (Block.mk id kind data children).label
    if opensBody kind data then
      let ((result, t), moments) := watchBody label (watchBlocks children) s
      ((result.map (wrapBody data), t), moments)
    else
      let (stmts, t) := emitPlain label kind data s
      ((.ok stmts, t), [⟨.plain, s⟩])

/-- Emits blocks as `emitBlocks` does. -/
def watchBlocks : List Block → Watch (List Stmt)
  | [], s => ((.ok [], s), [])
  | b :: bs, s =>
    match watchBlock b s with
    | ((.error e, t), moments) => ((.error e, t), moments)
    | ((.ok first, t), moments) =>
      let ((result, u), others) := watchBlocks bs t
      ((result.map (first ++ ·), u), moments ++ others)

end

/-! ## The same run -/

theorem watchBody_run (label : String) {inner : Watch (List Stmt)} {inner' : Emit (List Stmt)}
    (h : ∀ s, (inner s).1 = inner' s) (s : Session) :
    (watchBody label inner s).1 = emitBody label inner' s := by
  unfold watchBody emitBody
  cases s.enter label with
  | error e => rfl
  | ok t =>
      show ((inner t).1.1, (inner t).1.2.leave) = ((inner' t).1, (inner' t).2.leave)
      rw [h t]

theorem watchBlock_run {children : List Block}
    (h : ∀ s, (watchBlocks children s).1 = emitBlocks children s) (id : Option String) (kind : Kind)
    (data : Fields) (s : Session) :
    (watchBlock ⟨id, kind, data, children⟩ s).1 = emitBlock ⟨id, kind, data, children⟩ s := by
  rw [watchBlock]
  cases hopens : opensBody kind data with
  | false =>
      rw [emitBlock_of_plain hopens]
      rfl
  | true =>
      rw [emitBlock_of_opens hopens, ← watchBody_run _ h]
      rfl

/-- Writing down the moments changes nothing about a run. -/
theorem watchBlocks_run (bs : List Block) (s : Session) :
    (watchBlocks bs s).1 = emitBlocks bs s := by
  induction bs using Block.forest_induction generalizing s with
  | nil =>
      rw [watchBlocks, emitBlocks]
  | cons id kind data children bs ihChildren ih =>
      rw [watchBlocks, emitBlocks_cons, ← watchBlock_run ihChildren]
      rcases watchBlock ⟨id, kind, data, children⟩ s with ⟨⟨_ | first, t⟩, moments⟩
      · rfl
      · simp only [proceed, ← ih t]
        rcases watchBlocks bs t with ⟨⟨_ | rest, u⟩, others⟩
        · rfl
        · rfl

/-! ## From moment to moment -/

/-- What is done at a moment leads to the session `t`. -/
def Moment.Leads (m : Moment) (t : Session) : Prop :=
  match m.deed with
  | .enter =>
    ∃ label, m.session.enter label = .ok t ∨ t = m.session ∧ ∃ e, m.session.enter label = .error e
  | .plain => ∃ label kind data, t = (emitPlain label kind data m.session).2
  | .leave => t = m.session.leave

/-- `Course s moments t`: the moments lead from the session `s` to the session `t`, each to the one
after it. -/
inductive Course : Session → List Moment → Session → Prop
  | done {s} : Course s [] s
  | step {m moments t u} : m.Leads t → Course t moments u → Course m.session (m :: moments) u

theorem Course.append {s t u : Session} {moments others : List Moment} (h : Course s moments t)
    (h' : Course t others u) : Course s (moments ++ others) u := by
  induction h with
  | done => exact h'
  | step hleads _ ih => exact .step hleads (ih h')

theorem Course.single {s t : Session} {deed : Deed} (h : Moment.Leads ⟨deed, s⟩ t) :
    Course s [⟨deed, s⟩] t :=
  .step h .done

theorem watchBody_course (label : String) {inner : Watch (List Stmt)}
    (h : ∀ t, Course t (inner t).2 (inner t).1.2) (s : Session) :
    Course s (watchBody label inner s).2 (watchBody label inner s).1.2 := by
  unfold watchBody
  cases henter : s.enter label with
  | error e => exact .single ⟨label, .inr ⟨rfl, e, henter⟩⟩
  | ok t =>
      have hopen : Course s [⟨.enter, s⟩] t := .single ⟨label, .inl henter⟩
      have hclose : Course (inner t).1.2 [⟨.leave, (inner t).1.2⟩] (inner t).1.2.leave :=
        .single rfl
      exact hopen.append ((h t).append hclose)

theorem watchBlock_course {children : List Block}
    (h : ∀ t, Course t (watchBlocks children t).2 (watchBlocks children t).1.2)
    (id : Option String) (kind : Kind) (data : Fields) (s : Session) :
    Course s (watchBlock ⟨id, kind, data, children⟩ s).2
      (watchBlock ⟨id, kind, data, children⟩ s).1.2 := by
  rw [watchBlock]
  cases opensBody kind data with
  | false => exact .single ⟨_, kind, data, rfl⟩
  | true => exact watchBody_course _ h s

/-- The moments of a run lead from its start to its end. -/
theorem watchBlocks_course (bs : List Block) (s : Session) :
    Course s (watchBlocks bs s).2 (watchBlocks bs s).1.2 := by
  induction bs using Block.forest_induction generalizing s with
  | nil =>
      rw [watchBlocks]
      exact .done
  | cons id kind data children bs ihChildren ih =>
      have hfirst := watchBlock_course ihChildren id kind data s
      rw [watchBlocks]
      generalize watchBlock ⟨id, kind, data, children⟩ s = run at hfirst ⊢
      obtain ⟨⟨result, t⟩, moments⟩ := run
      cases result with
      | error e => exact hfirst
      | ok stmts => exact hfirst.append (ih t)

/-! ## Levels of the moments -/

/-- A moment of a run that began in the session `s`: on the level of `s` or deeper, and within the
limit. A body that is closed is deeper than `s`. -/
structure Moment.Within (s : Session) (m : Moment) : Prop where
  options : m.session.options = s.options
  base : s.depth ≤ m.session.depth
  limit : m.session.depth ≤ s.options.maxDepth
  leave : m.deed = .leave → s.depth < m.session.depth

/-- What is within a deeper level is within the level. -/
theorem Moment.Within.mono {s t : Session} {m : Moment} (h : m.Within t)
    (hoptions : t.options = s.options) (hdepth : s.depth ≤ t.depth) : m.Within s where
  options := h.options.trans hoptions
  base := Nat.le_trans hdepth h.base
  limit := hoptions ▸ h.limit
  leave := fun hleave => Nat.lt_of_le_of_lt hdepth (h.leave hleave)

theorem watchBody_within (label : String) {inner : Watch (List Stmt)} {s : Session}
    (hs : s.depth ≤ s.options.maxDepth) (hlevel : ∀ t : Session, t.SameLevel (inner t).1.2)
    (hinner : ∀ t : Session, t.depth ≤ t.options.maxDepth → ∀ m ∈ (inner t).2, m.Within t) :
    ∀ m ∈ (watchBody label inner s).2, m.Within s := by
  have hopen : Moment.Within s ⟨.enter, s⟩ := ⟨rfl, Nat.le_refl _, hs, fun h => by cases h⟩
  unfold watchBody Session.enter
  by_cases hdeep : s.options.maxDepth ≤ s.depth
  · simpa [hdeep] using hopen
  · simp only [hdeep, if_false]
    intro m hm
    have hbody := hlevel { s with depth := s.depth + 1 }
    have hdepth : (inner { s with depth := s.depth + 1 }).1.2.depth = s.depth + 1 := hbody.depth
    rcases List.mem_append.mp hm with hm | hm
    · rcases List.mem_cons.mp hm with rfl | hm
      · exact hopen
      · have hlimit : s.depth + 1 ≤ s.options.maxDepth := by omega
        exact (hinner _ hlimit m hm).mono rfl (Nat.le_succ _)
    · -- the body was opened on the level of `s`, so it is closed one level deeper
      obtain rfl := List.mem_singleton.mp hm
      refine ⟨hbody.options, ?_, ?_, ?_⟩
      all_goals
        simp only [hdepth]
        omega

theorem watchBlock_within {children : List Block}
    (hbody : ∀ t : Session, t.depth ≤ t.options.maxDepth →
      ∀ m ∈ (watchBlocks children t).2, m.Within t)
    (id : Option String) (kind : Kind) (data : Fields) {s : Session}
    (hs : s.depth ≤ s.options.maxDepth) :
    ∀ m ∈ (watchBlock ⟨id, kind, data, children⟩ s).2, m.Within s := by
  rw [watchBlock]
  cases hopens : opensBody kind data with
  | false =>
      intro m hm
      obtain rfl := List.mem_singleton.mp hm
      exact ⟨rfl, Nat.le_refl _, hs, fun h => by cases h⟩
  | true =>
      refine watchBody_within _ hs (fun t => ?_) hbody
      rw [watchBlocks_run]
      exact emitBlocks_sameLevel children t

/-- All moments of a run are within the level on which it began. -/
theorem watchBlocks_within (bs : List Block) {s : Session} (hs : s.depth ≤ s.options.maxDepth) :
    ∀ m ∈ (watchBlocks bs s).2, m.Within s := by
  induction bs using Block.forest_induction generalizing s with
  | nil => simp [watchBlocks]
  | cons id kind data children bs ihChildren ih =>
      have hfirst := watchBlock_within (fun t ht => ihChildren ht) id kind data hs
      have hlevel : s.SameLevel (watchBlock ⟨id, kind, data, children⟩ s).1.2 := by
        rw [watchBlock_run (watchBlocks_run children)]
        exact emitBlock_sameLevel (emitBlocks_sameLevel children) id kind data s
      rw [watchBlocks]
      generalize watchBlock ⟨id, kind, data, children⟩ s = run at hfirst hlevel ⊢
      obtain ⟨⟨result, t⟩, moments⟩ := run
      cases result with
      | error e => exact hfirst
      | ok stmts =>
          intro m hm
          rcases List.mem_append.mp hm with hm | hm
          · exact hfirst m hm
          · have ht : t.depth ≤ t.options.maxDepth := by
              rw [hlevel.depth, hlevel.options]
              exact hs
            exact (ih ht m hm).mono hlevel.options (Nat.le_of_eq hlevel.depth.symm)

/-- Levels are kept in balance on every path through a run, whatever the blocks are and wherever it
fails. The run ends on the level on which it began. At no moment of it is the session deeper than
the limit, and a body is closed only where one is open, so that the level below is always there to
go back to. -/
theorem emitBlocks_balanced (bs : List Block) {s : Session} (hs : s.depth ≤ s.options.maxDepth) :
    (emitBlocks bs s).2.depth = s.depth ∧
      (watchBlocks bs s).1 = emitBlocks bs s ∧ Course s (watchBlocks bs s).2 (emitBlocks bs s).2 ∧
      ∀ m ∈ (watchBlocks bs s).2,
        m.session.options = s.options ∧ m.session.depth ≤ s.options.maxDepth ∧
          (m.deed = .leave → 0 < m.session.depth ∧
            m.session.leave.depth + 1 = m.session.depth) := by
  have hrun := watchBlocks_run bs s
  refine ⟨(emitBlocks_sameLevel bs s).depth, hrun, hrun ▸ watchBlocks_course bs s, ?_⟩
  intro m hm
  have hwithin := watchBlocks_within bs hs m hm
  refine ⟨hwithin.options, hwithin.limit, ?_⟩
  intro hleave
  have hpos : 0 < m.session.depth := Nat.lt_of_le_of_lt (Nat.zero_le _) (hwithin.leave hleave)
  exact ⟨hpos, Nat.sub_add_cancel hpos⟩

/-- The branch in the second loop may not be opened where one body is open already; the loop is
closed all the same. -/
theorem emitBlocks_balanced_failing :
    let bs : List Block :=
      [⟨some "a", .control, [("controlType", .string "loop")], []⟩,
       ⟨some "b", .control, [("controlType", .string "loop")],
        [⟨some "c", .control, [("controlType", .string "if")], []⟩]⟩]
    let s : Session := { options := { maxDepth := 2 }, depth := 1 }
    s.depth ≤ s.options.maxDepth ∧ (emitBlocks bs s).1 = .error (.cyclic "c" 2) ∧
      (emitBlocks bs s).2.depth = 1 ∧
      (watchBlocks bs s).2.map Moment.deed = [.enter, .leave, .enter, .enter, .leave] ∧
      ∀ m ∈ (watchBlocks bs s).2, m.session.depth ≤ 2 ∧
        (m.deed = .leave → 0 < m.session.depth) := by
  intro bs s
  have hs : s.depth ≤ s.options.maxDepth := by decide
  obtain ⟨hdepth, -, -, hmoments⟩ := emitBlocks_balanced bs hs
  refine ⟨hs, rfl, hdepth, rfl, ?_⟩
  intro m hm
  obtain ⟨-, hlimit, hleave⟩ := hmoments m hm
  exact ⟨hlimit, fun h => (hleave h).1⟩

end BlockBot
