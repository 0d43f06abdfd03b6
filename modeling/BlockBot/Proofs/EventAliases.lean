import BlockBot.Proofs.NestingGuard

/-!
# Aliases only rename

The aliases are read in one place, where a root event block is given its trigger. So whatever they
do can be done to the blocks instead: put the tag that an alias leads to in place of the alias, and
compile without any aliases. Routing goes through with it, block by block
(`Routing.add_relabelled`), and what is emitted for a handler does not depend on the aliases.
-/

namespace BlockBot

open BlockBot.Json BlockBot.Code

/-! ## Other aliases -/

namespace Options

/-- Other options with these aliases. -/
def withAliases (o : Options) (aliases : Entries String) : Options :=
  { o with eventAliases := aliases }

/-- Whether a name is the tag of a trigger. -/
def isTrigger (name : String) : Bool :=
  (ofTag? name : Option Trigger).isSome

/-- The tag that a name is an alias for: the name is no tag itself, and the table has a tag for
it. -/
def aliasFor? (o : Options) (name : String) : Option String :=
  if isTrigger name then none else (Entries.get? name o.eventAliases).filter isTrigger

/-- A name is known by its own tag or by the one that it is an alias for. -/
theorem trigger?_eq_ofTag? (o : Options) (name : String) :
    o.trigger? name = ofTag? ((o.aliasFor? name).getD name) := by
  unfold trigger? aliasFor? isTrigger
  cases hname : (ofTag? name : Option Trigger) with
  | some t => simp [hname]
  | none =>
      cases halias : Entries.get? name o.eventAliases with
      | none => simp [hname]
      | some tag =>
          cases htag : (ofTag? tag : Option Trigger) with
          | some t => simp [Option.filter, htag]
          | none => simp [Option.filter, htag, hname]

theorem trigger?_of_tag {o : Options} {name : String} {t : Trigger} (h : ofTag? name = some t) :
    o.trigger? name = some t := by
  rw [trigger?, h]

/-- Two tables that have no tag for a name, or the same. -/
theorem trigger?_congr {o : Options} {aliases aliases' : Entries String} {name : String}
    (h : (Entries.get? name aliases').bind ofTag? =
      (Entries.get? name aliases).bind (ofTag? : String → Option Trigger)) :
    (o.withAliases aliases').trigger? name = (o.withAliases aliases).trigger? name := by
  unfold trigger? withAliases
  rw [h]

theorem trigger?_withAliases_nil (o : Options) (name : String) :
    (o.withAliases []).trigger? name = ofTag? name := by
  unfold trigger?
  cases hname : (ofTag? name : Option Trigger) with
  | some t => rfl
  | none => rfl

end Options

/-! ## Programs -/

/-- Blocks that stand for others under other aliases compile to the same, or fail alike. -/
theorem compile_relabelled (o : Options) (aliases : Entries String) {f : Block → Block}
    (h : ∀ b, Relabelled o (o.withAliases aliases) b (f b)) (bs : List Block) :
    compile (o.withAliases aliases) (bs.map f) = compile o bs := by
  cases hrun : compile o bs with
  | ok program =>
      obtain ⟨emitted, s, hemitted, rfl⟩ := compile_eq_ok.mp hrun
      have hallows : o.Allows (o.withAliases aliases) := ⟨rfl, rfl, Nat.le_refl _⟩
      exact compile_relabelled_of_ok hallows h hemitted
  | error e =>
      -- a failure is told by the branches and loops of the handlers, which are the same
      have hopeners : programOpeners (o.withAliases aliases) (bs.map f) = programOpeners o bs := by
        have hroute := route_relabelled (s := .new o) h bs
        exact congrArg (fun routed => routed.1.flatMap fun h => Block.openers 0 h.actions) hroute
      have hguarded := compile_guarded (o.withAliases aliases) (bs.map f)
      rw [hopeners] at hguarded
      exact (hguarded.error_iff (compile_guarded o bs) e).mpr hrun

/-- Aliases matter only by the triggers that they give to names. -/
theorem compile_aliases_congr {o : Options} {aliases aliases' : Entries String}
    (h : ∀ name, (o.withAliases aliases').trigger? name = (o.withAliases aliases).trigger? name)
    (bs : List Block) :
    compile (o.withAliases aliases') bs = compile (o.withAliases aliases) bs := by
  have hsame : ∀ b, Relabelled (o.withAliases aliases) (o.withAliases aliases') b (id b) := by
    intro b
    refine ⟨.inl rfl, fun _ => ?_⟩
    simp only [id, Routing.triggerOf?, funext h]
  have hrun := compile_relabelled (o.withAliases aliases) aliases' hsame bs
  rwa [List.map_id] at hrun

/-! ## Renaming -/

/-- The block with the tag that its event type is an alias for, if it is an event block and there is
one. -/
def Block.renamed (o : Options) (b : Block) : Block :=
  if b.kind = .event then
    match (b.data.text? "eventType").bind o.aliasFor? with
    | some tag => b.withText "eventType" tag
    | none => b
  else b

theorem exists_trigger_of_aliasFor? {o : Options} {name tag : String}
    (h : o.aliasFor? name = some tag) : ∃ t : Trigger, tag = t.tag := by
  unfold Options.aliasFor? at h
  split at h
  · cases h
  · obtain ⟨t, ht⟩ := Option.isSome_iff_exists.mp (Option.filter_eq_some_iff.mp h).2
    exact ⟨t, (ofTag?_eq_some_iff.mp ht).symm⟩

theorem relabelled_renamed (o : Options) (b : Block) :
    Relabelled o (o.withAliases []) b (b.renamed o) := by
  unfold Block.renamed
  by_cases hkind : b.kind = .event
  · rw [if_pos hkind]
    cases hname : b.data.text? "eventType" with
    | none =>
        refine ⟨.inl rfl, fun _ => ?_⟩
        simp [Routing.triggerOf?, hname]
    | some name =>
        cases halias : o.aliasFor? name with
        | none =>
            refine ⟨.inl (by simp [halias]), fun _ => ?_⟩
            simp [Routing.triggerOf?, hname, halias, Options.trigger?_eq_ofTag? o,
              Options.trigger?_withAliases_nil]
        | some tag =>
            refine ⟨.inr ⟨tag, hkind, by simp [halias]⟩, fun _ => ?_⟩
            have htext : (b.withText "eventType" tag).data.text? "eventType" = some tag := by
              obtain ⟨t, rfl⟩ := exists_trigger_of_aliasFor? halias
              exact Block.text?_withTag b "eventType" t
            simp [Routing.triggerOf?, hname, halias, htext, Options.trigger?_eq_ofTag? o,
              Options.trigger?_withAliases_nil]
  · rw [if_neg hkind]
    exact ⟨.inl rfl, fun h => absurd h hkind⟩

/-- Aliases are renaming and no more: compiling with them is compiling, without any, the blocks that
have the tag in place of its alias. An alias for a tag is never looked at. An alias for anything
else than a tag is as good as none, even if the table has an alias of that name, which could lead
further. -/
theorem compile_renamed (options : Options) (bs : List Block) :
    compile options bs = compile (options.withAliases []) (bs.map (Block.renamed options)) ∧
      ∀ name tag,
        (Options.isTrigger name = true →
          compile (options.withAliases (Entries.insert name tag options.eventAliases)) bs =
            compile options bs) ∧
        (Options.isTrigger tag = false →
          compile (options.withAliases (Entries.insert name tag options.eventAliases)) bs =
            compile (options.withAliases (options.eventAliases.filter (·.1 ≠ name))) bs) := by
  refine ⟨(compile_relabelled options [] (relabelled_renamed options) bs).symm,
    fun name tag => ⟨?_, ?_⟩⟩
  · intro hname
    change _ = compile (options.withAliases options.eventAliases) bs
    refine compile_aliases_congr (fun other => ?_) bs
    by_cases hother : other = name
    · obtain ⟨t, ht⟩ := Option.isSome_iff_exists.mp hname
      rw [hother, Options.trigger?_of_tag ht, Options.trigger?_of_tag ht]
    · exact Options.trigger?_congr (by rw [Entries.get?_insert_of_ne (Ne.symm hother)])
  · intro htag
    refine compile_aliases_congr (fun other => Options.trigger?_congr ?_) bs
    rw [Entries.get?_filter_ne]
    by_cases hother : other = name
    · have hnone : (ofTag? tag : Option Trigger) = none :=
        Option.isNone_iff_eq_none.mp (Option.isSome_eq_false_iff.mp htag)
      rw [if_pos hother, hother, Entries.get?_insert_self, Option.bind_some, hnone,
        Option.bind_none]
    · rw [if_neg hother, Entries.get?_insert_of_ne (Ne.symm hother)]

theorem compile_renamed_chain :
    let event (type : String) : Block := ⟨none, .event, [("eventType", .string type)], []⟩
    let options : Options := { eventAliases := [("b", "follow")] }
    let bs := [event "a", event "b", event "follow"]
    compile options bs =
        compile (options.withAliases []) [event "a", event "follow", event "follow"] ∧
      (Options.isTrigger "follow" = true ∧
        compile (options.withAliases [("b", "follow"), ("follow", "join")]) bs =
          compile options bs) ∧
      Options.isTrigger "b" = false ∧
        compile (options.withAliases [("a", "b"), ("b", "follow")]) bs = compile options bs := by
  intro event options bs
  have h := compile_renamed options bs
  refine ⟨h.1, ⟨rfl, ?_⟩, rfl, ?_⟩
  · exact (h.2 "follow" "join").1 rfl
  · exact (h.2 "a" "b").2 rfl

end BlockBot
