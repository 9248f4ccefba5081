import MarkdownEdits.Proofs.TokenDepths

/-!
# Runs over well-nested streams

Inline content leaves the blocks around it alone, and a well-nested stream is taken without failing:
its items stand in lists.
-/
namespace MarkdownEdits
namespace Draft

/-- The tokens are taken, and as many lists are open behind them as before. -/
def Accepts (d : Draft) (tokens : List Token) : Prop :=
  ∃ final, d.steps tokens = .ok final ∧ final.lists = d.lists

theorem Accepts.nil (d : Draft) : d.Accepts [] := ⟨d, steps_nil d, rfl⟩

theorem Accepts.append {d : Draft} {xs ys : List Token} (hx : d.Accepts xs)
    (hy : ∀ e : Draft, e.lists = d.lists → e.Accepts ys) : d.Accepts (xs ++ ys) := by
  obtain ⟨e, he, helists⟩ := hx
  obtain ⟨final, hfinal, hlists⟩ := hy e helists
  exact ⟨final, steps_append_eq_ok.mpr ⟨e, he, hfinal⟩, hlists.trans helists⟩

theorem Accepts.cons {d next : Draft} {t : Token} {rest : List Token} (ht : d.step t = .ok next)
    (hlists : next.lists = d.lists) (hrest : next.Accepts rest) : d.Accepts (t :: rest) := by
  obtain ⟨final, hfinal, hsame⟩ := hrest
  exact ⟨final, steps_cons_eq_ok.mpr ⟨next, ht, hfinal⟩, hsame.trans hlists⟩

/-- A token that opens and closes no list is taken with the lists as they are. -/
theorem Accepts.cons_flat {d next : Draft} {t : Token} {rest : List Token} (ht : t.IsAtom)
    (hflat : t.IsFlat) (hs : d.step t = .ok next) (hrest : next.Accepts rest) :
    d.Accepts (t :: rest) := by
  refine .cons hs ?_ hrest
  have hlists := lists_step ht hs
  cases t with
  | openList kind => exact absurd (hflat.1 []) (List.cons_ne_nil _ _)
  | closeList kind => exact absurd (hflat.1 [kind]) (List.cons_ne_nil _ _).symm
  | _ => exact hlists

/-! ## Inline content -/

theorem exists_step_of_isInline {t : Token} (ht : t.IsInline) (d : Draft) :
    ∃ next, d.step t = .ok next ∧ next.blockState = d.blockState := by
  cases t with
  | text content => exact ⟨_, rfl, d.blockState_insertLeaf content⟩
  | codeSpan content => exact ⟨_, rfl, d.blockState_insertCode content⟩
  | openMark mark => exact ⟨_, rfl, rfl⟩
  | closeMark mark => exact ⟨_, rfl, rfl⟩
  | openLink target => exact ⟨_, rfl, d.blockState_openLink target⟩
  | closeLink => exact ⟨_, rfl, rfl⟩
  | softBreak => exact ⟨_, rfl, rfl⟩
  | hardBreak => exact ⟨_, rfl, rfl⟩
  | skipped type children => exact ⟨d, rfl, rfl⟩
  | _ => exact ht.elim

theorem exists_steps_of_isInline {children : List Token} (h : ∀ t ∈ children, t.IsInline)
    (d : Draft) : ∃ final, d.steps children = .ok final ∧ final.blockState = d.blockState := by
  induction children generalizing d with
  | nil => exact ⟨d, steps_nil d, rfl⟩
  | cons t rest ih =>
    obtain ⟨ht, hrest⟩ := List.forall_mem_cons.mp h
    obtain ⟨next, hnext, hblocks⟩ := exists_step_of_isInline ht d
    obtain ⟨final, hfinal, hsame⟩ := ih hrest next
    exact ⟨final, steps_cons_eq_ok.mpr ⟨next, hnext, hfinal⟩, hsame.trans hblocks⟩

/-- The content of a block is one token. -/
theorem exists_step_inline {linked : Bool} {children : List Token}
    (h : Token.WellMarked linked children) (d : Draft) :
    ∃ next, d.step (.inline children) = .ok next ∧ next.blockState = d.blockState := by
  obtain ⟨next, hnext, hblocks⟩ := exists_steps_of_isInline h.isInline d
  exact ⟨next, by rw [step]; exact hnext, hblocks⟩

theorem Accepts.cons_inline {d : Draft} {linked : Bool} {children rest : List Token}
    (h : Token.WellMarked linked children)
    (hrest : ∀ e : Draft, e.lists = d.lists → e.Accepts rest) :
    d.Accepts (.inline children :: rest) := by
  obtain ⟨next, hnext, hblocks⟩ := exists_step_inline h d
  have hlists := congrArg BlockState.lists hblocks
  exact .cons hnext hlists (hrest next hlists)

/-! ## Blocks -/

theorem accepts_of_tableRows {rows : List Token} (h : Token.TableRows rows) (d : Draft) :
    d.Accepts rows := by
  induction h generalizing d with
  | nil => exact .nil d
  | markup type _ ih => exact .cons rfl rfl (ih d)
  | cell hchildren _ ih => exact .cons_inline hchildren fun e _ => ih e

theorem exists_openItem {d : Draft} (h : d.lists ≠ []) : ∃ opened, d.openItem = .ok opened := by
  rw [openItem.eq_def]
  cases hlists : d.lists with
  | nil => exact absurd hlists h
  | cons list outer => exact ⟨_, rfl⟩

/-- Blocks are taken anywhere, and items in a list. -/
theorem accepts_of_wellNested {siblings : Token.Siblings} {tokens : List Token}
    (h : Token.WellNested siblings tokens) (d : Draft)
    (hlist : siblings = .items → d.lists ≠ []) : d.Accepts tokens := by
  induction h generalizing d with
  | nil => exact .nil d
  | heading level hchildren _ ih =>
    refine .cons_flat trivial ⟨fun _ => rfl, fun _ => rfl⟩ rfl (.cons_inline hchildren ?_)
    exact fun e _ => .cons_flat trivial ⟨fun _ => rfl, fun _ => rfl⟩ rfl (ih _ nofun)
  | paragraph hchildren _ ih =>
    refine .cons_flat trivial ⟨fun _ => rfl, fun _ => rfl⟩ rfl (.cons_inline hchildren ?_)
    exact fun e _ => .cons_flat trivial ⟨fun _ => rfl, fun _ => rfl⟩ rfl (ih _ nofun)
  | rule _ ih => exact .cons_flat trivial ⟨fun _ => rfl, fun _ => rfl⟩ rfl (ih _ nofun)
  | codeBlock content info _ ih =>
    exact .cons_flat trivial ⟨fun _ => rfl, fun _ => rfl⟩ rfl (ih _ nofun)
  | markup _ _ ih => exact .cons rfl rfl (ih d nofun)
  | quote _ _ ihbody ihrest =>
    exact .cons rfl rfl ((ihbody d nofun).append fun e _ => .cons rfl rfl (ihrest e nofun))
  | table hrows _ ih =>
    exact .cons rfl rfl
      ((accepts_of_tableRows hrows d).append fun e _ => .cons rfl rfl (ih e nofun))
  | list kind _ _ ihbody ihrest =>
    -- The list's items run with the list open, which the close takes away again.
    obtain ⟨e, he, hopen⟩ := ihbody (d.openList kind) fun _ => List.cons_ne_nil _ _
    have hclosed : e.closeList.lists = d.lists := by
      rw [lists_step (d := e) (t := .closeList kind) trivial rfl, hopen]
      rfl
    obtain ⟨final, hfinal, hlists⟩ := ihrest e.closeList nofun
    have hrest : e.steps (.closeList kind :: _) = .ok final :=
      steps_cons_eq_ok.mpr ⟨e.closeList, rfl, hfinal⟩
    refine ⟨final, ?_, hlists.trans hclosed⟩
    rw [List.cons_append, steps_cons_eq_ok]
    exact ⟨d.openList kind, rfl, steps_append_eq_ok.mpr ⟨e, he, hrest⟩⟩
  | item _ _ ihbody ihrest =>
    obtain ⟨opened, hopened⟩ := exists_openItem (hlist rfl)
    have hlists := congrArg BlockState.lists (blockState_openItem hopened)
    refine .cons hopened hlists ((ihbody opened nofun).append fun e he => ?_)
    have hclosed := congrArg BlockState.lists e.blockState_closeItem
    refine .cons rfl hclosed (ihrest _ fun _ => ?_)
    have hsame : e.closeItem.lists = d.lists := hclosed.trans (he.trans hlists)
    rw [hsame]
    exact hlist rfl

end Draft
end MarkdownEdits
