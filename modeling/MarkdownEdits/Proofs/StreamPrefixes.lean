import MarkdownEdits.Proofs.BlockOrigins
import MarkdownEdits.Proofs.ItemLifetimes

/-!
# Prefixes of well-nested streams

Behind each token of a well-nested stream the open lists, the open items and the open heading are
what the next token needs: whatever is closed is open, and an item is opened in the innermost list,
which has no other item open. Outside of all lists no item is open.
-/
namespace MarkdownEdits
namespace Token

/-- No list is open behind the tokens. -/
def IsOutside (before : List Token) : Prop := openLists [] (atomsOf before) = []

/-- A token that opens, closes or makes up a block, or the content of one. -/
def IsBlockToken : Token → Prop
  | text _ | codeSpan _ | openMark _ | closeMark _ | openLink _ | closeLink | softBreak | hardBreak
  | malformed .. => False
  | inline children => ∀ t ∈ children, t.IsInline
  | _ => True

theorem TableRows.isBlockToken {rows : List Token} (h : TableRows rows) :
    ∀ t ∈ rows, t.IsBlockToken := by
  induction h with
  | nil => simp
  | markup type _ ih => exact List.forall_mem_cons.mpr ⟨trivial, ih⟩
  | cell hchildren _ ih => exact List.forall_mem_cons.mpr ⟨hchildren.isInline, ih⟩

/-- Inline content never stands for itself. -/
theorem WellNested.isBlockToken {siblings : Siblings} {tokens : List Token}
    (h : WellNested siblings tokens) : ∀ t ∈ tokens, t.IsBlockToken := by
  induction h with
  | nil => simp
  | heading level hchildren _ ih =>
    simp only [List.forall_mem_cons]
    exact ⟨trivial, hchildren.isInline, trivial, ih⟩
  | paragraph hchildren _ ih =>
    simp only [List.forall_mem_cons]
    exact ⟨trivial, hchildren.isInline, trivial, ih⟩
  | rule _ ih => exact List.forall_mem_cons.mpr ⟨trivial, ih⟩
  | codeBlock content info _ ih => exact List.forall_mem_cons.mpr ⟨trivial, ih⟩
  | markup _ _ ih => exact List.forall_mem_cons.mpr ⟨trivial, ih⟩
  | quote _ _ ihbody ihrest =>
    simp only [List.cons_append, List.forall_mem_cons, List.forall_mem_append]
    exact ⟨trivial, ihbody, trivial, ihrest⟩
  | table hrows _ ih =>
    simp only [List.cons_append, List.forall_mem_cons, List.forall_mem_append]
    exact ⟨trivial, hrows.isBlockToken, trivial, ih⟩
  | list kind _ _ ihbody ihrest =>
    simp only [List.cons_append, List.forall_mem_cons, List.forall_mem_append]
    exact ⟨trivial, ihbody, trivial, ihrest⟩
  | item _ _ ihbody ihrest =>
    simp only [List.cons_append, List.forall_mem_cons, List.forall_mem_append]
    exact ⟨trivial, ihbody, trivial, ihrest⟩

end Token

namespace Draft

/-- A token finds open what it needs. -/
def Finds (d : Draft) : Token → Prop
  | .closeHeading => d.headingLevel.isSome ∧ d.paragraphStart.isSome
  | .closeList _ => d.lists.length = d.openItems.length + 1
  | .openItem => d.lists.length = d.openItems.length + 1
  | .closeItem => d.openItems ≠ []
  | _ => True

/-- Each token of a run finds open what it needs. -/
def Fits (d : Draft) : List Token → Prop
  | [] => True
  | t :: rest => d.Finds t ∧ ∀ next, d.step t = .ok next → next.Fits rest

variable {d e final : Draft} {xs ys tokens before after children : List Token} {t : Token}

theorem Fits.append (hx : d.Fits xs) (hy : ∀ e, d.steps xs = .ok e → e.Fits ys) :
    d.Fits (xs ++ ys) := by
  induction xs generalizing d with
  | nil => exact hy d (steps_nil d)
  | cons t rest ih =>
    refine ⟨hx.1, fun next hnext => ih (hx.2 next hnext) fun e he => ?_⟩
    exact hy e (steps_cons_eq_ok.mpr ⟨next, hnext, he⟩)

theorem Fits.of_append (h : d.Fits (xs ++ ys)) (hs : d.steps xs = .ok e) : e.Fits ys := by
  induction xs generalizing d with
  | nil =>
    rw [steps_nil] at hs
    cases hs
    exact h
  | cons t rest ih =>
    obtain ⟨next, hnext, he⟩ := steps_cons_eq_ok.mp hs
    exact ih (h.2 next hnext) he

/-! ## Well-nested streams -/

/-- Of the open lists all but the innermost have an open item in front of items, and all of them in
front of blocks. -/
def Ready (d : Draft) : Token.Siblings → Prop
  | .blocks => d.lists.length = d.openItems.length
  | .items => d.lists.length = d.openItems.length + 1

variable {siblings : Token.Siblings}

theorem Ready.lists_ne_nil (h : d.Ready siblings) : siblings = .items → d.lists ≠ [] := by
  rintro rfl hnil
  rw [Ready, hnil] at h
  exact absurd h (by simp)

theorem lists_of_wellNested (h : Token.WellNested siblings tokens)
    (hlist : siblings = .items → d.lists ≠ []) (hs : d.steps tokens = .ok e) :
    e.lists = d.lists := by
  obtain ⟨final, hfinal, hlists⟩ := accepts_of_wellNested h d hlist
  rw [hs] at hfinal
  cases hfinal
  exact hlists

theorem length_openItems_of_wellNested (h : Token.WellNested siblings tokens)
    (hs : d.steps tokens = .ok e) : e.openItems.length = d.openItems.length := by
  rw [← steps_atomsOf] at hs
  rw [length_openItems_steps (Token.isAtom_of_mem_atomsOf tokens) hs, h.closes.items]

theorem Ready.steps (h : d.Ready siblings) (hnested : Token.WellNested siblings tokens)
    (hs : d.steps tokens = .ok e) : e.Ready siblings := by
  have hlists := lists_of_wellNested hnested h.lists_ne_nil hs
  have hitems := length_openItems_of_wellNested hnested hs
  cases siblings with
  | blocks => rw [Ready, hlists, hitems]; exact h
  | items => rw [Ready, hlists, hitems]; exact h

/-- Well-nested siblings leave everything ready for those behind them. -/
private theorem Fits.append_of_ready (hx : d.Fits xs) (hready : d.Ready siblings)
    (hnested : Token.WellNested siblings xs)
    (hy : ∀ e : Draft, e.Ready siblings → e.Fits ys) : d.Fits (xs ++ ys) :=
  hx.append fun e he => hy e (hready.steps hnested he)

private theorem fits_of_tableRows {rows : List Token} (h : Token.TableRows rows) (d : Draft) :
    d.Fits rows := by
  induction h generalizing d with
  | nil => exact trivial
  | markup type _ ih => exact ⟨trivial, fun next _ => ih next⟩
  | cell _ _ ih => exact ⟨trivial, fun next _ => ih next⟩

private theorem fits_heading (level : HeadingLevel) (hc : Token.WellMarked false children) :
    d.Fits [.openHeading level.tag, .inline children, .closeHeading] := by
  refine ⟨trivial, fun opened hopened => ⟨trivial, fun e he => ⟨?_, fun _ _ => trivial⟩⟩⟩
  obtain ⟨hlevel, hstart⟩ := heading_of_steps hc
    (steps_cons_eq_ok.mpr ⟨opened, hopened, (steps_singleton opened _).trans he⟩)
  simp [Finds, hlevel, hstart]

private theorem fits_paragraph (children : List Token) :
    d.Fits [.openParagraph, .inline children, .closeParagraph] :=
  ⟨trivial, fun _ _ => ⟨trivial, fun _ _ => ⟨trivial, fun _ _ => trivial⟩⟩⟩

private theorem fits_list {body : List Token} (kind : ListKind) (hready : d.Ready .blocks)
    (hbody : Token.WellNested .items body)
    (hitems : ∀ e : Draft, e.Ready .items → e.Fits body) :
    d.Fits (.openList kind :: body ++ [.closeList kind]) := by
  have hopened : (d.openList kind).Ready .items := congrArg (· + 1) hready
  refine ⟨trivial, fun opened h => ?_⟩
  cases h
  refine (hitems _ hopened).append fun e he => ⟨?_, fun _ _ => trivial⟩
  exact hopened.steps hbody he

private theorem fits_item {body : List Token} (hready : d.Ready .items)
    (hbody : Token.WellNested .blocks body)
    (hblocks : ∀ e : Draft, e.Ready .blocks → e.Fits body) :
    d.Fits (.openItem :: body ++ [.closeItem]) := by
  refine ⟨hready, fun opened h => ?_⟩
  have hlists : opened.lists = d.lists := congrArg BlockState.lists (blockState_openItem h)
  have hitems := openItems_openItem h
  have hopened : opened.Ready .blocks := by
    rw [Ready, hlists, hitems]
    exact hready
  refine (hblocks _ hopened).append fun e he => ⟨fun hnil => ?_, fun _ _ => trivial⟩
  have hlength := length_openItems_of_wellNested hbody he
  rw [hnil, hitems] at hlength
  exact absurd hlength.symm (Nat.succ_ne_zero _)

/-- In a well-nested stream each token finds open what it needs. -/
theorem fits_of_wellNested (h : Token.WellNested siblings tokens) (hready : d.Ready siblings) :
    d.Fits tokens := by
  induction h generalizing d with
  | nil => exact trivial
  | heading level hchildren _ ih =>
    exact (fits_heading level hchildren).append_of_ready hready (.heading level hchildren .nil)
      fun e he => ih he
  | paragraph hchildren _ ih =>
    exact (fits_paragraph _).append_of_ready hready (.paragraph hchildren .nil) fun e he => ih he
  | rule _ ih =>
    exact ⟨trivial, fun _ h => ih (hready.steps (.rule .nil) ((steps_singleton d _).trans h))⟩
  | codeBlock content info _ ih =>
    exact ⟨trivial, fun _ h =>
      ih (hready.steps (.codeBlock content info .nil) ((steps_singleton d _).trans h))⟩
  | markup htype _ ih =>
    exact ⟨trivial, fun _ h =>
      ih (hready.steps (.markup htype .nil) ((steps_singleton d _).trans h))⟩
  | quote hbody _ ihbody ihrest =>
    refine ⟨trivial, fun opened h => ?_⟩
    cases h
    refine (ihbody hready).append fun e he => ⟨trivial, fun closed h => ?_⟩
    cases h
    exact ihrest (hready.steps hbody he)
  | @table rows rest hrows hrest ih =>
    refine ⟨trivial, fun opened h => ?_⟩
    cases h
    refine (fits_of_tableRows hrows d).append fun e he => ⟨trivial, fun closed h => ?_⟩
    cases h
    have htable : Token.WellNested .blocks
        (.skipped "table_open" [] :: rows ++ [.skipped "table_close" []]) := .table hrows .nil
    refine ih (hready.steps htable ?_)
    exact steps_cons_eq_ok.mpr ⟨d, rfl, steps_append_eq_ok.mpr ⟨e, he, steps_singleton e _⟩⟩
  | @list body rest kind hbody hrest ihbody ihrest =>
    have hparts : Token.openList kind :: body ++ .closeList kind :: rest =
        (.openList kind :: body ++ [.closeList kind]) ++ rest := by simp
    rw [hparts]
    exact (fits_list kind hready hbody fun e he => ihbody he).append_of_ready hready
      (.list kind hbody .nil) fun e he => ihrest he
  | @item body rest hbody hrest ihbody ihrest =>
    have hparts : Token.openItem :: body ++ .closeItem :: rest =
        (.openItem :: body ++ [.closeItem]) ++ rest := by simp
    rw [hparts]
    exact (fits_item hready hbody fun e he => ihbody he).append_of_ready hready
      (.item hbody .nil) fun e he => ihrest he

/-! ## Runs from the start -/

section Start

variable {first : Int} {tab : Option String} {headingAsTitle : Bool}

theorem finds_of_split (h : Token.WellNested .blocks tokens)
    (hsplit : tokens = before ++ t :: after)
    (hd : (Draft.start first tab headingAsTitle).steps before = .ok d) : d.Finds t := by
  have hready : (Draft.start first tab headingAsTitle).Ready .blocks := rfl
  have hfits := fits_of_wellNested h hready
  rw [hsplit] at hfits
  exact (hfits.of_append hd).1

theorem length_lists_of_steps (hd : (Draft.start first tab headingAsTitle).steps before = .ok d) :
    d.lists.length = (Token.openLists [] (Token.atomsOf before)).length := by
  rw [← steps_atomsOf] at hd
  have hkinds := kinds_steps (Token.isAtom_of_mem_atomsOf before) hd
  rw [← List.length_map OpenList.kind, hkinds]
  rfl

/-- Where no list is open, no item is. -/
theorem openItems_of_atoms (h : Token.WellNested .blocks tokens)
    (hsplit : Token.atomsOf tokens = before ++ after)
    (hd : (Draft.start first tab headingAsTitle).steps before = .ok d) (hlists : d.lists = []) :
    d.openItems = [] := by
  have hkinds := kinds_steps (Token.isAtom_of_split hsplit) hd
  have hitems := length_openItems_steps (Token.isAtom_of_split hsplit) hd
  rw [hlists] at hkinds
  exact List.length_eq_zero_iff.mp (hitems.trans (h.itemDepth_eq_zero hsplit hkinds.symm))

/-- Outside of all lists neither a list nor an item is open. -/
theorem closed_of_isOutside (h : Token.WellNested .blocks tokens)
    (hsplit : tokens = before ++ after) (houtside : Token.IsOutside before)
    (hd : (Draft.start first tab headingAsTitle).steps before = .ok d) :
    d.lists = [] ∧ d.openItems = [] := by
  have hatoms : Token.atomsOf tokens = Token.atomsOf before ++ Token.atomsOf after := by
    rw [hsplit, Token.atomsOf_append]
  have hlength := length_lists_of_steps hd
  rw [houtside] at hlength
  have hlists := List.length_eq_zero_iff.mp hlength
  rw [← steps_atomsOf] at hd
  exact ⟨hlists, openItems_of_atoms h hatoms hd hlists⟩

end Start

end Draft

/-- A well-nested stream is converted, and its insertions give a document. -/
theorem exists_reaches_of_wellNested {config : Config} {tokens : List Token} {o : Options}
    {first : Int} {tab : Option String} (hnested : Token.WellNested .blocks tokens)
    (hfirst : o.startIndex = .ok first) (htab : o.tabIdentifier = .ok tab) :
    ∃ final document, convertTokens config tokens o = .ok (.ofDraft config final) ∧
      (Draft.start first tab (o.wantsTitle config)).Reaches tokens final document := by
  obtain ⟨final, hrun, -⟩ := Draft.accepts_of_wellNested hnested
    (Draft.start first tab (o.wantsTitle config)) nofun
  obtain ⟨document, hgrows, -⟩ := Draft.growsTo_start hrun
  exact ⟨final, document, convertTokens_eq_ok.mpr ⟨first, tab, final, hfirst, htab, hrun, rfl⟩,
    hgrows.reaches hrun⟩

end MarkdownEdits
