import MarkdownEdits.Proofs.FormattingStacks
import MarkdownEdits.Proofs.RunFailures
import MarkdownEdits.Proofs.WellNestedRuns

/-!
# What is open

A token opens something, closes something, or leaves alone what is open. Where whatever is opened is
closed again in turn, all is as it was before, and nothing is warned of. A close takes away the
innermost frame of its kind, wherever it stands, so a link without a target, which opens no frame,
must not stand in another link.
-/
namespace MarkdownEdits

/-- What is open, and what has been warned of. -/
structure OpenState where
  formatting : List Formatting := []
  lists : List OpenList := []
  openItems : List Int := []
  headingLevel : Option HeadingLevel := none
  paragraphStart : Option Int := none
  warnings : Array Warning := #[]

namespace OpenState

def warn (s : OpenState) (w : Warning) : OpenState := { s with warnings := s.warnings.push w }

def openHeading (s : OpenState) (cursor : Int) (tag : String) : OpenState :=
  match HeadingLevel.ofTag? tag with
  | some level => { s with headingLevel := some level, paragraphStart := some cursor }
  | none => s.warn (.unknownHeading tag)

def closeHeading (s : OpenState) : OpenState :=
  match s.headingLevel, s.paragraphStart with
  | some _, some _ => { s with headingLevel := none, paragraphStart := none }
  | _, _ => s.warn .strayHeadingClose

def closeList (s : OpenState) : OpenState :=
  match s.lists with
  | [] => s.warn .strayListClose
  | _ :: outer => { s with lists := outer }

def closeItem (s : OpenState) : OpenState :=
  match s.openItems with
  | [] => s.warn .strayItemClose
  | _ :: rest => { s with openItems := rest }

section Closes

variable {s : OpenState}

theorem closeHeading_of_open {level : HeadingLevel} {start : Int}
    (hlevel : s.headingLevel = some level) (hstart : s.paragraphStart = some start) :
    s.closeHeading = { s with headingLevel := none, paragraphStart := none } := by
  rw [closeHeading, hlevel, hstart]

theorem closeHeading_of_none (h : s.headingLevel = none ∨ s.paragraphStart = none) :
    s.closeHeading = s.warn .strayHeadingClose := by
  rw [closeHeading.eq_def]
  rcases h with h | h
  · rw [h]
  · rw [h]
    cases s.headingLevel <;> rfl

theorem closeList_of_nil (h : s.lists = []) : s.closeList = s.warn .strayListClose := by
  rw [closeList, h]

theorem closeList_of_cons {list : OpenList} {outer : List OpenList} (h : s.lists = list :: outer) :
    s.closeList = { s with lists := outer } := by
  rw [closeList, h]

theorem closeItem_of_nil (h : s.openItems = []) : s.closeItem = s.warn .strayItemClose := by
  rw [closeItem, h]

theorem closeItem_of_cons {index : Int} {rest : List Int} (h : s.openItems = index :: rest) :
    s.closeItem = { s with openItems := rest } := by
  rw [closeItem, h]

end Closes

/-- What is open behind a token, given the cursor and the number of recorded items in front of
it. -/
def after (s : OpenState) (cursor : Int) (items : Nat) : Token → OpenState
  | .openMark mark => { s with formatting := mark.frame :: s.formatting }
  | .closeMark mark => { s with formatting := Formatting.close mark.kind s.formatting }
  | .openLink (some target) =>
    if target = "" then s else { s with formatting := { link := some target } :: s.formatting }
  | .closeLink => { s with formatting := Formatting.close .link s.formatting }
  | .openHeading tag => s.openHeading cursor tag
  | .closeHeading => s.closeHeading
  | .openParagraph => if s.lists.isEmpty then { s with paragraphStart := some cursor } else s
  | .closeParagraph => { s with paragraphStart := none }
  | .openList kind => { s with lists := ⟨kind, s.lists.length⟩ :: s.lists }
  | .closeList _ => s.closeList
  | .openItem => { s with openItems := items :: s.openItems }
  | .closeItem => s.closeItem
  | _ => s

/-- No heading and no paragraph is open, and no frame of a link. -/
structure IsClear (s : OpenState) : Prop where
  headingLevel : s.headingLevel = none
  paragraphStart : s.paragraphStart = none
  links : ∀ f ∈ s.formatting, f.sets .link = false

/-! ### Pairs of tokens -/

/-- What one token opens, another one closes, wherever it stands. -/
def Returns (s : OpenState) (opening closing : Token) : Prop :=
  ∀ cursor items cursor' items', (s.after cursor items opening).after cursor' items' closing = s

variable {s : OpenState}

/-- A change to the stack of formatting that leaves it as it is. -/
private theorem with_formatting {stack : List Formatting} (h : stack = s.formatting) :
    { s with formatting := stack } = s := by
  rw [h]

theorem returns_mark (s : OpenState) (mark : Mark) :
    s.Returns (.openMark mark) (.closeMark mark) := by
  intro _ _ _ _
  have hsets := (mark.setsOnly_frame mark.kind).mpr rfl
  exact with_formatting (Formatting.close_cons_of_sets hsets s.formatting)

/-- Where no frame of a link is open, the close of a link takes away the frame that its opening has
put there, if it has put one there. -/
theorem returns_link (hlinks : ∀ f ∈ s.formatting, f.sets .link = false) (target : Option String) :
    s.Returns (.openLink target) .closeLink := by
  intro cursor items _ _
  have hnone : Formatting.close .link s.formatting = s.formatting :=
    List.eraseP_of_forall_not fun f hf => by simp [hlinks f hf]
  cases target with
  | none => exact with_formatting hnone
  | some url =>
    by_cases hurl : url = ""
    · have hopened : s.after cursor items (.openLink (some url)) = s := if_pos hurl
      rw [hopened]
      exact with_formatting hnone
    · have hopened : s.after cursor items (.openLink (some url)) =
          { s with formatting := { link := some url } :: s.formatting } := if_neg hurl
      rw [hopened]
      exact with_formatting (Formatting.close_cons_of_sets rfl s.formatting)

theorem IsClear.returns_heading (h : s.IsClear) (level : HeadingLevel) :
    s.Returns (.openHeading level.tag) .closeHeading := by
  intro cursor items _ _
  have hopened : s.after cursor items (.openHeading level.tag) =
      { s with headingLevel := some level, paragraphStart := some cursor } := by
    rw [after, openHeading, HeadingLevel.ofTag?_tag]
  rw [hopened, after, closeHeading_of_open rfl rfl, ← h.headingLevel, ← h.paragraphStart]

theorem IsClear.returns_paragraph (h : s.IsClear) : s.Returns .openParagraph .closeParagraph := by
  intro _ _ _ _
  simp only [after]
  split <;> rw [← h.paragraphStart]

theorem returns_list (s : OpenState) (kind : ListKind) :
    s.Returns (.openList kind) (.closeList kind) := fun _ _ _ _ => rfl

theorem returns_item (s : OpenState) : s.Returns .openItem .closeItem :=
  fun _ _ _ _ => rfl

theorem returns_skipped (s : OpenState) (opening closing : String) :
    s.Returns (.skipped opening []) (.skipped closing []) := fun _ _ _ _ => rfl

end OpenState

namespace Draft

def openState (d : Draft) : OpenState where
  formatting := d.formatting
  lists := d.lists
  openItems := d.openItems
  headingLevel := d.headingLevel
  paragraphStart := d.paragraphStart
  warnings := d.warnings

/-! ## Operations -/

@[simp] theorem openState_modifyItem (d : Draft) (i : Nat) (f : ListItem → ListItem) :
    (d.modifyItem i f).openState = d.openState := rfl

@[simp] theorem openState_endLine (d : Draft) : d.endLine.openState = d.openState := by
  rw [endLine]
  split <;> rfl

@[simp] theorem openState_beginBlock (d : Draft) : d.beginBlock.openState = d.openState := by
  rw [beginBlock]
  split
  · rfl
  · exact d.openState_endLine

@[simp] theorem openState_insertStyled (d : Draft) (text : String) :
    (d.insertStyled text).openState = d.openState := by
  rw [insertStyled]
  split <;> rfl

@[simp] theorem openState_insertLeaf (d : Draft) (text : String) :
    (d.insertLeaf text).openState = d.openState := by
  by_cases h : text = ""
  · rw [h, insertLeaf_empty]
  · have hmarker : (d.takeMarker text).1.openState = d.openState := by
      obtain hsame | ⟨i, f, -, hmodified⟩ := d.takeMarker_fst text
      · rw [hsame]
      · rw [hmodified, openState_modifyItem]
    rw [d.insertLeaf_eq h]
    split
    · exact hmarker
    · rw [openState_insertStyled, hmarker]

/-- A code leaf closes the frame that it opens. -/
@[simp] theorem openState_insertCode (d : Draft) (text : String) :
    (d.insertCode text).openState = d.openState := by
  let leaf := (d.openFormatting { code := some true }).insertLeaf text
  have hclosed : (d.insertCode text).openState =
      { leaf.openState with formatting := Formatting.close .code leaf.openState.formatting } := rfl
  have hframe : Formatting.close .code ({ code := some true } :: d.formatting) = d.formatting :=
    Formatting.close_cons_of_sets rfl d.formatting
  rw [hclosed, openState_insertLeaf]
  exact congrArg (fun stack => { d.openState with formatting := stack }) hframe

theorem openState_openLink (d : Draft) (target : Option String) (cursor : Int) (items : Nat) :
    (d.openLink target).openState = d.openState.after cursor items (.openLink target) := by
  cases target with
  | none => rfl
  | some url =>
    simp only [openLink, OpenState.after]
    split <;> rfl

theorem openState_openHeading (d : Draft) (tag : String) :
    (d.openHeading tag).openState = d.openState.openHeading d.cursor tag := by
  rw [openHeading, OpenState.openHeading]
  cases HeadingLevel.ofTag? tag <;> rfl

theorem openState_closeHeading (d : Draft) :
    d.closeHeading.openState = d.openState.closeHeading := by
  cases hlevel : d.headingLevel with
  | none =>
    rw [closeHeading_of_none (.inl hlevel), OpenState.closeHeading_of_none (.inl hlevel)]
    rfl
  | some level =>
    cases hstart : d.paragraphStart with
    | none =>
      rw [closeHeading_of_none (.inr hstart), OpenState.closeHeading_of_none (.inr hstart)]
      rfl
    | some start =>
      rw [OpenState.closeHeading_of_open hlevel hstart, closeHeading, hlevel, hstart]
      rfl

@[simp] theorem openState_extendOpenItem (d : Draft) :
    d.extendOpenItem.openState = d.openState := by
  rw [extendOpenItem]
  split
  · split <;> rfl
  · rfl

@[simp] theorem openState_recordParagraph (d : Draft) (start : Option Int) :
    (d.recordParagraph start).openState = d.openState := by
  simp only [recordParagraph]
  split
  · split <;> rfl
  · rfl

theorem openState_closeParagraph (d : Draft) :
    d.closeParagraph.openState = { d.openState with paragraphStart := none } := by
  have hsame : (d.endLine.extendOpenItem.recordParagraph d.paragraphStart).openState =
      d.openState := by simp
  rw [← hsame]
  rfl

@[simp] theorem openState_recordListTail (d : Draft) :
    d.recordListTail.openState = d.openState := by
  rw [recordListTail]
  split <;> rfl

theorem openState_closeList (d : Draft) : d.closeList.openState = d.openState.closeList := by
  cases hlists : d.lists with
  | nil =>
    rw [closeList_of_nil hlists, OpenState.closeList_of_nil hlists]
    rfl
  | cons list outer =>
    rw [OpenState.closeList_of_cons hlists, closeList, hlists]
    simp only
    split
    · exact openState_recordListTail _
    · rfl

theorem openState_openItem {d next : Draft} (h : d.openItem = .ok next) : next.openState =
    { d.openState with openItems := d.records.items.size :: d.openItems } := by
  rw [openItem.eq_def] at h
  split at h
  · cases h
  · cases h
    split <;> rfl

@[simp] theorem openState_endItem (d : Draft) (index : Int) :
    (d.endItem index).openState = d.openState := by
  rw [endItem]
  split
  · split <;> rfl
  · rfl

theorem openState_closeItem (d : Draft) : d.closeItem.openState = d.openState.closeItem := by
  cases hopen : d.openItems with
  | nil =>
    rw [closeItem_of_nil hopen, OpenState.closeItem_of_nil hopen]
    rfl
  | cons index rest =>
    rw [OpenState.closeItem_of_cons hopen, closeItem, hopen, openState_endLine,
      ← d.openState_endItem index]
    rfl

theorem openState_insertCodeBlock (d : Draft) (content info : String) :
    (d.insertCodeBlock content info).openState = d.openState := by
  rw [← d.openState_beginBlock]
  simp only [insertCodeBlock]
  split <;> rfl

/-- What a token opens and closes depends on what is open alone. -/
theorem openState_step {d next : Draft} {t : Token} (ht : t.IsAtom) (hs : d.step t = .ok next) :
    next.openState = d.openState.after d.cursor d.records.items.size t := by
  cases t with
  | inline children => exact ht.elim
  | text content => cases hs; exact d.openState_insertLeaf content
  | codeSpan content => cases hs; exact d.openState_insertCode content
  | openMark mark => cases hs; rfl
  | closeMark mark => cases hs; rfl
  | openLink target => cases hs; exact d.openState_openLink target _ _
  | closeLink => cases hs; rfl
  | softBreak => cases hs; rfl
  | hardBreak => cases hs; rfl
  | openHeading tag => cases hs; exact d.openState_openHeading tag
  | closeHeading => cases hs; exact d.openState_closeHeading
  | openParagraph => cases hs; exact apply_ite openState _ _ _
  | closeParagraph => cases hs; exact d.openState_closeParagraph
  | openList kind => cases hs; rfl
  | closeList kind => cases hs; exact d.openState_closeList
  | openItem => exact openState_openItem hs
  | closeItem => cases hs; exact d.openState_closeItem
  | codeBlock content info => cases hs; exact d.openState_insertCodeBlock content info
  | rule => cases hs; exact d.openState_endLine
  | skipped type children => cases hs; rfl
  | malformed type words => cases hs

/-! ## Balanced tokens -/

/-- The tokens are taken, and all is open behind them that was open before. -/
def Restores (d : Draft) (tokens : List Token) : Prop :=
  ∃ final, d.steps tokens = .ok final ∧ final.openState = d.openState

theorem Restores.nil (d : Draft) : d.Restores [] := ⟨d, steps_nil d, rfl⟩

theorem Restores.append {d : Draft} {xs ys : List Token} (hx : d.Restores xs)
    (hy : ∀ e : Draft, e.openState = d.openState → e.Restores ys) : d.Restores (xs ++ ys) := by
  obtain ⟨e, he, hsame⟩ := hx
  obtain ⟨final, hfinal, hstate⟩ := hy e hsame
  exact ⟨final, steps_append_eq_ok.mpr ⟨e, he, hfinal⟩, hstate.trans hsame⟩

theorem Restores.cons {d : Draft} {t : Token} {rest : List Token} (ht : d.Restores [t])
    (hrest : ∀ e : Draft, e.openState = d.openState → e.Restores rest) : d.Restores (t :: rest) :=
  ht.append hrest

theorem Restores.inline {d : Draft} {children : List Token} (h : d.Restores children) :
    d.Restores [.inline children] := by
  obtain ⟨final, hfinal, hstate⟩ := h
  exact ⟨final, by rw [steps_singleton, step, hfinal], hstate⟩

/-- A token that is taken without a trace in what is open. -/
theorem Restores.of_step {d next : Draft} {t : Token} (hs : d.step t = .ok next)
    (hsame : next.openState = d.openState) : d.Restores [t] :=
  ⟨next, (steps_singleton d t).trans hs, hsame⟩

/-- A token opens something, and behind what stands in between another token closes it. -/
theorem Restores.enclosed {d opened : Draft} {opening closing : Token} {body rest : List Token}
    (hpair : d.openState.Returns opening closing) (hopening : opening.IsAtom)
    (hclosing : closing.IsAtom) (hopened : d.step opening = .ok opened)
    (htaken : ∀ e : Draft, ∃ closed, e.step closing = .ok closed) (hbody : opened.Restores body)
    (hrest : ∀ e : Draft, e.openState = d.openState → e.Restores rest) :
    d.Restores (opening :: body ++ closing :: rest) := by
  obtain ⟨e, he, hsame⟩ := hbody
  obtain ⟨closed, hclosed⟩ := htaken e
  have hback : closed.openState = d.openState := by
    rw [openState_step hclosing hclosed, hsame, openState_step hopening hopened]
    exact hpair _ _ _ _
  obtain ⟨final, hfinal, hstate⟩ := hrest closed hback
  refine ⟨final, ?_, hstate.trans hback⟩
  rw [List.cons_append, steps_cons_eq_ok]
  exact ⟨opened, hopened, steps_append_eq_ok.mpr
    ⟨e, he, steps_cons_eq_ok.mpr ⟨closed, hclosed, hfinal⟩⟩⟩

/-! ## Inline content -/

theorem restores_of_isLeaf {t : Token} (ht : t.IsLeaf) (d : Draft) : d.Restores [t] := by
  cases t with
  | text content => exact .of_step rfl (d.openState_insertLeaf content)
  | codeSpan content => exact .of_step rfl (d.openState_insertCode content)
  | softBreak => exact .of_step rfl rfl
  | hardBreak => exact .of_step rfl rfl
  | skipped type children => exact .of_step rfl rfl
  | _ => exact ht.elim

/-- Inline content closes the marks and links that it opens. Where it may hold links, none is open
around it. -/
theorem restores_of_wellMarked {linked : Bool} {children : List Token}
    (h : Token.WellMarked linked children) (d : Draft)
    (hlinks : linked = false → ∀ f ∈ d.formatting, f.sets .link = false) :
    d.Restores children := by
  have same {d e : Draft} (he : e.openState = d.openState) : e.formatting = d.formatting :=
    congrArg OpenState.formatting he
  induction h generalizing d with
  | nil => exact .nil d
  | leaf ht _ ih =>
    refine (restores_of_isLeaf ht d).cons fun e he => ih e ?_
    rwa [same he]
  | mark mark _ _ ihinner ihrest =>
    refine .enclosed (d.openState.returns_mark mark) trivial trivial rfl (fun e => ⟨_, rfl⟩)
      (ihinner (d.openFormatting mark.frame) fun hlinked => ?_) fun e he => ihrest e ?_
    · refine List.forall_mem_cons.mpr ⟨?_, hlinks hlinked⟩
      rw [Bool.eq_false_iff, ne_eq, mark.setsOnly_frame .link]
      exact mark.kind_ne_link.symm
    · rwa [same he]
  | link target _ _ ihinner ihrest =>
    refine .enclosed (OpenState.returns_link (hlinks rfl) target) trivial trivial rfl
      (fun e => ⟨_, rfl⟩) (ihinner (d.openLink target) nofun) fun e he => ihrest e ?_
    rwa [same he]

/-! ## Blocks -/

theorem restores_of_tableRows {rows : List Token} (h : Token.TableRows rows) (d : Draft)
    (hclear : d.openState.IsClear) : d.Restores rows := by
  induction h generalizing d with
  | nil => exact .nil d
  | markup type _ ih =>
    exact (Restores.of_step rfl rfl).cons fun e he => ih e (he ▸ hclear)
  | cell hchildren _ ih =>
    exact (restores_of_wellMarked hchildren d fun _ => hclear.links).inline.cons
      fun e he => ih e (he ▸ hclear)

/-- The content of a block, behind a token that opens no link. -/
theorem restores_content {d opened : Draft} {children : List Token}
    (hchildren : Token.WellMarked false children) (hclear : d.openState.IsClear)
    (hsame : opened.formatting = d.formatting) : opened.Restores [.inline children] := by
  refine (restores_of_wellMarked hchildren opened fun _ => ?_).inline
  rw [hsame]
  exact hclear.links

/-- Blocks are taken anywhere outside of headings, paragraphs and links, and items in a list there.
They close whatever they open. -/
theorem restores_of_wellNested {siblings : Token.Siblings} {tokens : List Token}
    (h : Token.WellNested siblings tokens) (d : Draft) (hclear : d.openState.IsClear)
    (hlist : siblings = .items → d.lists ≠ []) : d.Restores tokens := by
  have clear {d e : Draft} (hd : d.openState.IsClear) (he : e.openState = d.openState) :
      e.openState.IsClear := he ▸ hd
  induction h generalizing d with
  | nil => exact .nil d
  | heading level hchildren _ ih =>
    have hcontent := restores_content hchildren hclear
      (d.keepsContent_openHeading level.tag).formatting
    exact .enclosed (hclear.returns_heading level) trivial trivial rfl (fun e => ⟨_, rfl⟩) hcontent
      fun e he => ih e (clear hclear he) nofun
  | paragraph hchildren _ ih =>
    have hcontent := restores_content hchildren hclear d.keepsContent_openParagraph.formatting
    exact .enclosed hclear.returns_paragraph trivial trivial rfl (fun e => ⟨_, rfl⟩) hcontent
      fun e he => ih e (clear hclear he) nofun
  | rule _ ih =>
    have hrule : d.insertRule.openState = d.openState := d.openState_endLine
    exact (Restores.of_step rfl hrule).cons fun e he => ih e (clear hclear he) nofun
  | codeBlock content info _ ih =>
    exact (Restores.of_step rfl (d.openState_insertCodeBlock content info)).cons
      fun e he => ih e (clear hclear he) nofun
  | markup _ _ ih =>
    exact (Restores.of_step rfl rfl).cons fun e he => ih e (clear hclear he) nofun
  | quote _ _ ihbody ihrest =>
    exact .enclosed (d.openState.returns_skipped _ _) trivial trivial rfl (fun e => ⟨e, rfl⟩)
      (ihbody d hclear nofun) fun e he => ihrest e (clear hclear he) nofun
  | table hrows _ ih =>
    exact .enclosed (d.openState.returns_skipped _ _) trivial trivial rfl (fun e => ⟨e, rfl⟩)
      (restores_of_tableRows hrows d hclear) fun e he => ih e (clear hclear he) nofun
  | list kind _ _ ihbody ihrest =>
    have hopened : (d.openList kind).openState.IsClear :=
      ⟨hclear.headingLevel, hclear.paragraphStart, hclear.links⟩
    exact .enclosed (d.openState.returns_list kind) trivial trivial rfl (fun e => ⟨_, rfl⟩)
      (ihbody _ hopened fun _ => List.cons_ne_nil _ _)
      fun e he => ihrest e (clear hclear he) nofun
  | item _ _ ihbody ihrest =>
    obtain ⟨opened, hopened⟩ := exists_openItem (hlist rfl)
    have hinside : opened.openState.IsClear := by
      rw [openState_openItem hopened]
      exact ⟨hclear.headingLevel, hclear.paragraphStart, hclear.links⟩
    refine .enclosed d.openState.returns_item trivial trivial hopened (fun e => ⟨_, rfl⟩)
      (ihbody opened hinside nofun) fun e he => ?_
    have hlists : e.lists = d.lists := congrArg OpenState.lists he
    exact ihrest e (clear hclear he) fun hitems => hlists ▸ hlist hitems

end Draft

/-- A well-nested stream is converted without a warning and leaves nothing open, and wherever else
its blocks stand, outside of headings, paragraphs and links, they leave open what is open there. -/
theorem convertTokens_restores {tokens : List Token} (h : Token.WellNested .blocks tokens) :
    (∀ (config : Config) (o : Options) (first : Int) (tab : Option String),
      o.startIndex = .ok first → o.tabIdentifier = .ok tab →
        ∃ final, (Draft.start first tab (o.wantsTitle config)).steps tokens = .ok final ∧
          convertTokens config tokens o = .ok (.ofDraft config final) ∧
          final.openState = {} ∧
          ∀ entry ∈ (Conversion.ofDraft config final).log, entry.level = "INFO") ∧
    ∀ d : Draft, d.openState.IsClear → d.Restores tokens := by
  refine ⟨fun config o first tab hfirst htab => ?_,
    fun d hclear => Draft.restores_of_wellNested h d hclear nofun⟩
  obtain ⟨final, hrun, hstate⟩ := Draft.restores_of_wellNested h
    (Draft.start first tab (o.wantsTitle config)) ⟨rfl, rfl, nofun⟩ nofun
  have hwarnings : final.warnings = #[] := congrArg OpenState.warnings hstate
  refine ⟨final, hrun, convertTokens_eq_ok.mpr ⟨first, tab, final, hfirst, htab, hrun, rfl⟩,
    hstate, ?_⟩
  simp [Conversion.ofDraft, hwarnings, LogEntry.level]

/-- A list whose only item is a link without a target, around a mark. -/
def emptyLinkInList : List Token :=
  [.openList .bullet, .openItem, .openParagraph,
    .inline [.openLink (some ""), .openMark .strong, .codeSpan "a", .closeMark .strong, .closeLink],
    .closeParagraph, .closeItem, .closeList .bullet]

/-- A heading with a link, and a list in an item with a rule behind it. -/
def linksAmongBlocks : List Token :=
  [.openHeading "h6", .inline [.openLink (some "b"), .text "c", .closeLink], .closeHeading,
    .openList .ordered, .openItem] ++ emptyLinkInList ++ [.rule, .closeItem, .openItem, .closeItem,
    .closeList .ordered]

theorem wellNested_linksAmongBlocks : Token.WellNested .blocks linksAmongBlocks := by
  have htext : Token.WellMarked true [.text "c"] := .leaf trivial .nil
  have hlink : Token.WellMarked false [.openLink (some "b"), .text "c", .closeLink] :=
    .link (some "b") htext .nil
  have hcode : Token.WellMarked true [.codeSpan "a"] := .leaf trivial .nil
  have hmark : Token.WellMarked true [.openMark .strong, .codeSpan "a", .closeMark .strong] :=
    .mark .strong hcode .nil
  have hempty : Token.WellMarked false [.openLink (some ""), .openMark .strong, .codeSpan "a",
      .closeMark .strong, .closeLink] := .link (some "") hmark .nil
  have hitem : Token.WellNested .items [.openItem, .openParagraph,
      .inline [.openLink (some ""), .openMark .strong, .codeSpan "a", .closeMark .strong,
        .closeLink], .closeParagraph, .closeItem] := .item (.paragraph hempty .nil) .nil
  have hbody : Token.WellNested .blocks (emptyLinkInList ++ [.rule]) :=
    .list .bullet hitem (.rule .nil)
  have hitems : Token.WellNested .items
      (.openItem :: (emptyLinkInList ++ [.rule]) ++ .closeItem :: [.openItem, .closeItem]) :=
    .item hbody (.item .nil .nil)
  exact .heading .h6 hlink (.list .ordered hitems .nil)

/-- A draft in an item, with a mark and a piece of code open and a warning behind it. -/
def amidItem : Draft :=
  { Draft.start 5 none true with
    records := { items := #[{ start := 5, level := 0, preset := .unordered }] }
    formatting := [{ code := some true }, Mark.emphasis.frame]
    lists := [⟨.bullet, 0⟩]
    openItems := [0]
    warnings := #[.strayHeadingClose] }

theorem convertTokens_restores_linksAmongBlocks :
    (∃ final, convertTokens .standard linksAmongBlocks {} = .ok (.ofDraft .standard final) ∧
      final.openState = {} ∧
      ∀ entry ∈ (Conversion.ofDraft .standard final).log, entry.level = "INFO") ∧
    ∃ final, amidItem.steps linksAmongBlocks = .ok final ∧
      final.formatting = [{ code := some true }, Mark.emphasis.frame] ∧
      final.lists = [⟨.bullet, 0⟩] ∧ final.openItems = [0] := by
  obtain ⟨hconverts, hrestores⟩ := convertTokens_restores wellNested_linksAmongBlocks
  obtain ⟨final, -, hconverted, hstate, hlog⟩ := hconverts .standard {} 1 none rfl rfl
  have hclear : amidItem.openState.IsClear := ⟨rfl, rfl, by decide⟩
  obtain ⟨last, hrun, hsame⟩ := hrestores amidItem hclear
  exact ⟨⟨final, hconverted, hstate, hlog⟩, last, hrun, congrArg OpenState.formatting hsame,
    congrArg OpenState.lists hsame, congrArg OpenState.openItems hsame⟩

/-! ## Records of well-nested streams -/

/-- The records of a paragraph that is a link around a text. -/
def linkedTextRecords (attributes content : Json) : List Json :=
  [.object [("type", .text "paragraph_open")],
    .object [("type", .text "inline"), ("children", .array
      [.object [("type", .text "link_open"), ("attrs", attributes)],
        .object [("type", .text "text"), ("content", content)],
        .object [("type", .text "link_close")]])],
    .object [("type", .text "paragraph_close")]]

/-- The record of a code block with a letter in it. -/
def fenceRecords (info : Json) : List Json :=
  [.object [("type", .text "fence"), ("content", .text "a"), ("info", info)]]

theorem wellNested_linkedTextRecords (attributes : List (String × Json)) (content : String) :
    Token.WellNested .blocks
      (Token.ofItems (linkedTextRecords (.object attributes) (.text content))) := by
  have htext : Token.WellMarked true [.text content] := .leaf trivial .nil
  exact .paragraph (.link _ htext .nil) .nil

theorem wellNested_fenceRecords (info : String) :
    Token.WellNested .blocks (Token.ofItems (fenceRecords (.text info))) :=
  .codeBlock "a" info .nil

/-- The order of the tokens is not enough, nor is it that their contents are texts: a content must
have units, a link must have attributes and the information of a code block must be a text. -/
theorem convertTokens_failsOnWellNested :
    (∀ attributes content, Token.WellNested .blocks
      (Token.ofItems (linkedTextRecords (.object attributes) (.text content)))) ∧
    convertTokens .standard
        (Token.ofItems (linkedTextRecords (.object []) (.brokenText (.ofHalf 0)))) {} =
      .error (.conversion (.malformedToken "text" "*")) ∧
    convertTokens .standard (Token.ofItems (linkedTextRecords .null (.text "a"))) {} =
      .error (.conversion (.malformedToken "link_open" "*")) ∧
    (∀ info, Token.WellNested .blocks (Token.ofItems (fenceRecords (.text info)))) ∧
    convertTokens .standard (Token.ofItems (fenceRecords .null)) {} =
      .error (.conversion (.malformedToken "fence" "*")) :=
  ⟨wellNested_linkedTextRecords, rfl, rfl, wellNested_fenceRecords, rfl⟩

end MarkdownEdits
