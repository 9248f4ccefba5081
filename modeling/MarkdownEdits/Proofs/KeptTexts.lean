import MarkdownEdits.Proofs.FirstTexts
import MarkdownEdits.Proofs.ItemIndents
import MarkdownEdits.Proofs.RunFailures

/-!
# Texts that are kept

Each token inserts its content as it stands. Of a code block one line end is left out, and of the
first text of an item its task marker. Whatever else is inserted is a space, a line end or the tabs
of an item.
-/
namespace MarkdownEdits

/-! ## Task markers -/

namespace TaskMarkers

/-- A task marker stands at the front of the text, and behind all blank characters that follow it
stands the rest. -/
def Leaves (text rest : String) : Prop :=
  ∃ box blanks, text.toList = '[' :: box :: ']' :: (blanks ++ rest.toList) ∧
    (box = ' ' ∨ box = 'x' ∨ box = 'X') ∧ blanks ≠ [] ∧
      (∀ b ∈ blanks, Whitespace.isBlank b = true) ∧
        ∀ c ∈ rest.toList.head?, Whitespace.isBlank c = false

theorem exists_strip?_of_isMarked {text : String} (h : IsMarked text) :
    ∃ rest, strip? text = some rest ∧ Leaves text rest := by
  obtain ⟨box, blank, tail, hchars, hbox, hblank⟩ := h
  refine ⟨String.ofList (tail.dropWhile Whitespace.isBlank), ?_, box,
    blank :: tail.takeWhile Whitespace.isBlank, ?_, hbox, List.cons_ne_nil _ _, ?_, ?_⟩
  · rw [strip?, hchars, afterMarker?, if_pos (by simpa [hblank, or_assoc] using hbox),
      Option.map_some]
  · rw [hchars, String.toList_ofList, List.cons_append, List.takeWhile_append_dropWhile]
  · exact List.forall_mem_cons.mpr ⟨hblank, List.all_eq_true.mp List.all_takeWhile⟩
  · intro c hc
    rw [String.toList_ofList] at hc
    have hhead := List.head?_dropWhile_not Whitespace.isBlank tail
    rw [Option.mem_def.mp hc] at hhead
    simpa using hhead

theorem strip?_of_not_isMarked {text : String} (h : ¬IsMarked text) : strip? text = none := by
  rwa [← isSome_strip?_iff, Option.not_isSome_iff_eq_none] at h

end TaskMarkers

/-! ## Texts of tokens -/

/-- A text in a list of its own, unless it is empty. -/
def nonempty (text : String) : List String := if text = "" then [] else [text]

/-- What a token inserts: its content, and other texts around it. -/
structure TokenTexts where
  front : List String := []
  kept : String := ""
  behind : List String := []

namespace TokenTexts

/-- The texts in the order in which they are inserted. An empty content is not inserted. -/
def all (x : TokenTexts) : List String := x.front ++ nonempty x.kept ++ x.behind

end TokenTexts

namespace Token

/-- What a leaf keeps of its content, given the atoms in front of it. -/
structure KeepsLeaf (before : List Token) (content kept : String) : Prop where
  first : AwaitsFirstText before → TaskMarkers.IsMarked content → TaskMarkers.Leaves content kept
  whole : ¬(AwaitsFirstText before ∧ TaskMarkers.IsMarked content) → kept = content

/-- What a token keeps of its content, given the atoms in front of it. -/
def Keeps (before : List Token) (kept : String) : Token → Prop
  | text content | codeSpan content => KeepsLeaf before content kept
  | codeBlock content _ => content = kept ++ "\n" ∨ kept = content ∧ endsLine content = false
  | _ => kept = ""

/-- The texts that a token inserts around its content, given the atoms in front of it. -/
def Surrounds (before : List Token) (front behind : List String) : Token → Prop
  | text _ | codeSpan _ => front = [] ∧ behind = []
  | codeBlock .. => (front = [] ∨ front = ["\n"]) ∧ behind = ["\n"]
  | softBreak => front = [" "] ∧ behind = []
  | openItem => behind = [] ∧ ∃ level, listDepth before = level + 1 ∧
      front = nonempty (String.ofList (List.replicate level listIndent))
  | _ => behind = [] ∧ ∀ text ∈ front, text = "\n"

/-- The texts that a token inserts, given the atoms in front of it. -/
structure Inserts (before : List Token) (t : Token) (x : TokenTexts) : Prop where
  keeps : t.Keeps before x.kept
  surrounds : t.Surrounds before x.front x.behind

/-- The texts that atoms insert in turn, each of them given those in front of it. -/
inductive InsertsEach : List Token → List TokenTexts → Prop
  | nil : InsertsEach [] []
  | concat {before xs t x} (hbefore : InsertsEach before xs) (ht : t.Inserts before x) :
      InsertsEach (before ++ [t]) (xs ++ [x])

theorem InsertsEach.length_eq {atoms : List Token} {xs : List TokenTexts}
    (h : InsertsEach atoms xs) : xs.length = atoms.length := by
  induction h with
  | nil => rfl
  | concat _ _ ih => rw [List.length_append, List.length_append, ih]; rfl

/-- Each atom of a stream has its texts at its own place. -/
theorem InsertsEach.exists_of_split {atoms before after : List Token} {t : Token}
    {xs : List TokenTexts} (h : InsertsEach atoms xs) (hsplit : atoms = before ++ t :: after) :
    ∃ x, xs[before.length]? = some x ∧ t.Inserts before x := by
  induction h generalizing after with
  | nil => exact absurd hsplit.symm (List.append_ne_nil_of_right_ne_nil _ (List.cons_ne_nil _ _))
  | @concat init xs u x hinit hu ih =>
    rcases List.eq_nil_or_concat after with rfl | ⟨middle, last, rfl⟩
    · obtain ⟨rfl, hlast⟩ := List.append_inj' hsplit rfl
      obtain rfl := List.singleton_inj.mp hlast
      exact ⟨x, by rw [← hinit.length_eq, List.getElem?_concat_length], hu⟩
    · rw [List.concat_eq_append, ← List.cons_append, ← List.append_assoc] at hsplit
      obtain ⟨y, hy, ht⟩ := ih (List.append_inj' hsplit rfl).1
      have hlt := (List.getElem?_eq_some_iff.mp hy).1
      exact ⟨y, by rw [List.getElem?_append_left hlt, hy], ht⟩

/-- A leaf of an item that has looked at a text inserts its content and nothing else. -/
theorem Inserts.all_of_read {before : List Token} {t : Token} {x : TokenTexts} {content : String}
    (h : t.Inserts before x) (hread : t.readText? = some content)
    (hbefore : ¬AwaitsFirstText before) : x.all = nonempty content := by
  obtain ⟨hkeeps, hsurrounds⟩ := h
  have hwhole {kept : String} (hkept : KeepsLeaf before content kept) : kept = content :=
    hkept.whole fun hfirst => hbefore hfirst.1
  cases t with
  | text _ | codeSpan _ =>
    cases hread
    obtain ⟨hfront, hbehind⟩ := hsurrounds
    simp [TokenTexts.all, hfront, hbehind, hwhole hkeeps]
  | _ => cases hread

end Token

theorem dropLineEnd_cases (text : String) :
    text = dropLineEnd text ++ "\n" ∨ dropLineEnd text = text ∧ endsLine text = false := by
  rw [dropLineEnd]
  cases hline : endsLine text with
  | false => exact .inr ⟨if_neg Bool.false_ne_true, rfl⟩
  | true =>
    left
    have hlast : text.toList.getLast? = some '\n' := beq_iff_eq.mp hline
    apply String.toList_inj.mp
    rw [if_pos rfl, String.toList_append, String.toList_ofList]
    exact (List.dropLast_append_getLast? '\n' hlast).symm

def Piece.texts : Piece → List String
  | text content => [content]
  | table content => nonempty content

theorem Piece.filterMap_text?_layOut (tab : Option String) (start : Int) (pieces : List Piece) :
    (layOut tab start pieces).filterMap Insertion.text? = pieces.flatMap texts := by
  induction pieces generalizing start with
  | nil => rfl
  | cons p rest ih =>
    have hfirst : (p.insertions tab start).filterMap Insertion.text? = p.texts := by
      cases p with
      | text content => rfl
      | table content =>
        rw [insertions, texts, nonempty]
        split <;> rfl
    rw [layOut, List.filterMap_append, hfirst, ih, List.flatMap_cons]

@[simp] theorem Piece.flatMap_texts_ofText (text : String) :
    (ofText text).flatMap texts = nonempty text := by
  by_cases h : text = "" <;> simp [ofText, nonempty, texts, h]

namespace Draft

/-- The texts that a draft has inserted, in turn. -/
def texts (d : Draft) : List String := d.insertions.toList.filterMap Insertion.text?

theorem Emits.texts {d next : Draft} {pieces : List Piece} (h : d.Emits pieces next) :
    next.texts = d.texts ++ pieces.flatMap Piece.texts := by
  rw [Draft.texts, h.insertions, List.filterMap_append, Piece.filterMap_text?_layOut, Draft.texts]

/-- A line is ended by a line end or by nothing. -/
theorem flatMap_texts_lineEnd (d : Draft) :
    d.lineEnd.flatMap Piece.texts = [] ∨ d.lineEnd.flatMap Piece.texts = ["\n"] := by
  rw [lineEnd]
  split
  · exact .inl rfl
  · exact .inr rfl

theorem flatMap_texts_blockStart (d : Draft) :
    d.blockStart.flatMap Piece.texts = [] ∨ d.blockStart.flatMap Piece.texts = ["\n"] := by
  rw [blockStart]
  split
  · exact .inl rfl
  · exact d.flatMap_texts_lineEnd

section Start

variable {first : Int} {tab : Option String} {headingAsTitle : Bool} {d next : Draft}
  {before : List Token}

theorem keepsLeaf_leafText (hatoms : ∀ t ∈ before, t.IsAtom)
    (hd : (Draft.start first tab headingAsTitle).steps before = .ok d) (content : String) :
    Token.KeepsLeaf before content (d.leafText content) := by
  have hawaits := awaitsText_iff hatoms hd
  constructor
  · intro hfirst hmarked
    obtain ⟨rest, hstrip, hrest⟩ := TaskMarkers.exists_strip?_of_isMarked hmarked
    rw [leafText_eq, if_pos (hawaits.mpr hfirst), hstrip]
    exact hrest
  · intro hwhole
    rw [leafText_eq]
    split
    · rename_i hfirst
      rw [TaskMarkers.strip?_of_not_isMarked fun hmarked => hwhole ⟨hawaits.mp hfirst, hmarked⟩]
      rfl
    · rfl

/-- What a token has inserted, given the atoms in front of it. -/
def InsertsTexts (d : Draft) (before : List Token) (t : Token) (next : Draft) : Prop :=
  ∃ x : TokenTexts, t.Inserts before x ∧ next.texts = d.texts ++ x.all

/-- A token without content. -/
theorem Emits.insertsTexts {t : Token} {pieces : List Piece} (he : d.Emits pieces next)
    (ht : t.Inserts before { front := pieces.flatMap Piece.texts }) :
    d.InsertsTexts before t next := by
  refine ⟨_, ht, ?_⟩
  rw [he.texts]
  simp [TokenTexts.all, nonempty]

theorem Emits.insertsTexts_leaf {t : Token} {content : String}
    (he : d.Emits (Piece.ofText (d.leafText content)) next)
    (ht : t.Inserts before { kept := d.leafText content }) : d.InsertsTexts before t next := by
  refine ⟨_, ht, ?_⟩
  rw [he.texts, Piece.flatMap_texts_ofText]
  simp [TokenTexts.all]

/-- A token inserts what it keeps of its content, and little else. -/
theorem insertsTexts_step {t : Token} (hatoms : ∀ t ∈ before, t.IsAtom)
    (hd : (Draft.start first tab headingAsTitle).steps before = .ok d) (ht : t.IsAtom)
    (hs : d.step t = .ok next) : d.InsertsTexts before t next := by
  have silent (he : d.Emits [] next) (ht : t.Inserts before {}) : d.InsertsTexts before t next :=
    he.insertsTexts ht
  have hlineEnd : ∀ text ∈ d.lineEnd.flatMap Piece.texts, text = "\n" := by
    rcases d.flatMap_texts_lineEnd with hline | hline <;> simp [hline]
  cases t with
  | inline children => exact ht.elim
  | text content =>
    cases hs
    exact (d.emits_insertLeaf content).insertsTexts_leaf
      ⟨keepsLeaf_leafText hatoms hd content, rfl, rfl⟩
  | codeSpan content =>
    cases hs
    exact (d.emits_insertCode content).insertsTexts_leaf
      ⟨keepsLeaf_leafText hatoms hd content, rfl, rfl⟩
  | openMark mark => cases hs; exact silent (.of_same rfl rfl rfl) ⟨rfl, rfl, nofun⟩
  | closeMark mark => cases hs; exact silent (.of_same rfl rfl rfl) ⟨rfl, rfl, nofun⟩
  | openLink target => cases hs; exact silent (d.emits_openLink target) ⟨rfl, rfl, nofun⟩
  | closeLink => cases hs; exact silent (.of_same rfl rfl rfl) ⟨rfl, rfl, nofun⟩
  | softBreak =>
    cases hs
    exact (d.emits_insertText (by decide)).insertsTexts ⟨rfl, rfl, rfl⟩
  | hardBreak =>
    cases hs
    exact (d.emits_insertText (by decide)).insertsTexts ⟨rfl, rfl, by simp [Piece.texts]⟩
  | openHeading tag => cases hs; exact silent (d.emits_openHeading tag) ⟨rfl, rfl, nofun⟩
  | closeHeading =>
    cases hs
    refine d.emits_closeHeading.insertsTexts ⟨rfl, rfl, ?_⟩
    split <;> simp [Piece.texts]
  | openParagraph => cases hs; exact silent d.emits_openParagraph ⟨rfl, rfl, nofun⟩
  | closeParagraph =>
    cases hs
    exact d.emits_closeParagraph.insertsTexts ⟨rfl, rfl, hlineEnd⟩
  | openList kind => cases hs; exact silent (.of_same rfl rfl rfl) ⟨rfl, rfl, nofun⟩
  | closeList kind => cases hs; exact silent d.emits_closeList ⟨rfl, rfl, nofun⟩
  | openItem =>
    obtain ⟨list, outer, hlists, he⟩ := emits_openItem hs
    have hlevel := level_of_steps hd hlists
    rw [Token.atomsOf_of_isAtom hatoms, Token.length_openLists] at hlevel
    exact he.insertsTexts ⟨rfl, rfl, list.level, hlevel.symm, Piece.flatMap_texts_ofText _⟩
  | closeItem =>
    cases hs
    refine d.emits_closeItem.insertsTexts ⟨rfl, rfl, ?_⟩
    split
    · exact nofun
    · exact hlineEnd
  | codeBlock content info =>
    cases hs
    refine ⟨⟨d.blockStart.flatMap Piece.texts, dropLineEnd content, ["\n"]⟩,
      ⟨dropLineEnd_cases content, d.flatMap_texts_blockStart, rfl⟩, ?_⟩
    rw [(d.emits_insertCodeBlock content info).texts]
    simp [TokenTexts.all, Piece.texts]
  | rule =>
    cases hs
    refine d.emits_insertRule.insertsTexts ⟨rfl, rfl, ?_⟩
    rw [List.flatMap_append, List.forall_mem_append]
    exact ⟨hlineEnd, by simp [Piece.texts]⟩
  | skipped type children => cases hs; exact silent (.refl d) ⟨rfl, rfl, nofun⟩
  | malformed type words => cases hs

theorem exists_insertsEach_of_steps (hatoms : ∀ t ∈ before, t.IsAtom)
    (hd : (Draft.start first tab headingAsTitle).steps before = .ok d) :
    ∃ xs, Token.InsertsEach before xs ∧ d.texts = xs.flatMap TokenTexts.all := by
  induction before using List.reverseRecOn generalizing d with
  | nil =>
    rw [steps_nil] at hd
    cases hd
    exact ⟨[], .nil, rfl⟩
  | append_singleton before t ih =>
    obtain ⟨hbefore, ht⟩ := List.forall_mem_append.mp hatoms
    obtain ⟨reached, hreached, hlast⟩ := steps_append_eq_ok.mp hd
    rw [steps_singleton] at hlast
    obtain ⟨xs, hxs, htexts⟩ := ih hbefore hreached
    obtain ⟨x, hx, hnext⟩ :=
      insertsTexts_step hbefore hreached (ht t List.mem_cons_self) hlast
    exact ⟨xs ++ [x], .concat hxs hx, by simp [hnext, htexts]⟩

end Start

end Draft

/-- Of each token in turn a conversion inserts the content as it stands, without the marker of a
task and without the last line end of a code block, and around it spaces, line ends and tabs. Behind
the first text of an item nothing is left out of the texts of that item. -/
theorem convertTokens_keepsTexts {config : Config} {tokens : List Token} {o : Options}
    {c : Conversion} (h : convertTokens config tokens o = .ok c) :
    ∃ xs, Token.InsertsEach (Token.atomsOf tokens) xs ∧
      c.insertions.filterMap Insertion.text? = xs.flatMap TokenTexts.all ∧
      ∀ outer inside t after text content,
        Token.atomsOf tokens = (outer ++ .openItem :: inside) ++ t :: after →
          Token.IsItemBody inside → text ∈ Token.ownTexts 1 inside → text ≠ "" →
            t.readText? = some content →
              ∃ x, xs[(outer ++ .openItem :: inside).length]? = some x ∧
                x.all = nonempty content := by
  obtain ⟨first, tab, final, -, -, hrun, rfl⟩ := convertTokens_eq_ok.mp h
  rw [← Draft.steps_atomsOf] at hrun
  obtain ⟨xs, hxs, htexts⟩ :=
    Draft.exists_insertsEach_of_steps (Token.isAtom_of_mem_atomsOf tokens) hrun
  refine ⟨xs, hxs, htexts, ?_⟩
  intro outer inside t after text content hsplit hbody htext hne hread
  obtain ⟨x, hx, hinserts⟩ := hxs.exists_of_split hsplit
  exact ⟨x, hx, hinserts.all_of_read hread (hbody.not_awaitsFirstText htext hne)⟩

/-- The tokens of an item whose first text is nothing but a task marker and comes behind an item
nested in it. -/
def markerBehindItem : List Token :=
  [.openParagraph, .text "", .openMark .strong, .closeMark .strong, .closeParagraph,
    .openList .ordered, .openItem, .codeSpan "[X]  b", .softBreak, .text "[ ] c", .closeItem,
    .closeList .ordered, .text "[ ] "]

theorem isItemBody_markerBehindItem : Token.IsItemBody markerBehindItem := by
  refine ⟨fun part hpart => ?_, by decide⟩
  have hall : ∀ part ∈ markerBehindItem.inits, 0 < Token.itemDepth 1 part := by decide
  exact hall part ((List.mem_inits part markerBehindItem).mpr hpart)

/-- Texts that look like task markers, outside of all lists, in items, and behind the first text of
an item. -/
def markersInTurn : List Token :=
  [.openParagraph, .inline [.text "[x] a"], .closeParagraph, .openList .bullet, .openItem,
    .inline markerBehindItem, .inline [.inline [.text "[x] d"]], .codeBlock "e\n\n" "", .closeItem,
    .closeList .bullet]

theorem convertTokens_keepsTexts_markersInTurn :
    ∃ c, convertTokens .standard markersInTurn {} = .ok c ∧
      c.insertions.filterMap Insertion.text? =
        ["[x] a", "\n", "\t", "b", " ", "[ ] c", "\n", "[x] d", "\n", "e\n", "\n"] ∧
      ∃ xs, Token.InsertsEach (Token.atomsOf markersInTurn) xs ∧
        c.insertions.filterMap Insertion.text? = xs.flatMap TokenTexts.all ∧
        ∃ x, xs[18]? = some x ∧ x.all = ["[x] d"] := by
  obtain ⟨c, hc⟩ : ∃ c, convertTokens .standard markersInTurn {} = .ok c :=
    exists_eq_ok_of_isOk (by decide +kernel)
  have htexts : (convertTokens .standard markersInTurn {}).toOption.map
      (·.insertions.filterMap Insertion.text?) = some
        ["[x] a", "\n", "\t", "b", " ", "[ ] c", "\n", "[x] d", "\n", "e\n", "\n"] := by
    decide +kernel
  rw [hc] at htexts
  have hsplit : Token.atomsOf markersInTurn =
      ([.openParagraph, .text "[x] a", .closeParagraph, .openList .bullet] ++
        .openItem :: markerBehindItem) ++
          .text "[x] d" :: [.codeBlock "e\n\n" "", .closeItem, .closeList .bullet] := by
    simp [markersInTurn, markerBehindItem, Token.atomsOf, Token.atoms]
  obtain ⟨xs, hxs, hall, hlater⟩ := convertTokens_keepsTexts hc
  have hkept := hlater _ _ _ _ "[ ] " "[x] d" hsplit isItemBody_markerBehindItem
    (by simp [markerBehindItem, Token.ownTexts, Token.readText?, Token.nextDepth]) (by decide) rfl
  exact ⟨c, hc, Option.some.inj htexts, xs, hxs, hall, hkept⟩

end MarkdownEdits
