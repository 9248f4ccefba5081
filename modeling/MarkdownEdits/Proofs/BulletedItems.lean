import Mathlib.Data.List.Infix
import MarkdownEdits.Proofs.BulletOrder
import MarkdownEdits.Proofs.ItemMarkings
import MarkdownEdits.Proofs.TokenDepths

/-!
# Bullets of closed items

An item that is closed behind something other than a line end has a span, and some request for
bullets covers it. Its glyphs are those of its list, unless the first of its own texts makes it a
task; the texts of the items nested in it do not count.
-/
namespace MarkdownEdits

/-- A box in square brackets and a blank character stand at the front of the text. -/
def TaskMarkers.IsMarked (text : String) : Prop :=
  ∃ box blank rest, text.toList = '[' :: box :: ']' :: blank :: rest ∧
    (box = ' ' ∨ box = 'x' ∨ box = 'X') ∧ Whitespace.isBlank blank = true

theorem TaskMarkers.isSome_strip?_iff {text : String} :
    (strip? text).isSome = true ↔ IsMarked text := by
  simp only [strip?, Option.isSome_map, IsMarked]
  constructor
  · intro h
    rw [afterMarker?.eq_def] at h
    split at h
    · rename_i box blank rest hchars
      split at h
      · rename_i hmarker
        simp only [Bool.and_eq_true, Bool.or_eq_true, decide_eq_true_eq, or_assoc] at hmarker
        exact ⟨box, blank, rest, hchars, hmarker.1, hmarker.2⟩
      · cases h
    · cases h
  · rintro ⟨box, blank, rest, hchars, hbox, hblank⟩
    rw [hchars, afterMarker?, if_pos]
    · rfl
    · simpa [hblank, or_assoc] using hbox

namespace Token

/-- The texts at the depth of an item, given the depth at the start. Those of the items nested in it
are deeper. -/
def ownTexts (depth : Nat) : List Token → List String
  | [] => []
  | t :: rest =>
    (if depth = 1 then t.readText?.toList else []) ++ ownTexts (t.nextDepth depth) rest

/-- The tokens from the opening of an item to its close: the item is open behind each of them, and
the items nested in it are closed at the end. -/
structure IsItemBody (inside : List Token) : Prop where
  stays_open : ∀ part, part <+: inside → 0 < itemDepth 1 part
  closes_nested : itemDepth 1 inside = 1

/-- The first text of the item that is not empty begins with a task marker. -/
def IsTask (inside : List Token) : Prop :=
  ∃ text, (ownTexts 1 inside).find? (· != "") = some text ∧ TaskMarkers.IsMarked text

end Token

namespace Draft

/-! ## Steps -/

theorem getElem?_markingsAfter {d : Draft} (hopen : ∀ index ∈ d.openItems, 0 ≤ index) {n : Nat}
    (hn : n < d.records.items.size) (text : String) :
    (d.markingsAfter text)[n]? = d.markings[n]?.map fun m =>
      if d.openItems.head? = some (n : Int) then m.read text else m := by
  rw [markingsAfter, openItem?]
  cases hitems : d.openItems with
  | nil => simp
  | cons index rest =>
    obtain ⟨k, rfl⟩ := Int.eq_ofNat_of_zero_le (hopen index (by simp [hitems]))
    simp only [itemAt?_natCast, List.head?_cons, Option.some.injEq, Int.natCast_inj]
    by_cases hkn : k = n
    · subst hkn
      simp [Array.getElem?_eq_getElem hn]
    · cases d.records.items[k]? with
      | none => simp [hkn]
      | some item => simp [hkn]

/-- A token that has a text is read by the innermost open item and by no other. -/
theorem getElem?_markings_step {d next : Draft} {t : Token} (ht : t.IsAtom)
    (hopen : ∀ index ∈ d.openItems, 0 ≤ index) (hs : d.step t = .ok next) {n : Nat}
    (hn : n < d.records.items.size) :
    next.markings[n]? = d.markings[n]?.map fun m =>
      if d.openItems.head? = some (n : Int) then t.readText?.toList.foldl Marking.read m else m := by
  by_cases hitem : t = .openItem
  · subst hitem
    obtain ⟨list, outer, -, hmarkings⟩ := markings_openItem hs
    rw [hmarkings, List.getElem?_append_left (by simpa using hn)]
    simp [Token.readText?]
  · rw [markings_step ht hitem hs]
    cases htext : t.readText? with
    | none => simp
    | some text => simpa using getElem?_markingsAfter hopen hn text

/-- The stack over an item grows and shrinks with the items that are opened and closed in it. -/
theorem openItems_step_of_append {d next : Draft} {t : Token} (ht : t.IsAtom)
    (hs : d.step t = .ok next) {above below : List Int} (hopen : d.openItems = above ++ below)
    (hstays : 0 < t.nextDepth (above.length + 1)) :
    ∃ above', next.openItems = above' ++ below ∧
      above'.length + 1 = t.nextDepth (above.length + 1) := by
  have hnext := openItems_step ht hs
  cases t with
  | openItem => exact ⟨(d.records.items.size : Int) :: above, by rw [hnext, hopen]; rfl, rfl⟩
  | closeItem =>
    cases above with
    | nil => exact absurd hstays (Nat.lt_irrefl 0)
    | cons index above => exact ⟨above, by rw [hnext, hopen]; rfl, rfl⟩
  | _ => exact ⟨above, hnext.trans hopen, rfl⟩

/-! ## Runs -/

variable {d final : Draft} {document : Document} {n : Nat}

/-- While an item is open it reads its own texts, in turn. -/
theorem markings_steps_of_open {atoms : List Token} {above outer : List Int}
    (hatoms : ∀ t ∈ atoms, t.IsAtom) (hy : d.Yields document) (ho : (d.outline document).InOrder)
    (hopen : d.openItems = above ++ (n : Int) :: outer)
    (hstays : ∀ part, part <+: atoms → 0 < Token.itemDepth (above.length + 1) part)
    (h : d.steps atoms = .ok final) :
    (∃ above', final.openItems = above' ++ (n : Int) :: outer ∧
      above'.length + 1 = Token.itemDepth (above.length + 1) atoms) ∧
    final.markings[n]? = d.markings[n]?.map fun m =>
      (Token.ownTexts (above.length + 1) atoms).foldl Marking.read m := by
  induction atoms generalizing d document above with
  | nil =>
    rw [steps_nil] at h
    cases h
    exact ⟨⟨above, hopen, rfl⟩, by simp [Token.ownTexts]⟩
  | cons t rest ih =>
    obtain ⟨ht, hrest⟩ := List.forall_mem_cons.mp hatoms
    obtain ⟨next, hnext, hfinal⟩ := steps_cons_eq_ok.mp h
    have hdepth : 0 < t.nextDepth (above.length + 1) :=
      hstays [t] (List.prefix_append [t] rest)
    obtain ⟨above', hopen', hlength⟩ := openItems_step_of_append ht hnext hopen hdepth
    obtain ⟨units, hy', ho'⟩ := Yields.inOrder_follows ho (hy.follows_atom ht hnext)
    obtain ⟨hstack, hmarkings⟩ := ih hrest hy' ho' hopen' (fun part hpart => by
      rw [hlength]
      exact hstays (t :: part) (List.cons_prefix_cons.mpr ⟨rfl, hpart⟩)) hfinal
    rw [hlength] at hstack hmarkings
    refine ⟨hstack, ?_⟩
    -- The item is the innermost open one exactly if no other one is over it.
    have hhead : d.openItems.head? = some (n : Int) ↔ above.length + 1 = 1 := by
      have hpairwise := ho.openItems_pairwise
      simp only [outline] at hpairwise
      rw [hopen] at hpairwise ⊢
      cases above with
      | nil => simp
      | cons index above =>
        have hlt := (List.pairwise_append.mp hpairwise).2.2 index List.mem_cons_self n
          List.mem_cons_self
        simp only [List.cons_append, List.head?_cons, Option.some.injEq, List.length_cons]
        omega
    have hmem : (n : Int) ∈ d.openItems := by simp [hopen]
    have hlt := (ho.openItems_lt n hmem).2
    simp only [outline, length_bounds] at hlt
    rw [hmarkings, getElem?_markings_step ht (fun index hindex => (ho.openItems_lt index hindex).1)
      hnext (by omega), Option.map_map]
    congr 1
    funext m
    simp only [Function.comp, Token.ownTexts, List.foldl_append, hhead]
    split <;> rfl

/-- What has been read of a closed item stays. -/
theorem markings_steps_of_closed {tokens : List Token} (hy : d.Yields document)
    (ho : (d.outline document).InOrder) (hn : n < d.records.items.size)
    (hclosed : (n : Int) ∉ d.openItems) (h : d.steps tokens = .ok final) :
    final.markings[n]? = d.markings[n]? := by
  refine (invariant_steps (P := fun e => (∃ grown, d.GrowsTo document e grown) ∧
    e.markings[n]? = d.markings[n]?) ?_ ⟨⟨document, .refl hy ho⟩, rfl⟩ h).2
  rintro e t next ht ⟨⟨grown, he⟩, hsame⟩ hs
  have hrun : e.steps [t] = .ok next := (steps_singleton e t).trans hs
  obtain ⟨last, hnext⟩ := he.yields.growsTo_steps he.inOrder hrun
  refine ⟨⟨last, he.trans hnext⟩, ?_⟩
  have hstill : e.openItems.head? ≠ some (n : Int) := by
    intro hhead
    rcases he.outline.openItems n (List.mem_of_head? hhead) with hmem | hle
    · exact hclosed hmem
    · simp only [outline, length_bounds] at hle
      omega
  have hlt := he.outline.length_le
  simp only [outline, length_bounds] at hlt
  rw [getElem?_markings_step ht (fun index hindex => (he.inOrder.openItems_lt index hindex).1) hs
    (by omega), ← hsame]
  simp [hstill]

/-- An item that starts in front of the last unit has an end once it is closed. -/
theorem isSome_stop_closeItem {item : ListItem} {rest : List Int}
    (hopen : d.openItems = (n : Int) :: rest) (hitem : d.records.items[n]? = some item)
    (hlt : item.start < d.closeItem.cursor - 1) :
    ∃ b, d.closeItem.bounds[n]? = some b ∧ b.stop.isSome = true := by
  have hclose := closeItem_of_cons hopen
  have hline := endsWithNewline_endLine d
  rw [← d.records_endLine] at hitem
  generalize d.endLine = e at hclose hline hitem
  have hcursor : (e.endItem n).cursor = e.cursor := by
    simpa using (e.emits_endItem n).cursor
  have hend : e.contentEnd = e.cursor - 1 := by rw [contentEnd, if_pos hline]
  rw [hclose] at hlt ⊢
  change item.start < (e.endItem n).cursor - 1 at hlt
  change ∃ b, (e.endItem n).bounds[n]? = some b ∧ b.stop.isSome = true
  rw [hcursor, ← hend] at hlt
  rw [endItem, itemAt?_natCast, hitem]
  cases hstop : item.stop with
  | none =>
    simp [hstop, hlt, getElem?_bounds, modifyItem, record, Array.getElem?_modify, hitem,
      ListItem.bounds]
  | some stop =>
    simp [hstop, getElem?_bounds, hitem, ListItem.bounds]

end Draft

/-! ## Conversions -/

/-- What becomes of an item that is opened at an index in a list of some kind and then closed, given
the units inserted in between and the tokens that stand there. -/
structure Conversion.BulletsItem (c : Conversion) (item : ListItem) (start : Int) (kind : ListKind)
    (inside : List Token) (units : List DocumentUnit) : Prop where
  start_eq : item.start = start
  checkbox_iff : item.preset = .checkbox ↔ Token.IsTask inside
  preset_eq : ¬Token.IsTask inside → item.preset = kind.preset
  covered : (∃ u ∈ units, u ≠ .newline) → ∃ stop, item.stop = some stop ∧ item.start < stop ∧
    ∃ r ∈ c.bullets, r.Covers ⟨⟨item.start, stop⟩, item.preset⟩

theorem Marking.preset_foldl_ownTexts (kind : ListKind) (inside : List Token) {m : Marking}
    (h : m = (Token.ownTexts 1 inside).foldl read ⟨kind.preset, false⟩) :
    (m.preset = .checkbox ↔ Token.IsTask inside) ∧
      (¬Token.IsTask inside → m.preset = kind.preset) := by
  have hkind : kind.preset ≠ .checkbox := by cases kind <;> decide
  rw [foldl_read rfl] at h
  simp only [Token.IsTask]
  cases hfirst : (Token.ownTexts 1 inside).find? (· != "") with
  | none => simp [h, hfirst, hkind]
  | some text =>
    have hne : text ≠ "" := by simpa using List.find?_some hfirst
    rw [hfirst] at h
    have hread := read_of_unchecked (m := ⟨kind.preset, false⟩) rfl hne
    simp only [h, hread, ← TaskMarkers.isSome_strip?_iff, Option.some.injEq, exists_eq_left']
    cases (TaskMarkers.strip? text).isSome with
    | true => simp
    | false => simp [hkind]

/-- A document that ends its line has another unit only in front of its last one. -/
private theorem one_lt_length_of_mem {units : List DocumentUnit} {u : DocumentUnit}
    (hlast : units.getLast? = some .newline) (hu : u ∈ units) (hne : u ≠ .newline) :
    1 < units.length := by
  match units with
  | [] => cases hu
  | [x] =>
    rw [List.mem_singleton.mp hu] at hne
    exact absurd (Option.some.inj hlast) hne
  | x :: y :: rest => simp

namespace Draft

variable {opened closed final : Draft} {document last : Document} {units : List DocumentUnit}
  {inside after : List Token}

/-- The parts of a run from the opening of an item to its close. -/
theorem steps_item_eq_ok :
    opened.steps (.openItem :: inside ++ [.closeItem]) = .ok closed ↔ ∃ first stop,
      opened.openItem = .ok first ∧ first.steps inside = .ok stop ∧ stop.closeItem = closed := by
  simp only [List.cons_append, steps_cons_eq_ok, steps_append_eq_ok, steps_singleton, step,
    Except.ok.injEq]
  constructor
  · rintro ⟨first, hfirst, stop, hstop, hclosed⟩
    exact ⟨first, stop, hfirst, hstop, hclosed⟩
  · rintro ⟨first, stop, hfirst, hstop, hclosed⟩
    exact ⟨first, hfirst, stop, hstop, hclosed⟩

/-- In front of its close an item is the innermost open one, and it has read its own texts. -/
theorem exists_item_before_close {first : Draft} (hy : opened.Yields document)
    (ho : (opened.outline document).InOrder) (hinside : ∀ t ∈ inside, t.IsAtom)
    (hbody : Token.IsItemBody inside) (hfirst : opened.openItem = .ok first)
    (hrun : first.steps inside = .ok d) :
    ∃ list outer item, opened.lists = list :: outer ∧
      d.openItems = (opened.records.items.size : Int) :: opened.openItems ∧
      d.records.items[opened.records.items.size]? = some item ∧ item.start = document.stop ∧
      item.marking = (Token.ownTexts 1 inside).foldl Marking.read ⟨list.kind.preset, false⟩ := by
  obtain ⟨list, outer, hlists, hmarkings⟩ := markings_openItem hfirst
  have hbounds := bounds_openItem hfirst
  have hopen : first.openItems = [] ++ (opened.records.items.size : Int) :: opened.openItems :=
    openItems_openItem hfirst
  obtain ⟨grown, hy', ho'⟩ := Yields.inOrder_follows ho (hy.follows_openItem hfirst)
  obtain ⟨⟨above, hstack, hdepth⟩, hread⟩ := markings_steps_of_open hinside hy' ho' hopen
    hbody.stays_open hrun
  obtain ⟨middle, hgrows⟩ := hy'.growsTo_steps ho' hrun
  -- All items nested in this one are closed, so no other one is over it.
  have habove : above = [] := List.length_eq_zero_iff.mp (by
    rw [List.length_nil, hbody.closes_nested] at hdepth
    omega)
  rw [habove, List.nil_append] at hstack
  obtain ⟨b, hb, hstart⟩ := hgrows.outline.start opened.records.items.size ⟨opened.cursor, none⟩
    (by simp [outline, hbounds])
  obtain ⟨item, hitem, rfl⟩ := Option.map_eq_some_iff.mp ((getElem?_bounds _ _).symm.trans hb)
  refine ⟨list, outer, item, hlists, hstack, hitem, hstart.trans hy.cursor, ?_⟩
  rw [getElem?_markings, hitem, hmarkings, ← length_markings, List.getElem?_concat_length] at hread
  exact Option.some.inj hread

/-- Right behind its close an item has its start, what has been read of it, and an end if something
stands in front of the last line end. -/
theorem exists_item_behind_close (hy : opened.Yields document)
    (ho : (opened.outline document).InOrder) (hinside : ∀ t ∈ inside, t.IsAtom)
    (hbody : Token.IsItemBody inside)
    (hrun : opened.steps (.openItem :: inside ++ [.closeItem]) = .ok closed) :
    ∃ list outer b, opened.lists = list :: outer ∧ closed.openItems = opened.openItems ∧
      closed.endsWithNewline = true ∧ closed.bounds[opened.records.items.size]? = some b ∧
      b.start = document.stop ∧ closed.markings[opened.records.items.size]? =
        some ((Token.ownTexts 1 inside).foldl Marking.read ⟨list.kind.preset, false⟩) ∧
      (document.stop < closed.cursor - 1 → b.stop.isSome = true) := by
  obtain ⟨first, d, hfirst, hd, rfl⟩ := steps_item_eq_ok.mp hrun
  obtain ⟨list, outer, item, hlists, hopen, hitem, hstart, hmarking⟩ :=
    exists_item_before_close hy ho hinside hbody hfirst hd
  have hbehind : opened.steps (.openItem :: inside) = .ok d :=
    steps_cons_eq_ok.mpr ⟨first, hfirst, hd⟩
  obtain ⟨middle, hgrows⟩ := hy.growsTo_steps ho hbehind
  obtain ⟨last, hlast⟩ := hgrows.yields.growsTo_steps hgrows.inOrder (steps_singleton d .closeItem)
  have hbounds : d.bounds[opened.records.items.size]? = some item.bounds := by
    rw [getElem?_bounds, hitem, Option.map_some]
  obtain ⟨b, hb, hsame⟩ := hlast.outline.start opened.records.items.size item.bounds hbounds
  refine ⟨list, outer, b, hlists, ?_, ?_, hb, hsame.trans hstart, ?_, fun hlt => ?_⟩
  · have hclosed := openItems_step (d := d) (t := .closeItem) trivial rfl
    rw [hopen] at hclosed
    exact hclosed
  · rw [closeItem, hopen]
    exact endsWithNewline_endLine _
  · rw [markings_closeItem, getElem?_markings, hitem, Option.map_some, hmarking]
  · obtain ⟨c, hc, hstop⟩ := isSome_stop_closeItem hopen hitem (by omega)
    rw [Option.some.inj (hb.symm.trans hc)]
    exact hstop

/-- What the close of an item leaves is final. -/
theorem exists_bulletsItem (config : Config) (hy : opened.Yields document)
    (ho : (opened.outline document).InOrder) (hinside : ∀ t ∈ inside, t.IsAtom)
    (hbody : Token.IsItemBody inside)
    (hrun : opened.steps (.openItem :: inside ++ [.closeItem]) = .ok closed)
    (hclosed : opened.GrowsTo document closed (document.append units))
    (hfinal : closed.GrowsTo (document.append units) final last)
    (hafter : closed.steps after = .ok final) :
    ∃ list outer item, opened.lists = list :: outer ∧
      final.records.items[opened.records.items.size]? = some item ∧
        (Conversion.ofDraft config final).BulletsItem item document.stop list.kind inside units := by
  obtain ⟨list, outer, b, hlists, hopen, hline, hb, hstart, hmarking, hstop⟩ :=
    exists_item_behind_close hy ho hinside hbody hrun
  have hfree : (opened.records.items.size : Int) ∉ closed.openItems := by
    intro hmem
    rw [hopen] at hmem
    have hlt := (ho.openItems_lt _ hmem).2
    simp only [outline, length_bounds] at hlt
    omega
  have hkept := hfinal.outline.closed _ b hb hfree
  obtain ⟨item, hitem, rfl⟩ := Option.map_eq_some_iff.mp ((getElem?_bounds _ _).symm.trans hkept)
  have hlt : opened.records.items.size < closed.records.items.size := by
    simpa using (List.getElem?_eq_some_iff.mp hb).1
  have hread := markings_steps_of_closed hclosed.yields hclosed.inOrder hlt hfree hafter
  rw [hmarking, getElem?_markings, hitem, Option.map_some, Option.some.injEq] at hread
  obtain ⟨hcheckbox, hpreset⟩ := Marking.preset_foldl_ownTexts list.kind inside hread
  refine ⟨list, outer, item, hlists, hitem, hstart, hcheckbox, hpreset, ?_⟩
  rintro ⟨u, hu, hne⟩
  have hlast := hclosed.yields.newline.mp hline
  rw [Document.units_append, List.getLast?_append_of_ne_nil _ (List.ne_nil_of_mem hu)] at hlast
  have hlength := one_lt_length_of_mem hlast hu hne
  have hcursor := hclosed.yields.cursor
  rw [Document.stop_append] at hcursor
  obtain ⟨stop, hend⟩ := Option.isSome_iff_exists.mp (hstop (by omega))
  have hproper := (hfinal.inOrder.stop_bounds _ (List.mem_of_getElem? hkept) stop hend).1
  have hspan := mem_itemSpans hitem hend hproper
  obtain ⟨r, hr, hcovers⟩ :=
    BulletSpan.exists_covers_merge (startsInOrder_itemSpans hfinal.inOrder) _ hspan
  exact ⟨stop, hend, hproper, r, (mem_bullets_ofDraft config hfinal.inOrder).mpr hr, hcovers⟩

end Draft

/-- Whatever stream is converted, an item that is opened and closed in it has the glyphs of its list
or those of a task, and bullets if something but line ends is inserted in between. -/
theorem convertTokens_bulletsItem {config : Config} {tokens before inside after : List Token}
    {o : Options} {c : Conversion} (h : convertTokens config tokens o = .ok c)
    (hsplit : Token.atomsOf tokens = before ++ (.openItem :: inside ++ [.closeItem]) ++ after)
    (hbody : Token.IsItemBody inside) :
    ∃ first tab opened closed final document units behind kind outer item,
      o.startIndex = .ok first ∧ o.tabIdentifier = .ok tab ∧
      (Draft.start first tab (o.wantsTitle config)).steps before = .ok opened ∧
      opened.steps (.openItem :: inside ++ [.closeItem]) = .ok closed ∧
      closed.steps after = .ok final ∧ c = .ofDraft config final ∧
      document.first = first ∧ c.Inserts opened closed document units behind ∧
      Token.openLists [] before = kind :: outer ∧
      final.records.items[opened.records.items.size]? = some item ∧
      c.BulletsItem item document.stop kind inside units := by
  obtain ⟨first, tab, final, hfirst, htab, hrun, rfl⟩ := convertTokens_eq_ok.mp h
  have hatoms := Token.isAtom_of_mem_atomsOf tokens
  rw [hsplit] at hatoms
  have hbefore : ∀ t ∈ before, t.IsAtom := fun t ht => hatoms t (by simp [ht])
  have hinside : ∀ t ∈ inside, t.IsAtom := fun t ht => hatoms t (by simp [ht])
  obtain ⟨opened, closed, document, middle, last, hopened, hclosed, hafter, hdocument, hmiddle,
    hlast⟩ := Draft.growsTo_split hrun hsplit
  obtain ⟨units, behind, rfl, rfl, hinserts⟩ := hmiddle.inserts hdocument.yields hlast config
  obtain ⟨list, outer, item, hlists, hitem, hbullets⟩ := Draft.exists_bulletsItem config
    hdocument.yields hdocument.inOrder hinside hbody hclosed hmiddle hlast hafter
  have hkinds := Draft.kinds_steps hbefore hopened
  rw [hlists] at hkinds
  exact ⟨first, tab, opened, closed, final, document, units, behind, list.kind, _, item, hfirst,
    htab, hopened, hclosed, hafter, rfl, hdocument.first_eq, hinserts, hkinds.symm, hitem, hbullets⟩

/-- The tokens of an item with a code span in front of a task nested in it and a text that looks
like a task marker behind. -/
def itemAroundTask : List Token :=
  [.openParagraph, .text "", .codeSpan "a", .closeParagraph, .openList .ordered, .openItem,
    .openParagraph, .text "[x] b", .closeParagraph, .closeItem, .closeList .ordered,
    .text "[ ] c"]

theorem isItemBody_itemAroundTask : Token.IsItemBody itemAroundTask := by
  refine ⟨fun part hpart => ?_, by decide⟩
  have hall : ∀ part ∈ itemAroundTask.inits, 0 < Token.itemDepth 1 part := by decide
  exact hall part ((List.mem_inits part itemAroundTask).mpr hpart)

/-- The item in a list of its own inside another item, which is left open. -/
def itemInOpenItem : List Token :=
  [.openList .ordered, .openItem, .openList .bullet, .openItem, .openParagraph,
    .inline [.text "", .codeSpan "a"], .closeParagraph, .openList .ordered, .openItem,
    .openParagraph, .inline [.text "[x] b"], .closeParagraph, .closeItem, .closeList .ordered,
    .inline [.text "[ ] c"], .closeItem, .codeBlock "d" ""]

theorem convertTokens_bulletsItem_itemInOpenItem :
    ∃ c, convertTokens .standard itemInOpenItem {} = .ok c ∧
      ∃ start units item, c.BulletsItem item start .bullet itemAroundTask units ∧
        item.preset = .unordered := by
  obtain ⟨c, hc⟩ : ∃ c, convertTokens .standard itemInOpenItem {} = .ok c :=
    exists_eq_ok_of_isOk (by decide +kernel)
  have hsplit : Token.atomsOf itemInOpenItem = [.openList .ordered, .openItem, .openList .bullet] ++
      (.openItem :: itemAroundTask ++ [.closeItem]) ++ [.codeBlock "d" ""] := by
    simp [itemInOpenItem, itemAroundTask, Token.atomsOf, Token.atoms]
  obtain ⟨first, tab, opened, closed, final, document, units, behind, kind, outer, item, -, -, -, -,
    -, -, -, -, hlists, -, hbullets⟩ := convertTokens_bulletsItem hc hsplit isItemBody_itemAroundTask
  have hkind : kind = .bullet := (List.cons_eq_cons.mp hlists).1.symm
  subst hkind
  refine ⟨c, hc, document.stop, units, item, hbullets, hbullets.preset_eq ?_⟩
  rintro ⟨text, hfirst, hmarked⟩
  have htext : text = "a" := by
    have hfind : (Token.ownTexts 1 itemAroundTask).find? (· != "") = some "a" := by decide
    exact Option.some.inj (hfirst.symm.trans hfind)
  rw [htext, ← TaskMarkers.isSome_strip?_iff] at hmarked
  exact absurd hmarked (by decide)

end MarkdownEdits
