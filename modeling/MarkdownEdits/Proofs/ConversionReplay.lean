import MarkdownEdits.Proofs.DraftDocuments

/-!
# Replaying a conversion

The insertions of a conversion, carried out in turn on an empty document, always find their index
inside the document or at its end. They leave the texts behind in the order in which they are
emitted, each code block in a table of its own, and the document ends at the cursor.
-/
namespace MarkdownEdits

/-- The insertions of a conversion of tokens, replayed from an index on, lay pieces end to end. -/
structure Conversion.Replays (c : Conversion) (start : Int) (tokens : List Token)
    (pieces : List Piece) : Prop where
  insertions : ∃ tab, c.insertions = Piece.layOut tab start pieces
  /-- There is one table for each code block, with the block's text in its cell. -/
  tables : pieces.filterMap Piece.cellText? = Token.codeTexts tokens
  document : (Document.empty start).replay? c.insertions = some ⟨start, Piece.unitsOf pieces⟩
  ascending : c.insertions.Pairwise (fun i j => i.location.index < j.location.index)
  nonempty : ∀ i ∈ c.insertions, i.text? ≠ some ""
  /-- The log tells the index behind the document. -/
  length : ∃ stop, Piece.width pieces = stop - start ∧
    c.log.getLast? = some (.converted c.insertions.length c.stylings.length stop)

theorem convertTokens_replays {config : Config} {tokens : List Token} {o : Options} {start : Int}
    {c : Conversion} (hstart : o.startIndex = .ok start)
    (h : convertTokens config tokens o = .ok c) : ∃ pieces, c.Replays start tokens pieces := by
  obtain ⟨first, tab, d, hfirst, -, hrun, rfl⟩ := convertTokens_eq_ok.mp h
  rw [hstart] at hfirst
  cases hfirst
  obtain ⟨pieces, he, htables⟩ := Draft.emits_steps hrun
  have hinsertions : (Conversion.ofDraft config d).insertions =
      Piece.layOut (namedTab tab) start pieces := by
    simpa [Draft.start, Conversion.ofDraft] using he.insertions
  refine ⟨pieces, ⟨_, hinsertions⟩, htables, ?_, ?_, ?_, d.cursor, ?_, ?_⟩
  · have hreplay := Piece.replay?_layOut (.empty start) (namedTab tab) pieces
    rw [Document.stop_empty] at hreplay
    rw [hinsertions, hreplay]
    rfl
  · rw [hinsertions]
    exact Piece.pairwise_layOut _ _ he.proper
  · rw [hinsertions]
    exact Piece.text?_ne_of_mem_layOut _ he.proper
  · have hcursor := he.cursor
    simp only [Draft.start] at hcursor
    omega
  · simp [Conversion.ofDraft]

/-- A stray close, a task with an emoji, a code block and an empty one in a nested list that is
never closed. -/
def unevenTokens : List Token :=
  [.closeItem, .openList .bullet, .openItem, .openParagraph, .inline [.text "[x] a😀", .closeLink],
    .openList .ordered, .openItem, .codeBlock "b\n" "", .closeParagraph, .codeBlock "" "c",
    .inline [.softBreak]]

theorem convertTokens_replays_unevenTokens :
    ∃ c, convertTokens .standard unevenTokens {} = .ok c ∧
      ∃ pieces, c.Replays 1 unevenTokens pieces := by
  obtain ⟨c, hc⟩ : ∃ c, convertTokens .standard unevenTokens {} = .ok c :=
    exists_eq_ok_of_isOk (by decide +kernel)
  exact ⟨c, hc, convertTokens_replays rfl hc⟩

end MarkdownEdits
