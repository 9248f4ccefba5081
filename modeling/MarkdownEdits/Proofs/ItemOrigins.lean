import MarkdownEdits.Proofs.StepEffects

/-!
# Origins of items

An item is recorded with its start and its level when it is opened. No later token touches either.
-/
namespace MarkdownEdits

/-- Where an item starts, and the level of its list. -/
structure Origin where
  start : Int
  level : Nat
  deriving DecidableEq, Repr

def ListItem.origin (item : ListItem) : Origin := ⟨item.start, item.level⟩

namespace Draft

def origins (d : Draft) : List Origin := d.records.items.toList.map ListItem.origin

theorem KeepsContent.origins {d next : Draft} (h : d.KeepsContent next) :
    next.origins = d.origins := by
  simp only [Draft.origins, h.items]

theorem origins_takeMarker (d : Draft) (text : String) :
    (d.takeMarker text).1.origins = d.origins := by
  rw [takeMarker]
  split
  · rfl
  · split
    · rfl
    · split
      · exact map_modifyItem_of_eq ListItem.origin d _ fun _ => rfl
      · exact map_modifyItem_of_eq ListItem.origin d _ fun _ => rfl

theorem origins_insertStyled (d : Draft) (text : String) :
    (d.insertStyled text).origins = d.origins := by
  rw [insertStyled]
  split <;> rfl

theorem origins_insertLeaf (d : Draft) (text : String) :
    (d.insertLeaf text).origins = d.origins := by
  by_cases h : text = ""
  · rw [h, insertLeaf_empty]
  · rw [d.insertLeaf_eq h]
    split
    · exact d.origins_takeMarker text
    · exact (origins_insertStyled _ _).trans (d.origins_takeMarker text)

theorem origins_closeParagraph (d : Draft) : d.closeParagraph.origins = d.origins :=
  map_closeParagraph ListItem.origin (fun _ _ => rfl) d

theorem origins_closeItem (d : Draft) : d.closeItem.origins = d.origins :=
  map_closeItem ListItem.origin (fun _ _ => rfl) d

/-- An item starts at the cursor, in the innermost list. -/
theorem origins_openItem {d next : Draft} (h : d.openItem = .ok next) :
    ∃ list outer, d.lists = list :: outer ∧ next.origins = d.origins ++ [⟨d.cursor, list.level⟩] := by
  rw [openItem.eq_def] at h
  split at h
  · cases h
  · rename_i list outer hlists
    cases h
    refine ⟨list, outer, hlists, ?_⟩
    simp only [origins, addItem, record, Array.toList_push, List.map_append]
    split <;> rfl

theorem origins_step {d next : Draft} {t : Token} (ht : t.IsAtom) (hitem : t ≠ .openItem)
    (hs : d.step t = .ok next) : next.origins = d.origins := by
  cases t with
  | inline children => exact ht.elim
  | text content => cases hs; exact d.origins_insertLeaf content
  | codeSpan content =>
    cases hs
    exact origins_insertLeaf (d.openFormatting { code := some true }) content
  | openMark mark => cases hs; rfl
  | closeMark mark => cases hs; rfl
  | openLink target =>
    cases hs
    simp only [openLink]
    split
    · split <;> rfl
    · rfl
  | closeLink => cases hs; rfl
  | softBreak => cases hs; rfl
  | hardBreak => cases hs; rfl
  | openHeading tag => cases hs; exact (d.keepsContent_openHeading tag).origins
  | closeHeading => cases hs; exact d.keepsContent_closeHeading.origins
  | openParagraph => cases hs; exact d.keepsContent_openParagraph.origins
  | closeParagraph => cases hs; exact d.origins_closeParagraph
  | openList kind => cases hs; rfl
  | closeList kind => cases hs; exact d.keepsContent_closeList.origins
  | openItem => exact absurd rfl hitem
  | closeItem => cases hs; exact d.origins_closeItem
  | codeBlock content info => cases hs; exact (d.keepsContent_insertCodeBlock content info).origins
  | rule => cases hs; exact d.keepsContent_insertRule.origins
  | skipped type children => cases hs; rfl
  | malformed type words => cases hs

/-- Items are recorded one behind the other. -/
theorem origins_prefix_steps {d final : Draft} {tokens : List Token}
    (h : d.steps tokens = .ok final) : d.origins <+: final.origins := by
  refine invariant_steps (P := fun e => d.origins <+: e.origins) ?_ (List.prefix_refl _) h
  intro e t next ht hinit hs
  by_cases hitem : t = .openItem
  · subst hitem
    obtain ⟨_, _, -, horigins⟩ := origins_openItem hs
    rw [horigins]
    exact hinit.trans (List.prefix_append _ _)
  · rwa [origins_step ht hitem hs]

/-- The next item that is opened is recorded under the next index, with its origin. -/
theorem exists_item_of_openItem {d next final : Draft} {tokens : List Token}
    (h : d.openItem = .ok next) (hs : next.steps tokens = .ok final) :
    ∃ list outer item, d.lists = list :: outer ∧
      final.records.items[d.records.items.size]? = some item ∧
        item.start = d.cursor ∧ item.level = list.level := by
  obtain ⟨list, outer, hlists, horigins⟩ := origins_openItem h
  obtain ⟨rest, hrest⟩ := origins_prefix_steps hs
  have hlength : d.origins.length = d.records.items.size := by simp [origins]
  have horigin : final.origins[d.records.items.size]? = some ⟨d.cursor, list.level⟩ := by
    rw [← hrest, horigins, List.append_assoc, ← hlength, List.getElem?_append_right (Nat.le_refl _)]
    simp
  rw [origins, List.getElem?_map, Array.getElem?_toList, Option.map_eq_some_iff] at horigin
  obtain ⟨item, hitem, hsame⟩ := horigin
  exact ⟨list, outer, item, hlists, hitem, congrArg Origin.start hsame,
    congrArg Origin.level hsame⟩

end Draft
end MarkdownEdits
