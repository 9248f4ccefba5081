import Mathlib.Logic.Relation
import MarkdownEdits.Proofs.DraftDocuments

/-!
# Outlines of list items

The outline of a draft is its document with the bounds of the items in it. Whatever a run does to
an outline is made up of four steps: the document grows, an item opens behind it, the innermost
open item ends in front of the line end that the document ends with, and an item is closed.
-/
namespace MarkdownEdits

/-- A document with the bounds of the items in it and the indices of the open ones, innermost
first. -/
structure Outline where
  document : Document
  items : List Bounds
  openItems : List Int

namespace Outline

inductive Step : Outline → Outline → Prop
  | grow (o : Outline) (units : List DocumentUnit) :
      Step o { o with document := o.document.append units }
  | openItem (o : Outline) :
      Step o { o with
        items := o.items ++ [⟨o.document.stop, none⟩]
        openItems := o.items.length :: o.openItems }
  | endItem (o : Outline) {index : Int} {rest : List Int} {i : Nat} {item : Bounds}
      (hopen : o.openItems = index :: rest) (hplace : placeOf? o.items.length index = some i)
      (hitem : o.items[i]? = some item) (hstart : item.start < o.document.stop - 1)
      (hline : o.document.units.getLast? = some .newline) :
      Step o { o with items := o.items.set i ⟨item.start, some (o.document.stop - 1)⟩ }
  | closeItem (o : Outline) {index : Int} {rest : List Int} (hopen : o.openItems = index :: rest) :
      Step o { o with openItems := rest }

/-- The invariant of outlines. Items start in ascending order and end in front of a line end of the
document, and where an item starts that is open or has an end, no item ends. -/
structure InOrder (o : Outline) : Prop where
  openItems_lt : ∀ index ∈ o.openItems, 0 ≤ index ∧ index < o.items.length
  openItems_pairwise : o.openItems.Pairwise (fun inner outer => outer < inner)
  starts_pairwise : o.items.Pairwise (fun a b => a.start ≤ b.start)
  start_le : ∀ a ∈ o.items, a.start ≤ o.document.stop
  stop_bounds : ∀ a ∈ o.items, ∀ stop, a.stop = some stop →
    a.start < stop ∧ stop < o.document.stop ∧ o.document.unitAt? stop = some .newline
  apart : ∀ (i : Nat) (a : Bounds), o.items[i]? = some a → (i : Int) ∈ o.openItems ∨ a.stop.isSome →
    ∀ b ∈ o.items, b.stop ≠ some a.start

theorem inOrder_empty (start : Int) : InOrder ⟨.empty start, [], []⟩ := by
  constructor <;> simp

private theorem InOrder.grow {o : Outline} (h : o.InOrder) (units : List DocumentUnit) :
    InOrder { o with document := o.document.append units } where
  openItems_lt := h.openItems_lt
  openItems_pairwise := h.openItems_pairwise
  starts_pairwise := h.starts_pairwise
  start_le := by
    intro a ha
    have hle := h.start_le a ha
    rw [Document.stop_append]
    omega
  stop_bounds := by
    intro a ha stop hstop
    obtain ⟨hlt, hend, hunit⟩ := h.stop_bounds a ha stop hstop
    refine ⟨hlt, ?_, Document.unitAt?_append hunit units⟩
    rw [Document.stop_append]
    omega
  apart := h.apart

private theorem InOrder.openItem {o : Outline} (h : o.InOrder) :
    InOrder { o with
      items := o.items ++ [⟨o.document.stop, none⟩]
      openItems := o.items.length :: o.openItems } where
  openItems_lt := by
    intro index hindex
    rw [List.length_append, List.length_singleton]
    rcases List.mem_cons.mp hindex with rfl | hindex
    · omega
    · have := h.openItems_lt index hindex
      omega
  openItems_pairwise :=
    List.pairwise_cons.mpr ⟨fun index hindex => (h.openItems_lt index hindex).2,
      h.openItems_pairwise⟩
  starts_pairwise := by
    refine List.pairwise_append.mpr ⟨h.starts_pairwise, List.pairwise_singleton _ _, ?_⟩
    intro a ha b hb
    rw [List.mem_singleton.mp hb]
    exact h.start_le a ha
  start_le := by
    intro a ha
    rcases List.mem_append.mp ha with ha | ha
    · exact h.start_le a ha
    · have hstart := congrArg Bounds.start (List.mem_singleton.mp ha)
      exact Int.le_of_eq hstart
  stop_bounds := by
    intro a ha stop hstop
    rcases List.mem_append.mp ha with ha | ha
    · exact h.stop_bounds a ha stop hstop
    · rw [List.mem_singleton.mp ha] at hstop
      cases hstop
  apart := by
    intro i a hi hkept b hb hstop
    rcases List.mem_append.mp hb with hb | hb
    · obtain ⟨-, hend, -⟩ := h.stop_bounds b hb a.start hstop
      by_cases hlt : i < o.items.length
      · rw [List.getElem?_append_left hlt] at hi
        refine h.apart i a hi (hkept.imp_left fun hmem => ?_) b hb hstop
        rcases List.mem_cons.mp hmem with heq | hmem
        · omega
        · exact hmem
      · -- The new item starts behind every end.
        have hnew := List.mem_of_getElem? hi
        rw [List.getElem?_append_right (by omega)] at hi
        rw [List.mem_singleton.mp (List.mem_of_getElem? hi)] at hend
        exact Int.lt_irrefl _ hend
    · rw [List.mem_singleton.mp hb] at hstop
      cases hstop

private theorem InOrder.endItem {o : Outline} (h : o.InOrder) {n : Nat} {rest : List Int}
    {item : Bounds} (hopen : o.openItems = (n : Int) :: rest) (hitem : o.items[n]? = some item)
    (hstart : item.start < o.document.stop - 1)
    (hline : o.document.units.getLast? = some .newline) :
    InOrder { o with items := o.items.set n ⟨item.start, some (o.document.stop - 1)⟩ } := by
  obtain ⟨hn, hget⟩ := List.getElem?_eq_some_iff.mp hitem
  have hmem {b : Bounds} (hb : b ∈ o.items.set n ⟨item.start, some (o.document.stop - 1)⟩) :
      b ∈ o.items ∨ b = ⟨item.start, some (o.document.stop - 1)⟩ := List.mem_or_eq_of_mem_set hb
  have hmemItem : item ∈ o.items := List.mem_of_getElem? hitem
  refine ⟨?_, h.openItems_pairwise, ?_, ?_, ?_, ?_⟩
  · simpa using h.openItems_lt
  · have hstarts : (o.items.set n ⟨item.start, some (o.document.stop - 1)⟩).map Bounds.start =
        o.items.map Bounds.start := by
      have hself := List.set_getElem_self (show n < (o.items.map Bounds.start).length by simpa)
      rw [List.getElem_map, hget] at hself
      rw [List.map_set, hself]
    rw [← List.pairwise_map, hstarts, List.pairwise_map]
    exact h.starts_pairwise
  · intro a ha
    rcases hmem ha with ha | rfl
    · exact h.start_le a ha
    · exact h.start_le item hmemItem
  · intro a ha stop hstop
    rcases hmem ha with ha | rfl
    · exact h.stop_bounds a ha stop hstop
    · cases hstop
      refine ⟨hstart, Int.sub_lt_self _ (by decide), ?_⟩
      rw [Document.unitAt?_pred_stop, hline]
  · intro i a hi hkept b hb hstop
    by_cases hin : i = n
    · subst hin
      rw [List.getElem?_set_self hn] at hi
      cases hi
      rcases hmem hb with hb | rfl
      · exact h.apart i item hitem (.inl (by simp [hopen])) b hb hstop
      · have hend : o.document.stop - 1 = item.start := Option.some.inj hstop
        omega
    · rw [List.getElem?_set_ne (Ne.symm hin)] at hi
      rcases hmem hb with hb | rfl
      · exact h.apart i a hi hkept b hb hstop
      · -- Another item that is open or has an end starts in front of the new end.
        have hlt : a.start < o.document.stop - 1 := by
          rcases hkept with hkept | hkept
          · have hin' : (i : Int) ∈ rest := by
              rw [hopen] at hkept
              rcases List.mem_cons.mp hkept with heq | hmem
              · omega
              · exact hmem
            have hpairwise := h.openItems_pairwise
            rw [hopen] at hpairwise
            have hbefore := (List.pairwise_cons.mp hpairwise).1 _ hin'
            obtain ⟨hi', rfl⟩ := List.getElem?_eq_some_iff.mp hi
            have hle := List.pairwise_iff_getElem.mp h.starts_pairwise i n hi' hn (by omega)
            rw [hget] at hle
            omega
          · obtain ⟨stop, hstop'⟩ := Option.isSome_iff_exists.mp hkept
            obtain ⟨hbefore, hend, -⟩ := h.stop_bounds a (List.mem_of_getElem? hi) stop hstop'
            omega
        have hend : o.document.stop - 1 = a.start := Option.some.inj hstop
        omega

theorem InOrder.step {o next : Outline} (h : o.InOrder) (hs : Step o next) : next.InOrder := by
  cases hs with
  | grow units => exact h.grow units
  | openItem => exact h.openItem
  | @endItem index rest i item hopen hplace hitem hstart hline =>
    obtain ⟨hnonneg, hlt⟩ := h.openItems_lt index (by simp [hopen])
    obtain ⟨n, rfl⟩ := Int.eq_ofNat_of_zero_le hnonneg
    rw [placeOf?_natCast, if_pos (by omega)] at hplace
    cases hplace
    exact h.endItem hopen hitem hstart hline
  | @closeItem index rest hopen =>
    have hrest : ∀ i ∈ rest, i ∈ o.openItems := by
      intro i hi
      rw [hopen]
      exact List.mem_cons_of_mem _ hi
    have hpairwise := h.openItems_pairwise
    rw [hopen] at hpairwise
    exact {
      openItems_lt := fun i hi => h.openItems_lt i (hrest i hi)
      openItems_pairwise := hpairwise.of_cons
      starts_pairwise := h.starts_pairwise
      start_le := h.start_le
      stop_bounds := h.stop_bounds
      apart := fun i a hi hkept => h.apart i a hi (hkept.imp_left (hrest _)) }

theorem InOrder.steps {o final : Outline} (h : o.InOrder)
    (hs : Relation.ReflTransGen Step o final) : final.InOrder := by
  induction hs with
  | refl => exact h
  | tail _ hs ih => exact ih.step hs

end Outline
end MarkdownEdits
