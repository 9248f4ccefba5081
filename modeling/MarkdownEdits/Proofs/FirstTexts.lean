import MarkdownEdits.Proofs.BulletedItems
import MarkdownEdits.Proofs.InlineText

/-!
# First texts of items

Behind any atoms at most one item is the innermost open one. It awaits its first text as long as no
text of its own has come but empty ones; the texts of items nested in it do not count.
-/
namespace MarkdownEdits
namespace Token

/-- An item is the innermost open one behind some atoms, and no text of its own has come but empty
ones. -/
def AwaitsFirstText (before : List Token) : Prop :=
  ∃ outer inside, before = outer ++ openItem :: inside ∧ IsItemBody inside ∧
    ∀ text ∈ ownTexts 1 inside, text = ""

/-- For each open item there is the place where it was opened. -/
theorem exists_opening {before : List Token} {n : Nat} (h : n < itemDepth 0 before) :
    ∃ outer inside, before = outer ++ openItem :: inside ∧ itemDepth 1 inside = n + 1 ∧
      ∀ part, part <+: inside → 0 < itemDepth 1 part := by
  induction before using List.reverseRecOn generalizing n with
  | nil => exact absurd h (Nat.not_lt_zero n)
  | append_singleton before t ih =>
    rw [itemDepth_append] at h
    -- One more token behind the opening leaves the item open, unless it is closed there.
    have behind {m : Nat} (hm : m < itemDepth 0 before) (ht : t.nextDepth (m + 1) = n + 1) :
        ∃ outer inside, before ++ [t] = outer ++ openItem :: inside ∧
          itemDepth 1 inside = n + 1 ∧ ∀ part, part <+: inside → 0 < itemDepth 1 part := by
      obtain ⟨outer, inside, rfl, hdepth, hopen⟩ := ih hm
      have hlast : itemDepth 1 (inside ++ [t]) = n + 1 := by
        rw [itemDepth_append, hdepth]
        exact ht
      refine ⟨outer, inside ++ [t], by simp, hlast, fun part hpart => ?_⟩
      rcases List.prefix_concat_iff.mp hpart with rfl | hpart
      · omega
      · exact hopen part hpart
    cases t with
    | openItem =>
      cases n with
      | zero =>
        refine ⟨before, [], rfl, rfl, fun part hpart => ?_⟩
        rw [List.prefix_nil.mp hpart]
        exact Nat.one_pos
      | succ m => exact behind (Nat.lt_of_succ_lt_succ h) rfl
    | closeItem => exact behind (m := n + 1) (Nat.add_lt_of_lt_sub h) rfl
    | _ => exact behind h rfl

/-- Where items are open, one of them is the innermost. -/
theorem exists_isItemBody {before : List Token} (h : 0 < itemDepth 0 before) :
    ∃ outer inside, before = outer ++ openItem :: inside ∧ IsItemBody inside := by
  obtain ⟨outer, inside, hsplit, hdepth, hopen⟩ := exists_opening h
  exact ⟨outer, inside, hsplit, hopen, hdepth⟩

/-- Items below an open one are counted on top of it. -/
theorem itemDepth_add {inside : List Token} {n : Nat} (k : Nat)
    (hopen : ∀ part, part <+: inside → 0 < itemDepth n part) :
    itemDepth (n + k) inside = itemDepth n inside + k := by
  induction inside generalizing n with
  | nil => rfl
  | cons t rest ih =>
    have hpos : 0 < n := hopen [] List.nil_prefix
    have hnext : t.nextDepth (n + k) = t.nextDepth n + k := by
      cases t <;> simp only [nextDepth] <;> omega
    rw [itemDepth, List.foldl_cons, hnext]
    exact ih fun part hpart => hopen (t :: part) (List.cons_prefix_cons.mpr ⟨rfl, hpart⟩)

/-- Behind an item that is open only one item is the innermost. -/
theorem IsItemBody.not_append {between inside : List Token} (h : IsItemBody inside) :
    ¬IsItemBody (between ++ openItem :: inside) := by
  intro hall
  have hbetween := hall.stays_open between (List.prefix_append _ _)
  have hdepth := hall.closes_nested
  have hinner : itemDepth (itemDepth 1 between) (openItem :: inside) =
      itemDepth (1 + itemDepth 1 between) inside := by
    rw [Nat.add_comm]
    rfl
  rw [itemDepth_append, hinner, itemDepth_add _ h.stays_open, h.closes_nested] at hdepth
  omega

theorem IsItemBody.unique {outer outer' inside inside' : List Token} (h : IsItemBody inside)
    (h' : IsItemBody inside') (heq : outer ++ openItem :: inside = outer' ++ openItem :: inside') :
    inside = inside' := by
  rcases List.append_eq_append_iff.mp heq with ⟨between, -, hsplit⟩ | ⟨between, -, hsplit⟩
  · cases between with
    | nil => exact List.tail_eq_of_cons_eq hsplit
    | cons t between =>
      rw [List.tail_eq_of_cons_eq hsplit] at h
      exact absurd h h'.not_append
  · cases between with
    | nil => exact (List.tail_eq_of_cons_eq hsplit).symm
    | cons t between =>
      rw [List.tail_eq_of_cons_eq hsplit] at h'
      exact absurd h' h.not_append

/-- Behind a text of its own an item awaits no first one, whatever items have been opened and closed
in between. -/
theorem IsItemBody.not_awaitsFirstText {outer inside : List Token} (h : IsItemBody inside)
    {text : String} (htext : text ∈ ownTexts 1 inside) (hne : text ≠ "") :
    ¬AwaitsFirstText (outer ++ openItem :: inside) := by
  rintro ⟨outer', inside', heq, h', hempty⟩
  rw [h.unique h' heq] at htext
  exact hne (hempty text htext)

end Token

namespace Draft

section Start

variable {first : Int} {tab : Option String} {headingAsTitle : Bool} {d : Draft}
  {before outer inside : List Token}

/-- The innermost open item has looked at a text exactly if one of its own is not empty. -/
theorem awaitsText_iff_of_isItemBody (hatoms : ∀ t ∈ before, t.IsAtom)
    (hd : (Draft.start first tab headingAsTitle).steps before = .ok d)
    (hsplit : before = outer ++ .openItem :: inside) (hbody : Token.IsItemBody inside) :
    d.awaitsText = true ↔ ∀ text ∈ Token.ownTexts 1 inside, text = "" := by
  subst hsplit
  have hinside : ∀ t ∈ inside, t.IsAtom := fun t ht => hatoms t (by simp [ht])
  obtain ⟨opened, hopened, hrun⟩ := steps_append_eq_ok.mp hd
  obtain ⟨next, hnext, hrun⟩ := steps_cons_eq_ok.mp hrun
  obtain ⟨document, hgrows, -⟩ := growsTo_start hopened
  obtain ⟨list, -, item, -, hopen, hitem, -, hmarking⟩ :=
    exists_item_before_close hgrows.yields hgrows.inOrder hinside hbody hnext hrun
  have hawaits : d.awaitsText = !item.marking.checked := by
    rw [awaitsText, openItem?, hopen]
    simp only [itemAt?_natCast, hitem, Option.map_some, Option.any_some]
    rfl
  rw [hawaits, hmarking, Marking.foldl_read rfl]
  cases hfirst : (Token.ownTexts 1 inside).find? (· != "") with
  | none =>
    rw [List.find?_eq_none] at hfirst
    simpa using hfirst
  | some text =>
    have hne : text ≠ "" := by simpa using List.find?_some hfirst
    have hmem := List.mem_of_find?_eq_some hfirst
    have hread := Marking.read_of_unchecked (m := ⟨list.kind.preset, false⟩) rfl hne
    simpa [hread] using ⟨text, hmem, hne⟩

theorem awaitsText_iff (hatoms : ∀ t ∈ before, t.IsAtom)
    (hd : (Draft.start first tab headingAsTitle).steps before = .ok d) :
    d.awaitsText = true ↔ Token.AwaitsFirstText before := by
  constructor
  · intro hawaits
    have hopen : d.openItems ≠ [] := by
      intro hnil
      rw [awaitsText_of_closed hnil] at hawaits
      cases hawaits
    have hlength : d.openItems.length = Token.itemDepth 0 before :=
      length_openItems_steps hatoms hd
    obtain ⟨outer, inside, hsplit, hbody⟩ :=
      Token.exists_isItemBody (hlength ▸ List.length_pos_iff.mpr hopen)
    exact ⟨outer, inside, hsplit, hbody,
      (awaitsText_iff_of_isItemBody hatoms hd hsplit hbody).mp hawaits⟩
  · rintro ⟨outer, inside, hsplit, hbody, hempty⟩
    exact (awaitsText_iff_of_isItemBody hatoms hd hsplit hbody).mpr hempty

end Start

end Draft

end MarkdownEdits
