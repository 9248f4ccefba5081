import MarkdownEdits.Proofs.DraftBounds
import MarkdownEdits.Proofs.TypedRecords

/-!
# Failures of runs

A run fails at the first atom that is refused: an item outside of all lists, or a malformed token.
Nothing else fails, so the failure is found by a walk over the atoms that counts the open lists. A
token that closes what is not open is warned of and has no other effect.
-/
namespace MarkdownEdits
namespace Token

/-- How many lists are open behind one more token. Where none is open, a close does not count. -/
def nextListDepth (depth : Nat) : Token → Nat
  | openList _ => depth + 1
  | closeList _ => depth - 1
  | _ => depth

/-- How many lists are open behind some atoms. -/
def listDepth (atoms : List Token) : Nat := atoms.foldl nextListDepth 0

/-- Somewhere in the stream, at whatever depth, an item is opened where no list is open. -/
def OpensItemOutside (tokens : List Token) : Prop :=
  ∃ before after, atomsOf tokens = before ++ openItem :: after ∧ listDepth before = 0

theorem length_openLists (kinds : List ListKind) (atoms : List Token) :
    (openLists kinds atoms).length = atoms.foldl nextListDepth kinds.length := by
  induction atoms generalizing kinds with
  | nil => rfl
  | cons t rest ih =>
    have hnext : (nextLists kinds t).length = nextListDepth kinds.length t := by
      cases t <;> simp [nextLists, nextListDepth]
    rw [openLists, List.foldl_cons, List.foldl_cons, ← hnext]
    exact ih (nextLists kinds t)

/-- Why a token is not taken where so many lists are open. -/
def failure? (depth : Nat) : Token → Option ConversionError
  | openItem => if depth = 0 then some .itemOutsideList else none
  | malformed type words => some (.malformedToken type words)
  | _ => none

/-- What a walk over atoms comes to that is not taken, from where so many lists are open. -/
def walkFailure? (depth : Nat) : List Token → Option ConversionError
  | [] => none
  | t :: rest => (t.failure? depth).or (walkFailure? (t.nextListDepth depth) rest)

/-- What a walk over a stream, depth first, comes to that is not taken. -/
def streamFailure? (tokens : List Token) : Option ConversionError :=
  walkFailure? 0 (atomsOf tokens)

variable {t : Token} {atoms tokens : List Token} {e : ConversionError}

theorem failure?_eq_some {depth : Nat} (h : t.failure? depth = some e) :
    t = openItem ∧ depth = 0 ∧ e = .itemOutsideList ∨
      ∃ type words, t = malformed type words ∧ e = .malformedToken type words := by
  cases t with
  | openItem =>
    obtain ⟨hdepth, rfl⟩ : depth = 0 ∧ .itemOutsideList = e := by simpa [failure?] using h
    exact .inl ⟨rfl, hdepth, rfl⟩
  | malformed type words => exact .inr ⟨type, words, rfl, (Option.some.inj h).symm⟩
  | _ => cases h

/-- A walk comes to an item outside of all lists or to a malformed token. -/
theorem exists_of_walkFailure? {depth : Nat} (h : walkFailure? depth atoms = some e) :
    (∃ before after, atoms = before ++ openItem :: after ∧
        before.foldl nextListDepth depth = 0) ∧ e = .itemOutsideList ∨
      ∃ type words, malformed type words ∈ atoms ∧ e = .malformedToken type words := by
  induction atoms generalizing depth with
  | nil => cases h
  | cons t rest ih =>
    rw [walkFailure?, Option.or_eq_some_iff] at h
    obtain hhere | ⟨-, hrest⟩ := h
    · obtain ⟨rfl, hdepth, rfl⟩ | ⟨type, words, rfl, rfl⟩ := failure?_eq_some hhere
      · exact .inl ⟨⟨[], rest, rfl, hdepth⟩, rfl⟩
      · exact .inr ⟨type, words, List.mem_cons_self, rfl⟩
    · obtain ⟨⟨before, after, rfl, hdepth⟩, rfl⟩ | ⟨type, words, hmem, rfl⟩ := ih hrest
      · exact .inl ⟨⟨t :: before, after, rfl, hdepth⟩, rfl⟩
      · exact .inr ⟨type, words, List.mem_cons_of_mem _ hmem, rfl⟩

/-- A walk does not get past an item outside of all lists. -/
theorem walkFailure?_ne_none {before after : List Token} {depth : Nat}
    (h : before.foldl nextListDepth depth = 0) :
    walkFailure? depth (before ++ openItem :: after) ≠ none := by
  induction before generalizing depth with
  | nil =>
    obtain rfl : depth = 0 := h
    exact Option.some_ne_none _
  | cons t rest ih =>
    rw [List.cons_append, walkFailure?, Ne, Option.or_eq_none_iff]
    exact fun hnone => ih h hnone.2

/-- Where no token is malformed, a stream fails exactly if an item is opened outside of all lists. -/
theorem streamFailure?_eq_some_iff
    (hformed : ∀ type words, malformed type words ∉ atomsOf tokens) :
    streamFailure? tokens = some e ↔ OpensItemOutside tokens ∧ e = .itemOutsideList := by
  have houtside {cause : ConversionError} (h : streamFailure? tokens = some cause) :
      OpensItemOutside tokens ∧ cause = .itemOutsideList := by
    obtain houtside | ⟨type, words, hmem, -⟩ := exists_of_walkFailure? h
    · exact houtside
    · exact absurd hmem (hformed type words)
  refine ⟨houtside, ?_⟩
  rintro ⟨⟨before, after, hsplit, hdepth⟩, rfl⟩
  have hfails : streamFailure? tokens ≠ none := by
    rw [streamFailure?, hsplit]
    exact walkFailure?_ne_none hdepth
  obtain ⟨cause, hcause⟩ := Option.ne_none_iff_exists'.mp hfails
  rw [hcause, (houtside hcause).2]

end Token

namespace Draft

variable {d reached : Draft} {t : Token} {tokens before after : List Token} {e : ConversionError}

theorem closeList_of_nil (h : d.lists = []) : d.closeList = d.warn .strayListClose := by
  rw [closeList.eq_def]
  split
  · rfl
  · rename_i hlists
    cases h.symm.trans hlists

theorem closeItem_of_nil (h : d.openItems = []) : d.closeItem = d.warn .strayItemClose := by
  rw [closeItem.eq_def]
  split
  · rfl
  · rename_i hopen
    cases h.symm.trans hopen

/-- Why an atom is not taken. -/
inductive Refuses (d : Draft) : Token → ConversionError → Prop
  | outside (h : d.lists = []) : Refuses d .openItem .itemOutsideList
  | malformed (type words : String) :
      Refuses d (.malformed type words) (.malformedToken type words)

theorem refuses_iff : d.Refuses t e ↔ t.failure? d.lists.length = some e := by
  constructor
  · intro h
    cases h with
    | outside hlists => simp [Token.failure?, hlists]
    | malformed type words => rfl
  · intro h
    obtain ⟨rfl, hdepth, rfl⟩ | ⟨type, words, rfl, rfl⟩ := Token.failure?_eq_some h
    · exact .outside (List.length_eq_zero_iff.mp hdepth)
    · exact .malformed type words

theorem step_eq_error_iff (ht : t.IsAtom) : d.step t = .error e ↔ d.Refuses t e := by
  constructor
  · intro h
    cases t with
    | inline children => exact ht.elim
    | openItem =>
      change d.openItem = .error e at h
      rw [openItem.eq_def] at h
      split at h
      · rename_i hlists
        cases h
        exact .outside hlists
      · cases h
    | malformed type words =>
      cases h
      exact .malformed type words
    | _ => cases h
  · intro h
    cases h with
    | outside hlists =>
      change d.openItem = .error .itemOutsideList
      rw [openItem, hlists]
    | malformed type words => rfl

/-- A run that fails has come to an atom that is refused. -/
theorem exists_refuses_of_steps {atoms : List Token} (hatoms : ∀ t ∈ atoms, t.IsAtom)
    (h : d.steps atoms = .error e) : ∃ before t after reached, atoms = before ++ t :: after ∧
      d.steps before = .ok reached ∧ reached.Refuses t e := by
  induction atoms generalizing d with
  | nil => simp at h
  | cons t rest ih =>
    obtain ⟨ht, hrest⟩ := List.forall_mem_cons.mp hatoms
    rw [steps] at h
    cases hnext : d.step t with
    | error cause =>
      rw [hnext] at h
      cases h
      exact ⟨[], t, rest, d, rfl, steps_nil d, (step_eq_error_iff ht).mp hnext⟩
    | ok next =>
      rw [hnext] at h
      obtain ⟨before, u, after, reached, rfl, hreached, hu⟩ := ih hrest h
      exact ⟨t :: before, u, after, reached, rfl,
        steps_cons_eq_ok.mpr ⟨next, hnext, hreached⟩, hu⟩

theorem length_lists_step {next : Draft} (ht : t.IsAtom) (hs : d.step t = .ok next) :
    next.lists.length = t.nextListDepth d.lists.length := by
  rw [lists_step ht hs]
  cases t <;> simp [Token.nextListDepth]

/-- A run fails with what a walk comes to that is not taken: the lists open in the draft are as many
as the walk counts. -/
theorem steps_eq_error_iff {atoms : List Token} (hatoms : ∀ t ∈ atoms, t.IsAtom) :
    d.steps atoms = .error e ↔ Token.walkFailure? d.lists.length atoms = some e := by
  induction atoms generalizing d with
  | nil => simp [Token.walkFailure?]
  | cons t rest ih =>
    obtain ⟨ht, hrest⟩ := List.forall_mem_cons.mp hatoms
    have hfails {cause : ConversionError} :
        d.step t = .error cause ↔ t.failure? d.lists.length = some cause :=
      (step_eq_error_iff ht).trans refuses_iff
    rw [steps, Token.walkFailure?]
    cases hnext : d.step t with
    | error cause =>
      rw [hfails.mp hnext, Option.some_or, Except.error.injEq, Option.some.injEq]
    | ok next =>
      have hnone : t.failure? d.lists.length = none :=
        Option.eq_none_iff_forall_ne_some.mpr fun cause h => by
          rw [hfails.mpr h] at hnext
          cases hnext
      rw [hnone, Option.none_or, ← length_lists_step ht hnext]
      exact ih hrest

/-! ## Runs from the start -/

section Start

variable {first : Int} {tab : Option String} {headingAsTitle : Bool}

theorem length_lists_of_atoms (hatoms : ∀ t ∈ before, t.IsAtom)
    (hd : (Draft.start first tab headingAsTitle).steps before = .ok d) :
    d.lists.length = Token.listDepth before := by
  have hkinds := congrArg List.length (kinds_steps hatoms hd)
  rw [List.length_map, Token.length_openLists] at hkinds
  exact hkinds

/-- Each open item is found among the recorded ones. -/
theorem exists_itemAt_of_mem_openItems
    (hd : (Draft.start first tab headingAsTitle).steps tokens = .ok d) :
    ∀ index ∈ d.openItems, ∃ i item, d.itemAt? index = some (i, item) := by
  intro index hindex
  obtain ⟨hnonneg, hlt⟩ := (wellFormed_steps hd).openItems_lt index hindex
  obtain ⟨n, rfl⟩ := Int.eq_ofNat_of_zero_le hnonneg
  have hn : n < d.records.items.size := by omega
  exact ⟨n, d.records.items[n], by rw [itemAt?_natCast, Array.getElem?_eq_getElem hn]; rfl⟩

theorem start_steps_eq_error_iff : (Draft.start first tab headingAsTitle).steps tokens = .error e ↔
    Token.streamFailure? tokens = some e := by
  rw [← steps_atomsOf, steps_eq_error_iff (Token.isAtom_of_mem_atomsOf tokens)]
  rfl

/-- What holds behind some atoms, whatever they are. -/
structure CopesWithCloses (d : Draft) (before : List Token) : Prop where
  /-- Each open item is one of the recorded ones. -/
  found : ∀ index ∈ d.openItems, ∃ i item, d.itemAt? index = some (i, item)
  /-- The close of a list where none is open gives a warning and changes nothing else. -/
  strayList : Token.listDepth before = 0 → ∀ kind,
    d.step (.closeList kind) = .ok { d with warnings := d.warnings.push .strayListClose }
  /-- The close of an item where none is open gives a warning and changes nothing else. -/
  strayItem : Token.itemDepth 0 before = 0 →
    d.step .closeItem = .ok { d with warnings := d.warnings.push .strayItemClose }

theorem copesWithCloses (hatoms : ∀ t ∈ before, t.IsAtom)
    (hd : (Draft.start first tab headingAsTitle).steps before = .ok d) :
    d.CopesWithCloses before where
  found := exists_itemAt_of_mem_openItems hd
  strayList := by
    intro hdepth kind
    have hlists := List.length_eq_zero_iff.mp ((length_lists_of_atoms hatoms hd).trans hdepth)
    exact congrArg Except.ok (closeList_of_nil hlists)
  strayItem := by
    intro hdepth
    have hlength := length_openItems_steps hatoms hd
    have hopen := List.length_eq_zero_iff.mp (hlength.trans hdepth)
    exact congrArg Except.ok (closeItem_of_nil hopen)

end Start

end Draft

theorem convertTokens_eq_error {config : Config} {tokens : List Token} {o : Options}
    {first : Int} {tab : Option String} {failure : Failure} (hfirst : o.startIndex = .ok first)
    (htab : o.tabIdentifier = .ok tab) :
    convertTokens config tokens o = .error failure ↔ ∃ e,
      (Draft.start first tab (o.wantsTitle config)).steps tokens = .error e ∧
        failure = .conversion e := by
  simp only [convertTokens, hfirst, htab, bind, Except.bind]
  cases (Draft.start first tab (o.wantsTitle config)).steps tokens with
  | error e => simp [Except.mapError, eq_comm]
  | ok d => simp [Except.mapError, pure, Except.pure]

/-- A conversion of records fails with what a walk comes to that is not taken. Where the fields of
the records are of their kinds, that is an item outside of all lists or a record of one of the few
types that need more, and where they have what they need, it is always such an item. -/
theorem convertTokens_failsOutsideLists (config : Config) (records : List Json) {o : Options}
    {first : Int} {tab : Option String} (hfirst : o.startIndex = .ok first)
    (htab : o.tabIdentifier = .ok tab) :
    let tokens := Token.ofItems records
    (∀ failure, convertTokens config tokens o = .error failure ↔
      ∃ e, Token.streamFailure? tokens = some e ∧ failure = .conversion e) ∧
    ((∀ record ∈ records, record.IsRecord Json.HasTypedFields) → ∀ failure,
      convertTokens config tokens o = .error failure →
        failure = .conversion .itemOutsideList ∨ ∃ type words, type ∈ Token.exactingTypes ∧
          failure = .conversion (.malformedToken type words)) ∧
    ((∀ record ∈ records, record.IsRecord Json.HasSoundFields) →
      ((∃ failure, convertTokens config tokens o = .error failure) ↔
        Token.OpensItemOutside tokens) ∧
      ∀ failure, convertTokens config tokens o = .error failure →
        failure.kind = .conversion ∧
          failure.message = "List item found outside of list context" ∧
            failure.tokenType = some "list_item_open") ∧
    ∀ before after d, Token.atomsOf tokens = before ++ after →
      (Draft.start first tab (o.wantsTitle config)).steps before = .ok d →
        d.CopesWithCloses before := by
  intro tokens
  have hfails (failure : Failure) : convertTokens config tokens o = .error failure ↔
      ∃ e, Token.streamFailure? tokens = some e ∧ failure = .conversion e := by
    simp only [convertTokens_eq_error hfirst htab, Draft.start_steps_eq_error_iff]
  refine ⟨hfails, ?_, fun hsound => ?_, fun before after d hsplit hd =>
    Draft.copesWithCloses (Token.isAtom_of_split hsplit) hd⟩
  · intro htyped failure hfailure
    obtain ⟨e, he, rfl⟩ := (hfails failure).mp hfailure
    obtain ⟨-, rfl⟩ | ⟨type, words, hmem, rfl⟩ := Token.exists_of_walkFailure? he
    · exact .inl rfl
    · exact .inr ⟨type, words, Token.mem_exactingTypes_of_typed htyped hmem, rfl⟩
  · have houtside {e : ConversionError} : Token.streamFailure? tokens = some e ↔
        Token.OpensItemOutside tokens ∧ e = .itemOutsideList :=
      Token.streamFailure?_eq_some_iff fun _ _ => Token.not_mem_of_sound hsound
    refine ⟨⟨?_, fun h => ?_⟩, ?_⟩
    · rintro ⟨failure, hfailure⟩
      obtain ⟨e, he, -⟩ := (hfails failure).mp hfailure
      exact (houtside.mp he).1
    · exact ⟨.conversion .itemOutsideList, (hfails _).mpr ⟨_, houtside.mpr ⟨h, rfl⟩, rfl⟩⟩
    · intro failure hfailure
      obtain ⟨e, he, rfl⟩ := (hfails failure).mp hfailure
      obtain ⟨-, rfl⟩ := houtside.mp he
      exact ⟨rfl, rfl, rfl⟩

/-- The record of a token of some type, with children. -/
def recordOf (type : String) (content : Json) (children : List Json) : Json :=
  .object [("type", .text type), ("content", content), ("info", .text ""),
    ("attrs", .object []), ("children", .array children)]

theorem isRecord_recordOf {type content : String} {children : List Json}
    (h : ∀ child ∈ children, child.IsRecord Json.HasSoundFields) :
    (recordOf type (.text content) children).IsRecord Json.HasSoundFields := by
  have htext (s : String) : (Json.text s).IsText := ⟨s, rfl⟩
  have hcontent : (recordOf type (.text content) children).field? "content" =
      some (.text content) := rfl
  have htag : (recordOf type (.text content) children).field? "tag" = none := rfl
  refine .object ⟨⟨by simp [htext], by simp [htext], by simp, by simp⟩, ?_, ?_⟩ (by simpa using h)
  · intro _ _ _ t ht
    cases hcontent.symm.trans ht
  · intro _ value hvalue
    cases htag.symm.trans hvalue

/-- Closes of a list and of an item that are not open, a list that is opened and closed, and inside
of inline content an item. -/
def strayRecords : List Json :=
  [recordOf "ordered_list_close" (.text "") [], recordOf "list_item_close" (.text "") [],
    recordOf "bullet_list_open" (.text "") [], recordOf "ordered_list_close" (.text "") [],
    recordOf "inline" (.text "") [recordOf "text" (.text "a") [],
      recordOf "inline" (.text "") [recordOf "list_item_open" (.text "") []]]]

theorem isRecord_of_mem_strayRecords :
    ∀ record ∈ strayRecords, record.IsRecord Json.HasSoundFields := by
  have hbare (type content : String) :
      (recordOf type (.text content) []).IsRecord Json.HasSoundFields :=
    isRecord_recordOf nofun
  have hitem : (recordOf "inline" (.text "") [recordOf "list_item_open" (.text "") []]).IsRecord
      Json.HasSoundFields :=
    isRecord_recordOf (by simp [hbare])
  have hcontent : (recordOf "inline" (.text "") [recordOf "text" (.text "a") [],
      recordOf "inline" (.text "") [recordOf "list_item_open" (.text "") []]]).IsRecord
        Json.HasSoundFields :=
    isRecord_recordOf (by simp [hbare, hitem])
  simp [strayRecords, hbare, hcontent]

theorem convertTokens_failsOutsideLists_strayRecords :
    (∃ failure, convertTokens .standard (Token.ofItems strayRecords) {} = .error failure ∧
      failure.message = "List item found outside of list context" ∧
        failure.tokenType = some "list_item_open") ∧
    ∃ d, (Draft.start 1 none false).steps [.closeList .ordered] = .ok d ∧
      d.step .closeItem = .ok { d with warnings := d.warnings.push .strayItemClose } := by
  have hsplit : Token.atomsOf (Token.ofItems strayRecords) =
      [.closeList .ordered, .closeItem, .openList .bullet, .closeList .ordered, .text "a"] ++
        .openItem :: [] := rfl
  obtain ⟨-, -, hsound, hcopes⟩ :=
    convertTokens_failsOutsideLists .standard strayRecords (o := {}) rfl rfl
  obtain ⟨hfails, hmessage⟩ := hsound isRecord_of_mem_strayRecords
  obtain ⟨failure, hfailure⟩ := hfails.mpr ⟨_, _, hsplit, rfl⟩
  have hstray := (hcopes [.closeList .ordered] _ _ hsplit rfl).strayItem rfl
  exact ⟨⟨failure, hfailure, (hmessage failure hfailure).2⟩, _, rfl, hstray⟩

/-! ## Records that need more -/

/-- Half of a surrogate pair, alone in a leaf. -/
def halfRecord : Json := recordOf "text" (.brokenText (.ofHalf 0)) []

/-- A heading with an array for a tag. -/
def listedHeading : Json :=
  .object [("type", .text "heading_open"), ("tag", .array [.text "h1"])]

/-- Fields of their kinds are not enough: without any item, these records make a conversion fail. -/
theorem convertTokens_failsWithoutItems :
    (∀ record ∈ [halfRecord, listedHeading], record.IsRecord Json.HasTypedFields ∧
      ¬Token.OpensItemOutside (Token.ofItems [record])) ∧
    convertTokens .standard (Token.ofItems [halfRecord]) {} =
      .error (.conversion (.malformedToken "text" "*")) ∧
    convertTokens .standard (Token.ofItems [listedHeading]) {} =
      .error (.conversion (.malformedToken "heading_open" "*")) := by
  have hhalf : halfRecord.IsRecord Json.HasTypedFields := by
    refine .object ⟨?_, ?_, ?_, ?_⟩ ?_ <;> simp [Json.IsText, Json.shownText?]
  have hheading : listedHeading.IsRecord Json.HasTypedFields := by
    refine .object ⟨?_, ?_, ?_, ?_⟩ ?_ <;> simp
  have hmalformed (type : String) : ¬Token.OpensItemOutside [Token.ofDefect type] := by
    rintro ⟨before, after, hsplit, -⟩
    have hatoms : [Token.ofDefect type] = before ++ Token.openItem :: after := hsplit
    have hmem : Token.openItem ∈ [Token.ofDefect type] := by simp [hatoms]
    cases List.mem_singleton.mp hmem
  refine ⟨List.forall_mem_cons.mpr ⟨⟨hhalf, hmalformed "text"⟩, ?_⟩, rfl, rfl⟩
  exact List.forall_mem_singleton.mpr ⟨hheading, hmalformed "heading_open"⟩

end MarkdownEdits
