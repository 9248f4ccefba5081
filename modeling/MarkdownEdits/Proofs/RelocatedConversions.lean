import Mathlib.Data.List.DropRight
import MarkdownEdits.Proofs.RecastConversions

/-!
# Conversions at other places

A conversion that starts further behind makes the same requests, with the distance added to their
indices, and one for a tab makes the same requests as one for no tab, with the name of the tab in
their targets. Either fails if and only if the other one does, and in the same way.
-/
namespace MarkdownEdits

/-- The requests of a conversion as they are sent. -/
def Conversion.sent (c : Conversion) : List Json := c.requests.map Request.toJson

theorem map_sent (result : Except Failure Conversion) : result.map Conversion.sent =
    (result.map Conversion.requests).map (List.map Request.toJson) := by
  cases result <;> rfl

theorem Options.startIndex_of_le {first : Int} (h : 1 ≤ first) (tab headingAsTitle : Json) :
    Options.startIndex ⟨.integer first, tab, headingAsTitle⟩ = .ok first := by
  have hpositive : ¬first < 1 := Int.not_lt.mpr h
  simp only [startIndex, ArgumentChecks.positiveInteger, Json.integer, if_neg hpositive]
  rfl

/-! ## Starts -/

/-- A conversion that starts further behind is the same conversion with the distance added to each
index. -/
theorem convertTokens_shifts (config : Config) (tokens : List Token) (tab headingAsTitle : Json)
    {first distance : Int} (hfirst : 1 ≤ first) (hdistance : 0 ≤ distance) :
    (convertTokens config tokens ⟨.integer (first + distance), tab, headingAsTitle⟩).map
        Conversion.sent =
      (convertTokens config tokens ⟨.integer first, tab, headingAsTitle⟩).map fun c =>
        c.sent.map (·.shiftIndices distance) := by
  have hstart := Options.startIndex_of_le hfirst tab headingAsTitle
  have hstart' := Options.startIndex_of_le (Int.add_le_add hfirst hdistance) tab headingAsTitle
  have htabs : Options.tabIdentifier ⟨.integer (first + distance), tab, headingAsTitle⟩ =
      Options.tabIdentifier ⟨.integer first, tab, headingAsTitle⟩ := rfl
  have hplace : Options.place ⟨.integer (first + distance), tab, headingAsTitle⟩ =
      (Options.place ⟨.integer first, tab, headingAsTitle⟩).map
        fun place => (place.1 + distance, place.2) := by
    simp only [Options.place, hstart, hstart', htabs]
    cases Options.tabIdentifier ⟨.integer first, tab, headingAsTitle⟩ <;> rfl
  rw [map_sent, convertTokens_recast (Relocation.by distance).recasting
    (List.map (·.relocate (.by distance))) _ hplace
    (fun _ => Draft.start_recast (.by distance) rfl rfl _)
    (fun _ d _ => Conversion.requests_recast config (.by distance) d)]
  cases convertTokens config tokens ⟨.integer first, tab, headingAsTitle⟩ with
  | error failure => rfl
  | ok c => simp [Except.map, Conversion.sent, Request.toJson_relocate_by]

/-- A heading, nested items, a code block with a language and a rule. -/
def blocksWithTargets : List Token :=
  [.openHeading "h1", .inline [.text "T"], .closeHeading, .openList .bullet, .openItem,
    .openParagraph, .inline [.text "a"], .closeParagraph, .openList .ordered, .openItem,
    .openParagraph, .inline [.openLink (some "u"), .text "b", .closeLink], .closeParagraph,
    .closeItem, .closeList .ordered, .closeItem, .closeList .bullet, .codeBlock "x" "lean", .rule]

theorem convertTokens_shifts_blocksWithTargets : ∃ c,
    convertTokens .standard blocksWithTargets ⟨.integer 1, .text "t", .bool true⟩ = .ok c ∧
      c.requests.length = 19 ∧
      (convertTokens .standard blocksWithTargets ⟨.integer (1 + 41), .text "t", .bool true⟩).map
        Conversion.sent = .ok (c.sent.map (·.shiftIndices 41)) := by
  obtain ⟨c, hc⟩ : ∃ c,
      convertTokens .standard blocksWithTargets ⟨.integer 1, .text "t", .bool true⟩ = .ok c :=
    exists_eq_ok_of_isOk (by decide +kernel)
  have hlength : (convertTokens .standard blocksWithTargets
      ⟨.integer 1, .text "t", .bool true⟩).toOption.map (·.requests.length) = some 19 := by
    decide +kernel
  have hfirst : (1 : Int) ≤ 1 := by decide
  have hdistance : (0 : Int) ≤ 41 := by decide
  have hshifts := convertTokens_shifts .standard blocksWithTargets (.text "t") (.bool true) hfirst
    hdistance
  rw [hc] at hlength hshifts
  exact ⟨c, hc, Option.some.inj hlength, hshifts⟩

/-! ## Tabs -/

theorem Whitespace.trim_eq_nil_iff {cs : List Char} : trim cs = [] ↔ ∀ c ∈ cs, isBlank c := by
  have htrim : trim cs = [] ↔ ∀ c ∈ cs.dropWhile isBlank, isBlank c :=
    List.rdropWhile_eq_nil_iff
  have hhead := List.head?_dropWhile_not isBlank cs
  rw [htrim, ← List.dropWhile_eq_nil_iff (l := cs)]
  cases hrest : cs.dropWhile isBlank with
  | nil => simp
  | cons c rest =>
    rw [hrest] at hhead
    simp_all

theorem Whitespace.strip_ne_empty {s : String} (h : isEmpty s = false) : strip s ≠ "" := by
  intro hstrip
  have htrim : trim s.toList = [] := by rw [← strip_toList, hstrip, String.toList_empty]
  have hblank : isEmpty s = true := List.all_eq_true.mpr (trim_eq_nil_iff.mp htrim)
  rw [h] at hblank
  cases hblank

theorem namedTab_strip {name : String} (h : Whitespace.isEmpty name = false) :
    namedTab (some (Whitespace.strip name)) = some (Whitespace.strip name) := by
  simp [namedTab, Whitespace.strip_ne_empty h]

theorem Options.tabIdentifier_of_text {name : String} (h : Whitespace.isEmpty name = false)
    (start headingAsTitle : Json) :
    Options.tabIdentifier ⟨start, .text name, headingAsTitle⟩ =
      .ok (some (Whitespace.strip name)) := by
  simp only [tabIdentifier, ArgumentChecks.tabIdentifier, ArgumentChecks.stripped, h]
  rfl

/-- All requests of a conversion name its tab, or none of them names one. -/
theorem tab_of_mem_requests {config : Config} {tokens : List Token} {o : Options}
    {tab : Option String} {c : Conversion} (htab : o.tabIdentifier = .ok tab)
    (hc : convertTokens config tokens o = .ok c) :
    ∀ request ∈ c.requests, request.tab = namedTab tab := by
  obtain ⟨first, tab', d, _, htab', hd, rfl⟩ := convertTokens_eq_ok.mp hc
  obtain rfl : tab = tab' := Except.ok.inj (htab.symm.trans htab')
  -- Putting a draft into its own tab does not change it: not at the start, hence not at the end.
  have hstart : Draft.start first tab (o.wantsTitle config) =
      (Draft.start first tab (o.wantsTitle config)).recast
        (Relocation.into (namedTab tab)).recasting :=
    Draft.start_recast _ (Int.add_zero first).symm rfl _
  have hsteps := Draft.steps_recast (Relocation.into (namedTab tab)).recasting
    (Draft.start first tab (o.wantsTitle config)) tokens
  rw [← hstart, hd] at hsteps
  have hself : d.recast (Relocation.into (namedTab tab)).recasting = d :=
    (Except.ok.inj hsteps).symm
  intro request hrequest
  rw [← hself, Conversion.requests_recast, List.mem_map] at hrequest
  obtain ⟨old, _, rfl⟩ := hrequest
  exact old.tab_relocate _

/-- A conversion for a tab is the same conversion for no tab with the name of the tab added to the
target of each request. Each request has one target, and without a tab none names one. -/
theorem convertTokens_targetsTab (config : Config) (tokens : List Token)
    (start headingAsTitle : Json) {name : String} (hname : Whitespace.isEmpty name = false) :
    (convertTokens config tokens ⟨start, .text name, headingAsTitle⟩).map Conversion.sent =
        ((convertTokens config tokens ⟨start, .null, headingAsTitle⟩).map fun c =>
          c.sent.map (·.inTab (Whitespace.strip name))) ∧
      (∀ c, convertTokens config tokens ⟨start, .null, headingAsTitle⟩ = .ok c →
        ∀ request ∈ c.sent, Json.tabName ∉ request.names) ∧
      ∀ tab c, convertTokens config tokens ⟨start, tab, headingAsTitle⟩ = .ok c →
        ∀ request ∈ c.sent, request.names.countP Json.targetNames.contains = 1 := by
  have htab := Options.tabIdentifier_of_text hname start headingAsTitle
  have hwithout : Options.tabIdentifier ⟨start, .null, headingAsTitle⟩ = .ok none := rfl
  have hstarts : Options.startIndex ⟨start, .text name, headingAsTitle⟩ =
      Options.startIndex ⟨start, .null, headingAsTitle⟩ := rfl
  have hplace : Options.place ⟨start, .text name, headingAsTitle⟩ =
      (Options.place ⟨start, .null, headingAsTitle⟩).map
        fun place => (place.1, some (Whitespace.strip name)) := by
    simp only [Options.place, hstarts, htab, hwithout]
    cases Options.startIndex ⟨start, .null, headingAsTitle⟩ <;> rfl
  refine ⟨?_, ?_, ?_⟩
  · rw [map_sent, convertTokens_recast
      (Relocation.into (some (Whitespace.strip name))).recasting
      (List.map (·.relocate (.into (some (Whitespace.strip name))))) _ hplace
      (fun place => Draft.start_recast (.into _) (Int.add_zero place.1).symm
        (namedTab_strip hname) _)
      (fun _ d _ => Conversion.requests_recast config (.into _) d)]
    cases hc : convertTokens config tokens ⟨start, .null, headingAsTitle⟩ with
    | error failure => rfl
    | ok c =>
      have hrequests : ∀ request ∈ c.requests,
          (request.relocate (.into (some (Whitespace.strip name)))).toJson =
            request.toJson.inTab (Whitespace.strip name) := fun request hrequest =>
        Request.toJson_relocate_into (tab_of_mem_requests hwithout hc request hrequest) _
      simpa [Except.map, Conversion.sent] using hrequests
  · intro c hc request hrequest
    obtain ⟨old, hold, rfl⟩ := List.mem_map.mp hrequest
    rw [Request.tabName_mem_names_iff, tab_of_mem_requests hwithout hc old hold]
    exact Bool.false_ne_true
  · intro tab c _ request hrequest
    obtain ⟨old, _, rfl⟩ := List.mem_map.mp hrequest
    exact old.countP_targetNames

theorem convertTokens_targetsTab_blocksWithTargets : ∃ c,
    convertTokens .standard blocksWithTargets ⟨.integer 1, .null, .null⟩ = .ok c ∧
      c.requests.length = 19 ∧
      (convertTokens .standard blocksWithTargets ⟨.integer 1, .text " t.1\t", .null⟩).map
        Conversion.sent = .ok (c.sent.map (·.inTab "t.1")) ∧
      (∀ request ∈ c.sent, Json.tabName ∉ request.names) ∧
      ∀ request ∈ c.sent, request.names.countP Json.targetNames.contains = 1 := by
  obtain ⟨c, hc⟩ : ∃ c,
      convertTokens .standard blocksWithTargets ⟨.integer 1, .null, .null⟩ = .ok c :=
    exists_eq_ok_of_isOk (by decide +kernel)
  have hlength : (convertTokens .standard blocksWithTargets
      ⟨.integer 1, .null, .null⟩).toOption.map (·.requests.length) = some 19 := by
    decide +kernel
  have hstrip : Whitespace.strip " t.1\t" = "t.1" := by decide +kernel
  have hname : Whitespace.isEmpty " t.1\t" = false := by decide +kernel
  obtain ⟨htab, hwithout, htarget⟩ := convertTokens_targetsTab .standard blocksWithTargets
    (.integer 1) .null hname
  rw [hc, hstrip] at htab
  rw [hc] at hlength
  exact ⟨c, hc, Option.some.inj hlength, htab, hwithout c hc, htarget .null c hc⟩

end MarkdownEdits
