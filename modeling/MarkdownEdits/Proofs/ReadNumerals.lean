import Mathlib.Data.List.Basic
import Mathlib.Data.List.TakeWhile
import MarkdownEdits.Proofs.NumeralSpellings

/-!
# Numerals that are read

The reader of numerals, part by part: it takes from the front of a text what the part can spell, as
far as it goes. A text is read as a number exactly if it spells a numeral, and the number is the
numeral rounded.
-/
namespace MarkdownEdits
namespace Numeral
open NumeralReading

/-! ## Runs of digits -/

/-- No digit goes on at the front, either directly or behind a low line. -/
def EndsDigits (cs : List Char) : Prop :=
  ∀ c ∈ cs.head?, DecimalDigits.digit? c = none ∧ c ≠ '_'

theorem moreDigits_of_ends {cs : List Char} (h : EndsDigits cs) : moreDigits cs = ([], cs) := by
  cases cs with
  | nil => rfl
  | cons c rest =>
    obtain ⟨hdigit, hline⟩ := h c rfl
    rw [moreDigits]
    · rw [hdigit]
    · rintro other tail rfl
      exact absurd rfl hline

theorem moreDigits_cons {c : Char} {d : Nat} (h : DecimalDigits.digit? c = some d)
    (cs : List Char) : moreDigits (c :: cs) = (d :: (moreDigits cs).1, (moreDigits cs).2) := by
  rw [moreDigits]
  · rw [h]
  · rintro other tail rfl
    exact absurd rfl (ne_of_digit? h (by decide))

theorem moreDigits_line {c : Char} {d : Nat} (h : DecimalDigits.digit? c = some d)
    (cs : List Char) :
    moreDigits ('_' :: c :: cs) = (d :: (moreDigits cs).1, (moreDigits cs).2) := by
  rw [moreDigits, h]

theorem exists_moreDigits_append {run : List Char} {ds : List Nat} (h : SpellsDigits run ds)
    {rest : List Char} (hends : EndsDigits rest) :
    ∃ c cs d es, run = c :: cs ∧ ds = d :: es ∧ DecimalDigits.digit? c = some d ∧
      moreDigits (cs ++ rest) = (es, rest) := by
  induction h with
  | single hdigit => exact ⟨_, _, _, _, rfl, rfl, hdigit, moreDigits_of_ends hends⟩
  | next hdigit _ ih =>
    obtain ⟨c, cs, d, es, rfl, rfl, hnext, hmore⟩ := ih
    refine ⟨_, _, _, _, rfl, rfl, hdigit, ?_⟩
    rw [List.cons_append, moreDigits_cons hnext, hmore]
  | apart hdigit _ ih =>
    obtain ⟨c, cs, d, es, rfl, rfl, hnext, hmore⟩ := ih
    refine ⟨_, _, _, _, rfl, rfl, hdigit, ?_⟩
    rw [List.cons_append, List.cons_append, moreDigits_line hnext, hmore]

theorem digitRun_append {run : List Char} {ds : List Nat} (h : SpellsDigits run ds)
    {rest : List Char} (hends : EndsDigits rest) : digitRun (run ++ rest) = (ds, rest) := by
  obtain ⟨c, cs, d, es, rfl, rfl, hdigit, hmore⟩ := exists_moreDigits_append h hends
  rw [List.cons_append, digitRun, hdigit]
  simp only [hmore]

theorem digitRun_of_ends {cs : List Char} (h : EndsDigits cs) : digitRun cs = ([], cs) := by
  cases cs with
  | nil => rfl
  | cons c rest => rw [digitRun, (h c rfl).1]

/-- Behind a digit the digits that follow belong to its run. -/
theorem exists_run_moreDigits {c : Char} {d : Nat} (h : DecimalDigits.digit? c = some d)
    (cs : List Char) : ∃ run, c :: cs = run ++ (moreDigits cs).2 ∧
      SpellsDigits run (d :: (moreDigits cs).1) := by
  fun_induction moreDigits cs generalizing c d with
  | case1 => exact ⟨_, rfl, .single h⟩
  | case2 next rest e hnext ds after hmore ih =>
    obtain ⟨run, hsplit, hrun⟩ := ih hnext
    rw [hmore] at hsplit hrun
    exact ⟨c :: '_' :: run, by rw [hsplit]; rfl, .apart h hrun⟩
  | case4 next rest _ e hnext ds after hmore ih =>
    obtain ⟨run, hsplit, hrun⟩ := ih hnext
    rw [hmore] at hsplit hrun
    exact ⟨c :: run, by rw [hsplit]; rfl, .next h hrun⟩
  | case3 | case5 => exact ⟨[c], rfl, .single h⟩

theorem digitRun_cases (cs : List Char) : digitRun cs = ([], cs) ∨
    ∃ run, cs = run ++ (digitRun cs).2 ∧ SpellsDigits run (digitRun cs).1 := by
  cases cs with
  | nil => exact .inl rfl
  | cons c rest =>
    rw [digitRun]
    cases hdigit : DecimalDigits.digit? c with
    | none => exact .inl rfl
    | some d => exact .inr (exists_run_moreDigits hdigit rest)

theorem SpellsDigits.ne_nil {run : List Char} {ds : List Nat} (h : SpellsDigits run ds) :
    ds ≠ [] := by
  cases h <;> exact List.cons_ne_nil _ _

theorem SpellsDigits.head {run : List Char} {ds : List Nat} (h : SpellsDigits run ds)
    (rest : List Char) :
    ∃ c tail, run ++ rest = c :: tail ∧ ∃ d, DecimalDigits.digit? c = some d := by
  cases h with
  | single hdigit | next hdigit | apart hdigit => exact ⟨_, _, rfl, _, hdigit⟩

/-! ## Signs and exponents -/

theorem takeSign_append {sign : List Char} {negative : Bool} (h : SpellsSign sign negative)
    {cs : List Char} (hhead : ∀ c ∈ cs.head?, c ≠ '-' ∧ c ≠ '+') :
    takeSign (sign ++ cs) = (negative, cs) := by
  cases h with
  | plus | minus => rfl
  | none =>
    rw [List.nil_append]
    unfold takeSign
    split
    · exact absurd rfl (hhead _ rfl).1
    · exact absurd rfl (hhead _ rfl).2
    · rfl

theorem exists_sign (cs : List Char) :
    ∃ sign, cs = sign ++ (takeSign cs).2 ∧ SpellsSign sign (takeSign cs).1 := by
  unfold takeSign
  split
  · exact ⟨_, rfl, .minus⟩
  · exact ⟨_, rfl, .plus⟩
  · exact ⟨_, rfl, .none⟩

theorem SpellsDigits.ne_sign {run : List Char} {ds : List Nat} (h : SpellsDigits run ds)
    (rest : List Char) : ∀ c ∈ (run ++ rest).head?, c ≠ '-' ∧ c ≠ '+' := by
  obtain ⟨first, tail, hhead, d, hd⟩ := h.head rest
  rw [hhead]
  rintro c ⟨⟩
  exact ⟨ne_of_digit? hd (by decide), ne_of_digit? hd (by decide)⟩

theorem endsDigits_nil : EndsDigits [] := by
  rintro c ⟨⟩

theorem readExponent?_eq_some_iff (cs : List Char) (e : Int) :
    readExponent? cs = some e ↔ SpellsExponent cs e := by
  constructor
  · intro h
    cases cs with
    | nil =>
      cases h
      exact .none
    | cons mark rest =>
      simp only [readExponent?, Bool.or_eq_true, decide_eq_true_eq] at h
      split at h
      · rename_i hmark
        obtain ⟨sign, hsplit, hsign⟩ := exists_sign rest
        split at h
        · cases h
        · rename_i ds hdigits hrun
          rcases digitRun_cases (takeSign rest).2 with hnone | ⟨run, hrest, hspells⟩
          · rw [hnone] at hrun
            exact absurd (Prod.mk.inj hrun).1.symm hdigits
          · rw [hrun, List.append_nil] at hrest
            rw [hrun] at hspells
            rw [hsplit, hrest, ← Option.some.inj h]
            exact .given hmark hsign hspells
        · cases h
      · cases h
  · intro h
    cases h with
    | none => rfl
    | given hmark hsign hdigits =>
      have hrun := digitRun_append hdigits endsDigits_nil
      have htake := takeSign_append hsign (hdigits.ne_sign [])
      rw [List.append_nil] at hrun htake
      simp only [readExponent?, Bool.or_eq_true, decide_eq_true_eq, if_pos hmark, htake, hrun]
      split
      · rename_i heq
        exact absurd (Prod.mk.inj heq).1 hdigits.ne_nil
      · rename_i heq
        rw [(Prod.mk.inj heq).1]
      · rename_i hnot
        exact absurd rfl (hnot _)

/-! ## Mantissas -/

theorem takeFraction_of_ne_point {cs : List Char} (h : ∀ c ∈ cs.head?, c ≠ '.') :
    takeFraction cs = ([], cs) := by
  unfold takeFraction
  split
  · exact absurd rfl (h _ rfl)
  · rfl

theorem endsDigits_point (cs : List Char) : EndsDigits ('.' :: cs) := by
  rintro c ⟨⟩
  exact ⟨by decide, by decide⟩

/-- The digits around a point at the front, and what follows them. -/
def takeMantissa (cs : List Char) : (List Nat × List Nat) × List Char :=
  let (whole, rest) := digitRun cs
  let (fraction, rest) := takeFraction rest
  ((whole, fraction), rest)

theorem takeMantissa_append {mantissa : List Char} {ds : List Nat} {places : Nat}
    (h : SpellsMantissa mantissa ds places) {rest : List Char} (hends : EndsDigits rest)
    (hpoint : ∀ c ∈ rest.head?, c ≠ '.') : ∃ whole fraction,
      takeMantissa (mantissa ++ rest) = ((whole, fraction), rest) ∧ whole ++ fraction = ds ∧
        fraction.length = places ∧ ds ≠ [] := by
  cases h with
  | whole hdigits =>
    refine ⟨ds, [], ?_, List.append_nil ds, rfl, hdigits.ne_nil⟩
    rw [takeMantissa, digitRun_append hdigits hends]
    simp only [takeFraction_of_ne_point hpoint]
  | pointBehind hdigits =>
    refine ⟨ds, [], ?_, List.append_nil ds, rfl, hdigits.ne_nil⟩
    rw [takeMantissa, List.append_assoc, List.singleton_append,
      digitRun_append hdigits (endsDigits_point _)]
    simp only [takeFraction, digitRun_of_ends hends]
  | pointBefore hdigits =>
    refine ⟨[], ds, ?_, rfl, rfl, hdigits.ne_nil⟩
    rw [takeMantissa, List.cons_append, digitRun_of_ends (endsDigits_point _)]
    simp only [takeFraction, digitRun_append hdigits hends]
  | @pointAmid _ _ es fs hdigits hfraction =>
    refine ⟨es, fs, ?_, rfl, rfl, List.append_ne_nil_of_left_ne_nil hdigits.ne_nil _⟩
    rw [takeMantissa, List.append_assoc, List.cons_append,
      digitRun_append hdigits (endsDigits_point _)]
    simp only [takeFraction, digitRun_append hfraction hends]

theorem takeFraction_cases (cs : List Char) :
    takeFraction cs = ([], cs) ∨ ∃ tail, cs = '.' :: tail ∧ takeFraction cs = digitRun tail := by
  unfold takeFraction
  split
  · exact .inr ⟨_, rfl, rfl⟩
  · exact .inl rfl

theorem exists_mantissa {cs rest : List Char} {whole fraction : List Nat}
    (h : takeMantissa cs = ((whole, fraction), rest)) (hdigits : whole ++ fraction ≠ []) :
    ∃ mantissa, cs = mantissa ++ rest ∧
      SpellsMantissa mantissa (whole ++ fraction) fraction.length := by
  obtain ⟨hwhole, hfraction⟩ : (digitRun cs).1 = whole ∧
      takeFraction (digitRun cs).2 = (fraction, rest) := by
    simp only [takeMantissa, Prod.mk.injEq] at h
    exact ⟨h.1.1, Prod.ext h.1.2 h.2⟩
  rcases digitRun_cases cs with hnone | ⟨run, hsplit, hrun⟩
  · -- No digit stands at the front, so a point has to.
    rw [hnone] at hwhole hfraction
    subst hwhole
    rcases takeFraction_cases cs with hplain | ⟨tail, rfl, htail⟩
    · rw [hplain] at hfraction
      exact absurd (Prod.mk.inj hfraction).1.symm hdigits
    · rw [htail] at hfraction
      rcases digitRun_cases tail with hempty | ⟨run, hsplit, hrun⟩
      · rw [hempty] at hfraction
        exact absurd (Prod.mk.inj hfraction).1.symm hdigits
      · rw [hfraction] at hsplit hrun
        exact ⟨'.' :: run, by rw [hsplit]; rfl, .pointBefore hrun⟩
  · rw [hwhole] at hrun
    rcases takeFraction_cases (digitRun cs).2 with hplain | ⟨tail, hpoint, htail⟩
    · rw [hplain] at hfraction
      obtain ⟨rfl, hrest⟩ := Prod.mk.inj hfraction
      rw [hrest] at hsplit
      exact ⟨run, hsplit, by simpa using SpellsMantissa.whole hrun⟩
    · rw [htail] at hfraction
      rw [hpoint] at hsplit
      rcases digitRun_cases tail with hempty | ⟨places, hbehind, hplaces⟩
      · rw [hempty] at hfraction
        obtain ⟨rfl, rfl⟩ := Prod.mk.inj hfraction
        exact ⟨run ++ ['.'], by simpa using hsplit, by simpa using SpellsMantissa.pointBehind hrun⟩
      · rw [hfraction] at hbehind hplaces
        exact ⟨run ++ '.' :: places, by simpa [hbehind] using hsplit, .pointAmid hrun hplaces⟩

theorem readDecimal?_eq (negative : Bool) (cs : List Char) : readDecimal? negative cs =
    if (takeMantissa cs).1.1 ++ (takeMantissa cs).1.2 = [] then none
    else (readExponent? (takeMantissa cs).2).map fun e =>
      .ofDecimal negative (ofDigits ((takeMantissa cs).1.1 ++ (takeMantissa cs).1.2))
        (e - (takeMantissa cs).1.2.length) := by
  simp only [readDecimal?, takeMantissa, Bool.and_eq_true, List.isEmpty_iff, List.append_eq_nil_iff]

theorem SpellsExponent.ends {cs : List Char} {e : Int} (h : SpellsExponent cs e) :
    EndsDigits cs ∧ ∀ c ∈ cs.head?, c ≠ '.' := by
  cases h with
  | none => exact ⟨endsDigits_nil, by rintro c ⟨⟩⟩
  | given hmark =>
    rcases hmark with rfl | rfl
    all_goals
      constructor
      · rintro c ⟨⟩
        exact ⟨by decide, by decide⟩
      · rintro c ⟨⟩
        decide

theorem readDecimal?_eq_some_iff (negative : Bool) (cs : List Char) (x : Binary64) :
    readDecimal? negative cs = some x ↔ ∃ mantissa ds places exponent e,
      cs = mantissa ++ exponent ∧ SpellsMantissa mantissa ds places ∧ SpellsExponent exponent e ∧
        .ofDecimal negative (ofDigits ds) (e - places) = x := by
  rw [readDecimal?_eq]
  constructor
  · intro h
    split at h
    · cases h
    · rename_i hdigits
      obtain ⟨e, he, rfl⟩ := Option.map_eq_some_iff.mp h
      obtain ⟨mantissa, hsplit, hmantissa⟩ := exists_mantissa rfl hdigits
      exact ⟨mantissa, _, _, _, e, hsplit, hmantissa, (readExponent?_eq_some_iff _ _).mp he, rfl⟩
  · rintro ⟨mantissa, ds, places, exponent, e, rfl, hmantissa, hexponent, rfl⟩
    obtain ⟨hends, hpoint⟩ := hexponent.ends
    obtain ⟨whole, fraction, htake, rfl, rfl, hdigits⟩ :=
      takeMantissa_append hmantissa hends hpoint
    simp only [htake, if_neg hdigits, (readExponent?_eq_some_iff _ _).mpr hexponent,
      Option.map_some]

/-! ## Words -/

theorem ofList_map_toLower_eq_iff (word : String) (cs : List Char) :
    String.ofList (cs.map Char.toLower) = word ↔ SpellsWord word cs := by
  constructor
  · rintro rfl
    rw [SpellsWord, String.toList_ofList]
  · intro h
    rw [h, String.ofList_toList]

theorem SpellsWord.ne_sign {word : String} {cs : List Char} (h : SpellsWord word cs)
    (hword : word ∈ words) : ∀ c ∈ cs.head?, c ≠ '-' ∧ c ≠ '+' := by
  have hsign : ∀ word ∈ words, '-' ∉ word.toList ∧ '+' ∉ word.toList := by decide
  intro c hc
  have hlower : c.toLower ∈ word.toList := by
    rw [← h]
    exact List.mem_map_of_mem (List.mem_of_mem_head? hc)
  constructor
  · rintro rfl
    exact (hsign word hword).1 hlower
  · rintro rfl
    exact (hsign word hword).2 hlower

theorem SpellsMantissa.head {mantissa : List Char} {ds : List Nat} {places : Nat}
    (h : SpellsMantissa mantissa ds places) (rest : List Char) :
    ∃ c tail, mantissa ++ rest = c :: tail ∧
      ((∃ d, DecimalDigits.digit? c = some d) ∨ c = '.') := by
  cases h with
  | whole h =>
    obtain ⟨c, tail, hhead, hdigit⟩ := h.head rest
    exact ⟨c, tail, hhead, .inl hdigit⟩
  | @pointBehind run _ h | @pointAmid run _ _ _ h =>
    rw [List.append_assoc]
    obtain ⟨c, tail, hhead, hdigit⟩ := h.head _
    exact ⟨c, tail, hhead, .inl hdigit⟩
  | pointBefore => exact ⟨_, _, rfl, .inr rfl⟩

/-- What begins as a decimal numeral spells no word. -/
theorem SpellsMantissa.not_spellsWord {mantissa : List Char} {ds : List Nat} {places : Nat}
    (h : SpellsMantissa mantissa ds places) (rest : List Char) {word : String}
    (hword : word ∈ words) : ¬SpellsWord word (mantissa ++ rest) := by
  have hletter : ∀ word ∈ words, '.' ∉ word.toList ∧
      word.toList.all (fun c => (DecimalDigits.digit? c).isNone) = true := by
    decide
  intro hspells
  obtain ⟨c, tail, hhead, hc⟩ := h.head rest
  have hmem : c.toLower ∈ word.toList := by
    rw [← hspells, hhead]
    exact List.mem_cons_self
  obtain ⟨hpoint, hdigits⟩ := hletter word hword
  rcases hc with ⟨d, hd⟩ | rfl
  · have hdigit := List.all_eq_true.mp hdigits _ hmem
    rw [toLower_of_digit? hd, hd] at hdigit
    cases hdigit
  · exact hpoint hmem

theorem SpellsMantissa.ne_sign {mantissa : List Char} {ds : List Nat} {places : Nat}
    (h : SpellsMantissa mantissa ds places) (rest : List Char) :
    ∀ c ∈ (mantissa ++ rest).head?, c ≠ '-' ∧ c ≠ '+' := by
  obtain ⟨first, tail, hhead, hc⟩ := h.head rest
  rw [hhead]
  rintro c ⟨⟩
  rcases hc with ⟨d, hd⟩ | rfl
  · exact ⟨ne_of_digit? hd (by decide), ne_of_digit? hd (by decide)⟩
  · exact ⟨by decide, by decide⟩

theorem readSigned?_eq (cs : List Char) : readSigned? cs =
    if SpellsWord "inf" (takeSign cs).2 ∨ SpellsWord "infinity" (takeSign cs).2 then
      some (.infinite (takeSign cs).1)
    else if SpellsWord "nan" (takeSign cs).2 then some .nan
    else readDecimal? (takeSign cs).1 (takeSign cs).2 := by
  simp only [readSigned?, Bool.or_eq_true, decide_eq_true_eq, ofList_map_toLower_eq_iff]

theorem readSigned?_eq_some_iff (cs : List Char) (x : Binary64) :
    readSigned? cs = some x ↔ ∃ n, Spells cs n ∧ n.rounded = x := by
  constructor
  · intro h
    rw [readSigned?_eq] at h
    obtain ⟨sign, hsplit, hsign⟩ := exists_sign cs
    rw [hsplit]
    split at h
    · rename_i hword
      exact ⟨_, .infinite hsign hword, Option.some.inj h⟩
    · split at h
      · rename_i hword
        exact ⟨_, .nan hsign hword, Option.some.inj h⟩
      · obtain ⟨mantissa, ds, places, exponent, e, hrest, hmantissa, hexponent, rfl⟩ :=
          (readDecimal?_eq_some_iff _ _ _).mp h
        rw [hrest]
        exact ⟨_, .decimal hsign hmantissa hexponent, rfl⟩
  · rintro ⟨n, hn, rfl⟩
    rw [readSigned?_eq]
    cases hn with
    | nan hsign hword =>
      rw [takeSign_append hsign (hword.ne_sign (by decide))]
      have hinf : ¬"nan".toList = "inf".toList := by decide
      have hinfinity : ¬"nan".toList = "infinity".toList := by decide
      rw [SpellsWord] at hword
      simp only [SpellsWord, hword, hinf, hinfinity, or_self, ↓reduceIte, rounded]
    | infinite hsign hword =>
      have hhead := hword.elim (·.ne_sign (by decide)) (·.ne_sign (by decide))
      rw [takeSign_append hsign hhead, if_pos hword]
      rfl
    | @decimal _ _ exponent _ _ _ _ hsign hmantissa hexponent =>
      rw [takeSign_append hsign (hmantissa.ne_sign _)]
      have hword {word : String} (h : word ∈ words) := hmantissa.not_spellsWord exponent h
      rw [if_neg (not_or.mpr ⟨hword (by decide), hword (by decide)⟩), if_neg (hword (by decide))]
      exact (readDecimal?_eq_some_iff _ _ _).mpr
        ⟨_, _, _, _, _, rfl, hmantissa, hexponent, rfl⟩

/-! ## Blank characters around a numeral -/

theorem dropWhile_append_of_none {front cs : List Char} (hfront : ∀ c ∈ front, isPadding c = true)
    (hcs : ∀ c ∈ cs.head?, isPadding c = false) : (front ++ cs).dropWhile isPadding = cs := by
  rw [List.dropWhile_append_of_pos hfront]
  cases cs with
  | nil => rfl
  | cons c rest => exact List.dropWhile_cons_of_neg (by simp [hcs c rfl])

theorem unpad_append {front body behind : List Char} (hfront : ∀ c ∈ front, isPadding c = true)
    (hbehind : ∀ c ∈ behind, isPadding c = true) (hbody : ∀ c ∈ body, isPadding c = false) :
    unpad (front ++ (body ++ behind)) = body := by
  by_cases hne : body = []
  · rw [hne, List.nil_append, unpad,
      List.dropWhile_eq_nil_iff.mpr (List.forall_mem_append.mpr ⟨hfront, hbehind⟩)]
    rfl
  have hfirst : ∀ c ∈ (body ++ behind).head?, isPadding c = false := by
    rw [List.head?_append_of_ne_nil _ hne]
    exact fun c hc => hbody c (List.mem_of_mem_head? hc)
  have hlast : ∀ c ∈ body.reverse.head?, isPadding c = false :=
    fun c hc => hbody c (List.mem_reverse.mp (List.mem_of_mem_head? hc))
  have hbehind : ∀ c ∈ behind.reverse, isPadding c = true :=
    fun c hc => hbehind c (List.mem_reverse.mp hc)
  rw [unpad, dropWhile_append_of_none hfront hfirst, List.reverse_append,
    dropWhile_append_of_none hbehind hlast, List.reverse_reverse]

theorem exists_unpad (cs : List Char) : ∃ front behind, cs = front ++ (unpad cs ++ behind) ∧
    (∀ c ∈ front, isPadding c = true) ∧ ∀ c ∈ behind, isPadding c = true := by
  refine ⟨cs.takeWhile isPadding,
    ((cs.dropWhile isPadding).reverse.takeWhile isPadding).reverse, ?_, ?_, ?_⟩
  · rw [unpad, ← List.reverse_append, List.takeWhile_append_dropWhile, List.reverse_reverse,
      List.takeWhile_append_dropWhile]
  · exact fun c hc => List.mem_takeWhile_imp hc
  · exact fun c hc => List.mem_takeWhile_imp (List.mem_reverse.mp hc)

/-- A text is read as a number exactly if it spells a numeral that is rounded to the number. -/
theorem readReal?_eq_some_iff (text : String) (x : Binary64) :
    readReal? text = some x ↔ ∃ n : Numeral, n.IsSpelledBy text ∧ n.rounded = x := by
  rw [readReal?, readSigned?_eq_some_iff]
  constructor
  · rintro ⟨n, hn, rfl⟩
    obtain ⟨front, behind, hsplit, hfront, hbehind⟩ := exists_unpad text.toList
    exact ⟨n, ⟨front, _, behind, hsplit, hfront, hbehind, hn⟩, rfl⟩
  · rintro ⟨n, ⟨front, body, behind, hsplit, hfront, hbehind, hn⟩, rfl⟩
    rw [hsplit, unpad_append hfront hbehind hn.not_padding]
    exact ⟨n, hn, rfl⟩

end Numeral
end MarkdownEdits
