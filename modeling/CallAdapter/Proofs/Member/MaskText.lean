import CallAdapter.Builder.Config
import CallAdapter.Proofs.Text.LetterCase

/-!
# Search masks from text

A text is read part by part (`read_joins_parts`): the word of a flag is read as its mask, reading
two texts with a separator between them joins the masks of both, and the failure names the first
part in reading order that is neither blank nor a flag. So only the words that occur count, not
their order or number, nor their letter case, the blanks around them, or blank parts.
-/

namespace CallAdapter

namespace Text

/-- No character but blanks. -/
def Blank (s : String) : Prop := ∀ c ∈ s.toList, isBlank c = true

instance (s : String) : Decidable (Blank s) :=
  inferInstanceAs (Decidable (∀ c ∈ s.toList, isBlank c = true))

/-- The text `core` with blanks around it. -/
def Padded (core s : String) : Prop := ∃ l r, Blank l ∧ Blank r ∧ s = l ++ core ++ r

theorem strip_of_padded {core s : String} (h : Padded core s) : strip s = strip core := by
  obtain ⟨l, r, hl, hr, rfl⟩ := h
  simp only [strip_eq, String.toList_append, trimmed_padded hl hr]

theorem padded_strip (s : String) : Padded (strip s) s := by
  have hfront := List.takeWhile_append_dropWhile (p := isBlank) (l := s.toList)
  have hback := List.takeWhile_append_dropWhile (p := isBlank)
    (l := (s.toList.dropWhile isBlank).reverse)
  have hrest := congrArg List.reverse hback
  rw [List.reverse_append, List.reverse_reverse] at hrest
  refine ⟨String.ofList (s.toList.takeWhile isBlank),
    String.ofList ((s.toList.dropWhile isBlank).reverse.takeWhile isBlank).reverse, ?_, ?_, ?_⟩
  · intro c hc
    rw [String.toList_ofList] at hc
    exact List.mem_takeWhile_imp hc
  · intro c hc
    rw [String.toList_ofList, List.mem_reverse] at hc
    exact List.mem_takeWhile_imp hc
  · apply String.toList_injective
    simp only [String.toList_append, strip_eq, String.toList_ofList, List.append_assoc]
    rw [trimmed, hrest, hfront]

theorem strip_eq_empty_iff {s : String} : strip s = "" ↔ Blank s := by
  rw [strip_eq, String.ofList_eq_empty_iff, trimmed_eq_nil_iff]
  rfl

theorem upper_eq_empty_iff {s : String} : upper s = "" ↔ s = "" := by
  constructor
  · intro h
    rw [upper, String.ofList_eq_empty_iff, List.flatMap_eq_nil_iff] at h
    by_contra hne
    obtain ⟨c, hc⟩ := List.exists_mem_of_ne_nil s.toList (by simpa using hne)
    exact keepsBlanks_upper.ne_nil c (h c hc)
  · rintro rfl
    rfl

end Text

namespace SearchMask

/-- Reads a mask. An unknown option is a failure that names it. -/
def read (text : String) : Except Failure SearchMask :=
  (ofText text).mapError BuildConfig.unknownOption

/-- The parts of a written mask are separated by commas and bars. -/
def isSeparator (c : Char) : Bool := c == ',' || c == '|'

/-- The parts of a written mask, in reading order. -/
def pieces (text : String) : List String :=
  (text.toList.splitOnP isSeparator).map String.ofList

/-- The word that a part stands for. -/
def wordOf (piece : String) : String := Text.upper (Text.strip piece)

def IsKnown (word : String) : Prop := (SearchFlag.ofWord? word).isSome = true

instance (word : String) : Decidable (IsKnown word) :=
  inferInstanceAs (Decidable ((SearchFlag.ofWord? word).isSome = true))

/-! ## Parts and words -/

theorem parts_eq_splitOnP (cs : List Char) : words.parts cs = cs.splitOnP isSeparator := by
  induction cs with
  | nil => rfl
  | cons c cs ih =>
    rw [List.splitOnP_cons_eq_if_modifyHead, words.parts, ih]
    by_cases hc : isSeparator c = true
    · rw [if_pos hc]
      exact if_pos hc
    · rw [if_neg hc]
      refine (if_neg hc).trans ?_
      obtain ⟨p, ps, hp⟩ := List.exists_cons_of_ne_nil (List.splitOnP_ne_nil isSeparator cs)
      rw [hp]
      rfl

theorem words_eq (text : String) :
    words text = ((pieces text).map wordOf).filter fun w => !w.isEmpty := by
  simp [words, pieces, wordOf, parts_eq_splitOnP, Function.comp_def]

theorem pieces_append (a b : String) {s : String} (hs : s ∈ [",", "|"]) :
    pieces (a ++ s ++ b) = pieces a ++ pieces b := by
  obtain ⟨c, hc, rfl⟩ : ∃ c, isSeparator c = true ∧ s = String.singleton c := by
    simp only [List.mem_cons, List.not_mem_nil, or_false] at hs
    obtain rfl | rfl := hs
    · exact ⟨',', rfl, rfl⟩
    · exact ⟨'|', rfl, rfl⟩
  simp [pieces, List.splitOnP_append_cons _ _ hc]

theorem words_append (a b : String) {s : String} (hs : s ∈ [",", "|"]) :
    words (a ++ s ++ b) = words a ++ words b := by
  simp [words_eq, pieces_append a b hs]

theorem wordOf_eq_empty_iff {p : String} : wordOf p = "" ↔ Text.Blank p := by
  rw [wordOf, Text.upper_eq_empty_iff, Text.strip_eq_empty_iff]

theorem mem_words {text w : String} :
    w ∈ words text ↔ ∃ p ∈ pieces text, ¬ Text.Blank p ∧ wordOf p = w := by
  simp only [words_eq, List.mem_filter, List.mem_map, Bool.not_eq_true',
    String.isEmpty_eq_false_iff]
  constructor
  · rintro ⟨⟨p, hp, rfl⟩, hne⟩
    exact ⟨p, hp, fun hblank => hne (wordOf_eq_empty_iff.2 hblank), rfl⟩
  · rintro ⟨p, hp, hblank, rfl⟩
    exact ⟨⟨p, hp, rfl⟩, fun hempty => hblank (wordOf_eq_empty_iff.1 hempty)⟩

/-! ## Joined masks -/

theorem ofWords_eq_error_iff {ws : List String} {w : String} :
    ofWords ws = .error w ↔ ws.find? (fun v => (SearchFlag.ofWord? v).isNone) = some w := by
  induction ws with
  | nil => simp [ofWords]
  | cons v ws ih =>
    rw [ofWords, List.find?_cons]
    cases SearchFlag.ofWord? v with
    | none => simp
    | some m => cases h : ofWords ws <;> simp_all [Except.map]

/-- A mask is read when all words are known, and it has the bits that some word has. -/
theorem ofWords_eq_ok {ws : List String} {m : SearchMask} (h : ofWords ws = .ok m) :
    (∀ w ∈ ws, IsKnown w) ∧ ∀ i, m.getLsbD i = true ↔
      ∃ w ∈ ws, ((SearchFlag.ofWord? w).getD 0).getLsbD i = true := by
  induction ws generalizing m with
  | nil =>
    obtain rfl : (0 : SearchMask) = m := by simpa [ofWords] using h
    simp
  | cons w ws ih =>
    rw [ofWords] at h
    cases hw : SearchFlag.ofWord? w with
    | none => simp [hw] at h
    | some k =>
      cases hws : ofWords ws with
      | error e => simp [hw, hws, Except.map] at h
      | ok n =>
        obtain rfl : k ||| n = m := by simpa [hw, hws, Except.map] using h
        obtain ⟨hknown, hbits⟩ := ih hws
        refine ⟨?_, fun i => ?_⟩
        · simpa [IsKnown, hw] using hknown
        · simp [BitVec.getLsbD_or, hbits, hw]

theorem exists_ofWords_eq_ok {ws : List String} (h : ∀ w ∈ ws, IsKnown w) :
    ∃ m, ofWords ws = .ok m := by
  cases hws : ofWords ws with
  | ok m => exact ⟨m, rfl⟩
  | error w =>
    have hfind := ofWords_eq_error_iff.1 hws
    have hw := h w (List.mem_of_find?_eq_some hfind)
    have hnone := List.find?_some hfind
    simp [IsKnown, Option.isSome_iff_ne_none, Option.isNone_iff_eq_none] at hw hnone
    exact absurd hnone hw

/-- Lists of the same words have one mask. -/
theorem eq_of_words_subset {us vs : List String} {m n : SearchMask} (hu : ofWords us = .ok m)
    (hv : ofWords vs = .ok n) (huv : us ⊆ vs) (hvu : vs ⊆ us) : m = n := by
  refine BitVec.eq_of_getLsbD_eq fun i _ => ?_
  rw [Bool.eq_iff_iff, (ofWords_eq_ok hu).2, (ofWords_eq_ok hv).2]
  exact ⟨fun ⟨w, hw, hi⟩ => ⟨w, huv hw, hi⟩, fun ⟨w, hw, hi⟩ => ⟨w, hvu hw, hi⟩⟩

theorem read_eq_ok_iff {t : String} {m : SearchMask} :
    read t = .ok m ↔ ofWords (words t) = .ok m := by
  rw [read, ofText]
  cases ofWords (words t) <;> simp [Except.mapError]

/-- The failure names the first part that is neither blank nor known. -/
theorem read_eq_error_iff {t : String} {e : Failure} :
    read t = .error e ↔ ∃ before p after, pieces t = before ++ p :: after ∧
      (∀ q ∈ before, Text.Blank q ∨ IsKnown (wordOf q)) ∧ ¬ Text.Blank p ∧
      ¬ IsKnown (wordOf p) ∧ e = BuildConfig.unknownOption (wordOf p) := by
  have hread : read t = .error e ↔
      ∃ w, ofWords (words t) = .error w ∧ e = BuildConfig.unknownOption w := by
    rw [read, ofText]
    cases ofWords (words t) <;> simp [Except.mapError, eq_comm]
  have hblank : ∀ p, (wordOf p).isEmpty = false ↔ ¬ Text.Blank p := fun p => by
    rw [String.isEmpty_eq_false_iff, Ne, wordOf_eq_empty_iff]
  have hknown : ∀ p, (SearchFlag.ofWord? (wordOf p)).isNone = true ↔ ¬ IsKnown (wordOf p) :=
    fun p => by simp [IsKnown]
  rw [hread]
  simp only [ofWords_eq_error_iff, words_eq, List.find?_filter, List.find?_map,
    Option.map_eq_some_iff, List.find?_eq_some_iff_append, Function.comp_apply,
    Bool.not_eq_true', decide_eq_true_eq, decide_eq_false_iff_not, hblank, hknown, not_and,
    not_not]
  constructor
  · rintro ⟨_, ⟨p, ⟨⟨hblank, hunknown⟩, before, after, hpieces, hbefore⟩, rfl⟩, rfl⟩
    exact ⟨before, p, after, hpieces, fun q hq => or_iff_not_imp_left.2 (hbefore q hq), hblank,
      hunknown, rfl⟩
  · rintro ⟨before, p, after, hpieces, hbefore, hblank, hunknown, rfl⟩
    exact ⟨_, ⟨p, ⟨⟨hblank, hunknown⟩, before, after, hpieces,
      fun q hq => or_iff_not_imp_left.1 (hbefore q hq)⟩, rfl⟩, rfl⟩

/-! ## Texts with the same parts -/

/-- The two texts differ in the blanks around them and in what `key` forgets. -/
def SameUpTo (key : String → String) (p q : String) : Prop :=
  ∃ c d, Text.Padded c p ∧ Text.Padded d q ∧ key c = key d

/-- Every part of the first text that is not blank has its like among those of the second. -/
def PartsIn (key : String → String) (t u : String) : Prop :=
  ∀ p ∈ pieces t, Text.Blank p ∨ ∃ q ∈ pieces u, SameUpTo key p q

theorem partsIn_of_strip {key : String → String} {t u : String}
    (h : ∀ p ∈ pieces t, Text.Blank p ∨
      ∃ q ∈ pieces u, key (Text.strip p) = key (Text.strip q)) : PartsIn key t u :=
  fun p hp => (h p hp).imp_right fun ⟨q, hq, hkey⟩ =>
    ⟨q, hq, _, _, Text.padded_strip p, Text.padded_strip q, hkey⟩

theorem wordOf_eq_of_upper {p q : String} (h : SameUpTo Text.upper p q) : wordOf p = wordOf q := by
  obtain ⟨c, d, hc, hd, hkey⟩ := h
  rw [wordOf, wordOf, Text.strip_of_padded hc, Text.strip_of_padded hd, ← Text.strip_upper,
    ← Text.strip_upper, hkey]

theorem wordOf_eq_of_fold {p q : String} (h : SameUpTo Text.fold p q)
    (hp : Text.Ascii (wordOf p)) (hq : Text.Ascii (wordOf q)) : wordOf p = wordOf q := by
  obtain ⟨c, d, hc, hd, hkey⟩ := h
  unfold wordOf at hp hq ⊢
  rw [Text.strip_of_padded hc] at hp ⊢
  rw [Text.strip_of_padded hd] at hq ⊢
  rw [← Text.upper_fold hp, ← Text.upper_fold hq, ← Text.strip_fold, ← Text.strip_fold, hkey]

theorem ascii_of_isKnown {w : String} (h : IsKnown w) : Text.Ascii w := by
  unfold IsKnown SearchFlag.ofWord? at h
  split at h
  · next hnone =>
    subst hnone
    simp [Text.Ascii]
  · simp only [Option.isSome_map, List.find?_isSome, beq_iff_eq] at h
    obtain ⟨f, -, rfl⟩ := h
    cases f <;> simp [Text.Ascii, SearchFlag.word]

theorem ascii_wordOf {t : String} {m : SearchMask} (h : read t = .ok m) {p : String}
    (hp : p ∈ pieces t) : Text.Ascii (wordOf p) := by
  by_cases hblank : Text.Blank p
  · rw [wordOf_eq_empty_iff.2 hblank]
    nofun
  · exact ascii_of_isKnown
      ((ofWords_eq_ok (read_eq_ok_iff.1 h)).1 _ (mem_words.2 ⟨p, hp, hblank, rfl⟩))

theorem words_subset {key : String → String} {t u : String} (h : PartsIn key t u)
    (hkey : ∀ p ∈ pieces t, ∀ q ∈ pieces u, SameUpTo key p q → wordOf p = wordOf q) :
    words t ⊆ words u := by
  intro w hw
  obtain ⟨p, hp, hblank, rfl⟩ := mem_words.1 hw
  obtain hp' | ⟨q, hq, hsame⟩ := h p hp
  · exact absurd hp' hblank
  · have hword := hkey p hp q hq hsame
    rw [← wordOf_eq_empty_iff, hword, wordOf_eq_empty_iff] at hblank
    exact mem_words.2 ⟨q, hq, hblank, hword.symm⟩

theorem partsIn_upper_iff {t u : String} : PartsIn Text.upper t u ↔ words t ⊆ words u := by
  constructor
  · intro h
    exact words_subset h fun _ _ _ _ => wordOf_eq_of_upper
  · intro h
    refine partsIn_of_strip fun p hp => or_iff_not_imp_left.2 fun hblank => ?_
    obtain ⟨q, hq, -, hword⟩ := mem_words.1 (h (mem_words.2 ⟨p, hp, hblank, rfl⟩))
    exact ⟨q, hq, hword.symm⟩

theorem read_eq_ok_of_upper {t u : String} (htu : PartsIn Text.upper t u)
    (hut : PartsIn Text.upper u t) {m : SearchMask} (h : read t = .ok m) : read u = .ok m := by
  rw [partsIn_upper_iff] at htu hut
  rw [read_eq_ok_iff] at h ⊢
  obtain ⟨n, hn⟩ := exists_ofWords_eq_ok fun w hw => (ofWords_eq_ok h).1 w (hut hw)
  rw [hn, eq_of_words_subset h hn htu hut]

theorem eq_of_fold {t u : String} (htu : PartsIn Text.fold t u) (hut : PartsIn Text.fold u t)
    {m n : SearchMask} (ht : read t = .ok m) (hu : read u = .ok n) : m = n := by
  have hwords : words t ⊆ words u := words_subset htu fun _ hp _ hq hsame =>
    wordOf_eq_of_fold hsame (ascii_wordOf ht hp) (ascii_wordOf hu hq)
  have hwords' : words u ⊆ words t := words_subset hut fun _ hp _ hq hsame =>
    wordOf_eq_of_fold hsame (ascii_wordOf hu hp) (ascii_wordOf ht hq)
  exact eq_of_words_subset (read_eq_ok_iff.1 ht) (read_eq_ok_iff.1 hu) hwords hwords'

theorem read_append (a b : String) {s : String} (hs : s ∈ [",", "|"]) :
    read (a ++ s ++ b) = (do
      let m ← read a
      let n ← read b
      pure (m ||| n)) := by
  unfold read ofText
  rw [words_append a b hs, ofWords_append]
  cases ofWords (words a) with
  | error w => rfl
  | ok m => cases ofWords (words b) <;> rfl

/-! ## The words of flags -/

theorem wordOf_ofList (cs : List Char) {ds : List Char}
    (h : (Text.trimmed cs).flatMap (Text.mapCase Text.upperRuns Text.upperExpansions) = ds) :
    wordOf (String.ofList cs) = String.ofList ds := by
  simp [wordOf, Text.upper, Text.strip_eq, h]

theorem pieces_eq_singleton {t : String} (h : ∀ c ∈ t.toList, isSeparator c = false) :
    pieces t = [t] := by
  simp [pieces, List.splitOnP_eq_singleton h]

theorem words_word (f : SearchFlag) : words f.word = [f.word] := by
  have hpieces : pieces f.word = [f.word] :=
    pieces_eq_singleton (by cases f <;> simp [SearchFlag.word, isSeparator])
  have hword : wordOf f.word = f.word := by
    cases f <;> exact wordOf_ofList _ (by decide +kernel)
  have hempty : f.word.isEmpty = false := by
    cases f <;> rfl
  simp [words_eq, hpieces, hword, hempty]

theorem read_word (f : SearchFlag) : read f.word = .ok f.mask := by
  have hflag : SearchFlag.ofWord? f.word = some f.mask := by
    cases f <;> rfl
  rw [read_eq_ok_iff, words_word, ofWords, hflag]
  simp [ofWords, Except.map]

/-! ## What a written mask says -/

/-- Reading joins: a flag's word is read as its mask, a separator between two texts joins their
masks, and the failure is that of the first part in reading order which is neither blank nor known.
Texts whose parts are the same but for their order and number, blanks and letter case are read as
the same mask. -/
theorem read_joins_parts :
    (∀ f : SearchFlag, read f.word = .ok f.mask) ∧
    (∀ a b : String, ∀ s ∈ [",", "|"],
      read (a ++ s ++ b) = do
        let m ← read a
        let n ← read b
        pure (m ||| n)) ∧
    (∀ (t : String) (e : Failure), read t = .error e ↔
      ∃ before p after, pieces t = before ++ p :: after ∧
        (∀ q ∈ before, Text.Blank q ∨ IsKnown (wordOf q)) ∧ ¬ Text.Blank p ∧
        ¬ IsKnown (wordOf p) ∧
        e = .exception .valueError
          (some ("unknown search option " ++ Text.quoted (wordOf p)))) ∧
    (∀ t u : String, PartsIn Text.upper t u → PartsIn Text.upper u t →
      ∀ m, read t = .ok m ↔ read u = .ok m) ∧
    ∀ (t u : String) (m n : SearchMask), PartsIn Text.fold t u → PartsIn Text.fold u t →
      read t = .ok m → read u = .ok n → m = n :=
  ⟨read_word, fun a b _ hs => read_append a b hs, fun _ _ => read_eq_error_iff,
    fun _ _ htu hut _ => ⟨read_eq_ok_of_upper htu hut, read_eq_ok_of_upper hut htu⟩,
    fun _ _ _ _ htu hut ht hu => eq_of_fold htu hut ht hu⟩

/-- Two flags stay the two flags when they change places, one comes twice, and the other is written
in small letters with a blank before it. A ligature is read as its letters. -/
theorem read_joins_parts_static_public :
    read ("STATIC" ++ "," ++ "PUBLIC") = .ok (ofFlags [.staticScope, .publicName]) ∧
      read " public|STATIC,,STATIC" = .ok (ofFlags [.staticScope, .publicName]) ∧
      read "STATIC,, no|yes" =
        .error (.exception .valueError (some "unknown search option 'NO'")) ∧
      read "\uFB06ATIC" = .ok SearchFlag.staticScope.mask ∧
      ofFlags [.staticScope] = SearchFlag.staticScope.mask := by
  obtain ⟨hflag, hjoin, herror, hupper, hfold⟩ := read_joins_parts
  have hstatic : wordOf "STATIC" = "STATIC" :=
    wordOf_ofList ['S', 'T', 'A', 'T', 'I', 'C'] (by decide +kernel)
  have hsmall : wordOf " public" = "PUBLIC" :=
    wordOf_ofList [' ', 'p', 'u', 'b', 'l', 'i', 'c'] (by decide +kernel)
  have hligature : wordOf "\uFB06ATIC" = "STATIC" :=
    wordOf_ofList ['\uFB06', 'A', 'T', 'I', 'C'] (by decide +kernel)
  have hno : wordOf " no" = "NO" := wordOf_ofList [' ', 'n', 'o'] (by decide +kernel)
  have hempty : wordOf "" = "" := wordOf_ofList [] rfl
  have hpieces : pieces " public|STATIC,,STATIC" = [" public", "STATIC", "", "STATIC"] := by cbv
  have hone : pieces "STATIC" = ["STATIC"] := pieces_eq_singleton (by simp [isSeparator])
  have hone' : pieces "\uFB06ATIC" = ["\uFB06ATIC"] := pieces_eq_singleton (by simp [isSeparator])
  have hcore : Text.strip "STATIC" = "STATIC" := by cbv
  have hcore' : Text.strip "\uFB06ATIC" = "\uFB06ATIC" := by cbv
  have hread : read "STATIC" = .ok (ofFlags [.staticScope]) := hflag .staticScope
  have hother : read "PUBLIC" = .ok (ofFlags [.publicName]) := hflag .publicName
  have hjoined : read ("STATIC" ++ "," ++ "PUBLIC") =
      .ok (ofFlags [.staticScope, .publicName]) := by
    rw [hjoin "STATIC" "PUBLIC" "," (by simp), hread, hother]
    rfl
  have hvariant : read "\uFB06ATIC" = .ok SearchFlag.staticScope.mask :=
    read_eq_ok_iff.2 (by simp [words_eq, hone', hligature]; cbv)
  have hwords : words ("STATIC" ++ "," ++ "PUBLIC") = ["STATIC", "PUBLIC"] := by
    rw [words_append _ _ (by simp)]
    exact congrArg₂ (· ++ ·) (words_word .staticScope) (words_word .publicName)
  have hwords' : words " public|STATIC,,STATIC" = ["PUBLIC", "STATIC", "STATIC"] := by
    simp [words_eq, hpieces, hstatic, hsmall, hempty]
  have hfolded : Text.fold "STATIC" = Text.fold "\uFB06ATIC" :=
    congrArg String.ofList (by simp; decide +kernel)
  refine ⟨hjoined, (hupper _ " public|STATIC,,STATIC" ?_ ?_ _).1 hjoined, ?_, hvariant,
    hfold "STATIC" "\uFB06ATIC" _ _ ?_ ?_ hread hvariant⟩
  · rw [partsIn_upper_iff, hwords, hwords']
    simp
  · rw [partsIn_upper_iff, hwords, hwords']
    simp
  · refine (herror _ _).2 ⟨["STATIC", ""], " no", ["yes"], by cbv, ?_, ?_, ?_, ?_⟩
    · intro q hq
      simp at hq
      obtain rfl | rfl := hq
      · exact .inr (by rw [hstatic]; cbv)
      · exact .inl (wordOf_eq_empty_iff.1 hempty)
    · simp [← wordOf_eq_empty_iff, hno]
    · rw [hno]
      exact of_decide_eq_true (by cbv)
    · have hquoted : Text.quoted "NO" = "'NO'" := by
        change Text.quoted (String.ofList ['N', 'O']) = _
        rw [Text.quoted, String.toList_ofList]
        rfl
      simp [hno, hquoted]
  · refine partsIn_of_strip ?_
    simp [hone, hone', hcore, hcore', hfolded]
  · refine partsIn_of_strip ?_
    simp [hone, hone', hcore, hcore', hfolded]

end SearchMask

end CallAdapter
