import CallAdapter.Text.Fold
import Mathlib

/-!
# Letter case and the blanks around a text

Bringing a text to upper case, or folding it, leaves its blanks where they are and makes no new
ones (`keepsBlanks_upper`, `keepsBlanks_fold`), so that it does not matter whether the blanks at the
ends are dropped before or after (`strip_upper`, `strip_fold`). Folding a text does not change an
upper case without letters beyond ASCII (`upper_fold`).

Both mappings are tables. What is said of every character is read off their rows, of which there
are finitely many.
-/

namespace CallAdapter

namespace Text

/-! ## Blanks -/

/-- First and last of each range of blanks. -/
def blankRanges : List (Nat × Nat) :=
  [(9, 13), (28, 32), (0x85, 0x85), (0xA0, 0xA0), (0x1680, 0x1680), (0x2000, 0x200A),
    (0x2028, 0x2029), (0x202F, 0x202F), (0x205F, 0x205F), (0x3000, 0x3000)]

theorem isBlank_iff (c : Char) :
    isBlank c = true ↔ ∃ b ∈ blankRanges, b.1 ≤ c.toNat ∧ c.toNat ≤ b.2 := by
  simp [isBlank, blankRanges]
  omega

/-- The characters of a text without the blanks at its two ends. -/
def trimmed (cs : List Char) : List Char :=
  ((cs.dropWhile isBlank).reverse.dropWhile isBlank).reverse

theorem strip_eq (s : String) : strip s = String.ofList (trimmed s.toList) := rfl

theorem dropWhile_append_blank {cs after : List Char} (h : ∀ c ∈ after, isBlank c = true) :
    (cs ++ after).dropWhile isBlank = cs.dropWhile isBlank ++
      if cs.dropWhile isBlank = [] then [] else after := by
  rw [List.dropWhile_append]
  by_cases hcs : cs.dropWhile isBlank = []
  · simp [hcs, List.dropWhile_eq_nil_iff.2 h]
  · simp [hcs]

/-- Blanks at the ends are dropped, however many there are. -/
theorem trimmed_padded {before cs after : List Char} (hb : ∀ c ∈ before, isBlank c = true)
    (ha : ∀ c ∈ after, isBlank c = true) : trimmed (before ++ cs ++ after) = trimmed cs := by
  unfold trimmed
  rw [List.append_assoc, List.dropWhile_append_of_pos hb, dropWhile_append_blank ha]
  by_cases hcs : cs.dropWhile isBlank = []
  · simp [hcs]
  · rw [if_neg hcs, List.reverse_append, List.dropWhile_append_of_pos]
    simpa using ha

theorem trimmed_eq_nil_iff {cs : List Char} :
    trimmed cs = [] ↔ ∀ c ∈ cs, isBlank c = true := by
  rw [trimmed, List.reverse_eq_nil_iff, List.dropWhile_eq_nil_iff]
  constructor
  · intro h c hc
    rw [← List.takeWhile_append_dropWhile (p := isBlank) (l := cs)] at hc
    obtain hfront | hrest := List.mem_append.1 hc
    · exact List.mem_takeWhile_imp hfront
    · exact h c (List.mem_reverse.2 hrest)
  · intro h c hc
    exact h c ((List.dropWhile_sublist isBlank).subset (List.mem_reverse.1 hc))

/-! ## Mappings that keep blanks -/

/-- Blanks stay as they are, and every other character becomes characters that are no blanks. -/
structure KeepsBlanks (f : Char → List Char) : Prop where
  blank : ∀ c, isBlank c = true → f c = [c]
  other : ∀ c, isBlank c = false → f c ≠ [] ∧ ∀ d ∈ f c, isBlank d = false

namespace KeepsBlanks

variable {f : Char → List Char}

theorem ne_nil (hf : KeepsBlanks f) (c : Char) : f c ≠ [] := by
  by_cases hc : isBlank c = true
  · simp [hf.blank c hc]
  · exact (hf.other c (by simpa using hc)).1

theorem reverse (hf : KeepsBlanks f) : KeepsBlanks fun c => (f c).reverse where
  blank c hc := by simp [hf.blank c hc]
  other c hc := by simpa using hf.other c hc

theorem dropWhile (hf : KeepsBlanks f) (cs : List Char) :
    (cs.flatMap f).dropWhile isBlank = (cs.dropWhile isBlank).flatMap f := by
  induction cs with
  | nil => rfl
  | cons c cs ih =>
    by_cases hc : isBlank c = true
    · simpa [hf.blank c hc, hc] using ih
    · rw [Bool.not_eq_true] at hc
      obtain ⟨hne, hother⟩ := hf.other c hc
      obtain ⟨d, ds, hd⟩ := List.exists_cons_of_ne_nil hne
      have hdb : isBlank d = false := hother d (by simp [hd])
      simp [hc, hd, hdb]

theorem trimmed (hf : KeepsBlanks f) (cs : List Char) :
    Text.trimmed (cs.flatMap f) = (Text.trimmed cs).flatMap f := by
  unfold Text.trimmed
  rw [hf.dropWhile, List.reverse_flatMap]
  have hrev := hf.reverse.dropWhile (cs.dropWhile isBlank).reverse
  simp only [Function.comp_def] at hrev ⊢
  rw [hrev, List.reverse_flatMap]
  simp [Function.comp_def]

end KeepsBlanks

/-! ## What the tables say -/

/-- The characters numbered `first` to `last` are no blanks. -/
def clearOfBlanks (first last : Nat) : Bool :=
  blankRanges.all fun b => decide (last < b.1) || decide (b.2 < first)

theorem not_isBlank_of_clear {first last : Nat} {c : Char} (h : clearOfBlanks first last = true)
    (hfirst : first ≤ c.toNat) (hlast : c.toNat ≤ last) : isBlank c = false := by
  by_contra hc
  rw [Bool.not_eq_false, isBlank_iff] at hc
  obtain ⟨b, hb, hlo, hhi⟩ := hc
  have hclear := List.all_eq_true.1 h b hb
  simp only [Bool.or_eq_true, decide_eq_true_eq] at hclear
  omega

/-- A number that is no character's stands for the first one, which is no blank either. -/
theorem not_isBlank_ofNat {first last n : Nat} (h : clearOfBlanks first last = true)
    (hfirst : first ≤ n) (hlast : n ≤ last) : isBlank (Char.ofNat n) = false := by
  have htoNat := Char.toNat_ofNat n
  split at htoNat
  · exact not_isBlank_of_clear h (by omega) (by omega)
  · have hnull : clearOfBlanks 0 0 = true := by decide
    exact not_isBlank_of_clear hnull (by omega) (by omega)

/-- Neither the characters of the run nor their images are blanks. -/
def CaseRun.clear (r : CaseRun) : Bool :=
  clearOfBlanks r.first r.last &&
    clearOfBlanks ((r.first : Int) + r.shift).toNat ((r.last : Int) + r.shift).toNat

/-- A character with several images is no blank, has an image, and none of them is a blank. -/
def clearExpansion (e : Nat × List Nat) : Bool :=
  clearOfBlanks e.1 e.1 && !e.2.isEmpty && e.2.all fun n => clearOfBlanks n n

/-- The characters numbered `first` to `last` are all characters, and none is in ASCII. -/
def beyondAscii (first last : Nat) : Bool :=
  (decide (128 ≤ first) && decide (last < 0xD800)) ||
    (decide (0xE000 ≤ first) && decide (last < 0x110000))

/-- The characters beyond ASCII whose upper case is in ASCII: the sharp s, the dotless i, the long
s, and the ligatures of Latin letters. -/
def upperToAscii : List Nat :=
  [0xDF, 0x131, 0x17F] ++ List.range' 0xFB00 7

def isUpperToAscii (n : Nat) : Bool :=
  decide (n < 128) || upperToAscii.contains n

/-- The run maps beyond ASCII, or all its characters are known to be mapped into it. -/
def CaseRun.listed (r : CaseRun) : Bool :=
  beyondAscii ((r.first : Int) + r.shift).toNat ((r.last : Int) + r.shift).toNat ||
    (List.range' r.first (r.last + 1 - r.first)).all isUpperToAscii

/-- One of the images is beyond ASCII, or the character is known to be mapped into it. -/
def listedExpansion (e : Nat × List Nat) : Bool :=
  (e.2.any fun n => beyondAscii n n) || isUpperToAscii e.1

/-- What is said of every row of the upper case table: it keeps clear of blanks, what it maps into
ASCII is known, and in ASCII it has the small letters alone. -/
theorem upper_rows :
    (∀ r ∈ upperRuns, r.clear = true ∧ r.listed = true ∧
      ((r.first = 0x61 ∧ r.last = 0x7A) ∨ 128 ≤ r.first)) ∧
    ∀ e ∈ upperExpansions, clearExpansion e = true ∧ listedExpansion e = true ∧ 128 ≤ e.1 := by
  decide +kernel

/-- The rows of the folding keep clear of blanks, and in ASCII they have the capitals alone. -/
theorem fold_rows :
    (∀ r ∈ foldRuns, r.clear = true ∧ ((r.first = 0x41 ∧ r.last = 0x5A) ∨ 128 ≤ r.first)) ∧
    ∀ e ∈ foldExpansions, clearExpansion e = true ∧ 128 ≤ e.1 := by
  decide +kernel

theorem CaseRun.holds_iff {r : CaseRun} {n : Nat} :
    r.holds n = true ↔ r.first ≤ n ∧ n ≤ r.last ∧ (n - r.first) % r.step = 0 := by
  simp [CaseRun.holds, and_assoc]

/-- A character is mapped by a run that holds it, by an expansion, or to itself. -/
theorem mapCase_cases (runs : List CaseRun) (expansions : List (Nat × List Nat)) (c : Char) :
    (∃ r ∈ runs, r.first ≤ c.toNat ∧ c.toNat ≤ r.last ∧
      mapCase runs expansions c = [Char.ofNat ((c.toNat : Int) + r.shift).toNat]) ∨
    (∃ e ∈ expansions, e.1 = c.toNat ∧ mapCase runs expansions c = e.2.map Char.ofNat) ∨
    mapCase runs expansions c = [c] := by
  unfold mapCase
  split
  · next r h =>
    have hholds := List.find?_some h
    obtain ⟨hfirst, hlast, -⟩ := CaseRun.holds_iff.1 hholds
    exact .inl ⟨r, List.mem_of_find?_eq_some h, hfirst, hlast, rfl⟩
  · split
    · next e h =>
      have hkey := List.find?_some h
      exact .inr (.inl ⟨e, List.mem_of_find?_eq_some h, by simpa using hkey, rfl⟩)
    · exact .inr (.inr rfl)

theorem keepsBlanks_mapCase {runs : List CaseRun} {expansions : List (Nat × List Nat)}
    (hruns : ∀ r ∈ runs, r.clear = true)
    (hexpansions : ∀ e ∈ expansions, clearExpansion e = true) :
    KeepsBlanks (mapCase runs expansions) := by
  constructor
  · intro c hc
    obtain ⟨r, hr, hfirst, hlast, -⟩ | ⟨e, he, hkey, -⟩ | hself := mapCase_cases runs expansions c
    · have hclear := hruns r hr
      simp only [CaseRun.clear, Bool.and_eq_true] at hclear
      simp [not_isBlank_of_clear hclear.1 hfirst hlast] at hc
    · have hclear := hexpansions e he
      simp only [clearExpansion, Bool.and_eq_true] at hclear
      simp [not_isBlank_of_clear hclear.1.1 hkey.le hkey.ge] at hc
    · exact hself
  · intro c hc
    obtain ⟨r, hr, hfirst, hlast, h⟩ | ⟨e, he, -, h⟩ | h := mapCase_cases runs expansions c
    · have hclear := hruns r hr
      simp only [CaseRun.clear, Bool.and_eq_true] at hclear
      have himage := not_isBlank_ofNat (n := ((c.toNat : Int) + r.shift).toNat) hclear.2
        (by omega) (by omega)
      simp [h, himage]
    · have hclear := hexpansions e he
      simp only [clearExpansion, Bool.and_eq_true, Bool.not_eq_true', List.isEmpty_eq_false_iff,
        List.all_eq_true] at hclear
      refine ⟨by simpa [h] using hclear.1.2, fun d hd => ?_⟩
      rw [h] at hd
      obtain ⟨n, hn, rfl⟩ := List.mem_map.1 hd
      exact not_isBlank_ofNat (hclear.2 n hn) le_rfl le_rfl
    · simpa [h] using hc

theorem keepsBlanks_upper : KeepsBlanks (mapCase upperRuns upperExpansions) :=
  keepsBlanks_mapCase (fun r hr => (upper_rows.1 r hr).1) fun e he => (upper_rows.2 e he).1

theorem keepsBlanks_fold : KeepsBlanks (mapCase foldRuns foldExpansions) :=
  keepsBlanks_mapCase (fun r hr => (fold_rows.1 r hr).1) fun e he => (fold_rows.2 e he).1

theorem strip_upper (s : String) : strip (upper s) = upper (strip s) := by
  simp [strip_eq, upper, keepsBlanks_upper.trimmed]

theorem strip_fold (s : String) : strip (fold s) = fold (strip s) := by
  simp [strip_eq, fold, keepsBlanks_fold.trimmed]

/-! ## Upper case after folding -/

theorem le_toNat_of_beyondAscii {first last n : Nat} (h : beyondAscii first last = true)
    (hfirst : first ≤ n) (hlast : n ≤ last) : 128 ≤ (Char.ofNat n).toNat := by
  simp only [beyondAscii, Bool.or_eq_true, Bool.and_eq_true, decide_eq_true_eq] at h
  have hvalid : n.isValidChar := by
    unfold Nat.isValidChar
    omega
  rw [Char.toNat_ofNat, if_pos hvalid]
  omega

theorem isUpperToAscii_of_upper {c : Char}
    (h : ∀ d ∈ mapCase upperRuns upperExpansions c, d.toNat < 128) :
    isUpperToAscii c.toNat = true := by
  obtain ⟨r, hr, hfirst, hlast, hmap⟩ | ⟨e, he, hkey, hmap⟩ | hmap :=
    mapCase_cases upperRuns upperExpansions c
  · rw [hmap] at h
    have hlisted := (upper_rows.1 r hr).2.1
    simp only [CaseRun.listed, Bool.or_eq_true, List.all_eq_true] at hlisted
    obtain hbeyond | hall := hlisted
    · have himage := h _ (List.mem_singleton_self _)
      have hle := le_toNat_of_beyondAscii (n := ((c.toNat : Int) + r.shift).toNat) hbeyond
        (by omega) (by omega)
      omega
    · exact hall _ (List.mem_range'_1.2 (by omega))
  · rw [hmap] at h
    have hlisted := (upper_rows.2 e he).2.1
    simp only [listedExpansion, Bool.or_eq_true, List.any_eq_true] at hlisted
    obtain ⟨n, hn, hbeyond⟩ | hmem := hlisted
    · have himage := h _ (List.mem_map_of_mem hn)
      have hle := le_toNat_of_beyondAscii hbeyond le_rfl le_rfl
      omega
    · exact hkey ▸ hmem
  · rw [hmap] at h
    have hc := h c (List.mem_singleton_self c)
    simp [isUpperToAscii, hc]

/-- In ASCII, a table changes at most the characters of the run that is there. -/
theorem mapCase_of_ascii {runs : List CaseRun} {expansions : List (Nat × List Nat)}
    {first last : Nat} (hruns : ∀ r ∈ runs, (r.first = first ∧ r.last = last) ∨ 128 ≤ r.first)
    (hexpansions : ∀ e ∈ expansions, 128 ≤ e.1) {c : Char} (hascii : c.toNat < 128)
    (hout : c.toNat < first ∨ last < c.toNat) : mapCase runs expansions c = [c] := by
  obtain ⟨r, hr, hfirst, hlast, -⟩ | ⟨e, he, hkey, -⟩ | hmap := mapCase_cases runs expansions c
  · have hrow := hruns r hr
    omega
  · have hrow := hexpansions e he
    omega
  · exact hmap

/-- In ASCII, folding changes the capital letters alone. -/
theorem mapCase_fold_of_ascii {c : Char} (hascii : c.toNat < 128)
    (hcapital : c.toNat < 0x41 ∨ 0x5A < c.toNat) : mapCase foldRuns foldExpansions c = [c] :=
  mapCase_of_ascii (fun r hr => (fold_rows.1 r hr).2) (fun e he => (fold_rows.2 e he).2) hascii
    hcapital

/-- In ASCII, only small letters have an upper case of their own. -/
theorem mapCase_upper_of_ascii {c : Char} (hascii : c.toNat < 128)
    (hsmall : c.toNat < 0x61 ∨ 0x7A < c.toNat) : mapCase upperRuns upperExpansions c = [c] :=
  mapCase_of_ascii (fun r hr => (upper_rows.1 r hr).2.2) (fun e he => (upper_rows.2 e he).2.2)
    hascii hsmall

/-- The upper case of the folding is the upper case, for what is folded to or mapped into ASCII. -/
theorem flatMap_mapCase_changed :
    (∀ n ∈ List.range' 0x41 26, (mapCase foldRuns foldExpansions (Char.ofNat n)).flatMap
      (mapCase upperRuns upperExpansions) = [Char.ofNat n]) ∧
    ∀ n ∈ upperToAscii, (mapCase foldRuns foldExpansions (Char.ofNat n)).flatMap
      (mapCase upperRuns upperExpansions) = mapCase upperRuns upperExpansions (Char.ofNat n) := by
  decide +kernel

theorem flatMap_mapCase_upper_fold {c : Char}
    (h : ∀ d ∈ mapCase upperRuns upperExpansions c, d.toNat < 128) :
    (mapCase foldRuns foldExpansions c).flatMap (mapCase upperRuns upperExpansions) =
      mapCase upperRuns upperExpansions c := by
  obtain ⟨hcapitals, hothers⟩ := flatMap_mapCase_changed
  have hknown := isUpperToAscii_of_upper h
  simp only [isUpperToAscii, Bool.or_eq_true, decide_eq_true_eq, List.contains_eq_mem] at hknown
  by_cases hother : c.toNat ∈ upperToAscii
  · have hc := hothers c.toNat hother
    rwa [Char.ofNat_toNat] at hc
  have hascii := hknown.resolve_right hother
  by_cases hcapital : c.toNat ∈ List.range' 0x41 26
  · have hc := hcapitals c.toNat hcapital
    rw [Char.ofNat_toNat] at hc
    rw [List.mem_range'_1] at hcapital
    rw [hc, mapCase_upper_of_ascii hascii (by omega)]
  · rw [List.mem_range'_1] at hcapital
    rw [mapCase_fold_of_ascii hascii (by omega), List.flatMap_singleton]

/-- All characters are in ASCII. -/
def Ascii (s : String) : Prop := ∀ c ∈ s.toList, c.toNat < 128

instance (s : String) : Decidable (Ascii s) :=
  inferInstanceAs (Decidable (∀ c ∈ s.toList, c.toNat < 128))

/-- Folding first does not change an upper case without letters beyond ASCII. -/
theorem upper_fold {s : String} (h : Ascii (upper s)) : upper (fold s) = upper s := by
  have hchars : ∀ c ∈ s.toList, ∀ d ∈ mapCase upperRuns upperExpansions c, d.toNat < 128 :=
    fun c hc d hd => h d (by simpa [upper] using ⟨c, hc, hd⟩)
  simp only [upper, fold, String.toList_ofList, List.flatMap_assoc]
  congr 1
  exact List.flatMap_congr fun c hc => flatMap_mapCase_upper_fold (hchars c hc)

end Text

end CallAdapter
