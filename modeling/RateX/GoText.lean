import Mathlib.Data.List.TakeWhile
import RateX.CaseMapping

/-!
# Text functions of Go's library

On texts as lists of code points. `trimSpace` knows Unicode's white space, and
the case functions map every letter by itself, as Unicode's simple mappings do.
-/

namespace RateX

/-- `unicode.IsSpace`. -/
def isSpace (c : Char) : Bool :=
  c ∈ ['\t', '\n', '\x0b', '\x0c', '\r', ' ', '\u0085', '\u00a0', '\u1680', '\u2028', '\u2029',
    '\u202f', '\u205f', '\u3000'] || ('\u2000' ≤ c && c ≤ '\u200a')

/-- The text without the characters `p` at its two ends. -/
def trimFunc (p : Char → Bool) (chars : List Char) : List Char :=
  ((chars.dropWhile p).reverse.dropWhile p).reverse

def trimSpace (text : String) : String := .ofList (trimFunc isSpace text.toList)

/-- `unicode.ToLower`. -/
def lowerRune (c : Char) : Char := .ofNat (CaseMapping.lower c.toNat)

/-- `unicode.ToUpper`. -/
def upperRune (c : Char) : Char := .ofNat (CaseMapping.upper c.toNat)

def toLower (text : String) : String := .ofList (text.toList.map lowerRune)

def toUpper (text : String) : String := .ofList (text.toList.map upperRune)

/-- `strings.Split(text, sep)[0]`. -/
def splitFirst (sep : Char) (text : String) : String :=
  .ofList (text.toList.takeWhile fun c => c ≠ sep)

/-! ## Trimming -/

section Trim

variable {p : Char → Bool}

theorem trimFunc_eq_self {chars : List Char} (hhead : ∀ c ∈ chars.head?, p c = false)
    (hlast : ∀ c ∈ chars.getLast?, p c = false) : trimFunc p chars = chars := by
  have hdrop : ∀ l : List Char, (∀ c ∈ l.head?, p c = false) → l.dropWhile p = l := by
    intro l hl
    cases l with
    | nil => rfl
    | cons c l => rw [List.dropWhile_cons_of_neg (by simp [hl c rfl])]
  rw [trimFunc, hdrop chars hhead, hdrop, List.reverse_reverse]
  intro c hc
  exact hlast c (by rwa [List.head?_reverse] at hc)

theorem trimFunc_cons_of_pos {c : Char} {chars : List Char} (h : p c = true) :
    trimFunc p (c :: chars) = trimFunc p chars := by
  rw [trimFunc, trimFunc, List.dropWhile_cons_of_pos h]

theorem trimFunc_append_of_pos {blanks : List Char} (h : ∀ c ∈ blanks, p c = true)
    (chars : List Char) : trimFunc p (blanks ++ chars) = trimFunc p chars := by
  induction blanks with
  | nil => rfl
  | cons c blanks ih =>
      rw [List.cons_append, trimFunc_cons_of_pos (h c (List.mem_cons_self ..)),
        ih fun d hd => h d (List.mem_cons_of_mem _ hd)]

theorem exists_trimFunc (p : Char → Bool) (chars : List Char) : ∃ front back,
    chars = front ++ (trimFunc p chars ++ back) ∧ (∀ c ∈ front, p c = true) ∧
      ∀ c ∈ back, p c = true := by
  refine ⟨chars.takeWhile p, ((chars.dropWhile p).reverse.takeWhile p).reverse, ?_, ?_, ?_⟩
  · rw [trimFunc, ← List.reverse_append, List.takeWhile_append_dropWhile, List.reverse_reverse,
      List.takeWhile_append_dropWhile]
  · intro c hc
    exact List.mem_takeWhile_imp hc
  · intro c hc
    exact List.mem_takeWhile_imp (List.mem_reverse.mp hc)

/-- What comes after a separator is not in the first element. -/
theorem takeWhile_append_cons (sep : Char) (xs ys : List Char) :
    ((xs ++ sep :: ys).takeWhile fun c => c ≠ sep) = xs.takeWhile fun c => c ≠ sep := by
  induction xs with
  | nil => simp
  | cons c xs ih =>
      by_cases hc : c = sep
      · simp [hc]
      · rw [List.cons_append, List.takeWhile_cons_of_pos (by simpa),
          List.takeWhile_cons_of_pos (by simpa), ih]

theorem takeWhile_append_of_mem {sep : Char} {xs : List Char} (h : sep ∈ xs) (ys : List Char) :
    ((xs ++ ys).takeWhile fun c => c ≠ sep) = xs.takeWhile fun c => c ≠ sep := by
  obtain ⟨before, after, rfl⟩ := List.append_of_mem h
  rw [List.append_assoc, List.cons_append, takeWhile_append_cons, takeWhile_append_cons]

/-- Trimming first does not change a trimmed first element. -/
theorem trimFunc_takeWhile_trimFunc {sep : Char} (hsep : p sep = false) {chars : List Char}
    (hmem : sep ∈ chars) : trimFunc p ((trimFunc p chars).takeWhile fun c => c ≠ sep) =
      trimFunc p (chars.takeWhile fun c => c ≠ sep) := by
  obtain ⟨front, back, hchars, hfront, hback⟩ := exists_trimFunc p chars
  have hne : ∀ l : List Char, (∀ c ∈ l, p c = true) → ∀ c ∈ l, c ≠ sep := by
    intro l hl c hc heq
    rw [heq] at hc
    rw [hl sep hc] at hsep
    cases hsep
  have hin : sep ∈ trimFunc p chars := by
    rw [hchars, List.mem_append, List.mem_append] at hmem
    rcases hmem with h | h | h
    · exact absurd rfl (hne front hfront sep h)
    · exact h
    · exact absurd rfl (hne back hback sep h)
  have htake : (chars.takeWhile fun c => c ≠ sep) =
      front ++ (trimFunc p chars).takeWhile fun c => c ≠ sep := by
    calc (chars.takeWhile fun c => c ≠ sep)
        = (front ++ (trimFunc p chars ++ back)).takeWhile fun c => c ≠ sep := by rw [← hchars]
      _ = front ++ (trimFunc p chars ++ back).takeWhile fun c => c ≠ sep :=
          List.takeWhile_append_of_pos fun c hc => decide_eq_true (hne front hfront c hc)
      _ = front ++ (trimFunc p chars).takeWhile fun c => c ≠ sep := by
          rw [takeWhile_append_of_mem hin]
  rw [htake, trimFunc_append_of_pos hfront]

theorem head?_dropWhile (chars : List Char) : ∀ c ∈ (chars.dropWhile p).head?, p c = false := by
  intro c hc
  have h := List.head?_dropWhile_not p chars
  rw [Option.mem_def.mp hc] at h
  exact h

theorem trimFunc_isPrefix (p : Char → Bool) (chars : List Char) :
    trimFunc p chars <+: chars.dropWhile p := by
  rw [trimFunc, ← List.reverse_suffix, List.reverse_reverse]
  exact List.dropWhile_suffix p

theorem trimFunc_isInfix (p : Char → Bool) (chars : List Char) : trimFunc p chars <:+: chars :=
  (trimFunc_isPrefix p chars).isInfix.trans (List.dropWhile_suffix p).isInfix

/-- A trimmed text neither starts nor ends with a blank. -/
theorem trimFunc_ends (p : Char → Bool) (chars : List Char) :
    (∀ c ∈ (trimFunc p chars).head?, p c = false) ∧
      ∀ c ∈ (trimFunc p chars).getLast?, p c = false := by
  constructor
  · intro c hc
    obtain ⟨back, hback⟩ := trimFunc_isPrefix p chars
    refine head?_dropWhile chars c ?_
    rw [← hback, List.head?_append, Option.mem_def.mp hc]
    rfl
  · intro c hc
    rw [trimFunc, List.getLast?_reverse] at hc
    exact head?_dropWhile _ c hc

theorem trimFunc_append_of_pos_right {blanks : List Char} (h : ∀ c ∈ blanks, p c = true)
    (chars : List Char) : trimFunc p (chars ++ blanks) = trimFunc p chars := by
  have hblanks : blanks.dropWhile p = [] := by simpa using h
  rw [trimFunc, trimFunc, List.dropWhile_append, hblanks]
  split
  · rename_i hempty
    rw [List.isEmpty_iff.mp hempty]
  · rw [List.reverse_append, List.dropWhile_append_of_pos]
    intro c hc
    exact h c (List.mem_reverse.mp hc)

end Trim

theorem trimSpace_trimSpace (text : String) : trimSpace (trimSpace text) = trimSpace text := by
  obtain ⟨hhead, hlast⟩ := trimFunc_ends isSpace text.toList
  simp only [trimSpace, String.toList_ofList]
  rw [trimFunc_eq_self hhead hlast]

theorem trimSpace_eq_self {text : String} (h : ∀ c ∈ text.toList, isSpace c = false) :
    trimSpace text = text := by
  rw [trimSpace, trimFunc_eq_self (fun c hc => h c (List.mem_of_mem_head? hc))
    fun c hc => h c (List.mem_of_getLast? hc), String.ofList_toList]

theorem trimSpace_getLast (text : String) : ∀ c ∈ (trimSpace text).toList.getLast?, c ≠ ' ' := by
  rintro c hc rfl
  rw [trimSpace, String.toList_ofList] at hc
  exact absurd ((trimFunc_ends isSpace text.toList).2 ' ' hc) (by decide)

/-! ## Upper case -/

theorem toList_toUpper (text : String) : (toUpper text).toList = text.toList.map upperRune :=
  String.toList_ofList

theorem toNat_upperRune (c : Char) : (upperRune c).toNat = CaseMapping.upper c.toNat := by
  rcases CaseMapping.upper_cases c.toNat with h | ⟨-, hvalid⟩
  · rw [upperRune, h, Char.ofNat_toNat]
  · rw [upperRune, Char.ofNat, dif_pos hvalid]
    rfl

theorem upperRune_upperRune (c : Char) : upperRune (upperRune c) = upperRune c := by
  rw [upperRune, toNat_upperRune, CaseMapping.upper_upper]
  rfl

theorem toUpper_toUpper (text : String) : toUpper (toUpper text) = toUpper text := by
  refine String.toList_inj.mp ?_
  rw [toList_toUpper, toList_toUpper, List.map_map]
  exact List.map_congr_left fun c _ => upperRune_upperRune c

example : toUpper "get /straße/ärger" = "GET /STRAßE/ÄRGER" := by decide +kernel

/-- No letter becomes a blank. -/
theorem upperRune_ne_space {c : Char} (h : c ≠ ' ') : upperRune c ≠ ' ' := by
  intro heq
  have hnat : CaseMapping.upper c.toNat = 32 := (toNat_upperRune c).symm.trans (congrArg _ heq)
  rcases CaseMapping.upper_cases c.toNat with hc | ⟨hblank, -⟩
  · exact h (Char.toNat_inj.mp (hc.symm.trans hnat))
  · omega

theorem toUpper_trimSpace_getLast (text : String) :
    ∀ c ∈ (toUpper (trimSpace text)).toList.getLast?, c ≠ ' ' := by
  intro c hc
  rw [toList_toUpper, List.getLast?_map] at hc
  obtain ⟨d, hd, rfl⟩ := Option.map_eq_some_iff.mp hc
  exact upperRune_ne_space (trimSpace_getLast text d hd)

end RateX
