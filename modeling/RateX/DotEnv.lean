import Mathlib.Data.List.Induction
import RateX.Config

/-!
# The file `.env`

From the text of the file to the variables it sets: `bufio.Scanner` cuts the
text into lines, and stops for good at the first line that does not fit its
buffer, and `loadDotEnv` sets what each line binds. `render` writes such a
file.
-/

namespace RateX

/-! ## The scanner -/

/-- `bufio.ScanLines`, the line ends still on the lines: a last line need not be ended. -/
def scanLines : List Char → List (List Char)
  | [] => []
  | '\n' :: chars => [] :: scanLines chars
  | c :: chars => match scanLines chars with
    | [] => [[c]]
    | line :: lines => (c :: line) :: lines

/-- The length in UTF-8. -/
def byteSize (chars : List Char) : ℕ := (chars.map Char.utf8Size).sum

/-- `bufio.MaxScanTokenSize`. -/
def maxScanTokenSize : ℕ := 64 * 1024

/-- A carriage return before the line end is not part of the line. -/
def dropCR (line : List Char) : List Char :=
  if line.getLast? = some '\r' then line.dropLast else line

/-- The lines that the scanner returns. After the first one that is too long it returns none. -/
def scan (text : List Char) : List String :=
  ((scanLines text).takeWhile fun line => byteSize line < maxScanTokenSize).map fun line =>
    .ofList (dropCR line)

theorem scanLines_append {line : List Char} (h : '\n' ∉ line) (text : List Char) :
    scanLines (line ++ '\n' :: text) = line :: scanLines text := by
  induction line with
  | nil => rfl
  | cons c line ih =>
      rw [List.mem_cons, not_or] at h
      rw [List.cons_append, scanLines, ih h.2]
      exact fun heq => h.1 heq.symm

theorem not_mem_scanLines {text line : List Char} (h : line ∈ scanLines text) : '\n' ∉ line := by
  fun_induction scanLines text generalizing line with
  | case1 => cases h
  | case2 chars ih =>
      rcases List.mem_cons.mp h with rfl | h
      · exact List.not_mem_nil
      · exact ih h
  | case3 c chars hc hnil ih =>
      rw [List.mem_singleton.mp h, List.mem_singleton]
      exact fun heq => hc heq.symm
  | case4 c chars hc first lines heq ih =>
      rw [heq] at ih
      rcases List.mem_cons.mp h with rfl | h
      · rw [List.mem_cons, not_or]
        exact ⟨fun heq => hc heq.symm, ih (List.mem_cons_self ..)⟩
      · exact ih (List.mem_cons_of_mem _ h)

@[simp] theorem byteSize_append (xs ys : List Char) :
    byteSize (xs ++ ys) = byteSize xs + byteSize ys := by
  simp [byteSize]

@[simp] theorem byteSize_cons (c : Char) (chars : List Char) :
    byteSize (c :: chars) = c.utf8Size + byteSize chars := rfl

@[simp] theorem byteSize_nil : byteSize [] = 0 := rfl

theorem byteSize_le_of_isInfix {xs ys : List Char} (h : xs <:+: ys) :
    byteSize xs ≤ byteSize ys := by
  obtain ⟨front, back, rfl⟩ := h
  simp only [byteSize_append]
  omega

theorem dropCR_isPrefix (line : List Char) : dropCR line <+: line := by
  rw [dropCR]
  split
  · exact List.dropLast_prefix line
  · exact List.prefix_rfl

theorem dropCR_eq_self {line : List Char} (h : ∀ c ∈ line.getLast?, isSpace c = false) :
    dropCR line = line := by
  rw [dropCR, if_neg]
  intro hlast
  exact absurd (h _ hlast) (by decide)

/-! ## One line -/

def isQuote (c : Char) : Bool := c = '"' || c = '\''

/-- The variable that a line sets. -/
def binding (line : String) : Option (String × String) :=
  let line := trimSpace line
  if line = "" ∨ "#".toList <+: line.toList then none
  else if '=' ∉ line.toList then none
  else
    let key := trimSpace (splitFirst '=' line)
    let value := trimSpace (.ofList ((line.toList.dropWhile fun c => c ≠ '=').drop 1))
    let value : String := .ofList (trimFunc isQuote value.toList)
    if key = "" ∨ '=' ∈ key.toList ∨ '\x00' ∈ key.toList ∨ '\x00' ∈ value.toList then none
    else some (key, value)

theorem dotEnvLine_eq (env : Environ) (line : String) : dotEnvLine env line =
    (binding line).elim env fun b => Function.update env b.1 b.2 := by
  unfold dotEnvLine binding setenv
  simp only
  generalize trimSpace line = line
  generalize trimSpace (splitFirst '=' line) = key
  rw [show (fun c : Char => decide (c = '"') || decide (c = '\'')) = isQuote from rfl]
  generalize String.ofList (trimFunc isQuote _) = value
  by_cases hskip : line = "" ∨ "#".toList <+: line.toList
  · rw [if_pos hskip, if_pos hskip]
    rfl
  · rw [if_neg hskip, if_neg hskip]
    by_cases heq : '=' ∉ line.toList
    · rw [if_pos heq, if_pos heq]
      rfl
    · rw [if_neg heq, if_neg heq]
      by_cases hkey : key = ""
      · rw [if_neg (not_not.mpr hkey), if_pos (.inl hkey)]
        rfl
      · rw [if_pos hkey]
        split <;> rfl

theorem loadDotEnv_append (xs ys : List String) (env : Environ) :
    loadDotEnv (xs ++ ys) env = loadDotEnv ys (loadDotEnv xs env) := List.foldl_append

/-- A variable reads as its last line in the file has it, or else as the environment has it. -/
theorem loadDotEnv_apply (lines : List String) (env : Environ) (name : String) :
    loadDotEnv lines env name =
      (((lines.filterMap binding).reverse.find? (·.1 = name)).map (·.2)).getD (env name) := by
  induction lines using List.reverseRecOn with
  | nil => rfl
  | append_singleton lines line ih =>
      have hlast : loadDotEnv (lines ++ [line]) env = dotEnvLine (loadDotEnv lines env) line :=
        loadDotEnv_append lines [line] env
      rw [hlast, dotEnvLine_eq, List.filterMap_append]
      cases hb : binding line with
      | none => simpa [hb] using ih
      | some b =>
          by_cases hname : b.1 = name
          · simp [hb, ← hname]
          · simp [hb, hname, Function.update_of_ne (Ne.symm hname), ih]

/-! ## What a file can set -/

/-- A quotation mark, where a blank would otherwise be trimmed. -/
def guardMark (edge : Option Char) : List Char := if edge.any isSpace then ['"'] else []

/-- The shortest line that sets the variable. -/
def settingLine (name value : List Char) : List Char :=
  name ++ '=' :: (guardMark value.head? ++ (value ++ guardMark value.getLast?))

/-- The settings that a line of the file can hold. -/
structure Settable (name value : List Char) : Prop where
  name_ne : name ≠ []
  name_chars : ∀ c ∈ name, c ≠ '=' ∧ c ≠ '\n' ∧ c ≠ '\x00'
  name_head : ∀ c ∈ name.head?, isSpace c = false ∧ c ≠ '#'
  name_last : ∀ c ∈ name.getLast?, isSpace c = false
  value_chars : ∀ c ∈ value, c ≠ '\n' ∧ c ≠ '\x00'
  value_head : ∀ c ∈ value.head?, isQuote c = false
  value_last : ∀ c ∈ value.getLast?, isQuote c = false
  fits : byteSize (settingLine name value) < maxScanTokenSize

theorem guardMark_cases (edge : Option Char) :
    guardMark edge = ['"'] ∧ (∃ c ∈ edge, isSpace c = true) ∨
      guardMark edge = [] ∧ ∀ c ∈ edge, isSpace c = false := by
  cases edge with
  | none => exact .inr ⟨rfl, by simp⟩
  | some c => cases h : isSpace c <;> simp [guardMark, h]

theorem guardMark_isQuote {edge : Option Char} : ∀ c ∈ guardMark edge, isQuote c = true := by
  intro c hc
  rcases guardMark_cases edge with ⟨h, _⟩ | ⟨h, _⟩
  · rw [h, List.mem_singleton] at hc
    rw [hc]
    rfl
  · rw [h] at hc
    cases hc

/-- Between its marks, a value has no blank ends. -/
theorem trimFunc_guarded (value : List Char) :
    trimFunc isSpace (guardMark value.head? ++ (value ++ guardMark value.getLast?)) =
      guardMark value.head? ++ (value ++ guardMark value.getLast?) := by
  refine trimFunc_eq_self ?_ ?_
  · intro c hc
    rcases guardMark_cases value.head? with ⟨h, _⟩ | ⟨h, hhead⟩
    · rw [h] at hc
      cases hc
      decide
    · cases value with
      | nil => cases hc
      | cons d value =>
          rw [h] at hc
          cases hc
          exact hhead _ rfl
  · intro c hc
    rcases guardMark_cases value.getLast? with ⟨h, _⟩ | ⟨h, hlast⟩
    · rw [h, ← List.append_assoc, List.getLast?_concat] at hc
      cases hc
      decide
    · rw [h, List.append_nil] at hc
      cases value with
      | nil => cases hc
      | cons d value =>
          rw [List.getLast?_append_of_ne_nil _ (List.cons_ne_nil _ _)] at hc
          exact hlast c hc

namespace Settable

variable {name value : List Char}

theorem not_newline (h : Settable name value) : '\n' ∉ settingLine name value := by
  intro hmem
  simp only [settingLine, List.mem_append, List.mem_cons] at hmem
  rcases hmem with hname | heq | hmark | hvalue | hmark
  · exact (h.name_chars _ hname).2.1 rfl
  · cases heq
  · exact absurd (guardMark_isQuote _ hmark) (by decide)
  · exact (h.value_chars _ hvalue).1 rfl
  · exact absurd (guardMark_isQuote _ hmark) (by decide)

theorem head (h : Settable name value) : (settingLine name value).head? = name.head? := by
  cases name with
  | nil => exact absurd rfl h.name_ne
  | cons c name => rfl

theorem last : ∀ c ∈ (settingLine name value).getLast?, isSpace c = false := by
  intro c hc
  rw [settingLine, ← trimFunc_guarded, List.getLast?_append_of_ne_nil _ (List.cons_ne_nil _ _),
    List.getLast?_cons] at hc
  cases hlast : (trimFunc isSpace (guardMark value.head? ++
      (value ++ guardMark value.getLast?))).getLast? with
  | none =>
      rw [hlast] at hc
      cases hc
      decide
  | some d =>
      rw [hlast] at hc
      cases hc
      exact (trimFunc_ends isSpace _).2 _ hlast

theorem cut (h : Settable name value) :
    ((settingLine name value).takeWhile fun c => c ≠ '=') = name ∧
      (((settingLine name value).dropWhile fun c => c ≠ '=').drop 1) =
        guardMark value.head? ++ (value ++ guardMark value.getLast?) := by
  have hname : ∀ c ∈ name, decide (c ≠ '=') = true := fun c hc =>
    decide_eq_true (h.name_chars c hc).1
  constructor
  · rw [settingLine, List.takeWhile_append_of_pos hname, List.takeWhile_cons_of_neg (by simp),
      List.append_nil]
  · rw [settingLine, List.dropWhile_append_of_pos hname, List.dropWhile_cons_of_neg (by simp),
      List.drop_one, List.tail_cons]

/-- The line sets what it says. -/
theorem binding_settingLine (h : Settable name value) :
    binding (.ofList (settingLine name value)) = some (.ofList name, .ofList value) := by
  have hline : trimSpace (.ofList (settingLine name value)) =
      .ofList (settingLine name value) := by
    rw [trimSpace, String.toList_ofList, trimFunc_eq_self _ last]
    rw [h.head]
    exact fun c hc => (h.name_head c hc).1
  have hkey : trimSpace (splitFirst '=' (.ofList (settingLine name value))) = .ofList name := by
    rw [splitFirst, String.toList_ofList, h.cut.1, trimSpace, String.toList_ofList,
      trimFunc_eq_self (fun c hc => (h.name_head c hc).1) h.name_last]
  have hblank : trimSpace (.ofList (guardMark value.head? ++
      (value ++ guardMark value.getLast?))) =
        .ofList (guardMark value.head? ++ (value ++ guardMark value.getLast?)) := by
    rw [trimSpace, String.toList_ofList, trimFunc_guarded]
  have hvalue : trimFunc isQuote
      (guardMark value.head? ++ (value ++ guardMark value.getLast?)) = value := by
    rw [trimFunc_append_of_pos guardMark_isQuote, trimFunc_append_of_pos_right guardMark_isQuote,
      trimFunc_eq_self h.value_head h.value_last]
  have hskip : ¬ ((String.ofList (settingLine name value)) = "" ∨
      "#".toList <+: settingLine name value) := by
    rintro (heq | hprefix)
    · have hnil := congrArg String.toList heq
      rw [String.toList_ofList] at hnil
      simp [settingLine] at hnil
    · obtain ⟨rest, hrest⟩ := hprefix
      have hhead := h.head
      rw [← hrest] at hhead
      exact (h.name_head '#' hhead.symm).2 rfl
  have hmem : ¬ '=' ∉ settingLine name value := by simp [settingLine]
  rw [binding]
  simp only [hline, hkey, String.toList_ofList, h.cut.2, hblank, hvalue]
  rw [if_neg hskip, if_neg hmem, if_neg]
  rintro (hempty | heq | hnul | hnul)
  · exact h.name_ne (by simpa using hempty)
  · exact (h.name_chars _ heq).1 rfl
  · exact (h.name_chars _ hnul).2.2 rfl
  · exact (h.value_chars _ hnul).2 rfl

end Settable

/-- What is left of a line that sets a variable, once it is trimmed. -/
theorem binding_eq_some {line : String} {name value : String}
    (h : binding line = some (name, value)) : ∃ key rest,
      trimFunc isSpace line.toList = key ++ '=' :: rest ∧ '=' ∉ key ∧
        ¬ ['#'] <+: key ++ '=' :: rest ∧ name.toList = trimFunc isSpace key ∧
          value.toList = trimFunc isQuote (trimFunc isSpace rest) ∧
            name.toList ≠ [] ∧ '\x00' ∉ name.toList ∧ '\x00' ∉ value.toList := by
  rw [binding] at h
  simp only [trimSpace, splitFirst, String.toList_ofList] at h
  split at h
  · cases h
  · rename_i hskip
    split at h
    · cases h
    · rename_i hmem
      obtain ⟨key, rest, hline, hkey⟩ := List.eq_append_cons_of_mem (not_not.mp hmem)
      have hpass : ∀ c ∈ key, decide (c ≠ '=') = true := fun c hc =>
        decide_eq_true fun heq => hkey (heq ▸ hc)
      rw [hline, List.takeWhile_append_of_pos hpass, List.takeWhile_cons_of_neg (by simp),
        List.append_nil, List.dropWhile_append_of_pos hpass, List.dropWhile_cons_of_neg (by simp),
        List.drop_one, List.tail_cons] at h
      rw [hline] at hskip
      split at h
      · cases h
      · rename_i hset
        cases h
        simp only [not_or, String.toList_ofList] at hset hskip ⊢
        refine ⟨key, rest, hline, hkey, hskip.2, rfl, rfl, ?_, hset.2.2⟩
        intro hnil
        exact hset.1 (by rw [hnil])

theorem byteSize_pos {chars : List Char} (h : chars ≠ []) : 0 < byteSize chars := by
  obtain ⟨c, chars, rfl⟩ := List.exists_cons_of_ne_nil h
  rw [byteSize_cons]
  have := c.utf8Size_pos
  omega

theorem byteSize_guardMark_le {edge : Option Char} {marks : List Char}
    (h : ∀ c ∈ edge, isSpace c = true → marks ≠ []) :
    byteSize (guardMark edge) ≤ byteSize marks := by
  rcases guardMark_cases edge with ⟨hmark, c, hc, hblank⟩ | ⟨hmark, _⟩
  · rw [hmark]
    exact byteSize_pos (h c hc hblank)
  · rw [hmark]
    exact Nat.zero_le _

/-- No line sets the value with fewer marks. -/
theorem byteSize_guarded_le {text : List Char}
    (hhead : ∀ c ∈ text.head?, isSpace c = false)
    (hlast : ∀ c ∈ text.getLast?, isSpace c = false) :
    byteSize (guardMark (trimFunc isQuote text).head? ++
      (trimFunc isQuote text ++ guardMark (trimFunc isQuote text).getLast?)) ≤ byteSize text := by
  obtain ⟨front, back, htext, _, _⟩ := exists_trimFunc isQuote text
  generalize trimFunc isQuote text = value at htext ⊢
  have hfront : byteSize (guardMark value.head?) ≤ byteSize front := by
    refine byteSize_guardMark_le ?_
    rintro c hc hblank rfl
    rw [hhead c] at hblank
    · cases hblank
    · rw [htext, List.nil_append, List.head?_append, Option.mem_def.mp hc]
      rfl
  have hback : byteSize (guardMark value.getLast?) ≤ byteSize back := by
    refine byteSize_guardMark_le ?_
    rintro c hc hblank rfl
    rw [hlast c] at hblank
    · cases hblank
    · rw [htext, List.append_nil, List.getLast?_append, Option.mem_def.mp hc]
      rfl
  calc byteSize (guardMark value.head? ++ (value ++ guardMark value.getLast?))
      = byteSize (guardMark value.head?) +
          (byteSize value + byteSize (guardMark value.getLast?)) := by
        rw [byteSize_append, byteSize_append]
    _ ≤ byteSize front + (byteSize value + byteSize back) := by omega
    _ = byteSize text := by rw [htext, byteSize_append, byteSize_append]

theorem settable_of_binding {line : List Char} {name value : String} (hend : '\n' ∉ line)
    (hfit : byteSize line < maxScanTokenSize)
    (h : binding (.ofList line) = some (name, value)) : Settable name.toList value.toList := by
  obtain ⟨key, rest, hline, hkey, hcomment, hname, hvalue, hne, hnul, hnul'⟩ :=
    binding_eq_some h
  rw [String.toList_ofList] at hline
  have hends := trimFunc_ends isSpace line
  have htrim : key ++ '=' :: rest <:+: line := hline ▸ trimFunc_isInfix isSpace line
  have hnameIn : name.toList <:+: key := hname ▸ trimFunc_isInfix isSpace key
  have hvalueIn : value.toList <:+: rest :=
    hvalue ▸ (trimFunc_isInfix isQuote _).trans (trimFunc_isInfix isSpace rest)
  have hchars : ∀ c ∈ key ++ '=' :: rest, c ≠ '\n' := fun c hc heq =>
    hend (htrim.subset (heq ▸ hc))
  have hhead : name.toList.head? = (key ++ '=' :: rest).head? := by
    cases key with
    | nil => exact absurd hname hne
    | cons c key =>
        have hblank : isSpace c = false := hends.1 c (by rw [hline]; rfl)
        have hprefix := trimFunc_isPrefix isSpace (c :: key)
        rw [← hname, List.dropWhile_cons_of_neg (by simp [hblank])] at hprefix
        rw [List.head?_eq_some_head hne, hprefix.head hne]
        rfl
  have hsize : byteSize (settingLine name.toList value.toList) ≤ byteSize line := by
    have hle := byteSize_guarded_le (trimFunc_ends isSpace rest).1 (trimFunc_ends isSpace rest).2
    rw [← hvalue] at hle
    have hnameLe := byteSize_le_of_isInfix hnameIn
    have hrestLe := byteSize_le_of_isInfix (trimFunc_isInfix isSpace rest)
    have hlineLe := byteSize_le_of_isInfix htrim
    rw [byteSize_append, byteSize_cons] at hlineLe
    rw [settingLine, byteSize_append, byteSize_cons]
    omega
  exact {
    name_ne := hne
    name_chars := fun c hc => ⟨fun heq => hkey (hnameIn.subset (heq ▸ hc)),
      hchars c (List.mem_append_left _ (hnameIn.subset hc)), fun heq => hnul (heq ▸ hc)⟩
    name_head := by
      intro c hc
      rw [hhead] at hc
      refine ⟨hends.1 c (by rwa [hline]), ?_⟩
      rintro rfl
      exact hcomment (List.singleton_prefix_iff_head?_eq_some.mpr hc)
    name_last := hname ▸ (trimFunc_ends isSpace key).2
    value_chars := fun c hc => ⟨hchars c (List.mem_append_right _
      (List.mem_cons_of_mem _ (hvalueIn.subset hc))), fun heq => hnul' (heq ▸ hc)⟩
    value_head := hvalue ▸ (trimFunc_ends isQuote _).1
    value_last := hvalue ▸ (trimFunc_ends isQuote _).2
    fits := hsize.trans_lt hfit }

/-! ## Files -/

/-- A setting that fits on a line. -/
structure Setting where
  name : List Char
  value : List Char
  settable : Settable name value

def Setting.set (env : Environ) (s : Setting) : Environ :=
  Function.update env (.ofList s.name) (.ofList s.value)

/-- The file with these settings, a line for each. -/
def render (settings : List Setting) : List Char :=
  settings.flatMap fun s => settingLine s.name s.value ++ ['\n']

theorem scanLines_render (settings : List Setting) :
    scanLines (render settings) = settings.map fun s => settingLine s.name s.value := by
  induction settings with
  | nil => rfl
  | cons s settings ih =>
      rw [render, List.flatMap_cons, List.append_assoc, List.singleton_append,
        scanLines_append s.settable.not_newline, List.map_cons]
      exact congrArg _ ih

theorem scan_render (settings : List Setting) :
    scan (render settings) = settings.map fun s => .ofList (settingLine s.name s.value) := by
  rw [scan, scanLines_render, List.takeWhile_eq_self_iff.mpr, List.map_map]
  · refine List.map_congr_left fun s _ => ?_
    rw [Function.comp_apply, dropCR_eq_self Settable.last]
  · intro line hline
    obtain ⟨s, _, rfl⟩ := List.mem_map.mp hline
    exact decide_eq_true s.settable.fits

/-- Loading the file that `render` writes sets just what it was given, in that order. -/
theorem loadDotEnv_render (settings : List Setting) (env : Environ) :
    loadDotEnv (scan (render settings)) env = settings.foldl Setting.set env := by
  rw [scan_render, loadDotEnv, List.foldl_map]
  refine List.foldl_ext _ _ _ fun env s _ => ?_
  rw [dotEnvLine_eq, s.settable.binding_settingLine]
  rfl

theorem settable_of_mem_scan {text : List Char} {line : String} {b : String × String}
    (hline : line ∈ scan text) (hb : binding line = some b) :
    Settable b.1.toList b.2.toList := by
  obtain ⟨raw, hraw, rfl⟩ := List.mem_map.mp hline
  have hcut := (dropCR_isPrefix raw).isInfix
  have hfit : byteSize raw < maxScanTokenSize := by
    have := List.mem_takeWhile_imp hraw
    exact of_decide_eq_true this
  refine settable_of_binding ?_ ((byteSize_le_of_isInfix hcut).trans_lt hfit) hb
  intro hend
  exact not_mem_scanLines ((List.takeWhile_sublist _).subset hraw) (hcut.subset hend)

/-- Some file sets the variable to the value, whatever the environment it is loaded into, just
when the setting fits on a line. -/
theorem settable_iff (name value : List Char) :
    (∃ text, ∀ env, loadDotEnv (scan text) env (.ofList name) = .ofList value) ↔
      Settable name value := by
  constructor
  · rintro ⟨text, hload⟩
    -- An environment that does not have the value already.
    have hother := hload fun _ => .ofList ('x' :: value)
    rw [loadDotEnv_apply] at hother
    cases hfind : ((scan text).filterMap binding).reverse.find? (·.1 = String.ofList name) with
    | none =>
        rw [hfind] at hother
        exact absurd (String.ofList_injective hother) (List.cons_ne_self _ _)
    | some b =>
        rw [hfind] at hother
        have hname : b.1 = .ofList name := by simpa using List.find?_some hfind
        have hvalue : b.2 = .ofList value := hother
        have hmem := List.mem_reverse.mp (List.mem_of_find?_eq_some hfind)
        obtain ⟨line, hline, hb⟩ := List.mem_filterMap.mp hmem
        have hs := settable_of_mem_scan hline hb
        rwa [hname, hvalue, String.toList_ofList, String.toList_ofList] at hs
  · intro h
    refine ⟨render [⟨name, value, h⟩], fun env => ?_⟩
    rw [loadDotEnv_render]
    exact Function.update_self ..

end RateX
