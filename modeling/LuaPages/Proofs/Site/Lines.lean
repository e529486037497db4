import Mathlib.Data.List.DropRight
import LuaPages.Proofs.Site.SiteFile
import LuaPages.Proofs.Text.Parts

namespace LuaPages

theorem Blank.isWhiteSpace_of_isAsciiBlank {c : Char} (h : isAsciiBlank c = true) :
    isWhiteSpace c = true := by
  simp only [isAsciiBlank, Bool.or_eq_true, beq_iff_eq] at h
  rcases h with (((rfl | rfl) | rfl) | rfl) | rfl <;> decide

theorem Blank.not_isWhiteSpace_of_trim_eq_cons {l r : List Char} {c : Char} (h : trim l = c :: r) :
    isWhiteSpace c = false := by
  have hprefix : c :: r <+: l.dropWhile isWhiteSpace := by
    rw [← h]
    exact List.rdropWhile_prefix isWhiteSpace _
  obtain ⟨t, ht⟩ := hprefix
  have hhead := List.head?_dropWhile_not isWhiteSpace l
  rw [← ht] at hhead
  simpa using hhead

namespace Site

namespace Words

theorem finish_ne_nil {word : List Char} {quoted : Bool} (h : word ≠ [] ∨ quoted = true) :
    finish word quoted ≠ [] := by
  rcases h with h | rfl
  · simp [finish, h]
  · simp [finish]

/-- A word that has been begun is given out, wherever the line ends. -/
theorem scan_ne_nil (l : List Char) {word : List Char} {quoted inside : Bool}
    (h : word ≠ [] ∨ quoted = true) : scan word quoted inside l ≠ [] := by
  fun_induction scan word quoted inside l with
  | case1 | case3 => exact finish_ne_nil h
  | case4 => exact finish_ne_nil (.inl (List.cons_ne_nil _ _))
  | case2 _ _ _ _ ih => exact ih (.inr rfl)
  | case5 _ _ _ _ ih | case6 _ _ _ _ _ _ ih | case8 _ _ _ _ _ _ _ _ _ ih =>
    exact ih (.inl (List.cons_ne_nil _ _))
  | case7 => exact List.append_ne_nil_of_left_ne_nil (finish_ne_nil h) _

theorem split_cons_ne_nil {c : Char} (hc : Blank.isAsciiBlank c = false) (l : List Char) :
    split (c :: l) ≠ [] := by
  unfold split scan
  split
  · contradiction
  · exact scan_ne_nil _ (.inr rfl)
  · simp [finish]
  · exact scan_ne_nil _ (.inl (List.cons_ne_nil _ _))
  · rename_i h
    cases h
    rw [hc]
    exact scan_ne_nil _ (.inl (List.cons_ne_nil _ _))

end Words

/-- Only blank lines and lines that begin with a number sign say nothing. -/
theorem Directive.readLine_eq_none_iff {line : List Char} :
    readLine line = .ok none ↔ Blank.trim line = [] ∨ (Blank.trim line).head? = some '#' := by
  rw [readLine]
  split
  · simp [*]
  · simp [*]
  · rename_i hblank hcomment
    obtain ⟨c, r, htrim⟩ := List.exists_cons_of_ne_nil hblank
    -- a character that is not trimmed off begins a word
    have hc : Blank.isAsciiBlank c = false := by
      have := Blank.not_isWhiteSpace_of_trim_eq_cons htrim
      cases h : Blank.isAsciiBlank c with
      | false => rfl
      | true => rwa [Blank.isWhiteSpace_of_isAsciiBlank h] at this
    obtain ⟨name, args, hwords⟩ := List.exists_cons_of_ne_nil (Words.split_cons_ne_nil hc r)
    have hne : c ≠ '#' := by
      rintro rfl
      exact hcomment r htrim
    rw [htrim, hwords]
    simp only [List.map_cons, List.head?_cons, Option.some.injEq, hne, reduceCtorEq, or_self, iff_false]
    cases ofWords (String.ofList name) (args.map String.ofList) <;> simp [Except.map]

def Directive.IsGood (line : List Char) : Prop := ∃ d, readLine line = .ok d

def Directive.ofLine? (line : List Char) : Option Directive := (readLine line).toOption.join

/-- The value that directives give to a setting, if one of them is about it: the last one counts. -/
def Directive.last? {α : Type} (about : Directive → Option α) (directives : List Directive) : Option α :=
  (directives.filterMap about).getLast?

namespace Directive

def root? : Directive → Option String
  | .root directory => some directory
  | _ => none

def indexNames? : Directive → Option (List String)
  | .index names => some names
  | _ => none

def timeout? : Directive → Option (Option Duration)
  | .timeout limit => some limit
  | _ => none

variable {α : Type} {about : Directive → Option α}

theorem last?_append_getD (upper lower : List Directive) (a : α) :
    (last? about (upper ++ lower)).getD a =
      if (last? about lower).isSome then (last? about lower).getD a else (last? about upper).getD a := by
  have hlast : last? about (upper ++ lower) = (last? about lower).or (last? about upper) := by
    rw [last?, List.filterMap_append, List.getLast?_append]
    rfl
  rw [hlast]
  cases last? about lower <;> rfl

theorem ne_nil_of_ofWords_index {name : String} {args names : List String}
    (h : ofWords name args = .ok (.index names)) : names ≠ [] := by
  unfold ofWords at h
  split at h <;> simp_all only [Except.ok.injEq, reduceCtorEq, Directive.index.injEq, not_false_eq_true,
    imp_false, ne_eq]
  -- what is left is a deadline, which is no list of names
  rename_i seconds
  cases hread : readTimeout seconds <;> rw [hread] at h <;> cases h

/-- A line that sets index names has a name on it. -/
theorem ne_nil_of_readLine_index {line : List Char} {names : List String}
    (h : readLine line = .ok (some (.index names))) : names ≠ [] := by
  rw [readLine] at h
  split at h
  · cases h
  · cases h
  · split at h
    · cases h
    · rename_i name args _
      cases hwords : ofWords name args with
      | error e =>
        rw [hwords] at h
        cases h
      | ok d =>
        rw [hwords] at h
        cases h
        exact ne_nil_of_ofWords_index hwords

end Directive

open Directive

/-- A configuration that has its settings from directives, and the others by default. -/
structure Config.SetBy (c : Config) (directives : List Directive) : Prop where
  root : c.root = (last? root? directives).getD Config.byDefault.root
  rules : c.rules =
    if directives.filterMap rule? = [] then Config.byDefault.rules else directives.filterMap rule?
  indexNames : c.indexNames = (last? indexNames? directives).getD Config.byDefault.indexNames
  timeout : c.timeout = (last? timeout? directives).getD Config.byDefault.timeout

namespace SiteFile

def linesOf (text : String) : List (List Char) := Parts.split '\n' text.toList

def directivesOf (text : String) : List Directive := (linesOf text).filterMap ofLine?

variable {n : Nat} {line : List Char} {lines before after : List (List Char)} {text : String}
  {e : LineError}

theorem readLines_append (hgood : ∀ l ∈ before, IsGood l) (n : Nat) (rest : List (List Char)) :
    readLines n (before ++ rest) =
      (readLines (n + before.length) rest).map (before.filterMap ofLine? ++ ·) := by
  induction before generalizing n with
  | nil => cases h : readLines n rest <;> simp [h, Except.map]
  | cons line before ih =>
    obtain ⟨⟨d, hd⟩, hgood⟩ := List.forall_mem_cons.mp hgood
    have ih := ih hgood (n + 1)
    rw [Nat.add_right_comm, Nat.add_assoc] at ih
    rw [List.cons_append, readLines, hd, List.filterMap_cons, ofLine?, hd, List.length_cons]
    cases d with
    | none => exact ih
    | some d =>
      simp only [ih]
      cases readLines (n + (before.length + 1)) rest <;> rfl

theorem readLines_of_good (hgood : ∀ l ∈ lines, IsGood l) (n : Nat) :
    readLines n lines = .ok (lines.filterMap ofLine?) := by
  have h := readLines_append hgood n []
  simpa [readLines, Except.map] using h

theorem readLines_of_bad (hgood : ∀ l ∈ before, IsGood l) (hbad : readLine line = .error e) (n : Nat)
    (after : List (List Char)) :
    readLines n (before ++ line :: after) = .error ⟨n + before.length, e⟩ := by
  rw [readLines_append hgood, readLines, hbad]
  rfl

/-- All lines are good, or there is a first one that is not. -/
theorem good_or_first_bad (lines : List (List Char)) :
    (∀ l ∈ lines, IsGood l) ∨ ∃ before line after e, lines = before ++ line :: after ∧
      (∀ l ∈ before, IsGood l) ∧ readLine line = .error e := by
  induction lines with
  | nil => exact .inl nofun
  | cons line lines ih =>
    cases hline : readLine line with
    | error e => exact .inr ⟨[], line, lines, e, rfl, nofun, hline⟩
    | ok d =>
      have hcons {ls : List (List Char)} (h : ∀ l ∈ ls, IsGood l) : ∀ l ∈ line :: ls, IsGood l :=
        List.forall_mem_cons.mpr ⟨⟨d, hline⟩, h⟩
      rcases ih with hgood | ⟨before, bad, after, e, rfl, hgood, hbad⟩
      · exact .inl (hcons hgood)
      · exact .inr ⟨line :: before, bad, after, e, rfl, hcons hgood, hbad⟩

/-- A setting that each directive about it replaces is as the last of them says. -/
theorem foldl_apply_setting {α : Type} {setting : Config → α} {about : Directive → Option α}
    (happly : ∀ c d, setting (apply c d) = (about d).getD (setting c)) (directives : List Directive)
    (c : Config) :
    setting (directives.foldl apply c) = (last? about directives).getD (setting c) := by
  induction directives using List.reverseRecOn with
  | nil => rfl
  | append_singleton directives d ih =>
    rw [List.foldl_append, List.foldl_cons, List.foldl_nil, happly, ih, last?_append_getD]
    cases h : about d <;> simp [last?, h]

theorem configure_setBy (directives : List Directive) : (configure directives).SetBy directives := by
  have hsetting {α : Type} (setting : Config → α)
      (h : ∀ c rules, setting { c with rules := rules } = setting c) :
      setting (configure directives) =
        setting (directives.foldl apply { Config.byDefault with rules := [] }) := by
    rw [configure]
    split
    · exact h _ _
    · rfl
  refine ⟨?_, configure_rules directives, ?_, ?_⟩
  · rw [hsetting Config.root fun _ _ => rfl]
    exact foldl_apply_setting (fun c d => by cases d <;> rfl) directives _
  · rw [hsetting Config.indexNames fun _ _ => rfl]
    exact foldl_apply_setting (fun c d => by cases d <;> rfl) directives _
  · rw [hsetting Config.timeout fun _ _ => rfl]
    exact foldl_apply_setting (fun c d => by cases d <;> rfl) directives _

theorem load_of_good (hgood : ∀ l ∈ linesOf text, IsGood l) :
    load text = .ok (configure (directivesOf text)) := by
  change (readLines 1 (linesOf text)).map configure = _
  rw [readLines_of_good hgood]
  rfl

theorem load_of_bad (hlines : linesOf text = before ++ line :: after) (hgood : ∀ l ∈ before, IsGood l)
    (hbad : readLine line = .error e) : load text = .error ⟨1 + before.length, e⟩ := by
  change (readLines 1 (linesOf text)).map configure = _
  rw [hlines, readLines_of_bad hgood hbad]
  rfl

/-- A site file that loads has good lines only, and carries them all out. -/
theorem load_eq_ok_iff {c : Config} :
    load text = .ok c ↔ (∀ l ∈ linesOf text, IsGood l) ∧ c = configure (directivesOf text) := by
  rcases good_or_first_bad (linesOf text) with hgood | ⟨before, line, after, e, hlines, hgood, hbad⟩
  · rw [load_of_good hgood, Except.ok.injEq, eq_comm, and_iff_right hgood]
  · have hmem : line ∈ linesOf text := hlines ▸ List.mem_append_cons_self
    rw [load_of_bad hlines hgood hbad]
    constructor
    · nofun
    · rintro ⟨hall, -⟩
      obtain ⟨d, hd⟩ := hall line hmem
      cases hbad.symm.trans hd

theorem linesOf_line (h : '\n' ∉ line) : linesOf (.ofList line) = [line] := by
  rw [linesOf, String.toList_ofList, Parts.split_eq_splitOn, List.splitOn_eq_singleton h]

theorem load_line_eq_error_iff (h : '\n' ∉ line) {e : ConfigError} :
    load (.ofList line) = .error e ↔ e.line = 1 ∧ readLine line = .error e.error := by
  cases hline : readLine line with
  | error f =>
    have hload : load (.ofList line) = .error ⟨1, f⟩ :=
      load_of_bad (List.nil_append [line] ▸ linesOf_line h) (List.forall_mem_nil _) hline
    obtain ⟨n, g⟩ := e
    rw [hload]
    simp [eq_comm]
  | ok d =>
    have hgood : ∀ l ∈ linesOf (.ofList line), IsGood l := by
      rw [linesOf_line h]
      exact List.forall_mem_singleton.mpr ⟨d, hline⟩
    rw [load_of_good hgood]
    simp

theorem exists_load_line_iff (h : '\n' ∉ line) : (∃ c, load (.ofList line) = .ok c) ↔ IsGood line := by
  simp only [load_eq_ok_iff, linesOf_line h, List.forall_mem_singleton, exists_and_left, exists_eq,
    and_true]

theorem not_mem_of_mem_linesOf (h : line ∈ linesOf text) : '\n' ∉ line := Parts.not_mem_of_mem_split h

theorem linesOf_append (upper lower : String) :
    linesOf (upper ++ "\n" ++ lower) = linesOf upper ++ linesOf lower := by
  rw [linesOf, String.toList_append, String.toList_append, List.append_assoc]
  exact Parts.split_append '\n' _ _

def above (before : List (List Char)) : List Char := (before.map (· ++ ['\n'])).flatten

theorem above_prefix (before : List (List Char)) (line : List Char) (after : List (List Char)) :
    above before ++ line <+: ['\n'].intercalate (before ++ line :: after) := by
  induction before with
  | nil =>
    cases after with
    | nil => simp [above]
    | cons next after =>
      rw [List.nil_append, List.intercalate_cons_of_ne_nil (List.cons_ne_nil _ _), List.append_assoc]
      exact List.prefix_append line _
  | cons first before ih =>
    rw [List.cons_append, List.intercalate_cons_of_ne_nil (by simp), above, List.map_cons,
      List.flatten_cons, List.append_assoc, List.append_assoc, List.append_assoc]
    exact (List.prefix_append_right_inj _).mpr ((List.prefix_append_right_inj _).mpr ih)

theorem count_above (h : ∀ l ∈ before, '\n' ∉ l) : (above before).count '\n' = before.length := by
  induction before with
  | nil => rfl
  | cons first before ih =>
    obtain ⟨hfirst, hbefore⟩ := List.forall_mem_cons.mp h
    have hrest : (above (first :: before)).count '\n' = (above before).count '\n' + 1 := by
      simp [above, List.count_eq_zero.mpr hfirst]
    rw [hrest, ih hbefore, List.length_cons]

/-- The place of a line in a text: what stands above it, and that one line feed ends each line there. -/
theorem above_spec (hlines : linesOf text = before ++ line :: after) :
    above before ++ line <+: text.toList ∧ (above before).count '\n' = before.length := by
  constructor
  · have htext : text.toList = ['\n'].intercalate (linesOf text) := by
      rw [linesOf, Parts.split_eq_splitOn, List.intercalate_splitOn]
    rw [htext, hlines]
    exact above_prefix before line after
  · apply count_above
    intro l hl
    have hmem : l ∈ linesOf text := hlines ▸ List.mem_append_left _ hl
    exact not_mem_of_mem_linesOf hmem

theorem configure_indexNames_ne_nil {directives : List Directive}
    (h : ∀ names, .index names ∈ directives → names ≠ []) : (configure directives).indexNames ≠ [] := by
  rw [(configure_setBy directives).indexNames]
  cases hlast : last? indexNames? directives with
  | none => decide
  | some names =>
    obtain ⟨d, hd, hnames⟩ := List.mem_filterMap.mp (List.mem_of_getLast? hlast)
    cases d with
    | index => cases hnames; exact h names hd
    | root | lua | timeout => cases hnames

theorem index_ne_nil_of_mem_directivesOf {names : List String} (h : .index names ∈ directivesOf text) :
    names ≠ [] := by
  obtain ⟨line, -, hline⟩ := List.mem_filterMap.mp h
  rw [ofLine?] at hline
  cases hread : readLine line with
  | error e => rw [hread] at hline; cases hline
  | ok d =>
    rw [hread] at hline
    obtain rfl : d = some (.index names) := hline
    exact ne_nil_of_readLine_index hread

/-- The error of a site file is that of the first line that is an error by itself, with the number of
that line. -/
theorem load_eq_error_iff {e : ConfigError} :
    load text = .error e ↔ ∃ before line after, linesOf text = before ++ line :: after ∧
      e.line = 1 + before.length ∧ (∀ l ∈ before, IsGood l) ∧ readLine line = .error e.error := by
  constructor
  · intro h
    rcases good_or_first_bad (linesOf text) with hgood | ⟨before, line, after, f, hlines, hgood, hbad⟩
    · rw [load_of_good hgood] at h
      cases h
    · rw [load_of_bad hlines hgood hbad] at h
      cases h
      exact ⟨before, line, after, hlines, rfl, hgood, hbad⟩
  · rintro ⟨before, line, after, hlines, hnumber, hgood, hbad⟩
    rw [load_of_bad hlines hgood hbad, ← hnumber]

/-- One site file below another: the directives of both, in order. -/
theorem load_append {lower : String} {cu cl : Config} (hu : load text = .ok cu) (hl : load lower = .ok cl) :
    load (text ++ "\n" ++ lower) = .ok (configure (directivesOf text ++ directivesOf lower)) := by
  rw [load_eq_ok_iff] at hu hl ⊢
  constructor
  · intro line hline
    rw [linesOf_append] at hline
    exact (List.mem_append.mp hline).elim (hu.1 line) (hl.1 line)
  · change _ = configure ((linesOf (text ++ "\n" ++ lower)).filterMap ofLine?)
    rw [linesOf_append, List.filterMap_append]
    rfl

/-- A site file is read line by line. It fails just if a line of it fails by itself; the error is that of
the first such line, with its number. Lines that are blank or begin with a number sign are left out, and
all others are carried out. One site file below another one gives the settings of the lower one where
that has any, and the rules of both. There are always a rule and an index name. -/
theorem load_by_lines (upper lower : String) :
    (∀ e, load upper = .error e ↔ ∃ before line after, linesOf upper = before ++ line :: after ∧
      (above before ++ line <+: upper.toList ∧ e.line = 1 + (above before).count '\n') ∧
      (∀ l ∈ before, ∃ c, load (.ofList l) = .ok c) ∧ load (.ofList line) = .error ⟨1, e.error⟩) ∧
    ((∃ e, load upper = .error e) ↔ ∃ line ∈ linesOf upper, ∃ e, load (.ofList line) = .error e) ∧
    (∀ line ∈ linesOf upper,
      readLine line = .ok none ↔ Blank.trim line = [] ∨ (Blank.trim line).head? = some '#') ∧
    (∀ c, load upper = .ok c →
      c.SetBy (directivesOf upper) ∧ c.rules ≠ [] ∧ c.indexNames ≠ []) ∧
    (∀ cu cl, load upper = .ok cu → load lower = .ok cl → ∃ c,
      load (upper ++ "\n" ++ lower) = .ok c ∧
      c.root = (if (last? root? (directivesOf lower)).isSome then cl.root else cu.root) ∧
      c.indexNames =
        (if (last? indexNames? (directivesOf lower)).isSome then cl.indexNames else cu.indexNames) ∧
      c.timeout = (if (last? timeout? (directivesOf lower)).isSome then cl.timeout else cu.timeout) ∧
      c.rules =
        let rules := (directivesOf upper).filterMap rule? ++ (directivesOf lower).filterMap rule?
        if rules = [] then [.slash] else rules) := by
  refine ⟨fun e => ?_, ?_, fun line _ => readLine_eq_none_iff, ?_, ?_⟩
  · rw [load_eq_error_iff]
    refine exists_congr fun before => exists_congr fun line => exists_congr fun after =>
      and_congr_right fun hlines => ?_
    -- what is above the line and the line begin the text, so the line feeds there number it
    obtain ⟨habove, hcount⟩ := above_spec hlines
    have hfeed : ∀ l ∈ before ++ line :: after, '\n' ∉ l := fun l hl =>
      not_mem_of_mem_linesOf (hlines ▸ hl)
    have hline := hfeed line List.mem_append_cons_self
    rw [hcount, and_iff_right habove, load_line_eq_error_iff hline, and_iff_right rfl]
    refine and_congr_right fun _ => and_congr_left fun _ => forall₂_congr fun l hl => ?_
    exact (exists_load_line_iff (hfeed l (List.mem_append_left _ hl))).symm
  · constructor
    · rintro ⟨e, he⟩
      obtain ⟨before, line, after, hlines, -, -, hbad⟩ := load_eq_error_iff.mp he
      have hmem : line ∈ linesOf upper := hlines ▸ List.mem_append_cons_self
      exact ⟨line, hmem, ⟨1, e.error⟩,
        (load_line_eq_error_iff (not_mem_of_mem_linesOf hmem)).mpr ⟨rfl, hbad⟩⟩
    · rintro ⟨line, hmem, e, he⟩
      cases hload : load upper with
      | error e => exact ⟨e, rfl⟩
      | ok c =>
        obtain ⟨d, hd⟩ := (load_eq_ok_iff.mp hload).1 line hmem
        cases hd.symm.trans ((load_line_eq_error_iff (not_mem_of_mem_linesOf hmem)).mp he).2
  · intro c hload
    obtain ⟨-, rfl⟩ := load_eq_ok_iff.mp hload
    refine ⟨configure_setBy _, ?_, configure_indexNames_ne_nil fun _ => index_ne_nil_of_mem_directivesOf⟩
    rw [configure_rules]
    split
    · exact List.cons_ne_nil _ _
    · assumption
  · intro cu cl hu hl
    -- of each setting the last directive counts, which is one of the lower file if it has any
    refine ⟨_, load_append hu hl, ?_⟩
    obtain ⟨-, rfl⟩ := load_eq_ok_iff.mp hu
    obtain ⟨-, rfl⟩ := load_eq_ok_iff.mp hl
    have hu := configure_setBy (directivesOf upper)
    have hl := configure_setBy (directivesOf lower)
    have hboth := configure_setBy (directivesOf upper ++ directivesOf lower)
    refine ⟨?_, ?_, ?_, ?_⟩
    · rw [hboth.root, last?_append_getD, hl.root, hu.root]
    · rw [hboth.indexNames, last?_append_getD, hl.indexNames, hu.indexNames]
    · rw [hboth.timeout, last?_append_getD, hl.timeout, hu.timeout]
    · rw [hboth.rules, List.filterMap_append]
      rfl

/-- The upper file begins with a comment and the lower one is indented; in a third file the bad line is the
third. -/
theorem load_by_lines_with_rules :
    (∃ c, load (" # pages\nlua /a\nroot docs" ++ "\n" ++ "lua /b\n\tindex \"\"") = .ok c ∧
      c.root = "docs" ∧ c.rules = [⟨"/a"⟩, ⟨"/b"⟩] ∧ c.indexNames = [""]) ∧
    load "lua /a\n\nlua /a /b\nbase" = .error ⟨3, .luaArguments 2⟩ := by
  constructor
  · have hu : load " # pages\nlua /a\nroot docs" =
        .ok ⟨"docs", [⟨"/a"⟩], Config.indexNamesByDefault, none⟩ := rfl
    have hl : load "lua /b\n\tindex \"\"" = .ok ⟨".", [⟨"/b"⟩], [""], none⟩ := rfl
    obtain ⟨c, hload, hroot, hindex, -, hrules⟩ := (load_by_lines _ _).2.2.2.2 _ _ hu hl
    exact ⟨c, hload, hroot, hrules, hindex⟩
  · have hlines : linesOf "lua /a\n\nlua /a /b\nbase" =
        ["lua /a".toList, []] ++ "lua /a /b".toList :: ["base".toList] := rfl
    have hfirst : load (.ofList "lua /a".toList) =
        .ok ⟨".", [⟨"/a"⟩], Config.indexNamesByDefault, none⟩ := rfl
    have hblank : load (.ofList []) = .ok Config.byDefault := rfl
    refine ((load_by_lines _ "").1 _).mpr ⟨_, _, _, hlines, by decide, ?_, rfl⟩
    intro l hl
    rcases List.mem_cons.mp hl with rfl | hl
    · exact ⟨_, hfirst⟩
    · obtain rfl := List.mem_singleton.mp hl
      exact ⟨_, hblank⟩

end SiteFile

end Site

end LuaPages
