import LuaPages.Proofs.Site.Lines

namespace LuaPages

/-- A line that neither begins nor ends with a blank character is left as it is. -/
theorem Blank.trim_of_ends {l : List Char} {c d : Char} (hfirst : l.head? = some c)
    (hc : isWhiteSpace c = false) (hlast : l.getLast? = some d) (hd : isWhiteSpace d = false) :
    trim l = l := by
  obtain ⟨r, rfl⟩ := List.head?_eq_some_iff.mp hfirst
  obtain ⟨r', hr'⟩ := List.getLast?_eq_some_iff.mp hlast
  have hleft : (c :: r).dropWhile isWhiteSpace = c :: r := by
    rw [List.dropWhile_cons, hc]
    rfl
  have hright : (c :: r).reverse.dropWhile isWhiteSpace = (c :: r).reverse := by
    rw [hr', List.reverse_append, List.reverse_singleton, List.singleton_append, List.dropWhile_cons, hd]
    rfl
  rw [trim, hleft, hright, List.reverse_reverse]

namespace Site

namespace Words

/-- A word is written in pieces: bare characters, or any characters between quotes. -/
inductive Piece where
  | bare (text : List Char)
  | quoted (text : List Char)
  deriving DecidableEq, Repr

/-- Text that may stand between quotes: quotes and backslashes have a backslash before them. -/
def escape : List Char → List Char
  | [] => []
  | c :: r => if c = '"' ∨ c = '\\' then '\\' :: c :: escape r else c :: escape r

namespace Piece

def text : Piece → List Char
  | bare t => t
  | quoted t => t

def written : Piece → List Char
  | bare t => t
  | quoted t => '"' :: escape t ++ ['"']

/-- Whether a piece can be read back: a bare one is not empty and has neither blanks nor quotes. -/
def IsProper : Piece → Prop
  | bare t => t ≠ [] ∧ ∀ c ∈ t, Blank.isAsciiBlank c = false ∧ c ≠ '"'
  | quoted _ => True

end Piece

def spelled (pieces : List Piece) : List Char := (pieces.map Piece.text).flatten

def writtenWord (pieces : List Piece) : List Char := (pieces.map Piece.written).flatten

def writtenLine (words : List (List Char × List Piece)) : List Char :=
  (words.map fun w => w.1 ++ writtenWord w.2).flatten

def quote (word : List Char) : List Char := (Piece.quoted word).written

variable {word : List Char} {quoted : Bool} {c : Char}

/-- Only quotes and backslashes do anything but join the word or end it. -/
theorem scan_cons (hquote : c ≠ '"') (hslash : c ≠ '\\') (inside : Bool) (l : List Char) :
    scan word quoted inside (c :: l) =
      if (Blank.isAsciiBlank c && !inside) = true then finish word quoted ++ scan [] false false l
      else scan (c :: word) quoted inside l :=
  scan.eq_5 word quoted inside c l hquote (fun h => absurd h hslash) fun _ _ h => absurd h hslash

theorem scan_bare_cons (hblank : Blank.isAsciiBlank c = false) (hquote : c ≠ '"') (l : List Char) :
    scan word quoted false (c :: l) = scan (c :: word) quoted false l := by
  by_cases hslash : c = '\\'
  · subst hslash
    cases l <;> rfl
  · rw [scan_cons hquote hslash, hblank]
    rfl

theorem scan_blank_cons (hblank : Blank.isAsciiBlank c = true) (l : List Char) :
    scan word quoted false (c :: l) = finish word quoted ++ scan [] false false l := by
  have hquote : c ≠ '"' := by
    rintro rfl
    cases hblank
  have hslash : c ≠ '\\' := by
    rintro rfl
    cases hblank
  rw [scan_cons hquote hslash, hblank]
  rfl

theorem scan_bare {text : List Char} (h : ∀ c ∈ text, Blank.isAsciiBlank c = false ∧ c ≠ '"')
    (l : List Char) : scan word quoted false (text ++ l) = scan (text.reverse ++ word) quoted false l := by
  induction text generalizing word with
  | nil => rfl
  | cons c text ih =>
    obtain ⟨⟨hblank, hquote⟩, h⟩ := List.forall_mem_cons.mp h
    rw [List.cons_append, scan_bare_cons hblank hquote, ih h, List.reverse_cons, List.append_assoc]
    rfl

theorem scan_escape (text l : List Char) :
    scan word true true (escape text ++ '"' :: l) = scan (text.reverse ++ word) true false l := by
  induction text generalizing word with
  | nil => rfl
  | cons c text ih =>
    -- whether it has a backslash before it or not, a character of the text is added as it is
    have hnext : scan word true true (escape (c :: text) ++ '"' :: l) =
        scan (c :: word) true true (escape text ++ '"' :: l) := by
      by_cases hescaped : c = '"' ∨ c = '\\'
      · rw [escape, if_pos hescaped]
        exact scan.eq_4 _ _ _ _ _
      · obtain ⟨hquote, hslash⟩ := not_or.mp hescaped
        rw [escape, if_neg hescaped, List.cons_append, scan_cons hquote hslash, Bool.not_true,
          Bool.and_false]
        rfl
    rw [hnext, ih, List.reverse_cons, List.append_assoc]
    rfl

def Piece.isQuoted : Piece → Bool
  | .bare _ => false
  | .quoted _ => true

/-- Outside quotes a piece adds its text to the word that is read. -/
theorem scan_piece {p : Piece} (h : p.IsProper) (l : List Char) :
    scan word quoted false (p.written ++ l) =
      scan (p.text.reverse ++ word) (quoted || p.isQuoted) false l := by
  cases p with
  | bare text =>
    rw [Piece.isQuoted, Bool.or_false]
    exact scan_bare h.2 l
  | quoted text =>
    have hwritten : (Piece.quoted text).written ++ l = '"' :: (escape text ++ '"' :: l) :=
      congrArg (List.cons '"') (List.append_assoc _ _ _)
    rw [Piece.isQuoted, Bool.or_true, hwritten]
    exact scan_escape text l

theorem scan_pieces {pieces : List Piece} (h : ∀ p ∈ pieces, p.IsProper) (l : List Char) :
    scan word quoted false (writtenWord pieces ++ l) =
      scan ((spelled pieces).reverse ++ word) (quoted || pieces.any Piece.isQuoted) false l := by
  induction pieces generalizing word quoted with
  | nil =>
    rw [List.any_nil, Bool.or_false]
    rfl
  | cons p pieces ih =>
    obtain ⟨hp, h⟩ := List.forall_mem_cons.mp h
    have hwritten : writtenWord (p :: pieces) = p.written ++ writtenWord pieces := rfl
    have hspelled : spelled (p :: pieces) = p.text ++ spelled pieces := rfl
    rw [hwritten, hspelled, List.append_assoc, scan_piece hp, ih h, List.reverse_append, List.append_assoc,
      List.any_cons, Bool.or_assoc]

theorem begun_of_pieces {pieces : List Piece} (hne : pieces ≠ []) (h : ∀ p ∈ pieces, p.IsProper) :
    (spelled pieces).reverse ≠ [] ∨ pieces.any Piece.isQuoted = true := by
  obtain ⟨p, rest, rfl⟩ := List.exists_cons_of_ne_nil hne
  cases p with
  | bare text =>
    have htext : text ≠ [] := (h _ List.mem_cons_self).1
    exact .inl (mt List.reverse_eq_nil_iff.mp (List.append_ne_nil_of_left_ne_nil htext _))
  | quoted text => exact .inr rfl

theorem finish_of_begun (h : word ≠ [] ∨ quoted = true) : finish word quoted = [word.reverse] := by
  rcases h with h | rfl
  · simp [finish, h]
  · simp [finish]

theorem scan_blanks {blanks : List Char} (h : ∀ c ∈ blanks, Blank.isAsciiBlank c = true)
    (l : List Char) : scan [] false false (blanks ++ l) = scan [] false false l := by
  induction blanks with
  | nil => rfl
  | cons c blanks ih =>
    obtain ⟨hc, h⟩ := List.forall_mem_cons.mp h
    rw [List.cons_append, scan_blank_cons hc, ih h]
    rfl

/-- Blanks end a word that has been begun. -/
theorem scan_gap {blanks : List Char} (hne : blanks ≠ [])
    (h : ∀ c ∈ blanks, Blank.isAsciiBlank c = true) (hbegun : word ≠ [] ∨ quoted = true) (l : List Char) :
    scan word quoted false (blanks ++ l) = word.reverse :: scan [] false false l := by
  obtain ⟨c, blanks, rfl⟩ := List.exists_cons_of_ne_nil hne
  obtain ⟨hc, h⟩ := List.forall_mem_cons.mp h
  rw [List.cons_append, scan_blank_cons hc, finish_of_begun hbegun, scan_blanks h]
  rfl

/-- A word as it stands on a line: some blanks, and then at least one piece, and proper ones only. -/
def IsWritten (w : List Char × List Piece) : Prop :=
  (∀ c ∈ w.1, Blank.isAsciiBlank c = true) ∧ w.2 ≠ [] ∧ ∀ p ∈ w.2, p.IsProper

variable {words : List (List Char × List Piece)} {after : List Char}

theorem writtenLine_cons (w : List Char × List Piece) (words : List (List Char × List Piece)) :
    writtenLine (w :: words) = w.1 ++ (writtenWord w.2 ++ writtenLine words) := List.append_assoc _ _ _

/-- The pieces of a word are read as the word that they spell, which has then been begun. -/
theorem scan_writtenWord {w : List Char × List Piece} (h : IsWritten w) (l : List Char) :
    ∃ word quoted, word.reverse = spelled w.2 ∧ (word ≠ [] ∨ quoted = true) ∧
      scan [] false false (writtenWord w.2 ++ l) = scan word quoted false l := by
  obtain ⟨-, hpieces, hproper⟩ := h
  refine ⟨_, _, List.reverse_reverse _, begun_of_pieces hpieces hproper, ?_⟩
  rw [scan_pieces hproper, List.append_nil, Bool.false_or]

/-- What a begun word and the words after it are read as, where each of these has blanks before it. -/
theorem scan_written (hwritten : ∀ w ∈ words, IsWritten w) (hapart : ∀ w ∈ words, w.1 ≠ [])
    (hafter : ∀ c ∈ after, Blank.isAsciiBlank c = true) (hbegun : word ≠ [] ∨ quoted = true) :
    scan word quoted false (writtenLine words ++ after) =
      word.reverse :: words.map fun w => spelled w.2 := by
  induction words generalizing word quoted with
  | nil =>
    change scan word quoted false after = [word.reverse]
    by_cases hne : after = []
    · rw [hne]
      exact finish_of_begun hbegun
    · have hgap := scan_gap hne hafter hbegun []
      rwa [List.append_nil] at hgap
  | cons w words ih =>
    obtain ⟨hw, hwritten⟩ := List.forall_mem_cons.mp hwritten
    obtain ⟨hne, hapart⟩ := List.forall_mem_cons.mp hapart
    -- the blanks before `w` end the word that has been begun, and the pieces of `w` begin the next one
    obtain ⟨next, quoted', hspelled, hbegun', hscan⟩ := scan_writtenWord hw (writtenLine words ++ after)
    rw [writtenLine_cons, List.append_assoc, List.append_assoc, scan_gap hne hw.1 hbegun, hscan,
      ih hwritten hapart hbegun', hspelled]
    rfl

theorem split_writtenLine (hwritten : ∀ w ∈ words, IsWritten w) (hapart : ∀ w ∈ words.tail, w.1 ≠ [])
    (hafter : ∀ c ∈ after, Blank.isAsciiBlank c = true) :
    split (writtenLine words ++ after) = words.map fun w => spelled w.2 := by
  cases words with
  | nil =>
    have hblank := scan_blanks hafter []
    rwa [List.append_nil] at hblank
  | cons w words =>
    obtain ⟨hw, hwritten⟩ := List.forall_mem_cons.mp hwritten
    obtain ⟨word, quoted, hspelled, hbegun, hscan⟩ := scan_writtenWord hw (writtenLine words ++ after)
    rw [split, writtenLine_cons, List.append_assoc, List.append_assoc, scan_blanks hw.1, hscan,
      scan_written hwritten hapart hafter hbegun, hspelled]
    rfl

end Words

namespace Directive

def quotedLine (name : String) (args : List String) : List Char :=
  name.toList ++ (args.map fun a => ' ' :: Words.quote a.toList).flatten

def IsName (name : String) : Prop :=
  name.toList ≠ [] ∧ name.toList.head? ≠ some '#' ∧
    ∀ c ∈ name.toList, Blank.isWhiteSpace c = false ∧ c ≠ '"'

instance : DecidablePred IsName := fun name =>
  -- the characters of the name are looked at, not all characters
  have : Decidable (∀ c ∈ name.toList, Blank.isWhiteSpace c = false ∧ c ≠ '"') := List.decidableBAll _ _
  inferInstanceAs (Decidable (name.toList ≠ [] ∧ name.toList.head? ≠ some '#' ∧
    ∀ c ∈ name.toList, Blank.isWhiteSpace c = false ∧ c ≠ '"'))

variable {name : String} {args : List String}

theorem quotedLine_eq (name : String) (args : List String) :
    quotedLine name args = Words.writtenLine
      (([], [.bare name.toList]) :: args.map fun a => ([' '], [.quoted a.toList])) := by
  have hword (p : Words.Piece) : Words.writtenWord [p] = p.written := List.append_nil _
  simp only [quotedLine, Words.writtenLine, List.map_cons, List.map_map, List.flatten_cons, Function.comp_def,
    hword]
  rfl

theorem split_quotedLine (hname : IsName name) (args : List String) :
    (Words.split (quotedLine name args)).map String.ofList = name :: args := by
  obtain ⟨hne, -, hchars⟩ := hname
  have hproper : (Words.Piece.bare name.toList).IsProper := by
    refine ⟨hne, fun c hc => ⟨?_, (hchars c hc).2⟩⟩
    rw [← Bool.not_eq_true]
    intro hblank
    have hspace := Blank.isWhiteSpace_of_isAsciiBlank hblank
    rw [(hchars c hc).1] at hspace
    cases hspace
  -- the name is one bare piece, and each argument one quoted piece after a blank
  let words : List (List Char × List Words.Piece) :=
    ([], [.bare name.toList]) :: args.map fun a => ([' '], [.quoted a.toList])
  have hwritten : ∀ w ∈ words, Words.IsWritten w := by
    intro w hw
    rcases List.mem_cons.mp hw with rfl | hw
    · exact ⟨nofun, List.cons_ne_nil _ _, List.forall_mem_singleton.mpr hproper⟩
    · obtain ⟨a, -, rfl⟩ := List.mem_map.mp hw
      exact ⟨List.forall_mem_singleton.mpr rfl, List.cons_ne_nil _ _, List.forall_mem_singleton.mpr trivial⟩
  have hapart : ∀ w ∈ words.tail, w.1 ≠ [] := by
    intro w hw
    obtain ⟨a, -, rfl⟩ := List.mem_map.mp hw
    exact List.cons_ne_nil _ _
  have hsplit := Words.split_writtenLine hwritten hapart (List.forall_mem_nil _)
  rw [List.append_nil, ← quotedLine_eq] at hsplit
  have hspelled (p : Words.Piece) : Words.spelled [p] = p.text := List.append_nil _
  rw [hsplit]
  simp [words, hspelled, Words.Piece.text, Function.comp_def]

theorem trim_quotedLine (hname : IsName name) (hargs : args ≠ []) :
    Blank.trim (quotedLine name args) = quotedLine name args := by
  obtain ⟨hne, -, hchars⟩ := hname
  obtain ⟨c, r, hcr⟩ := List.exists_cons_of_ne_nil hne
  have hfirst : (quotedLine name args).head? = some c := by
    rw [quotedLine, hcr]
    rfl
  have hlast : (quotedLine name args).getLast? = some '"' := by
    obtain ⟨before, last, rfl⟩ := (List.eq_nil_or_concat args).resolve_left hargs
    have hquote : Words.quote last.toList = ('"' :: Words.escape last.toList) ++ ['"'] := rfl
    rw [quotedLine, List.concat_eq_append, List.map_append, List.flatten_append, List.map_singleton,
      List.flatten_singleton, hquote, ← List.cons_append, ← List.append_assoc, ← List.append_assoc,
      List.getLast?_concat]
  exact Blank.trim_of_ends hfirst (hchars c (hcr ▸ List.mem_cons_self)).1 hlast (by decide)

/-- A line with a name and quoted arguments is that directive with these arguments. -/
theorem readLine_quotedLine (hname : IsName name) (hargs : args ≠ []) :
    readLine (quotedLine name args) = (ofWords name args).map some := by
  have hsplit := split_quotedLine hname args
  have htrim := trim_quotedLine hname hargs
  obtain ⟨hne, hcomment, -⟩ := hname
  obtain ⟨c, r, hcr⟩ := List.exists_cons_of_ne_nil hne
  obtain ⟨rest, hline⟩ : ∃ rest, quotedLine name args = c :: rest := by
    rw [quotedLine, hcr]
    exact ⟨_, rfl⟩
  have hc : c ≠ '#' := by
    rintro rfl
    exact hcomment (by rw [hcr]; rfl)
  rw [readLine, htrim]
  split
  · rename_i hnil
    rw [hline] at hnil
    cases hnil
  · rename_i hhash
    rw [hline] at hhash
    cases hhash
    exact absurd rfl hc
  · rw [hsplit]

theorem not_mem_escape {text : List Char} (h : c ∉ text) (hc : c ≠ '\\') : c ∉ Words.escape text := by
  induction text with
  | nil => exact List.not_mem_nil
  | cons d text ih =>
    rw [List.mem_cons, not_or] at h
    rw [Words.escape]
    split <;> simp [h.1, ih h.2, hc]

/-- A character other than those of quoting stands on a line only if it is in the name or an argument. -/
theorem not_mem_quotedLine (hname : c ∉ name.toList) (hargs : ∀ a ∈ args, c ∉ a.toList)
    (hblank : c ≠ ' ') (hquote : c ≠ '"') (hslash : c ≠ '\\') : c ∉ quotedLine name args := by
  have hword {a : String} (ha : a ∈ args) : c ∉ ' ' :: Words.quote a.toList := by
    have hescape := not_mem_escape (hargs a ha) hslash
    simp [Words.quote, Words.Piece.written, hblank, hquote, hescape]
  rw [quotedLine, List.mem_append, not_or, List.mem_flatten]
  refine ⟨hname, ?_⟩
  rintro ⟨l, hl, hmem⟩
  obtain ⟨a, ha, rfl⟩ := List.mem_map.mp hl
  exact hword ha hmem

end Directive

namespace SiteFile

open Directive

def lines (root : String) (rules : List Rule) (indexNames : List String) : List (List Char) :=
  Directive.quotedLine "root" [root] ::
    (rules.map fun r => Directive.quotedLine "lua" [r.base]) ++ [Directive.quotedLine "index" indexNames]

def write (root : String) (rules : List Rule) (indexNames : List String) : String :=
  String.ofList ((lines root rules indexNames).map (· ++ ['\n'])).flatten

def directives (root : String) (rules : List Rule) (indexNames : List String) : List Directive :=
  .root root :: (rules.map fun r => .lua r.base) ++ [.index indexNames]

variable {root : String} {rules : List Rule} {indexNames : List String}

theorem split_above {ls : List (List Char)} (h : ∀ l ∈ ls, '\n' ∉ l) :
    Parts.split '\n' (above ls) = ls ++ [[]] := by
  induction ls with
  | nil => rfl
  | cons l ls ih =>
    obtain ⟨hl, h⟩ := List.forall_mem_cons.mp h
    have habove : above (l :: ls) = l ++ '\n' :: above ls := by
      rw [above, List.map_cons, List.flatten_cons, List.append_assoc]
      rfl
    rw [habove, Parts.split_append, ih h, Parts.split_eq_splitOn, List.splitOn_eq_singleton hl]
    rfl

theorem linesOf_write (h : ∀ l ∈ lines root rules indexNames, '\n' ∉ l) :
    linesOf (write root rules indexNames) = lines root rules indexNames ++ [[]] := by
  rw [linesOf, write, String.toList_ofList]
  exact split_above h

/-- Each line says its directive. -/
theorem readLine_lines (hindex : indexNames ≠ []) :
    (lines root rules indexNames).map readLine =
      (directives root rules indexNames).map fun d => .ok (some d) := by
  have hroot : readLine (quotedLine "root" [root]) = .ok (some (.root root)) :=
    readLine_quotedLine (by decide) (List.cons_ne_nil _ _)
  have hlua (base : String) : readLine (quotedLine "lua" [base]) = .ok (some (.lua base)) :=
    readLine_quotedLine (by decide) (List.cons_ne_nil _ _)
  have hnames : readLine (quotedLine "index" indexNames) = .ok (some (.index indexNames)) := by
    obtain ⟨n, ns, rfl⟩ := List.exists_cons_of_ne_nil hindex
    exact readLine_quotedLine (by decide) (List.cons_ne_nil _ _)
  simp [lines, directives, hroot, hlua, hnames, Function.comp_def]

theorem last?_directives {α : Type} (about : Directive → Option α) (hlua : ∀ base, about (.lua base) = none)
    (root : String) (rules : List Rule) (indexNames : List String) :
    last? about (directives root rules indexNames) =
      (about (.index indexNames)).or (about (.root root)) := by
  have hrules : (rules.map fun r => Directive.lua r.base).filterMap about = [] := by
    rw [List.filterMap_eq_nil_iff]
    intro d hd
    obtain ⟨r, -, rfl⟩ := List.mem_map.mp hd
    exact hlua r.base
  rw [last?, directives, List.filterMap_append, List.filterMap_cons, hrules]
  cases about (.root root) <;> cases hindex : about (.index indexNames) <;> simp [hindex]

theorem configure_directives (hrules : rules ≠ []) :
    configure (directives root rules indexNames) = ⟨root, rules, indexNames, none⟩ := by
  have hset := configure_setBy (directives root rules indexNames)
  have hrule : (directives root rules indexNames).filterMap rule? = rules := by
    have hlua : (rules.map fun r => Directive.lua r.base).filterMap rule? = rules := by
      rw [List.filterMap_map]
      exact List.filterMap_some
    rw [directives, List.filterMap_append, List.filterMap_cons_none rfl, hlua]
    exact List.append_nil rules
  generalize configure (directives root rules indexNames) = c at hset
  obtain ⟨hroot', hrules', hindex', htimeout'⟩ := hset
  rw [last?_directives _ fun _ => rfl] at hroot' hindex' htimeout'
  rw [hrule, if_neg hrules] at hrules'
  obtain ⟨r, rs, is, t⟩ := c
  cases hroot'
  cases hrules'
  cases hindex'
  cases htimeout'
  rfl

theorem load_write (hrules : rules ≠ []) (hindex : indexNames ≠ [])
    (hfeed : ∀ l ∈ lines root rules indexNames, '\n' ∉ l) :
    load (write root rules indexNames) = .ok ⟨root, rules, indexNames, none⟩ := by
  have hlines := linesOf_write hfeed
  have hread : ((lines root rules indexNames) ++ [[]]).map readLine =
      ((directives root rules indexNames).map fun d => .ok (some d)) ++ [.ok none] := by
    rw [List.map_append, readLine_lines hindex]
    rfl
  have hgood : ∀ l ∈ linesOf (write root rules indexNames), IsGood l := by
    intro l hl
    rw [hlines] at hl
    have hmem := List.mem_map_of_mem (f := readLine) hl
    rw [hread] at hmem
    rcases List.mem_append.mp hmem with hmem | hmem
    · obtain ⟨d, -, hd⟩ := List.mem_map.mp hmem
      exact ⟨_, hd.symm⟩
    · exact ⟨_, List.mem_singleton.mp hmem⟩
  have hsaid : directivesOf (write root rules indexNames) = directives root rules indexNames := by
    have hof : ofLine? = (fun r : Except LineError (Option Directive) => r.toOption.join) ∘ readLine := rfl
    rw [directivesOf, hlines, hof, ← List.filterMap_map, hread]
    simp [List.filterMap_map, Except.toOption]
  rw [load_of_good hgood, hsaid, configure_directives hrules]

/-- Values without a line feed are written on lines without one. -/
theorem not_mem_lines (hvalues : ∀ value ∈ root :: rules.map Rule.base ++ indexNames, '\n' ∉ value.toList) :
    ∀ l ∈ lines root rules indexNames, '\n' ∉ l := by
  have hquoted (name : String) (hname : '\n' ∉ name.toList) (args : List String)
      (hargs : ∀ a ∈ args, a ∈ root :: rules.map Rule.base ++ indexNames) :
      '\n' ∉ quotedLine name args :=
    not_mem_quotedLine hname (fun a ha => hvalues a (hargs a ha)) (by decide) (by decide) (by decide)
  intro l hl
  rcases List.mem_append.mp hl with hl | hl
  · rcases List.mem_cons.mp hl with rfl | hl
    · exact hquoted "root" (by decide) _ (by simp)
    · obtain ⟨r, hr, rfl⟩ := List.mem_map.mp hl
      have hbase : r.base ∈ root :: rules.map Rule.base ++ indexNames :=
        List.mem_append_left _ (List.mem_cons_of_mem root (List.mem_map_of_mem hr))
      exact hquoted "lua" (by decide) _ (List.forall_mem_singleton.mpr hbase)
  · rw [List.mem_singleton.mp hl]
    exact hquoted "index" (by decide) _ fun a ha => List.mem_append_right _ ha

/-- Words that are written in pieces, with blanks between them and maybe before and after them, are the
words of the line. So a site file that writes a root, rules and index names between quotes, one
directive a line, gives exactly these back. -/
theorem quoted_values_read_back :
    (∀ (words : List (List Char × List Words.Piece)) (after : List Char),
      (∀ w ∈ words, Words.IsWritten w) → (∀ w ∈ words.tail, w.1 ≠ []) →
      (∀ c ∈ after, Blank.isAsciiBlank c = true) →
        Words.split (Words.writtenLine words ++ after) = words.map fun w => Words.spelled w.2) ∧
    ∀ (root : String) (rules : List Rule) (indexNames : List String), rules ≠ [] → indexNames ≠ [] →
      (∀ value ∈ root :: rules.map Rule.base ++ indexNames, '\n' ∉ value.toList) →
        load (write root rules indexNames) = .ok ⟨root, rules, indexNames, none⟩ := by
  constructor
  · intro words after hwritten hapart hafter
    exact Words.split_writtenLine hwritten hapart hafter
  · intro root rules indexNames hrules hindex hvalues
    exact load_write hrules hindex (not_mem_lines hvalues)

/-- A word of a bare piece that ends in a backslash and of a quoted one, and a word without characters;
and a root with a quote, a backslash and a carriage return at its end. -/
theorem quoted_values_read_back_at_glued_word :
    Words.split "a\\\"b \\\"c\"\t \"\"\r".toList = ["a\\b \"c".toList, []] ∧
      load "root \"# \\\"x\\\\\r\"\nlua \"\"\nlua \"/a b\"\nindex \"i\" \"\"\n" =
        .ok ⟨"# \"x\\\r", [⟨""⟩, ⟨"/a b"⟩], ["i", ""], none⟩ := by
  obtain ⟨hsplit, hload⟩ := quoted_values_read_back
  constructor
  · exact hsplit [([], [.bare "a\\".toList, .quoted "b \"c".toList]), (['\t', ' '], [.quoted []])] ['\r']
      (by simp [Words.IsWritten, Words.Piece.IsProper, Blank.isAsciiBlank]) (by simp)
      (List.forall_mem_singleton.mpr rfl)
  · exact hload "# \"x\\\r" [⟨""⟩, ⟨"/a b"⟩] ["i", ""] (by decide) (by decide) (by decide)

end SiteFile

end Site

end LuaPages
