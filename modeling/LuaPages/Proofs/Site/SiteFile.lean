import LuaPages.Proofs.Site.Serve
import LuaPages.Site.SiteFile

namespace LuaPages.Site

def Directive.rule? : Directive → Option Rule
  | .lua base => some ⟨base⟩
  | _ => none

namespace SiteFile

theorem foldl_apply_rules (directives : List Directive) (c : Config) :
    (directives.foldl apply c).rules = c.rules ++ directives.filterMap Directive.rule? := by
  induction directives generalizing c with
  | nil => rw [List.foldl_nil, List.filterMap_nil, List.append_nil]
  | cons d directives ih =>
    rw [List.foldl_cons, ih]
    cases d with
    | lua base => simp [apply, Directive.rule?, List.append_assoc]
    | root | index | timeout => rfl

theorem configure_rules (directives : List Directive) :
    (configure directives).rules =
      if directives.filterMap Directive.rule? = [] then [.slash]
      else directives.filterMap Directive.rule? := by
  have hrules := foldl_apply_rules directives { Config.byDefault with rules := [] }
  rw [List.nil_append] at hrules
  rw [configure, hrules]
  by_cases hnone : directives.filterMap Directive.rule? = []
  · simp [hnone, Config.byDefault]
  · simp [hnone, hrules]

/-- Each directive stands on a line. -/
theorem exists_line_of_readLines {n : Nat} {lines : List (List Char)} {directives : List Directive}
    (h : readLines n lines = .ok directives) :
    ∀ d ∈ directives, ∃ line ∈ lines, Directive.readLine line = .ok (some d) := by
  -- the number of the first line is left open, for it only goes into errors
  induction lines generalizing n directives with
  | nil =>
    cases h
    nofun
  | cons line lines ih =>
    have hlater {later : List Directive} (hread : readLines (n + 1) lines = .ok later) :
        ∀ d ∈ later, ∃ l ∈ line :: lines, Directive.readLine l = .ok (some d) := by
      intro d hd
      obtain ⟨l, hl, hdirective⟩ := ih hread d hd
      exact ⟨l, List.mem_cons_of_mem line hl, hdirective⟩
    rw [readLines] at h
    rcases hdirective : Directive.readLine line with e | (_ | first) <;> rw [hdirective] at h
    · cases h
    · exact hlater h
    · cases hread : readLines (n + 1) lines with
      | error e =>
        rw [hread] at h
        cases h
      | ok later =>
        rw [hread] at h
        cases h
        intro d hd
        rcases List.mem_cons.mp hd with rfl | hd
        · exact ⟨line, List.mem_cons_self, hdirective⟩
        · exact hlater hread d hd

def ruleOfLine? (line : List Char) : Option Rule :=
  match Directive.readLine line with
  | .ok (some d) => d.rule?
  | _ => none

def HasNoRule (text : String) : Prop :=
  ∀ line ∈ Parts.split '\n' text.toList, ruleOfLine? line = none

instance : DecidablePred HasNoRule := fun text =>
  inferInstanceAs (Decidable (∀ line ∈ Parts.split '\n' text.toList, ruleOfLine? line = none))

theorem load_rules_of_hasNoRule {text : String} {c : Config} (hload : load text = .ok c)
    (h : HasNoRule text) : c.rules = [.slash] := by
  rw [load] at hload
  cases hread : readLines 1 (Parts.split '\n' text.toList) with
  | error e =>
    rw [hread] at hload
    cases hload
  | ok directives =>
    rw [hread] at hload
    cases hload
    have hnone : directives.filterMap Directive.rule? = [] := by
      rw [List.filterMap_eq_nil_iff]
      intro d hd
      obtain ⟨line, hline, hdirective⟩ := exists_line_of_readLines hread d hd
      have hline := h line hline
      rwa [ruleOfLine?, hdirective] at hline
    rw [configure_rules, if_pos hnone]

end SiteFile

theorem Rule.covers_slash (request : String) : Rule.slash.covers request = Path.isAbsolute request := by
  rw [Rule.covers, Path.isAbsolute]
  change ['/'].isPrefixOf request.toList = _
  cases request.toList with
  | nil => rfl
  | cons ch r =>
    simp only [List.isPrefixOf, List.head?_cons, Option.some_beq_some, Bool.and_true]
    exact BEq.comm

/-- A site that is set up without a rule of its own takes exactly the requests that begin with a
slash. -/
theorem routed_iff_isAbsolute {c : Config}
    (h : c = Config.byDefault ∨ ∃ text, SiteFile.load text = .ok c ∧ SiteFile.HasNoRule text)
    (files : FileAccess Id) (request : String) :
    c.ruleFor request = (if Path.isAbsolute request then some .slash else none) ∧
      (serve files c request = .ok .pass ↔ Path.isAbsolute request = false) := by
  have hrules : c.rules = [.slash] := by
    rcases h with rfl | ⟨text, hload, hnone⟩
    · rfl
    · exact SiteFile.load_rules_of_hasNoRule hload hnone
  have hrule : c.ruleFor request = if Path.isAbsolute request then some .slash else none := by
    rw [Config.ruleFor, hrules, List.find?_singleton, Rule.covers_slash]
  refine ⟨hrule, ?_⟩
  rw [serve_eq_pass_iff, hrule]
  cases Path.isAbsolute request <;> decide

theorem routed_iff_isAbsolute_with_index :
    let text := "# pages\nindex home.html"
    let files := (FileTree.ofWorking []).access
    ∃ c, SiteFile.load text = .ok c ∧ SiteFile.HasNoRule text ∧
      c.ruleFor "/home.html" = some .slash ∧ serve files c "/home.html" ≠ .ok .pass := by
  have hload : SiteFile.load "# pages\nindex home.html" =
      .ok { Config.byDefault with indexNames := ["home.html"] } := rfl
  intro text files
  have hnone : SiteFile.HasNoRule text := by decide
  have habsolute : Path.isAbsolute "/home.html" = true := by decide
  obtain ⟨hrule, hserve⟩ := routed_iff_isAbsolute (.inr ⟨text, hload, hnone⟩) files "/home.html"
  rw [habsolute] at hrule hserve
  exact ⟨_, hload, hnone, hrule, fun hpass => Bool.noConfusion (hserve.mp hpass)⟩

/-- A request without a slash at its beginning is passed on although a site file has no `lua` line, and
although there is a file of that name. -/
theorem relative_request_is_passed_on :
    let files := ((FileTree.ofWorking []).add "index.html" (some "<?lua print(1) ?>".toUTF8)).access
    ∃ c, SiteFile.load "root ." = .ok c ∧ SiteFile.HasNoRule "root ." ∧
      c.ruleFor "index.html" = none ∧ serve files c "index.html" = .ok .pass := by
  intro files
  have hrule : Config.byDefault.ruleFor "index.html" = none := by decide
  exact ⟨Config.byDefault, rfl, by decide, hrule, serve_eq_pass_iff.mpr hrule⟩

end LuaPages.Site
