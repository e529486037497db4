import LuaPages.Proofs.CommandLine.Arguments
import LuaPages.Proofs.CommandLine.Paths
import LuaPages.Proofs.Site.Confinement

namespace LuaPages.CommandLine

open Site (Touches touches_pure touches_look touches_read)

section
variable {m : Type → Type} [Monad m]

def SiteFileChoice.locate (files : FileAccess m) (e : Environment) : SiteFileChoice → m (Option String)
  | .search => findSiteFile files e
  | .skip => return none
  | .file path => return some path

def configAt (files : FileAccess m) : Option String → m (Except Bytes Site.Config)
  | none => return .ok .byDefault
  | some path => do
    match ← Site.SiteFile.loadFrom files path with
    | .ok c => return .ok c
    | .error err => return .error (path ++ ": " ++ err.message : String)

theorem loadConfig_eq (files : FileAccess m) (e : Environment) (choice : SiteFileChoice) :
    loadConfig files e choice = choice.locate files e >>= configAt files := by
  cases choice <;> rfl

end

section
variable (files : FileAccess Id) (e : Environment)

/-- The site file that is used: the one that is named, or the first of the searched ones that is there. -/
def SiteFileChoice.path? : SiteFileChoice → Option String
  | .search => e.candidates.find? fun path => (files.look path).isOk
  | .skip => none
  | .file path => some path

/-- The configuration that comes from a site file, or the one without a site file. -/
inductive Configured : Option String → Site.Config → Prop where
  | byDefault : Configured none .byDefault
  | ofFile {path text : String} {contents : Bytes} {c : Site.Config}
      (hread : files.read path = .ok contents) (htext : String.fromUTF8? contents = some text)
      (hload : Site.SiteFile.load text = .ok c) : Configured (some path) c

theorem firstPresent_eq (paths : List String) :
    (firstPresent files paths : Option String) = paths.find? fun path => (files.look path).isOk := by
  induction paths with
  | nil => rfl
  | cons path paths ih =>
    rw [List.find?_cons, ← ih, firstPresent, FileAccess.isPresent]
    rcases files.look path with err | kind <;> rfl

theorem locate_eq_path? (choice : SiteFileChoice) :
    (choice.locate files e : Option String) = choice.path? files e := by
  cases choice with
  | search => exact firstPresent_eq files e.candidates
  | skip => rfl
  | file path => rfl

theorem readText_eq (path : String) :
    (files.readText path : Except FileError String) =
      (files.read path : Except FileError Bytes).bind fun contents =>
        match String.fromUTF8? contents with
        | some text => .ok text
        | none => .error .notUtf8 := by
  rw [FileAccess.readText]
  rcases files.read path with err | contents <;> rfl

theorem loadFrom_eq (path : String) :
    (Site.SiteFile.loadFrom files path : Except Site.SiteFile.LoadError Site.Config) =
      ((files.readText path : Except FileError String).mapError .unreadable).bind fun text =>
        (Site.SiteFile.load text).mapError .malformed := by
  rw [Site.SiteFile.loadFrom]
  rcases files.readText path with err | text <;> rfl

theorem configured_of_loadFrom {path : String} {c : Site.Config}
    (h : Site.SiteFile.loadFrom files path = (.ok c : Except Site.SiteFile.LoadError Site.Config)) :
    Configured files (some path) c := by
  rw [loadFrom_eq, readText_eq] at h
  obtain ⟨text, htext, h⟩ := exists_of_bind_eq_ok h
  obtain ⟨contents, hread, htext⟩ := exists_of_bind_eq_ok (eq_ok_of_mapError htext)
  cases hdecoded : String.fromUTF8? contents with
  | none =>
    rw [hdecoded] at htext
    cases htext
  | some text' =>
    rw [hdecoded] at htext
    cases htext
    exact .ofFile hread hdecoded (eq_ok_of_mapError h)

theorem configured_iff (path : Option String) (c : Site.Config) :
    Configured files path c ↔ configAt files path = (.ok c : Except Bytes Site.Config) := by
  constructor
  · intro h
    cases h with
    | byDefault => rfl
    | @ofFile path text contents c hread htext hload =>
      have hloaded : Site.SiteFile.loadFrom files path =
          (.ok c : Except Site.SiteFile.LoadError Site.Config) := by
        rw [loadFrom_eq, readText_eq, hread, Except.bind, htext, Except.mapError, Except.bind, hload,
          Except.mapError]
      rw [configAt, hloaded]
      rfl
  · intro h
    cases path with
    | none =>
      cases h
      exact .byDefault
    | some path =>
      rw [configAt] at h
      cases hloaded : (Site.SiteFile.loadFrom files path :
          Except Site.SiteFile.LoadError Site.Config) with
      | error err =>
        rw [hloaded] at h
        cases h
      | ok c' =>
        rw [hloaded] at h
        cases h
        exact configured_of_loadFrom files hloaded

end

def SiteFileChoice.paths (e : Environment) : SiteFileChoice → List String
  | .search => e.candidates
  | .skip => []
  | .file path => [path]

section
variable (files : FileAccess Id) (e : Environment) {P : String → Prop}

theorem touches_isPresent {path : String} (h : P path) :
    Touches P (files.recorded.isPresent path) (files.isPresent path) := by
  rw [FileAccess.isPresent, FileAccess.isPresent]
  apply (touches_look files h).bind
  rcases files.look path with err | kind <;> exact touches_pure _

theorem touches_firstPresent {paths : List String} (h : ∀ path ∈ paths, P path) :
    Touches P (firstPresent files.recorded paths) (firstPresent files paths) := by
  induction paths with
  | nil => exact touches_pure _
  | cons path paths ih =>
    rw [firstPresent, firstPresent]
    apply (touches_isPresent files (h path List.mem_cons_self)).bind
    by_cases hpresent : files.isPresent path = true
    · rw [hpresent]
      exact touches_pure _
    · rw [if_neg hpresent, if_neg hpresent]
      exact ih fun p hp => h p (List.mem_cons_of_mem path hp)

theorem touches_loadFrom {path : String} (h : P path) :
    Touches P (Site.SiteFile.loadFrom files.recorded path) (Site.SiteFile.loadFrom files path) := by
  have htext : Touches P (files.recorded.readText path) (files.readText path) := by
    rw [FileAccess.readText, FileAccess.readText]
    apply (touches_read files h).bind
    rcases files.read path with err | contents
    · exact touches_pure _
    · dsimp only
      cases String.fromUTF8? contents <;> exact touches_pure _
  rw [Site.SiteFile.loadFrom, Site.SiteFile.loadFrom]
  apply htext.bind
  rcases files.readText path with err | text <;> exact touches_pure _

theorem mem_paths_of_path? {choice : SiteFileChoice} {path : String}
    (h : choice.path? files e = some path) : path ∈ choice.paths e := by
  cases choice with
  | search => exact List.mem_of_find?_eq_some h
  | skip => cases h
  | file path' =>
    cases h
    exact List.mem_cons_self

theorem touches_loadConfig (choice : SiteFileChoice) :
    Touches (· ∈ choice.paths e) (loadConfig files.recorded e choice) (loadConfig files e choice) := by
  rw [loadConfig_eq, loadConfig_eq]
  have hlocate : Touches (· ∈ choice.paths e) (choice.locate files.recorded e)
      (choice.locate files e) := by
    cases choice with
    | search => exact touches_firstPresent files fun path hpath => hpath
    | skip => exact touches_pure _
    | file path => exact touches_pure _
  apply hlocate.bind
  rw [locate_eq_path?]
  cases hpath : choice.path? files e with
  | none => exact touches_pure _
  | some path =>
    rw [configAt, configAt]
    apply (touches_loadFrom files (mem_paths_of_path? files e hpath)).bind
    rcases Site.SiteFile.loadFrom files path with err | c <;> exact touches_pure _

end

section
variable {m : Type → Type} [Monad m] {files : FileAccess m} {e : Environment} {args : List String}
  {stdin : m Bytes}

theorem run_of_rejected {err : UsageError} (h : Arguments.read args = .error err) :
    run files e args stdin = pure ⟨false, .empty, Ending.report err.message ++ usage⟩ := by
  rw [run, h]

def perform (files : FileAccess m) (c : Site.Config) (stdin : m Bytes) : Input → m Ending
  | .stdin => return renderDocument c.timeout (← stdin)
  | .paths paths => renderPaths files c paths (List.range paths.length)

theorem run_of_accepted {a : Arguments} (h : Arguments.read args = .ok a) :
    run files e args stdin = (do
      match ← loadConfig files e a.options.siteFile with
      | .error message => return .failed .empty message
      | .ok c => perform files (a.options.override c) stdin a.input) := by
  rw [run, h]
  rfl

end

/-- A run that comes to an ending and looks at nothing but the given paths on the way. It does not read
standard input, for it comes to the same whatever reading it would do. -/
def LooksOnlyAt (files : FileAccess Id) (e : Environment) (args paths : List String)
    (ending : Ending) : Prop :=
  ∀ stdin : StateM (List String) Bytes,
    Touches (· ∈ paths) (run files.recorded e args stdin) ending

section
variable (files : FileAccess Id) (e : Environment) {args : List String} (stdin : Bytes)

theorem looksOnlyAt_of_rejected {err : UsageError} (h : Arguments.read args = .error err) :
    LooksOnlyAt files e args [] (run files e args stdin : Id Ending) := by
  intro input
  rw [run_of_rejected h, run_of_rejected h]
  exact touches_pure _

theorem run_of_unconfigured {a : Arguments} (h : Arguments.read args = .ok a)
    (hnone : ¬ ∃ c, Configured files (a.options.siteFile.path? files e) c) :
    ∃ message, run files e args stdin = (.failed .empty message : Ending) ∧
      LooksOnlyAt files e args (a.options.siteFile.paths e) (.failed .empty message) := by
  cases hload : (loadConfig files e a.options.siteFile : Except Bytes Site.Config) with
  | ok c =>
    rw [loadConfig_eq, locate_eq_path?] at hload
    exact absurd ⟨c, (configured_iff files _ c).mpr hload⟩ hnone
  | error message =>
    refine ⟨message, ?_, ?_⟩
    · rw [run_of_accepted h, hload]
      rfl
    · -- the run is over before it comes to the input, whatever that is
      intro input
      have hloads := touches_loadConfig files e a.options.siteFile
      rw [hload] at hloads
      rw [run_of_accepted h]
      exact hloads.bind (g := fun _ => Ending.failed .empty message) (touches_pure _)

theorem run_of_configured {a : Arguments} (h : Arguments.read args = .ok a) {c : Site.Config}
    (hc : Configured files (a.options.siteFile.path? files e) c) :
    run files e args stdin =
      (perform files (a.options.override c) stdin a.input : Id Ending) := by
  rw [configured_iff, ← locate_eq_path?] at hc
  rw [run_of_accepted h, loadConfig_eq]
  change (match (configAt files (a.options.siteFile.locate files e) : Except Bytes Site.Config) with
    | .error message => _
    | .ok c => _) = _
  rw [hc]

end

theorem code_eq_zero_iff (e : Ending) : e.code = 0 ↔ e.succeeded = true := by
  rw [Ending.code]
  cases e.succeeded <;> decide

theorem renderDocument_of_done {doc : Bytes} (h : (Document.interpret doc .unlimited).error = none) :
    renderDocument none doc = ⟨true, (Document.interpret doc .unlimited).out.written, .empty⟩ := by
  simp only [renderDocument, h]

theorem renderDocument_of_error {doc : Bytes} {err : Document.Error}
    (h : (Document.interpret doc .unlimited).error = some err) :
    renderDocument none doc = .failed (Document.interpret doc .unlimited).out.written err.message := by
  simp only [renderDocument, h]

theorem renderDocument_none (doc : Bytes) :
    let d := Document.interpret doc .unlimited
    (renderDocument none doc).stdout = d.out.written ∧
      ((renderDocument none doc).succeeded = true ↔ d.error = none) := by
  intro d
  cases h : d.error with
  | none =>
    rw [renderDocument_of_done h]
    exact ⟨rfl, fun _ => rfl, fun _ => rfl⟩
  | some err =>
    rw [renderDocument_of_error h]
    exact ⟨rfl, Bool.noConfusion, fun hnone => absurd hnone (Option.some_ne_none err)⟩

/-- What comes of a run of the program when no deadline is in effect. Arguments that are rejected, and a
site file that cannot be read or has a bad line, make it fail with nothing on standard output. It has
then looked at no document, so that no script has been run. If no flag says which site file to use, it is
the first that is there of the one in the environment, the one in the working directory and the user's
own. The root and the timeout are those that the flags give last, if they are given, and all else is as
the site file says, or by default. A document from standard input comes out as far as it expands, and the
run succeeds if that is all of it. Request paths give the bodies of those that are rendered, and the run
succeeds if all are. -/
theorem run_by_arguments_and_site_file (files : FileAccess Id) (e : Environment) (args : List String)
    (stdin : Bytes) :
    let r : Ending := run files e args stdin
    let userDirectory := e.home.map fun home =>
      (e.configHome.filter Path.isAbsolute).getD (Path.join home ".config")
    let searched := e.siteFile.toList ++ ["luasp.conf"] ++
      (userDirectory.map fun d => Path.join (Path.join d "luasp") "luasp.conf").toList
    (r.code = 0 ∨ r.code = 1) ∧
    (∀ err, Arguments.read args = .error err →
      r.code = 1 ∧ r.stdout = .empty ∧ LooksOnlyAt files e args [] r) ∧
    ∀ a, Arguments.read args = .ok a →
      (∃ items tail, args = Item.flatten items tail ∧ a.Means items tail) ∧
      let siteFile :=
        match a.options.siteFile with
        | .search => searched.find? fun path => (files.look path).isOk
        | .skip => none
        | .file path => some path
      let lookedAt :=
        match a.options.siteFile with
        | .search => searched
        | .skip => []
        | .file path => [path]
      ((¬ ∃ c, Configured files siteFile c) →
        r.code = 1 ∧ r.stdout = .empty ∧ LooksOnlyAt files e args lookedAt r) ∧
      ∀ c, Configured files siteFile c →
        let effective : Site.Config :=
          { c with root := a.options.root.getD c.root, timeout := a.options.timeout.getD c.timeout }
        effective.timeout = none →
          (a.input = .stdin →
            let d := Document.interpret stdin .unlimited
            r.stdout = d.out.written ∧ (r.code = 0 ↔ d.error = none)) ∧
          ∀ paths, a.input = .paths paths →
            let answer (path : String) : Site.Answer := Site.serve files effective path
            r.stdout = Bytes.concat (paths.filterMap fun path => (answer path).body?) ∧
              (r.code = 0 ↔ ∀ path ∈ paths, ∃ body, answer path = .ok (.rendered body)) := by
  intro r userDirectory searched
  refine ⟨?_, ?_, ?_⟩
  · rw [Ending.code]
    cases r.succeeded <;> decide
  · intro err h
    have hr : r = ⟨false, .empty, Ending.report err.message ++ usage⟩ := run_of_rejected h
    refine ⟨?_, ?_, looksOnlyAt_of_rejected files e stdin h⟩
    · rw [hr]
      rfl
    · rw [hr]
  · intro a h
    refine ⟨Arguments.exists_items_of_read h, ?_⟩
    intro siteFile lookedAt
    have hsiteFile : siteFile = a.options.siteFile.path? files e := rfl
    have hlookedAt : lookedAt = a.options.siteFile.paths e := rfl
    rw [hsiteFile, hlookedAt]
    refine ⟨?_, ?_⟩
    · intro hnone
      obtain ⟨message, hr, hlooks⟩ := run_of_unconfigured files e stdin h hnone
      change r = _ at hr
      rw [hr]
      exact ⟨rfl, rfl, hlooks⟩
    · intro c hc effective htimeout
      have hr : r = perform files effective stdin a.input := run_of_configured files e stdin h hc
      rw [code_eq_zero_iff]
      refine ⟨?_, ?_⟩
      · intro hinput
        have hdocument : r = renderDocument none stdin := by
          rw [hr, hinput, ← htimeout]
          rfl
        rw [hdocument]
        exact renderDocument_none stdin
      · intro paths hinput answer
        -- the renders end in the order of the arguments here, which is one of those that they can end in
        have hanswered : r = .ofAnswers (paths.map fun path => (path, answer path)) := by
          rw [hr, hinput, List.map_prod_left_eq_zip]
          exact renderPaths_eq files effective (List.Perm.refl _)
        have hreports := Ending.reports_ofAnswers (paths.map fun path => (path, answer path))
        rw [← hanswered] at hreports
        refine ⟨?_, ?_⟩
        · rw [hreports.stdout, List.filterMap_map]
          rfl
        · rw [hreports.succeeded, List.forall_mem_map]

/-- The site file of the user is found, since the one that is asked for is missing and there is none in the
working directory. The flag takes its timeout back. -/
theorem run_by_arguments_and_site_file_of_user :
    let files := (((FileTree.ofWorking []).add "home/.config/luasp/luasp.conf"
      (some "root site\ntimeout 5".toUTF8)).add "site/a" (some "x".toUTF8)).access
    let e : Environment := ⟨some "own.conf", some ".", some "/home"⟩
    let r : Ending := run files e ["-t0", "/a"] .empty
    r.stdout = "x".toUTF8 ∧ r.code = 0 := by
  intro files e r
  have hread : Arguments.read ["-t0", "/a"] = .ok ⟨⟨.search, none, some none, false⟩, .paths ["/a"]⟩ := by
    decide +kernel
  have htext : String.fromUTF8? "root site\ntimeout 5".toUTF8 = some "root site\ntimeout 5" := by
    decide +kernel
  have hconfigured : Configured files (some "/home/.config/luasp/luasp.conf")
      ⟨"site", [.slash], Site.Config.indexNamesByDefault, some ⟨5000000000⟩⟩ :=
    .ofFile rfl htext (by decide +kernel)
  have hserved : (Site.serve files ⟨"site", [.slash], Site.Config.indexNamesByDefault, none⟩ "/a" :
      Site.Answer) = .ok (.rendered "x".toUTF8) := rfl
  have hfirst : SiteFileChoice.search.path? files e = some "/home/.config/luasp/luasp.conf" := by
    decide +kernel
  obtain ⟨-, -, haccepted⟩ := run_by_arguments_and_site_file files e ["-t0", "/a"] .empty
  obtain ⟨-, -, hruns⟩ := haccepted _ hread
  rw [← hfirst] at hconfigured
  obtain ⟨-, hpaths⟩ := hruns _ hconfigured rfl
  obtain ⟨hstdout, hcode⟩ := hpaths ["/a"] rfl
  simp only [List.filterMap_cons, Option.getD_none, Option.getD_some, hserved] at hstdout
  exact ⟨hstdout, hcode.mpr (List.forall_mem_singleton.mpr ⟨_, hserved⟩)⟩

end LuaPages.CommandLine
