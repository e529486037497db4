import LuaPages.Proofs.Files.Path
import LuaPages.Proofs.Site.Serve

namespace LuaPages

/-- Ways to files that write down, in order, the paths that are looked up or read. -/
def FileAccess.recorded (files : FileAccess Id) : FileAccess (StateM (List String)) where
  look path := do
    modify (· ++ [path])
    return files.look path
  read path := do
    modify (· ++ [path])
    return files.read path

namespace Site

/-- An action gives `a` and writes down only paths that satisfy `P`. -/
def Touches {α : Type} (P : String → Prop) (action : StateM (List String) α) (a : α) : Prop :=
  ∀ before, ∃ touched, action.run before = (a, before ++ touched) ∧ ∀ path ∈ touched, P path

section
variable {α β : Type} {P : String → Prop}

theorem touches_pure (a : α) : Touches P (pure a) a := by
  intro before
  refine ⟨[], ?_, fun path hpath => absurd hpath List.not_mem_nil⟩
  rw [List.append_nil]
  rfl

theorem Touches.bind {x : StateM (List String) α} {f : α → StateM (List String) β} {a : Id α}
    {g : α → Id β} (hx : Touches P x a) (hf : Touches P (f a) (g a)) :
    Touches P (x >>= f) (a >>= g) := by
  intro before
  obtain ⟨touched, hrun, htouched⟩ := hx before
  obtain ⟨touched', hrun', htouched'⟩ := hf (before ++ touched)
  refine ⟨touched ++ touched', ?_, ?_⟩
  · rw [StateT.run_bind, hrun, ← List.append_assoc]
    exact hrun'
  · intro path hpath
    rcases List.mem_append.mp hpath with hpath | hpath
    · exact htouched path hpath
    · exact htouched' path hpath

variable (files : FileAccess Id)

theorem touches_look {path : String} (h : P path) :
    Touches P (files.recorded.look path) (files.look path) := by
  intro before
  refine ⟨[path], rfl, ?_⟩
  intro p hp
  rwa [List.mem_singleton.mp hp]

theorem touches_read {path : String} (h : P path) :
    Touches P (files.recorded.read path) (files.read path) := by
  intro before
  refine ⟨[path], rfl, ?_⟩
  intro p hp
  rwa [List.mem_singleton.mp hp]

theorem touches_isFile {path : String} (h : P path) :
    Touches P (files.recorded.isFile path) (files.isFile path) := by
  rw [FileAccess.isFile, FileAccess.isFile]
  apply (touches_look files h).bind
  rcases files.look path with e | _ | _ <;> exact touches_pure _

theorem touches_firstIndex {directory : String} {names : List String}
    (h : ∀ name ∈ names, P (Path.join directory name)) :
    Touches P (firstIndex files.recorded directory names) (firstIndex files directory names) := by
  induction names with
  | nil => exact touches_pure _
  | cons name names ih =>
    rw [firstIndex, firstIndex]
    apply (touches_isFile files (h name List.mem_cons_self)).bind
    by_cases hfile : files.isFile (Path.join directory name) = true
    · rw [hfile]
      exact touches_pure _
    · rw [if_neg hfile, if_neg hfile]
      exact ih fun n hn => h n (List.mem_cons_of_mem name hn)

variable {c : Config} {request : String} {rel : List String}

theorem touches_locate (hdocument : P (Path.join c.root (Path.ofNames rel)))
    (hindex : ∀ name ∈ c.indexNames, P (Path.join (Path.join c.root (Path.ofNames rel)) name)) :
    Touches P (locate files.recorded c request rel) (locate files c request rel) := by
  rw [locate, locate]
  apply (touches_look files hdocument).bind
  rcases files.look (Path.join c.root (Path.ofNames rel)) with e | _ | _
  · dsimp only
    by_cases hslash : Path.endsInSlash request = true
    · rw [if_pos hslash, if_pos hslash]
      exact touches_firstIndex files hindex
    · rw [if_neg hslash, if_neg hslash]
      exact touches_pure _
  · exact touches_pure _
  · exact touches_firstIndex files hindex

theorem touches_serve
    (hdocument : ∀ rel, RequestPath.clean request = some rel → P (Path.join c.root (Path.ofNames rel)))
    (hindex : ∀ rel, RequestPath.clean request = some rel →
      ∀ name ∈ c.indexNames, P (Path.join (Path.join c.root (Path.ofNames rel)) name)) :
    Touches P (serve files.recorded c request) (serve files c request) := by
  rw [serve, serve]
  cases c.ruleFor request with
  | none => exact touches_pure _
  | some r =>
    cases hclean : RequestPath.clean request with
    | none => exact touches_pure _
    | some rel =>
      apply (touches_locate files (hdocument rel hclean) (hindex rel hclean)).bind
      -- what is located is read, so it has to be one of the paths that are looked up
      cases hlocate : locate files c request rel with
      | none => exact touches_pure _
      | some path =>
        have hpath : P path := by
          rcases locate_eq_some hlocate with rfl | ⟨name, hname, rfl⟩
          · exact hdocument rel hclean
          · exact hindex rel hclean name hname
        apply (touches_read files hpath).bind
        rcases files.read path with (_ | _ | _ | _ | _ | _ | _ | _) | contents <;> exact touches_pure _

end

/-- Whatever a request path looks like, the paths that are looked up or read to serve it are the place
of a document and index names joined to it. The place is made of the root and of names that each lead
one step down from it. -/
theorem serve_touches_inside_root (files : FileAccess Id) (c : Config) (request : String) :
    let r := (serve files.recorded c request).run []
    r.1 = serve files c request ∧
      ∀ path ∈ r.2, ∃ rel, RequestPath.clean request = some rel ∧
        (∀ name ∈ rel, name ≠ "" ∧ name ≠ "." ∧ name ≠ ".." ∧
          ∀ ch ∈ name.toList, ch ≠ '/' ∧ ch ≠ '\\' ∧ ch ≠ '\x00') ∧
        let place := Path.join c.root (Path.ofNames rel)
        (path = place ∨ ∃ name ∈ c.indexNames, path = Path.join place name) ∧
        Path.names place = Path.names c.root ++ rel ∧
        Path.isAbsolute place = Path.isAbsolute c.root := by
  intro r
  have htouches : Touches (fun path => ∃ rel, RequestPath.clean request = some rel ∧
      (path = Path.join c.root (Path.ofNames rel) ∨
        ∃ name ∈ c.indexNames, path = Path.join (Path.join c.root (Path.ofNames rel)) name))
      (serve files.recorded c request) (serve files c request) := by
    apply touches_serve
    · intro rel hclean
      exact ⟨rel, hclean, .inl rfl⟩
    · intro rel hclean name hname
      exact ⟨rel, hclean, .inr ⟨name, hname, rfl⟩⟩
  obtain ⟨touched, hrun, htouched⟩ := htouches []
  have hr : r = (serve files c request, touched) := hrun
  rw [hr]
  refine ⟨rfl, ?_⟩
  intro path hpath
  obtain ⟨rel, hclean, hplace⟩ := htouched path hpath
  have hnames := RequestPath.clean_names hclean
  -- names without a slash are steps of their own in the place
  have hsteps : ∀ n ∈ rel, n ≠ "" ∧ '/' ∉ n.toList := by
    intro n hn
    obtain ⟨hne, -, -, hchars⟩ := hnames n hn
    exact ⟨hne, fun hslash => (hchars '/' hslash).1 rfl⟩
  have hrelative := Path.isAbsolute_ofNames hsteps
  refine ⟨rel, hclean, hnames, hplace, ?_, ?_⟩
  · rw [Path.names_join _ _ hrelative, Path.names_ofNames hsteps]
  · exact Path.isAbsolute_join _ _ hrelative

end Site

end LuaPages
