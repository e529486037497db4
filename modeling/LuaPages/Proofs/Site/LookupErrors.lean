import LuaPages.Proofs.Files.Tree
import LuaPages.Proofs.Site.Coverage
/-!
What a site answers when the place that a request leads to cannot be looked up. The reason is reported
for a request that does not end in a slash. A slash makes any such place count as a directory, so that
the reason is lost, and the answer is that of a directory without index.
-/
namespace LuaPages.Site

section
variable {c : Config} {request : String}

theorem render_ne_notFound (timeout : Option Duration) (contents : Bytes) :
    render timeout request contents ≠ .ok .notFound := by
  intro h
  have hinterpreted := isInterpreted_render timeout request contents
  rw [h] at hinterpreted
  cases hinterpreted

theorem ofContents_eq_notFound_iff {index : Option Bytes} :
    Answer.ofContents c request index = .ok .notFound ↔ index = none := by
  cases index with
  | none => exact ⟨fun _ => rfl, fun _ => rfl⟩
  | some contents =>
    constructor
    · intro h
      exact absurd h (render_ne_notFound c.timeout contents)
    · intro h
      cases h

theorem ofContents_ne_unreadable {index : Option Bytes} {e : FileError} :
    Answer.ofContents c request index ≠ .error (.unreadable request e) := by
  intro h
  cases index with
  | none => cases h
  | some contents =>
    have hinterpreted := isInterpreted_render c.timeout request contents
    rw [Answer.ofContents] at h
    rw [h] at hinterpreted
    cases hinterpreted

variable {t : FileTree} {rel : List String} {place : String} {e : FileError}

theorem ofLocated_of_error (h : t.find place = .error e) (he : e ≠ .missing) :
    Answer.ofLocated t.access c request (some place) = .error (.unreadable request e) := by
  have hread : t.access.read place = .error e := by
    change (t.find place).bind FileNode.contents = _
    rw [h]
    rfl
  have hdenied : e ≠ .denied := by
    rintro rfl
    exact t.find_ne_denied place h
  rw [Answer.ofLocated, hread]
  cases e <;> first | rfl | contradiction

/-- There is no index where nothing can be looked up, as long as the index names are relative. -/
theorem findIndex_of_error (h : t.find place = .error e) (he : e ≠ .missing)
    (hrelative : ∀ name ∈ c.indexNames, Path.isAbsolute name = false) :
    (c.indexNames.findSome? fun name => t.file? (Path.join place name)) = none := by
  rw [List.findSome?_eq_none_iff]
  intro name hname
  obtain ⟨e', he'⟩ := t.find_join_of_error h he (hrelative name hname)
  rw [FileTree.file?, he']

section
variable (hcovered : ∃ r ∈ c.rules, r.base.toList <+: request.toList)
  (hclean : RequestPath.clean request = some rel)
include hcovered hclean

theorem serve_of_directory {entries : List (String × FileNode)}
    (h : t.find (Path.join c.root (Path.ofNames rel)) = .ok (.directory entries)) :
    serve t.access c request = Answer.ofContents c request (c.indexNames.findSome? fun name =>
      t.file? (Path.join (Path.join c.root (Path.ofNames rel)) name)) := by
  rw [serve_of_clean hcovered hclean, locate_access, h]
  exact ofLocated_firstIndex t c request _ c.indexNames

theorem serve_of_error_slash (h : t.find (Path.join c.root (Path.ofNames rel)) = .error e)
    (hslash : Path.endsInSlash request = true) :
    serve t.access c request = Answer.ofContents c request (c.indexNames.findSome? fun name =>
      t.file? (Path.join (Path.join c.root (Path.ofNames rel)) name)) := by
  rw [serve_of_clean hcovered hclean, locate_access, h]
  simp only [hslash, if_true]
  exact ofLocated_firstIndex t c request _ c.indexNames

theorem serve_of_error_plain (h : t.find (Path.join c.root (Path.ofNames rel)) = .error e)
    (hplain : Path.endsInSlash request = false) :
    serve t.access c request =
      Answer.ofLocated t.access c request (some (Path.join c.root (Path.ofNames rel))) := by
  rw [serve_of_clean hcovered hclean, locate_access, h]
  simp only [hplain, Bool.false_eq_true, if_false]

end

end

/-- What a failed lookup leads to, for a request that a rule covers and that leads somewhere. A place that
cannot be looked up, and is not merely missing, is reported with the reason exactly if the request does
not end in a slash. Otherwise an index is looked for there, and if the index names are relative, there is
none. A request that does not end in a slash is not found exactly if its place is missing or is a
directory without index, and one that does exactly if its place is no file and has no index. -/
theorem failed_lookup_reported_iff (t : FileTree) (c : Config) (request : String) (rel : List String)
    (hcovered : ∃ r ∈ c.rules, r.base.toList <+: request.toList)
    (hclean : RequestPath.clean request = some rel) :
    let place := Path.join c.root (Path.ofNames rel)
    let index := c.indexNames.findSome? fun name => t.file? (Path.join place name)
    let answer := serve t.access c request
    (∀ e, t.find place = .error e → e ≠ .missing →
      (answer = .error (.unreadable request e) ↔ Path.endsInSlash request = false) ∧
      (Path.endsInSlash request = true → answer = Answer.ofContents c request index) ∧
      ((∀ name ∈ c.indexNames, Path.isAbsolute name = false) → index = none)) ∧
    (Path.endsInSlash request = false → (answer = .ok .notFound ↔
      t.find place = .error .missing ∨
        (∃ entries, t.find place = .ok (.directory entries)) ∧ index = none)) ∧
    (Path.endsInSlash request = true → (answer = .ok .notFound ↔
      (∀ contents, t.find place ≠ .ok (.file contents)) ∧ index = none)) := by
  intro place index answer
  have hslash {e : FileError} (h : t.find place = .error e) (hs : Path.endsInSlash request = true) :
      answer = Answer.ofContents c request index := serve_of_error_slash hcovered hclean h hs
  have hplain {e : FileError} (h : t.find place = .error e) (hs : Path.endsInSlash request = false) :
      answer = Answer.ofLocated t.access c request (some place) :=
    serve_of_error_plain hcovered hclean h hs
  have hdirectory {entries : List (String × FileNode)} (h : t.find place = .ok (.directory entries)) :
      answer = Answer.ofContents c request index := serve_of_directory hcovered hclean h
  have hfile {contents : Bytes} (h : t.find place = .ok (.file contents)) :
      answer ≠ .ok .notFound := by
    have hserve : answer = render c.timeout request contents := serve_of_file t hcovered hclean h
    rw [hserve]
    exact render_ne_notFound c.timeout contents
  -- what is at the place decides, and where nothing can be found there, a slash at the end of the request
  refine ⟨?_, ?_, ?_⟩
  · intro e h he
    refine ⟨⟨?_, ?_⟩, hslash h, findIndex_of_error h he⟩
    · intro hreported
      rw [← Bool.not_eq_true]
      intro hs
      exact ofContents_ne_unreadable ((hslash h hs).symm.trans hreported)
    · intro hs
      exact (hplain h hs).trans (ofLocated_of_error h he)
  · intro hs
    rcases h : t.find place with e | contents | entries
    · by_cases he : e = .missing
      · subst he
        simp [(hplain h hs).trans (ofLocated_of_missing t c request h)]
      · simp [(hplain h hs).trans (ofLocated_of_error h he), he]
    · simp [hfile h]
    · simpa [hdirectory h] using ofContents_eq_notFound_iff
  · intro hs
    rcases h : t.find place with e | contents | entries
    · simpa [hslash h hs] using ofContents_eq_notFound_iff
    · simp [hfile h]
    · simpa [hdirectory h] using ofContents_eq_notFound_iff

/-- A file on the way is reported for a request without a slash at the end. -/
theorem failed_lookup_reported_iff_below_file :
    let t := (FileTree.ofWorking []).add "page.html" (some "text".toUTF8)
    let c := Config.byDefault
    let request := "/page.html/x"
    (∃ r ∈ c.rules, r.base.toList <+: request.toList) ∧
      RequestPath.clean request = some ["page.html", "x"] ∧
      t.find (Path.join c.root (Path.ofNames ["page.html", "x"])) = .error .notDirectory ∧
      serve t.access c request = .error (.unreadable request .notDirectory) := by
  have hfind (contents : Bytes) :
      ((FileTree.ofWorking []).add "page.html" (some contents)).find
        (Path.join "." (Path.ofNames ["page.html", "x"])) = .error .notDirectory := rfl
  intro t c request
  have hcovered : ∃ r ∈ c.rules, r.base.toList <+: request.toList :=
    ⟨⟨"/"⟩, List.mem_cons_self, by decide⟩
  have hclean : RequestPath.clean request = some ["page.html", "x"] := by decide
  obtain ⟨hfailed, -, -⟩ := failed_lookup_reported_iff t c request _ hcovered hclean
  obtain ⟨hreported, -, -⟩ := hfailed .notDirectory (hfind _) (by decide)
  exact ⟨hcovered, hclean, hfind _, hreported.mpr (by decide)⟩

/-- With a slash at the end the same place is not found, and the reason is lost. -/
theorem failed_lookup_lost_below_file :
    let t := (FileTree.ofWorking []).add "page.html" (some "text".toUTF8)
    let c := Config.byDefault
    let request := "/page.html/x/"
    (∃ r ∈ c.rules, r.base.toList <+: request.toList) ∧
      RequestPath.clean request = some ["page.html", "x"] ∧
      t.find (Path.join c.root (Path.ofNames ["page.html", "x"])) = .error .notDirectory ∧
      serve t.access c request = .ok .notFound ∧
      serve t.access c request ≠ .error (.unreadable request .notDirectory) := by
  have hfind (contents : Bytes) :
      ((FileTree.ofWorking []).add "page.html" (some contents)).find
        (Path.join "." (Path.ofNames ["page.html", "x"])) = .error .notDirectory := rfl
  intro t c request
  have hcovered : ∃ r ∈ c.rules, r.base.toList <+: request.toList :=
    ⟨⟨"/"⟩, List.mem_cons_self, by decide⟩
  have hclean : RequestPath.clean request = some ["page.html", "x"] := by decide
  have hanswer : serve t.access c request = .ok .notFound := by
    rw [serve_of_error_slash hcovered hclean (hfind _) (by decide), ofContents_eq_notFound_iff]
    exact findIndex_of_error (hfind _) (by decide) (by decide)
  refine ⟨hcovered, hclean, hfind _, hanswer, ?_⟩
  rw [hanswer]
  intro h
  cases h

end LuaPages.Site
