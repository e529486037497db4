import LuaPages.Files.Tree
import LuaPages.Proofs.Document.Deadline
import LuaPages.Proofs.Site.RequestPath
import LuaPages.Site.Serve

namespace LuaPages

namespace FileTree

def file? (t : FileTree) (path : String) : Option Bytes :=
  match t.find path with
  | .ok (.file b) => some b
  | _ => none

theorem file?_eq_some_iff (t : FileTree) (path : String) (b : Bytes) :
    t.file? path = some b ↔ t.find path = .ok (.file b) := by
  rw [file?]
  rcases t.find path with e | b' | entries <;> simp

theorem isFile_access (t : FileTree) (path : String) :
    t.access.isFile path = (t.file? path).isSome := by
  have hlook : t.access.look path = (t.find path).map FileNode.kind := rfl
  rw [FileAccess.isFile, hlook, file?]
  rcases t.find path with e | b | entries <;> rfl

end FileTree

namespace Site

theorem Config.ruleFor_eq_none_iff (c : Config) (request : String) :
    c.ruleFor request = none ↔ ¬ ∃ r ∈ c.rules, r.base.toList <+: request.toList := by
  rw [Config.ruleFor, List.find?_eq_none]
  simp only [Rule.covers, List.isPrefixOf_iff_prefix, not_exists, not_and]

theorem Config.exists_ruleFor {c : Config} {request : String}
    (h : ∃ r ∈ c.rules, r.base.toList <+: request.toList) : ∃ r, c.ruleFor request = some r := by
  apply Option.ne_none_iff_exists'.mp
  intro hnone
  exact (c.ruleFor_eq_none_iff request).mp hnone h

def Answer.ofResult (request : String) : Except Document.Error Bytes → Answer
  | .ok body => .ok (.rendered body)
  | .error e => .error (.render request e)

theorem render_none (request : String) (contents : Bytes) :
    render none request contents = Answer.ofResult request (Document.render contents) := by
  simp only [render, Document.renderWithin]
  cases Document.render contents <;> rfl

/-- With a deadline, the one other answer is that the render took too long. -/
theorem render_cases (timeout : Option Duration) (request : String) (contents : Bytes) :
    render timeout request contents = Answer.ofResult request (Document.render contents) ∨
      ∃ limit, timeout = some limit ∧
        render timeout request contents = .error (.overrun request limit) := by
  cases timeout with
  | none => exact .inl (render_none request contents)
  | some limit =>
    rcases Document.renderWithin_cases limit contents with h | h
    · refine .inr ⟨limit, rfl, ?_⟩
      rw [render, h]
    · refine .inl ?_
      rw [← render_none, render, render, h]

section
variable {files : FileAccess Id} {c : Config} {request path : String}

theorem firstIndex_eq_some {directory : String} {names : List String}
    (h : (firstIndex files directory names : Option String) = some path) :
    ∃ name ∈ names, path = Path.join directory name := by
  induction names with
  | nil => cases h
  | cons name names ih =>
    -- what the files say is named, for it is not a `Bool` until the setting is unfolded
    have hstep (found : Bool) (hfound : files.isFile (Path.join directory name) = found) :
        (firstIndex files directory (name :: names) : Option String) =
          if found then some (Path.join directory name) else firstIndex files directory names := by
      subst hfound
      rfl
    rw [hstep _ rfl] at h
    split at h
    · exact ⟨name, List.mem_cons_self, (Option.some.inj h).symm⟩
    · obtain ⟨n, hn, hpath⟩ := ih h
      exact ⟨n, List.mem_cons_of_mem name hn, hpath⟩

theorem locate_eq_some {rel : List String}
    (h : (locate files c request rel : Option String) = some path) :
    path = Path.join c.root (Path.ofNames rel) ∨
      ∃ name ∈ c.indexNames, path = Path.join (Path.join c.root (Path.ofNames rel)) name := by
  let document := Path.join c.root (Path.ofNames rel)
  have hlocate : (locate files c request rel : Option String) =
      match (files.look document : Except FileError FileKind) with
      | .ok .directory => firstIndex files document c.indexNames
      | .ok .file => some document
      | .error _ =>
        if Path.endsInSlash request then firstIndex files document c.indexNames
        else some document := rfl
  rw [hlocate] at h
  split at h
  · exact .inr (firstIndex_eq_some h)
  · exact .inl (Option.some.inj h).symm
  · split at h
    · exact .inr (firstIndex_eq_some h)
    · exact .inl (Option.some.inj h).symm

theorem serve_of_uncovered (h : ¬ ∃ r ∈ c.rules, r.base.toList <+: request.toList) :
    serve files c request = .ok .pass := by
  rw [← c.ruleFor_eq_none_iff] at h
  rw [serve, h]
  rfl

theorem serve_of_refused (h : ∃ r ∈ c.rules, r.base.toList <+: request.toList)
    (hrefused : '\\' ∈ request.toList ∨ '\x00' ∈ request.toList) :
    serve files c request = .ok .forbidden := by
  obtain ⟨r, hr⟩ := Config.exists_ruleFor h
  rw [serve, hr, (RequestPath.clean_eq_none_iff request).mpr hrefused]
  rfl

def Answer.ofLocated (files : FileAccess Id) (c : Config) (request : String) : Option String → Answer
  | none => .ok .notFound
  | some path =>
    match files.read path with
    | .ok contents => render c.timeout request contents
    | .error .missing => .ok .notFound
    | .error .denied => .ok .forbidden
    | .error e => .error (.unreadable request e)

theorem serve_of_clean (h : ∃ r ∈ c.rules, r.base.toList <+: request.toList) {rel : List String}
    (hclean : RequestPath.clean request = some rel) :
    serve files c request = Answer.ofLocated files c request (locate files c request rel) := by
  obtain ⟨r, hr⟩ := Config.exists_ruleFor h
  rw [serve, hr, hclean]
  rfl

theorem ofLocated_ne_pass (located : Option String) :
    Answer.ofLocated files c request located ≠ .ok .pass := by
  have hrender (contents : Bytes) : render c.timeout request contents ≠ .ok .pass := by
    rw [render]
    rcases Document.renderWithin c.timeout contents with (e | limit) | body <;> nofun
  cases located with
  | none => nofun
  | some path =>
    rw [Answer.ofLocated]
    rcases files.read path with (_ | _ | _ | _ | _ | _ | _ | _) | contents
    case ok => exact hrender contents
    all_goals nofun

theorem serve_eq_pass_iff :
    serve files c request = .ok .pass ↔ c.ruleFor request = none := by
  rw [c.ruleFor_eq_none_iff]
  refine ⟨?_, serve_of_uncovered⟩
  intro hpass hcovered
  cases hclean : RequestPath.clean request with
  | none =>
    rw [serve_of_refused hcovered ((RequestPath.clean_eq_none_iff request).mp hclean)] at hpass
    cases hpass
  | some rel =>
    rw [serve_of_clean hcovered hclean] at hpass
    exact ofLocated_ne_pass _ hpass

end

section
variable (t : FileTree) (c : Config) (request : String)

/-- The answer for a document that was looked for, and for its contents if it was found. -/
def Answer.ofContents : Option Bytes → Answer
  | none => .ok .notFound
  | some contents => render c.timeout request contents

theorem ofLocated_of_file {path : String} {contents : Bytes} (h : t.find path = .ok (.file contents)) :
    Answer.ofLocated t.access c request (some path) = render c.timeout request contents := by
  have hread : t.access.read path = .ok contents := by
    change (t.find path).bind FileNode.contents = _
    rw [h]
    rfl
  simp only [Answer.ofLocated, hread]

theorem ofLocated_of_missing {path : String} (h : t.find path = .error .missing) :
    Answer.ofLocated t.access c request (some path) = .ok .notFound := by
  have hread : t.access.read path = .error .missing := by
    change (t.find path).bind FileNode.contents = _
    rw [h]
    rfl
  simp only [Answer.ofLocated, hread]

theorem ofLocated_firstIndex (directory : String) (names : List String) :
    Answer.ofLocated t.access c request (firstIndex t.access directory names) =
      Answer.ofContents c request
        (names.findSome? fun name => t.file? (Path.join directory name)) := by
  induction names with
  | nil => rfl
  | cons name names ih =>
    have hstep : firstIndex t.access directory (name :: names) =
        if (t.file? (Path.join directory name)).isSome then some (Path.join directory name)
        else firstIndex t.access directory names := by
      rw [← FileTree.isFile_access]
      rfl
    rw [hstep, List.findSome?_cons]
    cases hfile : t.file? (Path.join directory name) with
    | none => exact ih
    | some contents =>
      -- the search stops at this name, so what it found is read
      rw [FileTree.file?_eq_some_iff] at hfile
      exact ofLocated_of_file t c request hfile

theorem locate_access (rel : List String) :
    let path := Path.join c.root (Path.ofNames rel)
    locate t.access c request rel =
      match t.find path with
      | .ok (.file _) => some path
      | .ok (.directory _) => firstIndex t.access path c.indexNames
      | .error _ =>
        if Path.endsInSlash request then firstIndex t.access path c.indexNames else some path := by
  intro path
  have hlook : t.access.look path = (t.find path).map FileNode.kind := rfl
  rw [locate, hlook]
  rcases t.find path with e | b | entries <;> rfl

variable {c request} in
theorem serve_of_file (hcovered : ∃ r ∈ c.rules, r.base.toList <+: request.toList) {rel : List String}
    (hclean : RequestPath.clean request = some rel) {contents : Bytes}
    (hfile : t.find (Path.join c.root (Path.ofNames rel)) = .ok (.file contents)) :
    serve t.access c request = render c.timeout request contents := by
  rw [serve_of_clean hcovered hclean, locate_access, hfile]
  exact ofLocated_of_file t c request hfile

end

/-- What a site on a tree of files answers. A request that no rule covers is passed on, and one with a
refused character is forbidden. For any other one it counts what is found at the place it leads to: a
file is rendered; in a directory, and at a missing place if the request ends in a slash, the first
index name that is a file there is rendered; the rest is not found. A file that is rendered gives the
body or the error of its document, and with a deadline there is one other answer. -/
theorem serve_from_tree (t : FileTree) (c : Config) (request : String) :
    let answer := serve t.access c request
    let covered := ∃ r ∈ c.rules, r.base.toList <+: request.toList
    let refused := '\\' ∈ request.toList ∨ '\x00' ∈ request.toList
    (¬ covered → answer = .ok .pass) ∧
    (covered → refused → answer = .ok .forbidden) ∧
    (covered → ¬ refused → ∃ rel, RequestPath.clean request = some rel ∧
      let path := Path.join c.root (Path.ofNames rel)
      let index := c.indexNames.findSome? fun name => t.file? (Path.join path name)
      (∀ contents, t.find path = .ok (.file contents) →
        answer = render c.timeout request contents) ∧
      (∀ entries, t.find path = .ok (.directory entries) →
        answer = Answer.ofContents c request index) ∧
      (t.find path = .error .missing →
        answer = if Path.endsInSlash request then Answer.ofContents c request index
          else .ok .notFound)) ∧
    ∀ contents, render c.timeout request contents =
        Answer.ofResult request (Document.render contents) ∨
      ∃ limit, c.timeout = some limit ∧
        render c.timeout request contents = .error (.overrun request limit) := by
  intro answer covered refused
  refine ⟨serve_of_uncovered, serve_of_refused, ?_, render_cases c.timeout request⟩
  intro hcovered hallowed
  obtain ⟨rel, hclean⟩ :=
    Option.ne_none_iff_exists'.mp (mt (RequestPath.clean_eq_none_iff request).mp hallowed)
  have hanswer : answer = Answer.ofLocated t.access c request (locate t.access c request rel) :=
    serve_of_clean hcovered hclean
  rw [locate_access] at hanswer
  refine ⟨rel, hclean, ?_, ?_, ?_⟩
  · intro contents hfile
    exact serve_of_file t hcovered hclean hfile
  · intro entries hdirectory
    rw [hanswer, hdirectory]
    exact ofLocated_firstIndex t c request _ c.indexNames
  · intro hmissing
    rw [hanswer, hmissing]
    -- a missing place counts as a directory if the request ends in a slash
    by_cases hslash : Path.endsInSlash request = true
    · simp only [hslash, if_true]
      exact ofLocated_firstIndex t c request _ c.indexNames
    · simp only [hslash, Bool.false_eq_true, if_false]
      exact ofLocated_of_missing t c request hmissing

end Site

end LuaPages
