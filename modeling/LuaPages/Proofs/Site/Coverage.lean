import LuaPages.Proofs.Files.Path
import LuaPages.Proofs.Site.Serve
/-!
Which documents the rules of a site let through. Rules look at a request as it is written, and documents
are looked for where the request leads to: a document outside of the base paths is rendered only for a
request that climbs out of a base path by `..`.
-/
namespace LuaPages.Site

/-- A base path that is `/`, or `/` and names. -/
def Rule.IsNormal (r : Rule) : Prop :=
  ∃ names, r.base = "/" ++ Path.ofNames names ∧
    ∀ n ∈ names, n ≠ "" ∧ n ≠ "." ∧ n ≠ ".." ∧ '/' ∉ n.toList

/-- The parts of a request after the part in which the base path ends. That part may go on behind the
base path, as in `/luax` for the base path `/lua`; the rest of it is not among these. -/
def Rule.partsBelow (r : Rule) (request : String) : List (List Char) :=
  (Parts.split '/' (request.toList.drop r.base.toList.length)).tail

def RequestPath.cleaned (request : String) (rel : List String) : String :=
  "/" ++ Path.ofNames rel ++ if Path.endsInSlash request && !rel.isEmpty then "/" else ""

def Answer.isInterpreted : Answer → Bool
  | .ok (.rendered _) | .error (.render _ _) | .error (.overrun _ _) => true
  | _ => false

section
open RequestPath

theorem RequestPath.resolve_below {names rest out : List (List Char)} {last more : List Char}
    (h : resolve [] (names ++ (last ++ more) :: rest) = some out)
    (hnames : ∀ n ∈ names ++ [last], IsName n) (hinside : StaysInside rest) :
    ∃ below, out = names ++ (last ++ more) :: below := by
  rw [List.append_cons, resolve_append, Option.bind_eq_some_iff] at h
  obtain ⟨place, hplace, hrest⟩ := h
  have hall : ∀ n ∈ names ++ [last ++ more], IsName n := by
    intro n hn
    rcases List.mem_append.mp hn with hn | hn
    · exact hnames n (List.mem_append_left [last] hn)
    · rw [List.mem_singleton.mp hn]
      exact (hnames last (List.mem_append_right names List.mem_cons_self)).append more
  -- the names of the base path are all still there when the rest begins
  have hbase : place = (names ++ [last ++ more]) ++ [] := by
    rw [resolve_of_isName hplace hall, List.nil_append, List.append_nil]
  rw [hbase] at hrest
  obtain ⟨below, hbelow⟩ := resolve_keeps hrest fun k => by
    rw [List.length_nil, Nat.zero_add]
    exact hinside k
  refine ⟨below, ?_⟩
  rw [hbelow, List.append_assoc]
  rfl

theorem RequestPath.split_base_append {names rest : List (List Char)} {last more tail : List Char}
    (hnames : ∀ n ∈ names ++ [last], '/' ∉ n) (htail : Parts.split '/' tail = more :: rest) :
    Parts.split '/' ('/' :: ['/'].intercalate (names ++ [last]) ++ tail) =
      [] :: (names ++ (last ++ more) :: rest) := by
  have hmid : ∀ n ∈ names, '/' ∉ n := fun n hn => hnames n (List.mem_append_left [last] hn)
  have hlast : '/' ∉ last := hnames last (List.mem_append_right names List.mem_cons_self)
  calc Parts.split '/' ('/' :: ['/'].intercalate (names ++ [last]) ++ tail)
      = [] :: Parts.split '/' (['/'].intercalate (names ++ [last]) ++ tail) :=
        Parts.split_append '/' [] _
    _ = [] :: (names ++ Parts.split '/' (last ++ tail)) := by
        rw [Parts.split_intercalate_append names last tail hmid]
    -- the last name of the base path goes on as far as the next slash
    _ = [] :: (names ++ (last ++ more) :: rest) := by
        rw [Parts.split_append_of_not_mem hlast htail]

theorem RequestPath.prefix_cleaned {request : String} {rel : List String} {base : List Char}
    (h : base <+: '/' :: (Path.ofNames rel).toList) : base <+: (cleaned request rel).toList := by
  have hcleaned : (cleaned request rel).toList = '/' :: (Path.ofNames rel).toList ++
      (if Path.endsInSlash request && !rel.isEmpty then "/" else "").toList := by
    rw [cleaned, String.toList_append, String.toList_append]
    rfl
  rw [hcleaned]
  exact h.trans (List.prefix_append _ _)

variable {r : Rule} {request : String} {rel : List String}

theorem Rule.IsNormal.base_cases (h : r.IsNormal) :
    r.base = "/" ∨ ∃ names last, r.base.toList = '/' :: ['/'].intercalate (names ++ [last]) ∧
      ∀ n ∈ names ++ [last], IsName n ∧ '/' ∉ n := by
  obtain ⟨names, hbase, hnames⟩ := h
  by_cases hnil : names = []
  · rw [hnil] at hbase
    exact .inl hbase
  obtain ⟨init, last, hinit⟩ : ∃ init last, names.map String.toList = init ++ [last] :=
    ⟨_, _, (List.dropLast_concat_getLast (mt List.map_eq_nil_iff.mp hnil)).symm⟩
  refine .inr ⟨init, last, ?_, ?_⟩
  · rw [← hinit, ← Path.toList_ofNames, hbase, String.toList_append]
    rfl
  · intro l hl
    rw [← hinit] at hl
    obtain ⟨n, hn, rfl⟩ := List.mem_map.mp hl
    obtain ⟨hempty, hdot, hup, hslash⟩ := hnames n hn
    have heq (s : String) : n.toList = s.toList → n = s := String.toList_inj.mp
    exact ⟨⟨mt (heq "") hempty, mt (heq ".") hdot, mt (heq "..") hup⟩, hslash⟩

theorem Rule.prefix_cleaned_of_normal (hnormal : r.IsNormal)
    (hcovers : r.base.toList <+: request.toList) (hclean : clean request = some rel)
    (hinside : r.base = "/" ∨ StaysInside (r.partsBelow request)) :
    r.base.toList <+: (cleaned request rel).toList := by
  apply prefix_cleaned
  by_cases hslash : r.base = "/"
  · rw [hslash]
    exact List.prefix_append ['/'] _
  obtain ⟨names, last, hbase, hnames⟩ := hnormal.base_cases.resolve_left hslash
  obtain ⟨tail, htail⟩ := hcovers
  obtain ⟨more, rest, hparts⟩ := List.exists_cons_of_ne_nil (Parts.split_ne_nil '/' tail)
  have hrest : StaysInside rest := by
    have h := hinside.resolve_left hslash
    rwa [Rule.partsBelow, ← htail, List.drop_left, hparts, List.tail_cons] at h
  rw [clean_eq, Option.map_eq_some_iff] at hclean
  obtain ⟨out, hout, rfl⟩ := hclean
  rw [← htail, hbase, split_base_append (fun n hn => (hnames n hn).2) hparts] at hout
  -- the empty part before the first slash does nothing
  change resolve [] (names ++ (last ++ more) :: rest) = some out at hout
  obtain ⟨below, rfl⟩ := resolve_below hout (fun n hn => (hnames n hn).1) hrest
  have hplace : (Path.ofNames ((names ++ (last ++ more) :: below).map String.ofList)).toList =
      ['/'].intercalate (names ++ (last ++ more) :: below) := by
    rw [Path.toList_ofNames, List.map_map]
    simp only [Function.comp_def, String.toList_ofList, List.map_id']
  rw [hbase, hplace, List.prefix_cons_inj]
  exact Parts.intercalate_prefix names last more below

end

theorem isInterpreted_render (timeout : Option Duration) (request : String) (contents : Bytes) :
    (render timeout request contents).isInterpreted = true := by
  rw [render]
  rcases Document.renderWithin timeout contents with (e | limit) | body <;> rfl

theorem read_of_isInterpreted {files : FileAccess Id} {c : Config} {request : String}
    {located : Option String} (h : (Answer.ofLocated files c request located).isInterpreted = true) :
    ∃ path contents, located = some path ∧ files.read path = .ok contents ∧
      Answer.ofLocated files c request located = render c.timeout request contents := by
  cases located with
  | none => cases h
  | some path =>
    rw [Answer.ofLocated] at h ⊢
    rcases hread : files.read path with (_ | _ | _ | _ | _ | _ | _ | _) | contents <;> rw [hread] at h
    case ok => exact ⟨path, contents, rfl, hread, rfl⟩
    all_goals cases h

/-- Every document that is run to answer a request is at the place that the request leads to, or is
found under an index name there, and the request begins with a base path. If all base paths are `/` or
made of names, each one that the request begins with is also what the place begins with, as long as the
parts after the one in which the base path ends never lead up more often than down. -/
theorem interpreted_under_base (files : FileAccess Id) (c : Config) (request : String)
    (hnormal : ∀ r ∈ c.rules, r.IsNormal)
    (h : Answer.isInterpreted (serve files c request) = true) :
    ∃ rel path contents, RequestPath.clean request = some rel ∧
      (let document := Path.join c.root (Path.ofNames rel)
       path = document ∨ ∃ name ∈ c.indexNames, path = Path.join document name) ∧
      files.read path = .ok contents ∧
      serve files c request = render c.timeout request contents ∧
      (∃ r ∈ c.rules, r.base.toList <+: request.toList) ∧
      ∀ r ∈ c.rules, r.base.toList <+: request.toList →
        r.base = "/" ∨ RequestPath.StaysInside (r.partsBelow request) →
        r.base.toList <+: (RequestPath.cleaned request rel).toList := by
  by_cases hcovered : ∃ r ∈ c.rules, r.base.toList <+: request.toList
  case neg =>
    rw [serve_of_uncovered hcovered] at h
    cases h
  cases hclean : RequestPath.clean request with
  | none =>
    rw [serve_of_refused hcovered ((RequestPath.clean_eq_none_iff request).mp hclean)] at h
    cases h
  | some rel =>
    rw [serve_of_clean hcovered hclean] at h ⊢
    obtain ⟨path, contents, hlocate, hread, hanswer⟩ := read_of_isInterpreted h
    refine ⟨rel, path, contents, rfl, locate_eq_some hlocate, hread, hanswer, hcovered, ?_⟩
    intro r hr hcovers hinside
    exact Rule.prefix_cleaned_of_normal (hnormal r hr) hcovers hclean hinside

theorem interpreted_under_base_after_detour :
    let contents := "<?lua print(1) ?>".toUTF8
    let t := (FileTree.ofWorking []).add "lua/a.html" (some contents)
    let c : Config := { Config.byDefault with rules := [⟨"/lua"⟩] }
    let request := "/lua/x/../a.html"
    (∀ r ∈ c.rules, r.IsNormal) ∧ Answer.isInterpreted (serve t.access c request) = true ∧
      RequestPath.StaysInside (Rule.partsBelow ⟨"/lua"⟩ request) ∧
      ∃ rel, RequestPath.clean request = some rel ∧
        "/lua".toList <+: (RequestPath.cleaned request rel).toList := by
  have hfile (contents : Bytes) :
      ((FileTree.ofWorking []).add "lua/a.html" (some contents)).find
        (Path.join "." (Path.ofNames ["lua", "a.html"])) = .ok (.file contents) := rfl
  intro contents t c request
  have hnormal : ∀ r ∈ c.rules, r.IsNormal := List.forall_mem_singleton.mpr ⟨["lua"], rfl, by decide⟩
  have hcovers : "/lua".toList <+: request.toList := by decide
  have hinterpreted : Answer.isInterpreted (serve t.access c request) = true := by
    have hclean : RequestPath.clean request = some ["lua", "a.html"] := by decide
    have hserve : serve t.access c request = render none request contents :=
      serve_of_file t ⟨⟨"/lua"⟩, List.mem_cons_self, hcovers⟩ hclean (hfile contents)
    rw [hserve]
    exact isInterpreted_render none request contents
  have hinside : RequestPath.StaysInside (Rule.partsBelow ⟨"/lua"⟩ request) := by decide
  obtain ⟨rel, -, -, hclean, -, -, -, -, hprefix⟩ :=
    interpreted_under_base t.access c request hnormal hinterpreted
  exact ⟨hnormal, hinterpreted, hinside, rel, hclean,
    hprefix ⟨"/lua"⟩ List.mem_cons_self hcovers (.inr hinside)⟩

/-- A request that climbs out of the base path it begins with runs a document that is under none. -/
theorem interpreted_outside_base :
    let contents := "<?lua print(1) ?>".toUTF8
    let t := (FileTree.ofWorking []).add "secret.html" (some contents)
    let c : Config := { Config.byDefault with rules := [⟨"/lua"⟩] }
    let request := "/lua/../secret.html"
    (∀ r ∈ c.rules, r.IsNormal) ∧ Answer.isInterpreted (serve t.access c request) = true ∧
      serve t.access c request = render none request contents ∧
      RequestPath.clean request = some ["secret.html"] ∧
      ¬ ∃ r ∈ c.rules, r.base.toList <+: (RequestPath.cleaned request ["secret.html"]).toList := by
  have hfile (contents : Bytes) :
      ((FileTree.ofWorking []).add "secret.html" (some contents)).find
        (Path.join "." (Path.ofNames ["secret.html"])) = .ok (.file contents) := rfl
  intro contents t c request
  have hclean : RequestPath.clean request = some ["secret.html"] := by decide
  have hserve : serve t.access c request = render none request contents :=
    serve_of_file t ⟨⟨"/lua"⟩, List.mem_cons_self, by decide⟩ hclean (hfile contents)
  refine ⟨List.forall_mem_singleton.mpr ⟨["lua"], rfl, by decide⟩, ?_, hserve, hclean, by decide⟩
  rw [hserve]
  exact isInterpreted_render none request contents

end LuaPages.Site
