import Mathlib.Data.List.Induction
import LuaPages.CommandLine.Run
import LuaPages.Proofs.Site.Serve
import LuaPages.Proofs.Text.Bytes

namespace LuaPages

namespace Site.Answer

def body? : Answer → Option Bytes
  | .ok (.rendered body) => some body
  | _ => none

def complaint? (path : String) : Answer → Option Bytes
  | .ok (.rendered _) => none
  | .ok .pass => some (path ++ ": no lua rule covers this path" : String)
  | .ok .notFound => some (path ++ ": 404 NotFound" : String)
  | .ok .forbidden => some (path ++ ": 403 Forbidden" : String)
  | .error e => some (("500 " : String) ++ e.message)

theorem complaint?_eq_none_iff (path : String) (a : Answer) :
    a.complaint? path = none ↔ ∃ body, a = .ok (.rendered body) := by
  rcases a with e | (_ | _ | _ | _) <;> simp [complaint?]

end Site.Answer

namespace CommandLine

section
variable {α : Type}

theorem gather_append_singleton (count : Nat) (ended : List (Nat × α)) (i : Nat) (a : α) :
    gather count (ended ++ [(i, a)]) = (gather count ended).set i (some a) := by
  rw [gather, gather, List.foldl_append]
  rfl

theorem length_gather (count : Nat) (ended : List (Nat × α)) :
    (gather count ended).length = count := by
  induction ended using List.reverseRecOn with
  | nil => exact List.length_replicate
  | append_singleton ended e ih => rw [gather_append_singleton, List.length_set, ih]

/-- An answer that has come in stays in its place, for no other one comes in for that place. -/
theorem getElem?_gather {count : Nat} {ended : List (Nat × α)}
    (hplaces : (ended.map Prod.fst).Nodup) {i : Nat} {a : α} (hmem : (i, a) ∈ ended)
    (hi : i < count) : (gather count ended)[i]? = some (some a) := by
  -- on the answer that comes in last: it is the only one that can overwrite the others
  induction ended using List.reverseRecOn with
  | nil => exact absurd hmem List.not_mem_nil
  | append_singleton ended e ih =>
    obtain ⟨j, b⟩ := e
    rw [gather_append_singleton]
    rw [List.map_append, List.nodup_append] at hplaces
    obtain ⟨hbefore, -, hapart⟩ := hplaces
    rcases List.mem_append.mp hmem with hmem | hmem
    · have hne : j ≠ i := by
        rintro rfl
        exact hapart _ (List.mem_map_of_mem hmem) _ List.mem_cons_self rfl
      rw [List.getElem?_set_ne hne]
      exact ih hbefore hmem
    · obtain ⟨rfl, rfl⟩ := Prod.mk.inj (List.mem_singleton.mp hmem)
      rw [List.getElem?_set_self (by rwa [length_gather])]

def placed (answers : List α) : List (Nat × α) := (List.range answers.length).zip answers

theorem map_fst_placed (answers : List α) :
    (placed answers).map Prod.fst = List.range answers.length :=
  List.map_fst_zip (Nat.le_of_eq List.length_range)

/-- Whatever the order in which answers come in, each of them gets to its place. -/
theorem gather_of_perm {answers : List α} {ended : List (Nat × α)} (h : ended.Perm (placed answers)) :
    gather answers.length ended = answers.map some := by
  have hplaces : (ended.map Prod.fst).Nodup := by
    rw [(h.map Prod.fst).nodup_iff, map_fst_placed]
    exact List.nodup_range
  apply List.ext_getElem?
  intro i
  by_cases hi : i < answers.length
  · have hplace : i < (placed answers).length := by
      rw [placed, List.length_zip, List.length_range, Nat.min_self]
      exact hi
    have hmem : (i, answers[i]) ∈ placed answers := by
      have hget : (placed answers)[i] = (i, answers[i]) := by
        simp only [placed, List.getElem_zip, List.getElem_range]
      rw [← hget]
      exact List.getElem_mem hplace
    rw [getElem?_gather hplaces (h.mem_iff.mpr hmem) hi, List.getElem?_map,
      List.getElem?_eq_getElem hi]
    rfl
  · have hi := Nat.le_of_not_lt hi
    rw [List.getElem?_eq_none (by rwa [length_gather]),
      List.getElem?_eq_none (by rwa [List.length_map])]

end

theorem Ending.append_nothing (e : Ending) : e.append ⟨true, .empty, .empty⟩ = e := by
  simp only [append, Bool.and_true, ByteArray.append_empty]

/-- What paths with the given answers leave behind, one after another. -/
def Ending.ofAnswers (answered : List (String × Site.Answer)) : Ending :=
  (answered.map fun p => ofAnswer p.1 p.2).foldr append ⟨true, .empty, .empty⟩

theorem deliver_map_some (paths : List String) (answers : List Site.Answer)
    (h : answers.length = paths.length) :
    deliver paths (answers.map some) = .ofAnswers (paths.zip answers) := by
  induction paths generalizing answers with
  | nil =>
    rw [List.length_eq_zero_iff.mp h]
    rfl
  | cons path paths ih =>
    obtain ⟨a, answers, rfl⟩ := List.exists_cons_of_length_eq_add_one h
    rw [List.map_cons, deliver, ih answers (Nat.succ.inj h)]
    rfl

theorem ofAnswer_stdout (path : String) (a : Site.Answer) :
    (Ending.ofAnswer path a).stdout = Bytes.concat a.body?.toList := by
  rcases a with e | (body | _ | _ | _)
  case ok.rendered => exact ByteArray.append_empty.symm
  all_goals rfl

theorem ofAnswer_stderr (path : String) (a : Site.Answer) :
    (Ending.ofAnswer path a).stderr = Bytes.concat ((a.complaint? path).map Ending.report).toList := by
  rcases a with e | (body | _ | _ | _)
  case ok.rendered => rfl
  all_goals exact ByteArray.append_empty.symm

theorem ofAnswer_succeeded (path : String) (a : Site.Answer) :
    (Ending.ofAnswer path a).succeeded = true ↔ ∃ body, a = .ok (.rendered body) := by
  rcases a with e | (_ | _ | _ | _) <;> simp [Ending.ofAnswer, Ending.failed]

theorem Ending.ofAnswers_cons (path : String) (a : Site.Answer) (answered : List (String × Site.Answer)) :
    ofAnswers ((path, a) :: answered) = (ofAnswer path a).append (ofAnswers answered) := rfl

/-- What an ending tells about answered paths: the bodies in order, a line about each path that has
none, and whether all have one. -/
structure Ending.Reports (e : Ending) (answered : List (String × Site.Answer)) : Prop where
  stdout : e.stdout = Bytes.concat (answered.filterMap fun p => p.2.body?)
  stderr : e.stderr = Bytes.concat (answered.filterMap fun p => (p.2.complaint? p.1).map report)
  succeeded : e.succeeded = true ↔ ∀ p ∈ answered, ∃ body, p.2 = .ok (.rendered body)

theorem Ending.reports_ofAnswers (answered : List (String × Site.Answer)) :
    (ofAnswers answered).Reports answered := by
  induction answered with
  | nil => exact ⟨rfl, rfl, fun _ p hp => absurd hp List.not_mem_nil, fun _ => rfl⟩
  | cons p answered ih =>
    obtain ⟨path, a⟩ := p
    rw [ofAnswers_cons]
    refine ⟨?_, ?_, ?_⟩
    · rw [Bytes.concat_filterMap_cons, ← ih.stdout, ← ofAnswer_stdout path]
      rfl
    · rw [Bytes.concat_filterMap_cons, ← ih.stderr, ← ofAnswer_stderr]
      rfl
    · rw [List.forall_mem_cons, ← ih.succeeded, ← ofAnswer_succeeded path]
      exact Bool.and_eq_true_iff

theorem serveEach_eq (files : FileAccess Id) (c : Site.Config) (paths : List String) (order : List Nat) :
    serveEach files c paths order =
      order.map fun i => (i, (Site.serve files c (paths.getD i "") : Site.Answer)) := by
  induction order with
  | nil => rfl
  | cons i order ih =>
    rw [List.map_cons, ← ih]
    rfl

/-- Serving paths in a permuted order gives each of them the answer that it has by itself. -/
theorem serveEach_perm (files : FileAccess Id) (c : Site.Config) {paths : List String} {order : List Nat}
    (h : order.Perm (List.range paths.length)) :
    List.Perm (serveEach files c paths order : Id (List (Nat × Site.Answer)))
      (placed (paths.map (Site.serve files c))) := by
  have hplaced : placed (paths.map (Site.serve files c)) =
      (List.range paths.length).map fun i =>
        (i, (Site.serve files c (paths.getD i "") : Site.Answer)) := by
    apply List.ext_getElem
    · simp [placed]
    · intro i hi hi'
      rw [List.length_map, List.length_range] at hi'
      simp [placed, List.getD_eq_getElem?_getD, hi']
  rw [serveEach_eq, hplaced]
  exact h.map _

theorem renderPaths_eq (files : FileAccess Id) (c : Site.Config) {paths : List String}
    {order : List Nat} (h : order.Perm (List.range paths.length)) :
    renderPaths files c paths order =
      Ending.ofAnswers (paths.zip (paths.map (Site.serve files c))) := by
  have hgather := gather_of_perm (serveEach_perm files c h)
  rw [List.length_map] at hgather
  change deliver paths (gather paths.length (serveEach files c paths order)) = _
  rw [hgather, deliver_map_some paths _ (List.length_map _)]

theorem renderPaths_singleton (files : FileAccess Id) (c : Site.Config) (path : String) :
    renderPaths files c [path] [0] = Ending.ofAnswer path (Site.serve files c path : Site.Answer) := by
  rw [renderPaths_eq files c (List.Perm.refl [0])]
  exact Ending.append_nothing _

/-- Whatever the order in which the renders end, the program writes the bodies of the paths that are
rendered and says what is the matter with each other path, both in the order of the arguments, and
succeeds if all are rendered. A path contributes what it does when it is the only one. The answers get
to their places whatever they are, also if they differ for a path that is given twice. -/
theorem renderPaths_in_any_order (files : FileAccess Id) (c : Site.Config) (paths : List String)
    (order : List Nat) (h : order.Perm (List.range paths.length)) :
    let answer (path : String) : Site.Answer := Site.serve files c path
    let ending : Ending := renderPaths files c paths order
    ending.Reports (paths.map fun path => (path, answer path)) ∧
    (∀ path, (answer path).complaint? path = none ↔ ∃ body, answer path = .ok (.rendered body)) ∧
    ending = (paths.map fun path => (renderPaths files c [path] [0] : Ending)).foldr Ending.append
      ⟨true, .empty, .empty⟩ ∧
    ∀ (answers : List Site.Answer) (ended : List (Nat × Site.Answer)),
      answers.length = paths.length → ended.Perm (placed answers) →
      gather paths.length ended = answers.map some ∧
        (deliver paths (gather paths.length ended)).Reports (paths.zip answers) := by
  intro answer ending
  have hending : ending = .ofAnswers (paths.map fun path => (path, answer path)) := by
    rw [List.map_prod_left_eq_zip]
    exact renderPaths_eq files c h
  refine ⟨?_, fun path => Site.Answer.complaint?_eq_none_iff path _, ?_, ?_⟩
  · rw [hending]
    exact Ending.reports_ofAnswers _
  · rw [hending, Ending.ofAnswers, List.map_map]
    simp only [renderPaths_singleton]
    rfl
  · intro answers ended hlength hended
    have hgather := gather_of_perm hended
    rw [hlength] at hgather
    refine ⟨hgather, ?_⟩
    rw [hgather, deliver_map_some paths answers hlength]
    exact Ending.reports_ofAnswers _

/-- Three renders that end in the order third, first, second. The first and the third are of one path. -/
theorem renderPaths_in_any_order_with_repeat :
    let files := ((FileTree.ofWorking []).add "a" (some "x".toUTF8)).access
    let order := [2, 0, 1]
    let ending : Ending := renderPaths files .byDefault ["/a", "/b", "/a"] order
    order.Perm (List.range 3) ∧ ending.stdout = "xx".toUTF8 ∧
      ending.stderr = "luasp: /b: 404 NotFound\n".toUTF8 ∧ ending.succeeded = false := by
  intro files order ending
  have horder : order.Perm (List.range 3) := by decide
  have hrendered : (Site.serve files .byDefault "/a" : Site.Answer) = .ok (.rendered "x".toUTF8) := rfl
  have hmissing : (Site.serve files .byDefault "/b" : Site.Answer) = .ok .notFound := rfl
  obtain ⟨hreports, -⟩ := renderPaths_in_any_order files .byDefault ["/a", "/b", "/a"] order horder
  simp only [List.map_cons, List.map_nil, hrendered, hmissing] at hreports
  refine ⟨horder, ?_, ?_, ?_⟩
  · rw [hreports.stdout]
    decide
  · rw [hreports.stderr]
    decide
  · rw [Bool.eq_false_iff, ne_eq, hreports.succeeded]
    intro hall
    obtain ⟨body, hbody⟩ := hall ("/b", .ok .notFound) (List.mem_cons_of_mem _ List.mem_cons_self)
    cases hbody

end CommandLine

end LuaPages
