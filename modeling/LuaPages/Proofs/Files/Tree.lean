import Mathlib.Tactic.SplitIfs
import LuaPages.Files.Tree
import LuaPages.Proofs.Files.Path

namespace LuaPages.FileTree

def enter (top : FileNode) (place : List String) (n : FileNode) (part : String) :
    Except FileError (List String × FileNode) :=
  match n with
  | .file _ => .error .notDirectory
  | .directory entries =>
    if part = "" ∨ part = "." then .ok (place, .directory entries)
    else if part = ".." then
      match FileNode.descend? (place.drop 1).reverse top with
      | some parent => .ok (place.drop 1, parent)
      | none => .error .missing
    else if nameLimit < part.utf8ByteSize then .error .nameTooLong
    else
      match (FileNode.directory entries).child? part with
      | none => .error .missing
      | some child => .ok (part :: place, child)

def partsOf (path : String) : List String := (Parts.split '/' path.toList).map String.ofList

section
variable {top n : FileNode} {place parts more : List String} {part : String} {e : FileError}

theorem follow_nil : follow top place n [] = .ok n := by
  cases n <;> rfl

theorem follow_cons :
    follow top place n (part :: parts) =
      (enter top place n part).bind fun next => follow top next.1 next.2 parts := by
  cases n with
  | file contents => rfl
  | directory entries =>
    rw [follow, enter]
    split
    · rfl
    split
    · dsimp only
      rcases FileNode.descend? (place.drop 1).reverse top with _ | parent <;> rfl
    split
    · rfl
    · rcases (FileNode.directory entries).child? part with _ | child <;> rfl

theorem enter_ne_denied : enter top place n part ≠ .error .denied := by
  cases n with
  | file contents => nofun
  | directory entries =>
    rw [enter]
    split
    · nofun
    split
    · split <;> nofun
    split
    · nofun
    · split <;> nofun

theorem follow_ne_denied : follow top place n parts ≠ .error .denied := by
  induction parts generalizing place n with
  | nil =>
    rw [follow_nil]
    nofun
  | cons part parts ih =>
    rw [follow_cons]
    cases hnext : enter top place n part with
    | error e =>
      have he : e ≠ .denied := by
        rintro rfl
        exact enter_ne_denied hnext
      exact mt Except.error.inj he
    | ok next => exact ih

/-- What comes after the same parts fails alike for two paths if it does so wherever they lead. -/
theorem follow_append_of_stuck {last : List String}
    (hlast : ∀ {place n}, follow top place n last = .error e → follow top place n more = .error e)
    (h : follow top place n (parts ++ last) = .error e) :
    follow top place n (parts ++ more) = .error e := by
  induction parts generalizing place n with
  | nil => exact hlast h
  | cons part parts ih =>
    rw [List.cons_append, follow_cons] at h ⊢
    cases hnext : enter top place n part with
    | error e' =>
      rw [hnext] at h
      exact h
    | ok next =>
      rw [hnext] at h
      exact ih h

/-- What fails on the way fails for the whole path. -/
theorem follow_append (h : follow top place n parts = .error e) :
    follow top place n (parts ++ more) = .error e := by
  rw [← List.append_nil parts] at h
  apply follow_append_of_stuck _ h
  intro place n hnil
  rw [follow_nil] at hnil
  cases hnil

/-- A slash at the end asks for a directory, as any further part does. -/
theorem follow_append_of_slash (h : follow top place n (parts ++ [""]) = .error e) (hmore : more ≠ []) :
    follow top place n (parts ++ more) = .error e := by
  apply follow_append_of_stuck _ h
  intro place n hslash
  obtain ⟨part, rest, rfl⟩ := List.exists_cons_of_ne_nil hmore
  cases n with
  | file contents => exact hslash
  | directory entries => cases hslash

variable {base p : String}

theorem partsOf_append_slash (p q : String) : partsOf (p ++ "/" ++ q) = partsOf p ++ partsOf q := by
  have hlist : (p ++ "/" ++ q).toList = p.toList ++ '/' :: q.toList := by
    simp only [String.toList_append, List.append_assoc]
    rfl
  rw [partsOf, hlist, Parts.split_append, List.map_append, partsOf, partsOf]

theorem join_eq (hbase : base ≠ "") (hp : Path.isAbsolute p = false) :
    Path.join base p = if Path.endsInSlash base then base ++ p else base ++ "/" ++ p := by
  have hempty : base.isEmpty = false := by
    rw [Bool.eq_false_iff, ne_eq, String.isEmpty_iff]
    exact hbase
  rw [Path.join, hp, hempty, Bool.false_or, if_neg Bool.false_ne_true]

theorem follow_join (hbase : base ≠ "") (hp : Path.isAbsolute p = false)
    (h : follow top place n (partsOf base) = .error e) :
    follow top place n (partsOf (Path.join base p)) = .error e := by
  rw [join_eq hbase hp]
  by_cases hslash : Path.endsInSlash base = true
  · obtain ⟨b, rfl⟩ := Path.exists_of_endsInSlash hslash
    have hb : partsOf (b ++ "/") = partsOf b ++ [""] := by
      have hb := partsOf_append_slash b ""
      rwa [String.append_empty] at hb
    have hne : partsOf p ≠ [] := mt List.map_eq_nil_iff.mp (Parts.split_ne_nil '/' _)
    rw [hb] at h
    rw [if_pos hslash, partsOf_append_slash]
    exact follow_append_of_slash h hne
  · rw [if_neg hslash, partsOf_append_slash]
    exact follow_append h

theorem prefix_join (base : String) (hp : Path.isAbsolute p = false) :
    ∃ tail, Path.join base p = base ++ tail := by
  rw [Path.join, hp, if_neg Bool.false_ne_true]
  split
  · exact ⟨p, rfl⟩
  · exact ⟨"/" ++ p, String.append_assoc⟩

end

variable (t : FileTree)

def start (path : String) : Except FileError (List String × FileNode) :=
  if Path.isAbsolute path then .ok ([], t.top)
  else
    match FileNode.descend? t.working t.top with
    | some n => .ok (t.working.reverse, n)
    | none => .error .missing

/-- Why a path is not followed at all. -/
def refusal? (path : String) : Option FileError :=
  if path.toList.contains '\x00' then some .zeroByte
  else if path.isEmpty then some .missing
  else if pathLimit < path.utf8ByteSize then some .nameTooLong
  else none

variable {path base p : String} {e : FileError}

theorem find_of_refused (h : refusal? path = some e) : t.find path = .error e := by
  rw [refusal?] at h
  simp only [find]
  split_ifs at h ⊢ <;> exact congrArg _ (Option.some.inj h)

theorem find_of_followed (h : refusal? path = none) :
    t.find path = (t.start path).bind fun s => follow t.top s.1 s.2 (partsOf path) := by
  rw [refusal?] at h
  simp only [find, start]
  split_ifs at h ⊢
  · rfl
  · rcases FileNode.descend? t.working t.top with _ | n <;> rfl

/-- Permissions are no part of a tree. -/
theorem find_ne_denied (path : String) : t.find path ≠ .error .denied := by
  cases hrefused : refusal? path with
  | some e =>
    have he : e ≠ .denied := by
      rintro rfl
      rw [refusal?] at hrefused
      split_ifs at hrefused <;> cases hrefused
    rw [t.find_of_refused hrefused]
    exact mt Except.error.inj he
  | none =>
    rw [t.find_of_followed hrefused, start]
    split
    · exact follow_ne_denied
    split
    · exact follow_ne_denied
    · nofun

theorem refusal?_of_append {tail : String} (hbase : base ≠ "") (h : refusal? (base ++ tail) = none) :
    refusal? base = none := by
  have hempty : base.isEmpty = false := by
    rw [Bool.eq_false_iff, ne_eq, String.isEmpty_iff]
    exact hbase
  simp only [refusal?, String.toList_append, List.contains_eq_mem, List.mem_append, hempty,
    String.utf8ByteSize_append] at h ⊢
  split_ifs at h ⊢ <;> first | rfl | grind

/-- Nothing is found below a place that cannot be looked up, unless it is merely missing. -/
theorem find_join_of_error (h : t.find base = .error e) (he : e ≠ .missing)
    (hp : Path.isAbsolute p = false) : ∃ e', t.find (Path.join base p) = .error e' := by
  have hbase : base ≠ "" := by
    rintro rfl
    exact he (Except.error.inj h).symm
  cases hrefused : refusal? (Path.join base p) with
  | some e' => exact ⟨e', t.find_of_refused hrefused⟩
  | none =>
    have hkept : refusal? base = none := by
      obtain ⟨tail, htail⟩ := prefix_join base hp
      rw [htail] at hrefused
      exact refusal?_of_append hbase hrefused
    have hstart : t.start (Path.join base p) = t.start base := by
      rw [start, Path.isAbsolute_join base p hp, start]
    rw [t.find_of_followed hkept] at h
    rw [t.find_of_followed hrefused, hstart]
    cases hs : t.start base with
    | error e' => exact ⟨e', rfl⟩
    | ok s =>
      rw [hs] at h
      exact ⟨e, follow_join hbase hp h⟩

end LuaPages.FileTree
