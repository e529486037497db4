import Mathlib.Data.List.Basic
import LuaPages.Files.Path
import LuaPages.Proofs.Text.Parts

namespace LuaPages.Path

theorem toList_ofNames (ns : List String) :
    (ofNames ns).toList = ['/'].intercalate (ns.map String.toList) := by
  rw [ofNames, String.toList_intercalate]
  rfl

theorem names_empty : names "" = [] := rfl

theorem names_append_slash (a b : String) : names (a ++ "/" ++ b) = names a ++ names b := by
  have hlist : (a ++ "/" ++ b).toList = a.toList ++ '/' :: b.toList := by
    simp only [String.toList_append, List.append_assoc]
    rfl
  rw [names, hlist, Parts.split_append, List.filter_append, List.map_append]
  rfl

theorem exists_of_endsInSlash {p : String} (h : endsInSlash p = true) : ∃ q, p = q ++ "/" := by
  rw [endsInSlash, beq_iff_eq] at h
  obtain ⟨l, hl⟩ := List.getLast?_eq_some_iff.mp h
  refine ⟨String.ofList l, ?_⟩
  rw [← String.toList_inj, hl, String.toList_append, String.toList_ofList]
  rfl

theorem names_join (base p : String) (hp : isAbsolute p = false) :
    names (join base p) = names base ++ names p := by
  rw [join, hp]
  by_cases hempty : base.isEmpty = true
  · rw [String.isEmpty_iff.mp hempty]
    simp [names_empty]
  by_cases hslash : endsInSlash base = true
  · obtain ⟨b, rfl⟩ := exists_of_endsInSlash hslash
    have hb : names (b ++ "/") = names b := by
      have h := names_append_slash b ""
      rwa [String.append_empty, names_empty, List.append_nil] at h
    simp [hslash, hb, names_append_slash]
  · simp [hempty, hslash, names_append_slash]

theorem isAbsolute_append {p : String} (hp : p ≠ "") (q : String) :
    isAbsolute (p ++ q) = isAbsolute p := by
  obtain ⟨c, r, hcr⟩ := List.exists_cons_of_ne_nil (mt String.toList_eq_nil_iff.mp hp)
  rw [isAbsolute, isAbsolute, String.toList_append, hcr]
  rfl

/-- A relative path starts where its base starts. -/
theorem isAbsolute_join (base p : String) (hp : isAbsolute p = false) :
    isAbsolute (join base p) = isAbsolute base := by
  rw [join, hp]
  by_cases hempty : base = ""
  · have h0 : isAbsolute "" = false := rfl
    rw [hempty, h0]
    simpa using hp
  by_cases hslash : endsInSlash base = true
  · simp [hslash, isAbsolute_append hempty]
  · have hisEmpty : base.isEmpty = false := by
      rw [Bool.eq_false_iff, ne_eq, String.isEmpty_iff]
      exact hempty
    simp [hslash, hisEmpty, String.append_assoc, isAbsolute_append hempty]

section
variable {ns : List String} (h : ∀ n ∈ ns, n ≠ "" ∧ '/' ∉ n.toList)
include h

theorem isAbsolute_ofNames : isAbsolute (ofNames ns) = false := by
  cases ns with
  | nil => rfl
  | cons n ns =>
    obtain ⟨hne, hslash⟩ := h n List.mem_cons_self
    obtain ⟨c, r, hcr⟩ := List.exists_cons_of_ne_nil (mt String.toList_eq_nil_iff.mp hne)
    have hc : c ≠ '/' := by
      intro hc
      apply hslash
      rw [hcr, hc]
      exact List.mem_cons_self
    have hhead : (ofNames (n :: ns)).toList.head? = some c := by
      rw [toList_ofNames, List.map_cons, hcr]
      cases ns with
      | nil => rw [List.map_nil, List.intercalate_singleton, List.head?_cons]
      | cons m ns => rw [List.map_cons, List.intercalate_cons_cons_left, List.head?_cons]
    rw [isAbsolute, hhead]
    simpa using hc

/-- The parts of a path made of names are the names. -/
theorem split_ofNames (hne : ns ≠ []) : Parts.split '/' (ofNames ns).toList = ns.map String.toList := by
  rw [toList_ofNames]
  apply Parts.split_intercalate (mt List.map_eq_nil_iff.mp hne)
  intro p hp
  obtain ⟨n, hn, rfl⟩ := List.mem_map.mp hp
  exact (h n hn).2

theorem names_ofNames : names (ofNames ns) = ns := by
  by_cases hne : ns = []
  · rw [hne]
    rfl
  have hkept : ∀ p ∈ ns.map String.toList, (!p.isEmpty) = true := by
    intro p hp
    obtain ⟨n, hn, rfl⟩ := List.mem_map.mp hp
    simpa using (h n hn).1
  rw [names, split_ofNames h hne, List.filter_eq_self.mpr hkept, List.map_map]
  simp [Function.comp_def]

/-- A path made of names has these for its components. -/
theorem components_ofNames (hdots : ∀ n ∈ ns, n ≠ "." ∧ n ≠ "..") :
    components (ofNames ns) = ns.map .name := by
  have hcomponent (atStart : Bool) (n : String) (hn : n ∈ ns) :
      component? atStart n.toList = some (.name n) := by
    have hne (s : String) (hs : n ≠ s) : n.toList ≠ s.toList := mt String.toList_inj.mp hs
    have hempty : n.toList ≠ [] := hne "" (h n hn).1
    have hhere : n.toList ≠ ['.'] := hne "." (hdots n hn).1
    have hup : n.toList ≠ ['.', '.'] := hne ".." (hdots n hn).2
    rw [component?, if_neg hempty, if_neg hhere, if_neg hup, String.ofList_toList]
  by_cases hempty : ns = []
  · rw [hempty]
    rfl
  obtain ⟨n, rest, rfl⟩ := List.exists_cons_of_ne_nil hempty
  have hrest : (rest.map String.toList).filterMap (component? false) = rest.map .name := by
    rw [List.filterMap_map, List.filterMap_eq_map_iff_forall_eq_some]
    exact fun m hm => hcomponent false m (List.mem_cons_of_mem n hm)
  have hfirst := hcomponent true n List.mem_cons_self
  simp only [components, split_ofNames h hempty, List.map_cons, isAbsolute_ofNames h, Bool.false_eq_true,
    if_false, hfirst, hrest, Option.toList_some, List.singleton_append]

end

end LuaPages.Path
