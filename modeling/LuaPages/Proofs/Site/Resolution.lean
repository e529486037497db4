import LuaPages.Proofs.Site.RequestPath

namespace LuaPages.Site.RequestPath

def enter (place : List String) (segment : String) : List String :=
  if segment = "" ∨ segment = "." then place
  else if segment = ".." then place.dropLast
  else place ++ [segment]

def segments (text : String) : List String := (text.toList.splitOn '/').map String.ofList

def HasRefused (text : String) : Prop := '\\' ∈ text.toList ∨ '\x00' ∈ text.toList

instance : DecidablePred HasRefused := fun text =>
  inferInstanceAs (Decidable ('\\' ∈ text.toList ∨ '\x00' ∈ text.toList))

/-- A segment that leads one step down. -/
structure IsOrdinary (segment : String) : Prop where
  ne_empty : segment ≠ ""
  ne_here : segment ≠ "."
  ne_up : segment ≠ ".."
  no_slash : '/' ∉ segment.toList
  allowed : ¬ HasRefused segment

variable {p q r x : String}

theorem enter_empty (place : List String) : enter place "" = place := rfl

theorem enter_here (place : List String) : enter place "." = place := rfl

theorem enter_up (place : List String) : enter place ".." = place.dropLast := rfl

theorem IsOrdinary.enter (h : IsOrdinary x) (place : List String) :
    RequestPath.enter place x = place ++ [x] := by
  rw [RequestPath.enter, if_neg (not_or.mpr ⟨h.ne_empty, h.ne_here⟩), if_neg h.ne_up]

theorem segments_eq (text : String) :
    segments text = (Parts.split '/' text.toList).map String.ofList := by
  rw [segments, Parts.split_eq_splitOn]

theorem toList_append_slash (p q : String) : (p ++ "/" ++ q).toList = p.toList ++ '/' :: q.toList := by
  simp only [String.toList_append, List.append_assoc]
  rfl

theorem segments_append (p q : String) : segments (p ++ "/" ++ q) = segments p ++ segments q := by
  rw [segments_eq, toList_append_slash, Parts.split_append, List.map_append, segments_eq, segments_eq]

theorem segments_of_no_slash (h : '/' ∉ x.toList) : segments x = [x] := by
  rw [segments, List.splitOn_eq_singleton h, List.map_singleton, String.ofList_toList]

theorem hasRefused_append : HasRefused (p ++ "/" ++ q) ↔ HasRefused p ∨ HasRefused q := by
  have hslash : ¬ ('\\' = '/' ∨ '\x00' = '/') := by decide
  simp only [HasRefused, toList_append_slash, List.mem_append, List.mem_cons]
  tauto

theorem push_eq_enter (names : List (List Char)) (part : List Char)
    (hallowed : part.any isRefused = false) :
    (push names part).map (·.map String.ofList) =
      some (enter (names.map String.ofList) (String.ofList part)) := by
  have heq (s : String) : String.ofList part = s ↔ part = s.toList := by
    rw [← String.toList_inj, String.toList_ofList]
  by_cases hstill : part = [] ∨ part = ['.']
  · rw [push, enter, if_pos hstill, if_pos (hstill.imp (heq "").mpr (heq ".").mpr), Option.map_some]
  have hstill' : ¬ (String.ofList part = "" ∨ String.ofList part = ".") :=
    mt (Or.imp (heq "").mp (heq ".").mp) hstill
  rw [push, enter, if_neg hstill, if_neg hstill']
  by_cases hup : part = ['.', '.']
  · rw [if_pos hup, if_pos ((heq "..").mpr hup), Option.map_some, List.map_dropLast]
  · rw [if_neg hup, if_neg (mt (heq "..").mp hup), hallowed]
    simp only [Bool.false_eq_true, if_false, Option.map_some, List.map_append, List.map_singleton]

theorem resolve_eq_foldl (names parts : List (List Char))
    (hallowed : ∀ p ∈ parts, p.any isRefused = false) :
    (resolve names parts).map (·.map String.ofList) =
      some ((parts.map String.ofList).foldl enter (names.map String.ofList)) := by
  induction parts generalizing names with
  | nil => rfl
  | cons part rest ih =>
    have hpush := push_eq_enter names part (hallowed part List.mem_cons_self)
    obtain ⟨next, hnext, hplace⟩ := Option.map_eq_some_iff.mp hpush
    rw [resolve, hnext, Option.bind_some, ih next fun p hp => hallowed p (List.mem_cons_of_mem part hp),
      List.map_cons, List.foldl_cons, hplace]

/-- A request path without refused characters is resolved by entering its segments from the root. -/
theorem clean_eq_foldl (hallowed : ¬ HasRefused r) : clean r = some ((segments r).foldl enter []) := by
  have hparts : ∀ p ∈ Parts.split '/' r.toList, p.any isRefused = false := by
    intro p hp
    rw [← Bool.not_eq_true]
    intro hrefused
    have hnone : resolve [] (Parts.split '/' r.toList) = none :=
      resolve_eq_none_iff.mpr ⟨p, hp, hrefused⟩
    apply hallowed
    rw [HasRefused, ← clean_eq_none_iff, clean_eq, hnone, Option.map_none]
  rw [clean_eq, segments_eq]
  exact resolve_eq_foldl [] _ hparts

theorem clean_of_refused (hrefused : HasRefused r) : clean r = none := (clean_eq_none_iff r).mpr hrefused

/-- What stands behind a slash is resolved from where the text before it leads. -/
theorem clean_append (hq : ¬ HasRefused q) :
    clean (p ++ "/" ++ q) = (clean p).map fun place => (segments q).foldl enter place := by
  by_cases hp : HasRefused p
  · rw [clean_of_refused hp, clean_of_refused (hasRefused_append.mpr (.inl hp)), Option.map_none]
  · have hallowed : ¬ HasRefused (p ++ "/" ++ q) := mt hasRefused_append.mp (not_or.mpr ⟨hp, hq⟩)
    rw [clean_eq_foldl hallowed, clean_eq_foldl hp, segments_append, List.foldl_append, Option.map_some]

/-- Segments that lead back to where they begin can be left out. -/
theorem clean_detour (hx : ¬ HasRefused x)
    (hback : ∀ place, clean p = some place → (segments x).foldl enter place = place) :
    clean (p ++ "/" ++ x ++ "/" ++ q) = clean (p ++ "/" ++ q) := by
  have hprefix : clean (p ++ "/" ++ x) = clean p := by
    rw [clean_append hx]
    cases hp : clean p with
    | none => rfl
    | some place => rw [Option.map_some, hback place hp]
  by_cases hq : HasRefused q
  -- then neither of the two leads anywhere
  · have hnone (before : String) : clean (before ++ "/" ++ q) = none :=
      clean_of_refused (hasRefused_append.mpr (.inr hq))
    rw [hnone, hnone]
  · rw [clean_append hq, clean_append hq, hprefix]

/-- A segment can be left out that the next one takes back. -/
theorem clean_around (hx : IsOrdinary x) :
    clean (p ++ "/" ++ x ++ "/../" ++ q) = clean (p ++ "/" ++ q) := by
  have htext : p ++ "/" ++ x ++ "/../" ++ q = p ++ "/" ++ (x ++ "/" ++ "..") ++ "/" ++ q := by
    simp only [String.append_assoc]
    rfl
  have hallowed : ¬ HasRefused (x ++ "/" ++ "..") := by
    rw [hasRefused_append, not_or]
    exact ⟨hx.allowed, by decide⟩
  rw [htext]
  apply clean_detour hallowed
  intro place _
  rw [segments_append, segments_of_no_slash hx.no_slash]
  change enter (enter place x) ".." = place
  rw [hx.enter, enter_up, List.dropLast_concat]

theorem resolve_of_names {names parts : List (List Char)}
    (h : ∀ part ∈ parts, IsName part ∧ part.any isRefused = false) :
    resolve names parts = some (names ++ parts) := by
  induction parts generalizing names with
  | nil => rw [resolve, List.append_nil]
  | cons part rest ih =>
    obtain ⟨⟨hname, hallowed⟩, hrest⟩ := List.forall_mem_cons.mp h
    rw [resolve, push_of_isName hname hallowed, Option.bind_some, ih hrest, List.append_assoc]
    rfl

/-- The path of the names that a request leads to leads to them again. -/
theorem clean_ofNames {place : List String} (h : clean r = some place) :
    clean (Path.ofNames place) = some place := by
  have hnames := clean_names h
  have hslash : ∀ n ∈ place, n ≠ "" ∧ '/' ∉ n.toList := by
    intro n hn
    obtain ⟨hempty, -, -, hchars⟩ := hnames n hn
    exact ⟨hempty, fun hc => (hchars '/' hc).1 rfl⟩
  have hparts : ∀ part ∈ place.map String.toList, IsName part ∧ part.any isRefused = false := by
    intro part hpart
    obtain ⟨n, hn, rfl⟩ := List.mem_map.mp hpart
    obtain ⟨hempty, hhere, hup, hchars⟩ := hnames n hn
    have hne (s : String) (hs : n ≠ s) : n.toList ≠ s.toList := mt String.toList_inj.mp hs
    have hallowed : ∀ c ∈ n.toList, ¬ isRefused c = true := by
      intro c hc
      rw [isRefused, Bool.or_eq_true, beq_iff_eq, beq_iff_eq, not_or]
      exact (hchars c hc).2
    exact ⟨⟨hne "" hempty, hne "." hhere, hne ".." hup⟩, List.any_eq_false.mpr hallowed⟩
  by_cases hempty : place = []
  -- the path of the root is empty, and has one part, without characters
  · rw [hempty]
    rfl
  · rw [clean_eq, Path.split_ofNames hslash hempty, resolve_of_names hparts, Option.map_some,
      List.nil_append, List.map_map]
    simp only [Function.comp_def, String.ofList_toList, List.map_id']

/-- A request path leads nowhere exactly if there is a refused character anywhere in it. Any other one is
resolved as text from the root on, where what stands behind a slash is resolved from where the text
before it leads. So `.`, an empty segment, and a segment that is taken back can be left out, `..` stays at
the root, and the path of the names leads to them again. -/
theorem clean_resolves_text :
    (∀ r, clean r = none ↔ HasRefused r) ∧
    (∀ r, ¬ HasRefused r → clean r = some ((segments r).foldl enter [])) ∧
    (∀ p q, ¬ HasRefused q →
      clean (p ++ "/" ++ q) = (clean p).map fun place => (segments q).foldl enter place) ∧
    (∀ p q, clean (p ++ "/./" ++ q) = clean (p ++ "/" ++ q) ∧
      clean (p ++ "//" ++ q) = clean (p ++ "/" ++ q)) ∧
    (∀ p x q, IsOrdinary x → clean (p ++ "/" ++ x ++ "/../" ++ q) = clean (p ++ "/" ++ q)) ∧
    (∀ p q, clean p = some [] → clean (p ++ "/..") = some [] ∧
      clean (p ++ "/../" ++ q) = clean (p ++ "/" ++ q)) ∧
    (∀ q, clean ("../" ++ q) = clean q) ∧
    ∀ r place, clean r = some place → clean (Path.ofNames place) = some place := by
  -- a detour is put between two slashes, which the statement has joined to it
  have hput (p x q : String) : p ++ "/" ++ x ++ "/" ++ q = p ++ ("/" ++ x ++ "/") ++ q := by
    simp only [String.append_assoc]
  refine ⟨clean_eq_none_iff, fun r => clean_eq_foldl, fun p q => clean_append, ?_,
    fun p x q => clean_around, ?_, ?_, fun r place => clean_ofNames⟩
  · intro p q
    constructor
    · have h : clean (p ++ "/" ++ "." ++ "/" ++ q) = clean (p ++ "/" ++ q) :=
        clean_detour (by decide) fun place _ => enter_here place
      rwa [hput] at h
    · have h : clean (p ++ "/" ++ "" ++ "/" ++ q) = clean (p ++ "/" ++ q) :=
        clean_detour (by decide) fun place _ => enter_empty place
      rwa [hput] at h
  · intro p q hroot
    constructor
    · have h : clean (p ++ "/" ++ "..") = some [] := by
        rw [clean_append (by decide), hroot]
        rfl
      rwa [String.append_assoc] at h
    · have h : clean (p ++ "/" ++ ".." ++ "/" ++ q) = clean (p ++ "/" ++ q) := by
        apply clean_detour (by decide)
        intro place hplace
        obtain rfl : [] = place := Option.some.inj (hroot.symm.trans hplace)
        rfl
      rwa [hput] at h
  · intro q
    have htext : "../" ++ q = ".." ++ "/" ++ q := rfl
    have hup : clean ".." = some [] := by decide
    rw [htext]
    by_cases hq : HasRefused q
    · rw [clean_of_refused hq, clean_of_refused (hasRefused_append.mpr (.inr hq))]
    · rw [clean_append hq, hup, clean_eq_foldl hq, Option.map_some]

/-- A detour, a way up from the root, and a refused character in a segment that is taken back. -/
theorem clean_resolves_text_of_detour :
    clean "/a/x/../b" = some ["a", "b"] ∧ clean "/a/../../b" = some ["b"] ∧
      clean "/a/x\\y/../b" = none ∧ clean (Path.ofNames ["a", "b"]) = some ["a", "b"] := by
  obtain ⟨hrefused, hfold, happend, hstill, haround, hroot, htop, hagain⟩ := clean_resolves_text
  have hplain : clean "/a/b" = some ["a", "b"] := hfold "/a/b" (by decide)
  have hx : IsOrdinary "x" := ⟨by decide, by decide, by decide, by decide, by decide⟩
  have hup : clean "/a/.." = some [] := hfold "/a/.." (by decide)
  refine ⟨(haround "/a" "x" "b" hx).trans hplain, ?_, (hrefused _).mpr (by decide), hagain _ _ hplain⟩
  exact (hroot "/a/.." "b" hup).2.trans (hfold "/a/../b" (by decide))

end LuaPages.Site.RequestPath
