import LuaPages.Proofs.Files.Path
import LuaPages.Site.RequestPath

namespace LuaPages.Site.RequestPath

/-- A part that is a name: it leads one step down. -/
def IsName (part : List Char) : Prop := part ≠ [] ∧ part ≠ ['.'] ∧ part ≠ ['.', '.']

instance : DecidablePred IsName := fun part =>
  inferInstanceAs (Decidable (part ≠ [] ∧ part ≠ ['.'] ∧ part ≠ ['.', '.']))

variable {names parts out : List (List Char)} {part : List Char}

theorem not_isName_up : ¬ IsName ['.', '.'] := fun h => h.2.2 rfl

theorem IsName.append (h : IsName part) (more : List Char) : IsName (part ++ more) := by
  obtain ⟨hne, hdot, hup⟩ := h
  refine ⟨List.append_ne_nil_of_left_ne_nil hne more, ?_, ?_⟩
  · intro heq
    have hprefix : part <+: ['.'] := ⟨more, heq⟩
    simp only [List.prefix_cons_iff, List.prefix_nil] at hprefix
    grind
  · intro heq
    have hprefix : part <+: ['.', '.'] := ⟨more, heq⟩
    simp only [List.prefix_cons_iff, List.prefix_nil] at hprefix
    grind

theorem push_of_isName (h : IsName part) (hallowed : part.any isRefused = false) :
    push names part = some (names ++ [part]) := by
  obtain ⟨hne, hdot, hup⟩ := h
  rw [push, if_neg (not_or.mpr ⟨hne, hdot⟩), if_neg hup, hallowed]
  rfl

/-- A part adds itself, takes a name back, or does nothing. -/
theorem push_cases (h : push names part = some out) :
    (IsName part ∧ part.any isRefused = false ∧ out = names ++ [part]) ∨
      (part = ['.', '.'] ∧ out = names.dropLast) ∨
      (part ≠ ['.', '.'] ∧ ¬ IsName part ∧ out = names) := by
  by_cases hstill : part = [] ∨ part = ['.']
  · rw [push, if_pos hstill, Option.some.injEq] at h
    refine .inr (.inr ⟨?_, ?_, h.symm⟩)
    · rcases hstill with rfl | rfl <;> decide
    · intro hname
      exact hstill.elim hname.1 hname.2.1
  by_cases hup : part = ['.', '.']
  · rw [hup] at h
    exact .inr (.inl ⟨hup, (Option.some.inj h).symm⟩)
  · have hname : IsName part := ⟨(not_or.mp hstill).1, (not_or.mp hstill).2, hup⟩
    cases hrefused : part.any isRefused with
    | true =>
      rw [push, if_neg hstill, if_neg hup, hrefused] at h
      cases h
    | false =>
      rw [push_of_isName hname hrefused, Option.some.injEq] at h
      exact .inl ⟨hname, rfl, h.symm⟩

theorem push_eq_none_iff (names : List (List Char)) (part : List Char) :
    push names part = none ↔ part.any isRefused = true := by
  constructor
  · intro h
    rw [← Bool.not_eq_false]
    intro hallowed
    simp only [push, hallowed] at h
    split at h
    · cases h
    · split at h <;> cases h
  · intro h
    have hstill : ¬ (part = [] ∨ part = ['.']) := by
      rintro (rfl | rfl) <;> revert h <;> decide
    have hup : part ≠ ['.', '.'] := by
      rintro rfl
      revert h
      decide
    rw [push, if_neg hstill, if_neg hup, h]
    rfl

theorem resolve_append (names a b : List (List Char)) :
    resolve names (a ++ b) = (resolve names a).bind (resolve · b) := by
  induction a generalizing names with
  | nil => rfl
  | cons part a ih =>
    rw [List.cons_append, resolve, resolve, Option.bind_assoc]
    congr 1
    funext names
    exact ih names

theorem resolve_cons_eq_some_iff {rest : List (List Char)} :
    resolve names (part :: rest) = some out ↔
      ∃ next, push names part = some next ∧ resolve next rest = some out := by
  rw [resolve, Option.bind_eq_some_iff]

theorem resolve_eq_none_iff :
    resolve names parts = none ↔ ∃ p ∈ parts, p.any isRefused = true := by
  induction parts generalizing names with
  | nil => simp [resolve]
  | cons part rest ih =>
    rw [resolve]
    cases hpush : push names part with
    | none =>
      have hrefused := (push_eq_none_iff names part).mp hpush
      exact iff_of_true rfl ⟨part, List.mem_cons_self, hrefused⟩
    | some next =>
      have hallowed : part.any isRefused = false := by
        rw [← Bool.not_eq_true, ← push_eq_none_iff names, hpush]
        exact Option.some_ne_none next
      rw [Option.bind_some, ih]
      simp only [List.mem_cons, exists_eq_or_imp, hallowed, Bool.false_eq_true, false_or]

/-- What holds of the names so far, and of each part that is a name, holds of the names at the end. -/
theorem forall_mem_of_resolve {P : List Char → Prop} (h : resolve names parts = some out)
    (hnames : ∀ n ∈ names, P n)
    (hparts : ∀ p ∈ parts, IsName p → p.any isRefused = false → P p) : ∀ n ∈ out, P n := by
  induction parts generalizing names with
  | nil =>
    rw [resolve, Option.some.injEq] at h
    rwa [← h]
  | cons part rest ih =>
    obtain ⟨next, hpush, hrest⟩ := resolve_cons_eq_some_iff.mp h
    apply ih hrest
    · rcases push_cases hpush with ⟨hname, hallowed, rfl⟩ | ⟨-, rfl⟩ | ⟨-, -, rfl⟩
      · intro n hn
        rcases List.mem_append.mp hn with hn | hn
        · exact hnames n hn
        · rw [List.mem_singleton.mp hn]
          exact hparts part List.mem_cons_self hname hallowed
      · intro n hn
        exact hnames n (List.dropLast_subset _ hn)
      · exact hnames
    · intro p hp
      exact hparts p (List.mem_cons_of_mem part hp)

theorem resolve_of_isName (h : resolve names parts = some out) (hparts : ∀ p ∈ parts, IsName p) :
    out = names ++ parts := by
  induction parts generalizing names with
  | nil =>
    rw [resolve, Option.some.injEq] at h
    rw [List.append_nil, h]
  | cons part rest ih =>
    obtain ⟨next, hpush, hrest⟩ := resolve_cons_eq_some_iff.mp h
    have hname := hparts part List.mem_cons_self
    have hnext : next = names ++ [part] := by
      rcases push_cases hpush with ⟨-, -, hnext⟩ | ⟨rfl, -⟩ | ⟨-, hnot, -⟩
      · exact hnext
      · exact absurd hname not_isName_up
      · exact absurd hname hnot
    rw [ih hrest fun p hp => hparts p (List.mem_cons_of_mem part hp), hnext, List.append_assoc]
    rfl

/-- In each beginning, no more parts lead up than down. -/
def StaysInside (parts : List (List Char)) : Prop :=
  ∀ k, (parts.take k).count ['.', '.'] ≤ (parts.take k).countP (IsName ·)

instance : DecidablePred StaysInside := fun parts =>
  decidable_of_iff
    (∀ k < parts.length + 1, (parts.take k).count ['.', '.'] ≤ (parts.take k).countP (IsName ·)) <| by
    refine ⟨fun h k => ?_, fun h k _ => h k⟩
    rcases Nat.lt_or_ge k (parts.length + 1) with hk | hk
    · exact h k hk
    · -- a longer beginning is the whole
      have hwhole : parts.take k = parts.take parts.length := by
        rw [List.take_length, List.take_of_length_le (by omega)]
      rw [hwhole]
      exact h parts.length (Nat.lt_succ_self _)

/-- Parts take back no name of `base` if in each beginning they lead up at most as often as there are
names after `base` and parts that lead down. -/
theorem resolve_keeps {base : List (List Char)} (h : resolve (base ++ names) parts = some out)
    (hdepth : ∀ k, (parts.take k).count ['.', '.'] ≤ names.length + (parts.take k).countP (IsName ·)) :
    ∃ more, out = base ++ more := by
  -- `hdepth` counts `names` in, so it goes on to hold while these are added and taken back
  induction parts generalizing names with
  | nil =>
    rw [resolve, Option.some.injEq] at h
    exact ⟨names, h.symm⟩
  | cons part rest ih =>
    obtain ⟨next, hpush, hrest⟩ := resolve_cons_eq_some_iff.mp h
    rcases push_cases hpush with ⟨hname, -, rfl⟩ | ⟨rfl, rfl⟩ | ⟨hup, hnot, rfl⟩
    · rw [List.append_assoc] at hrest
      apply ih hrest
      intro k
      have hk := hdepth (k + 1)
      have hup : part ≠ ['.', '.'] := hname.2.2
      simp only [List.take_succ_cons, List.count_cons, List.countP_cons, hname, hup, beq_iff_eq,
        if_false, decide_true, if_true] at hk
      rw [List.length_append, List.length_singleton]
      omega
    · -- there is a name after `base` to take back
      have hne : names ≠ [] := by
        intro hnil
        have h1 := hdepth 1
        rw [hnil] at h1
        revert h1
        simp [not_isName_up]
      rw [List.dropLast_append_of_ne_nil hne] at hrest
      apply ih hrest
      intro k
      have hk := hdepth (k + 1)
      have hpos := List.length_pos_iff.mpr hne
      simp only [List.take_succ_cons, List.count_cons, List.countP_cons, not_isName_up, beq_self_eq_true,
        if_true, decide_false, Bool.false_eq_true, if_false] at hk
      rw [List.length_dropLast]
      omega
    · apply ih hrest
      intro k
      have hk := hdepth (k + 1)
      simpa only [List.take_succ_cons, List.count_cons, List.countP_cons, hnot, hup, beq_iff_eq,
        if_false, decide_false, Bool.false_eq_true, Nat.add_zero] using hk

/-- Each name that the parts of a text lead to is a proper one. -/
theorem names_of_resolve {text : List Char} (h : resolve [] (Parts.split '/' text) = some out) :
    ∀ n ∈ out.map String.ofList, n ≠ "" ∧ n ≠ "." ∧ n ≠ ".." ∧
      ∀ c ∈ n.toList, c ≠ '/' ∧ c ≠ '\\' ∧ c ≠ '\x00' := by
  intro n hn
  obtain ⟨l, hl, rfl⟩ := List.mem_map.mp hn
  have hinside : (IsName l ∧ l.any isRefused = false) ∧ '/' ∉ l := by
    apply forall_mem_of_resolve (P := fun l => (IsName l ∧ l.any isRefused = false) ∧ '/' ∉ l) h
    · intro l hl
      exact absurd hl List.not_mem_nil
    · intro p hp hname hallowed
      exact ⟨⟨hname, hallowed⟩, Parts.not_mem_of_mem_split hp⟩
    · exact hl
  obtain ⟨⟨⟨hne, hdot, hup⟩, hallowed⟩, hslash⟩ := hinside
  have heq (s : String) : String.ofList l = s ↔ l = s.toList := by
    rw [← String.toList_inj, String.toList_ofList]
  refine ⟨mt (heq "").mp hne, mt (heq ".").mp hdot, mt (heq "..").mp hup, ?_⟩
  intro c hc
  rw [String.toList_ofList] at hc
  have hc' := List.any_eq_false.mp hallowed c hc
  simp only [isRefused, Bool.or_eq_true, beq_iff_eq, not_or] at hc'
  refine ⟨?_, hc'.1, hc'.2⟩
  rintro rfl
  exact hslash hc

/-- The path of the names has no other components than them, so it is never turned down for one. -/
theorem clean_eq (request : String) :
    clean request = (resolve [] (Parts.split '/' request.toList)).map (·.map String.ofList) := by
  rw [clean, Option.map_eq_bind]
  refine Option.bind_congr fun out hout => ?_
  have hnames := names_of_resolve hout
  have hcomponents := Path.components_ofNames
    (fun n hn => ⟨(hnames n hn).1, fun hc => ((hnames n hn).2.2.2 '/' hc).1 rfl⟩)
    fun n hn => ⟨(hnames n hn).2.1, (hnames n hn).2.2.1⟩
  have hall :
      (Path.components (Path.ofNames (out.map String.ofList))).all Path.Component.isName = true := by
    rw [hcomponents, List.all_map]
    exact List.all_eq_true.mpr fun n _ => rfl
  exact if_pos hall

/-- A request path leads nowhere exactly if there is a refused character anywhere in it. -/
theorem clean_eq_none_iff (request : String) :
    clean request = none ↔ '\\' ∈ request.toList ∨ '\x00' ∈ request.toList := by
  have hrefused (c : Char) : isRefused c = true ↔ c = '\\' ∨ c = '\x00' := by
    rw [isRefused, Bool.or_eq_true, beq_iff_eq, beq_iff_eq]
  have hparts (c : Char) (hc : c ≠ '/') :
      c ∈ request.toList ↔ ∃ p ∈ Parts.split '/' request.toList, c ∈ p :=
    (Parts.exists_mem_split_iff hc).symm
  rw [clean_eq, Option.map_eq_none_iff, resolve_eq_none_iff, hparts '\\' (by decide),
    hparts '\x00' (by decide), ← exists_or]
  simp only [List.any_eq_true, hrefused, ← and_or_left]
  constructor
  · rintro ⟨p, hp, c, hc, rfl | rfl⟩
    · exact ⟨p, hp, .inl hc⟩
    · exact ⟨p, hp, .inr hc⟩
  · rintro ⟨p, hp, hc | hc⟩
    · exact ⟨p, hp, _, hc, .inl rfl⟩
    · exact ⟨p, hp, _, hc, .inr rfl⟩

/-- Each name that a request path leads to is a proper one. -/
theorem clean_names {request : String} {rel : List String} (h : clean request = some rel) :
    ∀ n ∈ rel, n ≠ "" ∧ n ≠ "." ∧ n ≠ ".." ∧
      ∀ c ∈ n.toList, c ≠ '/' ∧ c ≠ '\\' ∧ c ≠ '\x00' := by
  rw [clean_eq, Option.map_eq_some_iff] at h
  obtain ⟨out, hout, rfl⟩ := h
  exact names_of_resolve hout

end LuaPages.Site.RequestPath
