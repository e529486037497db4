import LuaPages.Proofs.Document.FirstFailure

namespace LuaPages.Document

variable {σ ε : Type}

/-- The first region of a list of segments that fails: its source, its error and the segments before
it. -/
structure FirstFailure (behaviour : Behaviour σ ε) (state : σ) (l before : List Segment) (chunk : Bytes)
    (e : ε) : Prop where
  split : ∃ failing after, l = before ++ failing :: after ∧
    (failing = .region chunk ∨ failing = .unclosed chunk)
  fails : ∃ reached outputs, behaviour.runAll state (Segment.sources before) = some (reached, outputs) ∧
    (behaviour reached chunk).2.2 = some e

namespace FirstFailure

variable {behaviour : Behaviour σ ε} {state : σ} {l before : List Segment} {chunk : Bytes} {e : ε}

theorem after_text (h : FirstFailure behaviour state l before chunk e) (b : Bytes) :
    FirstFailure behaviour state (.text b :: l) (.text b :: before) chunk e := by
  obtain ⟨failing, after, rfl, hfailing⟩ := h.split
  exact ⟨⟨failing, after, rfl, hfailing⟩, h.fails⟩

theorem after_region {first : Segment} {c printed : Bytes} {next : σ}
    (h : FirstFailure behaviour next l before chunk e)
    (hfirst : first = .region c ∨ first = .unclosed c)
    (hnext : behaviour state c = (next, printed, none)) :
    FirstFailure behaviour state (first :: l) (first :: before) chunk e := by
  obtain ⟨failing, after, rfl, hfailing⟩ := h.split
  obtain ⟨reached, outputs, hall, hfails⟩ := h.fails
  have hsources : Segment.sources (first :: before) = c :: Segment.sources before := by
    rcases hfirst with rfl | rfl <;> rfl
  refine ⟨⟨failing, after, rfl, hfailing⟩, reached, printed :: outputs, ?_, hfails⟩
  simp only [hsources, Behaviour.runAll, hnext, hall, Option.map_some]

end FirstFailure

/-- Either all chunks succeed or there is a first one that fails. -/
theorem runAll_or_firstFailure (behaviour : Behaviour σ ε) (state : σ) (l : List Segment) :
    (∃ last outputs, behaviour.runAll state (Segment.sources l) = some (last, outputs)) ∨
      ∃ before chunk e, FirstFailure behaviour state l before chunk e := by
  induction l generalizing state with
  | nil => exact .inl ⟨state, [], rfl⟩
  | cons first l ih =>
    -- an unclosed region is run like any other
    have hregion (c : Bytes) (hfirst : first = .region c ∨ first = .unclosed c) :
        (∃ last outputs, behaviour.runAll state (c :: Segment.sources l) = some (last, outputs)) ∨
          ∃ before chunk e, FirstFailure behaviour state (first :: l) before chunk e := by
      rcases h : behaviour state c with ⟨next, printed, _ | e⟩
      · rcases ih next with ⟨last, outputs, hall⟩ | ⟨before, chunk, e, hfailure⟩
        · refine .inl ⟨last, printed :: outputs, ?_⟩
          simp only [Behaviour.runAll, h, hall, Option.map_some]
        · exact .inr ⟨_, chunk, e, hfailure.after_region hfirst h⟩
      · exact .inr ⟨[], c, e, ⟨first, l, rfl, hfirst⟩, state, [], rfl, by rw [h]⟩
    cases first with
    | text b =>
      rcases ih state with hall | ⟨before, chunk, e, hfailure⟩
      · exact .inl hall
      · exact .inr ⟨_, chunk, e, hfailure.after_text b⟩
    | region c => exact hregion c (.inl rfl)
    | unclosed c => exact hregion c (.inr rfl)

section
open Expansion
variable (behaviour : Behaviour σ ε) (state : σ) (doc : Bytes)

/-- A run that fails writes what the document before the first failing region expands to. -/
theorem run_cases :
    let r := run behaviour state doc .unlimited
    r.2 = none ∨ ∃ before chunk e, FirstFailure behaviour state (Segment.read doc) before chunk e ∧
      let opening := (Segment.assemble before).size
      let r₀ := run behaviour state (doc.extract 0 opening) .unlimited
      isOpenMarker doc opening = true ∧
      r.2 = some (.script
        (1 + Bytes.lineFeeds (doc.extract 0 (opening + openMarker.size + chunk.size))) e) ∧
      r₀.2 = none ∧ r.1.out.written = r₀.1.out.written := by
  intro r
  rcases runAll_or_firstFailure behaviour state (Segment.read doc) with
    ⟨last, outputs, hall⟩ | ⟨before, chunk, e, hfailure⟩
  · obtain ⟨ran, -, hexpand⟩ :=
      Segment.expand_of_runAll behaviour (Segment.read doc) 1 state last outputs .empty hall
    refine .inl ?_
    rw [run_failure]
    exact congrArg Outcome.failure hexpand
  · refine .inr ⟨before, chunk, e, hfailure, ?_⟩
    intro opening r₀
    obtain ⟨failing, after, hread, hfailing⟩ := hfailure.split
    obtain ⟨reached, outputs, hbefore, hfails⟩ := hfailure.fails
    have hreads := Segment.reads_read doc
    rw [hread] at hreads
    obtain ⟨j, -, hassemble, hbeginning, hregion⟩ := hreads.split (List.cons_ne_nil _ _)
    -- the failing region begins where the segments before it end
    obtain rfl : opening = j := by
      rw [← Nat.sub_zero j, ← Bytes.size_extract_of_le doc 0 j hregion.le, ← hassemble]
    obtain ⟨hopen, -, -, -, hlines⟩ := hregion.at_region hfailing
    obtain ⟨ran, -, hexpand⟩ := Segment.expand_of_first_failure behaviour before after failing 1
      state reached _ chunk _ .empty outputs e hfailing hbefore (Prod.ext rfl (Prod.ext rfl hfails))
    obtain ⟨ran₀, -, hexpand₀⟩ :=
      Segment.expand_of_runAll behaviour before 1 state reached outputs .empty hbefore
    have hread₀ := expand_read behaviour state (doc.extract 0 opening) .unlimited before hbeginning
    change _ = Segment.expand behaviour before 1 ⟨state, .empty⟩ ⟨.empty, none⟩ at hread₀
    refine ⟨hopen, ?_, ?_, ?_⟩
    · rw [run_failure, hread, hlines, ← hassemble, ← Nat.add_assoc]
      exact congrArg Outcome.failure hexpand
    · rw [run_failure, hread₀, hexpand₀]
    · rw [run_out, run_out, hread, hread₀, hexpand₀]
      exact congrArg (fun o => o.out.written) hexpand

end

end LuaPages.Document
