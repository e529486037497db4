import LuaPages.Document.Interpret
import LuaPages.Proofs.Document.Driver

namespace LuaPages.Document

variable {σ ε : Type}

/-- The first chunk that fails is the last one to run, and nothing it printed is written. -/
theorem Segment.expand_of_first_failure (behaviour : Behaviour σ ε) (before after : List Segment)
    (failing : Segment) (line : Nat) (state reached failed : σ) (chunk printed start : Bytes)
    (outputs : List Bytes) (e : ε) (hchunk : failing = .region chunk ∨ failing = .unclosed chunk)
    (hbefore : behaviour.runAll state (sources before) = some (reached, outputs))
    (hfails : behaviour reached chunk = (failed, printed, some e)) :
    ∃ ran, ran.map Prod.fst = sources before ++ [chunk] ∧
      expand behaviour (before ++ failing :: after) line ⟨state, .empty⟩ ⟨start, none⟩ =
        ⟨⟨failed, printed⟩, ⟨start ++ Bytes.concat (writes before outputs), none⟩,
          some (.script (line + (assemble before).lineFeeds + chunk.lineFeeds) e), ran⟩ := by
  obtain ⟨ran, hran, hexpand⟩ :=
    expand_of_runAll behaviour before line state reached outputs start hbefore
  have hperform (line : Nat) :
      failing.perform behaviour line = running behaviour (line + chunk.lineFeeds) chunk := by
    rcases hchunk with rfl | rfl <;> rfl
  refine ⟨ran ++ [(chunk, (start ++ Bytes.concat (writes before outputs)).size)], ?_, ?_⟩
  · rw [List.map_append, hran]
    rfl
  · rw [expand_append, hexpand, Outcome.andThen_of_done _ _ rfl, expand, hperform,
      running_of_fails behaviour _ chunk reached failed printed e _ hfails,
      Outcome.andThen_of_failed _ _ (Option.some_ne_none _)]
    rfl

/-- Where a region stands in a document: its markers, its source, and the bytes up to its end. -/
theorem Segment.Reads.at_region {doc chunk : Bytes} {i : Nat} {failing : Segment} {after : List Segment}
    (h : Segment.Reads doc i (failing :: after))
    (hchunk : failing = .region chunk ∨ failing = .unclosed chunk) :
    let ending := i + openMarker.size + chunk.size
    isOpenMarker doc i = true ∧ doc.extract (i + openMarker.size) ending = chunk ∧
      (failing = .region chunk → isCloseMarker doc ending = true) ∧
      (failing = .unclosed chunk → ending = doc.size) ∧
      Bytes.lineFeeds (doc.extract 0 ending) = Bytes.lineFeeds (doc.extract 0 i) + chunk.lineFeeds := by
  -- the open marker has no line feed
  have hlines (j : Nat) (hij : i + openMarker.size ≤ j) (hopen : isOpenMarker doc i = true) :
      Bytes.lineFeeds (doc.extract 0 j) =
        Bytes.lineFeeds (doc.extract 0 i) + Bytes.lineFeeds (doc.extract (i + openMarker.size) j) := by
    rw [ByteArray.extract_eq_extract_append_extract (i := 0) i (Nat.zero_le i) (by omega),
      ByteArray.extract_eq_extract_append_extract (i := i) (i + openMarker.size) (by omega) hij,
      isOpenMarker_extract doc i hopen, Bytes.lineFeeds_append, Bytes.lineFeeds_append,
      lineFeeds_openMarker, Nat.zero_add]
  cases h with
  | text => rcases hchunk with h | h <;> cases h
  | @region i j l hopen hij hclose hj rest =>
    obtain rfl : doc.extract (i + openMarker.size) j = chunk := by
      rcases hchunk with h | h <;> cases h
      rfl
    have hle := isCloseMarker_le doc j hj
    have hending : i + openMarker.size + (doc.extract (i + openMarker.size) j).size = j := by
      rw [Bytes.size_extract_of_le doc _ j (by omega)]
      omega
    rw [hending]
    exact ⟨hopen, rfl, fun _ => hj, fun h => (nomatch h), hlines j hij hopen⟩
  | @unclosed i hopen hclose =>
    obtain rfl : doc.extract (i + openMarker.size) doc.size = chunk := by
      rcases hchunk with h | h <;> cases h
      rfl
    have hlt := isOpenMarker_lt doc i hopen
    have hending :
        i + openMarker.size + (doc.extract (i + openMarker.size) doc.size).size = doc.size := by
      rw [Bytes.size_extract_of_le doc _ _ (Nat.le_refl _)]
      omega
    rw [hending]
    exact ⟨hopen, rfl, fun h => (nomatch h), fun _ => rfl, hlines _ (by omega) hopen⟩

theorem isSyntax_iff (e : Lua.ChunkError) : e.isSyntax = true ↔ ∃ message, e = .malformed message := by
  cases e with
  | malformed message => exact ⟨fun _ => ⟨message, rfl⟩, fun _ => rfl⟩
  | failed text => exact ⟨fun h => (nomatch h), fun ⟨_, h⟩ => (nomatch h)⟩
  | conversion text => exact ⟨fun h => (nomatch h), fun ⟨_, h⟩ => (nomatch h)⟩
  | endless => exact ⟨fun h => (nomatch h), fun ⟨_, h⟩ => (nomatch h)⟩

open Expansion in
/-- The first region that fails ends the run. The error has the text of what went wrong and the line
of the region's end. The destination has what the document up to the region's open marker expands to,
and no other region is run. -/
theorem first_failure_ends_run (behaviour : Behaviour σ Lua.ChunkError) (state reached failed : σ)
    (doc chunk printed : Bytes) (before after : List Segment) (failing : Segment)
    (outputs : List Bytes) (e : Lua.ChunkError)
    (hread : Segment.read doc = before ++ failing :: after)
    (hchunk : failing = .region chunk ∨ failing = .unclosed chunk)
    (hbefore : behaviour.runAll state (Segment.sources before) = some (reached, outputs))
    (hfails : behaviour reached chunk = (failed, printed, some e)) :
    let opening := (Segment.assemble before).size
    let ending := opening + openMarker.size + chunk.size
    let r := run behaviour state doc .unlimited
    let r₀ := run behaviour state (doc.extract 0 opening) .unlimited
    (isOpenMarker doc opening = true ∧ doc.extract (opening + openMarker.size) ending = chunk ∧
      (failing = .region chunk → isCloseMarker doc ending = true) ∧
      (failing = .unclosed chunk → ending = doc.size)) ∧
    (r.2.map Failure.toError =
        some (.script (1 + Bytes.lineFeeds (doc.extract 0 ending)) e.text e.isSyntax) ∧
      (e.isSyntax = true ↔ ∃ message, e = .malformed message)) ∧
    (r₀.2 = none ∧ r.1.out.written = r₀.1.out.written ∧
      r.1.out.written = Bytes.concat (writes before outputs)) ∧
    executed behaviour state doc .unlimited = Segment.sources before ++ [chunk] := by
  intro opening ending r r₀
  have hreads := Segment.reads_read doc
  rw [hread] at hreads
  obtain ⟨j, -, hassemble, hbeginning, hregion⟩ := hreads.split (List.cons_ne_nil _ _)
  have hopening : opening = j := by
    rw [← Nat.sub_zero j, ← Bytes.size_extract_of_le doc 0 j hregion.le, ← hassemble]
  obtain ⟨ran, hran, hexpand⟩ := Segment.expand_of_first_failure behaviour before after failing 1 state
    reached failed chunk printed .empty outputs e hchunk hbefore hfails
  obtain ⟨ran₀, -, hexpand₀⟩ :=
    Segment.expand_of_runAll behaviour before 1 state reached outputs .empty hbefore
  -- the document before the region is made of the segments before it
  have hread₀ := expand_read behaviour state (doc.extract 0 j) .unlimited before hbeginning
  change _ = Segment.expand behaviour before 1 ⟨state, .empty⟩ ⟨.empty, none⟩ at hread₀
  have hfailure :
      r.2 = some (.script (1 + (Segment.assemble before).lineFeeds + chunk.lineFeeds) e) := by
    rw [run_failure, hread]
    exact congrArg Outcome.failure hexpand
  have hout : r.1.out = ⟨.empty ++ Bytes.concat (writes before outputs), none⟩ := by
    rw [run_out, hread]
    exact congrArg Outcome.out hexpand
  have hexecuted : executed behaviour state doc .unlimited = Segment.sources before ++ [chunk] := by
    rw [executed_eq_ran, hread, ← hran]
    exact congrArg (fun o => o.ran.map Prod.fst) hexpand
  obtain ⟨hopen, hsource, hclosed, hunclosed, hlines⟩ := hregion.at_region hchunk
  rw [← hopening] at hopen hsource hclosed hunclosed hlines hread₀
  refine ⟨⟨hopen, hsource, hclosed, hunclosed⟩, ⟨?_, isSyntax_iff e⟩, ⟨?_, ?_, ?_⟩, hexecuted⟩
  · rw [hfailure, hlines, hopening, ← hassemble, Nat.add_assoc]
    rfl
  · rw [run_failure, hread₀, hexpand₀]
  · rw [hout, run_out, hread₀, hexpand₀]
  · rw [hout, ByteArray.empty_append]

open Expansion in
/-- The second of three regions fails, after it printed something, on the line after the one on which
it begins. -/
theorem first_failure_ends_run_at_second_region :
    let doc : Bytes := "a\n<?lua one ?>b<?lua\ntwo ?>c<?lua three ?>"
    let e : Lua.ChunkError := .malformed ("m" : String)
    let behaviour : Behaviour Nat Lua.ChunkError := fun n _ =>
      (n + 1, ("p" : String), if n = 1 then some e else none)
    let chunks : List Bytes := [(" one " : String), ("\ntwo " : String)]
    let r := run behaviour 0 doc .unlimited
    r.2.map Failure.toError = some (.script 3 e.text true) ∧ r.1.out.written = "a\npb" ∧
      executed behaviour 0 doc .unlimited = chunks := by
  intro doc e behaviour chunks r
  let before : List Segment :=
    [.text ("a\n" : String), .region (" one " : String), .text ("b" : String)]
  let two : Bytes := "\ntwo "
  let printed : Bytes := "p"
  have hread : Segment.read doc =
      before ++ .region two :: [.text ("c" : String), .region (" three " : String)] := by decide
  have hbefore : behaviour.runAll 0 (Segment.sources before) = some (1, [printed]) := rfl
  have hfails : behaviour 1 two = (2, printed, some e) := rfl
  have hlines : Bytes.lineFeeds (doc.extract 0
      ((Segment.assemble before).size + openMarker.size + two.size)) = 2 := by decide
  have hwrites : Bytes.concat (writes before [printed]) = ("a\npb" : String) := by decide
  have hchunks : Segment.sources before ++ [two] = chunks := rfl
  have hsyntax : e.isSyntax = true := rfl
  clear_value doc e behaviour chunks before two printed
  obtain ⟨-, ⟨herror, -⟩, ⟨-, -, hwritten⟩, hexecuted⟩ :=
    first_failure_ends_run behaviour 0 1 2 doc two _ before _ _ _ e hread (.inl rfl) hbefore hfails
  rw [hlines, hsyntax] at herror
  exact ⟨herror, hwritten.trans hwrites, hexecuted.trans hchunks⟩

end LuaPages.Document
