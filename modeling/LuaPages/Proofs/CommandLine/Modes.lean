import LuaPages.Proofs.CommandLine.Run
import LuaPages.Proofs.Document.Interpret

namespace LuaPages

namespace Document

theorem interpret_error (doc : Bytes) (out : Destination) :
    (interpret doc out).error = (Expansion.run runRegion newState doc out).2.map Failure.toError := rfl

theorem interpret_out (doc : Bytes) (out : Destination) :
    (interpret doc out).out = (Expansion.run runRegion newState doc out).1.out := rfl

/-- Without a limit a document either expands to its end, or is written up to the first region that
fails. -/
theorem interpret_cases (doc : Bytes) :
    let d := interpret doc .unlimited
    d.error = none ∨ ∃ before chunk e,
      FirstFailure runRegion newState (Segment.read doc) before chunk e ∧
      let opening := (Segment.assemble before).size
      let d₀ := interpret (doc.extract 0 opening) .unlimited
      isOpenMarker doc opening = true ∧
      d.error = some (.script
        (1 + Bytes.lineFeeds (doc.extract 0 (opening + openMarker.size + chunk.size))) e.text
        e.isSyntax) ∧
      d₀.error = none ∧ d.out.written = d₀.out.written := by
  simp only [interpret_error, interpret_out]
  rcases run_cases runRegion newState doc with
    hdone | ⟨before, chunk, e, hfailure, hopen, hfails, hdone₀, hout⟩
  · exact .inl (by rw [hdone, Option.map_none])
  · refine .inr ⟨before, chunk, e, hfailure, hopen, ?_, ?_, hout⟩
    · rw [hfails, Option.map_some, Failure.toError]
    · rw [hdone₀, Option.map_none]

theorem render_of_error_none {doc : Bytes} (h : (interpret doc .unlimited).error = none) :
    render doc = .ok (interpret doc .unlimited).out.written := by
  simp only [render, h]

theorem render_of_error_some {doc : Bytes} {e : Error}
    (h : (interpret doc .unlimited).error = some e) : render doc = .error e := by
  simp only [render, h]

end Document

namespace CommandLine

open Document (interpret FirstFailure isOpenMarker openMarker)

/-- A request that leads to a document is answered with what rendering the document comes to. -/
theorem serve_of_located {files : FileAccess Id} {c : Site.Config} {request path : String} {doc : Bytes}
    {rel : List String} (hcovered : ∃ r ∈ c.rules, r.base.toList <+: request.toList)
    (hclean : Site.RequestPath.clean request = some rel)
    (hlocate : Site.locate files c request rel = (some path : Option String))
    (hread : files.read path = (.ok doc : Except FileError Bytes)) :
    Site.serve files c request = Site.render c.timeout request doc := by
  rw [Site.serve_of_clean hcovered hclean, hlocate]
  simp only [Site.Answer.ofLocated, hread]

/-- A document comes to the same from standard input as at a request path that leads to it, if there is
no deadline. Either both ways give the same bytes, or both fail with the same error; then standard input
has given what the document before the first failing region expands to, and the path gives nothing. -/
theorem modes_agree (files : FileAccess Id) (c : Site.Config) (request path : String) (doc : Bytes)
    (rel : List String) (hcovered : ∃ r ∈ c.rules, r.base.toList <+: request.toList)
    (hclean : Site.RequestPath.clean request = some rel)
    (hlocate : Site.locate files c request rel = (some path : Option String))
    (hread : files.read path = (.ok doc : Except FileError Bytes)) (htimeout : c.timeout = none) :
    let fromStdin : Ending := renderDocument c.timeout doc
    let answer : Site.Answer := Site.serve files c request
    let fromPath : Ending := renderPaths files c [request] [0]
    (fromStdin.succeeded = true ∧ fromPath.succeeded = true ∧
      answer = .ok (.rendered fromStdin.stdout) ∧ fromPath.stdout = fromStdin.stdout) ∨
    ∃ before chunk e,
      FirstFailure Document.runRegion Document.newState (Document.Segment.read doc) before chunk e ∧
      let opening := (Document.Segment.assemble before).size
      let line := 1 + Bytes.lineFeeds (doc.extract 0 (opening + openMarker.size + chunk.size))
      let error := Document.Error.script line e.text e.isSyntax
      let d₀ := interpret (doc.extract 0 opening) .unlimited
      isOpenMarker doc opening = true ∧
      fromStdin = .failed d₀.out.written error.message ∧ d₀.error = none ∧
      answer = .error (.render request error) ∧ fromPath.succeeded = false ∧
      fromPath.stdout = .empty := by
  intro fromStdin answer fromPath
  have hanswer : answer = Site.Answer.ofResult request (Document.render doc) := by
    rw [← Site.render_none, ← htimeout]
    exact serve_of_located hcovered hclean hlocate hread
  -- both ways are taken back to the document, which either expands or has a first failing region
  have hstdin : fromStdin = renderDocument none doc := by rw [← htimeout]
  have hpath : fromPath = .ofAnswer request answer := renderPaths_singleton files c request
  rcases Document.interpret_cases doc with
    hdone | ⟨before, chunk, e, hfailure, hopen, herror, hdone₀, hout⟩
  · rw [Document.render_of_error_none hdone] at hanswer
    rw [renderDocument_of_done hdone] at hstdin
    refine .inl ⟨?_, ?_, ?_, ?_⟩
    · rw [hstdin]
    · rw [hpath, hanswer]
      rfl
    · rw [hanswer, hstdin]
      rfl
    · rw [hpath, hanswer, hstdin]
      rfl
  · rw [Document.render_of_error_some herror] at hanswer
    refine .inr ⟨before, chunk, e, hfailure, hopen, ?_, hdone₀, hanswer, ?_, ?_⟩
    · rw [hstdin, renderDocument_of_error herror, hout]
    · rw [hpath, hanswer]
      rfl
    · rw [hpath, hanswer]
      rfl

/-- The index page of a directory that is asked for. -/
theorem modes_agree_at_index_page :
    let doc := "x".toUTF8
    let files := ((FileTree.ofWorking []).add "docs/index.html" (some doc)).access
    let fromPath : Ending := renderPaths files .byDefault ["/docs/"] [0]
    Site.RequestPath.clean "/docs/" = some ["docs"] ∧
      Site.locate files .byDefault "/docs/" ["docs"] = some "./docs/index.html" ∧
      (renderDocument none doc).succeeded = true ∧ fromPath.succeeded = true ∧
      (renderDocument none doc).stdout = doc ∧ fromPath.stdout = doc := by
  intro doc files fromPath
  have hclean : Site.RequestPath.clean "/docs/" = some ["docs"] := by decide
  have hlocate : Site.locate files .byDefault "/docs/" ["docs"] = some "./docs/index.html" := rfl
  have hserved : (Site.serve files .byDefault "/docs/" : Site.Answer) = .ok (.rendered doc) := rfl
  have hagree := modes_agree files .byDefault "/docs/" "./docs/index.html" doc ["docs"]
    ⟨.slash, List.mem_cons_self, by decide⟩ hclean hlocate rfl rfl
  rw [hserved] at hagree
  rcases hagree with ⟨hstdin, hpath, hbody, hsame⟩ | ⟨_, _, _, _, _, _, _, hfailed, _⟩
  · injection hbody with hbody
    injection hbody with hbody
    exact ⟨hclean, hlocate, hstdin, hpath, hbody.symm, hsame.trans hbody.symm⟩
  · cases hfailed

end CommandLine

end LuaPages
