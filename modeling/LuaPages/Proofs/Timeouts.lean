import LuaPages.Proofs.CommandLine.Grammar
import LuaPages.Proofs.Document.Deadline
import LuaPages.Proofs.Site.Lines
import LuaPages.Proofs.Site.Serve
import LuaPages.Proofs.Site.Timeout
/-!
Timeouts wherever they are written: as a text, in a site file and among the arguments of the command line.
The deadline is in each place the one for the number that the text denotes. It has a length above zero
exactly for a number above the bound for a nanosecond. A number that is smaller, but is not read as zero,
gives a deadline of no time, under which no document is rendered.
-/
namespace LuaPages

open Site

theorem Site.Directive.eq_timeout_of_ofWords {name : String} {args : List String}
    {r : Option Duration} (h : ofWords name args = .ok (.timeout r)) :
    ∃ word, name = "timeout" ∧ args = [word] ∧ readTimeout word = .ok r := by
  unfold ofWords at h
  split at h
  case h_8 word =>
    obtain ⟨r', hread, hr⟩ := CommandLine.exists_of_map_eq_ok h
    cases hr
    exact ⟨word, rfl, rfl, CommandLine.eq_ok_of_mapError hread⟩
  all_goals cases h

/-- The words of a line that sets a timeout. -/
theorem Site.Directive.exists_of_readLine_timeout {line : List Char} {r : Option Duration}
    (h : readLine line = .ok (some (.timeout r))) :
    ∃ word, (Words.split (Blank.trim line)).map String.ofList = ["timeout", word] ∧
      readTimeout word = .ok r := by
  rw [readLine] at h
  split at h
  · cases h
  · cases h
  split at h
  · cases h
  next name args hwords =>
  obtain ⟨d, hd, hsome⟩ := CommandLine.exists_of_map_eq_ok h
  cases hsome
  obtain ⟨word, rfl, rfl, hread⟩ := eq_timeout_of_ofWords hd
  exact ⟨word, hwords, hread⟩

theorem Site.SiteFile.exists_of_mem_directivesOf {text : String} {r : Option Duration}
    (h : .timeout r ∈ directivesOf text) :
    ∃ line ∈ linesOf text, ∃ word,
      (Words.split (Blank.trim line)).map String.ofList = ["timeout", word] ∧
      readTimeout word = .ok r := by
  obtain ⟨line, hline, hread⟩ := List.mem_filterMap.mp h
  refine ⟨line, hline, Directive.exists_of_readLine_timeout ?_⟩
  rw [Directive.ofLine?] at hread
  cases hd : Directive.readLine line with
  | error e =>
    rw [hd] at hread
    cases hread
  | ok d =>
    rw [hd] at hread
    exact congrArg Except.ok hread

open CommandLine in
/-- What is read from arguments has read each value that these give to the timeout. -/
theorem CommandLine.Arguments.exists_timeouts_of_read {args : List String} {a : Arguments}
    (h : Arguments.read args = .ok a) :
    ∃ items tail, Item.AreProper items tail ∧ args = Item.flatten items tail ∧
      (∀ word ∈ items.filterMap (Item.value? .timeout), ∃ r, readTimeout word = .ok r) ∧
      a.options.timeout.map Except.ok = (Item.last? (Item.value? .timeout) items).map readTimeout := by
  obtain ⟨items, tail, rfl, hmeans⟩ := Arguments.exists_items_of_read h
  obtain ⟨hoptions, -, -⟩ := (Arguments.read_flatten hmeans.proper).mp h
  refine ⟨items, tail, hmeans.proper, rfl, ?_, ?_⟩
  · exact (Item.exists_options_iff items .unset).mp ⟨_, hoptions⟩
  · rw [hmeans.sets.timeout]
    exact Option.or_none

/-- A text that is accepted for a timeout denotes a number, and gives no deadline, one of no time or one
of some time as the number is within the bound for zero, between the two bounds or above the bound for a
nanosecond. So do the timeouts of a site file, of which the last counts, and the values of the flag for
the timeout, of which the last counts too. A deadline of no time is over before any document is
rendered. -/
theorem timeouts_positive_above_bound (text file : String) (args : List String) :
    (∀ r, readTimeout text = .ok r →
      ∃ v, RealText.denoted? text.toList = some v ∧ IsDeadlineFor v r) ∧
    (∀ c, SiteFile.load file = .ok c →
      c.timeout = (Directive.last? Directive.timeout? (SiteFile.directivesOf file)).getD none ∧
      ∀ r, .timeout r ∈ SiteFile.directivesOf file → ∃ line ∈ SiteFile.linesOf file, ∃ word v,
        (Words.split (Blank.trim line)).map String.ofList = ["timeout", word] ∧
        RealText.denoted? word.toList = some v ∧ IsDeadlineFor v r) ∧
    (∀ a, CommandLine.Arguments.read args = .ok a →
      ∃ items tail, CommandLine.Item.AreProper items tail ∧
        args = CommandLine.Item.flatten items tail ∧
        a.options.timeout.map Except.ok =
          (CommandLine.Item.last? (CommandLine.Item.value? .timeout) items).map readTimeout ∧
        ∀ word ∈ items.filterMap (CommandLine.Item.value? .timeout), ∃ r v,
          readTimeout word = .ok r ∧ RealText.denoted? word.toList = some v ∧ IsDeadlineFor v r) ∧
    ∀ request contents, render (some ⟨0⟩) request contents = .error (.overrun request ⟨0⟩) := by
  refine ⟨fun r => isDeadlineFor_of_readTimeout, ?_, ?_, ?_⟩
  · intro c hload
    obtain ⟨-, rfl⟩ := SiteFile.load_eq_ok_iff.mp hload
    refine ⟨(SiteFile.configure_setBy _).timeout, ?_⟩
    intro r hr
    obtain ⟨line, hline, word, hwords, hread⟩ := SiteFile.exists_of_mem_directivesOf hr
    obtain ⟨v, hv, hdeadline⟩ := isDeadlineFor_of_readTimeout hread
    exact ⟨line, hline, word, v, hwords, hv, hdeadline⟩
  · intro a hread
    obtain ⟨items, tail, hproper, hargs, hvalues, hlast⟩ :=
      CommandLine.Arguments.exists_timeouts_of_read hread
    refine ⟨items, tail, hproper, hargs, hlast, ?_⟩
    intro word hword
    obtain ⟨r, hr⟩ := hvalues word hword
    obtain ⟨v, hv, hdeadline⟩ := isDeadlineFor_of_readTimeout hr
    exact ⟨r, v, hr, hv, hdeadline⟩
  · intro request contents
    rw [render, Document.renderWithin_zero]

/-- One nanosecond, as a text, in a site file and among arguments. -/
theorem timeouts_positive_above_bound_at_nanosecond :
    (∃ v, RealText.denoted? "1e-9".toList = some v ∧ nanosecondBound < v) ∧
    (∃ c, SiteFile.load "root a\ntimeout 1e-9" = .ok c ∧ c.timeout = some ⟨1⟩ ∧
      ∃ line ∈ SiteFile.linesOf "root a\ntimeout 1e-9", ∃ word v,
        (Words.split (Blank.trim line)).map String.ofList = ["timeout", word] ∧
        RealText.denoted? word.toList = some v ∧ nanosecondBound < v) ∧
    ∃ a, CommandLine.Arguments.read ["-t1e-9"] = .ok a ∧ a.options.timeout = some (some ⟨1⟩) ∧
      ∃ items tail, ["-t1e-9"] = CommandLine.Item.flatten items tail ∧
        a.options.timeout.map Except.ok =
          (CommandLine.Item.last? (CommandLine.Item.value? .timeout) items).map readTimeout := by
  obtain ⟨htext, hfile, hargs, -⟩ :=
    timeouts_positive_above_bound "1e-9" "root a\ntimeout 1e-9" ["-t1e-9"]
  have hpositive {v : ℚ} (h : IsDeadlineFor v (some ⟨1⟩)) : nanosecondBound < v :=
    h.positive_iff.mp ⟨⟨1⟩, rfl, by decide⟩
  have hread : readTimeout "1e-9" = .ok (some ⟨1⟩) := by decide +kernel
  have hload : SiteFile.load "root a\ntimeout 1e-9" =
      .ok ⟨"a", [.slash], Config.indexNamesByDefault, some ⟨1⟩⟩ := by decide +kernel
  have hdirective : .timeout (some ⟨1⟩) ∈ SiteFile.directivesOf "root a\ntimeout 1e-9" := by
    decide +kernel
  have harguments : CommandLine.Arguments.read ["-t1e-9"] =
      .ok ⟨⟨.search, none, some (some ⟨1⟩), false⟩, .stdin⟩ := by decide +kernel
  refine ⟨?_, ⟨_, hload, rfl, ?_⟩, _, harguments, rfl, ?_⟩
  · obtain ⟨v, hv, hdeadline⟩ := htext _ hread
    exact ⟨v, hv, hpositive hdeadline⟩
  · obtain ⟨line, hline, word, v, hwords, hv, hdeadline⟩ := (hfile _ hload).2 _ hdirective
    exact ⟨line, hline, word, v, hwords, hv, hpositive hdeadline⟩
  · obtain ⟨items, tail, -, hflatten, hlast, -⟩ := hargs _ harguments
    exact ⟨items, tail, hflatten, hlast⟩

/-- A number above zero that gives a deadline of no time, and one that gives no deadline at all. -/
theorem small_timeouts_not_positive :
    (∃ v, RealText.denoted? "1e-10".toList = some v ∧ v ≠ 0 ∧ readTimeout "1e-10" = .ok (some ⟨0⟩)) ∧
    ∃ v, RealText.denoted? "1e-400".toList = some v ∧ v ≠ 0 ∧ readTimeout "1e-400" = .ok none := by
  have hdenoted (l : List Char) (e : Int) (hsign : RealText.readSign l = (false, l))
      (h : RealText.readNumeral? l = some ⟨1, e⟩) : RealText.denoted? l = some (10 ^ e) := by
    rw [RealText.denoted?, hsign]
    dsimp only
    rw [h]
    simp
  have hnonzero (e : Int) : (10 : ℚ) ^ e ≠ 0 := zpow_ne_zero e (by decide)
  refine ⟨⟨_, hdenoted _ (-10) rfl (by decide), hnonzero (-10), by decide +kernel⟩, ?_⟩
  exact ⟨_, hdenoted _ (-400) rfl (by decide), hnonzero (-400), by decide +kernel⟩

end LuaPages
