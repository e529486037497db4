import LuaPages.Proofs.CommandLine.Arguments

namespace LuaPages.CommandLine

theorem Cluster.read_letter (flag : ValueFlag) (value : List Char) :
    read (flag.letter :: value) = .ok ⟨false, some (flag, value)⟩ := by
  cases flag <;> rfl

theorem Cluster.read_replicate (n : Nat) {letters : List Char} {c : Cluster}
    (h : read letters = .ok c) :
    read (List.replicate n 'd' ++ letters) = .ok { c with debug := c.debug || decide (0 < n) } := by
  induction n with
  | zero => simpa using h
  | succ n ih =>
    rw [List.replicate_succ, List.cons_append, read, ih]
    simp [Except.map]

namespace Reading

variable {r : Reading} {rest : List String}

def takeCluster (r : Reading) (c : Cluster) : Except UsageError Reading :=
  let o := { r.options with debug := r.options.debug || c.debug }
  match c.flag with
  | none => .ok { r with options := o }
  | some (flag, []) => .ok { r with options := o, awaiting := some flag }
  | some (flag, value) => (o.set flag (String.ofList value)).map fun o => { r with options := o }

theorem readAll_letters {letters : List Char} {c : Cluster} (hne : letters ≠ [])
    (hread : Cluster.read letters = .ok c) (hawaiting : r.awaiting = none) :
    readAll (String.ofList ('-' :: letters) :: rest) r = r.takeCluster c >>= readAll rest := by
  have hword (w : List Char) : String.ofList ('-' :: letters) = String.ofList w ↔ '-' :: letters = w :=
    String.ofList_inj
  -- a second dash is no letter that can be read
  have hdashes : String.ofList ('-' :: letters) ≠ "--" := by
    refine mt (hword ['-', '-']).mp ?_
    intro h
    cases h
    cases hread
  have hplain : isPlain (String.ofList ('-' :: letters)) = false := by
    have hdash : String.ofList ('-' :: letters) ≠ "-" := by
      refine mt (hword ['-']).mp ?_
      intro h
      cases h
      exact hne rfl
    rw [isPlain, String.toList_ofList, Bool.or_eq_false_iff, beq_eq_false_iff_ne]
    exact ⟨rfl, hdash⟩
  have htake : r.takeWord (String.ofList ('-' :: letters)) = r.takeCluster c := by
    rw [takeWord, hplain, String.toList_ofList, List.tail_cons, hread]
    obtain ⟨debug, _ | ⟨flag, _ | ⟨x, value⟩⟩⟩ := c
    · rfl
    · rfl
    · change (Options.set _ flag _ >>= _) = (Options.set _ flag _).map _
      rcases Options.set _ flag _ with e | o <;> rfl
  rw [readAll, hawaiting]
  dsimp only
  rw [if_neg hdashes, htake]

theorem readAll_value {flag : ValueFlag} {word : String} (hawaiting : r.awaiting = some flag)
    (hvalue : isValue flag word = true) :
    readAll (word :: rest) r =
      r.options.set flag word >>= fun o => readAll rest { r with options := o, awaiting := none } := by
  rw [readAll, hawaiting]
  dsimp only
  rw [if_pos hvalue]

/-- A flag for the site file that awaits its value gets none if no word or a word with a dash follows. -/
theorem readAll_unsettled (hawaiting : r.awaiting = some .file) (h : Item.startsWithDash rest = true) :
    readAll rest r =
      readAll rest { r with options := { r.options with siteFile := .skip }, awaiting := none } := by
  obtain ⟨options, words, awaiting⟩ := r
  cases hawaiting
  cases rest with
  | nil => rfl
  | cons word rest =>
    have hvalue : isValue .file word = false := by
      rw [isValue, Bool.or_eq_false_iff, bne_eq_false_iff_eq, bne_eq_false_iff_eq]
      exact ⟨rfl, beq_iff_eq.mp h⟩
    rw [readAll]
    dsimp only
    rw [hvalue]
    rfl

theorem readAll_plain {word : String} (hplain : isPlain word = true) (hawaiting : r.awaiting = none) :
    readAll (word :: rest) r = readAll rest { r with words := r.words ++ [word] } := by
  have hdashes : word ≠ "--" := by
    rintro rfl
    cases hplain
  obtain ⟨options, words, awaiting⟩ := r
  cases hawaiting
  rw [readAll]
  dsimp only
  rw [if_neg hdashes, takeWord, if_pos hplain]
  rfl

theorem readAll_debugs {n : Nat} (hn : 0 < n) (hawaiting : r.awaiting = none) :
    readAll ((Item.flags n none).written ++ rest) r =
      readAll rest { r with options := { r.options with debug := r.options.debug || decide (0 < n) } } := by
  have hne : List.replicate n 'd' ≠ [] := mt (List.replicate_eq_nil_iff _).mp (Nat.ne_of_gt hn)
  have hnone : Cluster.read [] = .ok ⟨false, none⟩ := rfl
  have hread := Cluster.read_replicate n hnone
  rw [List.append_nil] at hread
  rw [Item.written, List.append_nil]
  exact readAll_letters hne hread hawaiting

/-- The words of a flag set what the flag and its value say. -/
theorem readAll_flag {n : Nat} {v : FlagValue} (hproper : (Item.flags n (some v)).IsProper rest)
    (hawaiting : r.awaiting = none) :
    readAll ((Item.flags n (some v)).written ++ rest) r =
      v.set { r.options with debug := r.options.debug || decide (0 < n) } >>= fun o =>
        readAll rest { r with options := o } := by
  have hletters (flag : ValueFlag) (value : List Char) (rest : List String) :
      readAll (String.ofList ('-' :: (List.replicate n 'd' ++ flag.letter :: value)) :: rest) r =
        r.takeCluster ⟨decide (0 < n), some (flag, value)⟩ >>= readAll rest := by
    have hread := Cluster.read_replicate n (Cluster.read_letter flag value)
    rw [Bool.false_or] at hread
    exact readAll_letters (List.append_ne_nil_of_right_ne_nil _ (List.cons_ne_nil _ _)) hread hawaiting
  cases v with
  | attached flag value =>
    obtain ⟨x, value, rfl⟩ := List.exists_cons_of_ne_nil hproper
    refine (hletters flag (x :: value) rest).trans ?_
    change (Options.set _ flag _).map _ >>= _ = Options.set _ flag _ >>= _
    rcases Options.set _ flag _ with e | o <;> rfl
  | separate flag value =>
    refine (hletters flag [] (value :: rest)).trans ?_
    obtain ⟨options, words, awaiting⟩ := r
    cases hawaiting
    exact readAll_value (r := ⟨{ options with debug := options.debug || decide (0 < n) }, words, some flag⟩)
      rfl hproper
  | bare =>
    refine (hletters .file [] rest).trans ?_
    obtain ⟨options, words, awaiting⟩ := r
    cases hawaiting
    exact readAll_unsettled
      (r := ⟨{ options with debug := options.debug || decide (0 < n) }, words, some .file⟩) rfl hproper

end Reading

theorem Item.options_flags_error {v : FlagValue} {n : Nat} {o : Options} {e : UsageError}
    (h : v.set { o with debug := o.debug || decide (0 < n) } = .error e) (items : List Item) :
    ∃ e', e = .invalidTimeout e' ∧ options (.flags n (some v) :: items) o = .error e' := by
  rw [FlagValue.set] at h
  rw [options]
  cases hv : v.meaning with
  | none =>
    rw [hv] at h
    cases h
  | some p =>
    obtain ⟨flag, text⟩ := p
    rw [hv] at h
    cases flag with
    | file | root => cases h
    | timeout =>
      simp only [Options.set] at h
      cases hread : Site.readTimeout text with
      | ok t =>
        rw [hread] at h
        cases h
      | error e' =>
        rw [hread] at h
        cases h
        simp only [hread]
        exact ⟨e', rfl, rfl⟩

/-- A flag sets what it and its value say, and the items after it go on from there. -/
theorem Item.options_flags_eq (n : Nat) (v : FlagValue) (items : List Item) (o : Options) :
    (options (.flags n (some v) :: items) o).mapError .invalidTimeout =
      v.set { o with debug := o.debug || decide (0 < n) } >>= fun next =>
        (options items next).mapError .invalidTimeout := by
  cases hset : v.set { o with debug := o.debug || decide (0 < n) } with
  | ok next =>
    rw [options_flags hset]
    rfl
  | error e =>
    obtain ⟨e', rfl, herror⟩ := options_flags_error hset items
    rw [herror]
    rfl

theorem Reading.readAll_flatten {items : List Item} {tail : Option (List String)} {r : Reading}
    (hproper : Item.AreProper items tail) (hawaiting : r.awaiting = none) :
    readAll (Item.flatten items tail) r =
      ((Item.options items r.options).mapError .invalidTimeout).map fun o =>
        ⟨o, r.words ++ (Item.plainWords items ++ tail.getD []), none⟩ := by
  -- no item leaves a flag behind that awaits its value, so each is read as the first one is
  induction items generalizing r with
  | nil =>
    obtain ⟨options, words, awaiting⟩ := r
    cases hawaiting
    cases tail with
    | none =>
      change Except.ok _ = Except.ok (⟨options, words ++ [], none⟩ : Reading)
      rw [List.append_nil]
    | some after => rfl
  | cons i items ih =>
    obtain ⟨hi, hproper⟩ := hproper
    rw [Item.flatten_cons]
    cases i with
    | word w =>
      have hrest := ih (r := { r with words := r.words ++ [w] }) hproper hawaiting
      simp only [List.append_assoc] at hrest
      exact (readAll_plain hi hawaiting).trans hrest
    | flags n value =>
      cases value with
      | none =>
        apply (readAll_debugs hi hawaiting).trans
        exact ih (r := { r with options := _ }) hproper hawaiting
      | some v =>
        rw [readAll_flag hi hawaiting, Item.options_flags_eq]
        cases v.set { r.options with debug := r.options.debug || decide (0 < n) } with
        | error e => rfl
        | ok o => exact ih (r := { r with options := o }) hproper hawaiting

namespace Item

def debugs : Item → Nat
  | .word _ => 0
  | .flags n _ => n

/-- Items set something if all values that they give to the timeout are numbers of seconds. -/
theorem exists_options_iff (items : List Item) (o : Options) :
    (∃ next, options items o = .ok next) ↔
      ∀ text ∈ items.filterMap (value? .timeout), ∃ limit, Site.readTimeout text = .ok limit := by
  induction items generalizing o with
  | nil => exact iff_of_true ⟨o, rfl⟩ nofun
  | cons i items ih =>
    -- an item that gives a value to the timeout
    have htimeout {text : String} {mid : Option Duration → Options} (hvalue : value? .timeout i = some text)
        (hrun : options (i :: items) o = Site.readTimeout text >>= fun t => options items (mid t)) :
        (∃ next, options (i :: items) o = .ok next) ↔
          ∀ t ∈ (i :: items).filterMap (value? .timeout), ∃ limit, Site.readTimeout t = .ok limit := by
      rw [List.filterMap_cons_some hvalue, List.forall_mem_cons, hrun]
      cases Site.readTimeout text with
      | error e => exact iff_of_false nofun nofun
      | ok t =>
        rw [and_iff_right ⟨t, rfl⟩]
        exact ih (mid t)
    cases i with
    | word w => exact ih o
    | flags n value =>
      rcases value with _ | (⟨_ | _ | _, value⟩ | ⟨_ | _ | _, value⟩ | _)
      case some.attached.timeout | some.separate.timeout => exact htimeout rfl rfl
      all_goals exact ih _

theorem debug_of_options {items : List Item} {o next : Options} (h : options items o = .ok next) :
    next.debug = true ↔ o.debug = true ∨ ∃ i ∈ items, 0 < i.debugs := by
  induction items generalizing o with
  | nil =>
    cases h
    simp
  | cons i items ih =>
    cases i with
    | word w =>
      rw [ih h]
      simp [debugs]
    | flags n value =>
      have hdebug {mid : Options} (hrest : options items mid = .ok next)
          (hmid : mid.debug = (o.debug || decide (0 < n))) :
          next.debug = true ↔ o.debug = true ∨ ∃ i ∈ Item.flags n value :: items, 0 < i.debugs := by
        rw [ih hrest, hmid]
        simp [debugs, or_assoc]
      rcases value with _ | (⟨_ | _ | _, value⟩ | ⟨_ | _ | _, value⟩ | _)
      case some.attached.timeout | some.separate.timeout =>
        obtain ⟨t, -, h⟩ := exists_of_bind_eq_ok h
        exact hdebug h rfl
      all_goals exact hdebug h rfl

end Item

def Input.meant (words : List String) : Input :=
  if words = [] ∨ words = ["-"] then .stdin else .paths words

theorem Input.meant_eq_stdin_iff {words : List String} :
    meant words = .stdin ↔ words = [] ∨ words = ["-"] := by
  rw [meant]
  split <;> simp [*]

theorem Input.ofWords_eq_ok_iff {words : List String} {input : Input} :
    ofWords words = .ok input ↔ ¬ ("-" ∈ words ∧ 2 ≤ words.length) ∧ input = meant words := by
  rw [ofWords, meant]
  split
  · rename_i hfew
    have hshort : ¬ ("-" ∈ words ∧ 2 ≤ words.length) := by
      rintro ⟨-, hlength⟩
      rcases hfew with rfl | rfl
      · exact absurd hlength (by decide)
      · exact absurd hlength (by decide)
    rw [Except.ok.injEq, and_iff_right hshort, eq_comm]
  · rename_i hmany
    have hlong (hdash : "-" ∈ words) : 2 ≤ words.length := by
      match words, hmany, hdash with
      | [w], hmany, hdash =>
        rw [List.mem_singleton.mp hdash] at hmany
        exact absurd (.inr rfl) hmany
      | _ :: _ :: _, _, _ => exact Nat.le_add_left _ _
    split
    · rename_i hdash
      exact iff_of_false nofun fun h => h.1 ⟨hdash, hlong hdash⟩
    · rename_i hdash
      rw [Except.ok.injEq, and_iff_right (fun h => hdash h.1), eq_comm]

theorem Arguments.read_flatten {items : List Item} {tail : Option (List String)}
    (hproper : Item.AreProper items tail) {a : Arguments} :
    read (Item.flatten items tail) = .ok a ↔
      Item.options items .unset = .ok a.options ∧
        Input.ofWords (Item.plainWords items ++ tail.getD []) = .ok a.input ∧
        ¬ (a.input = .stdin ∧ a.options.root.isSome = true) := by
  rw [read, Reading.readAll_flatten hproper rfl]
  change (((Item.options items .unset).mapError _).map _ >>= _) = _ ↔ _
  -- what can go wrong: a flag, the words, and a root where standard input is read
  cases Item.options items .unset with
  | error e =>
    constructor
    · intro h
      cases h
    · rintro ⟨h, -⟩
      cases h
  | ok o =>
    change (Input.ofWords (Item.plainWords items ++ tail.getD []) >>= _) = _ ↔ _
    cases Input.ofWords (Item.plainWords items ++ tail.getD []) with
    | error e =>
      constructor
      · intro h
        cases h
      · rintro ⟨-, h, -⟩
        cases h
    | ok input =>
      obtain ⟨options, input'⟩ := a
      change (if input = .stdin ∧ o.root.isSome = true then Except.error UsageError.rootForStdin
        else .ok (⟨o, input⟩ : Arguments)) = _ ↔ _
      split
      · rename_i hroot
        constructor
        · intro h
          cases h
        · rintro ⟨ho, hinput, hnot⟩
          cases ho
          cases hinput
          exact absurd hroot hnot
      · rename_i hroot
        simp only [Except.ok.injEq, Arguments.mk.injEq]
        constructor
        · rintro ⟨rfl, rfl⟩
          exact ⟨rfl, rfl, hroot⟩
        · rintro ⟨rfl, rfl, -⟩
          exact ⟨rfl, rfl⟩

/-- The arguments that are accepted are those that consist of items, maybe with `--` and more words after
them, where each value of the timeout is a number of seconds, `-` stands alone, and a root comes with
request paths. Of each flag the last value counts, and the words that stand for themselves are the
request paths; none, or only `-`, asks for standard input. -/
theorem Arguments.accepted_by_items :
    (∀ (items : List Item) (tail : Option (List String)), Item.AreProper items tail →
      let args := Item.flatten items tail
      let words := Item.plainWords items ++ tail.getD []
      ((∃ a, read args = .ok a) ↔
        (∀ text ∈ items.filterMap (Item.value? .timeout), ∃ limit, Site.readTimeout text = .ok limit) ∧
        ¬ ("-" ∈ words ∧ 2 ≤ words.length) ∧
        ((words = [] ∨ words = ["-"]) → items.filterMap (Item.value? .root) = [])) ∧
      ∀ a, read args = .ok a →
        (a.options.debug = true ↔ ∃ i ∈ items, 0 < i.debugs) ∧
        a.options.siteFile = (Item.last? Item.siteFile? items).getD .search ∧
        a.options.root = Item.last? (Item.value? .root) items ∧
        a.options.timeout.map Except.ok =
          (Item.last? (Item.value? .timeout) items).map Site.readTimeout ∧
        a.input = if words = [] ∨ words = ["-"] then .stdin else .paths words) ∧
    ∀ (args : List String) (a : Arguments), read args = .ok a →
      ∃ items tail, Item.AreProper items tail ∧ args = Item.flatten items tail := by
  refine ⟨fun items tail hproper => ?_, fun args a hread => ?_⟩
  · intro args words
    -- whether a root is refused for standard input depends on the last one, so on whether there is any
    have hroot {o : Options} (ho : Item.options items .unset = .ok o) :
        o.root.isSome = true ↔ items.filterMap (Item.value? .root) ≠ [] := by
      have hlast : o.root = Item.last? (Item.value? .root) items := by
        rw [(Item.sets_of_options ho).root]
        exact Option.or_none
      rw [hlast, Item.last?, List.getLast?_isSome]
    refine ⟨?_, ?_⟩
    · rw [← Item.exists_options_iff items .unset]
      constructor
      · rintro ⟨a, hread⟩
        obtain ⟨ho, hinput, hstdin⟩ := (read_flatten hproper).mp hread
        obtain ⟨hdash, hmeant⟩ := Input.ofWords_eq_ok_iff.mp hinput
        refine ⟨⟨_, ho⟩, hdash, fun hfew => Decidable.byContradiction fun hgiven => ?_⟩
        exact hstdin ⟨hmeant.trans (Input.meant_eq_stdin_iff.mpr hfew), (hroot ho).mpr hgiven⟩
      · rintro ⟨⟨o, ho⟩, hdash, hfew⟩
        refine ⟨⟨o, Input.meant words⟩, (read_flatten hproper).mpr ⟨ho, ?_, ?_⟩⟩
        · exact Input.ofWords_eq_ok_iff.mpr ⟨hdash, rfl⟩
        · rintro ⟨hstdin, hgiven⟩
          exact (hroot ho).mp hgiven (hfew (Input.meant_eq_stdin_iff.mp hstdin))
    · intro a hread
      obtain ⟨ho, hinput, -⟩ := (read_flatten hproper).mp hread
      obtain ⟨hsiteFile, hlastRoot, htimeout⟩ := Item.sets_of_options ho
      refine ⟨?_, hsiteFile, hlastRoot.trans Option.or_none, ?_, (Input.ofWords_eq_ok_iff.mp hinput).2⟩
      · rw [Item.debug_of_options ho, or_iff_right (by decide)]
      · exact htimeout.trans Option.or_none
  · obtain ⟨items, tail, hargs, hmeans⟩ := exists_items_of_read hread
    exact ⟨items, tail, hmeans.proper, hargs⟩

/-- The root is the word `--`, the flag for the site file has no value since a dash follows, and a second
`--` ends the flags. -/
theorem Arguments.accepted_by_items_with_dashes :
    ∃ a, read ["-dr", "--", "-f", "-t0", "/a", "--", "-odd"] = .ok a ∧ a.options.debug = true ∧
      a.options.siteFile = .skip ∧ a.options.root = some "--" ∧ a.input = .paths ["/a", "-odd"] := by
  let items : List Item := [.flags 1 (some (.separate .root "--")), .flags 0 (some .bare),
    .flags 0 (some (.attached .timeout ['0'])), .word "/a"]
  have hproper : Item.AreProper items (some ["-odd"]) :=
    ⟨rfl, rfl, List.cons_ne_nil _ _, rfl, trivial⟩
  have htimeout : Site.readTimeout "0" = .ok none := rfl
  obtain ⟨haccepted, hmeaning⟩ := accepted_by_items.1 items (some ["-odd"]) hproper
  obtain ⟨a, hread⟩ :=
    haccepted.mpr ⟨List.forall_mem_singleton.mpr ⟨none, htimeout⟩, by decide, by decide⟩
  obtain ⟨hdebug, hsiteFile, hroot, -, hinput⟩ := hmeaning a hread
  exact ⟨a, hread, hdebug.mpr ⟨_, List.mem_cons_self, by decide⟩, hsiteFile, hroot, hinput⟩

end LuaPages.CommandLine
