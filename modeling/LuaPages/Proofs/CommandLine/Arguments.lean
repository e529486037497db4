import LuaPages.Proofs.CommandLine.Item

namespace LuaPages.CommandLine

section
variable {ε ε' α β : Type}

theorem exists_of_bind_eq_ok {x : Except ε α} {f : α → Except ε β} {b : β} (h : x >>= f = .ok b) :
    ∃ a, x = .ok a ∧ f a = .ok b := by
  cases x with
  | error e => cases h
  | ok a => exact ⟨a, rfl, h⟩

theorem exists_of_map_eq_ok {x : Except ε α} {f : α → β} {b : β} (h : x.map f = .ok b) :
    ∃ a, x = .ok a ∧ f a = b := by
  cases x with
  | error e => cases h
  | ok a => exact ⟨a, rfl, Except.ok.inj h⟩

theorem eq_ok_of_mapError {x : Except ε α} {f : ε → ε'} {a : α} (h : x.mapError f = .ok a) :
    x = .ok a := by
  cases x with
  | error e => cases h
  | ok b => exact congrArg Except.ok (Except.ok.inj h)

end

theorem ValueFlag.eq_letter_of_ofLetter? {c : Char} {flag : ValueFlag} (h : ofLetter? c = some flag) :
    c = flag.letter := by
  unfold ofLetter? at h
  split at h <;> cases h <;> rfl

def Cluster.rest (c : Cluster) : List Char :=
  match c.flag with
  | none => []
  | some (flag, value) => flag.letter :: value

/-- Letters that can be read are a number of `d` and at most one flag with the rest of the word. -/
theorem Cluster.exists_of_read {letters : List Char} {c : Cluster} (h : read letters = .ok c) :
    ∃ n, c.debug = decide (0 < n) ∧ letters = List.replicate n 'd' ++ c.rest := by
  induction letters generalizing c with
  | nil =>
    cases h
    exact ⟨0, rfl, rfl⟩
  | cons x letters ih =>
    by_cases hx : x = 'd'
    · subst hx
      rw [read] at h
      obtain ⟨c', hread, rfl⟩ := exists_of_map_eq_ok h
      obtain ⟨n, -, hletters⟩ := ih hread
      exact ⟨n + 1, by simp, congrArg (List.cons 'd') hletters⟩
    · rw [read.eq_3 _ _ hx] at h
      cases hflag : ValueFlag.ofLetter? x with
      | none =>
        rw [hflag] at h
        cases h
      | some flag =>
        rw [hflag] at h
        cases h
        exact ⟨0, rfl, congrArg (List.cons · letters) (ValueFlag.eq_letter_of_ofLetter? hflag)⟩

def FlagValue.set (v : FlagValue) (o : Options) : Except UsageError Options :=
  match v.meaning with
  | none => .ok { o with siteFile := .skip }
  | some (flag, value) => o.set flag value

theorem Item.options_flags {v : FlagValue} {n : Nat} {o next : Options}
    (h : v.set { o with debug := o.debug || decide (0 < n) } = .ok next) (items : List Item) :
    options (.flags n (some v) :: items) o = options items next := by
  rw [FlagValue.set] at h
  rw [options]
  cases hv : v.meaning with
  | none =>
    rw [hv] at h
    cases h
    rfl
  | some p =>
    obtain ⟨flag, value⟩ := p
    rw [hv] at h
    cases flag with
    | file | root =>
      cases h
      rfl
    | timeout =>
      obtain ⟨t, htimeout, rfl⟩ := exists_of_map_eq_ok h
      have htimeout := eq_ok_of_mapError htimeout
      simp only [htimeout]
      rfl

theorem Item.flatten_cons (i : Item) (items : List Item) (tail : Option (List String)) :
    flatten (i :: items) tail = i.written ++ flatten items tail := by
  simp only [flatten, List.map_cons, List.flatten_cons, List.append_assoc]

/-- Arguments that consist of items, and what these lead to. -/
structure Reading.Leads (r : Reading) (items : List Item) (tail : Option (List String))
    (args : List String) (next : Reading) : Prop where
  written : args = Item.flatten items tail
  proper : Item.AreProper items tail
  options : Item.options items r.options = .ok next.options
  words : next.words = r.words ++ (Item.plainWords items ++ tail.getD [])

namespace Reading

variable {r next : Reading} {args : List String}

theorem Leads.word {items : List Item} {tail : Option (List String)} {w : String}
    (h : Leads { r with words := r.words ++ [w] } items tail args next) (hw : isPlain w = true) :
    Leads r (.word w :: items) tail (w :: args) next := by
  refine ⟨?_, ⟨hw, h.proper⟩, h.options, ?_⟩
  · rw [Item.flatten_cons, ← h.written]
    rfl
  · rw [h.words, List.append_assoc]
    rfl

theorem Leads.debugs {items : List Item} {tail : Option (List String)} {n : Nat} (hn : 0 < n)
    (h : Leads { r with options := { r.options with debug := r.options.debug || decide (0 < n) } } items
      tail args next) :
    Leads r (.flags n none :: items) tail (String.ofList ('-' :: List.replicate n 'd') :: args) next := by
  refine ⟨?_, ⟨hn, h.proper⟩, h.options, h.words⟩
  rw [Item.flatten_cons, ← h.written, Item.written, List.append_nil]
  rfl

theorem Leads.value {r' : Reading} {items : List Item} {tail : Option (List String)} {n : Nat}
    {v : FlagValue} {letters : List Char} {after : List String} (h : Leads r' items tail args next)
    (hv : v.written = (letters, after)) (hproper : (Item.flags n (some v)).IsProper args)
    (hset : v.set { r.options with debug := r.options.debug || decide (0 < n) } = .ok r'.options)
    (hwords : r'.words = r.words) :
    Leads r (.flags n (some v) :: items) tail
      (String.ofList ('-' :: (List.replicate n 'd' ++ letters)) :: (after ++ args)) next := by
  refine ⟨?_, ⟨?_, h.proper⟩, ?_, ?_⟩
  · rw [Item.flatten_cons, ← h.written, Item.written, hv]
    rfl
  · rw [← h.written]
    exact hproper
  · rw [Item.options_flags hset]
    exact h.options
  · rw [h.words, hwords]
    rfl

theorem exists_letters_of_not_plain {word : String} (h : isPlain word = false) :
    ∃ letters, letters ≠ [] ∧ word = String.ofList ('-' :: letters) := by
  rw [isPlain, Bool.or_eq_false_iff, bne_eq_false_iff_eq, beq_eq_false_iff_ne] at h
  obtain ⟨hdash, hne⟩ := h
  obtain ⟨letters, hword⟩ := List.head?_eq_some_iff.mp hdash
  have hword : word = String.ofList ('-' :: letters) := by rw [← hword, String.ofList_toList]
  refine ⟨letters, ?_, hword⟩
  rintro rfl
  exact hne hword

/-- What a word does where no value is awaited: it stands for itself, or it has a number of `d` and then
no flag, a flag that awaits its value, or a flag with its value. -/
theorem takeWord_cases {word : String} (h : r.takeWord word = .ok next) :
    (isPlain word = true ∧ next = { r with words := r.words ++ [word] }) ∨
    ∃ n, let o := { r.options with debug := r.options.debug || decide (0 < n) }
      (0 < n ∧ word = String.ofList ('-' :: List.replicate n 'd') ∧ next = { r with options := o }) ∨
      (∃ flag, word = String.ofList ('-' :: (List.replicate n 'd' ++ [flag.letter])) ∧
        next = { r with options := o, awaiting := some flag }) ∨
      ∃ flag value o', value ≠ [] ∧
        word = String.ofList ('-' :: (List.replicate n 'd' ++ flag.letter :: value)) ∧
        o.set flag (String.ofList value) = .ok o' ∧ next = { r with options := o' } := by
  rw [takeWord] at h
  cases hplain : isPlain word with
  | true =>
    rw [if_pos hplain] at h
    cases h
    exact .inl ⟨rfl, rfl⟩
  | false =>
    rw [if_neg (Bool.eq_false_iff.mp hplain)] at h
    obtain ⟨letters, hne, rfl⟩ := exists_letters_of_not_plain hplain
    rw [String.toList_ofList, List.tail_cons] at h
    replace h := exists_of_bind_eq_ok h
    obtain ⟨⟨debug, flag⟩, hread, h⟩ := h
    obtain ⟨n, hdebug, rfl⟩ := Cluster.exists_of_read hread
    obtain rfl : debug = decide (0 < n) := hdebug
    refine .inr ⟨n, ?_⟩
    -- after the `d` there is nothing, a flag that awaits its value, or one with its value
    rcases flag with _ | ⟨flag, _ | ⟨x, value⟩⟩
    · cases h
      rw [Cluster.rest, List.append_nil] at hne ⊢
      refine .inl ⟨Nat.pos_of_ne_zero ?_, rfl, rfl⟩
      rintro rfl
      exact hne rfl
    · cases h
      exact .inr (.inl ⟨flag, rfl, rfl⟩)
    · obtain ⟨o, hset, h⟩ := exists_of_bind_eq_ok h
      cases h
      exact .inr (.inr ⟨flag, x :: value, o, List.cons_ne_nil _ _, rfl, hset, rfl⟩)

/-- A flag that awaits its value gets the next word. A flag for the site file may also get none, before
a word with a dash and at the end. -/
theorem exists_value_of_readAll {flag : ValueFlag} (hawaiting : r.awaiting = some flag)
    (h : readAll args r = .ok next) :
    ∃ v after rest o, FlagValue.written v = ([flag.letter], after) ∧ args = after ++ rest ∧
      (∀ n, (Item.flags n (some v)).IsProper rest) ∧ v.set r.options = .ok o ∧
      readAll rest { r with options := o, awaiting := none } = .ok next := by
  cases args with
  | nil =>
    rw [readAll, settle, hawaiting] at h
    cases flag with
    | root | timeout => cases h
    | file =>
      cases h
      exact ⟨.bare, [], [], _, rfl, rfl, fun _ => rfl, rfl, rfl⟩
  | cons word args =>
    rw [readAll, hawaiting] at h
    dsimp only at h
    cases hvalue : isValue flag word with
    | true =>
      rw [if_pos hvalue] at h
      obtain ⟨o, hset, h⟩ := exists_of_bind_eq_ok h
      exact ⟨.separate flag word, [word], args, o, rfl, rfl, fun _ => hvalue, hset, h⟩
    | false =>
      rw [if_neg (Bool.eq_false_iff.mp hvalue)] at h
      rw [isValue, Bool.or_eq_false_iff, bne_eq_false_iff_eq, bne_eq_false_iff_eq] at hvalue
      obtain ⟨rfl, hdash⟩ := hvalue
      rw [settle, hawaiting] at h
      exact ⟨.bare, [], word :: args, _, rfl, rfl, fun _ => beq_iff_eq.mpr hdash, rfl, h⟩

/-- Arguments that are read without fault consist of items, which set what is set. -/
theorem exists_items_of_readAll (h : readAll args r = .ok next) (hawaiting : r.awaiting = none) :
    ∃ items tail, Leads r items tail args next := by
  -- on the number of words, for a flag may take the next word along
  induction hsize : args.length using Nat.strongRecOn generalizing args r with
  | ind size ih =>
    cases args with
    | nil =>
      rw [readAll, settle, hawaiting] at h
      cases h
      exact ⟨[], none, rfl, trivial, rfl, (List.append_nil _).symm⟩
    | cons word args =>
      have hlt : args.length < size := by
        rw [← hsize]
        exact Nat.lt_succ_self _
      rw [readAll, hawaiting] at h
      dsimp only at h
      by_cases hdashes : word = "--"
      · rw [if_pos hdashes] at h
        cases h
        exact ⟨[], some args, congrArg (List.cons · args) hdashes, trivial, rfl, rfl⟩
      · rw [if_neg hdashes] at h
        obtain ⟨r', hword, h⟩ := exists_of_bind_eq_ok h
        rcases takeWord_cases hword with ⟨hplain, rfl⟩ |
          ⟨n, ⟨hpos, rfl, rfl⟩ | ⟨flag, rfl, rfl⟩ | ⟨flag, value, o, hne, rfl, hset, rfl⟩⟩
        · obtain ⟨items, tail, hleads⟩ := ih _ hlt h hawaiting rfl
          exact ⟨_, tail, hleads.word hplain⟩
        · obtain ⟨items, tail, hleads⟩ := ih _ hlt h hawaiting rfl
          exact ⟨_, tail, hleads.debugs hpos⟩
        · obtain ⟨v, after, rest, o, hwritten, rfl, hproper, hset, h⟩ :=
            exists_value_of_readAll rfl h
          have hrest : rest.length < size := by
            rw [List.length_append] at hlt
            omega
          obtain ⟨items, tail, hleads⟩ := ih _ hrest h rfl rfl
          exact ⟨_, tail, hleads.value hwritten (hproper n) hset rfl⟩
        · obtain ⟨items, tail, hleads⟩ := ih _ hlt h hawaiting rfl
          exact ⟨.flags n (some (.attached flag value)) :: items, tail, hleads.value rfl hne hset rfl⟩

end Reading

namespace Item

def value? (flag : ValueFlag) : Item → Option String
  | .flags _ (some v) =>
    match v.meaning with
    | some (f, value) => if f = flag then some value else none
    | none => none
  | _ => none

def siteFile? : Item → Option SiteFileChoice
  | .flags _ (some v) =>
    match v.meaning with
    | some (.file, path) => some (.file path)
    | some _ => none
    | none => some .skip
  | _ => none

/-- What the last of the items says that says anything of a kind. -/
def last? {α : Type} (f : Item → Option α) (items : List Item) : Option α :=
  (items.filterMap f).getLast?

theorem last?_cons {α : Type} (f : Item → Option α) (i : Item) (items : List Item) :
    last? f (i :: items) = (last? f items).or (f i) := by
  rw [last?, last?, List.filterMap_cons]
  cases f i with
  | none => rw [Option.or_none]
  | some a =>
    rw [List.getLast?_cons]
    cases (items.filterMap f).getLast? <;> rfl

/-- What one item sets, and that the items after it go on from there. -/
theorem exists_of_options_cons {i : Item} {items : List Item} {o next : Options}
    (h : options (i :: items) o = .ok next) :
    ∃ mid, options items mid = .ok next ∧
      mid.siteFile = (siteFile? i).getD o.siteFile ∧
      mid.root = (value? .root i).or o.root ∧
      mid.timeout.map Except.ok =
        ((value? .timeout i).map Site.readTimeout).or (o.timeout.map .ok) := by
  cases i with
  | word w => exact ⟨o, h, rfl, rfl, rfl⟩
  | flags n value =>
    rcases value with _ | (⟨_ | _ | _, value⟩ | ⟨_ | _ | _, value⟩ | _)
    case some.attached.timeout | some.separate.timeout =>
      obtain ⟨t, hread, h⟩ := exists_of_bind_eq_ok h
      exact ⟨_, h, rfl, rfl, congrArg some hread.symm⟩
    all_goals exact ⟨_, h, rfl, rfl, rfl⟩

/-- Options that items set: what the last item says counts. -/
structure Sets (items : List Item) (o next : Options) : Prop where
  siteFile : next.siteFile = (last? siteFile? items).getD o.siteFile
  root : next.root = (last? (value? .root) items).or o.root
  timeout : next.timeout.map Except.ok =
    ((last? (value? .timeout) items).map Site.readTimeout).or (o.timeout.map .ok)

theorem sets_of_options {items : List Item} {o next : Options} (h : options items o = .ok next) :
    Sets items o next := by
  induction items generalizing o with
  | nil =>
    cases h
    exact ⟨rfl, rfl, rfl⟩
  | cons i items ih =>
    obtain ⟨mid, h, hsiteFile, hroot, htimeout⟩ := exists_of_options_cons h
    obtain ⟨ihsiteFile, ihroot, ihtimeout⟩ := ih h
    refine ⟨?_, ?_, ?_⟩
    · rw [ihsiteFile, hsiteFile, last?_cons, Option.getD_or]
    · rw [ihroot, hroot, last?_cons, Option.or_assoc]
    · rw [ihtimeout, htimeout, last?_cons, Option.map_or, Option.or_assoc]

end Item

/-- Arguments that consist of items, and what is read from them: each flag has the value that it is given
last, and the words that stand for themselves are the input. -/
structure Arguments.Means (a : Arguments) (items : List Item) (tail : Option (List String)) : Prop where
  proper : Item.AreProper items tail
  sets : Item.Sets items .unset a.options
  input : Input.ofWords (Item.plainWords items ++ tail.getD []) = .ok a.input

theorem Arguments.exists_items_of_read {args : List String} {a : Arguments} (h : read args = .ok a) :
    ∃ items tail, args = Item.flatten items tail ∧ a.Means items tail := by
  rw [read] at h
  obtain ⟨r, hread, h⟩ := exists_of_bind_eq_ok h
  obtain ⟨input, hinput, h⟩ := exists_of_bind_eq_ok h
  obtain ⟨items, tail, hleads⟩ := Reading.exists_items_of_readAll hread rfl
  have hwords : r.words = Item.plainWords items ++ tail.getD [] := hleads.words
  obtain rfl : a = ⟨r.options, input⟩ := by
    by_cases hroot : input = .stdin ∧ r.options.root.isSome = true
    · rw [if_pos hroot] at h
      cases h
    · rw [if_neg hroot] at h
      cases h
      rfl
  refine ⟨items, tail, hleads.written, hleads.proper, Item.sets_of_options hleads.options, ?_⟩
  rw [← hwords, hinput]

end LuaPages.CommandLine
