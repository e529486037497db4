import LuaPages.Proofs.Lua.FloatText
import LuaPages.Proofs.Lua.Print

namespace LuaPages.Lua.Print

open Machine PrintCall

/-- A value that `print` does not ask `tostring` about. -/
def IsPlain : Value → Prop
  | .nil | .bool _ | .number _ | .string _ | .failure _ => True
  | _ => False

/-- Where `print` and `tostring` have the same text for a plain value. A float has to be infinite, or to
have a fraction, at most fourteen digits that tell it from other floats, and a value of `10 ^ -4` at
least; strings must not have a `__tostring`. -/
def Agrees (s : Store) : Value → Prop
  | .number (.float x) => x.isInfinite = true ∨ Number.IsBrief x
  | .string _ => (s.tables.getD s.stringMeta default).getText "__tostring" = .nil
  | _ => True

def Tostring (m : Machine) (s : Store) (v : Value) (t : Bytes) (m' : Machine) (s' : Store) : Prop :=
  ∃ n cs flow, Ends n m (tostringOf v s) cs m' (.done (.ok flow) s') ∧ textIn flow = t

def Text (m : Machine) (s : Store) (v : Value) (t : Bytes) (m' : Machine) (s' : Store) : Prop :=
  ∃ n cs, Ends n m (textOf v s) cs m' (.done t s')

def plainText (s : Store) : Value → Bytes
  | .nil => "nil"
  | .bool b => (if b then "true" else "false" : String)
  | .number (.int n) => Bytes.ofInt n.toInt
  | .number (.float x) => x.plain
  | .string b => b
  | .failure id => s.failures.getD id .empty
  | _ => .empty

theorem textOf_plain {v : Value} (hv : IsPlain v) (s : Store) :
    textOf v s = .done (plainText s v) s := by
  cases v with
  | number n => cases n <;> rfl
  | nil | bool | string | failure => rfl
  | _ => exact hv.elim

theorem display_plain {v : Value} {s : Store} (hv : IsPlain v) (h : Agrees s v) :
    Script.display v s = .done (plainText s v) s := by
  cases v with
  | number n =>
    cases n with
    | int i => rfl
    | float x =>
      have htext := (Number.plain_eq_toText_iff x).mpr h
      exact congrArg (fun t : String => Prog.done (t : Bytes) s) htext.symm
  | string b =>
    have hmeta : Script.metamethod (.string b) "__tostring" s = .done .nil s :=
      congrArg (fun h => Prog.done h s) h
    rw [Script.display, Script.bind_apply, hmeta]
    rfl
  | nil | bool | failure => rfl
  | _ => exact hv.elim

/-- A library function that asks for nothing answers at once. -/
theorem ends_of_immediate {b : Builtin} {args : Arguments} {site : Site} {s : Store} {vs : List Value}
    (m : Machine) (c : Catch) (hroom : HasRoom site s)
    (h : b.run args (s.entered b site (site.origin :: s.active.trace)) =
      .done vs (s.entered b site (site.origin :: s.active.trace))) :
    Ends 2 m (Script.ask (.call (.builtin b) args site) c s) [] m (.done (.ok (.return vs)) s) := by
  let entered := s.entered b site (site.origin :: s.active.trace)
  let last (asker : Except Value Flow → Store → Prog Outcome) : Turn :=
    ({ m with frames := ⟨asker, c, some s.active⟩ :: m.frames }, .done (.finish (.return vs)) entered)
  have hstart (asker) : after 1 (m, .ask (.call (.builtin b) args site) c s asker) = some (last asker) := by
    have hprogram : callProgram Builtin.run (.builtin b) args site (site.origin :: s.active.trace) s =
        .done (.finish (.return vs)) entered := by
      rw [callProgram_builtin b args site _ s hroom, Script.bind_apply, h]
      rfl
    exact congrArg (fun p => some ((last asker).1, p)) hprogram
  have hlast (asker) : after 1 (last asker) = some (m, asker (.ok (.return vs)) s) := rfl
  exact .ask last (fun asker => .step (hstart asker) rfl (.here _)) hlast (fun _ => rfl) (.done ..)

/-- A plain value is given its text at once. -/
theorem ends_tostring_plain {v : Value} {s : Store} (m : Machine) (hv : IsPlain v) (h : Agrees s v)
    (hroom : HasRoom .library s) :
    Ends 2 m (tostringOf v s) [] m (.done (.ok (.return [.string (plainText s v)])) s) := by
  refine ends_of_immediate m _ hroom ?_
  change (do return [.string (← Script.display v)] : Script (List Value)) _ = _
  rw [Script.bind_apply, display_plain hv (by exact h)]
  rfl

theorem checked_of_valid {t : Bytes} (h : Utf8.firstFault t = none) (s : Store) :
    checked t s = .done t s := by
  rw [checked, h]
  rfl

theorem checked_of_fault {t : Bytes} {fault : Nat × Utf8.Fault} (h : Utf8.firstFault t = some fault)
    (s : Store) : ∃ e s', checked t s = .fail e false s' := by
  rw [checked, h]
  exact ⟨_, _, rfl⟩

/-- A value that `print` asks `tostring` about gets the text that `tostring` gives for it, if this text
is UTF-8. -/
theorem ends_converted {n : Nat} {m m' : Machine} {v : Value} {s s' : Store} {cs : List PrintCall}
    {t : Bytes} : Ends n m (converted v s) cs m' (.done t s') ↔
      ∃ flow, Ends n m (tostringOf v s) cs m' (.done (.ok flow) s') ∧ textIn flow = t ∧
        Utf8.firstFault t = none := by
  rw [converted_eq, ends_bind]
  constructor
  · rintro (⟨n₁, n₂, cs₁, cs₂, m₁, r, s₁, rfl, rfl, hasked, hrest⟩ | ⟨_, _, _, _, ⟨⟩⟩)
    cases r with
    | error e => cases e <;> cases hrest
    | ok flow =>
      change Ends n₂ m₁ (checked (textIn flow) s₁) cs₂ m' _ at hrest
      cases hfault : Utf8.firstFault (textIn flow) with
      | none =>
        rw [checked_of_valid hfault] at hrest
        cases hrest
        exact ⟨flow, by rwa [List.append_nil], rfl, hfault⟩
      | some fault =>
        obtain ⟨e, s₂, hfail⟩ := checked_of_fault hfault s₁
        rw [hfail] at hrest
        cases hrest
  · rintro ⟨flow, hasked, rfl, hfault⟩
    refine .inl ⟨n, 0, cs, [], m', .ok flow, s', rfl, (List.append_nil cs).symm, hasked, ?_⟩
    change Ends 0 m' (checked (textIn flow) s') [] m' _
    rw [checked_of_valid hfault]
    exact .done ..

def Readable (v : Value) (t : Bytes) : Prop := IsPlain v ∨ Utf8.firstFault t = none

/-- The conversion of a plain value changes nothing. -/
theorem text_plain {m m' : Machine} {v : Value} {s s' : Store} {t : Bytes} (hv : IsPlain v) :
    Text m s v t m' s' ↔ t = plainText s v ∧ m' = m ∧ s' = s := by
  unfold Text
  rw [textOf_plain hv]
  constructor
  · rintro ⟨n, cs, ⟨⟩⟩
    exact ⟨rfl, rfl, rfl⟩
  · rintro ⟨rfl, rfl, rfl⟩
    exact ⟨0, [], .done ..⟩

theorem text_iff_tostring {m m' : Machine} {v : Value} {s s' : Store} {t : Bytes} (ha : Agrees s v)
    (hroom : HasRoom .library s) :
    Text m s v t m' s' ↔ Tostring m s v t m' s' ∧ Readable v t := by
  -- a plain value has its text at once; any other one gets it from a call of `tostring`
  by_cases hv : IsPlain v
  · have hplain := ends_tostring_plain m hv ha hroom
    rw [text_plain hv]
    constructor
    · rintro ⟨rfl, rfl, rfl⟩
      exact ⟨⟨2, [], _, hplain, rfl⟩, .inl hv⟩
    · rintro ⟨⟨n, cs, flow, h, rfl⟩, _⟩
      obtain ⟨_, rfl, hanswer⟩ := h.unique hplain
      cases hanswer
      exact ⟨rfl, rfl, rfl⟩
  · have hconverted : textOf v = converted v := by
      cases v with
      | nil | bool | number | string | failure => exact absurd trivial hv
      | _ => rfl
    constructor
    · rintro ⟨n, cs, h⟩
      rw [hconverted] at h
      obtain ⟨flow, h, ht, hfault⟩ := ends_converted.mp h
      exact ⟨⟨n, cs, flow, h, ht⟩, .inr hfault⟩
    · rintro ⟨⟨n, cs, flow, h, ht⟩, hreadable⟩
      refine ⟨n, cs, ?_⟩
      rw [hconverted]
      exact ends_converted.mpr ⟨flow, h, ht, hreadable.resolve_left hv⟩

/-- Values get their texts one after the other, each in what the one before it has left. -/
inductive Each (R : Machine → Store → Value → Bytes → Machine → Store → Prop) :
    Machine → Store → List Value → List Bytes → Machine → Store → Prop
  | nil (m : Machine) (s : Store) : Each R m s [] [] m s
  | cons {m m₁ m' : Machine} {s s₁ s' : Store} {v : Value} {vs : List Value} {t : Bytes}
      {ts : List Bytes} (hfirst : R m s v t m₁ s₁) (hrest : Each R m₁ s₁ vs ts m' s') :
      Each R m s (v :: vs) (t :: ts) m' s'

theorem ends_texts_iff {m m' : Machine} {vs : List Value} {s s' : Store} {ts : List Bytes} :
    (∃ n cs, Ends n m (texts vs s) cs m' (.done ts s')) ↔ Each Text m s vs ts m' s' := by
  constructor
  · rintro ⟨n, cs, h⟩
    have hconverts := ends_texts_done.mp h
    clear h
    induction hconverts with
    | nil => exact .nil ..
    | cons hfirst _ ih => exact .cons ⟨_, _, hfirst⟩ ih
  · intro h
    suffices ∃ n cs, Converts n m s vs cs ts m' s' from
      this.imp fun n h => h.imp fun cs h => ends_texts_done.mpr h
    induction h with
    | nil => exact ⟨0, [], .nil ..⟩
    | cons hfirst _ ih =>
      obtain ⟨n, cs, hfirst⟩ := hfirst
      obtain ⟨k, cs', hrest⟩ := ih
      exact ⟨n + k, cs ++ cs', .cons hfirst hrest⟩

/-- Each value, where its turn comes, is one on which `print` and `tostring` agree. -/
def Alike (m : Machine) (s : Store) (vs : List Value) : Prop :=
  ∀ before v rest ts m₁ s₁, vs = before ++ v :: rest → Each Text m s before ts m₁ s₁ →
    Agrees s₁ v ∧ HasRoom .library s₁

theorem Alike.tail {m m₁ : Machine} {s s₁ : Store} {v : Value} {vs : List Value} {t : Bytes}
    (h : Alike m s (v :: vs)) (hfirst : Text m s v t m₁ s₁) : Alike m₁ s₁ vs :=
  fun before w rest ts m₂ s₂ hvs hbefore =>
    h (v :: before) w rest (t :: ts) m₂ s₂ (congrArg (v :: ·) hvs) (.cons hfirst hbefore)

theorem alike_nil (m : Machine) (s : Store) : Alike m s [] :=
  fun _ _ _ _ _ _ hvs _ => absurd hvs (by simp)

theorem alike_cons {m : Machine} {s : Store} {v : Value} {vs : List Value} (ha : Agrees s v)
    (hroom : HasRoom .library s) (h : ∀ t m₁ s₁, Text m s v t m₁ s₁ → Alike m₁ s₁ vs) :
    Alike m s (v :: vs) := by
  intro before w rest ts m₂ s₂ hvs hbefore
  cases hbefore with
  | nil =>
    obtain ⟨rfl, -⟩ := List.cons.inj hvs
    exact ⟨ha, hroom⟩
  | cons hfirst hrest =>
    obtain ⟨rfl, htail⟩ := List.cons.inj hvs
    exact h _ _ _ hfirst _ w rest _ m₂ s₂ htail hrest

def TostringText (m : Machine) (s : Store) (v : Value) (t : Bytes) (m' : Machine) (s' : Store) : Prop :=
  Tostring m s v t m' s' ∧ Readable v t

theorem each_text_iff {m m' : Machine} {vs : List Value} {s s' : Store} {ts : List Bytes}
    (h : Alike m s vs) : Each Text m s vs ts m' s' ↔ Each TostringText m s vs ts m' s' := by
  induction vs generalizing m s ts with
  | nil => constructor <;> rintro ⟨⟩ <;> exact .nil ..
  | cons v vs ih =>
    obtain ⟨ha, hroom⟩ := h [] v vs [] m s rfl (.nil m s)
    constructor
    · rintro ⟨⟩
      rename_i hfirst hrest
      exact .cons ((text_iff_tostring ha hroom).mp hfirst) ((ih (h.tail hfirst)).mp hrest)
    · rintro ⟨⟩
      rename_i hfirst hrest
      have hfirst := (text_iff_tostring ha hroom).mpr hfirst
      exact .cons hfirst ((ih (h.tail hfirst)).mpr hrest)

/-- `print` returns when all its arguments have become texts. -/
theorem ends_run_iff (sink : Nat) {m m' : Machine} {vs results : List Value} {s s' : Store} :
    (∃ n cs, Ends n m (run sink vs s) cs m' (.done results s')) ↔
      results = [] ∧ ∃ ts s₁, Each Text m s vs ts m' s₁ ∧ s' = s₁.put sink (line ts) := by
  have hrun : run sink vs s = (texts vs s).bind fun ts s => .done [] (s.put sink (line ts)) := by
    rw [run, Script.bind_apply]
    rfl
  simp only [hrun, ends_bind]
  constructor
  · rintro ⟨n, cs, ⟨n₁, n₂, cs₁, cs₂, m₁, ts, s₁, rfl, rfl, htexts, hput⟩ | ⟨_, _, _, _, ⟨⟩⟩⟩
    cases hput
    exact ⟨rfl, ts, s₁, ends_texts_iff.mp ⟨n₁, cs₁, htexts⟩, rfl⟩
  · rintro ⟨rfl, ts, s₁, heach, rfl⟩
    obtain ⟨n, cs, htexts⟩ := ends_texts_iff.mpr heach
    exact ⟨n, cs, .inl ⟨n, 0, cs, [], m', ts, s₁, rfl, (List.append_nil cs).symm, htexts, .done ..⟩⟩

/-- `print` returns exactly when `tostring` does on each argument, and then it has put the texts that
`tostring` gives into its sink, with spaces between them. -/
theorem returns_iff_tostring_does (sink : Nat) {m m' : Machine} {vs : List Value} {s s' : Store}
    (h : Alike m s vs) (results : List Value) :
    (∃ n cs, Ends n m (run sink vs s) cs m' (.done results s')) ↔
      results = [] ∧ ∃ ts s₁, Each TostringText m s vs ts m' s₁ ∧ s' = s₁.put sink (line ts) := by
  rw [ends_run_iff]
  simp only [each_text_iff h]

def twoAndAHalf : Binary64 := ⟨0x4004000000000000⟩

theorem isBrief_twoAndAHalf : Number.IsBrief twoAndAHalf := by
  constructor <;> decide +kernel

theorem alike_announced : Alike alone called [.string "a", .float twoAndAHalf, .table 0] := by
  have hroom : HasRoom .library called := fun _ => by decide
  have hrest {v : Value} {vs : List Value} (hv : IsPlain v) (h : Alike alone called vs) :
      ∀ t m₁ s₁, Text alone called v t m₁ s₁ → Alike m₁ s₁ vs := by
    intro t m₁ s₁ htext
    obtain ⟨-, rfl, rfl⟩ := (text_plain hv).mp htext
    exact h
  refine alike_cons rfl hroom (hrest trivial ?_)
  refine alike_cons (.inr isBrief_twoAndAHalf) hroom (hrest trivial ?_)
  exact alike_cons trivial hroom fun _ m₁ s₁ _ => alike_nil m₁ s₁

theorem returns_iff_tostring_does_announced :
    Alike alone called [.string "a", .float twoAndAHalf, .table 0] ∧
      ∃ ts s₁, Each TostringText alone called [.string "a", .float twoAndAHalf, .table 0] ts alone s₁ ∧
        (called.put 5 (line ["inner"])).put 7 (line ["a", "2.5", "outer"]) = s₁.put 7 (line ts) := by
  have htable : Text alone called (.table 0) "outer" alone (called.put 5 (line ["inner"])) :=
    ⟨6, _, ends_textOf_announced⟩
  have hstring : Text alone called (.string "a") "a" alone called := ⟨0, [], .done ..⟩
  have hplain : twoAndAHalf.plain = "2.5" := by decide +kernel
  have hfloat : Text alone called (.float twoAndAHalf) "2.5" alone called := by
    rw [← hplain]
    exact ⟨0, [], .done ..⟩
  have hrun := (ends_run_iff 7).mpr
    ⟨rfl, _, _, .cons hstring (.cons hfloat (.cons htable (.nil ..))), rfl⟩
  exact ⟨alike_announced, ((returns_iff_tostring_does 7 alike_announced []).mp hrun).2⟩

def two : Binary64 := ⟨0x4000000000000000⟩

/-- A float that is whole is printed without the fraction that `tostring` gives it. -/
theorem whole_float_loses_fraction :
    (∃ n cs, Ends n alone (run 5 [.float two] called) cs alone (.done [] (called.put 5 (line ["2"])))) ∧
      Tostring alone called (.float two) "2.0" alone called ∧ line ["2"] ≠ line ["2.0"] := by
  have hplain : two.plain = "2" := by decide +kernel
  have htext : (Number.float two).toText = "2.0" := by decide +kernel
  refine ⟨⟨0, [], ?_⟩, ⟨2, [], .return [.string "2.0"], ?_, rfl⟩, by decide +kernel⟩
  · rw [← hplain]
    exact .done ..
  · rw [← htext]
    exact ends_of_immediate alone _ (fun _ => by decide) rfl

end LuaPages.Lua.Print
