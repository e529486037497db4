import LuaPages.Lua.State
import LuaPages.Proofs.Lua.PrintCalls
import LuaPages.Proofs.Text.Bytes

namespace LuaPages.Lua

open Machine PrintCall

variable {α β : Type}

/-- A program followed by another ends as the other does, unless it fails itself. -/
theorem ends_bind {n : Nat} {m m' : Machine} {p : Prog α} {f : α → Store → Prog β}
    {cs : List PrintCall} {q : Prog β} : Ends n m (p.bind f) cs m' q ↔
      (∃ n₁ n₂ cs₁ cs₂ m₁ a s₁, n = n₁ + n₂ ∧ cs = cs₁ ++ cs₂ ∧ Ends n₁ m p cs₁ m₁ (.done a s₁) ∧
        Ends n₂ m₁ (f a s₁) cs₂ m' q) ∨
        ∃ e handled s', Ends n m p cs m' (.fail e handled s') ∧ q = .fail e handled s' := by
  constructor
  · intro h
    induction p generalizing n m cs with
    | done a s => exact .inl ⟨0, n, [], cs, m, a, s, (Nat.zero_add n).symm, rfl, .done m a s, h⟩
    | fail e handled s =>
      cases h
      exact .inr ⟨e, handled, s, .fail _ e handled s, rfl⟩
    | ask task c s next ih =>
      -- the task is carried out before it is seen which of the two programs ends the whole
      cases h with
      | ask last hrun hlast hlines hrest =>
        rcases ih _ _ hrest with
          ⟨n₁, n₂, cs₁, cs₂, m₁, a, s₁, rfl, rfl, hp, hf⟩ | ⟨e, handled, s', hp, rfl⟩
        · exact .inl ⟨_, n₂, _, cs₂, m₁, a, s₁, (Nat.add_assoc ..).symm, (List.append_assoc ..).symm,
            .ask last hrun hlast hlines hp, hf⟩
        · exact .inr ⟨e, handled, s', .ask last hrun hlast hlines hp, rfl⟩
    | yield => cases h
  · intro h
    induction p generalizing n m cs with
    | done a s =>
      rcases h with ⟨_, n₂, _, cs₂, m₁, a, s₁, rfl, rfl, ⟨⟩, hf⟩ | ⟨_, _, _, ⟨⟩, _⟩
      rwa [Nat.zero_add]
    | fail e handled s =>
      rcases h with ⟨_, _, _, _, _, _, _, _, _, ⟨⟩, _⟩ | ⟨_, _, _, ⟨⟩, rfl⟩
      exact .fail _ e handled s
    | ask task c s next ih =>
      rcases h with ⟨n₁, n₂, cs₁, cs₂, m₁, a, s₁, rfl, rfl, hp, hf⟩ | ⟨e, handled, s', hp, rfl⟩
      · cases hp with
        | ask last hrun hlast hlines hrest =>
          rw [List.append_assoc, Nat.add_assoc]
          exact .ask last hrun hlast hlines
            (ih _ _ (.inl ⟨_, n₂, _, cs₂, m₁, a, s₁, rfl, rfl, hrest, hf⟩))
      · cases hp with
        | ask last hrun hlast hlines hrest =>
          exact .ask last hrun hlast hlines (ih _ _ (.inr ⟨e, handled, s', hrest, rfl⟩))
    | yield => rcases h with ⟨_, _, _, _, _, _, _, _, _, ⟨⟩, _⟩ | ⟨_, _, _, ⟨⟩, _⟩

/-- Whether the limits of nested calls let a call through. The first one refuses the call that gets to
it, and leaves those beyond it to the second. -/
def HasRoom (site : Site) (s : Store) : Prop :=
  site.nested = true → s.active.nesting + 1 ≠ Machine.nestingLimit ∧ s.active.nesting + 1 < Machine.reportingLimit

def Store.entered (s : Store) (b : Builtin) (site : Site) (trace : List Origin) : Store :=
  let nesting := if site.nested then s.active.nesting + 1 else s.active.nesting
  let name := site.name.getD ("", (b.globalName?.getD "").toUTF8)
  { s with active := .library trace name (s.active.depth + 1) nesting (s.active.yieldable && site.yields) }

theorem Machine.callProgram_builtin (b : Builtin) (args : Arguments) (site : Site) (trace : List Origin)
    (s : Store) (hroom : HasRoom site s) :
    callProgram Builtin.run (.builtin b) args site trace s =
      (do return .finish (.return (← b.run args)) : Script Outcome) (s.entered b site trace) := by
  unfold callProgram Store.entered
  cases hnested : site.nested with
  | false => rfl
  | true =>
    obtain ⟨hlimit, hbelow⟩ := hroom hnested
    have hreporting : ¬ reportingLimit ≤ s.active.nesting + 1 := Nat.not_le_of_lt hbelow
    simp [hlimit, hreporting]

namespace Script

def displayed : Value → Script Bytes
  | .string s => pure s
  | .number n => pure n.toText
  | _ => failCaller "'__tostring' must return a string"

theorem display_of_metamethod {v f : Value} {s : Store} (h : metamethod v "__tostring" s = .done f s)
    (hf : f.isNil = false) : display v s = (callMeta f [v] none "tostring" >>= displayed) s := by
  unfold display
  rw [bind_apply, h]
  simp only [Prog.bind, hf]
  change (callMeta f [v] none "tostring" >>= _) s = _
  congr 2

end Script

namespace Print

def textIn (flow : Flow) : Bytes :=
  match flow.values with
  | .string t :: _ => t
  | _ => .empty

def checked (t : Bytes) : Script Bytes :=
  match Utf8.firstFault t with
  | none => pure t
  | some (pos, f) => failWith ("error converting Lua string to &str (" ++ f.describe pos ++ ")")

/-- What becomes of a conversion, from the answer of `tostring`. -/
def concluded : Except Value Flow → Script Bytes
  | .error e => do failWith (← failureText e)
  | .ok flow => checked (textIn flow)

def tostringOf (v : Value) : Script (Except Value Flow) :=
  Script.ask (.call (.builtin (.base .tostring)) [v] .library) (.handled (.builtin .describe))

theorem converted_eq (v : Value) (s : Store) :
    converted v s = (tostringOf v s).bind fun r s => concluded r s := by
  have hconcluded (r : Except Value Flow) : concluded r =
      match r with
      | .error e => do failWith (← failureText e)
      | .ok flow =>
        match flow.values with
        | .string s :: _ =>
          match Utf8.firstFault s with
          | none => return s
          | some (pos, f) => failWith ("error converting Lua string to &str (" ++ f.describe pos ++ ")")
        | _ => return .empty := by
    cases r with
    | error e => rfl
    | ok flow =>
      dsimp only [concluded, textIn]
      generalize flow.values = vs
      cases vs with
      | nil => rfl
      | cons v vs => cases v <;> rfl
  rw [converted, Script.bind_apply]
  simp only [hconcluded]
  rfl

/-- Values are converted to texts one after the other, each in the store that the one before it has
left. -/
inductive Converts : Nat → Machine → Store → List Value → List PrintCall → List Bytes → Machine →
    Store → Prop
  | nil (m : Machine) (s : Store) : Converts 0 m s [] [] [] m s
  | cons {n k : Nat} {m m₁ m' : Machine} {s s₁ s' : Store} {v : Value} {vs : List Value}
      {cs cs' : List PrintCall} {t : Bytes} {ts : List Bytes}
      (hfirst : Ends n m (textOf v s) cs m₁ (.done t s₁)) (hrest : Converts k m₁ s₁ vs cs' ts m' s') :
      Converts (n + k) m s (v :: vs) (cs ++ cs') (t :: ts) m' s'

theorem texts_cons (v : Value) (vs : List Value) (s : Store) :
    texts (v :: vs) s = (textOf v s).bind fun t s => (texts vs s).bind fun ts s => .done (t :: ts) s := by
  rw [texts, Script.bind_apply]
  congr 1
  funext t s
  exact Script.bind_apply _ _ _

/-- All conversions succeed. -/
theorem ends_texts_done {n : Nat} {m m' : Machine} {vs : List Value} {s s' : Store}
    {cs : List PrintCall} {ts : List Bytes} :
    Ends n m (texts vs s) cs m' (.done ts s') ↔ Converts n m s vs cs ts m' s' := by
  induction vs generalizing n m s cs ts with
  | nil =>
    constructor
    · rintro ⟨⟩
      exact .nil _ _
    · rintro ⟨⟩
      exact .done _ _ _
  | cons v vs ih =>
    rw [texts_cons, ends_bind]
    constructor
    · rintro (⟨n₁, n₂, cs₁, cs₂, m₁, t, s₁, rfl, rfl, hfirst, hrest⟩ | ⟨_, _, _, _, ⟨⟩⟩)
      rcases ends_bind.mp hrest with
        ⟨n₃, n₄, cs₃, cs₄, m₂, ts', s₂, rfl, rfl, hrest, ⟨⟩⟩ | ⟨_, _, _, _, ⟨⟩⟩
      rw [List.append_nil]
      exact .cons hfirst (ih.mp hrest)
    · rintro ⟨⟩
      rename_i n₁ n₂ m₁ s₁ cs₁ cs₂ t ts hfirst hrest
      refine .inl ⟨n₁, n₂, cs₁, cs₂, m₁, t, s₁, rfl, rfl, hfirst, ends_bind.mpr (.inl ?_)⟩
      exact ⟨n₂, 0, cs₂, [], m', ts, s', rfl, (List.append_nil cs₂).symm, ih.mpr hrest, .done m' _ s'⟩

/-- Some conversion is the first to fail. The arguments after it can be any. -/
theorem ends_texts_fail {n : Nat} {m m' : Machine} {vs : List Value} {s s' : Store}
    {cs : List PrintCall} {e : Value} {handled : Bool} :
    Ends n m (texts vs s) cs m' (.fail e handled s') ↔
      ∃ before v after n₁ n₂ cs₁ cs₂ ts m₁ s₁, vs = before ++ v :: after ∧ n = n₁ + n₂ ∧
        cs = cs₁ ++ cs₂ ∧ Converts n₁ m s before cs₁ ts m₁ s₁ ∧
        Ends n₂ m₁ (textOf v s₁) cs₂ m' (.fail e handled s') := by
  induction vs generalizing n m s cs with
  | nil =>
    constructor
    · rintro ⟨⟩
    · rintro ⟨before, v, after, _, _, _, _, _, _, _, hvs, _⟩
      exact absurd hvs (by simp)
  | cons v vs ih =>
    rw [texts_cons, ends_bind]
    constructor
    · rintro (⟨n₁, n₂, cs₁, cs₂, m₁, t, s₁, rfl, rfl, hfirst, hrest⟩ | ⟨_, _, _, hfirst, ⟨⟩⟩)
      · rcases ends_bind.mp hrest with ⟨_, _, _, _, _, _, _, _, _, _, ⟨⟩⟩ | ⟨_, _, _, hrest, ⟨⟩⟩
        -- the first value has become a text, so it is one of those before the value that fails
        obtain ⟨before, w, after, n₃, n₄, cs₃, cs₄, ts, m₂, s₂, rfl, rfl, rfl, hbefore, hw⟩ :=
          ih.mp hrest
        refine ⟨v :: before, w, after, n₁ + n₃, n₄, cs₁ ++ cs₃, cs₄, t :: ts, m₂, s₂, rfl, ?_, ?_, ?_⟩
        · exact (Nat.add_assoc ..).symm
        · exact (List.append_assoc ..).symm
        · exact ⟨.cons hfirst hbefore, hw⟩
      · exact ⟨[], v, vs, 0, n, [], cs, [], m, s, rfl, (Nat.zero_add n).symm, rfl, .nil m s, hfirst⟩
    · rintro ⟨before, w, after, n₁, n₂, cs₁, cs₂, ts, m₁, s₁, hvs, rfl, rfl, hbefore, hw⟩
      cases hbefore with
      | nil =>
        obtain ⟨rfl, rfl⟩ := List.cons.inj hvs
        rw [Nat.zero_add]
        exact .inr ⟨e, handled, s', hw, rfl⟩
      | cons hfirst hrest =>
        obtain ⟨rfl, rfl⟩ := List.cons.inj hvs
        rename_i n₃ n₄ m₂ s₂ _ cs₃ cs₄ t ts
        refine .inl ⟨n₃, n₄ + n₂, cs₃, cs₄ ++ cs₂, m₂, t, s₂, Nat.add_assoc .., List.append_assoc ..,
          hfirst, ends_bind.mpr (.inr ⟨e, handled, s', ih.mpr ?_, rfl⟩)⟩
        exact ⟨_, w, after, n₄, n₂, cs₄, cs₂, ts, m₁, s₁, rfl, rfl, rfl, hrest, hw⟩

theorem Converts.lines_eq {n : Nat} {m m' : Machine} {s s' : Store} {vs : List Value}
    {cs : List PrintCall} {ts : List Bytes} (h : Converts n m s vs cs ts m' s') :
    s'.lines = s.lines ++ linesOf cs :=
  (ends_texts_done.mpr h).lines_eq (quiet_texts vs s)

/-- A call of a `print` value, from wherever it is called, is a call that prints into the sink that the
value has been made for. -/
theorem callProgram_print (serial sink : Nat) (args : Arguments) (site : Site) (trace : List Origin)
    (s : Store) (hroom : HasRoom site s) :
    callProgram Builtin.run (.builtin (.print serial sink)) args site trace s =
      call sink args (s.entered (.print serial sink) site trace) :=
  callProgram_builtin _ args site trace s hroom

/-- A line is the texts with one space between them, and a line feed. -/
theorem toList_line (ts : List Bytes) :
    (line ts).data.toList = [32].intercalate (ts.map (·.data.toList)) ++ [10] := by
  rw [line, ByteArray.data_push, Array.toList_push, Bytes.toList_join]
  rfl

/-- How a call ends, by how the conversion of its arguments does. If they all become texts, the call
puts one line of them behind everything that has been printed meanwhile. Otherwise it fails with the
first one that does not, whatever comes after that one, and adds nothing. -/
theorem call_outcome {n : Nat} {m m' : Machine} {args : Arguments} {s : Store} {cs : List PrintCall}
    {q : Prog (List Bytes)} (h : Ends n m (texts args s) cs m' q) (sink : Nat) :
    (∃ ts s', q = .done ts s' ∧ Converts n m s args cs ts m' s' ∧
        (line ts).data.toList = [32].intercalate (ts.map (·.data.toList)) ++ [10] ∧
        after n (m, call sink args s) =
          some (m', .done (.finish (.return [])) (s'.put sink (line ts))) ∧
        (s'.put sink (line ts)).lines = s.lines ++ linesOf cs ++ [(sink, line ts)]) ∨
      ∃ before v rest n₁ n₂ cs₁ cs₂ ts m₁ s₁ e handled s', q = .fail e handled s' ∧
        args = before ++ v :: rest ∧ n = n₁ + n₂ ∧ cs = cs₁ ++ cs₂ ∧
        Converts n₁ m s before cs₁ ts m₁ s₁ ∧ Ends n₂ m₁ (textOf v s₁) cs₂ m' (.fail e handled s') ∧
        (∀ others, after n (m, call sink (before ++ v :: others) s) = some (m', .fail e handled s')) ∧
        s'.lines = s.lines ++ linesOf cs := by
  cases q with
  | done ts s' =>
    have hconverts := ends_texts_done.mp h
    refine .inl ⟨ts, s', rfl, hconverts, toList_line ts, after_call h.after_eq, ?_⟩
    rw [Store.lines_put, hconverts.lines_eq]
  | fail e handled s' =>
    obtain ⟨before, v, rest, n₁, n₂, cs₁, cs₂, ts, m₁, s₁, hargs, hn, hcs, hbefore, hv⟩ :=
      ends_texts_fail.mp h
    refine .inr ⟨before, v, rest, n₁, n₂, cs₁, cs₂, ts, m₁, s₁, e, handled, s', rfl, hargs, hn, hcs,
      hbefore, hv, fun others => ?_, h.lines_eq (quiet_texts args s)⟩
    exact after_call (ends_texts_fail.mpr
      ⟨before, v, others, n₁, n₂, cs₁, cs₂, ts, m₁, s₁, rfl, hn, hcs, hbefore, hv⟩).after_eq
  | ask | yield => exact absurd h.isLeaf id

/-- A call of a `print` value converts its arguments from the first to the last. When it returns, its
sink holds what it held, what the conversions printed, and then the line as one piece: the texts with
one space between them, and a line feed. When a conversion fails, the call fails with it, has printed
what the conversions up to this one printed, and has not looked at the arguments after it. So the lines
of nested calls are in post-order. -/
theorem prints_after_conversions (serial sink : Nat) (args : Arguments) (site : Site) (m : Machine)
    (s : Store) (hroom : HasRoom site s) :
    let entered := s.entered (.print serial sink) site (site.origin :: s.active.trace)
    start Builtin.run m (.call (.builtin (.print serial sink)) args site) s =
        (m, call sink args entered) ∧
      (∀ n cs m' q, Ends n m (texts args entered) cs m' q →
        (∃ ts s', q = .done ts s' ∧ Converts n m entered args cs ts m' s' ∧
            (line ts).data.toList = [32].intercalate (ts.map (·.data.toList)) ++ [10] ∧
            after n (m, call sink args entered) =
              some (m', .done (.finish (.return [])) (s'.put sink (line ts))) ∧
            (s'.put sink (line ts)).lines = s.lines ++ linesOf cs ++ [(sink, line ts)]) ∨
          ∃ before v rest n₁ n₂ cs₁ cs₂ ts m₁ s₁ e handled s', q = .fail e handled s' ∧
            args = before ++ v :: rest ∧ n = n₁ + n₂ ∧ cs = cs₁ ++ cs₂ ∧
            Converts n₁ m entered before cs₁ ts m₁ s₁ ∧
            Ends n₂ m₁ (textOf v s₁) cs₂ m' (.fail e handled s') ∧
            (∀ others, after n (m, call sink (before ++ v :: others) entered) =
              some (m', .fail e handled s')) ∧
            s'.lines = s.lines ++ linesOf cs) ∧
      ∀ n t cs u, Runs n t cs u → after n t = some u ∧ u.lines = t.lines ++ linesOf cs := by
  refine ⟨?_, ?_, ?_⟩
  · exact congrArg (Prod.mk m) (callProgram_print serial sink args site _ s hroom)
  · intro n cs m' q h
    exact call_outcome h sink
  · intro n t cs u h
    exact ⟨h.after_eq, h.lines_eq⟩

def announcing : Function :=
  .mk ⟨.empty, 0, false, 0, #[], #[]⟩
    [.call (.call (.var (.upvalue 0 "print")) [.const (.string "inner")] 1),
      .return [.const (.string "outer")]]

def announcement : Table := ⟨#[], #[⟨.string "__tostring", .closure 0, none⟩], 0, none⟩

/-- The table is number 0, and the function that it is printed by writes to the same sink. -/
def announced : Store :=
  { State.emptyStore with
    tables := #[⟨#[], #[], 0, some 1⟩, announcement], closures := #[⟨announcing, #[0]⟩]
    cells := #[.builtin (.print 0 5)] }

theorem metamethod_announced {s : Store} (h : s.tables = announced.tables) :
    Script.metamethod (.table 0) "__tostring" s = .done (.closure 0) s := by
  -- There is one node, so the place of the key does not depend on its hash.
  have hplace : Table.mainPosition announcement.nodes.size (.text "__tostring") = 0 := Nat.mod_one _
  have hindex : announcement.arrayIndex? (.text "__tostring") = none := rfl
  have hfind : announcement.findNode (.text "__tostring") = some 0 := by
    rw [Table.findNode, hplace]
    rfl
  have hget : announcement.getText "__tostring" = .closure 0 := by
    rw [Table.getText, Table.getKey, hindex, hfind]
    rfl
  have hmeta : Script.metatable? (.table 0) s = .done (some 1) s := by
    simp [Script.metatable?, Script.ofTable, Script.read, h, announced]
  rw [Script.metamethod, Script.bind_apply, hmeta]
  simp [Prog.bind, Script.ofTable, Script.read, h, announced, hget]

def outside : Site := ⟨none, none, false, false⟩

def alone : Machine := ⟨[], [], #[]⟩

def called : Store := announced.entered (.print 1 5) outside [none]

def converting : Store := called.entered (.base .tostring) .library [none, none]

def next (t : Turn) : Turn := (after 1 t).getD t

section

variable (asker : Except Value Flow → Store → Prog Outcome)

def asked : Turn :=
  (alone, .ask (.call (.builtin (.base .tostring)) [.table 0] .library) (.handled (.builtin .describe))
    called asker)

def returning (x : Script (List Value)) : Script Outcome := do return .finish (.return (← x))

def found : Script (List Value) := do
  return [.string (← Script.callMeta (.closure 0) [.table 0] none "tostring" >>= Script.displayed)]

def inTostring : Turn := ((next (asked asker)).1, returning found converting)

def inBody : Turn := next (inTostring asker)

def inPrint : Store :=
  (inBody asker).2.store.entered (.print 0 5)
    ⟨some ⟨.empty, 1⟩, some ("upvalue", "print"), false, true⟩ [some ⟨.empty, 1⟩, none, none, none]

def printed : Turn :=
  ((next (inBody asker)).1, .done (.finish (.return [])) ((inPrint asker).put 5 (line ["inner"])))

def last : Turn := next (next (printed asker))

theorem after_asked : after 1 (asked asker) = some (inTostring asker) := by
  have hdisplay : (do return [.string (← Script.display (.table 0))] : Script (List Value)) converting =
      found converting := by
    rw [found, Script.bind_apply, Script.bind_apply, Script.display_of_metamethod
      (s := converting) (metamethod_announced rfl) rfl]
  have hreturning : returning (Base.run .tostring [.table 0]) converting = returning found converting := by
    rw [returning, Script.bind_apply]
    refine (congrArg (Prog.bind · _) hdisplay).trans ?_
    rw [← Script.bind_apply]
    rfl
  exact congrArg (fun p => some ((next (asked asker)).1, p)) hreturning

theorem runs_asked : Runs 5 (asked asker) [.mk 5 [] (some (line ["inner"]))] (last asker) := by
  have hbody : after 1 (inTostring asker) = some (inBody asker) := rfl
  have hcall : after 1 (inBody asker) =
    some ((next (inBody asker)).1, Print.call 5 [.string "inner"] (inPrint asker)) := rfl
  have hprinted : after 1 (printed asker) = some (next (printed asker)) := rfl
  have hreturned : after 1 (next (printed asker)) = some (last asker) := rfl
  have hlast : Runs 2 (printed asker) [] (last asker) :=
    .step hprinted rfl (.step hreturned rfl (.here _))
  exact .step (after_asked asker) rfl (.step hbody rfl (.print hcall rfl (.done _ _ _) hlast))

end

theorem ends_textOf_announced : Ends 6 alone (textOf (.table 0) called)
    [.mk 5 [] (some (line ["inner"]))] alone (.done "outer" (called.put 5 (line ["inner"]))) := by
  have hlast (asker) : after 1 (last asker) =
    some (alone, asker (.ok (.return [.string "outer"])) (called.put 5 (line ["inner"]))) := rfl
  have hconcluded : Ends 0 alone
      (concluded (.ok (.return [.string "outer"])) (called.put 5 (line ["inner"]))) [] alone
      (.done "outer" (called.put 5 (line ["inner"]))) := .done _ _ _
  change Ends 6 alone (converted (.table 0) called) _ _ _
  rw [converted_eq]
  exact .ask last runs_asked hlast (fun _ => rfl) hconcluded

theorem ends_texts_announced : Ends 6 alone (texts [.table 0] called)
    [.mk 5 [] (some (line ["inner"]))] alone (.done ["outer"] (called.put 5 (line ["inner"]))) :=
  ends_texts_done.mpr (.cons ends_textOf_announced (.nil _ _))

theorem prints_after_conversions_nested :
    HasRoom outside announced ∧ ∃ s', after 6 (alone, call 5 [.table 0] called) =
        some (alone, .done (.finish (.return [])) s') ∧
      s'.lines = [(5, ("inner\n" : Bytes)), (5, ("outer\n" : Bytes))] := by
  have hroom : HasRoom outside announced := fun h => absurd h (by decide)
  have hlines : [(5, line ["inner"]), (5, line ["outer"])] =
      [(5, ("inner\n" : Bytes)), (5, ("outer\n" : Bytes))] := by decide +kernel
  obtain ⟨-, hcall, -⟩ := prints_after_conversions 1 5 [.table 0] outside alone announced hroom
  rcases hcall _ _ _ _ ends_texts_announced with
    ⟨ts, s', hq, -, -, hafter, hprinted⟩ | ⟨_, _, _, _, _, _, _, _, _, _, _, _, _, hq, _⟩
  · cases hq
    exact ⟨hroom, _, hafter, hprinted.trans hlines⟩
  · cases hq

end Print

end LuaPages.Lua
