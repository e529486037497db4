import LuaPages.Lua.Library.Run
import LuaPages.Proofs.Lua.Keeps
/-!
Runs of the machine with the `print` calls that are made in them. A call encloses the calls that the
conversion of its arguments makes, so the calls of a run are a forest; what the run prints are the
lines of the forest, those of a call's inner calls before its own.
-/
namespace LuaPages.Lua

open Machine

variable {α β : Type}

def Prog.store : Prog α → Store
  | .done _ s => s
  | .fail _ _ s => s
  | .ask _ _ s _ => s
  | .yield _ s _ => s

def Store.lines (s : Store) : List (Nat × Bytes) := s.printed.reverse

def Store.put (s : Store) (sink : Nat) (b : Bytes) : Store := { s with printed := (sink, b) :: s.printed }

theorem Store.lines_put (s : Store) (sink : Nat) (b : Bytes) :
    (s.put sink b).lines = s.lines ++ [(sink, b)] := List.reverse_cons

def Machine.Turn.lines (t : Turn) : List (Nat × Bytes) := t.2.store.lines

/-- The turn after some steps; `none` if the run has come to its end before. -/
def Machine.after : Nat → Turn → Option Turn
  | 0, t => some t
  | n + 1, t =>
    match step Builtin.run t.1 t.2 with
    | .inl t => after n t
    | .inr _ => none

theorem Machine.after_add (n k : Nat) (t : Turn) : after (n + k) t = (after n t).bind (after k) := by
  induction n generalizing t with
  | zero => rw [Nat.zero_add]; rfl
  | succ n ih =>
    rw [Nat.succ_add, after, after]
    cases step Builtin.run t.1 t.2 with
    | inl t' => exact ih t'
    | inr r => rfl

theorem Machine.after_trans {n k : Nat} {t t' u : Turn} (h : after n t = some t')
    (hrest : after k t' = some u) : after (n + k) t = some u := by
  rw [after_add, h]
  exact hrest

/-- A `print` call that has come to an end: its sink, the calls that were made while its arguments were
converted, and its line, which there is unless a conversion failed. -/
inductive PrintCall where
  | mk (sink : Nat) (inner : List PrintCall) (line : Option Bytes)

mutual

/-- The lines of a call in post-order. -/
def PrintCall.lines : PrintCall → List (Nat × Bytes)
  | .mk sink inner line => linesOf inner ++ (line.map fun b => (sink, b)).toList

def PrintCall.linesOf : List PrintCall → List (Nat × Bytes)
  | [] => []
  | c :: cs => c.lines ++ linesOf cs

end

theorem PrintCall.linesOf_append (cs cs' : List PrintCall) :
    linesOf (cs ++ cs') = linesOf cs ++ linesOf cs' := by
  induction cs with
  | nil => rw [List.nil_append, linesOf, List.nil_append]
  | cons c cs ih => rw [List.cons_append, linesOf, ih, linesOf, List.append_assoc]

def Print.call (sink : Nat) (args : Arguments) : Script Outcome := do
  return .finish (.return (← Print.run sink args))

mutual

/-- A run of the machine, its number of steps, and the `print` calls that are made and come to an end
in it. -/
inductive Runs : Nat → Turn → List PrintCall → Turn → Prop
  | here (t : Turn) : Runs 0 t [] t
  | step {n : Nat} {t t' u : Turn} {cs : List PrintCall} (h : after 1 t = some t')
      (hlines : t'.lines = t.lines) (hrest : Runs n t' cs u) : Runs (1 + n) t cs u
  | print {n k : Nat} {t u : Turn} {m m' : Machine} {sink : Nat} {args : Arguments} {s s' : Store}
      {cs cs' : List PrintCall} {ts : List Bytes}
      (h : after 1 t = some (m, Print.call sink args s)) (hlines : s.lines = t.lines)
      (htexts : Ends n m (Print.texts args s) cs m' (.done ts s'))
      (hrest : Runs k (m', .done (.finish (.return [])) (s'.put sink (Print.line ts))) cs' u) :
      Runs (1 + (n + k)) t (.mk sink cs (some (Print.line ts)) :: cs') u
  | refuse {n k : Nat} {t u : Turn} {m m' : Machine} {sink : Nat} {args : Arguments} {s s' : Store}
      {cs cs' : List PrintCall} {e : Value} {handled : Bool}
      (h : after 1 t = some (m, Print.call sink args s)) (hlines : s.lines = t.lines)
      (htexts : Ends n m (Print.texts args s) cs m' (.fail e handled s'))
      (hrest : Runs k (m', .fail e handled s') cs' u) :
      Runs (1 + (n + k)) t (.mk sink cs none :: cs') u

/-- A program, with the tasks that it asks for, comes to an end in a result or an error. A task has
been answered with `r` when the machine hands `r` to whoever asked, whatever that asker goes on with. -/
inductive Ends : {α : Type} → Nat → Machine → Prog α → List PrintCall → Machine → Prog α → Prop
  | done {α : Type} (m : Machine) (a : α) (s : Store) : Ends 0 m (.done a s) [] m (.done a s)
  | fail {α : Type} (m : Machine) (e : Value) (handled : Bool) (s : Store) :
      Ends 0 m (.fail e handled s : Prog α) [] m (.fail e handled s)
  | ask {α : Type} {n k : Nat} {m m' m'' : Machine} {task : Task} {c : Catch} {s s' : Store}
      {r : Except Value Flow} {cs cs' : List PrintCall} {next : Except Value Flow → Store → Prog α}
      {q : Prog α} (last : (Except Value Flow → Store → Prog Outcome) → Turn)
      (hrun : ∀ asker, Runs n (m, .ask task c s asker) cs (last asker))
      (hlast : ∀ asker, after 1 (last asker) = some (m', asker r s'))
      (hlines : ∀ asker, (last asker).lines = s'.lines)
      (hrest : Ends k m' (next r s') cs' m'' q) :
      Ends (n + 1 + k) m (.ask task c s next) (cs ++ cs') m'' q

end

theorem Prog.bind_assoc {γ : Type} (p : Prog α) (f : α → Store → Prog β) (g : β → Store → Prog γ) :
    (p.bind f).bind g = p.bind fun a s => (f a s).bind g := by
  induction p with
  | done | fail => rfl
  | ask t c s k ih => exact congrArg (Prog.ask t c s) (funext fun r => funext fun s => ih r s)
  | yield vs s k ih => exact congrArg (Prog.yield vs s) (funext fun vs => funext fun s => ih vs s)

def Print.conclude (sink : Nat) (ts : List Bytes) (s : Store) : Prog Outcome :=
  .done (.finish (.return [])) (s.put sink (Print.line ts))

theorem Print.call_eq (sink : Nat) (args : Arguments) (s : Store) :
    Print.call sink args s = (Print.texts args s).bind (Print.conclude sink) := by
  rw [Print.call, Script.bind_apply, Print.run, Script.bind_apply]
  exact Prog.bind_assoc _ _ _

theorem Print.after_call {n : Nat} {m m' : Machine} {sink : Nat} {args : Arguments} {s : Store}
    {q : Prog (List Bytes)}
    (h : ∀ f : List Bytes → Store → Prog Outcome,
      after n (m, (Print.texts args s).bind f) = some (m', q.bind f)) :
    after n (m, Print.call sink args s) = some (m', q.bind (Print.conclude sink)) := by
  rw [Print.call_eq]
  exact h (Print.conclude sink)

mutual

theorem Runs.after_eq {n : Nat} {t u : Turn} {cs : List PrintCall} :
    Runs n t cs u → after n t = some u
  | .here _ => rfl
  | .step h _ hrest => after_trans h hrest.after_eq
  | .print h _ htexts hrest =>
    after_trans h (after_trans (Print.after_call fun f => htexts.after_eq f) hrest.after_eq)
  | .refuse h _ htexts hrest =>
    after_trans h (after_trans (Print.after_call fun f => htexts.after_eq f) hrest.after_eq)

/-- The machine carries a program to its end, whatever comes after the program. -/
theorem Ends.after_eq {γ : Type} {n : Nat} {m m' : Machine} {p q : Prog γ} {cs : List PrintCall} :
    Ends n m p cs m' q → ∀ f : γ → Store → Prog Outcome, after n (m, p.bind f) = some (m', q.bind f)
  | .done _ _ _, _ => rfl
  | .fail _ _ _ _, _ => rfl
  | .ask _ hrun hlast _ hrest, f =>
    after_trans (after_trans (hrun _).after_eq (hlast _)) (hrest.after_eq f)

end

def Prog.IsLeaf : Prog α → Prop
  | .done _ _ | .fail _ _ _ => True
  | _ => False

theorem Ends.isLeaf {n : Nat} {m m' : Machine} {p q : Prog α} {cs : List PrintCall}
    (h : Ends n m p cs m' q) : q.IsLeaf := by
  induction p generalizing n m cs with
  | done | fail =>
    cases h
    trivial
  | ask _ _ _ _ ih =>
    cases h with
    | ask _ _ _ _ hrest => exact ih _ _ hrest
  | yield => cases h

/-- A program that prints nothing by itself, with `log` printed so far. -/
def Prog.Quiet (log : List (Nat × Bytes)) : Prog α → Prop
  | .done _ s => s.printed = log
  | .fail _ _ s => s.printed = log
  | .ask _ _ s k => s.printed = log ∧ ∀ r s', (k r s').Quiet s'.printed
  | .yield _ s k => s.printed = log ∧ ∀ vs s', (k vs s').Quiet s'.printed

theorem Prog.Quiet.bind {log : List (Nat × Bytes)} {p : Prog α} {f : α → Store → Prog β}
    (hp : p.Quiet log) (hf : ∀ a s, (f a s).Quiet s.printed) : (p.bind f).Quiet log := by
  induction p generalizing log with
  | done a s => exact hp ▸ hf a s
  | fail => exact hp
  | ask _ _ _ _ ih => exact ⟨hp.1, fun r s' => ih r s' (hp.2 r s')⟩
  | yield _ _ _ ih => exact ⟨hp.1, fun vs s' => ih vs s' (hp.2 vs s')⟩

def Script.Quiet (x : Script α) : Prop := ∀ s, (x s).Quiet s.printed

theorem Script.Quiet.bind {x : Script α} {f : α → Script β} (hx : x.Quiet) (hf : ∀ a, (f a).Quiet) :
    Script.Quiet (x >>= f) := by
  intro s
  rw [bind_apply]
  exact (hx s).bind hf

namespace Print

theorem quiet_failWith (text : Bytes) : (failWith text : Script α).Quiet := fun _ => rfl

theorem quiet_failureText (e : Value) : (failureText e).Quiet := by
  unfold failureText
  split <;> exact fun _ => rfl

theorem quiet_converted (v : Value) : (converted v).Quiet := by
  refine .bind (fun _ => ⟨rfl, fun _ _ => rfl⟩) fun r => ?_
  split
  · exact .bind (quiet_failureText _) quiet_failWith
  · split
    · split
      · exact fun _ => rfl
      · exact quiet_failWith _
    · exact fun _ => rfl

theorem quiet_textOf (v : Value) : (textOf v).Quiet := by
  unfold textOf
  split <;> first | exact fun _ => rfl | exact quiet_converted _

theorem quiet_texts (args : List Value) : (texts args).Quiet := by
  induction args with
  | nil => exact fun _ => rfl
  | cons v args ih => exact .bind (quiet_textOf v) fun _ => .bind ih fun _ _ => rfl

end Print

open PrintCall (linesOf)

mutual

/-- A run adds the lines of its calls to what has been printed. -/
theorem Runs.lines_eq {n : Nat} {t u : Turn} {cs : List PrintCall} :
    Runs n t cs u → u.lines = t.lines ++ linesOf cs
  | .here _ => (List.append_nil _).symm
  | .step _ hlines hrest => hlines ▸ hrest.lines_eq
  | @Runs.print _ _ _ _ _ _ sink _ s s' cs cs' ts _ hlines htexts hrest => by
    have hinner : s'.lines = s.lines ++ linesOf cs := htexts.lines_eq (Print.quiet_texts _ _)
    calc u.lines = (s'.put sink (Print.line ts)).lines ++ linesOf cs' := hrest.lines_eq
      _ = t.lines ++ linesOf cs ++ [(sink, Print.line ts)] ++ linesOf cs' := by
        rw [Store.lines_put, hinner, hlines]
      _ = t.lines ++ linesOf (.mk sink cs (some (Print.line ts)) :: cs') := by
        simp [linesOf, PrintCall.lines]
  | @Runs.refuse _ _ _ _ _ _ sink _ s s' cs cs' _ _ _ hlines htexts hrest => by
    have hinner : s'.lines = s.lines ++ linesOf cs := htexts.lines_eq (Print.quiet_texts _ _)
    calc u.lines = s'.lines ++ linesOf cs' := hrest.lines_eq
      _ = t.lines ++ linesOf cs ++ linesOf cs' := by rw [hinner, hlines]
      _ = t.lines ++ linesOf (.mk sink cs none :: cs') := by simp [linesOf, PrintCall.lines]

theorem Ends.lines_eq {γ : Type} {n : Nat} {m m' : Machine} {p q : Prog γ} {cs : List PrintCall}
    {log : List (Nat × Bytes)} :
    Ends n m p cs m' q → p.Quiet log → q.store.lines = log.reverse ++ linesOf cs
  | .done _ _ _, hp => by rw [← hp]; exact (List.append_nil _).symm
  | .fail _ _ _ _, hp => by rw [← hp]; exact (List.append_nil _).symm
  | @Ends.ask _ _ _ _ _ _ _ _ s s' _ cs cs' _ _ last hrun _ hlines hrest, hp => by
    let asker : Except Value Flow → Store → Prog Outcome := fun _ s => .done (.finish .next) s
    calc q.store.lines = s'.lines ++ linesOf cs' := hrest.lines_eq (hp.2 _ _)
      _ = (last asker).lines ++ linesOf cs' := by rw [hlines]
      _ = s.lines ++ linesOf cs ++ linesOf cs' := congrArg (· ++ _) (hrun asker).lines_eq
      _ = log.reverse ++ linesOf (cs ++ cs') := by
        rw [PrintCall.linesOf_append, List.append_assoc, Store.lines, hp.1]

end

/-- Asks for nothing a number of times: a program that is not met again while it goes on. -/
def Prog.idle (s : Store) : Nat → Prog Outcome
  | 0 => .done (.finish .next) s
  | n + 1 => .ask (.job (.block [] [])) .never s fun _ _ => idle s n

theorem Prog.idle_injective (s : Store) : Function.Injective (idle s) := by
  intro n k h
  induction n generalizing k with
  | zero =>
    cases k with
    | zero => rfl
    | succ k => cases h
  | succ n ih =>
    cases k with
    | zero => cases h
    | succ k =>
      injection h with _ _ _ h
      exact congrArg (· + 1) (ih (congrFun (congrFun h (.ok .next)) s))

/-- Each turn of an idle program takes two steps. -/
theorem Prog.after_idle {s : Store} {n k d : Nat} {m m' : Machine} (hd : d ≤ 2 * n)
    (h : after d (m, idle s n) = some (m', idle s k)) : k = 0 ∨ 2 * k + d = 2 * n := by
  induction n generalizing d with
  | zero =>
    obtain rfl := Nat.le_zero.mp hd
    exact .inr (congrArg (2 * ·) (idle_injective s (congrArg Prod.snd (Option.some.inj h)).symm))
  | succ n ih =>
    match d with
    | 0 => exact .inr (congrArg (2 * ·) (idle_injective s (congrArg Prod.snd (Option.some.inj h)).symm))
    | 1 =>
      have hdone : idle s 0 = idle s k := congrArg Prod.snd (Option.some.inj h)
      exact .inl (idle_injective s hdone).symm
    | d + 2 =>
      rw [Nat.add_comm, after_add] at h
      rcases ih (by omega) h with hk | hk
      · exact .inl hk
      · exact .inr (by omega)

def answering : Except Value Flow → Store → Prog Outcome
  | .error e, s => .fail e false s
  | .ok flow, s => .done (.finish flow) s

/-- Whoever asks is answered once. -/
theorem answer_unique {t : (Except Value Flow → Store → Prog Outcome) → Turn} {n k : Nat}
    {m₁ m₂ : Machine} {r₁ r₂ : Except Value Flow} {s₁ s₂ : Store}
    (h₁ : ∀ asker, after n (t asker) = some (m₁, asker r₁ s₁))
    (h₂ : ∀ asker, after k (t asker) = some (m₂, asker r₂ s₂)) :
    n = k ∧ m₁ = m₂ ∧ r₁ = r₂ ∧ s₁ = s₂ := by
  have hle {n k : Nat} {m₁ m₂ : Machine} {r₁ r₂ : Except Value Flow} {s₁ s₂ : Store}
      (h₁ : ∀ asker, after n (t asker) = some (m₁, asker r₁ s₁))
      (h₂ : ∀ asker, after k (t asker) = some (m₂, asker r₂ s₂)) : k ≤ n := by
    by_contra hlt
    obtain ⟨d, rfl⟩ := Nat.exists_eq_add_of_le (Nat.le_of_not_le hlt)
    have hidle := h₂ fun _ _ => .idle s₁ (d + 1)
    rw [after_add, h₁] at hidle
    have := Prog.after_idle (by omega) hidle
    omega
  obtain rfl := Nat.le_antisymm (hle h₂ h₁) (hle h₁ h₂)
  have hpair (asker : Except Value Flow → Store → Prog Outcome) :
      m₁ = m₂ ∧ asker r₁ s₁ = asker r₂ s₂ :=
    Prod.mk.inj (Option.some.inj ((h₁ asker).symm.trans (h₂ asker)))
  have hanswer := (hpair answering).2
  refine ⟨rfl, (hpair fun _ => .done (.finish .next)).1, ?_⟩
  cases r₁ <;> cases r₂ <;> cases hanswer <;> exact ⟨rfl, rfl⟩

theorem Ends.unique {n k : Nat} {m m₁ m₂ : Machine} {p q₁ q₂ : Prog α} {cs₁ cs₂ : List PrintCall}
    (h₁ : Ends n m p cs₁ m₁ q₁) (h₂ : Ends k m p cs₂ m₂ q₂) : n = k ∧ m₁ = m₂ ∧ q₁ = q₂ := by
  induction p generalizing n k m cs₁ cs₂ with
  | done | fail =>
    cases h₁
    cases h₂
    exact ⟨rfl, rfl, rfl⟩
  -- both ways answer the same question, and the machine answers it in one way only
  | ask task c s next ih =>
    cases h₁ with
    | ask last₁ hrun₁ hlast₁ _ hrest₁ =>
      cases h₂ with
      | ask last₂ hrun₂ hlast₂ _ hrest₂ =>
        obtain ⟨hn, rfl, rfl, rfl⟩ := answer_unique
          (fun asker => after_trans (hrun₁ asker).after_eq (hlast₁ asker))
          (fun asker => after_trans (hrun₂ asker).after_eq (hlast₂ asker))
        obtain ⟨hk, hm, hq⟩ := ih _ _ hrest₁ hrest₂
        exact ⟨congrArg₂ (· + ·) hn hk, hm, hq⟩
  | yield => cases h₁

end LuaPages.Lua
