import LuaPages.Proofs.Lua.Confined

namespace LuaPages.Lua

open Confined

variable {α β : Type} {K : Bounds}

/-- Whatever a program hands on, as a result, with a failure, in a task or in the store, is confined to
`K`, and no line has been printed since it was given control, when `log` had been printed. -/
def Prog.Keeps [Confined α] (K : Bounds) (log : List (Nat × Bytes)) : Prog α → Prop
  | .done a s => within K a ∧ within K s ∧ s.printed = log
  | .fail e _ s => within K e ∧ within K s ∧ s.printed = log
  | .ask t c s k => (within K t ∧ within K c) ∧ (within K s ∧ s.printed = log) ∧
      ∀ r s', within K r → within K s' → (k r s').Keeps K s'.printed
  | .yield vs s k => within K vs ∧ (within K s ∧ s.printed = log) ∧
      ∀ vs s', within K vs → within K s' → (k vs s').Keeps K s'.printed

theorem Prog.Keeps.bind [Confined α] [Confined β] {log : List (Nat × Bytes)} {p : Prog α}
    {f : α → Store → Prog β} (hp : p.Keeps K log)
    (hf : ∀ a s, within K a → within K s → (f a s).Keeps K s.printed) : (p.bind f).Keeps K log := by
  induction p generalizing log with
  | done a s =>
    obtain ⟨ha, hs, rfl⟩ := hp
    exact hf a s ha hs
  | fail => exact hp
  | ask t c s k ih => exact ⟨hp.1, hp.2.1, fun r s' hr hs => ih r s' (hp.2.2 r s' hr hs)⟩
  | yield vs s k ih => exact ⟨hp.1, hp.2.1, fun r s' hr hs => ih r s' (hp.2.2 r s' hr hs)⟩

namespace Script

theorem bind_apply (x : Script α) (f : α → Script β) (s : Store) : (x >>= f) s = (x s).bind f := by
  change Script.bind x f s = _
  unfold Script.bind
  cases x s <;> rfl

def Keeps [Confined α] (K : Bounds) (x : Script α) : Prop :=
  ∀ s, within K s → (x s).Keeps K s.printed

namespace Keeps

variable [Confined α] [Confined β]

@[grind ←] theorem pure {a : α} (ha : within K a) : Keeps K (Pure.pure a : Script α) :=
  fun _ hs => ⟨ha, hs, rfl⟩

@[grind ←] theorem bind {x : Script α} {f : α → Script β} (hx : x.Keeps K)
    (hf : ∀ a, within K a → (f a).Keeps K) : Keeps K (x >>= f) := by
  intro s hs
  rw [bind_apply]
  exact (hx s hs).bind fun a s ha hs => hf a ha s hs

@[grind ←] theorem map {x : Script α} {f : α → β} (hx : x.Keeps K) (hf : ∀ a, within K a → within K (f a)) :
    Keeps K (f <$> x) := hx.bind fun a ha => .pure (hf a ha)

theorem ite {c : Prop} [Decidable c] {x y : Script α} (hx : x.Keeps K) (hy : y.Keeps K) :
    Keeps K (if c then x else y) := by
  split
  · exact hx
  · exact hy

@[grind ←] theorem raise {e : Value} (he : within K e) : Keeps K (Script.raise e : Script α) :=
  fun _ hs => ⟨he, hs, rfl⟩

@[grind ←] theorem reraise {e : Value} (he : within K e) : Keeps K (Script.reraise e : Script α) :=
  fun _ hs => ⟨he, hs, rfl⟩

@[grind ←] theorem read {f : Store → α} (hf : ∀ s, within K s → within K (f s)) :
    Keeps K (Script.read f) := fun s hs => ⟨hf s hs, hs, rfl⟩

@[grind ←] theorem change {f : Store → Store}
    (hf : ∀ s, within K s → within K (f s) ∧ (f s).printed = s.printed) : Keeps K (Script.change f) :=
  fun s hs => ⟨trivial, hf s hs⟩

@[grind ←] theorem update {f : Store → α × Store}
    (hf : ∀ s, within K s → within K (f s) ∧ (f s).2.printed = s.printed) : Keeps K (Script.update f) :=
  fun s hs => ⟨(hf s hs).1.1, (hf s hs).1.2, (hf s hs).2⟩

@[grind ←] theorem ask {t : Task} {c : Catch} (ht : within K t) (hc : within K c) :
    Keeps K (Script.ask t c) := fun _ hs => ⟨⟨ht, hc⟩, ⟨hs, rfl⟩, fun _ _ hr hs => ⟨hr, hs, rfl⟩⟩

@[grind ←] theorem run {t : Task} (ht : within K t) : Keeps K (Script.run t) := by
  refine fun _ hs => ⟨⟨ht, nofun⟩, ⟨hs, rfl⟩, fun r _ hr hs => ?_⟩
  cases r with
  | ok flow => exact ⟨hr.2 flow rfl, hs, rfl⟩
  | error e => exact ⟨hr.1 e rfl, hs, rfl⟩

@[grind ←] theorem yield {vs : List Value} (hvs : within K vs) : Keeps K (Script.yield vs) :=
  fun _ hs => ⟨hvs, ⟨hs, rfl⟩, fun _ _ hvs hs => ⟨hvs, hs, rfl⟩⟩

end Keeps

end Script

end LuaPages.Lua
