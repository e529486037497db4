import Mathlib.Data.List.Basic
import LuaPages.Lua.Machine
/-!
Where `print` functions can be found. Values, tables, stores and all else that a script handles are
confined to some sinks if every `print` function in them writes to one of these sinks. What scripts do
with tables puts nothing into them that was not there before.
-/
namespace LuaPages.Lua

/-- What scripts are bounded by: the sinks that their `print` functions may write to, and the lines that
they may print, with the sinks of these. -/
structure Bounds where
  sinks : Nat → Prop
  lines : Nat × Bytes → Prop

variable {α β : Type} {K : Bounds}

/-- Things that may hold values, and when the `print` functions among these write to sinks in `K`. -/
class Confined (α : Type) where
  within : Bounds → α → Prop

export Confined (within)

namespace Confined

instance (priority := low) ofNoValues : Confined α := ⟨fun _ _ => True⟩

@[simp, grind =] theorem within_ofNoValues (a : α) : ofNoValues.within K a ↔ True := Iff.rfl

instance : Confined Value :=
  ⟨fun K v => ∀ serial sink, v = .builtin (.print serial sink) → K.sinks sink⟩

instance [Confined α] : Confined (List α) := ⟨fun K l => ∀ a ∈ l, within K a⟩

instance [Confined α] : Confined (Array α) := ⟨fun K l => ∀ a ∈ l, within K a⟩

instance [Confined α] : Confined (Option α) := ⟨fun K o => ∀ a, o = some a → within K a⟩

instance [Confined α] [Confined β] : Confined (α × β) := ⟨fun K p => within K p.1 ∧ within K p.2⟩

instance [Confined α] [Confined β] : Confined (Except α β) :=
  ⟨fun K r => (∀ a, r = .error a → within K a) ∧ ∀ b, r = .ok b → within K b⟩

@[grind =] theorem within_value {v : Value} :
    within K v ↔ ∀ serial sink, v = .builtin (.print serial sink) → K.sinks sink := Iff.rfl

theorem within_nil : within K Value.nil := nofun

theorem within_number (n : Number) : within K (Value.number n) := nofun

theorem within_string (s : Bytes) : within K (Value.string s) := nofun

@[grind ←] theorem within_int (n : Int64) : within K (Value.int n) := within_number _

@[grind ←] theorem within_float (x : Binary64) : within K (Value.float x) := within_number _

@[grind ←] theorem within_ofInt (i : Int) : within K (Value.ofInt i) := within_number _

@[grind ←] theorem within_ofNat (n : Nat) : within K (Value.ofNat n) := within_number _

@[grind ←] theorem within_text (s : String) : within K (Value.text s) := within_string _

@[grind =] theorem within_list [Confined α] {l : List α} : within K l ↔ ∀ a ∈ l, within K a := Iff.rfl

@[simp, grind ←] theorem within_emptyList [Confined α] : within K ([] : List α) := List.forall_mem_nil _

@[simp, grind =] theorem within_listCons [Confined α] {a : α} {l : List α} :
    within K (a :: l) ↔ within K a ∧ within K l := List.forall_mem_cons

@[grind =] theorem within_option [Confined α] {o : Option α} :
    within K o ↔ ∀ a, o = some a → within K a := Iff.rfl

@[simp] theorem within_none [Confined α] : within K (none : Option α) :=
  within_option.mpr fun _ h => absurd h (Option.some_ne_none _).symm

@[simp] theorem within_some [Confined α] {a : α} : within K (some a) ↔ within K a := by
  rw [within_option]
  simp

@[grind ←] theorem within_optionGetD [Confined α] {o : Option α} {d : α} (ho : within K o)
    (hd : within K d) : within K (o.getD d) := by
  cases o with
  | none => exact hd
  | some a => exact within_some.mp ho

@[grind =] theorem within_prod [Confined α] [Confined β] {p : α × β} :
    within K p ↔ within K p.1 ∧ within K p.2 := Iff.rfl

theorem within_getD [Confined α] {l : Array α} {d : α} (hl : within K l) (hd : within K d) (i : Nat) :
    within K (l.getD i d) := by
  rw [Array.getD_eq_getD_getElem?]
  cases h : l[i]? with
  | none => exact hd
  | some a => exact hl a (Array.mem_of_getElem? h)

instance : Confined Node := ⟨fun K n => within K n.key ∧ within K n.value⟩

instance : Confined Table := ⟨fun K t => within K t.array ∧ within K t.nodes⟩

instance : Confined Thread := ⟨fun K t => within K t.body⟩

instance : Confined Activation := ⟨fun K a => within K a.slots ∧ within K a.varargs⟩

instance : Confined Store :=
  ⟨fun K s => (within K s.tables ∧ within K s.cells) ∧ within K s.threads ∧ within K s.active⟩

instance : Confined Flow :=
  ⟨fun K flow => match flow with
    | .return vs => within K vs
    | .tail f args _ => within K f ∧ within K args
    | _ => True⟩

instance : Confined Job :=
  ⟨fun K job => match job with
    | .iterate _ f state control _ _ => within K f ∧ within K state ∧ within K control
    | _ => True⟩

instance : Confined Task :=
  ⟨fun K task => match task with
    | .call f args _ => within K f ∧ within K args
    | .job j => within K j
    | .resume _ args => within K args
    | .close _ => True⟩

instance : Confined Catch :=
  ⟨fun K c => ∀ h, c = .handled h → within K h⟩

instance : Confined Outcome :=
  ⟨fun K o => match o with
    | .finish flow => within K flow
    | .again task => within K task⟩

end Confined

end LuaPages.Lua
