import LuaPages.Proofs.Lua.Confined

namespace LuaPages.Lua

open Confined

variable {K : Bounds} {nodes : Array Node} {n : Node} {t : Table} {key value : Value}

namespace Confined

variable {α β : Type} [Confined α] [Confined β]

theorem within_setIfInBounds {l : Array α} {a : α} (hl : within K l) (ha : within K a) (i : Nat) :
    within K (l.setIfInBounds i a) := by
  intro b hb
  rcases Array.mem_or_eq_of_mem_setIfInBounds hb with hb | rfl
  · exact hl b hb
  · exact ha

theorem within_push {l : Array α} {a : α} (hl : within K l) (ha : within K a) : within K (l.push a) := by
  intro b hb
  rcases Array.mem_push.mp hb with hb | rfl
  · exact hl b hb
  · exact ha

theorem within_modify {l : Array α} {f : α → α} (hl : within K l)
    (hf : ∀ a, within K a → within K (f a)) (i : Nat) : within K (l.modify i f) := by
  intro b hb
  obtain ⟨j, hj, rfl⟩ := Array.mem_iff_getElem.mp hb
  rw [Array.getElem_modify]
  split
  · exact hf _ (hl _ (Array.getElem_mem _))
  · exact hl _ (Array.getElem_mem _)

theorem within_replicate {a : α} (ha : within K a) (n : Nat) : within K (Array.replicate n a) := by
  intro b hb
  rw [Array.eq_of_mem_replicate hb]
  exact ha

theorem within_foldl {f : β → α → β} (hf : ∀ b a, within K b → within K a → within K (f b a))
    {l : Array α} (hl : within K l) {b : β} (hb : within K b) : within K (l.foldl f b) := by
  refine Array.foldl_induction (fun _ b => within K b) hb ?_
  intro i b hb
  exact hf b _ hb (hl _ (Array.getElem_mem _))

end Confined

theorem Node.within_vacant : within K Node.vacant := ⟨within_nil, within_nil⟩

theorem Value.within_asKey (h : within K key) : within K key.asKey := by
  unfold asKey
  split
  · split <;> exact within_number _
  · exact h

namespace Table

@[grind ←] theorem within_create (arraySize nodeSize : Nat) : within K (create arraySize nodeSize) :=
  ⟨within_replicate within_nil _, within_replicate Node.within_vacant _⟩

theorem within_default : within K (default : Table) :=
  ⟨fun v hv => absurd hv (Array.not_mem_empty v), fun n hn => absurd hn (Array.not_mem_empty n)⟩

theorem within_getKey (h : within K t) (key : Value) : within K (t.getKey key) := by
  unfold getKey
  split
  · exact within_getD h.1 within_nil _
  · split
    · exact (within_getD h.2 Node.within_vacant _).2
    · exact within_nil

@[grind ←] theorem within_get (h : within K t) (key : Value) : within K (t.get key) := within_getKey h _

@[grind ←] theorem within_getText (h : within K t) (s : String) : within K (t.getText s) := within_getKey h _

theorem within_setNext (h : within K nodes) (i next : Nat) : within K (setNext nodes i next) :=
  have hi : within K (nodes.getD i .vacant) := within_getD h Node.within_vacant i
  have hnew : within K ({ nodes.getD i .vacant with next := some next } : Node) := hi
  within_setIfInBounds h hnew i

theorem within_setValue (h : within K nodes) (hvalue : within K value) (i : Nat) :
    within K (setValue nodes i value) :=
  have hi : within K (nodes.getD i .vacant) := within_getD h Node.within_vacant i
  have hnew : within K ({ nodes.getD i .vacant with value := value } : Node) := ⟨hi.1, hvalue⟩
  within_setIfInBounds h hnew i

theorem within_insertChained (h : within K nodes) (hkey : within K key) (hvalue : within K value)
    (main free : Nat) : within K (insertChained nodes main free key value) := by
  have hthere : within K (nodes.getD main .vacant) := within_getD h Node.within_vacant main
  have hnew (next : Option Nat) : within K (⟨key, value, next⟩ : Node) := ⟨hkey, hvalue⟩
  unfold insertChained
  dsimp only
  split
  · exact within_setNext (within_setIfInBounds h (hnew _) _) _ _
  · exact within_setIfInBounds (within_setIfInBounds (within_setNext h _ _) hthere _) (hnew _) _

theorem within_addNode (h : within K t) (hkey : within K key) (hvalue : within K value) :
    within K (t.addNode key value).2 := by
  have hnew : within K (⟨key, value, (t.nodes.getD (mainPosition t.nodes.size key) .vacant).next⟩ : Node) :=
    ⟨hkey, hvalue⟩
  unfold addNode
  dsimp only
  split
  · exact h
  · split
    · exact ⟨h.1, within_setIfInBounds h.2 hnew _⟩
    · split
      · exact h
      · exact ⟨h.1, within_insertChained h.2 hkey hvalue _ _⟩

theorem within_place (h : within K t) (hkey : within K key) (hvalue : within K value) :
    within K (t.place key value) := by
  unfold place
  split
  · exact ⟨within_setIfInBounds h.1 hvalue _, h.2⟩
  · exact within_addNode h hkey hvalue

theorem within_resize (h : within K t) (arraySize nodeSize : Nat) :
    within K (t.resize arraySize nodeSize) := by
  have hpart (i j : Nat) : within K (t.array.extract i j) := by
    intro v hv
    obtain ⟨k, -, rfl⟩ := Array.mem_extract_iff_getElem.mp hv
    exact h.1 _ (Array.getElem_mem _)
  unfold resize
  dsimp only
  -- both parts are put back one by one into new ones
  refine within_foldl (fun acc n hacc hn => ?_) h.2 ?_
  · split
    · exact hacc
    · exact within_place hacc hn.1 hn.2
  · refine (within_foldl (β := Table × Nat) (fun acc v hacc hv => ?_) (hpart _ _) ?_).1
    · refine ⟨?_, trivial⟩
      dsimp only
      split
      · exact hacc.1
      · exact within_place hacc.1 (within_number _) hv
    · refine ⟨⟨?_, within_replicate Node.within_vacant _⟩, trivial⟩
      intro v hv
      rcases Array.mem_append.mp hv with hv | hv
      · exact hpart _ _ v hv
      · exact within_replicate within_nil _ v hv

@[grind ←] theorem within_reserve (h : within K t) (n : Nat) : within K (t.reserve n) := by
  unfold reserve
  split
  · exact within_resize h _ _
  · exact h

theorem within_setKey (h : within K t) (hkey : within K key) (hvalue : within K value) :
    within K (t.setKey key value) := by
  unfold setKey
  split
  · exact ⟨within_setIfInBounds h.1 hvalue _, h.2⟩
  · split
    · exact ⟨h.1, within_setValue h.2 hvalue _⟩
    · split
      · exact h
      · have hadd := within_addNode h hkey hvalue
        split
        · rename_i hroom
          rwa [hroom] at hadd
        · rename_i hroom
          rw [hroom] at hadd
          exact within_place (within_resize hadd _ _) hkey hvalue

@[grind ←] theorem within_set (h : within K t) (hkey : within K key) (hvalue : within K value) :
    within K (t.set key value) := within_setKey h (Value.within_asKey hkey) hvalue

@[grind ←] theorem within_setInt (h : within K t) (i : Int) (hvalue : within K value) :
    within K (t.setInt i value) := within_setKey h (within_number _) hvalue

@[grind ←] theorem within_setText (h : within K t) (s : String) (hvalue : within K value) :
    within K (t.setText s value) := within_setKey h (within_string _) hvalue

theorem within_entryFrom (h : within K t) (fuel i : Nat) : within K (t.entryFrom fuel i) := by
  induction fuel generalizing i with
  | zero => exact within_none
  | succ fuel ih =>
    have hv : within K (t.array.getD i .nil) := within_getD h.1 within_nil i
    have hn : ∀ n, t.nodes[i - t.array.size]? = some n → within K n :=
      fun n hn => h.2 n (Array.mem_of_getElem? hn)
    rw [entryFrom]
    generalize t.array.getD i .nil = v at hv
    generalize t.nodes[i - t.array.size]? = n? at hn
    split
    · dsimp only
      split
      · exact ih _
      · exact within_some.mpr ⟨within_number _, hv⟩
    · cases n? with
      | none => exact within_none
      | some n =>
        dsimp only
        split
        · exact ih _
        · exact within_some.mpr (hn n rfl)

@[grind ←] theorem within_next (h : within K t) (key : Value) : within K (t.next key) := by
  intro entry hentry
  obtain ⟨i, -, rfl⟩ := Option.map_eq_some_iff.mp hentry
  exact within_entryFrom h _ i

theorem metatable_addNode (t : Table) (key value : Value) : (t.addNode key value).2.metatable = t.metatable := by
  unfold addNode
  dsimp only
  split
  · rfl
  · split
    · rfl
    · split <;> rfl

theorem metatable_place (t : Table) (key value : Value) : (t.place key value).metatable = t.metatable := by
  unfold place
  split
  · rfl
  · exact metatable_addNode t key value

theorem metatable_resize (t : Table) (arraySize nodeSize : Nat) :
    (t.resize arraySize nodeSize).metatable = t.metatable := by
  unfold resize
  dsimp only
  refine Array.foldl_induction (fun _ (acc : Table) => acc.metatable = t.metatable) ?_ fun i acc hacc => ?_
  · refine Array.foldl_induction (fun _ (acc : Table × Nat) => acc.1.metatable = t.metatable) rfl
      fun i acc hacc => ?_
    dsimp only
    split
    · exact hacc
    · exact (metatable_place _ _ _).trans hacc
  · split
    · exact hacc
    · exact (metatable_place _ _ _).trans hacc

theorem metatable_setKey (t : Table) (key value : Value) : (t.setKey key value).metatable = t.metatable := by
  have hadd := metatable_addNode t key value
  unfold setKey
  split
  · rfl
  · split
    · rfl
    · split
      · rfl
      · split
        · rename_i heq
          rwa [heq] at hadd
        · rename_i heq
          rw [heq] at hadd
          exact ((metatable_place _ _ _).trans (metatable_resize _ _ _)).trans hadd

theorem metatable_setText (t : Table) (s : String) (v : Value) : (t.setText s v).metatable = t.metatable :=
  metatable_setKey t _ v

end Table

end LuaPages.Lua
