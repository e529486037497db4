import LuaPages.Proofs.Document.Driver

namespace LuaPages.Document

variable {σ ε : Type}

namespace Segment

/-- All chunks of a list of segments succeed. They leave the session behind, with nothing in its sink, and
the destination has taken the texts and what the chunks printed, in turn. -/
def Delivers (behaviour : Behaviour σ ε) (l : List Segment) (state : σ) (out : Destination)
    (s : Session σ) (out' : Destination) : Prop :=
  ∃ last outputs, behaviour.runAll state (sources l) = some (last, outputs) ∧ s = .start last ∧
    out.write (Bytes.concat (writes l outputs)) = (out', true)

section
variable {behaviour : Behaviour σ ε} {l : List Segment} {state next : σ} {out out₁ out' : Destination}
  {s : Session σ} {b c printed : Bytes}

theorem delivers_nil : Delivers behaviour [] state out (.start state) out :=
  ⟨state, [], rfl, rfl, out.write_empty⟩

theorem Delivers.after_text (h : Delivers behaviour l state out₁ s out')
    (hw : out.write b = (out₁, true)) : Delivers behaviour (.text b :: l) state out s out' := by
  obtain ⟨last, outputs, hall, hs, hwritten⟩ := h
  refine ⟨last, outputs, hall, hs, ?_⟩
  change out.write (b ++ Bytes.concat (writes l outputs)) = _
  rw [Destination.write_append, hw, hwritten]
  rfl

theorem Delivers.after_region {x : Segment} (h : Delivers behaviour l next out₁ s out')
    (hx : x = .region c ∨ x = .unclosed c) (hb : behaviour state c = (next, printed, none))
    (hw : out.write printed = (out₁, true)) : Delivers behaviour (x :: l) state out s out' := by
  obtain ⟨last, outputs, hall, hs, hwritten⟩ := h
  have hsources : sources (x :: l) = c :: sources l := by rcases hx with rfl | rfl <;> rfl
  have hwrites : writes (x :: l) (printed :: outputs) = printed :: writes l outputs := by
    rcases hx with rfl | rfl <;> rfl
  refine ⟨last, printed :: outputs, ?_, hs, ?_⟩
  · simp only [hsources, Behaviour.runAll, hb, hall, Option.map_some]
  · rw [hwrites, Bytes.concat, Destination.write_append, hw, hwritten]
    rfl

end

/-- A chunk that is run without failure leaves nothing in the sink, and all it printed is taken. -/
theorem exists_printed_of_running (behaviour : Behaviour σ ε) (line : Nat) (c : Bytes) (state : σ)
    (out : Destination) (hdone : (running behaviour line c (.start state) out).failure = none) :
    ∃ next printed, behaviour state c = (next, printed, none) ∧
      (running behaviour line c (.start state) out).session = .start next ∧
      out.write printed = ((running behaviour line c (.start state) out).out, true) := by
  rcases hb : behaviour state c with ⟨next, printed, _ | e⟩
  · simp only [running, Session.exec, Session.start, hb, Session.drain, ByteArray.empty_append] at hdone ⊢
    cases ht : (out.write printed).2 with
    | true => exact ⟨next, printed, rfl, rfl, Prod.ext rfl ht⟩
    | false => simp only [ht, Bool.false_eq_true, if_false, reduceCtorEq] at hdone
  · simp only [running, Session.exec, Session.start, hb, reduceCtorEq] at hdone

/-- A segment that is performed without failure delivers what it stands for, and more segments go on from
what it leaves behind. -/
theorem exists_next_of_perform (behaviour : Behaviour σ ε) (x : Segment) (line : Nat) (state : σ)
    (out : Destination) (hdone : (x.perform behaviour line (.start state) out).failure = none) :
    ∃ next, (x.perform behaviour line (.start state) out).session = .start next ∧
      ∀ {l s out'}, Delivers behaviour l next (x.perform behaviour line (.start state) out).out s out' →
        Delivers behaviour (x :: l) state out s out' := by
  have hregion (c : Bytes) (hc : x = .region c ∨ x = .unclosed c)
      (hperform : x.perform behaviour line = running behaviour (line + c.lineFeeds) c) :
      ∃ next, (x.perform behaviour line (.start state) out).session = .start next ∧
        ∀ {l s out'}, Delivers behaviour l next (x.perform behaviour line (.start state) out).out s out' →
          Delivers behaviour (x :: l) state out s out' := by
    rw [hperform] at hdone ⊢
    obtain ⟨next, printed, hb, hsession, hw⟩ := exists_printed_of_running behaviour _ c state out hdone
    exact ⟨next, hsession, fun h => h.after_region hc hb hw⟩
  cases x with
  | text b =>
    refine ⟨state, rfl, fun h => h.after_text (Prod.ext rfl ?_)⟩
    cases hw : (out.write b).2 with
    | true => rfl
    | false => simp only [perform, writing, hw, Bool.false_eq_true, if_false, reduceCtorEq] at hdone
  | region c => exact hregion c (.inl rfl) rfl
  | unclosed c => exact hregion c (.inr rfl) rfl

/-- Segments that are expanded without failure deliver what they stand for. -/
theorem delivers_of_expand (behaviour : Behaviour σ ε) (l : List Segment) (line : Nat) (state : σ)
    (out : Destination) (hdone : (expand behaviour l line (.start state) out).failure = none) :
    Delivers behaviour l state out (expand behaviour l line (.start state) out).session
      (expand behaviour l line (.start state) out).out := by
  induction l generalizing line state out with
  | nil => exact delivers_nil
  | cons x l ih =>
    rw [expand] at hdone ⊢
    cases hx : (x.perform behaviour line (.start state) out).failure with
    | some f =>
      rw [Outcome.andThen_of_failed _ _ (hx ▸ Option.some_ne_none f), hx] at hdone
      cases hdone
    | none =>
      obtain ⟨next, hsession, hcons⟩ := exists_next_of_perform behaviour x line state out hx
      rw [Outcome.andThen_of_done _ _ hx, hsession] at hdone ⊢
      exact hcons (ih _ next _ hdone)

/-- What stands in a document before a position stands in its beginning by itself, if it stands in the
document whatever is read from the position on. -/
theorem reads_beginning {doc : Bytes} {i : Nat} {l : List Segment} (hi : i ≤ doc.size)
    (h : ∀ r, Reads doc i r → Reads doc 0 (l ++ r)) : Reads (doc.extract 0 i) 0 l := by
  let r := text (doc.extract i i) :: readFrom doc (doc.size + 1) i
  have hr : Reads doc i r :=
    .text (Nat.le_refl i) hi (fun k hk hk' => by omega) (reads_readFrom doc _ i hi (by omega))
  obtain ⟨j, -, -, hl, hrest⟩ := (h r hr).split (List.cons_ne_nil _ _)
  -- the rest of the document is as long from `i` on as from `j` on
  have hsize : doc.size - i = doc.size - j := by
    rw [← Bytes.size_extract_of_le doc i _ (Nat.le_refl _), ← Bytes.size_extract_of_le doc j _ (Nat.le_refl _),
      ← hr.assemble_eq, ← hrest.assemble_eq]
  have hj := hrest.le
  obtain rfl : i = j := by omega
  exact hl

end Segment

/-- The line of a chunk matters only if the chunk fails. -/
theorem running_of_done (behaviour : Behaviour σ ε) (line line' : Nat) (c : Bytes) (s : Session σ)
    (out : Destination) (hdone : (running behaviour line c s out).failure = none) :
    running behaviour line' c s out = running behaviour line c s out := by
  rcases he : s.exec behaviour c with ⟨s', _ | e⟩
  · simp only [running, he]
  · simp only [running, he, reduceCtorEq] at hdone

/-- A document is expanded up to a position: whatever is read from there on, the segments before it are
expanded without failure, and leave the session and the destination behind. -/
def ExpandedUpTo (behaviour : Behaviour σ ε) (state : σ) (doc : Bytes) (out : Destination) (i : Nat)
    (s : Session σ) (out' : Destination) : Prop :=
  ∃ l ran, (∀ r, Segment.Reads doc i r → Segment.Reads doc 0 (l ++ r)) ∧
    Segment.expand behaviour l 1 (.start state) out = ⟨s, out', none, ran⟩

namespace ExpandedUpTo

variable {behaviour : Behaviour σ ε} {state : σ} {doc : Bytes} {out out' : Destination} {i : Nat}
  {s : Session σ}

theorem start : ExpandedUpTo behaviour state doc out 0 (.start state) out :=
  ⟨[], [], fun _ hr => hr, rfl⟩

/-- Text is written. -/
theorem text (h : ExpandedUpTo behaviour state doc out i s out') {j : Nat} (hij : i ≤ j)
    (hj : j ≤ doc.size) (hopen : ∀ k, i ≤ k → k < j → isOpenMarker doc k = false)
    (hw : (out'.write (doc.extract i j)).2 = true) :
    ExpandedUpTo behaviour state doc out j s (out'.write (doc.extract i j)).1 := by
  obtain ⟨l, ran, hreads, hexpand⟩ := h
  refine ⟨l ++ [.text (doc.extract i j)], ran ++ ([] ++ []), fun r hr => ?_, ?_⟩
  · rw [List.append_assoc]
    exact hreads _ (.text hij hj hopen hr)
  · have hwriting : (writing (doc.extract i j) s out' : Outcome σ ε) =
        ⟨s, (out'.write (doc.extract i j)).1, none, []⟩ := by
      rw [writing, hw]
      rfl
    rw [Segment.expand_append, hexpand, Outcome.andThen_of_done _ _ rfl, Segment.expand, Segment.perform,
      hwriting]
    rfl

/-- A region is run. -/
theorem region (h : ExpandedUpTo behaviour state doc out i s out') {j line : Nat}
    (hopen : isOpenMarker doc i = true) (hij : i + openMarker.size ≤ j)
    (hclose : ∀ k, i + openMarker.size ≤ k → k < j → isCloseMarker doc k = false)
    (hj : isCloseMarker doc j = true)
    (hdone : (running behaviour line (doc.extract (i + openMarker.size) j) s out').failure = none) :
    ExpandedUpTo behaviour state doc out (j + closeMarker.size)
      (running behaviour line (doc.extract (i + openMarker.size) j) s out').session
      (running behaviour line (doc.extract (i + openMarker.size) j) s out').out := by
  obtain ⟨l, ran, hreads, hexpand⟩ := h
  generalize hc : doc.extract (i + openMarker.size) j = c at hdone ⊢
  refine ⟨l ++ [.region c], ran ++ ((running behaviour line c s out').ran ++ []), fun r hr => ?_, ?_⟩
  · rw [List.append_assoc, ← hc]
    exact hreads _ (.region hopen hij hclose hj hr)
  · rw [Segment.expand_append, hexpand, Outcome.andThen_of_done _ _ rfl, Segment.expand, Segment.perform,
      running_of_done behaviour line _ c s out' hdone, Outcome.andThen_of_done _ _ hdone]
    rfl

/-- The beginning of the document by itself comes to the same. -/
theorem expand_beginning (h : ExpandedUpTo behaviour state doc out i s out') (hi : i ≤ doc.size) :
    ∃ ran, Segment.expand behaviour (Segment.read (doc.extract 0 i)) 1 (.start state) out =
      ⟨s, out', none, ran⟩ := by
  obtain ⟨l, ran, hreads, hexpand⟩ := h
  refine ⟨ran, ?_⟩
  rw [Expansion.expand_read behaviour state _ out l (Segment.reads_beginning hi hreads), hexpand]

end ExpandedUpTo

end LuaPages.Document
